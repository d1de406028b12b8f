import Esp8266Toolbox.Drivers.I2cMasterTheorems

/-!
# What `i2c_master_init` frees

A restart may leave a target in the middle of a transaction. The 28 clocks of the initialisation
carry it past its byte, and the missing acknowledgement makes it give up; only a target that was
about to acknowledge, and goes on acknowledging the bytes 0xff that it then hears, still holds the
data wire at the last clock. A second initialisation frees that one too.
-/

namespace Esp8266Toolbox

open TwoWire I2cMaster

namespace I2cMaster

/-! ## The calls -/

section
variable {σ : Type} (tgt : Target σ)

/-- The target when the master has taken the clock down. -/
def clockedDown (b : Bus σ) : σ := (b.drive tgt true false).target

theorem setDC_clockedDown (m : I2cMaster σ) :
    m.setDC tgt 1 0 = atLow true (clockedDown tgt m.bus) := by
  rw [setDC_eq tgt m (d := true) (c := false) rfl rfl, Bus.drive_down]
  rfl

/-- The clocks of the initialisation. -/
theorem foldl_clocks (x : σ) (k : ℕ) :
    (List.range (k + 1)).foldl (fun m _ => (m.setDC tgt 1 0).setDC tgt 1 1) (atLow true x)
      = atHigh true (some (!tgt.pulls ((tgt.pulse true)^[k] x))) ((tgt.pulse true)^[k] x) := by
  induction k with
  | zero =>
    change ((atLow true x).setDC tgt 1 0).setDC tgt 1 1 = _
    rw [atLow_data tgt true x (d := true) rfl, atLow_rise tgt true x rfl, Bool.true_and]
    rfl
  | succ k ih =>
    have hbit : (1 : UInt8) &&& 1 = level true := rfl
    have hfall := atHigh_fall tgt true ((tgt.pulse true)^[k] x) hbit
    rw [Bool.true_and] at hfall
    rw [List.range_succ, List.foldl_concat, ih, hfall, atLow_rise tgt true _ rfl, Bool.true_and,
      ← Function.iterate_succ_apply' (tgt.pulse true)]

/-- `i2c_master_init` up to its stop, which begins under a high clock. -/
theorem init_eq (m : I2cMaster σ) :
    m.init tgt = (atHigh true (some (!tgt.pulls ((tgt.pulse true)^[27] (clockedDown tgt m.bus))))
      ((tgt.pulse true)^[27] (clockedDown tgt m.bus))).stop tgt := by
  have hlow : ((m.setDC tgt 1 0).setDC tgt 0 0).setDC tgt 1 0 = atLow true (clockedDown tgt m.bus) := by
    rw [setDC_clockedDown tgt m, atLow_data tgt true _ (d := false) rfl,
      atLow_data tgt false _ (d := true) rfl]
  rw [init, hlow, foldl_clocks tgt _ 27]

/-- The last stop gives a start and a stop, unless the target holds the data. -/
theorem stop_atHigh {y : σ} (bit : Option Bool) (h : tgt.pulls y = false)
    (h' : tgt.pulls (tgt.hear y .start) = false) :
    (atHigh true bit y).stop tgt = free (tgt.hear (tgt.hear y .start) .stop) := by
  simp only [stop, atHigh, free, setDC_level tgt _ false true, setDC_level tgt _ true true,
    show (1 : UInt8) = level true from rfl, show (0 : UInt8) = level false from rfl,
    Bus.drive_high, Bus.drive_start tgt h, Bus.drive_stop tgt h']

/-- A target that holds the data hears nothing of it. -/
theorem stop_held {y : σ} (bit : Option Bool) (h : tgt.pulls y = true) :
    (atHigh true bit y).stop tgt = atHigh true bit y := by
  simp only [stop, atHigh, setDC_level tgt _ false true, setDC_level tgt _ true true,
    show (1 : UInt8) = level true from rfl, show (0 : UInt8) = level false from rfl,
    Bus.drive_held tgt h]

end
end I2cMaster

/-! ## The target under the clocks -/

section
variable (dev : I2cDevice)

/-- The target after `k` clocks with the data released by the master. -/
abbrev clocked (k : ℕ) (x : I2cState) : I2cState := (dev.onWire.pulse true)^[k] x

theorem clocked_add (j k : ℕ) (x : I2cState) : clocked dev (j + k) x = clocked dev k (clocked dev j x) := by
  rw [Nat.add_comm, clocked, Function.iterate_add_apply]

/-- The target has given up, and goes on doing nothing. -/
def GivenUp (x : I2cState) : Prop := x.phase = .idle

theorem GivenUp.pulls {x : I2cState} (h : GivenUp x) : dev.onWire.pulls x = false := by
  simp only [I2cDevice.onWire, show x.phase = .idle from h]

theorem GivenUp.forever {x : I2cState} (h : GivenUp x) (k : ℕ) : GivenUp (clocked dev k x) := by
  obtain ⟨t, phase⟩ := x
  obtain rfl : phase = .idle := h
  have hfix : dev.onWire.pulse true ⟨t, .idle⟩ = ⟨t, .idle⟩ := rfl
  rw [clocked, Function.iterate_fixed hfix k]
  rfl

theorem GivenUp.of_le {x : I2cState} {j k : ℕ} (hjk : j ≤ k) (h : GivenUp (clocked dev j x)) :
    GivenUp (clocked dev k x) := by
  rw [← Nat.add_sub_of_le hjk, clocked_add]
  exact h.forever dev _

/-- A target that sends gives up after its byte. -/
theorem clocked_send (t : Trace) (b : UInt8) (n : Fin 8) :
    GivenUp (clocked dev 9 ⟨t, .send b n⟩) := by
  have hbyte := iterate_pulse_send_all dev t b true (n := n) (k := 8 - n) (by omega) (by omega)
  have hlast : GivenUp (clocked dev (8 - n + 1) ⟨t, .send b n⟩) := by
    rw [clocked_add, show clocked dev (8 - n) ⟨t, .send b n⟩ = ⟨t ++ [.read b], .await⟩ from hbyte]
    rfl
  exact hlast.of_le dev (by omega)

theorem bits_lt {n k : ℕ} (hk : n + k ≤ 7) : n < 8 := by omega

theorem bits_add_lt {n k : ℕ} (hk : n + k ≤ 7) : n + k < 8 := by omega

/-- A target that listens collects ones up to the end of its byte. -/
theorem clocked_receive (t : Trace) (address : Bool) (acc : UInt8) {n k : ℕ} (hk : n + k ≤ 7) :
    clocked dev k ⟨t, .receive address ⟨n, bits_lt hk⟩ acc⟩
      = ⟨t, .receive address ⟨n + k, bits_add_lt hk⟩ ((List.replicate k true).foldl pushBit acc)⟩ := by
  have hrun := foldl_pulse_receive dev t address (List.replicate k true) (n := n)
    (by rwa [List.length_replicate]) acc
  simp only [List.length_replicate] at hrun
  rw [← hrun, clocked]
  clear hrun
  generalize (⟨t, .receive address ⟨n, _⟩ acc⟩ : I2cState) = x
  induction k generalizing x with
  | zero => rfl
  | succ k ih => exact ih (by omega) _

theorem clocked_receive_all (t : Trace) (address : Bool) (acc : UInt8) (n : Fin 8) :
    ∃ b, clocked dev (8 - n) ⟨t, .receive address n acc⟩ = dev.heardByte t address b := by
  have hrun := clocked_receive dev t address acc (n := n) (k := 7 - n) (by omega)
  refine ⟨pushBit ((List.replicate (7 - n) true).foldl pushBit acc) true, ?_⟩
  rw [show 8 - n.val = 7 - n + 1 by omega, clocked_add, hrun]
  simp only [show n.val + (7 - n) = 7 by omega]
  exact pulse_receive_last dev t address _ true

/-- A target that listens is where it was nine clocks before, unless it has given up or sends. -/
theorem clocked_nine (t : Trace) (address : Bool) (acc : UInt8) (n : Fin 8) :
    GivenUp (clocked dev 9 ⟨t, .receive address n acc⟩) ∨
    (∃ t' acc', clocked dev 9 ⟨t, .receive address n acc⟩ = ⟨t', .receive false n acc'⟩) ∨
    address = true ∧ ∃ t' b, clocked dev 9 ⟨t, .receive address n acc⟩ = ⟨t', .send b n⟩ := by
  obtain ⟨b, hbyte⟩ := clocked_receive_all dev t address acc n
  have hsplit : clocked dev 9 ⟨t, .receive address n acc⟩
      = clocked dev n (dev.onWire.pulse true (dev.heardByte t address b)) := by
    rw [show 9 = 8 - n.val + (1 + n) by omega, clocked_add, hbyte, clocked_add]
    rfl
  rw [hsplit]
  cases hack : dev.ack (t ++ [.write b]) with
  | false =>
    refine .inl (GivenUp.forever dev ?_ n)
    simp [Target.pulse, I2cDevice.onWire, I2cDevice.heardByte, I2cDevice.hearBit, hack, GivenUp]
  | true =>
    have hnext : dev.onWire.pulse true (dev.heardByte t address b)
        = if address && b.toNat.testBit 0 then dev.sendNext (t ++ [.write b] ++ [.ack true])
          else ⟨t ++ [.write b] ++ [.ack true], .receive false 0 0⟩ := by
      simp [Target.pulse, I2cDevice.onWire, I2cDevice.heardByte, I2cDevice.hearBit, hack]
    rw [hnext]
    cases hwanted : address && b.toNat.testBit 0 with
    | false =>
      refine .inr (.inl ⟨t ++ [.write b] ++ [.ack true], (List.replicate n true).foldl pushBit 0, ?_⟩)
      have hrun := clocked_receive dev (t ++ [.write b] ++ [.ack true]) false 0 (n := 0) (k := n)
        (by omega)
      simp only [Nat.zero_add] at hrun
      exact hrun
    | true =>
      refine .inr (.inr ⟨(Bool.and_eq_true_iff.mp hwanted).1, t ++ [.write b] ++ [.ack true],
        dev.read (t ++ [.write b] ++ [.ack true]), ?_⟩)
      have hrun := iterate_pulse_send dev (t ++ [.write b] ++ [.ack true])
        (dev.read (t ++ [.write b] ++ [.ack true])) true (n := 0) (k := n) (by omega)
      simp only [Nat.zero_add] at hrun
      exact hrun

/-- The target neither sends nor acknowledges: it listens, or has given up. -/
def Quiet (x : I2cState) : Prop := GivenUp x ∨ ∃ t n acc, x = ⟨t, .receive false n acc⟩

theorem Quiet.pulls {x : I2cState} (h : Quiet x) : dev.onWire.pulls x = false := by
  rcases h with h | ⟨t, n, acc, rfl⟩
  · exact h.pulls dev
  · rfl

theorem Quiet.nine {x : I2cState} (h : Quiet x) : Quiet (clocked dev 9 x) := by
  rcases h with h | ⟨t, n, acc, rfl⟩
  · exact .inl (h.forever dev 9)
  · rcases clocked_nine dev t false acc n with hidle | ⟨t', acc', hrec⟩ | ⟨hsend, -⟩
    · exact .inl hidle
    · exact .inr ⟨t', n, acc', hrec⟩
    · cases hsend

/-- A target that listens is quiet at the end of the clocks. -/
theorem quiet_receive (t : Trace) (address : Bool) (acc : UInt8) (n : Fin 8) :
    Quiet (clocked dev 27 ⟨t, .receive address n acc⟩) := by
  rw [show 27 = 9 + 9 + 9 from rfl, clocked_add]
  refine Quiet.nine dev ?_
  rw [clocked_add]
  rcases clocked_nine dev t address acc n with hidle | ⟨t', acc', hrec⟩ | ⟨-, t', b, hsend⟩
  · exact .inl (hidle.forever dev 9)
  · rw [hrec]
    exact Quiet.nine dev (.inr ⟨t', n, acc', rfl⟩)
  · rw [hsend]
    exact .inl (clocked_send dev t' b n)

/-- The trace of a target that has just heard 0xff, behind its acknowledgement. -/
def heardOnes (t : Trace) : Trace := t ++ [.ack true] ++ [.write 0xff]

/-- The target that the initialisation does not free: it acknowledges a byte that it has heard,
and then three bytes of ones. -/
def Stuck (x : I2cState) : Prop :=
  x.phase = .ack false true ∧ dev.ack (heardOnes x.trace) = true ∧
    dev.ack (heardOnes (heardOnes x.trace)) = true ∧
    dev.ack (heardOnes (heardOnes (heardOnes x.trace))) = true

instance (x : I2cState) : Decidable (Stuck dev x) := by unfold Stuck; infer_instance

/-- A target that acknowledges hears ones, and comes to its next acknowledgement. -/
theorem clocked_ack (t : Trace) :
    clocked dev 9 ⟨t, .ack false true⟩ = ⟨heardOnes t, .ack false (dev.ack (heardOnes t))⟩ := by
  have hones : pushBit ((List.replicate 7 true).foldl pushBit 0) true = 0xff := by decide
  have hrun := clocked_receive dev (t ++ [.ack true]) false 0 (n := 0) (k := 7) (by omega)
  have hlast := pulse_receive_last dev (t ++ [.ack true]) false
    ((List.replicate 7 true).foldl pushBit 0) true
  rw [hones] at hlast
  rw [show 9 = 1 + 7 + 1 from rfl, clocked_add, clocked_add]
  exact (congrArg (clocked dev 1) hrun).trans hlast

/-- A target whose acknowledgement fails has given up at the next clock. -/
theorem clocked_nack (t : Trace) (wanted : Bool) {k : ℕ} (hk : 0 < k) :
    GivenUp (clocked dev k ⟨t, .ack wanted false⟩) :=
  GivenUp.of_le dev (j := 1) hk rfl

/-- The end of the clocks, from an acknowledgement. -/
theorem clocked_acks (t : Trace) :
    clocked dev 27 ⟨t, .ack false true⟩ = ⟨heardOnes (heardOnes (heardOnes t)), .ack false true⟩ ∧
      Stuck dev ⟨t, .ack false true⟩ ∨
    dev.onWire.pulls (clocked dev 27 ⟨t, .ack false true⟩) = false ∧
      ¬Stuck dev ⟨t, .ack false true⟩ := by
  rw [show 27 = 9 + (9 + 9) from rfl, clocked_add, clocked_ack, clocked_add]
  cases h₁ : dev.ack (heardOnes t) with
  | false =>
    have hup := (clocked_nack dev (heardOnes t) false (k := 9) (by omega)).forever dev 9
    exact .inr ⟨hup.pulls dev, fun h => absurd h.2.1 (by simp [h₁])⟩
  | true =>
    rw [clocked_ack]
    cases h₂ : dev.ack (heardOnes (heardOnes t)) with
    | false =>
      have hup := clocked_nack dev (heardOnes (heardOnes t)) false (k := 9) (by omega)
      exact .inr ⟨hup.pulls dev, fun h => absurd h.2.2.1 (by simp [h₂])⟩
    | true =>
      rw [clocked_ack]
      cases h₃ : dev.ack (heardOnes (heardOnes (heardOnes t))) with
      | false => exact .inr ⟨rfl, fun h => absurd h.2.2.2 (by simp [h₃])⟩
      | true => exact .inl ⟨rfl, rfl, h₁, h₂, h₃⟩

/-- The end of the clocks, from any state: the data wire is held by a stuck target only. -/
theorem clocked_all (x : I2cState) :
    clocked dev 27 x = ⟨heardOnes (heardOnes (heardOnes x.trace)), .ack false true⟩ ∧ Stuck dev x ∨
    dev.onWire.pulls (clocked dev 27 x) = false ∧ ¬Stuck dev x := by
  obtain ⟨t, phase⟩ := x
  have hother {y : I2cState} (hy : y.phase ≠ .ack false true) : ¬Stuck dev y := fun h => hy h.1
  cases phase with
  | idle =>
    have hup : GivenUp (clocked dev 0 ⟨t, .idle⟩) := rfl
    exact .inr ⟨GivenUp.pulls dev (hup.of_le dev (by omega)), hother (by simp)⟩
  | await => exact .inr ⟨GivenUp.pulls dev (GivenUp.of_le dev (j := 1) (by omega) rfl), hother (by simp)⟩
  | send b n =>
    exact .inr ⟨GivenUp.pulls dev ((clocked_send dev t b n).of_le dev (by omega)), hother (by simp)⟩
  | receive address n acc => exact .inr ⟨(quiet_receive dev t address acc n).pulls dev, hother (by simp)⟩
  | ack wanted got =>
    cases got with
    | false =>
      exact .inr ⟨GivenUp.pulls dev (clocked_nack dev t wanted (by omega)), hother (by simp)⟩
    | true =>
      cases wanted with
      | false => exact clocked_acks dev t
      | true =>
        have hsend := clocked_send dev (t ++ [.ack true]) (dev.read (t ++ [.ack true])) 0
        have hup : GivenUp (clocked dev (1 + 9) ⟨t, .ack true true⟩) := by
          rw [clocked_add]
          exact hsend
        exact .inr ⟨GivenUp.pulls dev (hup.of_le dev (by omega)), hother (by simp)⟩

/-! ## The initialisation -/

/-- The target at the first clock of `i2c_master_gpio_init`. -/
def atInit (m : I2cMaster I2cState) : I2cState :=
  clockedDown dev.onWire (m.bus.drive dev.onWire true true)

/-- The pins when nothing is going on: a free bus, and a target that waits for a start. -/
def idlePins (t : Trace) : I2cMaster I2cState := free ⟨t, .idle⟩

/-- The pins that a stuck target holds. -/
def stuckPins (t : Trace) : I2cMaster I2cState :=
  atHigh true (some false) ⟨heardOnes (heardOnes (heardOnes t)), .ack false true⟩

theorem gpioInit_eq (m : I2cMaster I2cState) :
    (Stuck dev (atInit dev m) ∧ m.gpioInit dev.onWire = stuckPins (atInit dev m).trace) ∨
    (¬Stuck dev (atInit dev m) ∧ m.gpioInit dev.onWire
      = idlePins ((clocked dev 27 (atInit dev m)).trace ++ [.start] ++ [.stop])) := by
  have heq : m.gpioInit dev.onWire = (atHigh true
      (some (!dev.onWire.pulls (clocked dev 27 (atInit dev m)))) (clocked dev 27 (atInit dev m))).stop
        dev.onWire := init_eq dev.onWire _
  rcases clocked_all dev (atInit dev m) with ⟨hall, hstuck⟩ | ⟨hpulls, hstuck⟩
  · rw [hall, stop_held dev.onWire _ rfl] at heq
    exact .inl ⟨hstuck, heq⟩
  · rw [stop_atHigh dev.onWire _ hpulls rfl] at heq
    exact .inr ⟨hstuck, heq⟩

/-- From whatever state the bus and the target were left in, `i2c_master_gpio_init` frees the bus if
and only if the target is not stuck, and a second call always does. -/
theorem gpioInit_frees (m : I2cMaster I2cState) :
    ((∃ t, m.gpioInit dev.onWire = idlePins t) ↔ ¬Stuck dev (atInit dev m)) ∧
    ∃ t, (m.gpioInit dev.onWire).gpioInit dev.onWire = idlePins t := by
  have hsecond (t : Trace) : ¬Stuck dev (atInit dev (stuckPins t)) := by
    have hdrive := Bus.drive_held dev.onWire
      (x := ⟨heardOnes (heardOnes (heardOnes t)), .ack false true⟩) rfl true true (some false)
    rw [atInit, show (stuckPins t).bus = Bus.high true (some false) _ from rfl, hdrive]
    exact fun h => by cases h.1
  have hidle (t : Trace) : ¬Stuck dev (atInit dev (idlePins t)) := by
    rw [atInit, show (idlePins t).bus = Bus.high true none ⟨t, .idle⟩ from rfl, Bus.drive_high]
    exact fun h => by cases h.1
  have hfree (m' : I2cMaster I2cState) (h : ¬Stuck dev (atInit dev m')) :
      ∃ t, m'.gpioInit dev.onWire = idlePins t := by
    rcases gpioInit_eq dev m' with ⟨hstuck, -⟩ | ⟨-, heq⟩
    · exact absurd hstuck h
    · exact ⟨_, heq⟩
  refine ⟨⟨?_, hfree m⟩, ?_⟩
  · rintro ⟨t, ht⟩ hstuck
    rcases gpioInit_eq dev m with ⟨-, heq⟩ | ⟨hnot, -⟩
    · have hphase : I2cPhase.ack false true = .idle := by
        have := congrArg (fun m : I2cMaster I2cState => m.bus.target.phase) (heq.symm.trans ht)
        exact this
      cases hphase
    · exact hnot hstuck
  · rcases gpioInit_eq dev m with ⟨-, heq⟩ | ⟨-, heq⟩
    · rw [heq]
      exact hfree _ (hsecond _)
    · rw [heq]
      exact hfree _ (hidle _)

end
end Esp8266Toolbox
