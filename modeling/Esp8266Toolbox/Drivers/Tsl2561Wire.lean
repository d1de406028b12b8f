import Esp8266Toolbox.Drivers.I2cRecovery
import Esp8266Toolbox.Drivers.Tsl2561Bus

/-!
# `drivers/tsl2561.c` on the pins

Level by level the driver does on the wires what the transactions do on a trace: `relabel` is what
a result of the one is for the other, and it goes through every sequence of calls. The readings of
the light sensor follow for any number of them, from any bus that `i2c_master_init` frees.
-/

namespace Esp8266Toolbox

open TwoWire I2cMaster

section
variable (dev : I2cDevice) (t : Trace)

/-! ## One byte -/

/-- The pins after a byte was heard and acknowledged. -/
def heardPins (t : Trace) : I2cMaster I2cState := atLow true (I2cDevice.listen t)

/-- The pins after a read address was acknowledged, and after each acknowledgement of a byte. -/
def sendingPins (t : Trace) : I2cMaster I2cState := atLow true (dev.sendNext t)

/-- The target after eight pulses of a byte. -/
theorem writePulses_onWire (address : Bool) (b : UInt8) :
    writePulses dev.onWire b ⟨t, .receive address 0 0⟩ = dev.heardByte t address b := by
  rw [← foldl_pulse_byteBits dev t address b, byteBits, List.foldl_map]
  rfl

/-- A byte that is not acknowledged ends the transaction; after the other ones the target listens,
or answers a read address. -/
theorem send_heardByte (m : I2cMaster I2cState) (b : UInt8) {address : Bool}
    (hm : m.writeByte dev.onWire b = atLow (b.toNat.testBit 0) (dev.heardByte t address b)) :
    m.send dev.onWire b = match dev.send t b with
      | .error t' => .error (idlePins t')
      | .ok t' => .ok (if address && b.toNat.testBit 0 then sendingPins dev t' else heardPins t') := by
  simp only [I2cMaster.send, hm, checkAck_atLow, I2cDevice.send]
  cases hack : dev.ack (t ++ [.write b]) with
  | false =>
    have hpulls : dev.onWire.pulls (dev.heardByte t address b) = false := hack
    have hpulse : dev.onWire.pulse true (dev.heardByte t address b)
        = ⟨t ++ [.write b] ++ [.ack false], .idle⟩ := by
      rw [Target.pulse, hpulls]
      rfl
    rw [hpulls, hpulse, stop_atLow dev.onWire rfl]
    rfl
  | true =>
    have hpulls : dev.onWire.pulls (dev.heardByte t address b) = true := hack
    have hpulse : dev.onWire.pulse true (dev.heardByte t address b)
        = if address && b.toNat.testBit 0 then dev.sendNext (t ++ [.write b] ++ [.ack true])
          else ⟨t ++ [.write b] ++ [.ack true], .receive false 0 0⟩ := by
      rw [Target.pulse, hpulls]
      rfl
    rw [hpulls, hpulse]
    cases address && b.toNat.testBit 0 <;> rfl

/-- Eight pulses read the byte that the target sends. -/
theorem readBits_sendNext : readBits dev.onWire (dev.sendNext t) = dev.read t := by
  have hbyte : ∀ b : UInt8, (List.range 8).foldl
      (fun acc i => acc ||| (level (b.toNat.testBit (7 - i)) <<< UInt8.ofNat (7 - i))) 0 = b :=
    byte_forall (by decide +kernel)
  rw [← hbyte (dev.read t), readBits]
  refine List.foldl_ext _ _ _ fun acc i hi => ?_
  rw [I2cDevice.sendNext, pulls_send dev t _ true (List.mem_range.mp hi), Bool.not_not]

/-- `i2c_master_readByte` from a target that sends. -/
theorem readByte_sendingPins :
    (sendingPins dev t).readByte dev.onWire
      = (atLow true ⟨t ++ [.read (dev.read t)], .await⟩, dev.read t) := by
  rw [sendingPins, readByte_atLow, readBits_sendNext]
  exact congrArg (fun x => (atLow true x, dev.read t))
    (iterate_pulse_send_all dev t (dev.read t) true (n := 0) (by omega) (by omega))

/-- An acknowledgement asks for the next byte. -/
theorem sendAck_await : (atLow true ⟨t, .await⟩ : I2cMaster I2cState).sendAck dev.onWire
    = sendingPins dev (t ++ [.sendAck]) := setAck_atLow dev.onWire true _ false

/-- A missing acknowledgement and a stop end the transaction. -/
theorem sendNack_stop : ((atLow true ⟨t, .await⟩ : I2cMaster I2cState).sendNack dev.onWire).stop dev.onWire
    = idlePins (t ++ [.sendNack, .stop]) := by
  have hnack : (atLow true ⟨t, .await⟩ : I2cMaster I2cState).sendNack dev.onWire
      = atLow true ⟨t ++ [.sendNack], .idle⟩ := setAck_atLow dev.onWire true _ true
  rw [hnack, stop_atLow dev.onWire rfl, show [I2cOp.sendNack, .stop] = [.sendNack] ++ [.stop] from rfl,
    ← List.append_assoc]
  rfl

/-! ## Transactions -/

/-- What a result on a trace is elsewhere. -/
def relabel {ε α β : Type} (e : Trace → ε) (f : α → β) : Except Trace α → Except ε β
  | .ok a => .ok (f a)
  | .error t => .error (e t)

/-- A call after a call. -/
theorem relabel_bind {ε α β γ δ : Type} {e : Trace → ε} {f : α → β} {f' : γ → δ}
    {r : Except Trace α} {g : α → Except Trace γ} {g' : β → Except ε δ}
    (h : ∀ a, g' (f a) = relabel e f' (g a)) : relabel e f r >>= g' = relabel e f' (r >>= g) := by
  cases r with
  | error t => rfl
  | ok a => exact h a

/-- What a result on the trace is on the pins. -/
abbrev onPins {α β : Type} (f : α → β) : Except Trace α → Except (I2cMaster I2cState) β :=
  relabel idlePins f

/-- A byte that the target only listens to. -/
theorem send_heardPins (b : UInt8) :
    (heardPins t).send dev.onWire b = onPins heardPins (dev.send t b) := by
  have hwrite : (heardPins t).writeByte dev.onWire b
      = atLow (b.toNat.testBit 0) (dev.heardByte t false b) := by
    rw [heardPins, I2cDevice.listen, writeByte_atLow, writePulses_onWire]
  rw [send_heardByte dev t _ b hwrite]
  cases dev.send t b <;> rfl

/-- An address: the target listens after it, or sends. -/
theorem send_started (b : UInt8) :
    (started ⟨t, .receive true 0 0⟩).send dev.onWire b
      = onPins (if b.toNat.testBit 0 then sendingPins dev else heardPins) (dev.send t b) := by
  have hwrite : (started ⟨t, .receive true 0 0⟩).writeByte dev.onWire b
      = atLow (b.toNat.testBit 0) (dev.heardByte t true b) := by
    rw [writeByte_started, writePulses_onWire]
  rw [send_heardByte dev t _ b hwrite]
  cases dev.send t b <;> cases b.toNat.testBit 0 <;> rfl

theorem select_idlePins (reg : UInt8) :
    (idlePins t).select dev.onWire reg = onPins heardPins (dev.select t reg) := by
  unfold I2cMaster.select I2cDevice.select
  by_cases hreg : reg > 0x0f
  · rw [if_pos hreg, if_pos hreg]
    rfl
  · rw [if_neg hreg, if_neg hreg, idlePins, start_free dev.onWire rfl]
    exact (congrArg (· >>= _) (send_started dev (t ++ [.start]) (I2C_ADDR <<< 1))).trans
      (relabel_bind fun t' => send_heardPins dev t' _)

/-- The repeated start and the address of a read. -/
theorem sendRead_heardPins :
    ((heardPins t).start dev.onWire).send dev.onWire ((I2C_ADDR <<< 1) ||| 0x01)
      = onPins (sendingPins dev) (dev.send (t ++ [.start]) ((I2C_ADDR <<< 1) ||| 0x01)) := by
  rw [heardPins, start_atLow dev.onWire rfl]
  exact send_started dev (t ++ [.start]) ((I2C_ADDR <<< 1) ||| 0x01)

/-- A transaction that returns a value. -/
def withPins {α : Type} (p : Trace × α) : I2cMaster I2cState × α := (idlePins p.1, p.2)

theorem tsl2561Readbyte_idlePins (reg : UInt8) :
    (idlePins t).tsl2561Readbyte dev.onWire reg = onPins withPins (tsl2561Readbyte dev t reg) := by
  refine (congrArg (· >>= _) (select_idlePins dev t reg)).trans (relabel_bind fun t' => ?_)
  refine (congrArg (· >>= _) (sendRead_heardPins dev t')).trans (relabel_bind fun t'' => ?_)
  rw [readByte_sendingPins]
  dsimp only
  rw [sendNack_stop]
  rfl

theorem tsl2561Readword_idlePins (reg : UInt8) :
    (idlePins t).tsl2561Readword dev.onWire reg = onPins withPins (tsl2561Readword dev t reg) := by
  refine (congrArg (· >>= _) (select_idlePins dev t reg)).trans (relabel_bind fun t' => ?_)
  refine (congrArg (· >>= _) (sendRead_heardPins dev t')).trans (relabel_bind fun t'' => ?_)
  rw [readByte_sendingPins]
  dsimp only
  rw [sendAck_await, readByte_sendingPins]
  dsimp only
  rw [sendNack_stop]
  rfl

theorem tsl2561Writebyte_idlePins (reg val : UInt8) :
    (idlePins t).tsl2561Writebyte dev.onWire reg val
      = onPins idlePins (tsl2561Writebyte dev t reg val) := by
  refine (congrArg (· >>= _) (select_idlePins dev t reg)).trans (relabel_bind fun t' => ?_)
  refine (congrArg (· >>= _) (send_heardPins dev t' val)).trans (relabel_bind fun t'' => ?_)
  exact congrArg Except.ok (stop_atLow dev.onWire rfl)

theorem tsl2561Measure_idlePins :
    (idlePins t).tsl2561Measure dev.onWire = onPins withPins (tsl2561Measure dev t) := by
  refine (congrArg (· >>= _) (tsl2561Readbyte_idlePins dev t REG_ID)).trans
    (relabel_bind fun ⟨t₁, id⟩ => ?_)
  dsimp only [withPins]
  by_cases hpart : (!(id >>> 4 == 1 || id >>> 4 == 5)) = true
  · rw [if_pos hpart, if_pos hpart]
    rfl
  · rw [if_neg hpart, if_neg hpart]
    refine (congrArg (· >>= _) (tsl2561Writebyte_idlePins dev t₁ _ _)).trans (relabel_bind fun t₂ => ?_)
    refine (congrArg (· >>= _) (tsl2561Writebyte_idlePins dev t₂ _ _)).trans (relabel_bind fun t₃ => ?_)
    refine (congrArg (· >>= _) (tsl2561Readword_idlePins dev t₃ _)).trans
      (relabel_bind fun ⟨t₄, data0⟩ => ?_)
    refine (congrArg (· >>= _) (tsl2561Readword_idlePins dev t₄ _)).trans
      (relabel_bind fun ⟨t₅, data1⟩ => ?_)
    exact (congrArg (· >>= _) (tsl2561Writebyte_idlePins dev t₅ _ _)).trans
      (relabel_bind fun t₆ => rfl)

/-! ## A device with a history -/

/-- The device behind what has happened already. -/
def I2cDevice.after : I2cDevice := ⟨fun u => dev.ack (t ++ u), fun u => dev.read (t ++ u)⟩

/-- A result that is behind a trace. -/
abbrev behind {α β : Type} (f : α → β) : Except Trace α → Except Trace β := relabel (t ++ ·) f

theorem send_after (u : Trace) (b : UInt8) :
    dev.send (t ++ u) b = behind t (t ++ ·) ((dev.after t).send u b) := by
  simp only [I2cDevice.send, I2cDevice.after, List.append_assoc]
  cases dev.ack (t ++ (u ++ [.write b])) <;> simp [relabel]

theorem select_after (u : Trace) (reg : UInt8) :
    dev.select (t ++ u) reg = behind t (t ++ ·) ((dev.after t).select u reg) := by
  unfold I2cDevice.select
  by_cases hreg : reg > 0x0f
  · rw [if_pos hreg, if_pos hreg]
    rfl
  · rw [if_neg hreg, if_neg hreg, List.append_assoc]
    exact (congrArg (· >>= fun t' => dev.send t' (0x80 ||| reg))
      (send_after dev t (u ++ [.start]) (I2C_ADDR <<< 1))).trans
      (relabel_bind fun u' => send_after dev t u' (0x80 ||| reg))

/-- A trace and a value, behind a trace. -/
def withTrace {α : Type} (p : Trace × α) : Trace × α := (t ++ p.1, p.2)

theorem tsl2561Readbyte_after (u : Trace) (reg : UInt8) :
    tsl2561Readbyte dev (t ++ u) reg = behind t (withTrace t) (tsl2561Readbyte (dev.after t) u reg) := by
  refine (congrArg (· >>= _) (select_after dev t u reg)).trans (relabel_bind fun u' => ?_)
  rw [List.append_assoc]
  refine (congrArg (· >>= _) (send_after dev t _ _)).trans (relabel_bind fun u'' => ?_)
  simp [I2cDevice.readByte, I2cDevice.after, relabel, withTrace]
  rfl

theorem tsl2561Readword_after (u : Trace) (reg : UInt8) :
    tsl2561Readword dev (t ++ u) reg = behind t (withTrace t) (tsl2561Readword (dev.after t) u reg) := by
  refine (congrArg (· >>= _) (select_after dev t u reg)).trans (relabel_bind fun u' => ?_)
  rw [List.append_assoc]
  refine (congrArg (· >>= _) (send_after dev t _ _)).trans (relabel_bind fun u'' => ?_)
  simp [I2cDevice.readByte, I2cDevice.after, relabel, withTrace]
  rfl

theorem tsl2561Writebyte_after (u : Trace) (reg val : UInt8) :
    tsl2561Writebyte dev (t ++ u) reg val
      = behind t (t ++ ·) (tsl2561Writebyte (dev.after t) u reg val) := by
  refine (congrArg (· >>= _) (select_after dev t u reg)).trans (relabel_bind fun u' => ?_)
  refine (congrArg (· >>= _) (send_after dev t u' val)).trans (relabel_bind fun u'' => ?_)
  exact congrArg Except.ok (List.append_assoc t u'' [.stop])

theorem tsl2561Measure_after (u : Trace) :
    tsl2561Measure dev (t ++ u) = behind t (withTrace t) (tsl2561Measure (dev.after t) u) := by
  refine (congrArg (· >>= _) (tsl2561Readbyte_after dev t u REG_ID)).trans
    (relabel_bind fun ⟨u₁, id⟩ => ?_)
  dsimp only [withTrace]
  by_cases hpart : (!(id >>> 4 == 1 || id >>> 4 == 5)) = true
  · rw [if_pos hpart, if_pos hpart]
    rfl
  · rw [if_neg hpart, if_neg hpart]
    refine (congrArg (· >>= _) (tsl2561Writebyte_after dev t u₁ _ _)).trans (relabel_bind fun u₂ => ?_)
    refine (congrArg (· >>= _) (tsl2561Writebyte_after dev t u₂ _ _)).trans (relabel_bind fun u₃ => ?_)
    refine (congrArg (· >>= _) (tsl2561Readword_after dev t u₃ _)).trans
      (relabel_bind fun ⟨u₄, data0⟩ => ?_)
    refine (congrArg (· >>= _) (tsl2561Readword_after dev t u₄ _)).trans
      (relabel_bind fun ⟨u₅, data1⟩ => ?_)
    exact (congrArg (· >>= _) (tsl2561Writebyte_after dev t u₅ _ _)).trans
      (relabel_bind fun u₆ => rfl)

/-- One reading on the pins: what has happened before is the history of the device. -/
theorem tsl2561Lux_idlePins :
    (idlePins t).tsl2561Lux dev.onWire
      = (idlePins (t ++ (tsl2561Lux (dev.after t)).1), (tsl2561Lux (dev.after t)).2) := by
  have hafter := tsl2561Measure_after dev t []
  rw [List.append_nil] at hafter
  rw [I2cMaster.tsl2561Lux, tsl2561Measure_idlePins, hafter, Esp8266Toolbox.tsl2561Lux]
  cases tsl2561Measure (dev.after t) [] <;> rfl

end

/-! ## Readings over time -/

/-- `n` calls of `tsl2561_lux` on the pins: the pins after them, and the results. -/
def I2cMaster.readings {σ : Type} (tgt : Target σ) : ℕ → I2cMaster σ → I2cMaster σ × List ℤ
  | 0, m => (m, [])
  | n + 1, m =>
    let (m, lux) := m.tsl2561Lux tgt
    let (m, luxes) := readings tgt n m
    (m, lux :: luxes)

/-- A reading is -1, with a missing acknowledgement or the identification of another part, or it is
the illuminance that the bytes it has read stand for. -/
def LuxReading (u : Trace) (lux : ℤ) : Prop :=
  (lux = -1 ∧ (u.BusError ∨ u.PartError)) ∨
    ∃ v : UInt16, lux = v.toNat ∧ ¬u.BusError ∧ Measured u v

theorem tsl2561Lux_luxReading (dev : I2cDevice) : LuxReading (tsl2561Lux dev).1 (tsl2561Lux dev).2 := by
  have hspec := tsl2561Measure_spec dev
  unfold tsl2561Lux
  rcases hm : tsl2561Measure dev [] with t | ⟨t, lux⟩
  · rw [hm] at hspec
    exact .inl ⟨rfl, hspec⟩
  · rw [hm] at hspec
    exact .inr ⟨lux, rfl, hspec.1, hspec.2⟩

/-- Every call leaves a free bus behind it, and what happened on the wires during the calls is one
piece for each call, which its result comes from. -/
theorem readings_idlePins (dev : I2cDevice) (n : ℕ) (t : Trace) :
    ∃ us : List Trace, ((idlePins t).readings dev.onWire n).1 = idlePins (t ++ us.flatten) ∧
      List.Forall₂ LuxReading us ((idlePins t).readings dev.onWire n).2 ∧ us.length = n := by
  induction n generalizing t with
  | zero => exact ⟨[], by simp [I2cMaster.readings], .nil, rfl⟩
  | succ n ih =>
    obtain ⟨us, hpins, hread, hlen⟩ := ih (t ++ (tsl2561Lux (dev.after t)).1)
    have hcall := tsl2561Lux_idlePins dev t
    refine ⟨(tsl2561Lux (dev.after t)).1 :: us, ?_, ?_, by rw [List.length_cons, hlen]⟩
    · rw [I2cMaster.readings, hcall, List.flatten_cons, ← List.append_assoc]
      exact hpins
    · rw [I2cMaster.readings, hcall]
      exact .cons (tsl2561Lux_luxReading (dev.after t)) hread

/-- From any bus that the initialisation frees, any number of readings of the light sensor: the bus
is free after each of them, and each is the illuminance of the bytes that it has read on the wires,
or -1 for a missing acknowledgement or another part. -/
theorem readings_of_gpioInit (dev : I2cDevice) (m : I2cMaster I2cState)
    (hfree : ¬Stuck dev (atInit dev m)) (n : ℕ) :
    ∃ (t : Trace) (us : List Trace), m.gpioInit dev.onWire = idlePins t ∧
      ((m.gpioInit dev.onWire).readings dev.onWire n).1 = idlePins (t ++ us.flatten) ∧
      List.Forall₂ LuxReading us ((m.gpioInit dev.onWire).readings dev.onWire n).2 ∧ us.length = n := by
  obtain ⟨t, ht⟩ := (gpioInit_frees dev m).1.mpr hfree
  obtain ⟨us, hpins, hread, hlen⟩ := readings_idlePins dev n t
  rw [ht]
  exact ⟨t, us, rfl, hpins, hread, hlen⟩

/-- Two readings of a device that always acknowledges, and was interrupted while it sent a byte. -/
theorem readings_of_gpioInit_twice :
    ∃ (t : Trace) (us : List Trace),
      ((⟨0, 0, .low true ⟨[], .send 0x50 3⟩⟩ : I2cMaster I2cState).gpioInit
        (I2cDevice.mk (fun _ => true) (fun _ => 0x50)).onWire) = idlePins t ∧
      (((⟨0, 0, .low true ⟨[], .send 0x50 3⟩⟩ : I2cMaster I2cState).gpioInit
        (I2cDevice.mk (fun _ => true) (fun _ => 0x50)).onWire).readings
          (I2cDevice.mk (fun _ => true) (fun _ => 0x50)).onWire 2).1 = idlePins (t ++ us.flatten) ∧
      List.Forall₂ LuxReading us (((⟨0, 0, .low true ⟨[], .send 0x50 3⟩⟩ : I2cMaster I2cState).gpioInit
        (I2cDevice.mk (fun _ => true) (fun _ => 0x50)).onWire).readings
          (I2cDevice.mk (fun _ => true) (fun _ => 0x50)).onWire 2).2 ∧ us.length = 2 :=
  readings_of_gpioInit ⟨fun _ => true, fun _ => 0x50⟩ ⟨0, 0, .low true ⟨[], .send 0x50 3⟩⟩
    (by decide) 2

end Esp8266Toolbox
