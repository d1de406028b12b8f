import Esp8266Toolbox.Drivers.I2cTarget

/-!
# The calls of `i2c/i2c_master.c`

Between two calls the clock is low, or a condition has just been given. Each call is an equation
on these states, for any target: the conditions, one pulse for each bit of a byte, and one for an
acknowledgement.
-/

namespace Esp8266Toolbox

open TwoWire

/-- A level as the C code has it. -/
def level (b : Bool) : UInt8 := if b then 1 else 0

/-- Every byte is a level in its lowest bit. -/
theorem and_one_eq_level (b : UInt8) : b &&& 1 = level (b.toNat.testBit 0) := by
  revert b
  exact byte_forall (by decide +kernel)

/-- The bit that is shifted to the lowest place. -/
theorem shiftRight_and_one (b : UInt8) {i : ℕ} (hi : i < 8) :
    (b >>> UInt8.ofNat i) &&& 1 = level (b.toNat.testBit i) := by
  rw [and_one_eq_level, UInt8.toNat_shiftRight, Nat.testBit_shiftRight, UInt8.toNat_ofNat',
    Nat.mod_eq_of_lt (show i < 2 ^ 8 by omega), Nat.mod_eq_of_lt hi, Nat.add_zero]

namespace I2cMaster

variable {σ : Type} (tgt : Target σ)

/-- The clock is low. -/
def atLow (sda : Bool) (x : σ) : I2cMaster σ := ⟨level sda, 0, Bus.low sda x⟩

/-- The clock is high. -/
def atHigh (sda : Bool) (bit : Option Bool) (x : σ) : I2cMaster σ :=
  ⟨level sda, 1, Bus.high sda bit x⟩

/-- Both wires are high, and nobody holds the data: what `i2c_master_stop` leaves. -/
def free (x : σ) : I2cMaster σ := atHigh true none x

/-- A start has been given. -/
def started (x : σ) : I2cMaster σ := atHigh false none x

/-- `i2c_master_setDC` drives what the lowest bits of its arguments say. -/
theorem setDC_eq (m : I2cMaster σ) {sda scl : UInt8} {d c : Bool} (hd : sda &&& 1 = level d)
    (hc : scl &&& 1 = level c) :
    m.setDC tgt sda scl = ⟨level d, level c, m.bus.drive tgt d c⟩ := by
  rw [setDC, hd, hc]
  cases d <;> cases c <;> rfl

theorem setDC_level (m : I2cMaster σ) (d c : Bool) :
    m.setDC tgt (level d) (level c) = ⟨level d, level c, m.bus.drive tgt d c⟩ :=
  setDC_eq tgt m (by cases d <;> rfl) (by cases c <;> rfl)

/-- While the clock is low the data may change. -/
theorem atLow_data (s : Bool) (x : σ) {sda : UInt8} {d : Bool} (hd : sda &&& 1 = level d) :
    (atLow s x).setDC tgt sda 0 = atLow d x := setDC_eq tgt _ hd (c := false) rfl

/-- The clock rises. -/
theorem atLow_rise (s : Bool) (x : σ) {sda : UInt8} (hd : sda &&& 1 = level s) :
    (atLow s x).setDC tgt sda 1 = atHigh s (some (s && !tgt.pulls x)) x :=
  setDC_eq tgt _ hd (c := true) rfl

/-- The clock falls: a pulse has gone by. -/
theorem atHigh_fall (s : Bool) (x : σ) {sda : UInt8} (hd : sda &&& 1 = level s) :
    (atHigh s (some (s && !tgt.pulls x)) x).setDC tgt sda 0 = atLow s (tgt.pulse s x) :=
  setDC_eq tgt _ hd (c := false) rfl

/-- The master reads what the target lets through. -/
theorem getDC_atHigh (bit : Option Bool) (x : σ) :
    (atHigh true bit x).getDC tgt = level (!tgt.pulls x) := by
  simp [getDC, atHigh, Bus.wire, Bus.high, level]

/-! ## The conditions -/

/-- A start on a free bus. -/
theorem start_free {x : σ} (h : tgt.pulls x = false) :
    (free x).start tgt = started (tgt.hear x .start) := by
  simp only [start, free, atHigh, started, setDC_level tgt _ true true, setDC_level tgt _ false true,
    show (1 : UInt8) = level true from rfl, show (0 : UInt8) = level false from rfl,
    Bus.drive_high, Bus.drive_start tgt h]

/-- A repeated start. -/
theorem start_atLow {x : σ} (h : tgt.pulls x = false) :
    (atLow true x).start tgt = started (tgt.hear x .start) := by
  simp only [start, atLow, started, atHigh, setDC_level tgt _ true false, setDC_level tgt _ true true,
    setDC_level tgt _ false true, show (1 : UInt8) = level true from rfl,
    show (0 : UInt8) = level false from rfl, Bus.drive_data, Bus.drive_rise, Bus.drive_start tgt h]

/-- A stop. -/
theorem stop_atLow {x : σ} (h : tgt.pulls x = false) :
    (atLow true x).stop tgt = free (tgt.hear x .stop) := by
  simp only [stop, atLow, free, atHigh, setDC_level tgt _ false false, setDC_level tgt _ false true,
    setDC_level tgt _ true true, show (1 : UInt8) = level true from rfl,
    show (0 : UInt8) = level false from rfl, Bus.drive_data, Bus.drive_rise, Bus.drive_stop tgt h]

/-! ## Bits -/

/-- `i2c_master_setAck`: one pulse. -/
theorem setAck_atLow (s : Bool) (x : σ) (d : Bool) :
    (atLow s x).setAck tgt (level d) = atLow true (tgt.pulse d x) := by
  have hd : level d &&& 1 = level d := by cases d <;> rfl
  have hs : level s &&& 1 = level s := by cases s <;> rfl
  simp only [setAck]
  rw [show (atLow s x).lastSDA = level s from rfl, atLow_data tgt s x hs, atLow_data tgt s x hd,
    atLow_rise tgt d x hd, atHigh_fall tgt d x hd, atLow_data tgt d _ (d := true) rfl]

/-- `i2c_master_getAck`: one pulse, under which the data wire is read. -/
theorem getAck_atLow (s : Bool) (x : σ) :
    (atLow s x).getAck tgt = (atLow true (tgt.pulse true x), level (!tgt.pulls x)) := by
  have hs : level s &&& 1 = level s := by cases s <;> rfl
  simp only [getAck]
  rw [show (atLow s x).lastSDA = level s from rfl, atLow_data tgt s x hs,
    atLow_data tgt s x (d := true) rfl, atLow_rise tgt true x rfl, atHigh_fall tgt true x rfl,
    getDC_atHigh]

/-- `i2c_master_checkAck`: the byte is acknowledged by a target that holds the data low. -/
theorem checkAck_atLow (s : Bool) (x : σ) :
    (atLow s x).checkAck tgt = (atLow true (tgt.pulse true x), tgt.pulls x) := by
  simp only [checkAck, getAck_atLow]
  cases tgt.pulls x <;> rfl

/-- One pass of the loop of `i2c_master_writeByte` is one pulse. -/
theorem writeBit_atLow (b : UInt8) (s : Bool) (x : σ) {i : ℕ} (hi : i < 8) :
    writeBit tgt b (atLow s x) i = atLow (b.toNat.testBit i) (tgt.pulse (b.toNat.testBit i) x) := by
  have hd := shiftRight_and_one b hi
  simp only [writeBit]
  rw [atLow_data tgt s x hd, atLow_rise tgt _ x hd, atHigh_fall tgt _ x hd]

/-- The bits of a byte, the highest first. -/
theorem foldl_writeBit (b : UInt8) (is : List ℕ) (his : ∀ i ∈ is, i < 8) (s : Bool) (x : σ) :
    is.foldl (writeBit tgt b) (atLow s x)
      = atLow (is.foldl (fun _ i => b.toNat.testBit i) s)
          (is.foldl (fun x i => tgt.pulse (b.toNat.testBit i) x) x) := by
  induction is generalizing s x with
  | nil => rfl
  | cons i is ih =>
    rw [List.foldl_cons, writeBit_atLow tgt b s x (his i List.mem_cons_self),
      ih (fun j hj => his j (List.mem_cons_of_mem i hj))]
    rfl

/-- What the pulses of `i2c_master_writeByte` do to a target. -/
def writePulses (b : UInt8) (x : σ) : σ :=
  (List.range 8).reverse.foldl (fun x i => tgt.pulse (b.toNat.testBit i) x) x

/-- `i2c_master_writeByte` with the clock low. -/
theorem writeByte_atLow (s : Bool) (x : σ) (b : UInt8) :
    (atLow s x).writeByte tgt b = atLow (b.toNat.testBit 0) (writePulses tgt b x) := by
  have hs : level s &&& 1 = level s := by cases s <;> rfl
  simp only [writeByte]
  rw [show (atLow s x).lastSDA = level s from rfl, atLow_data tgt s x hs,
    foldl_writeBit tgt b _ (by simp) s x]
  rfl

/-- `i2c_master_writeByte` after a start. -/
theorem writeByte_started (x : σ) (b : UInt8) :
    (started x).writeByte tgt b = atLow (b.toNat.testBit 0) (writePulses tgt b x) := by
  have hfall : (started x).setDC tgt (level false) 0 = atLow false x := rfl
  simp only [writeByte]
  rw [show (started x).lastSDA = level false from rfl, hfall, foldl_writeBit tgt b _ (by simp) false x]
  rfl

/-- What `i2c_master_readByte` reads from a target, bit by bit. -/
def readBits (x : σ) : UInt8 :=
  (List.range 8).foldl
    (fun acc i => acc ||| (level (!tgt.pulls ((tgt.pulse true)^[i] x)) <<< UInt8.ofNat (7 - i))) 0

/-- The loop of `i2c_master_readByte`: each pass ends under a high clock, and the next one, or the
end of the call, takes the clock down. -/
theorem foldl_readBit (x : σ) (r : I2cMaster σ × UInt8) (k : ℕ) (hr : r.1.setDC tgt 1 0 = atLow true x) :
    ((List.range k).foldl (readBit tgt) r).1.setDC tgt 1 0 = atLow true ((tgt.pulse true)^[k] x) ∧
    ((List.range k).foldl (readBit tgt) r).2 = (List.range k).foldl
      (fun acc i => acc ||| (level (!tgt.pulls ((tgt.pulse true)^[i] x)) <<< UInt8.ofNat (7 - i)))
      r.2 := by
  induction k with
  | zero => exact ⟨hr, rfl⟩
  | succ k ih =>
    obtain ⟨hbus, hval⟩ := ih
    rw [List.range_succ, List.foldl_concat, List.foldl_concat, ← hval, Function.iterate_succ_apply']
    simp only [readBit, hbus]
    rw [atLow_rise tgt true _ rfl, atHigh_fall tgt true _ rfl, getDC_atHigh]
    exact ⟨rfl, rfl⟩

/-- `i2c_master_readByte`. -/
theorem readByte_atLow (s : Bool) (x : σ) :
    (atLow s x).readByte tgt = (atLow true ((tgt.pulse true)^[8] x), readBits tgt x) := by
  have hs : level s &&& 1 = level s := by cases s <;> rfl
  have hlow : ((atLow s x).setDC tgt (level s) 0).setDC tgt 1 0 = atLow true x := by
    rw [atLow_data tgt s x hs, atLow_data tgt s x (d := true) rfl]
  obtain ⟨hbus, hval⟩ := foldl_readBit tgt x ((atLow s x).setDC tgt (level s) 0, 0) 8 hlow
  exact Prod.ext hbus hval

end I2cMaster
end Esp8266Toolbox
