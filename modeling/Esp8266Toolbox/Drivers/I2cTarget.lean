import Esp8266Toolbox.Drivers.I2cMaster
import Esp8266Toolbox.Lib.Bytes

/-!
# A target on the pins

What an `I2cDevice` does on the two wires: it collects the bits of a byte, holds the data wire low
for an acknowledgement and for each zero of a byte that is read from it, and gives up a transaction
when the master does not acknowledge. Its trace is kept beside what it is doing.
-/

namespace Esp8266Toolbox

open TwoWire

/-- What a target is doing between two clock pulses. -/
inductive I2cPhase where
  | idle
  /-- `n` bits of a byte have been heard. -/
  | receive (address : Bool) (n : Fin 8) (acc : UInt8)
  /-- The ninth clock of a byte that was heard; after it a byte may be wanted. -/
  | ack (wanted got : Bool)
  /-- `n` bits of a byte have been sent. -/
  | send (b : UInt8) (n : Fin 8)
  /-- The ninth clock of a byte that was sent. -/
  | await
deriving DecidableEq, Repr

/-- A target: what has happened on its bus, and what it is doing. -/
structure I2cState where
  trace : Trace
  phase : I2cPhase
deriving DecidableEq, Repr

/-- One more bit of a byte. -/
def pushBit (acc : UInt8) (bit : Bool) : UInt8 := (acc <<< 1) ||| (if bit then 1 else 0)

namespace I2cDevice

variable (dev : I2cDevice)

/-- The target sends a byte. -/
def sendNext (t : Trace) : I2cState := ⟨t, .send (dev.read t) 0⟩

/-- The target listens. -/
def listen (t : Trace) : I2cState := ⟨t, .receive false 0 0⟩

/-- The target has heard a byte. -/
def heardByte (t : Trace) (address : Bool) (b : UInt8) : I2cState :=
  let t := t ++ [.write b]
  ⟨t, .ack (address && b.toNat.testBit 0) (dev.ack t)⟩

/-- The target hears a bit. -/
def hearBit (x : I2cState) (bit : Bool) : I2cState :=
  match x.phase with
  | .idle => x
  | .receive address n acc =>
    let acc := pushBit acc bit
    if h : n.val + 1 < 8 then ⟨x.trace, .receive address ⟨n + 1, h⟩ acc⟩
    else dev.heardByte x.trace address acc
  | .ack wanted _ =>
    let t := x.trace ++ [.ack (!bit)]
    if bit then ⟨t, .idle⟩ else if wanted then dev.sendNext t else ⟨t, .receive false 0 0⟩
  | .send b n =>
    if h : n.val + 1 < 8 then ⟨x.trace, .send b ⟨n + 1, h⟩⟩ else ⟨x.trace ++ [.read b], .await⟩
  | .await => if bit then ⟨x.trace ++ [.sendNack], .idle⟩ else dev.sendNext (x.trace ++ [.sendAck])

/-- The device on the wires. -/
def onWire : Target I2cState where
  hear x
    | .start => ⟨x.trace ++ [.start], .receive true 0 0⟩
    | .stop => ⟨x.trace ++ [.stop], .idle⟩
    | .bit b => dev.hearBit x b
  pulls x :=
    match x.phase with
    | .ack _ got => got
    | .send b n => !b.toNat.testBit (7 - n)
    | _ => false

end I2cDevice

/-! ## Bytes, bit by bit -/

section
variable (dev : I2cDevice) (t : Trace) (address : Bool)

theorem pulse_receive {n : ℕ} (hn : n < 7) (acc : UInt8) (bit : Bool) :
    dev.onWire.pulse bit ⟨t, .receive address ⟨n, by omega⟩ acc⟩
      = ⟨t, .receive address ⟨n + 1, by omega⟩ (pushBit acc bit)⟩ := by
  simp [Target.pulse, I2cDevice.onWire, I2cDevice.hearBit, show n + 1 < 8 by omega]

theorem pulse_receive_last (acc : UInt8) (bit : Bool) :
    dev.onWire.pulse bit ⟨t, .receive address 7 acc⟩ = dev.heardByte t address (pushBit acc bit) := by
  simp [Target.pulse, I2cDevice.onWire, I2cDevice.hearBit]

/-- Bits that do not fill a byte are collected. -/
theorem foldl_pulse_receive (bits : List Bool) {n : ℕ} (hn : n + bits.length ≤ 7) (acc : UInt8) :
    bits.foldl (fun x bit => dev.onWire.pulse bit x) ⟨t, .receive address ⟨n, by omega⟩ acc⟩
      = ⟨t, .receive address ⟨n + bits.length, by omega⟩ (bits.foldl pushBit acc)⟩ := by
  induction bits generalizing n acc with
  | nil => rfl
  | cons bit bits ih =>
    rw [List.length_cons] at hn
    rw [List.foldl_cons, pulse_receive dev t address (by omega), ih (by omega)]
    simp only [List.foldl_cons, List.length_cons, Nat.add_right_comm n 1, Nat.add_assoc]

/-- Seven bits and an eighth are a byte. -/
theorem foldl_pulse_byte (bits : List Bool) (hbits : bits.length = 7) (bit : Bool) :
    (bits ++ [bit]).foldl (fun x bit => dev.onWire.pulse bit x) ⟨t, .receive address 0 0⟩
      = dev.heardByte t address ((bits ++ [bit]).foldl pushBit 0) := by
  have hrun := foldl_pulse_receive dev t address bits (n := 0) (by omega) 0
  rw [List.foldl_concat, List.foldl_concat, ← pulse_receive_last]
  refine congrArg _ (hrun.trans ?_)
  simp [hbits]

/-- The bits of a byte, the highest first. -/
def byteBits (b : UInt8) : List Bool := (List.range 8).reverse.map b.toNat.testBit

/-- The bits of a byte, pushed one by one, are the byte. -/
theorem foldl_pushBit_byteBits (b : UInt8) : (byteBits b).foldl pushBit 0 = b := by
  revert b
  exact byte_forall (by decide +kernel)

theorem byteBits_eq (b : UInt8) :
    byteBits b = [7, 6, 5, 4, 3, 2, 1].map b.toNat.testBit ++ [b.toNat.testBit 0] := rfl

/-- The bits of a byte, driven by the master, are heard as that byte. -/
theorem foldl_pulse_byteBits (b : UInt8) :
    (byteBits b).foldl (fun x bit => dev.onWire.pulse bit x) ⟨t, .receive address 0 0⟩
      = dev.heardByte t address b := by
  have hbyte := foldl_pushBit_byteBits b
  rw [byteBits_eq] at hbyte ⊢
  rw [foldl_pulse_byte dev t address _ rfl, hbyte]

/-- Between the bits of a byte that is sent, the target goes on to the next one. -/
theorem pulse_send (b : UInt8) {n : ℕ} (hn : n < 7) (sda : Bool) :
    dev.onWire.pulse sda ⟨t, .send b ⟨n, by omega⟩⟩ = ⟨t, .send b ⟨n + 1, by omega⟩⟩ := by
  simp [Target.pulse, I2cDevice.onWire, I2cDevice.hearBit, show n + 1 < 8 by omega]

theorem pulse_send_last (b : UInt8) (sda : Bool) :
    dev.onWire.pulse sda ⟨t, .send b 7⟩ = ⟨t ++ [.read b], .await⟩ := by
  simp [Target.pulse, I2cDevice.onWire, I2cDevice.hearBit]

theorem iterate_pulse_send (b : UInt8) (sda : Bool) {n k : ℕ} (hn : n + k ≤ 7) :
    (dev.onWire.pulse sda)^[k] ⟨t, .send b ⟨n, by omega⟩⟩ = ⟨t, .send b ⟨n + k, by omega⟩⟩ := by
  induction k with
  | zero => rfl
  | succ k ih =>
    rw [Function.iterate_succ_apply', ih (by omega), pulse_send dev t b (by omega)]
    simp only [Nat.add_assoc]

/-- A byte has been sent after eight pulses. -/
theorem iterate_pulse_send_all (b : UInt8) (sda : Bool) {n k : ℕ} (hn : n + k = 8) (hk : 0 < k) :
    (dev.onWire.pulse sda)^[k] ⟨t, .send b ⟨n, by omega⟩⟩ = ⟨t ++ [.read b], .await⟩ := by
  obtain ⟨k, rfl⟩ : ∃ j, k = j + 1 := ⟨k - 1, by omega⟩
  rw [Function.iterate_succ_apply', iterate_pulse_send dev t b sda (by omega), ← pulse_send_last dev t b sda]
  simp only [show n + k = 7 by omega]
  rfl

/-- While a byte is sent, the data wire is low for its zeros. -/
theorem pulls_send (b : UInt8) (sda : Bool) {i : ℕ} (hi : i < 8) :
    dev.onWire.pulls ((dev.onWire.pulse sda)^[i] ⟨t, .send b 0⟩) = !b.toNat.testBit (7 - i) := by
  have hsend := iterate_pulse_send dev t b sda (n := 0) (k := i) (by omega)
  rw [show (⟨t, .send b 0⟩ : I2cState) = ⟨t, .send b ⟨0, by omega⟩⟩ from rfl, hsend]
  simp [I2cDevice.onWire]

end

end Esp8266Toolbox
