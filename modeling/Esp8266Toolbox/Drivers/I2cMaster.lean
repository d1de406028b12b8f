import Esp8266Toolbox.Lib.TwoWire
import Esp8266Toolbox.Drivers.Tsl2561

/-!
# `i2c/i2c_master.c`: the bus on two pins

The master drives the pins level by level; the delays between the levels are left out. Both pins
are open-drain outputs, so that the data wire is low as soon as the target holds it low, and the
master reads the wire, not its own output. The clock is the master's alone.
-/

namespace Esp8266Toolbox

open TwoWire

/-- `m_nLastSDA`, `m_nLastSCL`, and the bus behind the pins. -/
structure I2cMaster (σ : Type) where
  lastSDA : UInt8
  lastSCL : UInt8
  bus : Bus σ
deriving DecidableEq, Repr

namespace I2cMaster

variable {σ : Type} (tgt : Target σ)

/-- `i2c_master_setDC`; each branch is one `gpio_output_set` of both pins. -/
def setDC (m : I2cMaster σ) (sda scl : UInt8) : I2cMaster σ :=
  let sda := sda &&& 0x01
  let scl := scl &&& 0x01
  let m := { m with lastSDA := sda, lastSCL := scl }
  if 0 = sda ∧ 0 = scl then { m with bus := m.bus.drive tgt false false }
  else if 0 = sda ∧ 1 = scl then { m with bus := m.bus.drive tgt false true }
  else if 1 = sda ∧ 0 = scl then { m with bus := m.bus.drive tgt true false }
  else { m with bus := m.bus.drive tgt true true }

/-- `i2c_master_getDC`. -/
def getDC (m : I2cMaster σ) : UInt8 := if m.bus.wire tgt then 1 else 0

/-- `i2c_master_stop`. -/
def stop (m : I2cMaster σ) : I2cMaster σ :=
  let m := m.setDC tgt 0 m.lastSCL
  let m := m.setDC tgt 0 1
  m.setDC tgt 1 1

/-- `i2c_master_init`. -/
def init (m : I2cMaster σ) : I2cMaster σ :=
  let m := m.setDC tgt 1 0
  let m := m.setDC tgt 0 0
  let m := m.setDC tgt 1 0
  let m := (List.range 28).foldl (fun m _ => (m.setDC tgt 1 0).setDC tgt 1 1) m
  m.stop tgt

/-- `i2c_master_gpio_init`: both pins are released, and then `i2c_master_init`. -/
def gpioInit (m : I2cMaster σ) : I2cMaster σ := { m with bus := m.bus.drive tgt true true }.init tgt

/-- `i2c_master_start`. -/
def start (m : I2cMaster σ) : I2cMaster σ :=
  let m := m.setDC tgt 1 m.lastSCL
  let m := m.setDC tgt 1 1
  m.setDC tgt 0 1

/-- `i2c_master_setAck`. -/
def setAck (m : I2cMaster σ) (level : UInt8) : I2cMaster σ :=
  let m := m.setDC tgt m.lastSDA 0
  let m := m.setDC tgt level 0
  let m := m.setDC tgt level 1
  let m := m.setDC tgt level 0
  m.setDC tgt 1 0

/-- `i2c_master_getAck`. -/
def getAck (m : I2cMaster σ) : I2cMaster σ × UInt8 :=
  let m := m.setDC tgt m.lastSDA 0
  let m := m.setDC tgt 1 0
  let m := m.setDC tgt 1 1
  let retVal := m.getDC tgt
  (m.setDC tgt 1 0, retVal)

/-- `i2c_master_checkAck`. -/
def checkAck (m : I2cMaster σ) : I2cMaster σ × Bool :=
  let (m, ack) := m.getAck tgt
  (m, if ack ≠ 0 then false else true)

/-- `i2c_master_send_ack`. -/
def sendAck (m : I2cMaster σ) : I2cMaster σ := m.setAck tgt 0x0

/-- `i2c_master_send_nack`. -/
def sendNack (m : I2cMaster σ) : I2cMaster σ := m.setAck tgt 0x1

/-- One pass of the loop of `i2c_master_readByte`. -/
def readBit (r : I2cMaster σ × UInt8) (i : ℕ) : I2cMaster σ × UInt8 :=
  let m := r.1.setDC tgt 1 0
  let m := m.setDC tgt 1 1
  let k := m.getDC tgt
  let k := k <<< UInt8.ofNat (7 - i)
  (m, r.2 ||| k)

/-- `i2c_master_readByte`. -/
def readByte (m : I2cMaster σ) : I2cMaster σ × UInt8 :=
  let m := m.setDC tgt m.lastSDA 0
  let (m, retVal) := (List.range 8).foldl (readBit tgt) (m, 0)
  (m.setDC tgt 1 0, retVal)

/-- One pass of the loop of `i2c_master_writeByte`. -/
def writeBit (wrdata : UInt8) (m : I2cMaster σ) (i : ℕ) : I2cMaster σ :=
  let dat := wrdata >>> UInt8.ofNat i
  let m := m.setDC tgt dat 0
  let m := m.setDC tgt dat 1
  m.setDC tgt dat 0

/-- `i2c_master_writeByte`. -/
def writeByte (m : I2cMaster σ) (wrdata : UInt8) : I2cMaster σ :=
  let m := m.setDC tgt m.lastSDA 0
  (List.range 8).reverse.foldl (writeBit tgt wrdata) m

end I2cMaster

/-! ## `drivers/tsl2561.c` on the pins -/

section
variable {σ : Type} (tgt : Target σ)

namespace I2cMaster

/-- `i2c_master_writeByte(b)` and `if (!i2c_master_checkAck()) { i2c_master_stop(); return -1; }`. -/
def send (m : I2cMaster σ) (b : UInt8) : Except (I2cMaster σ) (I2cMaster σ) :=
  let m := m.writeByte tgt b
  let (m, got) := m.checkAck tgt
  if !got then .error (m.stop tgt) else .ok m

/-- The start of a transaction with a register. -/
def select (m : I2cMaster σ) (reg : UInt8) : Except (I2cMaster σ) (I2cMaster σ) := do
  if reg > 0x0f then .error m
  else
    let m ← (m.start tgt).send tgt (I2C_ADDR <<< 1)
    m.send tgt (0x80 ||| reg)

/-- `tsl2561_readbyte`. -/
def tsl2561Readbyte (m : I2cMaster σ) (reg : UInt8) : Except (I2cMaster σ) (I2cMaster σ × UInt8) := do
  let m ← m.select tgt reg
  let m ← (m.start tgt).send tgt ((I2C_ADDR <<< 1) ||| 0x01)
  let (m, val) := m.readByte tgt
  let m := m.sendNack tgt
  return (m.stop tgt, val)

/-- `tsl2561_readword`. -/
def tsl2561Readword (m : I2cMaster σ) (reg : UInt8) : Except (I2cMaster σ) (I2cMaster σ × UInt16) := do
  let m ← m.select tgt reg
  let m ← (m.start tgt).send tgt ((I2C_ADDR <<< 1) ||| 0x01)
  let (m, low) := m.readByte tgt
  let m := m.sendAck tgt
  let (m, high) := m.readByte tgt
  let m := m.sendNack tgt
  return (m.stop tgt, (high.toUInt16 <<< 8) ||| low.toUInt16)

/-- `tsl2561_writebyte`. -/
def tsl2561Writebyte (m : I2cMaster σ) (reg val : UInt8) : Except (I2cMaster σ) (I2cMaster σ) := do
  let m ← m.select tgt reg
  let m ← m.send tgt val
  return m.stop tgt

/-- `tsl2561_lux` up to its result. -/
def tsl2561Measure (m : I2cMaster σ) : Except (I2cMaster σ) (I2cMaster σ × UInt16) := do
  let (m, id) ← m.tsl2561Readbyte tgt REG_ID
  let part := id >>> 4
  if !(part == 1 || part == 5) then .error m
  else
    let m ← m.tsl2561Writebyte tgt REG_CONTROL 0x03
    let m ← m.tsl2561Writebyte tgt REG_TIMING 0x12
    let (m, data0) ← m.tsl2561Readword tgt REG_DATA0LOW
    let (m, data1) ← m.tsl2561Readword tgt REG_DATA1LOW
    let m ← m.tsl2561Writebyte tgt REG_CONTROL 0x00
    return (m, calcLux 1 2 (if part == 5 then 0 else 1) data0 data1)

/-- `tsl2561_lux`: the pins after it, and its result. -/
def tsl2561Lux (m : I2cMaster σ) : I2cMaster σ × ℤ :=
  match m.tsl2561Measure tgt with
  | .ok (m, lux) => (m, lux.toNat)
  | .error m => (m, -1)

end I2cMaster
end

end Esp8266Toolbox
