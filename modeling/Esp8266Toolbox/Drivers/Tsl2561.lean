import Mathlib.Data.UInt

/-!
# `drivers/tsl2561.c`

The light sensor behind its I2C bus. A `Trace` holds what has happened on the bus; the sensor
answers each request for an acknowledgement or a byte by any function of it. A failed transaction
ends with the trace as its error, for the C value -1.
-/

namespace Esp8266Toolbox

/-! ## The bus -/

/-- What happens on the bus. -/
inductive I2cOp where
  | start | stop
  | write (b : UInt8)
  | ack (got : Bool)
  | read (b : UInt8)
  | sendAck | sendNack
deriving DecidableEq, Repr

/-- What has happened so far, in order. -/
abbrev Trace := List I2cOp

/-- The other side of the bus. -/
structure I2cDevice where
  ack : Trace → Bool
  read : Trace → UInt8

/-- `I2C_ADDR`. -/
def I2C_ADDR : UInt8 := 0x39

def REG_CONTROL : UInt8 := 0x00
def REG_TIMING : UInt8 := 0x01
def REG_ID : UInt8 := 0x0a
def REG_DATA0LOW : UInt8 := 0x0c
def REG_DATA1LOW : UInt8 := 0x0e

namespace I2cDevice

variable (dev : I2cDevice)

/-- `i2c_master_writeByte(b)` and `i2c_master_checkAck()`; without an acknowledgement the
transaction is stopped. -/
def send (t : Trace) (b : UInt8) : Except Trace Trace :=
  let t := t ++ [.write b]
  let got := dev.ack t
  let t := t ++ [.ack got]
  if !got then .error (t ++ [.stop]) else .ok t

/-- `i2c_master_readByte()`. -/
def readByte (t : Trace) : Trace × UInt8 := (t ++ [.read (dev.read t)], dev.read t)

/-- The start of a transaction with a register. -/
def select (t : Trace) (reg : UInt8) : Except Trace Trace := do
  if reg > 0x0f then .error t
  else
    let t ← dev.send (t ++ [.start]) (I2C_ADDR <<< 1)
    dev.send t (0x80 ||| reg)

end I2cDevice

section
variable (dev : I2cDevice) (t : Trace)

/-- `tsl2561_readbyte`. -/
def tsl2561Readbyte (reg : UInt8) : Except Trace (Trace × UInt8) := do
  let t ← dev.select t reg
  let t ← dev.send (t ++ [.start]) ((I2C_ADDR <<< 1) ||| 0x01)
  let (t, val) := dev.readByte t
  return (t ++ [.sendNack, .stop], val)

/-- `tsl2561_readword`. -/
def tsl2561Readword (reg : UInt8) : Except Trace (Trace × UInt16) := do
  let t ← dev.select t reg
  let t ← dev.send (t ++ [.start]) ((I2C_ADDR <<< 1) ||| 0x01)
  let (t, low) := dev.readByte t
  let (t, high) := dev.readByte (t ++ [.sendAck])
  return (t ++ [.sendNack, .stop], (high.toUInt16 <<< 8) ||| low.toUInt16)

/-- `tsl2561_writebyte`. -/
def tsl2561Writebyte (reg val : UInt8) : Except Trace Trace := do
  let t ← dev.select t reg
  let t ← dev.send t val
  return t ++ [.stop]

end

/-! ## The illuminance -/

/-- The coefficients `b` and `m` of the segment that a ratio of the channels is in. -/
def luxSegment (type : UInt8) (ratio : ℕ) : UInt16 × UInt16 :=
  if type = 0 then
    if ratio ≤ 0x0040 then (0x01f2, 0x01be)
    else if ratio ≤ 0x0080 then (0x0214, 0x02d1)
    else if ratio ≤ 0x00c0 then (0x023f, 0x037b)
    else if ratio ≤ 0x0100 then (0x0270, 0x03fe)
    else if ratio ≤ 0x0138 then (0x016f, 0x01fc)
    else if ratio ≤ 0x019a then (0x00d2, 0x00fb)
    else if ratio ≤ 0x029a then (0x0018, 0x0012)
    else (0x0000, 0x0000)
  else
    if ratio ≤ 0x0043 then (0x0204, 0x01ad)
    else if ratio ≤ 0x0085 then (0x0228, 0x02c1)
    else if ratio ≤ 0x00c8 then (0x0253, 0x0363)
    else if ratio ≤ 0x010a then (0x0282, 0x03df)
    else if ratio ≤ 0x014d then (0x0177, 0x01dd)
    else if ratio ≤ 0x019a then (0x0101, 0x0127)
    else if ratio ≤ 0x029a then (0x0037, 0x002b)
    else (0x0000, 0x0000)

/-- The variable `scale` of `calc_lux`. -/
def luxScale (gain time : UInt8) : UInt32 :=
  let scale : UInt32 :=
    if time = 0 then 0x7517 else if time = 1 then 0x0fe7 else (1 : UInt32) <<< 10
  if gain = 0 then scale <<< 4 else scale

/-- `calc_lux`. -/
def calcLux (gain time type : UInt8) (raw0 raw1 : UInt16) : UInt16 :=
  let scale := luxScale gain time
  let data0 := (raw0.toUInt32 * scale) >>> 10
  let data1 := (raw1.toUInt32 * scale) >>> 10
  let ratio := if data0 ≠ 0 then (data1 <<< 10) / data0 else 0
  let ratio := (ratio + 1) >>> 1
  let (b, m) := luxSegment type ratio.toNat
  let rv := data0 * b.toUInt32 - data1 * m.toUInt32
  let rv := if data0 * b.toUInt32 < data1 * m.toUInt32 then 0 else rv
  let rv := rv + ((1 : UInt32) <<< 13)
  (rv >>> 14).toUInt16

/-- `tsl2561_lux` up to its result: the identification, the two channels and the result of
`calc_lux`. -/
def tsl2561Measure (dev : I2cDevice) (t : Trace) : Except Trace (Trace × UInt16) := do
  let (t, id) ← tsl2561Readbyte dev t REG_ID
  let part := id >>> 4
  if !(part == 1 || part == 5) then .error t
  else
    let t ← tsl2561Writebyte dev t REG_CONTROL 0x03
    let t ← tsl2561Writebyte dev t REG_TIMING 0x12
    let (t, data0) ← tsl2561Readword dev t REG_DATA0LOW
    let (t, data1) ← tsl2561Readword dev t REG_DATA1LOW
    let t ← tsl2561Writebyte dev t REG_CONTROL 0x00
    return (t, calcLux 1 2 (if part == 5 then 0 else 1) data0 data1)

/-- `tsl2561_lux`, from an empty trace: what has happened on the bus, and the result. -/
def tsl2561Lux (dev : I2cDevice) : Trace × ℤ :=
  match tsl2561Measure dev [] with
  | .ok (t, lux) => (t, lux.toNat)
  | .error t => (t, -1)

end Esp8266Toolbox
