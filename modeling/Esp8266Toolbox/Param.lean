import Esp8266Toolbox.Flash
import Esp8266Toolbox.Lib.CString

/-!
# `param.c`: parameters in flash

Records of the parameter area: four magic bytes and a value. Both functions work in the static
`param_buf`. The functions of the SDK that load and save the area are a parameter of the model.
-/

namespace Esp8266Toolbox

/-- `PARAM_MAGIC`. -/
def paramMagic : List UInt8 := [0xca, 0xfe, 0xba, 0xbe]

/-- What the code calls of the SDK, over some type of flash contents. The loaded bytes and the
new contents come with the return value. -/
structure ParamSdk (F : Type) where
  flashMap : FlashMap
  /-- `system_param_load(start_sec, offset, param, len)`. -/
  load : F → ℕ → ℕ → ℕ → List UInt8 × Bool
  /-- `system_param_save_with_protect(start_sec, param, len)`. -/
  save : F → ℕ → List UInt8 → F × Bool

/-- `param_buf` and the flash. -/
structure ParamState (F : Type) where
  buf : Buf 1024
  flash : F

/-- `addr/SPI_FLASH_SEC_SIZE`, the sector of the parameters. -/
def paramSector (sizeKb : ℕ) : ℕ := (sizeKb / 2 - 4 * 3) * 1024 / secSize

variable {F : Type}

/-- `param_store`, which returns 0 or 1. -/
def paramStore (sdk : ParamSdk F) (s : ParamState F) (offset : UInt16) (val : List UInt8) : ParamState F × ℕ :=
  match flashSizeKb sdk.flashMap with
  | none => (s, 1)
  | some sizeKb =>
    if 1024 < paramMagic.length + val.length then (s, 1)
    else
      let (bytes, loaded) := sdk.load s.flash (paramSector sizeKb) 0 1024
      let buf := s.buf.memcpy 0 bytes
      if !loaded then ({ s with buf }, 1)
      else
        let buf := buf.memcpy offset.toNat paramMagic
        let buf := buf.memcpy (offset.toNat + paramMagic.length) val
        let (flash, saved) := sdk.save s.flash (paramSector sizeKb) buf.toList
        if !saved then (⟨buf, flash⟩, 1) else (⟨buf, flash⟩, 0)

/-- `param_retrieve`; the value it copies to `val`, or `none` when it returns 1. -/
def paramRetrieve (sdk : ParamSdk F) (s : ParamState F) (offset len : UInt16) :
    ParamState F × Option (List UInt8) :=
  match flashSizeKb sdk.flashMap with
  | none => (s, none)
  | some sizeKb =>
    let (bytes, loaded) := sdk.load s.flash (paramSector sizeKb) offset.toNat (paramMagic.length + len.toNat)
    let buf := s.buf.memcpy 0 bytes
    if !loaded then ({ s with buf }, none)
    -- the parenthesis of the comparison is misplaced, so one byte is compared
    else if memcmp buf.toList paramMagic (if paramMagic.length ≠ 0 then 1 else 0) ≠ 0 then ({ s with buf }, none)
    else ({ s with buf }, some ((buf.toList.drop paramMagic.length).take len.toNat))

/-- A call of one of the two functions. -/
inductive ParamCall where
  | store (offset : UInt16) (val : List UInt8)
  | retrieve (offset len : UInt16)
deriving DecidableEq, Repr

/-- The state after a call. -/
def paramCall (sdk : ParamSdk F) (s : ParamState F) : ParamCall → ParamState F
  | .store offset val => (paramStore sdk s offset val).1
  | .retrieve offset len => (paramRetrieve sdk s offset len).1

/-- The state after a sequence of calls. -/
def paramRun (sdk : ParamSdk F) (s : ParamState F) (calls : List ParamCall) : ParamState F :=
  calls.foldl (paramCall sdk) s

end Esp8266Toolbox
