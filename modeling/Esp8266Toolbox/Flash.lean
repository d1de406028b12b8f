import Esp8266Toolbox.Lib.Bytes

/-!
# The flash chip

A `FlashDev` keeps the calls made to it and answers each with the next of its prepared replies.
The size of the chip follows from the flash map the SDK reports.
-/

namespace Esp8266Toolbox

/-- `SPI_FLASH_SEC_SIZE`. -/
def secSize : ℕ := 4096

/-- What the SDK answers to a flash call. A call that fails may leave anything in the bytes it
was asked to work on. -/
inductive FlashReply where
  | ok
  | fail (left : ℕ → UInt8)

/-- An erase or write call, with the first address it affects; both affect one sector. -/
inductive FlashOp where
  | erase (addr : ℕ)
  | write (addr : ℕ)
deriving DecidableEq, Repr

/-- The first address a call affects. -/
def FlashOp.addr : FlashOp → ℕ
  | .erase a => a
  | .write a => a

/-- The flash chip: its content, the replies to the next calls (`ok` when there is none) and the
erase and write calls made so far, the latest first. -/
structure FlashDev where
  content : ℕ → UInt8
  replies : List FlashReply
  ops : List FlashOp

/-- `content` with the bytes in `[addr, addr + len)` replaced. -/
def patch (content : ℕ → UInt8) (addr len : ℕ) (new : ℕ → UInt8) : ℕ → UInt8 :=
  fun a => if addr ≤ a ∧ a < addr + len then new a else content a

/-- `spi_flash_erase_sector`. -/
def spiFlashEraseSector (d : FlashDev) (sec : ℕ) : FlashDev × Bool :=
  let addr := sec * secSize
  let ops := .erase addr :: d.ops
  match d.replies.headD .ok with
  | .ok => (⟨patch d.content addr secSize fun _ => 0xff, d.replies.tail, ops⟩, true)
  | .fail left => (⟨patch d.content addr secSize left, d.replies.tail, ops⟩, false)

/-- `spi_flash_write` of one sector: writing can only clear bits. -/
def spiFlashWrite (d : FlashDev) (addr : ℕ) (data : Buf secSize) : FlashDev × Bool :=
  let ops := .write addr :: d.ops
  match d.replies.headD .ok with
  | .ok =>
    (⟨patch d.content addr secSize fun a => d.content a &&& data.get (a - addr), d.replies.tail, ops⟩,
      true)
  | .fail left => (⟨patch d.content addr secSize left, d.replies.tail, ops⟩, false)

/-- The bytes in `[addr, addr + len)`. -/
def flashBytes (content : ℕ → UInt8) (addr len : ℕ) : List UInt8 :=
  (List.range len).map fun k => content (addr + k)

/-- The sector at `addr`. -/
def sectorAt (content : ℕ → UInt8) (addr : ℕ) : Buf secSize :=
  ⟨flashBytes content addr secSize, by simp [flashBytes]⟩

/-- `spi_flash_read` of one sector, and what it leaves in the buffer. -/
def spiFlashRead (d : FlashDev) (addr : ℕ) : FlashDev × Buf secSize × Bool :=
  match d.replies.headD .ok with
  | .ok => ({ d with replies := d.replies.tail }, sectorAt d.content addr, true)
  | .fail left => ({ d with replies := d.replies.tail }, sectorAt left 0, false)

/-! ## The flash map -/

/-- The values of `system_get_flash_size_map`. -/
inductive FlashMap where
  | map4M256 | map2M | map8M512 | map16M512 | map32M512 | map16M1024 | map32M1024 | other
deriving DecidableEq, Repr

/-- `size_kb`; `none` for an unsupported map. -/
def flashSizeKb : FlashMap → Option ℕ
  | .map4M256 => some (4 * 1024 / 8)
  | .map8M512 => some (8 * 1024 / 8)
  | .map16M1024 => some (16 * 1024 / 8)
  | .map16M512 => some (16 * 1024 / 8)
  | .map32M512 => some (32 * 1024 / 8)
  | .map32M1024 => some (32 * 1024 / 8)
  | .map2M => none
  | .other => none

end Esp8266Toolbox
