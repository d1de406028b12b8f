import Esp8266Toolbox.Lib.Checked

/-!
# `crypto/base64.c`

Both functions store into an array of their caller, one byte after the other, and return the
number of bytes or a negative error. The loops run over the input four characters, or three
bytes, at a time.
-/

namespace Esp8266Toolbox

/-- `decmap`. -/
def decmap (c : UInt8) : UInt8 :=
  if 65 ≤ c ∧ c ≤ 90 then c - 65
  else if 97 ≤ c ∧ c ≤ 122 then (c - 97) + 26
  else if 48 ≤ c ∧ c ≤ 57 then (c - 48) + 52
  else if c = 0x2b then 62
  else if c = 0x2f then 63
  else 0

/-- `encmap`. -/
def encmap (b : UInt8) : UInt8 :=
  if b ≤ 25 then 65 + b
  else if 26 ≤ b ∧ b ≤ 51 then 97 + (b - 26)
  else if 52 ≤ b ∧ b ≤ 61 then 48 + (b - 52)
  else if b = 62 then 0x2b
  else 0x2f

/-- The characters that `b64_decode` accepts. -/
def b64Char (c : UInt8) : Bool :=
  (65 ≤ c && c ≤ 90) || (97 ≤ c && c ≤ 122) || (48 ≤ c && c ≤ 57) || c == 0x2b || c == 0x2f || c == 0x3d

variable {n : ℕ}

/-- The last loop of `b64_decode`, from the next four characters on; `j` bytes are written. -/
def b64DecodeLoop : List UInt8 → ℕ → Buf n → Except Fault (ℕ × Buf n)
  | a :: b :: c :: d :: rest, j, dec => do
    let last := rest.isEmpty
    if last && c == 0x3d && d == 0x3d then
      let v := ((decmap a).toUInt32 <<< 18) ||| ((decmap b).toUInt32 <<< 12)
      let dec ← dec.put j ((v &&& 0x00ff0000) >>> 16).toUInt8
      b64DecodeLoop rest (j + 1) dec
    else if last && d == 0x3d then
      let v := ((decmap a).toUInt32 <<< 18) ||| ((decmap b).toUInt32 <<< 12) ||| ((decmap c).toUInt32 <<< 6)
      let dec ← dec.put j ((v &&& 0x00ff0000) >>> 16).toUInt8
      let dec ← dec.put (j + 1) ((v &&& 0x0000ff00) >>> 8).toUInt8
      b64DecodeLoop rest (j + 2) dec
    else
      let v := ((decmap a).toUInt32 <<< 18) ||| ((decmap b).toUInt32 <<< 12) ||| ((decmap c).toUInt32 <<< 6)
        ||| (decmap d).toUInt32
      let dec ← dec.put j ((v &&& 0x00ff0000) >>> 16).toUInt8
      let dec ← dec.put (j + 1) ((v &&& 0x0000ff00) >>> 8).toUInt8
      let dec ← dec.put (j + 2) (v &&& 0x000000ff).toUInt8
      b64DecodeLoop rest (j + 3) dec
  | _, j, dec => .ok (j, dec)

/-- `b64_decode(enc, elen, dec, dlen)` into the whole array `dec`. -/
def b64Decode (enc : List UInt8) (dec : Buf n) : Except Fault (ℤ × Buf n) :=
  if enc.length % 4 ≠ 0 then .ok (-2, dec)
  else if !enc.all b64Char then .ok (-2, dec)
  else if enc.length / 4 * 3 > n then .ok (-1, dec)
  else do
    let (j, dec) ← b64DecodeLoop enc 0 dec
    return ((j : ℤ), dec)

/-- The loop of `b64_encode`, from the next bytes on; `j` characters are written. -/
def b64EncodeLoop : List UInt8 → ℕ → Buf n → Except Fault (ℕ × Buf n)
  | a :: b :: c :: rest, j, enc => do
    let v := (a.toUInt32 <<< 16) ||| (b.toUInt32 <<< 8) ||| c.toUInt32
    let enc ← enc.put j (encmap ((v &&& 0x00fc0000) >>> 18).toUInt8)
    let enc ← enc.put (j + 1) (encmap ((v &&& 0x0003f000) >>> 12).toUInt8)
    let enc ← enc.put (j + 2) (encmap ((v &&& 0x00000fc0) >>> 6).toUInt8)
    let enc ← enc.put (j + 3) (encmap (v &&& 0x0000003f).toUInt8)
    b64EncodeLoop rest (j + 4) enc
  | [a, b], j, enc => do
    let v := (a.toUInt32 <<< 16) ||| (b.toUInt32 <<< 8)
    let enc ← enc.put j (encmap ((v &&& 0x00fc0000) >>> 18).toUInt8)
    let enc ← enc.put (j + 1) (encmap ((v &&& 0x0003f000) >>> 12).toUInt8)
    let enc ← enc.put (j + 2) (encmap ((v &&& 0x00000fc0) >>> 6).toUInt8)
    let enc ← enc.put (j + 3) 0x3d
    return (j + 4, enc)
  | [a], j, enc => do
    let v := a.toUInt32 <<< 16
    let enc ← enc.put j (encmap ((v &&& 0x00fc0000) >>> 18).toUInt8)
    let enc ← enc.put (j + 1) (encmap ((v &&& 0x0003f000) >>> 12).toUInt8)
    let enc ← enc.put (j + 2) 0x3d
    let enc ← enc.put (j + 3) 0x3d
    return (j + 4, enc)
  | [], j, enc => .ok (j, enc)

/-- `b64_encode(dec, dlen, enc, elen)` into the whole array `enc`. -/
def b64Encode (dec : List UInt8) (enc : Buf n) : Except Fault (ℤ × Buf n) :=
  if n < (dec.length / 3 + if dec.length % 3 > 0 then 1 else 0) * 4 then .ok (-1, enc)
  else do
    let (j, enc) ← b64EncodeLoop dec 0 enc
    return ((j : ℤ), enc)

end Esp8266Toolbox
