import Esp8266Toolbox.Lib.Bytes

/-!
# `crypto/bigint.c`: unsigned big integers in a fixed 150-byte array

A `Bigint` is `bytes` whole bytes and `bits` further bits of a little-endian array
`data`. The size is lazy: it may exceed what the value needs, and most operations leave
it alone. The statics `mul_pt`, `div_rt`, … are fully re-initialised by the call that uses
them, so they are local values here.

Functions that can fail return the C return code in `Except.error`; success is the C
code 0. A destination that C writes only by its last `bigint_copy` is the returned value
of the model; `bigintAdd`, which reads its operands while it overwrites its destination,
takes the destination and the aliasing of each operand explicitly (`Src`).
-/

namespace Esp8266Toolbox

/-- `DATA_MAXLEN`. -/
def dataMaxlen : ℕ := 150

/-- `Bigint`. The partial byte `data[bytes]` holds fewer than eight bits. -/
structure Bigint where
  bytes : ℕ
  bits : ℕ
  data : Buf dataMaxlen
  bits_lt : bits < 8
deriving DecidableEq, Repr

namespace Bigint

theorem no_bits_lt : 0 < 8 := by norm_num

theorem mod_bits_lt (n : ℕ) : n % 8 < 8 := Nat.mod_lt n no_bits_lt

/-! ## Bit macros -/

/-- `BITS(i)`. -/
def BITS (i : Bigint) : ℕ := i.bytes * 8 + i.bits

/-- `BIT(i, n)`. -/
def BIT (i : Bigint) (n : ℕ) : ℕ :=
  if n < i.BITS then ((i.data.get (n / 8) >>> UInt8.ofNat (n % 8)) &&& 1).toNat else 0

/-- `SET_BIT(i, n)`. -/
def setBit (i : Bigint) (n : ℕ) : Bigint :=
  if n < i.BITS then
    { i with data := i.data.set (n / 8) (i.data.get (n / 8) ||| (1 <<< UInt8.ofNat (n % 8))) }
  else i

/-- `CLR_BIT(i, n)`. -/
def clrBit (i : Bigint) (n : ℕ) : Bigint :=
  if n < i.BITS then
    { i with data := i.data.set (n / 8) (i.data.get (n / 8) &&& ~~~(1 <<< UInt8.ofNat (n % 8))) }
  else i

/-- The size `n` written as `bytes = n / 8`, `bits = n % 8`. -/
def resize (i : Bigint) (n : ℕ) : Bigint :=
  { i with bytes := n / 8, bits := n % 8, bits_lt := mod_bits_lt n }

/-- The mask `(1 << bits) - 1` of the partial byte. -/
def mask (i : Bigint) : UInt8 := (1 <<< UInt8.ofNat i.bits) - 1

/-- One pass of the byte loop of `LEFT_SHIFT`: the new byte `j` takes the carry `lb` and
hands on its top bit. -/
def leftShiftByte (d : Buf dataMaxlen × UInt8) (j : ℕ) : Buf dataMaxlen × UInt8 :=
  (d.1.set j ((d.1.get j <<< 1) ||| d.2), (d.1.get j >>> 7) &&& 1)

/-- The data half of `LEFT_SHIFT`: bytes `0 .. bytes` move up by one bit. -/
def leftShiftData (i : Bigint) : Buf dataMaxlen :=
  ((List.range (i.bytes + 1)).foldl leftShiftByte (i.data, 0)).1

/-- `LEFT_SHIFT(i)`; the macro returns 1 from its caller when the array is full. -/
def leftShift (i : Bigint) : Except ℕ Bigint :=
  let d := i.leftShiftData
  if h : i.bits + 1 = 8 then
    if i.bytes + 1 ≥ dataMaxlen - 1 then .error 1
    else .ok { bytes := i.bytes + 1, bits := 0, data := d, bits_lt := no_bits_lt }
  else .ok { bytes := i.bytes, bits := i.bits + 1, data := d, bits_lt := by have := i.bits_lt; omega }

/-- The complementing half of `TWOS_COMP`. -/
def invert (i : Bigint) : Bigint :=
  let d := (List.range i.bytes).foldl (fun (d : Buf dataMaxlen) j => d.set j (~~~d.get j)) i.data
  { i with data := if i.bits > 0 then d.set i.bytes (~~~d.get i.bytes &&& i.mask) else d }

/-- The incrementing half of `TWOS_COMP`, from bit `k` with `n` bits to go: the lowest
clear bit is set and the bits below it are cleared. -/
def increment (i : Bigint) (k : ℕ) : ℕ → Bigint
  | 0 => i
  | n + 1 =>
    if i.BIT k = 0 then (List.range k).reverse.foldl clrBit (i.setBit k)
    else increment i (k + 1) n

/-- `TWOS_COMP(i)`. -/
def twosComp (i : Bigint) : Bigint := i.invert.increment 0 i.BITS

end Bigint

open Bigint

/-! ## Sizes, constants and copies -/

/-- Index of the highest nonzero byte below `n`, plus one. -/
def topByte (d : Buf dataMaxlen) : ℕ → ℕ
  | 0 => 0
  | n + 1 => if d.get n ≠ 0 then n + 1 else topByte d n

/-- The cleanup of the unused bits and bytes in `normalize`. -/
def cleanup (i : Bigint) : Buf dataMaxlen :=
  let d := if i.bits > 0 then i.data.set i.bytes (i.data.get i.bytes &&& i.mask) else i.data
  let u := i.bytes + (if i.bits > 0 then 1 else 0)
  d.memcpy u (List.replicate (dataMaxlen - u) 0)

/-- `normalize`: the cleanup, then normalization proper. -/
def normalize (i : Bigint) : Bigint :=
  let d := cleanup i
  if i.bits > 0 ∧ d.get i.bytes &&& i.mask ≠ 0 then { i with data := d }
  else if topByte d i.bytes = 0 then { bytes := 0, bits := 1, data := d, bits_lt := by norm_num }
  else { bytes := topByte d i.bytes, bits := 0, data := d, bits_lt := no_bits_lt }

/-- `bigint_bits`. -/
def bigintBits (i : Bigint) : ℕ := i.BITS

/-- `bigint_zero`. -/
def bigintZero : Bigint := { bytes := 0, bits := 1, data := Buf.zero _, bits_lt := by norm_num }

/-- `hexchar`; `none` is the C value -1. -/
def hexchar (c : UInt8) : Option UInt8 :=
  if 48 ≤ c ∧ c ≤ 57 then some (c - 48)
  else if 65 ≤ c ∧ c ≤ 70 then some (c - 65 + 10)
  else if 97 ≤ c ∧ c ≤ 102 then some (c - 97 + 10)
  else none

/-- The loop of `bigint_fromhex` over the reversed text: two digits a pass, then the odd
leading digit. -/
def fromhexLoop (i : Bigint) : List UInt8 → Except ℕ Bigint
  | [] => .ok i
  | [c] =>
    match hexchar c with
    | none => .error 2
    | some l => .ok { i with data := i.data.set i.bytes l, bits := 4, bits_lt := by norm_num }
  | c :: c' :: cs =>
    match hexchar c, hexchar c' with
    | some l, some h =>
      let i := { i with data := i.data.set i.bytes ((h <<< 4) ||| l), bytes := i.bytes + 1 }
      if i.bytes ≥ dataMaxlen - 1 then .error 1 else fromhexLoop i cs
    | _, _ => .error 2

/-- `bigint_fromhex` on the characters of a C string. -/
def bigintFromhex (s : List UInt8) : Except ℕ Bigint :=
  fromhexLoop { bigintZero with bits := 0, bits_lt := no_bits_lt } s.reverse

/-- `bigint_copy`. -/
def bigintCopy (s : Bigint) : Bigint :=
  let u := s.bytes + (if s.bits > 0 then 1 else 0)
  let d := (Buf.zero dataMaxlen).memcpy 0 (s.data.toList.take u)
  { s with data := if s.bits > 0 then d.set s.bytes (d.get s.bytes &&& s.mask) else d }

/-- `bigint_iszero`. -/
def bigintIszero (i : Bigint) : Bool :=
  (List.range i.bytes).all (fun j => i.data.get j == 0) &&
    (i.bits == 0 || i.data.get i.bytes &&& i.mask == 0)

/-! ## Comparison -/

/-- Scan of the bits `n - 1, …, lo` that only one operand has: is one of them set? -/
def cmpScan (i : Bigint) (lo : ℕ) : ℕ → Bool
  | 0 => false
  | n + 1 => if lo ≤ n then (if i.BIT n = 1 then true else cmpScan i lo n) else false

/-- The byte loop of `bigint_cmp`, from byte `k` down. -/
def cmpBytes (i j : Bigint) : ℕ → ℤ
  | 0 => if i.data.get 0 > j.data.get 0 then 1 else if i.data.get 0 < j.data.get 0 then -1 else 0
  | k + 1 =>
    if i.data.get (k + 1) > j.data.get (k + 1) then 1
    else if i.data.get (k + 1) < j.data.get (k + 1) then -1
    else cmpBytes i j k

/-- The leading-bits loop of `bigint_cmp` followed by its byte loop. The argument is the C
counter plus one, so that C's `k = -1` is `0`; there C's `k / 8` is `0` as well. -/
def cmpBits (i j : Bigint) : ℕ → ℤ
  | 0 => cmpBytes i j 0
  | k + 1 =>
    if k % 8 = 0 then cmpBytes i j (k / 8)
    else if i.BIT k > j.BIT k then 1
    else if i.BIT k < j.BIT k then -1
    else cmpBits i j k

/-- `bigint_cmp`: -1, 0 or 1. -/
def bigintCmp (i j : Bigint) : ℤ :=
  if i.BITS > j.BITS then
    if cmpScan i j.BITS i.BITS then 1 else cmpBits i j j.BITS
  else if i.BITS < j.BITS then
    if cmpScan j i.BITS j.BITS then -1 else cmpBits i j i.BITS
  else cmpBits i j i.BITS

/-! ## Addition -/

/-- A `const Bigint *` operand of `bigint_add`: the destination itself or another object. -/
inductive Src where
  | dst
  | obj (x : Bigint)
deriving DecidableEq, Repr

/-- The object an operand points to while the destination holds `s`. -/
def Src.read (s : Bigint) : Src → Bigint
  | .dst => s
  | .obj x => x

/-- `if (i >= BITS(s)) …`: the destination grows to `i + 1` bits. The error carries the
destination as it is when `bigint_add` returns 1. -/
def addGrow (s : Bigint) (i : ℕ) : Except Bigint Bigint :=
  if i ≥ s.BITS then
    let s := s.resize (i + 1)
    if s.bytes ≥ dataMaxlen - 1 then .error s else .ok s
  else .ok s

/-- One pass of the loop of `bigint_add` at bit `i`, on the destination and the carry. -/
def addStep (a b : Src) (sc : Bigint × ℕ) (i : ℕ) : Except Bigint (Bigint × ℕ) := do
  let s ← addGrow sc.1 i
  let n := (a.read s).BIT i + (b.read s).BIT i + sc.2
  if n = 3 then return (s.setBit i, 1)
  else if n = 2 then return (s.clrBit i, 1)
  else if n = 1 then return (s.setBit i, 0)
  else return (s.clrBit i, 0)

/-- The `if (c == 1)` block of `bigint_add`: the last carry goes to bit `m`. -/
def addCarry (s : Bigint) (c m : ℕ) : Except Bigint Bigint := do
  if c = 1 then
    let s ← addGrow s m
    let s := s.setBit m
    if m ≥ s.BITS then
      let s := s.resize m
      if s.bytes ≥ dataMaxlen - 1 then .error s else .ok s
    else .ok s
  else .ok s

/-- `bigint_add` on a destination that holds `s`; `Except.error` is the return code 1. -/
def bigintAdd (s : Bigint) (a b : Src) : Except Bigint Bigint := do
  let m := max (a.read s).BITS (b.read s).BITS
  let (s, c) ← (List.range m).foldlM (addStep a b) (s, 0)
  let s ← addCarry s c m
  return if s.BITS > m + c then normalize (s.resize (m + c)) else s

/-! ## Multiplication, division and modular exponentiation -/

/-- The return code of a failed `bigint_add` handed on by its caller. -/
def addCode (r : Except Bigint Bigint) : Except ℕ Bigint :=
  match r with
  | .ok s => .ok s
  | .error _ => .error 1

/-- One pass of the loop of `bigint_mul`, on `mul_pt` and `mul_at`. -/
def mulStep (b : Bigint) (st : Bigint × Bigint) (i : ℕ) : Except ℕ (Bigint × Bigint) := do
  let pt ← if b.BIT i = 1 then addCode (bigintAdd st.1 .dst (.obj st.2)) else .ok st.1
  let at' ← st.2.leftShift
  return (pt, at')

/-- `bigint_mul`. -/
def bigintMul (a b : Bigint) : Except ℕ Bigint := do
  let (pt, _) ← (List.range b.BITS).foldlM (mulStep b) (bigintZero, bigintCopy a)
  return bigintCopy pt

/-- `++div_qt.bits == 8`, with its overflow check. -/
def divGrow (q : Bigint) : Except ℕ Bigint :=
  if h : q.bits + 1 = 8 then
    if q.bytes + 1 ≥ dataMaxlen - 1 then .error 1
    else .ok { q with bytes := q.bytes + 1, bits := 0, bits_lt := no_bits_lt }
  else .ok { q with bits := q.bits + 1, bits_lt := by have := q.bits_lt; omega }

/-- One pass of the loop of `bigint_div` at bit `i` of `a`, on `div_qt` and `div_rt`; `bc`
is the two's complement of `b`. -/
def divStep (a b bc : Bigint) (st : Bigint × Bigint) (i : ℕ) : Except ℕ (Bigint × Bigint) := do
  let rt ← st.2.leftShift
  let rt := { rt with data := rt.data.set 0 (rt.data.get 0 ||| UInt8.ofNat (a.BIT i)) }
  let qt ← divGrow st.1
  if bigintCmp rt b ≥ 0 then
    let rt ← addCode (bigintAdd rt .dst (.obj bc))
    let rt := if rt.BITS > b.BITS then
        normalize { rt with bytes := b.bytes, bits := b.bits, bits_lt := b.bits_lt }
      else rt
    if bigintCmp rt b ≥ 0 then .error 3
    else return (qt.setBit i, rt)
  else return (qt, rt)

/-- The values `div_qt` and `div_rt` hold when the loop of `bigint_div` has ended. -/
def divLoop (a b : Bigint) : Except ℕ (Bigint × Bigint) :=
  (List.range a.BITS).reverse.foldlM (divStep a b (twosComp (bigintCopy b)))
    (bigintZero, bigintZero)

/-- `bigint_div`: the quotient and the remainder it writes through non-`NULL` pointers
(which the caller has checked to be different). -/
def bigintDiv (a b : Bigint) : Except ℕ (Bigint × Bigint) := do
  if bigintIszero b then .error 2
  else
    let (qt, rt) ← divLoop a b
    return (bigintCopy (normalize qt), bigintCopy (normalize rt))

/-- One pass of the loop of `bigint_expmod` at bit `i` of `b`, on `expmod_xt`. -/
def expmodStep (r b c : Bigint) (xt : Bigint) (i : ℕ) : Except ℕ Bigint := do
  let xt ← bigintMul xt xt
  let (_, xt) ← bigintDiv xt c
  if b.BIT i = 1 then
    let xt ← bigintMul xt r
    let (_, xt) ← bigintDiv xt c
    return xt
  else return xt

/-- `bigint_expmod`. -/
def bigintExpmod (a b c : Bigint) : Except ℕ Bigint := do
  let (_, r) ← bigintDiv a c
  let xt ← (List.range b.BITS).reverse.foldlM (expmodStep r b c) (bigintZero.setBit 0)
  return bigintCopy xt

end Esp8266Toolbox
