import Mathlib.Logic.Function.Basic
import Esp8266Toolbox.Crypto.Bigint

/-!
# Programs over `Bigint` variables

A variable that no call has written yet holds arbitrary bytes, also in its `bits` field
(`RawBigint`). Of the functions of `bigint.c` only `bigint_add` reads its destination before it
has written it, so it is given here once more on such contents; the others write a whole
`Bigint`. An instruction is one call; `exec` runs it on the variables.
-/

namespace Esp8266Toolbox

open Bigint

/-- The contents of a `Bigint` variable, whatever its history. -/
structure RawBigint where
  bytes : ℕ
  bits : ℕ
  data : Buf dataMaxlen
deriving DecidableEq, Repr

/-- A well-formed number as contents of a variable. -/
def Bigint.raw (i : Bigint) : RawBigint := ⟨i.bytes, i.bits, i.data⟩

namespace RawBigint

/-! ## `bigint_add` into arbitrary contents -/

/-- `BITS(i)`. -/
def BITS (i : RawBigint) : ℕ := i.bytes * 8 + i.bits

/-- `BIT(i, n)`. -/
def BIT (i : RawBigint) (n : ℕ) : ℕ :=
  if n < i.BITS then ((i.data.get (n / 8) >>> UInt8.ofNat (n % 8)) &&& 1).toNat else 0

/-- `SET_BIT(i, n)`. -/
def setBit (i : RawBigint) (n : ℕ) : RawBigint :=
  if n < i.BITS then
    { i with data := i.data.set (n / 8) (i.data.get (n / 8) ||| (1 <<< UInt8.ofNat (n % 8))) }
  else i

/-- `CLR_BIT(i, n)`. -/
def clrBit (i : RawBigint) (n : ℕ) : RawBigint :=
  if n < i.BITS then
    { i with data := i.data.set (n / 8) (i.data.get (n / 8) &&& ~~~(1 <<< UInt8.ofNat (n % 8))) }
  else i

/-- The contents with the size `n` written as `bytes = n / 8`, `bits = n % 8`. -/
def resize (i : RawBigint) (n : ℕ) : Bigint :=
  { bytes := n / 8, bits := n % 8, data := i.data, bits_lt := mod_bits_lt n }

/-- The contents an operand of `bigint_add` points to while the destination holds `s`. -/
def read (s : RawBigint) : Src → RawBigint
  | .dst => s
  | .obj x => x.raw

/-- `if (i >= BITS(s)) …`: the destination grows to `i + 1` bits. -/
def addGrow (s : RawBigint) (i : ℕ) : Except RawBigint RawBigint :=
  if i ≥ s.BITS then
    let s := (s.resize (i + 1)).raw
    if s.bytes ≥ dataMaxlen - 1 then .error s else .ok s
  else .ok s

/-- One pass of the loop of `bigint_add` at bit `i`, on the destination and the carry. -/
def addStep (a b : Src) (sc : RawBigint × ℕ) (i : ℕ) : Except RawBigint (RawBigint × ℕ) := do
  let s ← addGrow sc.1 i
  let n := (s.read a).BIT i + (s.read b).BIT i + sc.2
  if n = 3 then return (s.setBit i, 1)
  else if n = 2 then return (s.clrBit i, 1)
  else if n = 1 then return (s.setBit i, 0)
  else return (s.clrBit i, 0)

/-- The `if (c == 1)` block of `bigint_add`: the last carry goes to bit `m`. -/
def addCarry (s : RawBigint) (c m : ℕ) : Except RawBigint RawBigint := do
  if c = 1 then
    let s ← addGrow s m
    let s := s.setBit m
    if m ≥ s.BITS then
      let s := (s.resize m).raw
      if s.bytes ≥ dataMaxlen - 1 then .error s else .ok s
    else .ok s
  else .ok s

/-- `bigint_add` on a destination that holds `s`; the error is the return code 1 with the
destination as the call leaves it. -/
def add (s : RawBigint) (a b : Src) : Except RawBigint RawBigint := do
  let m := max (s.read a).BITS (s.read b).BITS
  let (s, c) ← (List.range m).foldlM (addStep a b) (s, 0)
  let s ← addCarry s c m
  return if s.BITS > m + c then (normalize (s.resize (m + c))).raw else s

/-- The contents as a number, when the partial byte has fewer than eight bits. -/
def checked (i : RawBigint) : Option Bigint :=
  if h : i.bits < 8 then some ⟨i.bytes, i.bits, i.data, h⟩ else none

/-- What a successful call should leave: fewer than eight bits in the partial byte, at most 148
whole bytes, and every bit of `data[]` above the size 0. -/
def Clean (i : RawBigint) : Prop :=
  i.bits < 8 ∧ i.bytes ≤ 148 ∧ ∀ k, 8 * i.bytes + i.bits ≤ k → i.data.num.testBit k = false

end RawBigint

/-! ## `bigint_fromhex` of a text of any length -/

/-- The characters `bigint_fromhex` looks at: its index is an `int16_t` that starts at
`strlen(s) - 1`, reduced to 16 bits. -/
def fromhexChars (s : List UInt8) : List UInt8 :=
  s.take (((s.length : ℤ) - 1).bmod 65536 + 1).toNat

/-- The destination when the loop of `bigint_fromhex` returns, whatever the return code. -/
def fromhexLeft (i : Bigint) : List UInt8 → Bigint
  | [] => i
  | [c] =>
    match hexchar c with
    | none => i
    | some l => { i with data := i.data.set i.bytes l, bits := 4, bits_lt := by norm_num }
  | c :: c' :: cs =>
    match hexchar c, hexchar c' with
    | some l, some h =>
      let i := { i with data := i.data.set i.bytes ((h <<< 4) ||| l), bytes := i.bytes + 1 }
      if i.bytes ≥ dataMaxlen - 1 then i else fromhexLeft i cs
    | _, _ => i

/-! ## Instructions -/

/-- One call on variables named by `ι`; the pointers of `bigint_div` may be `NULL`. -/
inductive Instr (ι : Type*) where
  | zero (i : ι)
  | fromhex (i : ι) (s : List UInt8)
  | copy (d s : ι)
  | add (s a b : ι)
  | mul (p a b : ι)
  | div (q r : Option ι) (a b : ι)
  | expmod (x a b c : ι)

/-- A variable: its contents, and whether a successful call wrote them. -/
structure Cell where
  content : RawBigint
  result : Bool
deriving DecidableEq, Repr

namespace Cells

variable {ι : Type*} [DecidableEq ι]

/-- The variables before the first call. -/
def start (content : ι → RawBigint) : ι → Cell := fun i => ⟨content i, false⟩

/-- The number a source operand holds: the result of an earlier successful call. -/
def fetch (v : ι → Cell) (i : ι) : Option Bigint :=
  if (v i).result then (v i).content.checked else none

/-- A call succeeds and has written `x` to `d`. -/
def succeed (v : ι → Cell) (d : ι) (x : RawBigint) : ι → Cell := Function.update v d ⟨x, true⟩

/-- A call fails after it has written to `d`. -/
def spoil (v : ι → Cell) (d : ι) (x : RawBigint) : ι → Cell := Function.update v d ⟨x, false⟩

/-- A call succeeds and has written `x` through a pointer that may be `NULL`. -/
def succeedOpt (v : ι → Cell) (d : Option ι) (x : RawBigint) : ι → Cell :=
  match d with
  | some d => succeed v d x
  | none => v

/-- The operand `a` of a `bigint_add` into `s`. -/
def operand (s a : ι) (x : Bigint) : Src := if a = s then .dst else .obj x

/-- One call. A call that fails leaves its destination as it was, unless it had begun to write it.
With an operand that is no number the call is not run. -/
def exec (v : ι → Cell) : Instr ι → ι → Cell
  | .zero i => succeed v i bigintZero.raw
  | .fromhex i s =>
    match bigintFromhex (fromhexChars s) with
    | .ok x => succeed v i x.raw
    | .error _ =>
      spoil v i (fromhexLeft { bigintZero with bits := 0, bits_lt := no_bits_lt }
        (fromhexChars s).reverse).raw
  | .copy d s =>
    match fetch v s with
    | some x =>
      -- `bzero(d->data, …)` comes first, so a copy onto itself loses the number
      if d = s then succeed v d { x.raw with data := Buf.zero _ } else succeed v d (bigintCopy x).raw
    | none => v
  | .add s a b =>
    match fetch v a, fetch v b with
    | some x, some y =>
      match (v s).content.add (operand s a x) (operand s b y) with
      | .ok z => succeed v s z
      | .error z => spoil v s z
    | _, _ => v
  | .mul p a b =>
    match fetch v a, fetch v b with
    | some x, some y =>
      match bigintMul x y with
      | .ok z => succeed v p z.raw
      | .error _ => v
    | _, _ => v
  | .div q r a b =>
    match fetch v a, fetch v b with
    | some x, some y =>
      if q = r then v
      else
        match bigintDiv x y with
        | .ok (qt, rt) => succeedOpt (succeedOpt v q qt.raw) r rt.raw
        | .error _ => v
    | _, _ => v
  | .expmod x a b c =>
    match fetch v a, fetch v b, fetch v c with
    | some y, some z, some w =>
      match bigintExpmod y z w with
      | .ok t => succeed v x t.raw
      | .error _ => v
    | _, _, _ => v

/-- The source operands of a call. -/
def sources : Instr ι → List ι
  | .zero _ | .fromhex _ _ => []
  | .copy _ s => [s]
  | .add _ a b | .mul _ a b | .div _ _ a b => [a, b]
  | .expmod _ a b c => [a, b, c]

/-- Every source operand is the result of an earlier successful call. -/
def Ready (v : ι → Cell) (e : Instr ι) : Prop := ∀ i ∈ sources e, (v i).result = true

instance (v : ι → Cell) (e : Instr ι) : Decidable (Ready v e) :=
  inferInstanceAs (Decidable (∀ i ∈ sources e, (v i).result = true))

end Cells
end Esp8266Toolbox
