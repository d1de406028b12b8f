import Mathlib.Analysis.Complex.Trigonometric
import Esp8266Toolbox.Lib.Blocks
import Esp8266Toolbox.Lib.Bytes

/-!
# RFC 1321: MD5

The standard, written on its own terms: the four auxiliary functions, the table `T` from the
sine function, the sixty-four operations in the order and with the register patterns of the
text, and the digest of the whole padded message at once.
-/

namespace Esp8266Toolbox
namespace Rfc1321

/-! ## Auxiliary functions and constants (section 3.4) -/

def F (x y z : UInt32) : UInt32 := (x &&& y) ||| (~~~x &&& z)

def G (x y z : UInt32) : UInt32 := (x &&& z) ||| (y &&& ~~~z)

def H (x y z : UInt32) : UInt32 := x ^^^ y ^^^ z

def I (x y z : UInt32) : UInt32 := y ^^^ (x ||| ~~~z)

/-- `X <<< s`: the circular shift to the left. -/
def rotl (x : UInt32) (s : ℕ) : UInt32 := ⟨x.toBitVec.rotateLeft s⟩

/-- `T[i]`: the integer part of 4294967296 times `abs(sin(i))`, where `i` is in radians. -/
noncomputable def T (i : ℕ) : UInt32 := UInt32.ofNat ⌊4294967296 * |Real.sin i|⌋₊

/-! ## The operations -/

/-- The four registers. -/
structure Regs where
  (A B C D : UInt32)
deriving DecidableEq, Repr

/-- The order in which an operation names the registers. -/
inductive Pattern where
  | ABCD | DABC | CDAB | BCDA
deriving DecidableEq, Repr

/-- `[abcd k s i]`. -/
structure Operation where
  pattern : Pattern
  k : ℕ
  s : ℕ
  i : ℕ
deriving DecidableEq, Repr

def round1 : List Operation :=
  [⟨.ABCD, 0, 7, 1⟩, ⟨.DABC, 1, 12, 2⟩, ⟨.CDAB, 2, 17, 3⟩, ⟨.BCDA, 3, 22, 4⟩,
   ⟨.ABCD, 4, 7, 5⟩, ⟨.DABC, 5, 12, 6⟩, ⟨.CDAB, 6, 17, 7⟩, ⟨.BCDA, 7, 22, 8⟩,
   ⟨.ABCD, 8, 7, 9⟩, ⟨.DABC, 9, 12, 10⟩, ⟨.CDAB, 10, 17, 11⟩, ⟨.BCDA, 11, 22, 12⟩,
   ⟨.ABCD, 12, 7, 13⟩, ⟨.DABC, 13, 12, 14⟩, ⟨.CDAB, 14, 17, 15⟩, ⟨.BCDA, 15, 22, 16⟩]

def round2 : List Operation :=
  [⟨.ABCD, 1, 5, 17⟩, ⟨.DABC, 6, 9, 18⟩, ⟨.CDAB, 11, 14, 19⟩, ⟨.BCDA, 0, 20, 20⟩,
   ⟨.ABCD, 5, 5, 21⟩, ⟨.DABC, 10, 9, 22⟩, ⟨.CDAB, 15, 14, 23⟩, ⟨.BCDA, 4, 20, 24⟩,
   ⟨.ABCD, 9, 5, 25⟩, ⟨.DABC, 14, 9, 26⟩, ⟨.CDAB, 3, 14, 27⟩, ⟨.BCDA, 8, 20, 28⟩,
   ⟨.ABCD, 13, 5, 29⟩, ⟨.DABC, 2, 9, 30⟩, ⟨.CDAB, 7, 14, 31⟩, ⟨.BCDA, 12, 20, 32⟩]

def round3 : List Operation :=
  [⟨.ABCD, 5, 4, 33⟩, ⟨.DABC, 8, 11, 34⟩, ⟨.CDAB, 11, 16, 35⟩, ⟨.BCDA, 14, 23, 36⟩,
   ⟨.ABCD, 1, 4, 37⟩, ⟨.DABC, 4, 11, 38⟩, ⟨.CDAB, 7, 16, 39⟩, ⟨.BCDA, 10, 23, 40⟩,
   ⟨.ABCD, 13, 4, 41⟩, ⟨.DABC, 0, 11, 42⟩, ⟨.CDAB, 3, 16, 43⟩, ⟨.BCDA, 6, 23, 44⟩,
   ⟨.ABCD, 9, 4, 45⟩, ⟨.DABC, 12, 11, 46⟩, ⟨.CDAB, 15, 16, 47⟩, ⟨.BCDA, 2, 23, 48⟩]

def round4 : List Operation :=
  [⟨.ABCD, 0, 6, 49⟩, ⟨.DABC, 7, 10, 50⟩, ⟨.CDAB, 14, 15, 51⟩, ⟨.BCDA, 5, 21, 52⟩,
   ⟨.ABCD, 12, 6, 53⟩, ⟨.DABC, 3, 10, 54⟩, ⟨.CDAB, 10, 15, 55⟩, ⟨.BCDA, 1, 21, 56⟩,
   ⟨.ABCD, 8, 6, 57⟩, ⟨.DABC, 15, 10, 58⟩, ⟨.CDAB, 6, 15, 59⟩, ⟨.BCDA, 13, 21, 60⟩,
   ⟨.ABCD, 4, 6, 61⟩, ⟨.DABC, 11, 10, 62⟩, ⟨.CDAB, 2, 15, 63⟩, ⟨.BCDA, 9, 21, 64⟩]

/-- `a = b + ((a + f(b,c,d) + X[k] + T[i]) <<< s)`: the new value of the first register. -/
noncomputable def mix (f : UInt32 → UInt32 → UInt32 → UInt32) (X : ℕ → UInt32) (o : Operation)
    (a b c d : UInt32) : UInt32 :=
  b + rotl (a + f b c d + X o.k + T o.i) o.s

/-- One operation on the registers. -/
noncomputable def operate (f : UInt32 → UInt32 → UInt32 → UInt32) (X : ℕ → UInt32) (r : Regs)
    (o : Operation) : Regs :=
  match o.pattern with
  | .ABCD => { r with A := mix f X o r.A r.B r.C r.D }
  | .DABC => { r with D := mix f X o r.D r.A r.B r.C }
  | .CDAB => { r with C := mix f X o r.C r.D r.A r.B }
  | .BCDA => { r with B := mix f X o r.B r.C r.D r.A }

/-! ## The digest (sections 3.1 to 3.5) -/

/-- `n` in `k` bytes, least significant first. -/
def leBytes (k n : ℕ) : List UInt8 := (List.range k).map fun j => UInt8.ofNat (n / 2 ^ (8 * j))

/-- The message, the bit `1`, the least number of zeros that leaves 64 bits of the last
block, and the length of the message in bits modulo `2^64`. -/
def pad (m : List UInt8) : List UInt8 :=
  m ++ 0x80 :: List.replicate ((119 - m.length % 64) % 64) 0 ++ leBytes 8 (8 * m.length)

/-- Word `k` of a block. -/
def blockWord (block : List UInt8) (k : ℕ) : UInt32 :=
  UInt32.ofNat (leNat ((block.drop (4 * k)).take 4))

/-- The registers after one more block. -/
noncomputable def compress (R : Regs) (block : List UInt8) : Regs :=
  let X := blockWord block
  let r := round1.foldl (operate F X) R
  let r := round2.foldl (operate G X) r
  let r := round3.foldl (operate H X) r
  let r := round4.foldl (operate I X) r
  ⟨r.A + R.A, r.B + R.B, r.C + R.C, r.D + R.D⟩

/-- The initial registers, given low-order bytes first. -/
def initial : Regs where
  A := UInt32.ofNat (leNat [0x01, 0x23, 0x45, 0x67])
  B := UInt32.ofNat (leNat [0x89, 0xab, 0xcd, 0xef])
  C := UInt32.ofNat (leNat [0xfe, 0xdc, 0xba, 0x98])
  D := UInt32.ofNat (leNat [0x76, 0x54, 0x32, 0x10])

/-- The MD5 digest of a message of bytes. -/
noncomputable def md5 (m : List UInt8) : List UInt8 :=
  let r := (blocks 64 (pad m)).foldl compress initial
  [r.A, r.B, r.C, r.D].flatMap fun x => leBytes 4 x.toNat

theorem length_md5 (m : List UInt8) : (md5 m).length = 16 := by
  simp [md5, leBytes]

end Rfc1321
end Esp8266Toolbox
