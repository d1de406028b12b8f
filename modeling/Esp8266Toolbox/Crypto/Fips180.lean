import Esp8266Toolbox.Lib.Blocks
import Esp8266Toolbox.Lib.Bytes
import Mathlib.Data.Nat.NthRoot.Defs

/-!
# FIPS 180-4: SHA-256

The standard, written on its own terms: words are rotated by `BitVec.rotateRight`, the
constants are the leading fractional bits of the square and cube roots of the first primes,
the schedule is the recurrence for `W t`, and the digest is defined on the whole padded
message at once.
-/

namespace Esp8266Toolbox
namespace Fips180

/-! ## Functions and constants (sections 4.1.2, 4.2.2 and 5.3.3) -/

/-- `ROTR^n(x)`. -/
def rotr (n : ℕ) (x : UInt32) : UInt32 := ⟨x.toBitVec.rotateRight n⟩

/-- `SHR^n(x)`. -/
def shr (n : ℕ) (x : UInt32) : UInt32 := ⟨x.toBitVec >>> n⟩

def ch (x y z : UInt32) : UInt32 := (x &&& y) ^^^ (~~~x &&& z)

def maj (x y z : UInt32) : UInt32 := (x &&& y) ^^^ (x &&& z) ^^^ (y &&& z)

def bigSigma0 (x : UInt32) : UInt32 := rotr 2 x ^^^ rotr 13 x ^^^ rotr 22 x

def bigSigma1 (x : UInt32) : UInt32 := rotr 6 x ^^^ rotr 11 x ^^^ rotr 25 x

def sigma0 (x : UInt32) : UInt32 := rotr 7 x ^^^ rotr 18 x ^^^ shr 3 x

def sigma1 (x : UInt32) : UInt32 := rotr 17 x ^^^ rotr 19 x ^^^ shr 10 x

/-- The prime numbers below `n`, in order. -/
def primesBelow (n : ℕ) : List ℕ :=
  (List.range n).filter fun p => 2 ≤ p && (List.range p).all fun d => d < 2 || p % d != 0

/-- The first 32 bits of the fractional part of the `k`-th root of `p`. -/
def rootFraction (k p : ℕ) : UInt32 := UInt32.ofNat (Nat.nthRoot k (p * 2 ^ (32 * k)))

/-- The constants `K_t`: cube roots of the first 64 primes. -/
def K : List UInt32 := (primesBelow 312).map (rootFraction 3)

/-- The initial hash value: square roots of the first 8 primes. -/
def H0 : List UInt32 := (primesBelow 20).map (rootFraction 2)

/-! ## Preprocessing (sections 5.1.1 and 5.2.1) -/

/-- `n` in `k` bytes, most significant first. -/
def beBytes (k n : ℕ) : List UInt8 :=
  (List.range k).map fun j => UInt8.ofNat (n / 2 ^ (8 * (k - 1 - j)))

/-- The message, the bit `1`, the least number of zeros that leaves 64 bits of the last
block, and the length of the message in bits. -/
def pad (m : List UInt8) : List UInt8 :=
  m ++ 0x80 :: List.replicate ((119 - m.length % 64) % 64) 0 ++ beBytes 8 (8 * m.length)

/-- Word `t` of a block. -/
def blockWord (block : List UInt8) (t : ℕ) : UInt32 :=
  UInt32.ofNat (beNat ((block.drop (4 * t)).take 4))

/-! ## Hash computation (section 6.2.2) -/

/-- The message schedule. -/
def W (block : List UInt8) (t : ℕ) : UInt32 :=
  if t < 16 then blockWord block t
  else sigma1 (W block (t - 2)) + W block (t - 7) + sigma0 (W block (t - 15)) + W block (t - 16)

/-- The working variables. -/
structure Vars where
  (a b c d e f g h : UInt32)
deriving DecidableEq, Repr

/-- Step 3 for one `t`. -/
def round (block : List UInt8) (v : Vars) (t : ℕ) : Vars :=
  let T1 := v.h + bigSigma1 v.e + ch v.e v.f v.g + K.getD t 0 + W block t
  let T2 := bigSigma0 v.a + maj v.a v.b v.c
  ⟨T1 + T2, v.a, v.b, v.c, v.d + T1, v.e, v.f, v.g⟩

/-- The intermediate hash value after one more block. -/
def compress (H : Vars) (block : List UInt8) : Vars :=
  let v := (List.range 64).foldl (round block) H
  ⟨v.a + H.a, v.b + H.b, v.c + H.c, v.d + H.d, v.e + H.e, v.f + H.f, v.g + H.g, v.h + H.h⟩

/-- The initial hash value as working variables. -/
def initial : Vars :=
  ⟨H0.getD 0 0, H0.getD 1 0, H0.getD 2 0, H0.getD 3 0, H0.getD 4 0, H0.getD 5 0, H0.getD 6 0,
    H0.getD 7 0⟩

/-- The SHA-256 digest of a message of bytes. -/
def sha256 (m : List UInt8) : List UInt8 :=
  let H := (blocks 64 (pad m)).foldl compress initial
  [H.a, H.b, H.c, H.d, H.e, H.f, H.g, H.h].flatMap fun x => beBytes 4 x.toNat

end Fips180
end Esp8266Toolbox
