import Esp8266Toolbox.Crypto.Bigint

/-!
# `crypto/rsa.c` and the host scripts that make its keys and signatures

`rsapubkey.py` prints the public key as `Bigint` literals, `rsasign.py` encrypts the digest of
an image with the private key and prints it in hexadecimal, and `rsa_pubkey_decrypt` undoes
this on the chip.
-/

namespace Esp8266Toolbox

/-- `pubkey_mod` and `pubkey_exp`. -/
structure RsaPubkey where
  mod : Bigint
  exp : Bigint
deriving DecidableEq, Repr

/-- `rsa_pubkey_decrypt`. -/
def rsaPubkeyDecrypt (key : RsaPubkey) (cipher : Bigint) : Except ℕ Bigint :=
  if bigintBits cipher > bigintBits key.mod then .error 1
  else bigintExpmod cipher key.exp key.mod

/-! ## `rsasign.py` -/

/-- A digit of Python's `'%x'`. -/
def hexDigit (d : ℕ) : UInt8 := UInt8.ofNat (if d < 10 then 48 + d else 87 + d)

/-- `'%x' % n`. -/
def hexText (n : ℕ) : List UInt8 :=
  if n = 0 then [hexDigit 0] else (Nat.digits 16 n).reverse.map hexDigit

/-- `bin(b)[2:]` for positive `b`, as the digits from the most significant one on. -/
def binDigits (b : ℕ) : List ℕ := (Nat.digits 2 b).reverse

/-- The list `xs` of `expmod`: `n + 1` numbers, each the square of the one before. -/
def squares (x c : ℕ) : ℕ → List ℕ
  | 0 => [x]
  | n + 1 => x :: squares (x * x % c) c n

/-- `expmod(a, b, c)` of `rsasign.py`, whose assertion is that `b` is positive. -/
def expmod (a b c : ℕ) : ℕ :=
  let bs := binDigits b
  let xs := squares (a % c) c (bs.length - 1)
  (List.range bs.length).foldl
    (fun rv p => if bs.getD p 0 = 1 then rv * xs.getD (xs.length - 1 - p) 0 else rv) 1 % c

/-- The signature `rsasign.py` writes for a digest. -/
def rsasign (digest : List UInt8) (privateExponent modulus : ℕ) : List UInt8 :=
  hexText (expmod (beNat digest) privateExponent modulus)

/-! ## `rsapubkey.py` -/

/-- The value of `0x` followed by two digits that `hexText` printed. -/
def hexPair (h l : UInt8) : UInt8 :=
  match hexchar h, hexchar l with
  | some h, some l => (h <<< 4) ||| l
  | _, _ => 0

/-- `[s[i:i+2] for i in range(0, len(s), 2)]`, each pair as the byte it denotes. -/
def hexPairs : List UInt8 → List UInt8
  | h :: l :: s => hexPair h l :: hexPairs s
  | _ => []

/-- The `Bigint` literal that `tobigint` prints. -/
def tobigint (val : ℕ) : Bigint :=
  let s := hexText val
  let s := if s.length % 2 = 1 then hexDigit 0 :: s else s
  { bytes := s.length / 2, bits := 0, data := (Buf.zero _).memcpy 0 (hexPairs s).reverse,
    bits_lt := Bigint.no_bits_lt }

end Esp8266Toolbox
