import Esp8266Toolbox.Crypto.Rfc1321
import Esp8266Toolbox.Lib.CString

/-!
# The CRAM-MD5 answer

The standards behind it, written on their own terms: the keyed hash of RFC 2104 over any hash
function, and the base64 encoding of RFC 4648.
-/

namespace Esp8266Toolbox

/-! ## Keyed hashing (RFC 2104) -/

/-- `HMAC(K, text)` over the hash function `hash` with blocks of `B` bytes: a key longer than a
block is hashed first, then zeros are appended to it up to a block. -/
def hmac (hash : List UInt8 → List UInt8) (B : ℕ) (K text : List UInt8) : List UInt8 :=
  let K := if B < K.length then hash K else K
  let K := K ++ List.replicate (B - K.length) 0
  hash (K.map (· ^^^ 0x5c) ++ hash (K.map (· ^^^ 0x36) ++ text))

/-! ## Base64 (RFC 4648, section 4) -/

/-- Table 1, the base 64 alphabet. -/
def base64Alphabet : List UInt8 :=
  ascii "ABCDEFGHIJKLMNOPQRSTUVWXYZabcdefghijklmnopqrstuvwxyz0123456789+/"

/-- The character for a 6-bit group. -/
def base64Digit (v : ℕ) : UInt8 := base64Alphabet.getD v 0

/-- Groups of 24 bits as four characters; the final quantum is filled up with zero bits and
padded. -/
def base64 : List UInt8 → List UInt8
  | a :: b :: c :: rest =>
    let v := a.toNat * 2 ^ 16 + b.toNat * 2 ^ 8 + c.toNat
    base64Digit (v / 2 ^ 18) :: base64Digit (v / 2 ^ 12 % 64) :: base64Digit (v / 2 ^ 6 % 64)
      :: base64Digit (v % 64) :: base64 rest
  | [a, b] =>
    let v := a.toNat * 2 ^ 16 + b.toNat * 2 ^ 8
    [base64Digit (v / 2 ^ 18), base64Digit (v / 2 ^ 12 % 64), base64Digit (v / 2 ^ 6 % 64), 0x3d]
  | [a] =>
    let v := a.toNat * 2 ^ 16
    [base64Digit (v / 2 ^ 18), base64Digit (v / 2 ^ 12 % 64), 0x3d, 0x3d]
  | [] => []

/-! ## The answer to a challenge -/

/-- The digits of lowercase hexadecimal. -/
def lowerDigits : List UInt8 := ascii "0123456789abcdef"

/-- Two lowercase hexadecimal digits a byte. -/
def lowerHex (bs : List UInt8) : List UInt8 :=
  bs.flatMap fun b => [lowerDigits.getD (b.toNat / 16) 0, lowerDigits.getD (b.toNat % 16) 0]

/-- The base64 text of the user, a space and the keyed digest of the challenge. -/
noncomputable def cramMd5 (user pass challenge : List UInt8) : List UInt8 :=
  base64 (user ++ ascii " " ++ lowerHex (hmac Rfc1321.md5 64 pass challenge))

end Esp8266Toolbox
