import Esp8266Toolbox.Crypto.BlockHash

/-!
# `crypto/sha256.c`

The compression function `sha256Consume` as the source computes it: the schedule `w` is
filled in place, the working variables are the array `g`, and rotation is the source's
`rrotate`, which masks one bit more than it rotates. The buffering around it is
`BlockHash.proc` and `BlockHash.done`.
-/

namespace Esp8266Toolbox

/-- `sha256_k`. -/
def sha256K : List UInt32 :=
  [0x428a2f98, 0x71374491, 0xb5c0fbcf, 0xe9b5dba5, 0x3956c25b,
   0x59f111f1, 0x923f82a4, 0xab1c5ed5, 0xd807aa98, 0x12835b01,
   0x243185be, 0x550c7dc3, 0x72be5d74, 0x80deb1fe, 0x9bdc06a7,
   0xc19bf174, 0xe49b69c1, 0xefbe4786, 0x0fc19dc6, 0x240ca1cc,
   0x2de92c6f, 0x4a7484aa, 0x5cb0a9dc, 0x76f988da, 0x983e5152,
   0xa831c66d, 0xb00327c8, 0xbf597fc7, 0xc6e00bf3, 0xd5a79147,
   0x06ca6351, 0x14292967, 0x27b70a85, 0x2e1b2138, 0x4d2c6dfc,
   0x53380d13, 0x650a7354, 0x766a0abb, 0x81c2c92e, 0x92722c85,
   0xa2bfe8a1, 0xa81a664b, 0xc24b8b70, 0xc76c51a3, 0xd192e819,
   0xd6990624, 0xf40e3585, 0x106aa070, 0x19a4c116, 0x1e376c08,
   0x2748774c, 0x34b0bcb5, 0x391c0cb3, 0x4ed8aa4a, 0x5b9cca4f,
   0x682e6ff3, 0x748f82ee, 0x78a5636f, 0x84c87814, 0x8cc70208,
   0x90befffa, 0xa4506ceb, 0xbef9a3f7, 0xc67178f2]

/-- `rrotate`. -/
def rrotate (x : UInt32) (n : ℕ) : UInt32 :=
  let left := x >>> UInt32.ofNat n
  let right := x &&& ((1 <<< UInt32.ofNat (n + 1)) - 1)
  right <<< UInt32.ofNat (32 - n) ||| left

/-- The eight words `h` of the state, and the working variables `g`. -/
abbrev Sha256Words := Vector UInt32 8

/-- A function of the eight words. -/
abbrev Sha256Words.apply {α : Type}
    (f : UInt32 → UInt32 → UInt32 → UInt32 → UInt32 → UInt32 → UInt32 → UInt32 → α) (g : Sha256Words) : α :=
  f g[0] g[1] g[2] g[3] g[4] g[5] g[6] g[7]

/-- `Sha256State`. -/
abbrev Sha256State := BlockState Sha256Words

/-- The values `sha256_init` stores into `h`. -/
def sha256H : Sha256Words :=
  #v[0x6a09e667, 0xbb67ae85, 0x3c6ef372, 0xa54ff53a, 0x510e527f, 0x9b05688c, 0x1f83d9ab, 0x5be0cd19]

/-- `sha256_init`. The buffer keeps its old content. -/
def sha256Init (state : Sha256State) : Sha256State :=
  { state with h := sha256H, buflen := 0, totallen := 0 }

/-- The first loop of `sha256_consume`: `w[i]` from the chunk, for `i < 16`. -/
def loadWord (chunk : List UInt8) (w : List UInt32) (i : ℕ) : List UInt32 :=
  w.set i (((chunk.getD (i * 4) 0).toUInt32 <<< 24) ||| ((chunk.getD (i * 4 + 1) 0).toUInt32 <<< 16)
    ||| ((chunk.getD (i * 4 + 2) 0).toUInt32 <<< 8) ||| (chunk.getD (i * 4 + 3) 0).toUInt32)

/-- The second loop of `sha256_consume` at `i = j + 16`. -/
def extendWord (w : List UInt32) (j : ℕ) : List UInt32 :=
  let i := j + 16
  let w15 := w.getD (i - 15) 0
  let w2 := w.getD (i - 2) 0
  let s0 := rrotate w15 7 ^^^ rrotate w15 18 ^^^ (w15 >>> 3)
  let s1 := rrotate w2 17 ^^^ rrotate w2 19 ^^^ (w2 >>> 10)
  w.set i (w.getD (i - 16) 0 + s0 + w.getD (i - 7) 0 + s1)

/-- The array `w` before the rounds. -/
def sha256Schedule (chunk : List UInt8) : List UInt32 :=
  let w := List.replicate 64 0
  let w := (List.range 16).foldl (loadWord chunk) w
  (List.range 48).foldl extendWord w

/-- One round of `sha256_consume`. -/
def sha256Round (w : List UInt32) (g : Sha256Words) (i : ℕ) : Sha256Words :=
  let S1 := rrotate g[4] 6 ^^^ rrotate g[4] 11 ^^^ rrotate g[4] 25
  let ch := (g[4] &&& g[5]) ^^^ (~~~g[4] &&& g[6])
  let temp1 := g[7] + S1 + ch + sha256K.getD i 0 + w.getD i 0
  let S0 := rrotate g[0] 2 ^^^ rrotate g[0] 13 ^^^ rrotate g[0] 22
  let maj := (g[0] &&& g[1]) ^^^ (g[0] &&& g[2]) ^^^ (g[1] &&& g[2])
  let temp2 := S0 + maj
  #v[temp1 + temp2, g[0], g[1], g[2], g[3] + temp1, g[4], g[5], g[6]]

/-- `sha256_consume`. -/
def sha256Consume (h : Sha256Words) (chunk : List UInt8) : Sha256Words :=
  let w := sha256Schedule chunk
  let g := (List.range 64).foldl (sha256Round w) h
  Vector.zipWith (· + ·) h g

/-- `sha256_proc`. -/
def sha256Proc (state : Sha256State) (buf : List UInt8) : Sha256State :=
  BlockHash.proc sha256Consume state buf

/-- The bytes `buf[56..64)` that `sha256_done` writes for the 32-bit product `totallen * 8`. -/
def sha256LenBytes (x : UInt32) : List UInt8 :=
  let total := x.toUInt64
  [(total >>> 56).toUInt8, (total >>> 48).toUInt8, (total >>> 40).toUInt8, (total >>> 32).toUInt8,
   (total >>> 24).toUInt8, (total >>> 16).toUInt8, (total >>> 8).toUInt8, total.toUInt8]

/-- The four bytes of `hash` that `sha256_done` writes for one word. -/
def sha256WordBytes (x : UInt32) : List UInt8 :=
  [(x >>> 24).toUInt8, (x >>> 16).toUInt8, (x >>> 8).toUInt8, x.toUInt8]

/-- `sha256_done`: the state it leaves and the bytes of `hash`. -/
def sha256Done (state : Sha256State) : Except Fault (Sha256State × List UInt8) := do
  let state ← BlockHash.done sha256Consume sha256LenBytes state
  return (state, state.h.toList.flatMap sha256WordBytes)

end Esp8266Toolbox
