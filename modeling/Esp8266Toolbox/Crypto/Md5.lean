import Esp8266Toolbox.Crypto.BlockHash

/-!
# `crypto/md5.c`

The compression function `md5Consume` as the source computes it, with the working variables in
the array `hh`, which moves on by one place in each round. The buffering around it is
`BlockHash.proc` and `BlockHash.done`.
-/

namespace Esp8266Toolbox

/-- `md5_k`. -/
def md5K : List UInt32 :=
  [0xd76aa478, 0xe8c7b756, 0x242070db, 0xc1bdceee, 0xf57c0faf,
   0x4787c62a, 0xa8304613, 0xfd469501, 0x698098d8, 0x8b44f7af,
   0xffff5bb1, 0x895cd7be, 0x6b901122, 0xfd987193, 0xa679438e,
   0x49b40821, 0xf61e2562, 0xc040b340, 0x265e5a51, 0xe9b6c7aa,
   0xd62f105d, 0x02441453, 0xd8a1e681, 0xe7d3fbc8, 0x21e1cde6,
   0xc33707d6, 0xf4d50d87, 0x455a14ed, 0xa9e3e905, 0xfcefa3f8,
   0x676f02d9, 0x8d2a4c8a, 0xfffa3942, 0x8771f681, 0x6d9d6122,
   0xfde5380c, 0xa4beea44, 0x4bdecfa9, 0xf6bb4b60, 0xbebfbc70,
   0x289b7ec6, 0xeaa127fa, 0xd4ef3085, 0x04881d05, 0xd9d4d039,
   0xe6db99e5, 0x1fa27cf8, 0xc4ac5665, 0xf4292244, 0x432aff97,
   0xab9423a7, 0xfc93a039, 0x655b59c3, 0x8f0ccc92, 0xffeff47d,
   0x85845dd1, 0x6fa87e4f, 0xfe2ce6e0, 0xa3014314, 0x4e0811a1,
   0xf7537e82, 0xbd3af235, 0x2ad7d2bb, 0xeb86d391]

/-- `md5_s`. -/
def md5S : List ℕ :=
  [7, 12, 17, 22,  7, 12, 17, 22,  7, 12, 17, 22,  7, 12, 17, 22,
   5,  9, 14, 20,  5,  9, 14, 20,  5,  9, 14, 20,  5,  9, 14, 20,
   4, 11, 16, 23,  4, 11, 16, 23,  4, 11, 16, 23,  4, 11, 16, 23,
   6, 10, 15, 21,  6, 10, 15, 21,  6, 10, 15, 21,  6, 10, 15, 21]

/-- `LROTATE(x, n)`. -/
def LROTATE (x : UInt32) (n : ℕ) : UInt32 := (x <<< UInt32.ofNat n) ||| (x >>> UInt32.ofNat (32 - n))

/-- The four words `h` of the state, and the working variables `hh`. -/
abbrev Md5Words := Vector UInt32 4

/-! Their names in the standard. -/

abbrev Md5Words.A (hh : Md5Words) : UInt32 := hh[0]

abbrev Md5Words.B (hh : Md5Words) : UInt32 := hh[1]

abbrev Md5Words.C (hh : Md5Words) : UInt32 := hh[2]

abbrev Md5Words.D (hh : Md5Words) : UInt32 := hh[3]

/-- `Md5State`. -/
abbrev Md5State := BlockState Md5Words

/-- The values `md5_init` stores into `h`. -/
def md5H : Md5Words := #v[0x67452301, 0xefcdab89, 0x98badcfe, 0x10325476]

/-- `md5_init`. The buffer keeps its old content. -/
def md5Init (state : Md5State) : Md5State :=
  { state with h := md5H, buflen := 0, totallen := 0 }

/-- The first loop of `md5_consume`: `m[i]` from the chunk. -/
def md5Word (chunk : List UInt8) (m : List UInt32) (i : ℕ) : List UInt32 :=
  m.set i (((chunk.getD (i * 4 + 3) 0).toUInt32 <<< 24) ||| ((chunk.getD (i * 4 + 2) 0).toUInt32 <<< 16)
    ||| ((chunk.getD (i * 4 + 1) 0).toUInt32 <<< 8) ||| (chunk.getD (i * 4) 0).toUInt32)

/-- The values of `f` and `g` in round `i`. -/
def md5FG (hh : Md5Words) (i : ℕ) : UInt32 × ℕ :=
  if i ≤ 15 then ((hh[1] &&& hh[2]) ||| (~~~hh[1] &&& hh[3]), i)
  else if i ≤ 31 then ((hh[3] &&& hh[1]) ||| (~~~hh[3] &&& hh[2]), (5 * i + 1) % 16)
  else if i ≤ 47 then (hh[1] ^^^ hh[2] ^^^ hh[3], (3 * i + 5) % 16)
  else (hh[2] ^^^ (hh[1] ||| ~~~hh[3]), (7 * i) % 16)

/-- One round of `md5_consume`. -/
def md5Round (m : List UInt32) (hh : Md5Words) (i : ℕ) : Md5Words :=
  let (f, g) := md5FG hh i
  let f := f + hh[0] + md5K.getD i 0 + m.getD g 0
  #v[hh[3], hh[1] + LROTATE f (md5S.getD i 0), hh[1], hh[2]]

/-- `md5_consume`. -/
def md5Consume (h : Md5Words) (chunk : List UInt8) : Md5Words :=
  let m := (List.range 16).foldl (md5Word chunk) (List.replicate 16 0)
  let hh := (List.range 64).foldl (md5Round m) h
  Vector.zipWith (· + ·) h hh

/-- `md5_proc`. -/
def md5Proc (state : Md5State) (buf : List UInt8) : Md5State :=
  BlockHash.proc md5Consume state buf

/-- The bytes `buf[56..64)` that `md5_done` writes for the 32-bit product `totallen * 8`. -/
def md5LenBytes (x : UInt32) : List UInt8 :=
  let total := x.toUInt64
  [total.toUInt8, (total >>> 8).toUInt8, (total >>> 16).toUInt8, (total >>> 24).toUInt8,
   (total >>> 32).toUInt8, (total >>> 40).toUInt8, (total >>> 48).toUInt8, (total >>> 56).toUInt8]

/-- The four bytes of `hash` that `md5_done` writes for one word. -/
def md5WordBytes (x : UInt32) : List UInt8 :=
  [x.toUInt8, (x >>> 8).toUInt8, (x >>> 16).toUInt8, (x >>> 24).toUInt8]

/-- `md5_done`: the state it leaves and the bytes of `hash`. -/
def md5Done (state : Md5State) : Except Fault (Md5State × List UInt8) := do
  let state ← BlockHash.done md5Consume md5LenBytes state
  return (state, state.h.toList.flatMap md5WordBytes)

/-- `md5`, with the contents of its local state before `md5_init`: the bytes of `hash`. -/
def md5 (s : Md5State) (buf : List UInt8) : Except Fault (List UInt8) := do
  let (_, hash) ← md5Done (md5Proc (md5Init s) buf)
  return hash

end Esp8266Toolbox
