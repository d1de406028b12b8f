import Esp8266Toolbox.Lib.Loops
import Esp8266Toolbox.Lib.Words
import Esp8266Toolbox.Crypto.Md5Table

/-!
# `md5.c` computes MD5

* `LROTATE_eq`: the macro is the circular shift;
* `md5Round_spec`: one round is one operation of the standard on the registers, which the array
  `hh` holds in the order of the operation's pattern;
* `md5Consume_spec`: sixty-four rounds refine the standard's compression;
* `md5_spec`: the digest.
-/

namespace Esp8266Toolbox

open Rfc1321

/-! ## Words -/

theorem LROTATE_eq (x : UInt32) {n : ℕ} (h0 : 0 < n) (hn : n < 32) : LROTATE x n = rotl x n := by
  apply UInt32.toNat_inj.mp
  apply Nat.eq_of_testBit_eq
  intro i
  have h1 : (UInt32.ofNat n).toNat % 32 = n := by simp; omega
  have h2 : (UInt32.ofNat (32 - n)).toNat % 32 = 32 - n := by simp; omega
  have hr : (rotl x n).toNat.testBit i = (x.toBitVec.rotateLeft n).getLsbD i := rfl
  rw [hr, BitVec.getLsbD_rotateLeft, LROTATE]
  simp only [UInt32.toNat_or, UInt32.toNat_shiftLeft, UInt32.toNat_shiftRight, h1, h2, Nat.testBit_or,
    Nat.testBit_mod_two_pow, Nat.testBit_shiftLeft, Nat.testBit_shiftRight,
    Nat.mod_eq_of_lt (by omega : n < 32), BitVec.getLsbD, UInt32.toNat_toBitVec]
  by_cases hi : i < n
  · -- the bits that come round from the top
    simp [hi, show i < 32 by omega]
  · by_cases hi32 : i < 32
    · simp [hi, hi32, word_testBit_ge x (by omega : 32 ≤ 32 - n + i), show n ≤ i by omega]
    · simp [hi, hi32, word_testBit_ge x (by omega : 32 ≤ 32 - n + i)]

/-! ## The operations of the standard, by their index -/

/-- The pattern of operation `i`. -/
def patternAt (i : ℕ) : Pattern :=
  if i % 4 = 0 then .ABCD else if i % 4 = 1 then .DABC else if i % 4 = 2 then .CDAB else .BCDA

/-- The auxiliary function of operation `i`. -/
def auxAt (i : ℕ) : UInt32 → UInt32 → UInt32 → UInt32 :=
  if i ≤ 15 then F else if i ≤ 31 then G else if i ≤ 47 then H else I

/-- The index `g` of round `i`. -/
def gAt (i : ℕ) : ℕ :=
  if i ≤ 15 then i else if i ≤ 31 then (5 * i + 1) % 16 else if i ≤ 47 then (3 * i + 5) % 16 else (7 * i) % 16

/-- Operation `i` with the indices of the source. -/
def opAt (i : ℕ) : Operation := ⟨patternAt i, gAt i, md5S.getD i 0, i + 1⟩

theorem rounds_eq : round1 = (List.range 16).map opAt ∧
    round2 = (List.range 16).map (fun j => opAt (16 + j)) ∧
    round3 = (List.range 16).map (fun j => opAt (32 + j)) ∧
    round4 = (List.range 16).map (fun j => opAt (48 + j)) := by decide

theorem compress_eq (R : Regs) (block : List UInt8) :
    let r := (List.range 64).foldl (fun r i => operate (auxAt i) (blockWord block) r (opAt i)) R
    compress R block = ⟨r.A + R.A, r.B + R.B, r.C + R.C, r.D + R.D⟩ := by
  obtain ⟨h1, h2, h3, h4⟩ := rounds_eq
  have hsplit : List.range 64 = List.range 16 ++ (List.range 16).map (fun j => 16 + j)
      ++ (List.range 16).map (fun j => 32 + j) ++ (List.range 16).map (fun j => 48 + j) := by decide
  -- within a round the auxiliary function does not change
  have haux : ∀ (f : UInt32 → UInt32 → UInt32 → UInt32) (base : ℕ), (∀ j < 16, auxAt (base + j) = f) →
      ∀ r : Regs, (List.range 16).foldl (fun r j => operate f (blockWord block) r (opAt (base + j))) r
        = (List.range 16).foldl (fun r j => operate (auxAt (base + j)) (blockWord block) r (opAt (base + j))) r := by
    intro f base hf r
    apply List.foldl_ext
    intro r' j hj
    rw [hf j (List.mem_range.mp hj)]
  have hF := haux F 0 fun j hj => by unfold auxAt; rw [if_pos (by omega)]
  have hG := haux G 16 fun j hj => by unfold auxAt; rw [if_neg (by omega), if_pos (by omega)]
  have hH := haux H 32 fun j hj => by
    unfold auxAt; rw [if_neg (by omega), if_neg (by omega), if_pos (by omega)]
  have hI := haux I 48 fun j hj => by
    unfold auxAt; rw [if_neg (by omega), if_neg (by omega), if_neg (by omega)]
  simp only [Nat.zero_add] at hF
  simp only [compress, h1, h2, h3, h4, List.foldl_map, hF, hG, hH, hI, hsplit, List.foldl_append]

/-! ## One round -/

/-- The registers in `hh` before an operation with the given pattern. -/
def regsAt (p : Pattern) (hh : Md5Words) : Regs :=
  match p with
  | .ABCD => ⟨hh.A, hh.B, hh.C, hh.D⟩
  | .DABC => ⟨hh.B, hh.C, hh.D, hh.A⟩
  | .CDAB => ⟨hh.C, hh.D, hh.A, hh.B⟩
  | .BCDA => ⟨hh.D, hh.A, hh.B, hh.C⟩

theorem md5FG_eq (hh : Md5Words) (i : ℕ) : md5FG hh i = (auxAt i hh.B hh.C hh.D, gAt i) := by
  unfold md5FG auxAt gAt
  split_ifs
  · rfl
  · rw [G, UInt32.and_comm hh.D hh.B, UInt32.and_comm (~~~hh.D) hh.C]
  · rfl
  · rfl

theorem md5S_range {i : ℕ} (hi : i < 64) : 0 < md5S.getD i 0 ∧ md5S.getD i 0 < 32 := by
  have hall : ∀ i < 64, 0 < md5S.getD i 0 ∧ md5S.getD i 0 < 32 := by decide
  exact hall i hi

/-- The new word that a round puts into `hh`. -/
theorem md5Round_word {m : List UInt32} {X : ℕ → UInt32} (hm : ∀ k < 16, m.getD k 0 = X k) (hh : Md5Words)
    {i : ℕ} (hi : i < 64) :
    md5Round m hh i = #v[hh.D, mix (auxAt i) X (opAt i) hh.A hh.B hh.C hh.D, hh.B, hh.C] := by
  obtain ⟨hs0, hs⟩ := md5S_range hi
  have hg : gAt i < 16 := by
    unfold gAt
    split_ifs <;> omega
  have hsum : auxAt i hh.B hh.C hh.D + hh.A + md5K.getD i 0 + X (gAt i)
      = hh.A + auxAt i hh.B hh.C hh.D + X (gAt i) + md5K.getD i 0 := by ac_rfl
  simp only [md5Round, md5FG_eq, hm _ hg, mix, opAt, T_eq_md5K hi, LROTATE_eq _ hs0 hs, hsum]

theorem md5Round_spec {m : List UInt32} {X : ℕ → UInt32} (hm : ∀ k < 16, m.getD k 0 = X k) (hh : Md5Words)
    {i : ℕ} (hi : i < 64) :
    regsAt (patternAt (i + 1)) (md5Round m hh i) = operate (auxAt i) X (regsAt (patternAt i) hh) (opAt i) := by
  rw [md5Round_word hm hh hi]
  unfold patternAt
  have h4 : i % 4 < 4 := Nat.mod_lt _ (by norm_num)
  have hop : (opAt i).pattern = patternAt i := rfl
  unfold patternAt at hop
  unfold operate
  rw [hop]
  have hnext : (i + 1) % 4 = (i % 4 + 1) % 4 := by omega
  rw [hnext]
  interval_cases h : i % 4 <;> rfl

/-- The rounds on `hh` are the operations on the registers. -/
theorem md5Rounds_spec {m : List UInt32} {X : ℕ → UInt32} (hm : ∀ k < 16, m.getD k 0 = X k) (h : Md5Words)
    {n : ℕ} (hn : n ≤ 64) :
    regsAt (patternAt n) ((List.range n).foldl (md5Round m) h)
      = (List.range n).foldl (fun r i => operate (auxAt i) X r (opAt i)) (regsAt .ABCD h) := by
  induction n with
  | zero => rfl
  | succ n ih =>
    rw [List.range_succ, List.foldl_append, List.foldl_append, List.foldl_cons, List.foldl_nil,
      List.foldl_cons, List.foldl_nil, md5Round_spec hm _ (by omega), ih (by omega)]

/-! ## The compression function -/

/-- The array `m` after its loop. -/
theorem md5Words_spec {chunk : List UInt8} (hc : chunk.length = 64) {k : ℕ} (hk : k < 16) :
    ((List.range 16).foldl (md5Word chunk) (List.replicate 16 0)).getD k 0 = blockWord chunk k := by
  let Inv : ℕ → List UInt32 → Prop := fun i m => m.length = 16 ∧ ∀ k < i, m.getD k 0 = blockWord chunk k
  have hinv : Inv 16 ((List.range 16).foldl (md5Word chunk) (List.replicate 16 0)) := by
    apply Loops.foldl_range_inv (md5Word chunk) Inv
    · exact ⟨by simp, by simp⟩
    rintro i m hi ⟨hlen, hm⟩
    refine ⟨by simpa [md5Word] using hlen, fun k hk => ?_⟩
    rcases Nat.lt_succ_iff_lt_or_eq.mp hk with hlt | rfl
    · rw [md5Word, getD_set_ne m (by omega), hm k hlt]
    · rw [md5Word, getD_set_self (by omega), word_of_bytes, blockWord, take_four_drop (by omega),
        Nat.mul_comm k 4]
      rfl
  exact hinv.2 k hk

/-- `md5_consume` is the standard's compression of one block. -/
theorem md5Consume_spec (h : Md5Words) {chunk : List UInt8} (hc : chunk.length = 64) :
    regsAt .ABCD (md5Consume h chunk) = compress (regsAt .ABCD h) chunk := by
  have hrounds := md5Rounds_spec (fun k hk => md5Words_spec hc hk) h (le_refl 64)
  rw [show patternAt 64 = .ABCD from rfl] at hrounds
  rw [compress_eq, ← hrounds, md5Consume]
  generalize (List.range 64).foldl _ h = hh
  simp only [regsAt, Vector.getElem_zipWith, UInt32.add_comm]

/-- Compressing a list of blocks. -/
theorem foldl_md5Consume (bs : List (List UInt8)) (hbs : ∀ b ∈ bs, b.length = 64) (h : Md5Words) :
    regsAt .ABCD (bs.foldl md5Consume h) = bs.foldl compress (regsAt .ABCD h) := by
  induction bs generalizing h with
  | nil => rfl
  | cons b bs ih =>
    rw [List.foldl_cons, List.foldl_cons, ih (fun c hc => hbs c (List.mem_cons_of_mem _ hc)),
      md5Consume_spec h (hbs b List.mem_cons_self)]

/-! ## Digest and length field -/

theorem md5WordBytes_eq (x : UInt32) : md5WordBytes x = leBytes 4 x.toNat := by
  have hbytes : leBytes 4 x.toNat = [UInt8.ofNat (x.toNat / 2 ^ 0), UInt8.ofNat (x.toNat / 2 ^ 8),
      UInt8.ofNat (x.toNat / 2 ^ 16), UInt8.ofNat (x.toNat / 2 ^ 24)] := rfl
  rw [hbytes, md5WordBytes]
  simp [← UInt8.toNat_inj, Nat.shiftRight_eq_div_pow]

/-- While the number of bits fits the 32-bit product, the length field is the standard's. -/
theorem md5LenBytes_eq {n : ℕ} (hn : n < 2 ^ 29) : md5LenBytes (UInt32.ofNat n * 8) = leBytes 8 (8 * n) := by
  have hbytes : leBytes 8 (8 * n) = [UInt8.ofNat (8 * n / 2 ^ 0), UInt8.ofNat (8 * n / 2 ^ 8),
      UInt8.ofNat (8 * n / 2 ^ 16), UInt8.ofNat (8 * n / 2 ^ 24), UInt8.ofNat (8 * n / 2 ^ 32),
      UInt8.ofNat (8 * n / 2 ^ 40), UInt8.ofNat (8 * n / 2 ^ 48), UInt8.ofNat (8 * n / 2 ^ 56)] := rfl
  rw [hbytes, md5LenBytes]
  have hwrap : n * 8 % 4294967296 = 8 * n := by omega
  simp [← UInt8.toNat_inj, Nat.shiftRight_eq_div_pow, hwrap]

/-! ## The stream -/

/-- `md5_init` starts an empty message. -/
theorem md5Init_absorbed (s : Md5State) : BlockHash.Absorbed md5Consume md5H (md5Init s) [] :=
  BlockHash.absorbed_nil rfl rfl rfl

/-- `md5_done` on a state that has absorbed `m` writes the digest of `m`. -/
theorem md5Done_spec {state : Md5State} {m : List UInt8} (h : BlockHash.Absorbed md5Consume md5H state m)
    (hm : m.length < 2 ^ 29) : ∃ state', md5Done state = .ok (state', Rfc1321.md5 m) := by
  obtain ⟨state', hdone, hh⟩ := BlockHash.done_spec h (fun _ => rfl) (md5LenBytes_eq hm)
  refine ⟨state', ?_⟩
  have hregs : regsAt .ABCD state'.h = (blocks 64 (Rfc1321.pad m)).foldl compress initial := by
    rw [hh, foldl_md5Consume _ fun b hb => length_of_mem_blocks hb]
    rfl
  have hlist : ∀ h : Md5Words, h.toList = [h[0], h[1], h[2], h[3]] := by
    intro h
    apply List.ext_getElem
    · simp
    · intro i h1 h2
      have hi : i < 4 := by simpa using h2
      interval_cases i <;> simp
  rw [md5Done, hdone, Loops.ok_bind, Rfc1321.md5, ← hregs]
  simp only [hlist, regsAt, funext md5WordBytes_eq]
  rfl

/-- **`md5`** writes the MD5 digest of a message of fewer than `2^29` bytes, whatever its local
state held before. -/
theorem md5_spec (s : Md5State) {m : List UInt8} (hm : m.length < 2 ^ 29) : md5 s m = .ok (Rfc1321.md5 m) := by
  obtain ⟨state', hdone⟩ := md5Done_spec (BlockHash.proc_spec (md5Init_absorbed s) m) (by simpa using hm)
  rw [md5, md5Proc, hdone]
  rfl

end Esp8266Toolbox
