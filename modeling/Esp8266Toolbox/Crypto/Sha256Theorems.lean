import Esp8266Toolbox.Lib.Loops
import Esp8266Toolbox.Lib.Words
import Esp8266Toolbox.Crypto.Fips180
import Esp8266Toolbox.Crypto.Sha256

/-!
# `sha256.c` computes SHA-256

* `sha256K_eq` and `sha256H_eq`: the tables are the ones FIPS 180-4 describes;
* `rrotate_eq`: the extra bit that `rrotate` masks in is shifted out again;
* `sha256Consume_spec`: the schedule and the rounds refine the standard's compression;
* `sha256Done_spec`: what `sha256_done` makes of a state that has absorbed `m`;
* `sha256_streaming_eq_standard`: any cutting of a message gives its SHA-256 digest.
-/

namespace Esp8266Toolbox

/-! ## The tables -/

/-- Below `k * k`, trial division by the numbers below `k` is enough. -/
theorem Fips180.primesBelow_eq {n k : ℕ} (hk : n ≤ k * k) :
    Fips180.primesBelow n = (List.range n).filter fun p =>
      2 ≤ p && (List.range k).all fun d => d < 2 || p ≤ d || p % d != 0 := by
  unfold Fips180.primesBelow
  apply List.filter_congr
  intro p hp
  have hlt : p < k * k := lt_of_lt_of_le (List.mem_range.mp hp) hk
  rw [Bool.eq_iff_iff]
  simp only [Bool.and_eq_true, decide_eq_true_eq, List.all_eq_true, List.mem_range, Bool.or_eq_true,
    bne_iff_ne, and_congr_right_iff, ne_eq]
  intro hp2
  constructor
  · intro h d _
    by_cases hd : p ≤ d
    · exact Or.inl (Or.inr hd)
    · rcases h d (by omega) with hsmall | hmod
      · exact Or.inl (Or.inl hsmall)
      · exact Or.inr hmod
  · intro h d hd
    by_contra hno
    rw [not_or, not_not] at hno
    -- the divisor or its cofactor is below `k`
    obtain ⟨e, rfl⟩ := Nat.dvd_of_mod_eq_zero hno.2
    have hd2 : 2 ≤ d := by omega
    have he2 : 2 ≤ e := by
      by_contra hlt2
      have he : e = 0 ∨ e = 1 := by omega
      rcases he with rfl | rfl <;> simp at hd hp2
    have hed : e < d * e := by nlinarith
    have hsmall : d < k ∨ e < k := by
      by_contra hbig
      rw [not_or, not_lt, not_lt] at hbig
      exact absurd (Nat.mul_le_mul hbig.1 hbig.2) (by omega)
    rcases hsmall with hdk | hek
    · rcases h d hdk with (hlow | hle) | hmod
      · omega
      · omega
      · exact hmod hno.2
    · rcases h e hek with (hlow | hle) | hmod
      · omega
      · omega
      · exact hmod (Nat.mul_mod_left d e)

set_option maxRecDepth 10000 in
theorem sha256K_eq : Fips180.K = sha256K := by
  rw [Fips180.K, Fips180.primesBelow_eq (by norm_num : 312 ≤ 18 * 18)]
  decide

theorem sha256H_eq : Fips180.H0 = sha256H.toList := by decide

/-! ## Words -/

/-- The source's rotation is a rotation: bit `n`, which its mask keeps, is shifted out. -/
theorem rrotate_eq (x : UInt32) {n : ℕ} (h0 : 0 < n) (hn : n < 31) :
    rrotate x n = Fips180.rotr n x := by
  apply UInt32.toNat_inj.mp
  apply Nat.eq_of_testBit_eq
  intro i
  have h1 : (UInt32.ofNat n).toNat % 32 = n := by simp; omega
  have h2 : (UInt32.ofNat (32 - n)).toNat % 32 = 32 - n := by simp; omega
  have hr : (Fips180.rotr n x).toNat.testBit i = (x.toBitVec.rotateRight n).getLsbD i := rfl
  rw [hr, BitVec.getLsbD_rotateRight, rrotate]
  simp only [UInt32.toNat_or, UInt32.toNat_shiftLeft, UInt32.toNat_shiftRight, UInt32.toNat_and,
    h1, h2, Nat.testBit_or, Nat.testBit_mod_two_pow, Nat.testBit_shiftLeft, Nat.testBit_shiftRight,
    Nat.testBit_and, word_testBit_mask (by omega : n + 1 < 32),
    Nat.mod_eq_of_lt (by omega : n < 32), BitVec.getLsbD, UInt32.toNat_toBitVec]
  by_cases hi : i < 32 - n
  · -- below the seam only the shifted-down part contributes
    simp [hi]
    intro h3 h4
    omega
  · by_cases hi32 : i < 32
    · have hmask : i - (32 - n) < n + 1 := by omega
      simp [hi, hi32, hmask, word_testBit_ge x (by omega : 32 ≤ n + i), show 32 - n ≤ i by omega]
    · simp [hi, hi32, word_testBit_ge x (by omega : 32 ≤ n + i)]

theorem shiftRight_eq_shr (x : UInt32) {n : ℕ} (hn : n < 32) :
    x >>> UInt32.ofNat n = Fips180.shr n x := by
  apply UInt32.toNat_inj.mp
  have hmod : (UInt32.ofNat n).toNat % 32 = n := by simp; omega
  rw [UInt32.toNat_shiftRight, hmod]
  rfl

/-- The source's `s0` is the standard's `σ₀`. -/
theorem s0_eq (x : UInt32) : rrotate x 7 ^^^ rrotate x 18 ^^^ (x >>> 3) = Fips180.sigma0 x := by
  rw [Fips180.sigma0, rrotate_eq x (by omega) (by omega), rrotate_eq x (by omega) (by omega),
    ← shiftRight_eq_shr x (by omega)]
  rfl

/-- The source's `s1` is the standard's `σ₁`. -/
theorem s1_eq (x : UInt32) : rrotate x 17 ^^^ rrotate x 19 ^^^ (x >>> 10) = Fips180.sigma1 x := by
  rw [Fips180.sigma1, rrotate_eq x (by omega) (by omega), rrotate_eq x (by omega) (by omega),
    ← shiftRight_eq_shr x (by omega)]
  rfl

/-- The source's `S0` is the standard's `Σ₀`. -/
theorem S0_eq (x : UInt32) :
    rrotate x 2 ^^^ rrotate x 13 ^^^ rrotate x 22 = Fips180.bigSigma0 x := by
  rw [Fips180.bigSigma0, rrotate_eq x (by omega) (by omega), rrotate_eq x (by omega) (by omega),
    rrotate_eq x (by omega) (by omega)]

/-- The source's `S1` is the standard's `Σ₁`. -/
theorem S1_eq (x : UInt32) :
    rrotate x 6 ^^^ rrotate x 11 ^^^ rrotate x 25 = Fips180.bigSigma1 x := by
  rw [Fips180.bigSigma1, rrotate_eq x (by omega) (by omega), rrotate_eq x (by omega) (by omega),
    rrotate_eq x (by omega) (by omega)]

/-! ## The schedule -/

/-- The first `n` entries of `w` are those of the standard's schedule. -/
def ScheduleTo (chunk : List UInt8) (n : ℕ) (w : List UInt32) : Prop :=
  w.length = 64 ∧ ∀ t < n, w.getD t 0 = Fips180.W chunk t

/-- Storing the right value at `n` extends the schedule. -/
theorem ScheduleTo.set {chunk : List UInt8} {n : ℕ} {w : List UInt32} (h : ScheduleTo chunk n w)
    (hn : n < 64) {v : UInt32} (hv : v = Fips180.W chunk n) : ScheduleTo chunk (n + 1) (w.set n v) := by
  refine ⟨by simpa using h.1, ?_⟩
  intro t ht
  rcases Nat.lt_succ_iff_lt_or_eq.mp ht with hlt | rfl
  · rw [getD_set_ne w (by omega), h.2 t hlt]
  · rw [getD_set_self (by rw [h.1]; exact hn), hv]

theorem loadWord_spec {chunk : List UInt8} (hc : chunk.length = 64) {i : ℕ} {w : List UInt32}
    (hi : i < 16) (h : ScheduleTo chunk i w) : ScheduleTo chunk (i + 1) (loadWord chunk w i) := by
  apply h.set (by omega)
  rw [word_of_bytes, Fips180.W, if_pos hi, Fips180.blockWord, take_four_drop (by omega), Nat.mul_comm i 4]

theorem extendWord_spec {chunk : List UInt8} {j : ℕ} {w : List UInt32} (hj : j < 48)
    (h : ScheduleTo chunk (j + 16) w) : ScheduleTo chunk (j + 1 + 16) (extendWord w j) := by
  rw [show j + 1 + 16 = j + 16 + 1 by omega]
  apply h.set (by omega)
  have hW : Fips180.W chunk (j + 16) = Fips180.sigma1 (Fips180.W chunk (j + 16 - 2))
      + Fips180.W chunk (j + 16 - 7) + Fips180.sigma0 (Fips180.W chunk (j + 16 - 15))
      + Fips180.W chunk (j + 16 - 16) := by
    rw [Fips180.W, if_neg (by omega)]
  rw [h.2 _ (by omega), h.2 _ (by omega), h.2 _ (by omega), h.2 _ (by omega), hW, s0_eq, s1_eq]
  ac_rfl

/-- The array `w` holds the standard's schedule. -/
theorem sha256Schedule_spec {chunk : List UInt8} (hc : chunk.length = 64) :
    ScheduleTo chunk 64 (sha256Schedule chunk) := by
  have h0 : ScheduleTo chunk 0 (List.replicate 64 0) := ⟨by simp, by simp⟩
  have h16 := Loops.foldl_range_inv (loadWord chunk) (ScheduleTo chunk) 16 _ h0
    fun i w hi h => loadWord_spec hc hi h
  have h64 := Loops.foldl_range_inv extendWord (fun j => ScheduleTo chunk (j + 16)) 48 _ h16
    fun j w hj h => extendWord_spec hj h
  unfold sha256Schedule
  exact h64

/-! ## The compression function -/

/-- The eight words as the standard's working variables. -/
def Sha256Words.vars (g : Sha256Words) : Fips180.Vars := g.apply Fips180.Vars.mk

theorem sha256Round_spec {chunk : List UInt8} {w : List UInt32} (hw : ScheduleTo chunk 64 w)
    (g : Sha256Words) {i : ℕ} (hi : i < 64) :
    Sha256Words.vars (sha256Round w g i) = Fips180.round chunk (Sha256Words.vars g) i := by
  simp only [sha256Round, S0_eq, S1_eq, hw.2 i hi, ← sha256K_eq]
  rfl

/-- `sha256_consume` is the standard's compression of one block. -/
theorem sha256Consume_spec (h : Sha256Words) {chunk : List UInt8} (hc : chunk.length = 64) :
    Sha256Words.vars (sha256Consume h chunk) = Fips180.compress (Sha256Words.vars h) chunk := by
  have hw := sha256Schedule_spec hc
  have hrounds : ∀ m ≤ 64, Sha256Words.vars ((List.range m).foldl (sha256Round (sha256Schedule chunk)) h)
      = (List.range m).foldl (Fips180.round chunk) (Sha256Words.vars h) := by
    intro m hm
    induction m with
    | zero => rfl
    | succ m ih =>
      rw [List.range_succ, List.foldl_append, List.foldl_append, List.foldl_cons, List.foldl_nil,
        List.foldl_cons, List.foldl_nil, sha256Round_spec hw _ (by omega), ih (by omega)]
  rw [Fips180.compress, ← hrounds 64 le_rfl]
  simp [sha256Consume, Sha256Words.vars, UInt32.add_comm]

/-- Compressing a list of blocks. -/
theorem foldl_sha256Consume (bs : List (List UInt8)) (hbs : ∀ b ∈ bs, b.length = 64)
    (h : Sha256Words) :
    Sha256Words.vars (bs.foldl sha256Consume h) = bs.foldl Fips180.compress (Sha256Words.vars h) := by
  induction bs generalizing h with
  | nil => rfl
  | cons b bs ih =>
    rw [List.foldl_cons, List.foldl_cons, ih (fun c hc => hbs c (List.mem_cons_of_mem _ hc)),
      sha256Consume_spec h (hbs b List.mem_cons_self)]

theorem sha256H_vars : Sha256Words.vars sha256H = Fips180.initial := by
  rw [Fips180.initial, sha256H_eq]
  rfl

/-! ## Digest and length field -/

theorem sha256WordBytes_eq (x : UInt32) : sha256WordBytes x = Fips180.beBytes 4 x.toNat := by
  have hbytes : Fips180.beBytes 4 x.toNat = [UInt8.ofNat (x.toNat / 2 ^ 24),
      UInt8.ofNat (x.toNat / 2 ^ 16), UInt8.ofNat (x.toNat / 2 ^ 8), UInt8.ofNat (x.toNat / 2 ^ 0)] := rfl
  rw [hbytes, sha256WordBytes]
  simp [← UInt8.toNat_inj, Nat.shiftRight_eq_div_pow]

/-- While the number of bits fits the 32-bit product, the length field is the standard's. -/
theorem sha256LenBytes_eq {n : ℕ} (hn : n < 2 ^ 29) :
    sha256LenBytes (UInt32.ofNat n * 8) = Fips180.beBytes 8 (8 * n) := by
  have hbytes : Fips180.beBytes 8 (8 * n) = [UInt8.ofNat (8 * n / 2 ^ 56),
      UInt8.ofNat (8 * n / 2 ^ 48), UInt8.ofNat (8 * n / 2 ^ 40), UInt8.ofNat (8 * n / 2 ^ 32),
      UInt8.ofNat (8 * n / 2 ^ 24), UInt8.ofNat (8 * n / 2 ^ 16), UInt8.ofNat (8 * n / 2 ^ 8),
      UInt8.ofNat (8 * n / 2 ^ 0)] := rfl
  rw [hbytes, sha256LenBytes]
  have hwrap : n * 8 % 4294967296 = 8 * n := by omega
  simp [← UInt8.toNat_inj, Nat.shiftRight_eq_div_pow, hwrap]

theorem length_sha256LenBytes (x : UInt32) : (sha256LenBytes x).length = 8 := rfl

/-! ## The stream -/

/-- `sha256_init` starts an empty message. -/
theorem sha256Init_absorbed (state : Sha256State) :
    BlockHash.Absorbed sha256Consume sha256H (sha256Init state) [] :=
  BlockHash.absorbed_nil rfl rfl rfl

/-- `sha256_done` on a state that has absorbed `m` writes the digest of `m`. -/
theorem sha256Done_spec {state : Sha256State} {m : List UInt8}
    (h : BlockHash.Absorbed sha256Consume sha256H state m) (hm : m.length < 2 ^ 29) :
    ∃ state', sha256Done state = .ok (state', Fips180.sha256 m) := by
  obtain ⟨state', hdone, hh⟩ := BlockHash.done_spec h length_sha256LenBytes (sha256LenBytes_eq hm)
  refine ⟨state', ?_⟩
  have hvars : Sha256Words.vars state'.h
      = (blocks 64 (Fips180.pad m)).foldl Fips180.compress Fips180.initial := by
    rw [hh, foldl_sha256Consume _ fun b hb => length_of_mem_blocks hb, sha256H_vars]
    rfl
  have hlist : ∀ g : Sha256Words, g.toList = [g[0], g[1], g[2], g[3], g[4], g[5], g[6], g[7]] := by
    intro g
    apply List.ext_getElem
    · simp
    · intro i h1 h2
      have hi : i < 8 := by simpa using h2
      interval_cases i <;> simp
  rw [sha256Done, hdone, Loops.ok_bind, Fips180.sha256, ← hvars]
  simp only [hlist, Sha256Words.vars, funext sha256WordBytes_eq]
  rfl

/-- However a message of fewer than `2^29` bytes is cut, `sha256_init`, `sha256_proc` on each
chunk and `sha256_done` give its SHA-256 digest. -/
theorem sha256_streaming_eq_standard (state : Sha256State) (m : List UInt8)
    (chunks : List (List UInt8)) (hm : m.length < 2 ^ 29) (hsplit : chunks.flatten = m) :
    ∃ state', sha256Done (chunks.foldl sha256Proc (sha256Init state))
      = .ok (state', Fips180.sha256 m) := by
  have habs := BlockHash.foldl_proc_spec (sha256Init_absorbed state) chunks
  rw [List.nil_append, hsplit] at habs
  exact sha256Done_spec habs hm

/-- Three chunks, one of them empty, whose padding needs a second block. -/
theorem sha256_streaming_eq_standard_cut :
    ∃ state', sha256Done ([List.replicate 40 0x61, [], List.replicate 20 0x62].foldl sha256Proc
        (sha256Init ⟨Buf.zero 64, 0, 0, sha256H⟩))
      = .ok (state', Fips180.sha256 (List.replicate 40 0x61 ++ List.replicate 20 0x62)) :=
  sha256_streaming_eq_standard _ _ _ (by simp) (by simp)

end Esp8266Toolbox
