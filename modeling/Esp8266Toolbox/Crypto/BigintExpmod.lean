import Mathlib.Data.Nat.ModEq
import Mathlib.Data.Nat.Log
import Esp8266Toolbox.Crypto.BigintTheorems

/-!
# Division and modular exponentiation

`bigint_div` keeps the running remainder in `div_rt`, whose size grows by one bit a pass
and only shrinks when the divisor is subtracted. `DivSize` is the invariant that keeps the
size below the capacity: either it has never grown past the number of passes, or it
exceeds the value by at most seven bits and the divisor's size by at most the passes since
the first subtraction. `bigintDiv_rem` and `bigintExpmod_spec` follow.
-/

namespace Esp8266Toolbox
namespace Bigint

/-! ## One pass of the division loop -/

/-- The size of `div_rt` after `t` passes, for a divisor `b`. -/
def DivSize (b r : Bigint) (t : ℕ) : Prop :=
  r.BITS ≤ t + 1 ∨
    (0 < r.num ∧ 2 ^ (r.BITS - 8) ≤ r.num ∧ r.BITS + (Nat.log2 b.num + 1) ≤ b.BITS + t)

/-- The remainder register always has room for one more bit. -/
theorem DivSize.room {b r : Bigint} {t : ℕ} (h : DivSize b r t) (ht : t + 1 ≤ 1190)
    (hb : b.BITS ≤ 1184) (hr : r.num < b.num) : r.BITS ≤ 1190 := by
  rcases h with h | ⟨-, hlow, hsum⟩
  · omega
  · -- the size is at most seven bits above the value, hence above the divisor
    have hlt : 2 ^ (r.BITS - 8) < 2 ^ (Nat.log2 b.num + 1) :=
      lt_of_le_of_lt hlow (lt_trans hr Nat.lt_log2_self)
    have hexp := (Nat.pow_lt_pow_iff_right (by norm_num : 1 < 2)).mp hlt
    omega

/-- Shifting in a bit without a subtraction keeps the size invariant. -/
theorem DivSize.shift {b r r' : Bigint} {t : ℕ} (h : DivSize b r t) (hB : r'.BITS = r.BITS + 1)
    (hn : 2 * r.num ≤ r'.num) : DivSize b r' (t + 1) := by
  rcases h with h | ⟨hpos, hlow, hsum⟩
  · exact Or.inl (by omega)
  · refine Or.inr ⟨by omega, ?_, by omega⟩
    rw [hB]
    by_cases h8 : 8 ≤ r.BITS
    · rw [show r.BITS + 1 - 8 = (r.BITS - 8) + 1 by omega, pow_succ]
      omega
    · rw [show r.BITS + 1 - 8 = 0 by omega]
      omega

/-- A normalized remainder below the divisor satisfies the size invariant once the divisor
has been reached. -/
theorem DivSize.of_tight {b r : Bigint} {t : ℕ} (hr : r.Tight) (hB : r.BITS ≤ b.BITS)
    (ht : Nat.log2 b.num + 1 ≤ t) : DivSize b r t := by
  rcases hr with ⟨h1, -⟩ | ⟨hpos, hlow⟩
  · exact Or.inl (by omega)
  · have hpow : 2 ^ (r.BITS - 8) ≤ 2 ^ (8 * ((r.BITS - 1) / 8)) :=
      Nat.pow_le_pow_right (by norm_num) (by omega)
    have hone : 0 < 2 ^ (8 * ((r.BITS - 1) / 8)) := Nat.two_pow_pos _
    exact Or.inr ⟨by omega, by omega, by omega⟩

/-- `div_rt.data[0] |= BIT(a, i)` after a shift. -/
theorem orLow_spec {r : Bigint} (hc : r.Clean) (hB : 1 ≤ r.BITS) (heven : r.num % 2 = 0)
    (e : Bool) :
    let r' : Bigint := { r with data := r.data.set 0 (r.data.get 0 ||| UInt8.ofNat e.toNat) }
    r'.num = r.num + e.toNat ∧ r'.BITS = r.BITS ∧ r'.Clean := by
  intro r'
  have hbyte : ∀ m, (UInt8.ofNat e.toNat).toNat.testBit m = (decide (m = 0) && e) := by
    intro m
    cases e
    · simp
    · have h1 : (UInt8.ofNat true.toNat).toNat = 2 ^ 0 := rfl
      rw [h1, Nat.testBit_two_pow]
      simp [eq_comm]
  -- the store touches bit 0 only, which the shift has left clear
  have hbits : ∀ k, r'.num.testBit k = ((decide (0 = k) && e) || r.num.testBit k) := by
    intro k
    change (r.data.set 0 _).num.testBit k = _
    rw [Buf.num_set_testBit _ (by unfold dataMaxlen; norm_num), UInt8.toNat_or, Nat.testBit_or,
      hbyte, num, Buf.num_testBit]
    by_cases hk : k / 8 = 0
    · have hdec : (k % 8 = 0) ↔ (0 = k) := by omega
      simp [hk, hdec, Bool.or_comm]
    · simp [hk, show ¬0 = k from fun h => hk (by omega)]
  have hnum : r'.num = r.num + e.toNat := by
    cases e with
    | false =>
      apply Nat.eq_of_testBit_eq
      intro k
      rw [hbits]
      simp
    | true =>
      have h0 : r.num.testBit 0 = false := by
        rw [Nat.testBit_zero]; simp [heven]
      exact eq_add_two_pow_of_testBit (n := 0) h0 (by simpa using hbits)
  refine ⟨hnum, rfl, ?_⟩
  have hlt := hc.lt
  have hpow : 2 ^ r.BITS % 2 = 0 := by
    obtain ⟨k, hk⟩ := Nat.exists_eq_add_of_le hB
    rw [hk, pow_add]; omega
  have he := Bool.toNat_le e
  rw [clean_iff, hnum]
  change r.num + e.toNat < 2 ^ r.BITS
  omega

theorem divGrow_ok {q : Bigint} (hcap : q.BITS + 1 < 8 * (dataMaxlen - 1)) :
    ∃ q', divGrow q = .ok q' ∧ q'.BITS = q.BITS + 1 ∧ q'.num = q.num := by
  have hbits := q.bits_lt
  unfold divGrow
  by_cases h8 : q.bits + 1 = 8
  · have hov : ¬(q.bytes + 1 ≥ dataMaxlen - 1) := by unfold BITS at hcap; omega
    simp only [h8, hov, dif_pos, if_false]
    exact ⟨_, rfl, by unfold BITS; simp only; omega, rfl⟩
  · simp only [h8, dif_neg, not_false_eq_true]
    exact ⟨_, rfl, by unfold BITS; simp only; omega, rfl⟩

/-- The subtraction `r = r + (-b)` with its truncation to the size of `b`. -/
theorem divSub_ok {b r : Bigint} (hb : b.Clean) (hr : r.Clean) (hge : b.num ≤ r.num)
    (hlt : r.num < 2 * b.num) (hbB : b.BITS ≤ 1184) (hrB : r.BITS ≤ 1191) :
    ∃ r₂, addCode (bigintAdd r .dst (.obj (twosComp (bigintCopy b)))) = .ok r₂ ∧
      r₂.BITS > b.BITS ∧
      (normalize { r₂ with bytes := b.bytes, bits := b.bits, bits_lt := b.bits_lt }).num
        = r.num - b.num := by
  have hblt := hb.lt
  have hb0 : b.num ≠ 0 := by omega
  obtain ⟨hcB, hcn, hcc⟩ := twosComp_spec (i := bigintCopy b) (by rw [hb.copy]; exact hb)
    (by rw [hb.copy]; unfold dataMaxlen; omega) (by rw [hb.copy]; exact hb0)
  rw [hb.copy] at hcB hcn hcc ⊢
  generalize twosComp b = bc at *
  have hsum : r.num + bc.num = (r.num - b.num) + 2 ^ b.BITS := by omega
  -- a carry can only leave the top bit when the remainder is no wider than the divisor
  have hsize : sumBITS r bc < 8 * (dataMaxlen - 1) ∧ b.BITS < sumBITS r bc := by
    unfold sumBITS
    rw [hsum, hcB]
    by_cases hw : r.BITS ≤ b.BITS
    · rw [Nat.max_eq_right hw, if_pos (by omega)]
      unfold dataMaxlen
      omega
    · rw [Nat.max_eq_left (by omega)]
      have hpow : 2 ^ (b.BITS + 1) ≤ 2 ^ r.BITS := Nat.pow_le_pow_right (by norm_num) (by omega)
      rw [pow_succ] at hpow
      rw [if_neg (by omega)]
      unfold dataMaxlen
      omega
  obtain ⟨r₂, hadd, hc₂, hn₂, hB₂⟩ := bigintAdd_dst hr hcc hsize.1
  refine ⟨r₂, hadd, by omega, ?_⟩
  rw [normalize_num]
  change r₂.num % 2 ^ b.BITS = _
  rw [hn₂, hsum, Nat.add_mod_right, Nat.mod_eq_of_lt (by omega)]

/-- State of the loop of `bigint_div` when the bits below `i` of `a` are still to come. -/
structure DivInv (a b : Bigint) (i : ℕ) (st : Bigint × Bigint) : Prop where
  clean : st.2.Clean
  rem : st.2.num = a.value / 2 ^ i % b.num
  size : DivSize b st.2 (a.BITS - i)
  qsize : st.1.BITS = 1 + (a.BITS - i)

/-- The remainder with the next bit of the dividend shifted in. -/
theorem rem_shift (A B i : ℕ) :
    A / 2 ^ i % B = (2 * (A / 2 ^ (i + 1) % B) + (A.testBit i).toNat) % B := by
  have hsplit : A / 2 ^ i = 2 * (A / 2 ^ (i + 1)) + (A.testBit i).toNat := by
    have h := div_two_pow_split A i 1
    rw [Nat.toNat_testBit]
    simpa using h
  rw [hsplit]
  exact (((Nat.mod_modEq _ B).mul_left 2).add_right _).symm

/-- Where the divisor can be subtracted it fits in the bits of the dividend read so far. -/
theorem log2_divisor_le {a b : Bigint} (hb0 : b.num ≠ 0) {i : ℕ} (hi : i < a.BITS)
    (hge : b.num ≤ 2 * (a.value / 2 ^ (i + 1) % b.num) + (a.value.testBit i).toNat) :
    Nat.log2 b.num + 1 ≤ a.BITS - i := by
  have hle : b.num ≤ a.value / 2 ^ i := by
    have h1 := Nat.mod_le (a.value / 2 ^ (i + 1)) b.num
    have h2 := div_two_pow_split a.value i 1
    rw [Nat.toNat_testBit] at hge
    omega
  have hAlt : a.value / 2 ^ i < 2 ^ (a.BITS - i) := by
    rw [Nat.div_lt_iff_lt_mul (Nat.two_pow_pos _), ← pow_add,
      show a.BITS - i + i = a.BITS by omega]
    exact a.value_lt
  have hpow : 2 ^ Nat.log2 b.num < 2 ^ (a.BITS - i) :=
    lt_of_le_of_lt (Nat.log2_self_le hb0) (by omega)
  exact (Nat.pow_lt_pow_iff_right (by norm_num : 1 < 2)).mp hpow

/-- One bit of the dividend: it is shifted into the remainder, and the divisor is subtracted
where it can be. -/
theorem divStep_ok {a b : Bigint} (hb : b.Clean) (hb0 : b.num ≠ 0) (ha : a.BITS ≤ 1190)
    (hbB : b.BITS ≤ 1184) {i : ℕ} (hi : i < a.BITS) {st : Bigint × Bigint}
    (h : DivInv a b (i + 1) st) :
    ∃ st', divStep a b (twosComp (bigintCopy b)) st i = .ok st' ∧ DivInv a b i st' := by
  obtain ⟨qt, r⟩ := st
  obtain ⟨hc, hrem, hsize, hq⟩ := h
  simp only at hc hrem hsize hq
  have hrlt : r.num < b.num := by rw [hrem]; exact Nat.mod_lt _ (Nat.pos_of_ne_zero hb0)
  have hroom := hsize.room (by omega) hbB hrlt
  obtain ⟨r₁, hshift, hB₁, hn₁, hc₁⟩ := leftShift_ok hc (by unfold dataMaxlen; omega)
  -- the shifted-in bit of the dividend
  generalize he : a.value.testBit i = e
  have hbit : a.BIT i = e.toNat := by rw [BIT_eq, he]
  have hele := Bool.toNat_le e
  obtain ⟨hn₂, hB₂, hc₂⟩ := orLow_spec hc₁ (by omega) (by omega) e
  obtain ⟨q₂, hgrow, hqB, -⟩ := divGrow_ok (q := qt) (by unfold dataMaxlen; omega)
  have hstep : divStep a b (twosComp (bigintCopy b)) (qt, r) i =
      (do
        let rt : Bigint := { r₁ with data := r₁.data.set 0 (r₁.data.get 0 ||| UInt8.ofNat e.toNat) }
        if bigintCmp rt b ≥ 0 then
          let rt ← addCode (bigintAdd rt .dst (.obj (twosComp (bigintCopy b))))
          let rt := if rt.BITS > b.BITS then
              normalize { rt with bytes := b.bytes, bits := b.bits, bits_lt := b.bits_lt }
            else rt
          if bigintCmp rt b ≥ 0 then .error 3
          else return (q₂.setBit i, rt)
        else return (q₂, rt)) := by
    simp only [divStep]
    rw [hshift, Loops.ok_bind, hgrow, Loops.ok_bind, hbit]
  rw [hstep]
  generalize hr₂ : ({ r₁ with data := r₁.data.set 0 (r₁.data.get 0 ||| UInt8.ofNat e.toNat) } : Bigint)
    = r₂ at hn₂ hB₂ hc₂
  have hval : r₂.num = 2 * (a.value / 2 ^ (i + 1) % b.num) + (a.value.testBit i).toNat := by
    rw [hn₂, hn₁, hrem, he]
  have hnext := rem_shift a.value b.num i
  rw [← hval] at hnext
  have hr₂lt : r₂.num < 2 * b.num := by omega
  have ht : a.BITS - i = a.BITS - (i + 1) + 1 := by omega
  by_cases hcmp : bigintCmp r₂ b ≥ 0
  · -- the divisor goes into the remainder, once
    have hge := (bigintCmp_ge_iff hc₂ hb).mp hcmp
    obtain ⟨r₃, hadd, hB₃, hsub⟩ := divSub_ok hb hc₂ hge hr₂lt hbB (by omega)
    simp only [hcmp, if_true]
    rw [hadd, Loops.ok_bind]
    simp only [hB₃, if_true]
    generalize hr₄ : normalize { r₃ with bytes := b.bytes, bits := b.bits, bits_lt := b.bits_lt }
      = r₄ at hsub
    obtain ⟨hc₄, htight, hB₄⟩ :=
      normalize_spec { r₃ with bytes := b.bytes, bits := b.bits, bits_lt := b.bits_lt }
    rw [hr₄] at hc₄ htight hB₄
    have hBpos : 1 ≤ b.BITS := by
      by_contra h0
      have := hb.lt
      rw [show b.BITS = 0 by omega] at this
      omega
    have hB₄' : r₄.BITS ≤ b.BITS := by
      have hbits : ({ r₃ with bytes := b.bytes, bits := b.bits, bits_lt := b.bits_lt } : Bigint).BITS
        = b.BITS := rfl
      omega
    have hnlt : ¬bigintCmp r₄ b ≥ 0 := by
      rw [bigintCmp_ge_iff hc₄ hb]
      omega
    rw [if_neg hnlt]
    have hlog := log2_divisor_le hb0 hi (hval ▸ hge)
    refine ⟨_, rfl, hc₄, ?_, DivSize.of_tight htight hB₄' hlog, ?_⟩
    · simp only
      rw [hsub, hnext, Nat.mod_eq_sub_mod hge, Nat.mod_eq_of_lt (by omega)]
    · simp only [setBit_BITS]
      omega
  · simp only [hcmp, if_false]
    have hlt : r₂.num < b.num := by
      by_contra h0
      exact hcmp ((bigintCmp_ge_iff hc₂ hb).mpr (by omega))
    refine ⟨_, rfl, hc₂, ?_, ?_, ?_⟩
    · simp only
      rw [hnext, Nat.mod_eq_of_lt hlt]
    · have hs : DivSize b r₂ (a.BITS - (i + 1) + 1) := hsize.shift (by omega) (by omega)
      rw [ht]
      exact hs
    · simp only
      omega

/-! ## `bigint_div` and `bigint_expmod` -/

theorem divLoop_ok {a b : Bigint} (hb : b.Clean) (hb0 : b.num ≠ 0) (ha : a.BITS ≤ 1190)
    (hbB : b.BITS ≤ 1184) : ∃ st, divLoop a b = .ok st ∧ DivInv a b 0 st := by
  apply Loops.foldlM_range_reverse_ok _ (DivInv a b)
  · refine ⟨bigintZero_clean, ?_, Or.inl (by simp), by simp⟩
    rw [Nat.div_eq_of_lt a.value_lt]
    simp
  · exact fun i st hi h => divStep_ok hb hb0 ha hbB hi h

/-- **`bigint_div`**, remainder: exact, clean and tight. -/
theorem bigintDiv_rem {a b : Bigint} (hb : b.Clean) (hb0 : b.num ≠ 0) (ha : a.BITS ≤ 1190)
    (hbB : b.BITS ≤ 1184) :
    ∃ q r, bigintDiv a b = .ok (q, r) ∧ r.Clean ∧ r.Tight ∧ r.num = a.value % b.num := by
  obtain ⟨⟨qt, rt⟩, hloop, hinv⟩ := divLoop_ok hb hb0 ha hbB
  obtain ⟨hclean, htight, -⟩ := normalize_spec rt
  have hz : bigintIszero b = false := bigintIszero_eq_false (hb.value_eq ▸ hb0)
  refine ⟨bigintCopy (normalize qt), normalize rt, ?_, hclean, htight, ?_⟩
  · simp only [bigintDiv, hz]
    rw [hloop, Loops.ok_bind, hclean.copy]
    rfl
  · rw [normalize_num, hinv.clean.value_eq, hinv.rem]
    simp

theorem bigintDiv_zero (a : Bigint) {b : Bigint} (hb0 : b.value = 0) : bigintDiv a b = .error 2 := by
  simp [bigintDiv, (bigintIszero_iff b).mpr hb0]

/-- A tight number below one of `n` bytes has at most `n` bytes. -/
theorem Tight.size_le {r c : Bigint} (h : r.Tight) (hc : c.Clean) (hlt : r.num < c.num) {n : ℕ}
    (hn : 0 < n) (hcB : c.BITS ≤ 8 * n) : r.BITS ≤ 8 * n := by
  rcases h with ⟨h1, -⟩ | ⟨-, hlow⟩
  · omega
  · have hpow : 2 ^ (8 * ((r.BITS - 1) / 8)) < 2 ^ c.BITS :=
      lt_of_le_of_lt hlow (lt_trans hlt hc.lt)
    have hexp := (Nat.pow_lt_pow_iff_right (by norm_num : 1 < 2)).mp hpow
    omega

/-- `x := (y * z) % c` as `bigint_expmod` computes it, for factors of at most 592 bits. -/
theorem mulMod_ok {y z c : Bigint} (hy : y.Clean) (hz : z.Clean) (hc : c.Clean) (hc0 : c.num ≠ 0)
    (hyB : y.BITS ≤ 592) (hzB : z.BITS ≤ 592) (hcB : c.BITS ≤ 592) :
    ∃ p q x, bigintMul y z = .ok p ∧ bigintDiv p c = .ok (q, x) ∧ x.Clean ∧ x.BITS ≤ 592 ∧ x.Tight ∧
      x.num = y.num * z.num % c.num := by
  obtain ⟨p, hmul, hpc, hpn, hpB⟩ := bigintMul_spec hy hz (by unfold dataMaxlen; omega)
  obtain ⟨q, x, hdiv, hxc, hxt, hxn⟩ := bigintDiv_rem (a := p) hc hc0 (by omega) (by omega)
  refine ⟨p, q, x, hmul, hdiv, hxc, ?_, hxt, by rw [hxn, hpc.value_eq, hpn]⟩
  have hxlt : x.num < c.num := by rw [hxn]; exact Nat.mod_lt _ (Nat.pos_of_ne_zero hc0)
  exact hxt.size_le hc hxlt (n := 74) (by norm_num) hcB

/-- State of `bigint_expmod` when the bits below `i` of the exponent are still to come. -/
structure ExpmodInv (A : ℕ) (b c : Bigint) (i : ℕ) (x : Bigint) : Prop where
  clean : x.Clean
  size : x.BITS ≤ 592
  pow : x.num ≡ A ^ (b.value / 2 ^ i) [MOD c.num]
  reduced : i < b.BITS → x.num < c.num ∧ x.Tight

theorem expmodStep_ok {A : ℕ} {r b c : Bigint} (hr : r.Clean) (hrB : r.BITS ≤ 592)
    (hrn : r.num ≡ A [MOD c.num]) (hc : c.Clean) (hc0 : c.num ≠ 0) (hcB : c.BITS ≤ 592)
    {i : ℕ} {x : Bigint} (h : ExpmodInv A b c (i + 1) x) :
    ∃ x', expmodStep r b c x i = .ok x' ∧ ExpmodInv A b c i x' := by
  obtain ⟨p, q, y, hmul, hdiv, hyc, hyB, hyt, hyn⟩ := mulMod_ok h.clean h.clean hc hc0 h.size h.size hcB
  have hsplit := div_two_pow_split b.value i 1
  have hsq : y.num ≡ A ^ (2 * (b.value / 2 ^ (i + 1))) [MOD c.num] := by
    rw [hyn, two_mul, pow_add]
    exact (Nat.mod_modEq _ _).trans (h.pow.mul h.pow)
  have hylt : y.num < c.num := by rw [hyn]; exact Nat.mod_lt _ (Nat.pos_of_ne_zero hc0)
  simp only [expmodStep]
  rw [hmul, Loops.ok_bind, hdiv, Loops.ok_bind]
  have hbit : b.BIT i = b.value / 2 ^ i % 2 := by rw [BIT_eq, Nat.toNat_testBit]
  by_cases h1 : b.BIT i = 1
  · obtain ⟨p', q', z, hmul', hdiv', hzc, hzB, hzt, hzn⟩ := mulMod_ok hyc hr hc hc0 hyB hrB hcB
    simp only [h1, if_true]
    rw [hmul', Loops.ok_bind, hdiv']
    refine ⟨z, rfl, hzc, hzB, ?_, fun _ => ?_⟩
    · rw [show b.value / 2 ^ i = 2 * (b.value / 2 ^ (i + 1)) + 1 by omega, pow_succ, hzn]
      exact (Nat.mod_modEq _ _).trans (hsq.mul hrn)
    · refine ⟨?_, hzt⟩
      rw [hzn]
      exact Nat.mod_lt _ (Nat.pos_of_ne_zero hc0)
  · simp only [h1, if_false]
    refine ⟨y, rfl, hyc, hyB, ?_, fun _ => ⟨hylt, hyt⟩⟩
    rw [show b.value / 2 ^ i = 2 * (b.value / 2 ^ (i + 1)) by omega]
    exact hsq

/-- **`bigint_expmod`** is exact for dividends of at most 1190 and moduli of at most 592
bits, and any nonempty exponent; its result has no leading zero byte. -/
theorem bigintExpmod_spec {a b c : Bigint} (hc : c.Clean) (hc0 : c.num ≠ 0)
    (ha : a.BITS ≤ 1190) (hb : 1 ≤ b.BITS) (hcB : c.BITS ≤ 592) :
    ∃ x, bigintExpmod a b c = .ok x ∧ x.Clean ∧ x.Tight ∧ x.num = a.value ^ b.value % c.num := by
  obtain ⟨q, r, hdiv, hrc, hrt, hrn⟩ := bigintDiv_rem (a := a) hc hc0 ha (by omega)
  have hrlt : r.num < c.num := by rw [hrn]; exact Nat.mod_lt _ (Nat.pos_of_ne_zero hc0)
  have hrB : r.BITS ≤ 592 := hrt.size_le hc hrlt (n := 74) (by norm_num) hcB
  have hrmod : r.num ≡ a.value [MOD c.num] := by rw [hrn]; exact Nat.mod_modEq _ _
  obtain ⟨x, hloop, hinv⟩ := Loops.foldlM_range_reverse_ok (expmodStep r b c)
    (ExpmodInv a.value b c) b.BITS (bigintZero.setBit 0)
    ⟨bigintOne_clean, by simp, by
        rw [bigintOne_num, Nat.div_eq_of_lt b.value_lt, pow_zero], fun h => absurd h (lt_irrefl _)⟩
    (fun i x _ h => expmodStep_ok hrc hrB hrmod hc hc0 hcB h)
  rcases hinv.reduced (by omega) with ⟨hlt, htight⟩
  refine ⟨x, ?_, hinv.clean, htight, ?_⟩
  · simp only [bigintExpmod]
    rw [hdiv, Loops.ok_bind, hloop, Loops.ok_bind, hinv.clean.copy]
    rfl
  · have hpow := hinv.pow
    rw [pow_zero, Nat.div_one] at hpow
    rw [← hpow, Nat.mod_eq_of_lt hlt]

theorem bigintExpmod_zero (a b : Bigint) {c : Bigint} (hc0 : c.value = 0) :
    bigintExpmod a b c = .error 2 := by
  simp only [bigintExpmod]
  rw [bigintDiv_zero a hc0]
  rfl

end Bigint

open Bigint

/-! ## Calls on variables -/

/-- The call `bigint_expmod(&x, &a, &b, &c)` on a memory of `Bigint` variables, in which
some of the four names may be the same: the return code, and the memory with the result
copied to `x` at the end. -/
def callExpmod {ι : Type*} [DecidableEq ι] (σ : ι → Bigint) (x a b c : ι) : (ι → Bigint) × ℕ :=
  match bigintExpmod (σ a) (σ b) (σ c) with
  | .ok v => (Function.update σ x v, 0)
  | .error rv => (σ, rv)

/-- **Modular exponentiation is exact**, also when the destination is one of the operands;
a zero modulus is reported and changes nothing. Only the modulus has to be clean: of the
two others nothing but their lowest `BITS` bits is ever read. -/
theorem callExpmod_exact {ι : Type*} [DecidableEq ι] (σ : ι → Bigint) (x a b c : ι)
    (hc : (σ c).Clean) :
    ((σ c).value ≠ 0 → (σ a).BITS ≤ 1190 → 1 ≤ (σ b).BITS → (σ c).BITS ≤ 592 →
      ∃ v : Bigint, callExpmod σ x a b c = (Function.update σ x v, 0) ∧ v.Clean ∧
        v.value = (σ a).value ^ (σ b).value % (σ c).value) ∧
    ((σ c).value = 0 → ∃ rv, rv ≠ 0 ∧ callExpmod σ x a b c = (σ, rv)) := by
  constructor
  · intro hc0 haB hbB hcB
    rw [hc.value_eq] at hc0 ⊢
    obtain ⟨v, hexp, hv, -, hvn⟩ := bigintExpmod_spec hc hc0 haB hbB hcB
    refine ⟨v, ?_, hv, by rw [hv.value_eq, hvn]⟩
    simp only [callExpmod, hexp]
  · intro hc0
    refine ⟨2, by norm_num, ?_⟩
    simp only [callExpmod, bigintExpmod_zero (σ a) (σ b) hc0]

/-- A one-byte number. -/
def oneByte (k : UInt8) : Bigint :=
  { bytes := 1, bits := 0, data := (Buf.zero dataMaxlen).set 0 k, bits_lt := no_bits_lt }

theorem oneByte_clean (k : UInt8) : (oneByte k).Clean := by
  rw [clean_iff, Bigint.num, oneByte, num_first]
  exact k.toNat_lt

theorem oneByte_value (k : UInt8) : (oneByte k).value = k.toNat := by
  rw [(oneByte_clean k).value_eq, Bigint.num, oneByte, num_first]

/-- `3 ^ 5 mod 7`, written over its own base. -/
theorem callExpmod_exact_alias :
    let σ : Fin 3 → Bigint := fun i => oneByte (if i = 0 then 3 else if i = 1 then 5 else 7)
    ∃ v : Bigint, callExpmod σ 0 0 1 2 = (Function.update σ 0 v, 0) ∧ v.Clean ∧ v.value = 5 := by
  intro σ
  have hvalue : (σ 0).value = 3 ∧ (σ 1).value = 5 ∧ (σ 2).value = 7 :=
    ⟨oneByte_value 3, oneByte_value 5, oneByte_value 7⟩
  obtain ⟨v, hcall, hv, hval⟩ := (callExpmod_exact σ 0 0 1 2 (oneByte_clean 7)).1
    (by rw [hvalue.2.2]; decide) (by decide) (by decide) (by decide)
  rw [hvalue.1, hvalue.2.1, hvalue.2.2] at hval
  exact ⟨v, hcall, hv, hval⟩

end Esp8266Toolbox
