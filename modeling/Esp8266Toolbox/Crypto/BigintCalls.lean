import Mathlib.Data.Nat.Size
import Esp8266Toolbox.Crypto.BigintExpmod

/-!
# Calls of `bigint_mul` and `bigint_div`

The arguments of a call name variables, and some of the names may be the same. The product is
exact with an exact limit on the sizes, and so is the remainder. The quotient is not: `div_qt`
grows by one bit a pass while its bits are set from the top down, so `SET_BIT` ignores the ones
that lie beyond the size reached so far, and `bigintDiv_quot` says which are left.
-/

namespace Esp8266Toolbox
namespace Bigint

/-! ## The quotient -/

/-- A bit of a quotient is the outcome of one comparison of the long division. -/
theorem testBit_div (A : ℕ) {B : ℕ} (hB : 0 < B) (i : ℕ) :
    (A / B).testBit i = decide (B ≤ 2 * (A / 2 ^ (i + 1) % B) + (A.testBit i).toNat) := by
  have hsplit := div_two_pow_split A i 1
  have ha := Bool.toNat_le (A.testBit i)
  have hR := Nat.mod_lt (A / 2 ^ (i + 1)) hB
  have hX := Nat.div_add_mod (A / 2 ^ (i + 1)) B
  rw [pow_one, ← Nat.toNat_testBit] at hsplit
  generalize (A.testBit i).toNat = e at hsplit ha ⊢
  generalize A / 2 ^ (i + 1) = X at hsplit hR hX ⊢
  generalize X % B = R at hR hX ⊢
  -- the quotient of the bits read so far is even, plus the outcome of the comparison
  have hquot : A / B / 2 ^ i = (2 * R + e) / B + 2 * (X / B) := by
    rw [Nat.div_div_eq_div_mul, mul_comm, ← Nat.div_div_eq_div_mul, hsplit, ← hX,
      show 2 * (B * (X / B) + R) + e = 2 * R + e + B * (2 * (X / B)) by ring,
      Nat.add_mul_div_left _ _ hB, hX]
  rw [Nat.testBit_eq_decide_div_mod_eq, hquot, Nat.add_mul_mod_self_left]
  by_cases hge : B ≤ 2 * R + e
  · have hone : (2 * R + e) / B = 1 := Nat.div_eq_of_lt_le (by omega) (by omega)
    simp [hone, hge]
  · rw [Nat.div_eq_of_lt (by omega)]
    simp [hge]

/-- What a pass of `bigint_div` does to the quotient. -/
theorem divStep_quot {a b bc : Bigint} {st st' : Bigint × Bigint} {i : ℕ}
    (h : divStep a b bc st i = .ok st') :
    ∃ rt qt, st.2.leftShift = .ok rt ∧ divGrow st.1 = .ok qt ∧
      st'.1 = if bigintCmp { rt with
        data := rt.data.set 0 (rt.data.get 0 ||| UInt8.ofNat (a.BIT i)) } b ≥ 0
      then qt.setBit i else qt := by
  simp only [divStep] at h
  obtain ⟨rt, hrt, h⟩ := Loops.bind_eq_ok h
  obtain ⟨qt, hqt, h⟩ := Loops.bind_eq_ok h
  refine ⟨rt, qt, hrt, hqt, ?_⟩
  by_cases hcmp : bigintCmp { rt with
      data := rt.data.set 0 (rt.data.get 0 ||| UInt8.ofNat (a.BIT i)) } b ≥ 0
  · rw [if_pos hcmp] at h ⊢
    obtain ⟨rt', hadd, h⟩ := Loops.bind_eq_ok h
    split at h
    all_goals
      split at h
      · cases h
      · cases h
        rfl
  · rw [if_neg hcmp] at h ⊢
    cases h
    rfl

/-- State of the loop of `bigint_div` together with the quotient when the bits below `i` are still
to come: of the quotient's bits from `i` on, the lower half has been kept. -/
structure QuotInv (a b : Bigint) (i : ℕ) (st : Bigint × Bigint) : Prop where
  div : DivInv a b i st
  bits : ∀ k, st.1.num.testBit k =
    (decide (i ≤ k) && (decide (2 * k ≤ a.BITS) && (a.value / b.num).testBit k))

/-- The remainder after the shift of a pass, compared with the divisor. -/
theorem divCmp_iff {a b rt : Bigint} (hb : b.Clean) (hb0 : b.num ≠ 0) {i : ℕ}
    {st : Bigint × Bigint} (h : DivInv a b (i + 1) st) (hroom : st.2.BITS + 1 < 8 * (dataMaxlen - 1))
    (hrt : st.2.leftShift = .ok rt) :
    bigintCmp { rt with data := rt.data.set 0 (rt.data.get 0 ||| UInt8.ofNat (a.BIT i)) } b ≥ 0 ↔
      (a.value / b.num).testBit i = true := by
  obtain ⟨rt', hshift, hB, hn, hc⟩ := leftShift_ok h.clean hroom
  rw [hrt] at hshift
  cases hshift
  obtain ⟨hn', -, hc'⟩ := orLow_spec hc (by omega) (by omega) (a.value.testBit i)
  rw [BIT_eq, bigintCmp_ge_iff hc' hb, hn', hn, h.rem, testBit_div _ (Nat.pos_of_ne_zero hb0),
    decide_eq_true_iff]

theorem divStep_quotInv {a b : Bigint} (hb : b.Clean) (hb0 : b.num ≠ 0) (ha : a.BITS ≤ 1190)
    (hbB : b.BITS ≤ 1184) {i : ℕ} (hi : i < a.BITS) {st : Bigint × Bigint}
    (h : QuotInv a b (i + 1) st) :
    ∃ st', divStep a b (twosComp (bigintCopy b)) st i = .ok st' ∧ QuotInv a b i st' := by
  obtain ⟨st', hstep, hinv⟩ := divStep_ok hb hb0 ha hbB hi h.div
  refine ⟨st', hstep, hinv, fun k => ?_⟩
  obtain ⟨rt, qt, hrt, hqt, hquot⟩ := divStep_quot hstep
  have hlt : st.2.num < b.num := by
    rw [h.div.rem]
    exact Nat.mod_lt _ (Nat.pos_of_ne_zero hb0)
  have hroom := h.div.size.room (by omega) hbB hlt
  have hcmp := divCmp_iff hb hb0 h.div (by unfold dataMaxlen; omega) hrt
  have hqsize := h.div.qsize
  obtain ⟨qt', hgrow, hqB, hqn⟩ := divGrow_ok (q := st.1) (by unfold dataMaxlen; omega)
  rw [hqt] at hgrow
  cases hgrow
  have hold := h.bits k
  rw [← hqn] at hold
  rw [hquot]
  by_cases hbit : (a.value / b.num).testBit i = true
  · rw [if_pos (hcmp.mpr hbit)]
    by_cases hfit : i < qt.BITS
    · -- the position lies within the size reached so far
      rw [setBit_testBit hfit (by unfold dataMaxlen; omega), hold]
      by_cases hk : i = k
      · subst hk
        simp [hbit, show 2 * i ≤ a.BITS by omega]
      · simp [hk, show (i + 1 ≤ k) ↔ (i ≤ k) by omega]
    · -- `SET_BIT` does nothing
      have hset : qt.setBit i = qt := by
        unfold setBit
        rw [if_neg hfit]
      rw [hset, hold]
      by_cases hk : i = k
      · subst hk
        simp [show ¬2 * i ≤ a.BITS by omega]
      · simp [show (i + 1 ≤ k) ↔ (i ≤ k) by omega]
  · rw [if_neg fun hge => hbit (hcmp.mp hge), hold]
    by_cases hk : i = k
    · subst hk
      simp [hbit]
    · simp [show (i + 1 ≤ k) ↔ (i ≤ k) by omega]

/-- **`bigint_div`**, quotient: of the bits of the quotient those up to half the size of the
dividend are written. -/
theorem bigintDiv_quot {a b q r : Bigint} (hb : b.Clean) (hb0 : b.num ≠ 0) (ha : a.BITS ≤ 1190)
    (hbB : b.BITS ≤ 1184) (h : bigintDiv a b = .ok (q, r)) :
    q.value = a.value / b.num % 2 ^ (a.BITS / 2 + 1) := by
  obtain ⟨⟨qt, rt⟩, hloop, hinv⟩ :
      ∃ st, divLoop a b = .ok st ∧ QuotInv a b 0 st := by
    apply Loops.foldlM_range_reverse_ok _ (QuotInv a b)
    · refine ⟨⟨bigintZero_clean, ?_, Or.inl (by simp), by simp⟩, fun k => ?_⟩
      · rw [Nat.div_eq_of_lt a.value_lt]
        simp
      · -- the quotient has no bit above the dividend
        have hlt : a.value / b.num < 2 ^ a.BITS := lt_of_le_of_lt (Nat.div_le_self _ _) a.value_lt
        by_cases hk : a.BITS ≤ k
        · rw [Nat.testBit_eq_false_of_lt
            (lt_of_lt_of_le hlt (Nat.pow_le_pow_right (by norm_num) hk))]
          simp
        · simp [hk]
    · exact fun i st hi h => divStep_quotInv hb hb0 ha hbB hi h
  have hz : bigintIszero b = false := bigintIszero_eq_false (hb.value_eq ▸ hb0)
  simp only [bigintDiv, hz] at h
  rw [hloop, Loops.ok_bind] at h
  cases h
  obtain ⟨hclean, -, -⟩ := normalize_spec qt
  have hqB := hinv.div.qsize
  simp only at hqB
  rw [hclean.copy, hclean.value_eq, normalize_num, value]
  apply Nat.eq_of_testBit_eq
  intro k
  rw [Nat.testBit_mod_two_pow, Nat.testBit_mod_two_pow, hinv.bits k]
  by_cases hk : 2 * k ≤ a.BITS
  · simp [hk, show k < qt.BITS by omega, show k < a.BITS / 2 + 1 by omega]
  · simp [hk, show ¬k < a.BITS / 2 + 1 by omega]

/-! ## The remainder -/

/-- Number of whole bytes that hold `n`. -/
def wholeBytes (n : ℕ) : ℕ := (n.size + 7) / 8

theorem Tight.size_bytes {r : Bigint} (h : r.Tight) :
    1 ≤ r.BITS ∧ r.BITS ≤ max 1 (8 * wholeBytes r.num) := by
  rcases h with ⟨h1, -⟩ | ⟨hpos, hlow⟩
  · omega
  · have hsize := Nat.lt_size.mpr hlow
    unfold wholeBytes
    omega

end Bigint

open Bigint

/-! ## Calls on variables -/

section Calls

variable {ι : Type*} [DecidableEq ι]

/-- The call `bigint_mul(&p, &a, &b)` on a memory of `Bigint` variables, in which some of the three
names may be the same: the memory with the product copied to `p` at the end, and the return code. -/
def callMul (σ : ι → Bigint) (p a b : ι) : (ι → Bigint) × ℕ :=
  match bigintMul (σ a) (σ b) with
  | .ok v => (Function.update σ p v, 0)
  | .error rv => (σ, rv)

/-- `if (d != NULL) bigint_copy(d, …)`. -/
def storeOpt (σ : ι → Bigint) (d : Option ι) (v : Bigint) : ι → Bigint :=
  match d with
  | some d => Function.update σ d v
  | none => σ

/-- The call `bigint_div(q, r, &a, &b)`, in which `q` and `r` may be `NULL` and some of the names may
be the same: the memory after the two copies at its end, and the return code. -/
def callDiv (σ : ι → Bigint) (q r : Option ι) (a b : ι) : (ι → Bigint) × ℕ :=
  if bigintIszero (σ b) then (σ, 2)
  else if q = r then (σ, 2)
  else
    match bigintDiv (σ a) (σ b) with
    | .ok (qt, rt) => (storeOpt (storeOpt σ q qt) r rt, 0)
    | .error rv => (σ, rv)

/-- A division that does not fail its first two checks. -/
theorem callDiv_ok {σ : ι → Bigint} {q r : Option ι} {a b : ι} (hb : (σ b).Clean)
    (hb0 : (σ b).value ≠ 0) (ha : (σ a).BITS ≤ 1190) (hbB : (σ b).BITS ≤ 1184) (hqr : q ≠ r) :
    ∃ qt rt, bigintDiv (σ a) (σ b) = .ok (qt, rt) ∧
      callDiv σ q r a b = (storeOpt (storeOpt σ q qt) r rt, 0) ∧ rt.Clean ∧ rt.Tight ∧
      rt.value = (σ a).value % (σ b).value := by
  have hz : ¬bigintIszero (σ b) = true := Bool.eq_false_iff.mp (bigintIszero_eq_false hb0)
  rw [hb.value_eq] at hb0
  obtain ⟨qt, rt, hdiv, hc, ht, hn⟩ := bigintDiv_rem (a := σ a) hb hb0 ha hbB
  refine ⟨qt, rt, hdiv, ?_, hc, ht, by rw [hc.value_eq, hb.value_eq, hn]⟩
  simp only [callDiv, if_neg hz, if_neg hqr, hdiv]

/-- **Multiplication is exact with an exact capacity limit**, also when the product overwrites a
factor. -/
theorem callMul_exact (σ : ι → Bigint) (p a b : ι) (ha : (σ a).Clean) (hb : (σ b).Clean)
    (haB : (σ a).BITS ≤ 1191) :
    ((callMul σ p a b).2 = 0 ↔ (σ a).BITS + (σ b).BITS < 1192) ∧
    ((callMul σ p a b).2 = 0 →
      ∃ v : Bigint, (callMul σ p a b).1 = Function.update σ p v ∧ v.Clean ∧
        v.value = (σ a).value * (σ b).value ∧ v.BITS ≤ max 1 ((σ a).BITS + (σ b).BITS)) ∧
    ((callMul σ p a b).2 ≠ 0 → (callMul σ p a b).1 = σ) := by
  by_cases hcap : (σ a).BITS + (σ b).BITS < 1192
  · obtain ⟨v, hmul, hv, hn, hB⟩ := bigintMul_spec ha hb hcap
    have hcall : callMul σ p a b = (Function.update σ p v, 0) := by
      simp only [callMul, hmul]
    rw [hcall]
    refine ⟨by simp [hcap], fun _ => ⟨v, rfl, hv, ?_, hB⟩, fun h => absurd rfl h⟩
    rw [hv.value_eq, ha.value_eq, hb.value_eq, hn]
  · have hmul := bigintMul_overflow (b := σ b) ha (by unfold dataMaxlen; omega)
      (by unfold dataMaxlen; omega)
    have hcall : callMul σ p a b = (σ, 1) := by
      simp only [callMul, hmul]
    rw [hcall]
    exact ⟨by simp [hcap], fun h => absurd h (by norm_num), fun _ => rfl⟩

/-- Five times seven, written over the first factor. -/
theorem callMul_exact_alias :
    let σ : Fin 2 → Bigint := fun i => oneByte (if i = 0 then 5 else 7)
    (callMul σ 0 0 1).2 = 0 ∧ ((callMul σ 0 0 1).2 = 0 →
      ∃ v : Bigint, (callMul σ 0 0 1).1 = Function.update σ 0 v ∧ v.Clean ∧
        v.value = (σ 0).value * (σ 1).value ∧ v.BITS ≤ max 1 ((σ 0).BITS + (σ 1).BITS)) := by
  intro σ
  obtain ⟨hiff, hok, -⟩ := callMul_exact σ 0 0 1 (oneByte_clean 5) (oneByte_clean 7) (by decide)
  exact ⟨hiff.mpr (by decide), hok⟩

/-- **The remainder is exact** and never longer than the bytes of its value, whatever variable it
overwrites; the call fails on a zero divisor only, and then changes nothing. -/
theorem callDiv_remainder (σ : ι → Bigint) (q : Option ι) (r a b : ι) (hb : (σ b).Clean)
    (hqr : q ≠ some r) :
    ((σ b).value ≠ 0 → (σ a).BITS ≤ 1190 → (σ b).BITS ≤ 1184 →
      (callDiv σ q (some r) a b).2 = 0 ∧ ((callDiv σ q (some r) a b).1 r).Clean ∧
      ((callDiv σ q (some r) a b).1 r).value = (σ a).value % (σ b).value ∧
      1 ≤ ((callDiv σ q (some r) a b).1 r).BITS ∧
      ((callDiv σ q (some r) a b).1 r).BITS ≤
        max 1 (8 * wholeBytes ((σ a).value % (σ b).value)) ∧
      ∀ i, q ≠ some i → i ≠ r → (callDiv σ q (some r) a b).1 i = σ i) ∧
    ((σ b).value = 0 → callDiv σ q (some r) a b = (σ, 2)) := by
  constructor
  · intro hb0 haB hbB
    obtain ⟨qt, rt, -, hcall, hc, ht, hn⟩ := callDiv_ok hb hb0 haB hbB hqr
    obtain ⟨h1, hsize⟩ := ht.size_bytes
    rw [← hc.value_eq, hn] at hsize
    have hr : storeOpt (storeOpt σ q qt) (some r) rt r = rt := Function.update_self ..
    rw [hcall]
    simp only [hr]
    refine ⟨trivial, hc, hn, h1, hsize, fun i hq hir => ?_⟩
    have hstore : storeOpt (storeOpt σ q qt) (some r) rt i = storeOpt σ q qt i :=
      Function.update_of_ne hir ..
    rw [hstore]
    rcases q with _ | q
    · rfl
    · exact Function.update_of_ne (fun h => hq (by rw [h])) ..
  · intro hb0
    have hz : bigintIszero (σ b) = true := (bigintIszero_iff _).mpr hb0
    simp only [callDiv, if_pos hz]

/-- A hundred divided by seven, with the remainder written over the dividend. -/
theorem callDiv_remainder_alias :
    let σ : Fin 2 → Bigint := fun i => oneByte (if i = 0 then 100 else 7)
    (callDiv σ none (some 0) 0 1).2 = 0 ∧
      ((callDiv σ none (some 0) 0 1).1 0).value = (σ 0).value % (σ 1).value := by
  intro σ
  have hseven : (σ 1).value = 7 := oneByte_value 7
  obtain ⟨hcode, -, hval, -⟩ := (callDiv_remainder σ none 0 0 1 (oneByte_clean 7) (by simp)).1
    (by rw [hseven]; decide) (by decide) (by decide)
  exact ⟨hcode, hval⟩

/-- The quotient that `bigint_div` returns is the exact one. -/
def QuotientExact (σ : ι → Bigint) (q : ι) (r : Option ι) (a b : ι) : Prop :=
  ((callDiv σ (some q) r a b).1 q).value = (σ a).value / (σ b).value ∧
    (σ a).value = ((callDiv σ (some q) r a b).1 q).value * (σ b).value +
      (σ a).value % (σ b).value

/-- **When the quotient is exact**: `div_qt` has room for a quotient of about half the size of the
dividend. -/
theorem callDiv_quotient_iff (σ : ι → Bigint) (q : ι) (r : Option ι) (a b : ι) (hb : (σ b).Clean)
    (hb0 : (σ b).value ≠ 0) (haB : (σ a).BITS ≤ 1190) (hbB : (σ b).BITS ≤ 1184)
    (hqr : some q ≠ r) :
    (callDiv σ (some q) r a b).2 = 0 ∧
      (QuotientExact σ q r a b ↔
        (σ a).value < 2 ^ ((σ a).BITS / 2 + 1) * (σ b).value) := by
  obtain ⟨qt, rt, hdiv, hcall, -⟩ := callDiv_ok hb hb0 haB hbB hqr
  have hquot := bigintDiv_quot hb (by rwa [hb.value_eq] at hb0) haB hbB hdiv
  rw [← hb.value_eq] at hquot
  have hq : storeOpt (storeOpt σ (some q) qt) r rt q = qt := by
    rcases r with _ | r
    · exact Function.update_self ..
    · have hne : q ≠ r := fun h => hqr (by rw [h])
      exact (Function.update_of_ne hne ..).trans (Function.update_self ..)
  refine ⟨by rw [hcall], ?_⟩
  unfold QuotientExact
  rw [hcall]
  simp only [hq]
  rw [hquot, ← Nat.div_lt_iff_lt_mul (Nat.pos_of_ne_zero hb0)]
  constructor
  · rintro ⟨h, -⟩
    rw [← h]
    exact Nat.mod_lt _ (Nat.two_pow_pos _)
  · intro h
    rw [Nat.mod_eq_of_lt h]
    exact ⟨rfl, (Nat.div_add_mod' _ _).symm⟩

/-- Seven divided by three. -/
theorem callDiv_quotient_small :
    let σ : Fin 4 → Bigint := fun i => oneByte (if i = 0 then 7 else 3)
    (callDiv σ (some 2) (some 3) 0 1).2 = 0 ∧
      (QuotientExact σ 2 (some 3) 0 1 ↔ (σ 0).value < 2 ^ ((σ 0).BITS / 2 + 1) * (σ 1).value) := by
  intro σ
  have hthree : (σ 1).value = 3 := oneByte_value 3
  exact callDiv_quotient_iff σ 2 (some 3) 0 1 (oneByte_clean 3) (by rw [hthree]; decide) (by decide)
    (by decide) (by decide)

/-- `0xff / 1` loses the three highest bits of the quotient. -/
theorem callDiv_quotient_lost :
    let σ : Fin 4 → Bigint := fun i => oneByte (if i = 0 then 255 else 1)
    (σ 0).Clean ∧ (σ 1).Clean ∧ (σ 1).value ≠ 0 ∧ (σ 0).BITS ≤ 1190 ∧ (σ 1).BITS ≤ 1184 ∧
      (callDiv σ (some 2) (some 3) 0 1).2 = 0 ∧
      ((callDiv σ (some 2) (some 3) 0 1).1 2).value = 31 ∧ ¬QuotientExact σ 2 (some 3) 0 1 := by
  intro σ
  have hlost : ((callDiv σ (some 2) (some 3) 0 1).1 2).value = 31 := by decide +kernel
  have hall : (σ 0).value = 255 := oneByte_value 255
  have hone : (σ 1).value = 1 := oneByte_value 1
  have hne : (σ 1).value ≠ 0 := by
    rw [hone]
    decide
  have hcall := callDiv_quotient_iff σ 2 (some 3) 0 1 (oneByte_clean 1) hne (by decide) (by decide) (by decide)
  refine ⟨oneByte_clean 255, oneByte_clean 1, hne, by decide, by decide, hcall.1, hlost, ?_⟩
  rintro ⟨h, -⟩
  rw [hlost, hall, hone] at h
  revert h
  decide

end Calls

end Esp8266Toolbox
