import Esp8266Toolbox.Crypto.BigintBits

/-!
# Comparison, addition and multiplication

* `bigintCmp_spec`: the comparison of two clean numbers compares their values;
* `bigintAdd_spec`: addition into any destination, aliased or not, with the size of the
  result;
* `bigintMul_spec`: shift-and-add multiplication below the capacity.
-/

namespace Esp8266Toolbox
namespace Bigint

/-! ## `bigint_cmp` -/

/-- `z` is the sign of the comparison of `x` with `y`. -/
def IsCmp (z : ℤ) (x y : ℕ) : Prop :=
  (z = -1 ∧ x < y) ∨ (z = 0 ∧ x = y) ∨ (z = 1 ∧ y < x)

theorem isCmp_lt {x y : ℕ} (h : x < y) : IsCmp (-1) x y := Or.inl ⟨rfl, h⟩

theorem isCmp_gt {x y : ℕ} (h : y < x) : IsCmp 1 x y := Or.inr (Or.inr ⟨rfl, h⟩)

/-- Numbers that agree above a position are ordered by the quotient at that position. -/
theorem lt_of_digit_lt {x y q : ℕ} (h : x / q < y / q) : x < y := by
  by_contra hle
  exact absurd (Nat.div_le_div_right (c := q) (Nat.le_of_not_lt hle)) (by omega)

/-- A quotient refined by one more digit. -/
theorem div_two_pow_split (x s w : ℕ) :
    x / 2 ^ s = 2 ^ w * (x / 2 ^ (s + w)) + x / 2 ^ s % 2 ^ w := by
  rw [pow_add, ← Nat.div_div_eq_div_mul, Nat.div_add_mod]

theorem cmpBytes_spec (i j : Bigint) (k : ℕ)
    (h : i.num / 2 ^ (8 * (k + 1)) = j.num / 2 ^ (8 * (k + 1))) :
    IsCmp (cmpBytes i j k) i.num j.num := by
  -- one byte decides, or the agreement extends one byte down
  have step : ∀ k, i.num / 2 ^ (8 * (k + 1)) = j.num / 2 ^ (8 * (k + 1)) →
      (j.data.get k < i.data.get k → j.num < i.num) ∧
      (i.data.get k < j.data.get k → i.num < j.num) ∧
      (¬j.data.get k < i.data.get k → ¬i.data.get k < j.data.get k →
        i.num / 2 ^ (8 * k) = j.num / 2 ^ (8 * k)) := by
    intro k h
    have hi := div_two_pow_split i.num (8 * k) 8
    have hj := div_two_pow_split j.num (8 * k) 8
    rw [show 8 * k + 8 = 8 * (k + 1) by ring] at hi hj
    simp only [UInt8.lt_iff_toNat_lt, Buf.get_toNat]
    change (j.num / 2 ^ (8 * k) % 2 ^ 8 < i.num / 2 ^ (8 * k) % 2 ^ 8 → _) ∧
      (i.num / 2 ^ (8 * k) % 2 ^ 8 < j.num / 2 ^ (8 * k) % 2 ^ 8 → _) ∧
      (¬j.num / 2 ^ (8 * k) % 2 ^ 8 < i.num / 2 ^ (8 * k) % 2 ^ 8 →
        ¬i.num / 2 ^ (8 * k) % 2 ^ 8 < j.num / 2 ^ (8 * k) % 2 ^ 8 → _)
    rw [h] at hi
    refine ⟨fun hlt => lt_of_digit_lt (q := 2 ^ (8 * k)) ?_,
      fun hlt => lt_of_digit_lt (q := 2 ^ (8 * k)) ?_, fun h1 h2 => ?_⟩ <;> omega
  induction k with
  | zero =>
    obtain ⟨hgt, hlt, heq⟩ := step 0 h
    rw [cmpBytes]
    by_cases h1 : i.data.get 0 > j.data.get 0
    · rw [if_pos h1]; exact isCmp_gt (hgt h1)
    · by_cases h2 : i.data.get 0 < j.data.get 0
      · rw [if_neg h1, if_pos h2]; exact isCmp_lt (hlt h2)
      · rw [if_neg h1, if_neg h2]
        exact Or.inr (Or.inl ⟨rfl, by simpa using heq h1 h2⟩)
  | succ k ih =>
    obtain ⟨hgt, hlt, heq⟩ := step (k + 1) h
    rw [cmpBytes]
    by_cases h1 : i.data.get (k + 1) > j.data.get (k + 1)
    · rw [if_pos h1]; exact isCmp_gt (hgt h1)
    · by_cases h2 : i.data.get (k + 1) < j.data.get (k + 1)
      · rw [if_neg h1, if_pos h2]; exact isCmp_lt (hlt h2)
      · rw [if_neg h1, if_neg h2]
        exact ih (heq h1 h2)

/-- Agreement above a position carries over to every higher position. -/
theorem div_two_pow_mono {x y s t : ℕ} (hst : s ≤ t) (h : x / 2 ^ s = y / 2 ^ s) :
    x / 2 ^ t = y / 2 ^ t := by
  obtain ⟨d, rfl⟩ := Nat.exists_eq_add_of_le hst
  rw [pow_add, ← Nat.div_div_eq_div_mul, ← Nat.div_div_eq_div_mul, h]

theorem cmpBits_spec {i j : Bigint} (hi : i.Clean) (hj : j.Clean) (n : ℕ)
    (h : i.num / 2 ^ n = j.num / 2 ^ n) : IsCmp (cmpBits i j n) i.num j.num := by
  induction n with
  | zero => exact cmpBytes_spec i j 0 (div_two_pow_mono (Nat.zero_le _) h)
  | succ k ih =>
    rw [cmpBits]
    by_cases hk : k % 8 = 0
    · rw [if_pos hk]
      exact cmpBytes_spec i j _ (div_two_pow_mono (by omega) h)
    have hsi := div_two_pow_split i.num k 1
    have hsj := div_two_pow_split j.num k 1
    have hbi : i.BIT k = i.num / 2 ^ k % 2 := by rw [BIT_eq, hi.value_eq, Nat.toNat_testBit]
    have hbj : j.BIT k = j.num / 2 ^ k % 2 := by rw [BIT_eq, hj.value_eq, Nat.toNat_testBit]
    rw [h] at hsi
    rw [if_neg hk, hbi, hbj]
    by_cases h1 : i.num / 2 ^ k % 2 > j.num / 2 ^ k % 2
    · rw [if_pos h1]
      exact isCmp_gt (lt_of_digit_lt (q := 2 ^ k) (by omega))
    · by_cases h2 : i.num / 2 ^ k % 2 < j.num / 2 ^ k % 2
      · rw [if_neg h1, if_pos h2]
        exact isCmp_lt (lt_of_digit_lt (q := 2 ^ k) (by omega))
      · rw [if_neg h1, if_neg h2]
        exact ih (by omega)

/-- The scan finds a set bit at `lo` or above exactly when the number reaches `2 ^ lo`. -/
theorem cmpScan_spec {i : Bigint} (hi : i.Clean) {lo n : ℕ} (hn : i.num < 2 ^ n) :
    cmpScan i lo n = true ↔ 2 ^ lo ≤ i.num := by
  induction n with
  | zero =>
    have h0 : i.num = 0 := by simpa using hn
    simp [cmpScan, h0]
  | succ n ih =>
    have hbit : i.BIT n = (i.num.testBit n).toNat := by rw [BIT_eq, hi.value_eq]
    rw [cmpScan]
    -- from the top bit down: a set bit decides, a clear one is no part of the number
    by_cases hlo : lo ≤ n
    · rw [if_pos hlo]
      by_cases hset : i.num.testBit n = true
      · rw [if_pos (by rw [hbit, hset]; rfl)]
        have hge := Nat.ge_two_pow_of_testBit hset
        have hpow : 2 ^ lo ≤ 2 ^ n := Nat.pow_le_pow_right (by norm_num) hlo
        simp only [true_iff]
        omega
      · rw [if_neg (by rw [hbit]; simpa using hset)]
        apply ih
        have hmod := mod_two_pow_succ i.num n
        rw [Nat.mod_eq_of_lt hn] at hmod
        simp only [Bool.not_eq_true] at hset
        rw [hset] at hmod
        simp only [Bool.toNat_false, mul_zero, add_zero] at hmod
        rw [hmod]
        exact Nat.mod_lt _ (Nat.two_pow_pos n)
    · rw [if_neg hlo]
      have hpow : 2 ^ (n + 1) ≤ 2 ^ lo := Nat.pow_le_pow_right (by norm_num) (by omega)
      simp only [Bool.false_eq_true, false_iff]
      omega

/-- **`bigint_cmp`** compares the values of two clean numbers, whatever their sizes. -/
theorem bigintCmp_spec {i j : Bigint} (hi : i.Clean) (hj : j.Clean) :
    IsCmp (bigintCmp i j) i.num j.num := by
  have hilt := hi.lt
  have hjlt := hj.lt
  unfold bigintCmp
  by_cases h1 : i.BITS > j.BITS
  · rw [if_pos h1]
    -- the longer number is larger if a bit above the other size is set
    by_cases hscan : cmpScan i j.BITS i.BITS = true
    · rw [if_pos hscan]
      have := (cmpScan_spec hi hilt).mp hscan
      exact isCmp_gt (by omega)
    · rw [if_neg hscan]
      have hlow : i.num < 2 ^ j.BITS :=
        Nat.lt_of_not_le fun h => hscan ((cmpScan_spec hi hilt).mpr h)
      exact cmpBits_spec hi hj _ (by rw [Nat.div_eq_of_lt hlow, Nat.div_eq_of_lt hjlt])
  rw [if_neg h1]
  by_cases h2 : i.BITS < j.BITS
  · rw [if_pos h2]
    by_cases hscan : cmpScan j i.BITS j.BITS = true
    · rw [if_pos hscan]
      have := (cmpScan_spec hj hjlt).mp hscan
      exact isCmp_lt (by omega)
    · rw [if_neg hscan]
      have hlow : j.num < 2 ^ i.BITS :=
        Nat.lt_of_not_le fun h => hscan ((cmpScan_spec hj hjlt).mpr h)
      exact cmpBits_spec hi hj _ (by rw [Nat.div_eq_of_lt hilt, Nat.div_eq_of_lt hlow])
  · rw [if_neg h2]
    have hB : i.BITS = j.BITS := by omega
    rw [← hB] at hjlt
    exact cmpBits_spec hi hj _ (by rw [Nat.div_eq_of_lt hilt, Nat.div_eq_of_lt hjlt])

theorem bigintCmp_ge_iff {i j : Bigint} (hi : i.Clean) (hj : j.Clean) :
    bigintCmp i j ≥ 0 ↔ j.num ≤ i.num := by
  rcases bigintCmp_spec hi hj with ⟨hz, h⟩ | ⟨hz, h⟩ | ⟨hz, h⟩ <;> rw [hz] <;> omega

/-! ## `bigint_add` -/

@[simp] theorem resize_BITS (i : Bigint) (n : ℕ) : (i.resize n).BITS = n := by
  unfold resize BITS; simp only; omega

@[simp] theorem resize_num (i : Bigint) (n : ℕ) : (i.resize n).num = i.num := rfl

/-- Growing the destination below the capacity, or not growing it, never fails and keeps the
data. -/
theorem addGrow_ok (s : Bigint) {i : ℕ} (hi : i + 1 < 8 * (dataMaxlen - 1) ∨ i < s.BITS) :
    ∃ s', addGrow s i = .ok s' ∧ s'.BITS = max s.BITS (i + 1) ∧ s'.num = s.num := by
  unfold addGrow
  by_cases hge : i ≥ s.BITS
  · have hb : ¬((s.resize (i + 1)).bytes ≥ dataMaxlen - 1) := by
      unfold resize; simp only; omega
    rw [if_pos hge]
    simp only [hb, if_false]
    exact ⟨_, rfl, by rw [resize_BITS]; omega, rfl⟩
  · rw [if_neg hge]
    exact ⟨s, rfl, by omega, rfl⟩

/-- The array is full: the destination is left with the size it should have grown to. -/
theorem addGrow_full {s : Bigint} {i : ℕ} (hge : s.BITS ≤ i) (hfull : 8 * (dataMaxlen - 1) ≤ i + 1) :
    addGrow s i = .error (s.resize (i + 1)) := by
  have hb : (s.resize (i + 1)).bytes ≥ dataMaxlen - 1 := by unfold resize; simp only; omega
  unfold addGrow
  rw [if_pos hge]
  exact if_pos hb

/-- The bit written by one pass: the sum bit goes to position `i`, the rest stays. -/
theorem addStep_ok (a b : Src) (s : Bigint) (c : ℕ) {i : ℕ} (hi : i + 1 < 8 * (dataMaxlen - 1))
    {x y : Bool} (hx : ∀ s' : Bigint, s'.num = s.num → i < s'.BITS → (a.read s').BIT i = x.toNat)
    (hy : ∀ s' : Bigint, s'.num = s.num → i < s'.BITS → (b.read s').BIT i = y.toNat)
    (hc : c ≤ 1) :
    ∃ s', addStep a b (s, c) i = .ok (s', (x.toNat + y.toNat + c) / 2) ∧
      s'.BITS = max s.BITS (i + 1) ∧
      s'.num % 2 ^ (i + 1) = s.num % 2 ^ i + 2 ^ i * ((x.toNat + y.toNat + c) % 2) ∧
      ∀ k, i < k → s'.num.testBit k = s.num.testBit k := by
  obtain ⟨s₁, hgrow, hB, hnum⟩ := addGrow_ok s (Or.inl hi)
  have hiB : i < s₁.BITS := by omega
  have hicap : i < 8 * dataMaxlen := by unfold dataMaxlen at *; omega
  have hxle : x.toNat ≤ 1 := Bool.toNat_le _
  have hyle : y.toNat ≤ 1 := Bool.toNat_le _
  have hstep : addStep a b (s, c) i =
      if x.toNat + y.toNat + c = 3 then .ok (s₁.setBit i, 1)
      else if x.toNat + y.toNat + c = 2 then .ok (s₁.clrBit i, 1)
      else if x.toNat + y.toNat + c = 1 then .ok (s₁.setBit i, 0)
      else .ok (s₁.clrBit i, 0) := by
    simp only [addStep]
    rw [hgrow]
    change (if (a.read s₁).BIT i + (b.read s₁).BIT i + c = 3 then _ else _) = _
    rw [hx s₁ hnum hiB, hy s₁ hnum hiB]
    rfl
  have hset : ∀ k, i < k → (s₁.setBit i).num.testBit k = s.num.testBit k := by
    intro k hk
    rw [setBit_testBit hiB hicap, hnum]
    simp [show i ≠ k by omega]
  have hclr : ∀ k, i < k → (s₁.clrBit i).num.testBit k = s.num.testBit k := by
    intro k hk
    rw [clrBit_testBit hiB hicap, hnum]
    simp [show i ≠ k by omega]
  have hsm := setBit_mod hiB hicap
  have hcm := clrBit_mod hiB hicap
  rw [hnum] at hsm hcm
  rw [hstep]
  generalize hn : x.toNat + y.toNat + c = n
  have hn3 : n ≤ 3 := by omega
  -- the four values of `n` are the four branches of the source
  interval_cases n
  · exact ⟨_, rfl, by rw [clrBit_BITS, hB], by rw [hcm]; simp, hclr⟩
  · exact ⟨_, rfl, by rw [setBit_BITS, hB], by rw [hsm]; simp, hset⟩
  · exact ⟨_, rfl, by rw [clrBit_BITS, hB], by rw [hcm]; simp, hclr⟩
  · exact ⟨_, rfl, by rw [setBit_BITS, hB], by rw [hsm]; simp, hset⟩

/-- What `BIT(a, i)` reads while the destination is being overwritten: bits at `i` or above
are still the original ones, also when `a` is the destination. -/
theorem read_BIT {s s' : Bigint} {a : Src} {i : ℕ} (ha : (a.read s).Clean)
    (hkeep : s'.num.testBit i = s.num.testBit i) (hi : i < s'.BITS) :
    (a.read s').BIT i = ((a.read s).num.testBit i).toNat := by
  cases a with
  | obj x =>
    simp only [Src.read] at ha ⊢
    rw [BIT_eq, ha.value_eq]
  | dst =>
    simp only [Src.read] at ha ⊢
    rw [BIT_eq, value, Nat.testBit_mod_two_pow, hkeep]
    simp [hi]

/-- State of the loop of `bigint_add` before bit `i`: the low `i` bits hold the sum of the
low `i` bits, the carry its overflow, and the bits from `i` on are untouched. -/
structure AddInv (s : Bigint) (A B : ℕ) (i : ℕ) (sc : Bigint × ℕ) : Prop where
  size : sc.1.BITS = max s.BITS i
  sum : sc.1.num % 2 ^ i + 2 ^ i * sc.2 = A % 2 ^ i + B % 2 ^ i
  rest : ∀ k, i ≤ k → sc.1.num.testBit k = s.num.testBit k
  carry : sc.2 ≤ 1

theorem addLoop_ok (s : Bigint) (a b : Src) (ha : (a.read s).Clean) (hb : (b.read s).Clean)
    {m : ℕ} (hm : m < 8 * (dataMaxlen - 1)) :
    ∃ sc, (List.range m).foldlM (addStep a b) (s, 0) = .ok sc ∧
      AddInv s (a.read s).num (b.read s).num m sc := by
  apply Loops.foldlM_range_ok (addStep a b) (AddInv s (a.read s).num (b.read s).num)
  · exact ⟨by simp, by simp [Nat.mod_one], fun _ _ => rfl, by simp⟩
  rintro i ⟨s₁, c⟩ hi ⟨hsize, hsum, hrest, hcarry⟩
  simp only at hsize hsum hrest hcarry
  obtain ⟨s₂, hstep, hB, hmod, hkeep⟩ := addStep_ok a b s₁ c (i := i) (by omega)
    (fun s' hs' hi' => read_BIT ha (by rw [hs']; exact hrest i le_rfl) hi')
    (fun s' hs' hi' => read_BIT hb (by rw [hs']; exact hrest i le_rfl) hi') hcarry
  refine ⟨_, hstep, ⟨?_, ?_, ?_, ?_⟩⟩
  · simp only
    omega
  · -- the sum bit and the carry recompose the three input bits
    simp only
    have hA := mod_two_pow_succ (a.read s).num i
    have hBm := mod_two_pow_succ (b.read s).num i
    generalize hn : ((a.read s).num.testBit i).toNat + ((b.read s).num.testBit i).toNat + c = n
      at hmod ⊢
    have hrecomp : 2 ^ i * (n % 2) + 2 ^ (i + 1) * (n / 2) = 2 ^ i * n := by
      rw [pow_succ, mul_assoc, ← mul_add, Nat.mod_add_div]
    have hdist : 2 ^ i * n = 2 ^ i * ((a.read s).num.testBit i).toNat
        + 2 ^ i * ((b.read s).num.testBit i).toNat + 2 ^ i * c := by
      rw [← hn]; ring
    omega
  · intro k hk
    rw [hkeep k (by omega), hrest k (by omega)]
  · simp only
    have h1 := Bool.toNat_le ((a.read s).num.testBit i)
    have h2 := Bool.toNat_le ((b.read s).num.testBit i)
    omega

/-- The carry store at the end of `bigint_add`. -/
theorem addCarry_ok (s : Bigint) {m : ℕ} (hcap : m < 8 * dataMaxlen)
    (hm : m + 1 < 8 * (dataMaxlen - 1) ∨ m < s.BITS) :
    ∃ s', addCarry s 1 m = .ok s' ∧ s'.BITS = max s.BITS (m + 1) ∧ s'.num % 2 ^ (m + 1) = s.num % 2 ^ m + 2 ^ m ∧
      ∀ k, m < k → s'.num.testBit k = s.num.testBit k := by
  obtain ⟨s₁, hgrow, hB, hnum⟩ := addGrow_ok s hm
  have hmB : m < s₁.BITS := by omega
  refine ⟨s₁.setBit m, ?_, by rw [setBit_BITS, hB], by rw [setBit_mod hmB hcap, hnum], ?_⟩
  · simp only [addCarry, if_true]
    rw [hgrow]
    change (if m ≥ (s₁.setBit m).BITS then _ else _) = _
    rw [if_neg (by rw [setBit_BITS]; omega)]
  · intro k hk
    rw [setBit_testBit hmB hcap, hnum]
    simp [show m ≠ k by omega]

/-- The size of a sum: that of the wider operand, plus one for a carry. -/
def sumBITS (a b : Bigint) : ℕ :=
  max a.BITS b.BITS + if 2 ^ max a.BITS b.BITS ≤ a.num + b.num then 1 else 0

/-- A sum that is wider than its operands reaches beyond them. -/
theorem two_pow_le_of_sumBITS {a b : Bigint} (h : max a.BITS b.BITS < sumBITS a b) :
    2 ^ (sumBITS a b - 1) ≤ a.num + b.num := by
  unfold sumBITS at h ⊢
  by_cases hc : 2 ^ max a.BITS b.BITS ≤ a.num + b.num
  · rw [if_pos hc, Nat.add_sub_cancel]
    exact hc
  · rw [if_neg hc] at h
    omega

/-- The destination of `bigint_add` after its loop: the carry decides about the size of the sum. -/
theorem addLoop_parts (s : Bigint) (a b : Src) (ha : (a.read s).Clean) (hb : (b.read s).Clean)
    (hmax : max (a.read s).BITS (b.read s).BITS < 8 * (dataMaxlen - 1)) :
    ∃ s₁ c, (List.range (max (a.read s).BITS (b.read s).BITS)).foldlM (addStep a b) (s, 0) = .ok (s₁, c) ∧
      c ≤ 1 ∧ max (a.read s).BITS (b.read s).BITS + c = sumBITS (a.read s) (b.read s) ∧
      s₁.BITS = max s.BITS (max (a.read s).BITS (b.read s).BITS) ∧
      s₁.num % 2 ^ max (a.read s).BITS (b.read s).BITS + 2 ^ max (a.read s).BITS (b.read s).BITS * c
        = (a.read s).num + (b.read s).num ∧
      ∀ k, max (a.read s).BITS (b.read s).BITS ≤ k → s₁.num.testBit k = s.num.testBit k := by
  unfold sumBITS at *
  generalize hA : (a.read s).num = A at *
  generalize hBn : (b.read s).num = B at *
  generalize hm : max (a.read s).BITS (b.read s).BITS = m at hmax ⊢
  have hAlt : A < 2 ^ m := by
    have h := ha.lt
    rw [hA] at h
    exact lt_of_lt_of_le h (Nat.pow_le_pow_right (by norm_num) (by omega))
  have hBlt : B < 2 ^ m := by
    have h := hb.lt
    rw [hBn] at h
    exact lt_of_lt_of_le h (Nat.pow_le_pow_right (by norm_num) (by omega))
  obtain ⟨⟨s₁, c⟩, hloop, ⟨hsize, hsum, hrest, hcarry⟩⟩ := addLoop_ok s a b ha hb (m := m) hmax
  rw [hA, hBn, Nat.mod_eq_of_lt hAlt, Nat.mod_eq_of_lt hBlt] at hsum
  simp only at hsize hsum hrest hcarry
  have hs₁lt := Nat.mod_lt s₁.num (Nat.two_pow_pos m)
  -- the carry says whether the sum has one bit more than the wider operand
  have hcar : (if 2 ^ m ≤ A + B then 1 else 0) = c := by
    by_cases hc : c = 1
    · subst hc
      rw [if_pos (by omega)]
    · have hc0 : c = 0 := by omega
      subst hc0
      rw [if_neg (by omega)]
  exact ⟨s₁, c, hloop, hcarry, by rw [hcar], hsize, hsum, hrest⟩

/-- The destination of `bigint_add` before its size is adjusted: it has room for the sum, which is
in its lowest bits, and the bits above are as they were. -/
theorem bigintAdd_parts (s : Bigint) (a b : Src) (ha : (a.read s).Clean) (hb : (b.read s).Clean)
    (hmax : max (a.read s).BITS (b.read s).BITS < 8 * (dataMaxlen - 1))
    (hcap : sumBITS (a.read s) (b.read s) < 8 * (dataMaxlen - 1) ∨ sumBITS (a.read s) (b.read s) ≤ s.BITS) :
    ∃ s₁ c s₂, (List.range (max (a.read s).BITS (b.read s).BITS)).foldlM (addStep a b) (s, 0) = .ok (s₁, c) ∧
      max (a.read s).BITS (b.read s).BITS + c = sumBITS (a.read s) (b.read s) ∧
      addCarry s₁ c (max (a.read s).BITS (b.read s).BITS) = .ok s₂ ∧
      s₂.BITS = max s.BITS (sumBITS (a.read s) (b.read s)) ∧
      s₂.num % 2 ^ sumBITS (a.read s) (b.read s) = (a.read s).num + (b.read s).num ∧
      ∀ k, sumBITS (a.read s) (b.read s) ≤ k → s₂.num.testBit k = s.num.testBit k := by
  obtain ⟨s₁, c, hloop, hcarry, hn, hsize, hsum, hrest⟩ := addLoop_parts s a b ha hb hmax
  rw [← hn] at hcap ⊢
  generalize max (a.read s).BITS (b.read s).BITS = m at *
  have hm' : m < 8 * dataMaxlen := by unfold dataMaxlen at *; omega
  by_cases hc : c = 1
  · subst hc
    obtain ⟨s₂, h1, h2, h3, h4⟩ := addCarry_ok s₁ hm' (by omega)
    refine ⟨s₁, 1, s₂, hloop, rfl, h1, by omega, by omega, fun k hk => ?_⟩
    rw [h4 k (by omega), hrest k (by omega)]
  · have hc0 : c = 0 := by omega
    subst hc0
    exact ⟨s₁, 0, s₁, hloop, rfl, rfl, by simpa using hsize, by simpa using hsum, fun k hk => hrest k (by omega)⟩

/-- **`bigint_add`**: for clean operands whose sum is below the capacity and any
destination, aliased or not, the lowest `BITS` bits of the result are the sum. The size is
`sumBITS` or, after a normalization, smaller; a clean destination stays clean. -/
theorem bigintAdd_spec (s : Bigint) (a b : Src) (ha : (a.read s).Clean) (hb : (b.read s).Clean)
    (hcap : sumBITS (a.read s) (b.read s) < 8 * (dataMaxlen - 1)) :
    ∃ s', bigintAdd s a b = .ok s' ∧ s'.value = (a.read s).num + (b.read s).num ∧
      (s.Clean → s'.Clean) ∧
      s'.BITS ≤ max 1 (sumBITS (a.read s) (b.read s)) ∧
      (s.BITS ≤ max (a.read s).BITS (b.read s).BITS →
        s'.BITS = sumBITS (a.read s) (b.read s)) := by
  have hmax : max (a.read s).BITS (b.read s).BITS ≤ sumBITS (a.read s) (b.read s) := Nat.le_add_right _ _
  obtain ⟨s₁, c, s₂, hloop, hn, hs₂, hB₂, hmod₂, hrest₂⟩ :=
    bigintAdd_parts s a b ha hb (by omega) (Or.inl hcap)
  generalize sumBITS (a.read s) (b.read s) = n at *
  have hadd : bigintAdd s a b = .ok (if s₂.BITS > n then normalize (s₂.resize n) else s₂) := by
    simp only [bigintAdd]
    rw [hloop, Loops.ok_bind, hs₂, Loops.ok_bind, ← hn]
    rfl
  refine ⟨_, hadd, ?_⟩
  by_cases hbig : s₂.BITS > n
  · rw [if_pos hbig]
    obtain ⟨hclean, -, hsz⟩ := normalize_spec (s₂.resize n)
    rw [resize_BITS] at hsz
    refine ⟨?_, fun _ => hclean, by omega, fun h => by omega⟩
    rw [hclean.value_eq, normalize_num, value, resize_BITS, resize_num, hmod₂]
  · rw [if_neg hbig]
    have hBs : s₂.BITS = n := by omega
    refine ⟨by rw [value, hBs, hmod₂], fun hs k hk => ?_, by omega, fun _ => hBs⟩
    rw [hrest₂ k (by omega)]
    exact hs k (by omega)

/-- `bigint_add(&s, &s, &b)` for clean operands: the form the other functions use. -/
theorem bigintAdd_dst {s b : Bigint} (hs : s.Clean) (hb : b.Clean)
    (hcap : sumBITS s b < 8 * (dataMaxlen - 1)) :
    ∃ s', addCode (bigintAdd s .dst (.obj b)) = .ok s' ∧ s'.Clean ∧ s'.num = s.num + b.num ∧
      s'.BITS = sumBITS s b := by
  obtain ⟨s', hadd, hval, hclean, -, hsize⟩ := bigintAdd_spec s .dst (.obj b) hs hb hcap
  have hc := hclean hs
  refine ⟨s', by rw [hadd]; rfl, hc, ?_, hsize (Nat.le_max_left _ _)⟩
  rw [← hc.value_eq, hval]
  rfl

/-! ## `bigint_mul` -/

/-- State of `bigint_mul` before bit `i` of the multiplier: `mul_at` is the multiplicand
shifted by `i`, `mul_pt` the product with the low `i` bits. -/
structure MulInv (a : Bigint) (B : ℕ) (i : ℕ) (st : Bigint × Bigint) : Prop where
  at_clean : st.2.Clean
  at_num : st.2.num = a.num * 2 ^ i
  at_size : st.2.BITS = a.BITS + i
  pt_clean : st.1.Clean
  pt_num : st.1.num = a.num * (B % 2 ^ i)
  pt_size : st.1.BITS ≤ max 1 (a.BITS + i)

/-- The accumulator after adding the shifted multiplicand. -/
theorem mulAcc_ok {a pt at' : Bigint} {B i : ℕ} (ha : a.Clean) (h : MulInv a B i (pt, at'))
    (hcap : a.BITS + i + 1 < 8 * (dataMaxlen - 1)) (hbit : B.testBit i = true) :
    ∃ pt', addCode (bigintAdd pt .dst (.obj at')) = .ok pt' ∧ pt'.Clean ∧
      pt'.num = a.num * (B % 2 ^ (i + 1)) ∧ pt'.BITS ≤ max 1 (a.BITS + (i + 1)) := by
  obtain ⟨hac, han, hasz, hpc, hpn, hpsz⟩ := h
  simp only at hac han hasz hpc hpn hpsz
  have hsize : sumBITS pt at' ≤ max 1 (a.BITS + (i + 1)) := by
    unfold sumBITS
    by_cases h0 : a.BITS + i = 0
    · -- an empty multiplicand is zero: nothing carries out of the one-bit accumulator
      have ha0 : a.num = 0 := by
        have := ha.lt
        rw [show a.BITS = 0 by omega] at this
        simpa using this
      rw [han, hpn, ha0]
      simp only [zero_mul, add_zero, Nat.le_zero_eq, Nat.pow_eq_zero, OfNat.ofNat_ne_zero,
        false_and, if_false]
      omega
    · split <;> omega
  obtain ⟨pt', hadd, hc, hn, hB⟩ := bigintAdd_dst hpc hac
    (lt_of_le_of_lt hsize (by unfold dataMaxlen at *; omega))
  refine ⟨pt', hadd, hc, ?_, by omega⟩
  rw [hn, hpn, han, mod_two_pow_succ, hbit]
  simp only [Bool.toNat_true]
  ring

theorem mulStep_ok {a b : Bigint} (ha : a.Clean) {i : ℕ}
    (hcap : a.BITS + i + 1 < 8 * (dataMaxlen - 1)) {st : Bigint × Bigint}
    (h : MulInv a b.value i st) :
    ∃ st', mulStep b st i = .ok st' ∧ MulInv a b.value (i + 1) st' := by
  obtain ⟨pt, at'⟩ := st
  obtain ⟨at₂, hshift, hB₂, hn₂, hc₂⟩ := leftShift_ok h.at_clean (by rw [h.at_size]; omega)
  have hat : at₂.num = a.num * 2 ^ (i + 1) := by
    rw [hn₂, h.at_num, pow_succ]; ring
  simp only [mulStep]
  by_cases hbit : b.value.testBit i = true
  · obtain ⟨pt₂, hadd, hpc, hpn, hpsz⟩ := mulAcc_ok ha h hcap hbit
    have hone : b.BIT i = 1 := by rw [BIT_eq, hbit]; rfl
    rw [if_pos hone, hadd, Loops.ok_bind, hshift]
    exact ⟨_, rfl, hc₂, hat, by rw [hB₂, h.at_size]; omega, hpc, hpn, hpsz⟩
  · have hzero : b.value.testBit i = false := by simpa using hbit
    have hne : ¬b.BIT i = 1 := by rw [BIT_eq, hzero]; simp
    have hsz := h.pt_size
    simp only at hsz
    rw [if_neg hne, Loops.ok_bind, hshift]
    refine ⟨_, rfl, hc₂, hat, by rw [hB₂, h.at_size]; omega, h.pt_clean, ?_, by simp only; omega⟩
    simp only
    rw [h.pt_num, mod_two_pow_succ, hzero]
    simp

/-- The state of `bigint_mul` before its first pass. -/
theorem mulInv_start {a : Bigint} (ha : a.Clean) (B : ℕ) :
    MulInv a B 0 (bigintZero, bigintCopy a) := by
  rw [ha.copy]
  exact ⟨ha, by simp, by simp, bigintZero_clean, by simp [Nat.mod_one], by simp⟩

/-- The pass in which the shifted multiplicand no longer fits fails, whether or not the addition
before the shift has found that out already. -/
theorem mulStep_full {a b : Bigint} {i : ℕ} {st : Bigint × Bigint} (h : MulInv a b.value i st)
    (hfull : a.BITS + i + 1 = 8 * (dataMaxlen - 1)) : mulStep b st i = .error 1 := by
  have hshift := leftShift_overflow (i := st.2) (by rw [h.at_size]; exact hfull)
  simp only [mulStep]
  by_cases hbit : b.BIT i = 1
  · rw [if_pos hbit]
    rcases bigintAdd st.1 .dst (.obj st.2) with e | pt
    · rfl
    · rw [addCode, Loops.ok_bind, hshift]
      rfl
  · rw [if_neg hbit, Loops.ok_bind, hshift]
    rfl

/-- `bigint_mul` reports an overflow when the two sizes together reach the capacity. -/
theorem bigintMul_overflow {a b : Bigint} (ha : a.Clean) (haB : a.BITS < 8 * (dataMaxlen - 1))
    (hfull : 8 * (dataMaxlen - 1) ≤ a.BITS + b.BITS) : bigintMul a b = .error 1 := by
  have hloop := Loops.foldlM_range_error (mulStep b) (MulInv a b.value)
    (n := 8 * (dataMaxlen - 1) - 1 - a.BITS) (m := b.BITS) _ 1 (mulInv_start ha b.value)
    (fun i st hi h => mulStep_ok ha (by omega) h) (fun st h => mulStep_full h (by omega)) (by omega)
  simp only [bigintMul]
  rw [hloop]
  rfl

/-- **`bigint_mul`** is exact while the two sizes together stay below the capacity. -/
theorem bigintMul_spec {a b : Bigint} (ha : a.Clean) (hb : b.Clean)
    (hcap : a.BITS + b.BITS < 8 * (dataMaxlen - 1)) :
    ∃ p, bigintMul a b = .ok p ∧ p.Clean ∧ p.num = a.num * b.num ∧
      p.BITS ≤ max 1 (a.BITS + b.BITS) := by
  obtain ⟨st, hloop, hinv⟩ := Loops.foldlM_range_ok (mulStep b) (MulInv a b.value) b.BITS
    _ (mulInv_start ha b.value) (fun i st hi h => mulStep_ok ha (by omega) h)
  refine ⟨st.1, ?_, hinv.pt_clean, ?_, hinv.pt_size⟩
  · simp only [bigintMul]
    rw [hloop, Loops.ok_bind, hinv.pt_clean.copy]
    rfl
  · rw [hinv.pt_num, hb.value_eq, Nat.mod_eq_of_lt hb.lt]

end Bigint
end Esp8266Toolbox
