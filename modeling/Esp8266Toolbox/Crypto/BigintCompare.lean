import Esp8266Toolbox.Crypto.BigintTheorems

/-!
# `bigint_cmp` with its `int32_t` counter

`bigintCmp` counts down from one more than the source does, so that its counter never goes below zero.
Here the counter is the source's: it starts at `BITS(i) - 1`, computed as a `size_t`, it is -1 for
numbers without bits and below that behind the last byte, and it is divided towards zero. Every
read of `data[]` is checked.

* `bigintCmpInt32_eq`: the comparison stays inside `data[]`, ends, and gives what `bigintCmp` gives;
* `bigintCmpInt32_exact`: for clean numbers that is the order of their values.
-/

namespace Esp8266Toolbox
namespace Bigint

/-! ## The comparison -/

/-- A `size_t` that is stored in an `int32_t`. -/
def int32 (n : ℕ) : ℤ := (n : ℤ).bmod (2 ^ 32)

/-- `data[n]`. -/
def dataAt (i : Bigint) (n : ℤ) : Except Fault UInt8 :=
  if 0 ≤ n ∧ n < dataMaxlen then .ok (i.data.get n.toNat) else .error .outOfBounds

/-- `BIT(i, k)` for an `int32_t`, which is compared with `BITS(i)` as a `size_t`. -/
def bitAt (i : Bigint) (k : ℤ) : Except Fault ℕ := do
  if (k % 2 ^ 32).toNat < i.BITS then
    let d ← i.dataAt (k.tdiv 8)
    return ((d >>> UInt8.ofNat (k.tmod 8).toNat) &&& 1).toNat
  else return 0

/-- `BITS(i) - 1`. -/
def topBit (i : Bigint) : ℤ := int32 ((i.BITS + (2 ^ 32 - 1)) % 2 ^ 32)

/-- The loop over the bits that only one operand has: `none` when one of them is set, otherwise the
counter behind the loop. -/
def cmpScanInt32 (i : Bigint) (lo : ℤ) : ℕ → ℤ → Except Fault (Option ℤ)
  | 0, _ => .error .outOfBounds
  | fuel + 1, k => do
    if k ≥ lo then
      if (← i.bitAt k) = 1 then return none
      else cmpScanInt32 i lo fuel (k - 1)
    else return some k

/-- The loop over the leading bits: the result, or the counter behind the loop. -/
def cmpBitsInt32 (i j : Bigint) : ℕ → ℤ → Except Fault (ℤ ⊕ ℤ)
  | 0, _ => .error .outOfBounds
  | fuel + 1, k => do
    if k.tmod 8 ≠ 0 ∧ k ≥ 0 then
      let l ← i.bitAt k
      let r ← j.bitAt k
      if l > r then return .inl 1
      else if l < r then return .inl (-1)
      else cmpBitsInt32 i j fuel (k - 1)
    else return .inr k

/-- The loop over the remaining bytes. -/
def cmpBytesInt32 (i j : Bigint) : ℕ → ℤ → Except Fault ℤ
  | 0, _ => .error .outOfBounds
  | fuel + 1, k => do
    if k.tdiv 8 ≥ 0 then
      let l ← i.dataAt (k.tdiv 8)
      let r ← j.dataAt (k.tdiv 8)
      if l > r then return 1
      else if l < r then return -1
      else cmpBytesInt32 i j fuel (k - 8)
    else return 0

/-- More passes than a loop over the bits of `data[]` makes. -/
def cmpPasses : ℕ := 8 * dataMaxlen + 1

/-- Both loops that compare bits and bytes. -/
def cmpFrom (i j : Bigint) (k : ℤ) : Except Fault ℤ := do
  match ← cmpBitsInt32 i j cmpPasses k with
  | .inl z => return z
  | .inr k => cmpBytesInt32 i j cmpPasses k

/-- `bigint_cmp`. -/
def bigintCmpInt32 (i j : Bigint) : Except Fault ℤ := do
  if i.BITS > j.BITS then
    match ← cmpScanInt32 i (int32 j.BITS) cmpPasses i.topBit with
    | none => return 1
    | some k => cmpFrom i j k
  else if i.BITS < j.BITS then
    match ← cmpScanInt32 j (int32 i.BITS) cmpPasses j.topBit with
    | none => return -1
    | some k => cmpFrom i j k
  else cmpFrom i j i.topBit

/-! ## The counter -/

theorem int32_eq {n : ℕ} (h : n < 2 ^ 31) : int32 n = n := by
  unfold int32
  rw [Int.bmod_eq_of_le (by omega) (by omega)]

/-- The counter is one less than the size, also for a number without bits. -/
theorem topBit_eq {i : Bigint} (h : i.BITS < 2 ^ 31) : i.topBit = (i.BITS : ℤ) - 1 := by
  unfold topBit
  by_cases hzero : i.BITS = 0
  · rw [hzero]
    decide
  · rw [show (i.BITS + (2 ^ 32 - 1)) % 2 ^ 32 = i.BITS - 1 by omega, int32_eq (by omega)]
    omega

theorem dataAt_eq {i : Bigint} {n : ℕ} (h : n < dataMaxlen) : i.dataAt n = .ok (i.data.get n) := by
  rw [dataAt, if_pos ⟨by omega, by omega⟩, Int.toNat_natCast]

/-- A bit below the size is read where `BIT` has it, and above the size nothing is read. -/
theorem bitAt_eq {i : Bigint} (hB : i.BITS ≤ 8 * dataMaxlen) {k : ℕ} (hk : k < 2 ^ 32) :
    i.bitAt k = .ok (i.BIT k) := by
  have hmod : ((k : ℤ) % 2 ^ 32).toNat = k := by omega
  rw [bitAt, BIT, hmod]
  by_cases hlt : k < i.BITS
  · rw [if_pos hlt, if_pos hlt, Int.tdiv_eq_ediv_of_nonneg (by omega), Int.tmod_eq_emod_of_nonneg (by omega)]
    have hdiv : (k : ℤ) / 8 = ((k / 8 : ℕ) : ℤ) := by omega
    have hrem : ((k : ℤ) % 8).toNat = k % 8 := by omega
    rw [hdiv, hrem, dataAt_eq (by omega)]
    rfl
  · rw [if_neg hlt, if_neg hlt]
    rfl

/-! ## The loops -/

/-- The scan reads bits of its number only, and is over when the counter is below `lo`. -/
theorem cmpScanInt32_eq {i : Bigint} (hB : i.BITS ≤ 8 * dataMaxlen) {lo : ℕ} (fuel n : ℕ) (hlo : lo ≤ n)
    (hn : n ≤ i.BITS) (hfuel : n < fuel) :
    cmpScanInt32 i lo fuel ((n : ℤ) - 1) = .ok (if cmpScan i lo n then none else some ((lo : ℤ) - 1)) := by
  induction n generalizing fuel with
  | zero =>
    rcases fuel with _ | fuel
    · omega
    have hzero : lo = 0 := by omega
    rw [cmpScanInt32, if_neg (by omega), hzero]
    rfl
  | succ n ih =>
    rcases fuel with _ | fuel
    · omega
    have hk : ((n + 1 : ℕ) : ℤ) - 1 = n := by omega
    rw [cmpScanInt32, cmpScan, hk]
    by_cases hle : lo ≤ n
    · have hbit : i.bitAt n = .ok (i.BIT n) := bitAt_eq hB (by unfold dataMaxlen at hB; omega)
      rw [if_pos (by omega), if_pos hle, hbit, Loops.ok_bind]
      by_cases hset : i.BIT n = 1
      · rw [if_pos hset, if_pos hset]
        rfl
      · rw [if_neg hset, if_neg hset]
        exact ih fuel hle (by omega) (by omega)
    · have hlo' : lo = n + 1 := by omega
      rw [if_neg (by omega), if_neg hle, hlo', hk]
      rfl

/-- The byte loop, from a whole byte or from the counter -1, for which C divides to byte 0 as well. -/
theorem cmpBytesInt32_eq (i j : Bigint) {m : ℕ} (hm : m < dataMaxlen) (fuel : ℕ) {k : ℤ}
    (hk : k = 8 * m ∨ (m = 0 ∧ k = -1)) (hfuel : m + 1 < fuel) :
    cmpBytesInt32 i j fuel k = .ok (cmpBytes i j m) := by
  induction m generalizing fuel k with
  | zero =>
    rcases fuel with _ | _ | fuel
    · omega
    · omega
    have hbyte : k.tdiv 8 = (0 : ℕ) := by
      rcases hk with rfl | ⟨-, rfl⟩ <;> rfl
    have hend : ¬(k - 8).tdiv 8 ≥ 0 := by
      rcases hk with rfl | ⟨-, rfl⟩ <;> decide
    rw [cmpBytesInt32, hbyte, if_pos (by omega), dataAt_eq hm, dataAt_eq hm, Loops.ok_bind, Loops.ok_bind, cmpBytes]
    by_cases h1 : i.data.get 0 > j.data.get 0
    · rw [if_pos h1, if_pos h1]
      rfl
    rw [if_neg h1, if_neg h1]
    by_cases h2 : i.data.get 0 < j.data.get 0
    · rw [if_pos h2, if_pos h2]
      rfl
    · -- the last byte: the counter goes below zero for good
      rw [if_neg h2, if_neg h2, cmpBytesInt32, if_neg hend]
      rfl
  | succ m ih =>
    rcases fuel with _ | fuel
    · omega
    have hk' : k = 8 * ((m + 1 : ℕ) : ℤ) := hk.resolve_right fun h => absurd h.1 (by omega)
    have hbyte : k.tdiv 8 = ((m + 1 : ℕ) : ℤ) := by
      rw [hk', Int.tdiv_eq_ediv_of_nonneg (by omega)]
      omega
    have hrest := ih (by omega) fuel (k := k - 8) (Or.inl (by omega)) (by omega)
    rw [cmpBytesInt32, hbyte, if_pos (by omega), dataAt_eq hm, dataAt_eq hm, Loops.ok_bind, Loops.ok_bind, cmpBytes,
      hrest]
    split_ifs <;> rfl

/-- The comparison of bits and bytes below the counter. -/
theorem cmpBitsInt32_eq {i j : Bigint} (hBi : i.BITS ≤ 8 * dataMaxlen) (hBj : j.BITS ≤ 8 * dataMaxlen)
    (fuel n : ℕ) (hn : n ≤ 8 * dataMaxlen) (hfuel : n < fuel) :
    (do match ← cmpBitsInt32 i j fuel ((n : ℤ) - 1) with
        | .inl z => return z
        | .inr k => cmpBytesInt32 i j cmpPasses k) = .ok (cmpBits i j n) := by
  have hpasses : dataMaxlen < cmpPasses := by decide
  induction n generalizing fuel with
  | zero =>
    rcases fuel with _ | fuel
    · omega
    rw [cmpBitsInt32, if_neg (by omega)]
    exact cmpBytesInt32_eq i j (by decide) cmpPasses (Or.inr ⟨rfl, rfl⟩) (by decide)
  | succ n ih =>
    rcases fuel with _ | fuel
    · omega
    have hk : ((n + 1 : ℕ) : ℤ) - 1 = n := by omega
    have hrem : (n : ℤ).tmod 8 = ((n % 8 : ℕ) : ℤ) := by
      rw [Int.tmod_eq_emod_of_nonneg (by omega)]
      omega
    rw [cmpBitsInt32, cmpBits, hk, hrem]
    by_cases hwhole : n % 8 = 0
    · -- the counter is at the lowest bit of a byte: the bytes are next
      have hbytes := cmpBytesInt32_eq i j (m := n / 8) (by omega) cmpPasses (k := n) (Or.inl (by omega)) (by omega)
      rw [if_neg (by omega), if_pos hwhole, pure_bind]
      exact hbytes
    · have hlt : n < 2 ^ 32 := by unfold dataMaxlen at hn; omega
      have hrest := ih fuel (by omega) (by omega)
      rw [if_pos ⟨by omega, by omega⟩, if_neg hwhole, bitAt_eq hBi hlt, bitAt_eq hBj hlt, Loops.ok_bind,
        Loops.ok_bind]
      split_ifs
      · rfl
      · rfl
      · exact hrest

/-- **The comparison of `bigint_cmp`** reads `data[]` inside its bounds only and ends, with the
result of `bigintCmp`. -/
theorem bigintCmpInt32_eq {i j : Bigint} (hBi : i.BITS ≤ 8 * dataMaxlen) (hBj : j.BITS ≤ 8 * dataMaxlen) :
    bigintCmpInt32 i j = .ok (bigintCmp i j) := by
  have hcap : 8 * dataMaxlen < 2 ^ 31 := by decide
  have hcmp : ∀ n ≤ 8 * dataMaxlen, cmpFrom i j ((n : ℤ) - 1) = .ok (cmpBits i j n) := fun n hn =>
    cmpBitsInt32_eq hBi hBj cmpPasses n hn (Nat.lt_succ_of_le hn)
  unfold bigintCmpInt32 bigintCmp
  rw [int32_eq (by omega : i.BITS < 2 ^ 31), int32_eq (by omega : j.BITS < 2 ^ 31),
    topBit_eq (by omega : i.BITS < 2 ^ 31), topBit_eq (by omega : j.BITS < 2 ^ 31)]
  by_cases h1 : i.BITS > j.BITS
  · rw [if_pos h1, if_pos h1, cmpScanInt32_eq hBi cmpPasses i.BITS (by omega) le_rfl (Nat.lt_succ_of_le hBi),
      Loops.ok_bind]
    by_cases hscan : cmpScan i j.BITS i.BITS = true
    · rw [if_pos hscan, if_pos hscan]
      rfl
    · rw [if_neg hscan, if_neg hscan]
      exact hcmp j.BITS hBj
  rw [if_neg h1, if_neg h1]
  by_cases h2 : i.BITS < j.BITS
  · rw [if_pos h2, if_pos h2, cmpScanInt32_eq hBj cmpPasses j.BITS (by omega) le_rfl (Nat.lt_succ_of_le hBj),
      Loops.ok_bind]
    by_cases hscan : cmpScan j i.BITS j.BITS = true
    · rw [if_pos hscan, if_pos hscan]
      rfl
    · rw [if_neg hscan, if_neg hscan]
      exact hcmp i.BITS hBi
  · rw [if_neg h2, if_neg h2]
    exact hcmp i.BITS hBi

/-- **`bigint_cmp`** is exact: on clean numbers of up to 1191 bits, of different sizes or without any
bits, it ends inside `data[]` with the order of their values. -/
theorem bigintCmpInt32_exact {i j : Bigint} (hi : i.Clean) (hj : j.Clean) (hBi : i.BITS ≤ 1191)
    (hBj : j.BITS ≤ 1191) : ∃ z, bigintCmpInt32 i j = .ok z ∧ IsCmp z i.value j.value := by
  have hcap : 1191 ≤ 8 * dataMaxlen := by decide
  refine ⟨bigintCmp i j, bigintCmpInt32_eq (hBi.trans hcap) (hBj.trans hcap), ?_⟩
  rw [hi.value_eq, hj.value_eq]
  exact bigintCmp_spec hi hj

/-- The number 5 in three bits, in 1191 bits, and no bits at all. -/
theorem bigintCmpInt32_exact_five :
    let short : Bigint := ⟨0, 3, (Buf.zero _).set 0 5, by decide⟩
    let long : Bigint := ⟨148, 7, (Buf.zero _).set 0 5, by decide⟩
    let none : Bigint := ⟨0, 0, Buf.zero _, by decide⟩
    (∃ z, bigintCmpInt32 short long = .ok z ∧ IsCmp z short.value long.value) ∧
      ∃ z, bigintCmpInt32 none long = .ok z ∧ IsCmp z none.value long.value := by
  intro short long none
  have hshort : short.Clean := by
    rw [clean_iff, num, num_first]
    decide
  have hlong : long.Clean := by
    rw [clean_iff, num, num_first]
    exact lt_of_lt_of_le (by decide : (5 : UInt8).toNat < 2 ^ 3) (Nat.pow_le_pow_right (by decide) (by decide))
  have hnone : none.Clean := by
    rw [clean_iff, num, Buf.num_zero]
    decide
  exact ⟨bigintCmpInt32_exact hshort hlong (by decide) (by decide),
    bigintCmpInt32_exact hnone hlong (by decide) (by decide)⟩

end Bigint
end Esp8266Toolbox
