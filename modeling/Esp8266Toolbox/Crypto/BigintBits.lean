import Mathlib.Data.List.GetD
import Esp8266Toolbox.Lib.Loops
import Esp8266Toolbox.Crypto.Bigint

/-!
# Bit-level specifications of the `bigint.c` macros

`num` is the number in the whole array, `value` the number in the lowest `BITS` bits, and
a `Bigint` is `Clean` when nothing is left above them. Each macro and each of the small
functions (`normalize`, `bigint_copy`, `bigint_iszero`) gets one lemma about `num`; later
files never unfold them again.
-/

namespace Esp8266Toolbox
namespace Bigint

/-! ## Values -/

/-- The number in the whole array. -/
def num (i : Bigint) : ℕ := i.data.num

/-- The number given by the lowest `BITS(i)` bits. -/
def value (i : Bigint) : ℕ := i.num % 2 ^ i.BITS

/-- Every bit of `data[]` at position `BITS(i)` or above is 0. -/
def Clean (i : Bigint) : Prop := ∀ n, i.BITS ≤ n → i.num.testBit n = false

theorem clean_iff (i : Bigint) : i.Clean ↔ i.num < 2 ^ i.BITS := lt_two_pow_iff_testBit.symm

theorem Clean.lt {i : Bigint} (h : i.Clean) : i.num < 2 ^ i.BITS := i.clean_iff.mp h

theorem Clean.value_eq {i : Bigint} (h : i.Clean) : i.value = i.num := Nat.mod_eq_of_lt h.lt

theorem value_lt (i : Bigint) : i.value < 2 ^ i.BITS := Nat.mod_lt _ (Nat.two_pow_pos _)

theorem num_lt (i : Bigint) : i.num < 2 ^ (8 * dataMaxlen) := i.data.num_lt

/-- Two clean numbers of the same size are the same object. -/
theorem eq_of_num {i j : Bigint} (hb : i.bytes = j.bytes) (hs : i.bits = j.bits)
    (hn : i.num = j.num) : i = j := by
  have hd : i.data = j.data := Buf.num_inj hn
  cases i; cases j
  simp_all

theorem BITS_eq_div_mod (i : Bigint) : i.bytes = i.BITS / 8 ∧ i.bits = i.BITS % 8 := by
  have := i.bits_lt
  unfold BITS
  omega

/-- `BIT(i, n)` is bit `n` of the value. -/
theorem BIT_eq (i : Bigint) (n : ℕ) : i.BIT n = (i.value.testBit n).toNat := by
  rw [value, Nat.testBit_mod_two_pow]
  unfold BIT
  by_cases hn : n < i.BITS
  · rw [if_pos hn, byte_shiftRight_and_one _ (Nat.mod_lt _ (by norm_num)), num, Buf.num_testBit]
    simp [hn]
  · simp [hn]

/-! ## `SET_BIT` and `CLR_BIT` -/

@[simp] theorem setBit_BITS (i : Bigint) (n : ℕ) : (i.setBit n).BITS = i.BITS := by
  unfold setBit; split <;> rfl

@[simp] theorem clrBit_BITS (i : Bigint) (n : ℕ) : (i.clrBit n).BITS = i.BITS := by
  unfold clrBit; split <;> rfl

theorem setBit_testBit {i : Bigint} {n : ℕ} (hn : n < i.BITS) (hcap : n < 8 * dataMaxlen) (k : ℕ) :
    (i.setBit n).num.testBit k = (decide (n = k) || i.num.testBit k) := by
  have hj : n / 8 < dataMaxlen := by omega
  unfold setBit num
  rw [if_pos hn, Buf.num_set_testBit _ hj, UInt8.toNat_or, Nat.testBit_or,
    byte_testBit_one_shift (Nat.mod_lt _ (by norm_num)), Buf.num_testBit]
  by_cases hk : k / 8 = n / 8
  · have hdec : (n % 8 = k % 8) ↔ (n = k) := by omega
    simp [hk, hdec, Bool.or_comm]
  · have hne : n ≠ k := fun e => hk (by rw [e])
    simp [hk, hne]

theorem clrBit_testBit {i : Bigint} {n : ℕ} (hn : n < i.BITS) (hcap : n < 8 * dataMaxlen) (k : ℕ) :
    (i.clrBit n).num.testBit k = (!decide (n = k) && i.num.testBit k) := by
  have hj : n / 8 < dataMaxlen := by omega
  have hk8 : k % 8 < 8 := Nat.mod_lt _ (by norm_num)
  unfold clrBit num
  rw [if_pos hn, Buf.num_set_testBit _ hj, UInt8.toNat_and, Nat.testBit_and,
    byte_testBit_not _ hk8, byte_testBit_one_shift (Nat.mod_lt _ (by norm_num)), Buf.num_testBit]
  by_cases hk : k / 8 = n / 8
  · have hdec : (n % 8 = k % 8) ↔ (n = k) := by omega
    simp [hk, hdec, Bool.and_comm]
  · have hne : n ≠ k := fun e => hk (by rw [e])
    simp [hk, hne]

/-- The residue of the number after a bit store at its top position. -/
theorem setBit_mod {i : Bigint} {n : ℕ} (hn : n < i.BITS) (hcap : n < 8 * dataMaxlen) :
    (i.setBit n).num % 2 ^ (n + 1) = i.num % 2 ^ n + 2 ^ n := by
  have hlow : (i.setBit n).num % 2 ^ n = i.num % 2 ^ n :=
    mod_two_pow_eq_of_testBit fun k hk => by
      rw [setBit_testBit hn hcap]; simp [show n ≠ k by omega]
  rw [mod_two_pow_succ, hlow, setBit_testBit hn hcap]
  simp

theorem clrBit_mod {i : Bigint} {n : ℕ} (hn : n < i.BITS) (hcap : n < 8 * dataMaxlen) :
    (i.clrBit n).num % 2 ^ (n + 1) = i.num % 2 ^ n := by
  have hlow : (i.clrBit n).num % 2 ^ n = i.num % 2 ^ n :=
    mod_two_pow_eq_of_testBit fun k hk => by
      rw [clrBit_testBit hn hcap]; simp [show n ≠ k by omega]
  rw [mod_two_pow_succ, hlow, clrBit_testBit hn hcap]
  simp

/-! ## `LEFT_SHIFT` -/

/-- The shifted byte takes bits `8j - 1 .. 8j + 6` when the carry is bit `8j - 1`. -/
theorem byte_shift_carry (x lb : UInt8) (c : Bool) (hlb : lb.toNat = c.toNat) {m : ℕ} (hm : m < 8) :
    ((x <<< 1) ||| lb).toNat.testBit m = if m = 0 then c else x.toNat.testBit (m - 1) := by
  have hx : x.toNat < 256 := x.toNat_lt
  have hsh : (x <<< (1 : UInt8)).toNat = x.toNat * 2 % 2 ^ 8 := by
    rw [UInt8.toNat_shiftLeft]
    simp [Nat.shiftLeft_eq]
  have hc : ∀ k, c.toNat.testBit k = (decide (k = 0) && c) := by
    intro k
    cases c
    · simp
    · have h1 : (true.toNat) = 2 ^ 0 := rfl
      rw [h1, Nat.testBit_two_pow]
      simp [eq_comm]
  rw [UInt8.toNat_or, Nat.testBit_or, hsh, hlb, hc, Nat.testBit_mod_two_pow]
  rcases m with _ | m
  · simp
  · have hdbl : x.toNat * 2 = 2 ^ 1 * x.toNat + 0 := by ring
    rw [hdbl, Nat.testBit_two_pow_mul_add _ (by norm_num)]
    simp [hm]

/-- All bytes `0 .. bytes` move up by one bit. -/
theorem leftShiftData_testBit (i : Bigint) (hb : i.bytes < dataMaxlen) (k : ℕ) :
    i.leftShiftData.num.testBit k =
      if k < 8 * (i.bytes + 1) then (decide (k ≠ 0) && i.num.testBit (k - 1))
      else i.num.testBit k := by
  -- after byte `j - 1` the low `8j` bits have moved and the carry is bit `8j - 1`
  let Inv : ℕ → Buf dataMaxlen × UInt8 → Prop := fun j st =>
    (∀ k, st.1.num.testBit k =
      if k < 8 * j then (decide (k ≠ 0) && i.num.testBit (k - 1)) else i.num.testBit k) ∧
    st.2.toNat = (decide (j ≠ 0) && i.num.testBit (8 * j - 1)).toNat
  suffices h : Inv (i.bytes + 1)
      ((List.range (i.bytes + 1)).foldl leftShiftByte (i.data, 0)) from h.1 k
  apply Loops.foldl_range_inv leftShiftByte Inv
  · exact ⟨fun k => by simp [num], by simp⟩
  intro j st hj hst
  obtain ⟨hbits, hcarry⟩ := hst
  have hget : ∀ m < 8, (st.1.get j).toNat.testBit m = i.num.testBit (8 * j + m) := by
    intro m hm
    have h := hbits (8 * j + m)
    rw [Buf.num_testBit, show (8 * j + m) / 8 = j by omega, show (8 * j + m) % 8 = m by omega] at h
    rw [h, if_neg (by omega)]
  refine ⟨fun k => ?_, ?_⟩
  · simp only [leftShiftByte]
    rw [Buf.num_set_testBit _ (by omega)]
    by_cases hk : k / 8 = j
    · have hlt : k < 8 * (j + 1) := by omega
      rw [if_pos hk, byte_shift_carry _ _ _ hcarry (Nat.mod_lt _ (by norm_num)), if_pos hlt]
      by_cases hk0 : k % 8 = 0
      · have hk' : k = 8 * j := by omega
        subst hk'
        simp
      · rw [if_neg hk0, hget _ (by omega), show 8 * j + (k % 8 - 1) = k - 1 by omega]
        simp [show k ≠ 0 by omega]
    · rw [if_neg hk, hbits k]
      by_cases hlt : k < 8 * j
      · rw [if_pos hlt, if_pos (by omega)]
      · rw [if_neg hlt, if_neg (by omega)]
  · simp only [leftShiftByte]
    rw [show (7 : UInt8) = UInt8.ofNat 7 from rfl, byte_shiftRight_and_one _ (by norm_num),
      hget 7 (by norm_num), show 8 * (j + 1) - 1 = 8 * j + 7 by omega]
    simp

/-- The data of a clean number doubles. -/
theorem leftShiftData_num {i : Bigint} (hc : i.Clean) (hb : i.bytes < dataMaxlen) :
    i.leftShiftData.num = 2 * i.num := by
  have hbits := i.bits_lt
  have hB : i.BITS < 8 * (i.bytes + 1) := by unfold BITS; omega
  apply Nat.eq_of_testBit_eq
  intro k
  rw [leftShiftData_testBit i hb, show 2 * i.num = 2 ^ 1 * i.num + 0 by ring,
    Nat.testBit_two_pow_mul_add _ (by norm_num)]
  by_cases hk : k < 8 * (i.bytes + 1)
  · rw [if_pos hk]
    by_cases hk0 : k = 0
    · simp [hk0]
    · simp [hk0]
  · rw [if_neg hk, if_neg (by omega), hc k (by omega), hc (k - 1) (by omega)]

/-- `LEFT_SHIFT` of a clean number that stays below the capacity. -/
theorem leftShift_ok {i : Bigint} (hc : i.Clean) (hcap : i.BITS + 1 < 8 * (dataMaxlen - 1)) :
    ∃ j, i.leftShift = .ok j ∧ j.BITS = i.BITS + 1 ∧ j.num = 2 * i.num ∧ j.Clean := by
  have hbits := i.bits_lt
  have hb : i.bytes < dataMaxlen := by unfold BITS at hcap; unfold dataMaxlen at *; omega
  have hnum := leftShiftData_num hc hb
  have hlt : 2 * i.num < 2 ^ (i.BITS + 1) := by
    have := hc.lt
    rw [pow_succ]; omega
  unfold leftShift
  by_cases h8 : i.bits + 1 = 8
  · have hov : ¬(i.bytes + 1 ≥ dataMaxlen - 1) := by unfold BITS at hcap; omega
    have hB : (i.bytes + 1) * 8 + 0 = i.BITS + 1 := by unfold BITS; omega
    simp only [h8, hov, dif_pos, if_false]
    refine ⟨_, rfl, hB, hnum, ?_⟩
    rw [clean_iff]
    exact (congrArg₂ (· < 2 ^ ·) hnum hB).mpr hlt
  · have hB : i.bytes * 8 + (i.bits + 1) = i.BITS + 1 := by unfold BITS; omega
    simp only [h8, dif_neg, not_false_eq_true]
    refine ⟨_, rfl, hB, hnum, ?_⟩
    rw [clean_iff]
    exact (congrArg₂ (· < 2 ^ ·) hnum hB).mpr hlt

/-- `LEFT_SHIFT` reports an overflow when the size reaches `8 * (DATA_MAXLEN - 1)`. -/
theorem leftShift_overflow {i : Bigint} (hcap : i.BITS + 1 = 8 * (dataMaxlen - 1)) :
    i.leftShift = .error 1 := by
  have hbits := i.bits_lt
  have h8 : i.bits + 1 = 8 := by unfold BITS dataMaxlen at hcap; omega
  have hov : i.bytes + 1 ≥ dataMaxlen - 1 := by unfold BITS at hcap; omega
  unfold leftShift
  simp [h8, hov]

/-! ## `TWOS_COMP` -/

@[simp] theorem invert_BITS (i : Bigint) : i.invert.BITS = i.BITS := rfl

/-- The byte loop of the complement flips the bits of the whole bytes. -/
theorem foldl_not_get (d : Buf dataMaxlen) {m : ℕ} (hm : m ≤ dataMaxlen) (j : ℕ) :
    ((List.range m).foldl (fun (d : Buf dataMaxlen) j => d.set j (~~~d.get j)) d).get j =
      if j < m then ~~~d.get j else d.get j := by
  let Inv : ℕ → Buf dataMaxlen → Prop := fun m d' =>
    ∀ j, d'.get j = if j < m then ~~~d.get j else d.get j
  refine Loops.foldl_range_inv (fun (d : Buf dataMaxlen) j => d.set j (~~~d.get j)) Inv m d
    (fun j => by simp) ?_ j
  intro k d' hk hd' j
  rw [Buf.get_set, hd' k, hd' j]
  by_cases hkj : k = j
  · subst hkj
    simp [show k < dataMaxlen by omega]
  · by_cases hj : j < k
    · simp [hkj, hj, show j < k + 1 by omega]
    · simp [hkj, hj, show ¬j < k + 1 by omega]

/-- The bytes of the complement. -/
theorem invert_get (i : Bigint) (hbytes : i.bytes ≤ dataMaxlen) {j : ℕ} (hj : j < dataMaxlen) :
    i.invert.data.get j =
      if j < i.bytes then ~~~i.data.get j
      else if j = i.bytes ∧ 0 < i.bits then ~~~i.data.get j &&& i.mask
      else i.data.get j := by
  simp only [invert]
  by_cases hpos : i.bits > 0
  · rw [if_pos hpos, Buf.get_set, foldl_not_get _ hbytes, foldl_not_get _ hbytes]
    by_cases hje : i.bytes = j
    · subst hje; simp [hj, hpos]
    · simp [hje, show j ≠ i.bytes from fun e => hje e.symm]
  · rw [if_neg hpos, foldl_not_get _ hbytes]
    simp [hpos]

/-- The complement of a clean number within its `BITS` bits. -/
theorem invert_testBit {i : Bigint} (hc : i.Clean) (hcap : i.BITS ≤ 8 * dataMaxlen) (k : ℕ) :
    i.invert.num.testBit k = (decide (k < i.BITS) && !i.num.testBit k) := by
  have hbits := i.bits_lt
  have hB : i.BITS = 8 * i.bytes + i.bits := by unfold BITS; omega
  have hk8 : k % 8 < 8 := Nat.mod_lt _ (by norm_num)
  have hnum : i.num.testBit k = (i.data.get (k / 8)).toNat.testBit (k % 8) := Buf.num_testBit _ _
  by_cases hkcap : k / 8 < dataMaxlen
  swap
  · rw [num, Buf.num_testBit, Buf.get_of_le _ (by omega)]
    simp [show ¬k < i.BITS by omega]
  rw [num, Buf.num_testBit, invert_get i (by omega) hkcap]
  by_cases hlt : k / 8 < i.bytes
  · rw [if_pos hlt, byte_testBit_not _ hk8, hnum]
    simp [show k < i.BITS by omega]
  rw [if_neg hlt]
  by_cases hpart : k / 8 = i.bytes ∧ 0 < i.bits
  · have hdec : (k % 8 < i.bits) ↔ (k < i.BITS) := by omega
    rw [if_pos hpart, UInt8.toNat_and, Nat.testBit_and, byte_testBit_not _ hk8, mask,
      byte_testBit_mask hbits, hnum]
    simp [hdec, Bool.and_comm]
  · rw [if_neg hpart, ← hnum, hc k (by omega)]
    simp [show ¬k < i.BITS by omega]

theorem invert_num {i : Bigint} (hc : i.Clean) (hcap : i.BITS ≤ 8 * dataMaxlen) :
    i.invert.num = 2 ^ i.BITS - (i.num + 1) := by
  apply Nat.eq_of_testBit_eq
  intro k
  rw [invert_testBit hc hcap, Nat.testBit_two_pow_sub_succ hc.lt]

/-- `SET_BIT` on a clear bit. -/
theorem setBit_num {i : Bigint} {n : ℕ} (hn : n < i.BITS) (hcap : n < 8 * dataMaxlen)
    (h0 : i.num.testBit n = false) : (i.setBit n).num = i.num + 2 ^ n :=
  eq_add_two_pow_of_testBit h0 (setBit_testBit hn hcap)

/-- `CLR_BIT` on a set bit. -/
theorem clrBit_num {i : Bigint} {n : ℕ} (hn : n < i.BITS) (hcap : n < 8 * dataMaxlen)
    (h1 : i.num.testBit n = true) : (i.clrBit n).num + 2 ^ n = i.num := by
  refine (eq_add_two_pow_of_testBit (by rw [clrBit_testBit hn hcap]; simp) fun k => ?_).symm
  rw [clrBit_testBit hn hcap]
  by_cases hk : n = k
  · subst hk; simp [h1]
  · simp [hk]

/-- Clearing the bits `k - 1 .. 0` of a number whose low `k` bits are all set. -/
theorem clrBit_foldl (k : ℕ) (i : Bigint) (hk : k ≤ i.BITS) (hcap : k ≤ 8 * dataMaxlen)
    (hlow : ∀ j < k, i.num.testBit j = true) :
    ((List.range k).reverse.foldl clrBit i).BITS = i.BITS ∧
      ((List.range k).reverse.foldl clrBit i).num + (2 ^ k - 1) = i.num := by
  induction k generalizing i with
  | zero => simp
  | succ k ih =>
    have hstep := clrBit_num (n := k) (by omega) (by omega) (hlow k (by omega))
    have hrest : ∀ j < k, (i.clrBit k).num.testBit j = true := by
      intro j hj
      rw [clrBit_testBit (by omega) (by omega), hlow j (by omega)]
      simp [show k ≠ j by omega]
    obtain ⟨hB, hnum⟩ := ih (i.clrBit k) (by rw [clrBit_BITS]; omega) (by omega) hrest
    have hpos := Nat.two_pow_pos k
    rw [List.range_succ, List.reverse_append]
    simp only [List.reverse_cons, List.reverse_nil, List.nil_append, List.singleton_append,
      List.foldl_cons]
    refine ⟨by rw [hB, clrBit_BITS], ?_⟩
    rw [pow_succ]
    omega

/-- The increment from bit `k`, when the bits below `k` are all set. -/
theorem increment_spec (i : Bigint) (n k : ℕ) (hnk : n + k = i.BITS)
    (hcap : i.BITS ≤ 8 * dataMaxlen) (hlow : ∀ j < k, i.num.testBit j = true)
    (hmax : i.num + 1 < 2 ^ i.BITS) :
    (i.increment k n).BITS = i.BITS ∧ (i.increment k n).num = i.num + 1 := by
  induction n generalizing k with
  | zero =>
    -- all bits set contradicts `hmax`
    have hk : k = i.BITS := by omega
    have hmod : i.num % 2 ^ k = (2 ^ k - 1) % 2 ^ k :=
      mod_two_pow_eq_of_testBit fun j hj => by
        rw [hlow j hj, Nat.testBit_two_pow_sub_one]; simp [hj]
    have hpos := Nat.two_pow_pos k
    rw [hk] at hmod hpos
    rw [Nat.mod_eq_of_lt (by omega), Nat.mod_eq_of_lt (by omega)] at hmod
    omega
  | succ n ih =>
    have hkB : k < i.BITS := by omega
    have hbit : i.value.testBit k = i.num.testBit k := by
      rw [value, Nat.testBit_mod_two_pow]; simp [hkB]
    rw [increment]
    by_cases h0 : i.BIT k = 0
    · rw [if_pos h0]
      have hclr : i.num.testBit k = false := by
        rw [BIT_eq, hbit] at h0
        simpa using h0
      have hset := setBit_num hkB (by omega) hclr
      have hrest : ∀ j < k, (i.setBit k).num.testBit j = true := by
        intro j hj
        rw [setBit_testBit hkB (by omega), hlow j hj]
        simp
      obtain ⟨hB, hnum⟩ := clrBit_foldl k (i.setBit k) (by rw [setBit_BITS]; omega) (by omega) hrest
      have hpos := Nat.two_pow_pos k
      refine ⟨by rw [hB, setBit_BITS], ?_⟩
      omega
    · rw [if_neg h0]
      have hset : i.num.testBit k = true := by
        rw [BIT_eq, hbit] at h0
        simpa using h0
      apply ih (k + 1) (by omega)
      intro j hj
      by_cases hjk : j = k
      · rw [hjk, hset]
      · exact hlow j (by omega)

/-- `TWOS_COMP` of a clean nonzero number. -/
theorem twosComp_spec {i : Bigint} (hc : i.Clean) (hcap : i.BITS ≤ 8 * dataMaxlen)
    (h0 : i.num ≠ 0) :
    i.twosComp.BITS = i.BITS ∧ i.twosComp.num = 2 ^ i.BITS - i.num ∧ i.twosComp.Clean := by
  have hlt := hc.lt
  have hinv := invert_num hc hcap
  obtain ⟨hB, hnum⟩ := increment_spec i.invert i.BITS 0 (by simp) (by simpa using hcap)
    (by simp) (by rw [hinv, invert_BITS]; omega)
  have hval : i.twosComp.num = 2 ^ i.BITS - i.num := by
    rw [twosComp, hnum, hinv]; omega
  refine ⟨by rw [twosComp, hB, invert_BITS], hval, ?_⟩
  rw [clean_iff, hval, twosComp, hB, invert_BITS]
  omega

/-! ## The bytes of the value -/

/-- Byte `j` of the value: the partial byte is masked and nothing follows it. -/
def valueByte (i : Bigint) (j : ℕ) : UInt8 :=
  if j < i.bytes then i.data.get j
  else if j = i.bytes ∧ 0 < i.bits then i.data.get j &&& i.mask
  else 0

theorem value_testBit (i : Bigint) (k : ℕ) :
    i.value.testBit k = (i.valueByte (k / 8)).toNat.testBit (k % 8) := by
  have hbits := i.bits_lt
  have hB : i.BITS = 8 * i.bytes + i.bits := by unfold BITS; omega
  rw [value, Nat.testBit_mod_two_pow, num, Buf.num_testBit, valueByte]
  by_cases hlt : k / 8 < i.bytes
  · simp [hlt, show k < i.BITS by omega]
  by_cases hpart : k / 8 = i.bytes ∧ 0 < i.bits
  · have hdec : (k % 8 < i.bits) ↔ (k < i.BITS) := by omega
    rw [if_neg hlt, if_pos hpart, UInt8.toNat_and, Nat.testBit_and, mask, byte_testBit_mask hbits]
    simp [hdec, Bool.and_comm]
  · rw [if_neg hlt, if_neg hpart]
    simp [show ¬k < i.BITS by omega]

/-- An array that holds the bytes of the value denotes the value. -/
theorem num_eq_value {i : Bigint} {d : Buf dataMaxlen} (h : ∀ j, d.get j = i.valueByte j) :
    d.num = i.value :=
  Buf.num_eq_of_testBit fun k => by rw [h, value_testBit]

/-- Above the array there is nothing to mask. -/
theorem valueByte_of_le (i : Bigint) {j : ℕ} (hj : dataMaxlen ≤ j) : i.valueByte j = 0 := by
  unfold valueByte
  rw [Buf.get_of_le _ hj]
  simp

/-! ## `bigint_copy` and `bigint_iszero` -/

theorem bigintCopy_get (s : Bigint) (j : ℕ) : (bigintCopy s).data.get j = s.valueByte j := by
  have hlen := s.data.length_toList
  by_cases hj : j < dataMaxlen
  swap
  · rw [valueByte_of_le _ (by omega), Buf.get_of_le _ (by omega)]
  have hcopy : ∀ u, ((Buf.zero dataMaxlen).memcpy 0 (s.data.toList.take u)).get j =
      if j < u then s.data.get j else 0 := by
    intro u
    rw [Buf.get_memcpy, if_pos hj]
    by_cases hu : j < u
    · simp [hu, hlen, hj, Buf.get, List.getD_eq_getElem?_getD]
    · simp [hu]
  simp only [bigintCopy, valueByte]
  by_cases hpos : s.bits > 0
  · rw [if_pos hpos, if_pos hpos, Buf.get_set]
    by_cases hje : s.bytes = j
    · subst hje
      rw [hcopy]
      simp [hj, hpos]
    · rw [if_neg (by simp [hje]), hcopy]
      by_cases hlt : j < s.bytes
      · simp [hlt, show j < s.bytes + 1 by omega]
      · simp [hlt, show ¬j < s.bytes + 1 by omega, show j ≠ s.bytes from fun e => hje e.symm]
  · rw [if_neg hpos, if_neg hpos, hcopy]
    simp [hpos]

/-- `bigint_copy` keeps the size and writes the value. -/
theorem bigintCopy_spec (s : Bigint) :
    (bigintCopy s).BITS = s.BITS ∧ (bigintCopy s).num = s.value ∧ (bigintCopy s).Clean := by
  have hB : (bigintCopy s).BITS = s.BITS := rfl
  have hnum : (bigintCopy s).num = s.value := num_eq_value (bigintCopy_get s)
  refine ⟨hB, hnum, ?_⟩
  rw [clean_iff, hnum, hB]
  exact s.value_lt

/-- A copy of a clean number is the number itself. -/
theorem Clean.copy {s : Bigint} (hc : s.Clean) : bigintCopy s = s := by
  obtain ⟨-, hnum, -⟩ := bigintCopy_spec s
  exact eq_of_num rfl rfl (by rw [hnum, hc.value_eq])

theorem bigintIszero_iff (i : Bigint) : bigintIszero i = true ↔ i.value = 0 := by
  -- the value is read off byte by byte, the partial byte with its mask
  have hval : i.value = 0 ↔ ∀ j, i.valueByte j = 0 := by
    constructor
    · intro h j
      apply UInt8.toNat_inj.mp
      apply Nat.eq_of_testBit_eq
      intro m
      by_cases hm : m < 8
      · have hb := value_testBit i (8 * j + m)
        rw [h, show (8 * j + m) / 8 = j by omega, show (8 * j + m) % 8 = m by omega] at hb
        simpa using hb.symm
      · rw [byte_testBit_ge _ (by omega)]
        simp
    · intro h
      apply Nat.eq_of_testBit_eq
      intro k
      rw [value_testBit, h]
      simp
  rw [hval]
  simp only [bigintIszero, Bool.and_eq_true, List.all_eq_true, List.mem_range, Bool.or_eq_true,
    beq_iff_eq, valueByte]
  constructor
  · rintro ⟨hall, hpart⟩ j
    split_ifs with h1 h2
    · exact hall j h1
    · obtain ⟨rfl, hpos⟩ := h2
      exact hpart.resolve_left (by omega)
    · rfl
  · intro h
    refine ⟨fun j hj => by simpa [hj] using h j, ?_⟩
    by_cases hpos : i.bits = 0
    · exact Or.inl hpos
    · exact Or.inr (by simpa [show 0 < i.bits by omega] using h i.bytes)

theorem bigintIszero_eq_false {i : Bigint} (h : i.value ≠ 0) : bigintIszero i = false :=
  Bool.eq_false_iff.mpr fun hz => h ((bigintIszero_iff i).mp hz)

/-! ## `normalize` -/

/-- The size is no larger than the bytes of the value require: the top byte of the size is
nonzero, or the number is a one-bit zero. -/
def Tight (i : Bigint) : Prop :=
  (i.BITS = 1 ∧ i.num = 0) ∨ (0 < i.BITS ∧ 2 ^ (8 * ((i.BITS - 1) / 8)) ≤ i.num)

theorem cleanup_get (i : Bigint) (j : ℕ) : (cleanup i).get j = i.valueByte j := by
  by_cases hj : j < dataMaxlen
  swap
  · rw [valueByte_of_le _ (by omega), Buf.get_of_le _ (by omega)]
  unfold cleanup
  rw [Buf.get_memcpy, if_pos hj, List.length_replicate, valueByte]
  by_cases hpos : i.bits > 0
  · simp only [hpos, if_true]
    by_cases hge : i.bytes + 1 ≤ j
    · rw [if_pos (by omega), if_neg (by omega), if_neg (by omega)]
      rw [List.getD_eq_getElem?_getD, List.getElem?_getD_replicate_default_eq]
    · rw [if_neg (by omega), Buf.get_set]
      by_cases hje : i.bytes = j
      · subst hje; simp [hj]
      · simp [hje, show j < i.bytes by omega]
  · simp only [hpos, if_false]
    by_cases hge : i.bytes ≤ j
    · rw [if_pos (by omega), if_neg (by omega), if_neg (by simp)]
      rw [List.getD_eq_getElem?_getD, List.getElem?_getD_replicate_default_eq]
    · simp [show j < i.bytes by omega, show ¬i.bytes ≤ j by omega]

theorem cleanup_num (i : Bigint) : (cleanup i).num = i.value := num_eq_value (cleanup_get i)

@[simp] theorem normalize_num (i : Bigint) : (normalize i).num = i.value := by
  rw [← cleanup_num]
  simp only [normalize]
  split_ifs <;> rfl

/-- `topByte` stops at the highest nonzero byte. -/
theorem topByte_spec (d : Buf dataMaxlen) (n : ℕ) :
    topByte d n ≤ n ∧ (∀ j, topByte d n ≤ j → j < n → d.get j = 0) ∧
      (topByte d n ≠ 0 → d.get (topByte d n - 1) ≠ 0) := by
  induction n with
  | zero => simp [topByte]
  | succ n ih =>
    obtain ⟨hle, hzero, htop⟩ := ih
    rw [topByte]
    by_cases h : d.get n ≠ 0
    · rw [if_pos h]
      refine ⟨le_refl _, fun j h1 h2 => by omega, fun _ => ?_⟩
      simpa using h
    · rw [if_neg h]
      refine ⟨by omega, fun j h1 h2 => ?_, htop⟩
      by_cases hj : j = n
      · subst hj; simpa using h
      · exact hzero j h1 (by omega)

/-- A nonzero byte bounds the number from below. -/
theorem le_num_of_get {d : Buf dataMaxlen} {j : ℕ} (h : d.get j ≠ 0) : 2 ^ (8 * j) ≤ d.num := by
  by_contra hlt
  apply h
  apply UInt8.toNat_inj.mp
  apply Nat.eq_of_testBit_eq
  intro m
  by_cases hm : m < 8
  · have hb := d.num_testBit (8 * j + m)
    rw [show (8 * j + m) / 8 = j by omega, show (8 * j + m) % 8 = m by omega] at hb
    rw [← hb, Nat.testBit_eq_false_of_lt
      (Nat.lt_of_lt_of_le (Nat.lt_of_not_le hlt) (Nat.pow_le_pow_right (by norm_num) (by omega)))]
    simp
  · rw [byte_testBit_ge _ (by omega)]
    simp

/-- Zero bytes from `t` on bound the number from above. -/
theorem num_lt_of_get {d : Buf dataMaxlen} {t : ℕ} (h : ∀ j, t ≤ j → d.get j = 0) :
    d.num < 2 ^ (8 * t) := by
  apply Nat.lt_pow_two_of_testBit
  intro k hk
  rw [Buf.num_testBit, h _ (by omega)]
  simp

/-- `normalize` keeps the value, leaves the number clean, and shrinks the size to the bytes
the value needs. -/
theorem normalize_spec (i : Bigint) :
    (normalize i).Clean ∧ (normalize i).Tight ∧ (normalize i).BITS ≤ max 1 i.BITS := by
  have hbits := i.bits_lt
  have hnum := normalize_num i
  have hlt := i.value_lt
  obtain ⟨hle, hzero, htop⟩ := topByte_spec (cleanup i) i.bytes
  by_cases hkeep : i.bits > 0 ∧ (cleanup i).get i.bytes &&& i.mask ≠ 0
  · -- the partial byte has a bit set: the size stays
    have heq : normalize i = { i with data := cleanup i } := by
      simp only [normalize]; rw [if_pos hkeep]
    have hB : (normalize i).BITS = i.BITS := by rw [heq]; rfl
    have hne : (cleanup i).get i.bytes ≠ 0 := fun h => hkeep.2 (by rw [h]; simp)
    refine ⟨?_, Or.inr ⟨?_, ?_⟩, ?_⟩
    · rw [clean_iff, hnum, hB]; exact hlt
    · rw [hB, BITS]; omega
    · have hdiv : (i.BITS - 1) / 8 = i.bytes := by unfold BITS; omega
      rw [hB, hdiv, hnum, ← cleanup_num]
      exact le_num_of_get hne
    · rw [hB]; exact Nat.le_max_right _ _
  · -- every byte from the top one on is 0
    have hall : ∀ j, topByte (cleanup i) i.bytes ≤ j → (cleanup i).get j = 0 := by
      intro j hj
      by_cases hjb : j < i.bytes
      · exact hzero j hj hjb
      rw [cleanup_get]
      unfold valueByte
      rw [if_neg hjb]
      by_cases hpart : j = i.bytes ∧ 0 < i.bits
      · rw [if_pos hpart]
        have hz : (cleanup i).get i.bytes &&& i.mask = 0 := by
          by_contra hne; exact hkeep ⟨hpart.2, hne⟩
        have hval : (cleanup i).get i.bytes = i.data.get i.bytes &&& i.mask := by
          rw [cleanup_get]; simp [valueByte, hpart.2]
        rw [hval, UInt8.and_assoc, UInt8.and_self] at hz
        rw [hpart.1, hz]
      · rw [if_neg hpart]
    have hub := num_lt_of_get hall
    by_cases ht : topByte (cleanup i) i.bytes = 0
    · -- nothing is set: the number 0 has one bit
      have hB : (normalize i).BITS = 1 := by
        simp only [normalize]; rw [if_neg hkeep, if_pos ht]; rfl
      have hz : (normalize i).num = 0 := by
        rw [hnum, ← cleanup_num]; rw [ht] at hub; simpa using hub
      refine ⟨?_, Or.inl ⟨hB, hz⟩, ?_⟩
      · rw [clean_iff, hz]; exact Nat.two_pow_pos _
      · rw [hB]; exact Nat.le_max_left _ _
    · have hB : (normalize i).BITS = 8 * topByte (cleanup i) i.bytes := by
        simp only [normalize]; rw [if_neg hkeep, if_neg ht]; unfold BITS; simp only; omega
      refine ⟨?_, Or.inr ⟨?_, ?_⟩, ?_⟩
      · rw [clean_iff, hB, hnum, ← cleanup_num]; exact hub
      · rw [hB]; omega
      · rw [hB, hnum, ← cleanup_num,
          show (8 * topByte (cleanup i) i.bytes - 1) / 8 = topByte (cleanup i) i.bytes - 1 by omega]
        exact le_num_of_get (htop ht)
      · rw [hB]; unfold BITS; omega

@[simp] theorem bigintZero_num : bigintZero.num = 0 := Buf.num_zero

@[simp] theorem bigintZero_BITS : bigintZero.BITS = 1 := rfl

theorem bigintZero_clean : bigintZero.Clean := fun n _ => by simp

/-- The one that `bigint_expmod` starts with. -/
theorem bigintOne_num : (bigintZero.setBit 0).num = 1 := by
  rw [setBit_num (by simp) (by unfold dataMaxlen; norm_num) (by simp)]
  simp

theorem bigintOne_clean : (bigintZero.setBit 0).Clean := by
  rw [clean_iff, bigintOne_num, setBit_BITS, bigintZero_BITS]
  norm_num

theorem num_first (v : UInt8) : ((Buf.zero dataMaxlen).set 0 v).num = v.toNat := by
  have hbytes : ((Buf.zero dataMaxlen).set 0 v).toList = v :: List.replicate 149 0 := rfl
  rw [Buf.num, hbytes, leNat, leNat_replicate_zero, Nat.mul_zero, Nat.add_zero]

end Bigint
end Esp8266Toolbox
