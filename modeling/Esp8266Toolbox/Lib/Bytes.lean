import Mathlib.Data.Nat.Digits.Defs
import Mathlib.Data.Nat.Bitwise
import Mathlib.Tactic.Ring
import Mathlib.Tactic.IntervalCases
import Mathlib.Tactic.Linarith

/-!
# Byte strings as numbers, and fixed-size byte arrays

* `leNat`, the number a little-endian byte string denotes, and `leNat_testBit`, which
  reads its bits off the bytes;
* `Buf n`, a C array `uint8_t buf[n]`: a byte list that carries its own length;
* the byte and block updates of such an array (`Buf.set`, `Buf.memcpy`).
-/

namespace Esp8266Toolbox

-- `decide` checks the characters of a text one by one, instead of all 256 bytes
instance decidableBytes (bs : List UInt8) (p : UInt8 → Prop) [DecidablePred p] :
    Decidable (∀ b ∈ bs, p b) :=
  List.decidableBAll p bs

/-! ## Little-endian values -/

/-- The number denoted by a byte string, least significant byte first. -/
def leNat : List UInt8 → ℕ
  | [] => 0
  | b :: bs => b.toNat + 256 * leNat bs

/-- The number denoted by a byte string, most significant byte first. -/
def beNat (bs : List UInt8) : ℕ := leNat bs.reverse

theorem leNat_lt (bs : List UInt8) : leNat bs < 2 ^ (8 * bs.length) := by
  induction bs with
  | nil => simp [leNat]
  | cons b bs ih =>
    have hb : b.toNat < 256 := b.toNat_lt
    have hpow : 2 ^ (8 * (b :: bs).length) = 256 * 2 ^ (8 * bs.length) := by
      rw [List.length_cons, Nat.mul_succ, pow_add]; ring
    rw [leNat, hpow]
    omega

/-- Bit `k` of a little-endian number is bit `k % 8` of byte `k / 8`. -/
theorem leNat_testBit (bs : List UInt8) (k : ℕ) :
    (leNat bs).testBit k = (bs.getD (k / 8) 0).toNat.testBit (k % 8) := by
  induction bs generalizing k with
  | nil => simp [leNat]
  | cons b bs ih =>
    have hb : b.toNat < 2 ^ 8 := b.toNat_lt
    have hcons : leNat (b :: bs) = 2 ^ 8 * leNat bs + b.toNat := by rw [leNat]; ring
    rw [hcons, Nat.testBit_two_pow_mul_add _ hb]
    by_cases hk : k < 8
    · simp [hk, Nat.div_eq_of_lt hk, Nat.mod_eq_of_lt hk]
    · have hdiv : k / 8 = (k - 8) / 8 + 1 := by omega
      have hmod : (k - 8) % 8 = k % 8 := by omega
      simp only [hk, if_false]
      rw [ih (k - 8), hdiv, hmod, List.getD_cons_succ]

theorem leNat_append (xs ys : List UInt8) :
    leNat (xs ++ ys) = leNat xs + 2 ^ (8 * xs.length) * leNat ys := by
  induction xs with
  | nil => simp [leNat]
  | cons x xs ih =>
    have hpow : 2 ^ (8 * (x :: xs).length) = 256 * 2 ^ (8 * xs.length) := by
      rw [List.length_cons, Nat.mul_succ, pow_add]; ring
    rw [List.cons_append, leNat, leNat, ih, hpow]
    ring

/-- Two byte strings of one length that denote the same number are equal. -/
theorem leNat_inj {xs ys : List UInt8} (hlen : xs.length = ys.length)
    (h : leNat xs = leNat ys) : xs = ys := by
  induction xs generalizing ys with
  | nil => exact (List.length_eq_zero_iff.mp hlen.symm).symm
  | cons x xs ih =>
    obtain _ | ⟨y, ys⟩ := ys
    · simp at hlen
    have hx : x.toNat < 256 := x.toNat_lt
    have hy : y.toNat < 256 := y.toNat_lt
    rw [leNat, leNat] at h
    have hhead : x = y := UInt8.toNat_inj.mp (by omega)
    have htail : xs = ys := ih (by simpa using hlen) (by omega)
    rw [hhead, htail]

theorem beNat_inj {xs ys : List UInt8} (hlen : xs.length = ys.length) (h : beNat xs = beNat ys) :
    xs = ys :=
  List.reverse_inj.mp (leNat_inj (by simpa using hlen) h)

theorem leNat_replicate_zero (k : ℕ) : leNat (List.replicate k 0) = 0 := by
  induction k with
  | zero => rfl
  | succ k ih => rw [List.replicate_succ, leNat, ih]; rfl

/-! ## Bits of a number -/

/-- Splitting off the top bit of a residue. -/
theorem mod_two_pow_succ (x n : ℕ) :
    x % 2 ^ (n + 1) = x % 2 ^ n + 2 ^ n * (x.testBit n).toNat := by
  rw [Nat.mod_pow_succ, Nat.toNat_testBit]

/-- A number is below `2 ^ n` when none of its bits from `n` on is set. -/
theorem lt_two_pow_iff_testBit {x n : ℕ} : x < 2 ^ n ↔ ∀ k, n ≤ k → x.testBit k = false := by
  constructor
  · intro h k hk
    exact Nat.testBit_eq_false_of_lt (Nat.lt_of_lt_of_le h (Nat.pow_le_pow_right (by norm_num) hk))
  · intro h
    exact Nat.lt_pow_two_of_testBit _ h

/-- Numbers with the same low bits have the same residue. -/
theorem mod_two_pow_eq_of_testBit {x y n : ℕ} (h : ∀ k < n, x.testBit k = y.testBit k) :
    x % 2 ^ n = y % 2 ^ n := by
  apply Nat.eq_of_testBit_eq
  intro k
  rw [Nat.testBit_mod_two_pow, Nat.testBit_mod_two_pow]
  by_cases hk : k < n
  · rw [h k hk]
  · simp [hk]

/-- Setting a clear bit adds its weight. -/
theorem eq_add_two_pow_of_testBit {x y n : ℕ} (hx : x.testBit n = false)
    (hy : ∀ k, y.testBit k = (decide (n = k) || x.testBit k)) : y = x + 2 ^ n := by
  have hlow : y % 2 ^ n = x % 2 ^ n :=
    mod_two_pow_eq_of_testBit fun k hk => by rw [hy k]; simp [show n ≠ k by omega]
  have hhigh : y / 2 ^ (n + 1) = x / 2 ^ (n + 1) := by
    apply Nat.eq_of_testBit_eq
    intro k
    rw [Nat.testBit_div_two_pow, Nat.testBit_div_two_pow, hy]
    simp [show n ≠ k + (n + 1) by omega]
  have hy1 := mod_two_pow_succ y n
  have hx1 := mod_two_pow_succ x n
  rw [hlow, hy n] at hy1
  rw [hx] at hx1
  simp only [decide_true, Bool.true_or, Bool.toNat_true, Bool.toNat_false, mul_one, mul_zero,
    add_zero] at hy1 hx1
  rw [← Nat.div_add_mod y (2 ^ (n + 1)), ← Nat.div_add_mod x (2 ^ (n + 1)), hhigh, hy1, hx1]
  ring

/-! ## Bits of a byte -/

/-- The bits of `1 << k`. -/
theorem byte_testBit_one_shift {k : ℕ} (hk : k < 8) (m : ℕ) :
    ((1 : UInt8) <<< UInt8.ofNat k).toNat.testBit m = decide (k = m) := by
  have hmod : (UInt8.ofNat k).toNat % 8 = k := by simp; omega
  have hpow : (1 : UInt8).toNat <<< k % 2 ^ 8 = 2 ^ k := by
    have hlt : 2 ^ k < 2 ^ 8 := Nat.pow_lt_pow_right (by norm_num) hk
    simp [Nat.shiftLeft_eq]; omega
  rw [UInt8.toNat_shiftLeft, hmod, hpow, Nat.testBit_two_pow]

/-- The bits of `~x`. -/
theorem byte_testBit_not (x : UInt8) {m : ℕ} (hm : m < 8) :
    (~~~x).toNat.testBit m = !x.toNat.testBit m := by
  have h : (~~~x).toNat.testBit m = (~~~x.toBitVec).getLsbD m := rfl
  rw [h, BitVec.getLsbD_not]
  simp [hm, BitVec.getLsbD]

/-- `(x >> k) & 1` is bit `k` of `x`. -/
theorem byte_shiftRight_and_one (x : UInt8) {k : ℕ} (hk : k < 8) :
    ((x >>> UInt8.ofNat k) &&& 1).toNat = (x.toNat.testBit k).toNat := by
  have hmod : (UInt8.ofNat k).toNat % 8 = k := by simp; omega
  rw [UInt8.toNat_and, UInt8.toNat_shiftRight, Nat.toNat_testBit, hmod]
  simp [Nat.shiftRight_eq_div_pow, Nat.and_one_is_mod]

/-- A property of all bytes, checked on the 256 of them. -/
theorem byte_forall {P : UInt8 → Prop} (h : ∀ k : Fin 256, P (UInt8.ofNat k)) (c : UInt8) : P c := by
  have hc := h ⟨c.toNat, c.toNat_lt⟩
  rwa [UInt8.ofNat_toNat] at hc

/-- A byte has no bit at position 8 or above. -/
theorem byte_testBit_ge (x : UInt8) {m : ℕ} (hm : 8 ≤ m) : x.toNat.testBit m = false :=
  Nat.testBit_eq_false_of_lt
    (Nat.lt_of_lt_of_le x.toNat_lt (Nat.pow_le_pow_right (by norm_num) hm))

/-- The mask `(1 << k) - 1` has exactly the bits below `k`. -/
theorem byte_testBit_mask {k : ℕ} (hk : k < 8) (m : ℕ) :
    ((1 : UInt8) <<< UInt8.ofNat k - 1).toNat.testBit m = decide (m < k) := by
  have hval : ((1 : UInt8) <<< UInt8.ofNat k - 1).toNat = 2 ^ k - 1 := by
    interval_cases k <;> rfl
  rw [hval, Nat.testBit_two_pow_sub_one]

/-! ## Fixed-size byte arrays -/

/-- The access a C program must not make. -/
inductive Fault where
  | outOfBounds
deriving DecidableEq, Repr

/-- The bytes of a list, written to consecutive indices. -/
def indexed (i : ℕ) : List UInt8 → List (ℕ × UInt8)
  | [] => []
  | b :: bs => (i, b) :: indexed (i + 1) bs

theorem indexed_append (i : ℕ) (bs cs : List UInt8) :
    indexed i (bs ++ cs) = indexed i bs ++ indexed (i + bs.length) cs := by
  induction bs generalizing i with
  | nil => rfl
  | cons b bs ih =>
    rw [List.cons_append, indexed, indexed, ih, List.cons_append, List.length_cons]
    congr 3
    omega

theorem indexed_indices (i : ℕ) (bs : List UInt8) : (indexed i bs).map Prod.fst = List.range' i bs.length := by
  induction bs generalizing i with
  | nil => rfl
  | cons b bs ih => rw [indexed, List.map_cons, ih, List.length_cons, List.range'_succ]

/-- A C array of `n` bytes. -/
structure Buf (n : ℕ) where
  toList : List UInt8
  length_toList : toList.length = n
deriving DecidableEq, Repr

namespace Buf

variable {n : ℕ}

@[ext] theorem ext {b c : Buf n} (h : b.toList = c.toList) : b = c := by
  cases b; cases c; simpa using h

attribute [simp] length_toList

/-- An array after `bzero`. -/
def zero (n : ℕ) : Buf n := ⟨List.replicate n 0, List.length_replicate⟩

/-- `buf[j]`. An index past the array reads as `0`. -/
def get (b : Buf n) (j : ℕ) : UInt8 := b.toList.getD j 0

/-- `buf[j] = v`. An index past the array leaves it as it is. -/
def set (b : Buf n) (j : ℕ) (v : UInt8) : Buf n := ⟨b.toList.set j v, by simp⟩

/-- `memcpy(buf + off, src, len)`; what would fall past the array is dropped. -/
def memcpy (b : Buf n) (off : ℕ) (src : List UInt8) : Buf n :=
  ⟨(b.toList.take off ++ src ++ b.toList.drop (off + src.length)).take n, by
    simp only [List.length_append, List.length_take, List.length_drop, length_toList]
    omega⟩

/-- A copy that fits splits the array around the block. -/
theorem toList_memcpy (b : Buf n) {off : ℕ} {src : List UInt8} (h : off + src.length ≤ n) :
    (b.memcpy off src).toList = b.toList.take off ++ src ++ b.toList.drop (off + src.length) := by
  simp only [memcpy]
  apply List.take_of_length_le
  simp only [List.length_append, List.length_take, List.length_drop, length_toList]
  omega

theorem toList_set (b : Buf n) {j : ℕ} (hj : j < n) (v : UInt8) :
    (b.set j v).toList = b.toList.take j ++ v :: b.toList.drop (j + 1) := by
  simp only [set]
  rw [List.set_eq_take_append_cons_drop, if_pos (by simpa using hj)]

/-- What has been filled so far, and the block copied behind it. -/
theorem take_memcpy (b : Buf n) {off : ℕ} {src : List UInt8} (h : off + src.length ≤ n) :
    (b.memcpy off src).toList.take (off + src.length) = b.toList.take off ++ src := by
  have hlen : (b.toList.take off ++ src).length = off + src.length := by simp; omega
  rw [toList_memcpy b h, List.take_left' hlen]

/-- `memmove` of the bytes `[len, used)` to the front. -/
theorem take_memmove (b : Buf n) {used len : ℕ} (hused : used ≤ n) :
    (b.memcpy 0 ((b.toList.take used).drop len)).toList.take (used - len)
      = (b.toList.take used).drop len := by
  have hlen : ((b.toList.take used).drop len).length = used - len := by simp; omega
  have h := take_memcpy b (show 0 + ((b.toList.take used).drop len).length ≤ n by omega)
  rw [hlen] at h
  simpa using h

/-- The number an array denotes, least significant byte first. -/
def num (b : Buf n) : ℕ := leNat b.toList

@[simp] theorem get_zero (j : ℕ) : (zero n).get j = 0 := by
  simp [get, zero, List.getD_eq_getElem?_getD, List.getElem?_replicate]
  split <;> rfl

theorem get_of_le (b : Buf n) {j : ℕ} (h : n ≤ j) : b.get j = 0 := by
  simp [get, List.getD_eq_getElem?_getD, h]

/-- Arrays with the same bytes are the same. -/
theorem ext_get {b b' : Buf n} (h : ∀ i, b.get i = b'.get i) : b = b' := by
  apply Buf.ext
  apply List.ext_getElem
  · rw [b.length_toList, b'.length_toList]
  · intro i h1 h2
    have hi := h i
    rw [Buf.get, Buf.get, List.getD_eq_getElem _ _ h1, List.getD_eq_getElem _ _ h2] at hi
    exact hi

theorem get_set (b : Buf n) (j k : ℕ) (v : UInt8) :
    (b.set j v).get k = if j = k ∧ j < n then v else b.get k := by
  simp only [get, set, List.getD_eq_getElem?_getD, List.getElem?_set, length_toList]
  by_cases hj : j = k
  · subst hj
    by_cases hn : j < n
    · simp [hn]
    · simp [hn]
  · simp [hj]

theorem num_lt (b : Buf n) : b.num < 2 ^ (8 * n) := by
  have h := leNat_lt b.toList
  rwa [b.length_toList] at h

theorem num_testBit (b : Buf n) (k : ℕ) :
    b.num.testBit k = (b.get (k / 8)).toNat.testBit (k % 8) :=
  leNat_testBit _ _

/-- Byte `j` of the array as a digit of the number. -/
theorem get_toNat (b : Buf n) (j : ℕ) : (b.get j).toNat = b.num / 2 ^ (8 * j) % 2 ^ 8 := by
  apply Nat.eq_of_testBit_eq
  intro m
  rw [Nat.testBit_mod_two_pow, Nat.testBit_div_two_pow]
  by_cases hm : m < 8
  · rw [num_testBit, show (m + 8 * j) / 8 = j by omega, show (m + 8 * j) % 8 = m by omega]
    simp [hm]
  · rw [byte_testBit_ge _ (by omega)]
    simp [hm]

/-- Two arrays with the same bits denote the same number. -/
theorem num_eq_of_testBit {b : Buf n} {x : ℕ}
    (h : ∀ k, (b.get (k / 8)).toNat.testBit (k % 8) = x.testBit k) : b.num = x :=
  Nat.eq_of_testBit_eq fun k => by rw [num_testBit, h k]

/-- A byte store replaces eight bits of the number. -/
theorem num_set_testBit (b : Buf n) {j : ℕ} (hj : j < n) (v : UInt8) (k : ℕ) :
    (b.set j v).num.testBit k = if k / 8 = j then v.toNat.testBit (k % 8) else b.num.testBit k := by
  rw [num_testBit, get_set, num_testBit]
  by_cases h : j = k / 8
  · simp [← h, hj]
  · have h' : k / 8 ≠ j := fun e => h e.symm
    simp [h, h']

/-- Arrays that denote the same number are equal. -/
theorem num_inj {b c : Buf n} (h : b.num = c.num) : b = c :=
  ext (leNat_inj (by simp) h)

/-- Bits of the block that `memcpy` writes, and of the bytes around it. -/
theorem get_memcpy (b : Buf n) (off : ℕ) (src : List UInt8) (j : ℕ) :
    (b.memcpy off src).get j =
      if j < n then (if off ≤ j ∧ j < off + src.length then src.getD (j - off) 0 else b.get j)
      else 0 := by
  by_cases hj : j < n
  swap
  · rw [if_neg hj, get_of_le _ (by omega)]
  rw [if_pos hj]
  have hlen := b.length_toList
  simp only [get, memcpy, List.getD_eq_getElem?_getD]
  rw [List.getElem?_take_of_lt hj]
  by_cases h1 : j < off
  · rw [List.append_assoc, List.getElem?_append_left (by simp; omega), List.getElem?_take_of_lt h1]
    simp [show ¬(off ≤ j ∧ j < off + src.length) by omega]
  · have hoff : (b.toList.take off).length = off := by simp; omega
    by_cases h2 : j < off + src.length
    · rw [List.getElem?_append_left (by simp; omega), List.getElem?_append_right (by omega), hoff]
      simp [show off ≤ j by omega, h2]
    · rw [List.getElem?_append_right (by simp; omega)]
      simp only [List.length_append, hoff, List.getElem?_drop]
      rw [show off + src.length + (j - (off + src.length)) = j by omega]
      simp [h2]

@[simp] theorem num_zero : (zero n).num = 0 :=
  num_eq_of_testBit fun k => by simp

theorem foldl_indexed (b : Buf n) (i : ℕ) (bs : List UInt8) :
    (indexed i bs).foldl (fun b w => b.set w.1 w.2) b = b.memcpy i bs := by
  induction bs generalizing b i with
  | nil =>
    apply ext_get
    intro j
    rw [get_memcpy]
    by_cases hj : j < n
    · simp [indexed, hj, show ¬(i ≤ j ∧ j < i) by omega]
    · rw [if_neg hj, indexed, List.foldl_nil, get_of_le _ (by omega)]
  | cons c bs ih =>
    rw [indexed, List.foldl_cons, ih]
    apply ext_get
    intro j
    rw [get_memcpy, get_memcpy, get_set]
    by_cases hj : j < n
    · simp only [hj, if_true, List.length_cons]
      by_cases hi : i = j
      · subst hi
        simp [hj]
      · by_cases hin : i + 1 ≤ j ∧ j < i + 1 + bs.length
        · rw [if_pos hin, if_pos (by omega), show j - i = (j - (i + 1)) + 1 by omega, List.getD_cons_succ]
        · rw [if_neg hin, if_neg (by omega), if_neg (by omega)]
    · simp [hj]

/-! ### Blocks -/

/-- The bytes `[off, off + len)`. -/
def slice (b : Buf n) (off len : ℕ) : List UInt8 := (b.toList.drop off).take len

theorem slice_congr {b c : Buf n} {off len : ℕ} (hlen : off + len ≤ n)
    (h : ∀ i, off ≤ i → i < off + len → b.get i = c.get i) : b.slice off len = c.slice off len := by
  apply List.ext_getElem
  · simp [slice]
  · intro i h1 h2
    have hi : i < len := by
      simp [slice] at h1
      omega
    have hget := h (off + i) (by omega) (by omega)
    rw [get, get, List.getD_eq_getElem _ _ (by simp; omega), List.getD_eq_getElem _ _ (by simp; omega)] at hget
    simpa [slice] using hget

theorem slice_memcpy (b : Buf n) {off : ℕ} {src : List UInt8} (h : off + src.length ≤ n) :
    (b.memcpy off src).slice off src.length = src := by
  have hfront : (b.toList.take off).length = off := by simp; omega
  rw [slice, toList_memcpy b h, List.append_assoc, List.drop_left' hfront, List.take_left]

/-- A block over the whole array. -/
theorem memcpy_whole (b c : Buf n) : b.memcpy 0 c.toList = c := by
  apply ext
  rw [toList_memcpy b (by simp), List.drop_of_length_le (by simp)]
  simp

/-- Two blocks, one behind the other. -/
theorem memcpy_memcpy (b : Buf n) (off : ℕ) (xs ys : List UInt8) (h : off + xs.length + ys.length ≤ n) :
    (b.memcpy off xs).memcpy (off + xs.length) ys = b.memcpy off (xs ++ ys) := by
  apply ext
  have hfront : (b.toList.take off ++ xs).length = off + xs.length := by simp; omega
  rw [toList_memcpy _ h, toList_memcpy b (by omega), toList_memcpy b (by simp; omega), List.take_left' hfront,
    ← List.drop_drop, List.drop_left' hfront, List.drop_drop, List.length_append, ← Nat.add_assoc,
    List.append_assoc (b.toList.take off) xs ys]

end Buf
end Esp8266Toolbox
