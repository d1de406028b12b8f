import Esp8266Toolbox.Lib.CString
import Mathlib.Data.List.Induction

/-!
# Formatted text

The conversions of `printf` that the program uses, `snprintf` and `strncpy` into an array, and
what an array holds as a C string after them.
-/

namespace Esp8266Toolbox

/-- `%u`. -/
def decimal (n : ℕ) : List UInt8 := (Nat.toDigits 10 n).map fun c => UInt8.ofNat c.toNat

/-- `%0wu`. -/
def padded (w n : ℕ) : List UInt8 := List.replicate (w - (decimal n).length) 0x30 ++ decimal n

/-- `%wu`. -/
def blankPadded (w n : ℕ) : List UInt8 := List.replicate (w - (decimal n).length) SP ++ decimal n

/-- `%d`. -/
def signed (n : ℤ) : List UInt8 := if n < 0 then 0x2d :: decimal n.natAbs else decimal n.natAbs

/-- `snprintf(buf, n, text)`: what fits and a terminator; the result is the length of the text. -/
def snprintf {n : ℕ} (b : Buf n) (text : List UInt8) : Buf n × ℕ :=
  if n = 0 then (b, text.length) else (b.memcpy 0 (text.take (n - 1) ++ [0]), text.length)

/-- `strncpy(buf + off, src, len)`. -/
def Buf.strncpy {n : ℕ} (b : Buf n) (off : ℕ) (src : List UInt8) (len : ℕ) : Buf n :=
  b.memcpy off ((cstr src ++ List.replicate len 0).take len)

/-! ## Texts without terminators -/

theorem decimal_no_zero (n : ℕ) : 0 ∉ decimal n := by
  intro h
  rcases List.mem_map.mp h with ⟨c, hc, hzero⟩
  have hdigit := Nat.isDigit_of_mem_toDigits (by decide) (by decide) hc
  have hrange : 48 ≤ c.toNat ∧ c.toNat ≤ 57 := by
    simpa [Char.isDigit, UInt32.le_iff_toNat_le] using hdigit
  have hval := congrArg UInt8.toNat hzero
  simp at hval
  omega

theorem padded_no_zero (w n : ℕ) : 0 ∉ padded w n := by
  simp [padded, decimal_no_zero]

theorem signed_no_zero (n : ℤ) : 0 ∉ signed n := by
  unfold signed
  split <;> simp [decimal_no_zero]

theorem cstr_no_zero (s : List UInt8) : 0 ∉ cstr s := by
  intro h
  have hne := List.mem_takeWhile_imp h
  simp at hne

/-- A number of at most `w` digits takes `w` characters. -/
theorem blankPadded_length {w n : ℕ} (hw : 0 < w) (hn : n < 10 ^ w) : (blankPadded w n).length = w := by
  have hlen : (decimal n).length ≤ w := by
    rw [decimal, List.length_map]
    exact (Nat.length_toDigits_le_iff (by norm_num) hw).mpr hn
  rw [blankPadded, List.length_append, List.length_replicate]
  omega

/-- A string behind which there is a terminator. -/
theorem cstr_append_zero {s : List UInt8} (h : 0 ∉ s) (rest : List UInt8) : cstr (s ++ 0 :: rest) = s := by
  induction s with
  | nil => simp [cstr]
  | cons c s ih =>
    simp only [List.mem_cons, not_or] at h
    rw [cstr, List.cons_append, List.takeWhile_cons_of_pos (by simpa using Ne.symm h.1)]
    exact congrArg (c :: ·) (ih h.2)

/-- The string in an array after `snprintf`. -/
theorem cstr_snprintf {n : ℕ} (b : Buf n) {text : List UInt8} (hn : 0 < n) (htext : 0 ∉ text) :
    cstr (snprintf b text).1.toList = text.take (n - 1) := by
  have hfit : 0 + (text.take (n - 1) ++ [0]).length ≤ n := by simp; omega
  rw [snprintf, if_neg (by omega), Buf.toList_memcpy _ hfit, List.take_zero, List.nil_append, List.append_assoc,
    List.singleton_append]
  exact cstr_append_zero (fun h => htext (List.mem_of_mem_take h)) _

/-! ## Strings copied over each other -/

namespace Buf

variable {n : ℕ}

/-- Strings copied to the front of an array, one after the other. -/
def putStrs (b : Buf n) (vs : List (List UInt8)) : Buf n :=
  vs.foldl (fun b v => b.memcpy 0 (v ++ [0])) b

/-- The last of the strings that is long enough to reach the byte `j`, terminator included. -/
def lastOver (vs : List (List UInt8)) (j : ℕ) : Option (List UInt8) :=
  vs.reverse.find? fun v => decide (j ≤ v.length)

/-- Every byte that a string writes, and no later one, is there already. -/
def Keeps (b : Buf n) (vs : List (List UInt8)) : Prop :=
  ∀ j < n, ∀ v ∈ lastOver vs j, (v ++ [0]).getD j 0 = b.get j

instance (b : Buf n) (vs : List (List UInt8)) : Decidable (b.Keeps vs) := by
  unfold Keeps
  infer_instance

theorem lastOver_concat (vs : List (List UInt8)) (v : List UInt8) (j : ℕ) :
    lastOver (vs ++ [v]) j = if j ≤ v.length then some v else lastOver vs j := by
  rw [lastOver, List.reverse_append, List.reverse_singleton, List.singleton_append, List.find?_cons]
  by_cases hj : j ≤ v.length
  · simp [hj]
  · simp [hj, lastOver]

/-- A byte comes from the last string that reaches it. -/
theorem get_putStrs (b : Buf n) (vs : List (List UInt8)) {j : ℕ} (hj : j < n) :
    (b.putStrs vs).get j = ((lastOver vs j).map fun v => (v ++ [0]).getD j 0).getD (b.get j) := by
  induction vs using List.reverseRecOn with
  | nil => rfl
  | append_singleton vs v ih =>
    have hput : b.putStrs (vs ++ [v]) = (b.putStrs vs).memcpy 0 (v ++ [0]) := by
      rw [putStrs, List.foldl_append]
      rfl
    rw [hput, get_memcpy, if_pos hj, lastOver_concat]
    by_cases hv : j ≤ v.length
    · rw [if_pos hv, if_pos (by simp; omega)]
      rfl
    · rw [if_neg hv, if_neg (by simp; omega), ih]

theorem putStrs_eq_iff (b : Buf n) (vs : List (List UInt8)) : b.putStrs vs = b ↔ b.Keeps vs := by
  constructor
  · intro h j hj v hv
    have hget := get_putStrs b vs hj
    rw [h, Option.mem_def.mp hv] at hget
    exact hget.symm
  · intro h
    apply ext_get
    intro j
    by_cases hj : j < n
    · rw [get_putStrs b vs hj]
      rcases hv : lastOver vs j with _ | v
      · rfl
      · exact h j hj v hv
    · rw [get_of_le _ (by omega), get_of_le _ (by omega)]

/-- The string in an array after a copy that fits. -/
theorem cstr_memcpy (b : Buf n) {v : List UInt8} (hv : 0 ∉ v) (hfit : v.length < n) :
    cstr (b.memcpy 0 (v ++ [0])).toList = v := by
  rw [toList_memcpy b (by simp; omega), List.take_zero, List.nil_append, List.append_assoc,
    List.singleton_append]
  exact cstr_append_zero hv _

end Buf

end Esp8266Toolbox
