import Mathlib.Data.List.GetD
import Esp8266Toolbox.Lib.Bytes

/-!
# 32-bit words and the bytes they are made of
-/

namespace Esp8266Toolbox

/-- The mask `(1 << k) - 1` has exactly the bits below `k`. -/
theorem word_testBit_mask {k : ℕ} (hk : k < 32) (m : ℕ) :
    ((1 : UInt32) <<< UInt32.ofNat k - 1).toNat.testBit m = decide (m < k) := by
  have hval : ((1 : UInt32) <<< UInt32.ofNat k - 1).toNat = 2 ^ k - 1 := by
    interval_cases k <;> rfl
  rw [hval, Nat.testBit_two_pow_sub_one]

/-- A word has no bit at position 32 or above. -/
theorem word_testBit_ge (x : UInt32) {m : ℕ} (hm : 32 ≤ m) : x.toNat.testBit m = false :=
  Nat.testBit_eq_false_of_lt
    (Nat.lt_of_lt_of_le x.toNat_lt (Nat.pow_le_pow_right (by norm_num) hm))

/-- A number below `2 ^ k` has no bit in common with a multiple of `2 ^ k`. -/
theorem mul_two_pow_or {k x : ℕ} (hx : x < 2 ^ k) (a : ℕ) : a * 2 ^ k ||| x = a * 2 ^ k + x := by
  have h := Nat.shiftLeft_add_eq_or_of_lt hx a
  rw [Nat.shiftLeft_eq] at h
  exact h.symm

/-- Four shifted bytes make the big-endian word. -/
theorem word_of_bytes (a b c d : UInt8) :
    (a.toUInt32 <<< 24) ||| (b.toUInt32 <<< 16) ||| (c.toUInt32 <<< 8) ||| d.toUInt32
      = UInt32.ofNat (beNat [a, b, c, d]) := by
  have ha := a.toNat_lt
  have hb := b.toNat_lt
  have hc := c.toNat_lt
  have hd := d.toNat_lt
  -- the bytes are put together from the top one down
  have h1 := mul_two_pow_or (show b.toNat * 2 ^ 16 < 2 ^ 24 by omega) a.toNat
  have h2 : (a.toNat * 2 ^ 24 + b.toNat * 2 ^ 16) ||| c.toNat * 2 ^ 8
      = a.toNat * 2 ^ 24 + b.toNat * 2 ^ 16 + c.toNat * 2 ^ 8 := by
    have hab : a.toNat * 2 ^ 24 + b.toNat * 2 ^ 16 = (a.toNat * 2 ^ 8 + b.toNat) * 2 ^ 16 := by ring
    rw [hab, mul_two_pow_or (by omega)]
  have h3 : (a.toNat * 2 ^ 24 + b.toNat * 2 ^ 16 + c.toNat * 2 ^ 8) ||| d.toNat
      = a.toNat * 2 ^ 24 + b.toNat * 2 ^ 16 + c.toNat * 2 ^ 8 + d.toNat := by
    have habc : a.toNat * 2 ^ 24 + b.toNat * 2 ^ 16 + c.toNat * 2 ^ 8
        = (a.toNat * 2 ^ 16 + b.toNat * 2 ^ 8 + c.toNat) * 2 ^ 8 := by ring
    rw [habc, mul_two_pow_or (by omega)]
  apply UInt32.toNat_inj.mp
  have hA : (a.toUInt32 <<< 24).toNat = a.toNat * 2 ^ 24 := by
    simp [Nat.shiftLeft_eq]; omega
  have hB : (b.toUInt32 <<< 16).toNat = b.toNat * 2 ^ 16 := by
    simp [Nat.shiftLeft_eq]; omega
  have hC : (c.toUInt32 <<< 8).toNat = c.toNat * 2 ^ 8 := by
    simp [Nat.shiftLeft_eq]; omega
  simp only [UInt32.toNat_or, hA, hB, hC, UInt8.toNat_toUInt32, h1, h2, h3, UInt32.toNat_ofNat',
    beNat, List.reverse_cons, List.reverse_nil, List.nil_append, List.cons_append, leNat]
  omega

/-- Four consecutive elements of a list. -/
theorem take_four_drop {bs : List UInt8} {n : ℕ} (h : n + 4 ≤ bs.length) :
    (bs.drop n).take 4 = [bs.getD n 0, bs.getD (n + 1) 0, bs.getD (n + 2) 0, bs.getD (n + 3) 0] := by
  apply List.ext_getElem
  · simp; omega
  · intro i h1 h2
    have hi : i < 4 := by simpa using h2
    have hget : bs.getD (n + i) 0 = bs[n + i] := List.getD_eq_getElem _ _ (by omega)
    rw [List.getElem_take, List.getElem_drop, ← hget]
    interval_cases i <;> rfl

theorem getD_set_self {w : List UInt32} {i : ℕ} (hi : i < w.length) (v : UInt32) :
    (w.set i v).getD i 0 = v := by
  simp [List.getD_eq_getElem?_getD, hi]

theorem getD_set_ne (w : List UInt32) {i t : ℕ} (h : i ≠ t) (v : UInt32) :
    (w.set i v).getD t 0 = w.getD t 0 := by
  simp [List.getD_eq_getElem?_getD, List.getElem?_set_ne h]

end Esp8266Toolbox
