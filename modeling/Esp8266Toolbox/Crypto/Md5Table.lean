import Mathlib.Analysis.Complex.Basic
import Esp8266Toolbox.Crypto.Rfc1321
import Esp8266Toolbox.Crypto.Md5

/-!
# The table of `md5.c` is the sine table

`exp i` is approximated by a rational point `w` inside the unit circle. The powers of `w` are
exact integers over a power of two, and stay close to `exp (n * i)`, whose imaginary part is
`sin n`; so the leading 32 bits of `|sin n|` can be read off them.
-/

namespace Esp8266Toolbox
namespace Rfc1321

/-- The coordinates of `w`, in units of `2 ^ (-60)`. -/
def wRe : ℤ := 622926147424044489
def wIm : ℤ := 970149993887725314

/-- A rational point next to `exp i`. -/
noncomputable def w : ℂ := ⟨(wRe : ℝ) / 2 ^ 60, (wIm : ℝ) / 2 ^ 60⟩

/-- The coordinates of `w ^ n`, in units of `2 ^ (-60 * n)`. -/
def wPow : ℕ → ℤ × ℤ
  | 0 => (1, 0)
  | n + 1 => ((wPow n).1 * wRe - (wPow n).2 * wIm, (wPow n).1 * wIm + (wPow n).2 * wRe)

theorem w_pow (n : ℕ) :
    w ^ n = ⟨((wPow n).1 : ℝ) / 2 ^ (60 * n), ((wPow n).2 : ℝ) / 2 ^ (60 * n)⟩ := by
  induction n with
  | zero => simp [wPow, Complex.ext_iff]
  | succ n ih =>
    have hpow : (2 : ℝ) ^ (60 * (n + 1)) = 2 ^ (60 * n) * 2 ^ 60 := by rw [Nat.mul_succ, pow_add]
    rw [pow_succ, ih, w, hpow]
    apply Complex.ext
    · simp only [Complex.mul_re, wPow]
      push_cast
      field_simp
    · simp only [Complex.mul_im, wPow]
      push_cast
      field_simp

theorem norm_w_le : ‖w‖ ≤ 1 := by
  have hsq : ‖w‖ ^ 2 ≤ 1 ^ 2 := by
    rw [Complex.sq_norm, Complex.normSq_apply]
    norm_num [w, wRe, wIm]
  exact le_of_sq_le_sq hsq (by norm_num)

/-- The first terms of the exponential series at `i`. -/
theorem series_re : |(∑ m ∈ Finset.range 22, Complex.I ^ m / (m.factorial : ℂ)).re - w.re| ≤ 1 / 2 ^ 60 := by
  simp [Finset.sum_range_succ, Nat.factorial, pow_succ, w, wRe]
  norm_num [abs_le]

theorem series_im : |(∑ m ∈ Finset.range 22, Complex.I ^ m / (m.factorial : ℂ)).im - w.im| ≤ 1 / 2 ^ 60 := by
  simp [Finset.sum_range_succ, Nat.factorial, pow_succ, w, wIm]
  norm_num [abs_le]

theorem norm_exp_sub_w_le : ‖Complex.exp Complex.I - w‖ ≤ 1 / 2 ^ 58 := by
  have hseries := Complex.exp_bound (x := Complex.I) (by simp) (n := 22) (by norm_num)
  have hw := Complex.norm_le_abs_re_add_abs_im
    ((∑ m ∈ Finset.range 22, Complex.I ^ m / (m.factorial : ℂ)) - w)
  rw [Complex.sub_re, Complex.sub_im] at hw
  have hre := series_re
  have him := series_im
  have htri := norm_sub_le_norm_sub_add_norm_sub (Complex.exp Complex.I)
    (∑ m ∈ Finset.range 22, Complex.I ^ m / (m.factorial : ℂ)) w
  have hsmall : ‖Complex.I‖ ^ 22 * (((22 : ℕ).succ : ℝ) * (((22 : ℕ).factorial : ℝ) * ((22 : ℕ) : ℝ))⁻¹) ≤ 1 / 2 ^ 60 := by
    norm_num [Nat.factorial]
  have hpow : (1 : ℝ) / 2 ^ 58 = 1 / 2 ^ 60 + (1 / 2 ^ 60 + 1 / 2 ^ 60) + 1 / 2 ^ 60 := by norm_num
  rw [hpow]
  linarith

/-- The powers of `w` move away from the circle by one more error at each step. -/
theorem norm_exp_pow_sub_le (n : ℕ) : ‖Complex.exp Complex.I ^ n - w ^ n‖ ≤ n * (1 / 2 ^ 58) := by
  induction n with
  | zero => simp
  | succ n ih =>
    have hunit : ‖Complex.exp Complex.I ^ n‖ = 1 := by
      rw [norm_pow, Complex.norm_exp, Complex.I_re, Real.exp_zero, one_pow]
    have hsplit : Complex.exp Complex.I ^ (n + 1) - w ^ (n + 1)
        = Complex.exp Complex.I ^ n * (Complex.exp Complex.I - w)
          + (Complex.exp Complex.I ^ n - w ^ n) * w := by ring
    have hw0 := norm_nonneg w
    calc ‖Complex.exp Complex.I ^ (n + 1) - w ^ (n + 1)‖
        ≤ ‖Complex.exp Complex.I ^ n‖ * ‖Complex.exp Complex.I - w‖
            + ‖Complex.exp Complex.I ^ n - w ^ n‖ * ‖w‖ := by
          rw [hsplit, ← norm_mul, ← norm_mul]
          exact norm_add_le _ _
      _ ≤ 1 * (1 / 2 ^ 58) + n * (1 / 2 ^ 58) * 1 := by
          rw [hunit]
          gcongr
          · exact norm_exp_sub_w_le
          · exact norm_w_le
      _ = (n + 1 : ℕ) * (1 / 2 ^ 58) := by push_cast; ring

/-- `sin n`, read off the powers of `w`. -/
theorem sin_sub_le (n : ℕ) : |Real.sin n - ((wPow n).2 : ℝ) / 2 ^ (60 * n)| ≤ n * (1 / 2 ^ 58) := by
  have hexp : Complex.exp Complex.I ^ n = Complex.exp (((n : ℝ) : ℂ) * Complex.I) := by
    rw [← Complex.exp_nat_mul]
    simp
  have him : (Complex.exp Complex.I ^ n - w ^ n).im = Real.sin n - ((wPow n).2 : ℝ) / 2 ^ (60 * n) := by
    rw [Complex.sub_im, hexp, Complex.exp_ofReal_mul_I_im, w_pow]
  rw [← him]
  exact (Complex.abs_im_le_norm _).trans (norm_exp_pow_sub_le n)

/-- An entry of the table, from a comparison of integers. -/
theorem T_eq {n t : ℕ} (hlow : (t * 2 ^ 26 + n) * 2 ^ (60 * n) ≤ 2 ^ 58 * (wPow n).2.natAbs)
    (hhigh : 2 ^ 58 * (wPow n).2.natAbs + n * 2 ^ (60 * n) < (t + 1) * 2 ^ 26 * 2 ^ (60 * n)) :
    T n = UInt32.ofNat t := by
  have hclose := (abs_abs_sub_abs_le _ _).trans (sin_sub_le n)
  have hD : (0 : ℝ) < 2 ^ (60 * n) := by positivity
  rw [abs_div, abs_of_pos hD, ← Int.cast_abs, Int.abs_eq_natAbs, Int.cast_natCast, abs_le] at hclose
  have hlow' : ((t : ℝ) * 2 ^ 26 + n) * 2 ^ (60 * n) ≤ 2 ^ 58 * ((wPow n).2.natAbs : ℝ) := by
    exact_mod_cast hlow
  have hhigh' : 2 ^ 58 * ((wPow n).2.natAbs : ℝ) + n * 2 ^ (60 * n) < (t + 1) * 2 ^ 26 * 2 ^ (60 * n) := by
    exact_mod_cast hhigh
  have hfloor : ⌊4294967296 * |Real.sin n|⌋₊ = t := by
    rw [Nat.floor_eq_iff (by positivity)]
    have h1 : ((t : ℝ) * 2 ^ 26 + n) / 2 ^ 58 ≤ ((wPow n).2.natAbs : ℝ) / 2 ^ (60 * n) := by
      rw [div_le_div_iff₀ (by positivity) hD]
      linarith
    have h2 : ((wPow n).2.natAbs : ℝ) / 2 ^ (60 * n) < ((t + 1) * 2 ^ 26 - n) / 2 ^ 58 := by
      rw [div_lt_div_iff₀ hD (by positivity)]
      linarith
    constructor
    · linarith
    · linarith
  rw [T, hfloor]

/-- The integer comparison for one entry. -/
def entryOk (i : ℕ) : Bool :=
  let n := i + 1
  let t := (md5K.getD i 0).toNat
  (t * 2 ^ 26 + n) * 2 ^ (60 * n) ≤ 2 ^ 58 * (wPow n).2.natAbs &&
    2 ^ 58 * (wPow n).2.natAbs + n * 2 ^ (60 * n) < (t + 1) * 2 ^ 26 * 2 ^ (60 * n)

set_option maxRecDepth 10000 in
theorem entries_ok : ∀ i < 64, entryOk i = true := by decide

/-- **`md5_k` is the table of the standard.** -/
theorem T_eq_md5K {i : ℕ} (hi : i < 64) : T (i + 1) = md5K.getD i 0 := by
  have hok := entries_ok i hi
  simp only [entryOk, Bool.and_eq_true, decide_eq_true_eq] at hok
  rw [T_eq hok.1 hok.2, UInt32.ofNat_toNat]

end Rfc1321
end Esp8266Toolbox
