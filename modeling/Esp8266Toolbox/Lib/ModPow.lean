import Mathlib.FieldTheory.Finite.Basic
import Mathlib.NumberTheory.LucasPrimality

/-!
# Powers modulo primes

The identity behind RSA, for exponents that are inverse modulo `lcm (p - 1) (q - 1)`, and a
primality test by repeated squaring that is cheap for numbers `r * 2 ^ (m + 1) + 1`.
-/

namespace Esp8266Toolbox
namespace ModPow

/-- Fermat, for exponents in the residue class of 1. -/
theorem pow_modEq_self {p k : ℕ} (hp : p.Prime) (hpos : 0 < k) (hk : k ≡ 1 [MOD p - 1]) (m : ℕ) :
    m ^ k ≡ m [MOD p] := by
  have : Fact p.Prime := ⟨hp⟩
  rw [← ZMod.natCast_eq_natCast_iff, Nat.cast_pow]
  by_cases hm : (m : ZMod p) = 0
  · rw [hm, zero_pow (by omega)]
  · rcases (Nat.modEq_iff_dvd' hpos).mp hk.symm with ⟨t, ht⟩
    have hsplit : k = 1 + (p - 1) * t := by omega
    rw [hsplit, pow_add, pow_one, pow_mul, ZMod.pow_card_sub_one_eq_one hm, one_pow, mul_one]

/-- Exponents that are inverse modulo `lcm (p - 1) (q - 1)` are positive. -/
theorem mul_pos_of_inverse {p q e d : ℕ} (hp : p.Prime) (hq : q.Prime) (hne : p ≠ q)
    (hed : e * d ≡ 1 [MOD Nat.lcm (p - 1) (q - 1)]) : 0 < e * d := by
  by_contra hzero
  have h0 : e * d = 0 := by omega
  rw [h0] at hed
  have hone : Nat.lcm (p - 1) (q - 1) = 1 := by
    have hdvd := (Nat.modEq_iff_dvd' (Nat.zero_le 1)).mp hed
    exact Nat.dvd_one.mp hdvd
  have hp1 := Nat.dvd_lcm_left (p - 1) (q - 1)
  have hq1 := Nat.dvd_lcm_right (p - 1) (q - 1)
  rw [hone, Nat.dvd_one] at hp1 hq1
  have := hp.two_le
  have := hq.two_le
  omega

/-- Raising to the exponent `e` undoes raising to `d`. -/
theorem pow_pow_modEq {p q e d : ℕ} (hp : p.Prime) (hq : q.Prime) (hne : p ≠ q)
    (hed : e * d ≡ 1 [MOD Nat.lcm (p - 1) (q - 1)]) (m : ℕ) : (m ^ d) ^ e ≡ m [MOD p * q] := by
  have hpos := mul_pos_of_inverse hp hq hne hed
  have hcop : p.Coprime q := (Nat.coprime_primes hp hq).mpr hne
  rw [← pow_mul, Nat.mul_comm d e]
  apply (Nat.modEq_and_modEq_iff_modEq_mul hcop).mp
  constructor
  · exact pow_modEq_self hp hpos (hed.of_dvd (Nat.dvd_lcm_left _ _)) m
  · exact pow_modEq_self hq hpos (hed.of_dvd (Nat.dvd_lcm_right _ _)) m

/-- Squaring `k` times. -/
theorem iterate_square_modEq (c x k : ℕ) : (fun y => y * y % c)^[k] x ≡ x ^ 2 ^ k [MOD c] := by
  induction k generalizing x with
  | zero => simp [Nat.ModEq.refl]
  | succ k ih =>
    rw [Function.iterate_succ_apply]
    apply (ih _).trans
    rw [pow_succ', pow_mul, pow_two]
    exact (Nat.mod_modEq _ _).pow _

/-- `q = r * 2 ^ (m + 1) + 1` is prime if a number is -1 when raised to half of `q - 1`, and is not
1 when raised to the power of two alone. -/
theorem prime_of_pow_half {q r m a : ℕ} (hr : r.Prime) (hq : q = r * 2 ^ (m + 1) + 1)
    (hhalf : a ^ (r * 2 ^ m) % q = q - 1) (hodd : a ^ 2 ^ (m + 1) % q ≠ 1) : q.Prime := by
  have h2 : 2 ≤ r * 2 ^ (m + 1) := by
    have hpos := Nat.two_pow_pos m
    have hr2 := hr.two_le
    rw [pow_succ]
    nlinarith
  have hpow : ∀ k, (a : ZMod q) ^ k = 1 ↔ a ^ k % q = 1 := by
    intro k
    have h := ZMod.natCast_eq_natCast_iff' (a ^ k) 1 q
    rw [Nat.cast_pow, Nat.cast_one, Nat.mod_eq_of_lt (a := 1) (by omega)] at h
    exact h
  have hsplit : q - 1 = r * 2 ^ m * 2 := by
    rw [hq, pow_succ, Nat.add_sub_cancel]
    ring
  have hsq : (q - 1) ^ 2 % q = 1 := by
    have hexpand : (q - 1) ^ 2 = 1 + q * (q - 2) := by
      rcases Nat.exists_eq_add_of_le (show 2 ≤ q by omega) with ⟨t, rfl⟩
      rw [show 2 + t - 1 = t + 1 by omega, show 2 + t - 2 = t by omega]
      ring
    rw [hexpand, Nat.add_mul_mod_self_left, Nat.mod_eq_of_lt (by omega)]
  apply lucas_primality q (a : ZMod q)
  · rw [hpow, hsplit, pow_mul, Nat.pow_mod, hhalf, hsq]
  · -- the prime factors of `q - 1` are `r` and 2
    intro l hl hdvd
    rw [Ne, hpow]
    have hfactors : l = r ∨ l = 2 := by
      rw [hq, Nat.add_sub_cancel] at hdvd
      rcases (Nat.Prime.dvd_mul hl).mp hdvd with h | h
      · exact Or.inl ((Nat.prime_dvd_prime_iff_eq hl hr).mp h)
      · exact Or.inr ((Nat.prime_dvd_prime_iff_eq hl Nat.prime_two).mp (hl.dvd_of_dvd_pow h))
    rcases hfactors with rfl | rfl
    · have hdiv : (q - 1) / l = 2 ^ (m + 1) := by
        rw [hq, Nat.add_sub_cancel, Nat.mul_div_cancel_left _ hl.pos]
      rw [hdiv]
      exact hodd
    · rw [hsplit, Nat.mul_div_cancel _ (by norm_num), hhalf]
      omega

end ModPow
end Esp8266Toolbox
