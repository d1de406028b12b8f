import Mathlib.Tactic.Linarith
import Esp8266Toolbox.Drivers.Tsl2561Bus

/-!
# The illuminance, and the result of `tsl2561_lux`

In the documented domain no word of `calc_lux` wraps, so its result is the exact illuminance
modulo `2 ^ 16`. The illuminance itself leaves 16 bits at the gain of 1 and the two short
integration times, in one segment of the T/FN/CL package and in two of the CS package.
-/

namespace Esp8266Toolbox

/-! ## The computation over the integers -/

/-- The full scale of the channels at an integration time: 13.7 ms, 101 ms and 402 ms. -/
def fullScale (time : UInt8) : ℕ := if time = 0 then 5047 else if time = 1 then 37177 else 65535

/-- A raw count after the scaling, over the unbounded integers. -/
def scaledCount (gain time : UInt8) (raw : UInt16) : ℕ :=
  raw.toNat * (luxScale gain time).toNat / 1024

/-- The rounded ratio of the channels, in units of `1 / 512`. -/
def luxRatio (d0 d1 : ℕ) : ℕ := ((if d0 = 0 then 0 else d1 * 1024 / d0) + 1) / 2

/-- The illuminance of two scaled counts with the coefficients `b` and `m`. -/
def luxOf (d0 d1 : ℕ) (bm : UInt16 × UInt16) : ℤ :=
  (max 0 ((d0 : ℤ) * bm.1.toNat - d1 * bm.2.toNat) + 2 ^ 13) / 2 ^ 14

/-- The coefficients of the segment that two raw counts select. -/
def luxCoefficients (gain time type : UInt8) (raw0 raw1 : UInt16) : UInt16 × UInt16 :=
  luxSegment type (luxRatio (scaledCount gain time raw0) (scaledCount gain time raw1))

/-- What `calc_lux` is to return, computed over the unbounded integers. -/
def exactLux (gain time type : UInt8) (raw0 raw1 : UInt16) : ℤ :=
  luxOf (scaledCount gain time raw0) (scaledCount gain time raw1)
    (luxCoefficients gain time type raw0 raw1)

/-- No word that `calc_lux` uses is too large for 32 bits. The difference of the products is
used only where it is not negative. -/
structure NoWrap32 (gain time type : UInt8) (raw0 raw1 : UInt16) : Prop where
  raw0_lt : raw0.toNat * (luxScale gain time).toNat < 2 ^ 32
  raw1_lt : raw1.toNat * (luxScale gain time).toNat < 2 ^ 32
  shifted_lt : scaledCount gain time raw1 * 1024 < 2 ^ 32
  product0_lt : scaledCount gain time raw0 * (luxCoefficients gain time type raw0 raw1).1.toNat +
    2 ^ 13 < 2 ^ 32
  product1_lt : scaledCount gain time raw1 * (luxCoefficients gain time type raw0 raw1).2.toNat <
    2 ^ 32

/-- The documented arguments of `calc_lux`: a gain of 1 or 16, one of the three integration
times, one of the packages, and counts up to the full scale. -/
structure LuxDomain (gain time type : UInt8) (raw0 raw1 : UInt16) : Prop where
  gains : gain = 0 ∨ gain = 1
  times : time = 0 ∨ time = 1 ∨ time = 2
  types : type = 0 ∨ type = 1
  raw0_le : raw0.toNat ≤ fullScale time
  raw1_le : raw1.toNat ≤ fullScale time

/-- The arguments whose illuminance is `2 ^ 16` or more: without the amplification, at an
integration time below 402 ms, with enough light of which little is infrared. -/
def LuxOverflows (gain time type : UInt8) (raw0 raw1 : UInt16) : Prop :=
  let scale := if time = 0 then 479600 else 65136
  let d0 := raw0.toNat * scale / 1024
  let d1 := raw1.toNat * scale / 1024
  gain = 0 ∧ time ≠ 2 ∧
    if type = 0 then 446 * d1 + (2 ^ 30 - 2 ^ 13) ≤ 498 * d0
    else if 1024 * d1 < 135 * d0 then 429 * d1 + (2 ^ 30 - 2 ^ 13) ≤ 516 * d0
    else 705 * d1 + (2 ^ 30 - 2 ^ 13) ≤ 552 * d0

/-! ## The words of `calc_lux` -/

theorem luxSegment_le (type : UInt8) (ratio : ℕ) :
    (luxSegment type ratio).1.toNat ≤ 642 ∧ (luxSegment type ratio).2.toNat ≤ 1022 := by
  unfold luxSegment
  repeat' split
  all_goals decide

theorem toNat_scaled {gain time : UInt8} {raw : UInt16}
    (h : raw.toNat * (luxScale gain time).toNat < 2 ^ 32) :
    ((raw.toUInt32 * luxScale gain time) >>> 10).toNat = scaledCount gain time raw := by
  have hmul : (raw.toUInt32 * luxScale gain time).toNat = raw.toNat * (luxScale gain time).toNat := by
    rw [UInt32.toNat_mul, UInt16.toNat_toUInt32, Nat.mod_eq_of_lt h]
  rw [UInt32.toNat_shiftRight, hmul, show UInt32.toNat 10 % 32 = 10 from rfl,
    Nat.shiftRight_eq_div_pow]
  rfl

theorem toNat_ratio (data0 data1 : UInt32) (h : data1.toNat * 1024 < 2 ^ 32) :
    (((if data0 ≠ 0 then (data1 <<< 10) / data0 else 0) + 1) >>> 1).toNat =
      luxRatio data0.toNat data1.toNat := by
  have hshift : (data1 <<< 10).toNat = data1.toNat * 1024 := by
    rw [UInt32.toNat_shiftLeft, show UInt32.toNat 10 % 32 = 10 from rfl, Nat.shiftLeft_eq,
      Nat.mod_eq_of_lt h]
  by_cases h0 : data0 = 0
  · simp [h0, luxRatio]
  · have hne : data0.toNat ≠ 0 := fun h => h0 (UInt32.toNat_inj.mp h)
    have hlt : data1.toNat * 1024 / data0.toNat + 1 < 2 ^ 32 := by
      have := Nat.div_le_self (data1.toNat * 1024) data0.toNat
      -- the quotient is a multiple of 1024 at most, so adding one does not wrap
      omega
    rw [if_pos h0, UInt32.toNat_shiftRight, UInt32.toNat_add, UInt32.toNat_div, hshift,
      show UInt32.toNat 1 = 1 from rfl, Nat.mod_eq_of_lt hlt, Nat.shiftRight_eq_div_pow, luxRatio,
      if_neg hne]

theorem toNat_rounded {p q : UInt32} (hp : p.toNat + 2 ^ 13 < 2 ^ 32) :
    ((if p < q then 0 else p - q) + ((1 : UInt32) <<< 13)).toNat =
      (p.toNat - q.toNat) + 2 ^ 13 := by
  rw [UInt32.toNat_add, show ((1 : UInt32) <<< 13).toNat = 2 ^ 13 from rfl]
  by_cases h : p < q
  · have : p.toNat < q.toNat := UInt32.lt_iff_toNat_lt.mp h
    rw [if_pos h, UInt32.toNat_zero]
    omega
  · have : q.toNat ≤ p.toNat := Nat.le_of_not_lt fun hlt => h (UInt32.lt_iff_toNat_lt.mpr hlt)
    rw [if_neg h, UInt32.toNat_sub_of_le _ _ (UInt32.le_iff_toNat_le.mpr this)]
    omega

theorem calcLux_eq (gain time type : UInt8) (raw0 raw1 : UInt16) :
    calcLux gain time type raw0 raw1 =
      let data0 := (raw0.toUInt32 * luxScale gain time) >>> 10
      let data1 := (raw1.toUInt32 * luxScale gain time) >>> 10
      let bm := luxSegment type
        (((if data0 ≠ 0 then (data1 <<< 10) / data0 else 0) + 1) >>> 1).toNat
      (((if data0 * bm.1.toUInt32 < data1 * bm.2.toUInt32 then 0
        else data0 * bm.1.toUInt32 - data1 * bm.2.toUInt32) + ((1 : UInt32) <<< 13)) >>>
        14).toUInt16 := rfl

theorem toNat_product {d : UInt32} {c : UInt16} (h : d.toNat * c.toNat < 2 ^ 32) :
    (d * c.toUInt32).toNat = d.toNat * c.toNat := by
  rw [UInt32.toNat_mul, UInt16.toNat_toUInt32, Nat.mod_eq_of_lt h]

theorem luxOf_eq (d0 d1 : ℕ) (bm : UInt16 × UInt16) :
    luxOf d0 d1 bm = ((d0 * bm.1.toNat - d1 * bm.2.toNat + 2 ^ 13) / 2 ^ 14 : ℕ) := by
  unfold luxOf
  push_cast
  omega

/-- Where no word wraps, only the narrowing of the result is left. -/
theorem calcLux_mod {gain time type : UInt8} {raw0 raw1 : UInt16}
    (h : NoWrap32 gain time type raw0 raw1) :
    ((calcLux gain time type raw0 raw1).toNat : ℤ) = exactLux gain time type raw0 raw1 % 2 ^ 16 := by
  have h0 := toNat_scaled h.raw0_lt
  have h1 := toNat_scaled h.raw1_lt
  have hratio := toNat_ratio ((raw0.toUInt32 * luxScale gain time) >>> 10)
    ((raw1.toUInt32 * luxScale gain time) >>> 10) (by rw [h1]; exact h.shifted_lt)
  rw [h0, h1] at hratio
  have hb := h.product0_lt
  have hm := h.product1_lt
  rw [exactLux, luxOf_eq, calcLux_eq]
  dsimp only
  rw [hratio, ← luxCoefficients.eq_def, UInt32.toNat_toUInt16, UInt32.toNat_shiftRight]
  have hp := toNat_product (d := (raw0.toUInt32 * luxScale gain time) >>> 10)
    (c := (luxCoefficients gain time type raw0 raw1).1) (by rw [h0]; omega)
  have hq := toNat_product (d := (raw1.toUInt32 * luxScale gain time) >>> 10)
    (c := (luxCoefficients gain time type raw0 raw1).2) (by rw [h1]; exact hm)
  rw [h0] at hp
  rw [h1] at hq
  rw [toNat_rounded (by rw [hp]; exact hb), hp, hq, show UInt32.toNat 14 % 32 = 14 from rfl,
    Nat.shiftRight_eq_div_pow, Int.natCast_mod]
  rfl

/-! ## The domain -/

section
variable {gain time type : UInt8} {raw0 raw1 : UInt16}

/-- The largest product of a raw count and a scale is that of the full scale at 101 ms. -/
theorem raw_mul_scale_le (hgain : gain = 0 ∨ gain = 1) (htime : time = 0 ∨ time = 1 ∨ time = 2)
    {raw : UInt16} (h : raw.toNat ≤ fullScale time) :
    raw.toNat * (luxScale gain time).toNat ≤ 37177 * 65136 := by
  have hmul := Nat.mul_le_mul_right (luxScale gain time).toNat h
  have hfull : fullScale time * (luxScale gain time).toNat ≤ 37177 * 65136 := by
    rcases hgain with rfl | rfl <;> rcases htime with rfl | rfl | rfl <;> decide
  omega

theorem LuxDomain.noWrap (h : LuxDomain gain time type raw0 raw1) :
    NoWrap32 gain time type raw0 raw1 := by
  have h0 := raw_mul_scale_le h.gains h.times h.raw0_le
  have h1 := raw_mul_scale_le h.gains h.times h.raw1_le
  have hd0 : scaledCount gain time raw0 ≤ 2364805 := by unfold scaledCount; omega
  have hd1 : scaledCount gain time raw1 ≤ 2364805 := by unfold scaledCount; omega
  obtain ⟨hb, hm⟩ := luxSegment_le type
    (luxRatio (scaledCount gain time raw0) (scaledCount gain time raw1))
  have hp := Nat.mul_le_mul hd0 hb
  have hq := Nat.mul_le_mul hd1 hm
  exact ⟨by omega, by omega, by omega, by unfold luxCoefficients; omega,
    by unfold luxCoefficients; omega⟩

/-- The rounded ratio is up to a bound when the infrared channel is below that share of the
other. -/
theorem luxRatio_le_iff {d0 d1 : ℕ} (h : 0 < d0) (r : ℕ) :
    luxRatio d0 d1 ≤ r ↔ 1024 * d1 < (2 * r + 1) * d0 := by
  rw [luxRatio, if_neg (by omega)]
  have hdiv : d1 * 1024 / d0 < 2 * r + 1 ↔ d1 * 1024 < (2 * r + 1) * d0 := Nat.div_lt_iff_lt_mul h
  omega

theorem le_luxOf_iff (d0 d1 : ℕ) (bm : UInt16 × UInt16) :
    2 ^ 16 ≤ luxOf d0 d1 bm ↔ d1 * bm.2.toNat + (2 ^ 30 - 2 ^ 13) ≤ d0 * bm.1.toNat := by
  rw [luxOf_eq]
  omega

/-- With the T/FN/CL package only the first segment reaches 16 bits: from the ratio on where
the second one starts, the infrared channel takes too much away. -/
theorem segment0_iff {d0 d1 : ℕ} (h : d0 ≤ 2364805) :
    2 ^ 16 ≤ luxOf d0 d1 (luxSegment 0 (luxRatio d0 d1)) ↔
      446 * d1 + (2 ^ 30 - 2 ^ 13) ≤ 498 * d0 := by
  rw [le_luxOf_iff]
  rcases Nat.eq_zero_or_pos d0 with rfl | hpos
  · omega
  · simp only [luxSegment, luxRatio_le_iff hpos, if_true]
    split_ifs <;> simp only [UInt16.reduceToNat] <;> omega

/-- With the CS package the second segment reaches 16 bits as well. -/
theorem segment1_iff {d0 d1 : ℕ} (h : d0 ≤ 2364805) :
    2 ^ 16 ≤ luxOf d0 d1 (luxSegment 1 (luxRatio d0 d1)) ↔
      if 1024 * d1 < 135 * d0 then 429 * d1 + (2 ^ 30 - 2 ^ 13) ≤ 516 * d0
      else 705 * d1 + (2 ^ 30 - 2 ^ 13) ≤ 552 * d0 := by
  rw [le_luxOf_iff]
  rcases Nat.eq_zero_or_pos d0 with rfl | hpos
  · split <;> omega
  · simp only [luxSegment, luxRatio_le_iff hpos, show (1 : UInt8) ≠ 0 by decide, if_false]
    split_ifs <;> simp only [UInt16.reduceToNat] <;> omega

/-- The amplified counts and those of 402 ms stay below 16 bits in every segment. -/
theorem luxOf_lt_of_small {d0 : ℕ} (d1 : ℕ) (h : d0 ≤ 1048560) (ratio : ℕ) :
    luxOf d0 d1 (luxSegment type ratio) < 2 ^ 16 := by
  have hb := Nat.mul_le_mul h (luxSegment_le type ratio).1
  refine not_le.mp fun hle => ?_
  have := (le_luxOf_iff d0 d1 _).mp hle
  omega

theorem scaledCount_small (hgain : gain = 0 ∨ gain = 1) (htime : time = 0 ∨ time = 1 ∨ time = 2)
    (h : raw0.toNat ≤ fullScale time) (hs : ¬(gain = 0 ∧ time ≠ 2)) :
    scaledCount gain time raw0 ≤ 1048560 := by
  have hmul := Nat.mul_le_mul_right (luxScale gain time).toNat h
  have hfull : fullScale time * (luxScale gain time).toNat ≤ 65535 * 16384 := by
    rcases hgain with rfl | rfl <;> rcases htime with rfl | rfl | rfl <;>
      first | decide | exact absurd (by decide) hs
  unfold scaledCount
  omega

/-- In the domain the illuminance leaves 16 bits exactly on the overflowing arguments. -/
theorem LuxDomain.overflows_iff (h : LuxDomain gain time type raw0 raw1) :
    2 ^ 16 ≤ exactLux gain time type raw0 raw1 ↔ LuxOverflows gain time type raw0 raw1 := by
  have h0 := raw_mul_scale_le h.gains h.times h.raw0_le
  have hd0 : scaledCount gain time raw0 ≤ 2364805 := by unfold scaledCount; omega
  by_cases hs : gain = 0 ∧ time ≠ 2
  · obtain ⟨rfl, h2⟩ := hs
    have hscale : (luxScale 0 time).toNat = if time = 0 then 479600 else 65136 := by
      rcases h.times with rfl | rfl | rfl
      · rfl
      · rfl
      · exact absurd rfl h2
    unfold exactLux luxCoefficients LuxOverflows
    simp only [← hscale, ← scaledCount.eq_def, h2, ne_eq, not_false_eq_true, true_and]
    rcases h.types with rfl | rfl
    · rw [if_pos rfl]
      exact segment0_iff hd0
    · rw [if_neg (by decide)]
      exact segment1_iff hd0
  · have hlt := @luxOf_lt_of_small type _ (scaledCount gain time raw1)
      (scaledCount_small h.gains h.times h.raw0_le hs)
      (luxRatio (scaledCount gain time raw0) (scaledCount gain time raw1))
    exact iff_of_false (not_le.mpr hlt) fun ho => hs ⟨ho.1, ho.2.1⟩

theorem exactLux_nonneg (gain time type : UInt8) (raw0 raw1 : UInt16) :
    0 ≤ exactLux gain time type raw0 raw1 := by
  rw [exactLux, luxOf_eq]
  omega

/-- The result is exact where the illuminance has 16 bits. -/
theorem LuxDomain.exact_iff (h : LuxDomain gain time type raw0 raw1) :
    ((calcLux gain time type raw0 raw1).toNat : ℤ) = exactLux gain time type raw0 raw1 ↔
      ¬LuxOverflows gain time type raw0 raw1 := by
  have hmod := calcLux_mod h.noWrap
  have hnn := exactLux_nonneg gain time type raw0 raw1
  have hiff := h.overflows_iff
  have hlt : (calcLux gain time type raw0 raw1).toNat < 2 ^ 16 := UInt16.toNat_lt _
  constructor
  · intro he ho
    have := hiff.mpr ho
    omega
  · intro hno
    have := mt hiff.mp hno
    omega

end

/-! ## The result of `tsl2561_lux` -/

/-- In the documented domain no word of `calc_lux` wraps, and its result is the illuminance over
the unbounded integers exactly where that has 16 bits. `tsl2561_lux` returns -1 exactly on an
error of the bus or of the part. -/
theorem calcLux_exact_iff {gain time type : UInt8} {raw0 raw1 : UInt16}
    (h : LuxDomain gain time type raw0 raw1) :
    NoWrap32 gain time type raw0 raw1 ∧
    (((calcLux gain time type raw0 raw1).toNat : ℤ) = exactLux gain time type raw0 raw1 ↔
      ¬LuxOverflows gain time type raw0 raw1) ∧
    ∀ dev, (tsl2561Lux dev).2 = -1 ↔
      (tsl2561Lux dev).1.BusError ∨ (tsl2561Lux dev).1.PartError := by
  refine ⟨h.noWrap, h.exact_iff, fun dev => ?_⟩
  rcases tsl2561Lux_cases dev with ⟨herr, hres⟩ | ⟨hbus, lux, hmeas, hres⟩
  · exact iff_of_true hres herr
  · -- a 16-bit illuminance is not negative, whatever the channels are
    refine iff_of_false (by rw [hres]; omega) ?_
    exact fun he => he.elim hbus (hmeas.not_partError)

/-- Sunlight at the full scale of the measurement that `tsl2561_lux` makes. -/
theorem calcLux_exact_full :
    NoWrap32 1 2 0 65535 65535 ∧
    ((calcLux 1 2 0 65535 65535).toNat : ℤ) = exactLux 1 2 0 65535 65535 ∧
    (tsl2561Lux ⟨fun _ => false, fun _ => 0x51⟩).2 = -1 :=
  have h := @calcLux_exact_iff 1 2 0 65535 65535
    ⟨by decide, by decide, by decide, by decide, by decide⟩
  ⟨h.1, h.2.1.mpr fun ho => absurd ho.1 (by decide), (h.2.2 _).mpr (.inl (by decide))⟩

/-- The full scale of 13.7 ms without infrared light: 71849 lux are returned as 6313. -/
theorem calcLux_narrows :
    LuxDomain 0 0 0 5047 0 ∧ exactLux 0 0 0 5047 0 = 71849 ∧ calcLux 0 0 0 5047 0 = 6313 ∧
    ((calcLux 0 0 0 5047 0).toNat : ℤ) ≠ exactLux 0 0 0 5047 0 :=
  ⟨⟨by decide, by decide, by decide, by decide, by decide⟩, by decide, by decide, by decide⟩

end Esp8266Toolbox
