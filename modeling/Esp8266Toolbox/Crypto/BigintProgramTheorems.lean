import Esp8266Toolbox.Lib.Runs
import Esp8266Toolbox.Crypto.RsaTheorems
import Esp8266Toolbox.Crypto.BigintPrograms

/-!
# The results of programs over `Bigint` variables

Every writer but `bigint_add` leaves a clean number, because it ends in `bigint_copy` or starts
from zeros. `bigint_add` cleans its destination only when it has to shrink it: where the
destination is no larger than the sum, the bits above the sum are what they were.
`results_clean_iff` says of a whole program that its results are all clean exactly when each
addition finds a destination on which this does no harm. The sum itself is right in any
destination (`RawBigint.add_exact`).
-/

namespace Esp8266Toolbox

open Bigint

namespace RawBigint

/-! ## `bigint_add` on arbitrary contents and on a number of the same size -/

@[simp] theorem resize_BITS (s : RawBigint) (n : ℕ) : (s.resize n).BITS = n := by
  unfold resize Bigint.BITS
  simp only
  omega

@[simp] theorem raw_BITS (i : Bigint) : i.raw.BITS = i.BITS := rfl

@[simp] theorem raw_bytes (i : Bigint) : i.raw.bytes = i.bytes := rfl

/-- The contents `s`, which were `s₀`, look to `bigint_add` like the number `t`. The field `bits`
is the old one until the destination has grown. -/
structure Tracks (s₀ s : RawBigint) (t : Bigint) : Prop where
  size : s.BITS = t.BITS
  data : s.data = t.data
  mono : s₀.BITS ≤ s.BITS
  kept : s.BITS = s₀.BITS → s.bits = s₀.bits
  grown : s.BITS ≠ s₀.BITS → s.bits < 8

theorem Tracks.start (s : RawBigint) : Tracks s s (s.resize s.BITS) :=
  ⟨by simp, rfl, le_rfl, fun _ => rfl, fun h => absurd rfl h⟩

theorem Tracks.resize {s₀ s : RawBigint} {t : Bigint} (h : Tracks s₀ s t) (n : ℕ) :
    s.resize n = t.resize n := by
  unfold RawBigint.resize Bigint.resize
  simp only [h.data]

theorem Tracks.BIT {s₀ s : RawBigint} {t : Bigint} (h : Tracks s₀ s t) (n : ℕ) : s.BIT n = t.BIT n := by
  unfold RawBigint.BIT Bigint.BIT
  rw [h.size, h.data]

theorem Tracks.read_BIT {s₀ s : RawBigint} {t : Bigint} (h : Tracks s₀ s t) (a : Src) (n : ℕ) :
    (s.read a).BIT n = (a.read t).BIT n := by
  cases a with
  | dst => exact h.BIT n
  | obj x => rfl

theorem Tracks.read_BITS {s₀ s : RawBigint} {t : Bigint} (h : Tracks s₀ s t) (a : Src) :
    (s.read a).BITS = (a.read t).BITS := by
  cases a with
  | dst => exact h.size
  | obj x => rfl

theorem Tracks.setBit {s₀ s : RawBigint} {t : Bigint} (h : Tracks s₀ s t) (n : ℕ) :
    Tracks s₀ (s.setBit n) (t.setBit n) := by
  obtain ⟨hsize, hdata, hmono, hkept, hgrown⟩ := h
  unfold RawBigint.setBit Bigint.setBit
  rw [← hsize, ← hdata]
  split
  · exact ⟨hsize, rfl, hmono, hkept, hgrown⟩
  · exact ⟨hsize, hdata, hmono, hkept, hgrown⟩

theorem Tracks.clrBit {s₀ s : RawBigint} {t : Bigint} (h : Tracks s₀ s t) (n : ℕ) :
    Tracks s₀ (s.clrBit n) (t.clrBit n) := by
  obtain ⟨hsize, hdata, hmono, hkept, hgrown⟩ := h
  unfold RawBigint.clrBit Bigint.clrBit
  rw [← hsize, ← hdata]
  split
  · exact ⟨hsize, rfl, hmono, hkept, hgrown⟩
  · exact ⟨hsize, hdata, hmono, hkept, hgrown⟩

/-- Growing keeps the two alike, and makes room for bit `i`. -/
theorem Tracks.addGrow {s₀ s : RawBigint} {t : Bigint} (h : Tracks s₀ s t) (i : ℕ) :
    Loops.SameEnd (fun s t => Tracks s₀ s t ∧ i < t.BITS) (s.addGrow i) (Esp8266Toolbox.addGrow t i) := by
  unfold RawBigint.addGrow Esp8266Toolbox.addGrow
  rw [h.size, h.resize]
  by_cases hge : i ≥ t.BITS
  · have hsize := h.size
    have hmono := h.mono
    have hB : (t.resize (i + 1)).BITS = i + 1 := Bigint.resize_BITS t (i + 1)
    rw [if_pos hge, if_pos hge]
    by_cases hfull : (t.resize (i + 1)).bytes ≥ dataMaxlen - 1
    · have hraw := hfull
      rw [← raw_bytes] at hraw
      simp only [if_pos hraw, if_pos hfull]
      trivial
    · have hraw := hfull
      rw [← raw_bytes] at hraw
      simp only [if_neg hraw, if_neg hfull]
      refine ⟨⟨rfl, rfl, ?_, fun heq => ?_, fun _ => (t.resize (i + 1)).bits_lt⟩, by omega⟩
      · change s₀.BITS ≤ (t.resize (i + 1)).BITS
        omega
      · -- the size has become larger than the first one
        change (t.resize (i + 1)).BITS = s₀.BITS at heq
        omega
  · rw [if_neg hge, if_neg hge]
    exact ⟨h, by omega⟩

/-- The destination and the carry of the loop. -/
def TracksCarry (s₀ : RawBigint) (sc : RawBigint × ℕ) (tc : Bigint × ℕ) : Prop :=
  Tracks s₀ sc.1 tc.1 ∧ sc.2 = tc.2

theorem TracksCarry.addStep {s₀ : RawBigint} {sc : RawBigint × ℕ} {tc : Bigint × ℕ}
    (h : TracksCarry s₀ sc tc) (a b : Src) (i : ℕ) :
    Loops.SameEnd (TracksCarry s₀) (RawBigint.addStep a b sc i) (Esp8266Toolbox.addStep a b tc i) := by
  unfold RawBigint.addStep Esp8266Toolbox.addStep
  refine (h.1.addGrow i).bind fun s t ⟨hst, _⟩ => ?_
  simp only [hst.read_BIT, h.2]
  split_ifs
  · exact ⟨hst.setBit i, rfl⟩
  · exact ⟨hst.clrBit i, rfl⟩
  · exact ⟨hst.setBit i, rfl⟩
  · exact ⟨hst.clrBit i, rfl⟩

theorem Tracks.addCarry {s₀ s : RawBigint} {t : Bigint} (h : Tracks s₀ s t) (c m : ℕ) :
    Loops.SameEnd (Tracks s₀) (s.addCarry c m) (Esp8266Toolbox.addCarry t c m) := by
  unfold RawBigint.addCarry Esp8266Toolbox.addCarry
  by_cases hc : c = 1
  · rw [if_pos hc, if_pos hc]
    refine (h.addGrow m).bind fun s₁ t₁ ⟨h₁, hm⟩ => ?_
    have hset := h₁.setBit m
    -- there is room for bit `m`, so the second resizing does not happen
    have hroom : ¬m ≥ (t₁.setBit m).BITS := by rw [setBit_BITS]; omega
    simp only [hset.size, if_neg hroom]
    exact hset
  · rw [if_neg hc, if_neg hc]
    exact h

theorem Tracks.addLoop (s : RawBigint) (a b : Src) (m : ℕ) :
    Loops.SameEnd (TracksCarry s) ((List.range m).foldlM (RawBigint.addStep a b) (s, 0))
      ((List.range m).foldlM (Esp8266Toolbox.addStep a b) (s.resize s.BITS, 0)) :=
  Loops.foldlM_sameEnd (fun _ _ i h => h.addStep a b i) _ ⟨.start s, rfl⟩

/-! ## When the result of `bigint_add` is clean -/

/-- The size of the sum that `bigint_add` writes over `s`. -/
def sumSize (s : RawBigint) (a b : Src) : ℕ :=
  sumBITS (a.read (s.resize s.BITS)) (b.read (s.resize s.BITS))

/-- The operands of `bigint_add` into `s` are clean numbers that fit the array. -/
structure Operands (s : RawBigint) (a b : Src) : Prop where
  left : (a.read (s.resize s.BITS)).Clean
  right : (b.read (s.resize s.BITS)).Clean
  small : max (a.read (s.resize s.BITS)).BITS (b.read (s.resize s.BITS)).BITS < 8 * (dataMaxlen - 1)

/-- What `bigint_add` returns: the destination with the sum in its lowest `n` bits, shrunk and
cleaned when it is larger than that. -/
theorem add_ok {s : RawBigint} {a b : Src} (h : Operands s a b)
    (hcap : s.sumSize a b < 8 * (dataMaxlen - 1) ∨ s.sumSize a b ≤ s.BITS) :
    ∃ s₂ t₂, Tracks s s₂ t₂ ∧ t₂.BITS = max s.BITS (s.sumSize a b) ∧
      t₂.num % 2 ^ s.sumSize a b = (a.read (s.resize s.BITS)).num + (b.read (s.resize s.BITS)).num ∧
      (∀ k, s.sumSize a b ≤ k → t₂.num.testBit k = s.data.num.testBit k) ∧
      s.add a b = .ok (if t₂.BITS > s.sumSize a b then (normalize (t₂.resize (s.sumSize a b))).raw else s₂) := by
  obtain ⟨t₁, c, t₂, hloop, hn, hcarry, hB, hsum, hrest⟩ := bigintAdd_parts (s.resize s.BITS) a b
    h.left h.right h.small (by rw [resize_BITS]; exact hcap)
  rw [resize_BITS] at hB
  obtain ⟨⟨s₁, c'⟩, hloop', h₁, hc⟩ := (Tracks.addLoop s a b _).of_ok hloop
  obtain ⟨s₂, hcarry', h₂⟩ := (h₁.addCarry c _).of_ok hcarry
  simp only at hc h₁ hcarry'
  refine ⟨s₂, t₂, h₂, hB, hsum, hrest, ?_⟩
  simp only [add]
  rw [(Tracks.start s).read_BITS a, (Tracks.start s).read_BITS b, hloop', Loops.ok_bind]
  simp only
  rw [hc, hcarry', Loops.ok_bind, h₂.size, h₂.resize, hn]
  rfl

/-- A sum that needs the whole array does not fit a destination that has to grow for it. -/
theorem add_full {s : RawBigint} {a b : Src} (h : Operands s a b)
    (hfull : 8 * (dataMaxlen - 1) ≤ s.sumSize a b) (hs : s.BITS < s.sumSize a b) :
    ∃ z, s.add a b = .error z := by
  obtain ⟨t₁, c, hloop, hc1, hn, hB, -, -⟩ := addLoop_parts (s.resize s.BITS) a b h.left h.right h.small
  obtain ⟨⟨s₁, c'⟩, hloop', h₁, hc⟩ := (Tracks.addLoop s a b _).of_ok hloop
  have hsmall := h.small
  unfold sumSize at hfull hs
  rw [← hn] at hfull hs
  rw [resize_BITS] at hB
  simp only at hc h₁
  have hcone : c = 1 := by omega
  have hgrow := addGrow_full (s := t₁) (i := max (a.read (s.resize s.BITS)).BITS
    (b.read (s.resize s.BITS)).BITS) (by omega) (by omega)
  obtain ⟨z, hz⟩ := (h₁.addGrow _).of_error hgrow
  refine ⟨z, ?_⟩
  simp only [add]
  rw [(Tracks.start s).read_BITS a, (Tracks.start s).read_BITS b, hloop', Loops.ok_bind]
  simp only
  rw [hc, hcone, addCarry, if_pos rfl, hz]
  rfl

/-- The destination `s` of an addition whose sum has `n` bits. A sum within the capacity does no
harm where the destination is larger than it and so is cleaned, or where nothing is set above the
sum (and a destination of exactly that size has a proper `bits` field); a larger sum must not find
a destination it fits. -/
def SafeFor (s : RawBigint) (n : ℕ) : Prop :=
  if n < 8 * (dataMaxlen - 1) then n < s.BITS ∨ (s.BITS = n → s.bits < 8) ∧ s.data.num < 2 ^ n
  else s.BITS < n

instance (s : RawBigint) (n : ℕ) : Decidable (s.SafeFor n) := by unfold SafeFor; infer_instance

/-- A well-formed number is clean as contents when it is within the capacity and clean. -/
theorem clean_raw_iff (i : Bigint) : i.raw.Clean ↔ i.BITS < 8 * (dataMaxlen - 1) ∧ i.Clean := by
  have hbits := i.bits_lt
  unfold Clean Bigint.Clean Bigint.raw
  simp only [Bigint.num]
  rw [show 8 * i.bytes + i.bits = i.BITS by unfold Bigint.BITS; omega]
  unfold Bigint.BITS dataMaxlen
  constructor
  · rintro ⟨-, hbytes, hhigh⟩
    exact ⟨by omega, hhigh⟩
  · rintro ⟨hsize, hhigh⟩
    exact ⟨hbits, by omega, hhigh⟩

/-- A larger destination is shrunk and cleaned, which gives a clean number within the capacity. -/
theorem clean_shrunk_iff {s : RawBigint} {a b : Src} {t : Bigint} (h : Operands s a b)
    (hle : s.sumSize a b ≤ 8 * (dataMaxlen - 1))
    (hsum : t.num % 2 ^ s.sumSize a b = (a.read (s.resize s.BITS)).num + (b.read (s.resize s.BITS)).num)
    (hs : s.sumSize a b < s.BITS) :
    (normalize (t.resize (s.sumSize a b))).raw.Clean ↔ s.SafeFor (s.sumSize a b) := by
  have hsmall := h.small
  obtain ⟨hclean, -, hsz⟩ := normalize_spec (t.resize (s.sumSize a b))
  rw [Bigint.resize_BITS] at hsz
  rw [clean_raw_iff, SafeFor]
  by_cases hn : s.sumSize a b < 8 * (dataMaxlen - 1)
  · rw [if_pos hn]
    unfold dataMaxlen at *
    exact ⟨fun _ => Or.inl hs, fun _ => ⟨by omega, hclean⟩⟩
  · -- the sum itself needs more than the capacity
    rw [if_neg hn]
    have hlow := two_pow_le_of_sumBITS (a := a.read (s.resize s.BITS)) (b := b.read (s.resize s.BITS))
      (by unfold sumSize at hn; omega)
    have hlt := hclean.lt
    rw [normalize_num, Bigint.value, Bigint.resize_BITS, Bigint.resize_num, hsum] at hlt
    have hexp := (Nat.pow_lt_pow_iff_right (by norm_num : 1 < 2)).mp (lt_of_le_of_lt hlow hlt)
    unfold sumSize at hn hs
    constructor
    · intro h
      have hroom := h.1
      unfold sumSize at hroom
      omega
    · intro _
      omega

/-- A destination that has grown to the sum, or had its size, keeps the bits above the sum. -/
theorem clean_grown_iff {s s₂ : RawBigint} {t₂ : Bigint} {n : ℕ} (htr : Tracks s s₂ t₂)
    (hB : t₂.BITS = n) (hs : s.BITS ≤ n) (hle : n ≤ 8 * (dataMaxlen - 1))
    (hcap : n < 8 * (dataMaxlen - 1) ∨ n ≤ s.BITS)
    (hrest : ∀ k, n ≤ k → t₂.num.testBit k = s.data.num.testBit k) :
    s₂.Clean ↔ s.SafeFor n := by
  have hsize := htr.size
  have hbits : s₂.bits < 8 ↔ (s.BITS = n → s.bits < 8) := by
    constructor
    · intro hlt heq
      rw [← htr.kept (by omega)]
      exact hlt
    · intro himp
      by_cases heq : s₂.BITS = s.BITS
      · rw [htr.kept heq]
        exact himp (by omega)
      · exact htr.grown heq
  have hhigh : (∀ k, s₂.BITS ≤ k → s₂.data.num.testBit k = false) ↔ s.data.num < 2 ^ n := by
    rw [htr.data, hsize, hB, lt_two_pow_iff_testBit]
    exact forall₂_congr fun k hk => by rw [← hrest k hk, Bigint.num]
  have hs₂ : s₂.bytes * 8 + s₂.bits = n := by
    change s₂.BITS = n
    omega
  have hclean : s₂.Clean ↔ s₂.bits < 8 ∧ s₂.bytes ≤ 148 ∧ s.data.num < 2 ^ n := by
    unfold Clean
    rw [← hhigh, show 8 * s₂.bytes + s₂.bits = s₂.BITS by unfold BITS; omega]
  rw [hclean, hbits, SafeFor]
  unfold dataMaxlen at *
  by_cases hn : n < 8 * (150 - 1)
  · rw [if_pos hn]
    constructor
    · rintro ⟨hb, -, hnum⟩
      exact Or.inr ⟨hb, hnum⟩
    · rintro (hgt | ⟨hb, hnum⟩)
      · omega
      · exact ⟨hb, by omega, hnum⟩
  · -- a destination of exactly the full size cannot be a clean number
    rw [if_neg hn]
    constructor
    · rintro ⟨hb, hbytes, -⟩
      rw [← hbits] at hb
      omega
    · intro hlt
      omega

/-- **`bigint_add`** into arbitrary contents leaves a clean number if and only if the contents are
safe for the sum. -/
theorem add_clean_iff {s : RawBigint} {a b : Src} (h : Operands s a b) :
    (∀ z, s.add a b = .ok z → z.Clean) ↔ s.SafeFor (s.sumSize a b) := by
  have hsmall := h.small
  have hle : s.sumSize a b ≤ 8 * (dataMaxlen - 1) := by
    unfold sumSize sumBITS
    split <;> omega
  by_cases hcap : s.sumSize a b < 8 * (dataMaxlen - 1) ∨ s.sumSize a b ≤ s.BITS
  · obtain ⟨s₂, t₂, htr, hB, hsum, hrest, hadd⟩ := add_ok h hcap
    rw [hadd]
    simp only [Except.ok.injEq, forall_eq']
    by_cases hbig : t₂.BITS > s.sumSize a b
    · rw [if_pos hbig]
      exact clean_shrunk_iff h hle hsum (by omega)
    · rw [if_neg hbig]
      exact clean_grown_iff htr (by omega) (by omega) hle hcap hrest
  · -- the call fails, and there is nothing to be clean
    obtain ⟨z, hz⟩ := add_full h (by omega) (by omega)
    rw [hz, SafeFor, if_neg (by omega)]
    exact ⟨fun _ => by omega, fun _ z hz => by cases hz⟩

/-! ## The sum in any destination -/

/-- The number given by the lowest `BITS(i)` bits of the contents. -/
def value (i : RawBigint) : ℕ := i.data.num % 2 ^ i.BITS

theorem Clean.value_eq {i : RawBigint} (h : i.Clean) : i.value = i.data.num := by
  refine Nat.mod_eq_of_lt (lt_two_pow_iff_testBit.mpr fun k hk => h.2.2 k ?_)
  unfold BITS at hk
  omega

/-- An operand that aliases the destination reads the same size and data, whatever way the size
is split into `bytes` and `bits`. -/
theorem read_resize (s : RawBigint) (a : Src) :
    (a.read (s.resize s.BITS)).BITS = (s.read a).BITS ∧
      (a.read (s.resize s.BITS)).num = (s.read a).data.num := by
  cases a with
  | dst => exact ⟨resize_BITS s s.BITS, rfl⟩
  | obj x => exact ⟨rfl, rfl⟩

theorem Clean.operand {s : RawBigint} {a : Src} (h : (s.read a).Clean) :
    (a.read (s.resize s.BITS)).Clean := by
  obtain ⟨hB, hnum⟩ := read_resize s a
  rw [Bigint.clean_iff, hB, hnum, ← h.value_eq]
  exact Nat.mod_lt _ (Nat.two_pow_pos _)

/-- **`bigint_add`** is exact: for clean operands of at most 1190 bits and a destination that is
one of them, both, or holds anything, it succeeds and leaves their sum in the lowest `BITS` bits
of the destination. -/
theorem add_exact {s : RawBigint} {a b : Src} (ha : (s.read a).Clean) (hb : (s.read b).Clean)
    (hm : max (s.read a).BITS (s.read b).BITS ≤ 1190) :
    ∃ z, s.add a b = .ok z ∧ z.value = (s.read a).value + (s.read b).value := by
  obtain ⟨hBa, hna⟩ := read_resize s a
  obtain ⟨hBb, hnb⟩ := read_resize s b
  have hcap : s.sumSize a b ≤ 1191 := by
    unfold sumSize sumBITS
    split <;> omega
  have hops : Operands s a b := ⟨ha.operand, hb.operand, by unfold dataMaxlen; omega⟩
  obtain ⟨s₂, t₂, htr, hB, hsum, -, hadd⟩ := add_ok hops (.inl (by unfold dataMaxlen; omega))
  rw [hna, hnb, ← ha.value_eq, ← hb.value_eq] at hsum
  refine ⟨_, hadd, ?_⟩
  by_cases hbig : t₂.BITS > s.sumSize a b
  · -- a larger destination is shrunk to the sum, and normalization keeps the value
    rw [if_pos hbig, ← hsum]
    have hclean := (normalize_spec (t₂.resize (s.sumSize a b))).1
    change (normalize (t₂.resize (s.sumSize a b))).value = _
    rw [hclean.value_eq, normalize_num, Bigint.value, Bigint.resize_BITS, Bigint.resize_num]
  · -- otherwise the destination has grown to exactly the size of the sum
    rw [if_neg hbig, value, htr.size, htr.data, ← hsum, show t₂.BITS = s.sumSize a b by omega]
    rfl

/-- `200 + 200` into a variable whose every field is all ones. -/
theorem add_exact_spoiled :
    ∃ z, (⟨65535, 255, ⟨List.replicate dataMaxlen 255, List.length_replicate⟩⟩ : RawBigint).add
        (.obj ⟨1, 0, (Buf.zero _).set 0 200, by decide⟩) (.obj ⟨1, 0, (Buf.zero _).set 0 200, by decide⟩) =
      .ok z ∧ z.value = 200 + 200 :=
  have hclean : RawBigint.Clean (Bigint.raw ⟨1, 0, (Buf.zero _).set 0 200, by decide⟩) :=
    (clean_raw_iff _).mpr ⟨by decide, (Bigint.clean_iff _).mpr (by decide +kernel)⟩
  have hval : (Bigint.raw ⟨1, 0, (Buf.zero _).set 0 200, by decide⟩).value = 200 := by decide +kernel
  have h := @add_exact ⟨65535, 255, ⟨List.replicate dataMaxlen 255, List.length_replicate⟩⟩
    (.obj ⟨1, 0, (Buf.zero _).set 0 200, by decide⟩) (.obj ⟨1, 0, (Buf.zero _).set 0 200, by decide⟩)
    hclean hclean (by decide)
  hval ▸ h

end RawBigint

namespace Bigint

/-! ## The sizes that the functions leave -/

/-- The size is within the capacity: at most 148 whole bytes. -/
def Small (i : Bigint) : Prop := i.BITS < 8 * (dataMaxlen - 1)

theorem small_iff (i : Bigint) : i.Small ↔ i.bytes < dataMaxlen - 1 := by
  have hbits := i.bits_lt
  unfold Small BITS
  omega

theorem addGrow_small {s s' : Bigint} {i : ℕ} (h : addGrow s i = .ok s') (hs : s.Small) : s'.Small := by
  unfold addGrow at h
  by_cases hge : i ≥ s.BITS
  · rw [if_pos hge] at h
    by_cases hfull : (s.resize (i + 1)).bytes ≥ dataMaxlen - 1
    · simp only [if_pos hfull] at h
      cases h
    · simp only [if_neg hfull] at h
      cases h
      rw [small_iff]
      omega
  · rw [if_neg hge] at h
    cases h
    exact hs

theorem addStep_small {a b : Src} {sc sc' : Bigint × ℕ} {i : ℕ} (h : addStep a b sc i = .ok sc')
    (hs : sc.1.Small) : sc'.1.Small := by
  unfold addStep at h
  obtain ⟨s₁, hgrow, hrest⟩ := Loops.bind_eq_ok h
  have h₁ := addGrow_small hgrow hs
  unfold Small at h₁ ⊢
  simp only at hrest
  split_ifs at hrest
  all_goals
    cases hrest
    simpa using h₁

theorem addCarry_small {s s' : Bigint} {c m : ℕ} (h : addCarry s c m = .ok s') (hs : s.Small) :
    s'.Small := by
  unfold addCarry at h
  by_cases hc : c = 1
  · rw [if_pos hc] at h
    obtain ⟨s₁, hgrow, hrest⟩ := Loops.bind_eq_ok h
    have h₁ := addGrow_small hgrow hs
    have h₂ : (s₁.setBit m).Small := by unfold Small at h₁ ⊢; rwa [setBit_BITS]
    simp only at hrest
    by_cases hm : m ≥ (s₁.setBit m).BITS
    · rw [if_pos hm] at hrest
      by_cases hfull : ((s₁.setBit m).resize m).bytes ≥ dataMaxlen - 1
      · rw [if_pos hfull] at hrest
        cases hrest
      · rw [if_neg hfull] at hrest
        cases hrest
        rw [small_iff]
        omega
    · rw [if_neg hm] at hrest
      cases hrest
      exact h₂
  · rw [if_neg hc] at h
    cases h
    exact hs

theorem normalize_small {i : Bigint} (h : i.Small) : (normalize i).Small := by
  obtain ⟨-, -, hsz⟩ := normalize_spec i
  unfold Small dataMaxlen at *
  omega

/-- A successful `bigint_add` into a number within the capacity stays within it. -/
theorem bigintAdd_small {s s' : Bigint} {a b : Src} (h : bigintAdd s a b = .ok s') (hs : s.Small) :
    s'.Small := by
  unfold bigintAdd at h
  obtain ⟨⟨s₁, c⟩, hloop, hrest⟩ := Loops.bind_eq_ok h
  have h₁ := Loops.foldlM_inv (fun sc : Bigint × ℕ => sc.1.Small)
    (fun _ _ _ hsc hstep => addStep_small hstep hsc) _ (s := (s, 0)) hs hloop
  obtain ⟨s₂, hcarry, hret⟩ := Loops.bind_eq_ok hrest
  have h₂ := addCarry_small hcarry h₁
  cases hret
  split_ifs with hbig
  · apply normalize_small
    unfold Small at h₂ ⊢
    rw [resize_BITS]
    omega
  · exact h₂

theorem addCode_small {s s' : Bigint} {a b : Src} (h : addCode (bigintAdd s a b) = .ok s') (hs : s.Small) :
    s'.Small := by
  rcases hadd : bigintAdd s a b with e | t
  · rw [hadd] at h
    cases h
  · rw [hadd] at h
    cases h
    exact bigintAdd_small hadd hs

theorem leftShift_small {i j : Bigint} (h : i.leftShift = .ok j) (hi : i.Small) : j.Small := by
  rw [small_iff] at hi ⊢
  unfold leftShift at h
  simp only at h
  split_ifs at h with h8 hov
  all_goals
    cases h
    simp only
    omega

theorem divGrow_small {q q' : Bigint} (h : divGrow q = .ok q') (hq : q.Small) : q'.Small := by
  rw [small_iff] at hq ⊢
  unfold divGrow at h
  split_ifs at h with h8 hov
  all_goals
    cases h
    simp only
    omega

theorem bigintZero_small : bigintZero.Small := by
  unfold Small
  decide

theorem bigintCopy_small {i : Bigint} (h : i.Small) : (bigintCopy i).Small := by
  obtain ⟨hB, -, -⟩ := bigintCopy_spec i
  unfold Small
  rw [hB]
  exact h

/-- What `bigint_copy` writes from a number within the capacity is clean. -/
theorem copy_raw_clean {i : Bigint} (h : i.Small) : (bigintCopy i).raw.Clean :=
  (RawBigint.clean_raw_iff _).mpr ⟨bigintCopy_small h, (bigintCopy_spec i).2.2⟩

/-! ## The results of the other functions -/

theorem mulStep_small {b : Bigint} {st st' : Bigint × Bigint} {i : ℕ} (h : mulStep b st i = .ok st')
    (hst : st.1.Small) : st'.1.Small := by
  unfold mulStep at h
  by_cases hbit : b.BIT i = 1
  · rw [if_pos hbit] at h
    obtain ⟨pt, hadd, hrest⟩ := Loops.bind_eq_ok h
    obtain ⟨at', -, hret⟩ := Loops.bind_eq_ok hrest
    cases hret
    exact addCode_small hadd hst
  · rw [if_neg hbit] at h
    obtain ⟨pt, hpt, hrest⟩ := Loops.bind_eq_ok h
    obtain ⟨at', -, hret⟩ := Loops.bind_eq_ok hrest
    cases hpt
    cases hret
    exact hst

/-- `bigint_mul` leaves a clean product, whatever its operands are. -/
theorem bigintMul_clean {a b p : Bigint} (h : bigintMul a b = .ok p) : p.raw.Clean := by
  unfold bigintMul at h
  obtain ⟨st, hloop, hret⟩ := Loops.bind_eq_ok h
  cases hret
  have hsmall := Loops.foldlM_inv (fun st : Bigint × Bigint => st.1.Small)
    (fun _ _ _ hst hstep => mulStep_small hstep hst) _ (s := (bigintZero, bigintCopy a))
    bigintZero_small hloop
  exact copy_raw_clean hsmall

theorem divStep_small {a b bc : Bigint} {st st' : Bigint × Bigint} {i : ℕ}
    (h : divStep a b bc st i = .ok st') (hst : st.1.Small ∧ st.2.Small) : st'.1.Small ∧ st'.2.Small := by
  unfold divStep at h
  obtain ⟨rt, hshift, hrest⟩ := Loops.bind_eq_ok h
  obtain ⟨qt, hgrow, hrest⟩ := Loops.bind_eq_ok hrest
  have hrt := leftShift_small hshift hst.2
  have hqt := divGrow_small hgrow hst.1
  simp only at hrest
  split_ifs at hrest with hcmp
  · obtain ⟨rt₂, hadd, hrest⟩ := Loops.bind_eq_ok hrest
    have hrt₂ := addCode_small hadd hrt
    -- the remainder is cut to the size of the divisor only when it is larger
    have hcut : (if rt₂.BITS > b.BITS then
        normalize { rt₂ with bytes := b.bytes, bits := b.bits, bits_lt := b.bits_lt } else rt₂).Small := by
      split_ifs with hbig
      · apply normalize_small
        unfold Small at hrt₂ ⊢
        exact lt_trans hbig hrt₂
      · exact hrt₂
    generalize (if rt₂.BITS > b.BITS then
      normalize { rt₂ with bytes := b.bytes, bits := b.bits, bits_lt := b.bits_lt } else rt₂) = rt₃
      at hcut hrest
    split_ifs at hrest with hge
    cases hrest
    refine ⟨?_, hcut⟩
    unfold Small
    rw [setBit_BITS]
    exact hqt
  · cases hrest
    exact ⟨hqt, hrt⟩

/-- `bigint_div` leaves a clean quotient and a clean remainder, whatever its operands are. -/
theorem bigintDiv_clean {a b q r : Bigint} (h : bigintDiv a b = .ok (q, r)) :
    q.raw.Clean ∧ r.raw.Clean := by
  unfold bigintDiv at h
  by_cases hz : bigintIszero b = true
  · rw [if_pos hz] at h
    cases h
  · rw [if_neg hz] at h
    obtain ⟨st, hloop, hret⟩ := Loops.bind_eq_ok h
    cases hret
    obtain ⟨hq, hr⟩ := Loops.foldlM_inv (fun st : Bigint × Bigint => st.1.Small ∧ st.2.Small)
      (fun _ _ _ hst hstep => divStep_small hstep hst) _ (s := (bigintZero, bigintZero))
      ⟨bigintZero_small, bigintZero_small⟩ hloop
    exact ⟨copy_raw_clean (normalize_small hq), copy_raw_clean (normalize_small hr)⟩

theorem raw_small {i : Bigint} (h : i.raw.Clean) : i.Small := ((RawBigint.clean_raw_iff i).mp h).1

theorem expmodStep_small {r b c x x' : Bigint} {i : ℕ} (h : expmodStep r b c x i = .ok x') :
    x'.Small := by
  unfold expmodStep at h
  obtain ⟨y, -, hrest⟩ := Loops.bind_eq_ok h
  obtain ⟨⟨q, y⟩, hdiv, hrest⟩ := Loops.bind_eq_ok hrest
  simp only at hrest
  split_ifs at hrest with hbit
  · obtain ⟨z, -, hrest⟩ := Loops.bind_eq_ok hrest
    obtain ⟨⟨q', z⟩, hdiv', hret⟩ := Loops.bind_eq_ok hrest
    cases hret
    exact raw_small (bigintDiv_clean hdiv').2
  · cases hrest
    exact raw_small (bigintDiv_clean hdiv).2

/-- `bigint_expmod` leaves a clean power, whatever its operands are. -/
theorem bigintExpmod_clean {a b c x : Bigint} (h : bigintExpmod a b c = .ok x) : x.raw.Clean := by
  unfold bigintExpmod at h
  obtain ⟨⟨q, r⟩, -, hrest⟩ := Loops.bind_eq_ok h
  obtain ⟨xt, hloop, hret⟩ := Loops.bind_eq_ok hrest
  cases hret
  have hone : (bigintZero.setBit 0).Small := by
    unfold Small
    rw [setBit_BITS]
    exact bigintZero_small
  exact copy_raw_clean (Loops.foldlM_inv Small (fun _ _ _ _ hstep => expmodStep_small hstep) _
    hone hloop)

theorem fromhexLoop_small {i j : Bigint} {cs : List UInt8} (h : fromhexLoop i cs = .ok j) (hi : i.Small) :
    j.Small := by
  induction i, cs using fromhexLoop.induct with
  | case1 i =>
    rw [fromhexLoop] at h
    cases h
    exact hi
  | case2 i c hc =>
    rw [fromhexLoop, hc] at h
    cases h
  | case3 i c l hc =>
    rw [fromhexLoop, hc] at h
    cases h
    exact (small_iff _).mpr ((small_iff i).mp hi)
  | case4 i c c' cs l hd hh hl i' hover =>
    rw [fromhexLoop, hl, hh] at h
    simp only at h
    rw [if_pos hover] at h
    cases h
  | case5 i c c' cs l hd hh hl i' hroom ih =>
    rw [fromhexLoop, hl, hh] at h
    simp only at h
    rw [if_neg hroom] at h
    -- there was room for one byte more
    exact ih h ((small_iff i').mpr (by omega))
  | case6 i c c' cs hbad =>
    rw [fromhexLoop] at h
    split at h
    · rename_i l hd hl hh
      exact absurd hh fun hh => hbad l hd hl hh
    · cases h

/-- `bigint_fromhex` leaves a clean number. -/
theorem bigintFromhex_clean {s : List UInt8} {x : Bigint} (h : bigintFromhex s = .ok x) : x.raw.Clean := by
  have hsmall := fromhexLoop_small h (by unfold Small; decide)
  rcases bigintFromhex_spec s with ⟨rv, herr, -⟩ | ⟨v, j, -, hok, -, hclean, -⟩
  · rw [herr] at h
    cases h
  · rw [hok] at h
    cases h
    exact (RawBigint.clean_raw_iff _).mpr ⟨hsmall, hclean⟩

end Bigint

namespace Cells

variable {ι : Type*}

/-! ## The steps of a program -/

/-- Every result is a clean number. -/
def AllClean (v : ι → Cell) : Prop := ∀ i, (v i).result = true → (v i).content.Clean

/-- Every result is clean, and `bigint_cmp` on any two of them compares their values. -/
def Sound (v : ι → Cell) : Prop :=
  AllClean v ∧ ∀ i j x y, fetch v i = some x → fetch v j = some y →
    IsCmp (bigintCmp x y) x.value y.value

/-- A call of `bigint_add` finds a destination that is safe for the size of the sum. -/
def AddSafe (v : ι → Cell) : Instr ι → Prop
  | .add s a b =>
    match fetch v a, fetch v b with
    | some x, some y => (v s).content.SafeFor (sumBITS x y)
    | _, _ => True
  | _ => True

theorem fetch_eq_some {v : ι → Cell} {i : ι} {x : Bigint} :
    fetch v i = some x ↔ (v i).result = true ∧ (v i).content = x.raw := by
  unfold fetch RawBigint.checked
  constructor
  · intro h
    split_ifs at h with hres hbits
    cases h
    exact ⟨hres, rfl⟩
  · rintro ⟨hres, hcontent⟩
    rw [if_pos hres, hcontent, dif_pos (show x.raw.bits < 8 from x.bits_lt)]
    rfl

theorem AllClean.raw_clean {v : ι → Cell} (hv : AllClean v) {i : ι} {x : Bigint} (h : Cells.fetch v i = some x) :
    x.raw.Clean := by
  obtain ⟨hres, hcontent⟩ := fetch_eq_some.mp h
  rw [← hcontent]
  exact hv i hres

theorem AllClean.sound {v : ι → Cell} (hv : AllClean v) : Sound v := by
  refine ⟨hv, fun i j x y hx hy => ?_⟩
  have hxc := ((RawBigint.clean_raw_iff x).mp (hv.raw_clean hx)).2
  have hyc := ((RawBigint.clean_raw_iff y).mp (hv.raw_clean hy)).2
  rw [hxc.value_eq, hyc.value_eq]
  exact bigintCmp_spec hxc hyc

variable [DecidableEq ι]

theorem AllClean.succeed {v : ι → Cell} (hv : AllClean v) {x : RawBigint} (hx : x.Clean) (d : ι) :
    AllClean (succeed v d x) := by
  intro i hi
  by_cases hd : i = d
  · subst hd
    simpa [Cells.succeed] using hx
  · simp only [Cells.succeed, Function.update_of_ne hd] at hi ⊢
    exact hv i hi

theorem AllClean.succeedOpt {v : ι → Cell} (hv : AllClean v) {x : RawBigint} (hx : x.Clean) (d : Option ι) :
    AllClean (succeedOpt v d x) := by
  cases d with
  | none => exact hv
  | some d => exact hv.succeed hx d

theorem AllClean.spoil {v : ι → Cell} (hv : AllClean v) (d : ι) (x : RawBigint) :
    AllClean (spoil v d x) := by
  intro i hi
  by_cases hd : i = d
  · subst hd
    simp [Cells.spoil] at hi
  · simp only [Cells.spoil, Function.update_of_ne hd] at hi ⊢
    exact hv i hi

/-- An operand of `bigint_add`, read through its pointer. -/
theorem operand_read {v : ι → Cell} {s a : ι} {x : Bigint} (ha : fetch v a = some x) :
    (operand s a x).read ((v s).content.resize (v s).content.BITS) = x := by
  unfold operand
  by_cases heq : a = s
  · subst heq
    obtain ⟨-, hcontent⟩ := fetch_eq_some.mp ha
    rw [if_pos rfl, hcontent]
    obtain ⟨hbytes, hbits⟩ := x.BITS_eq_div_mod
    exact eq_of_num hbytes.symm hbits.symm rfl
  · rw [if_neg heq]
    rfl

/-- One addition of two clean results: its result is clean exactly when its destination is safe. -/
theorem AllClean.add_iff {v : ι → Cell} (hv : AllClean v) {s a b : ι} {x y : Bigint}
    (hx : Cells.fetch v a = some x) (hy : Cells.fetch v b = some y) :
    AllClean (exec v (.add s a b)) ↔ (v s).content.SafeFor (sumBITS x y) := by
  obtain ⟨hxs, hxc⟩ := (RawBigint.clean_raw_iff x).mp (hv.raw_clean hx)
  obtain ⟨hys, hyc⟩ := (RawBigint.clean_raw_iff y).mp (hv.raw_clean hy)
  have hops : (v s).content.Operands (operand s a x) (operand s b y) := by
    constructor
    · rw [operand_read hx]; exact hxc
    · rw [operand_read hy]; exact hyc
    · rw [operand_read hx, operand_read hy]; exact max_lt hxs hys
  have hiff := RawBigint.add_clean_iff hops
  unfold RawBigint.sumSize at hiff
  rw [operand_read hx, operand_read hy] at hiff
  rw [← hiff]
  simp only [exec, hx, hy]
  rcases hadd : (v s).content.add (operand s a x) (operand s b y) with z | z
  · -- nothing becomes a result
    exact ⟨fun _ z hz => by (cases hz), fun _ => hv.spoil s z⟩
  · constructor
    · rintro hclean z' ⟨⟩
      simpa [Cells.succeed] using hclean s (by simp [Cells.succeed])
    · intro hz
      exact hv.succeed (hz z rfl) s

theorem AllClean.exec {v : ι → Cell} (hv : AllClean v) {e : Instr ι} (hsafe : AddSafe v e) :
    AllClean (exec v e) := by
  cases e with
  | zero i => exact hv.succeed ((RawBigint.clean_raw_iff _).mpr ⟨bigintZero_small, bigintZero_clean⟩) i
  | fromhex i s =>
    simp only [Cells.exec]
    split
    · rename_i x hx
      exact hv.succeed (bigintFromhex_clean hx) i
    · exact hv.spoil i _
  | copy d s =>
    simp only [Cells.exec]
    split
    · rename_i x hx
      have hclean := hv.raw_clean hx
      -- `bigint_copy` of a variable to itself clears it first
      split_ifs with hds
      · have hzero : RawBigint.Clean { x.raw with data := Buf.zero _ } :=
          ⟨hclean.1, hclean.2.1, fun k _ => by rw [Buf.num_zero, Nat.zero_testBit]⟩
        exact hv.succeed hzero d
      · exact hv.succeed (copy_raw_clean (raw_small hclean)) d
    · exact hv
  | add s a b =>
    rcases hx : Cells.fetch v a with _ | x
    · simp only [Cells.exec, hx]
      exact hv
    rcases hy : Cells.fetch v b with _ | y
    · simp only [Cells.exec, hx, hy]
      exact hv
    -- the only call for which the contents of the destination matter
    simp only [AddSafe, hx, hy] at hsafe
    exact (hv.add_iff hx hy).mpr hsafe
  | mul p a b =>
    simp only [Cells.exec]
    split
    · split
      · rename_i z hz
        exact hv.succeed (bigintMul_clean hz) p
      · exact hv
    · exact hv
  | div q r a b =>
    simp only [Cells.exec]
    split
    · split_ifs
      · exact hv
      · split
        · rename_i qt rt hdiv
          -- the remainder is written last, also where it is the same variable
          obtain ⟨hq, hr⟩ := bigintDiv_clean hdiv
          exact (hv.succeedOpt hq q).succeedOpt hr r
        · exact hv
    · exact hv
  | expmod x a b c =>
    simp only [Cells.exec]
    split
    · split
      · rename_i t ht
        exact hv.succeed (bigintExpmod_clean ht) x
      · exact hv
    · exact hv

/-- A step whose addition finds an unsafe destination leaves a result that is not clean. -/
theorem AllClean.addSafe_of_exec {v : ι → Cell} (hv : AllClean v) {e : Instr ι}
    (hclean : AllClean (Cells.exec v e)) : AddSafe v e := by
  unfold AddSafe
  split
  · rename_i s a b
    split
    · rename_i x y hx hy
      exact (hv.add_iff hx hy).mp hclean
    · trivial
  · trivial

/-! ## Runs of a program -/

/-- **The results of a program are clean**, and `bigint_cmp` agrees with their values, after
each of its calls, if and only if every addition in it finds a destination that is safe for its
sum; whatever the variables hold at the start. -/
theorem results_clean_iff (content : ι → RawBigint) (prog : List (Instr ι)) :
    (∀ pre, pre <+: prog → Sound (pre.foldl Cells.exec (start content))) ↔
      Runs.Along Cells.exec AddSafe (start content) prog := by
  constructor
  · intro h
    rw [Runs.along_iff]
    intro pre e hpre
    have hv := (h pre ((List.prefix_append pre [e]).trans hpre)).1
    have hv' := (h (pre ++ [e]) hpre).1
    rw [List.foldl_append] at hv'
    exact hv.addSafe_of_exec hv'
  · intro h pre hpre
    have hstart : AllClean (start content) := fun i hi => by cases hi
    have hstep : ∀ (v : ι → Cell) e, AddSafe v e → AllClean v → AllClean (Cells.exec v e) :=
      fun v e hsafe hv => hv.exec hsafe
    exact (Runs.foldl_inv_along hstep hstart (Runs.along_take hpre h)).sound

/-- Contents as an uninitialised variable may have them. -/
def leftover : RawBigint := ⟨0, 0, ⟨List.replicate dataMaxlen 255, List.length_replicate⟩⟩

/-- `1 + 1` into an uninitialised variable, and the literal `2`. -/
def onePlusOne : List (Instr (Fin 3)) := [.fromhex 0 [49], .add 1 0 0, .fromhex 2 [50]]

/-- The sum keeps the upper half of its byte from before, and compares as larger than 2. -/
theorem sum_not_clean :
    Runs.Along exec Ready (start fun _ => leftover) onePlusOne ∧
      ¬Sound (onePlusOne.foldl exec (start fun _ => leftover)) := by
  refine ⟨by decide, fun hsound => ?_⟩
  let x : Bigint := ⟨0, 4, leftover.data.set 0 0xf2, by norm_num⟩
  let y : Bigint := ⟨0, 4, (Buf.zero _).set 0 2, by norm_num⟩
  have hx : fetch (onePlusOne.foldl exec (start fun _ => leftover)) 1 = some x := by decide
  have hy : fetch (onePlusOne.foldl exec (start fun _ => leftover)) 2 = some y := by decide
  have hcmp : bigintCmp x y = 1 := by decide
  have hval : x.value = 2 ∧ y.value = 2 := by decide +kernel
  have h := hsound.2 1 2 x y hx hy
  rw [hcmp, hval.1, hval.2] at h
  revert h
  unfold IsCmp
  decide

end Cells
end Esp8266Toolbox
