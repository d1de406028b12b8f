import Esp8266Toolbox.UptimeTheorems

/-!
# The daily mail of `uptime_handler`

The handler compares the day count before its update of `uptime_high` with the one after it, in
the same run. Without an overflow of the counter the two readings are the same instant, so a day
change is seen only by a run that also sees an overflow: such a run compares now with `2^32`
microseconds ago. `SeesMidnight` says for which runs this agrees with the change of the day since
the previous run, and `dailyMails_iff` carries it to all runs of the handler.
-/

namespace Esp8266Toolbox

/-- A day in microseconds. -/
def dayUs : ℕ := 1000000 * 86400

/-- The subjects of the mails that the runs of the handler at the given times send. -/
def dailyMails (chipId : UInt32) : UptimeState → List ℕ → List String
  | _, [] => []
  | s, T :: Ts =>
    let r := uptimeHandler chipId s T T T
    r.2.toList ++ dailyMails chipId r.1 Ts

/-- The runs follow each other, and the first one follows time `L`, at most one period apart. -/
def HandlerRuns : ℕ → List ℕ → Prop
  | _, [] => True
  | L, T :: Ts => L ≤ T ∧ T ≤ L + uptimePeriod ∧ HandlerRuns T Ts

instance HandlerRuns.decidable : (L : ℕ) → (Ts : List ℕ) → Decidable (HandlerRuns L Ts)
  | _, [] => inferInstanceAs (Decidable True)
  | _, T :: Ts =>
    have := HandlerRuns.decidable T Ts
    inferInstanceAs (Decidable (_ ∧ _))

/-- After every run, the handler has sent one mail for each day since boot. -/
def OneMailADay (chipId : UInt32) (Ts : List ℕ) : Prop :=
  ∀ k T, Ts[k]? = some T → (dailyMails chipId .boot (Ts.take (k + 1))).length = T / dayUs

/-- First day that does not end before the 64-bit uptime wraps. -/
def lastDay : ℕ := 213503983

/-- What the run at `T` has to meet when the previous one was at `L`. If the counter has overflowed
in between, no day began during the `2^32` microseconds before `T` except after `L`; if it has not,
no day began after `L`. -/
def SeesMidnight (L T : ℕ) : Prop :=
  T < lastDay * dayUs ∧
    if T / 2 ^ 32 = L / 2 ^ 32 then T / dayUs = L / dayUs else (T - 2 ^ 32) / dayUs = L / dayUs

instance (L T : ℕ) : Decidable (SeesMidnight L T) :=
  inferInstanceAs (Decidable (_ ∧ _))

/-- All runs, the first of which follows time `L`, meet the condition. -/
def AllSeeMidnight : ℕ → List ℕ → Prop
  | _, [] => True
  | L, T :: Ts => SeesMidnight L T ∧ AllSeeMidnight T Ts

instance AllSeeMidnight.decidable : (L : ℕ) → (Ts : List ℕ) → Decidable (AllSeeMidnight L Ts)
  | _, [] => inferInstanceAs (Decidable True)
  | _, T :: Ts =>
    have := AllSeeMidnight.decidable T Ts
    inferInstanceAs (Decidable (_ ∧ _))

/-! ## One run of the handler -/

/-- The day count of a 64-bit uptime fits in 32 bits. -/
theorem uptimeDays_toNat (us : UInt64) : (uptimeDays us).toNat = us.toNat / dayUs := by
  have hlt := us.toNat_lt
  rw [uptimeDays, UInt64.toNat_toUInt32, UInt64.toNat_div, UInt64.toNat_div,
    show (1000000 : UInt64).toNat = 1000000 from rfl, show (86400 : UInt64).toNat = 86400 from rfl,
    Nat.div_div_eq_div_mul]
  unfold dayUs
  omega

/-- A run that follows one at `L` compares the day of the overflows counted so far with the day
of the time now. -/
theorem uptimeHandler_mails {L T : ℕ} {s : UptimeState} (chipId : UInt32) (h : UptimeSync L s)
    (hle : L ≤ T) (hgap : T ≤ L + uptimePeriod) :
    (uptimeHandler chipId s T T T).2.toList.length =
      if (L % 2 ^ 64 / 2 ^ 32 * 2 ^ 32 + T % 2 ^ 32) / dayUs < T % 2 ^ 64 / dayUs then 1 else 0 := by
  have hdays1 := uptimeDays_toNat (uptimeUs s T)
  have hdays2 := uptimeDays_toNat (uptimeUs (uptimeTick s T) T)
  rw [uptimeUs_toNat h] at hdays1
  rw [uptimeUs_toNat (uptimeTick_sync h hle hgap),
    show T % 2 ^ 64 / 2 ^ 32 * 2 ^ 32 + T % 2 ^ 32 = T % 2 ^ 64 by omega] at hdays2
  simp only [uptimeHandler, gt_iff_lt, UInt32.lt_iff_toNat_lt, hdays1, hdays2]
  split
  · rfl
  · rfl

/-- A run without an overflow sends nothing. -/
theorem mails_quiet {L T : ℕ} (hwrap : T / 2 ^ 32 = L / 2 ^ 32) :
    ¬(L % 2 ^ 64 / 2 ^ 32 * 2 ^ 32 + T % 2 ^ 32) / dayUs < T % 2 ^ 64 / dayUs := by
  rw [show L % 2 ^ 64 / 2 ^ 32 * 2 ^ 32 + T % 2 ^ 32 = T % 2 ^ 64 by omega]
  exact Nat.lt_irrefl _

/-- A run that sees an overflow compares with the day `2^32` microseconds ago. -/
theorem mails_overflow {L T : ℕ} (hle : L ≤ T) (hgap : T ≤ L + uptimePeriod)
    (hwrap : T / 2 ^ 32 ≠ L / 2 ^ 32) (hT : T < 2 ^ 64) :
    L % 2 ^ 64 / 2 ^ 32 * 2 ^ 32 + T % 2 ^ 32 = T - 2 ^ 32 ∧ T % 2 ^ 64 = T ∧ 2 ^ 32 ≤ T ∧
      T - 2 ^ 32 ≤ L := by
  have hgap' : T ≤ L + 1200000000 := hgap
  omega

/-- Past `2^64` microseconds the day count starts again, and the first day is not over before
`lastDay`. -/
theorem mails_wrapped {T : ℕ} (hT : 2 ^ 64 ≤ T) (hlast : T < lastDay * dayUs + uptimePeriod) :
    T % 2 ^ 64 / dayUs = 0 := by
  have hlast' : T < 213503983 * 86400000000 + 1200000000 := hlast
  have hlt : T % 2 ^ 64 < 86400000000 := by omega
  exact Nat.div_eq_of_lt hlt

/-- One run counts the days right if and only if it meets its condition. -/
theorem uptimeHandler_counts {L T : ℕ} {s : UptimeState} (chipId : UInt32) (h : UptimeSync L s)
    (hle : L ≤ T) (hgap : T ≤ L + uptimePeriod) (hL : L < lastDay * dayUs) :
    L / dayUs + (uptimeHandler chipId s T T T).2.toList.length = T / dayUs ↔ SeesMidnight L T := by
  have hgap' : T ≤ L + 1200000000 := hgap
  have hL' : L < 213503983 * 86400000000 := hL
  rw [uptimeHandler_mails chipId h hle hgap]
  unfold SeesMidnight
  by_cases hT : T < 2 ^ 64
  · have hlast : T < lastDay * dayUs := Nat.lt_trans hT (by decide)
    by_cases hwrap : T / 2 ^ 32 = L / 2 ^ 32
    · rw [if_neg (mails_quiet hwrap), if_pos hwrap]
      constructor
      · intro hcount
        exact ⟨hlast, hcount.symm⟩
      · rintro ⟨-, hday⟩
        exact hday.symm
    · obtain ⟨hthen, hnow, hpos, hback⟩ := mails_overflow hle hgap hwrap hT
      rw [hthen, hnow, if_neg hwrap]
      -- at most one day begins in the `2^32` microseconds before `T`
      have hday1 : T / dayUs ≤ (T - 2 ^ 32) / dayUs + 1 := by
        unfold dayUs
        omega
      have hday2 : (T - 2 ^ 32) / dayUs ≤ L / dayUs := Nat.div_le_div_right hback
      have hday3 : L / dayUs ≤ T / dayUs := Nat.div_le_div_right hle
      split
      · constructor
        · intro hcount
          exact ⟨hlast, by omega⟩
        · rintro ⟨-, hday⟩
          omega
      · constructor
        · intro hcount
          exact ⟨hlast, by omega⟩
        · rintro ⟨-, hday⟩
          omega
  · -- the 64-bit uptime has wrapped: no mail any more
    rw [mails_wrapped (by omega) (by omega), if_neg (Nat.not_lt_zero _)]
    have hLday : L / dayUs = 213503982 := by
      unfold dayUs
      omega
    by_cases hlast : T < lastDay * dayUs
    · have hlast' : T < 213503983 * 86400000000 := hlast
      have hTday : T / dayUs = 213503982 := by
        unfold dayUs
        omega
      have hthen : (T - 2 ^ 32) / dayUs = 213503982 := by
        unfold dayUs
        omega
      rw [hLday, hTday, hthen]
      simp [hlast]
    · have hlast' : ¬T < 213503983 * 86400000000 := hlast
      have hTday : 213503983 ≤ T / dayUs := by
        unfold dayUs
        omega
      rw [hLday]
      constructor
      · intro hcount
        omega
      · rintro ⟨h, -⟩
        exact absurd h hlast

/-! ## All runs -/

/-- Counting from the previous run on: the counts are right after all of the runs if and only if
each of them meets its condition. -/
theorem dailyMails_from (chipId : UInt32) (Ts : List ℕ) {L n : ℕ} {s : UptimeState}
    (hs : UptimeSync L s) (hruns : HandlerRuns L Ts) (hn : n = L / dayUs)
    (hL : L < lastDay * dayUs) :
    (∀ k T, Ts[k]? = some T → n + (dailyMails chipId s (Ts.take (k + 1))).length = T / dayUs) ↔
      AllSeeMidnight L Ts := by
  -- the first run decides about its own condition, the induction about the rest
  induction Ts generalizing L n s with
  | nil => simp [AllSeeMidnight]
  | cons T Ts ih =>
    rcases hruns with ⟨hle, hgap, hrest⟩
    have hstep := uptimeHandler_counts chipId hs hle hgap hL
    rw [← hn] at hstep
    have hs' : UptimeSync T (uptimeHandler chipId s T T T).1 := uptimeTick_sync hs hle hgap
    constructor
    · intro hall
      have hcount : n + (uptimeHandler chipId s T T T).2.toList.length = T / dayUs := by
        simpa [dailyMails] using hall 0 T rfl
      have hsees := hstep.mp hcount
      refine ⟨hsees, (ih hs' hrest hcount hsees.1).mp fun k T' hk => ?_⟩
      rw [← hall (k + 1) T' hk, List.take_succ_cons]
      simp only [dailyMails, List.length_append]
      omega
    · rintro ⟨hsees, hlater⟩ k T' hk
      have hcount := hstep.mpr hsees
      rcases k with _ | k
      · cases hk
        simpa [dailyMails] using hcount
      · rw [← (ih hs' hrest hcount hsees.1).mpr hlater k T' hk, List.take_succ_cons]
        simp only [dailyMails, List.length_append]
        omega

/-- **The daily mail**: the handler has sent one mail for each day after every one of its runs if
and only if every run meets `SeesMidnight`. -/
theorem dailyMails_iff (chipId : UInt32) (Ts : List ℕ) (hruns : HandlerRuns 0 Ts) :
    OneMailADay chipId Ts ↔ AllSeeMidnight 0 Ts := by
  have h := dailyMails_from chipId Ts uptimeSync_boot hruns (n := 0) (Nat.zero_div _).symm (by decide)
  simp only [Nat.zero_add] at h
  exact h

/-- The runs of the first day, every 20 minutes, end with the first mail. -/
theorem dailyMails_first :
    let Ts : List ℕ := (List.range 72).map fun k => (k + 1) * uptimePeriod
    AllSeeMidnight 0 Ts ∧ OneMailADay 7 Ts := by
  intro Ts
  have hsees : AllSeeMidnight 0 Ts := by decide
  exact ⟨hsees, (dailyMails_iff 7 Ts (by decide +kernel)).mpr hsees⟩

/-- The second day is announced twice when the handler runs every 20 minutes: by the run at
midnight, which sees the 40th overflow, and by the one an hour later, which sees the 41st and
compares with a time just before midnight. -/
theorem dailyMails_twice :
    let Ts : List ℕ := (List.range 147).map fun k => (k + 1) * uptimePeriod
    HandlerRuns 0 Ts ∧ Ts[146]? = some 176400000000 ∧ 176400000000 / dayUs = 2 ∧
      dailyMails 7 .boot Ts =
        ["esp8266-00000007 day 1", "esp8266-00000007 day 2", "esp8266-00000007 day 2"] ∧
      ¬OneMailADay 7 Ts := by
  intro Ts
  have hlast : Ts[146]? = some 176400000000 := by decide
  have hmails : dailyMails 7 .boot Ts =
      ["esp8266-00000007 day 1", "esp8266-00000007 day 2", "esp8266-00000007 day 2"] := by
    decide
  refine ⟨by decide +kernel, hlast, by decide, hmails, fun hall => ?_⟩
  have h := hall 146 176400000000 hlast
  rw [show Ts.take (146 + 1) = Ts by decide, hmails] at h
  exact absurd h (by decide)

end Esp8266Toolbox
