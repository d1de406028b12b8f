import Esp8266Toolbox.Uptime

/-!
# When the uptime is exact

`UptimeSync L s` is the invariant: the high word counts the overflows up to the handler's
last clock reading `L`. From it, a call of `uptime_us` is exact if and only if the counter
has not overflowed since `L` (`uptimeUs_eq_iff`), which `uptimeCalls_exact_iff` carries to
every call of a run.
-/

namespace Esp8266Toolbox

/-- The variables are those of a clock read at `L`. -/
structure UptimeSync (L : ℕ) (s : UptimeState) : Prop where
  high_eq : s.high = UInt32.ofNat (L / 2 ^ 32)
  last_eq : s.last = UInt32.ofNat L

theorem uptimeSync_boot : UptimeSync 0 UptimeState.boot := ⟨rfl, rfl⟩

/-- A reading at most one period later sees at most one overflow, and counts it. -/
theorem uptimeTick_sync {L T : ℕ} {s : UptimeState} (h : UptimeSync L s) (hle : L ≤ T)
    (hgap : T ≤ L + uptimePeriod) : UptimeSync T (uptimeTick s T) := by
  have hgap' : T ≤ L + 1200000000 := hgap
  refine ⟨?_, rfl⟩
  have hlt : systemGetTime T < s.last ↔ T % 2 ^ 32 < L % 2 ^ 32 := by
    rw [h.last_eq, UInt32.lt_iff_toNat_lt, systemGetTime, UInt32.toNat_ofNat', UInt32.toNat_ofNat']
  simp only [uptimeTick, hlt, h.high_eq]
  split
  · have hdiv : T / 2 ^ 32 = L / 2 ^ 32 + 1 := by omega
    rw [hdiv]
    simp
  · have hdiv : T / 2 ^ 32 = L / 2 ^ 32 := by omega
    rw [hdiv]

/-- What `uptime_us` returns: the overflows counted up to `L`, and the counter now. -/
theorem uptimeUs_toNat {L : ℕ} {s : UptimeState} (h : UptimeSync L s) (T : ℕ) :
    (uptimeUs s T).toNat = L % 2 ^ 64 / 2 ^ 32 * 2 ^ 32 + T % 2 ^ 32 := by
  have hhigh : (UInt32.ofNat (L / 2 ^ 32)).toNat = L % 2 ^ 64 / 2 ^ 32 := by
    rw [UInt32.toNat_ofNat']
    omega
  have hshift : (L % 2 ^ 64 / 2 ^ 32) <<< 32 % 2 ^ 64 = (L % 2 ^ 64 / 2 ^ 32) <<< 32 := by
    rw [Nat.shiftLeft_eq]
    omega
  have hor := Nat.shiftLeft_add_eq_or_of_lt (show T % 2 ^ 32 < 2 ^ 32 by omega) (L % 2 ^ 64 / 2 ^ 32)
  rw [uptimeUs, systemGetTime, UInt64.toNat_or, UInt64.toNat_shiftLeft, UInt32.toNat_toUInt64,
    UInt32.toNat_toUInt64, UInt32.toNat_ofNat', h.high_eq, hhigh]
  rw [show (32 : UInt64).toNat % 64 = 32 from rfl, hshift, ← hor, Nat.shiftLeft_eq]

/-- One call is exact if and only if the counter has not overflowed since the handler's last
clock reading. -/
theorem uptimeUs_eq_iff {L : ℕ} {s : UptimeState} (h : UptimeSync L s) (hL : L < 2 ^ 64) (T : ℕ) :
    (uptimeUs s T).toNat = T ↔ T / 2 ^ 32 = L / 2 ^ 32 := by
  rw [uptimeUs_toNat h]
  omega

/-- In a run from a state in step with `L`, exactly the calls without an unseen overflow are
exact. -/
theorem uptimeCalls_exact_iff (chipId : UInt32) (es : List UptimeEvent) {L now : ℕ}
    {s : UptimeState} (hs : UptimeSync L s) (hL : L ≤ now) (hL64 : L < 2 ^ 64)
    (hsched : UptimeSchedule L now es) :
    ∀ c ∈ uptimeCalls chipId L s es, c.Exact ↔ c.NoUnseenOverflow := by
  -- induction over the events; each handler run carries `UptimeSync` to its own reading
  induction es generalizing L now s with
  | nil => simp [uptimeCalls]
  | cons e es ih =>
    rcases e with T | ⟨T₁, T₂, T₃⟩
    · rcases hsched with ⟨h1, h2, h3, hrest⟩
      simp only [uptimeCalls, List.forall_mem_cons]
      exact ⟨uptimeUs_eq_iff hs hL64 T, ih hs (by omega) hL64 hrest⟩
    · rcases hsched with ⟨h1, h2, h3, h4, h5, h6, hrest⟩
      have hs' : UptimeSync T₂ (uptimeHandler chipId s T₁ T₂ T₃).1 :=
        uptimeTick_sync hs (by omega) h3
      simp only [uptimeCalls, List.forall_mem_cons]
      exact ⟨uptimeUs_eq_iff hs hL64 T₁, uptimeUs_eq_iff hs' (by omega) T₃,
        ih hs' h4 (by omega) hrest⟩

/-- The times of the calls of a run are in order. -/
theorem uptimeCalls_times (chipId : UInt32) (es : List UptimeEvent) {L now : ℕ} {s : UptimeState}
    (hsched : UptimeSchedule L now es) :
    (∀ c ∈ uptimeCalls chipId L s es, now ≤ c.time) ∧
      (uptimeCalls chipId L s es).Pairwise fun c c' => c.time ≤ c'.time := by
  induction es generalizing L now s with
  | nil => simp [uptimeCalls]
  | cons e es ih =>
    rcases e with T | ⟨T₁, T₂, T₃⟩
    · rcases hsched with ⟨h1, h2, h3, hrest⟩
      rcases ih (s := s) hrest with ⟨hlow, hpair⟩
      simp only [uptimeCalls, List.forall_mem_cons, List.pairwise_cons]
      exact ⟨⟨h1, fun c hc => Nat.le_trans h1 (hlow c hc)⟩, hlow, hpair⟩
    · rcases hsched with ⟨h1, h2, h3, h4, h5, h6, hrest⟩
      rcases ih (s := (uptimeHandler chipId s T₁ T₂ T₃).1) hrest with ⟨hlow, hpair⟩
      simp only [uptimeCalls, List.forall_mem_cons, List.pairwise_cons]
      refine ⟨⟨h1, by omega, fun c hc => ?_⟩, ⟨by omega, fun c hc => ?_⟩, hlow, hpair⟩
      · have := hlow c hc
        omega
      · have := hlow c hc
        omega

/-- Calls that return their times, made in order, do not go backwards. -/
theorem uptimeMonotone_of_exact {calls : List UptimeCall} (h : ∀ c ∈ calls, c.Exact)
    (htimes : calls.Pairwise fun c c' => c.time ≤ c'.time) : UptimeMonotone calls := by
  apply List.Pairwise.imp_of_mem _ htimes
  intro c c' hc hc' hle
  rw [UInt64.le_iff_toNat_le, h c hc, h c' hc']
  exact hle

/-- In every run that keeps the timer's schedule, a call of `uptime_us` returns the true time if
and only if the counter has not overflowed since the handler last read the clock; and the
calls for which it has not never go backwards. -/
theorem uptime_exact_iff (chipId : UInt32) (es : List UptimeEvent) (hsched : UptimeSchedule 0 0 es) :
    (∀ c ∈ uptimeCalls chipId 0 .boot es, c.Exact ↔ c.NoUnseenOverflow) ∧
      ∀ calls, calls.Sublist (uptimeCalls chipId 0 .boot es) →
        (∀ c ∈ calls, c.NoUnseenOverflow) → UptimeMonotone calls := by
  have hiff := uptimeCalls_exact_iff chipId es uptimeSync_boot (Nat.le_refl 0) (by omega) hsched
  refine ⟨hiff, ?_⟩
  intro calls hsub hgood
  have htimes := (uptimeCalls_times (s := .boot) chipId es hsched).2
  apply uptimeMonotone_of_exact
  · intro c hc
    exact (hiff c (hsub.subset hc)).mpr (hgood c hc)
  · exact htimes.sublist hsub

/-- Calls up to the last microsecond before the overflow, and one after the handler has seen it. -/
theorem uptime_exact_iff_hour :
    let es : List UptimeEvent := [.handler 1200000000 1200000000 1200000001,
      .handler 2400000000 2400000000 2400000001, .handler 3600000000 3600000000 3600000001,
      .call 4294967295, .handler 4800000000 4800000000 4800000001, .call 4900000000]
    UptimeSchedule 0 0 es ∧
      (∀ c ∈ uptimeCalls 7 0 .boot es, c.Exact ↔ c.NoUnseenOverflow) ∧
      ∀ calls, calls.Sublist (uptimeCalls 7 0 .boot es) →
        (∀ c ∈ calls, c.NoUnseenOverflow) → UptimeMonotone calls :=
  ⟨by decide, uptime_exact_iff 7 _ (by decide)⟩

/-- A call twelve minutes after the handler's last run, just past the overflow, returns 5: it is
not exact, and it goes backwards by more than an hour. -/
theorem uptime_goes_backwards :
    let es : List UptimeEvent := [.handler 1200000000 1200000000 1200000001,
      .handler 2400000000 2400000000 2400000001, .handler 3600000000 3600000000 3600000001,
      .call 4294967295, .call 4294967301]
    UptimeSchedule 0 0 es ∧ ¬(∀ c ∈ uptimeCalls 7 0 .boot es, c.Exact) ∧
      ¬UptimeMonotone (uptimeCalls 7 0 .boot es) := by
  refine ⟨by decide, ?_, ?_⟩
  · unfold UptimeCall.Exact
    decide
  · unfold UptimeMonotone
    decide

end Esp8266Toolbox
