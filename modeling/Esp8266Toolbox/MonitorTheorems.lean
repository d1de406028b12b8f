import Esp8266Toolbox.Monitor
import Esp8266Toolbox.UptimeTheorems

/-!
# When the light is mailed

`TimerRun.Kept` is the invariant: `oldlux` is the last illuminance that has been measured, and
`lastmail` is what the clock read at the last mail. A mail follows a rise by more than two fifths
(`lux_mailed_iff`), and two mails that read the clock alike are five minutes apart (`lux_mails_apart`).
-/

namespace Esp8266Toolbox

/-! ## One call -/

/-- What is longer than five whole minutes, in microseconds. -/
def mailGap : ℕ := 301 * 1000000

/-- The difference, as a signed number. -/
theorem clockGap_eq (now last : UInt64) :
    (now - last).toInt64.toInt = ((now.toNat : ℤ) - last.toNat).bmod (2 ^ 64) := by
  have hbits : (now - last).toInt64.toInt = (now - last).toBitVec.toInt := rfl
  have hnow := now.toNat_lt
  have hlast := last.toNat_lt
  rw [hbits, BitVec.toInt_eq_toNat_bmod, UInt64.toNat_toBitVec, UInt64.toNat_sub]
  simp only [Int.bmod]
  omega

/-- A mail is due only if the two readings are five minutes apart. -/
theorem mailGap_of_mailDue {now last : UInt64} (h : mailDue now last = true) :
    last.toNat + mailGap ≤ now.toNat ∨ now.toNat + mailGap ≤ last.toNat := by
  have hnow := now.toNat_lt
  have hlast := last.toNat_lt
  rw [mailDue, decide_eq_true_eq, clockGap_eq] at h
  simp only [Int.bmod] at h
  unfold mailGap
  omega

theorem mailDue_iff {now last : UInt64} (hnow : now.toNat < 2 ^ 63) (hlast : last.toNat < 2 ^ 63) :
    mailDue now last = true ↔ last.toNat + mailGap ≤ now.toNat ∨ now.toNat + mailGap ≤ last.toNat := by
  refine ⟨mailGap_of_mailDue, fun h => ?_⟩
  rw [mailDue, decide_eq_true_eq, clockGap_eq]
  simp only [Int.bmod]
  unfold mailGap at h
  omega

/-- The measured illuminance is never negative. -/
theorem tsl2561Lux_nonneg {dev : I2cDevice} (h : (tsl2561Lux dev).2 ≠ -1) : 0 ≤ (tsl2561Lux dev).2 := by
  unfold tsl2561Lux at h ⊢
  cases hmeasure : tsl2561Measure dev [] with
  | ok r => exact Int.natCast_nonneg _
  | error t =>
    rw [hmeasure] at h
    exact absurd rfl h

/-- `lux > oldlux*14/10`, without the division. -/
theorem sharp_iff {old lux : ℤ} (h : 0 ≤ old) : (old * 14).tdiv 10 < lux ↔ 7 * old < 5 * lux := by
  rw [Int.tdiv_eq_ediv_of_nonneg (by omega)]
  omega

/-- The branches of `monitor`. -/
theorem monitor_spec (lux : ℤ) (now : UInt64) (chipId : UInt32) (s : MonitorState) :
    ((monitor lux now chipId s).2.isSome = true ↔
      lux ≠ -1 ∧ s.oldlux ≠ -1 ∧ (s.oldlux * 14).tdiv 10 < lux ∧ mailDue now s.lastmail = true) ∧
    (monitor lux now chipId s).1.oldlux = (if lux = -1 then s.oldlux else lux) ∧
    (monitor lux now chipId s).1.lastmail = (if (monitor lux now chipId s).2.isSome then now else s.lastmail) := by
  unfold monitor
  by_cases hlux : lux = -1
  · simp [hlux]
  by_cases hold : s.oldlux = -1
  · simp [hlux, hold]
  by_cases hsharp : lux > (s.oldlux * 14).tdiv 10 ∧ mailDue now s.lastmail = true
  · rw [if_neg hlux, if_neg hold, if_pos hsharp]
    simp [hlux, hold, hsharp.2, hsharp.1]
  · rw [if_neg hlux, if_neg hold, if_neg hsharp]
    refine ⟨iff_of_false (by simp) fun h => hsharp h.2.2, (if_neg hlux).symm, rfl⟩

/-! ## The clock -/

/-- What the clock reads, if at most one overflow is unseen. -/
def UptimeCall.read (c : UptimeCall) : ℕ := if c.time / 2 ^ 32 = c.seen / 2 ^ 32 then c.time else c.time - 2 ^ 32

theorem uptimeUs_read {L T : ℕ} {s : UptimeState} (h : UptimeSync L s) (hle : L ≤ T) (hgap : T ≤ L + uptimePeriod)
    (hT : T < 2 ^ 64) : (uptimeUs s T).toNat = UptimeCall.read ⟨T, uptimeUs s T, L⟩ := by
  have hgap' : T ≤ L + 1200000000 := hgap
  rw [uptimeUs_toNat h, UptimeCall.read]
  split_ifs with hseen
  all_goals
    dsimp only at hseen ⊢
    omega

theorem UptimeCall.read_right {c : UptimeCall} (h : c.NoUnseenOverflow) : c.read = c.time := if_pos h

theorem UptimeCall.read_le (c : UptimeCall) : c.read ≤ c.time := by
  unfold read
  split_ifs
  · exact le_rfl
  · exact Nat.sub_le _ _

/-- A reading behind the time is that of a counter that has overflowed. -/
theorem UptimeCall.read_behind {c : UptimeCall} (hle : c.seen ≤ c.time) (h : ¬c.NoUnseenOverflow) :
    c.read + 2 ^ 32 = c.time := by
  unfold NoUnseenOverflow at h
  rw [read, if_neg h]
  omega

/-! ## Runs -/

namespace TimerRun

variable {chipId : UInt32} {r : TimerRun} {es : List TimerEvent} {now : ℕ}

/-- What two mails in a row have to be: apart, if the clock was right at both or at neither. -/
def Apart (c c' : UptimeCall) : Prop :=
  (c.NoUnseenOverflow ↔ c'.NoUnseenOverflow) → c.time + mailGap ≤ c'.time

/-- What a run over the events has led to, `now` being the time of the last one. -/
structure Kept (r : TimerRun) (es : List TimerEvent) (now : ℕ) : Prop where
  sync : UptimeSync r.seen r.timers.uptime
  seen_le : r.seen ≤ now
  oldlux : r.timers.monitor.oldlux = (lastLux es).getD (-1)
  measured : ∀ l ∈ lastLux es, 0 ≤ l
  lastmail : r.timers.monitor.lastmail = (r.mails.getLast?.map UptimeCall.value).getD 0
  mail : ∀ c ∈ r.mails, c.seen ≤ c.time ∧ c.time ≤ now ∧ mailGap ≤ c.time ∧ c.value.toNat = c.read
  apart : r.mails.IsChain Apart

theorem kept_boot : Kept ⟨.boot, 0, []⟩ [] 0 :=
  ⟨uptimeSync_boot, le_rfl, rfl, by simp [lastLux], rfl, by simp, .nil⟩

theorem lastLux_concat (es : List TimerEvent) (e : TimerEvent) :
    lastLux (es ++ [e]) = e.lux.or (lastLux es) := by
  rw [lastLux, List.filterMap_append]
  cases h : e.lux with
  | none => simp [h, lastLux]
  | some l => simp [h]

/-- The handler runs. -/
theorem Kept.uptime (h : r.Kept es now) {T₁ T₂ T₃ : ℕ}
    (hsched : UptimeSchedule r.seen now [.handler T₁ T₂ T₃]) :
    (r.step chipId (.uptime T₁ T₂ T₃)).Kept (es ++ [.uptime T₁ T₂ T₃]) T₃ := by
  obtain ⟨h₁, h₂, h₃, h₄, -, -, -⟩ := hsched
  have hseen := h.seen_le
  have hlux : lastLux (es ++ [.uptime T₁ T₂ T₃]) = lastLux es := lastLux_concat es _
  constructor
  case sync =>
    have hle : r.seen ≤ T₂ := by omega
    exact uptimeTick_sync h.sync hle h₃
  case seen_le => exact h₄
  case oldlux =>
    rw [hlux]
    exact h.oldlux
  case measured =>
    rw [hlux]
    exact h.measured
  case lastmail => exact h.lastmail
  case mail =>
    intro c hc
    obtain ⟨hseen', htime, hrest⟩ := h.mail c hc
    exact ⟨hseen', by omega, hrest⟩
  case apart => exact h.apart

/-- The variable is what the clock read at the last mail. -/
theorem Kept.lastmail_read (h : r.Kept es now) :
    r.timers.monitor.lastmail.toNat = (r.mails.getLast?.map UptimeCall.read).getD 0 ∧
      r.timers.monitor.lastmail.toNat ≤ now := by
  rw [h.lastmail]
  cases hmails : r.mails.getLast? with
  | none => exact ⟨rfl, Nat.zero_le _⟩
  | some x =>
    obtain ⟨-, htime, -, hread⟩ := h.mail x (List.mem_of_getLast? hmails)
    refine ⟨hread, ?_⟩
    rw [Option.map_some, Option.getD_some, hread]
    exact x.read_le.trans htime

/-- The last mail left room for the next one. -/
theorem Kept.due (h : r.Kept es now) {c : UptimeCall} (hnow : now ≤ c.time) (hseen : c.seen ≤ c.time)
    (hread : c.value.toNat = c.read) (hdue : mailDue c.value r.timers.monitor.lastmail = true) :
    mailGap ≤ c.time ∧ ∀ x ∈ r.mails.getLast?, Apart x c := by
  have hgap := mailGap_of_mailDue hdue
  rw [h.lastmail] at hgap
  have hbehind := UptimeCall.read_behind hseen
  have hle := c.read_le
  cases hmails : r.mails.getLast? with
  | none =>
    rw [hmails] at hgap
    have hzero : (((none : Option UptimeCall).map UptimeCall.value).getD 0).toNat = 0 := rfl
    rw [hzero, hread] at hgap
    refine ⟨?_, by simp⟩
    unfold mailGap at hgap ⊢
    omega
  | some x =>
    rw [hmails, Option.map_some, Option.getD_some, hread] at hgap
    obtain ⟨hxseen, hxtime, hxgap, hxread⟩ := h.mail x (List.mem_of_getLast? hmails)
    refine ⟨by omega, fun y hy => ?_⟩
    rw [← Option.some.inj hy]
    intro halike
    -- both readings are right, or both are behind by one overflow
    by_cases hx : x.NoUnseenOverflow
    · have hc := halike.mp hx
      rw [UptimeCall.read_right hx] at hxread
      rw [UptimeCall.read_right hc] at hgap
      omega
    · have hxbehind := UptimeCall.read_behind hxseen hx
      have hcbehind := hbehind fun hc => hx (halike.mpr hc)
      omega

/-- `monitor` runs. -/
theorem Kept.monitor (h : r.Kept es now) {T : ℕ} {dev : I2cDevice}
    (hsched : UptimeSchedule r.seen now [.call T]) :
    (r.step chipId (.monitor T dev)).Kept (es ++ [.monitor T dev]) T := by
  obtain ⟨hnow, hperiod, hT, -⟩ := hsched
  have hle : r.seen ≤ T := h.seen_le.trans hnow
  obtain ⟨hmailed, hold, hlast⟩ :=
    monitor_spec (tsl2561Lux dev).2 (uptimeUs r.timers.uptime T) chipId r.timers.monitor
  have hread := uptimeUs_read h.sync hle hperiod hT
  have hlux : lastLux (es ++ [.monitor T dev]) = (TimerEvent.monitor T dev).lux.or (lastLux es) := lastLux_concat es _
  have hstep : r.step chipId (.monitor T dev) =
      { timers := ⟨r.timers.uptime,
          (Esp8266Toolbox.monitor (tsl2561Lux dev).2 (uptimeUs r.timers.uptime T) chipId r.timers.monitor).1⟩
        seen := r.seen
        mails := r.mails ++ (Esp8266Toolbox.monitor (tsl2561Lux dev).2 (uptimeUs r.timers.uptime T) chipId
          r.timers.monitor).2.toList.map fun _ => ⟨T, uptimeUs r.timers.uptime T, r.seen⟩ } := rfl
  rw [hstep]
  clear hstep
  generalize Esp8266Toolbox.monitor (tsl2561Lux dev).2 (uptimeUs r.timers.uptime T) chipId r.timers.monitor = m
    at hmailed hold hlast ⊢
  have hmeasured : ∀ l ∈ lastLux (es ++ [.monitor T dev]), 0 ≤ l := by
    intro l hl
    rw [hlux, TimerEvent.lux] at hl
    by_cases hfailed : (tsl2561Lux dev).2 = -1
    · rw [if_pos hfailed] at hl
      exact h.measured l hl
    · rw [if_neg hfailed] at hl
      rw [← Option.some.inj hl]
      exact tsl2561Lux_nonneg hfailed
  have hold' : m.1.oldlux = (lastLux (es ++ [.monitor T dev])).getD (-1) := by
    rw [hold, hlux, TimerEvent.lux]
    split_ifs with hfailed
    · exact h.oldlux
    · rfl
  cases hm : m.2 with
  | none =>
    have hsame : r.mails ++ (none : Option String).toList.map
        (fun _ => (⟨T, uptimeUs r.timers.uptime T, r.seen⟩ : UptimeCall)) = r.mails := by simp
    rw [hsame]
    rw [hm] at hlast
    refine ⟨h.sync, hle, hold', hmeasured, hlast.trans h.lastmail, fun c hc => ?_, h.apart⟩
    obtain ⟨hseen, htime, hrest⟩ := h.mail c hc
    exact ⟨hseen, htime.trans hnow, hrest⟩
  | some subj =>
    rw [hm] at hmailed hlast
    have hdue := (hmailed.mp rfl).2.2.2
    obtain ⟨hgap, happart⟩ := h.due (c := ⟨T, uptimeUs r.timers.uptime T, r.seen⟩) hnow hle hread hdue
    rw [Option.toList_some, List.map_singleton]
    refine ⟨h.sync, hle, hold', hmeasured, ?_, ?_, ?_⟩
    · rw [List.getLast?_concat]
      exact hlast
    · intro c hc
      rcases List.mem_append.mp hc with hc | hc
      · obtain ⟨hseen, htime, hrest⟩ := h.mail c hc
        exact ⟨hseen, htime.trans hnow, hrest⟩
      · rw [List.mem_singleton.mp hc]
        exact ⟨hle, le_rfl, hgap, hread⟩
    · refine List.isChain_append.mpr ⟨h.apart, .singleton _, fun x hx y hy => ?_⟩
      rw [← Option.some.inj hy]
      exact happart x hx

/-- A schedule, its first event and the rest. -/
theorem schedule_cons {L now : ℕ} {e : TimerEvent} {es : List TimerEvent} (chipId : UInt32) {r : TimerRun}
    (hseen : r.seen = L) (h : UptimeSchedule L now ((e :: es).map TimerEvent.clock)) :
    UptimeSchedule L now [e.clock] ∧
      ∃ now', UptimeSchedule (r.step chipId e).seen now' (es.map TimerEvent.clock) ∧
        (∀ pre, r.Kept pre now → (r.step chipId e).Kept (pre ++ [e]) now') := by
  subst hseen
  cases e with
  | uptime T₁ T₂ T₃ =>
    obtain ⟨h₁, h₂, h₃, h₄, h₅, h₆, hrest⟩ := h
    have hone : UptimeSchedule r.seen now [.handler T₁ T₂ T₃] := ⟨h₁, h₂, h₃, h₄, h₅, h₆, trivial⟩
    exact ⟨hone, T₃, hrest, fun pre hkept => hkept.uptime hone⟩
  | monitor T dev =>
    obtain ⟨h₁, h₂, h₃, hrest⟩ := h
    have hone : UptimeSchedule r.seen now [.call T] := ⟨h₁, h₂, h₃, trivial⟩
    exact ⟨hone, T, hrest, fun pre hkept => hkept.monitor hone⟩

/-- What a run keeps, and what is left of its schedule. -/
theorem run_kept (chipId : UInt32) (pre rest : List TimerEvent)
    (hsched : UptimeSchedule 0 0 ((pre ++ rest).map TimerEvent.clock)) :
    ∃ now, (run chipId pre).Kept pre now ∧
      UptimeSchedule (run chipId pre).seen now (rest.map TimerEvent.clock) := by
  induction pre using List.reverseRecOn generalizing rest with
  | nil => exact ⟨0, kept_boot, hsched⟩
  | append_singleton pre e ih =>
    rw [List.append_assoc, List.singleton_append] at hsched
    obtain ⟨now, hkept, hleft⟩ := ih (e :: rest) hsched
    obtain ⟨-, now', hrest, hnext⟩ := schedule_cons chipId rfl hleft
    have hstep : run chipId (pre ++ [e]) = (run chipId pre).step chipId e := List.foldl_concat ..
    rw [hstep]
    exact ⟨now', hnext pre hkept, hrest⟩

/-- **When the light is mailed.** In a run that keeps the schedule of the timers, a call of `monitor`
sends a mail if and only if it measures more than seven fifths of what was measured last, and the
clock reads at least 301 s more, or less, than it read at the last mail, or than 0 if there was none. -/
theorem lux_mailed_iff (chipId : UInt32) (pre : List TimerEvent) (T : ℕ) (dev : I2cDevice)
    (hsched : UptimeSchedule 0 0 ((pre ++ [TimerEvent.monitor T dev]).map TimerEvent.clock)) (hT : T < 2 ^ 63) :
    ((run chipId pre).timers.fire chipId (.monitor T dev)).2.isSome = true ↔
      ∃ old, lastLux pre = some old ∧ ∃ lux, (TimerEvent.monitor T dev).lux = some lux ∧ 7 * old < 5 * lux ∧
        let now := UptimeCall.read ⟨T, 0, (run chipId pre).seen⟩
        let last := ((run chipId pre).mails.getLast?.map UptimeCall.read).getD 0
        last + mailGap ≤ now ∨ now + mailGap ≤ last := by
  obtain ⟨now, hkept, hnow, hperiod, hlt, -⟩ := run_kept chipId pre [.monitor T dev] hsched
  have hle : (run chipId pre).seen ≤ T := hkept.seen_le.trans hnow
  have hread := uptimeUs_read hkept.sync hle hperiod hlt
  have hbound : (uptimeUs (run chipId pre).timers.uptime T).toNat < 2 ^ 63 := by
    rw [hread]
    exact (UptimeCall.read_le _).trans_lt hT
  obtain ⟨hlast, hlastlt⟩ := hkept.lastmail_read
  have hdue := mailDue_iff hbound (hlastlt.trans_lt (by omega))
  rw [hread, hlast] at hdue
  have hfire : ((run chipId pre).timers.fire chipId (.monitor T dev)).2 =
      (monitor (tsl2561Lux dev).2 (uptimeUs (run chipId pre).timers.uptime T) chipId
        (run chipId pre).timers.monitor).2 := rfl
  rw [hfire, (monitor_spec _ _ _ _).1, hdue, hkept.oldlux]
  dsimp only
  cases hold : lastLux pre with
  | none => simp
  | some old =>
    have hpos := hkept.measured old hold
    rw [Option.getD_some, sharp_iff hpos, TimerEvent.lux]
    by_cases hfailed : (tsl2561Lux dev).2 = -1
    · simp [hfailed]
    · rw [if_neg hfailed]
      have hvalid : old ≠ -1 := by omega
      simp only [ne_eq, hfailed, hvalid, not_false_eq_true, true_and, Option.some.injEq, exists_eq_left']
      rfl

/-- A sensor that answers with a value of its first channel. -/
def lightDevice (low high : UInt8) : I2cDevice where
  ack := fun _ => true
  read := fun t => [0x50, low, high, 0, 0].getD (t.countP fun op => op matches .read _) 0

/-- Twenty minutes after boot it is still dark. -/
def sunrise : List TimerEvent :=
  [.uptime 1200000000 1200000000 1200000001, .monitor 1230000000 (lightDevice 0 1)]

theorem lux_mailed_iff_sunrise :
    ((run 7 sunrise).timers.fire 7 (.monitor 1260000000 (lightDevice 0 4))).2.isSome = true :=
  (lux_mailed_iff 7 sunrise 1260000000 (lightDevice 0 4) (by decide) (by decide)).mpr
    ⟨8, by decide, 31, by decide, by decide, by decide⟩

/-- **The mails about the light are apart.** In a run that keeps the schedule of the timers, no mail is
sent in the first 301 s, nor within 301 s of the mail before, unless one of the two clock readings is
behind by an overflow. -/
theorem lux_mails_apart (chipId : UInt32) (es : List TimerEvent)
    (hsched : UptimeSchedule 0 0 (es.map TimerEvent.clock)) :
    (∀ c ∈ (run chipId es).mails, mailGap ≤ c.time) ∧ (run chipId es).mails.IsChain Apart := by
  obtain ⟨now, hkept, -⟩ := run_kept chipId es [] (by rwa [List.append_nil])
  exact ⟨fun c hc => (hkept.mail c hc).2.2.1, hkept.apart⟩

theorem lux_mails_apart_sunrise :
    (∀ c ∈ (run 7 (sunrise ++ [.monitor 1260000000 (lightDevice 0 4)])).mails, mailGap ≤ c.time) ∧
      (run 7 (sunrise ++ [.monitor 1260000000 (lightDevice 0 4)])).mails.IsChain Apart :=
  lux_mails_apart 7 _ (by decide)

end TimerRun
end Esp8266Toolbox
