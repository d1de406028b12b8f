import Esp8266Toolbox.Http.SmtpSetup
import Esp8266Toolbox.MonitorTheorems
import Esp8266Toolbox.Smtp.History
import Esp8266Toolbox.Smtp.Transparency

/-!
# The mails of the program on the line

Whatever the timers, the station, the setup page and the mail server do, and in whatever order: what
the client has sent is one session after the other, each for one of the mails with which the program
has called `smtp_send`, in that order (`mails_on_the_wire`), and each of these mails reads as the notice
that it is about (`raised_mails`).
-/

namespace Esp8266Toolbox

/-! ## Subjects -/

/-- The text can stand in a header field. -/
def HeaderText (text : List Char) : Prop := ∀ c ∈ text, 0x20 ≤ c.toNat ∧ c.toNat < 0x7f

instance (text : List Char) : Decidable (HeaderText text) := List.decidableBAll _ text

theorem HeaderText.append {s t : List Char} (hs : HeaderText s) (ht : HeaderText t) : HeaderText (s ++ t) := by
  intro c hc
  rcases List.mem_append.mp hc with hc | hc
  · exact hs c hc
  · exact ht c hc

/-- A digit of a number in a base up to sixteen. -/
theorem toDigits_headerText {b : ℕ} (hb : 1 < b) (hb' : b ≤ 16) (n : ℕ) : HeaderText (Nat.toDigits b n) := by
  have hdigit : ∀ d < 16, 0x20 ≤ (Nat.digitChar d).toNat ∧ (Nat.digitChar d).toNat < 0x7f := by decide
  induction n using Nat.strongRecOn with
  | ind n ih =>
    intro c hc
    by_cases hlt : n < b
    · rw [Nat.toDigits_of_lt_base hlt, List.mem_singleton] at hc
      rw [hc]
      exact hdigit n (by omega)
    · rw [Nat.toDigits_of_base_le hb (by omega), List.mem_append, List.mem_singleton] at hc
      rcases hc with hc | hc
      · exact ih (n / b) (Nat.div_lt_self (by omega) hb) c hc
      · rw [hc]
        exact hdigit (n % b) ((Nat.mod_lt n (by omega)).trans_le hb')

/-- The bytes of a text for a header field. -/
theorem HeaderText.ascii {s : String} (h : HeaderText s.toList) : 0 ∉ ascii s ∧ CR ∉ ascii s ∧ LF ∉ ascii s := by
  have hbyte {b : UInt8} (hb : b.toNat < 0x20) : b ∉ Esp8266Toolbox.ascii s := by
    intro hmem
    obtain ⟨c, hc, rfl⟩ := List.mem_map.mp hmem
    have hrange := h c hc
    rw [UInt8.toNat_ofNat'] at hb
    omega
  exact ⟨hbyte (by decide), hbyte (by decide), hbyte (by decide)⟩

theorem chipName_toList (chipId : UInt32) : (chipName chipId).toList = "esp8266-".toList ++
    (List.replicate (8 - (Nat.toDigits 16 chipId.toNat).length) '0' ++ Nat.toDigits 16 chipId.toNat) := by
  rw [chipName, String.toList_append]
  exact congrArg _ String.toList_ofList

theorem chipName_headerText (chipId : UInt32) : HeaderText (chipName chipId).toList := by
  have hname : HeaderText "esp8266-".toList := by decide
  have hzeros (n : ℕ) : HeaderText (List.replicate n '0') := by
    intro c hc
    rw [(List.mem_replicate.mp hc).2]
    decide
  rw [chipName_toList]
  exact hname.append ((hzeros _).append (toDigits_headerText (by decide) (by decide) _))

theorem chipName_length (chipId : UInt32) : (chipName chipId).toList.length = 16 := by
  have hlen : (Nat.toDigits 16 chipId.toNat).length ≤ 8 :=
    (Nat.length_toDigits_le_iff (by decide) (by decide)).mpr (by simpa using chipId.toNat_lt)
  rw [chipName_toList, List.length_append, List.length_append, List.length_replicate]
  have hname : "esp8266-".toList.length = 8 := by decide
  omega

/-- What the program sends mails about. -/
inductive Notice (chipId : UInt32) : String → Prop
  | online : Notice chipId (chipName chipId ++ " online")
  | day (days : UInt32) : Notice chipId (dailySubject chipId days)
  | light : Notice chipId (chipName chipId ++ " sharp lux increase")

/-- A notice fits its array, and can stand in a header field. -/
theorem Notice.subject {chipId : UInt32} {subj : String} (h : Notice chipId subj) :
    HeaderText subj.toList ∧ subj.toList.length < 64 := by
  have hchip := chipName_headerText chipId
  have hlen := chipName_length chipId
  cases h with
  | online =>
    have htext : HeaderText " online".toList := by decide
    rw [String.toList_append, List.length_append, hlen]
    exact ⟨hchip.append htext, by decide⟩
  | day days =>
    have htext : HeaderText " day ".toList := by decide
    have hdays : dailySubject chipId days = chipName chipId ++ " day " ++ toString days.toNat := rfl
    have hdigits : (toString days.toNat).toList = Nat.toDigits 10 days.toNat := Nat.toList_repr
    have hten : (Nat.toDigits 10 days.toNat).length ≤ 10 := by
      refine (Nat.length_toDigits_le_iff (by decide) (by decide)).mpr ?_
      have hlt := days.toNat_lt
      omega
    have hday : " day ".toList.length = 5 := by decide
    rw [hdays, String.toList_append, String.toList_append, hdigits]
    refine ⟨(hchip.append htext).append (toDigits_headerText (by decide) (by decide) _), ?_⟩
    rw [List.length_append, List.length_append, hlen]
    omega
  | light =>
    have htext : HeaderText " sharp lux increase".toList := by decide
    rw [String.toList_append, List.length_append, hlen]
    exact ⟨hchip.append htext, by decide⟩

/-- What `smtp_send` is given is the whole subject. -/
theorem subjText_eq {chipId : UInt32} {subj : String} (h : Notice chipId subj) (stack : Buf 64) :
    Program.subjText stack subj = ascii subj := by
  obtain ⟨hprint, hlen⟩ := h.subject
  have hfit : (ascii subj).length ≤ 63 := by
    rw [ascii, List.length_map]
    omega
  rw [Program.subjText, cstr_snprintf stack (by decide) hprint.ascii.1, List.take_of_length_le hfit]

/-- Every timer that sends a mail sends a notice. -/
theorem Timers.fire_notice {chipId : UInt32} {t : Timers} {e : TimerEvent} {subj : String}
    (h : (t.fire chipId e).2 = some subj) : Notice chipId subj := by
  cases e with
  | uptime T₁ T₂ T₃ =>
    have hsubj : (uptimeHandler chipId t.uptime T₁ T₂ T₃).2 = some subj := h
    unfold uptimeHandler at hsubj
    dsimp only at hsubj
    split_ifs at hsubj
    rw [← Option.some.inj hsubj]
    exact .day _
  | monitor T dev =>
    have hsubj : (Esp8266Toolbox.monitor (tsl2561Lux dev).2 (uptimeUs t.uptime T) chipId t.monitor).2 = some subj := h
    unfold Esp8266Toolbox.monitor at hsubj
    split_ifs at hsubj
    rw [← Option.some.inj hsubj]
    exact .light

/-! ## Runs of the program -/

namespace Program

variable {chipId : UInt32} {p : Program} {e : ProgramEvent}

/-- The SDK answers a lookup once, and calls the connect callback at most once for an attempt. -/
def Once (p : Program) : ProgramEvent → Prop
  | .smtp e _ => p.mailer.Once e
  | _ => True

instance (p : Program) : ∀ e, Decidable (p.Once e)
  | .smtp _ _ => inferInstanceAs (Decidable (p.mailer.Once _))
  | .timer _ _ | .gotIp _ | .setup _ => .isTrue trivial

/-- A notice, and the mail with which `smtp_send` has been called for it. -/
structure Raised (chipId : UInt32) (x : String × Mail) : Prop where
  notice : Notice chipId x.1
  subj : x.2.subj = ascii x.1
  body : x.2.body = []

/-- What an event asks to be mailed, the client aside. -/
def ask (chipId : UInt32) (t : Timers) : ProgramEvent → Timers × List String
  | .timer e _ => ((t.fire chipId e).1, (t.fire chipId e).2.toList)
  | .gotIp _ => (t, [chipName chipId ++ " online"])
  | .setup _ | .smtp _ _ => (t, [])

def notices (chipId : UInt32) : Timers → List ProgramEvent → List String
  | _, [] => []
  | t, e :: es => (ask chipId t e).2 ++ notices chipId (ask chipId t e).1 es

/-- The client, and all of its sessions. -/
structure Kept (p : Program) : Prop where
  script : p.mailer.InScript
  sessions : ∃ past, p.mailer.Sessions (p.raised.map (·.2)) past

/-- A callback of the client that is no call of `smtp_send`. -/
theorem Kept.callback (h : p.Kept) {e : SmtpEvent} (honce : p.mailer.Once e) (hmail : e.mail = none)
    {p' : Program} (hmailer : p'.mailer = p.mailer.step e) (hraised : p'.raised = p.raised) : p'.Kept := by
  obtain ⟨past, hsessions⟩ := h.sessions
  obtain ⟨past', hnext⟩ := SmtpRun.step_sessions honce h.script hsessions
  rw [hmail, Option.toList_none, List.append_nil] at hnext
  constructor
  case script =>
    rw [hmailer]
    exact SmtpRun.step_inScript honce h.script
  case sessions =>
    rw [hmailer, hraised]
    exact ⟨past', hnext⟩

/-- A call of `smtp_send`. -/
theorem Kept.notify (h : p.Kept) (call : SendCall) (subj : String) : (p.notify call subj).Kept := by
  obtain ⟨past, hsessions⟩ := h.sessions
  unfold Program.notify
  split_ifs with hread
  · have hsend : p.mailer.Once (.send (p.mail call.stack subj) call.lookup call.rv) := trivial
    obtain ⟨past', hnext⟩ := SmtpRun.step_sessions hsend h.script hsessions
    constructor
    case script => exact SmtpRun.step_inScript hsend h.script
    case sessions =>
      refine ⟨past', ?_⟩
      rw [List.map_append]
      exact hnext
  · exact ⟨h.script.quiet h.script.terminated rfl (.inl rfl) (fun _ => ⟨rfl, rfl, rfl, rfl⟩) rfl id le_rfl,
      ⟨past, hsessions.sent, hsessions.called, hsessions.script⟩⟩

theorem Kept.timers (h : p.Kept) (timers : Timers) : { p with timers }.Kept :=
  ⟨h.script, h.sessions⟩

theorem step_kept (honce : p.Once e) (h : p.Kept) : (p.step chipId e).Kept := by
  cases e with
  | timer e call =>
    rcases hfire : p.timers.fire chipId e with ⟨timers, _ | subj⟩
    · simp only [step, hfire]
      exact h.timers timers
    · simp only [step, hfire]
      exact (h.timers timers).notify call subj
  | gotIp call => exact h.notify call _
  | setup account => exact h.callback (e := .setup account.toSmtpServer) trivial rfl rfl rfl
  | smtp e hcall =>
    have hmail : e.mail = none := by
      cases e with
      | send mail lookup rv => cases hcall
      | _ => rfl
    exact h.callback honce hmail rfl rfl

theorem init_kept (account : SmtpSettings) (logLevel : ℕ) : (init account logLevel).Kept :=
  ⟨SmtpRun.init_inScript _ _, [], SmtpRun.init_sessions _ _⟩

theorem run_kept (chipId : UInt32) (account : SmtpSettings) (logLevel : ℕ) {es : List ProgramEvent}
    (hes : Runs.Along (step chipId) Once (init account logLevel) es) : (run chipId account logLevel es).Kept :=
  Runs.foldl_inv_along (fun _ _ honce h => step_kept honce h) (init_kept account logLevel) hes

/-- **The mails on the line.** In every run of the program, the client has sent one session after the
other, all but the last to the end of its script; their mails are mails of the program's own calls of
`smtp_send`, none twice, in the order of the calls. -/
theorem mails_on_the_wire (chipId : UInt32) (account : SmtpSettings) (logLevel : ℕ) (es : List ProgramEvent)
    (hes : Runs.Along (step chipId) Once (init account logLevel) es) :
    ∃ sessions : List (Mail × List (List UInt8)),
      (run chipId account logLevel es).mailer.client.sent = sessions.flatMap (·.2) ∧
      (sessions.map (·.1)).Sublist ((run chipId account logLevel es).raised.map (·.2)) ∧
      (∀ x ∈ sessions, ∃ k, x.1.Sent k x.2) ∧ ∀ x ∈ sessions.dropLast, x.1.Sent 8 x.2 := by
  have h := run_kept chipId account logLevel hes
  obtain ⟨past, hsent, hcalled, hscript⟩ := h.sessions
  refine ⟨_, hsent, hcalled, fun x hx => ?_, fun x hx => ?_⟩
  · rcases List.mem_append.mp hx with hx | hx
    · exact ⟨8, hscript x hx⟩
    · obtain ⟨k, hrecorded⟩ := h.script.script x.1 x.2 (Option.mem_toList.mp hx)
      exact ⟨k, hrecorded.sent⟩
  · refine hscript x ?_
    cases hsession : (run chipId account logLevel es).mailer.session with
    | none =>
      rw [hsession, Option.toList_none, List.append_nil] at hx
      exact List.mem_of_mem_dropLast hx
    | some y =>
      rw [hsession, Option.toList_some, List.dropLast_concat] at hx
      exact hx

/-- The station comes online, and the mail server greets the client. -/
def online : List ProgramEvent :=
  [.gotIp ⟨Buf.zero _, .ok 0, ⟨0, 0, 0⟩⟩, .smtp (.connected ⟨0, 0, 0, 0⟩) rfl,
    .smtp (.recv (ascii "220 mx\r\n250 mx\r\n") Smtp.fullStack 0) rfl]

theorem mails_on_the_wire_online : ∃ sessions : List (Mail × List (List UInt8)),
    (run 7 oldAccount 20 online).mailer.client.sent = sessions.flatMap (·.2) ∧
    (sessions.map (·.1)).Sublist ((run 7 oldAccount 20 online).raised.map (·.2)) ∧
    (∀ x ∈ sessions, ∃ k, x.1.Sent k x.2) ∧ ∀ x ∈ sessions.dropLast, x.1.Sent 8 x.2 :=
  mails_on_the_wire 7 oldAccount 20 online (by decide +kernel)

/-! ## The notices -/

def AllRaised (chipId : UInt32) (p : Program) : Prop := ∀ x ∈ p.raised, Raised chipId x

theorem notify_raised {call : SendCall} {subj : String} (hsubj : Notice chipId subj)
    (h : p.AllRaised chipId) : (p.notify call subj).AllRaised chipId := by
  unfold Program.notify
  split_ifs
  · intro x hx
    rcases List.mem_append.mp hx with hx | hx
    · exact h x hx
    · rw [List.mem_singleton.mp hx]
      exact ⟨hsubj, subjText_eq hsubj _, rfl⟩
  · exact h

theorem step_raised (e : ProgramEvent) (h : p.AllRaised chipId) : (p.step chipId e).AllRaised chipId := by
  cases e with
  | timer e call =>
    rcases hfire : p.timers.fire chipId e with ⟨timers, _ | subj⟩
    · simp only [step, hfire]
      exact h
    · simp only [step, hfire]
      exact notify_raised (p := { p with timers }) (Timers.fire_notice (by rw [hfire])) h
  | gotIp call => exact notify_raised .online h
  | setup account => exact h
  | smtp e hcall => exact h

/-- A mail of a notice can be read again. -/
theorem Raised.recovers {x : String × Mail} (h : Raised chipId x) (hfrom : OneLine x.2.from')
    (hto : OneLine x.2.to') : Recovers x.2 x.2.message := by
  have hsubj : CR ∉ x.2.subj := by
    rw [h.subj]
    exact h.notice.subject.1.ascii.2.1
  rw [recovers_message_iff hfrom.1 hto.1 hsubj, h.body]
  simp [DotLine]

theorem notify_of_running {call : SendCall} {subj : String} (h : (p.notify call subj).mailer.stopped = false) :
    p.mailer.stopped = false ∧ (p.notify call subj).raised = p.raised ++ [(subj, p.mail call.stack subj)] ∧
      (p.notify call subj).timers = p.timers := by
  unfold Program.notify at h ⊢
  split_ifs at h ⊢ with hread
  · refine ⟨?_, rfl, rfl⟩
    by_contra hstopped
    rw [Bool.not_eq_false] at hstopped
    rw [SmtpRun.step, if_pos hstopped, hstopped] at h
    cases h

/-- A callback, while the client runs, calls `smtp_send` for what it asks to be mailed. -/
theorem step_of_running (h : (p.step chipId e).mailer.stopped = false) :
    p.mailer.stopped = false ∧
      (p.step chipId e).raised.map (·.1) = p.raised.map (·.1) ++ (ask chipId p.timers e).2 ∧
      (p.step chipId e).timers = (ask chipId p.timers e).1 := by
  have hclient {e : SmtpEvent} (hstep : (p.mailer.step e).stopped = false) : p.mailer.stopped = false := by
    by_contra hstopped
    rw [Bool.not_eq_false] at hstopped
    rw [SmtpRun.step, if_pos hstopped, hstopped] at hstep
    cases hstep
  cases e with
  | timer e call =>
    rcases hfire : p.timers.fire chipId e with ⟨timers, _ | subj⟩
    · simp only [step, hfire] at h ⊢
      exact ⟨h, by simp [ask, hfire], by simp [ask, hfire]⟩
    · simp only [step, hfire] at h ⊢
      obtain ⟨hrunning, hraised, htimers⟩ := notify_of_running h
      exact ⟨hrunning, by rw [hraised]; simp [ask, hfire], by rw [htimers]; simp [ask, hfire]⟩
  | gotIp call =>
    obtain ⟨hrunning, hraised, htimers⟩ := notify_of_running (p := p) h
    exact ⟨hrunning, (congrArg _ hraised).trans (by simp [ask]), htimers⟩
  | setup account => exact ⟨hclient h, by simp [ask, step], rfl⟩
  | smtp e hcall => exact ⟨hclient h, by simp [ask, step], rfl⟩

/-- A run, while the client runs. -/
theorem foldl_notices (chipId : UInt32) (es : List ProgramEvent) {p : Program}
    (h : (es.foldl (step chipId) p).mailer.stopped = false) :
    p.mailer.stopped = false ∧
      (es.foldl (step chipId) p).raised.map (·.1) = p.raised.map (·.1) ++ notices chipId p.timers es := by
  induction es generalizing p with
  | nil => exact ⟨h, (List.append_nil _).symm⟩
  | cons e es ih =>
    obtain ⟨hnext, hrest⟩ := ih h
    obtain ⟨hrunning, hraised, htimers⟩ := step_of_running hnext
    refine ⟨hrunning, ?_⟩
    rw [List.foldl_cons, hrest, hraised, htimers, notices, List.append_assoc]

/-- **The mails are the notices.** In every run, each mail of `smtp_send` is a notice with a whole
subject and no body, and a receiver reads it so, if the account's addresses are single lines; while
the client runs, there is a call for every notice that the timers and the station ask for, in order. -/
theorem raised_mails (chipId : UInt32) (account : SmtpSettings) (logLevel : ℕ) (es : List ProgramEvent) :
    (∀ x ∈ (run chipId account logLevel es).raised, Raised chipId x ∧
      (OneLine x.2.from' → OneLine x.2.to' → Recovers x.2 x.2.message)) ∧
    ((run chipId account logLevel es).mailer.stopped = false →
      (run chipId account logLevel es).raised.map (·.1) = notices chipId .boot es) := by
  constructor
  · have hinit : (init account logLevel).AllRaised chipId := by simp [AllRaised, init]
    have hraised : (run chipId account logLevel es).AllRaised chipId :=
      Runs.foldl_inv (fun _ e h => step_raised e h) hinit es
    exact fun x hx => ⟨hraised x hx, (hraised x hx).recovers⟩
  · intro hrunning
    exact (foldl_notices chipId es hrunning).2

end Program
end Esp8266Toolbox
