import Esp8266Toolbox.Lib.Runs
import Esp8266Toolbox.Smtp.Challenge

/-!
# Sessions

The client beside what the SDK has outstanding for it (a lookup, attempts to connect, open
connections) and beside the session it is in: the mail of the `smtp_send` that opened it, and the
commands sent since. In every run the commands of a session are the first ones of the script of
its mail.
-/

namespace Esp8266Toolbox

/-! ## The script of a mail -/

namespace Mail

/-- The message, as it goes over the line. -/
def message (mail : Mail) : List UInt8 :=
  ascii "From: " ++ mail.from' ++ ascii "\r\nTo: " ++ mail.to' ++ ascii "\r\nSubject: " ++ mail.subj ++
    ascii "\r\n\r\n" ++ mail.body ++ ascii "\r\n.\r\n"

/-- The commands that deliver a mail, given the answer to the challenge. -/
def script (mail : Mail) (answer : List UInt8) : List (List UInt8) :=
  [ascii "ehlo [127.0.1.1]\r\n", ascii "AUTH CRAM-MD5\r\n", answer,
    ascii "mail FROM:<" ++ mail.from' ++ ascii ">\r\n", ascii "rcpt TO:<" ++ mail.to' ++ ascii ">\r\n",
    ascii "data\r\n", mail.message, ascii "quit\r\n"]

/-- A line that answers a challenge. -/
def Answer (answer : List UInt8) : Prop :=
  ∃ user pass challenge, 0 ∉ challenge ∧ answer = cramMd5 user pass challenge ++ crlf

/-- The first `k` commands of the script. -/
def Sent (mail : Mail) (k : ℕ) (commands : List (List UInt8)) : Prop :=
  ∃ answer, Answer answer ∧ commands = (mail.script answer).take k

end Mail

/-! ## The client and its surroundings -/

/-- The client, what is outstanding for it, and its session. -/
structure SmtpRun where
  client : Smtp
  /-- A call has left an array. -/
  stopped : Bool
  /-- A lookup that has not been answered. -/
  lookup : Bool
  /-- Attempts to connect that have not ended. -/
  attempts : ℕ
  /-- Open connections. -/
  connections : ℕ
  /-- The mail of the session, and the commands sent in it. -/
  session : Option (Mail × List (List UInt8))

namespace SmtpRun

/-- After `smtp_init`. -/
def init (server : SmtpServer) (logLevel : ℕ) : SmtpRun :=
  { client := Smtp.init server logLevel, stopped := false, lookup := false, attempts := 0, connections := 0,
    session := none }

/-- What the client has sent in a callback belongs to the session. -/
def record (w : SmtpRun) (s' : Smtp) : SmtpRun :=
  { w with
    client := s'
    session := w.session.map fun x => (x.1, x.2 ++ s'.sent.drop w.client.sent.length) }

/-- The surroundings after a callback that takes the client to `s'`. A call of `smtp_send` that
leaves `READY` opens a session. -/
def next (w : SmtpRun) (s' : Smtp) : SmtpEvent → SmtpRun
  | .send mail _ _ =>
    if w.client.stage = .ready ∧ s'.stage ≠ .ready then
      { w with
        client := s'
        lookup := w.lookup || decide (s'.stage = .resolve)
        attempts := w.attempts + if s'.stage = .connect then 1 else 0
        session := some (mail, s'.sent.drop w.client.sent.length) }
    else w.record s'
  | .dns _ _ =>
    { w.record s' with lookup := false, attempts := w.attempts + if s'.stage = .connect then 1 else 0 }
  | .connected _ =>
    { w.record s' with attempts := w.attempts - 1, connections := w.connections + 1 }
  | .recv _ _ _ => w.record s'
  | .error _ connecting =>
    if connecting then { w.record s' with attempts := w.attempts - 1 }
    else { w.record s' with connections := w.connections - 1 }
  | .disconnected => { w.record s' with connections := w.connections - 1 }
  | .sent => w.record s'
  | .kill => w.record s'
  | .setup _ => w.record s'
  | .logLevel _ => w.record s'

/-- One callback; a run stops at the first fault. -/
def step (w : SmtpRun) (e : SmtpEvent) : SmtpRun :=
  if w.stopped then w
  else
    match w.client.step e with
    | .ok s' => w.next s' e
    | .error _ => { w with stopped := true }

/-- A run from `smtp_init`. -/
def run (server : SmtpServer) (logLevel : ℕ) (es : List SmtpEvent) : SmtpRun :=
  es.foldl step (init server logLevel)

/-- The SDK answers a lookup once, and calls the connect callback at most once for an attempt. -/
def Once (w : SmtpRun) : SmtpEvent → Prop
  | .dns _ _ => w.lookup = true
  | .connected _ => 0 < w.attempts
  | _ => True

instance (w : SmtpRun) : ∀ e, Decidable (w.Once e)
  | .dns _ _ => inferInstanceAs (Decidable (w.lookup = true))
  | .connected _ => inferInstanceAs (Decidable (0 < w.attempts))
  | .send _ _ _ | .error _ _ | .disconnected | .recv _ _ _ | .sent | .kill | .setup _ | .logLevel _ =>
    .isTrue trivial

end SmtpRun

/-! ## The mail in the buffers -/

namespace Smtp

variable {s s' : Smtp} {mail : Mail}

/-- The buffers hold the strings of the mail. -/
structure Holds (s : Smtp) (mail : Mail) : Prop where
  from' : s.from'.str 0 = .ok mail.from'
  to' : s.to'.str 0 = .ok mail.to'
  subj : s.subj.str 0 = .ok mail.subj
  body : s.body.str 0 = .ok mail.body

/-- The buffers of the mail are the same. -/
structure SameMail (s s' : Smtp) : Prop where
  from' : s'.from' = s.from'
  to' : s'.to' = s.to'
  subj : s'.subj = s.subj
  body : s'.body = s.body

theorem Holds.same (h : s.Holds mail) (hs : SameMail s s') : s'.Holds mail :=
  ⟨hs.from' ▸ h.from', hs.to' ▸ h.to', hs.subj ▸ h.subj, hs.body ▸ h.body⟩

theorem store_holds (s : Smtp) (hfit : mail.Fits) : (s.store mail).Holds mail := by
  obtain ⟨hfrom, hto, hsubj, hbody⟩ := mail.nul_free
  exact ⟨Buf.str_strncpy _ hfrom hfit.from', Buf.str_strncpy _ hto hfit.to', Buf.str_strncpy _ hsubj hfit.subj,
    Buf.str_strncpy _ hbody hfit.body⟩

/-- Connecting sends nothing. -/
theorem sendConnect_frame (s : Smtp) (ip : UInt32) (rv : ConnectRv) :
    SameMail s (s.sendConnect ip rv) ∧ (s.sendConnect ip rv).sent = s.sent ∧
      ((s.sendConnect ip rv).stage = .connect ∨ (s.sendConnect ip rv).stage = .failed) := by
  unfold sendConnect
  dsimp only
  split_ifs
  · exact ⟨⟨rfl, rfl, rfl, rfl⟩, rfl, .inr rfl⟩
  · exact ⟨⟨rfl, rfl, rfl, rfl⟩, rfl, .inr rfl⟩
  · exact ⟨⟨rfl, rfl, rfl, rfl⟩, rfl, .inr rfl⟩
  · exact ⟨⟨rfl, rfl, rfl, rfl⟩, rfl, .inl rfl⟩

theorem sendDns_frame (s : Smtp) (ip : Option UInt32) (rv : ConnectRv) :
    SameMail s (s.sendDns ip rv) ∧ (s.sendDns ip rv).sent = s.sent ∧
      ((s.sendDns ip rv).stage = .connect ∨ (s.sendDns ip rv).stage = .failed) := by
  cases ip with
  | none => exact ⟨⟨rfl, rfl, rfl, rfl⟩, rfl, .inr rfl⟩
  | some ip => exact s.sendConnect_frame ip rv

theorem openSession_frame (s : Smtp) (lookup : Lookup) (rv : ConnectRv) (hfit : mail.Fits) :
    (s.openSession mail lookup rv).Holds mail ∧ (s.openSession mail lookup rv).sent = s.sent ∧
      ((s.openSession mail lookup rv).stage = .resolve ∨ (s.openSession mail lookup rv).stage = .connect ∨
        (s.openSession mail lookup rv).stage = .failed) := by
  have hstore := s.store_holds hfit
  cases lookup with
  | ok ip =>
    obtain ⟨hsame, hsent, hstage⟩ := sendConnect_frame { s.store mail with stage := .resolve } ip rv
    exact ⟨hstore.same ⟨hsame.from', hsame.to', hsame.subj, hsame.body⟩, hsent, .inr hstage⟩
  | inprogress => exact ⟨hstore.same ⟨rfl, rfl, rfl, rfl⟩, rfl, .inl rfl⟩
  | failed => exact ⟨hstore.same ⟨rfl, rfl, rfl, rfl⟩, rfl, .inr (.inr rfl)⟩

theorem espconnSend_same (s : Smtp) (data : List UInt8) (rv : ℤ) : SameMail s (s.espconnSend data rv) := by
  unfold espconnSend
  split_ifs
  · exact ⟨rfl, rfl, rfl, rfl⟩
  · exact ⟨rfl, rfl, rfl, rfl⟩

/-- The connect callback greets the server, or it fails. -/
theorem connCb_frame (s : Smtp) (rv : ConnRv) :
    SameMail s (s.connCb rv) ∧
      ((s.connCb rv).stage = .failed ∧ (s.connCb rv).sent = s.sent ∨
        ((s.connCb rv).stage = .greet ∨ (s.connCb rv).stage = .failed) ∧
          (s.connCb rv).sent = s.sent ++ [ascii "ehlo [127.0.1.1]\r\n"]) := by
  unfold connCb
  split_ifs
  · exact ⟨⟨rfl, rfl, rfl, rfl⟩, .inl ⟨rfl, rfl⟩⟩
  · exact ⟨⟨rfl, rfl, rfl, rfl⟩, .inl ⟨rfl, rfl⟩⟩
  · exact ⟨⟨rfl, rfl, rfl, rfl⟩, .inl ⟨rfl, rfl⟩⟩
  · refine ⟨⟨(espconnSend_same _ _ _).from', (espconnSend_same _ _ _).to', (espconnSend_same _ _ _).subj,
      (espconnSend_same _ _ _).body⟩, .inr ⟨?_, ?_⟩⟩
    · rw [espconnSend_stage]
      split_ifs
      · exact .inl rfl
      · exact .inr rfl
    · rw [espconnSend_sent]
      rfl

end Smtp

/-! ## Stages and commands -/

/-- The number of commands sent in a session that has come to a stage. -/
def SmtpStage.commands : SmtpStage → Option ℕ
  | .failed => none
  | .resolve | .connect => some 0
  | .greet => some 1
  | .challenge => some 2
  | .auth => some 3
  | .from' => some 4
  | .to' => some 5
  | .data => some 6
  | .quit => some 7
  | .close | .ready => some 8

theorem commands_eq_none {stage : SmtpStage} (h : stage.commands = none) : stage = .failed := by
  cases stage with
  | failed => rfl
  | _ => cases h

theorem Mail.sent_zero (mail : Mail) : mail.Sent 0 [] :=
  ⟨cramMd5 [] [] [] ++ crlf, ⟨[], [], [], List.not_mem_nil, rfl⟩, rfl⟩

/-- One more command of the script, from the third on. -/
theorem Mail.Sent.concat {mail : Mail} {k : ℕ} {commands : List (List UInt8)} {data : List UInt8}
    (h : mail.Sent k commands)
    (hdata : ∀ answer, (mail.script answer).take k ++ [data] = (mail.script answer).take (k + 1)) :
    mail.Sent (k + 1) (commands ++ [data]) := by
  obtain ⟨answer, hanswer, rfl⟩ := h
  exact ⟨answer, hanswer, hdata answer⟩

/-- A command takes the session one place further. -/
theorem Smtp.Command.commands {s : Smtp} {next : SmtpStage} {data : List UInt8} (h : s.Command next data) :
    ∃ k, 0 < k ∧ k < 8 ∧ s.stage.commands = some k ∧ next.commands = some (k + 1) := by
  cases h with
  | auth h => exact ⟨1, by norm_num, by norm_num, by rw [h]; rfl, rfl⟩
  | answer h => exact ⟨2, by norm_num, by norm_num, by rw [h]; rfl, rfl⟩
  | mail h => exact ⟨3, by norm_num, by norm_num, by rw [h]; rfl, rfl⟩
  | rcpt h => exact ⟨4, by norm_num, by norm_num, by rw [h]; rfl, rfl⟩
  | data h => exact ⟨5, by norm_num, by norm_num, by rw [h]; rfl, rfl⟩
  | message h => exact ⟨6, by norm_num, by norm_num, by rw [h]; rfl, rfl⟩
  | quit h => exact ⟨7, by norm_num, by norm_num, by rw [h]; rfl, rfl⟩

/-- A command is the next one of the script. -/
theorem Smtp.Command.script {s : Smtp} {mail : Mail} {next : SmtpStage} {data : List UInt8} {k : ℕ}
    {commands : List (List UInt8)} (h : s.Command next data) (hholds : s.Holds mail)
    (hk : s.stage.commands = some k) (hsent : mail.Sent k commands) :
    mail.Sent (k + 1) (commands ++ [data]) := by
  cases h with
  | auth h =>
    rw [h] at hk
    cases hk
    exact hsent.concat fun _ => rfl
  | answer h huser hpass hchallenge =>
    rw [h] at hk
    cases hk
    -- the commands before the answer are the same for every answer
    obtain ⟨_, -, rfl⟩ := hsent
    exact ⟨_, ⟨_, _, _, hchallenge, rfl⟩, rfl⟩
  | mail h htext =>
    rw [h] at hk
    cases hk
    rw [hholds.from', Except.ok.injEq] at htext
    rw [← htext]
    exact hsent.concat fun _ => rfl
  | rcpt h htext =>
    rw [h] at hk
    cases hk
    rw [hholds.to', Except.ok.injEq] at htext
    rw [← htext]
    exact hsent.concat fun _ => rfl
  | data h =>
    rw [h] at hk
    cases hk
    exact hsent.concat fun _ => rfl
  | message h hfrom hto hsubj hbody =>
    rw [h] at hk
    cases hk
    rw [hholds.from', Except.ok.injEq] at hfrom
    rw [hholds.to', Except.ok.injEq] at hto
    rw [hholds.subj, Except.ok.injEq] at hsubj
    rw [hholds.body, Except.ok.injEq] at hbody
    rw [← hfrom, ← hto, ← hsubj, ← hbody]
    exact hsent.concat fun _ => rfl
  | quit h =>
    rw [h] at hk
    cases hk
    exact hsent.concat fun _ => rfl

namespace SmtpRun

variable {w w' : SmtpRun} {s' : Smtp} {mail : Mail} {commands : List (List UInt8)} {k : ℕ}

/-- The session has come to its `k`-th command. -/
structure Recorded (w : SmtpRun) (mail : Mail) (commands : List (List UInt8)) (k : ℕ) : Prop where
  sent : mail.Sent k commands
  stage : ∀ n, w.client.stage.commands = some n → k = n
  holds : k < 8 → w.client.Holds mail
  lookup : w.lookup = true → k = 0 ∧ w.attempts = 0
  attempts : 0 < w.attempts → k = 0 ∧ w.attempts = 1

/-- Before the first session nothing is sent, and every session follows its script. -/
structure InScript (w : SmtpRun) : Prop where
  terminated : w.client.Terminated
  idle : w.session = none →
    (w.client.stage.commands = some 8 ∨ w.client.stage = .failed) ∧ w.client.sent = [] ∧ w.lookup = false ∧
      w.attempts = 0
  script : ∀ mail commands, w.session = some (mail, commands) → ∃ k, w.Recorded mail commands k

theorem next_client (w : SmtpRun) (s' : Smtp) (e : SmtpEvent) : (w.next s' e).client = s' := by
  unfold next
  cases e with
  | send mail lookup rv => dsimp only; split_ifs <;> rfl
  | error err connecting => dsimp only; split_ifs <;> rfl
  | _ => rfl

theorem record_same (h : s'.sent = w.client.sent) : w.record s' = { w with client := s' } := by
  unfold record
  rw [h, List.drop_length]
  cases w.session with
  | none => rfl
  | some x => simp

theorem record_concat {data : List UInt8} (h : s'.sent = w.client.sent ++ [data]) :
    w.record s' = { w with client := s', session := w.session.map fun x => (x.1, x.2 ++ [data]) } := by
  unfold record
  rw [h, List.drop_left]

theorem Recorded.quiet (h : w.Recorded mail commands k)
    (hstage : w'.client.stage.commands = w.client.stage.commands ∨ w'.client.stage = .failed)
    (hmail : w.client.stage ≠ .ready → Smtp.SameMail w.client w'.client) (hlookup : w'.lookup = true → w.lookup = true)
    (hattempts : w'.attempts ≤ w.attempts) : w'.Recorded mail commands k := by
  constructor
  case sent => exact h.sent
  case stage =>
    intro n hn
    rcases hstage with hstage | hstage
    · rw [hstage] at hn
      exact h.stage n hn
    · rw [hstage] at hn
      cases hn
  case holds =>
    intro hk
    refine (h.holds hk).same (hmail fun hready => ?_)
    have height := h.stage 8 (by rw [hready]; rfl)
    omega
  case lookup =>
    intro hpending
    obtain ⟨hk, hzero⟩ := h.lookup (hlookup hpending)
    exact ⟨hk, by omega⟩
  case attempts =>
    intro hpos
    obtain ⟨hk, hone⟩ := h.attempts (by omega)
    exact ⟨hk, by omega⟩

/-- A callback that sends nothing and leaves the stage alone, or fails. -/
theorem InScript.quiet (h : w.InScript) (hterm : w'.client.Terminated)
    (hsent : w'.client.sent = w.client.sent)
    (hstage : w'.client.stage.commands = w.client.stage.commands ∨ w'.client.stage = .failed)
    (hmail : w.client.stage ≠ .ready → Smtp.SameMail w.client w'.client) (hsession : w'.session = w.session)
    (hlookup : w'.lookup = true → w.lookup = true) (hattempts : w'.attempts ≤ w.attempts) : w'.InScript := by
  constructor
  case terminated => exact hterm
  case idle =>
    intro hnone
    rw [hsession] at hnone
    obtain ⟨hready, hempty, hno, hzero⟩ := h.idle hnone
    refine ⟨?_, hsent.trans hempty, ?_, by omega⟩
    · rcases hstage with hstage | hstage
      · rcases hready with hready | hfailed
        · exact .inl (hstage.trans hready)
        · rw [hfailed] at hstage
          exact .inr (commands_eq_none hstage)
      · exact .inr hstage
    · by_contra hpending
      rw [hlookup (Bool.not_eq_false _ ▸ hpending)] at hno
      cases hno
  case script =>
    intro mail commands hsome
    rw [hsession] at hsome
    obtain ⟨k, hrecorded⟩ := h.script mail commands hsome
    exact ⟨k, hrecorded.quiet hstage hmail hlookup hattempts⟩

theorem InScript.record (h : w.InScript) (hterm : s'.Terminated) (hsent : s'.sent = w.client.sent)
    (hstage : s'.stage.commands = w.client.stage.commands ∨ s'.stage = .failed)
    (hmail : w.client.stage ≠ .ready → Smtp.SameMail w.client s') :
    (w.record s').InScript := by
  rw [record_same hsent]
  exact h.quiet hterm hsent hstage hmail rfl id le_rfl

theorem init_inScript (server : SmtpServer) (logLevel : ℕ) : (init server logLevel).InScript := by
  constructor
  case terminated => exact (Smtp.Reachable.init server logLevel).terminated
  case idle => exact fun _ => ⟨.inl rfl, rfl, rfl, rfl⟩
  case script =>
    intro mail commands hsome
    cases hsome

/-- A session is opened in a client that has nothing outstanding. -/
theorem InScript.ready (h : w.InScript) (hready : w.client.stage = .ready) :
    w.lookup = false ∧ w.attempts = 0 := by
  cases hsession : w.session with
  | none => exact (h.idle hsession).2.2
  | some x =>
    obtain ⟨k, hrecorded⟩ := h.script x.1 x.2 hsession
    have hk : k = 8 := hrecorded.stage 8 (by rw [hready]; rfl)
    refine ⟨?_, ?_⟩
    · by_contra hpending
      have hzero := (hrecorded.lookup (Bool.not_eq_false _ ▸ hpending)).1
      omega
    · by_contra hpos
      have hzero := (hrecorded.attempts (Nat.pos_of_ne_zero hpos)).1
      omega

theorem inScript_send (h : w.InScript) {lookup : Lookup} {rv : ConnectRv} (hterm : s'.Terminated)
    (hs : w.client.Called mail lookup rv s') : (w.next s' (.send mail lookup rv)).InScript := by
  cases hs with
  | rejected =>
    -- no session is opened, and nothing is sent
    dsimp only [next]
    rw [if_neg (fun hopened => hopened.2 hopened.1)]
    exact h.record hterm rfl (.inl rfl) fun _ => ⟨rfl, rfl, rfl, rfl⟩
  | overflow hready from' to' subj =>
    dsimp only [next]
    rw [if_neg (fun hopened => hopened.2 hready)]
    exact h.record hterm rfl (.inl rfl) fun hne => absurd hready hne
  | opened _ hready hfit =>
    obtain ⟨hholds, hsent, hstage⟩ := w.client.openSession_frame lookup rv hfit
    obtain ⟨hno, hzero⟩ := h.ready hready
    -- a new session has sent nothing, and its lookup or its connection is still to come
    have hopened : (w.client.openSession mail lookup rv).stage ≠ .ready := by
      rcases hstage with hstage | hstage | hstage
      all_goals
        rw [hstage]
        decide
    dsimp only [next]
    rw [if_pos ⟨hready, hopened⟩, hsent, List.drop_length, hno, hzero]
    constructor
    case terminated => exact hterm
    case idle =>
      intro hnone
      cases hnone
    case script =>
      intro mail' commands' hsome
      cases hsome
      refine ⟨0, mail.sent_zero, ?_, fun _ => hholds, ?_, ?_⟩
      · intro n hn
        dsimp only at hn
        rcases hstage with hstage | hstage | hstage
        all_goals
          rw [hstage] at hn
          cases hn
        all_goals rfl
      · intro hpending
        dsimp only at hpending ⊢
        have hresolve : (w.client.openSession mail lookup rv).stage = .resolve := by simpa using hpending
        rw [hresolve]
        exact ⟨rfl, rfl⟩
      · intro hpos
        dsimp only at hpos ⊢
        split_ifs at hpos ⊢
        · exact ⟨rfl, rfl⟩
        · omega

theorem inScript_dns (h : w.InScript) (hlookup : w.lookup = true) (ip : Option UInt32) (rv : ConnectRv)
    (hterm : (w.client.sendDns ip rv).Terminated) :
    (w.next (w.client.sendDns ip rv) (.dns ip rv)).InScript := by
  obtain ⟨hmail, hsent, hstage⟩ := w.client.sendDns_frame ip rv
  dsimp only [next]
  rw [record_same hsent]
  constructor
  case terminated => exact hterm
  case idle =>
    intro hnone
    have hno := (h.idle hnone).2.2.1
    rw [hlookup] at hno
    cases hno
  case script =>
    intro mail commands hsome
    obtain ⟨k, hrecorded⟩ := h.script mail commands hsome
    -- a lookup is pending only before the first command
    obtain ⟨rfl, hzero⟩ := hrecorded.lookup hlookup
    refine ⟨0, hrecorded.sent, ?_, fun _ => (hrecorded.holds (by norm_num)).same hmail, ?_, ?_⟩
    · intro n hn
      rcases hstage with hstage | hstage
      · dsimp only at hn
        rw [hstage] at hn
        cases hn
        rfl
      · dsimp only at hn
        rw [hstage] at hn
        cases hn
    · intro hpending
      cases hpending
    · intro hpos
      dsimp only at hpos ⊢
      split_ifs at hpos ⊢
      · exact ⟨rfl, by omega⟩
      · omega

theorem inScript_connected (h : w.InScript) (hattempts : 0 < w.attempts) (rv : ConnRv)
    (hterm : (w.client.connCb rv).Terminated) : (w.next (w.client.connCb rv) (.connected rv)).InScript := by
  obtain ⟨hmail, hcases⟩ := w.client.connCb_frame rv
  dsimp only [next]
  rcases hcases with ⟨hstage, hsent⟩ | ⟨hstage, hsent⟩
  · -- a callback could not be registered: the session fails with nothing sent
    rw [record_same hsent]
    exact h.quiet hterm hsent (.inr hstage) (fun _ => hmail) rfl id (Nat.sub_le _ _)
  · -- `ehlo` is sent, the first command of the script
    rw [record_concat hsent]
    constructor
    case terminated => exact hterm
    case idle =>
      intro hnone
      have hzero := (h.idle (Option.map_eq_none_iff.mp hnone)).2.2.2
      omega
    case script =>
      intro mail commands hsome
      obtain ⟨⟨mail', commands'⟩, hsession, heq⟩ := Option.map_eq_some_iff.mp hsome
      cases heq
      obtain ⟨k, hrecorded⟩ := h.script mail' commands' hsession
      obtain ⟨rfl, hone⟩ := hrecorded.attempts hattempts
      have hno : w.lookup ≠ true := by
        intro hpending
        have hzero := (hrecorded.lookup hpending).2
        omega
      refine ⟨1, hrecorded.sent.concat fun _ => rfl, ?_, fun _ => (hrecorded.holds (by norm_num)).same hmail,
        fun hpending => absurd hpending hno, ?_⟩
      · intro n hn
        rcases hstage with hstage | hstage
        · dsimp only at hn
          rw [hstage] at hn
          cases hn
          rfl
        · dsimp only at hn
          rw [hstage] at hn
          cases hn
      · intro hpos
        dsimp only at hpos
        omega

theorem inScript_command (h : w.InScript) {next : SmtpStage} {data : List UInt8}
    (hcommand : w.client.Command next data) (hterm : s'.Terminated) (hsent : s'.sent = w.client.sent ++ [data])
    (hstage : s'.stage = next ∨ s'.stage = .failed) (hmail : Smtp.SameMail w.client s') :
    (w.record s').InScript := by
  rw [record_concat hsent]
  constructor
  case terminated => exact hterm
  case idle =>
    -- a client that has opened no session waits for no line
    intro hnone
    obtain ⟨k, -, hk, hcount, -⟩ := hcommand.commands
    rcases (h.idle (Option.map_eq_none_iff.mp hnone)).1 with hidle | hidle
    · rw [hcount, Option.some.injEq] at hidle
      omega
    · rw [hidle] at hcount
      cases hcount
  case script =>
    intro mail commands hsome
    obtain ⟨⟨mail', commands'⟩, hsession, heq⟩ := Option.map_eq_some_iff.mp hsome
    cases heq
    obtain ⟨k, hrecorded⟩ := h.script mail' commands' hsession
    obtain ⟨k', hpos, hlt, hcount, hnext⟩ := hcommand.commands
    obtain rfl := hrecorded.stage k' hcount
    have hholds := hrecorded.holds hlt
    refine ⟨k + 1, hcommand.script hholds hcount hrecorded.sent, ?_, fun _ => hholds.same hmail, ?_, ?_⟩
    · intro n hn
      dsimp only at hn
      rcases hstage with hstage | hstage
      · rw [hstage, hnext, Option.some.injEq] at hn
        exact hn
      · rw [hstage] at hn
        cases hn
    · intro hpending
      have hzero := (hrecorded.lookup hpending).1
      omega
    · intro hpending
      have hzero := (hrecorded.attempts hpending).1
      omega

theorem inScript_recv (h : w.InScript) {data : List UInt8} {stack : Stack} {rv : ℤ} {refused ended : Prop}
    (hterm : s'.Terminated) (hs : w.client.Received rv refused ended s') : (w.next s' (.recv data stack rv)).InScript := by
  dsimp only [next]
  cases hs with
  | waiting inbuf inbufused => exact h.record hterm rfl (.inl rfl) fun _ => ⟨rfl, rfl, rfl, rfl⟩
  | failed inbuf inbufused outbuf => exact h.record hterm rfl (.inr rfl) fun _ => ⟨rfl, rfl, rfl, rfl⟩
  | @command inbuf inbufused outbuf next data hcommand =>
    refine inScript_command h hcommand hterm (Smtp.espconnSend_sent _) ?_ ?_
    · rw [Smtp.espconnSend_stage]
      split_ifs
      · exact .inl rfl
      · exact .inr rfl
    · have hsame := Smtp.espconnSend_same { w.client.buffers inbuf inbufused outbuf with stage := next } data rv
      exact ⟨hsame.from', hsame.to', hsame.subj, hsame.body⟩
  | closed inbuf inbufused hclose =>
    refine h.record hterm rfl (.inl ?_) fun _ => ⟨rfl, rfl, rfl, rfl⟩
    rw [hclose]
    rfl

theorem step_inScript {e : SmtpEvent} (honce : w.Once e) (h : w.InScript) : (w.step e).InScript := by
  unfold step
  by_cases hstop : w.stopped = true
  · rw [if_pos hstop]
    exact h
  rw [if_neg hstop]
  cases hs : w.client.step e with
  | error f => exact h.quiet h.terminated rfl (.inl rfl) (fun _ => ⟨rfl, rfl, rfl, rfl⟩) rfl id le_rfl
  | ok s' =>
    have hterm := h.terminated.step hs
    cases e with
    | send mail lookup rv => exact inScript_send h hterm (Smtp.send_called hs)
    | dns ip rv => cases hs; exact inScript_dns h honce ip rv hterm
    | connected rv => cases hs; exact inScript_connected h honce rv hterm
    | recv data stack rv => exact inScript_recv h hterm (Smtp.recvCb_handled h.terminated hs).1
    | error err connecting =>
      cases hs
      dsimp only [next]
      rw [record_same rfl]
      cases connecting with
      | false => exact h.quiet hterm rfl (.inl rfl) (fun _ => ⟨rfl, rfl, rfl, rfl⟩) rfl id le_rfl
      | true => exact h.quiet hterm rfl (.inl rfl) (fun _ => ⟨rfl, rfl, rfl, rfl⟩) rfl id (Nat.sub_le _ _)
    | disconnected =>
      cases hs
      dsimp only [next]
      rw [record_same rfl]
      exact h.quiet hterm rfl (.inl rfl) (fun _ => ⟨rfl, rfl, rfl, rfl⟩) rfl id le_rfl
    | sent =>
      cases hs
      exact h.record hterm rfl (.inl rfl) fun _ => ⟨rfl, rfl, rfl, rfl⟩
    | kill =>
      cases hs
      exact h.record hterm rfl (.inl rfl) fun _ => ⟨rfl, rfl, rfl, rfl⟩
    | setup server =>
      cases hs
      exact h.record hterm rfl (.inl rfl) fun _ => ⟨rfl, rfl, rfl, rfl⟩
    | logLevel level =>
      cases hs
      exact h.record hterm rfl (.inl rfl) fun _ => ⟨rfl, rfl, rfl, rfl⟩

theorem run_inScript (server : SmtpServer) (logLevel : ℕ) {es : List SmtpEvent}
    (hes : Runs.Along step Once (init server logLevel) es) : (run server logLevel es).InScript :=
  Runs.foldl_inv_along (fun _ _ honce h => step_inScript honce h) (init_inScript server logLevel) hes

/-- In every run nothing is sent before the first session, the commands of a session are the first
ones of the script of the mail that opened it, whole, and a call of `smtp_send` outside `READY`
changes nothing. -/
theorem session_follows_script (server : SmtpServer) (logLevel : ℕ) (es : List SmtpEvent)
    (hes : Runs.Along step Once (init server logLevel) es) :
    ((run server logLevel es).session = none → (run server logLevel es).client.sent = []) ∧
      (∀ mail commands, (run server logLevel es).session = some (mail, commands) →
        ∃ k, mail.Sent k commands) ∧
      (∀ mail lookup rv s', (run server logLevel es).client.stage ≠ .ready →
        (run server logLevel es).client.send mail lookup rv = .ok s' → s' = (run server logLevel es).client) := by
  have hinv := run_inScript server logLevel hes
  refine ⟨fun hnone => (hinv.idle hnone).2.1, ?_, fun mail lookup rv s' hstage hs => Smtp.send_not_ready hstage hs⟩
  intro mail commands hsome
  obtain ⟨k, hrecorded⟩ := hinv.script mail commands hsome
  exact ⟨k, hrecorded.sent⟩

theorem session_follows_script_greeted :
    (run Smtp.account 20 Smtp.greeted).session =
        some (Smtp.smallMail, [ascii "ehlo [127.0.1.1]\r\n", ascii "AUTH CRAM-MD5\r\n"]) ∧
      ∃ k, Smtp.smallMail.Sent k [ascii "ehlo [127.0.1.1]\r\n", ascii "AUTH CRAM-MD5\r\n"] := by
  have hsession : (run Smtp.account 20 Smtp.greeted).session =
      some (Smtp.smallMail, [ascii "ehlo [127.0.1.1]\r\n", ascii "AUTH CRAM-MD5\r\n"]) := by decide
  have honce : Runs.Along step Once (init Smtp.account 20) Smtp.greeted := by decide
  exact ⟨hsession, (session_follows_script Smtp.account 20 Smtp.greeted honce).2.1 _ _ hsession⟩

end SmtpRun
end Esp8266Toolbox
