import Esp8266Toolbox.Smtp.Session

/-!
# The end of a session

What the state, the connection and the kill timer should be to each other, and the runs in which
they are: those in which no session ends. `FAILED` is never left, `READY` comes before the
connection is closed, and most failures arm the timer without the connection.
-/

namespace Esp8266Toolbox

/-- The calls of `smtp_send_connect` succeed. -/
def ConnectRv.Succeeds (rv : ConnectRv) : Prop := rv.connectcb = 0 ∧ rv.reconcb = 0 ∧ rv.connect = 0

/-- The lookup leads to an attempt to connect, now or when it is answered. -/
def Lookup.Leads (lookup : Lookup) (rv : ConnectRv) : Prop :=
  match lookup with
  | .ok _ => rv.Succeeds
  | .inprogress => True
  | .failed => False

/-- A connection is open, and the client waits for a line. -/
def SmtpStage.InSession (stage : SmtpStage) : Prop :=
  stage ≠ .failed ∧ stage ≠ .ready ∧ stage ≠ .resolve ∧ stage ≠ .connect

theorem greet_inSession : SmtpStage.greet.InSession := ⟨by decide, by decide, by decide, by decide⟩

namespace Smtp

variable {s s' : Smtp}

theorem sendConnect_succeeds {rv : ConnectRv} (h : rv.Succeeds) (s : Smtp) (ip : UInt32) :
    s.sendConnect ip rv = { s with stage := .connect, remotePort := s.server.port, remoteIp := ip } := by
  obtain ⟨hconnectcb, hreconcb, hconnect⟩ := h
  unfold sendConnect
  rw [if_neg (not_not.mpr hconnectcb), if_neg (not_not.mpr hreconcb), if_neg (not_not.mpr hconnect)]

/-- A session that is opened waits for the lookup or for the connection. -/
theorem openSession_leads {lookup : Lookup} {rv : ConnectRv} (h : lookup.Leads rv) (s : Smtp) (mail : Mail) :
    (s.openSession mail lookup rv).timer = s.timer ∧
      ((s.openSession mail lookup rv).stage = .resolve ∨ (s.openSession mail lookup rv).stage = .connect) := by
  cases lookup with
  | ok ip =>
    have hsucceeds : rv.Succeeds := h
    unfold openSession
    dsimp only
    rw [sendConnect_succeeds hsucceeds]
    exact ⟨rfl, .inr rfl⟩
  | inprogress => exact ⟨rfl, .inl rfl⟩
  | failed => exact h.elim

/-- `smtp_send` goes on to the lookup. -/
def Accepts (s : Smtp) (mail : Mail) : Prop :=
  s.server.host.str 0 ≠ .ok [] ∧ s.stage = .ready ∧ mail.Fits

theorem espconnSend_zero (data : List UInt8) : s.espconnSend data 0 = { s with sent := s.sent ++ [data] } := rfl

theorem Command.inSession {next : SmtpStage} {data : List UInt8} (h : s.Command next data) : next.InSession := by
  cases h
  all_goals exact ⟨by decide, by decide, by decide, by decide⟩

end Smtp

namespace SmtpRun

variable {w : SmtpRun} {s' : Smtp} {e : SmtpEvent}

/-- What is outstanding for the client. -/
structure Outstanding (w : SmtpRun) (lookup : Bool) (attempts connections : ℕ) (timer : Option KillArg) :
    Prop where
  lookup : w.lookup = lookup
  attempts : w.attempts = attempts
  connections : w.connections = connections
  timer : w.client.timer = timer

/-- A client for which nothing is outstanding can send the next mail, one that is ready has no open
connection, and an armed timer has the connection. -/
structure Clean (w : SmtpRun) : Prop where
  ready : w.Outstanding false 0 0 none → w.client.stage = .ready
  closed : w.client.stage = .ready → w.connections = 0
  timer : ∀ arg, w.client.timer = some arg → arg = .conn

/-- What the SDK may do next: it answers a pending lookup, an attempt to connect succeeds or fails, an
open connection receives data and ends, and an armed timer fires. -/
def Allowed (w : SmtpRun) : SmtpEvent → Prop
  | .dns _ _ => w.lookup = true
  | .connected _ => 0 < w.attempts
  | .error _ true => 0 < w.attempts
  | .error _ false => 0 < w.connections
  | .disconnected => 0 < w.connections
  | .recv _ _ _ => 0 < w.connections
  | .sent => 0 < w.connections
  | .kill => w.client.timer ≠ none
  | .send _ _ _ | .setup _ | .logLevel _ => True

instance (w : SmtpRun) : ∀ e, Decidable (w.Allowed e)
  | .dns _ _ => inferInstanceAs (Decidable (w.lookup = true))
  | .connected _ => inferInstanceAs (Decidable (0 < w.attempts))
  | .error _ true => inferInstanceAs (Decidable (0 < w.attempts))
  | .error _ false => inferInstanceAs (Decidable (0 < w.connections))
  | .disconnected => inferInstanceAs (Decidable (0 < w.connections))
  | .recv _ _ _ => inferInstanceAs (Decidable (0 < w.connections))
  | .sent => inferInstanceAs (Decidable (0 < w.connections))
  | .kill => inferInstanceAs (Decidable (w.client.timer ≠ none))
  | .send _ _ _ | .setup _ | .logLevel _ => .isTrue trivial

/-- The callback ends no session: a mail that is accepted leads to a connection, lines and commands
are accepted, the line that closes the session does not come, and a connection that has failed is
not yet gone together with its timer. -/
def Continues (w : SmtpRun) : SmtpEvent → Prop
  | .send mail lookup rv => w.client.Accepts mail → lookup.Leads rv
  | .dns ip rv => ip ≠ none ∧ rv.Succeeds
  | .connected rv => rv.disconcb ≠ 0 ∨ rv.recvcb ≠ 0 ∨ rv.sentcb ≠ 0 ∨ rv.send = 0
  | .recv data stack rv =>
    w.client.inbufused + data.length < 2048 ∧ ¬(w.client.append data).Refused stack ∧ rv = 0 ∧
      (w.client.stage = .close → (w.client.append data).lineEnd = .ok none)
  | .error _ connecting => connecting = false ∧ w.client.timer ≠ none
  | .disconnected => w.client.timer ≠ none
  | .kill => 0 < w.connections
  | .sent | .setup _ | .logLevel _ => True

/-- The states of a client whose session has not ended. -/
inductive Phase (w : SmtpRun) : Prop
  | ready (hstage : w.client.stage = .ready) (h : w.Outstanding false 0 0 none)
  | resolve (hstage : w.client.stage = .resolve) (h : w.Outstanding true 0 0 none)
  | connect (hstage : w.client.stage = .connect) (h : w.Outstanding false 1 0 none)
  | session (hstage : w.client.stage.InSession) (h : w.Outstanding false 0 1 none)
  | failed (hstage : w.client.stage = .failed) (connections : ℕ) (timer : Option KillArg)
      (h : w.Outstanding false 0 connections timer) (htimer : ∀ arg, timer = some arg → arg = .conn)
      (hleft : 0 < connections ∨ timer ≠ none)

theorem Phase.clean (h : w.Phase) : w.Clean := by
  constructor
  case ready =>
    intro hnone
    cases h with
    | ready hstage => exact hstage
    | resolve _ h => exact absurd (h.lookup.symm.trans hnone.lookup) (by decide)
    | connect _ h => exact absurd (h.attempts.symm.trans hnone.attempts) (by decide)
    | session _ h => exact absurd (h.connections.symm.trans hnone.connections) (by decide)
    -- a failed session still has a connection or a timer
    | failed _ connections timer h _ hleft =>
      rcases hleft with hpos | harmed
      · have hzero := h.connections.symm.trans hnone.connections
        omega
      · exact absurd (h.timer.symm.trans hnone.timer) harmed
  case closed =>
    intro hready
    cases h with
    | ready _ h => exact h.connections
    | resolve hstage => rw [hstage] at hready; cases hready
    | connect hstage => rw [hstage] at hready; cases hready
    | session hstage => exact absurd hready hstage.2.1
    | failed hstage => rw [hstage] at hready; cases hready
  case timer =>
    intro arg harg
    cases h with
    | ready _ h => rw [h.timer] at harg; cases harg
    | resolve _ h => rw [h.timer] at harg; cases harg
    | connect _ h => rw [h.timer] at harg; cases harg
    | session _ h => rw [h.timer] at harg; cases harg
    | failed _ _ _ h htimer => exact htimer arg (h.timer.symm.trans harg)

/-! ## Steps -/

/-- The phase depends on the stage and on what is outstanding. -/
theorem Phase.of_eq {w' : SmtpRun} (h : w.Phase) (hstage : w'.client.stage = w.client.stage)
    (htimer : w'.client.timer = w.client.timer) (hlookup : w'.lookup = w.lookup)
    (hattempts : w'.attempts = w.attempts) (hconnections : w'.connections = w.connections) : w'.Phase := by
  have hsame : ∀ {l a c t}, w.Outstanding l a c t → w'.Outstanding l a c t := fun ho =>
    ⟨hlookup.trans ho.lookup, hattempts.trans ho.attempts, hconnections.trans ho.connections,
      htimer.trans ho.timer⟩
  cases h with
  | ready hs ho => exact .ready (hstage.trans hs) (hsame ho)
  | resolve hs ho => exact .resolve (hstage.trans hs) (hsame ho)
  | connect hs ho => exact .connect (hstage.trans hs) (hsame ho)
  | session hs ho => exact .session (hstage ▸ hs) (hsame ho)
  | failed hs c t ho ht hleft => exact .failed (hstage.trans hs) c t (hsame ho) ht hleft

theorem Phase.of_ready (h : w.Phase) (hready : w.client.stage = .ready) : w.Outstanding false 0 0 none := by
  cases h with
  | ready _ ho => exact ho
  | resolve hs => rw [hs] at hready; cases hready
  | connect hs => rw [hs] at hready; cases hready
  | session hs => exact absurd hready hs.2.1
  | failed hs => rw [hs] at hready; cases hready

/-- A pending lookup, in the state of one. -/
theorem Phase.of_lookup (h : w.Phase) (hlookup : w.lookup = true) : w.Outstanding true 0 0 none := by
  cases h with
  | ready _ ho => exact absurd (ho.lookup.symm.trans hlookup) (by decide)
  | resolve _ ho => exact ho
  | connect _ ho => exact absurd (ho.lookup.symm.trans hlookup) (by decide)
  | session _ ho => exact absurd (ho.lookup.symm.trans hlookup) (by decide)
  | failed _ _ _ ho => exact absurd (ho.lookup.symm.trans hlookup) (by decide)

/-- An attempt to connect, in the state of one. -/
theorem Phase.of_attempts (h : w.Phase) (hattempts : 0 < w.attempts) : w.Outstanding false 1 0 none := by
  cases h with
  | ready _ ho => exact absurd ho.attempts (by omega)
  | resolve _ ho => exact absurd ho.attempts (by omega)
  | connect _ ho => exact ho
  | session _ ho => exact absurd ho.attempts (by omega)
  | failed _ _ _ ho => exact absurd ho.attempts (by omega)

theorem phase_send (h : w.Phase) {mail : Mail} {lookup : Lookup} {rv : ConnectRv}
    (hleads : w.client.Accepts mail → lookup.Leads rv) (hs : w.client.Called mail lookup rv s') :
    (w.next s' (.send mail lookup rv)).Phase := by
  dsimp only [next]
  cases hs with
  | rejected =>
    rw [if_neg (fun hopened => hopened.2 hopened.1)]
    exact h.of_eq rfl rfl rfl rfl rfl
  | overflow hready from' to' subj =>
    rw [if_neg (fun hopened => hopened.2 hready)]
    exact h.of_eq rfl rfl rfl rfl rfl
  | opened hhost hready hfit =>
    have ho := h.of_ready hready
    obtain ⟨htimer, hstage⟩ := Smtp.openSession_leads (hleads ⟨hhost, hready, hfit⟩) w.client mail
    have hopened : (w.client.openSession mail lookup rv).stage ≠ .ready := by
      rcases hstage with hstage | hstage
      all_goals
        rw [hstage]
        decide
    rw [if_pos ⟨hready, hopened⟩]
    -- the address is looked up first, or it is known
    rcases hstage with hstage | hstage
    · refine .resolve hstage ⟨?_, ?_, ho.connections, htimer.trans ho.timer⟩
      · dsimp only
        rw [hstage]
        exact Bool.or_true _
      · dsimp only
        rw [hstage, ho.attempts]
        rfl
    · refine .connect hstage ⟨?_, ?_, ho.connections, htimer.trans ho.timer⟩
      · dsimp only
        rw [hstage, ho.lookup]
        rfl
      · dsimp only
        rw [hstage, ho.attempts]
        rfl

theorem phase_dns (h : w.Phase) (hlookup : w.lookup = true) {ip : Option UInt32} {rv : ConnectRv}
    (hip : ip ≠ none) (hrv : rv.Succeeds) : (w.next (w.client.sendDns ip rv) (.dns ip rv)).Phase := by
  have ho := h.of_lookup hlookup
  cases ip with
  | none => exact absurd rfl hip
  | some ip =>
    have hconnect := Smtp.sendConnect_succeeds hrv w.client ip
    have hstage : (w.client.sendDns (some ip) rv).stage = .connect := congrArg Smtp.stage hconnect
    have htimer : (w.client.sendDns (some ip) rv).timer = w.client.timer := by
      have hsame := congrArg Smtp.timer hconnect
      exact hsame
    refine .connect hstage ⟨rfl, ?_, ho.connections, htimer.trans ho.timer⟩
    dsimp only [next]
    rw [hstage, ho.attempts]
    rfl

theorem phase_connected (h : w.Phase) (hattempts : 0 < w.attempts) {rv : ConnRv}
    (hrv : rv.disconcb ≠ 0 ∨ rv.recvcb ≠ 0 ∨ rv.sentcb ≠ 0 ∨ rv.send = 0) :
    (w.next (w.client.connCb rv) (.connected rv)).Phase := by
  have ho := h.of_attempts hattempts
  have hattempts' : w.attempts - 1 = 0 := by
    rw [ho.attempts]
  have hconnections : w.connections + 1 = 1 := by
    rw [ho.connections]
  have hfailed : ∀ s : Smtp, s.stage = .failed → s.timer = some .conn →
      Phase { w.record s with attempts := w.attempts - 1, connections := w.connections + 1 } := by
    intro s hstage htimer
    refine .failed hstage 1 (some .conn) ⟨ho.lookup, hattempts', hconnections, htimer⟩ ?_ (.inl Nat.one_pos)
    rintro arg ⟨⟩
    rfl
  dsimp only [next]
  unfold Smtp.connCb
  split_ifs with hdisconcb hrecvcb hsentcb
  · exact hfailed _ rfl rfl
  · exact hfailed _ rfl rfl
  · exact hfailed _ rfl rfl
  · have hsend : rv.send = 0 := by
      rcases hrv with hrv | hrv | hrv | hrv
      · exact absurd hrv hdisconcb
      · exact absurd hrv hrecvcb
      · exact absurd hrv hsentcb
      · exact hrv
    rw [hsend, Smtp.espconnSend_zero]
    exact .session greet_inSession ⟨ho.lookup, hattempts', hconnections, ho.timer⟩

/-- A segment on an open connection: the client waits on, or it sends its next command. -/
theorem phase_recv (h : w.Phase) (hopen : 0 < w.connections) {data : List UInt8} {stack : Stack}
    {refused ended : Prop} (hs : w.client.Received 0 refused ended s') (hrefused : ¬refused)
    (hended : w.client.stage = .close → ¬ended) : (w.next s' (.recv data stack 0)).Phase := by
  dsimp only [next]
  cases hs with
  | waiting inbuf inbufused => exact h.of_eq rfl rfl rfl rfl rfl
  | failed _ _ _ hfailed => exact absurd hfailed hrefused
  | closed _ _ hclose hended' => exact absurd hended' (hended hclose)
  | command inbuf inbufused outbuf hcommand =>
    rw [Smtp.espconnSend_zero]
    -- only a client in a session has a command to send
    cases h with
    | ready _ ho => exact absurd ho.connections (by omega)
    | resolve _ ho => exact absurd ho.connections (by omega)
    | connect _ ho => exact absurd ho.connections (by omega)
    | session _ ho => exact .session hcommand.inSession ⟨ho.lookup, ho.attempts, ho.connections, ho.timer⟩
    | failed hstage =>
      obtain ⟨k, -, -, hcount, -⟩ := hcommand.commands
      rw [hstage] at hcount
      cases hcount

/-- A connection is gone while the timer is still armed: the client has failed before. -/
theorem Phase.armed (h : w.Phase) (harmed : w.client.timer ≠ none) :
    w.client.stage = .failed ∧ ∃ connections, w.Outstanding false 0 connections (some .conn) := by
  cases h with
  | ready _ ho => exact absurd ho.timer harmed
  | resolve _ ho => exact absurd ho.timer harmed
  | connect _ ho => exact absurd ho.timer harmed
  | session _ ho => exact absurd ho.timer harmed
  | failed hstage connections timer ho htimer _ =>
    refine ⟨hstage, connections, ?_⟩
    rcases timer with _ | arg
    · exact absurd ho.timer harmed
    · rw [htimer arg rfl] at ho
      exact ho

theorem Phase.gone (h : w.Phase) (harmed : w.client.timer ≠ none) (s' : Smtp) (hs : s' = w.client) :
    Phase { w.record s' with connections := w.connections - 1 } := by
  subst hs
  obtain ⟨hstage, connections, ho⟩ := h.armed harmed
  refine .failed hstage (w.connections - 1) (some .conn) ⟨ho.lookup, ho.attempts, rfl, ho.timer⟩ ?_
    (.inr (by simp))
  rintro arg ⟨⟩
  rfl

theorem step_phase {e : SmtpEvent} (hallowed : w.Allowed e) (hcontinues : w.Continues e)
    (h : w.client.Terminated ∧ w.Phase) : (w.step e).client.Terminated ∧ (w.step e).Phase := by
  obtain ⟨hterm, hphase⟩ := h
  unfold step
  by_cases hstop : w.stopped = true
  · rw [if_pos hstop]
    exact ⟨hterm, hphase⟩
  rw [if_neg hstop]
  cases hs : w.client.step e with
  | error f => exact ⟨hterm, hphase.of_eq rfl rfl rfl rfl rfl⟩
  | ok s' =>
    have hterm' := hterm.step hs
    change (w.next s' e).client.Terminated ∧ (w.next s' e).Phase
    refine ⟨by rwa [next_client], ?_⟩
    cases e with
    | send mail lookup rv => exact phase_send hphase hcontinues (Smtp.send_called hs)
    | dns ip rv =>
      cases hs
      exact phase_dns hphase hallowed hcontinues.1 hcontinues.2
    | connected rv =>
      cases hs
      exact phase_connected hphase hallowed hcontinues
    | recv data stack rv =>
      -- the segment fits and its lines are served, so the session goes on
      obtain ⟨hfit, hserved, rfl, hclose⟩ := hcontinues
      refine phase_recv hphase hallowed (Smtp.recvCb_handled hterm hs).1 ?_ ?_
      · rintro (hfull | hrefused)
        · exact hfull hfit
        · exact hserved hrefused
      · rintro hstage ⟨e, hline⟩
        rw [hclose hstage] at hline
        cases hline
    | error err connecting =>
      cases hs
      obtain ⟨rfl, harmed⟩ := hcontinues
      exact hphase.gone harmed _ rfl
    | disconnected =>
      cases hs
      exact hphase.gone hcontinues _ rfl
    | kill =>
      cases hs
      -- only a failure arms the timer
      obtain ⟨hstage, connections, ho⟩ := hphase.armed hallowed
      refine .failed hstage w.connections none ⟨ho.lookup, ho.attempts, rfl, rfl⟩ ?_ (.inl hcontinues)
      rintro arg ⟨⟩
    | sent => cases hs; exact hphase.of_eq rfl rfl rfl rfl rfl
    | setup server => cases hs; exact hphase.of_eq rfl rfl rfl rfl rfl
    | logLevel level => cases hs; exact hphase.of_eq rfl rfl rfl rfl rfl

/-- In a run the SDK can make, in which every callback leaves the session open, what is outstanding
fits the state of the client at every moment. -/
theorem sessions_clean (server : SmtpServer) (logLevel : ℕ) (es : List SmtpEvent)
    (hes : Runs.Along step Allowed (init server logLevel) es)
    (hcontinues : Runs.Along step Continues (init server logLevel) es) :
    ∀ pre, pre <+: es → (run server logLevel pre).Clean := by
  intro pre hpre
  have halong := Runs.along_take hpre (Runs.along_and hes hcontinues)
  have hinit : (init server logLevel).client.Terminated ∧ (init server logLevel).Phase :=
    ⟨(Smtp.Reachable.init server logLevel).terminated, .ready rfl ⟨rfl, rfl, rfl, rfl⟩⟩
  have hstep : ∀ w e, Allowed w e ∧ Continues w e → w.client.Terminated ∧ w.Phase →
      (w.step e).client.Terminated ∧ (w.step e).Phase :=
    fun _ _ h hphase => step_phase h.1 h.2 hphase
  exact (Runs.foldl_inv_along hstep hinit halong).2.clean

/-- A session that has come to the connection. -/
def connecting : List SmtpEvent :=
  [.send Smtp.smallMail .inprogress ⟨0, 0, 0⟩, .dns (some 1) ⟨0, 0, 0⟩, .connected ⟨0, 0, 0, 0⟩, .sent]

theorem sessions_clean_connecting :
    (run Smtp.account 20 connecting).connections = 1 ∧
      ∀ pre, pre <+: connecting → (run Smtp.account 20 pre).Clean := by
  have hallowed : Runs.Along step Allowed (init Smtp.account 20) connecting := by decide
  have hcontinues : Runs.Along step Continues (init Smtp.account 20) connecting :=
    ⟨fun _ => trivial, ⟨by decide, rfl, rfl, rfl⟩, .inr (.inr (.inr rfl)), trivial, trivial⟩
  exact ⟨by decide, sessions_clean Smtp.account 20 connecting hallowed hcontinues⟩

/-- A lookup that fails at once. -/
def lookupFails : List SmtpEvent := [.send Smtp.smallMail .failed ⟨0, 0, 0⟩]

/-- A greeting that is refused. -/
def greetingRefused : List SmtpEvent :=
  [.send Smtp.smallMail (.ok 0) ⟨0, 0, 0⟩, .connected ⟨0, 0, 0, 0⟩,
    .recv (ascii "554 no\r\n") Smtp.fullStack 0]

/-- A mail that is delivered. -/
def delivered : List SmtpEvent :=
  Smtp.greeted ++ [.recv (Smtp.challengeLine (ascii "c")) Smtp.fullStack 0,
    .recv (ascii "235 ok\r\n") Smtp.fullStack 0, .recv (ascii "250 ok\r\n") Smtp.fullStack 0,
    .recv (ascii "250 ok\r\n") Smtp.fullStack 0, .recv (ascii "354 go\r\n") Smtp.fullStack 0,
    .recv (ascii "250 ok\r\n") Smtp.fullStack 0, .recv (ascii "221 bye\r\n") Smtp.fullStack 0]

/-- The client is stuck after a lookup that fails, arms its timer without the connection when a line is
refused, and is ready again before the connection is closed. -/
theorem sessions_not_clean :
    (Runs.Along step Allowed (init Smtp.account 20) lookupFails ∧
        (run Smtp.account 20 lookupFails).client.stage = .failed ∧ ¬(run Smtp.account 20 lookupFails).Clean) ∧
      (Runs.Along step Allowed (init Smtp.account 20) greetingRefused ∧
        (run Smtp.account 20 greetingRefused).client.timer = some .null ∧
          ¬(run Smtp.account 20 greetingRefused).Clean) ∧
      (Runs.Along step Allowed (init Smtp.account 20) delivered ∧
        (run Smtp.account 20 delivered).client.stage = .ready ∧
          (run Smtp.account 20 delivered).connections = 1 ∧ ¬(run Smtp.account 20 delivered).Clean) := by
  have hstuck : (run Smtp.account 20 lookupFails).client.stage = .failed := by decide
  have harmed : (run Smtp.account 20 greetingRefused).client.timer = some .null := by decide
  have hruns : Runs.Along step Allowed (init Smtp.account 20) lookupFails ∧
      Runs.Along step Allowed (init Smtp.account 20) greetingRefused ∧
      Runs.Along step Allowed (init Smtp.account 20) delivered ∧
      (run Smtp.account 20 delivered).client.stage = .ready ∧ (run Smtp.account 20 delivered).connections = 1 := by
    decide +kernel
  obtain ⟨hfails, hrefused, hdelivered, hready, hopen⟩ := hruns
  refine ⟨⟨hfails, hstuck, ?_⟩, ⟨hrefused, harmed, ?_⟩, ⟨hdelivered, hready, hopen, ?_⟩⟩
  · intro hclean
    have hreset := hclean.ready ⟨by decide, by decide, by decide, by decide⟩
    rw [hstuck] at hreset
    cases hreset
  · intro hclean
    exact absurd (hclean.timer .null harmed) (by decide)
  · intro hclean
    exact absurd (hopen.symm.trans (hclean.closed hready)) (by decide)

end SmtpRun
end Esp8266Toolbox
