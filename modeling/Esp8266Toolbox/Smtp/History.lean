import Esp8266Toolbox.Smtp.Session

/-!
# All sessions of a run

`SmtpRun` remembers the session that the client is in. Here the sessions before it are put in front of
it: in every run, what the client has handed to the SDK is the commands of the sessions, one session
after the other, and their mails are calls of `smtp_send`, in the order of the calls.
-/

namespace Esp8266Toolbox

/-- The mail of a call of `smtp_send`. -/
def SmtpEvent.mail : SmtpEvent → Option Mail
  | .send mail _ _ => some mail
  | _ => none

namespace Smtp

variable {s s' : Smtp} {rv : ℤ}

theorem Received.sent_grows {refused ended : Prop} (h : s.Received rv refused ended s') : s.sent <+: s'.sent := by
  cases h with
  | waiting => exact List.prefix_rfl
  | failed => exact List.prefix_rfl
  | command =>
    rw [espconnSend_sent]
    exact List.prefix_append _ _
  | closed => exact List.prefix_rfl

/-- A callback takes nothing back. -/
theorem step_sent_grows (hterm : s.Terminated) {e : SmtpEvent} (hs : s.step e = .ok s') : s.sent <+: s'.sent := by
  cases e with
  | send mail lookup rv =>
    cases send_called hs with
    | rejected => exact List.prefix_rfl
    | overflow => exact List.prefix_rfl
    | opened _ _ hfit =>
      rw [(s.openSession_frame lookup rv hfit).2.1]
  | dns ip rv =>
    cases hs
    rw [(s.sendDns_frame ip rv).2.1]
  | connected rv =>
    cases hs
    rcases (s.connCb_frame rv).2 with ⟨-, hsent⟩ | ⟨-, hsent⟩
    · rw [hsent]
    · rw [hsent]
      exact List.prefix_append _ _
  | recv data stack rv => exact (recvCb_handled hterm hs).1.sent_grows
  | error err connecting => cases hs; exact List.prefix_rfl
  | disconnected => cases hs; exact List.prefix_rfl
  | sent => cases hs; exact List.prefix_rfl
  | kill => cases hs; exact List.prefix_rfl
  | setup server => cases hs; exact List.prefix_rfl
  | logLevel level => cases hs; exact List.prefix_rfl

end Smtp

namespace SmtpRun

variable {w w' : SmtpRun} {mails : List Mail} {past : List (Mail × List (List UInt8))}

/-- The sessions before the one at hand, which have come to their end. -/
structure Sessions (w : SmtpRun) (mails : List Mail) (past : List (Mail × List (List UInt8))) : Prop where
  sent : w.client.sent = (past ++ w.session.toList).flatMap (·.2)
  called : ((past ++ w.session.toList).map (·.1)).Sublist mails
  script : ∀ x ∈ past, x.1.Sent 8 x.2

theorem init_sessions (server : SmtpServer) (logLevel : ℕ) : (init server logLevel).Sessions [] [] :=
  ⟨rfl, List.Sublist.refl _, by simp⟩

/-- What a callback sends belongs to the session at hand. -/
theorem Sessions.record (h : w.Sessions mails past) (hsent : w.client.sent <+: w'.client.sent)
    (hsession : w'.session =
      w.session.map fun x => (x.1, x.2 ++ w'.client.sent.drop w.client.sent.length))
    (hidle : w'.session = none → w'.client.sent = []) : w'.Sessions mails past := by
  obtain ⟨more, hmore⟩ := hsent
  rw [← hmore, List.drop_left] at hsession
  cases hw : w.session with
  | none =>
    rw [hw, Option.map_none] at hsession
    have hempty := hidle hsession
    rw [hempty, List.append_eq_nil_iff] at hmore
    constructor
    case sent => rw [hempty, ← hmore.1, h.sent, hw, hsession]
    case called =>
      have hcalled := h.called
      rw [hw] at hcalled
      rw [hsession]
      exact hcalled
    case script => exact h.script
  | some x =>
    rw [hw, Option.map_some] at hsession
    constructor
    case sent =>
      have hbefore := h.sent
      rw [hw, Option.toList_some, List.flatMap_append, List.flatMap_singleton] at hbefore
      rw [← hmore, hbefore, hsession, Option.toList_some, List.flatMap_append, List.flatMap_singleton,
        List.append_assoc]
    case called =>
      have hcalled := h.called
      rw [hw] at hcalled
      rw [hsession]
      simpa using hcalled
    case script => exact h.script

/-- A callback that does not open a session goes on with the one at hand. -/
theorem next_session (w : SmtpRun) (s' : Smtp) (e : SmtpEvent)
    (hopens : e.mail ≠ none → ¬(w.client.stage = .ready ∧ s'.stage ≠ .ready)) :
    (w.next s' e).session = w.session.map fun x => (x.1, x.2 ++ s'.sent.drop w.client.sent.length) := by
  cases e with
  | send mail lookup rv =>
    rw [next, if_neg (hopens (by simp [SmtpEvent.mail]))]
    rfl
  | error err connecting => cases connecting <;> rfl
  | _ => rfl

/-- One callback: the session at hand goes on, or a call of `smtp_send` opens the next. -/
theorem step_sessions {e : SmtpEvent} (honce : w.Once e) (hw : w.InScript) (h : w.Sessions mails past) :
    ∃ past, (w.step e).Sessions (mails ++ e.mail.toList) past := by
  have hafter := step_inScript honce hw
  unfold step at hafter ⊢
  by_cases hstop : w.stopped = true
  · rw [if_pos hstop]
    exact ⟨past, h.sent, h.called.trans (List.sublist_append_left _ _), h.script⟩
  rw [if_neg hstop] at hafter ⊢
  cases hs : w.client.step e with
  | error f => exact ⟨past, h.sent, h.called.trans (List.sublist_append_left _ _), h.script⟩
  | ok s' =>
    rw [hs] at hafter
    dsimp only at hafter ⊢
    have hsent := Smtp.step_sent_grows hw.terminated hs
    by_cases hopens : e.mail ≠ none ∧ w.client.stage = .ready ∧ s'.stage ≠ .ready
    · obtain ⟨hcall, hready, hopened⟩ := hopens
      obtain ⟨mail, lookup, rv, rfl⟩ : ∃ mail lookup rv, e = .send mail lookup rv := by
        cases e with
        | send mail lookup rv => exact ⟨mail, lookup, rv, rfl⟩
        | _ => exact absurd rfl hcall
      obtain ⟨more, hmore⟩ := hsent
      have hsession : (w.next s' (.send mail lookup rv)).session = some (mail, more) := by
        rw [next, if_pos ⟨hready, hopened⟩, ← hmore, List.drop_left]
      refine ⟨past ++ w.session.toList, ?_, ?_, ?_⟩
      · rw [next_client, hsession, Option.toList_some, List.flatMap_append, List.flatMap_singleton, ← h.sent, hmore]
      · rw [hsession, Option.toList_some, List.map_append]
        exact h.called.append (List.Sublist.refl _)
      · intro x hx
        rcases List.mem_append.mp hx with hx | hx
        · exact h.script x hx
        · obtain ⟨k, hrecorded⟩ := hw.script x.1 x.2 (Option.mem_toList.mp hx)
          -- the client is ready again: the session before has sent all of its script
          have hk : k = 8 := hrecorded.stage 8 (by rw [hready]; rfl)
          rw [← hk]
          exact hrecorded.sent
    · have hsame : (w.next s' e).Sessions mails past := by
        refine h.record ?_ ?_ fun hnone => (hafter.idle hnone).2.1
        · rw [next_client]
          exact hsent
        · rw [next_client]
          exact w.next_session s' e fun hcall hopened => hopens ⟨hcall, hopened⟩
      exact ⟨past, hsame.sent, hsame.called.trans (List.sublist_append_left _ _), hsame.script⟩

end SmtpRun
end Esp8266Toolbox
