import Esp8266Toolbox.Lib.MailData
import Esp8266Toolbox.Smtp.Session

/-!
# What the receiver reads

`smtp_send_data` formats the message without doubling the dots at the start of its lines, which
its own comment asks for. The receiver of the message recovers the mail exactly when no line of
the body starts with a dot.
-/

namespace Esp8266Toolbox

/-! ## The receiver -/

/-- A header field with a given name at the front of a text: its value, and the text behind it. -/
def headerField (name text : List UInt8) : Option (List UInt8 × List UInt8) :=
  if name <+: text then
    (strstr (text.drop name.length) crlf).map fun e =>
      ((text.drop name.length).take e, (text.drop name.length).drop (e + 2))
  else none

/-- The headers of a message, and the body behind the empty line. -/
def readMessage (text : List UInt8) : Option (List UInt8 × List UInt8 × List UInt8 × List UInt8) := do
  let (from', text) ← headerField (ascii "From: ") text
  let (to', text) ← headerField (ascii "To: ") text
  let (subj, text) ← headerField (ascii "Subject: ") text
  if crlf <+: text then some (from', to', subj, text.drop 2) else none

/-- From these bytes a receiver recovers the mail, and nothing is left behind them. -/
def Recovers (mail : Mail) (data : List UInt8) : Prop :=
  ∃ text, receiveData data = some (text, []) ∧ readMessage text = some (mail.from', mail.to', mail.subj, mail.body)

/-- A line of the body starts with a dot. -/
def DotLine (body : List UInt8) : Prop := [0x2e] <+: body ∨ [CR, LF, 0x2e] <:+: body

/-- The text has no line end. -/
def OneLine (text : List UInt8) : Prop := CR ∉ text ∧ LF ∉ text

instance (text : List UInt8) : Decidable (OneLine text) := inferInstanceAs (Decidable (_ ∧ _))

/-! ## Header fields -/

theorem headerField_append {v : List UInt8} (hv : CR ∉ v) (name rest : List UInt8) :
    headerField name (name ++ v ++ crlf ++ rest) = some (v, rest) := by
  have hsplit : name ++ v ++ crlf ++ rest = name ++ (v ++ crlf ++ rest) := by simp
  have hdrop : (v ++ crlf ++ rest).drop (v.length + 2) = rest := by
    apply List.drop_left'
    simp [crlf]
  rw [headerField, hsplit, if_pos (List.prefix_append _ _), List.drop_left, strstr_crlf hv, Option.map_some, hdrop,
    List.append_assoc v, List.take_left]

/-- A field that was read is at the front of the text. -/
theorem headerField_eq {name text v rest : List UInt8} (h : headerField name text = some (v, rest)) :
    text = name ++ v ++ crlf ++ rest := by
  unfold headerField at h
  split_ifs at h with hname
  obtain ⟨back, rfl⟩ := hname
  rw [List.drop_left, Option.map_eq_some_iff] at h
  obtain ⟨e, he, hv⟩ := h
  obtain ⟨-, ⟨tail, htail⟩, -⟩ := strstr_eq_some_iff.mp he
  rw [Prod.mk.injEq] at hv
  -- the value ends at the line end that was found
  have hrest : back.drop (e + 2) = tail := by
    rw [← List.drop_drop, ← htail]
    rfl
  rw [← hv.1, ← hv.2, hrest, List.append_assoc, htail, List.append_assoc, List.take_append_drop]

/-- The text of a mail, without the end of the data. -/
def Mail.text (mail : Mail) : List UInt8 :=
  ascii "From: " ++ mail.from' ++ crlf ++ (ascii "To: " ++ mail.to' ++ crlf ++
    (ascii "Subject: " ++ mail.subj ++ crlf ++ (crlf ++ mail.body)))

theorem message_eq (mail : Mail) : mail.message = mail.text ++ endOfData := by
  have hto : ascii "\r\nTo: " = crlf ++ ascii "To: " := by decide
  have hsubj : ascii "\r\nSubject: " = crlf ++ ascii "Subject: " := by decide
  have hblank : ascii "\r\n\r\n" = crlf ++ crlf := by decide
  rw [Mail.message, Mail.text, hto, hsubj, hblank, endOfData]
  simp only [List.append_assoc]

variable {mail : Mail}

theorem readMessage_text (hfrom : CR ∉ mail.from') (hto : CR ∉ mail.to') (hsubj : CR ∉ mail.subj) :
    readMessage mail.text = some (mail.from', mail.to', mail.subj, mail.body) := by
  have h1 := headerField_append hfrom (ascii "From: ")
  have h2 := headerField_append hto (ascii "To: ")
  have h3 := headerField_append hsubj (ascii "Subject: ")
  have hdrop : (crlf ++ mail.body).drop 2 = mail.body := rfl
  simp only [readMessage, Mail.text, h1, h2, h3, Option.bind_eq_bind, Option.bind_some, List.prefix_append, if_true,
    hdrop]

theorem readMessage_eq {text : List UInt8}
    (h : readMessage text = some (mail.from', mail.to', mail.subj, mail.body)) : text = mail.text := by
  simp only [readMessage, Option.bind_eq_bind, Option.bind_eq_some_iff] at h
  obtain ⟨⟨from', t1⟩, h1, ⟨to', t2⟩, h2, ⟨subj, t3⟩, h3, hbody⟩ := h
  split_ifs at hbody with hblank
  obtain ⟨body, rfl⟩ := hblank
  simp only [Option.some.injEq, Prod.mk.injEq] at hbody
  obtain ⟨rfl, rfl, rfl, hbody⟩ := hbody
  have hbody' : body = mail.body := hbody
  have ht1 : t1 = ascii "To: " ++ mail.to' ++ crlf ++ t2 := headerField_eq h2
  have ht2 : t2 = ascii "Subject: " ++ mail.subj ++ crlf ++ (crlf ++ body) := headerField_eq h3
  rw [headerField_eq h1, ht1, ht2, Mail.text, hbody']

/-! ## Dots -/

/-- A header line that begins with a letter has no dot at its start, and the next line starts
behind it. -/
theorem dotted_header {c : UInt8} {name value : List UInt8} (hc : c ≠ CR ∧ c ≠ 0x2e) (hname : CR ∉ name)
    (hvalue : CR ∉ value) (rest : List UInt8) :
    dotted .start (c :: name ++ value ++ crlf ++ rest) = dotted .start rest := by
  have hmid : CR ∉ name ++ value := by simp [hname, hvalue]
  obtain ⟨hdots, hpos⟩ := dotted_mid hmid
  have hnext : LinePos.next .start c = .mid := by simp [LinePos.next, hc.1]
  have hend : ∀ ys, dotted .mid (crlf ++ ys) = dotted .start ys := fun ys => rfl
  rw [List.cons_append, List.cons_append, List.cons_append, dotted, hnext, List.append_assoc, dotted_append, hdots,
    hpos, hend]
  simp [hc.2]

theorem dotted_text (hfrom : CR ∉ mail.from') (hto : CR ∉ mail.to') (hsubj : CR ∉ mail.subj) :
    dotted .start mail.text = dotted .start mail.body := by
  have h1 : ascii "From: " = 0x46 :: ascii "rom: " := by decide
  have h2 : ascii "To: " = 0x54 :: ascii "o: " := by decide
  have h3 : ascii "Subject: " = 0x53 :: ascii "ubject: " := by decide
  have hblank : dotted .start (crlf ++ mail.body) = dotted .start mail.body := rfl
  rw [Mail.text, h1, h2, h3, dotted_header (by decide) (by decide) hfrom, dotted_header (by decide) (by decide) hto,
    dotted_header (by decide) (by decide) hsubj, hblank]

theorem dotLine_iff (body : List UInt8) : DotLine body ↔ dotted .start body = true := by
  rw [dotted_iff]
  simp [DotLine]

/-- The message of a mail is recovered exactly when its body has no line that starts with a dot. -/
theorem recovers_message_iff (hfrom : CR ∉ mail.from') (hto : CR ∉ mail.to') (hsubj : CR ∉ mail.subj) :
    Recovers mail mail.message ↔ ¬DotLine mail.body := by
  rw [dotLine_iff, ← dotted_text hfrom hto hsubj, Bool.not_eq_true, ← receiveData_eq_iff, message_eq]
  constructor
  · rintro ⟨text, hreceived, hread⟩
    rwa [readMessage_eq hread] at hreceived
  · intro hreceived
    exact ⟨mail.text, hreceived, readMessage_text hfrom hto hsubj⟩

/-! ## The client's message -/

namespace Smtp

/-- An accepted mail is in the buffers. -/
theorem send_holds {s s₁ : Smtp} {lookup : Lookup} {rv : ConnectRv} (hready : s.stage = .ready)
    (hsend : s.send mail lookup rv = .ok s₁) (haccepted : s₁.stage ≠ .ready) : s₁.Holds mail := by
  cases send_called hsend with
  | rejected => exact absurd hready haccepted
  | overflow => exact absurd hready haccepted
  | opened hhost h hfit => exact (openSession_frame s lookup rv hfit).1

/-- What `smtp_send_data` sends is the message of the mail in the buffers. -/
theorem sent_eq_message {s s' : Smtp} {segment data : List UInt8} {stack : Stack} {rv : ℤ} (hterm : s.Terminated)
    (hholds : s.Holds mail) (hstage : s.stage = .data) (hrecv : s.recvCb segment stack rv = .ok s')
    (hsent : s'.sent = s.sent ++ [data]) : data = mail.message := by
  have hself : ∀ l : List (List UInt8), l ≠ l ++ [data] := by simp
  cases (recvCb_handled hterm hrecv).1 with
  | waiting inbuf inbufused => exact absurd hsent (hself _)
  | failed inbuf inbufused outbuf h => exact absurd hsent (hself _)
  | closed inbuf inbufused h => exact absurd hsent (hself _)
  | @command inbuf inbufused outbuf next data' hcommand =>
    rw [espconnSend_sent] at hsent
    have hdata : [data'] = [data] := List.append_cancel_left hsent
    cases hcommand with
    | message h hfrom hto hsubj hbody =>
      rw [hholds.from', Except.ok.injEq] at hfrom
      rw [hholds.to', Except.ok.injEq] at hto
      rw [hholds.subj, Except.ok.injEq] at hsubj
      rw [hholds.body, Except.ok.injEq] at hbody
      rw [← hfrom, ← hto, ← hsubj, ← hbody, List.singleton_inj] at hdata
      exact hdata.symm
    | auth h | answer h | mail h | rcpt h | data h | quit h => rw [hstage] at h; nomatch h

/-- **Transparency.** `smtp_send` stores the mail it accepts, and from what `smtp_send_data` sends
for the stored mail, in any reachable state, a receiver recovers its headers and its body, with
nothing left over, exactly when no line of the body starts with a dot. -/
theorem message_recovered_iff (mail : Mail) (hfrom : OneLine mail.from') (hto : OneLine mail.to')
    (hsubj : OneLine mail.subj) :
    (∀ (s s₁ : Smtp) (lookup : Lookup) (rv : ConnectRv), s.stage = .ready → s.send mail lookup rv = .ok s₁ →
      s₁.stage ≠ .ready → s₁.Holds mail) ∧
    ∀ (s s' : Smtp) (segment data : List UInt8) (stack : Stack) (rv : ℤ), s.Reachable → s.Holds mail →
      s.stage = .data → s.recvCb segment stack rv = .ok s' → s'.sent = s.sent ++ [data] →
      (Recovers mail data ↔ ¬DotLine mail.body) := by
  refine ⟨fun s s₁ lookup rv => send_holds, ?_⟩
  intro s s' segment data stack rv hreach hholds hstage hrecv hsent
  rw [sent_eq_message hreach.terminated hholds hstage hrecv hsent]
  exact recovers_message_iff hfrom.1 hto.1 hsubj.1

/-- A session up to the command `data`. -/
def untilData (mail : Mail) : List SmtpEvent :=
  [.send mail (.ok 0) ⟨0, 0, 0⟩, .connected ⟨0, 0, 0, 0⟩,
    .recv (ascii "220 hello\r\n250-first\r\n250 last\r\n") fullStack 0,
    .recv (challengeLine (ascii "c")) fullStack 0, .recv (ascii "235 ok\r\n") fullStack 0,
    .recv (ascii "250 ok\r\n") fullStack 0, .recv (ascii "250 ok\r\n") fullStack 0]

/-- The mail is stored, and the server's next line makes the client send it. -/
def SendsMail (s : Smtp) (mail : Mail) : Prop :=
  s.Holds mail ∧ s.stage = .data ∧
    ∃ s', s.recvCb (ascii "354 go\r\n") fullStack 0 = .ok s' ∧ s'.sent = s.sent ++ [mail.message]

/-- The same, to be evaluated. -/
def sendsMail (mail : Mail) (s : Smtp) : Bool :=
  decide (s.from'.str 0 = .ok mail.from' ∧ s.to'.str 0 = .ok mail.to' ∧ s.subj.str 0 = .ok mail.subj ∧
    s.body.str 0 = .ok mail.body ∧ s.stage = .data) &&
  (s.recvCb (ascii "354 go\r\n") fullStack 0).toOption.any fun s' => decide (s'.sent = s.sent ++ [mail.message])

theorem sendsMail_sound {s : Smtp} (h : sendsMail mail s = true) : s.SendsMail mail := by
  rw [sendsMail, Bool.and_eq_true, decide_eq_true_eq] at h
  obtain ⟨⟨hfrom, hto, hsubj, hbody, hstage⟩, hsent⟩ := h
  refine ⟨⟨hfrom, hto, hsubj, hbody⟩, hstage, ?_⟩
  cases hrecv : s.recvCb (ascii "354 go\r\n") fullStack 0 with
  | error f =>
    rw [hrecv] at hsent
    nomatch hsent
  | ok s' =>
    rw [hrecv] at hsent
    exact ⟨s', rfl, of_decide_eq_true hsent⟩

/-- A mail whose body starts with a dot. -/
def dotMail : Mail :=
  { from' := ascii "a", to' := ascii "b", subj := ascii "s", body := ascii ".t", nul_free := by decide }

/-- Both mails get as far as the line behind which they are sent. -/
theorem untilData_sends :
    ((init account 20).runFrom (untilData smallMail)).toOption.any (sendsMail smallMail) = true ∧
      ((init account 20).runFrom (untilData dotMail)).toOption.any (sendsMail dotMail) = true := by
  decide +kernel

/-- The mail is accepted and stored, and its message is recovered. -/
theorem message_recovered_iff_small :
    (∃ s₁, (init account 20).send smallMail (.ok 0) ⟨0, 0, 0⟩ = .ok s₁ ∧ s₁.Holds smallMail) ∧
      ∃ s s' : Smtp, s.Reachable ∧ s.recvCb (ascii "354 go\r\n") fullStack 0 = .ok s' ∧
        s'.sent = s.sent ++ [smallMail.message] ∧
        (Recovers smallMail smallMail.message ↔ ¬DotLine smallMail.body) := by
  obtain ⟨hstored, hrecovered⟩ := message_recovered_iff smallMail (by decide) (by decide) (by decide)
  constructor
  · have hsend : ((init account 20).runFrom [.send smallMail (.ok 0) ⟨0, 0, 0⟩]).toOption.any
        (fun s₁ => decide (s₁.stage ≠ .ready)) = true := by
      decide
    obtain ⟨s₁, hs₁, haccepted⟩ := runFrom_any hsend
    have hcall : (init account 20).send smallMail (.ok 0) ⟨0, 0, 0⟩ = .ok s₁ := by
      rw [← hs₁, runFrom, List.foldlM_cons]
      exact (bind_pure _).symm
    exact ⟨s₁, hcall, hstored _ s₁ _ _ rfl hcall (of_decide_eq_true haccepted)⟩
  · obtain ⟨s, hs, hsends⟩ := runFrom_any untilData_sends.1
    have hreach : s.Reachable := (Reachable.init account 20).run hs
    obtain ⟨hholds, hstage, s', hrecv, hsent⟩ := sendsMail_sound hsends
    exact ⟨s, s', hreach, hrecv, hsent, hrecovered s s' _ _ _ _ hreach hholds hstage hrecv hsent⟩

/-- The dot is not doubled, and the receiver takes it away. -/
theorem dot_line_lost :
    ∃ s s' : Smtp, s.Reachable ∧ s.Holds dotMail ∧ s.stage = .data ∧
      s.recvCb (ascii "354 go\r\n") fullStack 0 = .ok s' ∧ s'.sent = s.sent ++ [dotMail.message] ∧
      ¬Recovers dotMail dotMail.message := by
  obtain ⟨s, hs, hsends⟩ := runFrom_any untilData_sends.2
  obtain ⟨hholds, hstage, s', hrecv, hsent⟩ := sendsMail_sound hsends
  refine ⟨s, s', (Reachable.init account 20).run hs, hholds, hstage, hrecv, hsent, ?_⟩
  rw [recovers_message_iff (by decide) (by decide) (by decide), not_not]
  exact .inl (by decide)

end Smtp
end Esp8266Toolbox
