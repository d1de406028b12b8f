import Esp8266Toolbox.Smtp.Answer
import Esp8266Toolbox.Smtp.Lines

/-!
# What a step of the client does

`Received` lists everything a received segment can bring about: more bytes to wait on, a
failure, one command, or the end of the session. The invariants of the client follow from it.
-/

namespace Esp8266Toolbox

/-- The lengths that `smtp_send` accepts. -/
structure Mail.Fits (mail : Mail) : Prop where
  from' : mail.from'.length < 128
  to' : mail.to'.length < 128
  subj : mail.subj.length < 128
  body : mail.body.length < 512

namespace Smtp

variable {s s' : Smtp} {rv : ℤ}

/-- The command with which the client answers in a stage, and the stage it goes to. -/
inductive Command (s : Smtp) : SmtpStage → List UInt8 → Prop
  | auth (h : s.stage = .greet) : Command s .challenge (ascii "AUTH CRAM-MD5\r\n")
  | answer {user pass challenge : List UInt8} (h : s.stage = .challenge)
      (huser : s.server.user.str 0 = .ok user) (hpass : s.server.pass.str 0 = .ok pass)
      (hchallenge : 0 ∉ challenge) : Command s .auth (cramMd5 user pass challenge ++ crlf)
  | mail {text : List UInt8} (h : s.stage = .auth) (htext : s.from'.str 0 = .ok text) :
      Command s .from' (ascii "mail FROM:<" ++ text ++ ascii ">\r\n")
  | rcpt {text : List UInt8} (h : s.stage = .from') (htext : s.to'.str 0 = .ok text) :
      Command s .to' (ascii "rcpt TO:<" ++ text ++ ascii ">\r\n")
  | data (h : s.stage = .to') : Command s .data (ascii "data\r\n")
  | message {from' to' subj body : List UInt8} (h : s.stage = .data) (hfrom : s.from'.str 0 = .ok from')
      (hto : s.to'.str 0 = .ok to') (hsubj : s.subj.str 0 = .ok subj) (hbody : s.body.str 0 = .ok body) :
      Command s .quit (ascii "From: " ++ from' ++ ascii "\r\nTo: " ++ to' ++ ascii "\r\nSubject: " ++ subj ++
        ascii "\r\n\r\n" ++ body ++ ascii "\r\n.\r\n")
  | quit (h : s.stage = .quit) : Command s .close (ascii "quit\r\n")

/-- The buffers of the server's lines and of the client's commands hold other bytes. -/
def buffers (s : Smtp) (inbuf : Buf 2048) (inbufused : ℕ) (outbuf : Buf 1024) : Smtp :=
  { s with inbuf, inbufused, outbuf }

/-! ## Lines that are refused -/

/-- A complete line does not have the code. -/
def LineRefused (s : Smtp) (code : String) : Prop :=
  ∃ e, s.lineEnd = .ok (some e) ∧ s.startsWith code 4 = false

/-- A complete challenge cannot be decoded. -/
def Undecodable (s : Smtp) (stack : Stack) : Prop :=
  ∃ e enc len2 chal, s.lineEnd = .ok (some e) ∧ s.inbuf.load 4 (e - 4) = .ok enc ∧
    b64Decode enc stack.chal = .ok (len2, chal) ∧ len2 < 0

/-- One of the lines up to the end of the greeting is no `220` or `250`. -/
def GreetRefused : ℕ → Smtp → Prop
  | 0, _ => False
  | fuel + 1, s => ∃ e, s.lineEnd = .ok (some e) ∧
    ((s.startsWith "220" 3 || s.startsWith "250" 3) = false ∨
      s.startsWith "250 " 4 = false ∧ ∃ s', s.consume (e + 2) = .ok s' ∧ GreetRefused fuel s')

/-- The stage refuses a line that is complete. -/
def Refused (s : Smtp) (stack : Stack) : Prop :=
  match s.stage with
  | .greet => GreetRefused (s.inbufused + 1) s
  | .challenge => s.LineRefused "334 " ∨ s.Undecodable stack
  | .auth => s.LineRefused "235 "
  | .from' | .to' | .quit => s.LineRefused "250 "
  | .data => s.LineRefused "354 "
  | .close => s.LineRefused "221 "
  | .failed | .ready | .resolve | .connect => False

/-- What a received segment can bring about; `refused` and `ended` are what is known of the lines
where the client fails and where the session ends. -/
inductive Received (s : Smtp) (rv : ℤ) (refused ended : Prop) : Smtp → Prop
  | waiting (inbuf : Buf 2048) (inbufused : ℕ) : Received s rv refused ended (s.buffers inbuf inbufused s.outbuf)
  | failed (inbuf : Buf 2048) (inbufused : ℕ) (outbuf : Buf 1024) (h : refused) :
      Received s rv refused ended ((s.buffers inbuf inbufused outbuf).fail .null)
  | command (inbuf : Buf 2048) (inbufused : ℕ) (outbuf : Buf 1024) {next : SmtpStage} {data : List UInt8}
      (h : s.Command next data) :
      Received s rv refused ended
        ({ s.buffers inbuf inbufused outbuf with stage := next }.espconnSend data rv)
  | closed (inbuf : Buf 2048) (inbufused : ℕ) (h : s.stage = .close) (hended : ended) :
      Received s rv refused ended { s.buffers inbuf inbufused s.outbuf with stage := .ready }

theorem Command.of_buffers {inbuf : Buf 2048} {inbufused : ℕ} {outbuf : Buf 1024} {next : SmtpStage}
    {data : List UInt8} (h : (s.buffers inbuf inbufused outbuf).Command next data) : s.Command next data := by
  cases h with
  | auth h => exact .auth h
  | answer h huser hpass hchallenge => exact .answer h huser hpass hchallenge
  | mail h htext => exact .mail h htext
  | rcpt h htext => exact .rcpt h htext
  | data h => exact .data h
  | message h hfrom hto hsubj hbody => exact .message h hfrom hto hsubj hbody
  | quit h => exact .quit h

theorem Received.of_buffers {inbuf : Buf 2048} {inbufused : ℕ} {refused ended refused' ended' : Prop}
    (h : (s.buffers inbuf inbufused s.outbuf).Received rv refused ended s') (hrefused : refused → refused')
    (hended : ended → ended') : s.Received rv refused' ended' s' := by
  cases h with
  | waiting inbuf' inbufused' => exact .waiting inbuf' inbufused'
  | failed inbuf' inbufused' outbuf' h => exact .failed inbuf' inbufused' outbuf' (hrefused h)
  | command inbuf' inbufused' outbuf' h => exact .command inbuf' inbufused' outbuf' h.of_buffers
  | closed inbuf' inbufused' h h' => exact .closed inbuf' inbufused' h (hended h')

/-! ## Sending -/

@[simp] theorem espconnSend_inbuf (data : List UInt8) : (s.espconnSend data rv).inbuf = s.inbuf := by
  unfold espconnSend
  split_ifs
  · rfl
  · rfl

@[simp] theorem espconnSend_inbufused (data : List UInt8) : (s.espconnSend data rv).inbufused = s.inbufused := by
  unfold espconnSend
  split_ifs
  · rfl
  · rfl

@[simp] theorem espconnSend_sent (data : List UInt8) : (s.espconnSend data rv).sent = s.sent ++ [data] := by
  unfold espconnSend
  split_ifs
  · rfl
  · rfl

theorem espconnSend_stage (data : List UInt8) :
    (s.espconnSend data rv).stage = if rv = 0 then s.stage else .failed := by
  unfold espconnSend
  by_cases hrv : rv = 0
  · rw [if_neg (not_not.mpr hrv), if_pos hrv]
  · rw [if_pos hrv, if_neg hrv]
    rfl

theorem espconnSend_outbuf (data : List UInt8) (outbuf : Buf 1024) :
    { s.espconnSend data rv with outbuf } = { s with outbuf }.espconnSend data rv := by
  unfold espconnSend
  split_ifs
  · rfl
  · rfl

/-- A text that fits `outbuf` is sent as it is. -/
theorem sendFormatted_eq {text : List UInt8} {len : ℕ} (hlen : text.length = len) (h : len < 1024) :
    s.sendFormatted text len rv = .ok ({ s with outbuf := (snprintf s.outbuf text).1 }.espconnSend text rv) := by
  subst hlen
  unfold sendFormatted
  dsimp only
  rw [Buf.load_snprintf _ _ h]
  rfl

/-- The terminator that `DEBUG` needs is stored into `outbuf` only. -/
theorem terminate_eq_ok {j : ℕ} (h : s.terminate j rv = .ok s') : ∃ outbuf, s' = { s with outbuf } := by
  unfold terminate at h
  split_ifs at h
  · cases h
    exact ⟨s.outbuf, rfl⟩
  · obtain ⟨outbuf, -, hs⟩ := Loops.bind_eq_ok h
    cases hs
    exact ⟨outbuf, rfl⟩

theorem terminate_ok {j : ℕ} (hj : j < 1024) (s : Smtp) (rv : ℤ) :
    ∃ outbuf, s.terminate j rv = .ok { s with outbuf } := by
  unfold terminate
  split_ifs
  · exact ⟨s.outbuf, rfl⟩
  · rw [Buf.put_ok _ hj]
    exact ⟨_, rfl⟩

/-! ## The handlers -/

/-- The frame of the handlers: they wait, they fail, or they act without the line. -/
theorem onLine_cases (h : s.Terminated) {code : String} {act : Smtp → Except Fault Smtp}
    (hs : s.onLine code act = .ok s') :
    s' = s ∨ s.LineRefused code ∧ s' = s.fail .null ∨
      (∃ e, s.lineEnd = .ok (some e)) ∧ ∃ inbuf inbufused, (s.buffers inbuf inbufused s.outbuf).Terminated ∧
        act (s.buffers inbuf inbufused s.outbuf) = .ok s' := by
  unfold onLine at hs
  obtain ⟨line, hline, hs⟩ := Loops.bind_eq_ok hs
  cases line with
  | none =>
    cases hs
    exact .inl rfl
  | some e =>
    dsimp only at hs
    split_ifs at hs with hcode
    · obtain ⟨s₁, hconsume, hact⟩ := Loops.bind_eq_ok hs
      have he := lineEnd_add_two h.zero_mem hline
      have hterm := h.consume (by omega) hconsume
      obtain ⟨-, rfl⟩ := consume_eq_ok h.used (by omega) hconsume
      exact .inr (.inr ⟨⟨e, hline⟩, _, _, hterm, hact⟩)
    · cases hs
      exact .inr (.inl ⟨⟨e, hline, Bool.eq_false_iff.mpr hcode⟩, rfl⟩)

/-- What has happened after a segment, and the client can receive the next one. -/
def Handled (s : Smtp) (rv : ℤ) (refused ended : Prop) (s' : Smtp) : Prop :=
  s.Received rv refused ended s' ∧ s'.Terminated

variable {refused ended : Prop}

theorem handled_self (h : s.Terminated) : s.Handled rv refused ended s := ⟨.waiting s.inbuf s.inbufused, h⟩

theorem handled_fail (h : s.Terminated) (hrefused : refused) : s.Handled rv refused ended (s.fail .null) :=
  ⟨.failed s.inbuf s.inbufused s.outbuf hrefused, ⟨h.used, h.last⟩⟩

theorem handled_command {inbuf : Buf 2048} {inbufused : ℕ}
    (h : (s.buffers inbuf inbufused s.outbuf).Terminated) (outbuf : Buf 1024) {next : SmtpStage}
    {data : List UInt8} (hcommand : s.Command next data) :
    s.Handled rv refused ended ({ s.buffers inbuf inbufused outbuf with stage := next }.espconnSend data rv) := by
  refine ⟨.command inbuf inbufused outbuf hcommand, ⟨?_, ?_⟩⟩
  · rw [espconnSend_inbufused]
    exact h.used
  · rw [espconnSend_inbuf]
    exact h.last

theorem onLine_handled (h : s.Terminated) {code : String} {act : Smtp → Except Fault Smtp}
    (hact : (∃ e, s.lineEnd = .ok (some e)) → ∀ inbuf inbufused,
      (s.buffers inbuf inbufused s.outbuf).Terminated → act (s.buffers inbuf inbufused s.outbuf) = .ok s' →
        s.Handled rv (s.LineRefused code) ended s')
    (hs : s.onLine code act = .ok s') : s.Handled rv (s.LineRefused code) ended s' := by
  rcases onLine_cases h hs with rfl | ⟨hrefused, rfl⟩ | ⟨hline, inbuf, inbufused, hterm, hs⟩
  · exact handled_self h
  · exact handled_fail h hrefused
  · exact hact hline inbuf inbufused hterm hs

theorem sendAuth_handled (h : s.Terminated) (hstage : s.stage = .auth) (hs : s.sendAuth rv = .ok s') :
    s.Handled rv (s.LineRefused "235 ") ended s' := by
  refine onLine_handled h (fun _ inbuf inbufused hterm hs => ?_) hs
  obtain ⟨text, htext, hs⟩ := Loops.bind_eq_ok hs
  have hlen := Buf.length_lt_of_str htext
  rw [sendFormatted_eq (by simp [ascii]) (by omega), Loops.ok_bind] at hs
  obtain ⟨outbuf, rfl⟩ := terminate_eq_ok hs
  rw [espconnSend_outbuf]
  exact handled_command hterm outbuf (.mail hstage htext)

theorem sendFrom_handled (h : s.Terminated) (hstage : s.stage = .from') (hs : s.sendFrom rv = .ok s') :
    s.Handled rv (s.LineRefused "250 ") ended s' := by
  refine onLine_handled h (fun _ inbuf inbufused hterm hs => ?_) hs
  obtain ⟨text, htext, hs⟩ := Loops.bind_eq_ok hs
  have hlen := Buf.length_lt_of_str htext
  rw [sendFormatted_eq (by simp [ascii]) (by omega), Loops.ok_bind] at hs
  obtain ⟨outbuf, rfl⟩ := terminate_eq_ok hs
  rw [espconnSend_outbuf]
  exact handled_command hterm outbuf (.rcpt hstage htext)

theorem sendTo_handled (h : s.Terminated) (hstage : s.stage = .to') (hs : s.sendTo rv = .ok s') :
    s.Handled rv (s.LineRefused "250 ") ended s' := by
  refine onLine_handled h (fun _ inbuf inbufused hterm hs => ?_) hs
  dsimp only at hs
  rw [sendFormatted_eq (by decide) (by norm_num), Except.ok.injEq] at hs
  subst hs
  exact handled_command hterm _ (.data hstage)

theorem sendData_handled (h : s.Terminated) (hstage : s.stage = .data) (hs : s.sendData rv = .ok s') :
    s.Handled rv (s.LineRefused "354 ") ended s' := by
  refine onLine_handled h (fun _ inbuf inbufused hterm hs => ?_) hs
  obtain ⟨from', hfrom, hs⟩ := Loops.bind_eq_ok hs
  obtain ⟨to', hto, hs⟩ := Loops.bind_eq_ok hs
  obtain ⟨subj, hsubj, hs⟩ := Loops.bind_eq_ok hs
  obtain ⟨body, hbody, hs⟩ := Loops.bind_eq_ok hs
  have hfromlen := Buf.length_lt_of_str hfrom
  have htolen := Buf.length_lt_of_str hto
  have hsubjlen := Buf.length_lt_of_str hsubj
  have hbodylen := Buf.length_lt_of_str hbody
  -- the longest message has 924 bytes
  rw [sendFormatted_eq (by simp [ascii]; omega) (by omega), Except.ok.injEq] at hs
  subst hs
  exact handled_command hterm _ (.message hstage hfrom hto hsubj hbody)

theorem sendQuit_handled (h : s.Terminated) (hstage : s.stage = .quit) (hs : s.sendQuit rv = .ok s') :
    s.Handled rv (s.LineRefused "250 ") ended s' := by
  refine onLine_handled h (fun _ inbuf inbufused hterm hs => ?_) hs
  dsimp only at hs
  rw [sendFormatted_eq (by decide) (by norm_num), Except.ok.injEq] at hs
  subst hs
  exact handled_command hterm _ (.quit hstage)

theorem sendClose_handled (h : s.Terminated) (hstage : s.stage = .close) (hs : s.sendClose = .ok s') :
    s.Handled rv (s.LineRefused "221 ") (∃ e, s.lineEnd = .ok (some e)) s' := by
  refine onLine_handled h (fun hline inbuf inbufused hterm hs => ?_) hs
  cases hs
  exact ⟨.closed inbuf inbufused hstage hline, ⟨hterm.used, hterm.last⟩⟩

/-- The multi-line greeting: induction on the passes of the loop. -/
theorem greetLoop_handled {fuel : ℕ} (h : s.Terminated) (hstage : s.stage = .greet)
    (hs : greetLoop rv fuel s = .ok s') : s.Handled rv (GreetRefused fuel s) ended s' := by
  induction fuel generalizing s with
  | zero => cases hs
  | succ fuel ih =>
    unfold greetLoop at hs
    obtain ⟨line, hline, hs⟩ := Loops.bind_eq_ok hs
    cases line with
    | none =>
      cases hs
      exact handled_self h
    | some e =>
      dsimp only at hs
      split_ifs at hs with hgood hdone
      · obtain ⟨s₁, hconsume, hs⟩ := Loops.bind_eq_ok hs
        have he := lineEnd_add_two h.zero_mem hline
        have hterm := h.consume (by omega) hconsume
        obtain ⟨-, rfl⟩ := consume_eq_ok h.used (by omega) hconsume
        cases hs
        exact handled_command hterm s.outbuf (.auth hstage)
      · obtain ⟨s₁, hconsume, hs⟩ := Loops.bind_eq_ok hs
        have he := lineEnd_add_two h.zero_mem hline
        have hterm := h.consume (by omega) hconsume
        obtain ⟨-, rfl⟩ := consume_eq_ok h.used (by omega) hconsume
        split_ifs at hs with hempty
        · cases hs
          exact ⟨.waiting _ _, hterm⟩
        · -- the rest of the lines
          obtain ⟨hreceived, hterm'⟩ := ih hterm hstage hs
          refine ⟨hreceived.of_buffers (fun hrest => ?_) id, hterm'⟩
          exact ⟨e, hline, .inr ⟨Bool.eq_false_iff.mpr hdone, _, hconsume, hrest⟩⟩
      · cases hs
        exact handled_fail h ⟨e, hline, .inl (Bool.eq_false_iff.mpr hgood)⟩

/-- An answer is computed from strings. -/
theorem respond_strings {stack : Stack} {chal : Buf 128} {answer : Option (Buf 1024 × ℕ)}
    (h : s.respond stack chal = .ok answer) :
    ∃ user pass challenge, s.server.user.str 0 = .ok user ∧ s.server.pass.str 0 = .ok pass ∧
      chal.str 0 = .ok challenge := by
  unfold respond at h
  obtain ⟨pass, hpass, h⟩ := Loops.bind_eq_ok h
  have hp := Buf.length_lt_of_str hpass
  rw [if_neg (by omega)] at h
  obtain ⟨key, -, h⟩ := Loops.bind_eq_ok h
  obtain ⟨left₀, -, h⟩ := Loops.bind_eq_ok h
  obtain ⟨left, -, h⟩ := Loops.bind_eq_ok h
  obtain ⟨challenge, hchallenge, h⟩ := Loops.bind_eq_ok h
  have hc := Buf.length_lt_of_str hchallenge
  rw [if_neg (by omega)] at h
  obtain ⟨right₀, -, h⟩ := Loops.bind_eq_ok h
  obtain ⟨right₁, -, h⟩ := Loops.bind_eq_ok h
  obtain ⟨right, -, h⟩ := Loops.bind_eq_ok h
  rw [← Loops.ite_bind] at h
  obtain ⟨line, -, h⟩ := Loops.bind_eq_ok h
  obtain ⟨inner, -, h⟩ := Loops.bind_eq_ok h
  obtain ⟨hash, -, h⟩ := Loops.bind_eq_ok h
  obtain ⟨right₂, -, h⟩ := Loops.bind_eq_ok h
  obtain ⟨right₃, -, h⟩ := Loops.bind_eq_ok h
  obtain ⟨outer, -, h⟩ := Loops.bind_eq_ok h
  obtain ⟨resp, -, h⟩ := Loops.bind_eq_ok h
  obtain ⟨user, huser, -⟩ := Loops.bind_eq_ok h
  exact ⟨user, pass, challenge, huser, hpass, hchallenge⟩

/-- The answer that is computed is the line of the standards, and all of it is sent. -/
theorem respond_eq_ok {stack : Stack} {chal : Buf 128} {answer : Option (Buf 1024 × ℕ)}
    (h : s.respond stack chal = .ok answer) :
    ∃ user pass challenge outbuf, s.server.user.str 0 = .ok user ∧ s.server.pass.str 0 = .ok pass ∧
      0 ∉ challenge ∧ answer = some (outbuf, (cramMd5 user pass challenge ++ crlf).length) ∧
      outbuf.load 0 (cramMd5 user pass challenge ++ crlf).length = .ok (cramMd5 user pass challenge ++ crlf) := by
  obtain ⟨user, pass, challenge, huser, hpass, hchallenge⟩ := respond_strings h
  rw [respond_spec s stack huser hpass hchallenge] at h
  split_ifs at h with hends
  rw [Except.ok.injEq] at h
  have hlen := length_cramMd5_le (Buf.length_lt_of_str huser) pass challenge
  have hcount : (cramMd5 user pass challenge).length + 2 = (cramMd5 user pass challenge ++ crlf).length := by
    rw [List.length_append]
    rfl
  rw [hcount] at h
  refine ⟨user, pass, challenge, _, huser, hpass, (Buf.str_eq_ok hchallenge).1, h.symm, ?_⟩
  apply Buf.load_front _ _ (s.outbuf.toList.drop (cramMd5 user pass challenge ++ crlf).length)
  rw [Buf.toList_memcpy _ (by simp [crlf]; omega)]
  simp

theorem sendChallenge_handled (h : s.Terminated) (hstage : s.stage = .challenge) {stack : Stack}
    (hs : s.sendChallenge stack rv = .ok s') :
    s.Handled rv (s.LineRefused "334 " ∨ s.Undecodable stack) ended s' := by
  unfold sendChallenge at hs
  obtain ⟨line, hline, hs⟩ := Loops.bind_eq_ok hs
  cases line with
  | none =>
    cases hs
    exact handled_self h
  | some e =>
    dsimp only at hs
    split_ifs at hs with hcode
    · obtain ⟨enc, henc, hs⟩ := Loops.bind_eq_ok hs
      obtain ⟨⟨len2, chal⟩, hdecode, hs⟩ := Loops.bind_eq_ok hs
      dsimp only at hs
      split_ifs at hs with hbad
      · cases hs
        exact handled_fail h (.inr ⟨e, enc, len2, chal, hline, henc, hdecode, hbad⟩)
      · -- decoded: the line is consumed and the answer is built over `outbuf`
        obtain ⟨chal', -, hs⟩ := Loops.bind_eq_ok hs
        obtain ⟨s₁, hconsume, hs⟩ := Loops.bind_eq_ok hs
        have he := lineEnd_add_two h.zero_mem hline
        have hterm := h.consume (by omega) hconsume
        obtain ⟨-, rfl⟩ := consume_eq_ok h.used (by omega) hconsume
        obtain ⟨answer, hrespond, hs⟩ := Loops.bind_eq_ok hs
        obtain ⟨user, pass, challenge, outbuf, huser, hpass, hchallenge, rfl, hload⟩ := respond_eq_ok hrespond
        dsimp only at hs
        rw [hload, Loops.ok_bind] at hs
        obtain ⟨outbuf', rfl⟩ := terminate_eq_ok hs
        rw [espconnSend_outbuf]
        exact handled_command hterm outbuf' (.answer hstage huser hpass hchallenge)
    · cases hs
      exact handled_fail h (.inl ⟨e, hline, Bool.eq_false_iff.mpr hcode⟩)

/-- The client after the bytes of a segment have been appended to `inbuf`. -/
def append (s : Smtp) (data : List UInt8) : Smtp :=
  { s with inbuf := s.inbuf.memcpy s.inbufused data, inbufused := s.inbufused + data.length }

theorem Terminated.append (h : s.Terminated) {data : List UInt8} (hfit : s.inbufused + data.length < 2048) :
    (s.append data).Terminated := by
  refine ⟨hfit, ?_⟩
  dsimp only [Smtp.append]
  rw [Buf.get_memcpy, if_pos (by norm_num), if_neg (by omega)]
  exact h.last

/-- The handler of the stage, once the bytes have been appended. -/
def handle (s : Smtp) (stack : Stack) (rv : ℤ) : Except Fault Smtp :=
  match s.stage with
  | .greet => s.sendGreet rv
  | .challenge => s.sendChallenge stack rv
  | .auth => s.sendAuth rv
  | .from' => s.sendFrom rv
  | .to' => s.sendTo rv
  | .data => s.sendData rv
  | .quit => s.sendQuit rv
  | .close => s.sendClose
  | .failed | .ready | .resolve | .connect => .ok s

theorem recvCb_eq {data : List UInt8} (hfit : s.inbufused + data.length < 2048) (stack : Stack) (rv : ℤ) :
    s.recvCb data stack rv = (s.append data).handle stack rv := by
  unfold recvCb
  rw [if_neg (by omega), Buf.copy_ok _ (by omega), Loops.ok_bind]
  rfl

theorem recvCb_full {data : List UInt8} (hfull : ¬s.inbufused + data.length < 2048) (stack : Stack) (rv : ℤ) :
    s.recvCb data stack rv = .ok (s.fail .null) :=
  if_pos (by omega)

theorem handle_handled (h : s.Terminated) {stack : Stack} (hs : s.handle stack rv = .ok s') :
    s.Handled rv (s.Refused stack) (∃ e, s.lineEnd = .ok (some e)) s' := by
  unfold handle at hs
  unfold Refused
  cases hstage : s.stage with
  | greet => rw [hstage] at hs; exact greetLoop_handled h hstage hs
  | challenge => rw [hstage] at hs; exact sendChallenge_handled h hstage hs
  | auth => rw [hstage] at hs; exact sendAuth_handled h hstage hs
  | from' => rw [hstage] at hs; exact sendFrom_handled h hstage hs
  | to' => rw [hstage] at hs; exact sendTo_handled h hstage hs
  | data => rw [hstage] at hs; exact sendData_handled h hstage hs
  | quit => rw [hstage] at hs; exact sendQuit_handled h hstage hs
  | close => rw [hstage] at hs; exact sendClose_handled h hstage hs
  | failed => rw [hstage] at hs; cases hs; exact handled_self h
  | ready => rw [hstage] at hs; cases hs; exact handled_self h
  | resolve => rw [hstage] at hs; cases hs; exact handled_self h
  | connect => rw [hstage] at hs; cases hs; exact handled_self h

/-- Everything that a received segment can bring about. -/
theorem recvCb_handled (h : s.Terminated) {data : List UInt8} {stack : Stack}
    (hs : s.recvCb data stack rv = .ok s') :
    s.Handled rv (¬s.inbufused + data.length < 2048 ∨ (s.append data).Refused stack)
      (∃ e, (s.append data).lineEnd = .ok (some e)) s' := by
  by_cases hfit : s.inbufused + data.length < 2048
  · rw [recvCb_eq hfit] at hs
    have hhandled := handle_handled (h.append hfit) hs
    exact ⟨Received.of_buffers hhandled.1 .inr id, hhandled.2⟩
  · rw [recvCb_full hfit, Except.ok.injEq] at hs
    rw [← hs]
    exact handled_fail h (.inl hfit)

/-! ## Opening a session -/

/-- The client with the mail in its buffers. -/
def store (s : Smtp) (mail : Mail) : Smtp :=
  { s with
    from' := s.from'.strncpy 0 mail.from' (mail.from'.length + 1)
    to' := s.to'.strncpy 0 mail.to' (mail.to'.length + 1)
    subj := s.subj.strncpy 0 mail.subj (mail.subj.length + 1)
    body := s.body.strncpy 0 mail.body (mail.body.length + 1) }

/-- What `smtp_send` does with a mail it accepts. -/
def openSession (s : Smtp) (mail : Mail) (lookup : Lookup) (rv : ConnectRv) : Smtp :=
  match lookup with
  | .ok ip => { s.store mail with stage := .resolve }.sendConnect ip rv
  | .inprogress => { s.store mail with stage := .resolve }
  | .failed => { s.store mail with stage := .failed }

/-- What a call of `smtp_send` can bring about. -/
inductive Called (s : Smtp) (mail : Mail) (lookup : Lookup) (rv : ConnectRv) : Smtp → Prop
  | rejected : Called s mail lookup rv s
  | overflow (h : s.stage = .ready) (from' to' subj : Buf 128) :
      Called s mail lookup rv { s with from', to', subj }
  | opened (hhost : s.server.host.str 0 ≠ .ok []) (h : s.stage = .ready) (hfit : mail.Fits) :
      Called s mail lookup rv (s.openSession mail lookup rv)

theorem send_called {mail : Mail} {lookup : Lookup} {rv : ConnectRv} (hs : s.send mail lookup rv = .ok s') :
    s.Called mail lookup rv s' := by
  unfold send at hs
  obtain ⟨host, hstr, hs⟩ := Loops.bind_eq_ok hs
  dsimp only at hs
  split_ifs at hs with hhost hstage hfrom hto hsubj hbody
  · cases hs
    exact .rejected
  · cases hs
    exact .rejected
  · cases hs
    exact .rejected
  · cases hs
    exact .overflow (not_not.mp hstage) _ _ _
  · cases hs
    exact .overflow (not_not.mp hstage) _ _ _
  · cases hs
    exact .overflow (not_not.mp hstage) _ _ _
  · -- host set, ready, and all four strings fit
    have hnamed : s.server.host.str 0 ≠ .ok [] := by
      rw [hstr]
      rintro ⟨⟩
      exact hhost rfl
    have hopened : s.Called mail lookup rv (s.openSession mail lookup rv) :=
      .opened hnamed (not_not.mp hstage) ⟨by omega, by omega, by omega, by omega⟩
    cases lookup with
    | ok ip => cases hs; exact hopened
    | inprogress => cases hs; exact hopened
    | failed => cases hs; exact hopened

/-- A call in any other state than `READY` changes nothing. -/
theorem send_not_ready {mail : Mail} {lookup : Lookup} {rv : ConnectRv} (h : s.stage ≠ .ready)
    (hs : s.send mail lookup rv = .ok s') : s' = s := by
  cases send_called hs with
  | rejected => rfl
  | overflow hready => exact absurd hready h
  | opened _ hready => exact absurd hready h

/-! ## Runs -/

theorem Terminated.of_eq (h : s.Terminated) (hinbuf : s'.inbuf = s.inbuf)
    (hused : s'.inbufused = s.inbufused) : s'.Terminated :=
  ⟨hused ▸ h.used, hinbuf ▸ h.last⟩

theorem Terminated.sendConnect (h : s.Terminated) (ip : UInt32) (rv : ConnectRv) :
    (s.sendConnect ip rv).Terminated := by
  unfold Smtp.sendConnect
  dsimp only
  split_ifs
  all_goals exact h.of_eq rfl rfl

theorem Terminated.connCb (h : s.Terminated) (rv : ConnRv) : (s.connCb rv).Terminated := by
  unfold Smtp.connCb
  split_ifs
  · exact h.of_eq rfl rfl
  · exact h.of_eq rfl rfl
  · exact h.of_eq rfl rfl
  · exact h.of_eq (espconnSend_inbuf _) (espconnSend_inbufused _)

theorem Terminated.openSession (h : s.Terminated) (mail : Mail) (lookup : Lookup) (rv : ConnectRv) :
    (s.openSession mail lookup rv).Terminated := by
  cases lookup with
  | ok ip =>
    have hstore : { s.store mail with stage := .resolve }.Terminated := h.of_eq rfl rfl
    exact hstore.sendConnect ip rv
  | inprogress => exact h.of_eq rfl rfl
  | failed => exact h.of_eq rfl rfl

theorem Terminated.step (h : s.Terminated) {e : SmtpEvent} (hs : s.step e = .ok s') : s'.Terminated := by
  cases e with
  | send mail lookup rv =>
    cases send_called hs with
    | rejected => exact h
    | overflow => exact h.of_eq rfl rfl
    | opened => exact h.openSession mail lookup rv
  | dns ip rv =>
    cases hs
    cases ip with
    | none => exact h.of_eq rfl rfl
    | some ip => exact h.sendConnect ip rv
  | connected rv => cases hs; exact h.connCb rv
  | recv data stack rv => exact (recvCb_handled h hs).2
  | error err connecting => cases hs; exact h
  | disconnected => cases hs; exact h
  | sent => cases hs; exact h
  | kill => cases hs; exact h.of_eq rfl rfl
  | setup server => cases hs; exact h.of_eq rfl rfl
  | logLevel level => cases hs; exact h.of_eq rfl rfl

/-- The states of the runs from `smtp_init`. A run stops at the first fault. -/
inductive Reachable : Smtp → Prop
  | init (server : SmtpServer) (logLevel : ℕ) : Reachable (init server logLevel)
  | step {s s' : Smtp} (e : SmtpEvent) (h : Reachable s) (hs : s.step e = .ok s') : Reachable s'

theorem Reachable.terminated (h : Reachable s) : s.Terminated := by
  induction h with
  | init server logLevel => exact ⟨by norm_num [Smtp.init], by simp [Smtp.init]⟩
  | step e _ hs ih => exact ih.step hs

/-- The run from `smtp_init` over the events. -/
def runFrom (s : Smtp) (es : List SmtpEvent) : Except Fault Smtp := es.foldlM step s

theorem Reachable.run (h : s.Reachable) {es : List SmtpEvent} {s' : Smtp} (hs : s.runFrom es = .ok s') :
    s'.Reachable :=
  Loops.foldlM_inv Reachable (fun _ e _ h hs => h.step e hs) es h hs

/-- A property that the end of a run is found to have. -/
theorem runFrom_any {s : Smtp} {es : List SmtpEvent} {p : Smtp → Bool}
    (h : (s.runFrom es).toOption.any p = true) : ∃ s', s.runFrom es = .ok s' ∧ p s' = true := by
  cases hrun : s.runFrom es with
  | error f =>
    rw [hrun] at h
    cases h
  | ok s' =>
    rw [hrun] at h
    exact ⟨s', rfl, h⟩

end Smtp
end Esp8266Toolbox
