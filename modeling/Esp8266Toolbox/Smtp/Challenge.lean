import Esp8266Toolbox.Smtp.ClientTheorems

/-!
# The challenge line

A complete line `334 …` is decoded, taken out of `inbuf` and answered. The answer is that of the
standards; the only array that is left is `right`, when `DEBUG` prints it as a string.
-/

namespace Esp8266Toolbox
namespace Smtp

variable {s : Smtp} {stack : Stack} {rv : ℤ}

/-- The line that carries the challenge. -/
def challengeLine (challenge : List UInt8) : List UInt8 := ascii "334 " ++ base64 challenge ++ crlf

/-- The bytes in use start with the challenge line. -/
def Challenged (s : Smtp) (challenge rest : List UInt8) : Prop :=
  s.inbuf.toList.take s.inbufused = challengeLine challenge ++ rest

/-- Where the bytes in use are known, `inbuf` starts with them. -/
theorem Challenged.toList {challenge rest : List UInt8} (h : s.Challenged challenge rest) :
    ∃ behind, s.inbuf.toList = challengeLine challenge ++ behind := by
  refine ⟨rest ++ s.inbuf.toList.drop s.inbufused, ?_⟩
  rw [← List.append_assoc, ← h, List.take_append_drop]

/-- The line is found, it has the code that is asked for, and the challenge is decoded. -/
theorem challenge_read (hterm : s.Terminated) {challenge rest : List UInt8} (h : s.Challenged challenge rest) :
    s.lineEnd = .ok (some (4 + (base64 challenge).length)) ∧ s.startsWith "334 " 4 = true ∧
      s.inbuf.load 4 (base64 challenge).length = .ok (base64 challenge) := by
  obtain ⟨behind, hinbuf⟩ := h.toList
  have hlen := congrArg List.length hinbuf
  rw [s.inbuf.length_toList, List.length_append] at hlen
  have hcode : (ascii "334 ").length = 4 := rfl
  have hcode0 : (0 : UInt8) ∉ ascii "334 " ++ base64 challenge ++ crlf := by
    simp only [List.mem_append, not_or]
    exact ⟨⟨by decide, fun hmem => (mem_base64 hmem).2.1 rfl⟩, by decide⟩
  have hfront : CR ∉ ascii "334 " ++ base64 challenge := by
    simp only [List.mem_append, not_or]
    exact ⟨by decide, fun hmem => (mem_base64 hmem).2.2 rfl⟩
  refine ⟨?_, ?_, ?_⟩
  · rw [lineEnd_eq hterm.zero_mem, hinbuf, challengeLine, cstr_append hcode0, strstr_crlf hfront, List.length_append,
      hcode]
  · have hprefix : ascii "334 " <+: s.inbuf.toList := by
      rw [hinbuf, challengeLine, List.append_assoc, List.append_assoc]
      exact List.prefix_append _ _
    have hcmp := (strncmp_eq_zero_iff_starts (a := ascii "334 ") (by decide) (by rw [hcode]; simp)).mpr hprefix
    rw [hcode] at hcmp
    exact decide_eq_true hcmp
  · have hbound : 4 + (base64 challenge).length ≤ (challengeLine challenge).length := by
      rw [challengeLine, List.length_append, List.length_append, hcode]
      omega
    rw [Buf.load_ok _ (by omega), Buf.slice, hinbuf, challengeLine, List.append_assoc, List.append_assoc, ← hcode,
      List.drop_left, List.take_left]

/-- The decoded challenge as a string in `chal`. -/
theorem chal_str (chal : Buf 128) {challenge : List UInt8} (hc0 : 0 ∉ challenge) (hc : challenge.length ≤ 126) :
    ((chal.memcpy 0 challenge).set challenge.length 0).str 0 = .ok challenge := by
  have hset : (chal.memcpy 0 challenge).set challenge.length 0 = chal.memcpy 0 (challenge ++ [0]) := by
    have hmove := chal.memcpy_memcpy 0 challenge [0] (by simp; omega)
    rw [Nat.zero_add] at hmove
    rw [← hmove]
    exact Buf.foldl_indexed _ _ [0]
  have hbytes : ((chal.memcpy 0 challenge).set challenge.length 0).toList.drop 0 =
      challenge ++ 0 :: chal.toList.drop (challenge.length + 1) := by
    rw [hset, List.drop_zero, Buf.toList_memcpy _ (by simp; omega)]
    simp
  exact Buf.str_ok hc0 hbytes

/-- The end of `smtp_send_challenge`, from the answer on. -/
def sendAnswer (rv : ℤ) (s : Smtp) : Option (Buf 1024 × ℕ) → Except Fault Smtp
  | none => .ok (s.fail .null)
  | some (outbuf, len) => do
    let data ← outbuf.load 0 len
    ({ s with outbuf }.espconnSend data rv).terminate (len - 2) rv

/-- What `smtp_send_challenge` does once the line has been read. -/
theorem sendChallenge_eq (hterm : s.Terminated) {challenge rest : List UInt8} (hc : challenge.length ≤ 126)
    (h : s.Challenged challenge rest) (stack : Stack) (rv : ℤ) :
    ∃ s₁ : Smtp, s₁.server = s.server ∧ s₁.logLevel = s.logLevel ∧ s₁.sent = s.sent ∧ s₁.stage = .auth ∧
      s.sendChallenge stack rv =
        s₁.respond stack ((stack.chal.memcpy 0 challenge).set challenge.length 0) >>= s₁.sendAnswer rv := by
  obtain ⟨hline, hcode, hload⟩ := challenge_read hterm h
  have hused : 4 + (base64 challenge).length + 2 ≤ s.inbufused := by
    have hlen := congrArg List.length h
    have hascii : (ascii "334 ").length = 4 := rfl
    have hcrlf : crlf.length = 2 := rfl
    rw [List.length_take, s.inbuf.length_toList, challengeLine, List.length_append, List.length_append,
      List.length_append, hascii, hcrlf] at hlen
    omega
  have hdecode := b64Decode_spec challenge stack.chal (by split_ifs <;> omega)
  let rest := s.inbuf.slice (4 + (base64 challenge).length + 2)
    (s.inbufused - (4 + (base64 challenge).length + 2) + 1)
  refine ⟨{ s.buffers (s.inbuf.memcpy 0 rest) (s.inbufused - (4 + (base64 challenge).length + 2)) s.outbuf with
    stage := .auth }, rfl, rfl, rfl, rfl, ?_⟩
  unfold sendChallenge
  rw [hline, Loops.ok_bind]
  dsimp only
  rw [if_pos hcode, Nat.add_sub_cancel_left, hload, Loops.ok_bind, hdecode, Loops.ok_bind]
  dsimp only
  rw [if_neg (by omega), Int.toNat_natCast, Buf.put_ok _ (by omega), Loops.ok_bind, consume_ok hterm.used hused,
    Loops.ok_bind]
  rfl

/-- The answer is sent, unless `DEBUG` prints an array that does not end. -/
theorem sendChallenge_answers (hterm : s.Terminated) {user pass challenge rest : List UInt8} (hc0 : 0 ∉ challenge)
    (hc : challenge.length ≤ 126) (h : s.Challenged challenge rest) (huser : s.server.user.str 0 = .ok user)
    (hpass : s.server.pass.str 0 = .ok pass) (hends : s.DebugEnds stack pass challenge) :
    ∃ s', s.sendChallenge stack rv = .ok s' ∧ s'.sent = s.sent ++ [cramMd5 user pass challenge ++ crlf] ∧
      s'.stage = if rv = 0 then .auth else .failed := by
  obtain ⟨s₁, hserver, hlevel, hsent, hstage, heq⟩ := sendChallenge_eq hterm hc h stack rv
  have hrespond := respond_spec s₁ stack (hserver ▸ huser) (hserver ▸ hpass) (chal_str stack.chal hc0 hc)
  have hends₁ : s₁.DebugEnds stack pass challenge := by
    unfold DebugEnds
    rwa [hlevel]
  have hlen := length_cramMd5_le (Buf.length_lt_of_str huser) pass challenge
  rw [heq, hrespond, if_pos hends₁, Loops.ok_bind]
  unfold sendAnswer
  have hload : (s₁.outbuf.memcpy 0 (cramMd5 user pass challenge ++ crlf)).load 0
      (cramMd5 user pass challenge ++ crlf).length = .ok (cramMd5 user pass challenge ++ crlf) := by
    apply Buf.load_front _ _ (s₁.outbuf.toList.drop (cramMd5 user pass challenge ++ crlf).length)
    rw [Buf.toList_memcpy _ (by simp [crlf]; omega)]
    simp
  have hcount : (cramMd5 user pass challenge ++ crlf).length = (cramMd5 user pass challenge).length + 2 :=
    List.length_append
  rw [hcount] at hload
  dsimp only
  rw [hload, Loops.ok_bind, Nat.add_sub_cancel]
  -- the terminator goes where the `CR` of the answer stands, after it has been sent
  obtain ⟨outbuf, hterminate⟩ := terminate_ok (j := (cramMd5 user pass challenge).length) (by omega)
    ({ s₁ with outbuf := s₁.outbuf.memcpy 0 (cramMd5 user pass challenge ++ crlf) }.espconnSend
      (cramMd5 user pass challenge ++ crlf) rv) rv
  refine ⟨_, hterminate, ?_, ?_⟩
  · dsimp only
    rw [espconnSend_sent, ← hsent]
  · dsimp only
    rw [espconnSend_stage, hstage]

/-- Where the scan of `DEBUG` finds no terminator, it leaves `right`. -/
theorem sendChallenge_leaves_right (hterm : s.Terminated) {user pass challenge rest : List UInt8}
    (hc0 : 0 ∉ challenge) (hc : challenge.length ≤ 126) (h : s.Challenged challenge rest)
    (huser : s.server.user.str 0 = .ok user) (hpass : s.server.pass.str 0 = .ok pass)
    (hends : ¬s.DebugEnds stack pass challenge) : s.sendChallenge stack rv = .error .outOfBounds := by
  obtain ⟨s₁, hserver, hlevel, -, -, heq⟩ := sendChallenge_eq hterm hc h stack rv
  have hrespond := respond_spec s₁ stack (hserver ▸ huser) (hserver ▸ hpass) (chal_str stack.chal hc0 hc)
  have hends₁ : ¬s₁.DebugEnds stack pass challenge := by
    unfold DebugEnds
    rwa [hlevel]
  rw [heq, hrespond, if_neg hends₁]
  rfl

/-- In state `CHALLENGE`, when the bytes received and not yet consumed become a challenge line and
whatever follows it, the client answers as the standards say if and only if the bytes fit `inbuf`
and `DEBUG` does not print `right` beyond its end. -/
theorem challenge_answered_iff (hreach : s.Reachable) (hstage : s.stage = .challenge)
    {user pass challenge data rest : List UInt8} (hc0 : 0 ∉ challenge) (hc : challenge.length ≤ 126)
    (huser : s.server.user.str 0 = .ok user) (hpass : s.server.pass.str 0 = .ok pass)
    (hline : s.inbuf.toList.take s.inbufused ++ data = challengeLine challenge ++ rest) :
    (∃ s', s.recvCb data stack rv = .ok s' ∧ s'.sent = s.sent ++ [cramMd5 user pass challenge ++ crlf] ∧
        s'.stage = if rv = 0 then .auth else .failed) ↔
      s.inbufused + data.length < 2048 ∧ s.DebugEnds stack pass challenge := by
  have hterm := hreach.terminated
  by_cases hfit : s.inbufused + data.length < 2048
  · have hterm' := hterm.append hfit
    -- what the buffer holds is the challenge line and what follows it
    have hchallenged : (s.append data).Challenged challenge rest := by
      have hfront : (s.inbuf.toList.take s.inbufused).length = s.inbufused := by
        rw [List.length_take, s.inbuf.length_toList]
        omega
      unfold Challenged append
      dsimp only
      rw [Buf.toList_memcpy _ (by omega), ← hline, List.take_left']
      rw [List.length_append, hfront]
    have hrecv : s.recvCb data stack rv = (s.append data).sendChallenge stack rv := by
      have hstage' : (s.append data).stage = .challenge := hstage
      rw [recvCb_eq hfit, handle, hstage']
    rw [hrecv]
    constructor
    · rintro ⟨s', hs', -, -⟩
      refine ⟨hfit, ?_⟩
      by_contra hends
      rw [sendChallenge_leaves_right hterm' hc0 hc hchallenged huser hpass hends] at hs'
      cases hs'
    · rintro ⟨-, hends⟩
      exact sendChallenge_answers hterm' hc0 hc hchallenged huser hpass hends
  · constructor
    · rintro ⟨s', hs', hsent, -⟩
      -- the segment is refused, and the session fails without an answer
      rw [recvCb_full hfit, Except.ok.injEq] at hs'
      subst hs'
      have hlen := congrArg List.length hsent
      simp [fail] at hlen
    · rintro ⟨hfit', -⟩
      exact absurd hfit' hfit

/-! ## A session up to the challenge -/

/-- An account. -/
def account : SmtpServer :=
  { host := (Buf.zero 64).memcpy 0 (ascii "mail"), port := 25, user := (Buf.zero 64).memcpy 0 (ascii "u"),
    pass := (Buf.zero 64).memcpy 0 (ascii "p") }

/-- A mail. -/
def smallMail : Mail :=
  { from' := ascii "a", to' := ascii "b", subj := ascii "s", body := ascii "t",
    nul_free := by decide }

/-- A stack without a zero in the array `right`. -/
def fullStack : Stack :=
  { chal := Buf.zero _, left := Buf.zero _, right := (Buf.zero _).memcpy 0 (List.replicate 256 0xff),
    md5 := fun _ => ⟨Buf.zero _, 0, 0, md5H⟩ }

/-- A session is opened, and the server answers the greeting. -/
def greeted : List SmtpEvent :=
  [.send smallMail (.ok 0) ⟨0, 0, 0⟩, .connected ⟨0, 0, 0, 0⟩,
    .recv (ascii "220 hello\r\n250-first\r\n250 last\r\n") fullStack 0]

/-- The client waits for the challenge, at a log level. -/
def Waits (s : Smtp) (logLevel : ℕ) : Prop :=
  s.stage = .challenge ∧ s.inbufused = 0 ∧ s.server = account ∧ s.logLevel = logLevel

instance (s : Smtp) (logLevel : ℕ) : Decidable (s.Waits logLevel) :=
  inferInstanceAs (Decidable (_ ∧ _ ∧ _ ∧ _))

theorem challenge_answered_iff_info :
    ∃ s s' : Smtp, s.Reachable ∧ s.Waits 20 ∧ s.recvCb (challengeLine (ascii "c")) fullStack 0 = .ok s' ∧
      s'.sent = s.sent ++ [cramMd5 (ascii "u") (ascii "p") (ascii "c") ++ crlf] ∧ s'.stage = .auth := by
  have hrun : ((init account 20).runFrom greeted).toOption.any (fun s => decide (s.Waits 20)) = true := by
    decide
  obtain ⟨s, hs, hwaits⟩ := runFrom_any hrun
  have hreach : s.Reachable := (Reachable.init account 20).run hs
  obtain ⟨hstage, hused, hserver, hlevel⟩ := of_decide_eq_true hwaits
  have hline : s.inbuf.toList.take s.inbufused ++ challengeLine (ascii "c") = challengeLine (ascii "c") ++ [] := by
    rw [hused]
    simp
  have hiff : (∃ s', s.recvCb (challengeLine (ascii "c")) fullStack 0 = .ok s' ∧
      s'.sent = s.sent ++ [cramMd5 (ascii "u") (ascii "p") (ascii "c") ++ crlf] ∧
      s'.stage = if (0 : ℤ) = 0 then .auth else .failed) ↔ _ :=
    challenge_answered_iff hreach hstage (by decide) (by decide) (by rw [hserver]; decide)
      (by rw [hserver]; decide) hline
  obtain ⟨s', hs', hsent, hstage'⟩ := hiff.mpr ⟨by rw [hused]; decide, Or.inl (by rw [hlevel]; decide)⟩
  exact ⟨s, s', hreach, ⟨hstage, hused, hserver, hlevel⟩, hs', hsent, hstage'⟩

/-- At level `DEBUG` the scan runs over the end of `right`. -/
theorem challenge_leaves_right :
    ∃ s : Smtp, s.Reachable ∧ s.Waits 10 ∧
      s.recvCb (challengeLine (ascii "c")) fullStack 0 = .error .outOfBounds := by
  have hrun : ((init account 20).runFrom (.logLevel 10 :: greeted)).toOption.any (fun s => decide (s.Waits 10 ∧
      s.recvCb (challengeLine (ascii "c")) fullStack 0 = .error .outOfBounds)) = true := by
    decide
  obtain ⟨s, hs, hwaits⟩ := runFrom_any hrun
  obtain ⟨hwaits, hfault⟩ := of_decide_eq_true hwaits
  exact ⟨s, (Reachable.init account 20).run hs, hwaits, hfault⟩

end Smtp
end Esp8266Toolbox
