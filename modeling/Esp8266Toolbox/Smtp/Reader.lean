import Esp8266Toolbox.Lib.LineStream
import Esp8266Toolbox.Smtp.Challenge

/-!
# The client as a reader of lines

`lineReader` takes the lines of the server one by one. It acts on a line as the client does when
`inbuf` holds that line and nothing else, so that neither what follows a line nor what an earlier
response has left in `inbuf` is seen. The handlers of the client do the same with a complete line,
whatever is around it: `handle_line`.
-/

namespace Esp8266Toolbox
namespace Smtp

variable {s t : Smtp} {stack : Stack} {rv : ℤ} {line rest : List UInt8}

/-! ## The bytes that have been received -/

/-- The client with other bytes in `inbuf`. -/
def withIn (s : Smtp) (inbuf : Buf 2048) (inbufused : ℕ) : Smtp := { s with inbuf, inbufused }

/-- The client without the bytes in `inbuf`. -/
def bare (s : Smtp) : Smtp := s.withIn (Buf.zero _) 0

/-- The bytes that have been received and not yet consumed. -/
def unread (s : Smtp) : List UInt8 := s.inbuf.toList.take s.inbufused

/-- The client when it has received a line and nothing else. -/
def alone (s : Smtp) (line : List UInt8) : Smtp := s.withIn ((Buf.zero _).memcpy 0 line) line.length

/-- The stages with a handler for what is received. -/
def listens (s : Smtp) : Bool :=
  match s.stage with
  | .greet | .challenge | .auth | .from' | .to' | .data | .quit | .close => true
  | .failed | .ready | .resolve | .connect => false

/-- A client that has acted on a line, and holds nothing else, has taken it out of `inbuf`. One that has
not does not listen any more. -/
def taken (s : Smtp) : Bool := s.inbufused = 0 || s.listens

theorem length_unread (h : s.Terminated) : s.unread.length = s.inbufused := by
  have hused := h.used
  rw [unread, List.length_take, s.inbuf.length_toList]
  omega

/-! ## Nothing but the lines depends on `inbuf` -/

theorem espconnSend_withIn (data : List UInt8) (rv : ℤ) (inbuf : Buf 2048) (inbufused : ℕ) :
    (s.withIn inbuf inbufused).espconnSend data rv = (s.espconnSend data rv).withIn inbuf inbufused := by
  unfold espconnSend
  split_ifs
  · rfl
  · rfl

theorem sendFormatted_withIn (text : List UInt8) (len : ℕ) (rv : ℤ) (inbuf : Buf 2048) (inbufused : ℕ) :
    (s.withIn inbuf inbufused).sendFormatted text len rv =
      (s.sendFormatted text len rv).map (·.withIn inbuf inbufused) := by
  unfold sendFormatted
  have houtbuf : (s.withIn inbuf inbufused).outbuf = s.outbuf := rfl
  rw [houtbuf]
  dsimp only
  cases (snprintf s.outbuf text).1.load 0 len with
  | error f => rfl
  | ok data =>
    exact congrArg Except.ok
      (espconnSend_withIn (s := { s with outbuf := (snprintf s.outbuf text).1 }) data rv inbuf inbufused)

theorem terminate_withIn (j : ℕ) (rv : ℤ) (inbuf : Buf 2048) (inbufused : ℕ) :
    (s.withIn inbuf inbufused).terminate j rv = (s.terminate j rv).map (·.withIn inbuf inbufused) := by
  unfold terminate
  have houtbuf : (s.withIn inbuf inbufused).outbuf = s.outbuf := rfl
  rw [houtbuf]
  split_ifs
  · rfl
  · cases s.outbuf.put j 0 with
    | error f => rfl
    | ok outbuf => rfl

/-- A text that is sent, and the store behind it. -/
theorem send_terminate_withIn (text : List UInt8) (len j : ℕ) (rv : ℤ) (inbuf : Buf 2048) (inbufused : ℕ) :
    ((s.withIn inbuf inbufused).sendFormatted text len rv >>= fun s => s.terminate j rv) =
      (s.sendFormatted text len rv >>= fun s => s.terminate j rv).map (·.withIn inbuf inbufused) := by
  rw [sendFormatted_withIn]
  cases s.sendFormatted text len rv with
  | error f => rfl
  | ok s' => exact terminate_withIn j rv inbuf inbufused

/-! ## A complete line in `inbuf` -/

/-- A code that the handlers ask for. -/
def Code (text : String) (n : ℕ) : Prop :=
  (ascii text).length = n ∧ n ≤ 2048 ∧ (0 : UInt8) ∉ ascii text ∧ CR ∉ ascii text

instance (text : String) (n : ℕ) : Decidable (Code text n) := inferInstanceAs (Decidable (_ ∧ _ ∧ _ ∧ _))

/-- The bytes that have been received start with a complete line. -/
structure HoldsLine (s : Smtp) (line rest : List UInt8) : Prop where
  terminated : s.Terminated
  unread : s.unread = line ++ rest
  nul_free : 0 ∉ line ++ rest
  ends : strstr line crlf = some (line.length - 2)

theorem HoldsLine.two_le (h : s.HoldsLine line rest) : 2 ≤ line.length := by
  have hle := strstr_add_le h.ends
  simp only [crlf, List.length_cons, List.length_nil] at hle
  omega

theorem HoldsLine.used (h : s.HoldsLine line rest) : line.length + rest.length = s.inbufused := by
  have hlen := congrArg List.length h.unread
  rw [length_unread h.terminated, List.length_append] at hlen
  exact hlen.symm

/-- What is behind the line, in `inbuf`. -/
theorem HoldsLine.toList (h : s.HoldsLine line rest) : ∃ behind, s.inbuf.toList = line ++ behind := by
  refine ⟨rest ++ s.inbuf.toList.drop s.inbufused, ?_⟩
  rw [← List.append_assoc, ← h.unread, Smtp.unread, List.take_append_drop]

theorem HoldsLine.lineEnd (h : s.HoldsLine line rest) : s.lineEnd = .ok (some (line.length - 2)) := by
  obtain ⟨behind, hbehind⟩ := h.toList
  have h0 : 0 ∉ line := fun hmem => h.nul_free (List.mem_append_left _ hmem)
  rw [lineEnd_eq h.terminated.zero_mem, hbehind, cstr_append h0, strstr_append h.ends]

/-- A line has a code or it has not: the code does not reach over the end of the line. -/
theorem HoldsLine.startsWith (h : s.HoldsLine line rest) {text : String} {n : ℕ} (hcode : Code text n) :
    s.startsWith text n = decide (ascii text <+: line) := by
  obtain ⟨hn, hfit, h0, hcr⟩ := hcode
  obtain ⟨behind, hbehind⟩ := h.toList
  have hstarts := strncmp_eq_zero_iff_starts (a := ascii text) (b := s.inbuf.toList) h0
    (by rw [s.inbuf.length_toList]; omega)
  rw [Smtp.startsWith, ← hn]
  apply decide_eq_decide.mpr
  rw [hstarts, hbehind]
  constructor
  · intro hpre
    rcases le_total (ascii text).length line.length with hle | hle
    · exact List.prefix_of_prefix_length_le hpre (List.prefix_append _ _) hle
    · -- the code would hold the CR of the line
      have hline := List.prefix_of_prefix_length_le (List.prefix_append line behind) hpre hle
      obtain ⟨-, hend, -⟩ := strstr_eq_some_iff.mp h.ends
      have hmem : CR ∈ line := List.mem_of_mem_drop (hend.subset (by decide))
      exact absurd (hline.subset hmem) hcr
  · exact fun hpre => hpre.trans (List.prefix_append _ _)

/-- The line is taken out of `inbuf`, and what follows it comes to the front. -/
theorem HoldsLine.consume (h : s.HoldsLine line rest) :
    ∃ inbuf, s.consume line.length = .ok (s.withIn inbuf rest.length) ∧
      (s.withIn inbuf rest.length).Terminated ∧ (s.withIn inbuf rest.length).unread = rest := by
  have hused := h.used
  have hlt := h.terminated.used
  have hok := consume_ok (e := line.length) hlt (by omega)
  have hterm := h.terminated.consume (by omega) hok
  have hrest : s.inbufused - line.length = rest.length := by omega
  rw [hrest] at hok hterm
  refine ⟨_, hok, hterm, ?_⟩
  have hlen : (s.inbuf.slice line.length (rest.length + 1)).length = rest.length + 1 := by
    rw [Buf.slice, List.length_take, List.length_drop, s.inbuf.length_toList]
    omega
  have hfront : s.inbuf.toList.drop line.length = rest ++ s.inbuf.toList.drop s.inbufused := by
    have hall : s.inbuf.toList = line ++ (rest ++ s.inbuf.toList.drop s.inbufused) := by
      rw [← List.append_assoc, ← h.unread, Smtp.unread, List.take_append_drop]
    conv_lhs => rw [hall]
    exact List.drop_left
  show ((s.inbuf.memcpy 0 (s.inbuf.slice line.length (rest.length + 1))).toList.take rest.length) = rest
  rw [Buf.toList_memcpy _ (by omega), List.take_zero, List.nil_append, List.take_append_of_le_length (by omega), Buf.slice,
    List.take_take, hfront, Nat.min_eq_left (by omega), List.take_left]

/-- What follows the code of a line. -/
theorem HoldsLine.load (h : s.HoldsLine line rest) :
    s.inbuf.load 4 (line.length - 2 - 4) = .ok ((line.drop 4).take (line.length - 2 - 4)) := by
  obtain ⟨behind, hbehind⟩ := h.toList
  have hused := h.used
  have hlt := h.terminated.used
  rw [Buf.load_ok _ (by omega), Buf.slice, hbehind]
  rcases le_total 4 line.length with hle | hle
  · rw [List.drop_append_of_le_length hle, List.take_append_of_le_length (by rw [List.length_drop]; omega)]
  · rw [show line.length - 2 - 4 = 0 by omega, List.take_zero, List.take_zero]

/-- The client that has received nothing but the line. -/
theorem HoldsLine.alone (h : s.HoldsLine line rest) : (s.alone line).HoldsLine line [] := by
  have hused := h.used
  have hlt := h.terminated.used
  refine ⟨⟨by show line.length < 2048; omega, ?_⟩, ?_, ?_, h.ends⟩
  · show ((Buf.zero 2048).memcpy 0 line).get 2047 = 0
    rw [Buf.get_memcpy, if_pos (by norm_num), if_neg (by omega), Buf.get_zero]
  · show ((Buf.zero 2048).memcpy 0 line).toList.take line.length = line ++ []
    rw [Buf.toList_memcpy _ (by omega), List.take_zero, List.nil_append, List.take_left, List.append_nil]
  · rw [List.append_nil]
    exact fun hmem => h.nul_free (List.mem_append_left _ hmem)

/-! ## The same line, alone or not -/

/-- What a client has become that holds more than the line, and one that holds nothing else. -/
structure Alike (line rest : List UInt8) (s t : Smtp) : Prop where
  bare : s.bare = t.bare
  terminated : s.Terminated
  unread : s.unread = if t.taken then rest else line ++ rest
  /-- Where the client goes on listening, the line was the last one. -/
  last : t.listens = true → strstr rest crlf = none

/-- A line that is refused stays in `inbuf`. -/
theorem HoldsLine.fail (h : s.HoldsLine line rest) : Alike line rest (s.fail .null) ((s.alone line).fail .null) := by
  have htwo := h.two_le
  have htaken : ((s.alone line).fail .null).taken = false := by
    show (decide (line.length = 0) || false) = false
    rw [decide_eq_false (by omega)]
    rfl
  refine ⟨rfl, ⟨h.terminated.used, h.terminated.last⟩, ?_, ?_⟩
  · rw [htaken]
    exact h.unread
  · intro hlistens
    cases hlistens

/-- What the client does when the line is out of `inbuf`. -/
theorem alike_withIn {x : Smtp} {inbuf inbuf' : Buf 2048} (hterm : (s.withIn inbuf rest.length).Terminated)
    (hunread : (s.withIn inbuf rest.length).unread = rest) (hlast : x.listens = true → strstr rest crlf = none) :
    Alike line rest (x.withIn inbuf rest.length) (x.withIn inbuf' 0) :=
  ⟨rfl, ⟨hterm.used, hterm.last⟩, hunread, hlast⟩

/-- The handlers that wait for one line. -/
theorem onLine_line (h : s.HoldsLine line rest) {code : String} (hcode : Code code 4) {act : Smtp → Except Fault Smtp}
    (hact : ∀ inbuf inbufused, act (s.withIn inbuf inbufused) = (act s).map (·.withIn inbuf inbufused))
    (hlast : ascii code <+: line → ∀ x, act s = .ok x → x.listens = true → strstr rest crlf = none) :
    Loops.SameEnd (Alike line rest) (s.onLine code act) ((s.alone line).onLine code act) := by
  have hlen : line.length - 2 + 2 = line.length := Nat.sub_add_cancel h.two_le
  unfold onLine
  rw [h.lineEnd, h.alone.lineEnd, Loops.ok_bind, Loops.ok_bind]
  dsimp only
  rw [h.startsWith hcode, h.alone.startsWith hcode, hlen]
  by_cases hpre : ascii code <+: line
  · obtain ⟨inbuf, hconsume, hterm, hunread⟩ := h.consume
    obtain ⟨inbuf', hconsume', -, -⟩ := h.alone.consume
    have hwithIn : (s.alone line).withIn inbuf' ([] : List UInt8).length = s.withIn inbuf' 0 := rfl
    rw [if_pos (decide_eq_true hpre), if_pos (decide_eq_true hpre), hconsume, hconsume', Loops.ok_bind, Loops.ok_bind,
      hwithIn, hact, hact]
    cases hx : act s with
    | error f => trivial
    | ok x => exact alike_withIn hterm hunread (hlast hpre x hx)
  · rw [if_neg (by simpa using hpre), if_neg (by simpa using hpre)]
    exact h.fail

/-! ### Commands -/

/-- A string of the client, and what is done with it. -/
theorem bind_withIn {α : Type} {x : Except Fault α} {f g : α → Except Fault Smtp} {inbuf : Buf 2048} {inbufused : ℕ}
    (h : ∀ a, f a = (g a).map (·.withIn inbuf inbufused)) :
    (x >>= f) = (x >>= g).map (·.withIn inbuf inbufused) := by
  cases x with
  | error e => rfl
  | ok a => exact h a

theorem sendAuth_line (h : s.HoldsLine line rest) (hlast : ascii "235 " <+: line → strstr rest crlf = none) :
    Loops.SameEnd (Alike line rest) (s.sendAuth rv) ((s.alone line).sendAuth rv) := by
  refine onLine_line h (by decide) (fun inbuf inbufused => ?_) fun hpre _ _ _ => hlast hpre
  exact bind_withIn fun text => send_terminate_withIn (s := { s with stage := .from' }) _ _ _ _ _ _

theorem sendFrom_line (h : s.HoldsLine line rest) (hlast : ascii "250 " <+: line → strstr rest crlf = none) :
    Loops.SameEnd (Alike line rest) (s.sendFrom rv) ((s.alone line).sendFrom rv) := by
  refine onLine_line h (by decide) (fun inbuf inbufused => ?_) fun hpre _ _ _ => hlast hpre
  exact bind_withIn fun text => send_terminate_withIn (s := { s with stage := .to' }) _ _ _ _ _ _

theorem sendTo_line (h : s.HoldsLine line rest) (hlast : ascii "250 " <+: line → strstr rest crlf = none) :
    Loops.SameEnd (Alike line rest) (s.sendTo rv) ((s.alone line).sendTo rv) :=
  onLine_line h (by decide) (fun _ _ => sendFormatted_withIn (s := { s with stage := .data }) _ _ _ _ _)
    fun hpre _ _ _ => hlast hpre

theorem sendData_line (h : s.HoldsLine line rest) (hlast : ascii "354 " <+: line → strstr rest crlf = none) :
    Loops.SameEnd (Alike line rest) (s.sendData rv) ((s.alone line).sendData rv) := by
  refine onLine_line h (by decide) (fun inbuf inbufused => ?_) fun hpre _ _ _ => hlast hpre
  exact bind_withIn fun from' => bind_withIn fun to' => bind_withIn fun subj => bind_withIn fun body =>
    sendFormatted_withIn (s := { s with stage := .quit }) _ _ _ _ _

theorem sendQuit_line (h : s.HoldsLine line rest) (hlast : ascii "250 " <+: line → strstr rest crlf = none) :
    Loops.SameEnd (Alike line rest) (s.sendQuit rv) ((s.alone line).sendQuit rv) :=
  onLine_line h (by decide) (fun _ _ => sendFormatted_withIn (s := { s with stage := .close }) _ _ _ _ _)
    fun hpre _ _ _ => hlast hpre

/-- The session ends with this line, whatever comes behind it. -/
theorem sendClose_line (h : s.HoldsLine line rest) :
    Loops.SameEnd (Alike line rest) s.sendClose (s.alone line).sendClose := by
  refine onLine_line h (by decide) (fun _ _ => rfl) fun _ x hx hlistens => ?_
  cases hx
  cases hlistens

/-! ### The challenge -/

/-- A stack of zeros. -/
def zeroStack : Stack :=
  { chal := Buf.zero _, left := Buf.zero _, right := Buf.zero _, md5 := fun _ => ⟨Buf.zero _, 0, 0, md5H⟩ }

/-- The challenge in a line, as a string, where the line can be decoded. -/
def challengeOf (line : List UInt8) : Option (List UInt8) :=
  match b64Decode ((line.drop 4).take (line.length - 2 - 4)) (Buf.zero 128) with
  | .ok (len2, chal) => if len2 < 0 then none else some (cstr (chal.toList.take len2.toNat))
  | .error _ => none

/-- What `DEBUG` prints for the challenge in a line ends inside its array. -/
def printEnds (s : Smtp) (stack : Stack) (line : List UInt8) : Bool :=
  match challengeOf line, s.server.pass.str 0 with
  | some challenge, .ok pass => decide (s.DebugEnds stack pass challenge)
  | _, _ => true

/-- With zeros on the stack, every print ends. -/
theorem zeroStack_ends (s : Smtp) {pass challenge : List UInt8} (h : challenge.length < 128) :
    s.DebugEnds zeroStack pass challenge := by
  refine .inr (.inr ?_)
  show 0 ∈ (List.replicate 256 (0 : UInt8)).drop (64 + challenge.length)
  rw [List.drop_replicate, List.mem_replicate]
  exact ⟨by omega, rfl⟩

/-- The answer depends on the stack in what `DEBUG` prints only. -/
theorem respond_same {stack' : Stack} {chal chal' : Buf 128} (hchal : chal.str 0 = chal'.str 0)
    (hends : ∀ {pass challenge}, s.server.pass.str 0 = .ok pass → chal.str 0 = .ok challenge →
      s.DebugEnds stack pass challenge ∧ s.DebugEnds stack' pass challenge) :
    s.respond stack chal = s.respond stack' chal' := by
  have hfault : ∀ {stack₁ : Stack} {chal₁ : Buf 128} {f : Fault},
      s.respond stack₁ chal₁ = .error f → s.respond stack₁ chal₁ = .error .outOfBounds := by
    intro stack₁ chal₁ f hf
    cases f
    exact hf
  cases h : s.respond stack chal with
  | ok answer =>
    obtain ⟨user, pass, challenge, huser, hpass, hchallenge⟩ := respond_strings h
    obtain ⟨hend, hend'⟩ := hends hpass hchallenge
    rw [← h, respond_spec s stack huser hpass hchallenge, if_pos hend,
      respond_spec s stack' huser hpass (hchal ▸ hchallenge), if_pos hend']
  | error f =>
    cases f
    cases h' : s.respond stack' chal' with
    | ok answer =>
      obtain ⟨user, pass, challenge, huser, hpass, hchallenge⟩ := respond_strings h'
      obtain ⟨hend, -⟩ := hends hpass (hchal.trans hchallenge)
      rw [respond_spec s stack huser hpass (hchal.trans hchallenge), if_pos hend] at h
      cases h
    | error f =>
      cases f
      rfl

/-- The answer to the challenge, with the challenge out of `inbuf`. -/
theorem answer_withIn (answer : Option (Buf 1024 × ℕ)) (rv : ℤ) (inbuf : Buf 2048) (inbufused : ℕ) :
    (s.withIn inbuf inbufused).sendAnswer rv answer = (s.sendAnswer rv answer).map (·.withIn inbuf inbufused) := by
  rcases answer with _ | ⟨outbuf, len⟩
  · rfl
  · refine bind_withIn fun data => ?_
    have hsend := espconnSend_withIn (s := { s with outbuf }) data rv inbuf inbufused
    have hterm := terminate_withIn (s := { s with outbuf }.espconnSend data rv) (len - 2) rv inbuf inbufused
    rw [← hsend] at hterm
    exact hterm

/-- What the decoder leaves in an array, as the string that is answered. -/
theorem put_str {chal chal' : Buf 128} {len : ℕ} (h : chal.toList.take len = chal'.toList.take len) :
    Loops.SameEnd (fun c c' : Buf 128 => c.str 0 = c'.str 0 ∧ c'.str 0 = .ok (cstr (chal'.toList.take len)))
      (chal.put len 0) (chal'.put len 0) := by
  by_cases hlen : len < 128
  · have hstr : ∀ c : Buf 128, (c.set len 0).str 0 = .ok (cstr (c.toList.take len)) := by
      intro c
      have hset := c.toList_set hlen 0
      have hmem : 0 ∈ (c.set len 0).toList := by
        rw [hset]
        exact List.mem_append_right _ List.mem_cons_self
      rw [Buf.str_of_mem hmem, hset]
      by_cases h0 : 0 ∈ c.toList.take len
      · rw [cstr_append_of_mem h0]
      · rw [cstr_append_zero h0, cstr_eq_self h0]
    rw [Buf.put_ok _ hlen, Buf.put_ok _ hlen]
    exact ⟨by rw [hstr, hstr, h], hstr chal'⟩
  · rw [Buf.put, Buf.put, if_neg hlen, if_neg hlen]
    trivial

theorem sendChallenge_line (h : s.HoldsLine line rest) (hlast : ascii "334 " <+: line → strstr rest crlf = none)
    (hends : ascii "334 " <+: line → s.printEnds stack line = true) :
    Loops.SameEnd (Alike line rest) (s.sendChallenge stack rv) ((s.alone line).sendChallenge zeroStack rv) := by
  have hlen : line.length - 2 + 2 = line.length := Nat.sub_add_cancel h.two_le
  have hcode : Code "334 " 4 := by decide
  unfold sendChallenge
  rw [h.lineEnd, h.alone.lineEnd, Loops.ok_bind, Loops.ok_bind]
  dsimp only
  rw [h.startsWith hcode, h.alone.startsWith hcode, hlen, h.load, h.alone.load]
  by_cases hpre : ascii "334 " <+: line
  swap
  · rw [if_neg (by simpa using hpre), if_neg (by simpa using hpre)]
    exact h.fail
  rw [if_pos (decide_eq_true hpre), if_pos (decide_eq_true hpre), Loops.ok_bind, Loops.ok_bind]
  have hdecode := b64Decode_sameEnd ((line.drop 4).take (line.length - 2 - 4)) stack.chal zeroStack.chal
  refine hdecode.bind_of_ok fun x y _ hy hxy => ?_
  obtain ⟨len2, chal⟩ := x
  obtain ⟨len2', chal'⟩ := y
  obtain ⟨rfl, hfront⟩ := hxy
  dsimp only at hfront ⊢
  split_ifs with hbad
  · exact h.fail
  refine (put_str (hfront (by omega))).bind fun c c' hc => ?_
  obtain ⟨hcc', hc'⟩ := hc
  -- the challenge, as both decode it
  have hchallenge : challengeOf line = some (cstr (chal'.toList.take len2.toNat)) := by
    unfold challengeOf
    rw [show Buf.zero 128 = zeroStack.chal from rfl, hy]
    exact if_neg hbad
  obtain ⟨inbuf, hconsume, hterm, hunread⟩ := h.consume
  obtain ⟨inbuf', hconsume', -, -⟩ := h.alone.consume
  rw [hconsume, hconsume', Loops.ok_bind, Loops.ok_bind]
  have hrespond : ({ s with stage := .auth } : Smtp).respond stack c =
      ({ s with stage := .auth } : Smtp).respond zeroStack c' := by
    refine respond_same hcc' fun {pass challenge} hpass hstr => ?_
    rw [hcc', hc', Except.ok.injEq] at hstr
    subst hstr
    have hprint := hends hpre
    unfold printEnds at hprint
    rw [hchallenge, show s.server.pass.str 0 = .ok pass from hpass] at hprint
    exact ⟨of_decide_eq_true hprint, zeroStack_ends _ (Buf.length_lt_of_str hc')⟩
  show Loops.SameEnd (Alike line rest)
    (({ s with stage := .auth } : Smtp).respond stack c >>=
      (({ s with stage := .auth } : Smtp).withIn inbuf rest.length).sendAnswer rv)
    (({ s with stage := .auth } : Smtp).respond zeroStack c' >>=
      (({ s with stage := .auth } : Smtp).withIn inbuf' 0).sendAnswer rv)
  rw [hrespond]
  cases ({ s with stage := .auth } : Smtp).respond zeroStack c' with
  | error f => trivial
  | ok answer =>
    rw [Loops.ok_bind, Loops.ok_bind, answer_withIn, answer_withIn]
    cases ({ s with stage := .auth } : Smtp).sendAnswer rv answer with
    | error f => trivial
    | ok x => exact alike_withIn hterm hunread fun _ => hlast hpre

/-! ### All stages but the first -/

/-- The code of the line with which a stage ends. -/
def code (s : Smtp) : String :=
  match s.stage with
  | .greet | .from' | .to' | .quit => "250 "
  | .challenge => "334 "
  | .auth => "235 "
  | .data => "354 "
  | .close => "221 "
  | .failed | .ready | .resolve | .connect => ""

/-- Where a stage waits for one line, it does with the line what it does with the line alone. -/
theorem handle_line (h : s.HoldsLine line rest) (hlistens : s.listens = true) (hgreet : s.stage ≠ .greet)
    (hlast : s.stage ≠ .close → ascii s.code <+: line → strstr rest crlf = none)
    (hends : s.stage = .challenge → ascii s.code <+: line → s.printEnds stack line = true) :
    Loops.SameEnd (Alike line rest) (s.handle stack rv) ((s.alone line).handle zeroStack rv) := by
  unfold listens at hlistens
  unfold code at hlast hends
  have hstage' : (s.alone line).stage = s.stage := rfl
  unfold handle
  rw [hstage']
  cases hstage : s.stage with
  | greet => exact absurd hstage hgreet
  | challenge =>
    rw [hstage] at hlast hends
    exact sendChallenge_line h (hlast (by decide)) (hends rfl)
  | auth =>
    rw [hstage] at hlast
    exact sendAuth_line h (hlast (by decide))
  | from' =>
    rw [hstage] at hlast
    exact sendFrom_line h (hlast (by decide))
  | to' =>
    rw [hstage] at hlast
    exact sendTo_line h (hlast (by decide))
  | data =>
    rw [hstage] at hlast
    exact sendData_line h (hlast (by decide))
  | quit =>
    rw [hstage] at hlast
    exact sendQuit_line h (hlast (by decide))
  | close => exact sendClose_line h
  | failed => simp [hstage] at hlistens
  | ready => simp [hstage] at hlistens
  | resolve => simp [hstage] at hlistens
  | connect => simp [hstage] at hlistens

/-! ## The reader -/

/-- What a reader of the server's lines knows: the client without its buffer, the states it has gone through,
and the lines that have been taken. -/
structure LineClient where
  client : Smtp
  visited : List Smtp
  lines : List (List UInt8)

/-- The states gone through, when the client is in a state. -/
def note (visited : List Smtp) (s : Smtp) : List Smtp :=
  if visited.getLast? = some s then visited else visited ++ [s]

/-- The client acts on a line as on one that has come alone; `espconn_send` answers the `n`th command with
`rvs n`. -/
def lineReader (rvs : ℕ → ℤ) : LineReader LineClient Fault where
  listens r := r.client.listens
  act r line := do
    let t ← (r.client.alone line).handle zeroStack (rvs r.client.sent.length)
    return ({ client := t.bare, visited := note r.visited t.bare,
              lines := if t.taken then r.lines ++ [line] else r.lines }, t.taken)
  stops := by
    intro r line r' hact
    obtain ⟨t, -, ht⟩ := Loops.bind_eq_ok hact
    obtain ⟨rfl, htaken⟩ := Prod.mk.inj (Except.ok.inj ht)
    exact (Bool.or_eq_false_iff.mp htaken).2

end Smtp
end Esp8266Toolbox
