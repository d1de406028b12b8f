import Esp8266Toolbox.Smtp.Reader

/-!
# One segment of a response

`inbuf` is searched as a C string, over whatever an earlier response has left in it. Where every
line that is found ends inside the bytes received, and no other complete line waits behind the one
that is acted on, the client does with a segment what the reader of lines does: `handle_read`.
-/

namespace Esp8266Toolbox
namespace Smtp

variable {s s' : Smtp} {stack : Stack} {rvs : ℕ → ℤ} {r : LineClient}

/-! ## The condition on a segment -/

/-- No complete line waits behind the one that ends at `e`. -/
def nothingBehind (s : Smtp) (e : ℕ) : Bool := (strstr (s.unread.drop (e + 2)) crlf).isNone

/-- One line is looked for: if one is found, it ends inside the bytes received; if it is acted on, it is the
last one, unless it ends the session, and what `DEBUG` prints of a challenge ends as well. -/
def lineFresh (s : Smtp) (stack : Stack) : Bool :=
  match s.lineEnd with
  | .ok (some e) =>
    decide (e + 2 ≤ s.inbufused) &&
      (!s.startsWith s.code 4 ||
        (decide (s.stage = .close) || s.nothingBehind e) &&
          (decide (s.stage ≠ .challenge) || s.printEnds stack (s.unread.take (e + 2))))
  | _ => true

/-- The lines of the greeting are looked for, one pass after the other. -/
def greetFresh : ℕ → Smtp → Bool
  | 0, _ => true
  | fuel + 1, s =>
    match s.lineEnd with
    | .ok (some e) =>
      decide (e + 2 ≤ s.inbufused) &&
        if s.startsWith "250 " 4 then s.nothingBehind e
        else if s.startsWith "220" 3 || s.startsWith "250" 3 then
          match s.consume (e + 2) with
          | .ok s' => decide (s'.inbufused = 0) || greetFresh fuel s'
          | .error _ => true
        else true
    | _ => true

/-- The condition, once a segment is in `inbuf`. -/
def handleFresh (s : Smtp) (stack : Stack) : Bool :=
  if s.stage = .greet then s.greetFresh (s.inbufused + 1) else !s.listens || s.lineFresh stack

/-! ## Looking for a line -/

/-- The bytes received, and what the C string goes on with behind them. -/
theorem cstr_inbuf (h0 : 0 ∉ s.unread) :
    cstr s.inbuf.toList = s.unread ++ cstr (s.inbuf.toList.drop s.inbufused) := by
  conv_lhs => rw [← List.take_append_drop s.inbufused s.inbuf.toList]
  exact cstr_append h0 _

/-- No line is found, and none has been received; or one is found, and it has been received if it ends in
the bytes received. -/
theorem lineEnd_cases (h : s.Terminated) (h0 : 0 ∉ s.unread) :
    s.lineEnd = .ok none ∧ strstr s.unread crlf = none ∨
      ∃ e, s.lineEnd = .ok (some e) ∧ (e + 2 ≤ s.inbufused →
        strstr s.unread crlf = some e ∧ s.HoldsLine (s.unread.take (e + 2)) (s.unread.drop (e + 2)) ∧
          (s.unread.take (e + 2)).length = e + 2) := by
  have hline := lineEnd_eq h.zero_mem
  rw [cstr_inbuf h0] at hline
  cases hfound : strstr (s.unread ++ cstr (s.inbuf.toList.drop s.inbufused)) crlf with
  | none =>
    rw [hfound] at hline
    exact .inl ⟨hline, strstr_none_of_append hfound⟩
  | some e =>
    rw [hfound] at hline
    refine .inr ⟨e, hline, fun he => ?_⟩
    have hlen := length_unread h
    have hstr := strstr_of_append hfound (by rw [hlen]; exact he)
    have htake : (s.unread.take (e + 2)).length = e + 2 := by
      rw [List.length_take, hlen]
      omega
    have hsplit := List.take_append_drop (e + 2) s.unread
    refine ⟨hstr, ⟨h, hsplit.symm, by rwa [hsplit], ?_⟩, htake⟩
    rw [htake, Nat.add_sub_cancel]
    have hwhole := hstr
    rw [← hsplit] at hwhole
    exact strstr_of_append hwhole (by rw [htake]; exact le_rfl)

/-- Without a complete line the client waits. -/
theorem handle_waits (h : s.lineEnd = .ok none) (rv : ℤ) : s.handle stack rv = .ok s := by
  have honLine : ∀ code act, s.onLine code act = .ok s := by
    intro code act
    rw [onLine, h]
    rfl
  unfold handle
  cases s.stage with
  | greet =>
    show greetLoop rv (s.inbufused + 1) s = .ok s
    rw [greetLoop, h]
    rfl
  | challenge =>
    show s.sendChallenge stack rv = .ok s
    rw [sendChallenge, h]
    rfl
  | auth => exact honLine _ _
  | from' => exact honLine _ _
  | to' => exact honLine _ _
  | data => exact honLine _ _
  | quit => exact honLine _ _
  | close => exact honLine _ _
  | failed => rfl
  | ready => rfl
  | resolve => rfl
  | connect => rfl

/-- A client that does not listen does nothing. -/
theorem handle_deaf (h : s.listens = false) (rv : ℤ) : s.handle stack rv = .ok s := by
  unfold handle
  cases hstage : s.stage
  case failed | ready | resolve | connect => rfl
  all_goals simp [listens, hstage] at h

/-! ## One segment -/

/-- What the client has become, and what the reader has. -/
structure ReadAs (visited : List Smtp) (s : Smtp) (x : LineClient × List UInt8) : Prop where
  client : x.1.client = s.bare
  visited : x.1.visited = note visited s.bare
  unread : x.2 = s.unread
  terminated : s.Terminated

/-- A reader that stands where the client stands. -/
structure FollowedBy (s : Smtp) (r : LineClient) : Prop where
  client : r.client = s.bare
  last : r.visited.getLast? = some s.bare

theorem note_last {visited : List Smtp} (h : visited.getLast? = some s) : note visited s = visited := if_pos h

/-- The reader sees nothing of `inbuf`. -/
theorem FollowedBy.withIn (hr : s.FollowedBy r) (inbuf : Buf 2048) (inbufused : ℕ) :
    (s.withIn inbuf inbufused).FollowedBy r := ⟨hr.client, hr.last⟩

/-- Nothing happens. -/
theorem FollowedBy.readAs (hr : s.FollowedBy r) (h : s.Terminated) : ReadAs r.visited s (r, s.unread) :=
  ⟨hr.client, (note_last hr.last).symm, rfl, h⟩

/-- What the reader becomes when it has acted on a line. -/
def LineClient.acted (r : LineClient) (line : List UInt8) (t : Smtp) : LineClient :=
  { client := t.bare, visited := note r.visited t.bare, lines := if t.taken then r.lines ++ [line] else r.lines }

/-- A line with which the client goes on as it was. -/
theorem FollowedBy.acted (hr : s.FollowedBy r) {t : Smtp} (ht : t.bare = s.bare) (line : List UInt8) :
    s.FollowedBy (r.acted line t) ∧ (r.acted line t).visited = r.visited := by
  have hvisited : (r.acted line t).visited = r.visited := by
    show note r.visited t.bare = r.visited
    rw [ht]
    exact note_last hr.last
  exact ⟨⟨ht, hvisited ▸ hr.last⟩, hvisited⟩

/-- The reader takes the next line. -/
theorem read_next {e : ℕ} (hr : s.FollowedBy r) (hlistens : s.listens = true) (hstr : strstr s.unread crlf = some e) :
    (lineReader rvs).read r s.unread = do
      let t ← (s.alone (s.unread.take (e + 2))).handle zeroStack (rvs s.sent.length)
      if t.taken then (lineReader rvs).read (r.acted (s.unread.take (e + 2)) t) (s.unread.drop (e + 2))
      else return (r.acted (s.unread.take (e + 2)) t, s.unread) := by
  have halone : r.client.alone (s.unread.take (e + 2)) = s.alone (s.unread.take (e + 2)) := by
    rw [hr.client]
    rfl
  have hsent : r.client.sent.length = s.sent.length := by
    rw [hr.client]
    rfl
  have hlistens' : (lineReader rvs).listens r = true := by
    show r.client.listens = true
    rw [hr.client]
    exact hlistens
  rw [LineReader.read_some hlistens' hstr, ← halone, ← hsent]
  show ((r.client.alone (s.unread.take (e + 2))).handle zeroStack (rvs r.client.sent.length) >>= _) >>= _ = _
  cases (r.client.alone (s.unread.take (e + 2))).handle zeroStack (rvs r.client.sent.length) with
  | error f => rfl
  | ok t => rfl

/-- The reader acts on a line as the client does, and has nothing more to read then. -/
theorem read_line {e : ℕ} (hr : s.FollowedBy r) (hlistens : s.listens = true) (hstr : strstr s.unread crlf = some e)
    {run : Except Fault Smtp} (hact : Loops.SameEnd (Alike (s.unread.take (e + 2)) (s.unread.drop (e + 2))) run
      ((s.alone (s.unread.take (e + 2))).handle zeroStack (rvs s.sent.length))) :
    Loops.SameEnd (ReadAs r.visited) run ((lineReader rvs).read r s.unread) := by
  rw [read_next hr hlistens hstr]
  cases ht : (s.alone (s.unread.take (e + 2))).handle zeroStack (rvs s.sent.length) with
  | error f =>
    obtain ⟨f', hf'⟩ := hact.of_error ht
    rw [hf']
    trivial
  | ok t =>
    obtain ⟨s', hs', halike⟩ := hact.of_ok ht
    have hread : ReadAs r.visited s' (r.acted (s.unread.take (e + 2)) t, s'.unread) :=
      ⟨halike.bare.symm, by rw [halike.bare]; rfl, rfl, halike.terminated⟩
    rw [hs', Loops.ok_bind]
    cases htaken : t.taken with
    | false =>
      have hunread := halike.unread
      rw [htaken, if_neg (by decide), List.take_append_drop] at hunread
      rw [hunread] at hread
      exact hread
    | true =>
      have hunread := halike.unread
      rw [htaken, if_pos rfl] at hunread
      rw [hunread] at hread
      -- the client listens no more, or there is no other line
      have hend : (lineReader rvs).read (r.acted (s.unread.take (e + 2)) t) (s.unread.drop (e + 2)) =
          .ok (r.acted (s.unread.take (e + 2)) t, s.unread.drop (e + 2)) := by
        cases hgoes : t.listens with
        | false => exact LineReader.read_deaf hgoes _
        | true => exact LineReader.read_none (halike.last hgoes) _
      rw [if_pos rfl, hend]
      exact hread

/-- One line, in a stage that waits for one. -/
theorem lineFresh_read (h : s.Terminated) (h0 : 0 ∉ s.unread) (hr : s.FollowedBy r) (hlistens : s.listens = true)
    (hgreet : s.stage ≠ .greet) (hfresh : s.lineFresh stack = true) :
    Loops.SameEnd (ReadAs r.visited) (s.handle stack (rvs s.sent.length)) ((lineReader rvs).read r s.unread) := by
  rcases lineEnd_cases h h0 with ⟨hline, hstr⟩ | ⟨e, hline, hfound⟩
  · rw [handle_waits hline, LineReader.read_none hstr]
    exact hr.readAs h
  · unfold lineFresh at hfresh
    rw [hline] at hfresh
    simp only [Bool.and_eq_true, Bool.or_eq_true, decide_eq_true_eq, Bool.not_eq_true'] at hfresh
    obtain ⟨hin, hrefused⟩ := hfresh
    obtain ⟨hstr, hholds, -⟩ := hfound hin
    have haccepted : ascii s.code <+: s.unread.take (e + 2) →
        (s.stage = .close ∨ s.nothingBehind e = true) ∧
          (s.stage ≠ .challenge ∨ s.printEnds stack (s.unread.take (e + 2)) = true) := by
      intro hpre
      have hcode : Code s.code 4 := by
        unfold code
        cases hstage : s.stage
        case failed | ready | resolve | connect => simp [listens, hstage] at hlistens
        all_goals decide
      rw [hholds.startsWith hcode, decide_eq_false_iff_not] at hrefused
      exact hrefused.resolve_left (not_not_intro hpre)
    refine read_line hr hlistens hstr (handle_line hholds hlistens hgreet ?_ ?_)
    · intro hclose hpre
      exact Option.isNone_iff_eq_none.mp ((haccepted hpre).1.resolve_left hclose)
    · intro hchallenge hpre
      exact (haccepted hpre).2.resolve_left (not_not_intro hchallenge)

/-- One pass of the loop over the greeting. -/
theorem greetLoop_pass {line rest : List UInt8} (h : s.HoldsLine line rest) (rv : ℤ) (fuel : ℕ) :
    ∃ inbuf, (s.withIn inbuf rest.length).Terminated ∧ (s.withIn inbuf rest.length).unread = rest ∧
      s.consume line.length = .ok (s.withIn inbuf rest.length) ∧
      greetLoop rv (fuel + 1) s =
        if ascii "220" <+: line ∨ ascii "250" <+: line then
          if ascii "250 " <+: line then
            .ok (({ s with stage := .challenge } : Smtp).espconnSend ((ascii "AUTH CRAM-MD5\r\n").take 15) rv
              |>.withIn inbuf rest.length)
          else if rest = [] then .ok (s.withIn inbuf rest.length)
          else greetLoop rv fuel (s.withIn inbuf rest.length)
        else .ok (s.fail .null) := by
  obtain ⟨inbuf, hconsume, hterm, hunread⟩ := h.consume
  refine ⟨inbuf, hterm, hunread, hconsume, ?_⟩
  have hlen : line.length - 2 + 2 = line.length := Nat.sub_add_cancel h.two_le
  have h220 : Code "220" 3 := by decide
  have h250 : Code "250" 3 := by decide
  have hlast : Code "250 " 4 := by decide
  rw [greetLoop, h.lineEnd, Loops.ok_bind]
  dsimp only
  rw [h.startsWith h220, h.startsWith h250, h.startsWith hlast, hlen, hconsume]
  simp only [Bool.or_eq_true, decide_eq_true_eq]
  refine if_congr Iff.rfl ?_ rfl
  rw [Loops.ok_bind]
  refine if_congr Iff.rfl ?_ (if_congr List.length_eq_zero_iff rfl rfl)
  exact congrArg Except.ok (espconnSend_withIn (s := { s with stage := .challenge }) _ rv inbuf rest.length)

theorem handle_greet (hstage : s.stage = .greet) (rv : ℤ) :
    s.handle stack rv = greetLoop rv (s.inbufused + 1) s := by
  rw [handle, hstage]
  rfl

/-- A line of the greeting with which the stage ends, or which it refuses. -/
theorem greetLoop_line {line rest : List UInt8} (h : s.HoldsLine line rest) (hstage : s.stage = .greet) (rv : ℤ)
    (fuel : ℕ) (hlast : ascii "250 " <+: line → strstr rest crlf = none)
    (hends : ascii "220" <+: line ∨ ascii "250" <+: line → ascii "250 " <+: line) :
    Loops.SameEnd (Alike line rest) (greetLoop rv (fuel + 1) s) ((s.alone line).handle zeroStack rv) := by
  obtain ⟨inbuf, hterm, hunread, -, hpass⟩ := greetLoop_pass h rv fuel
  obtain ⟨inbuf', -, -, -, hpass'⟩ := greetLoop_pass h.alone rv line.length
  have halone : (s.alone line).handle zeroStack rv = greetLoop rv (line.length + 1) (s.alone line) :=
    handle_greet (s := s.alone line) hstage rv
  rw [halone, hpass, hpass']
  by_cases hgood : ascii "220" <+: line ∨ ascii "250" <+: line
  · have hdone := hends hgood
    have hsend : ({ s.alone line with stage := .challenge } : Smtp).espconnSend
        ((ascii "AUTH CRAM-MD5\r\n").take 15) rv = _ :=
      espconnSend_withIn (s := { s with stage := .challenge }) _ _ _ _
    rw [if_pos hgood, if_pos hdone, if_pos hgood, if_pos hdone, hsend]
    exact alike_withIn hterm hunread fun _ => hlast hdone
  · rw [if_neg hgood, if_neg hgood]
    exact h.fail

/-- A line of the greeting that is followed by another one, when it has come alone. -/
theorem greet_more {line rest : List UInt8} (h : s.HoldsLine line rest) (hstage : s.stage = .greet) (rv : ℤ)
    (hgood : ascii "220" <+: line ∨ ascii "250" <+: line) (hdone : ¬ascii "250 " <+: line) :
    ∃ t : Smtp, (s.alone line).handle zeroStack rv = .ok t ∧ t.bare = s.bare ∧ t.taken = true := by
  obtain ⟨inbuf, -, -, -, hpass⟩ := greetLoop_pass h.alone rv line.length
  have halone : (s.alone line).handle zeroStack rv = greetLoop rv (line.length + 1) (s.alone line) :=
    handle_greet (s := s.alone line) hstage rv
  rw [if_pos hgood, if_neg hdone, if_pos rfl] at hpass
  exact ⟨_, halone.trans hpass, rfl, rfl⟩

/-- The lines of the greeting: induction on the passes of the loop. -/
theorem greetLoop_read {fuel : ℕ} (hfuel : s.inbufused < fuel) (h : s.Terminated) (h0 : 0 ∉ s.unread)
    (hr : s.FollowedBy r) (hstage : s.stage = .greet) (hfresh : greetFresh fuel s = true) :
    Loops.SameEnd (ReadAs r.visited) (greetLoop (rvs s.sent.length) fuel s) ((lineReader rvs).read r s.unread) := by
  induction fuel generalizing s r with
  | zero => omega
  | succ fuel ih =>
    have hlistens : s.listens = true := by rw [listens, hstage]
    rcases lineEnd_cases h h0 with ⟨hline, hstr⟩ | ⟨e, hline, hfound⟩
    · rw [greetLoop, hline, LineReader.read_none hstr]
      exact hr.readAs h
    · unfold greetFresh at hfresh
      rw [hline] at hfresh
      simp only [Bool.and_eq_true, decide_eq_true_eq] at hfresh
      obtain ⟨hin, hfresh⟩ := hfresh
      obtain ⟨hstr, hholds, hlen⟩ := hfound hin
      have h220 : Code "220" 3 := by decide
      have h250 : Code "250" 3 := by decide
      have hlast : Code "250 " 4 := by decide
      obtain ⟨inbuf, hterm, hunread, hconsume, hpass⟩ := greetLoop_pass hholds (rvs s.sent.length) fuel
      rw [hlen] at hconsume
      rw [hconsume, hholds.startsWith h220, hholds.startsWith h250, hholds.startsWith hlast] at hfresh
      by_cases hends : ascii "220" <+: s.unread.take (e + 2) ∨ ascii "250" <+: s.unread.take (e + 2) →
          ascii "250 " <+: s.unread.take (e + 2)
      · refine read_line hr hlistens hstr (greetLoop_line hholds hstage _ fuel (fun hdone => ?_) hends)
        rw [if_pos (decide_eq_true hdone)] at hfresh
        exact Option.isNone_iff_eq_none.mp hfresh
      · -- the rest is read by the next passes, from where the reader stands as before
        obtain ⟨hgood, hdone⟩ := Classical.not_imp.mp hends
        obtain ⟨t, ht, hbare, htaken⟩ := greet_more hholds hstage (rvs s.sent.length) hgood hdone
        obtain ⟨hr', hvisited⟩ := hr.acted hbare (s.unread.take (e + 2))
        rw [read_next hr hlistens hstr, ht, Loops.ok_bind, htaken, if_pos rfl, hpass, if_pos hgood, if_neg hdone]
        by_cases hrest : s.unread.drop (e + 2) = []
        · have hread := (hr'.withIn inbuf _).readAs hterm
          rw [hunread, hvisited] at hread
          rw [if_pos hrest, LineReader.read_none (by rw [hrest]; rfl)]
          exact hread
        · have hused := hholds.used
          have hless : (s.unread.drop (e + 2)).length < fuel := by omega
          have hne : (s.unread.drop (e + 2)).length ≠ 0 := mt List.length_eq_zero_iff.mp hrest
          rw [if_neg (by simpa using hdone), if_pos (by simpa using hgood)] at hfresh
          have hfresh' := ((Bool.or_eq_true _ _).mp hfresh).resolve_left (by rw [decide_eq_true_eq]; exact hne)
          have hrest0 : 0 ∉ (s.withIn inbuf (s.unread.drop (e + 2)).length).unread := by
            rw [hunread]
            exact fun hmem => h0 (List.mem_of_mem_drop hmem)
          have hread := ih hless hterm hrest0 (hr'.withIn inbuf _) hstage hfresh'
          rw [hunread, hvisited] at hread
          rw [if_neg hrest]
          exact hread

/-- What the client makes of a segment, the reader makes of it. -/
theorem handle_read (h : s.Terminated) (h0 : 0 ∉ s.unread) (hr : s.FollowedBy r) (hfresh : s.handleFresh stack = true) :
    Loops.SameEnd (ReadAs r.visited) (s.handle stack (rvs s.sent.length)) ((lineReader rvs).read r s.unread) := by
  unfold handleFresh at hfresh
  by_cases hgreet : s.stage = .greet
  · rw [if_pos hgreet] at hfresh
    rw [handle_greet hgreet]
    exact greetLoop_read (Nat.lt_succ_self _) h h0 hr hgreet hfresh
  · rw [if_neg hgreet] at hfresh
    cases hlistens : s.listens with
    | false =>
      have hdeaf : (lineReader rvs).listens r = false := by
        show r.client.listens = false
        rw [hr.client]
        exact hlistens
      rw [handle_deaf hlistens, LineReader.read_deaf hdeaf]
      exact hr.readAs h
    | true =>
      rw [hlistens] at hfresh
      exact lineFresh_read h h0 hr hlistens hgreet hfresh

end Smtp
end Esp8266Toolbox
