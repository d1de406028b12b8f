import Esp8266Toolbox.Http.Process

/-!
# The assignments of the header loop

Which members a header line assigns does not depend on the client record, so the header loop is
a list of assignments (`headerTrace`) and the record that it leaves behind is the old one with
these assignments made.
-/

namespace Esp8266Toolbox

open Loops

/-- What a header line assigns. -/
inductive LineAssign where
  | none
  | host (text : List UInt8)
  | postlen (n : ℕ)
deriving DecidableEq, Repr

/-- The assignment. The terminator of a host of 64 bytes lands in `buf`. -/
def LineAssign.apply (client : HttpClient) : LineAssign → HttpClient
  | .none => client
  | .host text =>
    if text.length < 64 then { client with host := (client.host.memcpy 0 text).set text.length 0 }
    else { client with host := client.host.memcpy 0 text, buf := client.buf.set 0 0 }
  | .postlen n => { client with postlen := n }

/-- The assignment of a line with a host, from behind its first token on. -/
def hostAssign (rd : Mem) (nexttoken nextline : ℕ) : Except Fault (LineAssign × Headers) := do
  match ← parsetoken rd nexttoken (ptrDiff nextline nexttoken) with
  | none => return (.none, .bad "incomplete host header line")
  | some (token, nexttoken) =>
    if nexttoken - token > 64 then return (.none, .bad "client host overflow")
    else
      let host ← readBytes rd token (nexttoken - token)
      return (.host host, .complete)

/-- The assignment of a line with a length. -/
def lengthAssign (rd : Mem) (nexttoken nextline : ℕ) : Except Fault (LineAssign × Headers) := do
  match ← parsetoken rd nexttoken (ptrDiff nextline nexttoken) with
  | none => return (.none, .bad "incomplete content-length header line")
  | some (token, _) =>
    let v ← atoi rd token
    return (.postlen (v % 2 ^ 32).toNat, .complete)

/-- The assignment that the header line `[buf, nextline)` makes. -/
def lineAssign (rd : Mem) (buf nextline : ℕ) : Except Fault (LineAssign × Headers) := do
  match ← parsetoken rd buf (ptrDiff nextline buf) with
  | none => return (.none, .bad "bad header line")
  | some (token, nexttoken) =>
    let word ← readBytes rd token (nexttoken - token)
    if tokenIs word "Host:" then hostAssign rd nexttoken nextline
    else if tokenIs word "Content-Length:" then lengthAssign rd nexttoken nextline
    else return (.none, .complete)

/-- The assignments of the header lines from `buf` on, in order, one for each line that was looked at;
how the loop ends, and where. -/
def headerTrace (rd : Mem) : ℕ → ℕ → ℕ → Except Fault (List LineAssign × Headers × ℕ)
  | 0, _, _ => .error .outOfBounds
  | fuel + 1, buf, len => do
    if ← blankLine rd buf len then return ([], .complete, buf + 2)
    else
      match ← parseline rd buf len with
      | none => return ([], .incomplete, buf)
      | some nextline =>
        let (a, r) ← lineAssign rd buf nextline
        if r = .complete then
          let (as, r, p) ← headerTrace rd fuel nextline (len - (nextline - nextline))
          return (a :: as, r, p)
        else return ([a], r, buf)

/-- The request line and the assignments of the header lines. -/
def httpTrace (outside : Mem) (client : HttpClient) :
    Except Fault (HttpClient × List LineAssign × Headers × ℕ) := do
  let rd := client.buf.mem outside
  match ← parseline rd 0 client.bufused with
  | none => return (client, [], .incomplete, 0)
  | some nextline =>
    let (client', r) ← requestLine rd client 0 nextline
    if r = .complete then
      let (as, r, p) ← headerTrace rd ramSize nextline client'.bufused
      return (client', as, r, p)
    else return (client', [], r, 0)

/-! ## The record after the assignments -/

theorem headerLine_eq (rd : Mem) (client : HttpClient) (buf nextline : ℕ) :
    headerLine rd client buf nextline =
      (lineAssign rd buf nextline).map fun (a, r) => (a.apply client, r) := by
  unfold headerLine lineAssign
  rcases parsetoken rd buf (ptrDiff nextline buf) with e | _ | ⟨token, nexttoken⟩
  · rfl
  · rfl
  simp only [ok_bind]
  rcases readBytes rd token (nexttoken - token) with e | word
  · rfl
  simp only [ok_bind]
  -- both sides read the same words, so they part only where a member is stored
  by_cases hhost : tokenIs word "Host:" = true
  · simp only [hhost, if_true, hostAssign]
    rcases parsetoken rd nexttoken (ptrDiff nextline nexttoken) with e | _ | ⟨token, nexttoken⟩
    · rfl
    · rfl
    simp only [ok_bind]
    split
    · rfl
    · rcases readBytes rd token (nexttoken - token) with e | host
      · rfl
      · simp only [ok_bind]
        split <;> simp_all [Except.map, LineAssign.apply, pure, Except.pure]
  · simp only [hhost, Bool.false_eq_true, if_false, lengthAssign]
    split
    · rcases parsetoken rd nexttoken (ptrDiff nextline nexttoken) with e | _ | ⟨token, nexttoken⟩
      · rfl
      · rfl
      simp only [ok_bind]
      rcases atoi rd token with e | v
      · rfl
      · rfl
    · rfl

/-- **The header loop makes the assignments of its trace.** -/
theorem headerLoop_eq (rd : Mem) (fuel : ℕ) (client : HttpClient) (buf len : ℕ) :
    headerLoop rd fuel client buf len =
      (headerTrace rd fuel buf len).map fun (as, r, p) => (as.foldl LineAssign.apply client, r, p) := by
  induction fuel generalizing client buf with
  | zero => rfl
  | succ fuel ih =>
    rw [headerLoop, headerTrace]
    rcases blankLine rd buf len with e | _ | _
    · rfl
    swap
    · rfl
    simp only [ok_bind, Bool.false_eq_true, if_false]
    rcases parseline rd buf len with e | _ | nextline
    · rfl
    · rfl
    simp only [ok_bind, headerLine_eq]
    rcases lineAssign rd buf nextline with e | ⟨a, r⟩
    · rfl
    have hmap : (Except.ok (a, r) : Except Fault (LineAssign × Headers)).map (fun (a, r) => (a.apply client, r)) =
        .ok (a.apply client, r) := rfl
    rw [hmap]
    simp only [ok_bind]
    by_cases hr : r = .complete
    · simp only [if_pos hr]
      rw [Nat.sub_self, Nat.sub_zero] at *
      rw [ih]
      rcases headerTrace rd fuel nextline len with e | ⟨as, r', p⟩
      · rfl
      · rfl
    · simp only [if_neg hr]
      rfl

/-- The header half of `http_process` is its trace, with the record that the assignments leave and the
bytes of the header section taken out of the buffer. -/
theorem httpHeaders_eq (outside : Mem) (client : HttpClient) :
    httpHeaders outside client = do
      let (client', as, r, p) ← httpTrace outside client
      let client' := as.foldl LineAssign.apply client'
      if r = .complete then
        if client'.bufused < p then .error .outOfBounds
        else
          let left := (client'.buf.toList.take client'.bufused).drop p
          return ({ client' with buf := client'.buf.memcpy 0 left, bufused := client'.bufused - p,
                                 state := client'.method.next }, .complete)
      else return (client', r) := by
  simp only [httpHeaders, httpTrace]
  rcases parseline (client.buf.mem outside) 0 client.bufused with e | _ | nextline
  · rfl
  · rfl
  simp only [ok_bind]
  rcases requestLine (client.buf.mem outside) client 0 nextline with e | ⟨client', r⟩
  · rfl
  simp only [ok_bind]
  by_cases hr : r = .complete
  · simp only [if_pos hr, headerLoop_eq]
    rcases headerTrace (client.buf.mem outside) ramSize nextline client'.bufused with e | ⟨as, r', p⟩
    · rfl
    · rfl
  · simp only [if_neg hr]
    have hpure : (pure (client', [], r, 0) : Except Fault (HttpClient × List LineAssign × Headers × ℕ)) =
        .ok (client', [], r, 0) := rfl
    rw [hpure]
    simp only [ok_bind, if_neg hr, List.foldl_nil]

end Esp8266Toolbox
