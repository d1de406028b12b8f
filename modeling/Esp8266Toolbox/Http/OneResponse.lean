import Esp8266Toolbox.Http.OtaConfinement
import Esp8266Toolbox.Http.Sessions

/-!
# One response for a connection

The kill task that a finished handler posts runs later, and data that arrives in between runs
the handler again. Without such data a connection is answered at most once.
-/

namespace Esp8266Toolbox
namespace Tracked

variable {env : OtaEnv} {t : Tracked} {e : HttpEvent}

/-- At most one page has been sent on each open connection before its kill task. -/
def AnsweredOnce (t : Tracked) : Prop := ∀ conn x, t.ledger conn = some x → x.responses ≤ 1

/-- No data that fits into the buffer arrives on a connection between its first page and its kill
task. -/
def NoDataAfterPage (t : Tracked) : HttpEvent → Prop
  | .recv conn data _ _ _ => ∀ x i, t.ledger conn = some x → x.killed = false → 0 < x.responses →
      t.server.reverse conn = some i → 2048 < (t.server.clients i).bufused + data.length
  | _ => True

theorem AnsweredOnce.mono (h : t.AnsweredOnce) {s' : Server} {l' : Ledger}
    (hle : ∀ conn x, l' conn = some x → ∃ y, t.ledger conn = some y ∧ x.responses ≤ y.responses) :
    AnsweredOnce ⟨s', l'⟩ := by
  intro conn x hx
  rcases hle conn x hx with ⟨y, hy, hxy⟩
  exact hxy.trans (h conn y hy)

/-- The pages a recv callback sends go to the connection the data came from. -/
theorem recvCb_pages (env : OtaEnv) (hlinked : t.Linked) {conn : ℕ} (hopen : t.ledger conn ≠ none) (data : List UInt8)
    (outside : Mem) (replies : List FlashReply) (other : OtherReply) :
    let s' := t.server.recvCb env conn data outside replies other
    (∀ conn', s'.pagesTo conn' = t.server.pagesTo conn') ∨
      ∃ i, t.server.reverse conn = some i ∧ (t.server.clients i).bufused + data.length ≤ 2048 ∧
        ∀ conn', s'.pagesTo conn' = t.server.pagesTo conn' + if conn' = conn then 1 else 0 := by
  intro s'
  rcases (Server.recvCb_owners env t.server conn data outside replies other).2 with
    hsame | ⟨i, hrev, hroom, hsame | ⟨page, hpage⟩⟩
  · left
    intro conn'
    rw [Server.pagesTo, hsame, Server.pagesTo]
  · left
    intro conn'
    rw [Server.pagesTo, hsame, Server.pagesTo]
  right
  refine ⟨i, hrev, hroom, fun conn' => ?_⟩
  -- a slot that answers is linked to the connection of the segment
  have hconn : (t.server.clients i).conn = some conn := by
    rcases Option.ne_none_iff_exists'.mp hopen with ⟨x, hx⟩
    cases hg : x.given with
    | true =>
      rcases hlinked.given conn x hx hg with ⟨j, hj, -, hconn⟩
      rw [hrev, Option.some.injEq] at hj
      rw [hj]
      exact hconn
    | false =>
      rw [hlinked.refused conn x hx hg] at hrev
      cases hrev
  rw [Server.pagesTo, hpage, List.countP_cons, hconn, Server.pagesTo]
  by_cases hc : conn' = conn
  · simp [hc]
  · simp [hc, Ne.symm hc]

theorem answered_le (n : ℕ) (x : Session) (h : x.killed = false → 0 < n → x.responses = 0 ∧ n ≤ 1)
    (hx : x.responses ≤ 1) : (x.answered n).responses ≤ 1 := by
  unfold Session.answered
  cases hk : x.killed with
  | true => exact hx
  | false =>
    rw [if_neg Bool.false_ne_true]
    dsimp only
    rcases Nat.eq_zero_or_pos n with rfl | hn
    · exact hx
    · have hone := h hk hn
      omega

theorem step_answeredOnce (hallowed : t.Allowed e) (hdata : t.NoDataAfterPage e) (hlinked : t.Linked)
    (h : t.AnsweredOnce) : (step env t e).AnsweredOnce := by
  unfold step
  by_cases hstop : t.server.crashed || t.server.rebooting
  · rw [if_pos hstop]
    exact h
  rw [if_neg hstop]
  have hserver : ∀ e', t.server.step env e' = _ := fun e' => if_neg hstop
  rw [hserver e]
  cases e with
  | connect conn registered =>
    -- a new session has no page yet
    intro conn' x hx
    dsimp only [Ledger.next] at hx
    by_cases hc : conn' = conn
    · subst hc
      rw [Function.update_self, Option.some.injEq] at hx
      rw [← hx]
      exact Nat.zero_le 1
    · rw [Function.update_of_ne hc] at hx
      exact h conn' x hx
  | recv conn data outside replies other =>
    intro conn' x hx
    -- pages come from here only, for the session the segment belongs to
    rcases Option.map_eq_some_iff.mp hx with ⟨y, hy, rfl⟩
    apply answered_le _ _ _ (h conn' y hy)
    intro hkilled hpos
    rcases recvCb_pages env hlinked hallowed data outside replies other with
      hsame | ⟨i, hrev, hroom, hpages⟩
    · have hzero := hsame conn'
      dsimp only at hzero hpos
      omega
    · have hcount := hpages conn'
      by_cases hc : conn' = conn
      · subst hc
        rw [if_pos rfl] at hcount
        refine ⟨?_, ?_⟩
        · by_contra hne
          have hfull := hdata y i hy hkilled (Nat.pos_of_ne_zero hne) hrev
          omega
        · dsimp only at hcount ⊢
          omega
      · rw [if_neg hc] at hcount
        dsimp only at hcount hpos
        omega
  | disconnect conn => exact h.mono fun conn' x hx => ⟨x, (update_none hx).2, le_rfl⟩
  | error conn err => exact h.mono fun conn' x hx => ⟨x, (update_none hx).2, le_rfl⟩
  | task =>
    apply h.mono
    intro conn' x hx
    rcases task_session hx with ⟨y, hy, -, hle⟩
    exact ⟨y, hy, hle⟩
  | reboot => exact h.mono fun conn' x hx => ⟨x, hx, le_rfl⟩
  | paramStore left => exact h.mono fun conn' x hx => ⟨x, hx, le_rfl⟩

/-- In a run the SDK can make, a connection is answered at most once if no data that fits into its
buffer arrives between its first page and its kill task. -/
theorem one_response (env : OtaEnv) (content : ℕ → UInt8) (es : List HttpEvent)
    (hes : Runs.Along (step env) Allowed (init content) es)
    (hdata : Runs.Along (step env) NoDataAfterPage (init content) es) :
    ∀ pre, pre <+: es → (run env content pre).AnsweredOnce := by
  intro pre hpre
  have halong := Runs.along_take hpre (Runs.along_and hes hdata)
  have hinit : (init content).Linked ∧ (init content).AnsweredOnce := by
    refine ⟨init_linked content, ?_⟩
    intro conn x hx
    cases hx
  have hstep : ∀ t e, t.Allowed e ∧ t.NoDataAfterPage e → t.Linked ∧ t.AnsweredOnce →
      (step env t e).Linked ∧ (step env t e).AnsweredOnce := by
    rintro t e ⟨hallowed, hdata⟩ ⟨hlinked, hanswered⟩
    exact ⟨step_linked hallowed hlinked, step_answeredOnce hallowed hdata hlinked hanswered⟩
  exact (Runs.foldl_inv_along hstep hinit halong).2

/-- A request to raise the log level of the server. -/
def raiseRequest : HttpEvent :=
  .recv 7 (ascii "GET /logs/raise?http HTTP/1.1\r\n\r\n") (fun _ => .error .outOfBounds) []
    ⟨some "HTTP/1.1 200 OK\r\n", true, ascii "http"⟩

/-- One more byte on the same connection. -/
def raiseRest : HttpEvent :=
  .recv 7 [LF] (fun _ => .error .outOfBounds) [] ⟨some "HTTP/1.1 200 OK\r\n", true, ascii "http"⟩

theorem one_response_raise :
    (run smallChip (fun _ => 0) [.connect 7 true, raiseRequest, .task, raiseRest]).AnsweredOnce := by
  apply one_response smallChip (fun _ => 0) [.connect 7 true, raiseRequest, .task, raiseRest] _ _ _
    (List.prefix_refl _)
  · decide
  · refine ⟨trivial, ?_, trivial, ?_, trivial⟩
    · intro x i hx _ hpos
      have hfresh : (run smallChip (fun _ => 0) [.connect 7 true]).ledger 7 = some ⟨true, false, 0⟩ := by
        decide
      have hx' := hfresh.symm.trans hx
      cases hx'
      cases hpos
    · intro x i hx hkilled
      have hdone : (run smallChip (fun _ => 0) [.connect 7 true, raiseRequest, .task]).ledger 7
          = some ⟨true, true, 1⟩ := by
        decide
      have hx' := hdone.symm.trans hx
      cases hx'
      cases hkilled

/-- Between the page and the kill task the byte runs the handler again. -/
theorem second_response :
    Runs.Along (step smallChip) Allowed (init fun _ => 0) [.connect 7 true, raiseRequest, raiseRest] ∧
      ∃ x, (run smallChip (fun _ => 0) [.connect 7 true, raiseRequest, raiseRest]).ledger 7 = some x ∧
        x.killed = false ∧ x.responses = 2 := by
  refine ⟨by decide, ⟨true, false, 2⟩, ?_, rfl, rfl⟩
  decide

end Tracked
end Esp8266Toolbox
