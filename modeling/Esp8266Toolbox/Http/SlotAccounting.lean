import Esp8266Toolbox.Http.OtaConfinement
import Esp8266Toolbox.Http.Sessions

/-!
# Slot accounting

The slots in use and the connections that were given one correspond as long as connections end
with the disconnect callback. The error callback frees no slot.
-/

namespace Esp8266Toolbox
namespace Tracked

variable {env : OtaEnv} {t : Tracked} {e : HttpEvent}

/-- The slots in use and the open connections that were given one correspond, one to one. -/
structure Accounted (t : Tracked) : Prop where
  given : ∀ conn, t.Holds conn → ∃ i, t.server.reverse conn = some i ∧ (t.server.clients i).inuse = true
  used : ∀ i, (t.server.clients i).inuse = true → ∃! conn, t.Holds conn ∧ t.server.reverse conn = some i
  free : (∀ conn, t.ledger conn = none) → ∀ i, (t.server.clients i).inuse = false

/-- A slot in use is the slot of an open connection. -/
def Owned (t : Tracked) : Prop :=
  ∀ i, (t.server.clients i).inuse = true → ∃ conn, t.Holds conn ∧ t.server.reverse conn = some i

/-- No error callback comes for a connection that has a slot. -/
def NoErrorOnSlot (t : Tracked) : HttpEvent → Prop
  | .error conn _ => t.Holds conn → (t.server.crashed || t.server.rebooting) = true
  | _ => True

theorem Linked.accounted (h : t.Linked) (howned : t.Owned) : t.Accounted := by
  constructor
  case given =>
    rintro conn ⟨x, hx, hgiven⟩
    rcases h.given conn x hx hgiven with ⟨i, hrev, hinuse, -⟩
    exact ⟨i, hrev, hinuse⟩
  case used =>
    intro i hi
    rcases howned i hi with ⟨conn, hholds, hrev⟩
    refine ⟨conn, ⟨hholds, hrev⟩, ?_⟩
    rintro conn' ⟨⟨x', hx', hgiven'⟩, hrev'⟩
    rcases hholds with ⟨x, hx, hgiven⟩
    rcases h.given conn x hx hgiven with ⟨j, hj, -, hconn⟩
    rcases h.given conn' x' hx' hgiven' with ⟨j', hj', -, hconn'⟩
    rw [hrev, Option.some.injEq] at hj
    rw [hrev', Option.some.injEq] at hj'
    subst hj hj'
    rw [hconn, Option.some.injEq] at hconn'
    exact hconn'.symm
  case free =>
    intro hnone i
    rcases hi : (t.server.clients i).inuse
    · rfl
    · rcases howned i hi with ⟨conn, ⟨x, hx, -⟩, -⟩
      rw [hnone conn] at hx
      cases hx

theorem Owned.of_owners (h : t.Owned) {s' : Server} {l' : Ledger} (howners : SameOwners t.server s')
    (hholds : ∀ conn, t.Holds conn → Holds ⟨s', l'⟩ conn) : Owned ⟨s', l'⟩ := by
  intro i hi
  dsimp only at hi ⊢
  rw [howners.inuse] at hi
  rcases h i hi with ⟨conn, hconn, hrev⟩
  refine ⟨conn, hholds conn hconn, ?_⟩
  rw [howners.reverse, hrev]

theorem owned_connect (h : t.Owned) {conn : ℕ} (hnew : t.ledger conn = none) (registered : Bool) (s' : Server)
    (hs : s' = t.server.connCb conn registered) :
    Owned ⟨s', t.ledger.next t.server s' (.connect conn registered)⟩ := by
  subst hs
  -- the connections that had a slot are still open
  have hkeep : ∀ conn', t.Holds conn' → conn' ≠ conn ∧
      Holds ⟨t.server.connCb conn registered,
        t.ledger.next t.server (t.server.connCb conn registered) (.connect conn registered)⟩ conn' := by
    rintro conn' ⟨x, hx, hgiven⟩
    have hne : conn' ≠ conn := by
      rintro rfl
      rw [hnew] at hx
      cases hx
    refine ⟨hne, x, ?_, hgiven⟩
    dsimp only [Ledger.next]
    rw [Function.update_of_ne hne, hx]
  intro j hj
  dsimp only at hj ⊢
  rcases connCb_cases t.server conn registered with ⟨hg, i, -, hrev, hclients⟩ | ⟨-, hrev, hclients⟩
  · rw [hclients] at hj
    rw [hrev]
    by_cases hji : j = i
    · subst hji
      refine ⟨conn, ⟨⟨_, false, 0⟩, Function.update_self .., hg⟩, ?_⟩
      rw [Function.update_self]
    · rw [Function.update_of_ne hji] at hj
      rcases h j hj with ⟨conn', hholds, hrev'⟩
      rcases hkeep conn' hholds with ⟨hne, hholds'⟩
      refine ⟨conn', hholds', ?_⟩
      rw [Function.update_of_ne hne, hrev']
  · rw [hclients] at hj
    rw [hrev]
    rcases h j hj with ⟨conn', hholds, hrev'⟩
    rcases hkeep conn' hholds with ⟨hne, hholds'⟩
    refine ⟨conn', hholds', ?_⟩
    rw [Function.update_of_ne hne, hrev']

theorem holds_update_none {s : Server} {l : Ledger} {s' : Server} {conn conn' : ℕ} (hne : conn' ≠ conn)
    (h : Holds ⟨s, l⟩ conn') : Holds ⟨s', Function.update l conn none⟩ conn' := by
  rcases h with ⟨x, hx, hgiven⟩
  refine ⟨x, ?_, hgiven⟩
  dsimp only
  rw [Function.update_of_ne hne]
  exact hx

theorem owned_disconnect (h : t.Owned) (conn : ℕ) :
    Owned ⟨t.server.disconnCb conn, Function.update t.ledger conn none⟩ := by
  unfold Server.disconnCb
  rcases hrev : t.server.reverse conn with _ | i
  · intro j hj
    rcases h j hj with ⟨conn', hholds, hrev'⟩
    have hne : conn' ≠ conn := by
      rintro rfl
      rw [hrev] at hrev'
      cases hrev'
    exact ⟨conn', holds_update_none hne hholds, hrev'⟩
  · intro j hj
    by_cases hji : j = i
    · subst hji
      simp [Server.setClient] at hj
    · have hclients : (t.server.setClient i { t.server.clients i with inuse := false }).clients j
          = t.server.clients j := Function.update_of_ne hji ..
      dsimp only at hj
      rw [hclients] at hj
      rcases h j hj with ⟨conn', hholds, hrev'⟩
      have hne : conn' ≠ conn := by
        rintro rfl
        rw [hrev, Option.some.injEq] at hrev'
        exact hji hrev'.symm
      exact ⟨conn', holds_update_none hne hholds, hrev'⟩

theorem step_owned (hallowed : t.Allowed e) (herr : t.NoErrorOnSlot e) (h : t.Owned) :
    (step env t e).Owned := by
  unfold step
  by_cases hstop : t.server.crashed || t.server.rebooting
  · rw [if_pos hstop]
    exact h
  rw [if_neg hstop]
  have hserver : ∀ e', t.server.step env e' = _ := fun e' => if_neg hstop
  rw [hserver e]
  cases e with
  | connect conn registered => exact owned_connect h hallowed registered _ rfl
  | recv conn data outside replies other =>
    -- a page answers the session, which keeps its slot
    apply h.of_owners (Server.recvCb_owners env t.server conn data outside replies other).1
    rintro conn' ⟨x, hx, hgiven⟩
    refine ⟨x.answered _, Option.map_eq_some_iff.mpr ⟨x, hx, rfl⟩, ?_⟩
    rw [answered_given, hgiven]
  | disconnect conn => exact owned_disconnect h conn
  | error conn err =>
    -- an error callback of a connection with a slot does not occur
    apply h.of_owners (SameOwners.refl _)
    intro conn' hholds
    have hne : conn' ≠ conn := by
      rintro rfl
      exact hstop (herr hholds)
    exact holds_update_none hne hholds
  | task =>
    have howners : SameOwners t.server { t.server with queue := t.server.queue.tail } :=
      ⟨rfl, fun _ => rfl, fun _ => rfl⟩
    apply h.of_owners howners
    rintro conn' ⟨x, hx, hgiven⟩
    unfold Holds Ledger.next
    dsimp only
    rcases t.server.queue with _ | ⟨k, rest⟩
    · exact ⟨x, hx, hgiven⟩
    · by_cases hk : conn' = k
      · subst hk
        refine ⟨{ x with killed := true }, ?_, hgiven⟩
        dsimp only
        rw [Function.update_self, hx]
        rfl
      · refine ⟨x, ?_, hgiven⟩
        dsimp only
        rw [Function.update_of_ne hk, hx]
  | reboot => exact h.of_owners (otaReboot_owners _) fun conn hconn => hconn
  | paramStore left => exact h.of_owners (paramStore_owners _ _ _) fun conn hconn => hconn

/-- An error callback for a connection that has a slot leaves the slot in use. -/
theorem error_not_accounted (h : t.Accounted) {conn : ℕ} {err : ℤ} (hholds : t.Holds conn)
    (hrun : (t.server.crashed || t.server.rebooting) = false) :
    ¬(step env t (.error conn err)).Accounted := by
  intro h'
  have hstep : step env t (.error conn err) = ⟨t.server, Function.update t.ledger conn none⟩ := by
    have hstop : ¬(t.server.crashed || t.server.rebooting) = true := by rw [hrun]; exact Bool.false_ne_true
    unfold step Server.step
    rw [if_neg hstop, if_neg hstop]
    rfl
  rw [hstep] at h'
  rcases h.given conn hholds with ⟨i, hrev, hinuse⟩
  rcases h'.used i hinuse with ⟨conn', ⟨⟨x, hx, hgiven⟩, hrev'⟩, -⟩
  have hne := (update_none hx).1
  have hold : t.Holds conn' := ⟨x, (update_none hx).2, hgiven⟩
  rcases h.used i hinuse with ⟨c, -, honly⟩
  exact hne ((honly conn' ⟨hold, hrev'⟩).trans (honly conn ⟨hholds, hrev⟩).symm)

/-- In a run the SDK can make, the slots in use are those of the open connections at every moment
if and only if no connection that has a slot ends with the error callback. -/
theorem slots_accounted_iff (env : OtaEnv) (content : ℕ → UInt8) (es : List HttpEvent)
    (hes : Runs.Along (step env) Allowed (init content) es) :
    (∀ pre, pre <+: es → (run env content pre).Accounted)
      ↔ Runs.Along (step env) NoErrorOnSlot (init content) es := by
  constructor
  · intro hall
    rw [Runs.along_iff]
    intro pre e hpre
    cases e with
    | error conn err =>
      -- the slot stays in use, and its connection is gone
      intro hholds
      by_contra hrun
      have hbefore := hall pre ((List.prefix_append pre _).trans hpre)
      have hafter := hall _ hpre
      rw [run, List.foldl_append] at hafter
      exact error_not_accounted hbefore hholds (Bool.eq_false_iff.mpr hrun) hafter
    | connect conn registered => trivial
    | recv conn data outside replies other => trivial
    | disconnect conn => trivial
    | task => trivial
    | reboot => trivial
    | paramStore left => trivial
  · intro herr pre hpre
    -- without such an error every open connection keeps its slot, and every slot its owner
    have halong := Runs.along_take hpre (Runs.along_and hes herr)
    have hinit : (init content).Linked ∧ (init content).Owned := by
      refine ⟨init_linked content, ?_⟩
      intro i hi
      cases hi
    have hstep : ∀ t e, t.Allowed e ∧ t.NoErrorOnSlot e → t.Linked ∧ t.Owned →
        (step env t e).Linked ∧ (step env t e).Owned := by
      rintro t e ⟨hallowed, herr⟩ ⟨hlinked, howned⟩
      exact ⟨step_linked hallowed hlinked, step_owned hallowed herr howned⟩
    have hboth := Runs.foldl_inv_along hstep hinit halong
    exact hboth.1.accounted hboth.2

theorem slots_accounted_iff_disconnect :
    (run smallChip (fun _ => 0) [.connect 7 true, .disconnect 7]).Accounted := by
  have hall := (slots_accounted_iff smallChip (fun _ => 0) [.connect 7 true, .disconnect 7] (by decide)).mpr
    ⟨trivial, trivial, trivial⟩
  exact hall _ (List.prefix_refl _)

/-- The event does not open the connection. -/
def Untouched (conn : ℕ) : HttpEvent → Prop
  | .connect conn' _ => conn' ≠ conn
  | _ => True

theorem step_closed {conn : ℕ} (hnone : t.ledger conn = none) (he : Untouched conn e) :
    (step env t e).ledger conn = none := by
  unfold step
  by_cases hstop : t.server.crashed || t.server.rebooting
  · rw [if_pos hstop]
    exact hnone
  rw [if_neg hstop]
  -- only `connect` opens a session, and it is not for this connection
  have hnext : ∀ s', t.ledger.next t.server s' e conn = none := by
    intro s'
    cases e with
    | connect conn' registered => exact (Function.update_of_ne he.symm ..).trans hnone
    | recv conn' data outside replies other => exact Option.map_eq_none_iff.mpr hnone
    | disconnect conn' =>
      by_contra h
      rcases Option.ne_none_iff_exists'.mp h with ⟨x, hx⟩
      rw [(update_none hx).2] at hnone
      cases hnone
    | error conn' err =>
      by_contra h
      rcases Option.ne_none_iff_exists'.mp h with ⟨x, hx⟩
      rw [(update_none hx).2] at hnone
      cases hnone
    | task =>
      by_contra h
      rcases Option.ne_none_iff_exists'.mp h with ⟨x, hx⟩
      rcases task_session hx with ⟨y, hy, -⟩
      rw [hnone] at hy
      cases hy
    | reboot => exact hnone
    | paramStore left => exact hnone
  exact hnext _

/-- A connection that no connect callback has opened is not open. -/
theorem run_closed (content : ℕ → UInt8) {conn : ℕ} {es : List HttpEvent} (hes : ∀ e ∈ es, Untouched conn e) :
    (run env content es).ledger conn = none := by
  have halong : Runs.Along (step env) (fun _ e => Untouched conn e) (init content) es :=
    Runs.along_of_forall (fun e he _ => hes e he) _
  have hstep : ∀ (t : Tracked) e, Untouched conn e → t.ledger conn = none →
      (step env t e).ledger conn = none := fun _ _ he hnone => step_closed hnone he
  exact Runs.foldl_inv_along hstep rfl halong

/-- Four connections that are reset by their peers. -/
def fourResets : List HttpEvent :=
  [.connect 1 true, .error 1 (-9), .connect 2 true, .error 2 (-9),
    .connect 3 true, .error 3 (-9), .connect 4 true, .error 4 (-9)]

/-- After four resets no connection is open and no slot is free. -/
theorem slots_leak :
    Runs.Along (step smallChip) Allowed (init fun _ => 0) fourResets ∧
      (∀ conn, (run smallChip (fun _ => 0) fourResets).ledger conn = none) ∧
      (∀ i, ((run smallChip (fun _ => 0) fourResets).server.clients i).inuse = true) ∧
      ¬(run smallChip (fun _ => 0) fourResets).Accounted := by
  have hsdk : Runs.Along (step smallChip) Allowed (init fun _ => 0) fourResets := by decide
  have hnone : ∀ conn, (run smallChip (fun _ => 0) fourResets).ledger conn = none := by
    intro conn
    by_cases hconn : conn ∈ [1, 2, 3, 4]
    · have hall : ∀ c ∈ [1, 2, 3, 4], (run smallChip (fun _ => 0) fourResets).ledger c = none := by
        decide
      exact hall conn hconn
    · apply run_closed
      intro e he
      simp only [List.mem_cons, List.not_mem_nil, or_false, not_or] at hconn
      simp only [fourResets, List.mem_cons, List.not_mem_nil, or_false] at he
      rcases he with rfl | rfl | rfl | rfl | rfl | rfl | rfl | rfl <;> simp only [Untouched] <;> omega
  have huse : ∀ i, ((run smallChip (fun _ => 0) fourResets).server.clients i).inuse = true := by
    decide
  refine ⟨hsdk, hnone, huse, fun h => ?_⟩
  have hfree := h.free hnone 0
  rw [huse 0] at hfree
  cases hfree

end Tracked
end Esp8266Toolbox
