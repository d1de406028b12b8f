import Mathlib.Data.List.Basic

/-!
# Invariants of runs

A run is a fold of a step function over a list of events. `Along` says of a run that each of
its steps meets a condition on the state before the step and the event; the two rules carry
an invariant along a run, with and without such a condition. `foldl_simulates` carries a simulation.
-/

namespace Esp8266Toolbox
namespace Runs

variable {σ ε : Type*} {step : σ → ε → σ} {Inv : σ → Prop}

/-- An invariant of every step is an invariant of every run. -/
theorem foldl_inv (hstep : ∀ s e, Inv s → Inv (step s e)) {s : σ} (h : Inv s) (es : List ε) :
    Inv (es.foldl step s) := by
  induction es generalizing s with
  | nil => exact h
  | cons e es ih => exact ih (hstep s e h)

/-- A simulation of every step, in the states with an invariant, is one of every run. -/
theorem foldl_simulates {τ : Type*} {step' : τ → ε → τ} {abs : σ → τ}
    (hstep : ∀ s e, Inv s → abs (step s e) = step' (abs s) e ∧ Inv (step s e)) {s : σ} (h : Inv s) (es : List ε) :
    abs (es.foldl step s) = es.foldl step' (abs s) := by
  induction es generalizing s with
  | nil => rfl
  | cons e es ih =>
    obtain ⟨habs, hinv⟩ := hstep s e h
    rw [List.foldl_cons, List.foldl_cons, ih hinv, habs]

/-- Every step of the run from `s` meets `P`. -/
def Along (step : σ → ε → σ) (P : σ → ε → Prop) : σ → List ε → Prop
  | _, [] => True
  | s, e :: es => P s e ∧ Along step P (step s e) es

instance instDecidableAlong (P : σ → ε → Prop) [∀ s e, Decidable (P s e)] :
    ∀ (s : σ) (es : List ε), Decidable (Along step P s es)
  | _, [] => .isTrue trivial
  | s, e :: es =>
    have := instDecidableAlong P (step s e) es
    inferInstanceAs (Decidable (P s e ∧ Along step P (step s e) es))

/-- An invariant of the steps that meet `P` holds along every run whose steps do. -/
theorem foldl_inv_along {P : σ → ε → Prop} (hstep : ∀ s e, P s e → Inv s → Inv (step s e)) {s : σ}
    (h : Inv s) {es : List ε} (hes : Along step P s es) : Inv (es.foldl step s) := by
  induction es generalizing s with
  | nil => exact h
  | cons e es ih => exact ih (hstep s e hes.1 h) hes.2

/-- Two runs, one after the other. -/
theorem along_append {P : σ → ε → Prop} {s : σ} {es fs : List ε} :
    Along step P s (es ++ fs) ↔ Along step P s es ∧ Along step P (es.foldl step s) fs := by
  induction es generalizing s with
  | nil => simp [Along]
  | cons x es ih => simp [Along, ih, and_assoc]

/-- One more step. -/
theorem along_concat {P : σ → ε → Prop} {s : σ} {es : List ε} {e : ε} :
    Along step P s (es ++ [e]) ↔ Along step P s es ∧ P (es.foldl step s) e := by
  rw [along_append]
  simp [Along]

/-- The first steps of a run. -/
theorem along_take {P : σ → ε → Prop} {s : σ} {pre es : List ε} (hpre : pre <+: es)
    (h : Along step P s es) : Along step P s pre := by
  rcases hpre with ⟨rest, rfl⟩
  exact (along_append.mp h).1

/-- Each step of a run, taken by itself. -/
theorem along_iff {P : σ → ε → Prop} {s : σ} {es : List ε} :
    Along step P s es ↔ ∀ pre e, pre ++ [e] <+: es → P (pre.foldl step s) e := by
  constructor
  · intro h pre e hpre
    exact (along_concat.mp (along_take hpre h)).2
  · intro h
    induction es generalizing s with
    | nil => trivial
    | cons x es ih =>
      refine ⟨h [] x ⟨es, rfl⟩, ih fun pre e hpre => ?_⟩
      exact h (x :: pre) e (List.cons_prefix_cons.mpr ⟨rfl, hpre⟩)

/-- Two conditions on the steps of a run. -/
theorem along_and {P Q : σ → ε → Prop} {s : σ} {es : List ε} (hP : Along step P s es)
    (hQ : Along step Q s es) : Along step (fun s e => P s e ∧ Q s e) s es := by
  induction es generalizing s with
  | nil => trivial
  | cons x es ih => exact ⟨⟨hP.1, hQ.1⟩, ih hP.2 hQ.2⟩

/-- A condition that all events meet in every state. -/
theorem along_of_forall {P : σ → ε → Prop} {es : List ε} (h : ∀ e ∈ es, ∀ s, P s e) (s : σ) :
    Along step P s es := by
  induction es generalizing s with
  | nil => trivial
  | cons e es ih =>
    refine ⟨h e List.mem_cons_self s, ih ?_ (step s e)⟩
    intro e' he'
    exact h e' (List.mem_cons_of_mem e he')

end Runs
end Esp8266Toolbox
