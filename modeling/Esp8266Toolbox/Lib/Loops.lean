import Mathlib.Data.List.Basic
import Mathlib.Tactic.Common

/-!
# Counting loops

The C loops of the form `for (i = 0; i < m; i++)` and `for (i = n - 1; i >= 0; i--)` are
folds over `List.range`, in `Except` when the body can return early. This file has one
invariant rule for each of the two directions, with and without early return: the
invariant is indexed by the loop counter, and the step hypothesis speaks about one pass
through the body.
-/

namespace Esp8266Toolbox
namespace Loops

universe u

variable {σ ε : Type*}

/-! ## Loops without an early exit -/

/-- Ascending loop: an invariant that each pass carries from `i` to `i + 1` holds of the
final state at `m`. -/
theorem foldl_range_inv (f : σ → ℕ → σ) (Inv : ℕ → σ → Prop) (m : ℕ) (s : σ)
    (h0 : Inv 0 s) (hstep : ∀ i s, i < m → Inv i s → Inv (i + 1) (f s i)) :
    Inv m ((List.range m).foldl f s) := by
  induction m with
  | zero => simpa using h0
  | succ m ih =>
    rw [List.range_succ, List.foldl_append]
    have hm := ih fun i s hi => hstep i s (by omega)
    exact hstep m _ (by omega) hm

/-! ## Loops whose body may return early -/

/-- A statement that succeeded hands its result to the rest of the block. -/
theorem ok_bind {α β : Type u} (x : α) (f : α → Except ε β) : (Except.ok x >>= f) = f x := rfl

theorem error_bind {α β : Type u} (e : ε) (f : α → Except ε β) :
    ((Except.error e : Except ε α) >>= f) = Except.error e := rfl

/-- A block that succeeded has run its first statement and then its rest. -/
theorem bind_eq_ok {α β : Type u} {x : Except ε α} {f : α → Except ε β} {b : β}
    (h : (x >>= f) = .ok b) : ∃ a, x = .ok a ∧ f a = .ok b := by
  rcases x with e | a
  · cases h
  · exact ⟨a, rfl, h⟩

/-- A conditional statement before the rest of a block. -/
theorem ite_bind {α β : Type u} (p : Prop) [Decidable p] (x y : Except ε α) (f : α → Except ε β) :
    ((if p then x else y) >>= f) = if p then x >>= f else y >>= f := by
  split
  · rfl
  · rfl

/-- An invariant of the passes that succeed holds of the result of a loop that succeeds. -/
theorem foldlM_inv {α : Type*} {f : σ → α → Except ε σ} (Inv : σ → Prop)
    (hstep : ∀ s x s', Inv s → f s x = .ok s' → Inv s') (l : List α) {s s' : σ} (h : Inv s)
    (hl : l.foldlM f s = .ok s') : Inv s' := by
  induction l generalizing s with
  | nil =>
    cases hl
    exact h
  | cons x l ih =>
    rw [List.foldlM_cons] at hl
    obtain ⟨s₁, hx, hrest⟩ := bind_eq_ok hl
    exact ih (hstep s x s₁ h hx) hrest

/-- Ascending loop in `Except`: when every pass succeeds and carries the invariant from
`i` to `i + 1`, the loop succeeds and the invariant holds at `m`. -/
theorem foldlM_range_ok (f : σ → ℕ → Except ε σ) (Inv : ℕ → σ → Prop) (m : ℕ) (s : σ)
    (h0 : Inv 0 s)
    (hstep : ∀ i s, i < m → Inv i s → ∃ s', f s i = .ok s' ∧ Inv (i + 1) s') :
    ∃ s', (List.range m).foldlM f s = .ok s' ∧ Inv m s' := by
  induction m with
  | zero => exact ⟨s, rfl, h0⟩
  | succ m ih =>
    obtain ⟨s₁, hs₁, hinv⟩ := ih fun i s hi => hstep i s (by omega)
    obtain ⟨s₂, hs₂, hinv'⟩ := hstep m s₁ (by omega) hinv
    refine ⟨s₂, ?_, hinv'⟩
    rw [List.range_succ, List.foldlM_append, hs₁]
    simp only [List.foldlM_cons, List.foldlM_nil, bind_pure]
    exact hs₂

/-- Ascending loop in `Except` with an early exit: the passes before `n` succeed and carry the
invariant, and the pass at `n` returns `e`. -/
theorem foldlM_range_error (f : σ → ℕ → Except ε σ) (Inv : ℕ → σ → Prop) {n m : ℕ} (s : σ) (e : ε)
    (h0 : Inv 0 s)
    (hstep : ∀ i s, i < n → Inv i s → ∃ s', f s i = .ok s' ∧ Inv (i + 1) s')
    (herr : ∀ s, Inv n s → f s n = .error e) (hn : n < m) :
    (List.range m).foldlM f s = .error e := by
  obtain ⟨s₁, hs₁, hinv⟩ := foldlM_range_ok f Inv n s h0 hstep
  rw [show m = n + 1 + (m - (n + 1)) by omega, List.range_add, List.range_succ,
    List.append_assoc, List.foldlM_append, hs₁, ok_bind, List.singleton_append, List.foldlM_cons,
    herr s₁ hinv]
  rfl

/-- Descending loop in `Except`: the invariant starts at `n`, each pass at counter `i`
carries it from `i + 1` to `i`, and it holds at `0` when the loop ends. -/
theorem foldlM_range_reverse_ok (f : σ → ℕ → Except ε σ) (Inv : ℕ → σ → Prop) (n : ℕ) (s : σ)
    (hn : Inv n s)
    (hstep : ∀ i s, i < n → Inv (i + 1) s → ∃ s', f s i = .ok s' ∧ Inv i s') :
    ∃ s', (List.range n).reverse.foldlM f s = .ok s' ∧ Inv 0 s' := by
  induction n generalizing s with
  | zero => exact ⟨s, rfl, hn⟩
  | succ n ih =>
    obtain ⟨s₁, hs₁, hinv⟩ := hstep n s (by omega) hn
    obtain ⟨s₂, hs₂, hinv'⟩ := ih s₁ hinv fun i s hi => hstep i s (by omega)
    refine ⟨s₂, ?_, hinv'⟩
    rw [List.range_succ, List.reverse_append]
    simp only [List.reverse_cons, List.reverse_nil, List.nil_append, List.singleton_append,
      List.foldlM_cons, hs₁]
    exact hs₂

/-! ## Two programs side by side -/

section SideBySide

variable {τ δ : Type*}

/-- Both computations fail, or both succeed with related results. -/
def SameEnd (R : σ → τ → Prop) : Except ε σ → Except δ τ → Prop
  | .ok s, .ok t => R s t
  | .error _, .error _ => True
  | _, _ => False

/-- What the second computation returns, the first returns up to the relation. -/
theorem SameEnd.of_ok {R : σ → τ → Prop} {x : Except ε σ} {y : Except δ τ} {t : τ}
    (h : SameEnd R x y) (hy : y = .ok t) : ∃ s, x = .ok s ∧ R s t := by
  subst hy
  rcases x with e | s
  · exact h.elim
  · exact ⟨s, rfl, h⟩

/-- The first computation fails where the second does. -/
theorem SameEnd.of_error {R : σ → τ → Prop} {x : Except ε σ} {y : Except δ τ} {d : δ}
    (h : SameEnd R x y) (hy : y = .error d) : ∃ e, x = .error e := by
  subst hy
  rcases x with e | s
  · exact ⟨e, rfl⟩
  · exact h.elim

/-- Related first statements, and rests that are related on what these return, make related blocks. -/
theorem SameEnd.bind_of_ok {σ σ' τ τ' : Type u} {R : σ → τ → Prop} {R' : σ' → τ' → Prop} {x : Except ε σ}
    {y : Except δ τ} {f : σ → Except ε σ'} {g : τ → Except δ τ'} (h : SameEnd R x y)
    (hfg : ∀ s t, x = .ok s → y = .ok t → R s t → SameEnd R' (f s) (g t)) : SameEnd R' (x >>= f) (y >>= g) := by
  rcases x with e | s <;> rcases y with d | t
  · trivial
  · exact h.elim
  · exact h.elim
  · exact hfg s t rfl rfl h

/-- Related first statements and related rests make related blocks. -/
theorem SameEnd.bind {σ σ' τ τ' : Type u} {R : σ → τ → Prop} {R' : σ' → τ' → Prop} {x : Except ε σ}
    {y : Except δ τ} {f : σ → Except ε σ'} {g : τ → Except δ τ'} (h : SameEnd R x y)
    (hfg : ∀ s t, R s t → SameEnd R' (f s) (g t)) : SameEnd R' (x >>= f) (y >>= g) :=
  h.bind_of_ok fun s t _ _ => hfg s t

/-- Loops whose passes keep two states related end alike. -/
theorem foldlM_sameEnd {σ τ : Type u} {α : Type*} {R : σ → τ → Prop} {f : σ → α → Except ε σ}
    {g : τ → α → Except δ τ} (hstep : ∀ s t x, R s t → SameEnd R (f s x) (g t x)) (l : List α) {s : σ}
    {t : τ} (h : R s t) : SameEnd R (l.foldlM f s) (l.foldlM g t) := by
  induction l generalizing s t with
  | nil => exact h
  | cons x l ih =>
    rw [List.foldlM_cons, List.foldlM_cons]
    exact (hstep s t x h).bind fun s' t' h' => ih h'

end SideBySide

end Loops
end Esp8266Toolbox
