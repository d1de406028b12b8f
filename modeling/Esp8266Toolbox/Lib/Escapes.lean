import Mathlib.Data.List.Infix
import Mathlib.Logic.Relation

/-!
# Decoding escapes one at a time

A table of codes, each of which begins with an escape character that occurs nowhere else in it. A
text is decoded by replacing codes, in any order, until none is left. If the plain text itself
contains no code, every code ever found stands for a character of it, so the plain text is what is
left at the end, whatever the order. If it contains one, it is never left at the end.

Two codes of one text never overlap, so replacing one leaves the other, and what is left at the
end is the same for every order in any case (`replaced_unique`).
-/

namespace Esp8266Toolbox
namespace Escapes

variable {α : Type*}

/-- A table of codes and the characters they stand for. No code begins another. -/
structure Table (α : Type*) where
  esc : α
  codes : List (List α × α)
  shape : ∀ e ∈ codes, ∃ d, e.1 = esc :: d ∧ esc ∉ d
  distinct : ∀ e ∈ codes, ∀ e' ∈ codes, e.1 <+: e'.1 → e = e'

variable {T : Table α}

/-- The text contains no code. -/
def Plain (T : Table α) (s : List α) : Prop := ∀ e ∈ T.codes, ¬e.1 <:+: s

/-- The text `t` is `s` with some characters replaced by their codes. -/
inductive Coded (T : Table α) : List α → List α → Prop
  | nil : Coded T [] []
  | raw (c : α) {s t : List α} (h : Coded T s t) : Coded T (c :: s) (c :: t)
  | code {k : List α} {c : α} (hk : (k, c) ∈ T.codes) {s t : List α} (h : Coded T s t) :
      Coded T (c :: s) (k ++ t)

theorem Plain.tail {c : α} {s : List α} (h : Plain T (c :: s)) : Plain T s := fun e he hin =>
  h e he (hin.trans (List.suffix_cons c s).isInfix)

/-- Characters other than the escape character stand for themselves. -/
theorem Coded.raw_prefix {s t d : List α} (h : Coded T s t) (hd : T.esc ∉ d) (hpre : d <+: t) :
    d <+: s := by
  induction d generalizing s t with
  | nil => exact List.nil_prefix
  | cons x d ih =>
    simp only [List.mem_cons, not_or] at hd
    rcases hpre with ⟨rest, ht⟩
    cases h with
    | nil => simp at ht
    | raw c h =>
      rw [List.cons_append, List.cons.injEq] at ht
      rw [ht.1]
      exact List.cons_prefix_cons.mpr ⟨rfl, ih h hd.2 ⟨rest, ht.2⟩⟩
    | code hk h =>
      -- a code would begin with the escape character
      obtain ⟨d', hshape, -⟩ := T.shape _ hk
      simp only at hshape
      rw [hshape, List.cons_append, List.cons_append, List.cons.injEq] at ht
      exact absurd ht.1.symm hd.1

/-- Text without the escape character in front of one that begins with it. -/
theorem append_split {a d t r : List α} {x : α} (hd : x ∉ d) (h : a ++ x :: r = d ++ t) :
    ∃ a', a = d ++ a' ∧ t = a' ++ x :: r := by
  rcases List.append_eq_append_iff.mp h with ⟨d', rfl, hr⟩ | ⟨a', rfl, ht⟩
  · rcases d' with _ | ⟨y, d'⟩
    · exact ⟨[], by simp, by simpa using hr.symm⟩
    · rw [List.cons_append, List.cons.injEq] at hr
      exact absurd (List.mem_append_right a (hr.1 ▸ List.mem_cons_self)) hd
  · exact ⟨a', rfl, ht⟩

/-- **A code found in the text stands for a character of the plain text**, so replacing it leaves
the plain text encoded. -/
theorem Coded.replace {s a k b : List α} {c : α} (h : Coded T s (a ++ k ++ b)) (hs : Plain T s)
    (hk : (k, c) ∈ T.codes) : Coded T s (a ++ c :: b) := by
  generalize ht : a ++ k ++ b = t at h
  obtain ⟨d, hshape, hd⟩ := T.shape _ hk
  simp only at hshape
  -- from token to token, until the one where the code begins
  induction h generalizing a with
  | nil =>
    rw [hshape] at ht
    simp at ht
  | raw x h ih =>
    rename_i s t
    rcases a with _ | ⟨y, a⟩
    · -- the code would stand in the plain text
      rw [hshape, List.nil_append, List.cons_append, List.cons.injEq] at ht
      have hpre := h.raw_prefix hd (ht.2 ▸ List.prefix_append d b)
      have hin : k <:+: x :: s := by
        rw [hshape, ht.1]
        exact (List.cons_prefix_cons.mpr ⟨rfl, hpre⟩).isInfix
      exact absurd hin (hs _ hk)
    · rw [List.cons_append, List.cons_append, List.cons.injEq] at ht
      rw [ht.1, List.cons_append]
      exact (ih hs.tail ht.2).raw x
  | code hk' h ih =>
    rename_i k' c' s t
    obtain ⟨d', hshape', hd'⟩ := T.shape _ hk'
    simp only at hshape'
    rcases a with _ | ⟨y, a⟩
    · -- this is the code
      rw [List.nil_append] at ht ⊢
      have heq : (k, c) = (k', c') := by
        rcases List.prefix_or_prefix_of_prefix (ht ▸ List.prefix_append k b)
          (List.prefix_append k' t) with hpre | hpre
        · exact T.distinct _ hk _ hk' hpre
        · exact (T.distinct _ hk' _ hk hpre).symm
      rw [Prod.mk.injEq] at heq
      rw [heq.1] at ht
      rw [heq.2, List.append_cancel_left ht]
      exact h.raw c'
    · rw [hshape', List.cons_append, List.cons_append, List.cons_append, List.cons.injEq] at ht
      have hrest := ht.2
      rw [hshape, List.append_assoc, List.cons_append] at hrest
      obtain ⟨a', ha, ht'⟩ := append_split hd' hrest
      have hnext := ih (a := a') hs.tail (by rw [hshape, List.append_assoc, List.cons_append, ht'])
      rw [ht.1, ha, List.cons_append, List.append_assoc, ← List.cons_append, ← hshape']
      exact hnext.code hk'

/-- A text without codes is the plain text. -/
theorem Coded.eq_of_plain {s t : List α} (h : Coded T s t) (ht : Plain T t) : t = s := by
  induction h with
  | nil => rfl
  | raw c h ih => rw [ih ht.tail]
  | code hk h ih => exact absurd (List.prefix_append _ _).isInfix (ht _ hk)

/-! ## The order of the replacements -/

open Relation

/-- One code of the text is replaced by its character. -/
inductive Replaces (T : Table α) : List α → List α → Prop
  | code {k : List α} {c : α} (hk : (k, c) ∈ T.codes) (a b : List α) : Replaces T (a ++ k ++ b) (a ++ c :: b)

/-- The text is decoded no further. -/
theorem Plain.not_replaces {s t : List α} (h : Plain T s) : ¬Replaces T s t := by
  rintro ⟨hk, a, b⟩
  exact h _ hk ⟨a, b, rfl⟩

theorem Coded.replaces {s t u : List α} (h : Coded T s t) (hs : Plain T s) (htu : Replaces T t u) :
    Coded T s u := by
  cases htu with
  | code hk a b => exact h.replace hs hk

theorem Coded.replaced {s t u : List α} (h : Coded T s t) (hs : Plain T s) (htu : ReflTransGen (Replaces T) t u) :
    Coded T s u := by
  induction htu with
  | refl => exact h
  | tail _ hstep ih => exact ih.replaces hs hstep

/-- Two codes begin at one place, or the first ends before the second begins. -/
theorem codes_disjoint {a a' b b' k k' : List α} {c c' : α} (hk : (k, c) ∈ T.codes) (hk' : (k', c') ∈ T.codes)
    (h : a ++ k ++ b = a' ++ k' ++ b') (hle : a.length ≤ a'.length) :
    (a = a' ∧ k = k' ∧ c = c' ∧ b = b') ∨ ∃ m, a' = a ++ k ++ m ∧ b = m ++ k' ++ b' := by
  obtain ⟨d, hshape, hd⟩ := T.shape _ hk
  obtain ⟨d', hshape', -⟩ := T.shape _ hk'
  simp only at hshape hshape'
  rw [List.append_assoc, List.append_assoc] at h
  obtain ⟨m, rfl⟩ : a <+: a' := List.prefix_of_prefix_length_le ⟨_, h⟩ (List.prefix_append _ _) hle
  rw [List.append_assoc, List.append_right_inj] at h
  rcases m with _ | ⟨x, m⟩
  · -- both begin here
    left
    rw [List.nil_append] at h
    have heq : (k, c) = (k', c') := by
      rcases List.prefix_or_prefix_of_prefix ⟨b, h⟩ (List.prefix_append k' b') with hpre | hpre
      · exact T.distinct _ hk _ hk' hpre
      · exact (T.distinct _ hk' _ hk hpre).symm
    rw [Prod.mk.injEq] at heq
    rw [heq.1, List.append_right_inj] at h
    exact ⟨(List.append_nil a).symm, heq.1, heq.2, h⟩
  · -- the second begins with the escape character, so behind the first
    right
    rw [hshape, hshape', List.cons_append, List.cons_append, List.cons_append, List.cons.injEq] at h
    obtain ⟨m', hm, hb⟩ := append_split hd h.2.symm
    refine ⟨m', ?_, ?_⟩
    · rw [← h.1, hm, hshape]
      simp
    · rw [hb, hshape']
      simp

/-- Two replacements in one text can be made one after the other. -/
theorem Replaces.diamond {s t u : List α} (ht : Replaces T s t) (hu : Replaces T s u) :
    t = u ∨ ∃ v, Replaces T t v ∧ Replaces T u v := by
  -- the code further left first
  have hordered : ∀ {a a' b b' k k' : List α} {c c' : α}, (k, c) ∈ T.codes → (k', c') ∈ T.codes →
      a ++ k ++ b = a' ++ k' ++ b' → a.length ≤ a'.length → a ++ c :: b = a' ++ c' :: b' ∨
        ∃ v, Replaces T (a ++ c :: b) v ∧ Replaces T (a' ++ c' :: b') v := by
    intro a a' b b' k k' c c' hk hk' heq hle
    rcases codes_disjoint hk hk' heq hle with ⟨rfl, rfl, rfl, rfl⟩ | ⟨m, rfl, rfl⟩
    · exact Or.inl rfl
    · refine Or.inr ⟨a ++ c :: m ++ c' :: b', ?_, ?_⟩
      · have hright := Replaces.code hk' (a ++ c :: m) b'
        simpa using hright
      · have hleft := Replaces.code hk a (m ++ c' :: b')
        simpa using hleft
  generalize hs : s = s' at hu
  rcases ht with ⟨hk, a, b⟩
  rcases hu with ⟨hk', a', b'⟩
  rcases Nat.le_total a.length a'.length with hle | hle
  · exact hordered hk hk' hs hle
  · rcases hordered hk' hk hs.symm hle with heq | ⟨v, hu, ht⟩
    · exact Or.inl heq.symm
    · exact Or.inr ⟨v, ht, hu⟩

/-- **Confluence**: whatever has been replaced so far, the texts can still be made the same. -/
theorem replaced_confluent {s t u : List α} (ht : ReflTransGen (Replaces T) s t)
    (hu : ReflTransGen (Replaces T) s u) : Join (ReflTransGen (Replaces T)) t u := by
  refine church_rosser ?_ ht hu
  intro x y z hy hz
  rcases hy.diamond hz with rfl | ⟨v, hyv, hzv⟩
  · exact ⟨y, .refl, .refl⟩
  · exact ⟨v, .single hyv, .single hzv⟩

/-- Every order of replacements goes on to the one text without codes. -/
theorem replaced_plain {s t u : List α} (ht : ReflTransGen (Replaces T) s t) (hplain : Plain T t)
    (hu : ReflTransGen (Replaces T) s u) : ReflTransGen (Replaces T) u t := by
  obtain ⟨v, htv, huv⟩ := replaced_confluent ht hu
  rcases htv.cases_head with rfl | ⟨w, htw, -⟩
  · exact huv
  · exact absurd htw hplain.not_replaces

/-- **What is left at the end** does not depend on the order. -/
theorem replaced_unique {s t u : List α} (ht : ReflTransGen (Replaces T) s t) (hplain : Plain T t)
    (hu : ReflTransGen (Replaces T) s u) (hplain' : Plain T u) : u = t := by
  rcases (replaced_plain ht hplain hu).cases_head with rfl | ⟨w, huw, -⟩
  · rfl
  · exact absurd huw hplain'.not_replaces

end Escapes
end Esp8266Toolbox
