import Mathlib.Data.List.Infix

/-!
# Overwriting updates

An update of a record overwrites if, in each of a family of observations, it either sets a
value of its own or leaves what was there. Such updates are closed under composition, and
doing one twice is doing it once. So a list of them that is run from the start again after
some of it has been run ends where it would have ended anyway.
-/

namespace Esp8266Toolbox

section
variable {X ι : Type*} {V : ι → Type*}

/-- The update `f` sets an observation to a fixed value, or leaves it alone. -/
def Overwrites (obs : ∀ j, X → V j) (f : X → X) : Prop :=
  ∀ j, (∃ v, ∀ x, obs j (f x) = v) ∨ ∀ x, obs j (f x) = obs j x

/-- The updates of a list, one after the other. -/
def runUpdates (fs : List (X → X)) (x : X) : X := fs.foldl (fun x f => f x) x

variable {obs : ∀ j, X → V j}

theorem Overwrites.comp {f g : X → X} (hf : Overwrites obs f) (hg : Overwrites obs g) :
    Overwrites obs fun x => g (f x) := by
  intro j
  rcases hg j with ⟨v, hv⟩ | hkeep
  · exact Or.inl ⟨v, fun x => hv (f x)⟩
  · rcases hf j with ⟨v, hv⟩ | hkeep'
    · exact Or.inl ⟨v, fun x => (hkeep (f x)).trans (hv x)⟩
    · exact Or.inr fun x => (hkeep (f x)).trans (hkeep' x)

theorem Overwrites.run {fs : List (X → X)} (h : ∀ f ∈ fs, Overwrites obs f) :
    Overwrites obs (runUpdates fs) := by
  induction fs with
  | nil => exact fun j => Or.inr fun x => rfl
  | cons f fs ih =>
    have hrest := ih fun g hg => h g (List.mem_cons_of_mem f hg)
    exact (h f List.mem_cons_self).comp hrest

/-- An update that overwrites does nothing the second time. -/
theorem Overwrites.idem (hext : ∀ x y, (∀ j, obs j x = obs j y) → x = y) {f : X → X}
    (h : Overwrites obs f) (x : X) : f (f x) = f x := by
  apply hext
  intro j
  rcases h j with ⟨v, hv⟩ | hkeep
  · rw [hv, hv]
  · rw [hkeep]

/-- Starting again after some of the updates ends in the same place. -/
theorem runUpdates_absorb (hext : ∀ x y, (∀ j, obs j x = obs j y) → x = y) {fs gs : List (X → X)}
    (h : ∀ g ∈ gs, Overwrites obs g) (hpre : fs <+: gs) (x : X) :
    runUpdates gs (runUpdates fs x) = runUpdates gs x := by
  rcases hpre with ⟨rest, rfl⟩
  have hfs : Overwrites obs (runUpdates fs) := Overwrites.run fun f hf => h f (List.mem_append_left rest hf)
  unfold runUpdates
  rw [List.foldl_append, List.foldl_append]
  congr 1
  exact hfs.idem hext x

end

end Esp8266Toolbox
