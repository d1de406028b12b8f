import Esp8266Toolbox.Lib.CString

/-!
# Lines of a text

A text in memory is a sequence of lines that a newline ends, and a tail: the part behind the last
newline before the terminator. `strchr` from the start of a line finds its end, and from the start
of the tail it runs into the terminator, wherever in the memory behind the text that may be.
-/

namespace Esp8266Toolbox

/-- `strchr(s, c)` for a character other than the terminator: its offset. -/
def strchr (s : List UInt8) (c : UInt8) : Option ℕ :=
  if c ∈ cstr s then some ((cstr s).idxOf c) else none

/-- The lines of a text, without their newlines, and its tail. -/
def splitLines : List UInt8 → List (List UInt8) × List UInt8
  | [] => ([], [])
  | b :: bs =>
    if b = 0 then ([], b :: bs)
    else if b = LF then ([] :: (splitLines bs).1, (splitLines bs).2)
    else
      match splitLines bs with
      | ([], tail) => ([], b :: tail)
      | (l :: ls, tail) => ((b :: l) :: ls, tail)

/-- Lines with their newlines. -/
def joinLines (ls : List (List UInt8)) : List UInt8 := ls.flatMap fun l => l ++ [LF]

@[simp] theorem joinLines_nil : joinLines [] = [] := rfl

@[simp] theorem joinLines_cons (l : List UInt8) (ls : List (List UInt8)) :
    joinLines (l :: ls) = l ++ LF :: joinLines ls := by
  simp [joinLines]

@[simp] theorem joinLines_append (ls ls' : List (List UInt8)) :
    joinLines (ls ++ ls') = joinLines ls ++ joinLines ls' := by
  simp [joinLines]

/-- A line has neither a newline nor a terminator. -/
def IsLine (l : List UInt8) : Prop := 0 ∉ l ∧ LF ∉ l

/-! ## `splitLines` -/

/-- What `splitLines` returns: the text is put together again, and the parts are lines and a tail. -/
theorem splitLines_spec (bs : List UInt8) :
    joinLines (splitLines bs).1 ++ (splitLines bs).2 = bs ∧ (∀ l ∈ (splitLines bs).1, IsLine l) ∧
      LF ∉ cstr (splitLines bs).2 := by
  induction bs with
  | nil => simp [splitLines, cstr]
  | cons b bs ih =>
    obtain ⟨hjoin, hlines, htail⟩ := ih
    rw [splitLines]
    by_cases h0 : b = 0
    · rw [if_pos h0]
      simp [cstr, h0]
    rw [if_neg h0]
    by_cases hlf : b = LF
    · rw [if_pos hlf]
      refine ⟨by simp [hjoin, hlf], fun l hl => ?_, htail⟩
      rcases List.mem_cons.mp hl with rfl | hl
      · simp [IsLine]
      · exact hlines l hl
    rw [if_neg hlf]
    rcases hsplit : splitLines bs with ⟨_ | ⟨l, ls⟩, tail⟩
    · -- no newline before the terminator: the byte joins the tail
      rw [hsplit] at hjoin htail
      simp only [joinLines_nil, List.nil_append] at hjoin htail ⊢
      refine ⟨by rw [hjoin], by simp, ?_⟩
      rw [cstr, List.takeWhile_cons_of_pos (by simpa using h0), List.mem_cons, not_or]
      exact ⟨fun h => hlf h.symm, htail⟩
    · rw [hsplit] at hjoin hlines htail
      simp only [joinLines_cons, List.forall_mem_cons] at hjoin hlines ⊢
      refine ⟨by simp [← hjoin], ⟨?_, hlines.2⟩, htail⟩
      have hl := hlines.1
      unfold IsLine at hl ⊢
      simp only [List.mem_cons, not_or]
      exact ⟨⟨fun h => h0 h.symm, hl.1⟩, fun h => hlf h.symm, hl.2⟩

/-- Lines in front of a text are split off it. -/
theorem splitLines_join {ls : List (List UInt8)} (h : ∀ l ∈ ls, IsLine l) (rest : List UInt8) :
    splitLines (joinLines ls ++ rest) = (ls ++ (splitLines rest).1, (splitLines rest).2) := by
  induction ls with
  | nil => rfl
  | cons l ls ih =>
    have hrest := ih fun l' hl' => h l' (List.mem_cons_of_mem l hl')
    have hl := h l List.mem_cons_self
    rw [joinLines_cons, List.append_assoc, List.cons_append]
    -- byte by byte up to the newline
    clear h ih
    induction l with
    | nil => simp [splitLines, hrest, show LF ≠ 0 by decide]
    | cons b l ihl =>
      unfold IsLine at hl ihl
      simp only [List.mem_cons, not_or] at hl
      rw [List.cons_append, splitLines, if_neg (Ne.symm hl.1.1), if_neg (Ne.symm hl.2.1),
        ihl ⟨hl.1.2, hl.2.2⟩]
      rfl

/-- A text without a newline is all tail. -/
theorem splitLines_tail {bs : List UInt8} (h : LF ∉ cstr bs) : splitLines bs = ([], bs) := by
  induction bs with
  | nil => rfl
  | cons b bs ih =>
    rw [splitLines]
    by_cases h0 : b = 0
    · rw [if_pos h0]
    rw [if_neg h0]
    rw [cstr, List.takeWhile_cons_of_pos (by simpa using h0), List.mem_cons, not_or] at h
    rw [if_neg (Ne.symm h.1), ih h.2]

/-! ## `strchr` -/

/-- From the start of a line, `strchr` finds its newline. -/
theorem strchr_line {l : List UInt8} (h : IsLine l) (rest : List UInt8) :
    strchr (l ++ LF :: rest) LF = some l.length := by
  have hcstr : cstr (l ++ LF :: rest) = l ++ LF :: cstr rest := by
    rw [cstr_append h.1, cstr, List.takeWhile_cons_of_pos (by decide)]
    rfl
  rw [strchr, hcstr, if_pos (by simp), List.idxOf_append_of_notMem h.2, List.idxOf_cons_self,
    Nat.add_zero]

theorem strchr_eq_none {s : List UInt8} {c : UInt8} (h : c ∉ cstr s) : strchr s c = none := by
  rw [strchr, if_neg h]

/-- Where a line begins in a text. -/
def lineStarts : ℕ → List (List UInt8) → List ℕ
  | _, [] => []
  | i, l :: ls => i :: lineStarts (i + (l.length + 1)) ls

@[simp] theorem lineStarts_length (i : ℕ) (ls : List (List UInt8)) :
    (lineStarts i ls).length = ls.length := by
  induction ls generalizing i with
  | nil => rfl
  | cons l ls ih => simp [lineStarts, ih]

theorem joinLines_length_cons (l : List UInt8) (ls : List (List UInt8)) :
    (joinLines (l :: ls)).length = l.length + 1 + (joinLines ls).length := by
  simp
  omega

end Esp8266Toolbox
