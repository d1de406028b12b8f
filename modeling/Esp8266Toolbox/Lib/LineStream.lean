import Esp8266Toolbox.Lib.CString

/-!
# Readers of lines

A reader takes one complete line after the other out of a stream of bytes, as long as it listens.
What it comes to does not depend on how the stream is cut: `readAll_eq`.
-/

namespace Esp8266Toolbox

/-- A machine that reads lines. -/
structure LineReader (σ ε : Type) where
  /-- Lines are read in this state. -/
  listens : σ → Bool
  /-- What a line with its end brings about, and whether it is taken out of the stream. -/
  act : σ → List UInt8 → Except ε (σ × Bool)
  /-- A reader that leaves a line in the stream does not listen any more. -/
  stops : ∀ {s line s'}, act s line = .ok (s', false) → listens s' = false

namespace LineReader

variable {σ ε : Type} (m : LineReader σ ε)

/-- The lines that are complete, one after the other; the bytes that are left stay unread. -/
def read (s : σ) (unread : List UInt8) : Except ε (σ × List UInt8) :=
  if m.listens s then
    match _h : strstr unread crlf with
    | none => .ok (s, unread)
    | some e => do
      let (s', taken) ← m.act s (unread.take (e + 2))
      if taken then read s' (unread.drop (e + 2)) else return (s', unread)
  else .ok (s, unread)
termination_by unread.length
decreasing_by
  have hle := strstr_add_le _h
  simp only [crlf, List.length_cons, List.length_nil, List.length_drop] at hle ⊢
  omega

variable {m} {s s' : σ} {p q : List UInt8} {e : ℕ}

theorem read_deaf (h : m.listens s = false) (p : List UInt8) : m.read s p = .ok (s, p) := by
  rw [read, h]
  rfl

theorem read_none (h : strstr p crlf = none) (s : σ) : m.read s p = .ok (s, p) := by
  rw [read]
  split_ifs
  · split
    · rfl
    · rename_i e he
      rw [h] at he
      cases he
  · rfl

theorem read_some (hs : m.listens s = true) (h : strstr p crlf = some e) :
    m.read s p = do
      let x ← m.act s (p.take (e + 2))
      if x.2 then m.read x.1 (p.drop (e + 2)) else return (x.1, p) := by
  rw [read, if_pos hs]
  split
  · rename_i hnone
    rw [h] at hnone
    cases hnone
  · rename_i e' he
    rw [h, Option.some.injEq] at he
    subst he
    rfl

/-- More bytes behind those that have been read. -/
theorem read_append (s : σ) (p q : List UInt8) :
    m.read s (p ++ q) = m.read s p >>= fun x => m.read x.1 (x.2 ++ q) := by
  induction hn : p.length using Nat.strong_induction_on generalizing s p with
  | _ n ih =>
    cases hs : m.listens s with
    | false => rw [read_deaf hs, read_deaf hs, Loops.ok_bind, read_deaf hs]
    | true =>
      cases hline : strstr p crlf with
      | none => rw [read_none hline, Loops.ok_bind]
      | some e =>
        have hle := strstr_add_le hline
        simp only [crlf, List.length_cons, List.length_nil] at hle
        rw [read_some hs hline, read_some hs (strstr_append hline q), List.take_append_of_le_length (by omega),
          List.drop_append_of_le_length (by omega)]
        cases hact : m.act s (p.take (e + 2)) with
        | error f => rfl
        | ok x =>
          obtain ⟨s', taken⟩ := x
          cases taken with
          | true => exact ih (p.drop (e + 2)).length (by rw [List.length_drop]; omega) s' (p.drop (e + 2)) rfl
          | false =>
            have hdeaf := m.stops hact
            exact (read_deaf hdeaf (p ++ q)).symm

/-- What holds of a state and the bytes before it, and is kept by every line, holds at the end. -/
theorem read_inv (Inv : σ → List UInt8 → Prop)
    (hact : ∀ {s p e s' taken}, Inv s p → strstr p crlf = some e → m.act s (p.take (e + 2)) = .ok (s', taken) →
      Inv s' (if taken then p.drop (e + 2) else p))
    (h : Inv s p) {p' : List UInt8} (hread : m.read s p = .ok (s', p')) : Inv s' p' := by
  induction hn : p.length using Nat.strong_induction_on generalizing s p with
  | _ n ih =>
    cases hs : m.listens s with
    | false =>
      rw [read_deaf hs] at hread
      cases hread
      exact h
    | true =>
      cases hline : strstr p crlf with
      | none =>
        rw [read_none hline] at hread
        cases hread
        exact h
      | some e =>
        rw [read_some hs hline] at hread
        obtain ⟨⟨s₁, taken⟩, hs₁, hrest⟩ := Loops.bind_eq_ok hread
        have hinv := hact h hline hs₁
        have hle := strstr_add_le hline
        simp only [crlf, List.length_cons, List.length_nil] at hle
        cases taken with
        | true => exact ih (p.drop (e + 2)).length (by rw [List.length_drop]; omega) hinv hrest rfl
        | false =>
          cases hrest
          exact hinv

/-- The bytes that are left are the last of those that came. -/
theorem read_suffix {p' : List UInt8} (h : m.read s p = .ok (s', p')) : p' <:+ p := by
  refine read_inv (fun _ q => q <:+ p) ?_ (List.suffix_refl p) h
  intro s₁ q e s₂ taken hq _ _
  cases taken with
  | true => exact (List.drop_suffix _ _).trans hq
  | false => exact hq

/-- The bytes come in segments. -/
def readAll (m : LineReader σ ε) (s : σ) (unread : List UInt8) (segments : List (List UInt8)) :
    Except ε (σ × List UInt8) :=
  segments.foldlM (fun x segment => m.read x.1 (x.2 ++ segment)) (s, unread)

/-- Reading in segments is reading their concatenation. -/
theorem readAll_eq {segments : List (List UInt8)} (h : segments ≠ []) (s : σ) (p : List UInt8) :
    m.readAll s p segments = m.read s (p ++ segments.flatten) := by
  induction segments generalizing s p with
  | nil => exact absurd rfl h
  | cons segment segments ih =>
    rw [readAll, List.foldlM_cons, List.flatten_cons, ← List.append_assoc,
      read_append s (p ++ segment) segments.flatten]
    cases hread : m.read s (p ++ segment) with
    | error f => rfl
    | ok x =>
      obtain ⟨s', p'⟩ := x
      rw [Loops.ok_bind, Loops.ok_bind]
      cases segments with
      | nil =>
        -- what is complete has been read
        have hagain := m.read_append s (p ++ segment) []
        rw [List.append_nil, hread, Loops.ok_bind] at hagain
        exact hagain
      | cons segment' segments => exact ih (List.cons_ne_nil _ _) s' p'

end LineReader
end Esp8266Toolbox
