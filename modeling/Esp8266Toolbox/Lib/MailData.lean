import Esp8266Toolbox.Lib.CString

/-!
# Mail data

What a receiver makes of the bytes behind the command `DATA`: they end at the first line that is
a single dot, and a dot at the start of any other line is removed.
-/

namespace Esp8266Toolbox

/-- The end of mail data, with the line end in front of it. -/
def endOfData : List UInt8 := ascii "\r\n.\r\n"

/-- Where the next byte stands: at the start of a line, behind a carriage return, or elsewhere. -/
inductive LinePos where
  | start | cr | mid
deriving DecidableEq, Repr

/-- The position after a byte. -/
def LinePos.next (p : LinePos) (c : UInt8) : LinePos :=
  if c = CR then .cr else if p = .cr ∧ c = LF then .start else .mid

/-- One dot at the start of each line is removed. -/
def unstuff (p : LinePos) : List UInt8 → List UInt8
  | [] => []
  | c :: cs => if p = .start ∧ c = 0x2e then unstuff (p.next c) cs else c :: unstuff (p.next c) cs

/-- A line of the text starts with a dot. -/
def dotted (p : LinePos) : List UInt8 → Bool
  | [] => false
  | c :: cs => decide (p = .start ∧ c = 0x2e) || dotted (p.next c) cs

/-- The text that is received, and the bytes behind the end of the data. -/
def receiveData (stream : List UInt8) : Option (List UInt8 × List UInt8) :=
  (strstr stream endOfData).map fun k => (unstuff .start (stream.take k), stream.drop (k + endOfData.length))

/-! ## Dotted lines -/

theorem dotted_append (p : LinePos) (xs ys : List UInt8) :
    dotted p (xs ++ ys) = (dotted p xs || dotted (xs.foldl LinePos.next p) ys) := by
  induction xs generalizing p with
  | nil => rfl
  | cons c xs ih => rw [List.cons_append, dotted, dotted, ih, List.foldl_cons, Bool.or_assoc]

/-- A text without a carriage return that begins inside a line stays in it. -/
theorem dotted_mid {xs : List UInt8} (h : CR ∉ xs) :
    dotted .mid xs = false ∧ xs.foldl LinePos.next .mid = .mid := by
  induction xs with
  | nil => exact ⟨rfl, rfl⟩
  | cons c xs ih =>
    simp only [List.mem_cons, not_or] at h
    have hnext : LinePos.next .mid c = .mid := by simp [LinePos.next, Ne.symm h.1]
    rw [dotted, List.foldl_cons, hnext]
    exact ⟨by simp [ih h.2], (ih h.2).2⟩

/-- Where the dots stand: at the start of the text, or behind a line end. -/
theorem dotted_iff (p : LinePos) (t : List UInt8) :
    dotted p t = true ↔ p = .start ∧ [0x2e] <+: t ∨ p = .cr ∧ [LF, 0x2e] <+: t ∨ [CR, LF, 0x2e] <:+: t := by
  induction t generalizing p with
  | nil => simp [dotted]
  | cons c t ih =>
    rw [dotted, Bool.or_eq_true, decide_eq_true_eq, ih, List.infix_cons_iff]
    simp only [List.cons_prefix_cons, List.nil_prefix, and_true]
    by_cases hcr : c = CR
    · -- the byte is a carriage return: the next one may end the line
      subst hcr
      have hdot : CR ≠ 0x2e := by decide
      have hlf : CR ≠ LF := by decide
      simp [LinePos.next, hdot, Ne.symm hdot, Ne.symm hlf]
    by_cases hline : p = .cr ∧ c = LF
    · obtain ⟨rfl, rfl⟩ := hline
      simp [LinePos.next, hcr, Ne.symm hcr]
    · have hnext : p.next c = .mid := by rw [LinePos.next, if_neg hcr, if_neg hline]
      rw [hnext]
      simp only [reduceCtorEq, false_and, false_or, Ne.symm hcr]
      constructor
      · rintro (⟨hp, hc⟩ | hin)
        · exact .inl ⟨hp, hc.symm⟩
        · exact .inr (.inr hin)
      · rintro (⟨hp, hc⟩ | ⟨hp, hc, -⟩ | hin)
        · exact .inl ⟨hp, hc.symm⟩
        · exact absurd ⟨hp, hc.symm⟩ hline
        · exact .inr hin

/-! ## What is received -/

theorem unstuff_eq_self {p : LinePos} {t : List UInt8} (h : dotted p t = false) : unstuff p t = t := by
  induction t generalizing p with
  | nil => rfl
  | cons c t ih =>
    rw [dotted, Bool.or_eq_false_iff, decide_eq_false_iff_not] at h
    rw [unstuff, if_neg h.1, ih h.2]

theorem length_unstuff_le (p : LinePos) (t : List UInt8) : (unstuff p t).length ≤ t.length := by
  induction t generalizing p with
  | nil => exact le_rfl
  | cons c t ih =>
    have hrest := ih (p.next c)
    rw [unstuff]
    split
    · rw [List.length_cons]
      omega
    · rw [List.length_cons, List.length_cons]
      omega

/-- A dotted line makes the text shorter. -/
theorem length_unstuff_lt {p : LinePos} {t : List UInt8} (h : dotted p t = true) :
    (unstuff p t).length < t.length := by
  induction t generalizing p with
  | nil => nomatch h
  | cons c t ih =>
    rw [unstuff]
    by_cases hdot : p = .start ∧ c = 0x2e
    · have hrest := length_unstuff_le (p.next c) t
      rw [if_pos hdot, List.length_cons]
      omega
    · rw [dotted, Bool.or_eq_true, decide_eq_true_eq] at h
      have hrest := ih (h.resolve_left hdot)
      rw [if_neg hdot, List.length_cons, List.length_cons]
      omega

/-- Without dotted lines the end that is appended to a text is the first one. -/
theorem strstr_endOfData {t : List UInt8} (h : dotted .start t = false) :
    strstr (t ++ endOfData) endOfData = some t.length := by
  have hnone : ¬[CR, LF, 0x2e] <:+: t := by
    intro hin
    rw [(dotted_iff .start t).mpr (.inr (.inr hin))] at h
    nomatch h
  rw [strstr_eq_some_iff]
  refine ⟨by simp, by simp only [List.drop_left, List.prefix_rfl], ?_⟩
  intro j hj hpre
  rw [List.drop_append_of_le_length hj.le] at hpre
  have hin : t.drop j <:+: t := (List.drop_suffix j t).isInfix
  have hend : endOfData = [CR, LF, 0x2e, CR, LF] := by decide
  rw [hend] at hpre
  -- the end would have to start inside the text
  match hback : t.drop j with
  | [] =>
    have hlen := congrArg List.length hback
    simp at hlen
    omega
  | [x] =>
    rw [hback] at hpre
    simp [List.cons_prefix_cons] at hpre
    exact absurd hpre.2 (by decide)
  | [x, y] =>
    rw [hback] at hpre
    simp [List.cons_prefix_cons] at hpre
    exact absurd hpre.2.2 (by decide)
  | x :: y :: z :: rest =>
    rw [hback] at hpre hin
    simp only [List.cons_append, List.cons_prefix_cons] at hpre
    obtain ⟨rfl, rfl, rfl, -⟩ := hpre
    exact hnone ((List.prefix_append [CR, LF, 0x2e] rest).isInfix.trans hin)

/-- A text with its end is received as it is exactly when it has no dotted line. -/
theorem receiveData_eq_iff (t : List UInt8) :
    receiveData (t ++ endOfData) = some (t, []) ↔ dotted .start t = false := by
  constructor
  · intro h
    rw [receiveData, Option.map_eq_some_iff] at h
    obtain ⟨k, hk, htext⟩ := h
    rw [Prod.mk.injEq] at htext
    by_contra hdot
    rw [Bool.not_eq_false] at hdot
    have hshort := length_unstuff_le .start ((t ++ endOfData).take k)
    have hkle := strstr_add_le hk
    rw [htext.1, List.length_take, List.length_append] at hshort
    rw [List.length_append] at hkle
    -- the end found is the one appended, and there is a dot too few
    have hkeq : k = t.length := by omega
    have htake : (t ++ endOfData).take k = t := by rw [hkeq, List.take_left]
    have hlt := length_unstuff_lt hdot
    rw [htake] at htext
    rw [htext.1] at hlt
    omega
  · intro h
    rw [receiveData, strstr_endOfData h, Option.map_some, List.take_left, unstuff_eq_self h,
      List.drop_of_length_le (by simp)]

end Esp8266Toolbox
