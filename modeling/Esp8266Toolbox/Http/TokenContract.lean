import Esp8266Toolbox.Http.Tokens

/-!
# The contract of `parsetoken`

What the comment above `parsetoken` promises for a buffer of `len` characters, and when the code
keeps it. Both loops of the source look at a character before they compare the index with `len`, so the
character behind the buffer is read unless the first token ends in front of it.

* `parsetoken_contract_iff`: the promise is kept exactly when the buffer goes on behind its first token;
* `parsetoken_answer_iff`: the pointers alone are right exactly when it does, or when the character
  behind the buffer can be read and, in a buffer without tokens, is a delimiter.
-/

namespace Esp8266Toolbox

open Loops

/-! ## The contract -/

/-- The memory without anything in front of `buf` or from `buf + len` on. -/
def within (rd : Mem) (buf len : ℕ) : Mem := fun a =>
  if buf ≤ a ∧ a < buf + len then rd a else .error .outOfBounds

/-- The call ends and returns `r`. -/
def TokenReturns (rd : Mem) (buf len : ℕ) (r : Option (ℕ × ℕ)) : Prop :=
  ∃ n, ∀ fuel, n ≤ fuel → parsetokenFuel fuel rd buf len = .ok r

/-- The first maximal run of characters other than delimiters is `[i, j)`. -/
def FirstRun (s : List UInt8) (i j : ℕ) : Prop :=
  i < j ∧ j ≤ s.length ∧ (∀ c ∈ s.take i, blank c = true) ∧
    (∀ c ∈ (s.take j).drop i, blank c = false) ∧ ∀ c, s[j]? = some c → blank c = true

/-- `NULL` for a buffer of delimiters, and otherwise the first token. -/
def TokenAnswer (buf : ℕ) (s : List UInt8) (r : Option (ℕ × ℕ)) : Prop :=
  (r = none ↔ ∀ c ∈ s, blank c = true) ∧
    ∀ start stop, r = some (start, stop) → ∃ i j, start = buf + i ∧ stop = buf + j ∧ FirstRun s i j

/-- The call on the buffer `s` ends with the right answer, and no character at `len` or behind is
read: without them the call does the same. -/
def TokenContract (rd : Mem) (buf : ℕ) (s : List UInt8) : Prop :=
  ∃ r, TokenReturns rd buf s.length r ∧ TokenAnswer buf s r ∧
    TokenReturns (within rd buf s.length) buf s.length r

theorem TokenReturns.unique {rd : Mem} {buf len : ℕ} {r r' : Option (ℕ × ℕ)}
    (h : TokenReturns rd buf len r) (h' : TokenReturns rd buf len r') : r = r' := by
  obtain ⟨n, hn⟩ := h
  obtain ⟨m, hm⟩ := h'
  have heq := (hn (max n m) (le_max_left n m)).symm.trans (hm (max n m) (le_max_right n m))
  exact Except.ok.inj heq

/-- What is inside is read as before. -/
theorem reads_within {rd : Mem} {buf len off : ℕ} {s : List UInt8} (h : Reads rd (buf + off) s)
    (hin : off + s.length ≤ len) : Reads (within rd buf len) (buf + off) s := by
  induction s generalizing off with
  | nil => trivial
  | cons c s ih =>
    rw [List.length_cons] at hin
    refine ⟨?_, @ih (off + 1) h.2 (by omega)⟩
    rw [within, if_pos ⟨by omega, by omega⟩]
    exact h.1

/-- The end of the buffer cannot be read. -/
theorem within_end (rd : Mem) (buf len : ℕ) : within rd buf len (buf + len) = .error .outOfBounds :=
  if_neg (by omega)

/-! ## The scans up to the end of the buffer -/

/-- Delimiters as far as the memory goes: the scan leaves it. -/
theorem skipBlanks_fault {rd : Mem} {buf : ℕ} (len fuel i : ℕ) {bl : List UInt8}
    (hbl : ∀ b ∈ bl, blank b = true) (hlen : i + bl.length ≤ len) (h : Reads rd (buf + i) bl)
    (hend : rd (buf + i + bl.length) = .error .outOfBounds) :
    skipBlanks rd buf len fuel i = .error .outOfBounds := by
  induction bl generalizing fuel i with
  | nil =>
    rcases fuel with _ | fuel
    · rfl
    rw [List.length_nil, Nat.add_zero] at hend
    rw [skipBlanks, hend, error_bind]
  | cons b bl ih =>
    rcases fuel with _ | fuel
    · rfl
    rw [List.length_cons] at hlen hend
    rw [skipBlanks, h.1, ok_bind, if_pos (hbl b List.mem_cons_self), if_neg (by omega)]
    refine ih fuel (i + 1) (fun x hx => hbl x (List.mem_cons_of_mem b hx)) (by omega) h.2 ?_
    rw [← hend]
    congr 1
    omega

/-- A token as far as the memory goes: the scan leaves it. -/
theorem skipToken_fault {rd : Mem} {buf : ℕ} (len fuel i : ℕ) {tok : List UInt8}
    (htok : ∀ b ∈ tok, blank b = false) (hlen : i + tok.length ≤ len) (h : Reads rd (buf + i) tok)
    (hend : rd (buf + i + tok.length) = .error .outOfBounds) :
    skipToken rd buf len fuel i = .error .outOfBounds := by
  induction tok generalizing fuel i with
  | nil =>
    rcases fuel with _ | fuel
    · rfl
    rw [List.length_nil, Nat.add_zero] at hend
    rw [skipToken, hend, error_bind]
  | cons b tok ih =>
    rcases fuel with _ | fuel
    · rfl
    rw [List.length_cons] at hlen hend
    rw [skipToken, h.1, ok_bind, if_neg (by simp [htok b List.mem_cons_self]), if_neg (by omega)]
    refine ih fuel (i + 1) (fun x hx => htok x (List.mem_cons_of_mem b hx)) (by omega) h.2 ?_
    rw [← hend]
    congr 1
    omega

/-- A token that ends where the length does: the character behind it is looked at and does not matter. -/
theorem skipToken_stop {rd : Mem} {buf : ℕ} (len fuel i : ℕ) {tok : List UInt8} {c : UInt8}
    (htok : ∀ b ∈ tok, blank b = false) (hfuel : tok.length < fuel) (hlen : i + tok.length = len)
    (h : Reads rd (buf + i) (tok ++ [c])) : skipToken rd buf len fuel i = .ok len := by
  induction tok generalizing fuel i with
  | nil =>
    rcases fuel with _ | fuel
    · omega
    rw [List.length_nil, Nat.add_zero] at hlen
    rw [skipToken, h.1, ok_bind, if_pos hlen, hlen, ite_self]
    rfl
  | cons b tok ih =>
    rcases fuel with _ | fuel
    · omega
    rw [List.length_cons] at hlen hfuel
    rw [skipToken, h.1, ok_bind, if_neg (by simp [htok b List.mem_cons_self]), if_neg (by omega)]
    exact ih fuel (i + 1) (fun x hx => htok x (List.mem_cons_of_mem b hx)) (by omega) (by omega) h.2

/-! ## The first token of a buffer -/

theorem firstToken_ne_nil {s : List UInt8} (h : afterToken s ≠ []) : firstToken s ≠ [] := by
  intro hnone
  apply h
  rw [afterToken, List.dropWhile_eq_nil_iff.mpr (firstToken_eq_nil_iff.mp hnone)]
  rfl

/-- A character behind the first token. -/
theorem afterToken_ne_nil_iff {s : List UInt8} : afterToken s ≠ [] ↔
    ∃ (i j : ℕ) (c d : UInt8), i < j ∧ s[i]? = some c ∧ blank c = false ∧ s[j]? = some d ∧ blank d = true := by
  have hsplit := token_split s
  have hbl : ∀ b ∈ s.takeWhile blank, blank b = true := fun b hb => List.mem_takeWhile_imp hb
  have htok := firstToken_blank s
  constructor
  · intro hafter
    obtain ⟨d, t, hrest⟩ := List.exists_cons_of_ne_nil hafter
    obtain ⟨c, u, hword⟩ := List.exists_cons_of_ne_nil (firstToken_ne_nil hafter)
    have hd := afterToken_blank d t hrest
    have hc := htok c (by simp [hword])
    rw [hword, hrest] at hsplit
    generalize s.takeWhile blank = bl at hsplit
    clear hafter htok hword hrest
    subst hsplit
    exact ⟨bl.length, (bl ++ c :: u).length, c, d, by simp, by simp, hc, by simp, hd⟩
  · rintro ⟨i, j, c, d, hij, hi, hc, hj, hd⟩ hafter
    rw [hafter, List.append_nil] at hsplit
    have hge : (s.takeWhile blank).length ≤ i := by
      by_contra hlt
      rw [← hsplit, List.getElem?_append_left (by omega)] at hi
      exact absurd (hbl c (List.mem_of_getElem? hi)) (by simp [hc])
    rw [← hsplit, List.getElem?_append_right (by omega)] at hj
    exact absurd (htok d (List.mem_of_getElem? hj)) (by simp [hd])

/-- Delimiters, a word, and nothing or a delimiter behind it. -/
theorem firstRun_append {bl tok rest : List UInt8} (hbl : ∀ c ∈ bl, blank c = true)
    (htok : ∀ c ∈ tok, blank c = false) (hne : tok ≠ []) (hrest : ∀ c t, rest = c :: t → blank c = true) :
    FirstRun (bl ++ tok ++ rest) bl.length (bl.length + tok.length) := by
  have hpos := List.length_pos_of_ne_nil hne
  refine ⟨by omega, by simp, ?_, ?_, ?_⟩
  · rw [List.append_assoc, List.take_left]
    exact hbl
  · rw [← List.length_append, List.take_left, List.drop_left]
    exact htok
  · intro c hc
    rw [← List.length_append, List.getElem?_append_right le_rfl, Nat.sub_self] at hc
    rcases rest with _ | ⟨d, t⟩
    · simp at hc
    · rw [List.getElem?_cons_zero, Option.some.injEq] at hc
      rw [← hc]
      exact hrest d t rfl

theorem firstRun_token {s : List UInt8} (h : firstToken s ≠ []) :
    FirstRun s (s.takeWhile blank).length ((s.takeWhile blank).length + (firstToken s).length) := by
  have hbl : ∀ c ∈ s.takeWhile blank, blank c = true := fun c hc => List.mem_takeWhile_imp hc
  have hrun := firstRun_append hbl (firstToken_blank s) h (afterToken_blank (s := s))
  rwa [token_split] at hrun

/-- The first token is the right answer. -/
theorem tokenAnswer_token {s : List UInt8} (h : firstToken s ≠ []) (buf : ℕ) :
    TokenAnswer buf s (some (buf + (s.takeWhile blank).length,
      buf + (s.takeWhile blank).length + (firstToken s).length)) := by
  refine ⟨⟨fun hnone => absurd hnone (by simp), fun hall => absurd (firstToken_eq_nil_iff.mpr hall) h⟩, ?_⟩
  intro start stop heq
  rw [Option.some.injEq, Prod.mk.injEq] at heq
  exact ⟨_, _, heq.1.symm, by rw [← heq.2, Nat.add_assoc], firstRun_token h⟩

/-- A token that ends inside the buffer is found, whatever is behind the buffer. -/
theorem tokenReturns_inside {rd : Mem} {buf : ℕ} {s : List UInt8} (h : Reads rd buf s) (hafter : afterToken s ≠ []) :
    TokenReturns rd buf s.length (some (buf + (s.takeWhile blank).length,
      buf + (s.takeWhile blank).length + (firstToken s).length)) := by
  obtain ⟨c, t, hrest⟩ := List.exists_cons_of_ne_nil hafter
  have hsplit := token_split s
  have hlen := congrArg List.length hsplit
  simp only [List.length_append] at hlen
  have hread : Reads rd buf (s.takeWhile blank ++ firstToken s ++ [c]) := by
    rw [← hsplit, hrest, List.append_cons] at h
    exact h.left
  refine ⟨s.length + 1, fun fuel hfuel => ?_⟩
  exact parsetokenFuel_word fuel s.length (fun b hb => List.mem_takeWhile_imp hb) (firstToken_blank s)
    (firstToken_ne_nil hafter) (afterToken_blank c t hrest) (Or.inl (by omega)) (by omega) hread

/-- Nothing is behind the first token. -/
theorem token_end {s : List UInt8} (hafter : afterToken s = []) : s.takeWhile blank ++ firstToken s = s := by
  have hsplit := token_split s
  rwa [hafter, List.append_nil] at hsplit

/-- Without a character behind the first token, the character behind the buffer is read. -/
theorem parsetokenFuel_fault {rd : Mem} {buf fuel : ℕ} {s : List UInt8} (h : Reads rd buf s)
    (hend : rd (buf + s.length) = .error .outOfBounds) (hafter : afterToken s = []) (hfuel : s.length < fuel) :
    parsetokenFuel fuel rd buf s.length = .error .outOfBounds := by
  have hsplit := token_end hafter
  have hbl : ∀ b ∈ s.takeWhile blank, blank b = true := fun b hb => List.mem_takeWhile_imp hb
  have htok := firstToken_blank s
  generalize s.takeWhile blank = bl at hsplit hbl
  generalize firstToken s = tok at hsplit htok
  subst hsplit
  rw [parsetokenFuel]
  rcases tok with _ | ⟨x, tok⟩
  · -- delimiters only
    rw [List.append_nil] at h hend ⊢
    rw [skipBlanks_fault bl.length fuel 0 hbl (by omega) h (by rw [Nat.add_zero]; exact hend), error_bind]
  · rw [List.length_append, List.length_cons] at hend hfuel ⊢
    rw [List.append_cons] at h
    have hskip := skipBlanks_reads (bl.length + (tok.length + 1)) fuel 0 hbl (htok x List.mem_cons_self) (by omega)
      (by omega) h.left
    have hright := h.right
    rw [List.length_append, List.length_singleton] at hright
    have hfault := skipToken_fault (bl.length + (tok.length + 1)) fuel (bl.length + 1)
      (fun b hb => htok b (List.mem_cons_of_mem x hb)) (by omega) hright
      (by rw [← hend]; congr 1; omega)
    rw [Nat.zero_add] at hskip
    rw [hskip, ok_bind]
    simp only [hfault, error_bind]

/-- So the call never returns where that character cannot be read. -/
theorem not_tokenReturns_fault {rd : Mem} {buf : ℕ} {s : List UInt8} (h : Reads rd buf s)
    (hend : rd (buf + s.length) = .error .outOfBounds) (hafter : afterToken s = []) (r : Option (ℕ × ℕ)) :
    ¬TokenReturns rd buf s.length r := by
  rintro ⟨n, hn⟩
  have hfault := parsetokenFuel_fault h hend hafter (show s.length < max n (s.length + 1) by omega)
  rw [hn _ (le_max_left n (s.length + 1))] at hfault
  cases hfault

/-- **`parsetoken` keeps its contract** exactly on the buffers that go on behind their first token: a
character that is no delimiter has a delimiter somewhere behind it. -/
theorem parsetoken_contract_iff {rd : Mem} {buf : ℕ} {s : List UInt8} (h : Reads rd buf s) :
    TokenContract rd buf s ↔
      ∃ (i j : ℕ) (c d : UInt8), i < j ∧ s[i]? = some c ∧ blank c = false ∧ s[j]? = some d ∧ blank d = true := by
  rw [← afterToken_ne_nil_iff]
  have hin : Reads (within rd buf s.length) buf s := @reads_within rd buf s.length 0 s h (by omega)
  constructor
  · rintro ⟨r, -, -, hr⟩ hafter
    exact not_tokenReturns_fault hin (within_end rd buf s.length) hafter r hr
  · intro hafter
    exact ⟨_, tokenReturns_inside h hafter, tokenAnswer_token (firstToken_ne_nil hafter) buf,
      tokenReturns_inside hin hafter⟩

/-- A memory that holds `s` at address 0 and nothing else. -/
def textMem (s : List UInt8) : Mem := within (fun a => .ok (s.getD a 0)) 0 s.length

theorem reads_textMem (s : List UInt8) : Reads (textMem s) 0 s := by
  apply Reads.of_get
  intro i hi
  rw [textMem, within, if_pos ⟨by omega, by omega⟩, Nat.zero_add]

/-- Two words: the contract is kept. -/
theorem parsetoken_contract_iff_words :
    TokenContract (textMem (ascii " foo bar")) 0 (ascii " foo bar") :=
  (parsetoken_contract_iff (reads_textMem (ascii " foo bar"))).mpr
    ⟨1, 4, 0x66, SP, by decide, by decide, by decide, by decide, by decide⟩

/-- Three spaces in front of an `x`: it is returned as their token. -/
theorem parsetoken_beyond :
    Reads (textMem (ascii "   x ")) 0 (ascii "   ") ∧
      TokenReturns (textMem (ascii "   x ")) 0 3 (some (3, 4)) ∧
      ¬TokenContract (textMem (ascii "   x ")) 0 (ascii "   ") := by
  have hread := reads_textMem (ascii "   x ")
  have hreturns : TokenReturns (textMem (ascii "   x ")) 0 3 (some (3, 4)) :=
    ⟨5, fun fuel hfuel => @parsetokenFuel_word _ 0 fuel 3 (ascii "   ") (ascii "x") SP (by decide) (by decide)
      (by decide) (by decide) (Or.inr (by decide)) (show 4 < fuel by omega) hread⟩
  refine ⟨Reads.left (b := ascii "x ") hread, hreturns, ?_⟩
  rintro ⟨r, hr, ⟨hnone, -⟩, -⟩
  have hwrong : some (3, 4) = none := (hreturns.unique hr).trans (hnone.mpr (by decide))
  cases hwrong

/-! ## The pointers alone -/

/-- A token that ends with the buffer. -/
theorem tokenReturns_end {rd : Mem} {buf : ℕ} {s : List UInt8} {c : UInt8} (h : Reads rd buf (s ++ [c]))
    (htoken : firstToken s ≠ []) (hafter : afterToken s = []) :
    TokenReturns rd buf s.length (some (buf + (s.takeWhile blank).length,
      buf + (s.takeWhile blank).length + (firstToken s).length)) := by
  have hsplit := token_end hafter
  have hbl : ∀ b ∈ s.takeWhile blank, blank b = true := fun b hb => List.mem_takeWhile_imp hb
  have htok := firstToken_blank s
  generalize s.takeWhile blank = bl at hsplit hbl ⊢
  generalize firstToken s = tok at hsplit htok htoken ⊢
  subst hsplit
  obtain ⟨x, tok, rfl⟩ := List.exists_cons_of_ne_nil htoken
  have hlen : (bl ++ x :: tok).length = bl.length + 1 + tok.length := by simp; omega
  have hcut : bl ++ x :: tok ++ [c] = bl ++ [x] ++ (tok ++ [c]) := by simp
  rw [hcut] at h
  have hfirst : Reads rd (buf + 0) (bl ++ [x]) := h.left
  have hrest : Reads rd (buf + (bl.length + 1)) (tok ++ [c]) := by
    have hright := h.right
    rwa [List.length_append, List.length_singleton] at hright
  refine ⟨(bl ++ x :: tok).length + 1, fun fuel hfuel => ?_⟩
  have hskip := skipBlanks_reads (bl ++ x :: tok).length fuel 0 hbl (htok x List.mem_cons_self) (by omega) (by omega)
    hfirst
  have hstop := skipToken_stop (bl ++ x :: tok).length fuel (bl.length + 1)
    (fun b hb => htok b (List.mem_cons_of_mem x hb)) (by omega) hlen.symm hrest
  rw [Nat.zero_add] at hskip
  rw [parsetokenFuel, hskip, ok_bind]
  simp only [hstop, ok_bind]
  rw [hlen, List.length_cons]
  show Except.ok _ = _
  congr 3
  omega

/-- Delimiters up to the buffer's end and behind it. -/
theorem tokenReturns_none {rd : Mem} {buf : ℕ} {s : List UInt8} {c : UInt8} (h : Reads rd buf (s ++ [c]))
    (hs : ∀ b ∈ s, blank b = true) (hc : blank c = true) : TokenReturns rd buf s.length none := by
  have hall : ∀ b ∈ s ++ [c], blank b = true := by
    intro b hb
    rcases List.mem_append.mp hb with hb | hb
    · exact hs b hb
    · rw [List.mem_singleton.mp hb]
      exact hc
  refine ⟨s.length + 1, fun fuel hfuel => ?_⟩
  rw [parsetokenFuel, skipBlanks_none s.length fuel 0 hall (by omega) (by simp) (by omega) h, ok_bind]
  rfl

/-- Delimiters up to the buffer's end and another character behind it: never `NULL`. -/
theorem not_tokenReturns_none {rd : Mem} {buf : ℕ} {s : List UInt8} {c : UInt8} (h : Reads rd buf (s ++ [c]))
    (hs : ∀ b ∈ s, blank b = true) (hc : blank c = false) : ¬TokenReturns rd buf s.length none := by
  rintro ⟨n, hn⟩
  have hskip := skipBlanks_reads s.length (max n (s.length + 1)) 0 hs hc (by omega) (by omega) h
  have hret := hn _ (le_max_left n (s.length + 1))
  rw [parsetokenFuel, hskip, ok_bind] at hret
  rcases hstop : skipToken rd buf s.length (max n (s.length + 1)) (0 + s.length + 1) with e | j
  · simp only [hstop, error_bind] at hret
    cases hret
  · simp only [hstop, ok_bind] at hret
    cases hret

/-- **The pointers are right** exactly when the first token ends inside the buffer, or the character
behind the buffer can be read and, in a buffer without tokens, is a delimiter. -/
theorem parsetoken_answer_iff {rd : Mem} {buf : ℕ} {s : List UInt8} (h : Reads rd buf s) :
    (∃ r, TokenReturns rd buf s.length r ∧ TokenAnswer buf s r) ↔
      afterToken s ≠ [] ∨ ∃ c, rd (buf + s.length) = .ok c ∧ ((∀ b ∈ s, blank b = true) → blank c = true) := by
  constructor
  · rintro ⟨r, hr, hnone, -⟩
    by_cases hafter : afterToken s = []
    · right
      rcases hend : rd (buf + s.length) with e | c
      · exact absurd hr (not_tokenReturns_fault h hend hafter r)
      · refine ⟨c, rfl, fun hs => ?_⟩
        by_contra hc
        have hnot := not_tokenReturns_none (reads_append.mpr ⟨h, hend, trivial⟩) hs (by simpa using hc)
        rw [hnone.mpr hs] at hr
        exact hnot hr
    · exact Or.inl hafter
  · rintro (hafter | ⟨c, hend, hc⟩)
    · exact ⟨_, tokenReturns_inside h hafter, tokenAnswer_token (firstToken_ne_nil hafter) buf⟩
    have hread : Reads rd buf (s ++ [c]) := reads_append.mpr ⟨h, hend, trivial⟩
    by_cases htoken : firstToken s = []
    · have hs := firstToken_eq_nil_iff.mp htoken
      exact ⟨none, tokenReturns_none hread hs (hc hs), ⟨fun _ => hs, fun _ => rfl⟩, fun start stop heq => by cases heq⟩
    · by_cases hafter : afterToken s = []
      · exact ⟨_, tokenReturns_end hread htoken hafter, tokenAnswer_token htoken buf⟩
      · exact ⟨_, tokenReturns_inside h hafter, tokenAnswer_token htoken buf⟩

end Esp8266Toolbox
