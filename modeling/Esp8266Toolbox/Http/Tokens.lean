import Esp8266Toolbox.Http.ProcessTheorems

/-!
# The words of a line, and the words that `parsetoken` sees

`parsetoken` stops at the end of the line only if a blank stands behind it. A line that has run out
of words therefore borrows the first word of the next line, unless that line begins with a
blank. `seenToken` says which word is found.
-/

namespace Esp8266Toolbox

open Loops

/-- The first word of a text that may begin with blanks; empty if there is none. -/
def firstToken (s : List UInt8) : List UInt8 := firstWord (s.dropWhile blank)

/-- What stands behind the first word. -/
def afterToken (s : List UInt8) : List UInt8 := (s.dropWhile blank).dropWhile fun c => !blank c

/-- The second word; empty if there is none. -/
def secondToken (s : List UInt8) : List UInt8 := firstToken (afterToken s)

/-- The word that the scan of a line finds, `rest` being what stands behind the end of the line. -/
def seenToken (line rest : List UInt8) : List UInt8 :=
  if firstToken line = [] then firstWord rest else firstToken line

/-- Where the word starts. -/
def tokenAt (line : List UInt8) : ℕ :=
  if firstToken line = [] then line.length + 2 else (line.takeWhile blank).length

/-! ## Words -/

/-- Blanks, the first word, and the rest. -/
theorem token_split (s : List UInt8) : s.takeWhile blank ++ firstToken s ++ afterToken s = s := by
  rw [firstToken, firstWord, afterToken, List.append_assoc, List.takeWhile_append_dropWhile,
    List.takeWhile_append_dropWhile]

theorem firstToken_blank (s : List UInt8) : ∀ c ∈ firstToken s, blank c = false := by
  intro c hc
  simpa using List.mem_takeWhile_imp hc

theorem firstWord_eq_nil {s : List UInt8} (h : firstWord s = []) : s = [] ∨ ∃ c t, s = c :: t ∧ blank c = true := by
  rcases s with _ | ⟨c, t⟩
  · exact Or.inl rfl
  · right
    refine ⟨c, t, rfl, ?_⟩
    by_contra hc
    rw [firstWord, List.takeWhile_cons_of_pos (by simpa using hc)] at h
    simp at h

/-- A text without words is blank. -/
theorem firstToken_eq_nil_iff {s : List UInt8} : firstToken s = [] ↔ ∀ c ∈ s, blank c = true := by
  rw [← List.dropWhile_eq_nil_iff]
  constructor
  · intro h
    rcases firstWord_eq_nil h with hnil | ⟨c, t, hs, hc⟩
    · exact hnil
    · have hno := List.dropWhile_get_zero_not blank s (by rw [hs]; simp)
      simp [hs, hc] at hno
  · intro h
    rw [firstToken, h]
    rfl

theorem afterToken_blank {s : List UInt8} : ∀ c t, afterToken s = c :: t → blank c = true := by
  intro c t hs
  have hno := List.dropWhile_get_zero_not (fun c => !blank c) (s.dropWhile blank)
    (by rw [afterToken] at hs; rw [hs]; simp)
  rw [afterToken] at hs
  simpa [hs] using hno

/-- Only one word comes first. -/
theorem token_unique {bl tok r : List UInt8} (hbl : ∀ b ∈ bl, blank b = true)
    (htok : ∀ b ∈ tok, blank b = false) (hne : tok ≠ []) (hr : ∀ c t, r = c :: t → blank c = true) :
    (bl ++ tok ++ r).takeWhile blank = bl ∧ firstToken (bl ++ tok ++ r) = tok ∧
      afterToken (bl ++ tok ++ r) = r := by
  rcases tok with _ | ⟨x, tok⟩
  · exact absurd rfl hne
  have hx : ¬blank x = true := by simp [htok x List.mem_cons_self]
  have hword : ∀ b ∈ x :: tok, (!blank b) = true := fun b hb => by simp [htok b hb]
  have hrest : r.takeWhile (fun c => !blank c) = [] ∧ r.dropWhile (fun c => !blank c) = r := by
    rcases r with _ | ⟨c, t⟩
    · exact ⟨rfl, rfl⟩
    · have hc : ¬(!blank c) = true := by simp [hr c t rfl]
      exact ⟨List.takeWhile_cons_of_neg hc, List.dropWhile_cons_of_neg hc⟩
  have hdrop : (bl ++ (x :: tok) ++ r).dropWhile blank = x :: tok ++ r := by
    rw [List.append_assoc, List.dropWhile_append_of_pos hbl, List.cons_append, List.dropWhile_cons_of_neg hx]
  refine ⟨?_, ?_, ?_⟩
  · rw [List.append_assoc, List.takeWhile_append_of_pos hbl, List.cons_append,
      List.takeWhile_cons_of_neg hx, List.append_nil]
  · rw [firstToken, hdrop, firstWord, List.takeWhile_append_of_pos hword, hrest.1, List.append_nil]
  · rw [afterToken, hdrop, List.dropWhile_append_of_pos hword, hrest.2]

/-- The first word of a line does not reach past the end of the line. -/
theorem token_append {line : List UInt8} (h : firstToken line ≠ []) {rest : List UInt8}
    (hrest : ∀ c t, rest = c :: t → blank c = true) :
    (line ++ rest).takeWhile blank = line.takeWhile blank ∧ firstToken (line ++ rest) = firstToken line ∧
      afterToken (line ++ rest) = afterToken line ++ rest := by
  have hsplit : line ++ rest = line.takeWhile blank ++ firstToken line ++ (afterToken line ++ rest) := by
    rw [← List.append_assoc, token_split]
  rw [hsplit]
  refine token_unique (fun b hb => List.mem_takeWhile_imp hb) (firstToken_blank line) h ?_
  intro c t hc
  rcases hafter : afterToken line with _ | ⟨d, u⟩
  · rw [hafter, List.nil_append] at hc
    exact hrest c t hc
  · rw [hafter, List.cons_append, List.cons.injEq] at hc
    rw [← hc.1]
    exact afterToken_blank d u hafter

/-! ## The scan of a line -/

theorem skipBlanks_none {rd : Mem} {buf : ℕ} (len fuel i : ℕ) {bl : List UInt8}
    (hbl : ∀ b ∈ bl, blank b = true) (hi : i ≤ len) (hlen : len < i + bl.length) (hfuel : len < fuel + i)
    (h : Reads rd (buf + i) bl) : skipBlanks rd buf len fuel i = .ok none := by
  induction bl generalizing fuel i with
  | nil => simp at hlen; omega
  | cons b bl ih =>
    rcases fuel with _ | fuel
    · omega
    rw [List.length_cons] at hlen
    rw [skipBlanks, h.1]
    simp only [ok_bind, hbl b List.mem_cons_self, if_true]
    by_cases heq : i = len
    · rw [if_pos heq]
      rfl
    · rw [if_neg heq]
      exact ih fuel (i + 1) (fun x hx => hbl x (List.mem_cons_of_mem b hx)) (by omega) (by omega)
        (by omega) h.2

/-- Nothing but blanks, also behind the length. -/
theorem parsetoken_none {rd : Mem} {buf len : ℕ} {bl : List UInt8} (hbl : ∀ b ∈ bl, blank b = true)
    (hlen : len < bl.length) (hram : len < ramSize) (h : Reads rd buf bl) : parsetoken rd buf len = .ok none := by
  rw [parsetoken, skipBlanks_none len ramSize 0 hbl (Nat.zero_le len) (by omega) (by omega) h]
  rfl

/-- What follows a line starts with a blank. -/
theorem crlf_append_blank {rest : List UInt8} (c : UInt8) (t : List UInt8) (hc : crlf ++ rest = c :: t) :
    blank c = true := by
  rw [crlf, List.cons_append, List.cons.injEq] at hc
  rw [← hc.1]
  rfl

/-- The first word behind a blank line, where there is one, is the word that is found. -/
theorem parsetoken_blankLine {rd : Mem} {buf : ℕ} {line rest : List UInt8}
    (h : Reads rd buf (line ++ crlf ++ rest)) (hend : ∃ c ∈ rest, blank c = true)
    (hram : (line ++ crlf ++ rest).length < ramSize) (hline : firstToken line = []) :
    (firstWord rest = [] → parsetoken rd buf (line.length + 2) = .ok none) ∧
      (firstWord rest ≠ [] →
        parsetoken rd buf (line.length + 2) = .ok (some (buf + (line.length + 2),
          buf + (line.length + 2) + (firstWord rest).length)) ∧
        ∃ c, blank c = true ∧ Reads rd (buf + (line.length + 2)) (firstWord rest ++ [c])) := by
  simp only [List.length_append, show crlf.length = 2 from rfl] at hram
  have hcrlf : ∀ b ∈ crlf, blank b = true := by decide
  have hblank : ∀ b ∈ line ++ crlf, blank b = true := fun b hb =>
    (List.mem_append.mp hb).elim (firstToken_eq_nil_iff.mp hline b) (hcrlf b)
  have hlen : (line ++ crlf).length = line.length + 2 := by simp [crlf]
  constructor
  · intro hword
    rcases firstWord_eq_nil hword with rfl | ⟨c, t, rfl, hc⟩
    · simp at hend
    -- a blank behind the line
    have hread : Reads rd buf (line ++ crlf ++ [c]) := Reads.left (b := t) (by simpa using h)
    have hall : ∀ b ∈ line ++ crlf ++ [c], blank b = true := by
      intro b hb
      rcases List.mem_append.mp hb with hb | hb
      · exact hblank b hb
      · rw [List.mem_singleton.mp hb]
        exact hc
    exact parsetoken_none hall (by simp [crlf]) (by omega) hread
  · intro hword
    have hsplit : firstWord rest ++ rest.dropWhile (fun c => !blank c) = rest :=
      List.takeWhile_append_dropWhile
    have htok : ∀ b ∈ firstWord rest, blank b = false := fun b hb => by
      simpa using List.mem_takeWhile_imp hb
    -- the word of the next line ends somewhere
    rcases hback : rest.dropWhile (fun c => !blank c) with _ | ⟨c, t⟩
    · rw [hback, List.append_nil] at hsplit
      obtain ⟨c, hc, hcb⟩ := hend
      rw [← hsplit] at hc
      simp [htok c hc] at hcb
    · have hno := List.dropWhile_get_zero_not (fun c => !blank c) rest (by rw [hback]; simp)
      have hc : blank c = true := by simpa [hback] using hno
      rw [hback] at hsplit
      rw [← hsplit, ← List.append_assoc] at h
      have hread : Reads rd buf (line ++ crlf ++ firstWord rest ++ [c]) :=
        Reads.left (b := t) (by simpa using h)
      have hle : (firstWord rest).length ≤ rest.length := (List.takeWhile_prefix _).length_le
      have hfound := parsetoken_word (line.length + 2) hblank htok hword hc (Or.inr hlen.symm)
        (by rw [hlen]; omega) hread
      rw [hlen] at hfound
      refine ⟨hfound, c, hc, ?_⟩
      rw [List.append_assoc (line ++ crlf)] at hread
      have hat := hread.right
      rwa [hlen] at hat

/-- The first word of a line is found; it ends at a blank of the line, or at the end of the line. -/
theorem parsetoken_wordLine {rd : Mem} {buf : ℕ} {line rest : List UInt8}
    (h : Reads rd buf (line ++ crlf ++ rest)) (hram : (line ++ crlf ++ rest).length < ramSize)
    (hline : firstToken line ≠ []) :
    parsetoken rd buf (line.length + 2) = .ok (some (buf + (line.takeWhile blank).length,
        buf + (line.takeWhile blank).length + (firstToken line).length)) ∧
      ∃ c, blank c = true ∧ Reads rd (buf + (line.takeWhile blank).length) (firstToken line ++ [c]) := by
  simp only [List.length_append, show crlf.length = 2 from rfl] at hram
  have htok := token_append hline (@crlf_append_blank rest)
  rw [← List.append_assoc] at htok
  obtain ⟨hbl, hfirst, hafter⟩ := htok
  obtain ⟨c, t, hback⟩ : ∃ c t, afterToken (line ++ crlf ++ rest) = c :: t := by
    rw [hafter]
    rcases afterToken line with _ | ⟨c, t⟩
    · exact ⟨CR, LF :: rest, by simp [crlf]⟩
    · exact ⟨c, t ++ (crlf ++ rest), rfl⟩
  have hsplit := token_split (line ++ crlf ++ rest)
  rw [hbl, hfirst, hback] at hsplit
  have hread : Reads rd buf (line.takeWhile blank ++ firstToken line ++ [c]) := by
    rw [← hsplit] at h
    exact Reads.left (b := t) (by simpa using h)
  have hlen : (line.takeWhile blank).length + (firstToken line).length ≤ line.length := by
    have hall := congrArg List.length (token_split line)
    simp only [List.length_append] at hall
    omega
  have hfound := parsetoken_word (line.length + 2) (fun b hb => List.mem_takeWhile_imp hb)
    (firstToken_blank line) hline (afterToken_blank c t hback) (Or.inl (by omega)) (by omega) hread
  rw [List.append_assoc] at hread
  exact ⟨hfound, c, afterToken_blank c t hback, hread.right⟩

/-- **The scan of a line** finds the word that `seenToken` says. -/
theorem parsetoken_line {rd : Mem} {buf : ℕ} {line rest : List UInt8} (h : Reads rd buf (line ++ crlf ++ rest))
    (hend : ∃ c ∈ rest, blank c = true) (hram : (line ++ crlf ++ rest).length < ramSize) :
    (seenToken line rest = [] → parsetoken rd buf (line.length + 2) = .ok none) ∧
      (seenToken line rest ≠ [] →
        parsetoken rd buf (line.length + 2) =
            .ok (some (buf + tokenAt line, buf + tokenAt line + (seenToken line rest).length)) ∧
          ∃ c, blank c = true ∧ Reads rd (buf + tokenAt line) (seenToken line rest ++ [c])) := by
  unfold seenToken tokenAt
  by_cases hline : firstToken line = []
  · simp only [if_pos hline]
    exact parsetoken_blankLine h hend hram hline
  · simp only [if_neg hline]
    exact ⟨fun h0 => absurd h0 hline, fun _ => parsetoken_wordLine h hram hline⟩

/-! ## The scan behind a borrowed word -/

/-- The scan does not stop inside a word. -/
theorem skipToken_atLeast {rd : Mem} {buf : ℕ} (len fuel i : ℕ) {tok : List UInt8} {j : ℕ}
    (htok : ∀ b ∈ tok, blank b = false) (hlen : i + tok.length ≤ len) (h : Reads rd (buf + i) tok)
    (hj : skipToken rd buf len fuel i = .ok j) : i + tok.length ≤ j := by
  induction fuel generalizing i tok with
  | zero => simp [skipToken] at hj
  | succ fuel ih =>
    rw [skipToken] at hj
    rcases tok with _ | ⟨b, tok⟩
    · rcases hc : rd (buf + i) with e | c
      · rw [hc] at hj
        cases hj
      · -- the scan only goes forward
        rw [hc] at hj
        simp only [ok_bind] at hj
        split at hj
        · cases hj
          exact Nat.le_refl _
        · split at hj
          · cases hj
            exact Nat.le_refl _
          · have hlt : i < len := by
              simp at hlen
              omega
            have hnil : ∀ b ∈ ([] : List UInt8), blank b = false := by simp
            have hnext := ih (i + 1) hnil (by simp; omega) trivial hj
            simp at hnext ⊢
            omega
    · rw [List.length_cons] at hlen ⊢
      rw [h.1] at hj
      simp only [ok_bind, htok b List.mem_cons_self, Bool.false_eq_true, if_false,
        if_neg (show i ≠ len by omega)] at hj
      have hnext := ih (i + 1) (fun x hx => htok x (List.mem_cons_of_mem b hx)) (by omega) h.2 hj
      omega

/-- A scan without a near end finds at least what is there of the first word. -/
theorem parsetoken_atLeast {rd : Mem} {buf len : ℕ} {s : List UInt8} (h : Reads rd buf s)
    (hne : firstToken s ≠ []) (hlen : s.length ≤ len) (hram : s.length < ramSize) {r : Option (ℕ × ℕ)}
    (hr : parsetoken rd buf len = .ok r) :
    ∃ p q, r = some (p, q) ∧ (firstToken s).length ≤ q - p := by
  have hblank := firstToken_blank s
  have hsplit := token_split s
  rcases htok : firstToken s with _ | ⟨x, tok⟩
  · exact absurd htok hne
  rw [htok] at hsplit hblank
  have hsum := congrArg List.length hsplit
  simp only [List.length_append, List.length_cons] at hsum
  rw [← hsplit] at h
  have hfirst : Reads rd (buf + 0) (s.takeWhile blank ++ [x]) :=
    Reads.left (b := tok ++ afterToken s) (by simpa using h)
  have hskip := skipBlanks_reads len ramSize 0 (fun b hb => List.mem_takeWhile_imp hb)
    (hblank x List.mem_cons_self) (by omega) (by omega) hfirst
  rw [parsetoken, hskip] at hr
  simp only [ok_bind, Nat.zero_add] at hr
  rcases hscan : skipToken rd buf len ramSize ((s.takeWhile blank).length + 1) with e | j
  · rw [hscan] at hr
    cases hr
  rw [hscan] at hr
  have hword : Reads rd (buf + ((s.takeWhile blank).length + 1)) tok := h.left.right.2
  have hle := skipToken_atLeast len ramSize _ (fun b hb => hblank b (List.mem_cons_of_mem x hb)) (by omega)
    hword hscan
  cases hr
  exact ⟨_, _, rfl, by simp only [List.length_cons]; omega⟩

/-- Bytes that stop every scan. -/
def stopper : List UInt8 := [SP, 0x78, SP]

/-- With such bytes behind the text the scan finds a word, and `atoi` a number. -/
theorem parsetoken_stopper {rd : Mem} {buf len : ℕ} {s : List UInt8} (h : Reads rd buf (s ++ stopper))
    (hlen : s.length + 3 ≤ len) (hram : s.length + 5 < ramSize) :
    ∃ p w, parsetoken rd buf len = .ok (some (p, p + w.length)) ∧ readBytes rd p w.length = .ok w ∧ w ≠ [] ∧
      w.length ≤ max 1 (firstToken s).length ∧ ∃ n, atoi rd p = .ok n := by
  by_cases hs : firstToken s = []
  · -- the text has no word: the scan finds the one behind it
    have hblank : ∀ b ∈ s ++ [SP], blank b = true := fun b hb =>
      (List.mem_append.mp hb).elim (firstToken_eq_nil_iff.mp hs b) (fun hb => by
        rw [List.mem_singleton.mp hb]
        rfl)
    have hread : Reads rd buf (s ++ [SP] ++ [0x78] ++ [SP]) := by simpa [stopper] using h
    have hlen' : (s ++ [SP]).length = s.length + 1 := by simp
    have hfound := parsetoken_word len hblank (by decide : ∀ b ∈ [(0x78 : UInt8)], blank b = false)
      (by simp) (show blank SP = true by rfl) (Or.inl (by simp; omega)) (by simp; omega) hread
    have hword : Reads rd (buf + (s ++ [SP]).length) ([] ++ [0x78]) := hread.left.right
    refine ⟨buf + (s ++ [SP]).length, [0x78], hfound, readBytes_reads hword, by simp, by simp, ?_⟩
    exact atoi_ok hword (by decide) (by decide) (by decide) (by decide)
  · have hstop : ∀ c t, stopper = c :: t → blank c = true := by
      intro c t hc
      rw [stopper, List.cons.injEq] at hc
      rw [← hc.1]
      rfl
    have hsplit := token_split s
    have hsum := congrArg List.length hsplit
    simp only [List.length_append] at hsum
    obtain ⟨c, t, hback⟩ : ∃ c t, afterToken s ++ stopper = c :: t := by
      rcases afterToken s with _ | ⟨c, t⟩
      · exact ⟨_, _, rfl⟩
      · exact ⟨_, _, rfl⟩
    have hc : blank c = true := by
      rcases hafter : afterToken s with _ | ⟨d, u⟩
      · rw [hafter, List.nil_append] at hback
        exact hstop c t hback
      · rw [hafter, List.cons_append, List.cons.injEq] at hback
        rw [← hback.1]
        exact afterToken_blank d u hafter
    have hall : Reads rd buf (s.takeWhile blank ++ firstToken s ++ (afterToken s ++ stopper)) := by
      rw [← List.append_assoc, hsplit]
      exact h
    have hread : Reads rd buf (s.takeWhile blank ++ firstToken s ++ [c]) := by
      rw [hback] at hall
      exact Reads.left (b := t) (by simpa using hall)
    have hfound := parsetoken_word len (fun b hb => List.mem_takeWhile_imp hb) (firstToken_blank s) hs hc
      (Or.inl (by omega)) (by omega) hread
    refine ⟨_, _, hfound, readBytes_reads hread.left.right, hs, by omega, ?_⟩
    -- `atoi` stops at the stopper at the latest
    rw [List.append_assoc] at hall
    have hrest : Reads rd (buf + (s.takeWhile blank).length)
        (firstToken s ++ afterToken s ++ [SP] ++ [0x78]) :=
      Reads.left (b := [SP]) (by simpa [stopper] using hall.right)
    exact atoi_ok hrest (by decide) (by decide) (by decide) (by simp; omega)

/-! ## The comparison -/

/-- One of the two texts begins with the other: this is what the comparison of a token tells. -/
def Like (token : List UInt8) (text : String) : Prop := token <+: ascii text ∨ ascii text <+: token

instance (token : List UInt8) (text : String) : Decidable (Like token text) :=
  inferInstanceAs (Decidable (_ ∨ _))

theorem tokenIs_iff (token : List UInt8) {text : String} (h : 0 ∉ ascii text) :
    tokenIs token text = true ↔ Like token text := by
  unfold tokenIs Like
  rw [decide_eq_true_eq]
  rcases Nat.le_total token.length (ascii text).length with hle | hle
  · rw [min_eq_left hle, strncmp_eq_zero_iff_take (Nat.le_refl _) hle h, List.take_length]
    constructor
    · intro heq
      exact Or.inl (List.prefix_iff_eq_take.mpr heq)
    · rintro (hpre | hpre)
      · exact List.prefix_iff_eq_take.mp hpre
      · have heq := hpre.eq_of_length_le hle
        rw [heq, List.take_length]
  · rw [min_eq_right hle, strncmp_length_eq_zero_iff h]
    constructor
    · exact Or.inr
    · rintro (hpre | hpre)
      · rw [hpre.eq_of_length_le hle]
      · exact hpre

end Esp8266Toolbox
