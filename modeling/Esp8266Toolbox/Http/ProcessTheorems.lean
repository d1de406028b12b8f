import Esp8266Toolbox.Http.Request

/-!
# What the scanners of `http/process.c` find

The memory holds a text (`Reads`), and each scanner is followed through it: `parseline` to
the end of a line or past an unfinished one, `parsetoken` to the end of a word, and from
these the request line, a header line and the loop over the header lines. An unfinished
line is where the length that the source keeps by hand matters.
-/

namespace Esp8266Toolbox

open Loops

/-! ## Lines -/

/-- A line without its end, or without the last byte of its end. -/
def OpenLine (bs : List UInt8) : Prop := ∃ t, LineText t ∧ (bs = t ∨ bs = t ++ [CR])

theorem LineText.tail {c : UInt8} {bs : List UInt8} (h : LineText (c :: bs)) : LineText bs :=
  fun x hx => h x (List.mem_cons_of_mem c hx)

/-- What is there of a line that is not complete. -/
theorem openLine_of_prefix {t bs : List UInt8} (ht : LineText t) (hpre : bs <+: t ++ crlf)
    (hlt : bs.length < (t ++ crlf).length) : OpenLine bs := by
  rcases hpre with ⟨rest, hrest⟩
  by_cases hle : bs.length ≤ t.length
  · refine ⟨bs, fun c hc => ht c ?_, Or.inl rfl⟩
    have hsub : bs <+: t := List.prefix_of_prefix_length_le ⟨rest, hrest⟩ (List.prefix_append t crlf) hle
    exact hsub.subset hc
  · -- one byte of the line end is there
    have hlen : bs.length = t.length + 1 := by
      rw [List.length_append, show crlf.length = 2 from rfl] at hlt
      omega
    have hbs : bs = (t ++ crlf).take (t.length + 1) := by
      rw [← hrest, List.take_left' hlen]
    refine ⟨t, ht, Or.inr ?_⟩
    rw [hbs, List.take_append, List.take_of_length_le (by omega), Nat.add_sub_cancel_left]
    rfl

theorem LineText.no_crlf {bs : List UInt8} (h : LineText bs) : ¬crlf <:+: bs := fun hin =>
  (h CR (hin.subset List.mem_cons_self)).1 rfl

/-- The scan finds the first end of a line. -/
theorem parselineFrom_line {rd : Mem} {buf : ℕ} {t : List UInt8} (ht : ¬crlf <:+: t) {n i : ℕ}
    (hn : t.length < n) (h : Reads rd (buf + i) (t ++ crlf)) :
    parselineFrom rd buf n (i + 1) = .ok (some (buf + i + t.length + 2)) := by
  induction t generalizing n i with
  | nil =>
    rcases n with _ | n
    · omega
    have h1 : rd (buf + (i + 1) - 1) = .ok CR := h.1
    have h2 : rd (buf + (i + 1)) = .ok LF := h.2.1
    rw [parselineFrom, h1]
    simp only [ok_bind, if_true, h2]
    rfl
  | cons c t ih =>
    rcases n with _ | n
    · omega
    have h1 : rd (buf + (i + 1) - 1) = .ok c := h.1
    have hrest := ih (fun hin => ht (hin.trans (List.suffix_cons c t).isInfix)) (n := n) (i := i + 1)
      (by simpa using hn) h.2
    have hnext : parselineFrom rd buf n (i + 1 + 1) = .ok (some (buf + i + (c :: t).length + 2)) := by
      rw [hrest, List.length_cons]
      congr 2
      omega
    rw [parselineFrom, h1]
    simp only [ok_bind]
    by_cases hc : c = CR
    · -- the byte behind this `\r` is no `\n`
      rcases t with _ | ⟨d, t⟩
      · have h2 : rd (buf + (i + 1)) = .ok CR := h.2.1
        rw [if_pos hc, h2]
        simp only [ok_bind, show CR ≠ LF by decide, if_false]
        exact hnext
      · have h2 : rd (buf + (i + 1)) = .ok d := h.2.1
        have hd : d ≠ LF := by
          rintro rfl
          exact ht ⟨[], t, by rw [hc]; rfl⟩
        rw [if_pos hc, h2]
        simp only [ok_bind, hd, if_false]
        exact hnext
    · rw [if_neg hc]
      exact hnext

/-- The scan finds the end of a line. -/
theorem parselineFrom_found {rd : Mem} {buf : ℕ} {t : List UInt8} (ht : LineText t) {n i : ℕ}
    (hn : t.length < n) (h : Reads rd (buf + i) (t ++ crlf)) :
    parselineFrom rd buf n (i + 1) = .ok (some (buf + i + t.length + 2)) :=
  parselineFrom_line ht.no_crlf hn h

/-- An unfinished line with zeros behind it. -/
def Unfinished (bs : List UInt8) : Prop :=
  ∃ o z, OpenLine o ∧ bs = o ++ List.replicate (z + 1) 0

theorem Unfinished.tail {c : UInt8} {bs : List UInt8} (h : Unfinished (c :: bs)) : bs = [] ∨ Unfinished bs := by
  rcases h with ⟨o, z, ⟨t, ht, ho⟩, heq⟩
  rcases o with _ | ⟨x, o⟩
  · rw [List.nil_append, List.replicate_succ, List.cons.injEq] at heq
    rcases z with _ | z
    · exact Or.inl heq.2
    · exact Or.inr ⟨[], z, ⟨[], by simp [LineText], Or.inl rfl⟩, heq.2⟩
  · rw [List.cons_append, List.cons.injEq] at heq
    refine Or.inr ⟨o, z, ?_, heq.2⟩
    rcases ho with ho | ho
    · rw [← ho] at ht
      exact ⟨o, ht.tail, Or.inl rfl⟩
    · rcases t with _ | ⟨y, t⟩
      · rw [List.nil_append, List.cons.injEq] at ho
        exact ⟨[], by simp [LineText], Or.inl ho.2⟩
      · rw [List.cons_append, List.cons.injEq] at ho
        exact ⟨t, ht.tail, Or.inr ho.2⟩

/-- After a carriage return, an unfinished line goes on with a zero. -/
theorem Unfinished.next {bs : List UInt8} (h : Unfinished (CR :: bs)) : ∃ rest, bs = 0 :: rest := by
  rcases h with ⟨o, z, ⟨t, ht, ho⟩, heq⟩
  rcases t with _ | ⟨y, t⟩
  · rcases ho with rfl | rfl
    · rw [List.nil_append, List.replicate_succ, List.cons.injEq] at heq
      exact absurd heq.1 (by decide)
    · rw [List.nil_append, List.singleton_append, List.cons.injEq] at heq
      exact ⟨_, heq.2⟩
  · have hy : y = CR := by
      rcases ho with rfl | rfl
      · rw [List.cons_append, List.cons.injEq] at heq
        exact heq.1.symm
      · rw [List.cons_append, List.cons_append, List.cons.injEq] at heq
        exact heq.1.symm
    exact absurd hy (ht y List.mem_cons_self).1

/-- The scan of an unfinished line finds nothing, as long as it stays in front of its end. -/
theorem parselineFrom_none {rd : Mem} {buf : ℕ} {bs : List UInt8} (hbs : Unfinished bs) {n i : ℕ}
    (hn : n ≤ bs.length) (h : Reads rd (buf + i) bs) : parselineFrom rd buf n (i + 1) = .ok none := by
  induction bs generalizing n i with
  | nil =>
    rcases n with _ | n
    · rfl
    · simp at hn
  | cons c bs ih =>
    rcases n with _ | n
    · rfl
    have h1 : rd (buf + (i + 1) - 1) = .ok c := h.1
    have hrest : parselineFrom rd buf n (i + 1 + 1) = .ok none := by
      rcases hbs.tail with rfl | hbs'
      · have : n = 0 := by simpa using hn
        rw [this, parselineFrom]
      · exact ih hbs' (by simpa using hn) h.2
    rw [parselineFrom, h1]
    simp only [ok_bind]
    by_cases hc : c = CR
    · subst hc
      rcases hbs.next with ⟨rest, rfl⟩
      have h2 : rd (buf + (i + 1)) = .ok 0 := h.2.1
      simp only [if_true, h2, ok_bind, show (0 : UInt8) ≠ LF by decide, if_false]
      exact hrest
    · simp only [hc, if_false]
      exact hrest

/-- A scan that goes on reads the byte behind the memory it knows. -/
theorem parselineFrom_beyond {rd : Mem} {buf : ℕ} {bs : List UInt8} (hbs : Unfinished bs) {n i : ℕ}
    (hn : bs.length < n) (h : Reads rd (buf + i) bs) {fault : Fault}
    (hout : rd (buf + i + bs.length) = .error fault) : parselineFrom rd buf n (i + 1) = .error fault := by
  induction bs generalizing n i with
  | nil =>
    rcases hbs with ⟨o, z, -, heq⟩
    rw [List.replicate_succ] at heq
    simp at heq
  | cons c bs ih =>
    rcases n with _ | n
    · omega
    have h1 : rd (buf + (i + 1) - 1) = .ok c := h.1
    have hout' : rd (buf + (i + 1) + bs.length) = .error fault := by
      rw [← hout, List.length_cons]
      congr 1
      omega
    have hrest : parselineFrom rd buf n (i + 1 + 1) = .error fault := by
      rcases hbs.tail with rfl | hbs'
      · rcases n with _ | n
        · simp at hn
        · have hstop : rd (buf + (i + 1 + 1) - 1) = .error fault := hout'
          rw [parselineFrom, hstop]
          rfl
      · exact ih hbs' (by simpa using hn) h.2 hout'
    rw [parselineFrom, h1]
    simp only [ok_bind]
    -- a `CR` looks at the next byte too, which the memory still has
    by_cases hc : c = CR
    · subst hc
      rcases hbs.next with ⟨rest, rfl⟩
      have h2 : rd (buf + (i + 1)) = .ok 0 := h.2.1
      simp only [if_true, h2, ok_bind, show (0 : UInt8) ≠ LF by decide, if_false]
      exact hrest
    · simp only [hc, if_false]
      exact hrest

/-! ## Words -/

theorem skipBlanks_reads {rd : Mem} {buf : ℕ} (len fuel i : ℕ) {bl : List UInt8} {c : UInt8}
    (hbl : ∀ b ∈ bl, blank b = true) (hc : blank c = false) (hfuel : bl.length < fuel)
    (hlen : i + bl.length ≤ len) (h : Reads rd (buf + i) (bl ++ [c])) :
    skipBlanks rd buf len fuel i = .ok (some (i + bl.length)) := by
  induction bl generalizing fuel i with
  | nil =>
    rcases fuel with _ | fuel
    · omega
    rw [skipBlanks, h.1]
    simp only [ok_bind, hc]
    rfl
  | cons b bl ih =>
    rcases fuel with _ | fuel
    · omega
    rw [List.length_cons] at hlen
    have hrest := ih fuel (i + 1) (fun x hx => hbl x (List.mem_cons_of_mem b hx))
      (by simpa using hfuel) (by omega) h.2
    rw [skipBlanks, h.1]
    simp only [ok_bind, hbl b List.mem_cons_self, if_true, if_neg (show i ≠ len by omega)]
    rw [hrest, List.length_cons]
    congr 2
    omega

theorem skipToken_reads {rd : Mem} {buf : ℕ} (len fuel i : ℕ) {tok : List UInt8} {c : UInt8}
    (htok : ∀ b ∈ tok, blank b = false) (hc : blank c = true) (hfuel : tok.length < fuel)
    (hlen : i + tok.length ≤ len ∨ len < i) (h : Reads rd (buf + i) (tok ++ [c])) :
    skipToken rd buf len fuel i = .ok (i + tok.length) := by
  induction tok generalizing fuel i with
  | nil =>
    rcases fuel with _ | fuel
    · omega
    rw [skipToken, h.1]
    simp only [ok_bind, hc, if_true]
    rfl
  | cons b tok ih =>
    rcases fuel with _ | fuel
    · omega
    rw [List.length_cons] at hlen
    have hrest := ih fuel (i + 1) (fun x hx => htok x (List.mem_cons_of_mem b hx))
      (by simpa using hfuel) (by omega) h.2
    rw [skipToken, h.1]
    simp only [ok_bind, htok b List.mem_cons_self, Bool.false_eq_true, if_false,
      if_neg (show i ≠ len by omega)]
    rw [hrest, List.length_cons]
    congr 1
    omega

/-- `parsetoken` with a bound on the passes of its loops. -/
def parsetokenFuel (fuel : ℕ) (rd : Mem) (buf len : ℕ) : Except Fault (Option (ℕ × ℕ)) := do
  match ← skipBlanks rd buf len fuel 0 with
  | none => return none
  | some i =>
    let j ← skipToken rd buf len fuel (i + 1)
    return some (buf + i, buf + j)

/-- A word between blanks. One that begins where the length ends is still found. -/
theorem parsetokenFuel_word {rd : Mem} {buf : ℕ} (fuel len : ℕ) {bl tok : List UInt8} {c : UInt8}
    (hbl : ∀ b ∈ bl, blank b = true) (htok : ∀ b ∈ tok, blank b = false) (hne : tok ≠ [])
    (hc : blank c = true) (hlen : bl.length + tok.length ≤ len ∨ len = bl.length)
    (hfuel : bl.length + tok.length < fuel) (h : Reads rd buf (bl ++ tok ++ [c])) :
    parsetokenFuel fuel rd buf len = .ok (some (buf + bl.length, buf + bl.length + tok.length)) := by
  rcases tok with _ | ⟨x, tok⟩
  · exact absurd rfl hne
  rw [List.length_cons] at hlen hfuel
  have hfirst : Reads rd (buf + 0) (bl ++ [x]) := by
    rw [List.append_assoc, List.cons_append, ← List.singleton_append, ← List.append_assoc] at h
    exact h.left
  have hrest : Reads rd (buf + (bl.length + 1)) (tok ++ [c]) := by
    rw [List.append_assoc, List.cons_append] at h
    exact h.right.2
  have hskip := skipBlanks_reads len fuel 0 hbl (htok x List.mem_cons_self) (by omega) (by omega) hfirst
  have htoken := skipToken_reads len fuel (bl.length + 1)
    (fun b hb => htok b (List.mem_cons_of_mem x hb)) hc (by omega) (by omega) hrest
  rw [Nat.zero_add] at hskip
  rw [parsetokenFuel, hskip]
  simp only [ok_bind, htoken]
  rw [List.length_cons]
  show Except.ok _ = _
  congr 3
  omega

theorem parsetoken_word {rd : Mem} {buf : ℕ} (len : ℕ) {bl tok : List UInt8} {c : UInt8}
    (hbl : ∀ b ∈ bl, blank b = true) (htok : ∀ b ∈ tok, blank b = false) (hne : tok ≠ [])
    (hc : blank c = true) (hlen : bl.length + tok.length ≤ len ∨ len = bl.length)
    (hram : bl.length + tok.length < ramSize) (h : Reads rd buf (bl ++ tok ++ [c])) :
    parsetoken rd buf len = .ok (some (buf + bl.length, buf + bl.length + tok.length)) :=
  parsetokenFuel_word ramSize len hbl htok hne hc hlen hram h

theorem parsetoken_reads {rd : Mem} {buf : ℕ} (len : ℕ) {bl tok : List UInt8} {c : UInt8}
    (hbl : ∀ b ∈ bl, blank b = true) (htok : ∀ b ∈ tok, blank b = false) (hne : tok ≠ [])
    (hc : blank c = true) (hlen : bl.length + tok.length ≤ len) (hram : len < ramSize)
    (h : Reads rd buf (bl ++ tok ++ [c])) :
    parsetoken rd buf len = .ok (some (buf + bl.length, buf + bl.length + tok.length)) :=
  parsetoken_word len hbl htok hne hc (Or.inl hlen) (by omega) h

/-! ## The request line and a header line -/

/-- The prefix comparison of a token that ends in its only colon is an equality. -/
theorem tokenIs_field {name : List UInt8} (key : List UInt8) {text : String} (hname : 0x3a ∉ name) (hkey : 0x3a ∉ key)
    (htext : ascii text = key ++ [0x3a]) (h0 : 0 ∉ key ++ [(0x3a : UInt8)]) :
    tokenIs (name ++ [0x3a]) text = decide (name = key) := by
  have hcmp : strncmp (name ++ [0x3a]) (key ++ [0x3a]) (min (name.length + 1) (key.length + 1)) = 0 ↔
      name = key := by
    have hn1 : min (name.length + 1) (key.length + 1) ≤ (name ++ [(0x3a : UInt8)]).length := by simp
    have hn2 : min (name.length + 1) (key.length + 1) ≤ (key ++ [(0x3a : UInt8)]).length := by simp
    rw [strncmp_eq_zero_iff_take hn1 hn2 h0]
    constructor
    · intro heq
      rcases Nat.lt_trichotomy name.length key.length with hlt | hlen | hlt
      · -- the colon of the shorter token would be inside the key
        rw [min_eq_left (by omega), List.take_of_length_le (by simp),
          List.take_append_of_le_length (by omega)] at heq
        have hmem : (0x3a : UInt8) ∈ key.take (name.length + 1) := by
          rw [← heq]
          simp
        exact absurd (List.mem_of_mem_take hmem) hkey
      · rw [hlen, min_self, List.take_of_length_le (by simp [hlen]), List.take_of_length_le (by simp)] at heq
        exact List.append_cancel_right heq
      · have hall : (key ++ [(0x3a : UInt8)]).take (key.length + 1) = key ++ [0x3a] :=
          List.take_of_length_le (by simp)
        rw [min_eq_right (by omega), hall, List.take_append_of_le_length (by omega)] at heq
        have hmem : (0x3a : UInt8) ∈ name.take (key.length + 1) := by
          rw [heq]
          simp
        exact absurd (List.mem_of_mem_take hmem) hname
    · rintro rfl
      rfl
  unfold tokenIs
  rw [htext]
  simp only [List.length_append, List.length_cons, List.length_nil, Nat.zero_add, hcmp]

theorem ptrDiff_add (p k : ℕ) (h : k < 2 ^ 32) : ptrDiff (p + k) p = k := by
  unfold ptrDiff
  omega

/-- The first word of a value, and the blank behind it. -/
theorem firstWord_split {x : UInt8} {v : List UInt8} (hx : isspace x = false) :
    firstWord (x :: v) ≠ [] ∧ (∀ b ∈ firstWord (x :: v), blank b = false) ∧
      ∃ d rest, x :: v ++ [CR] = firstWord (x :: v) ++ d :: rest ∧ blank d = true := by
  have hxb : blank x = false := by
    unfold isspace at hx
    unfold blank
    simp only [Bool.or_eq_false_iff, decide_eq_false_iff_not] at hx ⊢
    refine ⟨⟨hx.1, ?_⟩, ?_⟩
    · rintro rfl
      revert hx
      decide
    · rintro rfl
      revert hx
      decide
  refine ⟨?_, ?_, ?_⟩
  · simp [firstWord, hxb]
  · intro b hb
    have hb' := List.mem_takeWhile_imp hb
    simpa using hb'
  · have hcr : (!blank CR) = false := by decide
    rcases split_takeWhile (fun c => !blank c) (v := x :: v) hcr with ⟨d, rest, heq, hd⟩
    exact ⟨d, rest, heq, by simpa using hd⟩

/-- A header line in memory does what it says. -/
theorem headerLine_reads {rd : Mem} (f : HeaderField) {buf : ℕ} (c : HttpClient)
    (hhost : f.name = ascii "Host" → f.value.length ≤ 63) (hram : f.text.length + 2 < ramSize)
    (h : Reads rd buf (f.text ++ crlf)) :
    headerLine rd c buf (buf + (f.text.length + 2)) = .ok (f.set c, .complete) := by
  have hlen : f.text.length = f.name.length + 2 + f.value.length := by
    simp [HeaderField.text]
    omega
  have hbig : ramSize < 2 ^ 32 := by decide
  have hcolon : (0x3a : UInt8) ∉ f.name := fun hmem => (f.name_text _ hmem).2 rfl
  -- the name and its colon are the first word
  have hsplit : f.text ++ crlf = [] ++ (f.name ++ [0x3a]) ++ [SP] ++ (f.value ++ crlf) := by
    simp [HeaderField.text]
  have hname : Reads rd buf ([] ++ (f.name ++ [0x3a]) ++ [SP]) := by
    rw [hsplit] at h
    exact h.left
  have hword : ∀ b ∈ f.name ++ [(0x3a : UInt8)], blank b = false := by
    intro b hb
    rcases List.mem_append.mp hb with hb | hb
    · exact (f.name_text b hb).1
    · rw [List.mem_singleton.mp hb]
      decide
  have htoken := parsetoken_reads _ (by simp) hword (by simp) (show blank SP = true by decide)
    (show [].length + (f.name ++ [(0x3a : UInt8)]).length ≤ f.text.length + 2 by simp; omega) hram hname
  have hread : readBytes rd buf (f.name.length + 1) = .ok (f.name ++ [0x3a]) := by
    have hbytes := readBytes_reads (reads_append.mp hname).1
    simpa using hbytes
  -- the value follows the blank
  have hvalue : Reads rd (buf + (f.name.length + 1)) (SP :: (f.value ++ [CR])) := by
    rw [HeaderField.text, List.append_assoc, List.cons_append, List.cons_append] at h
    have hafter := h.right.2
    have hcut : SP :: (f.value ++ crlf) = SP :: (f.value ++ [CR]) ++ [LF] := by simp [crlf]
    rw [hcut] at hafter
    exact hafter.left
  rw [headerLine, ptrDiff_add _ _ (by omega), htoken]
  simp only [ok_bind, List.length_nil, Nat.add_zero, List.length_append, List.length_cons, Nat.zero_add,
    Nat.add_sub_cancel_left, hread]
  rw [tokenIs_field (ascii "Host") hcolon (by decide) (by decide) (by decide),
    tokenIs_field (ascii "Content-Length") hcolon (by decide) (by decide) (by decide)]
  have hdiff : ptrDiff (buf + (f.text.length + 2)) (buf + (f.name.length + 1)) = f.value.length + 3 := by
    have hsum : buf + (f.text.length + 2) = buf + (f.name.length + 1) + (f.value.length + 3) := by omega
    rw [hsum, ptrDiff_add _ _ (by omega)]
  rw [hdiff]
  by_cases hh : f.name = ascii "Host"
  · rcases f.value_visible (Or.inl hh) with ⟨x, v, hv, hx⟩
    rcases firstWord_split (v := v) hx with ⟨hne, hword', d, rest, hcut, hd⟩
    have hwlen : (firstWord f.value).length ≤ f.value.length := (List.takeWhile_prefix _).length_le
    have hshort := hhost hh
    have hval : Reads rd (buf + (f.name.length + 1)) ([SP] ++ firstWord f.value ++ [d] ++ rest) := by
      rw [hv, hcut, ← hv] at hvalue
      simpa using hvalue
    have htoken' := parsetoken_reads (f.value.length + 3) (by decide : ∀ b ∈ [SP], blank b = true)
      (by rw [hv]; exact hword') (by rw [hv]; exact hne) hd (by simp; omega) (by omega) hval.left
    have hread' := readBytes_reads (reads_append.mp hval.left.left).2
    simp only [List.length_cons, List.length_nil, Nat.zero_add] at htoken' hread'
    simp only [decide_eq_true hh, if_true, htoken', ok_bind, Nat.add_sub_cancel_left, hread',
      if_neg (show ¬(firstWord f.value).length > 64 by omega), if_pos (show (firstWord f.value).length < 64 by omega)]
    rw [HeaderField.set, if_pos hh]
    rfl
  · by_cases hl : f.name = ascii "Content-Length"
    · rcases f.value_visible (Or.inr hl) with ⟨x, v, hv, hx⟩
      rcases firstWord_split (v := v) hx with ⟨hne, hword', d, rest, hcut, hd⟩
      have hwlen : (firstWord f.value).length ≤ f.value.length := (List.takeWhile_prefix _).length_le
      have hval : Reads rd (buf + (f.name.length + 1)) ([SP] ++ firstWord f.value ++ [d] ++ rest) := by
        have hvalue' := hvalue
        rw [hv, hcut, ← hv] at hvalue'
        simpa using hvalue'
      have htoken' := parsetoken_reads (f.value.length + 3) (by decide : ∀ b ∈ [SP], blank b = true)
        (by rw [hv]; exact hword') (by rw [hv]; exact hne) hd (by simp; omega) (by omega) hval.left
      have hnum : atoi rd (buf + (f.name.length + 1) + 1) = .ok (decValue f.value) := by
        have hlenv : f.value.length = v.length + 1 := by rw [hv]; rfl
        rw [hv]
        apply atoi_reads _ hx (show isdigit CR = false by decide) (by omega)
        rw [← hv]
        exact hvalue.2
      simp only [List.length_cons, List.length_nil, Nat.zero_add] at htoken'
      simp only [decide_eq_false hh, decide_eq_true hl, Bool.false_eq_true, if_false, if_true, htoken',
        ok_bind, hnum]
      rw [HeaderField.set, if_neg hh, if_pos hl]
      rfl
    · simp only [decide_eq_false hh, decide_eq_false hl, Bool.false_eq_true, if_false]
      rw [HeaderField.set, if_neg hh, if_neg hl]
      rfl

/-- A request line in memory does what it says. -/
theorem requestLine_reads {rd : Mem} (r : Request) (c : HttpClient) (hram : r.text.length + 2 < ramSize)
    (h : Reads rd 0 (r.text ++ crlf)) :
    requestLine rd c 0 (r.text.length + 2) = .ok (r.set c, .complete) := by
  have hbig : ramSize < 2 ^ 32 := by decide
  have hword : (r.method.word ≠ []) ∧ (∀ b ∈ r.method.word, blank b = false) ∧
      tokenIs r.method.word "GET" = decide (r.method = .get) ∧
      (tokenIs r.method.word "GET" || tokenIs r.method.word "POST") = true := by
    cases r.method <;> decide
  rcases hword with ⟨hne, hblank, hget, hknown⟩
  rw [hget] at hknown
  have hlen : r.text.length = r.method.word.length + r.url.length + r.version.length + 2 := by
    simp [Request.text]
    omega
  -- the two words of the line, each with the blank behind it
  have hmethod : Reads rd 0 ([] ++ r.method.word ++ [SP]) := by
    have hcut : r.text ++ crlf = [] ++ r.method.word ++ [SP] ++ (r.url ++ SP :: r.version ++ crlf) := by
      simp [Request.text]
    rw [hcut] at h
    exact h.left
  have htoken := parsetoken_reads _ (by simp) hblank hne (show blank SP = true by decide)
    (show [].length + r.method.word.length ≤ r.text.length + 2 by simp; omega) hram hmethod
  have hread : readBytes rd 0 r.method.word.length = .ok r.method.word :=
    readBytes_reads (reads_append.mp hmethod).1
  have hurl : Reads rd r.method.word.length ([SP] ++ r.url ++ [SP]) := by
    have hcut : r.text ++ crlf = r.method.word ++ ([SP] ++ r.url ++ [SP] ++ (r.version ++ crlf)) := by
      simp [Request.text]
    rw [hcut] at h
    have hafter := h.right.left
    rwa [Nat.zero_add] at hafter
  have htoken' := parsetoken_reads _ (by decide : ∀ b ∈ [SP], blank b = true) r.url_text r.url_nonempty
    (show blank SP = true by decide)
    (show [SP].length + r.url.length ≤ r.url.length + r.version.length + 4 by simp; omega) (by omega) hurl
  have hread' := readBytes_reads (reads_append.mp hurl.left).2
  -- the lengths that the parser computes from pointers
  have hdiff₁ : ptrDiff (r.text.length + 2) 0 = r.text.length + 2 := by
    have hself := ptrDiff_add 0 (r.text.length + 2) (by omega)
    rwa [Nat.zero_add] at hself
  have hdiff₂ : ptrDiff (r.text.length + 2) r.method.word.length = r.url.length + r.version.length + 4 := by
    have hsum : r.text.length + 2 = r.method.word.length + (r.url.length + r.version.length + 4) := by omega
    rw [hsum, ptrDiff_add _ _ (by omega)]
  have hshort := r.url_short
  simp only [List.length_cons, List.length_nil, Nat.zero_add] at htoken htoken' hread'
  rw [requestLine, hdiff₁, htoken]
  simp only [ok_bind, Nat.sub_zero, hread, hget, hknown, if_true, hdiff₂, htoken', Nat.add_sub_cancel_left,
    hread', if_neg (show ¬r.url.length > 256 by omega), if_pos (show r.url.length < 256 by omega)]
  have hm : (if decide (r.method = .get) = true then HttpMethod.get else .post) = r.method := by
    cases r.method <;> rfl
  rw [hm]
  rfl

/-! ## The loop over the header lines -/

theorem HeaderField.text_cons (f : HeaderField) : ∃ x rest, f.text = x :: rest ∧ x ≠ CR := by
  rcases hn : f.name with _ | ⟨x, rest⟩
  · exact ⟨0x3a, SP :: f.value, by simp [HeaderField.text, hn], by decide⟩
  · refine ⟨x, rest ++ 0x3a :: SP :: f.value, by simp [HeaderField.text, hn], ?_⟩
    rintro rfl
    have hx := (f.name_text CR (by simp [hn])).1
    revert hx
    decide

theorem HeaderField.lineText (f : HeaderField) : LineText f.text := by
  intro c hc
  simp only [HeaderField.text, List.mem_append, List.mem_cons] at hc
  rcases hc with hc | rfl | rfl | hc
  · have hb := (f.name_text c hc).1
    constructor
    · rintro rfl
      revert hb
      decide
    · rintro rfl
      revert hb
      decide
  · decide
  · decide
  · exact f.value_text c hc

theorem Request.lineText (r : Request) : LineText r.text := by
  have hmethod : LineText r.method.word := by
    unfold LineText
    cases r.method <;> decide
  intro c hc
  simp only [Request.text, List.mem_append, List.mem_cons] at hc
  rcases hc with (hc | rfl | hc) | rfl | hc
  · exact hmethod c hc
  · decide
  · have hb := r.url_text c hc
    constructor
    · rintro rfl
      revert hb
      decide
    · rintro rfl
      revert hb
      decide
  · decide
  · exact r.version_text c hc

theorem Request.tail_cons (f : HeaderField) (fs : List HeaderField) :
    Request.tail (f :: fs) = f.text ++ crlf ++ Request.tail fs := by
  simp [Request.tail]

/-- A header line is not the blank line. -/
theorem blankLine_field {rd : Mem} (f : HeaderField) {buf len : ℕ} (h : Reads rd buf (f.text ++ crlf)) :
    blankLine rd buf len = .ok false := by
  rcases f.text_cons with ⟨x, rest, htext, hx⟩
  rw [htext] at h
  rw [blankLine, h.1]
  simp only [ok_bind, if_neg hx]
  split <;> rfl

/-- One pass over a complete header line. -/
theorem headerLoop_field {rd : Mem} (f : HeaderField) {buf len fuel : ℕ} (c : HttpClient)
    (hhost : f.name = ascii "Host" → f.value.length ≤ 63) (hlen : f.text.length + 2 ≤ len)
    (hram : len < ramSize) (h : Reads rd buf (f.text ++ crlf)) :
    headerLoop rd (fuel + 1) c buf len
      = headerLoop rd fuel (f.set c) (buf + (f.text.length + 2)) len := by
  have hline : parseline rd buf len = .ok (some (buf + (f.text.length + 2))) := by
    have hfound := parselineFrom_found f.lineText (n := len - 1) (i := 0) (by omega) h
    rw [parseline, hfound]
    congr 2
  have hset := headerLine_reads f c hhost (by omega) h
  rw [headerLoop, blankLine_field f h]
  simp only [ok_bind, Bool.false_eq_true, if_false, hline, hset, if_true, Nat.sub_self, Nat.sub_zero]

/-- The header lines and the blank line are all there. -/
theorem headerLoop_complete {rd : Mem} (fs : List HeaderField) {buf len : ℕ} (c : HttpClient)
    (hhost : ∀ f ∈ fs, f.name = ascii "Host" → f.value.length ≤ 63) (hlen : (Request.tail fs).length ≤ len)
    (hram : len < ramSize) (h : Reads rd buf (Request.tail fs)) {fuel : ℕ} (hfuel : fs.length < fuel) :
    headerLoop rd fuel c buf len
      = .ok (runUpdates (fs.map HeaderField.set) c, .complete, buf + (Request.tail fs).length) := by
  induction fs generalizing c buf fuel with
  | nil =>
    rcases fuel with _ | fuel
    · omega
    have h1 : rd buf = .ok CR := h.1
    have h2 : rd (buf + 1) = .ok LF := h.2.1
    have hge : len ≥ 2 := hlen
    rw [headerLoop, blankLine, if_pos hge, h1]
    simp only [ok_bind, if_true, h2]
    rfl
  | cons f fs ih =>
    rcases fuel with _ | fuel
    · omega
    rw [Request.tail_cons] at h hlen ⊢
    have hlines : (f.text ++ crlf).length = f.text.length + 2 := by simp [crlf]
    rw [List.length_append, hlines] at hlen
    have hrest := h.right
    rw [hlines] at hrest
    rw [headerLoop_field f c (hhost f List.mem_cons_self) (by omega) hram h.left,
      ih (f.set c) (fun g hg => hhost g (List.mem_cons_of_mem f hg)) (by omega) hrest (by simpa using hfuel)]
    rw [List.length_append, hlines, Nat.add_assoc]
    rfl

/-- Nor is an unfinished line. -/
theorem blankLine_unfinished {rd : Mem} {buf len : ℕ} {rest : List UInt8} (hrest : Unfinished rest)
    (h : Reads rd buf rest) : blankLine rd buf len = .ok false := by
  rcases rest with _ | ⟨x, rest⟩
  · rcases hrest with ⟨o, z, -, heq⟩
    rw [List.replicate_succ] at heq
    simp at heq
  rw [blankLine, h.1]
  by_cases hx : x = CR
  · subst hx
    rcases hrest.next with ⟨tl, rfl⟩
    simp only [ok_bind, if_true, h.2.1]
    split <;> rfl
  · simp only [ok_bind, if_neg hx]
    split <;> rfl

/-- Header lines, each with its end. -/
def fieldLines (gs : List HeaderField) : List UInt8 := (gs.map fun f => f.text ++ crlf).flatten

theorem fieldLines_cons (f : HeaderField) (gs : List HeaderField) :
    fieldLines (f :: gs) = f.text ++ crlf ++ fieldLines gs := by
  simp [fieldLines]

/-- Some header lines are there, and then an unfinished line and zeros: the scan for its end goes
as far as `len` says, which may be further than the memory. -/
theorem headerLoop_open {rd : Mem} (gs : List HeaderField) {buf len : ℕ} (c : HttpClient)
    (hhost : ∀ f ∈ gs, f.name = ascii "Host" → f.value.length ≤ 63) (hlen : (fieldLines gs).length ≤ len)
    (hram : len < ramSize) {rest : List UInt8} (hrest : Unfinished rest)
    (h : Reads rd buf (fieldLines gs ++ rest)) {fuel : ℕ} (hfuel : gs.length < fuel) :
    (len ≤ rest.length + 1 → headerLoop rd fuel c buf len
      = .ok (runUpdates (gs.map HeaderField.set) c, .incomplete, buf + (fieldLines gs).length)) ∧
    ∀ fault, rest.length + 1 < len → rd (buf + (fieldLines gs).length + rest.length) = .error fault →
      headerLoop rd fuel c buf len = .error fault := by
  induction gs generalizing c buf fuel with
  | nil =>
    rcases fuel with _ | fuel
    · omega
    -- no header line: only the unfinished one is scanned
    have hread : Reads rd buf rest := h
    rw [headerLoop, blankLine_unfinished hrest hread]
    simp only [ok_bind, Bool.false_eq_true, if_false]
    constructor
    · intro hshort
      have hnone : parseline rd buf len = .ok none := parselineFrom_none hrest (by omega) hread
      rw [hnone]
      rfl
    · intro fault hlong hout
      have hfault : parseline rd buf len = .error fault := parselineFrom_beyond hrest (by omega) hread hout
      rw [hfault]
      rfl
  | cons f gs ih =>
    rcases fuel with _ | fuel
    · omega
    -- one header line is read, and the loop goes on behind it with the same `len`
    rw [fieldLines_cons] at h hlen ⊢
    have hlines : (f.text ++ crlf).length = f.text.length + 2 := by simp [crlf]
    rw [List.length_append, hlines] at hlen
    rw [List.append_assoc] at h
    have hnext := h.right
    rw [hlines] at hnext
    have hgs := ih (f.set c) (fun g hg => hhost g (List.mem_cons_of_mem f hg)) (by omega) hnext
      (show gs.length < fuel by simpa using hfuel)
    rw [headerLoop_field f c (hhost f List.mem_cons_self) (by omega) hram h.left, List.length_append, hlines,
      ← Nat.add_assoc buf (f.text.length + 2)]
    exact hgs

end Esp8266Toolbox
