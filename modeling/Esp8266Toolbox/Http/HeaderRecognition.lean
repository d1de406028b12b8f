import Esp8266Toolbox.Http.HeaderTrace
import Esp8266Toolbox.Http.ServerTheorems
import Esp8266Toolbox.Http.Tokens

/-!
# Which request lines and header lines are recognised

`RecognisedExactly` says that a request is only accepted, and a member of the client record only
assigned, on account of the exact words of one line. The parser does less: it compares no more of
a token than there is of it, it takes a missing token from the next line, and `atoi` does not stop
at a token of white space. The conditions below name the lines with which none of this shows.
-/

namespace Esp8266Toolbox

open Loops

/-! ## What is to hold -/

/-- Header lines, the blank line, and what stands behind the header section. -/
def sectionTail (lines : List (List UInt8)) (rest : List UInt8) : List UInt8 :=
  (lines.map (· ++ crlf)).flatten ++ (crlf ++ rest)

/-- A complete header section with the request line `line` and the header lines `lines` has been
received; `rest` is the rest of the buffer. -/
structure HeaderSection (client : HttpClient) (line : List UInt8) (lines : List (List UInt8))
    (rest : List UInt8) : Prop where
  text : client.buf.toList = line ++ crlf ++ sectionTail lines rest
  line_end : ¬crlf <:+: line
  lines_end : ∀ l ∈ lines, l ≠ [] ∧ ¬crlf <:+: l
  received : (line ++ crlf ++ sectionTail lines []).length ≤ client.bufused
  fits : client.bufused ≤ 2048

/-- A url copied into its array. -/
def copiedUrl (b : Buf 256) (url : List UInt8) : Buf 256 :=
  if url.length < 256 then (b.memcpy 0 url).set url.length 0 else b.memcpy 0 url

/-- The first token is the method, and the second one the url. -/
def RequestRight (client client' : HttpClient) (line : List UInt8) : Prop :=
  firstToken line = client'.method.word ∧ secondToken line ≠ [] ∧
    client'.url = copiedUrl client.url (secondToken line)

/-- An assignment comes from the second token of the line, on account of the first. A token of white
space alone (a tab does not end a token) holds no number. -/
def LineAssign.Right (line : List UInt8) : LineAssign → Prop
  | .none => True
  | .host text => firstToken line = ascii "Host:" ∧ secondToken line = text ∧ text ≠ []
  | .postlen n => firstToken line = ascii "Content-Length:" ∧
      (∃ x ∈ secondToken line, isspace x = false) ∧ n = (atoiStr (secondToken line) % 2 ^ 32).toNat

/-- The assignments are right ones of the first header lines, in order. -/
def AllRight (lines : List (List UInt8)) (as : List LineAssign) : Prop :=
  ∃ ls, ls <+: lines ∧ List.Forall₂ LineAssign.Right ls as

/-- **The request line and the headers are recognised exactly**, whatever stands behind the
buffer. -/
def RecognisedExactly (client : HttpClient) (line : List UInt8) (lines : List (List UInt8)) : Prop :=
  ∀ outside,
    (∀ client', httpHeaders outside client = .ok (client', .complete) → RequestRight client client' line) ∧
      ∀ client' as r p, httpTrace outside client = .ok (client', as, r, p) → AllRight lines as

/-! ## When it holds -/

/-- The word that the scan for the second token finds, if there is one in the buffer. A line that has
borrowed its first token goes on behind it, and does not stop anywhere. -/
def seenSecond (line rest : List UInt8) : List UInt8 :=
  if firstToken line = [] then secondToken rest else seenToken (afterToken line) rest

/-- A second token is found. -/
def SecondSeen (line rest : List UInt8) : Prop := firstToken line = [] ∨ seenSecond line rest ≠ []

instance (line rest : List UInt8) : Decidable (SecondSeen line rest) := inferInstanceAs (Decidable (_ ∨ _))

/-- The request line gets through. -/
def RequestTaken (line rest : List UInt8) : Prop :=
  seenToken line rest ≠ [] ∧ (Like (seenToken line rest) "GET" ∨ Like (seenToken line rest) "POST") ∧
    SecondSeen line rest ∧ (seenSecond line rest).length ≤ 256

/-- The line is taken for one with a host. -/
def HostTaken (line rest : List UInt8) : Prop :=
  seenToken line rest ≠ [] ∧ Like (seenToken line rest) "Host:" ∧ SecondSeen line rest ∧
    (seenSecond line rest).length ≤ 64

/-- The line is taken for one with a length. -/
def LengthTaken (line rest : List UInt8) : Prop :=
  seenToken line rest ≠ [] ∧ Like (seenToken line rest) "Content-Length:" ∧ SecondSeen line rest

instance (line rest : List UInt8) : Decidable (HostTaken line rest) := inferInstanceAs (Decidable (_ ∧ _))
instance (line rest : List UInt8) : Decidable (LengthTaken line rest) := inferInstanceAs (Decidable (_ ∧ _))

/-- The header line gets through. -/
def LinePasses (line rest : List UInt8) : Prop :=
  seenToken line rest ≠ [] ∧ (Like (seenToken line rest) "Host:" → HostTaken line rest) ∧
    (Like (seenToken line rest) "Content-Length:" → LengthTaken line rest)

/-- What the line is taken for, it is. -/
def LineFine (line rest : List UInt8) : Prop :=
  (HostTaken line rest → firstToken line = ascii "Host:" ∧ secondToken line ≠ []) ∧
    (LengthTaken line rest →
      firstToken line = ascii "Content-Length:" ∧ ∃ x ∈ secondToken line, isspace x = false)

instance (line rest : List UInt8) : Decidable (LinePasses line rest) := inferInstanceAs (Decidable (_ ∧ _))
instance (line rest : List UInt8) : Decidable (LineFine line rest) := inferInstanceAs (Decidable (_ ∧ _))

/-- The header lines are fine, up to one that does not get through. -/
def LinesFine (rest : List UInt8) : List (List UInt8) → Prop
  | [] => True
  | line :: lines =>
    LineFine line (sectionTail lines rest) ∧
      (LinePasses line (sectionTail lines rest) → LinesFine rest lines)

instance LinesFine.decidable (rest : List UInt8) : (lines : List (List UInt8)) → Decidable (LinesFine rest lines)
  | [] => inferInstanceAs (Decidable True)
  | _ :: lines =>
    have := LinesFine.decidable rest lines
    inferInstanceAs (Decidable (_ ∧ (_ → _)))

/-- All header lines get through. -/
def LinesPass (rest : List UInt8) : List (List UInt8) → Prop
  | [] => True
  | line :: lines => LinePasses line (sectionTail lines rest) ∧ LinesPass rest lines

/-- The request line begins with a method, and has a url. -/
def RequestExact (line : List UInt8) : Prop :=
  (firstToken line = ascii "GET" ∨ firstToken line = ascii "POST") ∧ secondToken line ≠ []

instance (line : List UInt8) : Decidable (RequestExact line) := inferInstanceAs (Decidable (_ ∧ _))

/-! ## The scans of a line -/

theorem afterToken_short {line rest : List UInt8} (hram : (line ++ crlf ++ rest).length < ramSize) :
    (afterToken line ++ crlf ++ rest).length < ramSize := by
  have hsum := congrArg List.length (token_split line)
  simp only [List.length_append] at hsum hram ⊢
  omega

/-- The scan for the second token goes on behind the first one. -/
theorem second_own {rd : Mem} {buf : ℕ} {line rest : List UInt8} (h : Reads rd buf (line ++ crlf ++ rest))
    (hline : firstToken line ≠ []) (hram : (line ++ crlf ++ rest).length < ramSize) :
    Reads rd (buf + tokenAt line + (firstToken line).length) (afterToken line ++ crlf ++ rest) ∧
      ptrDiff (buf + (line.length + 2)) (buf + tokenAt line + (firstToken line).length) =
        (afterToken line).length + 2 := by
  have hsplit := token_split line
  have hsum := congrArg List.length hsplit
  simp only [List.length_append, show crlf.length = 2 from rfl] at hsum hram
  have hbig : ramSize < 2 ^ 32 := by decide
  rw [tokenAt, if_neg hline]
  constructor
  · have hread : Reads rd buf (line.takeWhile blank ++ firstToken line ++ (afterToken line ++ crlf ++ rest)) := by
      rw [← List.append_assoc, ← List.append_assoc, hsplit]
      exact h
    have hat := hread.right
    rwa [List.length_append, ← Nat.add_assoc] at hat
  · rw [show buf + (line.length + 2) =
      buf + (line.takeWhile blank).length + (firstToken line).length + ((afterToken line).length + 2) by omega]
    exact ptrDiff_add _ _ (by omega)

/-- Behind a borrowed token the scan has no end in sight. -/
theorem second_borrowed {rd : Mem} {buf : ℕ} {line rest more : List UInt8}
    (h : Reads rd buf (line ++ crlf ++ rest ++ more)) (hline : firstToken line = [])
    (hseen : seenToken line rest ≠ []) (hram : (line ++ crlf ++ rest).length < ramSize) :
    Reads rd (buf + tokenAt line + (seenToken line rest).length) (afterToken rest ++ more) ∧
      ramSize ≤ ptrDiff (buf + (line.length + 2)) (buf + tokenAt line + (seenToken line rest).length) := by
  rw [seenToken, if_pos hline] at hseen ⊢
  rw [tokenAt, if_pos hline]
  -- the next line begins with its first word
  have hsplit : firstWord rest ++ rest.dropWhile (fun c => !blank c) = rest :=
    List.takeWhile_append_dropWhile
  have hfirst : rest.dropWhile blank = rest := by
    rcases rest with _ | ⟨c, t⟩
    · rfl
    · apply List.dropWhile_cons_of_neg
      intro hc
      rw [firstWord, List.takeWhile_cons_of_neg (by simpa using hc)] at hseen
      exact hseen rfl
  have hafter : afterToken rest = rest.dropWhile fun c => !blank c := by
    rw [afterToken, hfirst]
  have hlen : (line ++ crlf).length = line.length + 2 := by simp [crlf]
  have hpos := List.length_pos_iff.mpr hseen
  have hle : (firstWord rest).length ≤ rest.length := (List.takeWhile_prefix _).length_le
  simp only [List.length_append, show crlf.length = 2 from rfl] at hram
  have hbig : 2 * ramSize ≤ 2 ^ 32 := by decide
  constructor
  · rw [List.append_assoc] at h
    have hrest := h.right
    rw [hlen, ← hsplit, List.append_assoc] at hrest
    rw [hafter]
    exact hrest.right
  · unfold ptrDiff
    omega

theorem isdigit_blank {c : UInt8} (h : blank c = true) : isdigit c = false := by
  unfold blank at h
  simp only [Bool.or_eq_true, decide_eq_true_eq] at h
  rcases h with (rfl | rfl) | rfl <;> rfl

/-- A text does not begin like both kinds of line. -/
theorem not_like_both {token : List UInt8} (h : token ≠ []) (hhost : Like token "Host:") :
    ¬Like token "Content-Length:" := by
  have hfirst : ∀ {text : String} {x : UInt8} {rest : List UInt8}, ascii text = x :: rest →
      Like token text → token.head? = some x := by
    intro text x rest htext hlike
    rcases token with _ | ⟨y, token⟩
    · exact absurd rfl h
    · rw [Like, htext, List.cons_prefix_cons, List.cons_prefix_cons] at hlike
      rcases hlike with hlike | hlike
      · rw [List.head?_cons, hlike.1]
      · rw [List.head?_cons, hlike.1]
  intro hlength
  have h1 := hfirst (show ascii "Host:" = 0x48 :: ascii "ost:" by decide) hhost
  have h2 := hfirst (show ascii "Content-Length:" = 0x43 :: ascii "ontent-Length:" by decide) hlength
  rw [h1] at h2
  exact absurd h2 (by decide)

/-! ## One header line -/

/-- What the first token of a line leads to. -/
theorem lineAssign_scan {rd : Mem} {buf : ℕ} {line rest : List UInt8} (h : Reads rd buf (line ++ crlf ++ rest))
    (hend : ∃ c ∈ rest, blank c = true) (hram : (line ++ crlf ++ rest).length < ramSize) :
    (seenToken line rest = [] →
      lineAssign rd buf (buf + (line.length + 2)) = .ok (.none, .bad "bad header line")) ∧
    (seenToken line rest ≠ [] →
      lineAssign rd buf (buf + (line.length + 2)) =
        if Like (seenToken line rest) "Host:" then
          hostAssign rd (buf + tokenAt line + (seenToken line rest).length) (buf + (line.length + 2))
        else if Like (seenToken line rest) "Content-Length:" then
          lengthAssign rd (buf + tokenAt line + (seenToken line rest).length) (buf + (line.length + 2))
        else .ok (.none, .complete)) := by
  have hshort : line.length + 2 < 2 ^ 32 := by
    have hbig : ramSize < 2 ^ 32 := by decide
    simp only [List.length_append, show crlf.length = 2 from rfl] at hram
    omega
  obtain ⟨hnone, hfound⟩ := parsetoken_line h hend hram
  constructor
  · intro hseen
    rw [lineAssign, ptrDiff_add _ _ hshort, hnone hseen]
    rfl
  · intro hseen
    obtain ⟨hscan, c, -, hread⟩ := hfound hseen
    have hbytes := readBytes_reads hread.left
    have hhost := tokenIs_iff (seenToken line rest) (by decide : 0 ∉ ascii "Host:")
    have hlength := tokenIs_iff (seenToken line rest) (by decide : 0 ∉ ascii "Content-Length:")
    rw [lineAssign, ptrDiff_add _ _ hshort, hscan]
    simp only [ok_bind, Nat.add_sub_cancel_left, hbytes, hhost, hlength]
    rfl

/-- A line with a host, when the second token is looked for in the line. -/
theorem hostAssign_own {rd : Mem} {at' nextline : ℕ} {line rest : List UInt8}
    (h : Reads rd at' (line ++ crlf ++ rest)) (hend : ∃ c ∈ rest, blank c = true)
    (hram : (line ++ crlf ++ rest).length < ramSize) (hlen : ptrDiff nextline at' = line.length + 2) :
    (seenToken line rest = [] → ∃ w, hostAssign rd at' nextline = .ok (.none, .bad w)) ∧
      (64 < (seenToken line rest).length → ∃ w, hostAssign rd at' nextline = .ok (.none, .bad w)) ∧
      (seenToken line rest ≠ [] → (seenToken line rest).length ≤ 64 →
        hostAssign rd at' nextline = .ok (.host (seenToken line rest), .complete)) := by
  obtain ⟨hnone, hfound⟩ := parsetoken_line h hend hram
  refine ⟨?_, ?_, ?_⟩
  · intro hseen
    rw [hostAssign, hlen, hnone hseen]
    exact ⟨_, rfl⟩
  · intro hlong
    have hseen : seenToken line rest ≠ [] := by
      intro h0
      rw [h0] at hlong
      simp at hlong
    obtain ⟨hscan, -⟩ := hfound hseen
    rw [hostAssign, hlen, hscan]
    simp only [ok_bind, Nat.add_sub_cancel_left, gt_iff_lt, if_pos hlong]
    exact ⟨_, rfl⟩
  · intro hseen hshort
    obtain ⟨hscan, c, -, hread⟩ := hfound hseen
    have hbytes := readBytes_reads hread.left
    rw [hostAssign, hlen, hscan]
    simp only [ok_bind, Nat.add_sub_cancel_left, gt_iff_lt, if_neg (Nat.not_lt.mpr hshort), hbytes]
    rfl

/-- A line with a length, when the second token is looked for in the line. -/
theorem lengthAssign_own {rd : Mem} {at' nextline : ℕ} {line rest : List UInt8}
    (h : Reads rd at' (line ++ crlf ++ rest)) (hend : ∃ c ∈ rest, blank c = true)
    (hram : (line ++ crlf ++ rest).length < ramSize) (hlen : ptrDiff nextline at' = line.length + 2) :
    (seenToken line rest = [] → ∃ w, lengthAssign rd at' nextline = .ok (.none, .bad w)) ∧
      (seenToken line rest ≠ [] →
        (∃ c, blank c = true ∧ Reads rd (at' + tokenAt line) (seenToken line rest ++ [c])) ∧
        lengthAssign rd at' nextline =
          (atoi rd (at' + tokenAt line)).map fun v => (.postlen (v % 2 ^ 32).toNat, .complete)) := by
  obtain ⟨hnone, hfound⟩ := parsetoken_line h hend hram
  constructor
  · intro hseen
    rw [lengthAssign, hlen, hnone hseen]
    exact ⟨_, rfl⟩
  · intro hseen
    obtain ⟨hscan, hread⟩ := hfound hseen
    refine ⟨hread, ?_⟩
    rw [lengthAssign, hlen, hscan]
    simp only [ok_bind]
    rcases atoi rd (at' + tokenAt line) with e | v
    · rfl
    · rfl

/-- A borrowed first token, and a second one that is too long for the host. -/
theorem hostAssign_borrowed {rd : Mem} {at' nextline : ℕ} {s : List UInt8} (h : Reads rd at' s)
    (hlen : ramSize ≤ ptrDiff nextline at') (hram : s.length < ramSize) (hlong : 64 < (firstToken s).length)
    {a : LineAssign} {r : Headers} (ha : hostAssign rd at' nextline = .ok (a, r)) : a = .none ∧ r ≠ .complete := by
  have hne : firstToken s ≠ [] := by
    intro h0
    rw [h0] at hlong
    simp at hlong
  rw [hostAssign] at ha
  rcases hscan : parsetoken rd at' (ptrDiff nextline at') with e | found
  · rw [hscan] at ha
    cases ha
  obtain ⟨p, q, rfl, hle⟩ := parsetoken_atLeast h hne (by omega) hram hscan
  rw [hscan] at ha
  simp only [ok_bind, gt_iff_lt, if_pos (show 64 < q - p by omega)] at ha
  cases ha
  exact ⟨rfl, by simp⟩

theorem seenSecond_own {line rest : List UInt8} (h : firstToken line ≠ []) :
    seenSecond line rest = seenToken (afterToken line) rest := if_neg h

/-- A second token in the line is the one that is seen. -/
theorem seenToken_second {line rest : List UInt8} (h : secondToken line ≠ []) :
    seenToken (afterToken line) rest = secondToken line := if_neg h

/-- A line with a host whose first token is its own. -/
theorem lineAssign_host {rd : Mem} {buf : ℕ} {line rest : List UInt8} (h : Reads rd buf (line ++ crlf ++ rest))
    (hend : ∃ c ∈ rest, blank c = true) (hram : (line ++ crlf ++ rest).length < ramSize)
    (hline : firstToken line ≠ []) (hhost : Like (seenToken line rest) "Host:") :
    (HostTaken line rest → lineAssign rd buf (buf + (line.length + 2)) =
        .ok (.host (seenSecond line rest), .complete)) ∧
      (¬HostTaken line rest → ∃ w, lineAssign rd buf (buf + (line.length + 2)) = .ok (.none, .bad w)) := by
  have hfirst : seenToken line rest = firstToken line := if_neg hline
  have hseen : seenToken line rest ≠ [] := hfirst ▸ hline
  have hshort := afterToken_short hram
  obtain ⟨hread, hlen⟩ := second_own h hline hram
  obtain ⟨hmissing, hlong, hfits⟩ := hostAssign_own hread hend hshort hlen
  rw [(lineAssign_scan h hend hram).2 hseen, if_pos hhost, hfirst]
  rw [HostTaken, SecondSeen, seenSecond_own hline]
  constructor
  · rintro ⟨-, -, hsecond, hfit⟩
    exact hfits (hsecond.resolve_left hline) hfit
  · intro hno
    by_cases hsecond : seenToken (afterToken line) rest = []
    · exact hmissing hsecond
    · apply hlong
      by_contra hfit
      exact hno ⟨hseen, hhost, Or.inr hsecond, by omega⟩

/-- A line with a length whose first token is its own. -/
theorem lineAssign_length {rd : Mem} {buf : ℕ} {line rest : List UInt8} (h : Reads rd buf (line ++ crlf ++ rest))
    (hend : ∃ c ∈ rest, blank c = true) (hram : (line ++ crlf ++ rest).length < ramSize)
    (hline : firstToken line ≠ []) (hhost : ¬Like (seenToken line rest) "Host:")
    (hlength : Like (seenToken line rest) "Content-Length:") :
    (LengthTaken line rest → ∃ k ≤ line.length + 2,
        (∃ c, blank c = true ∧ Reads rd (buf + k) (seenSecond line rest ++ [c])) ∧
        lineAssign rd buf (buf + (line.length + 2)) =
          (atoi rd (buf + k)).map fun v => (.postlen (v % 2 ^ 32).toNat, .complete)) ∧
      (¬LengthTaken line rest → ∃ w, lineAssign rd buf (buf + (line.length + 2)) = .ok (.none, .bad w)) := by
  have hfirst : seenToken line rest = firstToken line := if_neg hline
  have hseen : seenToken line rest ≠ [] := hfirst ▸ hline
  have hshort := afterToken_short hram
  obtain ⟨hread, hlen⟩ := second_own h hline hram
  obtain ⟨hmissing, hfound⟩ := lengthAssign_own hread hend hshort hlen
  rw [(lineAssign_scan h hend hram).2 hseen, if_neg hhost, if_pos hlength, hfirst]
  rw [LengthTaken, SecondSeen, seenSecond_own hline]
  constructor
  · rintro ⟨-, -, hsecond⟩
    obtain ⟨hword, hnum⟩ := hfound (hsecond.resolve_left hline)
    -- where the digits are: behind the first token and the blanks
    have hle : tokenAt (afterToken line) ≤ (afterToken line).length + 2 := by
      unfold tokenAt
      split
      · exact Nat.le_refl _
      · have hpre := (List.takeWhile_prefix blank : (afterToken line).takeWhile blank <+: _).length_le
        omega
    have hat : tokenAt line = (line.takeWhile blank).length := if_neg hline
    have hsum := congrArg List.length (token_split line)
    simp only [List.length_append] at hsum
    have hpos : buf + tokenAt line + (firstToken line).length + tokenAt (afterToken line) =
        buf + (tokenAt line + (firstToken line).length + tokenAt (afterToken line)) := by omega
    rw [hpos] at hword hnum
    exact ⟨_, by omega, hword, hnum⟩
  · intro hno
    apply hmissing
    by_contra hsecond
    exact hno ⟨hseen, hlength, Or.inr hsecond⟩

theorem not_exact_of_borrowed {line : List UInt8} {text : String} (hline : firstToken line = [])
    (htext : ascii text ≠ []) : firstToken line ≠ ascii text := fun h => htext (h.symm.trans hline)

/-- **A fine line makes the right assignment**, if any. -/
theorem lineAssign_fine {rd : Mem} {buf : ℕ} {line rest : List UInt8} (h : Reads rd buf (line ++ crlf ++ rest))
    (hend : ∃ c ∈ rest, blank c = true) (hram : (line ++ crlf ++ rest).length < ramSize)
    (hfine : LineFine line rest) {a : LineAssign} {r : Headers}
    (ha : lineAssign rd buf (buf + (line.length + 2)) = .ok (a, r)) :
    a.Right line ∧ (r = .complete → LinePasses line rest) := by
  obtain ⟨hnone, hscan⟩ := lineAssign_scan h hend hram
  by_cases hseen : seenToken line rest = []
  · rw [hnone hseen] at ha
    cases ha
    exact ⟨trivial, by simp⟩
  by_cases hhost : Like (seenToken line rest) "Host:"
  · have hother := not_like_both hseen hhost
    by_cases hline : firstToken line = []
    · -- the token is borrowed, so the line must not be taken for a host
      have hlong : 64 < (secondToken rest).length := by
        by_contra hshort
        have htaken : HostTaken line rest :=
          ⟨hseen, hhost, Or.inl hline, by rw [seenSecond, if_pos hline]; omega⟩
        exact not_exact_of_borrowed hline (by decide) (hfine.1 htaken).1
      have hmore : Reads rd buf (line ++ crlf ++ rest ++ []) := by rwa [List.append_nil]
      obtain ⟨hread, hlen⟩ := second_borrowed hmore hline hseen hram
      rw [List.append_nil] at hread
      have hsum := congrArg List.length (token_split rest)
      simp only [List.length_append, show crlf.length = 2 from rfl] at hsum hram
      rw [hscan hseen, if_pos hhost] at ha
      obtain ⟨rfl, hr⟩ := hostAssign_borrowed hread hlen (by omega) hlong ha
      exact ⟨trivial, fun hc => absurd hc hr⟩
    · obtain ⟨htake, hdrop⟩ := lineAssign_host h hend hram hline hhost
      by_cases htaken : HostTaken line rest
      · rw [htake htaken] at ha
        cases ha
        obtain ⟨hexact, htwo⟩ := hfine.1 htaken
        have hright : seenSecond line rest = secondToken line :=
          (seenSecond_own hline).trans (seenToken_second htwo)
        exact ⟨⟨hexact, hright.symm, hright ▸ htwo⟩,
          fun _ => ⟨hseen, fun _ => htaken, fun hl => absurd hl hother⟩⟩
      · obtain ⟨w, hw⟩ := hdrop htaken
        rw [hw] at ha
        cases ha
        exact ⟨trivial, by simp⟩
  by_cases hlength : Like (seenToken line rest) "Content-Length:"
  · have hline : firstToken line ≠ [] := fun hline =>
      not_exact_of_borrowed hline (by decide) (hfine.2 ⟨hseen, hlength, Or.inl hline⟩).1
    obtain ⟨htake, hdrop⟩ := lineAssign_length h hend hram hline hhost hlength
    by_cases htaken : LengthTaken line rest
    · obtain ⟨k, -, ⟨c, hc, hword⟩, hnum⟩ := htake htaken
      obtain ⟨hexact, hvisible⟩ := hfine.2 htaken
      have htwo : secondToken line ≠ [] := by
        intro h0
        rw [h0] at hvisible
        simp at hvisible
      rw [seenSecond_own hline, seenToken_second htwo] at hword
      have hshort : (secondToken line).length ≤ line.length := by
        have hsum := congrArg List.length (token_split line)
        have hsum' := congrArg List.length (token_split (afterToken line))
        simp only [List.length_append] at hsum hsum'
        rw [secondToken]
        omega
      simp only [List.length_append, show crlf.length = 2 from rfl] at hram
      rw [hnum, atoi_text hword hvisible (isdigit_blank hc) (by omega)] at ha
      cases ha
      exact ⟨⟨hexact, hvisible, rfl⟩, fun _ => ⟨hseen, fun hl => absurd hl hhost, fun _ => htaken⟩⟩
    · obtain ⟨w, hw⟩ := hdrop htaken
      rw [hw] at ha
      cases ha
      exact ⟨trivial, by simp⟩
  · rw [hscan hseen, if_neg hhost, if_neg hlength] at ha
    cases ha
    exact ⟨trivial, fun _ => ⟨hseen, fun hl => absurd hl hhost, fun hl => absurd hl hlength⟩⟩

/-- A borrowed first token, and a second one wherever it is. -/
theorem hostAssign_stopper {rd : Mem} {at' nextline : ℕ} {s : List UInt8} (h : Reads rd at' (s ++ stopper))
    (hlen : ramSize ≤ ptrDiff nextline at') (hram : s.length + 5 < ramSize) :
    ∃ a r, hostAssign rd at' nextline = .ok (a, r) ∧
      ((firstToken s).length ≤ 64 → ∃ text, a = .host text ∧ r = .complete) := by
  obtain ⟨p, w, hscan, hbytes, -, hle, -⟩ := parsetoken_stopper h (show s.length + 3 ≤ ptrDiff nextline at' by omega) hram
  rw [hostAssign, hscan]
  simp only [ok_bind, Nat.add_sub_cancel_left, hbytes, gt_iff_lt]
  by_cases hlong : 64 < w.length
  · rw [if_pos hlong]
    exact ⟨_, _, rfl, fun hshort => by omega⟩
  · rw [if_neg hlong]
    exact ⟨_, _, rfl, fun _ => ⟨_, rfl, rfl⟩⟩

theorem lengthAssign_stopper {rd : Mem} {at' nextline : ℕ} {s : List UInt8} (h : Reads rd at' (s ++ stopper))
    (hlen : ramSize ≤ ptrDiff nextline at') (hram : s.length + 5 < ramSize) :
    ∃ n, lengthAssign rd at' nextline = .ok (.postlen n, .complete) := by
  obtain ⟨p, w, hscan, -, -, -, n, hnum⟩ := parsetoken_stopper h (show s.length + 3 ≤ ptrDiff nextline at' by omega) hram
  rw [lengthAssign, hscan]
  simp only [ok_bind, hnum]
  exact ⟨_, rfl⟩

/-- **A line that is not fine makes a wrong assignment**, once the scans come to an end. -/
theorem lineAssign_stopper {rd : Mem} {buf : ℕ} {line rest : List UInt8}
    (h : Reads rd buf (line ++ crlf ++ rest ++ stopper)) (hend : ∃ c ∈ rest, blank c = true)
    (hram : (line ++ crlf ++ rest).length + 5 < ramSize) :
    ∃ a r, lineAssign rd buf (buf + (line.length + 2)) = .ok (a, r) ∧
      (LinePasses line rest → r = .complete) ∧ (¬LineFine line rest → ¬a.Right line) := by
  have hread := h.left
  have hram' : (line ++ crlf ++ rest).length < ramSize := by omega
  obtain ⟨hnone, hscan⟩ := lineAssign_scan hread hend hram'
  by_cases hseen : seenToken line rest = []
  · refine ⟨_, _, hnone hseen, fun hpass => absurd hseen hpass.1, fun hno => absurd ?_ hno⟩
    exact ⟨fun ht => absurd hseen ht.1, fun ht => absurd hseen ht.1⟩
  have hsum := congrArg List.length (token_split rest)
  simp only [List.length_append, show crlf.length = 2 from rfl] at hsum hram
  by_cases hhost : Like (seenToken line rest) "Host:"
  · have hother := not_like_both hseen hhost
    by_cases hline : firstToken line = []
    · -- the second token is somewhere behind the borrowed one
      obtain ⟨hback, hlen⟩ := second_borrowed h hline hseen hram'
      obtain ⟨a, r, ha, hshort⟩ := hostAssign_stopper hback hlen (by omega)
      refine ⟨a, r, ((hscan hseen).trans (if_pos hhost)).trans ha, fun hpass => ?_, fun hno => ?_⟩
      · have hfit := (hpass.2.1 hhost).2.2.2
        rw [seenSecond, if_pos hline] at hfit
        obtain ⟨-, -, rfl⟩ := hshort hfit
        rfl
      · by_cases htaken : HostTaken line rest
        · have hfit := htaken.2.2.2
          rw [seenSecond, if_pos hline] at hfit
          obtain ⟨text, rfl, -⟩ := hshort hfit
          exact fun hright => not_exact_of_borrowed hline (by decide) hright.1
        · exact absurd ⟨fun ht => absurd ht htaken, fun ht => absurd ht.2.1 hother⟩ hno
    · obtain ⟨htake, hdrop⟩ := lineAssign_host hread hend hram' hline hhost
      by_cases htaken : HostTaken line rest
      · refine ⟨_, _, htake htaken, fun _ => rfl, fun hno hright => hno ⟨fun _ => ?_, ?_⟩⟩
        · exact ⟨hright.1, fun h0 => hright.2.2 (hright.2.1.symm.trans h0)⟩
        · exact fun ht => absurd ht.2.1 hother
      · obtain ⟨w, hw⟩ := hdrop htaken
        refine ⟨_, _, hw, fun hpass => absurd (hpass.2.1 hhost) htaken, fun hno => absurd ?_ hno⟩
        exact ⟨fun ht => absurd ht htaken, fun ht => absurd ht.2.1 hother⟩
  by_cases hlength : Like (seenToken line rest) "Content-Length:"
  · have hnohost : ¬HostTaken line rest := fun ht => hhost ht.2.1
    by_cases hline : firstToken line = []
    · obtain ⟨hback, hlen⟩ := second_borrowed h hline hseen hram'
      obtain ⟨n, hn⟩ := lengthAssign_stopper hback hlen (by omega)
      refine ⟨_, _, ((hscan hseen).trans ((if_neg hhost).trans (if_pos hlength))).trans hn, fun _ => rfl, ?_⟩
      exact fun _ hright => not_exact_of_borrowed hline (by decide) hright.1
    · obtain ⟨htake, hdrop⟩ := lineAssign_length hread hend hram' hline hhost hlength
      by_cases htaken : LengthTaken line rest
      · obtain ⟨k, hk, -, hnum⟩ := htake htaken
        -- `atoi` stops at the stopper at the latest
        have hat : Reads rd (buf + k) ((line ++ crlf ++ rest).drop k ++ [SP] ++ [0x78]) := by
          have hall : Reads rd buf ((line ++ crlf ++ rest).take k ++
              ((line ++ crlf ++ rest).drop k ++ [SP] ++ [0x78] ++ [SP])) := by
            rw [List.append_assoc _ [SP], List.append_assoc _ _ [SP], ← List.append_assoc (List.take k _),
              List.take_append_drop]
            exact h
          have hlenk : ((line ++ crlf ++ rest).take k).length = k := by
            simp only [List.length_take, List.length_append, show crlf.length = 2 from rfl]
            omega
          have hdrop := hall.right
          rw [hlenk] at hdrop
          exact hdrop.left
        obtain ⟨n, hn⟩ := atoi_ok hat (by decide) (by decide) (by decide) (by
          simp only [List.length_append, List.length_drop, show crlf.length = 2 from rfl, List.length_singleton]
          omega)
        rw [hn] at hnum
        refine ⟨_, _, hnum, fun _ => rfl, fun hno hright => hno ⟨fun ht => absurd ht hnohost, fun _ => ?_⟩⟩
        exact ⟨hright.1, hright.2.1⟩
      · obtain ⟨w, hw⟩ := hdrop htaken
        refine ⟨_, _, hw, fun hpass => absurd (hpass.2.2 hlength) htaken, fun hno => absurd ?_ hno⟩
        exact ⟨fun ht => absurd ht hnohost, fun ht => absurd ht htaken⟩
  · refine ⟨_, _, (hscan hseen).trans ((if_neg hhost).trans (if_neg hlength)), fun _ => rfl, fun hno => absurd ?_ hno⟩
    exact ⟨fun ht => absurd ht.2.1 hhost, fun ht => absurd ht.2.1 hlength⟩

/-! ## The request line -/

/-- The rest of the request line, from behind the method on. -/
def urlAssign (rd : Mem) (client : HttpClient) (nexttoken nextline : ℕ) :
    Except Fault (HttpClient × Headers) := do
  match ← parsetoken rd nexttoken (ptrDiff nextline nexttoken) with
  | none => return (client, .bad "incomplete request line")
  | some (token, nexttoken) =>
    if nexttoken - token > 256 then return (client, .bad "client url overflow")
    else
      let url ← readBytes rd token (nexttoken - token)
      let client := if url.length < 256 then
          { client with url := (client.url.memcpy 0 url).set url.length 0 }
        else { client with url := client.url.memcpy 0 url, host := client.host.set 0 0 }
      return (client, .complete)

/-- A found url is copied, unless it is too long. -/
theorem urlAssign_found {rd : Mem} {client : HttpClient} {nexttoken nextline p : ℕ} {url : List UInt8}
    (hscan : parsetoken rd nexttoken (ptrDiff nextline nexttoken) = .ok (some (p, p + url.length)))
    (hread : readBytes rd p url.length = .ok url) :
    (url.length ≤ 256 → ∃ client', urlAssign rd client nexttoken nextline = .ok (client', .complete) ∧
        client'.method = client.method ∧ client'.bufused = client.bufused ∧
        client'.url = copiedUrl client.url url) ∧
      (256 < url.length → ∃ w, urlAssign rd client nexttoken nextline = .ok (client, .bad w)) := by
  rw [urlAssign, hscan]
  simp only [ok_bind, Nat.add_sub_cancel_left, hread, gt_iff_lt]
  constructor
  · intro hfit
    rw [if_neg (Nat.not_lt.mpr hfit)]
    refine ⟨_, rfl, ?_⟩
    unfold copiedUrl
    split
    · exact ⟨rfl, rfl, rfl⟩
    · exact ⟨rfl, rfl, rfl⟩
  · intro hlong
    rw [if_pos hlong]
    exact ⟨_, rfl⟩

/-- What the first token of the request line leads to. -/
theorem requestLine_scan {rd : Mem} {buf : ℕ} {line rest : List UInt8} (client : HttpClient)
    (h : Reads rd buf (line ++ crlf ++ rest)) (hend : ∃ c ∈ rest, blank c = true)
    (hram : (line ++ crlf ++ rest).length < ramSize) :
    (seenToken line rest = [] → ∃ w, requestLine rd client buf (buf + (line.length + 2)) = .ok (client, .bad w)) ∧
    (seenToken line rest ≠ [] →
      requestLine rd client buf (buf + (line.length + 2)) =
        if Like (seenToken line rest) "GET" ∨ Like (seenToken line rest) "POST" then
          urlAssign rd { client with method := if Like (seenToken line rest) "GET" then .get else .post }
            (buf + tokenAt line + (seenToken line rest).length) (buf + (line.length + 2))
        else .ok (client, .bad "unsupported method")) := by
  have hshort : line.length + 2 < 2 ^ 32 := by
    have hbig : ramSize < 2 ^ 32 := by decide
    simp only [List.length_append, show crlf.length = 2 from rfl] at hram
    omega
  obtain ⟨hnone, hfound⟩ := parsetoken_line h hend hram
  constructor
  · intro hseen
    rw [requestLine, ptrDiff_add _ _ hshort, hnone hseen]
    exact ⟨_, rfl⟩
  · intro hseen
    obtain ⟨hscan, c, -, hread⟩ := hfound hseen
    have hbytes := readBytes_reads hread.left
    have hget := tokenIs_iff (seenToken line rest) (by decide : 0 ∉ ascii "GET")
    have hpost := tokenIs_iff (seenToken line rest) (by decide : 0 ∉ ascii "POST")
    rw [requestLine, ptrDiff_add _ _ hshort, hscan]
    simp only [ok_bind, Nat.add_sub_cancel_left, hbytes, Bool.or_eq_true, hget, hpost]
    rfl

/-- A request line that gets through has been taken, and what is copied is right if it is exact. -/
theorem requestLine_fine {rd : Mem} {buf : ℕ} {line rest : List UInt8} {client client' : HttpClient}
    (h : Reads rd buf (line ++ crlf ++ rest)) (hend : ∃ c ∈ rest, blank c = true)
    (hram : (line ++ crlf ++ rest).length < ramSize)
    (hline : requestLine rd client buf (buf + (line.length + 2)) = .ok (client', .complete)) :
    RequestTaken line rest ∧ (RequestExact line → RequestRight client client' line) := by
  obtain ⟨hnone, hscan⟩ := requestLine_scan client h hend hram
  by_cases hseen : seenToken line rest = []
  · obtain ⟨w, hw⟩ := hnone hseen
    rw [hw] at hline
    cases hline
  rw [hscan hseen] at hline
  by_cases hmethod : Like (seenToken line rest) "GET" ∨ Like (seenToken line rest) "POST"
  swap
  · rw [if_neg hmethod] at hline
    cases hline
  rw [if_pos hmethod] at hline
  by_cases hown : firstToken line = []
  · -- a borrowed method: the line is not exact
    have hno : ¬RequestExact line := by
      rintro ⟨hget | hpost, -⟩
      · exact not_exact_of_borrowed hown (by decide) hget
      · exact not_exact_of_borrowed hown (by decide) hpost
    refine ⟨⟨hseen, hmethod, Or.inl hown, ?_⟩, fun hexact => absurd hexact hno⟩
    rw [seenSecond, if_pos hown]
    by_contra hlong
    have hmore : Reads rd buf (line ++ crlf ++ rest ++ []) := by rwa [List.append_nil]
    obtain ⟨hback, hlen⟩ := second_borrowed hmore hown hseen hram
    rw [List.append_nil] at hback
    have hne : firstToken (afterToken rest) ≠ [] := by
      intro h0
      rw [secondToken, h0] at hlong
      simp at hlong
    have hsum := congrArg List.length (token_split rest)
    simp only [List.length_append, show crlf.length = 2 from rfl] at hsum hram
    rw [urlAssign] at hline
    rcases hword : parsetoken rd (buf + tokenAt line + (seenToken line rest).length)
      (ptrDiff (buf + (line.length + 2)) (buf + tokenAt line + (seenToken line rest).length)) with e | found
    · rw [hword] at hline
      cases hline
    obtain ⟨p, q, rfl, hle⟩ := parsetoken_atLeast hback hne (by omega) (by omega) hword
    rw [secondToken] at hlong
    rw [hword] at hline
    simp only [ok_bind, gt_iff_lt, if_pos (show 256 < q - p by omega)] at hline
    cases hline
  · have hfirst : seenToken line rest = firstToken line := if_neg hown
    obtain ⟨hback, hlen⟩ := second_own h hown hram
    have hshort := afterToken_short hram
    obtain ⟨hmissing, hfound⟩ := parsetoken_line hback hend hshort
    rw [hfirst] at hline
    by_cases hsecond : seenToken (afterToken line) rest = []
    · rw [urlAssign, hlen, hmissing hsecond] at hline
      cases hline
    obtain ⟨hword, c, -, hread⟩ := hfound hsecond
    rw [← hlen] at hword
    obtain ⟨hcopy, hover⟩ := urlAssign_found hword (readBytes_reads hread.left)
    by_cases hfit : (seenToken (afterToken line) rest).length ≤ 256
    swap
    · obtain ⟨w, hw⟩ := hover (by omega)
      rw [hw] at hline
      cases hline
    obtain ⟨client'', hdone, hm, -, hurl⟩ := hcopy hfit
    rw [hdone] at hline
    cases hline
    refine ⟨⟨hseen, hmethod, Or.inr (by rw [seenSecond_own hown]; exact hsecond),
      by rw [seenSecond_own hown]; exact hfit⟩, ?_⟩
    rintro ⟨hexact, htwo⟩
    refine ⟨?_, htwo, ?_⟩
    · rw [hm]
      rcases hexact with hget | hpost
      · rw [hget, if_pos (by decide)]
        rfl
      · rw [hpost, if_neg (by decide)]
        rfl
    · rw [hurl, seenToken_second htwo]

/-- A request line that is taken gets through, once the scans come to an end. -/
theorem requestLine_stopper {rd : Mem} {buf : ℕ} {line rest : List UInt8} (client : HttpClient)
    (h : Reads rd buf (line ++ crlf ++ rest ++ stopper)) (hend : ∃ c ∈ rest, blank c = true)
    (hram : (line ++ crlf ++ rest).length + 5 < ramSize) (htaken : RequestTaken line rest) :
    ∃ client', requestLine rd client buf (buf + (line.length + 2)) = .ok (client', .complete) := by
  have hram' : (line ++ crlf ++ rest).length < ramSize := by omega
  obtain ⟨hseen, hmethod, hsecond, hfit⟩ := htaken
  rw [(requestLine_scan client h.left hend hram').2 hseen, if_pos hmethod]
  by_cases hown : firstToken line = []
  · obtain ⟨hback, hlen⟩ := second_borrowed h hown hseen hram'
    have hsum := congrArg List.length (token_split rest)
    simp only [List.length_append, show crlf.length = 2 from rfl] at hsum hram
    rw [seenSecond, if_pos hown, secondToken] at hfit
    have hroom : (afterToken rest).length + 3 ≤ ptrDiff (buf + (line.length + 2))
        (buf + tokenAt line + (seenToken line rest).length) := by omega
    obtain ⟨p, w, hword, hbytes, -, hle, -⟩ := parsetoken_stopper hback hroom (by omega)
    obtain ⟨client', hdone, -⟩ := (urlAssign_found hword hbytes).1 (by omega)
    exact ⟨client', hdone⟩
  · have hfirst : seenToken line rest = firstToken line := if_neg hown
    obtain ⟨hback, hlen⟩ := second_own h.left hown hram'
    have hshort := afterToken_short hram'
    rw [SecondSeen, seenSecond_own hown] at hsecond
    rw [seenSecond_own hown] at hfit
    obtain ⟨hword, c, -, hread⟩ := (parsetoken_line hback hend hshort).2 (hsecond.resolve_left hown)
    rw [← hlen] at hword
    obtain ⟨client', hdone, -⟩ := (urlAssign_found hword (readBytes_reads hread.left)).1 hfit
    rw [hfirst]
    exact ⟨client', hdone⟩

/-! ## The header lines -/

theorem sectionTail_cons (line : List UInt8) (lines : List (List UInt8)) (rest : List UInt8) :
    sectionTail (line :: lines) rest = line ++ crlf ++ sectionTail lines rest := by
  simp [sectionTail]

/-- There is always the blank line. -/
theorem sectionTail_blank (lines : List (List UInt8)) (rest : List UInt8) :
    ∃ c ∈ sectionTail lines rest, blank c = true := by
  refine ⟨CR, ?_, rfl⟩
  simp [sectionTail, crlf]

theorem sectionTail_lines_le (lines : List (List UInt8)) (rest : List UInt8) :
    lines.length ≤ (sectionTail lines rest).length := by
  induction lines with
  | nil => exact Nat.zero_le _
  | cons line lines ih =>
    rw [sectionTail_cons, List.length_cons, List.length_append, List.length_append, show crlf.length = 2 from rfl]
    omega

theorem allRight_cons {line : List UInt8} {lines : List (List UInt8)} {a : LineAssign} {as : List LineAssign} :
    AllRight (line :: lines) (a :: as) ↔ a.Right line ∧ AllRight lines as := by
  constructor
  · rintro ⟨ls, hpre, hall⟩
    rcases hall with _ | ⟨ha, has⟩
    rw [List.cons_prefix_cons] at hpre
    exact ⟨hpre.1 ▸ ha, _, hpre.2, has⟩
  · rintro ⟨ha, ls, hpre, has⟩
    exact ⟨line :: ls, List.cons_prefix_cons.mpr ⟨rfl, hpre⟩, List.Forall₂.cons ha has⟩

theorem allRight_nil (lines : List (List UInt8)) : AllRight lines [] :=
  ⟨[], List.nil_prefix, List.Forall₂.nil⟩

/-- A header line is not the blank line. -/
theorem blankLine_line {rd : Mem} {buf len : ℕ} {line rest : List UInt8} (h : Reads rd buf (line ++ crlf ++ rest))
    (hne : line ≠ []) (hno : ¬crlf <:+: line) : blankLine rd buf len = .ok false := by
  rcases line with _ | ⟨x, line⟩
  · exact absurd rfl hne
  rw [blankLine, h.1]
  simp only [ok_bind]
  by_cases hx : x = CR
  · rw [if_pos hx]
    rcases line with _ | ⟨y, line⟩
    · have h2 : rd (buf + 1) = .ok CR := h.2.1
      rw [h2]
      split <;> rfl
    · have h2 : rd (buf + 1) = .ok y := h.2.1
      have hy : y ≠ LF := by
        rintro rfl
        exact hno ⟨[], line, by rw [hx]; rfl⟩
      rw [h2]
      simp only [ok_bind, hy, decide_false]
      split <;> rfl
  · rw [if_neg hx]
    split <;> rfl

theorem blankLine_end {rd : Mem} {buf len : ℕ} {rest : List UInt8} (h : Reads rd buf (crlf ++ rest)) (hlen : 2 ≤ len) :
    blankLine rd buf len = .ok true := by
  have h1 : rd buf = .ok CR := h.1
  have h2 : rd (buf + 1) = .ok LF := h.2.1
  rw [blankLine, if_pos hlen, h1]
  simp only [ok_bind, if_true, h2]
  rfl

theorem parseline_line {rd : Mem} {buf len : ℕ} {line rest : List UInt8} (h : Reads rd buf (line ++ crlf ++ rest))
    (hno : ¬crlf <:+: line) (hlen : line.length + 2 ≤ len) :
    parseline rd buf len = .ok (some (buf + (line.length + 2))) :=
  parselineFrom_line hno (n := len - 1) (i := 0) (by omega) h.left

/-- **Fine header lines make right assignments**, and all of them get through if the loop gets to
its end. -/
theorem headerTrace_fine {rd : Mem} {fuel buf len : ℕ} {lines : List (List UInt8)} {rest : List UInt8}
    (h : Reads rd buf (sectionTail lines rest)) (hlines : ∀ l ∈ lines, l ≠ [] ∧ ¬crlf <:+: l)
    (hlen : (sectionTail lines []).length ≤ len) (hram : (sectionTail lines rest).length < ramSize)
    (hfine : LinesFine rest lines) {as : List LineAssign} {r : Headers} {p : ℕ}
    (ht : headerTrace rd fuel buf len = .ok (as, r, p)) :
    AllRight lines as ∧ (r = .complete → LinesPass rest lines) := by
  induction lines generalizing fuel buf as with
  | nil =>
    rcases fuel with _ | fuel
    · cases ht
    rw [headerTrace, blankLine_end h (by simpa [sectionTail, crlf] using hlen)] at ht
    cases ht
    exact ⟨allRight_nil [], fun _ => trivial⟩
  | cons line lines ih =>
    rcases fuel with _ | fuel
    · cases ht
    rw [sectionTail_cons] at h hlen hram
    obtain ⟨hne, hno⟩ := hlines line List.mem_cons_self
    have hlens : (line ++ crlf).length = line.length + 2 := by simp [crlf]
    rw [List.length_append, hlens] at hlen
    rw [headerTrace, blankLine_line h hne hno] at ht
    simp only [ok_bind, Bool.false_eq_true, if_false, parseline_line h hno (show line.length + 2 ≤ len by omega),
      Nat.sub_self, Nat.sub_zero] at ht
    rcases hline : lineAssign rd buf (buf + (line.length + 2)) with e | ⟨a, r'⟩
    · rw [hline] at ht
      cases ht
    rw [hline] at ht
    simp only [ok_bind] at ht
    obtain ⟨hright, hpass⟩ := lineAssign_fine h (sectionTail_blank lines rest) hram hfine.1 hline
    -- the next line is read only when this one gets through
    by_cases hr : r' = .complete
    · rw [if_pos hr] at ht
      rcases hrest : headerTrace rd fuel (buf + (line.length + 2)) len with e | ⟨as', r'', p'⟩
      · rw [hrest] at ht
        cases ht
      rw [hrest] at ht
      cases ht
      have hback := h.right
      rw [hlens] at hback
      rw [List.length_append] at hram
      obtain ⟨hall, hpasses⟩ := ih hback (fun l hl => hlines l (List.mem_cons_of_mem line hl)) (by omega)
        (by omega) (hfine.2 (hpass hr)) hrest
      exact ⟨allRight_cons.mpr ⟨hright, hall⟩, fun hc => ⟨hpass hr, hpasses hc⟩⟩
    · rw [if_neg hr] at ht
      cases ht
      exact ⟨allRight_cons.mpr ⟨hright, allRight_nil lines⟩, fun hc => absurd hc hr⟩

/-- **Header lines that are not fine make a wrong assignment**, once the scans come to an end. -/
theorem headerTrace_stopper {rd : Mem} (fuel len : ℕ) {buf : ℕ} {lines : List (List UInt8)} {rest : List UInt8}
    (h : Reads rd buf (sectionTail lines rest ++ stopper)) (hlines : ∀ l ∈ lines, l ≠ [] ∧ ¬crlf <:+: l)
    (hlen : (sectionTail lines []).length ≤ len) (hram : (sectionTail lines rest).length + 5 < ramSize)
    (hfuel : lines.length < fuel) :
    ∃ as r p, headerTrace rd fuel buf len = .ok (as, r, p) ∧
      (LinesPass rest lines → r = .complete ∧ p = buf + (sectionTail lines []).length) ∧
      (¬LinesFine rest lines → ¬AllRight lines as) := by
  induction lines generalizing fuel buf with
  | nil =>
    rcases fuel with _ | fuel
    · omega
    rw [headerTrace, blankLine_end h.left (by simpa [sectionTail, crlf] using hlen)]
    exact ⟨_, _, _, rfl, fun _ => ⟨rfl, rfl⟩, fun hno => absurd trivial hno⟩
  | cons line lines ih =>
    rcases fuel with _ | fuel
    · omega
    rw [sectionTail_cons] at h hlen hram ⊢
    obtain ⟨hne, hno⟩ := hlines line List.mem_cons_self
    have hlens : (line ++ crlf).length = line.length + 2 := by simp [crlf]
    rw [List.length_append, hlens] at hlen
    obtain ⟨a, r, hline, hpass, hwrong⟩ := lineAssign_stopper h (sectionTail_blank lines rest) hram
    rw [headerTrace, blankLine_line h.left hne hno]
    simp only [ok_bind, Bool.false_eq_true, if_false,
      parseline_line h.left hno (show line.length + 2 ≤ len by omega), hline, Nat.sub_self, Nat.sub_zero]
    -- a line that gets through hands the rest of the section to the next pass
    by_cases hr : r = .complete
    · rw [List.append_assoc] at h
      have hback := h.right
      rw [hlens] at hback
      rw [List.length_append] at hram
      obtain ⟨as, r', p, htrace, hpasses, hwrongs⟩ := ih fuel hback
        (fun l hl => hlines l (List.mem_cons_of_mem line hl)) (by omega) (by omega) (by simpa using hfuel)
      rw [if_pos hr, htrace]
      refine ⟨a :: as, r', p, rfl, fun hp => ?_, fun hnot hall => ?_⟩
      · obtain ⟨hdone, hp'⟩ := hpasses hp.2
        refine ⟨hdone, ?_⟩
        rw [hp', List.length_append, hlens]
        omega
      · rw [allRight_cons] at hall
        have hfine : LineFine line (sectionTail lines rest) := by
          by_contra hbad
          exact hwrong hbad hall.1
        exact hwrongs (fun hrest => hnot ⟨hfine, fun _ => hrest⟩) hall.2
    · -- the section ends here, so the lines behind this one assign nothing
      rw [if_neg hr]
      refine ⟨_, _, _, rfl, fun hp => absurd (hpass hp.1) hr, fun hnot hall => ?_⟩
      rw [allRight_cons] at hall
      have hfine : LineFine line (sectionTail lines rest) := by
        by_contra hbad
        exact hwrong hbad hall.1
      exact hnot ⟨hfine, fun hp => absurd (hpass hp) hr⟩

/-! ## The whole section -/

/-- What stands behind the buffer stops every scan. -/
def stopperMem : Mem := fun k => .ok (if k = 2049 then 0x78 else SP)

theorem reads_stopperMem (client : HttpClient) :
    Reads (client.buf.mem stopperMem) 0 (client.buf.toList ++ stopper) := by
  rw [reads_append]
  refine ⟨client.buf.reads stopperMem, ?_⟩
  rw [Buf.length_toList]
  exact ⟨rfl, rfl, rfl, trivial⟩

theorem foldl_apply_same (as : List LineAssign) (client : HttpClient) :
    (as.foldl LineAssign.apply client).method = client.method ∧
      (as.foldl LineAssign.apply client).url = client.url ∧
      (as.foldl LineAssign.apply client).bufused = client.bufused := by
  induction as generalizing client with
  | nil => exact ⟨rfl, rfl, rfl⟩
  | cons a as ih =>
    have hstep : (LineAssign.apply client a).method = client.method ∧
        (LineAssign.apply client a).url = client.url ∧
        (LineAssign.apply client a).bufused = client.bufused := by
      cases a with
      | none => exact ⟨rfl, rfl, rfl⟩
      | host text =>
        simp only [LineAssign.apply]
        split
        · exact ⟨rfl, rfl, rfl⟩
        · exact ⟨rfl, rfl, rfl⟩
      | postlen n => exact ⟨rfl, rfl, rfl⟩
    obtain ⟨h1, h2, h3⟩ := ih (LineAssign.apply client a)
    exact ⟨h1.trans hstep.1, h2.trans hstep.2.1, h3.trans hstep.2.2⟩

/-- The trace of a section begins with its request line. -/
theorem httpTrace_section {client : HttpClient} {line : List UInt8} {lines : List (List UInt8)}
    {rest : List UInt8} (h : HeaderSection client line lines rest) (outside : Mem) :
    httpTrace outside client = do
      let (client', r) ← requestLine (client.buf.mem outside) client 0 (0 + (line.length + 2))
      if r = .complete then
        let (as, r, p) ← headerTrace (client.buf.mem outside) ramSize (0 + (line.length + 2)) client'.bufused
        return (client', as, r, p)
      else return (client', [], r, 0) := by
  have hread := client.buf.reads outside
  rw [h.text] at hread
  have hlen : line.length + 2 ≤ client.bufused := by
    have hreceived := h.received
    simp only [List.length_append, show crlf.length = 2 from rfl] at hreceived
    omega
  simp only [httpTrace, parseline_line hread h.line_end hlen, ok_bind]

/-- The sizes of a header section in the buffer. -/
theorem HeaderSection.sizes {client : HttpClient} {line : List UInt8} {lines : List (List UInt8)}
    {rest : List UInt8} (h : HeaderSection client line lines rest) :
    (line ++ crlf ++ sectionTail lines rest).length + 5 < ramSize ∧
      (sectionTail lines rest).length + 5 < ramSize ∧ lines.length < ramSize := by
  have htotal : (line ++ crlf ++ sectionTail lines rest).length = 2048 := by
    rw [← h.text, Buf.length_toList]
  have hram : (2048 : ℕ) + 5 < ramSize := by decide
  have hmany := sectionTail_lines_le lines rest
  have hpart : (sectionTail lines rest).length ≤ (line ++ crlf ++ sectionTail lines rest).length := by
    rw [List.length_append]
    omega
  exact ⟨by omega, by omega, by omega⟩

/-- The header lines are received when the request line is. -/
theorem HeaderSection.tail_received {client client' : HttpClient} {line : List UInt8} {lines : List (List UInt8)}
    {rest : List UInt8} (h : HeaderSection client line lines rest) (hused : client'.bufused = client.bufused) :
    (sectionTail lines []).length ≤ client'.bufused := by
  have hreceived := h.received
  rw [List.length_append] at hreceived
  omega

theorem HeaderSection.reads_tail {rd : Mem} {line behind : List UInt8} (h : Reads rd 0 (line ++ crlf ++ behind)) :
    Reads rd (0 + (line.length + 2)) behind := by
  have hlens : (line ++ crlf).length = line.length + 2 := by simp [crlf]
  have hright := h.right
  rwa [hlens] at hright

/-- Behind a request line that is taken, a buffer that goes on with words of no meaning shows what the parser
would take there. -/
theorem stopper_trace {client : HttpClient} {line : List UInt8} {lines : List (List UInt8)} {rest : List UInt8}
    (h : HeaderSection client line lines rest) (htaken : RequestTaken line (sectionTail lines rest)) :
    ∃ client' as r p, httpTrace stopperMem client = .ok (client', as, r, p) ∧
      (LinesPass rest lines → r = .complete ∧ p ≤ (as.foldl LineAssign.apply client').bufused) ∧
      (¬LinesFine rest lines → ¬AllRight lines as) := by
  obtain ⟨hram, hramTail, hmany⟩ := h.sizes
  have hread := reads_stopperMem client
  rw [h.text] at hread
  obtain ⟨client', hline⟩ := requestLine_stopper client hread (sectionTail_blank lines rest) hram htaken
  have hused := (requestLine_same hline).bufused
  rw [List.append_assoc] at hread
  have hback := HeaderSection.reads_tail hread
  obtain ⟨as, r, p, htrace, hpass, hwrong⟩ := headerTrace_stopper ramSize client'.bufused
    hback h.lines_end (h.tail_received hused) hramTail hmany
  refine ⟨client', as, r, p, ?_, fun hpasses => ?_, hwrong⟩
  · rw [httpTrace_section h, hline]
    simp only [ok_bind, if_true, htrace]
    rfl
  · obtain ⟨hdone, hp⟩ := hpass hpasses
    obtain ⟨-, -, hbufused⟩ := foldl_apply_same as client'
    have hreceived := h.received
    simp only [List.length_append, show crlf.length = 2 from rfl] at hreceived
    exact ⟨hdone, by omega⟩

/-- A run of the parser, where the condition holds: the header lines assign what they say, and with the last
of them the request line has said what was taken from it. -/
theorem trace_right {client : HttpClient} {line : List UInt8} {lines : List (List UInt8)} {rest : List UInt8}
    (h : HeaderSection client line lines rest)
    (hcond : RequestTaken line (sectionTail lines rest) →
      LinesFine rest lines ∧ (LinesPass rest lines → RequestExact line))
    {outside : Mem} {client' : HttpClient} {as : List LineAssign} {r : Headers} {p : ℕ}
    (hrun : httpTrace outside client = .ok (client', as, r, p)) :
    AllRight lines as ∧ (r = .complete → RequestRight client client' line) := by
  obtain ⟨hram, hramTail, -⟩ := h.sizes
  have hread := client.buf.reads outside
  rw [h.text] at hread
  rw [httpTrace_section h] at hrun
  obtain ⟨⟨client₁, r₁⟩, hline, hrun⟩ := bind_eq_ok hrun
  dsimp only at hrun
  by_cases hr : r₁ = .complete
  swap
  · -- the request line is refused, and no header line is looked at
    rw [if_neg hr] at hrun
    cases hrun
    exact ⟨allRight_nil lines, fun hc => absurd hc hr⟩
  rw [if_pos hr] at hrun
  rw [hr] at hline
  obtain ⟨htaken, hright⟩ := requestLine_fine hread (sectionTail_blank lines rest) (by omega) hline
  obtain ⟨hfine, hpasses⟩ := hcond htaken
  have hused := (requestLine_same hline).bufused
  obtain ⟨⟨as', r', p'⟩, htrace, hrun⟩ := bind_eq_ok hrun
  cases hrun
  obtain ⟨hall, hpass⟩ := headerTrace_fine (HeaderSection.reads_tail hread) h.lines_end (h.tail_received hused)
    (by omega) hfine htrace
  exact ⟨hall, fun hc => hright (hpasses (hpass hc))⟩

/-- **The header section is recognised exactly** if and only if its request line is not taken, or its
header lines are fine and the request line is exact unless one of them does not get through. -/
theorem recognisedExactly_iff {client : HttpClient} {line : List UInt8} {lines : List (List UInt8)}
    {rest : List UInt8} (h : HeaderSection client line lines rest) :
    RecognisedExactly client line lines ↔
      (RequestTaken line (sectionTail lines rest) →
        LinesFine rest lines ∧ (LinesPass rest lines → RequestExact line)) := by
  constructor
  · intro hexact htaken
    obtain ⟨client', as, r, p, hrun, hpass, hwrong⟩ := stopper_trace h htaken
    obtain ⟨haccept, hassign⟩ := hexact stopperMem
    refine ⟨?_, fun hpasses => ?_⟩
    · by_contra hbad
      exact hwrong hbad (hassign client' as r p hrun)
    · -- the request is accepted, so its method is one of the two
      obtain ⟨hdone, hp⟩ := hpass hpasses
      have hrun' := httpHeaders_eq stopperMem client
      rw [hrun] at hrun'
      simp only [ok_bind, hdone, if_true, if_neg (show ¬(as.foldl LineAssign.apply client').bufused < p by omega)]
        at hrun'
      obtain ⟨hmethod, htwo, -⟩ := haccept _ hrun'
      refine ⟨?_, htwo⟩
      rw [hmethod]
      rcases (as.foldl LineAssign.apply client').method with _ | _
      · exact Or.inl rfl
      · exact Or.inr rfl
  · intro hcond outside
    refine ⟨fun client' hrun => ?_, fun client' as r p hrun => (trace_right h hcond hrun).1⟩
    rw [httpHeaders_eq] at hrun
    obtain ⟨⟨client₁, as, r, p⟩, htrace, hrun⟩ := bind_eq_ok hrun
    obtain ⟨hmethod, hurl, -⟩ := foldl_apply_same as client₁
    dsimp only at hrun
    by_cases hr : r = .complete
    · rw [if_pos hr] at hrun
      split at hrun
      · cases hrun
      · cases hrun
        obtain ⟨h1, h2, h3⟩ := (trace_right h hcond htrace).2 hr
        exact ⟨h1.trans (by rw [hmethod]), h2, hurl.trans h3⟩
    · rw [if_neg hr] at hrun
      cases hrun
      exact absurd rfl hr

/-- A slot that has received a text. -/
def received (text : String) : HttpClient :=
  { HttpClient.zero with buf := (Buf.zero 2048).memcpy 0 (ascii text), bufused := (ascii text).length }

theorem received_section {text line : String} {lines : List String}
    (htext : (received text).buf.toList = ascii line ++ crlf ++
      sectionTail (lines.map ascii) (List.replicate (2048 - (ascii text).length) 0))
    (hline : ¬crlf <:+: ascii line) (hlines : ∀ l ∈ lines.map ascii, l ≠ [] ∧ ¬crlf <:+: l)
    (hlen : (ascii line ++ crlf ++ sectionTail (lines.map ascii) []).length ≤ (ascii text).length)
    (hfits : (ascii text).length ≤ 2048) :
    HeaderSection (received text) (ascii line) (lines.map ascii)
      (List.replicate (2048 - (ascii text).length) 0) := ⟨htext, hline, hlines, hlen, hfits⟩

/-- A request as browsers send it. -/
theorem recognised_post : RecognisedExactly (received "POST /a HTTP/1.1\r\nHost: b\r\nContent-Length: 5\r\n\r\n")
    (ascii "POST /a HTTP/1.1") (["Host: b", "Content-Length: 5"].map ascii) :=
  (recognisedExactly_iff (received_section (by decide +kernel) (by decide +kernel) (by decide +kernel)
    (by decide) (by decide))).mpr fun _ => ⟨by decide, fun _ => by decide⟩

/-- Another method is taken for the one that it begins with. -/
theorem not_recognised_getx :
    ¬∀ client line lines rest, HeaderSection client line lines rest → RecognisedExactly client line lines := by
  intro hall
  have hexact := hall (received "GETX /a HTTP/1.1\r\n\r\n") (ascii "GETX /a HTTP/1.1") ([].map ascii) _
    (received_section (by decide +kernel) (by decide +kernel) (by decide +kernel) (by decide +kernel)
      (by decide))
  have hrun : ((httpHeaders stopperMem (received "GETX /a HTTP/1.1\r\n\r\n")).toOption.map Prod.snd) =
      some .complete := by decide
  rcases h : httpHeaders stopperMem (received "GETX /a HTTP/1.1\r\n\r\n") with e | ⟨client', r⟩
  · rw [h] at hrun
    cases hrun
  · rw [h] at hrun
    cases hrun
    have hmethod := ((hexact stopperMem).1 client' h).1
    revert hmethod
    cases client'.method <;> decide

end Esp8266Toolbox
