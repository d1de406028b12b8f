import Esp8266Toolbox.Lib.Format

/-!
# Responses, as a client reads them

A response is a status line, header lines, an empty line and as many bytes of body as the header
`Content-length` says. The reader is what the writer `HttpResponse.text` is held against: it finds
the end of a response by itself, whatever follows.
-/

namespace Esp8266Toolbox

/-! ## Decimal numbers -/

theorem toNat_digitChar {d : ℕ} (hd : d < 10) : (UInt8.ofNat (Nat.digitChar d).toNat).toNat = d + 48 := by
  have hall : ∀ d : Fin 10, (UInt8.ofNat (Nat.digitChar d).toNat).toNat = d + 48 := by decide
  exact hall ⟨d, hd⟩

theorem decNat_concat (ds : List UInt8) (d : UInt8) :
    decNat (ds ++ [d]) = decNat ds * 10 + (d.toNat - 48) := by
  rw [decNat, decNat, List.foldl_concat]

theorem decimal_of_lt {n : ℕ} (hn : n < 10) : decimal n = [UInt8.ofNat (Nat.digitChar n).toNat] := by
  rw [decimal, Nat.toDigits_of_lt_base hn]
  rfl

theorem decimal_of_le {n : ℕ} (hn : 10 ≤ n) :
    decimal n = decimal (n / 10) ++ [UInt8.ofNat (Nat.digitChar (n % 10)).toNat] := by
  rw [decimal, Nat.toDigits_of_base_le (by norm_num) hn, List.map_append]
  rfl

/-- The value of what `%u` prints. -/
theorem decNat_decimal (n : ℕ) : decNat (decimal n) = n := by
  induction n using Nat.strongRecOn with
  | ind n ih =>
    by_cases hn : n < 10
    · rw [decimal_of_lt hn]
      simp [decNat, toNat_digitChar hn]
    · rw [decimal_of_le (by omega), decNat_concat, ih (n / 10) (by omega),
        toNat_digitChar (Nat.mod_lt n (by norm_num))]
      omega

/-- `%u` prints digits. -/
theorem isdigit_of_mem_decimal {n : ℕ} {c : UInt8} (hc : c ∈ decimal n) : isdigit c = true := by
  have hdigit {d : ℕ} (hd : d < 10) : isdigit (UInt8.ofNat (Nat.digitChar d).toNat) = true := by
    have hall : ∀ d : Fin 10, isdigit (UInt8.ofNat (Nat.digitChar d).toNat) = true := by decide
    exact hall ⟨d, hd⟩
  induction n using Nat.strongRecOn with
  | ind n ih =>
    by_cases hn : n < 10
    · rw [decimal_of_lt hn, List.mem_singleton] at hc
      rw [hc]
      exact hdigit hn
    · rw [decimal_of_le (by omega), List.mem_append, List.mem_singleton] at hc
      rcases hc with hc | rfl
      · exact ih (n / 10) (by omega) hc
      · exact hdigit (Nat.mod_lt n (by norm_num))

theorem decimal_ne_nil (n : ℕ) : decimal n ≠ [] := by
  by_cases hn : n < 10
  · rw [decimal_of_lt hn]
    exact List.cons_ne_nil _ _
  · rw [decimal_of_le (by omega)]
    simp

/-! ## The reader -/

/-- The bytes up to an end of line, and those behind it. -/
def takeLine (s : List UInt8) : Option (List UInt8 × List UInt8) :=
  (strstr s crlf).map fun i => (s.take i, s.drop (i + 2))

/-- The lines up to an empty one, and what is behind it. -/
def takeHeaders : ℕ → List UInt8 → Option (List (List UInt8) × List UInt8)
  | 0, _ => none
  | fuel + 1, s => do
    let (line, rest) ← takeLine s
    if line = [] then return ([], rest)
    else
      let (lines, rest) ← takeHeaders fuel rest
      return (line :: lines, rest)

/-- The name of the header that holds the length of the body. -/
def lengthName : List UInt8 := ascii "Content-length:"

/-- The number in a header, behind its blanks. -/
def headerNumber (line : List UInt8) : ℕ :=
  decNat (((line.drop lengthName.length).dropWhile (· = SP)).takeWhile isdigit)

/-- The length of the body, as the headers have it. -/
def contentLength (lines : List (List UInt8)) : Option ℕ :=
  (lines.find? (lengthName.isPrefixOf ·)).map headerNumber

/-- A response. -/
structure HttpResponse where
  status : List UInt8
  body : List UInt8
deriving DecidableEq, Repr

/-- A response at the front of a stream, and the stream behind it. -/
def readResponse (s : List UInt8) : Option (HttpResponse × List UInt8) := do
  let (status, s) ← takeLine s
  let (lines, s) ← takeHeaders s.length s
  let n ← contentLength lines
  if s.length < n then none else return (⟨status, s.take n⟩, s.drop n)

/-! ## The writer -/

/-- The text of a response with these header lines. -/
def HttpResponse.text (r : HttpResponse) (lines : List (List UInt8)) : List UInt8 :=
  r.status ++ crlf ++ (lines.flatMap (· ++ crlf) ++ (crlf ++ r.body))

/-- The header line for a length. -/
def lengthLine (number : List UInt8) : List UInt8 := lengthName ++ SP :: number

theorem takeLine_crlf {line : List UInt8} (h : CR ∉ line) (rest : List UInt8) :
    takeLine (line ++ crlf ++ rest) = some (line, rest) := by
  rw [takeLine, strstr_crlf h, Option.map_some]
  have hdrop : (line ++ crlf ++ rest).drop (line.length + 2) = rest := by
    rw [show line.length + 2 = (line ++ crlf).length by simp [crlf], List.drop_left]
  rw [hdrop, List.append_assoc, List.take_left]

/-- The lines are read back, each of them in its turn. -/
theorem takeHeaders_lines {lines : List (List UInt8)} (h : ∀ l ∈ lines, CR ∉ l ∧ l ≠ []) {fuel : ℕ}
    (hfuel : lines.length < fuel) (rest : List UInt8) :
    takeHeaders fuel (lines.flatMap (· ++ crlf) ++ (crlf ++ rest)) = some (lines, rest) := by
  induction lines generalizing fuel with
  | nil =>
    obtain ⟨fuel, rfl⟩ : ∃ k, fuel = k + 1 := ⟨fuel - 1, by simp at hfuel; omega⟩
    have hempty := takeLine_crlf (List.not_mem_nil : CR ∉ []) rest
    rw [List.nil_append] at hempty
    simp [takeHeaders, hempty]
  | cons line lines ih =>
    rw [List.length_cons] at hfuel
    obtain ⟨fuel, rfl⟩ : ∃ k, fuel = k + 1 := ⟨fuel - 1, by omega⟩
    obtain ⟨hline, hne⟩ := h line List.mem_cons_self
    have hfuel' : lines.length < fuel := by omega
    have hrest := ih (fun l hl => h l (List.mem_cons_of_mem line hl)) hfuel'
    have hfirst := takeLine_crlf hline (lines.flatMap (· ++ crlf) ++ (crlf ++ rest))
    rw [takeHeaders, List.flatMap_cons, List.append_assoc (line ++ crlf), hfirst]
    simp [hne, hrest]

theorem length_le_flatMap (lines : List (List UInt8)) :
    lines.length ≤ (lines.flatMap (· ++ crlf)).length := by
  induction lines with
  | nil => simp
  | cons line lines ih =>
    rw [List.flatMap_cons, List.length_cons, List.length_append, List.length_append]
    have hcrlf : crlf.length = 2 := rfl
    omega

/-- A number printed with `%u`, behind any number of blanks. -/
theorem headerNumber_blanks (k n : ℕ) :
    headerNumber (lengthLine (List.replicate k SP ++ decimal n)) = n := by
  have hdigits : (decimal n).takeWhile isdigit = decimal n :=
    List.takeWhile_eq_self_iff.mpr fun c hc => isdigit_of_mem_decimal hc
  have hblank : ∀ k : ℕ, (List.replicate k SP ++ decimal n).dropWhile (· = SP) = decimal n := by
    intro k
    induction k with
    | zero =>
      obtain ⟨c, cs, hcs⟩ := List.exists_cons_of_ne_nil (decimal_ne_nil n)
      have hc := isdigit_of_mem_decimal (n := n) (c := c) (by rw [hcs]; exact List.mem_cons_self)
      have hne : c ≠ SP := fun h => by simp [h, isdigit, SP] at hc
      simp [hcs, hne]
    | succ k ih => rw [List.replicate_succ, List.cons_append, List.dropWhile_cons, if_pos (by simp), ih]
  have hdrop : (lengthLine (List.replicate k SP ++ decimal n)).drop lengthName.length
      = List.replicate (k + 1) SP ++ decimal n := by
    rw [lengthLine, List.drop_left, List.replicate_succ, List.cons_append]
  rw [headerNumber, hdrop, hblank (k + 1), hdigits, decNat_decimal]

/-- A response ends where its length says, whatever follows it. -/
theorem readResponse_text (r : HttpResponse) {lines : List (List UInt8)} (hstatus : CR ∉ r.status)
    (hlines : ∀ l ∈ lines, CR ∉ l ∧ l ≠ []) (hlength : contentLength lines = some r.body.length)
    (rest : List UInt8) : readResponse (r.text lines ++ rest) = some (r, rest) := by
  have hfirst := takeLine_crlf hstatus (lines.flatMap (· ++ crlf) ++ (crlf ++ (r.body ++ rest)))
  have hfuel : lines.length < (lines.flatMap (· ++ crlf) ++ (crlf ++ (r.body ++ rest))).length := by
    have hle := length_le_flatMap lines
    have hcrlf : crlf.length = 2 := rfl
    rw [List.length_append, List.length_append, hcrlf]
    omega
  have hheads := takeHeaders_lines hlines hfuel (r.body ++ rest)
  have htext : r.text lines ++ rest
      = r.status ++ crlf ++ (lines.flatMap (· ++ crlf) ++ (crlf ++ (r.body ++ rest))) := by
    simp [HttpResponse.text]
  rw [htext, readResponse, hfirst]
  simp only [Option.bind_eq_bind, Option.bind_some, hheads, hlength]
  rw [if_neg (by simp), List.take_left, List.drop_left]
  rfl

end Esp8266Toolbox
