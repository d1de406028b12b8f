import Esp8266Toolbox.Lib.Overwrite
import Esp8266Toolbox.Http.Process

/-!
# Well-formed requests

A request line, header lines `Name: value` and the blank line, as text (`Request.bytes`) and
as what the parser is to take from it: one update of the client record per line
(`Request.updates`). The updates overwrite, so parsing the same lines again does no harm.
-/

namespace Esp8266Toolbox

/-- Text without line ends. -/
def LineText (bs : List UInt8) : Prop := ∀ c ∈ bs, c ≠ CR ∧ c ≠ LF

/-- A header line. A value that the parser looks at starts with something visible. -/
structure HeaderField where
  name : List UInt8
  value : List UInt8
  name_text : ∀ c ∈ name, blank c = false ∧ c ≠ 0x3a
  value_text : LineText value
  value_visible : name = ascii "Host" ∨ name = ascii "Content-Length" →
    ∃ x rest, value = x :: rest ∧ isspace x = false

/-- `Name: value`. -/
def HeaderField.text (f : HeaderField) : List UInt8 := f.name ++ 0x3a :: SP :: f.value

/-- The first word of a text. -/
def firstWord (bs : List UInt8) : List UInt8 := bs.takeWhile fun c => !blank c

/-- What a header line leaves in the client record. -/
def HeaderField.set (f : HeaderField) (c : HttpClient) : HttpClient :=
  if f.name = ascii "Host" then
    { c with host := (c.host.memcpy 0 (firstWord f.value)).set (firstWord f.value).length 0 }
  else if f.name = ascii "Content-Length" then { c with postlen := (decValue f.value % 2 ^ 32).toNat }
  else c

/-- A request up to its body. -/
structure Request where
  method : HttpMethod
  url : List UInt8
  version : List UInt8
  fields : List HeaderField
  url_text : ∀ c ∈ url, blank c = false
  url_nonempty : url ≠ []
  url_short : url.length ≤ 255
  version_text : LineText version
  host_short : ∀ f ∈ fields, f.name = ascii "Host" → f.value.length ≤ 63

/-- The method in the request line. -/
def HttpMethod.word : HttpMethod → List UInt8
  | .get => ascii "GET"
  | .post => ascii "POST"

namespace Request

/-- The request line. -/
def text (r : Request) : List UInt8 := r.method.word ++ SP :: r.url ++ SP :: r.version

/-- Header lines, each with its end, and the blank line. -/
def tail (fields : List HeaderField) : List UInt8 := (fields.map fun f => f.text ++ crlf).flatten ++ crlf

/-- The header section. -/
def bytes (r : Request) : List UInt8 := r.text ++ crlf ++ tail r.fields

/-- What the request line leaves in the client record. -/
def set (r : Request) (c : HttpClient) : HttpClient :=
  { c with method := r.method, url := (c.url.memcpy 0 r.url).set r.url.length 0 }

/-- The updates of the request line and of the given header lines. -/
def updates (r : Request) (fields : List HeaderField) : List (HttpClient → HttpClient) :=
  r.set :: fields.map HeaderField.set

end Request

/-! ## Parsing again -/

/-- The members of a client record that the parser assigns, byte by byte, and the rest. -/
inductive Member where
  | method
  | url (i : ℕ)
  | host (i : ℕ)
  | postlen
  | rest

/-- The type of a member. -/
abbrev Member.Val : Member → Type
  | .method => HttpMethod
  | .url _ => UInt8
  | .host _ => UInt8
  | .postlen => ℕ
  | .rest => Bool × Option ℕ × HttpState × Buf 2048 × ℕ × ℕ

/-- The value of a member. -/
def Member.read : (m : Member) → HttpClient → m.Val
  | .method, c => c.method
  | .url i, c => c.url.get i
  | .host i, c => c.host.get i
  | .postlen, c => c.postlen
  | .rest, c => (c.inuse, c.conn, c.state, c.buf, c.bufused, c.postused)

/-- The members are all of the record. -/
theorem Member.ext (c c' : HttpClient) (h : ∀ m : Member, m.read c = m.read c') : c = c' := by
  have hmethod := h .method
  have hpostlen := h .postlen
  have hurl : c.url = c'.url := Buf.ext_get fun i => h (.url i)
  have hhost : c.host = c'.host := Buf.ext_get fun i => h (.host i)
  have hrest := h .rest
  rcases c with ⟨c1, c2, c3, c4, c5, c6, c7, c8, c9, c10⟩
  rcases c' with ⟨d1, d2, d3, d4, d5, d6, d7, d8, d9, d10⟩
  simp only [Member.read, Prod.mk.injEq] at hmethod hpostlen hurl hhost hrest
  rcases hrest with ⟨h1, h2, h3, h7, h8, h9⟩
  rw [hmethod, hpostlen, hurl, hhost, h1, h2, h3, h7, h8, h9]

/-- Copying a string into an array sets its bytes up to the terminator and leaves the others. -/
theorem get_copied {n : ℕ} (b : Buf n) (s : List UInt8) (i : ℕ) :
    ((b.memcpy 0 s).set s.length 0).get i
      = if i < n ∧ i < s.length then s.getD i 0 else if i = s.length then 0 else b.get i := by
  rw [Buf.get_set, Buf.get_memcpy]
  by_cases hn : i < n
  · by_cases hs : i < s.length
    · simp [hn, hs, show s.length ≠ i by omega]
    · by_cases heq : i = s.length
      · simp [heq, show s.length < n by omega]
      · simp [hn, hs, heq, show s.length ≠ i by omega]
  · simp [hn, Buf.get_of_le b (show n ≤ i by omega), show ¬(s.length = i ∧ s.length < n) by omega]

theorem copied_overwrites {n : ℕ} (s : List UInt8) (i : ℕ) :
    (∃ v, ∀ b : Buf n, ((b.memcpy 0 s).set s.length 0).get i = v) ∨
      ∀ b : Buf n, ((b.memcpy 0 s).set s.length 0).get i = b.get i := by
  by_cases h1 : i < n ∧ i < s.length
  · left
    refine ⟨s.getD i 0, fun b => ?_⟩
    rw [get_copied, if_pos h1]
  · by_cases h2 : i = s.length
    · left
      refine ⟨0, fun b => ?_⟩
      rw [get_copied, if_neg h1, if_pos h2]
    · right
      intro b
      rw [get_copied, if_neg h1, if_neg h2]

theorem Request.set_overwrites (r : Request) : Overwrites Member.read r.set := by
  intro m
  cases m with
  | method => exact Or.inl ⟨r.method, fun _ => rfl⟩
  | url i =>
    rcases copied_overwrites (n := 256) r.url i with ⟨v, hv⟩ | hkeep
    · exact Or.inl ⟨v, fun c => hv c.url⟩
    · exact Or.inr fun c => hkeep c.url
  | host i => exact Or.inr fun _ => rfl
  | postlen => exact Or.inr fun _ => rfl
  | rest => exact Or.inr fun _ => rfl

theorem HeaderField.set_overwrites (f : HeaderField) : Overwrites Member.read f.set := by
  by_cases hhost : f.name = ascii "Host"
  · have hset : f.set = fun c =>
        { c with host := (c.host.memcpy 0 (firstWord f.value)).set (firstWord f.value).length 0 } := by
      funext c
      rw [HeaderField.set, if_pos hhost]
    rw [hset]
    intro m
    cases m with
    | method => exact Or.inr fun _ => rfl
    | url i => exact Or.inr fun _ => rfl
    | host i =>
      rcases copied_overwrites (n := 64) (firstWord f.value) i with ⟨v, hv⟩ | hkeep
      · exact Or.inl ⟨v, fun c => hv c.host⟩
      · exact Or.inr fun c => hkeep c.host
    | postlen => exact Or.inr fun _ => rfl
    | rest => exact Or.inr fun _ => rfl
  by_cases hlen : f.name = ascii "Content-Length"
  · have hset : f.set = fun c => { c with postlen := (decValue f.value % 2 ^ 32).toNat } := by
      funext c
      rw [HeaderField.set, if_neg hhost, if_pos hlen]
    rw [hset]
    intro m
    cases m with
    | postlen => exact Or.inl ⟨_, fun _ => rfl⟩
    | method => exact Or.inr fun _ => rfl
    | url i => exact Or.inr fun _ => rfl
    | host i => exact Or.inr fun _ => rfl
    | rest => exact Or.inr fun _ => rfl
  · have hset : f.set = fun c => c := by
      funext c
      rw [HeaderField.set, if_neg hhost, if_neg hlen]
    rw [hset]
    exact fun m => Or.inr fun _ => rfl

/-- Parsing the first lines, and then the whole section, is parsing the whole section. -/
theorem Request.updates_absorb (r : Request) {gs : List HeaderField} (hgs : gs <+: r.fields)
    (c : HttpClient) :
    runUpdates (r.updates r.fields) (runUpdates (r.updates gs) c) = runUpdates (r.updates r.fields) c := by
  apply runUpdates_absorb Member.ext
  · intro g hg
    rcases List.mem_cons.mp hg with rfl | hg
    · exact r.set_overwrites
    · rcases List.mem_map.mp hg with ⟨f, -, rfl⟩
      exact f.set_overwrites
  · exact (List.prefix_cons_inj r.set).mpr (hgs.map HeaderField.set)

end Esp8266Toolbox
