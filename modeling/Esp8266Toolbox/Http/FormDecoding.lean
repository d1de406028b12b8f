import Esp8266Toolbox.Lib.Escapes
import Esp8266Toolbox.Http.Utils

/-!
# What `url_decode` makes of a form field

A browser encodes a field as `FormEncodes` says. The decoder never turns a `+` back into a space, and
since it looks for codes again in what it has decoded, a field that contains the text of a code
is decoded twice. Every other field comes out as it was typed.
-/

namespace Esp8266Toolbox

open Relation (ReflTransGen)

/-- The printable characters of ASCII. -/
def Printable (c : UInt8) : Prop := 0x20 ≤ c ∧ c ≤ 0x7e

instance (c : UInt8) : Decidable (Printable c) := inferInstanceAs (Decidable (_ ∧ _))

/-- The characters that form encoding leaves as they are: letters, digits and `*-._`. -/
def formUnchanged (c : UInt8) : Bool :=
  (0x30 ≤ c && c ≤ 0x39) || (0x41 ≤ c && c ≤ 0x5a) || (0x61 ≤ c && c ≤ 0x7a) ||
    c = 0x2a || c = 0x2d || c = 0x2e || c = 0x5f

/-- A hex digit, with the letters in upper or lower case. -/
def formDigit (upper : Bool) (d : ℕ) : UInt8 :=
  UInt8.ofNat (if d < 10 then 0x30 + d else if upper then 0x37 + d else 0x57 + d)

/-- `%` and two hex digits. -/
def percentCode (upper : Bool) (c : UInt8) : List UInt8 :=
  [0x25, formDigit upper (c.toNat / 16), formDigit upper (c.toNat % 16)]

/-- The text `t` is the form encoding of the field `s`. -/
inductive FormEncodes : List UInt8 → List UInt8 → Prop
  | nil : FormEncodes [] []
  | unchanged {c : UInt8} (hc : formUnchanged c = true) {s t : List UInt8} (h : FormEncodes s t) :
      FormEncodes (c :: s) (c :: t)
  | space {s t : List UInt8} (h : FormEncodes s t) : FormEncodes (SP :: s) (0x2b :: t)
  | percent {c : UInt8} (hc : formUnchanged c = false) (hsp : c ≠ SP) (upper : Bool)
      {s t : List UInt8} (h : FormEncodes s t) : FormEncodes (c :: s) (percentCode upper c ++ t)

/-- The encoding that a browser sends. -/
def formEncode (s : List UInt8) : List UInt8 :=
  s.flatMap fun c =>
    if formUnchanged c then [c] else if c = SP then [0x2b] else percentCode true c

theorem formEncode_encodes (s : List UInt8) : FormEncodes s (formEncode s) := by
  induction s with
  | nil => exact FormEncodes.nil
  | cons c s ih =>
    rw [formEncode, List.flatMap_cons]
    by_cases hc : formUnchanged c = true
    · rw [if_pos hc]
      exact ih.unchanged hc
    · rw [if_neg hc]
      by_cases hsp : c = SP
      · rw [if_pos hsp, hsp]
        exact ih.space
      · rw [if_neg hsp]
        exact ih.percent (by simpa using hc) hsp true

/-! ## The codes of `map` -/

/-- The value of a hex digit, with the letters in upper or lower case. -/
def digitValue (c : UInt8) : UInt8 := if c ≤ 0x39 then c - 0x30 else (c &&& 0xdf) - 0x37

/-- The character that a code stands for. -/
def codeChar : List UInt8 → UInt8
  | [_, a, b] => 16 * digitValue a + digitValue b
  | _ => 0

theorem urlMap_length : ∀ e ∈ urlMap, e.1.length = 3 := by decide

theorem urlMap_char : ∀ e ∈ urlMap, e.2 = codeChar e.1 := by decide

/-- `map` as a table of escapes: every code is a `%` and two characters other than `%`. -/
def urlTable : Escapes.Table UInt8 where
  esc := 0x25
  codes := urlMap
  shape := by
    have hall : ∀ e ∈ urlMap, e.1 = 0x25 :: e.1.tail ∧ 0x25 ∉ e.1.tail := by decide
    exact fun e he => ⟨e.1.tail, hall e he⟩
  distinct := by
    intro e he e' he' hprefix
    have hcode := hprefix.eq_of_length ((urlMap_length e he).trans (urlMap_length e' he').symm)
    have hchar : e.2 = e'.2 := by rw [urlMap_char e he, urlMap_char e' he', hcode]
    exact Prod.ext hcode hchar

/-- A space becomes a `+`; nothing turns it back. -/
def spaceToPlus (c : UInt8) : UInt8 := if c = SP then 0x2b else c

/-- Every printable character that form encoding replaces is in `map`, in either case. -/
theorem percentCode_mem {c : UInt8} (hprint : Printable c) (hc : formUnchanged c = false) (hsp : c ≠ SP)
    (upper : Bool) : (percentCode upper c, c) ∈ urlTable.codes := by
  have hall : ∀ c : UInt8, ∀ u : Bool, 0x20 ≤ c ∧ c ≤ 0x7e → formUnchanged c = false → c ≠ SP →
      (percentCode u c, c) ∈ urlMap := byte_forall (by decide +kernel)
  exact hall c upper hprint hc hsp

/-- To the decoder, the encoding of a field codes the field with its spaces lost. -/
theorem FormEncodes.coded {s t : List UInt8} (h : FormEncodes s t) (hs : ∀ c ∈ s, Printable c) :
    Escapes.Coded urlTable (s.map spaceToPlus) t := by
  induction h with
  | nil => exact Escapes.Coded.nil
  | @unchanged c hc s t h ih =>
    have hsp : c ≠ SP := by
      rintro rfl
      exact absurd hc (by decide)
    rw [List.map_cons, spaceToPlus, if_neg hsp]
    exact (ih fun d hd => hs d (List.mem_cons_of_mem c hd)).raw c
  | @space s t h ih =>
    rw [List.map_cons, spaceToPlus, if_pos rfl]
    exact (ih fun d hd => hs d (List.mem_cons_of_mem SP hd)).raw 0x2b
  | @percent c hc hsp upper s t h ih =>
    rw [List.map_cons, spaceToPlus, if_neg hsp]
    exact (ih fun d hd => hs d (List.mem_cons_of_mem c hd)).code
      (percentCode_mem (hs c List.mem_cons_self) hc hsp upper)

/-- No code contains a `+`, so lost spaces make no new ones. -/
theorem plain_spaceToPlus {s : List UInt8} (h : Escapes.Plain urlTable s) :
    Escapes.Plain urlTable (s.map spaceToPlus) := by
  intro e he hin
  have hplus : ∀ e ∈ urlMap, 0x2b ∉ e.1 := by decide
  obtain ⟨k, hk, heq⟩ := List.infix_map_iff.mp hin
  have hsame : k.map spaceToPlus = k := by
    refine (List.map_congr_left fun c hc => ?_).trans (List.map_id k)
    have hmem : spaceToPlus c ∈ e.1 := heq ▸ List.mem_map_of_mem hc
    unfold spaceToPlus at hmem ⊢
    split
    · rename_i hsp
      rw [if_pos hsp] at hmem
      exact absurd hmem (hplus e he)
    · rfl
  exact h e he (by rw [heq, hsame]; exact hk)

/-! ## The loop -/

/-- One entry replaces a code that stands in the string, or finds none. -/
theorem decodeEntry_cases (s : List UInt8) (f : Bool) {e : List UInt8 × UInt8} (he : e ∈ urlMap) :
    (∃ a b, s = a ++ e.1 ++ b ∧ decodeEntry (s, f) e = (a ++ e.2 :: b, true)) ∨
      (¬e.1 <:+: s ∧ decodeEntry (s, f) e = (s, f)) := by
  have hlen := urlMap_length e he
  unfold decodeEntry
  rcases hp : strstr s e.1 with _ | p
  · refine Or.inr ⟨?_, rfl⟩
    rintro ⟨a, b, hab⟩
    have hne : e.1 ≠ [] := fun h0 => by simp [h0] at hlen
    apply (strstr_eq_none_iff hne).mp hp a.length
    rw [← hab, List.append_assoc, List.drop_left]
    exact List.prefix_append _ _
  · refine Or.inl ⟨s.take p, s.drop (p + 3), ?_, rfl⟩
    obtain ⟨-, ⟨b, hb⟩, -⟩ := strstr_eq_some_iff.mp hp
    have hdrop : s.drop (p + 3) = b := by
      rw [← List.drop_drop, ← hb, ← hlen, List.drop_left]
    rw [hdrop, List.append_assoc, hb, List.take_append_drop]

/-- What a pass over a part of the table does: it replaces codes, and it either leaves the string alone
because none of the codes stands in it, or shortens it. -/
theorem decodeEntries_spec (es : List (List UInt8 × UInt8)) (hes : ∀ e ∈ es, e ∈ urlMap) (s : List UInt8)
    (f : Bool) :
    ReflTransGen (Escapes.Replaces urlTable) s (es.foldl decodeEntry (s, f)).1 ∧
    ((es.foldl decodeEntry (s, f) = (s, f) ∧ ∀ e ∈ es, ¬e.1 <:+: s) ∨
      ((es.foldl decodeEntry (s, f)).2 = true ∧ (es.foldl decodeEntry (s, f)).1.length < s.length)) := by
  induction es generalizing s f with
  | nil => exact ⟨.refl, Or.inl ⟨rfl, by simp⟩⟩
  | cons e es ih =>
    rw [List.foldl_cons]
    have he := hes e List.mem_cons_self
    have hes' : ∀ e ∈ es, e ∈ urlMap := fun d hd => hes d (List.mem_cons_of_mem e hd)
    have hlen := urlMap_length e he
    rcases decodeEntry_cases s f he with ⟨a, b, hs, hstep⟩ | ⟨hno, hstep⟩
    · -- the code stands in the string: it is replaced by one shorter character
      obtain ⟨hreplaced, hrest⟩ := ih hes' (a ++ e.2 :: b) true
      have hfirst : Escapes.Replaces urlTable s (a ++ e.2 :: b) := by
        rw [hs]
        exact Escapes.Replaces.code he a b
      rw [hstep]
      refine ⟨.head hfirst hreplaced, Or.inr ?_⟩
      have hshort : (a ++ e.2 :: b).length < s.length := by
        rw [hs]
        simp only [List.length_append, List.length_cons]
        omega
      rcases hrest with ⟨hsame, -⟩ | ⟨hflag, hless⟩
      · rw [hsame]
        exact ⟨rfl, hshort⟩
      · exact ⟨hflag, hless.trans hshort⟩
    · rw [hstep]
      obtain ⟨hreplaced, hrest⟩ := ih hes' s f
      refine ⟨hreplaced, hrest.imp_left ?_⟩
      rintro ⟨hsame, hnone⟩
      exact ⟨hsame, List.forall_mem_cons.mpr ⟨hno, hnone⟩⟩

theorem decodePass_spec (s : List UInt8) :
    ReflTransGen (Escapes.Replaces urlTable) s (decodePass s).1 ∧
    ((decodePass s = (s, false) ∧ Escapes.Plain urlTable s) ∨
      ((decodePass s).2 = true ∧ (decodePass s).1.length < s.length)) :=
  decodeEntries_spec urlMap (fun _ he => he) s false

/-- **The decoder stops with a string that contains no code**, after replacing one code after the
other. -/
theorem urlDecode_spec (t : List UInt8) :
    Escapes.Plain urlTable (urlDecode t) ∧ ReflTransGen (Escapes.Replaces urlTable) t (urlDecode t) := by
  have hloop : ∀ fuel (t : List UInt8), t.length < fuel →
      Escapes.Plain urlTable (urlDecodeLoop fuel t) ∧
        ReflTransGen (Escapes.Replaces urlTable) t (urlDecodeLoop fuel t) := by
    intro fuel
    induction fuel with
    | zero => intro t ht; omega
    | succ fuel ih =>
      intro t ht
      obtain ⟨hreplaced, hpass⟩ := decodePass_spec t
      simp only [urlDecodeLoop]
      rcases hpass with ⟨hsame, hnone⟩ | ⟨hflag, hless⟩
      · -- no code was found: this was the last turn
        rw [hsame]
        exact ⟨hnone, .refl⟩
      · rw [hflag, if_pos rfl]
        obtain ⟨hplain, hrest⟩ := ih (decodePass t).1 (by omega)
        exact ⟨hplain, hreplaced.trans hrest⟩
  exact hloop (t.length + 1) t (Nat.lt_succ_self _)

/-- No character of the table is a terminator, so decoding makes none. -/
theorem urlDecode_no_zero {t : List UInt8} (h : 0 ∉ t) : 0 ∉ urlDecode t := by
  have hchars : ∀ e ∈ urlMap, e.2 ≠ 0 := by decide
  have hreplaced := (urlDecode_spec t).2
  generalize urlDecode t = u at hreplaced ⊢
  induction hreplaced with
  | refl => exact h
  | tail _ hstep ih =>
    cases hstep with
    | code hk a b =>
      simp only [List.mem_append, not_or] at ih
      simp only [List.mem_append, List.mem_cons, not_or]
      exact ⟨ih.1.1, Ne.symm (hchars _ hk), ih.2⟩

/-- A field without codes comes out with a `+` for every space. -/
theorem urlDecode_encoded {s t : List UInt8} (hs : ∀ c ∈ s, Printable c) (h : FormEncodes s t)
    (hplain : Escapes.Plain urlTable s) : urlDecode t = s.map spaceToPlus := by
  have hplus := plain_spaceToPlus hplain
  obtain ⟨hstop, hreplaced⟩ := urlDecode_spec t
  exact ((h.coded hs).replaced hplus hreplaced).eq_of_plain hstop

theorem map_spaceToPlus_eq_self (s : List UInt8) : s.map spaceToPlus = s ↔ SP ∉ s := by
  induction s with
  | nil => simp
  | cons c s ih =>
    rw [List.map_cons, List.cons.injEq, ih, List.mem_cons, not_or, spaceToPlus]
    split
    · rename_i hsp
      simp [hsp, show (0x2b : UInt8) ≠ SP by decide]
    · rename_i hsp
      simp [Ne.symm hsp]

/-- **Decoding undoes encoding** exactly on the fields without spaces that contain no code of
the table. -/
theorem urlDecode_iff {s t : List UInt8} (hs : ∀ c ∈ s, Printable c) (h : FormEncodes s t) :
    urlDecode t = s ↔ SP ∉ s ∧ ∀ e ∈ urlMap, ¬e.1 <:+: s := by
  constructor
  · intro heq
    have hplain : Escapes.Plain urlTable s := heq ▸ (urlDecode_spec t).1
    have hmap := urlDecode_encoded hs h hplain
    exact ⟨(map_spaceToPlus_eq_self s).mp (hmap.symm.trans heq), hplain⟩
  · rintro ⟨hsp, hplain⟩
    rw [urlDecode_encoded hs h hplain]
    exact (map_spaceToPlus_eq_self s).mpr hsp

/-- A password with most of the characters that need a code. -/
theorem urlDecode_password : urlDecode (ascii "a%2Fb%25%3D") = ascii "a/b%=" :=
  (urlDecode_iff (s := ascii "a/b%=") (t := ascii "a%2Fb%25%3D") (by decide)
    (formEncode_encodes (ascii "a/b%="))).mpr (by decide)

/-- A space comes out as a `+`, and the text of a code is decoded once more. -/
theorem urlDecode_not_inverse :
    ¬∀ s t : List UInt8, (∀ c ∈ s, Printable c) → FormEncodes s t → urlDecode t = s := by
  intro hall
  have htwice := hall (ascii "%20") (ascii "%2520") (by decide) (formEncode_encodes (ascii "%20"))
  exact absurd htwice (by decide +kernel)

end Esp8266Toolbox
