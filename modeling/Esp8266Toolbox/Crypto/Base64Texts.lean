import Esp8266Toolbox.Crypto.Base64Theorems

/-!
# The texts that `base64.c` writes and accepts

The encoder's text is read back whenever both arrays have room for whole groups. Of the texts
it did not write, the decoder also accepts those in which `=` stands inside: its check of the
characters admits `=` anywhere, and its loop looks for it at the end only.
-/

namespace Esp8266Toolbox

variable {n : ℕ}

/-! ## The round trip -/

theorem groups_eq (k : ℕ) : (k / 3 + if k % 3 > 0 then 1 else 0) = (k + 2) / 3 := by
  split <;> omega

/-- **Base64 round trip.** With room for whole groups `b64_encode` writes the base64 text and
`b64_decode` reads it back; with less both return -1 and leave the array alone. An array of C
has fewer than `2^31` bytes, so no size in the two functions wraps. -/
theorem base64_roundtrip (x : List UInt8) :
    (base64 x).length = 4 * ((x.length + 2) / 3) ∧
    (∀ (n : ℕ) (enc : Buf n), 4 * ((x.length + 2) / 3) ≤ n →
      b64Encode x enc = .ok ((4 * ((x.length + 2) / 3) : ℕ), enc.memcpy 0 (base64 x))) ∧
    (∀ (n : ℕ) (dec : Buf n), 3 * ((x.length + 2) / 3) ≤ n →
      b64Decode (base64 x) dec = .ok ((x.length : ℕ), dec.memcpy 0 x)) ∧
    (∀ (n : ℕ) (enc : Buf n), n < 4 * ((x.length + 2) / 3) → b64Encode x enc = .ok (-1, enc)) ∧
    ∀ (n : ℕ) (dec : Buf n), n < 3 * ((x.length + 2) / 3) → b64Decode (base64 x) dec = .ok (-1, dec) := by
  have hlen : (base64 x).length = 4 * ((x.length + 2) / 3) := by rw [length_base64, groups_eq, Nat.mul_comm]
  refine ⟨hlen, ?_, ?_, ?_, ?_⟩
  · intro n enc hroom
    rw [b64Encode_spec x enc (by omega), hlen]
  · intro n dec hroom
    exact b64Decode_spec x dec (by rw [groups_eq]; omega)
  · intro n enc hshort
    rw [b64Encode, groups_eq, if_pos (by omega)]
  · intro n dec hshort
    -- the text passes the first two checks
    have hall : ¬(!(base64 x).all b64Char) = true := by
      simp only [Bool.not_eq_true', Bool.not_eq_false, List.all_eq_true]
      exact fun c hc => (mem_base64 hc).1
    rw [b64Decode, if_neg (by omega), if_neg hall, if_pos (by omega)]

/-- Four bytes: eight characters and two padding characters among them. -/
theorem base64_roundtrip_four :
    b64Encode [1, 2, 3, 4] (Buf.zero 8) = .ok (8, (Buf.zero 8).memcpy 0 (base64 [1, 2, 3, 4])) ∧
      b64Decode (base64 [1, 2, 3, 4]) (Buf.zero 6) = .ok (4, (Buf.zero 6).memcpy 0 [1, 2, 3, 4]) ∧
      b64Encode [1, 2, 3, 4] (Buf.zero 7) = .ok (-1, Buf.zero 7) ∧
      b64Decode (base64 [1, 2, 3, 4]) (Buf.zero 5) = .ok (-1, Buf.zero 5) := by
  obtain ⟨-, henc, hdec, hshort, hshort'⟩ := base64_roundtrip [1, 2, 3, 4]
  exact ⟨henc 8 _ (by decide), hdec 6 _ (by decide), hshort 7 _ (by decide), hshort' 5 _ (by decide)⟩

/-! ## Padding -/

/-- A padded base64 text: `=` stands only as the last one or two characters of the last
quadruple. -/
def WellPadded (e : List UInt8) : Prop :=
  e.length % 4 = 0 ∧ ∃ body pad, e = body ++ pad ∧ (∀ c ∈ body, c ∈ base64Alphabet) ∧
    (pad = [] ∨ pad = [0x3d] ∨ pad = [0x3d, 0x3d])

/-- `decmap` gets to its last branch. -/
def decmapFalls (c : UInt8) : Bool :=
  !((65 ≤ c && c ≤ 90) || (97 ≤ c && c ≤ 122) || (48 ≤ c && c ≤ 57) || c == 0x2b || c == 0x2f)

/-- The characters that the last loop of `b64_decode` hands to `decmap`. -/
def decmapArgs : List UInt8 → List UInt8
  | a :: b :: c :: d :: rest =>
    if rest.isEmpty && c == 0x3d && d == 0x3d then [a, b] ++ decmapArgs rest
    else if rest.isEmpty && d == 0x3d then [a, b, c] ++ decmapArgs rest
    else [a, b, c, d] ++ decmapArgs rest
  | _ => []

/-- What should hold of one call: a count is returned for padded base64 texts only, whose
characters `decmap` all knows, and for any other text the result is -2. -/
def AcceptsWellPadded (e : List UInt8) (dec : Buf n) : Prop :=
  ∃ rv dec', b64Decode e dec = .ok (rv, dec') ∧
    (0 ≤ rv → WellPadded e ∧ ∀ c ∈ decmapArgs e, decmapFalls c = false) ∧ (¬WellPadded e → rv = -2)

theorem mem_alphabet_iff (c : UInt8) : c ∈ base64Alphabet ↔ decmapFalls c = false := by
  constructor
  · have hall : ∀ c ∈ base64Alphabet, decmapFalls c = false := by decide
    exact hall c
  · revert c
    exact byte_forall (by decide +kernel)

/-- A quadruple in front of others holds no padding. -/
theorem WellPadded.cons {a b c d : UInt8} {rest : List UInt8} (h : WellPadded (a :: b :: c :: d :: rest))
    (hrest : rest ≠ []) : (∀ x ∈ [a, b, c, d], x ∈ base64Alphabet) ∧ WellPadded rest := by
  obtain ⟨hmod, body, pad, hsplit, hbody, hpad⟩ := h
  have hpos : 0 < rest.length := List.length_pos_of_ne_nil hrest
  have hlen : rest.length + 4 = body.length + pad.length := by
    have := congrArg List.length hsplit
    simpa using this
  have hmod' : rest.length % 4 = 0 := by
    simp only [List.length_cons] at hmod
    omega
  have hpadlen : pad.length ≤ 2 := by rcases hpad with rfl | rfl | rfl <;> simp
  -- the padding is too short to reach into the quadruple
  have hfront : [a, b, c, d] = body.take 4 := by
    have htake := congrArg (List.take 4) hsplit
    rwa [List.take_append_of_le_length (by omega)] at htake
  have hback : rest = body.drop 4 ++ pad := by
    have hdrop := congrArg (List.drop 4) hsplit
    rwa [List.drop_append_of_le_length (by omega)] at hdrop
  refine ⟨?_, hmod', body.drop 4, pad, hback, ?_, hpad⟩
  · intro x hx
    rw [hfront] at hx
    exact hbody x (List.mem_of_mem_take hx)
  · intro x hx
    exact hbody x (List.mem_of_mem_drop hx)

/-- The last quadruple: what is handed to `decmap` leaves the padding out. -/
theorem decmapArgs_last {a b c d : UInt8} (h : WellPadded [a, b, c, d]) :
    ∀ x ∈ decmapArgs [a, b, c, d], x ∈ base64Alphabet := by
  obtain ⟨-, body, pad, hsplit, hbody, hpad⟩ := h
  have hlen : 4 = body.length + pad.length := by
    have := congrArg List.length hsplit
    simpa using this
  rcases hpad with rfl | rfl | rfl
  · -- no padding: all four are in the body
    rw [List.append_nil] at hsplit
    intro x hx
    apply hbody
    rw [← hsplit]
    simp only [decmapArgs] at hx
    split_ifs at hx <;> simp at hx ⊢ <;> tauto
  · obtain ⟨p, q, r, rfl⟩ := List.length_eq_three.mp (show body.length = 3 by simpa using hlen.symm)
    simp only [List.cons_append, List.nil_append, List.cons.injEq, and_true] at hsplit
    obtain ⟨rfl, rfl, rfl, rfl⟩ := hsplit
    intro x hx
    apply hbody
    simp only [decmapArgs] at hx
    split_ifs at hx <;> simp at hx ⊢ <;> tauto
  · obtain ⟨p, q, rfl⟩ := List.length_eq_two.mp (show body.length = 2 by simpa using hlen.symm)
    simp only [List.cons_append, List.nil_append, List.cons.injEq, and_true] at hsplit
    obtain ⟨rfl, rfl, rfl, rfl⟩ := hsplit
    intro x hx
    apply hbody
    simpa [decmapArgs] using hx

theorem decmapArgs_of_wellPadded {e : List UInt8} (h : WellPadded e) : ∀ x ∈ decmapArgs e, x ∈ base64Alphabet := by
  induction e using decmapArgs.induct with
  | case1 a b c d rest hpad ih =>
    obtain rfl : rest = [] := by simp at hpad; exact hpad.1.1
    exact decmapArgs_last h
  | case2 a b c d rest hpad hlast ih =>
    obtain rfl : rest = [] := by simp at hlast; exact hlast.1
    exact decmapArgs_last h
  | case3 a b c d rest hpad hlast ih =>
    by_cases hrest : rest = []
    · subst hrest
      exact decmapArgs_last h
    obtain ⟨hfront, hback⟩ := h.cons hrest
    have hempty : rest.isEmpty = false := by simpa using hrest
    intro x hx
    rw [decmapArgs, hempty] at hx
    simp only [Bool.false_and, Bool.false_eq_true, if_false, List.mem_append] at hx
    rcases hx with hx | hx
    · exact hfront x hx
    · exact ih hback x hx
  | case4 e he =>
    intro x hx
    rw [decmapArgs] at hx
    · simp at hx
    · exact he

/-! ## What is accepted -/

/-- With three bytes of room for every quadruple the loop ends. -/
theorem b64DecodeLoop_ends (e : List UInt8) (j : ℕ) (dec : Buf n) (hroom : j + e.length / 4 * 3 ≤ n) :
    ∃ j' dec', b64DecodeLoop e j dec = .ok (j', dec') := by
  induction e, j, dec using b64DecodeLoop.induct with
  | case1 a b c d rest j dec last hpad =>
    rename_i ih
    -- `==` at the end: one byte is stored
    have hlen : (a :: b :: c :: d :: rest).length = rest.length + 4 := rfl
    rw [b64DecodeLoop]
    simp only [show (rest.isEmpty && c == 0x3d && d == 0x3d) = true from hpad, if_true]
    rw [Buf.put_ok _ (by omega), Loops.ok_bind]
    exact ih _ (by omega)
  | case2 a b c d rest j dec last hpad hlast =>
    rename_i ih
    -- `=` at the end: two bytes
    have hlen : (a :: b :: c :: d :: rest).length = rest.length + 4 := rfl
    rw [b64DecodeLoop]
    simp only [show (rest.isEmpty && c == 0x3d && d == 0x3d) = false from Bool.eq_false_iff.mpr hpad,
      Bool.false_eq_true, if_false, show (rest.isEmpty && d == 0x3d) = true from hlast, if_true]
    rw [Buf.put_ok _ (by omega), Loops.ok_bind, Buf.put_ok _ (by omega), Loops.ok_bind]
    exact ih _ (by omega)
  | case3 a b c d rest j dec last hpad hlast =>
    rename_i ih
    -- a whole group: three bytes
    have hlen : (a :: b :: c :: d :: rest).length = rest.length + 4 := rfl
    rw [b64DecodeLoop]
    simp only [show (rest.isEmpty && c == 0x3d && d == 0x3d) = false from Bool.eq_false_iff.mpr hpad,
      show (rest.isEmpty && d == 0x3d) = false from Bool.eq_false_iff.mpr hlast, Bool.false_eq_true, if_false]
    rw [Buf.put_ok _ (by omega), Loops.ok_bind, Buf.put_ok _ (by omega), Loops.ok_bind, Buf.put_ok _ (by omega),
      Loops.ok_bind]
    exact ih _ (by omega)
  | case4 e j dec he =>
    refine ⟨j, dec, ?_⟩
    rw [b64DecodeLoop]
    exact he

/-- The two checks that `b64_decode` makes of a text. -/
theorem b64Decode_rejects {e : List UInt8} (h : ¬(e.length % 4 = 0 ∧ e.all b64Char = true)) (dec : Buf n) :
    b64Decode e dec = .ok (-2, dec) := by
  rw [b64Decode]
  by_cases hmod : e.length % 4 = 0
  · have hall : (!e.all b64Char) = true := by simpa using fun hc => h ⟨hmod, hc⟩
    rw [if_neg (by omega), if_pos hall]
  · rw [if_pos hmod]

theorem b64Decode_accepts {e : List UInt8} (hmod : e.length % 4 = 0) (hall : e.all b64Char = true) (dec : Buf n)
    (hroom : e.length / 4 * 3 ≤ n) : ∃ (j : ℕ) (dec' : Buf n), b64Decode e dec = .ok ((j : ℤ), dec') := by
  obtain ⟨j, dec', hloop⟩ := b64DecodeLoop_ends e 0 dec (by omega)
  refine ⟨j, dec', ?_⟩
  rw [b64Decode, if_neg (by omega), if_neg (by simp [hall]), if_neg (by omega), hloop]
  rfl

/-- A padded base64 text passes both checks. -/
theorem WellPadded.passes {e : List UInt8} (h : WellPadded e) : e.all b64Char = true := by
  obtain ⟨-, body, pad, rfl, hbody, hpad⟩ := h
  have hpad' : ∀ c ∈ pad, c = 0x3d := by rcases hpad with rfl | rfl | rfl <;> simp
  rw [List.all_eq_true]
  intro c hc
  rcases List.mem_append.mp hc with hc | hc
  · have hfalls := (mem_alphabet_iff c).mp (hbody c hc)
    simp only [decmapFalls, Bool.not_eq_false'] at hfalls
    rw [b64Char, hfalls, Bool.true_or]
  · rw [hpad' c hc]
    decide

/-- **Padding.** For every text and an array with room for its groups, `b64_decode` behaves as it
should unless the text passes both checks with `=` out of place. -/
theorem acceptsWellPadded_iff (e : List UInt8) (dec : Buf n) (hroom : e.length / 4 * 3 ≤ n) :
    AcceptsWellPadded e dec ↔ ¬(e.length % 4 = 0 ∧ e.all b64Char = true ∧ ¬WellPadded e) := by
  constructor
  · rintro ⟨rv, dec', hrun, -, hbad⟩ ⟨hmod, hall, hill⟩
    obtain ⟨j, dec'', hok⟩ := b64Decode_accepts hmod hall dec hroom
    rw [hok] at hrun
    simp only [Except.ok.injEq, Prod.mk.injEq] at hrun
    have hrv := hbad hill
    omega
  · intro hgood
    by_cases hwell : WellPadded e
    · obtain ⟨j, dec', hok⟩ := b64Decode_accepts hwell.1 hwell.passes dec hroom
      refine ⟨j, dec', hok, fun _ => ⟨hwell, fun c hc => ?_⟩, fun hill => absurd hwell hill⟩
      exact (mem_alphabet_iff c).mp (decmapArgs_of_wellPadded hwell c hc)
    · refine ⟨-2, dec, b64Decode_rejects (fun hboth => hgood ⟨hboth.1, hboth.2, hwell⟩) dec, ?_, fun _ => rfl⟩
      intro hrv
      omega

/-- `QUI=` is read, and only its first three characters go to `decmap`. -/
theorem acceptsWellPadded_iff_quad :
    AcceptsWellPadded (ascii "QUI=") (Buf.zero 3) ↔
      ¬((ascii "QUI=").length % 4 = 0 ∧ (ascii "QUI=").all b64Char = true ∧ ¬WellPadded (ascii "QUI=")) :=
  acceptsWellPadded_iff _ _ (by decide)

/-- `A=AA` is accepted: its `=` goes to `decmap` and three bytes are counted. -/
theorem accepts_inner_padding : ¬AcceptsWellPadded (ascii "A=AA") (Buf.zero 3) := by
  have hrun : b64Decode (ascii "A=AA") (Buf.zero 3) = .ok (3, Buf.zero 3) := by decide
  have hfalls : decmapFalls 0x3d = true ∧ 0x3d ∈ decmapArgs (ascii "A=AA") := by decide
  rintro ⟨rv, dec', hrun', hknown, -⟩
  rw [hrun] at hrun'
  simp only [Except.ok.injEq, Prod.mk.injEq] at hrun'
  have hdigit := (hknown (by omega)).2 _ hfalls.2
  rw [hfalls.1] at hdigit
  nomatch hdigit

end Esp8266Toolbox
