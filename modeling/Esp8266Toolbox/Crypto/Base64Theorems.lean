import Esp8266Toolbox.Lib.Words
import Esp8266Toolbox.Crypto.Base64
import Esp8266Toolbox.Crypto.CramMd5

/-!
# `base64.c` encodes and decodes base64

* `b64Encode_spec`: the encoder writes the standard's text;
* `b64Decode_spec`: the decoder reads it back.
-/

namespace Esp8266Toolbox

/-! ## Groups -/

theorem zero_toUInt32 : (0 : UInt8).toUInt32 = 0 := rfl

/-- Three bytes as a group of 24 bits. -/
theorem group_toNat (a b c : UInt8) :
    ((a.toUInt32 <<< 16) ||| (b.toUInt32 <<< 8) ||| c.toUInt32).toNat
      = a.toNat * 2 ^ 16 + b.toNat * 2 ^ 8 + c.toNat := by
  have ha := a.toNat_lt
  have hb := b.toNat_lt
  have hc := c.toNat_lt
  have h := word_of_bytes 0 a b c
  have hzero : ((0 : UInt8).toUInt32 <<< 24) ||| (a.toUInt32 <<< 16) = a.toUInt32 <<< 16 := by simp
  rw [hzero] at h
  rw [h, UInt32.toNat_ofNat']
  simp only [beNat, List.reverse_cons, List.reverse_nil, List.nil_append, List.cons_append, leNat,
    UInt8.toNat_zero]
  omega

theorem group_lt (a b c : UInt8) : (a.toNat * 2 ^ 16 + b.toNat * 2 ^ 8 + c.toNat) / 2 ^ 18 < 64 := by
  have ha := a.toNat_lt
  have hb := b.toNat_lt
  have hc := c.toNat_lt
  omega

/-- Some bits of a word, cut out by a mask and moved down. -/
theorem field_toNat (v mask : UInt32) {k w : ℕ} (hk : k < 32) (hmask : mask.toNat >>> k = 2 ^ w - 1) :
    ((v &&& mask) >>> UInt32.ofNat k).toNat = v.toNat / 2 ^ k % 2 ^ w := by
  have hmod : (UInt32.ofNat k).toNat % 32 = k := by simp; omega
  rw [UInt32.toNat_shiftRight, hmod, UInt32.toNat_and, Nat.shiftRight_and_distrib, hmask,
    Nat.and_two_pow_sub_one_eq_mod, Nat.shiftRight_eq_div_pow]

/-- Four 6-bit values as a group of 24 bits. -/
theorem sextets_toNat (a b c d : UInt8) (ha : a.toNat < 64) (hb : b.toNat < 64) (hc : c.toNat < 64)
    (hd : d.toNat < 64) :
    ((a.toUInt32 <<< 18) ||| (b.toUInt32 <<< 12) ||| (c.toUInt32 <<< 6) ||| d.toUInt32).toNat
      = a.toNat * 2 ^ 18 + b.toNat * 2 ^ 12 + c.toNat * 2 ^ 6 + d.toNat := by
  have h1 := mul_two_pow_or (show b.toNat * 2 ^ 12 < 2 ^ 18 by omega) a.toNat
  have h2 : (a.toNat * 2 ^ 18 + b.toNat * 2 ^ 12) ||| c.toNat * 2 ^ 6
      = a.toNat * 2 ^ 18 + b.toNat * 2 ^ 12 + c.toNat * 2 ^ 6 := by
    have hab : a.toNat * 2 ^ 18 + b.toNat * 2 ^ 12 = (a.toNat * 2 ^ 6 + b.toNat) * 2 ^ 12 := by ring
    rw [hab, mul_two_pow_or (by omega)]
  have h3 : (a.toNat * 2 ^ 18 + b.toNat * 2 ^ 12 + c.toNat * 2 ^ 6) ||| d.toNat
      = a.toNat * 2 ^ 18 + b.toNat * 2 ^ 12 + c.toNat * 2 ^ 6 + d.toNat := by
    have habc : a.toNat * 2 ^ 18 + b.toNat * 2 ^ 12 + c.toNat * 2 ^ 6
        = (a.toNat * 2 ^ 12 + b.toNat * 2 ^ 6 + c.toNat) * 2 ^ 6 := by ring
    rw [habc, mul_two_pow_or (by omega)]
  have hA : (a.toUInt32 <<< 18).toNat = a.toNat * 2 ^ 18 := by
    simp [Nat.shiftLeft_eq]; omega
  have hB : (b.toUInt32 <<< 12).toNat = b.toNat * 2 ^ 12 := by
    simp [Nat.shiftLeft_eq]; omega
  have hC : (c.toUInt32 <<< 6).toNat = c.toNat * 2 ^ 6 := by
    simp [Nat.shiftLeft_eq]; omega
  simp only [UInt32.toNat_or, hA, hB, hC, UInt8.toNat_toUInt32, h1, h2, h3]

/-! ## Digits -/

theorem base64Digit_spec {v : ℕ} (hv : v < 64) :
    encmap (UInt8.ofNat v) = base64Digit v ∧ decmap (base64Digit v) = UInt8.ofNat v ∧
      b64Char (base64Digit v) = true ∧ base64Digit v ≠ 0x3d ∧ base64Digit v ≠ 0 ∧
      base64Digit v ≠ CR := by
  have hall : ∀ v < 64, encmap (UInt8.ofNat v) = base64Digit v ∧ decmap (base64Digit v) = UInt8.ofNat v ∧
      b64Char (base64Digit v) = true ∧ base64Digit v ≠ 0x3d ∧ base64Digit v ≠ 0 ∧
      base64Digit v ≠ CR := by decide +kernel
  exact hall v hv

theorem decmap_zero : decmap (base64Digit 0) = 0 := by decide

/-- `encmap` of six bits of a group. -/
theorem encmap_field (v mask : UInt32) {k : ℕ} (hk : k < 32) (hmask : mask.toNat >>> k = 2 ^ 6 - 1) :
    encmap ((v &&& mask) >>> UInt32.ofNat k).toUInt8 = base64Digit (v.toNat / 2 ^ k % 64) := by
  have hlt : v.toNat / 2 ^ k % 64 < 64 := Nat.mod_lt _ (by norm_num)
  rw [← (base64Digit_spec hlt).1]
  congr 1
  apply UInt8.toNat_inj.mp
  rw [UInt32.toNat_toUInt8, field_toNat v mask hk hmask, UInt8.toNat_ofNat']
  rfl

/-! ## `b64_encode` -/

variable {n : ℕ}

theorem length_base64 (bs : List UInt8) :
    (base64 bs).length = (bs.length / 3 + if bs.length % 3 > 0 then 1 else 0) * 4 := by
  induction bs using base64.induct with
  | case1 a b c rest ih =>
    have hlen : (a :: b :: c :: rest).length = rest.length + 3 := rfl
    rw [base64, List.length_cons, List.length_cons, List.length_cons, List.length_cons, ih, hlen,
      Nat.add_div_right _ (by norm_num), Nat.add_mod_right]
    omega
  | case2 => simp [base64]
  | case3 => simp [base64]
  | case4 => simp [base64]

/-- The four characters for the group `v`. -/
theorem encmap_group (v : UInt32) :
    encmap ((v &&& 0x00fc0000) >>> 18).toUInt8 = base64Digit (v.toNat / 2 ^ 18 % 64) ∧
      encmap ((v &&& 0x0003f000) >>> 12).toUInt8 = base64Digit (v.toNat / 2 ^ 12 % 64) ∧
      encmap ((v &&& 0x00000fc0) >>> 6).toUInt8 = base64Digit (v.toNat / 2 ^ 6 % 64) ∧
      encmap (v &&& 0x0000003f).toUInt8 = base64Digit (v.toNat % 64) := by
  refine ⟨encmap_field v _ (k := 18) (by norm_num) (by decide), encmap_field v _ (k := 12) (by norm_num) (by decide),
    encmap_field v _ (k := 6) (by norm_num) (by decide), ?_⟩
  have h := encmap_field v 0x0000003f (k := 0) (by norm_num) (by decide)
  simpa using h

/-- The loop writes the standard's text behind what it has written. -/
theorem b64EncodeLoop_spec (bs : List UInt8) (j : ℕ) (enc : Buf n) (h : j + (base64 bs).length ≤ n) :
    b64EncodeLoop bs j enc = .ok (j + (base64 bs).length, enc.memcpy j (base64 bs)) := by
  induction bs, j, enc using b64EncodeLoop.induct with
  | case1 a b c rest j enc ih =>
    -- a whole group, then the rest of the text behind its four digits
    obtain ⟨h18, h12, h6, h0⟩ := encmap_group ((a.toUInt32 <<< 16) ||| (b.toUInt32 <<< 8) ||| c.toUInt32)
    rw [group_toNat] at h18 h12 h6 h0
    rw [Nat.mod_eq_of_lt (group_lt a b c)] at h18
    rw [base64] at h ⊢
    simp only [List.length_cons] at h ⊢
    rw [b64EncodeLoop]
    simp only [h18, h12, h6, h0]
    rw [Buf.put_four enc _ _ _ _ (by omega), ih _ (by omega)]
    have hcat := Buf.memcpy_memcpy enc j
      [base64Digit ((a.toNat * 2 ^ 16 + b.toNat * 2 ^ 8 + c.toNat) / 2 ^ 18),
        base64Digit ((a.toNat * 2 ^ 16 + b.toNat * 2 ^ 8 + c.toNat) / 2 ^ 12 % 64),
        base64Digit ((a.toNat * 2 ^ 16 + b.toNat * 2 ^ 8 + c.toNat) / 2 ^ 6 % 64),
        base64Digit ((a.toNat * 2 ^ 16 + b.toNat * 2 ^ 8 + c.toNat) % 64)]
      (base64 rest) (by simp only [List.length_cons, List.length_nil]; omega)
    simp only [List.length_cons, List.length_nil, Nat.zero_add, List.cons_append, List.nil_append] at hcat
    rw [hcat]
    congr 2
    omega
  | case2 a b j enc =>
    -- two bytes left: the third one counts as 0
    obtain ⟨h18, h12, h6, -⟩ := encmap_group ((a.toUInt32 <<< 16) ||| (b.toUInt32 <<< 8))
    have hv := group_toNat a b 0
    simp only [zero_toUInt32, UInt32.or_zero, UInt8.toNat_zero, Nat.add_zero] at hv
    have hlt := group_lt a b 0
    simp only [UInt8.toNat_zero, Nat.add_zero] at hlt
    rw [hv] at h18 h12 h6
    rw [Nat.mod_eq_of_lt hlt] at h18
    rw [base64] at h ⊢
    simp only [List.length_cons, List.length_nil] at h ⊢
    rw [b64EncodeLoop]
    simp only [h18, h12, h6]
    rw [Buf.put_four enc _ _ _ _ (by omega)]
    rfl
  | case3 a j enc =>
    -- one byte left
    obtain ⟨h18, h12, -, -⟩ := encmap_group (a.toUInt32 <<< 16)
    have hv := group_toNat a 0 0
    simp only [zero_toUInt32, UInt32.or_zero, UInt32.zero_shiftLeft, UInt8.toNat_zero, Nat.zero_mul,
      Nat.add_zero] at hv
    have hlt := group_lt a 0 0
    simp only [UInt8.toNat_zero, Nat.zero_mul, Nat.add_zero] at hlt
    rw [hv] at h18 h12
    rw [Nat.mod_eq_of_lt hlt] at h18
    rw [base64] at h ⊢
    simp only [List.length_cons, List.length_nil] at h ⊢
    rw [b64EncodeLoop]
    simp only [h18, h12]
    rw [Buf.put_four enc _ _ _ _ (by omega)]
    rfl
  | case4 j enc =>
    have hnil : enc.memcpy j (base64 []) = enc := (Buf.foldl_indexed enc j []).symm
    rw [b64EncodeLoop, hnil, base64]
    rfl

/-- **`b64_encode`** writes the base64 text of its input where there is room for it. -/
theorem b64Encode_spec (bs : List UInt8) (enc : Buf n) (h : (base64 bs).length ≤ n) :
    b64Encode bs enc = .ok (((base64 bs).length : ℤ), enc.memcpy 0 (base64 bs)) := by
  have hroom : ¬n < (bs.length / 3 + if bs.length % 3 > 0 then 1 else 0) * 4 := by
    rw [← length_base64]
    omega
  rw [b64Encode, if_neg hroom, b64EncodeLoop_spec bs 0 enc (by omega), Nat.zero_add]
  rfl

/-! ## `b64_decode` -/

/-- A byte cut out of a group. -/
theorem byte_field (v mask : UInt32) {k : ℕ} (hk : k < 32) (hmask : mask.toNat >>> k = 2 ^ 8 - 1) :
    ((v &&& mask) >>> UInt32.ofNat k).toUInt8 = UInt8.ofNat (v.toNat / 2 ^ k) := by
  apply UInt8.toNat_inj.mp
  rw [UInt32.toNat_toUInt8, field_toNat v mask hk hmask, UInt8.toNat_ofNat', Nat.mod_mod]

/-- The three bytes of the group `v`. -/
theorem group_bytes (v : UInt32) :
    ((v &&& 0x00ff0000) >>> 16).toUInt8 = UInt8.ofNat (v.toNat / 2 ^ 16) ∧
      ((v &&& 0x0000ff00) >>> 8).toUInt8 = UInt8.ofNat (v.toNat / 2 ^ 8) ∧
      (v &&& 0x000000ff).toUInt8 = UInt8.ofNat v.toNat := by
  refine ⟨byte_field v _ (k := 16) (by norm_num) (by decide), byte_field v _ (k := 8) (by norm_num) (by decide), ?_⟩
  have h := byte_field v 0x000000ff (k := 0) (by norm_num) (by decide)
  simpa using h

/-- The group that the decoder puts together from the digits of 6-bit values. -/
theorem decmap_group {p q r s : ℕ} (hp : p < 64) (hq : q < 64) (hr : r < 64) (hs : s < 64) :
    (((decmap (base64Digit p)).toUInt32 <<< 18) ||| ((decmap (base64Digit q)).toUInt32 <<< 12)
      ||| ((decmap (base64Digit r)).toUInt32 <<< 6) ||| (decmap (base64Digit s)).toUInt32).toNat
      = p * 2 ^ 18 + q * 2 ^ 12 + r * 2 ^ 6 + s := by
  have hnat : ∀ v < 64, (UInt8.ofNat v).toNat = v := by
    intro v hv
    rw [UInt8.toNat_ofNat', Nat.mod_eq_of_lt (by omega)]
  rw [(base64Digit_spec hp).2.1, (base64Digit_spec hq).2.1, (base64Digit_spec hr).2.1, (base64Digit_spec hs).2.1,
    sextets_toNat _ _ _ _ (by rw [hnat p hp]; exact hp) (by rw [hnat q hq]; exact hq)
      (by rw [hnat r hr]; exact hr) (by rw [hnat s hs]; exact hs), hnat p hp, hnat q hq, hnat r hr, hnat s hs]

/-- A group taken apart into bytes. -/
theorem ofNat_group (a b c : UInt8) :
    UInt8.ofNat ((a.toNat * 2 ^ 16 + b.toNat * 2 ^ 8 + c.toNat) / 2 ^ 16) = a ∧
      UInt8.ofNat ((a.toNat * 2 ^ 16 + b.toNat * 2 ^ 8 + c.toNat) / 2 ^ 8) = b ∧
      UInt8.ofNat (a.toNat * 2 ^ 16 + b.toNat * 2 ^ 8 + c.toNat) = c := by
  have ha := a.toNat_lt
  have hb := b.toNat_lt
  have hc := c.toNat_lt
  refine ⟨?_, ?_, ?_⟩
  all_goals
    apply UInt8.toNat_inj.mp
    rw [UInt8.toNat_ofNat']
    omega

/-- A group is put together again from its four 6-bit values. -/
theorem group_split {v : ℕ} : v / 2 ^ 18 * 2 ^ 18 + v / 2 ^ 12 % 64 * 2 ^ 12 + v / 2 ^ 6 % 64 * 2 ^ 6 + v % 64 = v := by
  omega

/-- The loop reads the standard's text back. -/
theorem b64DecodeLoop_spec (bs : List UInt8) (j : ℕ) (dec : Buf n) (h : j + bs.length ≤ n) :
    b64DecodeLoop (base64 bs) j dec = .ok (j + bs.length, dec.memcpy j bs) := by
  induction bs using base64.induct generalizing j dec with
  | case1 a b c rest ih =>
    have hmod : ∀ x : ℕ, x % 64 < 64 := fun x => Nat.mod_lt _ (by norm_num)
    have hv := decmap_group (group_lt a b c) (hmod ((a.toNat * 2 ^ 16 + b.toNat * 2 ^ 8 + c.toNat) / 2 ^ 12))
      (hmod ((a.toNat * 2 ^ 16 + b.toNat * 2 ^ 8 + c.toNat) / 2 ^ 6))
      (hmod (a.toNat * 2 ^ 16 + b.toNat * 2 ^ 8 + c.toNat))
    rw [group_split] at hv
    obtain ⟨h16, h8, h0⟩ := group_bytes _
    rw [hv] at h16 h8 h0
    obtain ⟨ha, hb, hc⟩ := ofNat_group a b c
    have hpad := fun x => (base64Digit_spec (hmod x)).2.2.2.1
    simp only [List.length_cons] at h ⊢
    rw [base64, b64DecodeLoop]
    simp only [beq_eq_false_iff_ne.mpr (hpad _), Bool.and_false, Bool.false_eq_true, if_false, h16, h8, h0, ha, hb, hc]
    rw [Buf.put_ok _ (by omega), Loops.ok_bind, Buf.put_ok _ (by omega), Loops.ok_bind,
      Buf.put_ok _ (by omega), Loops.ok_bind, ih _ _ (by omega)]
    have hthree : ((dec.set j a).set (j + 1) b).set (j + 2) c = dec.memcpy j [a, b, c] :=
      Buf.foldl_indexed dec j [a, b, c]
    have hcat := Buf.memcpy_memcpy dec j [a, b, c] rest (by
      simp only [List.length_cons, List.length_nil]; omega)
    simp only [List.length_cons, List.length_nil, Nat.zero_add, List.cons_append, List.nil_append] at hcat
    rw [hthree, hcat]
    congr 2
    omega
  | case2 a b =>
    have hmod : ∀ x : ℕ, x % 64 < 64 := fun x => Nat.mod_lt _ (by norm_num)
    have hlt := group_lt a b 0
    obtain ⟨ha, hb, -⟩ := ofNat_group a b 0
    simp only [UInt8.toNat_zero, Nat.add_zero] at hlt ha hb
    have hv := decmap_group hlt (hmod ((a.toNat * 2 ^ 16 + b.toNat * 2 ^ 8) / 2 ^ 12))
      (hmod ((a.toNat * 2 ^ 16 + b.toNat * 2 ^ 8) / 2 ^ 6)) (show 0 < 64 by norm_num)
    -- the padded character stands for no bits
    simp only [decmap_zero, zero_toUInt32, UInt32.or_zero] at hv
    rw [show (a.toNat * 2 ^ 16 + b.toNat * 2 ^ 8) / 2 ^ 18 * 2 ^ 18
      + (a.toNat * 2 ^ 16 + b.toNat * 2 ^ 8) / 2 ^ 12 % 64 * 2 ^ 12
      + (a.toNat * 2 ^ 16 + b.toNat * 2 ^ 8) / 2 ^ 6 % 64 * 2 ^ 6 + 0
      = a.toNat * 2 ^ 16 + b.toNat * 2 ^ 8 by omega] at hv
    obtain ⟨h16, h8, -⟩ := group_bytes _
    rw [hv] at h16 h8
    have hpad := fun x => (base64Digit_spec (hmod x)).2.2.2.1
    simp only [List.length_cons, List.length_nil] at h ⊢
    rw [base64, b64DecodeLoop]
    simp only [List.isEmpty_nil, beq_eq_false_iff_ne.mpr (hpad _), Bool.and_false, Bool.false_and, Bool.false_eq_true,
      if_false, BEq.rfl, Bool.and_self, if_true, h16, h8, ha, hb]
    rw [Buf.put_ok _ (by omega), Loops.ok_bind, Buf.put_ok _ (by omega), Loops.ok_bind, b64DecodeLoop]
    · have htwo : (dec.set j a).set (j + 1) b = dec.memcpy j [a, b] := Buf.foldl_indexed dec j [a, b]
      rw [htwo]
    · intro a b c d rest hcons
      cases hcons
  | case3 a =>
    have hmod : ∀ x : ℕ, x % 64 < 64 := fun x => Nat.mod_lt _ (by norm_num)
    have hlt := group_lt a 0 0
    obtain ⟨ha, -, -⟩ := ofNat_group a 0 0
    simp only [UInt8.toNat_zero, Nat.zero_mul, Nat.add_zero] at hlt ha
    have hv := decmap_group hlt (hmod (a.toNat * 2 ^ 16 / 2 ^ 12)) (show 0 < 64 by norm_num)
      (show 0 < 64 by norm_num)
    simp only [decmap_zero, zero_toUInt32, UInt32.zero_shiftLeft, UInt32.or_zero] at hv
    rw [show a.toNat * 2 ^ 16 / 2 ^ 18 * 2 ^ 18 + a.toNat * 2 ^ 16 / 2 ^ 12 % 64 * 2 ^ 12 + 0 * 2 ^ 6 + 0
      = a.toNat * 2 ^ 16 by omega] at hv
    obtain ⟨h16, -, -⟩ := group_bytes _
    rw [hv] at h16
    simp only [List.length_cons, List.length_nil] at h ⊢
    rw [base64, b64DecodeLoop]
    simp only [List.isEmpty_nil, BEq.rfl, Bool.and_self, if_true, h16, ha]
    rw [Buf.put_ok _ (by omega), Loops.ok_bind, b64DecodeLoop]
    · have hone : dec.set j a = dec.memcpy j [a] := Buf.foldl_indexed dec j [a]
      rw [hone]
    · intro a b c d rest hcons
      cases hcons
  | case4 =>
    have hnil : dec.memcpy j [] = dec := (Buf.foldl_indexed dec j []).symm
    rw [base64, b64DecodeLoop, hnil]
    · rfl
    · intro a b c d rest hcons
      cases hcons

/-- The characters of the text are those of the alphabet and the padding. -/
theorem mem_base64 {bs : List UInt8} {c : UInt8} (hc : c ∈ base64 bs) : b64Char c = true ∧ c ≠ 0 ∧ c ≠ CR := by
  have hdigit : ∀ v < 64, b64Char (base64Digit v) = true ∧ base64Digit v ≠ 0 ∧ base64Digit v ≠ CR :=
    fun v hv => ⟨(base64Digit_spec hv).2.2.1, (base64Digit_spec hv).2.2.2.2⟩
  have hpad : b64Char 0x3d = true ∧ (0x3d : UInt8) ≠ 0 ∧ (0x3d : UInt8) ≠ CR := by decide
  -- every character is a digit or `=`, group by group
  have hmod : ∀ x : ℕ, x % 64 < 64 := fun x => Nat.mod_lt _ (by norm_num)
  induction bs using base64.induct with
  | case1 x y z rest ih =>
    rw [base64] at hc
    simp only [List.mem_cons] at hc
    rcases hc with rfl | rfl | rfl | rfl | hc
    · exact hdigit _ (group_lt x y z)
    · exact hdigit _ (hmod _)
    · exact hdigit _ (hmod _)
    · exact hdigit _ (hmod _)
    · exact ih hc
  | case2 x y =>
    have hlt := group_lt x y 0
    simp only [UInt8.toNat_zero, Nat.add_zero] at hlt
    rw [base64] at hc
    simp only [List.mem_cons, List.not_mem_nil, or_false] at hc
    rcases hc with rfl | rfl | rfl | rfl
    · exact hdigit _ hlt
    · exact hdigit _ (hmod _)
    · exact hdigit _ (hmod _)
    · exact hpad
  | case3 x =>
    have hlt := group_lt x 0 0
    simp only [UInt8.toNat_zero, Nat.zero_mul, Nat.add_zero] at hlt
    rw [base64] at hc
    simp only [List.mem_cons, List.not_mem_nil, or_false] at hc
    rcases hc with rfl | rfl | rfl | rfl
    · exact hdigit _ hlt
    · exact hdigit _ (hmod _)
    · exact hpad
    · exact hpad
  | case4 => simp [base64] at hc

/-- **`b64_decode`** of a base64 text reads back what it encodes, where the groups fit. -/
theorem b64Decode_spec (bs : List UInt8) (dec : Buf n)
    (h : (bs.length / 3 + if bs.length % 3 > 0 then 1 else 0) * 3 ≤ n) :
    b64Decode (base64 bs) dec = .ok ((bs.length : ℤ), dec.memcpy 0 bs) := by
  have hlen := length_base64 bs
  have hall : ¬(!(base64 bs).all b64Char) = true := by
    simp only [Bool.not_eq_true', Bool.not_eq_false, List.all_eq_true]
    exact fun c hc => (mem_base64 hc).1
  have hfit : bs.length ≤ n := by
    split at h <;> omega
  rw [b64Decode, if_neg (by omega), if_neg hall, if_neg (by omega), b64DecodeLoop_spec bs 0 dec (by omega),
    Nat.zero_add]
  rfl

/-! ## Other texts -/

/-- Two arrays hold the same decoded bytes. -/
def SameFront (x y : ℕ × Buf n) : Prop := x.1 = y.1 ∧ x.2.toList.take x.1 = y.2.toList.take y.1

/-- What the loop writes does not depend on what was in the array: recursion over the groups. -/
theorem b64DecodeLoop_sameEnd (enc : List UInt8) {j : ℕ} {dec dec' : Buf n}
    (h : dec.toList.take j = dec'.toList.take j) :
    Loops.SameEnd SameFront (b64DecodeLoop enc j dec) (b64DecodeLoop enc j dec') := by
  induction enc, j, dec using b64DecodeLoop.induct generalizing dec' with
  | case1 a b c d rest j dec last hpad =>
    rename_i ih
    rw [b64DecodeLoop, b64DecodeLoop]
    dsimp only
    rw [if_pos hpad, if_pos hpad]
    exact (Buf.put_sameEnd h _).bind fun dec₁ dec₁' h₁ => ih dec₁ h₁
  | case2 a b c d rest j dec last hpad hpad' =>
    rename_i ih
    rw [b64DecodeLoop, b64DecodeLoop]
    dsimp only
    rw [if_neg hpad, if_pos hpad', if_neg hpad, if_pos hpad']
    exact (Buf.put_sameEnd h _).bind fun dec₁ dec₁' h₁ =>
      (Buf.put_sameEnd h₁ _).bind fun dec₂ dec₂' h₂ => ih dec₂ h₂
  | case3 a b c d rest j dec last hpad hpad' =>
    rename_i ih
    rw [b64DecodeLoop, b64DecodeLoop]
    dsimp only
    rw [if_neg hpad, if_neg hpad', if_neg hpad, if_neg hpad']
    exact (Buf.put_sameEnd h _).bind fun dec₁ dec₁' h₁ =>
      (Buf.put_sameEnd h₁ _).bind fun dec₂ dec₂' h₂ =>
        (Buf.put_sameEnd h₂ _).bind fun dec₃ dec₃' h₃ => ih dec₃ h₃
  | case4 enc j dec hshort =>
    rw [b64DecodeLoop, b64DecodeLoop]
    · -- nothing left to decode
      exact ⟨rfl, h⟩
    · exact hshort
    · exact hshort

/-- What `b64_decode` returns, and what it has written, does not depend on what was in the array. -/
theorem b64Decode_sameEnd (enc : List UInt8) (dec dec' : Buf n) :
    Loops.SameEnd (fun x y : ℤ × Buf n => x.1 = y.1 ∧
        (0 ≤ x.1 → x.2.toList.take x.1.toNat = y.2.toList.take x.1.toNat))
      (b64Decode enc dec) (b64Decode enc dec') := by
  have herror : ∀ e : ℤ, e < 0 → Loops.SameEnd (fun x y : ℤ × Buf n => x.1 = y.1 ∧
      (0 ≤ x.1 → x.2.toList.take x.1.toNat = y.2.toList.take x.1.toNat))
      (.ok (e, dec) : Except Fault (ℤ × Buf n)) (.ok (e, dec') : Except Fault (ℤ × Buf n)) :=
    fun e he => ⟨rfl, fun h => absurd h (by dsimp only; omega)⟩
  unfold b64Decode
  split_ifs
  · exact herror (-2) (by norm_num)
  · exact herror (-2) (by norm_num)
  · exact herror (-1) (by norm_num)
  · have hloop := b64DecodeLoop_sameEnd enc (show dec.toList.take 0 = dec'.toList.take 0 from rfl)
    refine hloop.bind fun x y hxy => ?_
    obtain ⟨hcount, hfront⟩ := hxy
    refine ⟨congrArg Int.ofNat hcount, fun _ => ?_⟩
    rw [← hcount] at hfront
    exact hfront

end Esp8266Toolbox
