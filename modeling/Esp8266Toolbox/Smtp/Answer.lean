import Esp8266Toolbox.Crypto.Md5Theorems
import Esp8266Toolbox.Crypto.Base64Theorems
import Esp8266Toolbox.Smtp.Client

/-!
# The answer to the challenge

`respond_spec` follows the arrays of `smtp_send_challenge` from the decoded challenge to `outbuf`:
each array is named by its bytes, and the two runs of `md5` become the two hashes of the
standard.
-/

namespace Esp8266Toolbox

theorem length_lowerHex (bs : List UInt8) : (lowerHex bs).length = 2 * bs.length := by
  induction bs with
  | nil => rfl
  | cons b bs ih =>
    rw [lowerHex, List.flatMap_cons, List.length_append]
    change 2 + (lowerHex bs).length = 2 * (b :: bs).length
    rw [ih, List.length_cons]
    ring

namespace Smtp

theorem hexLower_eq (bs : List UInt8) : hexLower bs = lowerHex bs := by
  unfold hexLower lowerHex lowerDigits
  congr 1
  funext b
  have h4 : (b >>> 4).toNat = b.toNat / 16 := by simp [Nat.shiftRight_eq_div_pow]
  have h15 : (b &&& 15).toNat = b.toNat % 16 := by
    rw [UInt8.toNat_and]
    exact Nat.and_two_pow_sub_one_eq_mod b.toNat 4
  rw [h4, h15]

/-- The loop over a block xors the first 64 bytes. -/
theorem xorBlock_spec {n : ℕ} {b : Buf n} {block rest : List UInt8} (v : UInt8)
    (hb : b.toList = block ++ rest) (hblock : block.length = 64) :
    ∃ b', xorBlock b v = .ok b' ∧ b'.toList = block.map (· ^^^ v) ++ rest := by
  have hn : 64 ≤ n := by
    have hlen := congrArg List.length hb
    simp only [Buf.length_toList, List.length_append] at hlen
    omega
  -- the bytes before the counter are xored, the others are as they were
  let Inv : ℕ → Buf n → Prop := fun k b' => ∀ i, b'.get i = if i < k then b.get i ^^^ v else b.get i
  obtain ⟨b', hloop, hinv⟩ := Loops.foldlM_range_ok (fun (b : Buf n) i => b.put i (b.get i ^^^ v)) Inv 64 b
    (fun i => by simp) (by
      intro i b₁ hi h₁
      refine ⟨_, Buf.put_ok b₁ (by omega) _, fun j => ?_⟩
      rw [Buf.get_set, h₁ i, h₁ j]
      by_cases hij : i = j
      · subst hij
        simp [show i < n by omega]
      · by_cases hj : j < i
        · simp [hij, hj, show j < i + 1 by omega]
        · simp [hij, hj, show ¬j < i + 1 by omega])
  refine ⟨b', hloop, ?_⟩
  have hlen : (block.map (· ^^^ v) ++ rest).length = n := by
    rw [← b.length_toList, hb, List.length_append, List.length_append, List.length_map]
  apply List.ext_getElem
  · rw [Buf.length_toList, hlen]
  · intro i h1 h2
    have hi := hinv i
    have hin : i < n := by rwa [Buf.length_toList] at h1
    rw [Buf.get, List.getD_eq_getElem _ _ h1, Buf.get, hb, List.getD_eq_getElem _ _ (by
      rw [List.length_append, List.length_map] at hlen
      rw [List.length_append]
      omega)] at hi
    rw [hi]
    by_cases h64 : i < 64
    · rw [if_pos h64, List.getElem_append_left (by omega), List.getElem_append_left (by simp; omega),
        List.getElem_map]
    · rw [if_neg h64, List.getElem_append_right (by omega), List.getElem_append_right (by simp; omega)]
      simp

/-- `DEBUG` prints `right` from its byte 16 on as a string: it is not asked to, the string ends in
the xored key, or a byte behind the challenge happens to be zero. -/
def DebugEnds (s : Smtp) (stack : Stack) (pass challenge : List UInt8) : Prop :=
  LEVEL_DEBUG < s.logLevel ∨ 0x36 ∈ pass.drop 16 ∨ 0 ∈ stack.right.toList.drop (64 + challenge.length)

instance (s : Smtp) (stack : Stack) (pass challenge : List UInt8) :
    Decidable (s.DebugEnds stack pass challenge) :=
  inferInstanceAs (Decidable (_ ∨ _ ∨ _))

/-- The string at `right + 16`, where `right` holds the xored key and the challenge. -/
theorem right_ends_iff {right : Buf 256} {key challenge back pass : List UInt8}
    (hright : right.toList = key.map (· ^^^ 0x36) ++ challenge ++ back)
    (hkey : key = pass ++ List.replicate (64 - pass.length) 0) (hpass : pass.length ≤ 64) (hc : 0 ∉ challenge) :
    0 ∈ right.toList.drop 16 ↔ 0x36 ∈ pass.drop 16 ∨ 0 ∈ back := by
  have hxor : ∀ b : UInt8, b ^^^ 0x36 = 0 ↔ b = 0x36 := fun _ => UInt8.xor_eq_zero_iff
  have hlen : key.length = 64 := by simp [hkey]; omega
  have hmem : 0x36 ∈ key.drop 16 ↔ 0x36 ∈ pass.drop 16 := by
    rw [hkey, List.drop_append, List.mem_append, List.drop_replicate, List.mem_replicate]
    simp
  rw [hright, List.append_assoc, List.drop_append_of_le_length (by simp [hlen]), List.mem_append, List.mem_append,
    ← List.map_drop, List.mem_map]
  simp only [hxor, exists_eq_right, hmem, hc, false_or]

/-- The line that `DEBUG` prints. -/
theorem debug_line (s : Smtp) {stack : Stack} {right : Buf 256} {pass challenge : List UInt8}
    (hends : 0 ∈ right.toList.drop 16 ↔
      0x36 ∈ pass.drop 16 ∨ 0 ∈ stack.right.toList.drop (64 + challenge.length)) :
    (if s.logLevel ≤ LEVEL_DEBUG then right.str 16 else pure []) =
      if s.DebugEnds stack pass challenge then
        .ok (if s.logLevel ≤ LEVEL_DEBUG then cstr (right.toList.drop 16) else [])
      else .error Fault.outOfBounds := by
  have hiff : s.DebugEnds stack pass challenge ↔ LEVEL_DEBUG < s.logLevel ∨ 0 ∈ right.toList.drop 16 :=
    or_congr Iff.rfl hends.symm
  by_cases hlevel : s.logLevel ≤ LEVEL_DEBUG
  · rw [if_pos hlevel, if_pos hlevel, Buf.str]
    by_cases hmem : 0 ∈ right.toList.drop 16
    · rw [if_pos hmem, if_pos (hiff.mpr (Or.inr hmem))]
    · rw [if_neg hmem, if_neg (fun h => (hiff.mp h).elim (by omega) hmem)]
  · rw [if_neg hlevel, if_neg hlevel, if_pos (hiff.mpr (Or.inl (by omega)))]
    rfl

/-- A password that fits a block, filled up with zeros. -/
theorem copy_key {pass : List UInt8} (h : pass.length ≤ 64) :
    ∃ key : Buf 64, (Buf.zero 64).copy 0 pass = .ok key ∧
      key.toList = pass ++ List.replicate (64 - pass.length) 0 := by
  obtain ⟨key, hcopy, hkey⟩ := Buf.copy_over (Buf.zero 64) []
    (List.replicate pass.length 0) (List.replicate (64 - pass.length) 0) pass
    (by rw [List.nil_append, ← List.replicate_add, Nat.add_sub_cancel' h]; rfl) (by simp)
  exact ⟨key, hcopy, hkey⟩

/-- `left` is the xored key. -/
theorem copy_left (left key : Buf 64) :
    ∃ left₀ left', left.copy 0 key.toList = .ok left₀ ∧ xorBlock left₀ 0x5c = .ok left' ∧
      left'.toList = key.toList.map (· ^^^ 0x5c) := by
  obtain ⟨left₀, hcopy, hleft₀⟩ := Buf.copy_over left [] left.toList [] key.toList (by simp) (by simp)
  obtain ⟨left', hxor, hleft'⟩ := xorBlock_spec 0x5c hleft₀ (by simp)
  rw [List.append_nil] at hleft'
  exact ⟨left₀, left', hcopy, hxor, hleft'⟩

/-- `right` is the xored key, the challenge, and what was on the stack behind them. -/
theorem copy_right (right : Buf 256) (key : Buf 64) (challenge : List UInt8) (h : challenge.length ≤ 192) :
    ∃ right₀ right₁ right', right.copy 0 key.toList = .ok right₀ ∧ xorBlock right₀ 0x36 = .ok right₁ ∧
      right₁.copy 64 challenge = .ok right' ∧
      right'.toList = key.toList.map (· ^^^ 0x36) ++ challenge ++ right.toList.drop (64 + challenge.length) := by
  obtain ⟨right₀, hcopy, hright₀⟩ := Buf.copy_over right [] (right.toList.take 64) (right.toList.drop 64) key.toList
    (by rw [List.nil_append, List.take_append_drop]) (by simp)
  obtain ⟨right₁, hxor, hright₁⟩ := xorBlock_spec 0x36 hright₀ (by simp)
  obtain ⟨right', hcopy', hright'⟩ := Buf.copy_over right₁ (key.toList.map (· ^^^ 0x36))
    ((right.toList.drop 64).take challenge.length) ((right.toList.drop 64).drop challenge.length) challenge
    (by rw [List.append_assoc, List.take_append_drop, hright₁, List.nil_append]) (by simp; omega)
  rw [List.length_map, key.length_toList] at hcopy'
  rw [List.drop_drop] at hright'
  exact ⟨right₀, right₁, right', hcopy, hxor, hcopy', hright'⟩

/-- The hash of `right` goes where the challenge was, the other key before it. -/
theorem copy_hash (right : Buf 256) (left : Buf 64) (inner hash rest : List UInt8)
    (hright : right.toList = inner ++ rest) (hinner : inner.length = 64) (hhash : hash.length = 16) :
    ∃ right₁ right₂ back, right.copy 64 hash = .ok right₁ ∧ right₁.copy 0 left.toList = .ok right₂ ∧
      right₂.toList = left.toList ++ hash ++ back := by
  have hlen := congrArg List.length hright
  rw [List.length_append, hinner, right.length_toList] at hlen
  obtain ⟨right₁, hcopy, hright₁⟩ := Buf.copy_over right inner (rest.take 16) (rest.drop 16) hash
    (by rw [List.append_assoc, List.take_append_drop, hright]) (by simp; omega)
  rw [hinner] at hcopy
  obtain ⟨right₂, hcopy', hright₂⟩ := Buf.copy_over right₁ [] inner (hash ++ rest.drop 16) left.toList
    (by rw [hright₁]; simp) (by simp [hinner])
  exact ⟨right₁, right₂, rest.drop 16, hcopy, hcopy', by rw [hright₂]; simp⟩

/-- The answer of a user that fits its array fits `outbuf`. -/
theorem length_cramMd5_le {user : List UInt8} (h : user.length < 64) (pass challenge : List UInt8) :
    (cramMd5 user pass challenge).length ≤ 128 := by
  have htext : (user ++ ascii " " ++ lowerHex (hmac Rfc1321.md5 64 pass challenge)).length = user.length + 33 := by
    rw [List.length_append, List.length_append, length_lowerHex, hmac, Rfc1321.length_md5]
    rfl
  rw [cramMd5, length_base64, htext]
  split_ifs <;> omega

/-- `smtp_send_challenge` from the decoded challenge to `outbuf`: the answer of the standards, or
a scan beyond `right`. -/
theorem respond_spec (s : Smtp) (stack : Stack) {chal : Buf 128} {user pass challenge : List UInt8}
    (huser : s.server.user.str 0 = .ok user) (hpass : s.server.pass.str 0 = .ok pass)
    (hchal : chal.str 0 = .ok challenge) :
    s.respond stack chal =
      if s.DebugEnds stack pass challenge then
        .ok (some (s.outbuf.memcpy 0 (cramMd5 user pass challenge ++ crlf),
          (cramMd5 user pass challenge).length + 2))
      else .error .outOfBounds := by
  have hp := Buf.length_lt_of_str hpass
  have hu := Buf.length_lt_of_str huser
  have hc := Buf.length_lt_of_str hchal
  have hc0 : 0 ∉ challenge := (Buf.str_eq_ok hchal).1
  obtain ⟨key, hkeycopy, hkey⟩ := copy_key hp.le
  have hkeylen : key.toList.length = 64 := key.length_toList
  obtain ⟨left₀, left, hleftcopy, hleftxor, hleft⟩ := copy_left stack.left key
  obtain ⟨right₀, right₁, right, hrightcopy, hrightxor, hchalcopy, hright⟩ :=
    copy_right stack.right key challenge (by omega)
  have hends := right_ends_iff hright hkey hp.le hc0
  -- the inner hash
  have hinnerload : right.load 0 (64 + challenge.length) = .ok (key.toList.map (· ^^^ 0x36) ++ challenge) := by
    have hlen : (key.toList.map (· ^^^ 0x36) ++ challenge).length = 64 + challenge.length := by simp
    rw [← hlen]
    exact right.load_front _ _ hright
  have hinner := md5_spec (stack.md5 1) (m := key.toList.map (· ^^^ 0x36) ++ challenge) (by simp; omega)
  -- the outer hash
  obtain ⟨right₂, right₃, back, hhashcopy, hleftcopy', hright₃⟩ :=
    copy_hash right left (key.toList.map (· ^^^ 0x36)) (Rfc1321.md5 (key.toList.map (· ^^^ 0x36) ++ challenge))
      (challenge ++ stack.right.toList.drop (64 + challenge.length)) (by rw [hright, List.append_assoc]) (by simp) (Rfc1321.length_md5 _)
  have houterload : right₃.load 0 (64 + 16) =
      .ok (left.toList ++ Rfc1321.md5 (key.toList.map (· ^^^ 0x36) ++ challenge)) := by
    have hlen : (left.toList ++ Rfc1321.md5 (key.toList.map (· ^^^ 0x36) ++ challenge)).length = 64 + 16 := by
      simp [Rfc1321.length_md5]
    rw [← hlen]
    exact right₃.load_front _ _ hright₃
  have houter := md5_spec (stack.md5 2)
    (m := left.toList ++ Rfc1321.md5 (key.toList.map (· ^^^ 0x36) ++ challenge))
    (by simp [Rfc1321.length_md5])
  have hdigest : Rfc1321.md5 (left.toList ++ Rfc1321.md5 (key.toList.map (· ^^^ 0x36) ++ challenge)) =
      hmac Rfc1321.md5 64 pass challenge := by
    rw [hmac, if_neg (by omega), ← hkey, hleft]
  rw [hdigest] at houter
  -- the text and its encoding
  have htext : (user ++ ascii " " ++ hexLower (hmac Rfc1321.md5 64 pass challenge)).length = user.length + 33 := by
    rw [List.length_append, List.length_append, hexLower_eq, length_lowerHex, ← hdigest, Rfc1321.length_md5]
    rfl
  have htextload := right₃.load_snprintf (user ++ ascii " " ++ hexLower (hmac Rfc1321.md5 64 pass challenge)) (by omega)
  rw [htext] at htextload
  have hanswer : base64 (user ++ ascii " " ++ hexLower (hmac Rfc1321.md5 64 pass challenge)) =
      cramMd5 user pass challenge := by
    rw [hexLower_eq]
    rfl
  have hlen := length_cramMd5_le hu pass challenge
  have hencode := b64Encode_spec (user ++ ascii " " ++ hexLower (hmac Rfc1321.md5 64 pass challenge)) s.outbuf
    (by rw [hanswer]; omega)
  rw [hanswer] at hencode
  have hlinecopy : (s.outbuf.memcpy 0 (cramMd5 user pass challenge)).copy
      (cramMd5 user pass challenge).length crlf = .ok (s.outbuf.memcpy 0 (cramMd5 user pass challenge ++ crlf)) := by
    have hmove := s.outbuf.memcpy_memcpy 0 (cramMd5 user pass challenge) crlf (by simp [crlf]; omega)
    rw [Nat.zero_add] at hmove
    rw [Buf.copy_ok _ (by simp [crlf]; omega), hmove]
  have hdebug := s.debug_line hends
  unfold respond
  simp only [hpass, Loops.ok_bind, if_neg (show ¬pass.length > 64 by omega), hkeycopy, hleftcopy, hleftxor, hchal,
    if_neg (show ¬64 + challenge.length > 256 by omega), hrightcopy, hrightxor, hchalcopy]
  rw [← Loops.ite_bind, hdebug]
  by_cases hprinted : s.DebugEnds stack pass challenge
  · rw [if_pos hprinted, if_pos hprinted]
    simp only [Loops.ok_bind, hinnerload, hinner, hhashcopy, hleftcopy', houterload, houter, huser,
      if_neg (show ¬user.length + 33 > 256 by omega), htextload, hencode, Int.toNat_natCast, hlinecopy,
      if_neg (show ¬((cramMd5 user pass challenge).length : ℤ) < 0 by omega)]
    rfl
  · rw [if_neg hprinted, if_neg hprinted]
    rfl

end Smtp
end Esp8266Toolbox
