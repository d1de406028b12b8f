import Esp8266Toolbox.Crypto.BigintPrograms
import Esp8266Toolbox.Crypto.RsaTheorems
import Esp8266Toolbox.Lib.Format

/-!
# Numbers as text

`bigint_print` writes a number as hexadecimal text, the partial byte as a full pair of digits;
`bigint_fromhex` reads a text of at most 297 digits. What is printed is read back as the same
number, with a size that is a whole number of bytes.
-/

namespace Esp8266Toolbox

open Bigint

/-! ## `bigint_print` -/

/-- `%02x` of a byte. -/
def hexByte (b : UInt8) : List UInt8 := [hexDigit (b.toNat / 16), hexDigit (b.toNat % 16)]

/-- The text `bigint_print(i, size)` writes. -/
def bigintPrint (i : Bigint) (size : ℤ) : List UInt8 :=
  (if size ≠ 0 then decimal i.bytes ++ [0x2e] ++ decimal i.bits ++ [SP] else []) ++
    (if i.bits > 0 then hexByte (i.data.get i.bytes &&& i.mask) else []) ++
      (List.range i.bytes).reverse.flatMap fun j => hexByte (i.data.get j)

/-- The hexadecimal digits, in both cases. -/
def hexDigits : List UInt8 := ascii "0123456789abcdefABCDEF"

/-! ## What `bigint_fromhex` accepts -/

theorem hexchar_eq_none_iff (c : UInt8) : hexchar c = none ↔ c ∉ hexDigits := by
  apply byte_forall (P := fun c => hexchar c = none ↔ c ∉ hexDigits)
  decide +kernel

theorem hexLe_eq_none_iff (cs : List UInt8) : hexLe cs = none ↔ ∃ c ∈ cs, c ∉ hexDigits := by
  induction cs with
  | nil => simp [hexLe]
  | cons c cs ih =>
    rw [List.exists_mem_cons_iff, ← ih, ← hexchar_eq_none_iff, hexLe]
    cases hexchar c <;> cases hexLe cs <;> simp

/-- A text denotes a number when all its characters are digits. -/
theorem hexNat_eq_none_iff (s : List UInt8) : hexNat s = none ↔ ∃ c ∈ s, c ∉ hexDigits := by
  rw [hexNat, hexLe_eq_none_iff]
  simp only [List.mem_reverse]

/-- The loop stops with an error before it has filled 149 bytes. -/
theorem fromhexLoop_fits {i j : Bigint} {cs : List UInt8} (h : fromhexLoop i cs = .ok j)
    (hcap : i.bytes < dataMaxlen - 1) : i.bytes + cs.length / 2 < dataMaxlen - 1 := by
  induction i, cs using fromhexLoop.induct with
  | case1 i => simpa using hcap
  | case2 i c hc => simpa using hcap
  | case3 i c l hc => simpa using hcap
  | case4 i c c' cs l h' hh hl i' hover =>
    rw [fromhexLoop, hl, hh] at h
    simp only at h
    rw [if_pos hover] at h
    cases h
  | case5 i c c' cs l h' hh hl i' hroom ih =>
    rw [fromhexLoop, hl, hh] at h
    simp only at h
    rw [if_neg hroom] at h
    have hrest : i.bytes + 1 + cs.length / 2 < dataMaxlen - 1 := ih h (Nat.lt_of_not_ge hroom)
    rw [List.length_cons, List.length_cons]
    omega
  | case6 i c c' cs hbad =>
    have herr : fromhexLoop i (c :: c' :: cs) = .error 2 := by
      rw [fromhexLoop]
      split
      · rename_i l h' hl hh
        exact (hbad l h' hl hh).elim
      · rfl
    rw [herr] at h
    cases h

/-- `bigint_fromhex` succeeds on at most 297 digits and nothing else. -/
theorem bigintFromhex_ok_iff (s : List UInt8) :
    (∃ i, bigintFromhex s = .ok i) ↔ (∀ c ∈ s, c ∈ hexDigits) ∧ s.length ≤ 297 := by
  have hdigits : (∀ c ∈ s, c ∈ hexDigits) ↔ hexNat s ≠ none := by
    rw [Ne, hexNat_eq_none_iff]
    push Not
    rfl
  rw [hdigits]
  rcases bigintFromhex_spec s with ⟨rv, herr, hwhy⟩ | ⟨v, i, hv, hok, -, -, -⟩
  · constructor
    · rintro ⟨i, hi⟩
      rw [herr] at hi
      nomatch hi
    · rintro ⟨hnum, hlen⟩
      rcases hwhy with hnone | hlong
      · exact absurd hnone hnum
      · omega
  · have hfits := fromhexLoop_fits hok (by decide)
    simp only [bigintZero, dataMaxlen, List.length_reverse] at hfits
    refine ⟨fun _ => ⟨by simp [hv], by omega⟩, fun _ => ⟨i, hok⟩⟩

/-- A text whose last index fits the `int16_t` is read as a whole. -/
theorem fromhexChars_eq {s : List UInt8} (h : s.length < 32768) : fromhexChars s = s := by
  have hmod : ((s.length : ℤ) - 1).bmod 65536 = s.length - 1 := by
    rw [Int.bmod_eq_of_le] <;> omega
  rw [fromhexChars, hmod]
  exact List.take_of_length_le (by omega)

/-! ## Reading what was printed -/

theorem hexLe_hexByte (b : UInt8) : hexLe (hexByte b).reverse = some b.toNat := by
  have hlt := b.toNat_lt
  have hdigits : hexLe ([b.toNat % 16, b.toNat / 16].map hexDigit) = _ :=
    hexLe_map_hexDigit _ (by simp; omega)
  refine hdigits.trans (congrArg some ?_)
  simp only [Nat.ofDigits_cons, Nat.ofDigits_nil]
  omega

/-- The bytes below `n`, printed from the highest down. -/
theorem hexLe_bytes (d : Buf dataMaxlen) (n : ℕ) :
    hexLe ((List.range n).reverse.flatMap fun j => hexByte (d.get j)).reverse
      = some (d.num % 2 ^ (8 * n)) := by
  induction n with
  | zero => simp [hexLe, Nat.mod_one]
  | succ n ih =>
    rw [List.range_succ, List.reverse_append, List.reverse_singleton, List.singleton_append, List.flatMap_cons,
      List.reverse_append, hexLe_append ih (hexLe_hexByte _), List.length_reverse, pow_sixteen]
    have hlen : 4 * ((List.range n).reverse.flatMap fun j => hexByte (d.get j)).length = 8 * n := by
      simp [List.length_flatMap, hexByte]
      omega
    rw [hlen, Buf.get_toNat, Nat.mul_succ, pow_add, Nat.mod_mul]

/-- The masked partial byte. -/
theorem and_mask_toNat (i : Bigint) (x : UInt8) : (x &&& i.mask).toNat = x.toNat % 2 ^ i.bits := by
  apply Nat.eq_of_testBit_eq
  intro k
  rw [UInt8.toNat_and, Nat.testBit_and, mask, byte_testBit_mask i.bits_lt, Nat.testBit_mod_two_pow, Bool.and_comm]

/-- The printed text denotes the value. -/
theorem hexNat_bigintPrint (i : Bigint) : hexNat (bigintPrint i 0) = some i.value := by
  have hbits := i.bits_lt
  have hvalue : i.value = i.num % 2 ^ (8 * i.bytes) + 2 ^ (8 * i.bytes) * (i.num / 2 ^ (8 * i.bytes) % 2 ^ i.bits) := by
    rw [value, BITS, Nat.mul_comm, pow_add, Nat.mod_mul]
  have hlen : 4 * ((List.range i.bytes).reverse.flatMap fun j => hexByte (i.data.get j)).length = 8 * i.bytes := by
    simp [List.length_flatMap, hexByte]
    omega
  rw [bigintPrint, if_neg (by simp), List.nil_append, hexNat, List.reverse_append]
  by_cases hpart : i.bits > 0
  · -- the partial byte comes first in the text, with the bits above the size masked out
    have hmask : (i.data.get i.bytes &&& i.mask).toNat = i.num / 2 ^ (8 * i.bytes) % 2 ^ i.bits := by
      rw [and_mask_toNat, Buf.get_toNat, Nat.mod_mod_of_dvd _ (pow_dvd_pow 2 (by omega))]
      rfl
    rw [if_pos hpart, hexLe_append (hexLe_bytes i.data i.bytes) (hexLe_hexByte _), List.length_reverse, pow_sixteen,
      hlen, hmask, hvalue]
    rfl
  · have hzero : i.bits = 0 := Nat.eq_zero_of_not_pos hpart
    rw [if_neg hpart, List.reverse_nil, List.append_nil, hexLe_bytes, hvalue, hzero, pow_zero, Nat.mod_one, mul_zero,
      add_zero]
    rfl

theorem length_bigintPrint (i : Bigint) :
    (bigintPrint i 0).length = 2 * (i.bytes + if i.bits > 0 then 1 else 0) := by
  rw [bigintPrint, if_neg (by simp), List.nil_append, List.length_append]
  have hlen : ((List.range i.bytes).reverse.flatMap fun j => hexByte (i.data.get j)).length = 2 * i.bytes := by
    simp [List.length_flatMap, hexByte]
    omega
  rw [hlen]
  split
  · simp [hexByte]
    omega
  · simp

/-- **Hexadecimal text.** `bigint_fromhex` accepts the texts of at most 297 digits and reads the
number they denote, and what `bigint_print` writes is read as the number printed. -/
theorem fromhex_exact_inverse :
    (∀ s : List UInt8, s.length < 32768 →
      ((∃ i, bigintFromhex (fromhexChars s) = .ok i) ↔ (∀ c ∈ s, c ∈ hexDigits) ∧ s.length ≤ 297) ∧
        ∀ i, bigintFromhex (fromhexChars s) = .ok i →
          i.Clean ∧ i.BITS = 4 * s.length ∧ hexNat s = some i.value) ∧
      ∀ i : Bigint, i.Clean → i.bytes + (if i.bits > 0 then 1 else 0) ≤ 148 →
        ∃ j, bigintFromhex (fromhexChars (bigintPrint i 0)) = .ok j ∧ j.value = i.value := by
  constructor
  · intro s hs
    rw [fromhexChars_eq hs]
    refine ⟨bigintFromhex_ok_iff s, fun i hi => ?_⟩
    rcases bigintFromhex_spec s with ⟨rv, herr, -⟩ | ⟨v, j, hv, hok, hB, hclean, hnum⟩
    · rw [herr] at hi
      nomatch hi
    · rw [hok, Except.ok.injEq] at hi
      subst hi
      exact ⟨hclean, hB, by rw [hclean.value_eq, hnum, hv]⟩
  · intro i _ hsize
    -- two characters a byte, within the 16-bit index of the loop
    have hlen : (bigintPrint i 0).length ≤ 296 := by
      rw [length_bigintPrint]
      omega
    have hnum := hexNat_bigintPrint i
    rw [fromhexChars_eq (by omega)]
    rcases bigintFromhex_spec (bigintPrint i 0) with ⟨rv, -, hwhy⟩ | ⟨v, j, hv, hok, -, hclean, hj⟩
    · rcases hwhy with hnone | hlong
      · rw [hnone] at hnum
        nomatch hnum
      · omega
    · refine ⟨j, hok, ?_⟩
      rw [hclean.value_eq, hj]
      exact Option.some.inj (hv.symm.trans hnum)

/-- The text `1aF` and the number 5. -/
theorem fromhex_exact_inverse_small :
    (∃ i, bigintFromhex (fromhexChars (ascii "1aF")) = .ok i ∧ hexNat (ascii "1aF") = some i.value) ∧
      ∃ j, bigintFromhex (fromhexChars (bigintPrint ((bigintZero.resize 3).setBit 2) 0)) = .ok j ∧
        j.value = ((bigintZero.resize 3).setBit 2).value := by
  constructor
  · obtain ⟨hok, hread⟩ := fromhex_exact_inverse.1 (ascii "1aF") (by decide)
    rcases hok.mpr (by decide) with ⟨i, hi⟩
    exact ⟨i, hi, (hread i hi).2.2⟩
  · exact fromhex_exact_inverse.2 _ (by rw [clean_iff]; decide +kernel) (by decide)

end Esp8266Toolbox
