import Esp8266Toolbox.Crypto.BigintExpmod
import Esp8266Toolbox.Crypto.Rsa
import Esp8266Toolbox.Lib.ModPow

/-!
# Encodings and decryption

Three encodings of a number meet in a signature: the hexadecimal text in the url, the
`Bigint` literal of the key, and the `Bigint` that decryption works on. `hexNat` is the number
a text denotes; the host scripts print texts and literals of the number they are given,
`bigint_fromhex` reads the number back, and `rsa_pubkey_decrypt` is exponentiation.
-/

namespace Esp8266Toolbox

open Bigint

/-! ## Hexadecimal text -/

/-- The number denoted by digits, the least significant one first; `none` if one is not a
hexadecimal digit. -/
def hexLe : List UInt8 → Option ℕ
  | [] => some 0
  | c :: cs =>
    match hexchar c, hexLe cs with
    | some d, some v => some (d.toNat + 16 * v)
    | _, _ => none

/-- The number denoted by a text. -/
def hexNat (s : List UInt8) : Option ℕ := hexLe s.reverse

theorem hexLe_cons_eq {c : UInt8} {cs : List UInt8} {v : ℕ} (h : hexLe (c :: cs) = some v) :
    ∃ d w, hexchar c = some d ∧ hexLe cs = some w ∧ v = d.toNat + 16 * w := by
  rw [hexLe] at h
  rcases hd : hexchar c with _ | d
  · simp [hd] at h
  rcases hw : hexLe cs with _ | w
  · simp [hd, hw] at h
  · simp only [hd, hw, Option.some.injEq] at h
    exact ⟨d, w, rfl, rfl, h.symm⟩

/-- A digit is below 16. -/
theorem hexchar_lt {c d : UInt8} (h : hexchar c = some d) : d.toNat < 16 := by
  have hc : ((hexchar c).getD 0).toNat < 16 :=
    byte_forall (P := fun c => ((hexchar c).getD 0).toNat < 16) (by decide +kernel) c
  rwa [h] at hc

theorem hexLe_lt (cs : List UInt8) {v : ℕ} (h : hexLe cs = some v) : v < 16 ^ cs.length := by
  induction cs generalizing v with
  | nil =>
    rw [hexLe, Option.some.injEq] at h
    simp [← h]
  | cons c cs ih =>
    rcases hexLe_cons_eq h with ⟨d, w, hd, hw, rfl⟩
    have hdlt := hexchar_lt hd
    have hwlt := ih hw
    rw [List.length_cons, pow_succ]
    omega

theorem hexLe_append {xs ys : List UInt8} {v w : ℕ} (hx : hexLe xs = some v) (hy : hexLe ys = some w) :
    hexLe (xs ++ ys) = some (v + 16 ^ xs.length * w) := by
  induction xs generalizing v with
  | nil =>
    rw [hexLe, Option.some.injEq] at hx
    simpa [← hx] using hy
  | cons x xs ih =>
    rcases hexLe_cons_eq hx with ⟨d, u, hd, hu, rfl⟩
    rw [List.cons_append, hexLe, hd, ih hu]
    simp only [Option.some.injEq, List.length_cons, pow_succ]
    ring

theorem hexLe_append_eq {xs ys : List UInt8} {v : ℕ} (h : hexLe (xs ++ ys) = some v) :
    ∃ a b, hexLe xs = some a ∧ hexLe ys = some b ∧ v = a + 16 ^ xs.length * b := by
  induction xs generalizing v with
  | nil => exact ⟨0, v, rfl, h, by simp⟩
  | cons x xs ih =>
    rcases hexLe_cons_eq h with ⟨d, w, hd, hw, rfl⟩
    rcases ih hw with ⟨a, b, ha, hb, rfl⟩
    refine ⟨d.toNat + 16 * a, b, by rw [hexLe, hd, ha], hb, ?_⟩
    rw [List.length_cons, pow_succ]
    ring

/-- The digits that `'%x'` prints are read as themselves. -/
theorem hexchar_hexDigit {d : ℕ} (h : d < 16) : hexchar (hexDigit d) = some (UInt8.ofNat d) := by
  have hall : ∀ d : Fin 16, hexchar (hexDigit d) = some (UInt8.ofNat d) := by decide
  exact hall ⟨d, h⟩

theorem hexLe_map_hexDigit (ds : List ℕ) (h : ∀ d ∈ ds, d < 16) :
    hexLe (ds.map hexDigit) = some (Nat.ofDigits 16 ds) := by
  induction ds with
  | nil => rfl
  | cons d ds ih =>
    have hd : d < 16 := h d List.mem_cons_self
    have hrest := ih fun e he => h e (List.mem_cons_of_mem d he)
    rw [List.map_cons, hexLe, hexchar_hexDigit hd, hrest]
    have hval : (UInt8.ofNat d).toNat = d := by simp; omega
    simp only [hval, Nat.ofDigits_cons]

/-- Reading `'%x' % n` gives `n`. -/
theorem hexNat_hexText (n : ℕ) : hexNat (hexText n) = some n := by
  unfold hexNat hexText
  split
  · rename_i h
    rw [h]
    decide
  · rw [← List.map_reverse, List.reverse_reverse, hexLe_map_hexDigit, Nat.ofDigits_digits]
    intro d hd
    exact Nat.digits_lt_base (by norm_num) hd

theorem pow_sixteen (k : ℕ) : 16 ^ k = 2 ^ (4 * k) := by
  rw [pow_mul]
  norm_num

/-- The length of `'%x' % n`. -/
theorem length_hexText_le {n k : ℕ} (hk : 0 < k) : (hexText n).length ≤ k ↔ n < 16 ^ k := by
  unfold hexText
  split
  · rename_i h
    rw [h]
    have : 0 < 16 ^ k := Nat.pow_pos (by norm_num)
    simp
    omega
  · rw [List.length_map, List.length_reverse]
    exact Nat.digits_length_le_iff (by norm_num) n

theorem hexText_ne_nil (n : ℕ) : hexText n ≠ [] := by
  unfold hexText
  split
  · simp
  · rename_i h
    simpa using Nat.digits_ne_nil_iff_ne_zero.mpr h

/-! ## `bigint_fromhex` -/

/-- A byte made of two digits. -/
theorem toNat_digit_pair {h l : UInt8} (hh : h.toNat < 16) (hl : l.toNat < 16) :
    ((h <<< 4) ||| l).toNat = l.toNat + 16 * h.toNat := by
  have hall : ∀ i j : Fin 16, ((UInt8.ofNat i <<< 4) ||| UInt8.ofNat j).toNat = j.val + 16 * i.val := by
    decide
  have hpair := hall ⟨h.toNat, hh⟩ ⟨l.toNat, hl⟩
  simpa using hpair

/-- A store into a byte that was zero. -/
theorem num_set_zero {n : ℕ} (b : Buf n) {j : ℕ} (hj : j < n) (hzero : b.num < 2 ^ (8 * j)) (v : UInt8) :
    (b.set j v).num = b.num + 2 ^ (8 * j) * v.toNat := by
  apply Nat.eq_of_testBit_eq
  intro k
  rw [Buf.num_set_testBit _ hj, Nat.add_comm, Nat.testBit_two_pow_mul_add _ hzero]
  by_cases hk : k / 8 = j
  · rw [if_pos hk, if_neg (by omega), show k - 8 * j = k % 8 by omega]
  · rw [if_neg hk]
    by_cases hlt : k < 8 * j
    · rw [if_pos hlt]
    · rw [if_neg hlt, byte_testBit_ge v (by omega)]
      exact Nat.testBit_eq_false_of_lt (lt_of_lt_of_le hzero (Nat.pow_le_pow_right (by norm_num) (by omega)))

theorem two_pow_next_byte (n : ℕ) : 2 ^ (8 * (n + 1)) = 2 ^ (8 * n) * 256 := by
  rw [Nat.mul_succ, pow_add]
  norm_num

/-- The loop of `bigint_fromhex` fails on a character that is not a digit and where the array
would overflow; otherwise it appends the digits to the number. -/
theorem fromhexLoop_spec (i : Bigint) (cs : List UInt8) (hbits : i.bits = 0)
    (hnum : i.num < 2 ^ (8 * i.bytes)) (hcap : i.bytes < dataMaxlen - 1) :
    (∃ rv, fromhexLoop i cs = .error rv ∧
        (hexLe cs = none ∨ dataMaxlen - 1 ≤ i.bytes + cs.length / 2)) ∨
      ∃ v j, hexLe cs = some v ∧ fromhexLoop i cs = .ok j ∧ j.BITS = i.BITS + 4 * cs.length ∧
        j.num = i.num + 2 ^ (8 * i.bytes) * v := by
  induction i, cs using fromhexLoop.induct with
  | case1 i => exact Or.inr ⟨0, i, rfl, by rw [fromhexLoop], by simp, by simp⟩
  | case2 i c hc =>
    left
    refine ⟨2, by rw [fromhexLoop, hc], Or.inl ?_⟩
    rw [hexLe, hc]
  | case3 i c l hc =>
    -- the odd leading digit fills half a byte
    right
    refine ⟨l.toNat, _, ?_, by rw [fromhexLoop, hc], ?_, ?_⟩
    · rw [hexLe, hc, hexLe]
      rfl
    · unfold BITS
      simp [hbits]
    · exact num_set_zero i.data (by omega) hnum l
  | case4 i c c' cs l h hh hl i' hover =>
    -- the byte of these two digits is the first that does not fit
    left
    refine ⟨1, ?_, Or.inr ?_⟩
    · rw [fromhexLoop, hl, hh]
      exact if_pos hover
    · have : i.bytes + 1 ≥ dataMaxlen - 1 := hover
      rw [List.length_cons, List.length_cons]
      omega
  | case5 i c c' cs l h hh hl i' hroom ih =>
    -- two digits fill the next byte, and the loop goes on with one byte less of room
    have hroom' : i.bytes + 1 < dataMaxlen - 1 := Nat.lt_of_not_ge hroom
    have hlt := hexchar_lt hl
    have hht := hexchar_lt hh
    have hnum' : i'.num = i.num + 2 ^ (8 * i.bytes) * (l.toNat + 16 * h.toNat) := by
      have hset := num_set_zero i.data (j := i.bytes) (by omega) hnum ((h <<< 4) ||| l)
      rw [toNat_digit_pair hht hlt] at hset
      exact hset
    have hpow : 2 ^ (8 * i'.bytes) = 2 ^ (8 * i.bytes) * 256 := two_pow_next_byte i.bytes
    have hbound : i'.num < 2 ^ (8 * i'.bytes) := by
      rw [hnum', hpow]
      nlinarith [Nat.two_pow_pos (8 * i.bytes)]
    have heq : fromhexLoop i (c :: c' :: cs) = fromhexLoop i' cs := by
      rw [fromhexLoop, hl, hh]
      exact if_neg hroom
    rw [heq]
    rcases ih hbits hbound hroom' with ⟨rv, herr, hwhy⟩ | ⟨v, j, hv, hok, hB, hn⟩
    · left
      refine ⟨rv, herr, ?_⟩
      rcases hwhy with hnone | hover
      · left
        rw [hexLe, hexLe, hnone, hl]
        cases hexchar c' <;> rfl
      · right
        have : dataMaxlen - 1 ≤ i.bytes + 1 + cs.length / 2 := hover
        rw [List.length_cons, List.length_cons]
        omega
    · right
      refine ⟨l.toNat + 16 * (h.toNat + 16 * v), j, ?_, hok, ?_, ?_⟩
      · rw [hexLe, hexLe, hl, hh, hv]
      · have hB' : i'.BITS = i.BITS + 8 := by
          show (i.bytes + 1) * 8 + i.bits = i.bytes * 8 + i.bits + 8
          omega
        rw [hB, hB', List.length_cons, List.length_cons]
        omega
      · rw [hn, hnum', hpow]
        ring
  | case6 i c c' cs hbad =>
    -- one of the two characters is not a digit
    left
    have hnone : hexchar c = none ∨ hexchar c' = none := by
      rcases hl : hexchar c with _ | l
      · exact Or.inl rfl
      · rcases hh : hexchar c' with _ | h
        · exact Or.inr rfl
        · exact absurd hh (fun hh => hbad l h hl hh)
    refine ⟨2, ?_, Or.inl ?_⟩
    · rw [fromhexLoop]
      rcases hnone with hn | hn
      · simp [hn]
      · rw [hn]
        cases hexchar c <;> rfl
    · rw [hexLe, hexLe]
      rcases hnone with hn | hn
      · simp [hn]
      · rw [hn]
        cases hexchar c <;> rfl

/-- **`bigint_fromhex`** reads the number a text denotes, in four bits a digit; it fails exactly
on texts that are not hexadecimal and on texts that are too long. -/
theorem bigintFromhex_spec (s : List UInt8) :
    (∃ rv, bigintFromhex s = .error rv ∧ (hexNat s = none ∨ 298 ≤ s.length)) ∨
      ∃ v j, hexNat s = some v ∧ bigintFromhex s = .ok j ∧ j.BITS = 4 * s.length ∧ j.Clean ∧
        j.num = v := by
  have hspec := fromhexLoop_spec { bigintZero with bits := 0, bits_lt := by norm_num } s.reverse rfl
    (by simp [bigintZero, num]) (by decide)
  rcases hspec with ⟨rv, herr, hwhy⟩ | ⟨v, j, hv, hok, hB, hn⟩
  · refine Or.inl ⟨rv, herr, hwhy.imp id fun hlong => ?_⟩
    simp only [bigintZero, dataMaxlen, List.length_reverse] at hlong
    omega
  · have hB' : j.BITS = 4 * s.length := by
      rw [hB, List.length_reverse]
      simp [BITS, bigintZero]
    have hn' : j.num = v := by
      rw [hn]
      simp [bigintZero, num]
    refine Or.inr ⟨v, j, hv, hok, hB', ?_, hn'⟩
    rw [clean_iff, hn', hB', ← pow_sixteen]
    have hlt := hexLe_lt _ hv
    rw [List.length_reverse] at hlt
    exact hlt

/-! ## The literals of `rsapubkey.py` -/

theorem length_hexPairs (s : List UInt8) : (hexPairs s).length = s.length / 2 := by
  induction s using hexPairs.induct with
  | case1 h l s ih =>
    rw [hexPairs, List.length_cons, ih, List.length_cons, List.length_cons]
    omega
  | case2 s hs =>
    rcases s with _ | ⟨h, _ | ⟨l, s⟩⟩
    · rfl
    · simp [hexPairs]
    · exact absurd rfl (hs h l s)

/-- The bytes of a text of even length, the last one first, denote its number. -/
theorem leNat_hexPairs (s : List UInt8) {v : ℕ} (heven : s.length % 2 = 0) (h : hexNat s = some v) :
    leNat (hexPairs s).reverse = v := by
  induction s using hexPairs.induct generalizing v with
  | case1 h' l s ih =>
    have hsplit : (h' :: l :: s).reverse = s.reverse ++ [l, h'] := by simp
    unfold hexNat at h
    rw [hsplit] at h
    -- the first pair is the top byte: its digits are read last
    rcases hexLe_append_eq h with ⟨a, b, ha, hb, rfl⟩
    rcases hexLe_cons_eq hb with ⟨d, w, hd, hw, rfl⟩
    rcases hexLe_cons_eq hw with ⟨d', w', hd', hw', rfl⟩
    have hw0 : w' = 0 := by
      rw [hexLe, Option.some.injEq] at hw'
      exact hw'.symm
    have hlen : s.length % 2 = 0 := by
      rw [List.length_cons, List.length_cons] at heven
      omega
    have hpair : (hexPair h' l).toNat = d.toNat + 16 * d'.toNat := by
      rw [hexPair, hd, hd']
      exact toNat_digit_pair (hexchar_lt hd') (hexchar_lt hd)
    have hpow : 2 ^ (8 * (s.length / 2)) = 16 ^ s.length := by
      rw [pow_sixteen]
      congr 1
      omega
    rw [hexPairs, List.reverse_cons, leNat_append, ih hlen ha, List.length_reverse, length_hexPairs, hpow]
    simp only [leNat, hpair, hw0, List.length_reverse]
    ring
  | case2 s hs =>
    rcases s with _ | ⟨h', _ | ⟨l, s⟩⟩
    · simp only [hexNat, List.reverse_nil, hexLe, Option.some.injEq] at h
      rw [← h]
      rfl
    · simp at heven
    · exact absurd rfl (hs h' l s)

/-- Copying into a zeroed array. -/
theorem num_memcpy_zero {n : ℕ} {src : List UInt8} (h : src.length ≤ n) :
    ((Buf.zero n).memcpy 0 src).num = leNat src := by
  apply Buf.num_eq_of_testBit
  intro k
  rw [Buf.get_memcpy, leNat_testBit]
  by_cases hk : k / 8 < src.length
  · rw [if_pos (by omega), if_pos ⟨by omega, by omega⟩, Nat.sub_zero]
  · have hnone : src.getD (k / 8) 0 = 0 := List.getD_eq_default _ _ (by omega)
    rw [hnone]
    split
    · rw [if_neg (by omega), Buf.get_zero]
    · rfl

/-- The text `tobigint` cuts into bytes. -/
def evenHex (val : ℕ) : List UInt8 :=
  if (hexText val).length % 2 = 1 then hexDigit 0 :: hexText val else hexText val

theorem length_evenHex (val : ℕ) :
    (evenHex val).length = 2 * (((hexText val).length + 1) / 2) := by
  unfold evenHex
  split
  · rw [List.length_cons]
    omega
  · omega

theorem hexNat_evenHex (val : ℕ) : hexNat (evenHex val) = some val := by
  unfold evenHex
  split
  · unfold hexNat
    rw [List.reverse_cons]
    have hzero : hexLe [hexDigit 0] = some 0 := by decide
    have happ := hexLe_append (hexNat_hexText val) hzero
    rwa [Nat.mul_zero, Nat.add_zero] at happ
  · exact hexNat_hexText val

/-- **`tobigint`** prints a clean literal of its value, in whole bytes, as long as the array has
room for it. -/
theorem tobigint_spec {val : ℕ} (h : val < 16 ^ 300) :
    (tobigint val).BITS = 8 * (((hexText val).length + 1) / 2) ∧ (tobigint val).num = val ∧
      (tobigint val).Clean := by
  have hlen := (length_hexText_le (n := val) (k := 300) (by norm_num)).mpr h
  have heven := length_evenHex val
  have hB : (tobigint val).BITS = 8 * (((hexText val).length + 1) / 2) := by
    show (evenHex val).length / 2 * 8 + 0 = _
    omega
  have hnum : (tobigint val).num = val := by
    show ((Buf.zero dataMaxlen).memcpy 0 (hexPairs (evenHex val)).reverse).num = val
    rw [num_memcpy_zero, leNat_hexPairs _ (by omega) (hexNat_evenHex val)]
    rw [List.length_reverse, length_hexPairs]
    unfold dataMaxlen
    omega
  refine ⟨hB, hnum, ?_⟩
  rw [clean_iff, hnum, hB]
  have hlt := hexLe_lt _ (hexNat_evenHex val)
  rw [List.length_reverse, heven, pow_sixteen] at hlt
  rwa [show 4 * (2 * (((hexText val).length + 1) / 2)) = 8 * (((hexText val).length + 1) / 2) by ring]
    at hlt

/-! ## `expmod` of `rsasign.py` -/

theorem length_squares (x c n : ℕ) : (squares x c n).length = n + 1 := by
  induction n generalizing x with
  | zero => rfl
  | succ n ih => rw [squares, List.length_cons, ih]

theorem squares_getD {c : ℕ} (n : ℕ) {k x : ℕ} (hk : k ≤ n) :
    (squares x c n).getD k 0 ≡ x ^ 2 ^ k [MOD c] := by
  induction n generalizing k x with
  | zero =>
    have h0 : k = 0 := by omega
    subst h0
    simp [squares, Nat.ModEq.refl]
  | succ n ih =>
    rcases k with _ | k
    · simp [squares, Nat.ModEq.refl]
    · have hnext := ih (x := x * x % c) (Nat.le_of_succ_le_succ hk)
      rw [squares, List.getD_cons_succ]
      apply hnext.trans
      rw [pow_succ', pow_mul, pow_two]
      exact (Nat.mod_modEq _ _).pow _

/-- The number given by the digits from the `k`-th on, and the `k`-th digit alone. -/
theorem div_mul_two_pow (b k : ℕ) :
    b / 2 ^ k * 2 ^ k = b / 2 ^ (k + 1) * 2 ^ (k + 1) + b / 2 ^ k % 2 * 2 ^ k := by
  have hsplit := div_two_pow_split b k 1
  rw [pow_one] at hsplit
  calc b / 2 ^ k * 2 ^ k
      = (2 * (b / 2 ^ (k + 1)) + b / 2 ^ k % 2) * 2 ^ k := by rw [← hsplit]
    _ = b / 2 ^ (k + 1) * 2 ^ (k + 1) + b / 2 ^ k % 2 * 2 ^ k := by
        rw [pow_succ]
        ring

/-- The Python function is exponentiation. -/
theorem expmod_eq (a b c : ℕ) : expmod a b c = a ^ b % c := by
  unfold expmod binDigits
  dsimp only
  rw [List.length_reverse]
  generalize hL : (Nat.digits 2 b).length = L
  -- after `p` digits the accumulator is the power of the number they denote
  suffices hinv : _ ≡ a ^ (b / 2 ^ (L - L) * 2 ^ (L - L)) [MOD c] by
    rw [Nat.sub_self, pow_zero, Nat.div_one, Nat.mul_one] at hinv
    exact hinv
  refine Loops.foldl_range_inv _ (fun p rv => rv ≡ a ^ (b / 2 ^ (L - p) * 2 ^ (L - p)) [MOD c])
    L 1 ?_ ?_
  · have hblt : b < 2 ^ L := by
      rw [← hL]
      exact Nat.lt_base_pow_length_digits (by norm_num)
    rw [Nat.sub_zero, Nat.div_eq_of_lt hblt, Nat.zero_mul, pow_zero]
  · intro p rv hp h
    generalize hk : L - 1 - p = k
    rw [show L - p = k + 1 by omega] at h
    have hdigit : (Nat.digits 2 b).reverse.getD p 0 = b / 2 ^ k % 2 := by
      rw [List.getD_reverse _ (by omega), hL, Nat.getD_digits _ _ (by norm_num), hk]
    have hxs : (squares (a % c) c (L - 1)).getD ((squares (a % c) c (L - 1)).length - 1 - p) 0
        ≡ a ^ 2 ^ k [MOD c] := by
      rw [length_squares, show L - 1 + 1 - 1 - p = k by omega]
      exact (squares_getD (L - 1) (by omega)).trans ((Nat.mod_modEq _ _).pow _)
    rw [show L - (p + 1) = k by omega, hdigit, div_mul_two_pow, pow_add]
    split
    · rename_i hone
      rw [hone, Nat.one_mul]
      exact h.mul hxs
    · rename_i hzero
      have hbit : b / 2 ^ k % 2 = 0 := by omega
      rw [hbit, Nat.zero_mul, pow_zero, Nat.mul_one]
      exact h

/-! ## Decryption -/

/-- The key has a modulus `n` of 512 bits and the exponent `e`. -/
structure RsaPubkey.Is512 (key : RsaPubkey) (n e : ℕ) : Prop where
  clean : key.mod.Clean
  size : key.mod.BITS = 512
  mod : key.mod.num = n
  large : 2 ^ 511 ≤ n
  exp : key.exp.value = e
  exp_size : 1 ≤ key.exp.BITS

/-- The key that `rsapubkey.py` prints. -/
theorem tobigint_is512 {n e : ℕ} (hlow : 2 ^ 511 ≤ n) (hhigh : n < 2 ^ 512) (he : e < 16 ^ 300) :
    (RsaPubkey.mk (tobigint n) (tobigint e)).Is512 n e := by
  have hlen : (hexText n).length = 128 := by
    have h1 : (hexText n).length ≤ 128 := by
      rw [length_hexText_le (by norm_num), pow_sixteen]
      exact lt_of_lt_of_le hhigh (Nat.pow_le_pow_right (by norm_num) (by norm_num))
    have h2 : ¬(hexText n).length ≤ 127 := by
      rw [length_hexText_le (by norm_num), not_lt, pow_sixteen]
      exact le_trans (Nat.pow_le_pow_right (by norm_num) (by norm_num)) hlow
    omega
  have hn : n < 16 ^ 300 := by
    rw [pow_sixteen]
    exact lt_of_lt_of_le hhigh (Nat.pow_le_pow_right (by norm_num) (by norm_num))
  rcases tobigint_spec hn with ⟨hB, hnum, hc⟩
  rcases tobigint_spec he with ⟨hB', hnum', hc'⟩
  have hpos : 0 < (hexText e).length := List.length_pos_of_ne_nil (hexText_ne_nil e)
  refine ⟨hc, ?_, hnum, hlow, ?_, ?_⟩
  · show (tobigint n).BITS = 512
    omega
  · show (tobigint e).value = e
    rw [hc'.value_eq, hnum']
  · show 1 ≤ (tobigint e).BITS
    omega

/-- **`rsa_pubkey_decrypt`** refuses what is longer than the modulus, and otherwise raises to the
public exponent. -/
theorem rsaPubkeyDecrypt_spec {key : RsaPubkey} {n e : ℕ} (hkey : key.Is512 n e) (cipher : Bigint) :
    (512 < cipher.BITS ∧ rsaPubkeyDecrypt key cipher = .error 1) ∨
      (cipher.BITS ≤ 512 ∧ ∃ clear, rsaPubkeyDecrypt key cipher = .ok clear ∧ clear.Clean ∧
        clear.Tight ∧ clear.num = cipher.value ^ e % n) := by
  have hsize := hkey.size
  unfold rsaPubkeyDecrypt bigintBits
  by_cases h : cipher.BITS > key.mod.BITS
  · left
    rw [if_pos h]
    exact ⟨by omega, rfl⟩
  · right
    rw [if_neg h]
    refine ⟨by omega, ?_⟩
    have hn0 : key.mod.num ≠ 0 := by
      rw [hkey.mod]
      exact ne_of_gt (lt_of_lt_of_le (Nat.two_pow_pos _) hkey.large)
    have hspec := bigintExpmod_spec (a := cipher) hkey.clean hn0 (by omega) hkey.exp_size (by omega)
    rw [hkey.exp, hkey.mod] at hspec
    exact hspec

end Esp8266Toolbox
