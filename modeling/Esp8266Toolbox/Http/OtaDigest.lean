import Esp8266Toolbox.Http.OtaAcceptance

/-!
# The writes to `hash3`

The two loops that copy the decrypted number into `hash3`, write by write. `otaHash3` is what
the writes leave. They stay inside the 32 bytes of the array exactly for numbers below
`2 ^ 256`, which a signature by the private key decrypts to and most other texts do not.
-/

namespace Esp8266Toolbox

open Bigint

/-- The bytes of the decrypted number. -/
def clearBytes (clear : Bigint) : ℕ := clear.bytes + (if clear.bits > 0 then 1 else 0)

/-- `for (i=0; i<32-bytes; i++) hash3[i] = 0`. -/
def zeroWrites (bytes : ℕ) : List (ℕ × UInt8) := (List.range (32 - bytes)).map fun i => (i, 0)

/-- `for (j=bytes-1; j>=0; i++, j--) hash3[i] = clear.data[j]`, the third argument being `j + 1`. -/
def byteWrites (data : Buf dataMaxlen) (i : ℕ) : ℕ → List (ℕ × UInt8)
  | 0 => []
  | j + 1 => (i, data.get j) :: byteWrites data (i + 1) j

/-- The writes of both loops, in order. -/
def hash3Writes (clear : Bigint) : List (ℕ × UInt8) :=
  zeroWrites (clearBytes clear) ++ byteWrites clear.data (32 - clearBytes clear) (clearBytes clear)

/-- Each index of the array is written once, and no other. -/
def FillsDigest (writes : List (ℕ × UInt8)) : Prop :=
  (∀ w ∈ writes, w.1 < 32) ∧ ∀ i, i < 32 → (writes.map Prod.fst).count i = 1

/-! ## What the writes leave -/

theorem byteWrites_eq (data : Buf dataMaxlen) (i : ℕ) {k : ℕ} (hk : k ≤ dataMaxlen) :
    byteWrites data i k = indexed i (data.toList.take k).reverse := by
  induction k generalizing i with
  | zero => simp [byteWrites, indexed]
  | succ k ih =>
    have hlen : k < data.toList.length := by
      rw [data.length_toList]
      omega
    rw [byteWrites, ih _ (by omega), List.take_add_one, List.getElem?_eq_getElem hlen, List.reverse_append,
      Buf.get, List.getD_eq_getElem _ _ hlen]
    rfl

theorem zeroWrites_eq (bytes : ℕ) : zeroWrites bytes = indexed 0 (List.replicate (32 - bytes) 0) := by
  unfold zeroWrites
  generalize 32 - bytes = n
  induction n with
  | zero => rfl
  | succ n ih =>
    rw [List.range_succ, List.map_append, ih, List.replicate_succ', indexed_append, List.length_replicate,
      Nat.zero_add]
    rfl

/-- The loops of the source leave what `otaHash3` leaves. -/
theorem otaHash3_writes (ota : OtaState) (h : clearBytes ota.clear ≤ dataMaxlen) :
    (otaHash3 ota).hash3 = (hash3Writes ota.clear).foldl (fun b w => b.set w.1 w.2) ota.hash3 := by
  have hall : hash3Writes ota.clear
      = indexed 0 (List.replicate (32 - clearBytes ota.clear) 0 ++
          (ota.clear.data.toList.take (clearBytes ota.clear)).reverse) := by
    rw [hash3Writes, zeroWrites_eq, byteWrites_eq _ _ h, indexed_append, List.length_replicate, Nat.zero_add]
  rw [hall, Buf.foldl_indexed]
  rfl

/-! ## Their indices -/

theorem byteWrites_indices (data : Buf dataMaxlen) (i k : ℕ) :
    (byteWrites data i k).map Prod.fst = (List.range k).map fun j => i + j := by
  induction k generalizing i with
  | zero => rfl
  | succ k ih =>
    rw [byteWrites, List.map_cons, ih, List.range_succ_eq_map, List.map_cons, List.map_map]
    congr 1
    apply List.map_congr_left
    intro j _
    simp only [Function.comp]
    omega

theorem hash3Writes_indices (clear : Bigint) :
    (hash3Writes clear).map Prod.fst = List.range (max 32 (clearBytes clear)) := by
  have hsum : max 32 (clearBytes clear) = (32 - clearBytes clear) + clearBytes clear := by omega
  rw [hash3Writes, List.map_append, byteWrites_indices, hsum, List.range_add, zeroWrites, List.map_map]
  congr 1
  exact List.map_id _

theorem fillsDigest_iff (clear : Bigint) : FillsDigest (hash3Writes clear) ↔ clearBytes clear ≤ 32 := by
  have hmem : (∀ w ∈ hash3Writes clear, w.1 < 32) ↔ ∀ i ∈ (hash3Writes clear).map Prod.fst, i < 32 := by
    simp
  rw [FillsDigest, hmem, hash3Writes_indices]
  constructor
  · rintro ⟨hin, -⟩
    by_contra hbig
    have hlast := hin 32 (List.mem_range.mpr (by omega))
    omega
  · intro hle
    rw [max_eq_left hle]
    refine ⟨fun i hi => List.mem_range.mp hi, ?_⟩
    intro i hi
    exact List.count_eq_one_of_mem List.nodup_range (List.mem_range.mpr hi)

/-! ## The decrypted number -/

/-- Decryption with a modulus of 512 bits and any exponent. -/
theorem decrypt_spec {key : RsaPubkey} (hclean : key.mod.Clean) (hsize : key.mod.BITS = 512)
    (hlarge : 2 ^ 511 ≤ key.mod.num) {cipher clear : Bigint} (h : rsaPubkeyDecrypt key cipher = .ok clear) :
    clear.Clean ∧ clear.Tight ∧ clear.num = cipher.value ^ key.exp.value % key.mod.num := by
  have hn : 1 < key.mod.num := lt_of_lt_of_le (by norm_num : 1 < 2 ^ 511) hlarge
  by_cases hexp : 1 ≤ key.exp.BITS
  · have hkey : key.Is512 key.mod.num key.exp.value := ⟨hclean, hsize, rfl, hlarge, rfl, hexp⟩
    rcases rsaPubkeyDecrypt_spec hkey cipher with ⟨-, herr⟩ | ⟨-, clear', hok, hspec⟩
    · rw [herr] at h
      cases h
    · rw [hok, Except.ok.injEq] at h
      rw [← h]
      exact hspec
  · -- an exponent without bits: the loop over them does not run
    have h0 : key.exp.BITS = 0 := by omega
    have hv : key.exp.value = 0 := by
      rw [Bigint.value, h0]
      simp [Nat.mod_one]
    unfold rsaPubkeyDecrypt at h
    split at h
    · cases h
    · rename_i hle
      rw [bigintBits, bigintBits] at hle
      rcases bigintDiv_rem (a := cipher) hclean (by omega) (by omega) (by omega) with ⟨q, r, hdiv, -⟩
      rw [bigintExpmod, hdiv, h0] at h
      have hone : clear = bigintCopy (bigintZero.setBit 0) := by
        have h' : Except.ok (bigintCopy (bigintZero.setBit 0)) = Except.ok clear := h
        exact (Except.ok.inj h').symm
      have hcheck : clear.num = 1 ∧ clear.BITS = 1 := by
        rw [hone, bigintOne_clean.copy, bigintOne_num, setBit_BITS]
        exact ⟨rfl, rfl⟩
      rw [hv, pow_zero, Nat.mod_eq_of_lt hn, hcheck.1]
      refine ⟨?_, Or.inr ⟨by omega, ?_⟩, rfl⟩
      · rw [clean_iff, hcheck.1, hcheck.2]
        norm_num
      · rw [hcheck.1, hcheck.2]
        norm_num

theorem clearBytes_le_iff {clear : Bigint} (hc : clear.Clean) (ht : clear.Tight) :
    clearBytes clear ≤ 32 ↔ clear.num < 2 ^ 256 := by
  rw [clearBytes, (ht.bytes_eq hc).1]
  rcases Nat.eq_zero_or_pos clear.num with h0 | hpos
  · rw [h0]
    decide
  · rw [← Nat.log2_lt (by omega)]
    omega

/-- For every 512-bit modulus, every exponent and every text: the loops write each of the 32 bytes of
`hash3` once, and nothing else, if and only if the number the text decrypts to is below
`2 ^ 256`. -/
theorem ota_digest_in_bounds_iff {key : RsaPubkey} (hclean : key.mod.Clean) (hsize : key.mod.BITS = 512)
    (hlarge : 2 ^ 511 ≤ key.mod.num) (query : List UInt8) {cipher clear : Bigint}
    (hfromhex : bigintFromhex query = .ok cipher) (hdecrypt : rsaPubkeyDecrypt key cipher = .ok clear) :
    ∃ s, hexNat query = some s ∧
      (FillsDigest (hash3Writes clear) ↔ s ^ key.exp.value % key.mod.num < 2 ^ 256) := by
  rcases bigintFromhex_spec query with ⟨rv, herr, -⟩ | ⟨s, cipher', hs, hok, -, hcc, hnum⟩
  · rw [herr] at hfromhex
    cases hfromhex
  rw [hok, Except.ok.injEq] at hfromhex
  subst hfromhex
  rcases decrypt_spec hclean hsize hlarge hdecrypt with ⟨hc, ht, hclear⟩
  rw [hcc.value_eq, hnum] at hclear
  refine ⟨s, hs, ?_⟩
  rw [fillsDigest_iff, clearBytes_le_iff hc ht, hclear]

theorem testChip_decrypt {query : List UInt8} {s : ℕ} (hs : hexNat query = some s) (hshort : query.length ≤ 128) :
    ∃ cipher clear, bigintFromhex query = .ok cipher ∧ rsaPubkeyDecrypt testChip.pubkey cipher = .ok clear := by
  rcases bigintFromhex_spec query with ⟨rv, -, hwhy⟩ | ⟨v, cipher, -, hok, hbits, -⟩
  · rcases hwhy with hnone | hlong
    · rw [hs] at hnone
      cases hnone
    · omega
  · rcases rsaPubkeyDecrypt_spec testChip_is512 cipher with ⟨hbig, -⟩ | ⟨-, clear, hdec, -⟩
    · omega
    · exact ⟨cipher, clear, hok, hdec⟩

theorem ota_digest_in_bounds_iff_one :
    ∃ cipher clear, bigintFromhex (ascii "1") = .ok cipher ∧
      rsaPubkeyDecrypt testChip.pubkey cipher = .ok clear ∧ FillsDigest (hash3Writes clear) := by
  have hs : hexNat (ascii "1") = some 1 := by decide
  rcases testChip_decrypt hs (by decide) with ⟨cipher, clear, hok, hdec⟩
  have hlarge : 2 ^ 511 ≤ testChip.pubkey.mod.num := by
    rw [testChip_is512.mod]
    exact testPrime_low
  rcases ota_digest_in_bounds_iff testChip_is512.clean testChip_is512.size hlarge (ascii "1") hok hdec with
    ⟨s, hs', hiff⟩
  rw [hs, Option.some.injEq] at hs'
  refine ⟨cipher, clear, hok, hdec, hiff.mpr ?_⟩
  rw [← hs', one_pow]
  exact lt_of_le_of_lt (Nat.mod_le _ _) (by norm_num)

/-- The text `2` decrypts to a number of more than 32 bytes, and the loops write behind `hash3`. -/
theorem ota_digest_overflow :
    ∃ cipher clear, bigintFromhex (ascii "2") = .ok cipher ∧
      rsaPubkeyDecrypt testChip.pubkey cipher = .ok clear ∧ (∃ w ∈ hash3Writes clear, 32 ≤ w.1) ∧
      ¬FillsDigest (hash3Writes clear) := by
  have hs : hexNat (ascii "2") = some 2 := by decide
  -- `2 ^ e mod n` needs more than 256 bits
  have hbig : ¬2 ^ 65537 % (65537 * testPrime) < 2 ^ 256 := by decide +kernel
  rcases testChip_decrypt hs (by decide) with ⟨cipher, clear, hok, hdec⟩
  rcases bigintFromhex_spec (ascii "2") with ⟨rv, herr, -⟩ | ⟨s, cipher', hs', hok', -, hcc, hnum⟩
  · rw [herr] at hok
    cases hok
  rw [hok', Except.ok.injEq] at hok
  subst hok
  rw [hs, Option.some.injEq] at hs'
  rcases rsaPubkeyDecrypt_spec testChip_is512 cipher' with ⟨-, herr⟩ | ⟨-, clear', hdec', hc, ht, hclear⟩
  · rw [herr] at hdec
    cases hdec
  rw [hdec', Except.ok.injEq] at hdec
  subst hdec
  rw [hcc.value_eq, hnum, ← hs'] at hclear
  have hno : ¬FillsDigest (hash3Writes clear') := by
    rw [fillsDigest_iff, clearBytes_le_iff hc ht, hclear]
    exact hbig
  refine ⟨cipher', clear', hok', hdec', ?_, hno⟩
  have hlast : 32 ∈ (hash3Writes clear').map Prod.fst := by
    rw [fillsDigest_iff] at hno
    rw [hash3Writes_indices]
    exact List.mem_range.mpr (by omega)
  rcases List.mem_map.mp hlast with ⟨w, hw, hindex⟩
  exact ⟨w, hw, by omega⟩

end Esp8266Toolbox
