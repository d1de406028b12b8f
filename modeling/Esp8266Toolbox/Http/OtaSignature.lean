import Esp8266Toolbox.Crypto.RsaTheorems
import Esp8266Toolbox.Http.OtaStreaming

/-!
# The signature block

What `http_url_ota_push` compares with the digest is not the decrypted number but the first 32
of its bytes (`sigHash`), and it compares them as C strings. `SigMatches` is the exact condition
under which it accepts. A signature made by the host scripts satisfies it; so do others, and
`Confusable` says which.
-/

namespace Esp8266Toolbox

open Bigint

/-! ## Numbers as bytes -/

@[simp] theorem length_beBytes (k n : ℕ) : (Fips180.beBytes k n).length = k := by
  simp [Fips180.beBytes]

theorem beNat_beBytes (k n : ℕ) : beNat (Fips180.beBytes k n) = n % 2 ^ (8 * k) := by
  have hrev : (Fips180.beBytes k n).reverse
      = (List.range k).map fun j => UInt8.ofNat (n / 2 ^ (8 * j)) := by
    apply List.ext_getElem
    · simp
    · intro j h1 h2
      have hj : j < k := by simpa using h1
      simp only [Fips180.beBytes, List.getElem_reverse, List.getElem_map, List.getElem_range,
        List.length_map, List.length_range]
      rw [show k - 1 - (k - 1 - j) = j by omega]
  apply Nat.eq_of_testBit_eq
  intro b
  rw [beNat, hrev, leNat_testBit, Nat.testBit_mod_two_pow]
  have hb8 : b % 8 < 8 := Nat.mod_lt _ (by norm_num)
  by_cases hb : b / 8 < k
  · have hget : ((List.range k).map fun j => UInt8.ofNat (n / 2 ^ (8 * j))).getD (b / 8) 0
        = UInt8.ofNat (n / 2 ^ (8 * (b / 8))) := by
      rw [List.getD_eq_getElem _ _ (by simpa using hb)]
      simp
    have hpos : b < 8 * k := by omega
    rw [hget, UInt8.toNat_ofNat', Nat.testBit_mod_two_pow, Nat.testBit_div_two_pow,
      show b % 8 + 8 * (b / 8) = b by omega]
    simp [hb8, hpos]
  · have hget : ((List.range k).map fun j => UInt8.ofNat (n / 2 ^ (8 * j))).getD (b / 8) 0 = 0 :=
      List.getD_eq_default _ _ (by simpa using hb)
    have hpos : ¬b < 8 * k := by omega
    rw [hget]
    simp [hpos]

/-! ## `hash3` -/

/-- The first 32 bytes of a number that is written with the fewest bytes possible, but with at
least 32. -/
def sigHash (v : ℕ) : List UInt8 := (Fips180.beBytes (max 32 (v.log2 / 8 + 1)) v).take 32

@[simp] theorem length_sigHash (v : ℕ) : (sigHash v).length = 32 := by
  simp [sigHash]

/-- A number of 256 bits is its own first 32 bytes. -/
theorem sigHash_beNat {digest : List UInt8} (h : digest.length = 32) : sigHash (beNat digest) = digest := by
  have hlt : beNat digest < 2 ^ 256 := by
    have hlt := leNat_lt digest.reverse
    rw [List.length_reverse, h] at hlt
    exact hlt
  have hlog : (beNat digest).log2 / 8 + 1 ≤ 32 := by
    have : (beNat digest).log2 < 256 := by
      rcases Nat.eq_zero_or_pos (beNat digest) with h0 | hpos
      · rw [h0]
        decide
      · exact (Nat.log2_lt (by omega)).mpr hlt
    omega
  rw [sigHash, max_eq_left hlog, List.take_of_length_le (by simp)]
  apply beNat_inj (by simpa using h.symm)
  rw [beNat_beBytes, Nat.mod_eq_of_lt hlt]

/-- The number of bytes of a clean number without leading zero bytes. -/
theorem Bigint.Tight.bytes_eq {x : Bigint} (hc : x.Clean) (ht : x.Tight) :
    x.bytes + (if x.bits > 0 then 1 else 0) = x.num.log2 / 8 + 1 ∧ x.num.log2 / 8 + 1 ≤ dataMaxlen := by
  have hbits := x.bits_lt
  have hB : x.BITS = 8 * x.bytes + x.bits := by
    unfold BITS
    omega
  have hbytes : x.bytes + (if x.bits > 0 then 1 else 0) = (x.BITS + 7) / 8 := by
    split <;> omega
  rw [hbytes]
  rcases ht with ⟨h1, h0⟩ | ⟨hpos, hlow⟩
  · rw [h1, h0]
    decide
  · have hn0 : x.num ≠ 0 := by
      have := Nat.two_pow_pos (8 * ((x.BITS - 1) / 8))
      omega
    have hlog1 : 8 * ((x.BITS - 1) / 8) ≤ x.num.log2 := (Nat.le_log2 hn0).mpr hlow
    have hlog2 : x.num.log2 < x.BITS := (Nat.log2_lt hn0).mpr hc.lt
    have hlog3 : x.num.log2 < 8 * dataMaxlen := (Nat.log2_lt hn0).mpr x.num_lt
    omega

/-- The two loops leave the first 32 bytes of the number in `hash3`. -/
theorem otaHash3_spec (ota : OtaState) (hc : ota.clear.Clean) (ht : ota.clear.Tight) :
    (otaHash3 ota).hash3.toList = sigHash ota.clear.num := by
  rcases ht.bytes_eq hc with ⟨hbytes, hmax⟩
  unfold otaHash3
  dsimp only
  rw [hbytes]
  generalize hk : ota.clear.num.log2 / 8 + 1 = k at hmax
  have hdata : ota.clear.data.toList.length = dataMaxlen := ota.clear.data.length_toList
  have hlen : (List.replicate (32 - k) 0 ++ (ota.clear.data.toList.take k).reverse).length = max 32 k := by
    simp only [List.length_append, List.length_replicate, List.length_reverse, List.length_take, hdata]
    omega
  have hlt : ota.clear.num < 2 ^ (8 * k) := by
    rcases Nat.eq_zero_or_pos ota.clear.num with h0 | hpos
    · rw [h0]
      exact Nat.two_pow_pos _
    · apply (Nat.log2_lt (by omega)).mp
      omega
  -- the bytes written denote the number
  have hnum : leNat (ota.clear.data.toList.take k) = ota.clear.num := by
    have happ := leNat_append (ota.clear.data.toList.take k) (ota.clear.data.toList.drop k)
    rw [List.take_append_drop, List.length_take, hdata, min_eq_left hmax] at happ
    have hnum : ota.clear.num = leNat ota.clear.data.toList := rfl
    have hpos := Nat.two_pow_pos (8 * k)
    have hhigh : leNat (ota.clear.data.toList.drop k) = 0 := by
      by_contra hne
      have : 2 ^ (8 * k) * 1 ≤ 2 ^ (8 * k) * leNat (ota.clear.data.toList.drop k) :=
        Nat.mul_le_mul_left _ (Nat.pos_of_ne_zero hne)
      omega
    rw [hhigh, Nat.mul_zero, Nat.add_zero] at happ
    rw [hnum, happ]
  have hwritten : List.replicate (32 - k) 0 ++ (ota.clear.data.toList.take k).reverse
      = Fips180.beBytes (max 32 k) ota.clear.num := by
    apply beNat_inj
    · rw [hlen, length_beBytes]
    · have hle : 2 ^ (8 * k) ≤ 2 ^ (8 * max 32 k) := Nat.pow_le_pow_right (by norm_num) (by omega)
      rw [beNat_beBytes, Nat.mod_eq_of_lt (lt_of_lt_of_le hlt hle), beNat, List.reverse_append,
        List.reverse_reverse, List.reverse_replicate, leNat_append, leNat_replicate_zero, hnum]
      simp
  rw [sigHash, hk, ← hwritten]
  simp only [Buf.memcpy, List.take_zero, List.nil_append, Nat.zero_add]
  rw [List.take_append_of_le_length (by rw [hlen]; omega)]

/-! ## The decision -/

/-- The text behind `?` passes the signature block for an image with this digest. -/
def SigMatches (n e : ℕ) (digest : List UInt8) (query : Option (List UInt8)) : Prop :=
  ∃ q s, query = some q ∧ hexNat q = some s ∧ q.length ≤ 128 ∧
    cstr digest = cstr (sigHash (s ^ e % n))

/-- The signature block, for a key of 512 bits. -/
theorem otaSignature_spec {env : OtaEnv} {n e : ℕ} (hkey : env.pubkey.Is512 n e)
    (query : Option (List UInt8)) {ota : OtaState} (hlen : ota.hash1.length = 32) :
    ((otaSignature env query ota).2 = none ↔ SigMatches n e ota.hash1 query) ∧
      ∀ q s, query = some q → hexNat q = some s → q.length ≤ 128 →
        (otaSignature env query ota).1.hash3.toList = sigHash (s ^ e % n) := by
  rcases query with _ | q
  · exact ⟨by simp [otaSignature, SigMatches], by simp⟩
  -- a text that the block does not get past
  have hstop : ∀ ota' err, otaSignature env (some q) ota = (ota', some err) →
      (∀ s, hexNat q = some s → ¬q.length ≤ 128) →
      ((otaSignature env (some q) ota).2 = none ↔ SigMatches n e ota.hash1 (some q)) ∧
        ∀ q' s, some q = some q' → hexNat q' = some s → q'.length ≤ 128 →
          (otaSignature env (some q) ota).1.hash3.toList = sigHash (s ^ e % n) := by
    intro ota' err heq hbad
    refine ⟨⟨?_, ?_⟩, ?_⟩
    · rw [heq]
      simp
    · rintro ⟨q', s, hq, hs, hle, -⟩
      cases hq
      exact absurd hle (hbad s hs)
    · intro q' s hq hs hle
      cases hq
      exact absurd hle (hbad s hs)
  rcases bigintFromhex_spec q with ⟨rv, herr, hwhy⟩ | ⟨s, cipher, hs, hok, hB, hc, hn⟩
  · apply hstop ota .invalidSignature
    · rw [otaSignature, herr]
    · intro s hs
      rcases hwhy with hnone | hlong
      · rw [hs] at hnone
        cases hnone
      · omega
  rcases rsaPubkeyDecrypt_spec hkey cipher with ⟨hlong, herr⟩ | ⟨hshort, clear, hdec, hcc, hct, hcn⟩
  · apply hstop { ota with cipher } .invalidSignature
    · rw [otaSignature, hok]
      dsimp only
      rw [herr]
    · intro s _
      omega
  rw [hc.value_eq, hn] at hcn
  have hhash3 := otaHash3_spec { ota with cipher, clear } hcc hct
  rw [hcn] at hhash3
  have heq : otaSignature env (some q) ota
      = if strncmp ota.hash1 (sigHash (s ^ e % n)) 32 ≠ 0 then
          (otaHash3 { ota with cipher, clear }, some .signatureMismatch)
        else (otaHash3 { ota with cipher, clear }, none) := by
    rw [otaSignature, hok]
    dsimp only
    rw [hdec]
    dsimp only
    rw [hhash3]
    rfl
  have hcmp := strncmp_eq_zero_iff hlen (length_sigHash (s ^ e % n))
  refine ⟨?_, ?_⟩
  · rw [heq]
    constructor
    · intro h
      by_cases h0 : strncmp ota.hash1 (sigHash (s ^ e % n)) 32 = 0
      · exact ⟨q, s, rfl, hs, by omega, hcmp.mp h0⟩
      · rw [if_pos h0] at h
        cases h
    · rintro ⟨q', s', hq, hs', -, hagree⟩
      cases hq
      rw [hs] at hs'
      cases hs'
      rw [if_neg (not_not.mpr (hcmp.mpr hagree))]
  · intro q' s' hq hs' hle
    cases hq
    rw [hs] at hs'
    cases hs'
    rw [heq]
    split
    · exact hhash3
    · exact hhash3

/-- The comparison of the hashes and the signature block. -/
theorem otaCompare_accepted_iff {env : OtaEnv} {n e : ℕ} (hkey : env.pubkey.Is512 n e) {r : OtaRun}
    (h1 : r.ota.hash1.length = 32) (h2 : r.ota.hash2.length = 32) :
    (otaCompare env r).2 = .accepted ↔
      cstr r.ota.hash1 = cstr r.ota.hash2 ∧ SigMatches n e r.ota.hash1 r.client.query := by
  have hcmp := strncmp_eq_zero_iff h1 h2
  have hsig := (otaSignature_spec hkey r.client.query h1).1
  rw [otaCompare]
  by_cases h0 : strncmp r.ota.hash1 r.ota.hash2 32 = 0
  · rw [if_neg (not_not.mpr h0), ← hsig]
    rcases hs : otaSignature env r.client.query r.ota with ⟨ota, _ | err⟩
    · simp [hcmp.mp h0]
    · simp
  · rw [if_pos h0]
    simp [← hcmp, h0]

theorem length_sha256Done {state state' : Sha256State} {hash : List UInt8}
    (h : sha256Done state = .ok (state', hash)) : hash.length = 32 := by
  rcases Loops.bind_eq_ok h with ⟨st, -, hret⟩
  cases hret
  have hword : ∀ x : UInt32, (sha256WordBytes x).length = 4 := fun _ => rfl
  simp [List.length_flatMap, hword]

theorem length_sha256 (m : List UInt8) : (Fips180.sha256 m).length = 32 := by
  simp [Fips180.sha256]

end Esp8266Toolbox
