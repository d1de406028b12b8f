import Esp8266Toolbox.Http.OtaTheorems

/-!
# Calls whose flash calls all succeed

With no failing flash call, `http_url_ota_push` behind its loop is simple: `hash1` is the
digest of the stream, the read-back hashes what is in flash, which is the same bytes, and
the outcome is that of the comparison with the signature. `DataCases` says so for a call by
the owner.

A second `sha256_done` on the same state, which a further segment after the end of the image
causes, is not a digest of the image; `HashDone` is what is known of that state.
-/

namespace Esp8266Toolbox

open Server

/-! ## The read-back -/

theorem take_sectorAt (c : ℕ → UInt8) (addr : ℕ) {n : ℕ} (h : n ≤ secSize) :
    (sectorAt c addr).toList.take n = flashBytes c addr n := by
  unfold sectorAt
  dsimp only
  exact flashBytes_take c addr h

/-- The number of bytes the read-back hashes of its `j`-th sector. -/
theorem readBack_len {appsize j : ℕ} (hj : secSize * j < appsize) :
    min appsize (secSize * (j + 1)) = secSize * j +
      (if secSize * j + secSize > appsize then appsize % secSize else secSize) := by
  rw [Nat.mul_succ]
  split
  · rename_i hover
    -- the last, partial sector: the quotient is `j`
    have hdiv : appsize / secSize = j := by
      apply Nat.div_eq_of_lt_le
      · rw [Nat.mul_comm]
        omega
      · rw [Nat.add_mul, Nat.one_mul, Nat.mul_comm]
        omega
    have hmod := Nat.div_add_mod appsize secSize
    rw [hdiv] at hmod
    omega
  · omega

/-- The read-back from its `j`-th sector on hashes the flash content up to the application's end. -/
theorem otaReadBack_ok {r : OtaRun} (hr : r.dev.replies = []) (k : ℕ) {j : ℕ}
    (hjk : j + k = (r.ota.appsize + (secSize - 1)) / secSize)
    (habs : BlockHash.Absorbed sha256Consume sha256H r.ota.sha256
      (flashBytes r.dev.content r.ota.newaddrBeg (min r.ota.appsize (secSize * j)))) :
    ∃ secbuf sha256,
      otaReadBack r ((List.range' j k).map fun k => r.ota.newaddrBeg + secSize * k)
        = ({ r with ota := { r.ota with secbuf, sha256 } }, none) ∧
      BlockHash.Absorbed sha256Consume sha256H sha256
        (flashBytes r.dev.content r.ota.newaddrBeg r.ota.appsize) := by
  induction k generalizing r j with
  | zero =>
    have hend : r.ota.appsize ≤ secSize * j := by
      have hj : j = (r.ota.appsize + (secSize - 1)) / secSize := by omega
      have := Nat.div_add_mod (r.ota.appsize + (secSize - 1)) secSize
      have := Nat.mod_lt (r.ota.appsize + (secSize - 1)) (show 0 < secSize by decide)
      rw [← hj] at *
      omega
    rw [min_eq_left hend] at habs
    exact ⟨r.ota.secbuf, r.ota.sha256, rfl, habs⟩
  | succ k ih =>
    have hj : secSize * j < r.ota.appsize := by
      have hlt : j < (r.ota.appsize + (secSize - 1)) / secSize := by omega
      have := Nat.mul_le_of_le_div secSize (j + 1) _ hlt
      unfold secSize at *
      omega
    have hread : spiFlashRead r.dev (r.ota.newaddrBeg + secSize * j)
        = (r.dev, sectorAt r.dev.content (r.ota.newaddrBeg + secSize * j), true) := by
      rw [spiFlashRead, hr]
      dsimp only [List.headD_nil, List.tail_nil]
      rw [← hr]
    rw [List.range'_succ, List.map_cons, otaReadBack, hread]
    dsimp only
    -- what is hashed now continues what has been hashed
    generalize hn : (if r.ota.newaddrBeg + secSize * j + secSize > r.ota.newaddrBeg + r.ota.appsize
      then r.ota.appsize % secSize else secSize) = n
    have hlen : min r.ota.appsize (secSize * (j + 1)) = secSize * j + n := by
      rw [readBack_len hj, ← hn]
      congr 1
      apply if_congr _ rfl rfl
      omega
    have hle : n ≤ secSize := by
      rw [Nat.mul_succ] at hlen
      omega
    have htake : (sectorAt r.dev.content (r.ota.newaddrBeg + secSize * j)).toList.take n
        = flashBytes r.dev.content (r.ota.newaddrBeg + secSize * j) n :=
      take_sectorAt _ _ hle
    rw [min_eq_right (le_of_lt hj)] at habs
    have hnext := BlockHash.proc_spec habs
      (flashBytes r.dev.content (r.ota.newaddrBeg + secSize * j) n)
    rw [← flashBytes_add, ← hlen, ← htake] at hnext
    exact ih (r := { r with ota := { r.ota with
      secbuf := sectorAt r.dev.content (r.ota.newaddrBeg + secSize * j)
      sha256 := sha256Proc r.ota.sha256
        ((sectorAt r.dev.content (r.ota.newaddrBeg + secSize * j)).toList.take n) } })
      hr (by dsimp only; omega) hnext

/-! ## Behind the loop -/

/-- The state that `sha256_done` leaves on the hash of `m`. -/
def HashDone (m : List UInt8) (sha256 : Sha256State) : Prop :=
  ∃ before, BlockHash.Absorbed sha256Consume sha256H before m ∧
    sha256Done before = .ok (sha256, Fips180.sha256 m)

/-- From the second `sha256_init` on, the code compares `hash1` with the digest of the flash. -/
theorem otaRecheck_ok (env : OtaEnv) {r : OtaRun} (hr : r.dev.replies = [])
    (habs : BlockHash.Absorbed sha256Consume sha256H r.ota.sha256 [])
    (hsmall : r.ota.appsize < 2 ^ 29) :
    ∃ secbuf sha256, HashDone (flashBytes r.dev.content r.ota.newaddrBeg r.ota.appsize) sha256 ∧
      otaRecheck env r = otaCompare env { r with ota := { r.ota with
        secbuf, sha256, hash2 := Fips180.sha256 (flashBytes r.dev.content r.ota.newaddrBeg r.ota.appsize) } } := by
  have h0 : BlockHash.Absorbed sha256Consume sha256H r.ota.sha256
      (flashBytes r.dev.content r.ota.newaddrBeg (min r.ota.appsize (secSize * 0))) := by
    rw [Nat.mul_zero, Nat.min_zero]
    exact habs
  rcases otaReadBack_ok hr _ (Nat.zero_add _) h0 with ⟨secbuf, sha256, hread, habs'⟩
  rw [← List.range_eq_range'] at hread
  rcases sha256Done_spec habs' (by simpa using hsmall) with ⟨sha256', hdone⟩
  refine ⟨secbuf, sha256', ⟨sha256, habs', hdone⟩, ?_⟩
  rw [otaRecheck, readBackAddrs, hread]
  dsimp only
  rw [otaVerify]
  dsimp only
  rw [hdone]

/-- From the first `sha256_done` on: the image in flash is compared with `hash1`, whatever that
is, and then with the signature. -/
theorem otaComplete_ok (env : OtaEnv) {base limit : ℕ} (hp : Partition base limit) {m : List UInt8}
    {r : OtaRun} (hf : Flashed base limit m r) (hr : r.dev.replies = []) {sha256 : Sha256State}
    {hash1 : List UInt8} (hdone : sha256Done r.ota.sha256 = .ok (sha256, hash1)) :
    ∃ r', SameUpload r r' ∧ r'.ota.hash1 = hash1 ∧
      r'.ota.hash2 = Fips180.sha256 (m.take r.client.postlen) ∧
      HashDone (m.take r.client.postlen) r'.ota.sha256 ∧ otaComplete env r = otaCompare env r' := by
  have hsmall : r.ota.appsize < 2 ^ 29 := by
    have h1 := hp.small
    have h2 := hf.fits
    rw [hf.app]
    omega
  have himage : flashBytes r.dev.content r.ota.newaddrBeg r.ota.appsize = m.take r.client.postlen := by
    rw [hf.beg, hf.app, hf.flashed]
  have hre := otaRecheck_ok env (r := { r with ota := { r.ota with sha256 := sha256Init sha256, hash1 } })
    hr (sha256Init_absorbed sha256) hsmall
  dsimp only at hre
  rw [himage] at hre
  rcases hre with ⟨secbuf, sha256', hd, hcompare⟩
  generalize Fips180.sha256 (m.take r.client.postlen) = hash2 at hcompare ⊢
  refine ⟨{ r with ota := { r.ota with secbuf, sha256 := sha256', hash1, hash2 } }, ⟨rfl, rfl,
    rfl, fun h => h, rfl, rfl, rfl, rfl⟩, rfl, rfl, hd, ?_⟩
  rw [otaComplete, hdone]
  exact hcompare

theorem otaSignature_hashes (env : OtaEnv) (query : Option (List UInt8)) (ota : OtaState) :
    (otaSignature env query ota).1.hash1 = ota.hash1 ∧ (otaSignature env query ota).1.hash2 = ota.hash2 ∧
      (otaSignature env query ota).1.sha256 = ota.sha256 := by
  rcases query with _ | start
  · exact ⟨rfl, rfl, rfl⟩
  rw [otaSignature]
  rcases bigintFromhex start with _ | cipher
  · exact ⟨rfl, rfl, rfl⟩
  dsimp only
  rcases rsaPubkeyDecrypt env.pubkey cipher with _ | clear
  · exact ⟨rfl, rfl, rfl⟩
  dsimp only
  split
  · exact ⟨rfl, rfl, rfl⟩
  · exact ⟨rfl, rfl, rfl⟩

/-- The comparisons leave the hashes alone. -/
theorem otaCompare_hashes (env : OtaEnv) (r : OtaRun) :
    (otaCompare env r).1.ota.hash1 = r.ota.hash1 ∧ (otaCompare env r).1.ota.hash2 = r.ota.hash2 ∧
      (otaCompare env r).1.ota.sha256 = r.ota.sha256 := by
  rw [otaCompare]
  split
  · exact ⟨rfl, rfl, rfl⟩
  have hs := otaSignature_hashes env r.client.query r.ota
  rcases hsig : otaSignature env r.client.query r.ota with ⟨ota, _ | e⟩
  · rw [hsig] at hs
    exact hs
  · rw [hsig] at hs
    exact hs

/-! ## A call by the owner -/

/-- The image is in flash and the first `sha256_done` has given its digest; so has the second. -/
structure Checked (base limit : ℕ) (m : List UInt8) (r : OtaRun) : Prop where
  flashed : Flashed base limit m r
  hash1 : r.ota.hash1 = Fips180.sha256 (m.take r.client.postlen)
  hash2 : r.ota.hash2 = Fips180.sha256 (m.take r.client.postlen)
  done : HashDone (m.take r.client.postlen) r.ota.sha256

theorem Checked.compare (env : OtaEnv) {base limit : ℕ} {m : List UInt8} {r : OtaRun}
    (h : Checked base limit m r) : Checked base limit m (otaCompare env r).1 := by
  have hs := (otaCompare_same env r).1
  rcases otaCompare_hashes env r with ⟨h1, h2, h3⟩
  have hc := hs.client
  refine ⟨h.flashed.same hs, ?_, ?_, ?_⟩
  · rw [h1, hc]
    exact h.hash1
  · rw [h2, hc]
    exact h.hash2
  · rw [h3, hc]
    exact h.done

/-- A call by the owner either has taken all the data at hand and waits for more, or has the
whole image in flash and compares its digest with the signature. -/
inductive DataCases (env : OtaEnv) (base limit : ℕ) (m : List UInt8) (r : OtaRun) :
    OtaRun × OtaResult → Prop where
  | waits (r₁ : OtaRun) (hsame : SameRequest r r₁) (hlt : r₁.client.postused < r₁.client.postlen)
      (hbuf : r₁.client.bufused = 0) (n : ℕ) (hup : Uploading base limit n m r₁) :
      DataCases env base limit m r (r₁, .pending)
  | checks (r₁ : OtaRun) (hsame : SameRequest r r₁) (hc : Checked base limit m r₁) :
      DataCases env base limit m r (otaCompare env r₁)

theorem otaData_cases (env : OtaEnv) {base limit : ℕ} (hp : Partition base limit) {n : ℕ}
    {m : List UInt8} {r : OtaRun} (hup : Uploading base limit n m r) (hr : r.dev.replies = [])
    (hmore : r.client.postused < r.client.postlen ∨ r.ota.secused = 0) :
    DataCases env base limit m r (otaData env r) := by
  -- the end of the loop, for either way to get there
  have hend : ∀ r₁, SameRequest r r₁ → r₁.dev.replies = [] → Flashed base limit m r₁ → Hashed m r₁ →
      DataCases env base limit m r (otaComplete env r₁) := by
    intro r₁ hsame hr₁ hfl hha
    have hsmall : (m.take r₁.client.postlen).length < 2 ^ 29 := by
      have h1 := hp.small
      have h2 := hfl.fits
      rw [List.length_take]
      omega
    rcases sha256Done_spec hha hsmall with ⟨sha256, hdone⟩
    rcases otaComplete_ok env hp hfl hr₁ hdone with ⟨r', hs, h1, h2, h3, hcompare⟩
    rw [hcompare]
    apply DataCases.checks r' (hsame.trans hs.same)
    have hc := hs.client
    exact ⟨hfl.same hs, by rw [h1, hc], by rw [h2, hc], by rw [hc]; exact h3⟩
  rw [otaData]
  rcases Nat.lt_or_eq_of_le hup.postused_le with hlt | hpost
  · have hfuel : loopMeasure r < 2 * r.client.bufused + 2 := by
      unfold loopMeasure
      split <;> omega
    have hloop := otaLoop_spec hp _ hup hlt hfuel
    have hnone := hloop.ok hr
    rcases hres : otaLoop (2 * r.client.bufused + 2) r with ⟨r₁, _ | e⟩
    · rw [hres] at hloop
      dsimp only
      rcases hloop.went rfl with ⟨hlt₁, hbuf₁, n₁, hup₁⟩ | ⟨hfl, hha⟩
      · rw [if_pos hlt₁]
        exact DataCases.waits r₁ hloop.same hlt₁ hbuf₁ n₁ hup₁
      · have hpost₁ : r₁.client.postused = r₁.client.postlen := hfl.postused_eq
        rw [if_neg (by omega)]
        exact hend r₁ hloop.same (hloop.dev.replies hr) hfl hha
    · rw [hres] at hnone
      simp at hnone
  · -- nothing was announced
    have hsec : r.ota.secused = 0 := by omega
    rcases hup.flashed_of_empty hpost hsec with ⟨hfl, hha⟩
    rw [otaLoop_done _ hpost]
    dsimp only
    rw [if_neg (by omega)]
    exact hend r (SameRequest.refl r) hr hfl hha

end Esp8266Toolbox
