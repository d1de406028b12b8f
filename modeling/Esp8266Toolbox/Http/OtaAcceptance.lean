import Esp8266Toolbox.Http.OtaSignature
import Mathlib.Tactic.NormNum.Prime

/-!
# Which pushes are accepted

Two results about the 202 path, for runs whose flash calls succeed. A signature made by
`rsasign.py` with the private key is accepted. The converse holds unless the decrypted number
and the digest are different numbers that begin with the same C string.
-/

namespace Esp8266Toolbox

open Server

/-- The text behind `?` is a hexadecimal number that the public key takes to the digest. -/
def Genuine (n e : ℕ) (digest : List UInt8) (query : Option (List UInt8)) : Prop :=
  ∃ q s, query = some q ∧ q ≠ [] ∧ hexNat q = some s ∧ s ^ e % n = beNat digest

/-- The text behind `?` is at most 128 hexadecimal digits, and the first 32 bytes of the decrypted
number hold the same C string as the digest, but the text is empty or the number is another. -/
def Confusable (n e : ℕ) (digest : List UInt8) (query : Option (List UInt8)) : Prop :=
  ∃ q s, query = some q ∧ hexNat q = some s ∧ q.length ≤ 128 ∧
    cstr digest = cstr (sigHash (s ^ e % n)) ∧ (q = [] ∨ s ^ e % n ≠ beNat digest)

theorem SigMatches.genuine {n e : ℕ} {digest : List UInt8} {query : Option (List UInt8)}
    (h : SigMatches n e digest query) (hc : ¬Confusable n e digest query) : Genuine n e digest query := by
  rcases h with ⟨q, s, hq, hs, hlen, hagree⟩
  refine ⟨q, s, hq, ?_, hs, ?_⟩
  · intro hnil
    exact hc ⟨q, s, hq, hs, hlen, hagree, Or.inl hnil⟩
  · by_contra hne
    exact hc ⟨q, s, hq, hs, hlen, hagree, Or.inr hne⟩

theorem Confusable.not_genuine {n e : ℕ} {digest : List UInt8} {query : Option (List UInt8)}
    (h : Confusable n e digest query) : SigMatches n e digest query ∧ ¬Genuine n e digest query := by
  rcases h with ⟨q, s, hq, hs, hlen, hagree, hwhy⟩
  refine ⟨⟨q, s, hq, hs, hlen, hagree⟩, ?_⟩
  rintro ⟨q', s', hq', hnil, hs', heq⟩
  rw [hq, Option.some.injEq] at hq'
  subst hq'
  rw [hs, Option.some.injEq] at hs'
  subst hs'
  rcases hwhy with hempty | hne
  · exact hnil hempty
  · exact hne heq

/-- The query of a url that has the given text behind `/ota/push?`. -/
theorem query_of_url {c : HttpClient} {text : List UInt8}
    (hurl : cstr c.url.toList = ascii "/ota/push?" ++ text) (hshort : text.length ≤ 128) :
    c.query = some text := by
  have hlen : (cstr c.url.toList).length ≤ 138 := by
    rw [hurl, List.length_append, show (ascii "/ota/push?").length = 10 by decide]
    omega
  -- the url is terminated inside its array
  have hnul : 0 ∈ c.url.toList := by
    by_contra hno
    rw [cstr_eq_self hno, Buf.length_toList] at hlen
    omega
  unfold HttpClient.query
  rw [List.append_assoc, cstr_append_of_mem hnul, hurl]
  have hbase : ascii "/ota/push?" = [47, 111, 116, 97, 47, 112, 117, 115, 104, 63] := by decide
  rw [hbase]
  simp [List.dropWhile]

/-! ## Calls that accept -/

namespace Server

variable {env : OtaEnv} {base limit : ℕ} {s : Server} {n e : ℕ}

/-- The call that takes the last announced byte accepts exactly the matching signatures. -/
theorem accepted_iff (htarget : env.target = some (base, limit)) (hkey : env.pubkey.Is512 n e)
    (h : s.Inv env fun _ => Drained) {ev : HttpEvent} (hev : ev.Replies (· = [])) {i : Slot} {s₁ : Server}
    (hcall : s.pushCall ev = some (i, s₁)) (hbefore : ¬s.Complete i)
    (hafter : (s.step env ev).Complete i) :
    (s₁.callPush env i []).2 = .accepted ↔
      SigMatches n e (Fips180.sha256 ((s.step env ev).body i)) ((s.step env ev).clients i).query := by
  rcases complete_checks htarget h hev hbefore hafter with ⟨s₂, r₁, hpc, hcalls, hres, hc, -⟩
  rw [hcall, Option.some.injEq, Prod.mk.injEq] at hpc
  rw [← hpc.2] at hres hc hcalls
  have hbody := hcalls.body_eq
  have hclient := hcalls.left.client
  rw [hres, (otaCompare_same env r₁).1.client] at hbody hclient
  have h1 := hc.hash1
  have h2 := hc.hash2
  rw [← hbody] at h1 h2
  have hacc := otaCompare_accepted_iff hkey (r := r₁) (by rw [h1]; exact length_sha256 _)
    (by rw [h2]; exact length_sha256 _)
  rw [hres, hacc, h1, h2, hclient]
  simp

/-- Every call that accepts, also a further one after the last announced byte, does so on a
matching signature. -/
theorem accepted_matches (htarget : env.target = some (base, limit)) (hkey : env.pubkey.Is512 n e)
    (h : s.Inv env fun _ => Drained) {ev : HttpEvent} (hev : ev.Replies (· = [])) {i : Slot} {s₁ : Server}
    (hcall : s.pushCall ev = some (i, s₁)) (hacc : (s₁.callPush env i []).2 = .accepted) :
    SigMatches n e (Fips180.sha256 ((s.step env ev).body i)) ((s.step env ev).clients i).query := by
  rcases step_cases drained_rule h ev with ⟨hnone, -⟩ | ⟨j, replies, s₂, hsome, hcalls, hinv⟩
  · rw [hcall] at hnone
    cases hnone
  rw [hcall, Option.some.injEq, Prod.mk.injEq] at hsome
  rcases hsome with ⟨rfl, rfl⟩
  have hrep := hcalls.replies_nil hev
  subst hrep
  have hbody := hcalls.body_eq
  have hclient := hcalls.left.client
  rcases hcalls.event with ⟨conn, data, outside, other, -, -, hd⟩
  have hok := callPush_okCases htarget hinv hd.pushing
  -- both ways to the comparison have the digest of the image in `hash2`
  suffices hcmp : ∃ r₁, s₁.callPush env i [] = otaCompare env r₁ ∧ r₁.ota.hash1.length = 32 ∧
      r₁.ota.hash2 = Fips180.sha256 ((s₁.stream i).take r₁.client.postlen) by
    rcases hcmp with ⟨r₁, hres, h1, h2⟩
    rw [hres, (otaCompare_same env r₁).1.client] at hbody hclient
    rw [← hbody] at h2
    have hiff := otaCompare_accepted_iff hkey (r := r₁) h1 (by rw [h2]; exact length_sha256 _)
    rw [hres, hiff, h2] at hacc
    rcases hacc with ⟨hsame, q, v, hq, hv, hlen, hagree⟩
    exact ⟨q, v, by rw [hclient]; exact hq, hv, hlen, hsame.symm.trans hagree⟩
  generalize s₁.callPush env i [] = res at hok hacc
  rcases hok with ⟨ota, err, -, -, -⟩ | ⟨-, -⟩ | ⟨ota, res, -, -, hdata⟩ | ⟨-, -, hfl, -⟩
  · cases hacc
  · cases hacc
  · rcases hdata with ⟨r₁, -, -, -, -⟩ | ⟨r₁, -, hc⟩
    · cases hacc
    · exact ⟨r₁, rfl, by rw [hc.hash1]; exact length_sha256 _, hc.hash2⟩
  · -- `sha256_done` has run before: `hash1` is something else
    rcases hdone : sha256Done s₁.ota.sha256 with fault | ⟨sha256, hash1⟩
    · rw [otaComplete, hdone] at hacc
      cases hacc
    · rcases otaComplete_ok env (target_partition htarget) hfl rfl hdone with ⟨r', hs, h1, h2, -, heq⟩
      refine ⟨r', heq, by rw [h1]; exact length_sha256Done hdone, ?_⟩
      rw [h2, hs.client]

end Server

/-! ## A chip with a key -/

/-- A prime of 496 bits. -/
def testPrime : ℕ := 1721 * 2 ^ 485 + 1

/-- The squarings behind the two powers of 3 that show it to be prime. -/
theorem testPrime_squares :
    (fun y => y * y % testPrime)^[484] (3 ^ 1721) % testPrime = testPrime - 1 ∧
      (fun y => y * y % testPrime)^[484 + 1] 3 % testPrime ≠ 1 := by
  decide +kernel

theorem testPrime_pow_half : 3 ^ (1721 * 2 ^ 484) % testPrime = testPrime - 1 := by
  have hiter := ModPow.iterate_square_modEq testPrime (3 ^ 1721) 484
  rw [← pow_mul] at hiter
  rw [← testPrime_squares.1]
  exact hiter.symm

theorem testPrime_pow_odd : 3 ^ 2 ^ (484 + 1) % testPrime ≠ 1 := by
  have hiter : _ % testPrime = _ % testPrime := ModPow.iterate_square_modEq testPrime 3 (484 + 1)
  rw [← hiter]
  exact testPrime_squares.2

theorem testPrime_prime : testPrime.Prime := by
  have hr : Nat.Prime 1721 := by norm_num
  exact ModPow.prime_of_pow_half hr testPrime.eq_1 testPrime_pow_half testPrime_pow_odd

/-- A chip of 512 KB that runs from its first partition, with a public key of 512 bits. -/
def testChip : OtaEnv := ⟨.map4M256, user1Addr, ⟨tobigint (65537 * testPrime), tobigint 65537⟩⟩

theorem testChip_target : testChip.target = some (266240, 241664) := by decide

theorem testPrime_low : 2 ^ 511 ≤ 65537 * testPrime := by
  have hsplit : 2 ^ 511 = 2 ^ 26 * 2 ^ 485 := (pow_add 2 26 485)
  rw [hsplit, testPrime]
  generalize 2 ^ 485 = k
  omega

theorem testPrime_high : 65537 * testPrime < 2 ^ 512 := by decide

theorem testChip_is512 : testChip.pubkey.Is512 (65537 * testPrime) 65537 :=
  tobigint_is512 testPrime_low testPrime_high
    (lt_of_lt_of_le (by norm_num : 65537 < 16 ^ 5) (Nat.pow_le_pow_right (by norm_num) (by norm_num)))

/-- The private exponent to the key of `testChip`. -/
def testExponent : ℕ :=
  69031225645504160404738152421528891157724118601118815912497355296978106279100726454762219390324867694993875428767672416839675126578664746011116634113

theorem testExponent_inverse : 65537 * testExponent ≡ 1 [MOD Nat.lcm (65537 - 1) (testPrime - 1)] := by
  unfold Nat.ModEq
  decide

/-! ## The digests of three images -/

/-- The digest of a message, as the code computes it. -/
def doneDigest (m : List UInt8) : List UInt8 :=
  match sha256Done (sha256Proc (sha256Init OtaState.zero.sha256) m) with
  | .ok (_, digest) => digest
  | .error _ => []

theorem doneDigest_eq {m : List UInt8} (hm : m.length < 2 ^ 29) : Fips180.sha256 m = doneDigest m := by
  have habs := BlockHash.proc_spec (sha256Init_absorbed OtaState.zero.sha256) m
  rw [List.nil_append] at habs
  rcases sha256Done_spec habs hm with ⟨state', hdone⟩
  have hdone' : sha256Done (sha256Proc (sha256Init OtaState.zero.sha256) m)
      = .ok (state', Fips180.sha256 m) := hdone
  rw [doneDigest, hdone']

theorem sha256_images :
    Fips180.sha256 (ascii "0563")
      = [0x00, 0xe2, 0x3a, 0xdb, 0xc0, 0xa8, 0xc6, 0x9c, 0x24, 0xb0, 0xf8, 0x38, 0x2b, 0xa0, 0x88, 0x73,
        0x3a, 0x21, 0x41, 0x5b, 0xd3, 0x05, 0x3d, 0x7c, 0xec, 0xb3, 0x1a, 0x99, 0xa0, 0x77, 0x9d, 0xb2] ∧
    Fips180.sha256 (ascii "boot")
      = [0x45, 0x09, 0xbe, 0xb0, 0xab, 0x40, 0x1d, 0x71, 0xfa, 0x4a, 0x5c, 0xd9, 0x4a, 0x55, 0xc9, 0xa7,
        0x4f, 0x13, 0x33, 0x27, 0x76, 0xae, 0x40, 0x19, 0xc5, 0xbf, 0xc4, 0xc2, 0x00, 0x51, 0x57, 0xff] ∧
    Fips180.sha256 (ascii "boom")
      = [0x81, 0xf5, 0x23, 0x37, 0xeb, 0xb4, 0xcb, 0x16, 0x69, 0xbb, 0x80, 0x2c, 0x70, 0x88, 0x07, 0xdd,
        0xe0, 0x51, 0x9d, 0x15, 0xcb, 0x10, 0x2a, 0x63, 0x13, 0xd2, 0x6a, 0xd5, 0xcd, 0x82, 0x17, 0x13] := by
  rw [doneDigest_eq (m := ascii "0563") (by decide), doneDigest_eq (m := ascii "boot") (by decide),
    doneDigest_eq (m := ascii "boom") (by decide)]
  decide +kernel

/-! ## A push of four bytes -/

/-- The header section of a push of four bytes, with the given text as its signature. -/
def pushHeader (conn : ℕ) (text : List UInt8) : HttpEvent :=
  .recv conn (ascii "POST /ota/push?" ++ text ++ ascii " HTTP/1.1\r\nContent-Length: 4\r\n\r\n")
    (fun _ => .error .outOfBounds) [] ⟨none, false, []⟩

/-- Its body. -/
def pushBody (conn : ℕ) (data : List UInt8) : HttpEvent :=
  .recv conn data (fun _ => .error .outOfBounds) [] ⟨none, false, []⟩

/-- The slot `i` waits for the four bytes of a push with the given signature. -/
structure HeaderDone (s : Server) (conn : ℕ) (i : Slot) (text : List UInt8) : Prop where
  awaiting : s.Awaiting 241664 i
  conn : s.reverse conn = some i
  stream : s.stream i = []
  postlen : (s.clients i).postlen = 4
  url : cstr (s.clients i).url.toList = ascii "/ota/push?" ++ text

/-- What shows it in a run. -/
abbrev HeaderRead (s : Server) (conn : ℕ) (i : Slot) (text : List UInt8) : Prop :=
  (s.clients i).state = .postdata ∧ httpDispatch (s.clients i) = .ok (some .otaPush) ∧
    (s.clients i).postused = 0 ∧ (s.clients i).postlen = 4 ∧ s.reverse conn = some i ∧
    s.stream i = [] ∧ cstr (s.clients i).url.toList = ascii "/ota/push?" ++ text

theorem HeaderDone.of_run {s : Server} {conn : ℕ} {i : Slot} {text : List UInt8}
    (h : HeaderRead s conn i text) : HeaderDone s conn i text := by
  rcases h with ⟨hstate, hdisp, hused, hlen, hconn, hstream, hurl⟩
  exact ⟨⟨hstate, hdisp, by omega, by omega, Or.inl hused⟩, hconn, hstream, hlen, hurl⟩

/-- The body arrives. -/
theorem HeaderDone.completes {s : Server} {conn : ℕ} {i : Slot} {text : List UInt8}
    (h : HeaderDone s conn i text) (hs : Settled testChip 241664 s) (hrun : s.Running)
    {data : List UInt8} (hdata : data.length = 4) :
    s.pushCall (pushBody conn data) = some (i, s.take i data) ∧ ¬s.Complete i ∧
      (s.step testChip (pushBody conn data)).Complete i ∧
      (s.step testChip (pushBody conn data)).body i = data ∧
      cstr ((s.step testChip (pushBody conn data)).clients i).url.toList
        = ascii "/ota/push?" ++ text := by
  have hempty := h.awaiting.empty hs.inv hs.fresh
  have hfull : (s.clients i).postlen ≤ (s.stream i ++ data).length := by
    rw [h.postlen, h.stream, List.nil_append, hdata]
  have hdone := h.awaiting.completes testChip_target hs.inv hs.fresh hrun h.conn (by omega) hfull
    (fun _ => .error .outOfBounds) ⟨none, false, []⟩
  rcases hdone with ⟨hcomplete, hurl, hbody⟩
  rw [h.stream, h.postlen, List.nil_append, List.take_of_length_le (by omega)] at hbody
  refine ⟨?_, h.awaiting.not_complete, hcomplete, hbody, ?_⟩
  · exact pushCall_pushing hrun h.conn h.awaiting.pushing (by omega) _ _ _
  · exact (congrArg (fun u : Buf 256 => cstr u.toList) hurl).trans h.url

/-- The events of `headerRun`. -/
def headerEvents (text : List UInt8) : List HttpEvent := [.connect 7 true, pushHeader 7 text]

/-- The server waits for the body of a push with the given signature. -/
def headerRun (text : List UInt8) : Server := Server.run testChip (fun _ => 0) (headerEvents text)

theorem headerEvents_replies (text : List UInt8) : ∀ ev ∈ headerEvents text, ev.Replies (· = []) := by
  intro ev hev
  simp only [headerEvents, List.mem_cons, List.not_mem_nil, or_false] at hev
  rcases hev with rfl | rfl
  · trivial
  · rfl

theorem headerRun_settled (text : List UInt8) : Settled testChip 241664 (headerRun text) :=
  run_settled testChip_target _ (headerEvents_replies text)

/-! ## Soundness -/

namespace Server

/-- In every run in which the flash calls succeed: the call of `http_url_ota_push` that takes the
last announced byte accepts only genuine signatures if and only if the signature is not one
that can be confused, and no other call accepts any that is neither. -/
theorem ota_signature_sound_iff (env : OtaEnv) {base limit : ℕ}
    (htarget : env.target = some (base, limit)) {n e : ℕ} (hkey : env.pubkey.Is512 n e)
    (content : ℕ → UInt8) (es : List HttpEvent) (hes : ∀ ev ∈ es, ev.Replies (· = [])) (ev : HttpEvent)
    (hev : ev.Replies (· = [])) (i : Slot) (s₁ : Server)
    (hcall : (Server.run env content es).pushCall ev = some (i, s₁)) :
    let s := Server.run env content es
    let s' := s.step env ev
    let digest := Fips180.sha256 (s'.body i)
    let query := (s'.clients i).query
    (¬s.Complete i → s'.Complete i →
        (((s₁.callPush env i []).2 = .accepted → Genuine n e digest query) ↔
          ¬Confusable n e digest query)) ∧
      ((s₁.callPush env i []).2 = .accepted → ¬Confusable n e digest query →
        Genuine n e digest query) := by
  intro s s' digest query
  have hinv := (run_settled htarget content hes).inv
  refine ⟨?_, ?_⟩
  · intro hbefore hafter
    have hiff := accepted_iff htarget hkey hinv hev hcall hbefore hafter
    rw [hiff]
    constructor
    · intro hsound hconf
      rcases hconf.not_genuine with ⟨hmatch, hnot⟩
      exact hnot (hsound hmatch)
    · intro hconf hmatch
      exact hmatch.genuine hconf
  · intro hacc hconf
    exact (accepted_matches htarget hkey hinv hev hcall hacc).genuine hconf

end Server

theorem headerDone_zero : HeaderDone (headerRun (ascii "0")) 7 0 (ascii "0") :=
  HeaderDone.of_run (by decide)

theorem headerRun_zero_running : (headerRun (ascii "0")).Running := by
  unfold Running
  decide

theorem zero_decrypted : 0 ^ 65537 % (65537 * testPrime) = 0 := by
  rw [zero_pow (by norm_num), Nat.zero_mod]

/-- The digest of `0563` begins with a zero byte, so it is the empty C string. So is the number
that the signature `0` decrypts to. -/
theorem confusable_zero : Confusable (65537 * testPrime) 65537 (Fips180.sha256 (ascii "0563")) (some (ascii "0")) := by
  refine ⟨ascii "0", 0, rfl, by decide, by decide, ?_, Or.inr ?_⟩
  · rw [zero_decrypted, sha256_images.1]
    decide
  · rw [zero_decrypted, sha256_images.1]
    decide

namespace Server

theorem ota_signature_sound_iff_zero :
    let s := headerRun (ascii "0")
    let s' := s.step testChip (pushBody 7 (ascii "0563"))
    ((((s.take 0 (ascii "0563")).callPush testChip 0 []).2 = .accepted →
        Genuine (65537 * testPrime) 65537 (Fips180.sha256 (s'.body 0)) (s'.clients 0).query) ↔
      ¬Confusable (65537 * testPrime) 65537 (Fips180.sha256 (s'.body 0)) (s'.clients 0).query) := by
  rcases headerDone_zero.completes (headerRun_settled _) headerRun_zero_running
    (show (ascii "0563").length = 4 by decide) with ⟨hcall, hbefore, hafter, -⟩
  have h := ota_signature_sound_iff testChip testChip_target testChip_is512 (fun _ => 0)
    _ (headerEvents_replies (ascii "0")) (pushBody 7 (ascii "0563")) rfl 0 _ hcall
  have hrun : Server.run testChip (fun _ => 0) (headerEvents (ascii "0")) = headerRun (ascii "0") := rfl
  rw [hrun] at h
  exact h.1 hbefore hafter

/-- Anyone can push an image whose digest begins with a zero byte. -/
theorem ota_forged_push_accepted :
    let s := headerRun (ascii "0")
    let s' := s.step testChip (pushBody 7 (ascii "0563"))
    testChip.pubkey.Is512 (65537 * testPrime) 65537 ∧
      s.pushCall (pushBody 7 (ascii "0563")) = some (0, s.take 0 (ascii "0563")) ∧
      ((s.take 0 (ascii "0563")).callPush testChip 0 []).2 = .accepted ∧
      s'.body 0 = ascii "0563" ∧
      ¬Genuine (65537 * testPrime) 65537 (Fips180.sha256 (s'.body 0)) (s'.clients 0).query := by
  intro s s'
  rcases headerDone_zero.completes (headerRun_settled _) headerRun_zero_running
    (show (ascii "0563").length = 4 by decide) with
    ⟨hcall, hbefore, hafter, hbody, hurl⟩
  have hquery := query_of_url hurl (by decide)
  rcases confusable_zero.not_genuine with ⟨hmatch, hnot⟩
  have hrep : (pushBody 7 (ascii "0563")).Replies (· = []) := rfl
  have hacc := accepted_iff testChip_target testChip_is512 (headerRun_settled (ascii "0")).inv hrep
    hcall hbefore hafter
  rw [hbody, hquery] at hacc
  refine ⟨testChip_is512, hcall, hacc.mpr hmatch, hbody, ?_⟩
  rw [hbody, hquery]
  exact hnot

end Server

/-! ## Signatures made by the host scripts -/

/-- The private key's power of the digest passes the signature block. -/
theorem rsasign_matches {p q e d : ℕ} (hp : p.Prime) (hq : q.Prime) (hne : p ≠ q)
    (hlow : 2 ^ 511 ≤ p * q) (hhigh : p * q < 2 ^ 512)
    (hed : e * d ≡ 1 [MOD Nat.lcm (p - 1) (q - 1)]) {digest : List UInt8} (hlen : digest.length = 32) :
    ∃ s, hexNat (rsasign digest d (p * q)) = some s ∧ (rsasign digest d (p * q)).length ≤ 128 ∧
      s ^ e % (p * q) = beNat digest := by
  have hpos : 0 < p * q := Nat.mul_pos hp.pos hq.pos
  have hlt : beNat digest < p * q := by
    have h := leNat_lt digest.reverse
    rw [List.length_reverse, hlen] at h
    exact lt_of_lt_of_le (lt_of_lt_of_le h (Nat.pow_le_pow_right (by norm_num) (by norm_num))) hlow
  refine ⟨beNat digest ^ d % (p * q), ?_, ?_, ?_⟩
  · rw [rsasign, expmod_eq]
    exact hexNat_hexText _
  · rw [rsasign, expmod_eq, length_hexText_le (by norm_num), pow_sixteen]
    exact lt_trans (Nat.mod_lt _ hpos) hhigh
  · have hmod := ((Nat.mod_modEq (beNat digest ^ d) (p * q)).pow e).trans
      (ModPow.pow_pow_modEq hp hq hne hed (beNat digest))
    have heq : _ % (p * q) = beNat digest % (p * q) := hmod
    rw [heq, Nat.mod_eq_of_lt hlt]

theorem otaCompare_ota {env : OtaEnv} {r : OtaRun} (h1 : r.ota.hash1.length = 32)
    (h2 : r.ota.hash1 = r.ota.hash2) :
    (otaCompare env r).1.ota = (otaSignature env r.client.query r.ota).1 := by
  have hcmp := (strncmp_eq_zero_iff h1 h1).mpr rfl
  rw [otaCompare, ← h2, if_neg (not_not.mpr hcmp)]
  rcases otaSignature env r.client.query r.ota with ⟨ota, _ | err⟩ <;> rfl

namespace Server

/-- In every run in which the flash calls succeed: when the last announced byte of a push is taken
and its url has the text that `rsasign.py` prints for the pushed image, made with the private
key to the public key on the chip, then the signature block succeeds, with the digest of the
image in all 32 bytes of `hash3`, and the push is accepted. -/
theorem ota_signed_push_accepted (env : OtaEnv) {base limit : ℕ}
    (htarget : env.target = some (base, limit)) {p q e d : ℕ} (hp : p.Prime) (hq : q.Prime)
    (hne : p ≠ q) (hlow : 2 ^ 511 ≤ p * q) (hhigh : p * q < 2 ^ 512)
    (hed : e * d ≡ 1 [MOD Nat.lcm (p - 1) (q - 1)]) (hfit : e < 16 ^ 300)
    (hkey : env.pubkey = ⟨tobigint (p * q), tobigint e⟩) (content : ℕ → UInt8) (es : List HttpEvent)
    (hes : ∀ ev ∈ es, ev.Replies (· = [])) (ev : HttpEvent) (hev : ev.Replies (· = [])) (i : Slot)
    (hbefore : ¬(Server.run env content es).Complete i)
    (hafter : ((Server.run env content es).step env ev).Complete i)
    (hurl : cstr (((Server.run env content es).step env ev).clients i).url.toList
      = ascii "/ota/push?" ++
        rsasign (Fips180.sha256 (((Server.run env content es).step env ev).body i)) d (p * q)) :
    let s := Server.run env content es
    let s' := s.step env ev
    s'.ota.hash3.toList = Fips180.sha256 (s'.body i) ∧ Accepted s s' i := by
  intro s s'
  have hinv := (run_settled htarget content hes).inv
  have h512 : env.pubkey.Is512 (p * q) e := by
    rw [hkey]
    exact tobigint_is512 hlow hhigh hfit
  rcases rsasign_matches hp hq hne hlow hhigh hed (length_sha256 (s'.body i)) with ⟨v, hv, hvlen, hpow⟩
  have hquery : (s'.clients i).query = some (rsasign (Fips180.sha256 (s'.body i)) d (p * q)) :=
    query_of_url hurl hvlen
  have hsig : sigHash (v ^ e % (p * q)) = Fips180.sha256 (s'.body i) := by
    rw [hpow]
    exact sigHash_beNat (length_sha256 _)
  rcases complete_checks htarget hinv hev hbefore hafter with ⟨s₁, r₁, hpc, hcalls, hres, hc, -⟩
  have hacc := (accepted_iff htarget h512 hinv hev hpc hbefore hafter).mpr
    ⟨_, v, hquery, hv, hvlen, by rw [hsig]⟩
  refine ⟨?_, hcalls.accepted hacc⟩
  -- what the signature block has left in `hash3`
  have hbody := hcalls.body_eq
  have hclient := hcalls.left.client
  rw [hres, (otaCompare_same env r₁).1.client] at hbody hclient
  have h1 := hc.hash1
  have hlen1 : r₁.ota.hash1.length = 32 := by
    rw [h1]
    exact length_sha256 _
  rw [hcalls.left.ota, hres, otaCompare_ota hlen1 (h1.trans hc.hash2.symm),
    (otaSignature_spec h512 r₁.client.query hlen1).2 _ v (by rw [← hclient]; exact hquery) hv hvlen, hsig]

end Server

/-! ## A signed push -/

/-- The private key's power of the digest of `boot`. -/
def bootPower : ℕ :=
  0x72bbcce6c11599875e68384ea332c24db21cf16a43cb9df5a8c8a57696fbd3a81c0dcc644446e911d4d6798fa37469d95b1326b5f6ab1150ef9c27978ad07fc6

theorem bootPower_pow : bootPower ^ 65537 ≡ beNat (Fips180.sha256 (ascii "boot")) [MOD 65537 * testPrime] := by
  have hiter := (ModPow.iterate_square_modEq (65537 * testPrime) bootPower 16).mul_right bootPower
  rw [← pow_succ] at hiter
  apply hiter.symm.trans
  rw [sha256_images.2.1]
  unfold Nat.ModEq
  decide +kernel

theorem rsasign_boot : rsasign (Fips180.sha256 (ascii "boot")) testExponent (65537 * testPrime) = hexText bootPower := by
  have hp : Nat.Prime 65537 := by norm_num
  have hinv : testExponent * 65537 ≡ 1 [MOD Nat.lcm (65537 - 1) (testPrime - 1)] := by
    rw [Nat.mul_comm]
    exact testExponent_inverse
  have hback := ModPow.pow_pow_modEq hp testPrime_prime (by decide) hinv bootPower
  have hpow : beNat (Fips180.sha256 (ascii "boot")) ^ testExponent % (65537 * testPrime)
      = bootPower % (65537 * testPrime) := (bootPower_pow.symm.pow testExponent).trans hback
  rw [rsasign, expmod_eq, hpow, Nat.mod_eq_of_lt (by decide)]

theorem headerRun_boot :
    HeaderRead (headerRun (hexText bootPower)) 7 0 (hexText bootPower) ∧
      (headerRun (hexText bootPower)).crashed = false ∧
      (headerRun (hexText bootPower)).rebooting = false ∧
      (headerRun (hexText bootPower)).finish = false ∧
      ∀ i, ((headerRun (hexText bootPower)).clients i).postused = 0 := by
  decide +kernel

theorem headerDone_boot : HeaderDone (headerRun (hexText bootPower)) 7 0 (hexText bootPower) :=
  HeaderDone.of_run headerRun_boot.1

theorem headerRun_boot_running : (headerRun (hexText bootPower)).Running :=
  ⟨headerRun_boot.2.1, headerRun_boot.2.2.1⟩

namespace Server

theorem ota_signed_push_accepted_boot :
    let s := headerRun (hexText bootPower)
    let s' := s.step testChip (pushBody 7 (ascii "boot"))
    s'.body 0 = ascii "boot" ∧ s'.ota.hash3.toList = Fips180.sha256 (s'.body 0) ∧ Accepted s s' 0 := by
  rcases headerDone_boot.completes (headerRun_settled _) headerRun_boot_running
    (show (ascii "boot").length = 4 by decide) with
    ⟨-, hbefore, hafter, hbody, hurl⟩
  have hsign := rsasign_boot
  have hreplies := headerEvents_replies (hexText bootPower)
  have hrun : Server.run testChip (fun _ => 0) (headerEvents (hexText bootPower))
      = headerRun (hexText bootPower) := rfl
  have hfit : 65537 < 16 ^ 300 :=
    lt_of_lt_of_le (by norm_num : 65537 < 16 ^ 5) (Nat.pow_le_pow_right (by norm_num) (by norm_num))
  have h := ota_signed_push_accepted testChip testChip_target (by norm_num : Nat.Prime 65537)
    testPrime_prime (by decide) testPrime_low testPrime_high testExponent_inverse hfit
    rfl (fun _ => 0) _ hreplies (pushBody 7 (ascii "boot")) rfl 0
  rw [hrun, hbody, hsign] at h
  exact ⟨hbody, h hbefore hafter hurl⟩

end Server
end Esp8266Toolbox
