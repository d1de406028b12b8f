import Esp8266Toolbox.Http.OtaAcceptance

/-!
# Between acceptance and reboot

Five seconds pass between the 202 response and the reboot, and the server goes on serving
pushes to the partition it is about to boot. The accepted image stays in flash as long as no
further call of `http_url_ota_push` writes a sector, and as long as no call verifies an upload
whose last sector could not be written.
-/

namespace Esp8266Toolbox

open Server

/-! ## Calls that write no sector -/

/-- The call gets to the loop: the checks on the first byte pass, or the caller is the owner. -/
def LetIn (env : OtaEnv) (i : Slot) (r : OtaRun) : Prop :=
  (r.client.postused = 0 ∧ (otaBegin env i r.client r.ota).2 = none) ∨
    (0 < r.client.postused ∧ r.ota.client = some i)

/-- The bytes in the sector buffer when the loop starts. -/
def sectorFill (r : OtaRun) : ℕ := if r.client.postused = 0 then 0 else r.ota.secused

/-- The loop finds data that fills the sector buffer or completes the upload. -/
structure Fills (fill : ℕ) (r : OtaRun) : Prop where
  data : 0 < r.client.bufused
  more : r.client.postused < r.client.postlen
  full : secSize ≤ fill + r.client.bufused ∨ r.client.postlen ≤ r.client.postused + r.client.bufused

theorem otaLoop_idle (fuel : ℕ) {r : OtaRun} (h : ¬Fills r.ota.secused r) :
    (otaLoop fuel r).1.dev = r.dev := by
  induction fuel generalizing r with
  | zero => rfl
  | succ fuel ih =>
    rw [otaLoop]
    by_cases hmore : r.client.bufused > 0 ∧ r.client.postlen > r.client.postused
    · rw [if_pos hmore]
      have hnot : ¬(secSize ≤ r.ota.secused + r.client.bufused ∨
          r.client.postlen ≤ r.client.postused + r.client.bufused) := by
        intro hfull
        exact h ⟨hmore.1, hmore.2, hfull⟩
      -- all bytes at hand go to the sector buffer, and it is not full
      have hlen : takeLen r = r.client.bufused := by
        unfold takeLen
        omega
      have hsec : (otaTake r).ota.secused = r.ota.secused + takeLen r := rfl
      have hpost : (otaTake r).client.postused = r.client.postused + takeLen r := rfl
      have hpostlen : (otaTake r).client.postlen = r.client.postlen := rfl
      have hbuf : (otaTake r).client.bufused = r.client.bufused - takeLen r := rfl
      dsimp only
      rw [if_neg (by omega)]
      have hrest := ih (r := otaTake r) (by
        intro hf
        have := hf.data
        omega)
      rw [hrest]
      rfl
    · rw [if_neg hmore]

theorem otaData_idle (env : OtaEnv) {r : OtaRun} (h : ¬Fills r.ota.secused r) :
    (otaData env r).1.dev.content = r.dev.content := by
  have hdev := otaLoop_idle (2 * r.client.bufused + 2) h
  rw [otaData]
  rcases hres : otaLoop (2 * r.client.bufused + 2) r with ⟨r₁, _ | e⟩
  · rw [hres] at hdev
    dsimp only at hdev ⊢
    split
    · rw [hdev]
    · rw [(otaComplete_same env r₁).1.content, hdev]
  · rw [hres] at hdev
    dsimp only at hdev ⊢
    rw [hdev]

/-- A call that is not let in, or does not fill the sector buffer, writes nothing. -/
theorem otaPush_idle (env : OtaEnv) (i : Slot) {m : List UInt8} {r : OtaRun} (hc : ClientInv r.client m)
    (h : ¬(LetIn env i r ∧ Fills (sectorFill r) r)) : (otaPush env i r).1.dev.content = r.dev.content := by
  have hcases := otaPush_cases env i hc
  generalize otaPush env i r = res at hcases
  rcases hcases with ⟨ota, e, -, -, -⟩ | ⟨-, -⟩ | ⟨base, limit, ota, htarget, hpost, hstate, -, hup⟩ |
    ⟨hpost, hown⟩
  · rfl
  · rfl
  · have hletin : LetIn env i r := Or.inl ⟨hpost, otaBegin_ok htarget i hstate hup.fits r.ota⟩
    have hzero : ota.secused = 0 := hup.secused_zero hpost
    apply otaData_idle
    intro hf
    apply h
    refine ⟨hletin, hf.data, hf.more, ?_⟩
    have hfull := hf.full
    dsimp only at hfull
    rw [hzero] at hfull
    rw [sectorFill, if_pos hpost]
    exact hfull
  · apply otaData_idle
    intro hf
    apply h
    refine ⟨Or.inr ⟨hpost, hown⟩, hf.data, hf.more, ?_⟩
    rw [sectorFill, if_neg (by omega)]
    exact hf.full

namespace Server

/-! ## The image in flash -/

variable {env : OtaEnv} {s : Server}

/-- Once the upgrade flag is set, the target partition starts with the last accepted image. -/
def Kept (env : OtaEnv) (s : Server) : Prop :=
  s.finish = true → ∃ base limit body, env.target = some (base, limit) ∧ s.image = some (base, body) ∧
    body.length ≤ limit ∧ flashBytes s.dev.content base body.length = body

/-- The callback calls `http_url_ota_push`, which writes a sector although an image has been accepted,
or goes on to verify an upload whose last sector could not be written. -/
def Endangers (env : OtaEnv) (s : Server) (e : HttpEvent) : Prop :=
  ∃ i s₁, s.pushCall e = some (i, s₁) ∧
    ((s.finish = true ∧ LetIn env i (s₁.pushRun i) ∧ Fills (sectorFill (s₁.pushRun i)) (s₁.pushRun i)) ∨
      (s₁.Owns i ∧ Stranded (s₁.pushRun i)))

/-- What a call of `http_url_ota_push` leaves of the server's flags. -/
theorem pushUrl_flags (env : OtaEnv) (s : Server) (i : Slot) (replies : List FlashReply) :
    (s.pushUrl env i replies).1.reverse = s.reverse ∧
      (s.pushUrl env i replies).1.rebooting = s.rebooting ∧
      ((s.callPush env i replies).2 ≠ .crashed → (s.pushUrl env i replies).1.crashed = s.crashed) ∧
      ((s.callPush env i replies).2 ≠ .accepted →
        (s.pushUrl env i replies).1.finish = s.finish ∧ (s.pushUrl env i replies).1.armed = s.armed ∧
        (s.pushUrl env i replies).1.image = s.image) := by
  rw [pushUrl]
  rcases s.callPush env i replies with ⟨r, _ | _ | e | _⟩
  · exact ⟨rfl, rfl, fun _ => rfl, fun _ => ⟨rfl, rfl, rfl⟩⟩
  · exact ⟨rfl, rfl, fun _ => rfl, fun h => absurd rfl h⟩
  · exact ⟨rfl, rfl, fun _ => rfl, fun _ => ⟨rfl, rfl, rfl⟩⟩
  · exact ⟨rfl, rfl, fun h => absurd rfl h, fun _ => ⟨rfl, rfl, rfl⟩⟩

/-- An accepted image is in flash, whatever the flash calls have answered. -/
theorem callPush_flashed {i : Slot} (h : s.Inv env (during UploadInv UploadInv i))
    (hp : Pushing (s.clients i)) (hs : ¬(s.Owns i ∧ Stranded (s.pushRun i))) {replies : List FlashReply}
    (hacc : (s.callPush env i replies).2 = .accepted) :
    ∃ base limit, env.target = some (base, limit) ∧
      Flashed base limit (s.stream i) (s.callPush env i replies).1 := by
  have hi := h.client i
  have hcases := otaPush_cases env i (r := ⟨s.clients i, s.ota, { s.dev with replies }⟩) hi
  unfold callPush at hacc ⊢
  generalize otaPush env i ⟨s.clients i, s.ota, { s.dev with replies }⟩ = res at hcases hacc
  rcases hcases with ⟨ota, e, -, -, -⟩ | ⟨-, -⟩ | ⟨base, limit, ota, htarget, hpost, -, -, hup⟩ |
    ⟨hpost, hown⟩
  · cases hacc
  · cases hacc
  · have hd := otaData_spec env (target_partition htarget) hi hp.state hup.inv
    refine ⟨base, limit, htarget, hd.accepted hacc ?_⟩
    intro hstr
    exact hstr.2 (hup.secused_zero hpost)
  · have howns : s.Owns i := ⟨hown, hp.state, hp.push, hpost⟩
    rcases h.upload i howns with ⟨base, limit, htarget, hinv⟩
    rw [during_self] at hinv
    have hsame : SameData base limit (s.clients i) (s.clients i) s.dev { s.dev with replies } :=
      ⟨rfl, rfl, rfl, rfl, fun _ _ _ => rfl⟩
    have hd := otaData_spec env (target_partition htarget) hi hp.state (hinv.congr hsame)
    refine ⟨base, limit, htarget, hd.accepted hacc ?_⟩
    intro hstr
    exact hs ⟨howns, hstr⟩

theorem Kept.step (h : s.Kept env) (hinv : s.Inv env fun _ => UploadInv) {e : HttpEvent}
    (hsafe : ¬Endangers env s e) : (s.step env e).Kept env := by
  intro hfinish
  rcases step_cases uploadInv_rule hinv e with ⟨-, hq⟩ | ⟨i, replies, s₁, hpc, hcalls, hinv₁⟩
  · rw [hq.finish] at hfinish
    rcases h hfinish with ⟨base, limit, body, htarget, himage, hlen, hflash⟩
    refine ⟨base, limit, body, htarget, hq.image.trans himage, hlen, ?_⟩
    rw [← hflash, length_flashBytes]
    apply flashBytes_congr
    intro a ha ha'
    exact hq.content htarget a ha (by omega)
  rcases hcalls.event with ⟨conn, data, outside, other, -, -, hd⟩
  have hleft := hcalls.left
  by_cases hacc : (s₁.callPush env i replies).2 = .accepted
  · have hstr : ¬(s₁.Owns i ∧ Stranded (s₁.pushRun i)) := fun hbad => hsafe ⟨i, s₁, hpc, Or.inr hbad⟩
    rcases callPush_flashed hinv₁ hd.pushing hstr hacc with ⟨base, limit, htarget, hf⟩
    have haccepted := hcalls.accepted hacc
    have hpost := hf.postused_eq
    have hlength := hf.length
    have hfits := hf.fits
    have hbody : ((s₁.stream i).take (s₁.callPush env i replies).1.client.postlen).length
        = (s₁.callPush env i replies).1.client.postlen := by
      rw [List.length_take]
      omega
    refine ⟨base, limit, (s₁.stream i).take (s₁.callPush env i replies).1.client.postlen, htarget, ?_, ?_, ?_⟩
    · rw [haccepted.image, hleft.ota, hleft.stream, hleft.client, hf.beg]
    · rw [hbody]
      exact hfits
    · rw [hbody, hleft.dev]
      exact hf.flashed
  · -- nothing is accepted, so an image had been accepted before and no sector is written
    rcases hcalls.result with ⟨queue, hstep⟩
    rcases (pushUrl_flags env s₁ i replies).2.2.2 hacc with ⟨hfin, -, him⟩
    have hfinish' : s.finish = true := by
      rw [hstep] at hfinish
      exact (hfin.trans hd.finish).symm.trans hfinish
    rcases h hfinish' with ⟨base, limit, body, htarget, himage, hlen, hflash⟩
    have hidle : (s₁.callPush env i replies).1.dev.content = s.dev.content := by
      rw [← hd.dev]
      apply otaPush_idle env i (hinv₁.client i)
      intro hfills
      rcases hfills with ⟨hin, hdata, hmore, hfull⟩
      exact hsafe ⟨i, s₁, hpc, Or.inl ⟨hfinish', hin, hdata, hmore, hfull⟩⟩
    refine ⟨base, limit, body, htarget, ?_, hlen, ?_⟩
    · rw [hstep]
      exact (him.trans hd.image).trans himage
    · rw [hleft.dev, hidle]
      exact hflash

/-- The invariant of the runs below. -/
structure Guarded (env : OtaEnv) (s : Server) : Prop where
  kept : s.Kept env
  inv : s.Inv env fun _ => UploadInv

/-- In every run in which no call writes a sector behind an accepted image or verifies an upload
whose last sector is missing: once the upgrade flag is set, and so whenever `ota_reboot` is
armed or fires, the partition to be booted starts with the accepted image. -/
theorem ota_image_kept (env : OtaEnv) (content : ℕ → UInt8) (es : List HttpEvent)
    (hes : Runs.Along (Server.step env) (fun s e => ¬Endangers env s e) (Server.init content) es) :
    (Server.run env content es).Kept env := by
  have hinit : Guarded env (Server.init content) := by
    refine ⟨?_, init_inv env content⟩
    intro hfinish
    cases hfinish
  have hrun : Guarded env (Server.run env content es) := by
    apply Runs.foldl_inv_along _ hinit hes
    intro s e hsafe h
    exact ⟨h.kept.step h.inv hsafe, h.inv.step uploadInv_rule (by cases e <;> trivial)⟩
  exact hrun.kept

end Server

/-! ## A second push inside the window -/

theorem bootPower_short : (hexText bootPower).length ≤ 128 :=
  (length_hexText_le (by norm_num)).mpr (by decide)

theorem boot_matches : SigMatches (65537 * testPrime) 65537 (Fips180.sha256 (ascii "boot"))
    (some (hexText bootPower)) := by
  have hlt : beNat (Fips180.sha256 (ascii "boot")) < 65537 * testPrime := by
    rw [sha256_images.2.1]
    decide
  have hpow := bootPower_pow
  unfold Nat.ModEq at hpow
  refine ⟨hexText bootPower, bootPower, rfl, hexNat_hexText bootPower, bootPower_short, ?_⟩
  rw [hpow.trans (Nat.mod_eq_of_lt hlt), sigHash_beNat (length_sha256 _)]

theorem boom_not_matches : ¬SigMatches (65537 * testPrime) 65537 (Fips180.sha256 (ascii "boom"))
    (some (ascii "0")) := by
  rintro ⟨q, v, hq, hv, -, hagree⟩
  have hq' : ascii "0" = q := by simpa using hq
  have hzero : hexNat (ascii "0") = some 0 := by decide
  rw [← hq', hzero, Option.some.injEq] at hv
  rw [← hv, zero_decrypted, sha256_images.2.2] at hagree
  revert hagree
  decide

/-- Two pushes have sent their header sections. -/
def rivalEvents : List HttpEvent :=
  [.connect 7 true, .connect 8 true, pushHeader 7 (hexText bootPower), pushHeader 8 (ascii "0")]

theorem rivalEvents_replies : ∀ ev ∈ rivalEvents, ev.Replies (· = []) := by
  intro ev hev
  simp only [rivalEvents, List.mem_cons, List.not_mem_nil, or_false] at hev
  rcases hev with rfl | rfl | rfl | rfl
  · trivial
  · trivial
  · rfl
  · rfl

/-- The server waits for both bodies. -/
def rivalRun : Server := Server.run testChip (fun _ => 0) rivalEvents

theorem rivalRun_read :
    HeaderRead rivalRun 7 0 (hexText bootPower) ∧ HeaderRead rivalRun 8 1 (ascii "0") ∧
      rivalRun.crashed = false ∧ rivalRun.rebooting = false := by
  decide +kernel

theorem rivalRun_signed : HeaderDone rivalRun 7 0 (hexText bootPower) :=
  HeaderDone.of_run rivalRun_read.1

theorem rivalRun_unsigned : HeaderDone rivalRun 8 1 (ascii "0") :=
  HeaderDone.of_run rivalRun_read.2.1

theorem rivalRun_running : rivalRun.Running := rivalRun_read.2.2

/-- A push waits on while another slot is served. -/
theorem HeaderDone.other {s s' : Server} {conn : ℕ} {i : Slot} {text : List UInt8}
    (h : HeaderDone s conn i text) (hs : Settled testChip 241664 s)
    (hslot : s'.clients i = s.clients i ∧ s'.stream i = s.stream i)
    (hconn : s'.reverse conn = s.reverse conn) : HeaderDone s' conn i text := by
  rcases hslot with ⟨hc, hst⟩
  have hlen := ((hs.inv.client i).pending h.awaiting.pushing.state).2
  rw [h.stream, List.length_nil] at hlen
  refine HeaderDone.of_run ⟨?_, ?_, ?_, ?_, hconn.trans h.conn, hst.trans h.stream, ?_⟩
  · rw [hc]; exact h.awaiting.state
  · rw [hc]; exact h.awaiting.push
  · rw [hc]; omega
  · rw [hc]; exact h.postlen
  · rw [hc]; exact h.url

/-- The body of a push arrives in slot `i`, in a run whose flash calls succeed: its image is in flash,
and it is accepted if and only if its signature matches. -/
theorem HeaderDone.decided {s : Server} {conn : ℕ} {i : Slot} {text : List UInt8}
    (h : HeaderDone s conn i text) (hs : Settled testChip 241664 s) (hrun : s.Running)
    (htext : text.length ≤ 128) {data : List UInt8} (hdata : data.length = 4) :
    let s' := s.step testChip (pushBody conn data)
    flashBytes s'.dev.content 266240 4 = data ∧ s'.reverse = s.reverse ∧
      (∀ j, j ≠ i → s'.clients j = s.clients j ∧ s'.stream j = s.stream j) ∧
      (SigMatches (65537 * testPrime) 65537 (Fips180.sha256 data) (some text) →
        s'.finish = true ∧ s'.armed = true ∧ s'.image = some (266240, data) ∧ s'.Running) ∧
      (¬SigMatches (65537 * testPrime) 65537 (Fips180.sha256 data) (some text) →
        s'.finish = s.finish ∧ s'.armed = s.armed ∧ s'.image = s.image) := by
  intro s'
  have hrep : (pushBody conn data).Replies (· = []) := rfl
  rcases h.completes hs hrun hdata with ⟨hcall, hbefore, hafter, hbody, hurl⟩
  have hstreamed := streamed_of_complete testChip_target hs.inv hrep hbefore hafter
  have hacc := accepted_iff testChip_target testChip_is512 hs.inv hrep hcall hbefore hafter
  rw [hbody, query_of_url hurl htext] at hacc
  rcases complete_checks testChip_target hs.inv hrep hbefore hafter with ⟨s₁, r₁, hpc, hcalls, -⟩
  rw [hcall, Option.some.injEq, Prod.mk.injEq] at hpc
  rw [← hpc.2] at hcalls
  have hflags := pushUrl_flags testChip (s.take i data) i []
  have hempty := h.awaiting.empty hs.inv hs.fresh
  have hroom : (s.clients i).bufused + data.length ≤ 2048 := by omega
  rcases step_recv_pushing testChip hrun h.conn h.awaiting.pushing hroom (fun _ => .error .outOfBounds) []
    ⟨none, false, []⟩ with ⟨queue, hstep⟩
  have hs' : s' = { ((s.take i data).pushUrl testChip i []).1 with queue } := hstep
  refine ⟨?_, ?_, hcalls.left.others, ?_, ?_⟩
  · -- the image in flash is the body
    have hlen := hstreamed.length
    have hflash := hstreamed.flash
    rw [← hlen, hbody, hdata] at hflash
    exact hflash
  · rw [hs']
    exact hflags.1
  · intro hmatch
    -- accepted: the flag is set and the timer armed
    have haccepted := hcalls.accepted (hacc.mpr hmatch)
    have hcrash := hflags.2.2.1 (by rw [hacc.mpr hmatch]; simp)
    refine ⟨haccepted.finish, haccepted.armed, ?_, ?_, ?_⟩
    · rw [haccepted.image, hstreamed.beg]
      exact congrArg (fun b => some (266240, b)) hbody
    · rw [hs']
      exact hcrash.trans hrun.1
    · rw [hs']
      exact hflags.2.1.trans hrun.2
  · intro hno
    have hrest := hflags.2.2.2 (fun ha => hno (hacc.mp ha))
    rw [hs']
    exact hrest

namespace Server

/-- Where no push has handed in data yet, no callback is a danger. -/
theorem not_endangers {env : OtaEnv} {s : Server} (hinv : s.Inv env fun _ => UploadInv)
    (hfinish : s.finish = false) (hnone : ∀ i, (s.clients i).postused = 0) (e : HttpEvent) :
    ¬Endangers env s e := by
  rintro ⟨i, s₁, hpc, ⟨hfin, -⟩ | ⟨howns, -⟩⟩
  · rw [hfinish] at hfin
    cases hfin
  · rcases step_cases uploadInv_rule hinv e with ⟨hno, -⟩ | ⟨j, replies, s₂, hpc₂, hcalls, -⟩
    · rw [hpc] at hno
      cases hno
    rw [hpc, Option.some.injEq, Prod.mk.injEq] at hpc₂
    rcases hpc₂ with ⟨rfl, rfl⟩
    rcases hcalls.event with ⟨conn, data, outside, other, -, -, hd⟩
    have hused := howns.used
    by_cases hstate : (s.clients i).state = .headers
    · rw [hd.entered hstate] at hused
      omega
    · rw [(hd.more hstate).1] at hused
      have hzero := hnone i
      dsimp only [extend] at hused
      omega

theorem ota_image_kept_boot :
    let s := Server.run testChip (fun _ => 0) (headerEvents (hexText bootPower) ++ [pushBody 7 (ascii "boot")])
    s.finish = true ∧ s.Kept testChip := by
  have hfresh : ∀ es : List HttpEvent, (Server.run testChip (fun _ => 0) es).finish = false →
      (∀ i, ((Server.run testChip (fun _ => 0) es).clients i).postused = 0) →
      ∀ e, ¬Endangers testChip (Server.run testChip (fun _ => 0) es) e :=
    fun es => not_endangers (run_inv testChip _ es)
  have hheader : ∀ text, Runs.Along (Server.step testChip) (fun s e => ¬Endangers testChip s e)
      (Server.init fun _ => 0) (headerEvents text) := fun text =>
    ⟨hfresh [] rfl (fun _ => rfl) _, hfresh [.connect 7 true] rfl (by decide) _, trivial⟩
  have hwaits : ∀ e, ¬Endangers testChip (headerRun (hexText bootPower)) e :=
    not_endangers (run_inv testChip _ _) headerRun_boot.2.2.2.1 headerRun_boot.2.2.2.2
  have h := ota_image_kept testChip (fun _ => 0) (headerEvents (hexText bootPower) ++ [pushBody 7 (ascii "boot")])
    (Runs.along_concat.mpr ⟨hheader _, hwaits _⟩)
  have hdecided := headerDone_boot.decided (headerRun_settled _) headerRun_boot_running bootPower_short
    (show (ascii "boot").length = 4 by decide)
  rw [run_concat] at h ⊢
  exact ⟨(hdecided.2.2.2.1 boot_matches).1, h⟩

/-- A signed image is accepted, and then the body of an unsigned push replaces it in flash. -/
theorem ota_image_replaced :
    let s := (rivalRun.step testChip (pushBody 7 (ascii "boot"))).step testChip (pushBody 8 (ascii "boom"))
    s.finish = true ∧ s.armed = true ∧ s.image = some (266240, ascii "boot") ∧
      flashBytes s.dev.content 266240 4 = ascii "boom" ∧ ¬s.Kept testChip := by
  have hsettled : Settled testChip 241664 rivalRun := run_settled testChip_target _ rivalEvents_replies
  have h7 := rivalRun_signed.decided hsettled rivalRun_running bootPower_short
    (show (ascii "boot").length = 4 by decide)
  rcases h7 with ⟨-, hrev, hothers, haccept, -⟩
  rcases haccept boot_matches with ⟨hfinish, harmed, himage, hrunning⟩
  have hsettled₁ : Settled testChip 241664 (rivalRun.step testChip (pushBody 7 (ascii "boot"))) :=
    ⟨hsettled.inv.step drained_rule rfl, hsettled.fresh.step testChip_target hsettled.inv rfl⟩
  have hwaits := rivalRun_unsigned.other hsettled (hothers 1 (by decide)) (by rw [hrev])
  have h8 := hwaits.decided hsettled₁ hrunning (by decide) (show (ascii "boom").length = 4 by decide)
  rcases h8 with ⟨hflash, -, -, -, hreject⟩
  rcases hreject boom_not_matches with ⟨hfinish₂, harmed₂, himage₂⟩
  refine ⟨hfinish₂.trans hfinish, harmed₂.trans harmed, himage₂.trans himage, hflash, ?_⟩
  intro hkept
  rcases hkept (hfinish₂.trans hfinish) with ⟨base, limit, body, -, hbody, -, hheld⟩
  rw [himage₂.trans himage, Option.some.injEq, Prod.mk.injEq] at hbody
  rw [← hbody.1, ← hbody.2] at hheld
  have heq : ascii "boom" = ascii "boot" := hflash.symm.trans hheld
  revert heq
  decide

end Server
end Esp8266Toolbox
