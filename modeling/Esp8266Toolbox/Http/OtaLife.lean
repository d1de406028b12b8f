import Esp8266Toolbox.Http.OtaKept

/-!
# The life of a chip, start after start

A chip runs the image in one of its partitions, and an accepted push makes it start the other one.
Its life is a list of starts, each with the callbacks until the power goes, the firmware resets, or
`system_upgrade_reboot` is called.

* `Signed`: the invariant of the callbacks between two starts;
* `Chip.life_intact`: what a chip runs, however often it has been updated.
-/

namespace Esp8266Toolbox

open Server

/-! ## What is accepted has been read back -/

/-- The same run on a chip whose flash works. -/
def OtaRun.fine (r : OtaRun) : OtaRun := { r with dev := { r.dev with replies := [] } }

/-- A read-back that comes to its end has read what is in flash. -/
theorem otaReadBack_fine {r r' : OtaRun} {addrs : List ℕ} (h : otaReadBack r addrs = (r', none)) :
    otaReadBack r.fine addrs = (r'.fine, none) := by
  induction addrs generalizing r with
  | nil =>
    cases h
    rfl
  | cons addr addrs ih =>
    rw [otaReadBack, spiFlashRead] at h
    cases hreply : r.dev.replies.headD .ok with
    | ok =>
      rw [hreply] at h
      exact ih h
    | fail left =>
      rw [hreply] at h
      cases h

theorem otaCompare_fine (env : OtaEnv) (r : OtaRun) : (otaCompare env r.fine).2 = (otaCompare env r).2 := by
  have hota : r.fine.ota = r.ota := rfl
  have hclient : r.fine.client = r.client := rfl
  rw [otaCompare, otaCompare, hota, hclient]
  by_cases hdiffer : strncmp r.ota.hash1 r.ota.hash2 32 ≠ 0
  · rw [if_pos hdiffer, if_pos hdiffer]
  · rw [if_neg hdiffer, if_neg hdiffer]
    rcases otaSignature env r.client.query r.ota with ⟨ota, _ | err⟩ <;> rfl

/-- A check that accepts would have accepted without failing reads. -/
theorem otaComplete_fine {env : OtaEnv} {r : OtaRun} (h : (otaComplete env r).2 = .accepted) :
    (otaComplete env r.fine).2 = .accepted := by
  rw [otaComplete] at h ⊢
  have hsame : r.fine.ota = r.ota := rfl
  rw [hsame]
  rcases hdone : sha256Done r.ota.sha256 with fault | ⟨sha256, hash1⟩
  · rw [hdone] at h
    cases h
  rw [hdone] at h
  dsimp only at h ⊢
  rw [otaRecheck] at h ⊢
  rcases hread : otaReadBack { r with ota := { r.ota with sha256 := sha256Init sha256, hash1 } }
    (readBackAddrs { r.ota with sha256 := sha256Init sha256, hash1 }) with ⟨r₁, _ | err⟩
  · rw [hread] at h
    have hfine := otaReadBack_fine hread
    dsimp only [OtaRun.fine] at hfine ⊢
    rw [hfine]
    dsimp only at h ⊢
    rw [otaVerify] at h ⊢
    rcases hdone' : sha256Done r₁.ota.sha256 with fault | ⟨sha256', hash2⟩
    · rw [hdone'] at h
      cases h
    · rw [hdone'] at h
      dsimp only at h ⊢
      rw [← otaCompare_fine] at h
      exact h
  · rw [hread] at h
    cases h

/-- An upload in flash is accepted on a signature that matches it. -/
theorem otaComplete_matches {env : OtaEnv} {n k base limit : ℕ} (hkey : env.pubkey.Is512 n k)
    (hp : Partition base limit) {m : List UInt8} {r : OtaRun} (hf : Flashed base limit m r)
    (hacc : (otaComplete env r).2 = .accepted) :
    SigMatches n k (Fips180.sha256 (m.take r.client.postlen)) r.client.query := by
  have hfine := otaComplete_fine hacc
  rcases hdone : sha256Done r.ota.sha256 with fault | ⟨sha256, hash1⟩
  · rw [otaComplete, hdone] at hacc
    cases hacc
  have hff : Flashed base limit m r.fine := hf.same ⟨rfl, rfl, rfl, fun _ => rfl, rfl, rfl, rfl, rfl⟩
  obtain ⟨r', hsame, h1, h2, -, heq⟩ := otaComplete_ok env hp hff rfl hdone
  have hclient : r'.client = r.client := hsame.client
  have hlen : r'.ota.hash1.length = 32 := by
    rw [h1]
    exact length_sha256Done hdone
  rw [heq, otaCompare_accepted_iff hkey hlen (by rw [h2]; exact length_sha256 _), h2, hclient] at hfine
  obtain ⟨hequal, q, v, hq, hv, hqlen, hagree⟩ := hfine
  exact ⟨q, v, hq, hv, hqlen, hequal.symm.trans hagree⟩

/-- So is one by the owner, whatever the flash calls answer, if its last sector has been written. -/
theorem otaData_matches {env : OtaEnv} {n k base limit : ℕ} (hkey : env.pubkey.Is512 n k)
    (hp : Partition base limit) {m : List UInt8} {r : OtaRun} (h : UploadInv base limit m r) (hns : ¬Stranded r)
    (hacc : (otaData env r).2 = .accepted) :
    SigMatches n k (Fips180.sha256 (m.take (otaData env r).1.client.postlen)) (otaData env r).1.client.query := by
  have hend (r₁ : OtaRun) (hf : Flashed base limit m r₁) (hc : (otaComplete env r₁).2 = .accepted) :
      SigMatches n k (Fips180.sha256 (m.take (otaComplete env r₁).1.client.postlen))
        (otaComplete env r₁).1.client.query := by
    rw [(otaComplete_same env r₁).1.client]
    exact otaComplete_matches hkey hp hf hc
  rw [otaData] at hacc ⊢
  rcases h with ⟨hlt, w, hup⟩ | hdone
  · have hfuel : loopMeasure r < 2 * r.client.bufused + 2 := by
      unfold loopMeasure
      split <;> omega
    have hloop := otaLoop_spec hp _ hup hlt hfuel
    rcases hres : otaLoop (2 * r.client.bufused + 2) r with ⟨r₁, _ | err⟩
    · rw [hres] at hloop hacc
      dsimp only at hacc ⊢
      rcases hloop.went rfl with ⟨hmore, -⟩ | ⟨hf, -⟩
      · rw [if_pos hmore] at hacc
        cases hacc
      · have hpost : r₁.client.postused = r₁.client.postlen := hf.postused_eq
        rw [if_neg (by omega)] at hacc ⊢
        exact hend r₁ hf hacc
    · rw [hres] at hacc
      cases hacc
  · rcases hdone with hf | hst
    · have hpost := hf.postused_eq
      rw [otaLoop_done _ hpost] at hacc ⊢
      dsimp only at hacc ⊢
      rw [if_neg (by omega)] at hacc ⊢
      exact hend r hf hacc
    · exact absurd hst hns

namespace Server

variable {env : OtaEnv} {base limit n k : ℕ} {s s' s₁ : Server} {i : Slot} {e : HttpEvent}

/-! ## What a callback leaves of the flash -/

/-- The call of `http_url_ota_push` works in the other partition. -/
theorem callPush_devStep (htarget : env.target = some (base, limit)) (h : s.Inv env (during UploadInv UploadInv i))
    (hp : Pushing (s.clients i)) (replies : List FlashReply) :
    DevStep base limit { s.dev with replies } (s.callPush env i replies).1.dev := by
  have hi := h.client i
  have hcases := otaPush_cases env i (r := ⟨s.clients i, s.ota, { s.dev with replies }⟩) hi
  unfold callPush
  generalize otaPush env i ⟨s.clients i, s.ota, { s.dev with replies }⟩ = res at hcases
  rcases hcases with ⟨ota, err, -, -, -⟩ | ⟨-, -⟩ | ⟨base', limit', ota, htarget', -, -, -, hup⟩ | ⟨hpost, hown⟩
  · exact DevStep.refl base limit _
  · exact DevStep.refl base limit _
  · rw [htarget] at htarget'
    cases htarget'
    exact (otaData_spec env (target_partition htarget) hi hp.state hup.inv).dev
  · obtain ⟨base', limit', htarget', hinv⟩ := h.upload i ⟨hown, hp.state, hp.push, hpost⟩
    rw [htarget] at htarget'
    cases htarget'
    rw [during_self] at hinv
    have hinv' : UploadInv base limit (s.stream i) ⟨s.clients i, s.ota, { s.dev with replies }⟩ :=
      hinv.congr ⟨rfl, rfl, rfl, rfl, fun _ _ _ => rfl⟩
    exact (otaData_spec env (target_partition htarget) hi hp.state hinv').dev

/-- It accepts on a signature that matches the image. -/
theorem callPush_matches (hkey : env.pubkey.Is512 n k) (h : s.Inv env (during UploadInv UploadInv i))
    (hp : Pushing (s.clients i)) (hns : ¬(s.Owns i ∧ Stranded (s.pushRun i))) {replies : List FlashReply}
    (hacc : (s.callPush env i replies).2 = .accepted) :
    SigMatches n k (Fips180.sha256 ((s.stream i).take (s.callPush env i replies).1.client.postlen))
      (s.callPush env i replies).1.client.query := by
  have hi := h.client i
  have hcases := otaPush_cases env i (r := ⟨s.clients i, s.ota, { s.dev with replies }⟩) hi
  unfold callPush at hacc ⊢
  generalize otaPush env i ⟨s.clients i, s.ota, { s.dev with replies }⟩ = res at hcases hacc
  rcases hcases with ⟨ota, err, -, -, -⟩ | ⟨-, -⟩ | ⟨base, limit, ota, htarget, hpost, -, -, hup⟩ | ⟨hpost, hown⟩
  · cases hacc
  · cases hacc
  · refine otaData_matches hkey (target_partition htarget) hup.inv (fun hst => ?_) hacc
    exact hst.2 (hup.secused_zero hpost)
  · have howns : s.Owns i := ⟨hown, hp.state, hp.push, hpost⟩
    obtain ⟨base, limit, htarget, hinv⟩ := h.upload i howns
    rw [during_self] at hinv
    refine otaData_matches hkey (target_partition htarget) (hinv.congr ⟨rfl, rfl, rfl, rfl, fun _ _ _ => rfl⟩)
      (fun hst => hns ⟨howns, hst⟩) hacc

theorem step_stopped (env : OtaEnv) (h : ¬s.Running) : s.step env e = s := by
  have hstopped : (s.crashed || s.rebooting) = true := by
    cases hc : s.crashed <;> cases hr : s.rebooting <;> simp_all [Running]
  unfold step
  rw [if_pos hstopped]

/-- Pages have been served: nothing has changed but the slots, the queue and what has been sent. -/
def PagesOnly (s s' : Server) : Prop :=
  ∃ clients reverse queue crashed sent stream, s' = { s with clients, reverse, queue, crashed, sent, stream }

theorem PagesOnly.refl (s : Server) : PagesOnly s s :=
  ⟨s.clients, s.reverse, s.queue, s.crashed, s.sent, s.stream, rfl⟩

theorem PagesOnly.post {s s' : Server} (h : PagesOnly s s') (conn : ℕ) : PagesOnly s (s'.post conn) := by
  obtain ⟨clients, reverse, _, crashed, sent, stream, rfl⟩ := h
  obtain ⟨queue, hq⟩ := post_eq { s with clients, reverse, queue := _, crashed, sent, stream } conn
  exact ⟨clients, reverse, queue, crashed, sent, stream, hq⟩

theorem pagesOnly_handle (env : OtaEnv) (hn : ¬OnPush (s.clients i)) (replies : List FlashReply) (other : OtherReply) :
    PagesOnly s (s.handle env i replies other).1 := by
  rw [OnPush] at hn
  rw [handle]
  rcases hdisp : httpDispatch (s.clients i) with _ | _ | url
  · exact ⟨_, _, _, _, _, _, rfl⟩
  · exact .refl s
  · rw [hdisp] at hn
    dsimp only
    rw [if_neg (by simpa using hn)]
    dsimp only
    cases (otherUrl other (s.clients i)).2.page <;> exact ⟨_, _, _, _, _, _, rfl⟩

/-- A segment that does not call `http_url_ota_push`. -/
theorem pagesOnly_recvCb (env : OtaEnv) (hrun : s.Running) {conn : ℕ} {data : List UInt8} {outside : Mem}
    {replies : List FlashReply} {other : OtherReply}
    (hcall : s.pushCall (.recv conn data outside replies other) = none) :
    PagesOnly s (s.recvCb env conn data outside replies other) := by
  rw [pushCall, hrun.1, hrun.2, if_neg (by simp)] at hcall
  rw [recvCb]
  rcases hrev : s.reverse conn with _ | i
  · exact (PagesOnly.refl s).post conn
  rw [hrev] at hcall
  dsimp only at hcall ⊢
  by_cases hroom : (s.clients i).bufused + data.length > 2048
  · rw [if_pos hroom]
    exact (PagesOnly.refl s).post conn
  rw [if_neg hroom] at hcall ⊢
  have hprocess : PagesOnly s ((s.take i data).process env i outside replies other).1 := by
    rw [ready] at hcall
    rw [process]
    by_cases hstate : ((s.take i data).clients i).state = .headers
    · rw [if_pos hstate] at hcall ⊢
      rcases hparsed : httpHeaders outside ((s.take i data).clients i) with fault | ⟨c, _ | w | _⟩
      · exact ⟨_, _, _, _, _, _, rfl⟩
      · exact ⟨_, _, _, _, _, _, rfl⟩
      · exact ⟨_, _, _, _, _, _, rfl⟩
      · rw [hparsed] at hcall
        dsimp only at hcall ⊢
        have hn : ¬OnPush (((s.take i data).enter i c).clients i) := fun hp => by
          rw [OnPush] at hp
          rw [if_pos hp] at hcall
          cases hcall
        obtain ⟨_, _, _, _, _, _, hpages⟩ := pagesOnly_handle env hn replies other
        exact ⟨_, _, _, _, _, _, hpages⟩
    · rw [if_neg hstate] at hcall ⊢
      dsimp only at hcall
      have hn : ¬OnPush ((s.take i data).clients i) := fun hp => by
        rw [OnPush] at hp
        rw [if_pos hp] at hcall
        cases hcall
      obtain ⟨_, _, _, _, _, _, hpages⟩ := pagesOnly_handle env hn replies other
      exact ⟨_, _, _, _, _, _, hpages⟩
  rcases hres : (s.take i data).process env i outside replies other with ⟨s', _ | _⟩
  · rw [hres] at hprocess
    exact hprocess
  · rw [hres] at hprocess
    exact hprocess.post conn

/-- What a callback does that does not call `http_url_ota_push`. -/
theorem step_quiet (env : OtaEnv) (hcall : s.pushCall e = none) :
    PagesOnly s (s.step env e) ∨ (e = .reboot ∧ s.step env e = s.otaReboot) ∨
      ∃ left, e = .paramStore left ∧ s.step env e = s.paramStore env left := by
  by_cases hrun : s.Running
  swap
  · rw [step_stopped env hrun]
    exact .inl (.refl s)
  have hpost (conn : ℕ) : PagesOnly s (Server.post { s with reverse := Function.update s.reverse conn none } conn) :=
    PagesOnly.post ⟨s.clients, _, s.queue, s.crashed, s.sent, s.stream, rfl⟩ conn
  unfold step
  rw [if_neg (by simp [hrun.1, hrun.2])]
  cases e with
  | connect conn registered =>
    refine .inl ?_
    dsimp only
    rw [connCb]
    split
    · dsimp only
      split
      · exact hpost conn
      · exact ⟨_, _, _, _, _, _, rfl⟩
    · exact hpost conn
  | recv conn data outside replies other => exact .inl (pagesOnly_recvCb env hrun hcall)
  | disconnect conn =>
    refine .inl ?_
    dsimp only
    rw [disconnCb]
    cases s.reverse conn with
    | none => exact .refl s
    | some i => exact ⟨_, _, _, _, _, _, rfl⟩
  | error conn err => exact .inl (.refl s)
  | task => exact .inl ⟨_, _, _, _, _, _, rfl⟩
  | reboot => exact .inr (.inl ⟨rfl, rfl⟩)
  | paramStore left => exact .inr (.inr ⟨left, rfl, rfl⟩)

/-- A restart that is coming is not called off. -/
theorem step_armed (env : OtaEnv) (h : s.armed = true ∨ s.rebooting = true) (hcall : s.pushCall e = none) :
    (s.step env e).armed = true ∨ (s.step env e).rebooting = true := by
  obtain ⟨_, _, _, _, _, _, hpages⟩ | ⟨-, hreboot⟩ | ⟨left, -, hstore⟩ := step_quiet env hcall
  · rw [hpages]
    exact h
  · rw [hreboot, otaReboot]
    split
    · exact .inr rfl
    · exact h
  · rw [hstore, paramStore]
    cases flashSizeKb env.flashMap <;> exact h

/-- The partition that is running has neither the other one nor the parameters in it. -/
theorem running_apart (htarget : env.target = some (base, limit)) :
    (env.userbinAddr + limit ≤ base ∨ base + limit ≤ env.userbinAddr) ∧
      ∀ sizeKb, flashSizeKb env.flashMap = some sizeKb →
        env.userbinAddr + limit ≤ paramAddr sizeKb ∨ paramAddr sizeKb + 3 * secSize ≤ env.userbinAddr := by
  obtain ⟨sizeKb, hk, hlimit, hbase⟩ := target_cases htarget
  rw [hk]
  unfold user1Addr user2Addr maxAppSize at *
  refine ⟨?_, fun sizeKb' hk' => ?_⟩
  · rcases flashSizeKb_cases hk with rfl | rfl | rfl | rfl <;> omega
  · cases hk'
    unfold paramAddr secSize
    rcases flashSizeKb_cases hk with rfl | rfl | rfl | rfl <;> omega

/-- No callback touches the image that is running. -/
theorem step_running (htarget : env.target = some (base, limit)) (h : s.Inv env fun _ => UploadInv)
    (e : HttpEvent) {a : ℕ} (ha : env.userbinAddr ≤ a) (ha' : a < env.userbinAddr + limit) :
    (s.step env e).dev.content a = s.dev.content a := by
  obtain ⟨hpartition, hparam⟩ := running_apart htarget
  rcases hcall : s.pushCall e with _ | ⟨i, s₁⟩
  · obtain ⟨_, _, _, _, _, _, hpages⟩ | ⟨-, hreboot⟩ | ⟨left, -, hstore⟩ := step_quiet env hcall
    · rw [hpages]
    · rw [hreboot, otaReboot]
      split <;> rfl
    · rw [hstore, paramStore]
      rcases hk : flashSizeKb env.flashMap with _ | sizeKb
      · rfl
      · have hapart := hparam sizeKb hk
        exact patch_outside (by omega)
  · rcases step_cases uploadInv_rule h e with ⟨hnone, -⟩ | ⟨j, replies, s₂, hsome, hcalls, hinv⟩
    · rw [hcall] at hnone
      cases hnone
    obtain ⟨conn, data, outside, other, -, -, hd⟩ := hcalls.event
    rw [hcalls.left.dev, (callPush_devStep htarget hinv hd.pushing replies).outside a (by omega)]
    rw [hd.dev]

/-- The timer behind an accepted push. -/
theorem step_upgrade (env : OtaEnv) (halive : s.crashed = false) (h : s.armed = true ∨ s.rebooting = true) :
    (s.step env .reboot).rebooting = true ∧ (s.step env .reboot).finish = s.finish ∧
      (s.step env .reboot).image = s.image ∧ (s.step env .reboot).dev = s.dev := by
  cases hreboot : s.rebooting with
  | true =>
    rw [step_stopped env fun hrun => by rw [hrun.2] at hreboot; cases hreboot]
    exact ⟨hreboot, rfl, rfl, rfl⟩
  | false =>
    have harmed : s.armed = true := h.resolve_right (by simp [hreboot])
    have hstep : s.step env .reboot = { s with armed := false, rebooting := true } := by
      rw [step, if_neg (by simp [halive, hreboot])]
      show s.otaReboot = _
      rw [otaReboot, if_pos harmed]
    rw [hstep]
    exact ⟨rfl, rfl, rfl, rfl⟩

/-! ## Between two starts -/

/-- What holds between two callbacks: an accepted image is in flash and is signed, and the image that is
running is the one of the start. -/
structure Signed (env : OtaEnv) (n k limit : ℕ) (content : ℕ → UInt8) (s : Server) : Prop where
  guarded : Guarded env s
  signed : ∀ addr body, s.image = some (addr, body) → ∃ query, SigMatches n k (Fips180.sha256 body) query
  running : ∀ a, env.userbinAddr ≤ a → a < env.userbinAddr + limit → s.dev.content a = content a

theorem Signed.step {content : ℕ → UInt8} (h : Signed env n k limit content s)
    (htarget : env.target = some (base, limit)) (hkey : env.pubkey.Is512 n k) (hsafe : ¬Endangers env s e) :
    Signed env n k limit content (s.step env e) := by
  have hinv := h.guarded.inv
  refine ⟨⟨h.guarded.kept.step hinv hsafe, hinv.step uploadInv_rule (by cases e <;> trivial)⟩, ?_, ?_⟩
  · intro addr body himage
    rcases step_cases uploadInv_rule hinv e with ⟨-, hq⟩ | ⟨i, replies, s₁, hcall, hcalls, hinv₁⟩
    · exact h.signed addr body (hq.image.symm.trans himage)
    obtain ⟨conn, data, outside, other, -, -, hd⟩ := hcalls.event
    by_cases hacc : (s₁.callPush env i replies).2 = .accepted
    · have hns : ¬(s₁.Owns i ∧ Stranded (s₁.pushRun i)) := fun hbad => hsafe ⟨i, s₁, hcall, .inr hbad⟩
      have hmatch := callPush_matches hkey hinv₁ hd.pushing hns hacc
      have hleft := hcalls.left
      rw [(hcalls.accepted hacc).image, Option.some.injEq, Prod.mk.injEq, hleft.stream, hleft.client] at himage
      rw [← himage.2]
      exact ⟨_, hmatch⟩
    · -- nothing new has been accepted
      obtain ⟨queue, hstep⟩ := hcalls.result
      have hsame := ((pushUrl_flags env s₁ i replies).2.2.2 hacc).2.2
      rw [hstep] at himage
      exact h.signed addr body ((hsame.trans hd.image).symm.trans himage)
  · intro a ha ha'
    rw [step_running htarget hinv e ha ha']
    exact h.running a ha ha'

theorem run_signed (htarget : env.target = some (base, limit)) (hkey : env.pubkey.Is512 n k) (content : ℕ → UInt8)
    {es : List HttpEvent} (hes : Runs.Along (Server.step env) (fun s e => ¬Endangers env s e) (Server.init content) es) :
    Signed env n k limit content (Server.run env content es) := by
  have hinit : Signed env n k limit content (Server.init content) := by
    refine ⟨⟨fun hfinish => ?_, init_inv env content⟩, fun addr body himage => ?_, fun a _ _ => rfl⟩
    · cases hfinish
    · cases himage
  exact Runs.foldl_inv_along (fun s e hsafe h => h.step htarget hkey hsafe) hinit hes

end Server

/-! ## Start after start -/

/-- The boot loader of the SDK: the address that it starts next. The flag says that
`system_upgrade_reboot` has been called with `UPGRADE_FLAG_FINISH` set. -/
abbrev BootLoader := OtaEnv → Bool → ℕ

/-- What `ota_reboot` relies on: the other partition is started after an upgrade, and the same one after
any other reset. -/
structure BootLoader.Switches (boot : BootLoader) : Prop where
  reset : ∀ env, boot env false = env.userbinAddr
  upgrade : ∀ env sizeKb, flashSizeKb env.flashMap = some sizeKb → boot env true = otherPartition env sizeKb

/-- What a chip keeps without power: its flash, and the address the boot loader starts. The image is
a history variable: what the chip runs is meant to be. -/
structure Chip where
  userbinAddr : ℕ
  content : ℕ → UInt8
  image : List UInt8

namespace Chip

/-- What the SDK answers on this chip. -/
def env (env : OtaEnv) (chip : Chip) : OtaEnv := { env with userbinAddr := chip.userbinAddr }

/-- The next start, after the callbacks `es`. -/
def restart (boot : BootLoader) (env : OtaEnv) (chip : Chip) (es : List HttpEvent) : Chip :=
  let s := Server.run (chip.env env) chip.content es
  let upgraded := s.rebooting && s.finish
  { userbinAddr := boot (chip.env env) upgraded, content := s.dev.content,
    image := if upgraded then (s.image.map Prod.snd).getD chip.image else chip.image }

/-- The callbacks of one start leave an accepted image alone. -/
def Undisturbed (env : OtaEnv) (chip : Chip) (es : List HttpEvent) : Prop :=
  Runs.Along (Server.step (chip.env env)) (fun s e => ¬Server.Endangers (chip.env env) s e)
    (Server.init chip.content) es

/-- The chip runs its image. -/
structure Intact (env : OtaEnv) (limit : ℕ) (chip : Chip) : Prop where
  target : ∃ base, (chip.env env).target = some (base, limit)
  short : chip.image.length ≤ limit
  flash : flashBytes chip.content chip.userbinAddr chip.image.length = chip.image

/-- It is the image that the chip was delivered with, or one whose signature matches. -/
structure Trusted (env : OtaEnv) (limit n k : ℕ) (first : List UInt8) (chip : Chip) : Prop where
  intact : chip.Intact env limit
  source : chip.image = first ∨ ∃ query, SigMatches n k (Fips180.sha256 chip.image) query

variable {boot : BootLoader} {env : OtaEnv} {limit n k : ℕ} {first : List UInt8} {chip : Chip}

/-- The partitions change places. -/
theorem target_other (hboot : boot.Switches) {base : ℕ} (h : (chip.env env).target = some (base, limit)) :
    boot (chip.env env) true = base ∧
      ({ env with userbinAddr := base } : OtaEnv).target = some (chip.userbinAddr, limit) := by
  obtain ⟨sizeKb, hk, hlimit, hbase⟩ := target_cases h
  have hk' : flashSizeKb env.flashMap = some sizeKb := hk
  have hne : user2Addr sizeKb ≠ user1Addr := by
    rcases flashSizeKb_cases hk' with rfl | rfl | rfl | rfl <;> decide
  rw [hboot.upgrade _ sizeKb hk, otherPartition, OtaEnv.target, hk', hlimit]
  rcases hbase with ⟨hrun, rfl⟩ | ⟨hrun, rfl⟩
  · have haddr : chip.userbinAddr = user1Addr := hrun
    rw [if_pos hrun, haddr]
    dsimp only
    exact ⟨rfl, by rw [if_neg hne, if_pos rfl]⟩
  · have haddr : chip.userbinAddr = user2Addr sizeKb := hrun
    rw [if_neg (by rw [hrun]; exact hne), haddr]
    dsimp only
    exact ⟨rfl, by rw [if_pos rfl]⟩

/-- One start. -/
theorem Trusted.restart (hboot : boot.Switches) (h : chip.Trusted env limit n k first)
    (hkey : env.pubkey.Is512 n k) {es : List HttpEvent} (hes : chip.Undisturbed env es) :
    (chip.restart boot env es).Trusted env limit n k first := by
  obtain ⟨base, htarget⟩ := h.intact.target
  have hshort := h.intact.short
  have hsigned := Server.run_signed htarget hkey chip.content hes
  obtain ⟨hother, htarget'⟩ := target_other hboot htarget
  rw [Chip.restart]
  cases hswitch : (Server.run (chip.env env) chip.content es).rebooting
      && (Server.run (chip.env env) chip.content es).finish with
  | true =>
    -- the flag is set, so an image has been accepted, and it is in the other partition
    rw [if_pos rfl, hother]
    rw [Bool.and_eq_true] at hswitch
    obtain ⟨base', limit', body, hsame, himage, hlen, hflash⟩ := hsigned.guarded.kept hswitch.2
    rw [htarget] at hsame
    cases hsame
    rw [himage, Option.map_some, Option.getD_some]
    exact ⟨⟨⟨_, htarget'⟩, hlen, hflash⟩, .inr (hsigned.signed base body himage)⟩
  | false =>
    rw [if_neg Bool.false_ne_true, hboot.reset]
    refine ⟨⟨h.intact.target, hshort, ?_⟩, h.source⟩
    rw [← h.intact.flash, length_flashBytes]
    refine flashBytes_congr fun a ha ha' => hsigned.running a ha ?_
    have haddr : (chip.env env).userbinAddr = chip.userbinAddr := rfl
    dsimp only at ha'
    omega

/-- A boot loader that switches. -/
def testBoot : BootLoader := fun env upgraded =>
  if upgraded then (flashSizeKb env.flashMap).elim env.userbinAddr (otherPartition env) else env.userbinAddr

theorem testBoot_switches : testBoot.Switches where
  reset _ := rfl
  upgrade env sizeKb h := by
    rw [testBoot, if_pos rfl, h]
    rfl

/-- A new chip, which runs four bytes. -/
def delivered : Chip := ⟨user1Addr, fun _ => 0, List.replicate 4 0⟩

end Chip
end Esp8266Toolbox
