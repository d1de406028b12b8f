import Esp8266Toolbox.Http.OtaConfinement
import Esp8266Toolbox.Http.OtaVerify
import Esp8266Toolbox.Http.ServerSteps

/-!
# Uploads arrive in flash

Runs in which every flash call succeeds. Between two callbacks an upload that waits for data
has none at hand, so that a segment always finds room (`Drained`), and an upload that is
complete has been hashed and read back. The bytes of the stream then are, at the moment the
last one has been taken, the bytes of the partition and the message of both hashes.
-/

namespace Esp8266Toolbox

open Server

/-! ## The kinds of state of an upload -/

/-- The upload goes on, or it is in flash and both hashes have been computed. -/
def Receiving : Upload := fun base limit m r =>
  (r.client.postused < r.client.postlen ∧ ∃ n, Uploading base limit n m r) ∨
    (Flashed base limit m r ∧ HashDone (m.take r.client.postlen) r.ota.sha256)

/-- An upload that goes on has no data at hand. -/
def Drained : Upload := fun base limit m r =>
  Receiving base limit m r ∧ (r.client.postused < r.client.postlen → r.client.bufused = 0)

theorem receiving_local : Upload.Local Receiving := by
  intro base limit m c c' o d d' h hs
  have hpostused := hs.postused
  have hpostlen := hs.postlen
  rcases h with ⟨hlt, n, hup⟩ | ⟨hf, hd⟩
  · left
    dsimp only at hlt ⊢
    exact ⟨by omega, n, hup.congr hs⟩
  · right
    dsimp only at hd ⊢
    rw [hpostlen]
    exact ⟨hf.congr hs, hd⟩

theorem drained_local : Upload.Local Drained := by
  intro base limit m c c' o d d' h hs
  have hbufused := hs.bufused
  have hpostused := hs.postused
  have hpostlen := hs.postlen
  refine ⟨receiving_local h.1 hs, ?_⟩
  have hempty := h.2
  dsimp only at hempty ⊢
  omega

theorem Receiving.inv {base limit : ℕ} {m : List UInt8} {r : OtaRun} (h : Receiving base limit m r) :
    UploadInv base limit m r := by
  rcases h with h | ⟨hf, -⟩
  · exact Or.inl h
  · exact Or.inr (Or.inl hf)

theorem Receiving.received {base limit : ℕ} {m data : List UInt8} {c : HttpClient} {o : OtaState}
    {d : FlashDev} (h : Receiving base limit m ⟨c, o, d⟩) (hroom : c.bufused + data.length ≤ 2048) :
    Receiving base limit (m ++ data) ⟨extend c data, o, d⟩ := by
  rcases h with ⟨hlt, n, hup⟩ | ⟨hf, hd⟩
  · exact Or.inl ⟨hlt, n, hup.received hroom⟩
  · refine Or.inr ⟨hf.received hroom, ?_⟩
    show HashDone ((m ++ data).take c.postlen) o.sha256
    rw [hf.take_append]
    exact hd

/-- A call by the owner ends in a state that waits for data or is complete. -/
theorem DataCases.drained {env : OtaEnv} {base limit : ℕ} {m : List UInt8} {r : OtaRun}
    {res : OtaRun × OtaResult} (h : DataCases env base limit m r res) : Drained base limit m res.1 := by
  rcases h with ⟨r₁, -, hlt, hbuf, n, hup⟩ | ⟨r₁, -, hc⟩
  · exact ⟨Or.inl ⟨hlt, n, hup⟩, fun _ => hbuf⟩
  · have hc' := hc.compare env
    refine ⟨Or.inr ⟨hc'.flashed, hc'.done⟩, fun hlt => ?_⟩
    have := hc'.flashed.postused_eq
    omega

/-- A further call on a complete upload leaves it complete. -/
theorem otaComplete_again (env : OtaEnv) {base limit : ℕ} (hp : Partition base limit) {m : List UInt8}
    {r : OtaRun} (hf : Flashed base limit m r) (hd : HashDone (m.take r.client.postlen) r.ota.sha256)
    (hr : r.dev.replies = []) : Drained base limit m (otaComplete env r).1 := by
  have hdrained : ∀ r' : OtaRun, Flashed base limit m r' →
      HashDone (m.take r'.client.postlen) r'.ota.sha256 → Drained base limit m r' := by
    intro r' hf' hd'
    refine ⟨Or.inr ⟨hf', hd'⟩, fun hlt => ?_⟩
    have := hf'.postused_eq
    omega
  rcases hdone : sha256Done r.ota.sha256 with fault | ⟨sha256, hash1⟩
  · rw [otaComplete, hdone]
    exact hdrained r hf hd
  · rcases otaComplete_ok env hp hf hr hdone with ⟨r', hs, -, -, hd', hcompare⟩
    have hs' := hs.trans (otaCompare_same env r').1
    rw [hcompare]
    apply hdrained _ (hf.same hs')
    rw [hs'.client, (otaCompare_hashes env r').2.2]
    exact hd'

theorem otaData_drained (env : OtaEnv) {base limit : ℕ} (hp : Partition base limit) {m : List UInt8}
    {r : OtaRun} (hr : r.dev.replies = []) (h : Receiving base limit m r) :
    Drained base limit m (otaData env r).1 := by
  rcases h with ⟨hlt, n, hup⟩ | ⟨hf, hd⟩
  · exact (otaData_cases env hp hup hr (Or.inl hlt)).drained
  · have hpost := hf.postused_eq
    rw [otaData, otaLoop_done _ hpost]
    dsimp only
    rw [if_neg (by omega)]
    exact otaComplete_again env hp hf hd hr

/-- An upload that has just begun has an empty sector buffer. -/
theorem Uploading.secused_zero {base limit : ℕ} {m : List UInt8} {r : OtaRun}
    (h : Uploading base limit 0 m r) (hpost : r.client.postused = 0) : r.ota.secused = 0 := by
  have := h.count
  omega

theorem drained_rule : UploadRule (· = []) Drained Receiving where
  localU := drained_local
  localV := receiving_local
  inv h := h.inv
  received h hroom := h.1.received hroom
  resumed hp _ _ hr h := otaData_drained _ hp hr h
  began hp _ hr hpost h := (otaData_cases _ hp h hr (Or.inr (h.secused_zero hpost))).drained

/-! ## One call -/

/-- A call of `http_url_ota_push` whose flash calls succeed. -/
inductive OkCases (env : OtaEnv) (base limit : ℕ) (i : Slot) (m : List UInt8) (r : OtaRun) :
    OtaRun × OtaResult → Prop where
  | refused (ota : OtaState) (e : OtaError) (hpost : r.client.postused = 0) (hown : ota.client = some i)
      (hwhy : r.client.state ≠ .postdata ∨ limit < r.client.postlen) :
      OkCases env base limit i m r ({ r with ota }, .rejected e)
  | displaced (hpost : 0 < r.client.postused) (hown : r.ota.client ≠ some i) :
      OkCases env base limit i m r (r, .rejected .multipleClient)
  | goesOn (ota : OtaState) (res : OtaRun × OtaResult) (hown : ota.client = some i)
      (hmore : r.client.postused = 0 ∨ r.client.postused < r.client.postlen)
      (hdata : DataCases env base limit m { r with ota } res) : OkCases env base limit i m r res
  | again (hpost : 0 < r.client.postused) (hown : r.ota.client = some i) (hf : Flashed base limit m r)
      (hd : HashDone (m.take r.client.postlen) r.ota.sha256) :
      OkCases env base limit i m r (otaComplete env r)

theorem otaPush_okCases {env : OtaEnv} {base limit : ℕ} (htarget : env.target = some (base, limit))
    (i : Slot) {m : List UInt8} {r : OtaRun} (hc : ClientInv r.client m) (hr : r.dev.replies = [])
    (hv : r.ota.client = some i → 0 < r.client.postused → Receiving base limit m r) :
    OkCases env base limit i m r (otaPush env i r) := by
  have hcases := otaPush_cases env i hc
  generalize otaPush env i r = res at hcases
  rcases hcases with ⟨ota, e, hbegin, hpost, hown⟩ | ⟨hpost, hown⟩ |
    ⟨base', limit', ota, htarget', hpost, hst, hown, hup⟩ | ⟨hpost, hown⟩
  · apply OkCases.refused ota e hpost hown
    by_contra hno
    rw [not_or, not_not, not_lt] at hno
    rw [otaBegin_ok htarget i hno.1 hno.2] at hbegin
    cases hbegin
  · exact OkCases.displaced hpost hown
  · rw [htarget] at htarget'
    cases htarget'
    apply OkCases.goesOn ota _ hown (Or.inl hpost)
    exact otaData_cases env (target_partition htarget) hup hr (Or.inr (hup.secused_zero hpost))
  · rcases hv hown hpost with ⟨hlt, n, hup⟩ | ⟨hf, hd⟩
    · apply OkCases.goesOn r.ota _ hown (Or.inr hlt)
      exact otaData_cases env (target_partition htarget) hup hr (Or.inl hlt)
    · have hend := hf.postused_eq
      have heq : otaData env r = otaComplete env r := by
        rw [otaData, otaLoop_done _ hend]
        dsimp only
        rw [if_neg (by omega)]
      rw [heq]
      exact OkCases.again hpost hown hf hd

/-! ## Whole runs -/

namespace Server

/-- Every announced byte of the push in slot `i` has been taken. -/
structure Complete (s : Server) (i : Slot) : Prop where
  state : (s.clients i).state = .postdata
  push : OnPush (s.clients i)
  all : (s.clients i).postused = (s.clients i).postlen

/-- The push in slot `i` has handed in data, and another client has become the owner since. -/
structure Displaced (s : Server) (i : Slot) : Prop where
  state : (s.clients i).state = .postdata
  push : OnPush (s.clients i)
  used : 0 < (s.clients i).postused
  owner : s.ota.client ≠ some i

/-- The push in slot `i` is not complete and fits, and nobody has displaced it. -/
structure Awaiting (limit : ℕ) (s : Server) (i : Slot) : Prop where
  state : (s.clients i).state = .postdata
  push : OnPush (s.clients i)
  more : (s.clients i).postused < (s.clients i).postlen
  fits : (s.clients i).postlen ≤ limit
  mine : (s.clients i).postused = 0 ∨ s.ota.client = some i

/-- The body of the push in slot `i`: the announced number of bytes behind its header section. -/
def body (s : Server) (i : Slot) : List UInt8 := (s.stream i).take (s.clients i).postlen

/-- The body of the push in slot `i` is in flash, byte for byte, and both hashes are its digest. -/
structure Streamed (base : ℕ) (s : Server) (i : Slot) : Prop where
  owner : s.ota.client = some i
  beg : s.ota.newaddrBeg = base
  length : (s.body i).length = (s.clients i).postlen
  flash : flashBytes s.dev.content base (s.clients i).postlen = s.body i
  hash1 : s.ota.hash1 = Fips180.sha256 (s.body i)
  hash2 : s.ota.hash2 = Fips180.sha256 (s.body i)

variable {env : OtaEnv} {base limit : ℕ} {s : Server}

/-- The call a segment causes, in a run whose flash calls succeed. -/
theorem callPush_okCases (htarget : env.target = some (base, limit)) {i : Slot}
    (h : s.Inv env (during Drained Receiving i)) (hp : Pushing (s.clients i)) :
    OkCases env base limit i (s.stream i) ⟨s.clients i, s.ota, { s.dev with replies := [] }⟩
      (s.callPush env i []) := by
  apply otaPush_okCases htarget i (h.client i) rfl
  intro hown hpost
  rcases h.upload i ⟨hown, hp.state, hp.push, hpost⟩ with ⟨base', limit', htarget', hv⟩
  rw [htarget] at htarget'
  cases htarget'
  rw [during_self] at hv
  exact receiving_local hv ⟨rfl, rfl, rfl, rfl, fun _ _ _ => rfl⟩

theorem Complete.pushing {i : Slot} (h : s.Complete i) : Pushing (s.clients i) :=
  ⟨by rw [h.state]; simp, h.push⟩

theorem Displaced.pushing {i : Slot} (h : s.Displaced i) : Pushing (s.clients i) :=
  ⟨by rw [h.state]; simp, h.push⟩

theorem Awaiting.pushing {i : Slot} (h : s.Awaiting limit i) : Pushing (s.clients i) :=
  ⟨by rw [h.state]; simp, h.push⟩

/-- The replies of a callback that makes a call are those of its segment. -/
theorem Calls.replies_nil {e : HttpEvent} {i : Slot} {replies : List FlashReply} {s₁ : Server}
    (h : Calls env s e i replies s₁) (he : e.Replies (· = [])) : replies = [] := by
  rcases h.event with ⟨conn, data, outside, other, rfl, -, -⟩
  exact he

/-- A push that has not taken a byte has none at hand, unless its image does not fit. -/
def Fresh (limit : ℕ) (s : Server) : Prop :=
  ∀ i, s.Awaiting limit i → (s.clients i).postused = 0 → (s.clients i).bufused = 0

theorem init_fresh (limit : ℕ) (content : ℕ → UInt8) : (Server.init content).Fresh limit := by
  intro i h _
  have := h.state
  simp [Server.init, HttpClient.zero] at this

theorem Fresh.step (htarget : env.target = some (base, limit)) (hf : s.Fresh limit)
    (h : s.Inv env fun _ => Drained) {e : HttpEvent} (he : e.Replies (· = [])) :
    (s.step env e).Fresh limit := by
  intro j hj hzero
  rcases step_cases drained_rule h e with ⟨-, hq⟩ | ⟨i, replies, s₁, -, hcall, hinv⟩
  · rcases hq.slots j with hk | hn
    · rw [hk.bufused]
      have hst := hj.state
      have hmore := hj.more
      have hfits := hj.fits
      rw [hk.state] at hst
      rw [hk.postused, hk.postlen] at hmore
      rw [hk.postlen] at hfits
      rw [hk.postused] at hzero
      exact hf j ⟨hst, (onPush_congr hk.url).mp hj.push, hmore, hfits, Or.inl hzero⟩ hzero
    · exact absurd hj.pushing hn
  · have hrep := hcall.replies_nil he
    subst hrep
    have hleft := hcall.left
    rcases eq_or_ne j i with rfl | hne
    swap
    · have hc := (hleft.others j hne).1
      rw [hc] at hzero ⊢
      refine hf j ⟨?_, ?_, ?_, ?_, Or.inl hzero⟩ hzero
      · rw [← hc]; exact hj.state
      · rw [← hc]; exact hj.push
      · rw [← hc]; exact hj.more
      · rw [← hc]; exact hj.fits
    rcases hcall.event with ⟨conn, data, outside, other, -, -, hd⟩
    have hok := callPush_okCases htarget hinv hd.pushing
    have hst := hj.state
    have hmore := hj.more
    have hfits := hj.fits
    rw [hleft.client] at hzero hst hmore hfits ⊢
    generalize s₁.callPush env j [] = res at hok hzero hst hmore hfits
    rcases hok with ⟨ota, err, hpost, hown, hwhy⟩ | ⟨hpost, hown⟩ | ⟨ota, res, hown, -, hdata⟩ |
      ⟨hpost, hown, hfl, hdn⟩
    · -- the call was not refused: the image fits
      rcases hwhy with hwhy | hwhy
      · exact absurd hst hwhy
      · dsimp only at hwhy hfits
        omega
    · dsimp only at hpost hzero
      omega
    · exact hdata.drained.2 hmore
    · have hdr := otaComplete_again env (target_partition htarget) hfl hdn rfl
      exact hdr.2 hmore

/-- What holds between two callbacks of a run whose flash calls succeed. -/
structure Settled (env : OtaEnv) (limit : ℕ) (s : Server) : Prop where
  inv : s.Inv env fun _ => Drained
  fresh : s.Fresh limit

theorem run_settled (htarget : env.target = some (base, limit)) (content : ℕ → UInt8)
    {es : List HttpEvent} (hes : ∀ e ∈ es, e.Replies (· = [])) :
    Settled env limit (Server.run env content es) := by
  have halong : Runs.Along (Server.step env) (fun _ e => e.Replies (· = [])) (Server.init content) es :=
    Runs.along_of_forall (fun e he _ => hes e he) _
  have hinit : Settled env limit (Server.init content) :=
    ⟨init_inv env content, init_fresh limit content⟩
  apply Runs.foldl_inv_along _ hinit halong
  intro s e he h
  exact ⟨h.inv.step drained_rule he, h.fresh.step htarget h.inv he⟩

/-- When the last announced byte is taken, the call of `http_url_ota_push` has compared the image
with its signature. -/
theorem complete_checks (htarget : env.target = some (base, limit)) (h : s.Inv env fun _ => Drained)
    {e : HttpEvent} (he : e.Replies (· = [])) {i : Slot} (hbefore : ¬s.Complete i)
    (hafter : (s.step env e).Complete i) :
    ∃ s₁ r₁, s.pushCall e = some (i, s₁) ∧ Calls env s e i [] s₁ ∧
      s₁.callPush env i [] = otaCompare env r₁ ∧ Checked base limit (s₁.stream i) r₁ ∧
      r₁.ota.client = some i := by
  rcases step_cases drained_rule h e with ⟨-, hq⟩ | ⟨j, replies, s₁, hpc, hcall, hinv⟩
  · rcases hq.slots i with hk | hn
    · refine absurd ⟨?_, (onPush_congr hk.url).mp hafter.push, ?_⟩ hbefore
      · rw [← hk.state]; exact hafter.state
      · rw [← hk.postused, ← hk.postlen]; exact hafter.all
    · exact absurd hafter.pushing hn
  have hrep := hcall.replies_nil he
  subst hrep
  have hleft := hcall.left
  rcases eq_or_ne i j with rfl | hne
  swap
  · have hc := (hleft.others i hne).1
    refine absurd ⟨?_, ?_, ?_⟩ hbefore
    · rw [← hc]; exact hafter.state
    · rw [← hc]; exact hafter.push
    · rw [← hc]; exact hafter.all
  rcases hcall.event with ⟨conn, data, outside, other, -, -, hd⟩
  have hok := callPush_okCases htarget hinv hd.pushing
  -- a request that was complete before the call was complete before the segment
  have hnot : ¬(0 < (s₁.clients i).postused ∧ (s₁.clients i).state = .postdata ∧
      (s₁.clients i).postused = (s₁.clients i).postlen) := by
    rintro ⟨hpos, hst, hall⟩
    by_cases hh : (s.clients i).state = .headers
    · rw [hd.entered hh] at hpos
      omega
    · rcases hd.more hh with ⟨hc, -⟩
      rw [hc] at hst hall
      exact hbefore ⟨hst, (onPush_congr (by rw [hc]; rfl)).mp hd.pushing.push, hall⟩
  have hst := hafter.state
  have hall := hafter.all
  rw [hleft.client] at hst hall
  generalize hres : s₁.callPush env i [] = res at hok hst hall
  rcases hok with ⟨ota, err, hpost, hown, hwhy⟩ | ⟨hpost, hown⟩ | ⟨ota, res, hown, hmore, hdata⟩ |
    ⟨hpost, hown, hfl, hdn⟩
  · -- nothing was announced, so the call was not refused
    dsimp only at hst hall hpost hwhy
    rcases hwhy with hwhy | hwhy
    · exact absurd hst hwhy
    · omega
  · exact absurd ⟨hpost, hst, hall⟩ hnot
  · rcases hdata with ⟨r₁, hsame, hlt, hbuf, n, hup⟩ | ⟨r₁, hsame, hc⟩
    · dsimp only at hall
      omega
    · exact ⟨s₁, r₁, hpc, hcall, hres, hc, by rw [hsame.owner]; exact hown⟩
  · exact absurd ⟨hpost, by rw [(otaComplete_same env _).1.client] at hst; exact hst, hfl.postused_eq⟩ hnot

/-- The body of a push does not change during the call for it. -/
theorem Calls.body_eq {e : HttpEvent} {i : Slot} {replies : List FlashReply} {s₁ : Server}
    (h : Calls env s e i replies s₁) :
    (s.step env e).body i = (s₁.stream i).take (s₁.callPush env i replies).1.client.postlen := by
  rw [body, h.left.stream, h.left.client]

/-- When the last announced byte is taken, the image is in flash and both hashes are its digest. -/
theorem streamed_of_complete (htarget : env.target = some (base, limit))
    (h : s.Inv env fun _ => Drained) {e : HttpEvent} (he : e.Replies (· = [])) {i : Slot}
    (hbefore : ¬s.Complete i) (hafter : (s.step env e).Complete i) : (s.step env e).Streamed base i := by
  rcases complete_checks htarget h he hbefore hafter with ⟨s₁, r₁, -, hcall, hres, hc, hown⟩
  have hleft := hcall.left
  have hbody := hcall.body_eq
  rw [hres] at hleft hbody
  have hc' := hc.compare env
  have hlen := hc'.flashed.length
  have hpost := hc'.flashed.postused_eq
  constructor
  case owner => rw [hleft.ota, (otaCompare_same env r₁).1.owner, hown]
  case beg => rw [hleft.ota]; exact hc'.flashed.beg
  case length =>
    rw [hbody, hleft.client, List.length_take]
    omega
  case flash => rw [hbody, hleft.client, hleft.dev]; exact hc'.flashed.flashed
  case hash1 => rw [hbody, hleft.ota]; exact hc'.hash1
  case hash2 => rw [hbody, hleft.ota]; exact hc'.hash2

/-! ## Displaced pushes -/

theorem otaPush_displaced (env : OtaEnv) {i : Slot} {r : OtaRun} (hpost : 0 < r.client.postused)
    (hown : r.ota.client ≠ some i) : otaPush env i r = (r, .rejected .multipleClient) := by
  rw [otaPush, if_neg (by omega)]
  dsimp only
  rw [if_pos hown]

/-- A displaced push stays displaced as long as the slot has the request. -/
theorem Displaced.step (htarget : env.target = some (base, limit)) (h : s.Inv env fun _ => Drained)
    {e : HttpEvent} (he : e.Replies (· = [])) {i : Slot} (hi : s.Displaced i)
    (hp : Pushing ((s.step env e).clients i)) : (s.step env e).Displaced i := by
  rcases step_cases drained_rule h e with ⟨-, hq⟩ | ⟨j, replies, s₁, -, hcall, hinv⟩
  · rcases hq.slots i with hk | hn
    · refine ⟨?_, hp.push, ?_, ?_⟩
      · rw [hk.state]; exact hi.state
      · rw [hk.postused]; exact hi.used
      · rw [hq.ota]; exact hi.owner
    · exact absurd hp hn
  have hrep := hcall.replies_nil he
  subst hrep
  have hleft := hcall.left
  rcases hcall.event with ⟨conn, data, outside, other, -, -, hd⟩
  rcases eq_or_ne i j with rfl | hne
  · -- its own segment is turned down
    rcases hd.more hi.pushing.state with ⟨hc, -⟩
    have hcallPush : s₁.callPush env i []
        = (⟨s₁.clients i, s₁.ota, { s₁.dev with replies := [] }⟩, .rejected .multipleClient) := by
      apply otaPush_displaced
      · rw [hc]; exact hi.used
      · rw [hd.ota]; exact hi.owner
    rw [hcallPush] at hleft
    refine ⟨?_, hp.push, ?_, ?_⟩
    · rw [hleft.client, hc]; exact hi.state
    · rw [hleft.client, hc]; exact hi.used
    · rw [hleft.ota, hd.ota]; exact hi.owner
  · -- a call for another slot can only make that slot the owner
    have hc := (hleft.others i hne).1
    refine ⟨?_, hp.push, ?_, ?_⟩
    · rw [hc]; exact hi.state
    · rw [hc]; exact hi.used
    have hij : ¬(some j = some i) := by
      intro heq
      cases heq
      exact hne rfl
    have hok := callPush_okCases htarget hinv hd.pushing
    rw [hleft.ota]
    generalize s₁.callPush env j [] = res at hok
    rcases hok with ⟨ota, err, hpost, hown, hwhy⟩ | ⟨hpost, hown⟩ | ⟨ota, res, hown, hmore, hdata⟩ |
      ⟨hpost, hown, hfl, hdn⟩
    · rw [hown]
      exact hij
    · rw [hd.ota]
      exact hi.owner
    · rcases hdata with ⟨r₁, hsame, -⟩ | ⟨r₁, hsame, -⟩
      · rw [hsame.owner, hown]
        exact hij
      · rw [(otaCompare_same env r₁).1.owner, hsame.owner, hown]
        exact hij
    · rw [(otaComplete_same env _).1.owner, hown]
      exact hij

/-- A segment of the push in slot `i` writes no flash, and gets the 400 page if the server takes it. -/
structure TurnedDown (s s' : Server) (i : Slot) (data : List UInt8) : Prop where
  ops : s'.dev.ops = s.dev.ops
  content : s'.dev.content = s.dev.content
  page : s.Running → (s.clients i).bufused + data.length ≤ 2048 →
    s'.sent = ((s.clients i).conn, response400) :: s.sent

theorem Displaced.turnedDown {i : Slot} (hi : s.Displaced i) {conn : ℕ} (hrev : s.reverse conn = some i)
    (data : List UInt8) (outside : Mem) (replies : List FlashReply) (other : OtherReply) :
    TurnedDown s (s.step env (.recv conn data outside replies other)) i data := by
  by_cases hrun : s.Running
  swap
  · have hstop : s.step env (.recv conn data outside replies other) = s := by
      rw [Server.step, if_pos]
      unfold Running at hrun
      rcases hc : s.crashed with _ | _
      · rcases hb : s.rebooting with _ | _
        · exact absurd ⟨hc, hb⟩ hrun
        · rfl
      · rfl
    rw [hstop]
    exact ⟨rfl, rfl, fun h => absurd h hrun⟩
  by_cases hroom : (s.clients i).bufused + data.length ≤ 2048
  swap
  · have hkill : s.step env (.recv conn data outside replies other) = s.post conn := by
      rw [Server.step, hrun.1, hrun.2]
      show s.recvCb env conn data outside replies other = _
      rw [recvCb, hrev]
      dsimp only
      rw [if_pos (Nat.not_le.mp hroom)]
    rcases post_eq s conn with ⟨queue, hq⟩
    rw [hkill, hq]
    exact ⟨rfl, rfl, fun _ h => absurd h hroom⟩
  rcases step_recv_pushing env hrun hrev hi.pushing hroom outside replies other with ⟨queue, hq⟩
  have hci : (s.take i data).clients i = extend (s.clients i) data := by simp [take, setClient]
  -- `http_url_ota_push` sees another client in its static pointer
  have hcallPush : (s.take i data).callPush env i replies
      = (⟨(s.take i data).clients i, s.ota, { s.dev with replies }⟩, .rejected .multipleClient) := by
    apply otaPush_displaced
    · rw [hci]; exact hi.used
    · exact hi.owner
  have hpush : (s.take i data).pushUrl env i replies
      = ((commit (s.take i data) i ⟨(s.take i data).clients i, s.ota, { s.dev with replies }⟩).send
          ((s.take i data).clients i).conn (some response400), true) := by
    rw [pushUrl, hcallPush]
    rfl
  rw [hq, hpush]
  refine ⟨rfl, rfl, fun _ _ => ?_⟩
  rw [hci]
  rfl

/-! ## No byte is lost -/

theorem Awaiting.empty (h : s.Inv env fun _ => Drained) (hf : s.Fresh limit) {i : Slot} (hi : s.Awaiting limit i) : (s.clients i).bufused = 0 := by
  rcases Nat.eq_zero_or_pos (s.clients i).postused with hzero | hpos
  · exact hf i hi hzero
  · have hown : s.ota.client = some i := by
      rcases hi.mine with hzero | hown
      · omega
      · exact hown
    rcases h.upload i ⟨hown, hi.pushing.state, hi.push, hpos⟩ with ⟨base, limit', -, hd⟩
    exact hd.2 hi.more

/-- A push that is not complete has not received its body yet. -/
theorem Awaiting.short (h : s.Inv env fun _ => Drained) (hf : s.Fresh limit) {i : Slot}
    (hi : s.Awaiting limit i) : (s.stream i).length < (s.clients i).postlen := by
  have hempty := hi.empty h hf
  have hlen := ((h.client i).pending hi.pushing.state).2
  have hmore := hi.more
  omega

/-- A segment for a push that is not complete continues its stream. -/
theorem Awaiting.taken (h : s.Inv env fun _ => Drained) (hf : s.Fresh limit) {i : Slot} (hi : s.Awaiting limit i)
    (hrun : s.Running) {conn : ℕ} (hrev : s.reverse conn = some i) {data : List UInt8} (hdata : data.length ≤ 2048) (outside : Mem)
    (replies : List FlashReply) (other : OtherReply) :
    (s.step env (.recv conn data outside replies other)).stream i = s.stream i ++ data := by
  have hroom : (s.clients i).bufused + data.length ≤ 2048 := by
    rw [hi.empty h hf]
    omega
  rcases step_recv_pushing env hrun hrev hi.pushing hroom outside replies other with ⟨queue, hq⟩
  rw [hq]
  dsimp only
  rw [(pushUrl_frame env (s.take i data) i replies).2.2.2, take]
  dsimp only
  rw [if_neg hi.pushing.state, Function.update_self]

/-- The segment that brings the last announced byte of a push. -/
theorem Awaiting.checks (htarget : env.target = some (base, limit)) (h : s.Inv env fun _ => Drained)
    (hf : s.Fresh limit) {i : Slot} (hi : s.Awaiting limit i) {data : List UInt8}
    (hdata : data.length ≤ 2048) (hfull : (s.clients i).postlen ≤ (s.stream i ++ data).length) :
    ∃ r₁, (s.take i data).callPush env i [] = otaCompare env r₁ ∧
      Checked base limit (s.stream i ++ data) r₁ ∧ r₁.ota.client = some i ∧
      SameRequest ⟨s.clients i, r₁.ota, s.dev⟩ r₁ := by
  have hempty := hi.empty h hf
  have hroom : (s.clients i).bufused + data.length ≤ 2048 := by omega
  have hci : (s.take i data).clients i = extend (s.clients i) data := by simp [take, setClient]
  have hst : (s.take i data).stream i = s.stream i ++ data := by
    rw [take]
    dsimp only
    rw [if_neg hi.pushing.state, Function.update_self]
  have hp : Pushing ((s.take i data).clients i) := by
    rw [hci]
    exact ⟨hi.pushing.state, (onPush_congr rfl).mpr hi.push⟩
  have hok := callPush_okCases htarget (h.take drained_rule hroom) hp
  rw [hci, hst] at hok
  generalize (s.take i data).callPush env i [] = res at hok
  have hmore := hi.more
  rcases hok with ⟨ota, err, hpost, hown, hwhy⟩ | ⟨hpost, hown⟩ | ⟨ota, res, hown, -, hd⟩ |
    ⟨hpost, hown, hfl, hdn⟩
  · rcases hwhy with hwhy | hwhy
    · exact absurd hi.state hwhy
    · exact absurd hi.fits (Nat.not_le.mpr hwhy)
  · rcases hi.mine with hzero | howner
    · exact absurd hzero (Nat.pos_iff_ne_zero.mp hpost)
    · exact absurd howner hown
  · rcases hd with ⟨r₁, hsame, hlt, hbuf, n, hup⟩ | ⟨r₁, hsame, hc⟩
    · -- with all bytes received the call does not wait for more
      have hlen := hup.length
      have hpl : r₁.client.postlen = (s.clients i).postlen := hsame.postlen
      omega
    · exact ⟨r₁, rfl, hc, by rw [hsame.owner]; exact hown,
        ⟨hsame.postlen, hsame.state, hsame.conn, hsame.inuse, hsame.url, hsame.host, rfl⟩⟩
  · have hend : (s.clients i).postused = (s.clients i).postlen := hfl.postused_eq
    omega

theorem Awaiting.not_complete {i : Slot} (hi : s.Awaiting limit i) : ¬s.Complete i := by
  intro h
  have hall := h.all
  have hmore := hi.more
  omega

/-- That segment completes the push. -/
theorem Awaiting.completes (htarget : env.target = some (base, limit)) (h : s.Inv env fun _ => Drained)
    (hf : s.Fresh limit) {i : Slot} (hi : s.Awaiting limit i) (hrun : s.Running) {conn : ℕ}
    (hrev : s.reverse conn = some i) {data : List UInt8} (hdata : data.length ≤ 2048)
    (hfull : (s.clients i).postlen ≤ (s.stream i ++ data).length) (outside : Mem) (other : OtherReply) :
    let s' := s.step env (.recv conn data outside [] other)
    s'.Complete i ∧ (s'.clients i).url = (s.clients i).url ∧
      s'.body i = (s.stream i ++ data).take (s.clients i).postlen := by
  intro s'
  have hroom : (s.clients i).bufused + data.length ≤ 2048 := by
    rw [hi.empty h hf]
    omega
  have hstream : s'.stream i = s.stream i ++ data := hi.taken h hf hrun hrev hdata outside [] other
  rcases hi.checks htarget h hf hdata hfull with ⟨r₁, hres, hc, -, hsame⟩
  rcases step_recv_pushing env hrun hrev hi.pushing hroom outside [] other with ⟨queue, hq⟩
  have hclient : s'.clients i = r₁.client := by
    show (s.step env (.recv conn data outside [] other)).clients i = _
    rw [hq]
    dsimp only
    rw [(pushUrl_frame env (s.take i data) i []).1, Function.update_self, hres,
      (otaCompare_same env r₁).1.client]
  have hurl : (s'.clients i).url = (s.clients i).url := by
    rw [hclient]
    exact hsame.url
  have hpostlen : (s'.clients i).postlen = (s.clients i).postlen := by
    rw [hclient]
    exact hsame.postlen
  refine ⟨⟨?_, (onPush_congr hurl).mpr hi.push, ?_⟩, hurl, ?_⟩
  · rw [hclient]
    exact hsame.state.trans hi.state
  · rw [hclient]
    exact hc.flashed.postused_eq
  · rw [body, hstream, hpostlen]

/-! ## The result -/

/-- In every run in which the flash calls succeed: when the last announced byte of a push is taken,
its body is in flash byte for byte and both hashes are the body's digest; the segments of a
displaced push write no flash and get the 400 page, for as long as the slot has the request; and
any other push that fits is complete once its stream has the announced length, and no segment
of it is lost before. -/
theorem ota_streaming_correct (env : OtaEnv) {base limit : ℕ}
    (htarget : env.target = some (base, limit)) (content : ℕ → UInt8) (es : List HttpEvent)
    (hes : ∀ e ∈ es, e.Replies (· = [])) (e : HttpEvent) (he : e.Replies (· = [])) :
    let s := Server.run env content es
    let s' := s.step env e
    (∀ i, ¬s.Complete i → s'.Complete i → s'.Streamed base i) ∧
      (∀ i, s.Displaced i → (Pushing (s'.clients i) → s'.Displaced i) ∧
        ∀ conn data outside replies other, e = .recv conn data outside replies other →
          s.reverse conn = some i → TurnedDown s s' i data) ∧
      ∀ i, s.Awaiting limit i → (s.stream i).length < (s.clients i).postlen ∧ (s.Running →
        ∀ conn data outside replies other, e = .recv conn data outside replies other →
          s.reverse conn = some i → data.length ≤ 2048 → s'.stream i = s.stream i ++ data) := by
  intro s s'
  rcases run_settled htarget content hes with ⟨hinv, hfresh⟩
  refine ⟨?_, ?_, ?_⟩
  · intro i hbefore hafter
    exact streamed_of_complete htarget hinv he hbefore hafter
  · intro i hi
    refine ⟨fun hp => hi.step htarget hinv he hp, ?_⟩
    intro conn data outside replies other heq hrev
    show TurnedDown s (s.step env e) i data
    rw [heq]
    exact hi.turnedDown hrev data outside replies other
  · intro i hi
    refine ⟨hi.short hinv hfresh, ?_⟩
    intro hrun conn data outside replies other heq hrev hdata
    show (s.step env e).stream i = _
    rw [heq]
    exact hi.taken hinv hfresh hrun hrev hdata outside replies other

/-- The push of four bytes: they are in flash, and both hashes are theirs. -/
theorem ota_streaming_correct_push :
    let s := Server.run smallChip (fun _ => 0) [.connect 7 true]
    let s' := s.step smallChip unsignedSegment
    ¬s.Complete 0 ∧ s'.Complete 0 ∧ s'.body 0 = ascii "boot" ∧ s'.Streamed 266240 0 := by
  intro s s'
  have hbefore : ¬s.Complete 0 := by
    intro h
    have hst := h.state
    revert hst
    decide
  have hrun : s' = Server.run smallChip (fun _ => 0) unsignedPush :=
    (run_concat smallChip _ [.connect 7 true] unsignedSegment).symm
  have htarget : smallChip.target = some (266240, 241664) := by decide
  have hstreamed : s'.Complete 0 → s'.Streamed 266240 0 :=
    (ota_streaming_correct smallChip htarget (fun _ => 0) [.connect 7 true]
      (by simp [HttpEvent.Replies]) unsignedSegment rfl).1 0 hbefore
  rcases unsignedPush_flashed with ⟨-, hstate, hpush, hused, hlen, hstream⟩
  have hafter := Complete.mk hstate hpush (hused.trans hlen.symm)
  have hbody : (Server.run smallChip (fun _ => 0) unsignedPush).body 0 = ascii "boot" := by
    rw [body, hstream, hlen]
    rfl
  rw [← hrun] at hafter hbody
  exact ⟨hbefore, hafter, hbody, hstreamed hafter⟩

end Server
end Esp8266Toolbox
