import Esp8266Toolbox.Http.ServerTheorems

/-!
# What one callback can do

A callback either makes no call of `http_url_ota_push` and then does not touch anything the
update depends on (`Quiet`), or it delivers a segment to one slot and is that call (`Calls`).
`step_cases` says so once for all events; the results about whole runs are case splits on it.
-/

namespace Esp8266Toolbox

/-- The header section of the request is complete, and it is for `http_url_ota_push`. -/
structure Pushing (c : HttpClient) : Prop where
  state : c.state ≠ .headers
  push : OnPush c

namespace Server

/-- Slot `j` has the same request, with the same bytes received and taken. -/
structure KeptSlot (s s' : Server) (j : Slot) : Prop where
  state : (s'.clients j).state = (s.clients j).state
  url : (s'.clients j).url = (s.clients j).url
  bufused : (s'.clients j).bufused = (s.clients j).bufused
  postused : (s'.clients j).postused = (s.clients j).postused
  postlen : (s'.clients j).postlen = (s.clients j).postlen
  stream : s'.stream j = s.stream j

theorem KeptSlot.of_eq {s s' : Server} {j : Slot} (hc : s'.clients j = s.clients j)
    (hs : s'.stream j = s.stream j) : KeptSlot s s' j := by
  refine ⟨?_, ?_, ?_, ?_, ?_, hs⟩ <;> rw [hc]

/-- A callback that does not call `http_url_ota_push`. -/
structure Quiet (env : OtaEnv) (s s' : Server) : Prop where
  ota : s'.ota = s.ota
  ops : s'.dev.ops = s.dev.ops
  content : ∀ {base limit}, env.target = some (base, limit) →
    ∀ a, base ≤ a → a < base + limit → s'.dev.content a = s.dev.content a
  finish : s'.finish = s.finish
  image : s'.image = s.image
  slots : ∀ j, KeptSlot s s' j ∨ ¬Pushing (s'.clients j)

/-- The server `s₁` is `s` with one more segment in slot `i`, just before `http_url_ota_push` is
called for it. -/
structure Delivered (s : Server) (i : Slot) (data : List UInt8) (s₁ : Server) : Prop where
  ota : s₁.ota = s.ota
  dev : s₁.dev = s.dev
  finish : s₁.finish = s.finish
  image : s₁.image = s.image
  sent : s₁.sent = s.sent
  others : ∀ j, j ≠ i → s₁.clients j = s.clients j ∧ s₁.stream j = s.stream j
  pushing : Pushing (s₁.clients i)
  entered : (s.clients i).state = .headers → (s₁.clients i).postused = 0
  room : (s.clients i).bufused + data.length ≤ 2048
  more : (s.clients i).state ≠ .headers →
    s₁.clients i = extend (s.clients i) data ∧ s₁.stream i = s.stream i ++ data

/-- The state in which `http_process` looks up the url of slot `i`; `none` if it does not get there. -/
def ready (s : Server) (i : Slot) (outside : Mem) : Option Server :=
  if (s.clients i).state = .headers then
    match httpHeaders outside (s.clients i) with
    | .ok (client, .complete) => some (s.enter i client)
    | _ => none
  else some s

/-- The call of `http_url_ota_push` that a callback makes, if it makes one: the slot, and the state
in which it is called. -/
def pushCall (s : Server) (e : HttpEvent) : Option (Slot × Server) :=
  if s.crashed || s.rebooting then none
  else
    match e with
    | .recv conn data outside _ _ =>
      match s.reverse conn with
      | none => none
      | some i =>
        if (s.clients i).bufused + data.length > 2048 then none
        else
          match (s.take i data).ready i outside with
          | none => none
          | some s₁ =>
            if httpDispatch (s₁.clients i) = .ok (some .otaPush) then some (i, s₁) else none
    | _ => none

/-- The event `e` is a segment for slot `i`, and `http_url_ota_push` is called for it in `s₁`. -/
structure Calls (env : OtaEnv) (s : Server) (e : HttpEvent) (i : Slot) (replies : List FlashReply)
    (s₁ : Server) : Prop where
  event : ∃ conn data outside other, e = .recv conn data outside replies other ∧
    s.reverse conn = some i ∧ Delivered s i data s₁
  result : ∃ queue, s.step env e = { (s₁.pushUrl env i replies).1 with queue }

variable {env : OtaEnv} {s s' : Server} {P : List FlashReply → Prop} {U V : Upload}

theorem post_eq (s : Server) (conn : ℕ) : ∃ queue, s.post conn = { s with queue } := by
  rw [post]
  split
  · exact ⟨_, rfl⟩
  · exact ⟨s.queue, rfl⟩

theorem Quiet.refl (env : OtaEnv) (s : Server) : Quiet env s s :=
  ⟨rfl, rfl, fun _ _ _ _ => rfl, rfl, rfl, fun _ => Or.inl (KeptSlot.of_eq rfl rfl)⟩

/-- A callback that only works on a slot that has no push request. -/
theorem Quiet.of_slot (i : Slot) (hota : s'.ota = s.ota) (hdev : s'.dev = s.dev)
    (hfinish : s'.finish = s.finish) (himage : s'.image = s.image)
    (hothers : ∀ j, j ≠ i → s'.clients j = s.clients j ∧ s'.stream j = s.stream j)
    (hi : ¬Pushing (s'.clients i)) : Quiet env s s' := by
  refine ⟨hota, by rw [hdev], fun _ _ _ _ => by rw [hdev], hfinish, himage, ?_⟩
  intro j
  rcases eq_or_ne j i with rfl | hne
  · exact Or.inr hi
  · rcases hothers j hne with ⟨hc, hs⟩
    exact Or.inl (KeptSlot.of_eq hc hs)

/-- The queue of kill tasks does not matter. -/
theorem Quiet.queue (h : Quiet env s s') (queue : List ℕ) : Quiet env s { s' with queue } :=
  ⟨h.ota, h.ops, h.content, h.finish, h.image, fun j => (h.slots j).imp
    (fun k => ⟨k.state, k.url, k.bufused, k.postused, k.postlen, k.stream⟩) fun k => k⟩

theorem Quiet.post (h : Quiet env s s') (conn : ℕ) : Quiet env s (s'.post conn) := by
  rcases post_eq s' conn with ⟨queue, hq⟩
  rw [hq]
  exact h.queue queue

/-! ## The callbacks without a segment -/

theorem connCb_quiet (env : OtaEnv) (s : Server) (conn : ℕ) (registered : Bool) :
    Quiet env s (s.connCb conn registered) := by
  have h0 : Quiet env s { s with reverse := Function.update s.reverse conn none } :=
    ⟨rfl, rfl, fun _ _ _ _ => rfl, rfl, rfl, fun _ => Or.inl (KeptSlot.of_eq rfl rfl)⟩
  rw [connCb]
  cases registered with
  | false => exact h0.post conn
  | true =>
    dsimp only
    rw [if_pos rfl]
    split
    · exact h0.post conn
    · rename_i i _
      refine Quiet.of_slot i rfl rfl rfl rfl ?_ ?_
      · intro j hne
        simp [Function.update_of_ne hne]
      · -- the slot starts with an empty header section
        intro hp
        apply hp.state
        simp [HttpClient.zero]

theorem disconnCb_quiet (env : OtaEnv) (s : Server) (conn : ℕ) : Quiet env s (s.disconnCb conn) := by
  rw [disconnCb]
  rcases s.reverse conn with _ | i
  · exact Quiet.refl env s
  · refine ⟨rfl, rfl, fun _ _ _ _ => rfl, rfl, rfl, fun j => Or.inl ?_⟩
    rcases eq_or_ne j i with rfl | hne
    · refine ⟨?_, ?_, ?_, ?_, ?_, rfl⟩ <;> simp [setClient]
    · refine KeptSlot.of_eq ?_ rfl
      simp [setClient, Function.update_of_ne hne]

theorem paramStore_quiet (env : OtaEnv) (s : Server) (left : ℕ → UInt8) :
    Quiet env s (s.paramStore env left) := by
  have hcontent := fun {base limit} (htarget : env.target = some (base, limit)) a =>
    paramStore_content (s := s) htarget left (a := a)
  rcases paramStore_frame env s left with ⟨content, heq⟩
  rw [heq] at hcontent ⊢
  exact ⟨rfl, rfl, hcontent, rfl, rfl, fun _ => Or.inl (KeptSlot.of_eq rfl rfl)⟩

/-! ## A segment -/

/-- The second half of `http_process` is a call of `http_url_ota_push`, or it works on a slot that
has no push request. -/
theorem handle_cases (env : OtaEnv) {i : Slot} (hi : ClientInv (s.clients i) (s.stream i))
    (hstate : (s.clients i).state ≠ .headers) (replies : List FlashReply) (other : OtherReply) :
    (OnPush (s.clients i) ∧ s.handle env i replies other = s.pushUrl env i replies) ∨
      (¬OnPush (s.clients i) ∧ (s.handle env i replies other).1.ota = s.ota ∧ (s.handle env i replies other).1.dev = s.dev ∧
        (s.handle env i replies other).1.finish = s.finish ∧
        (s.handle env i replies other).1.image = s.image ∧
        (∀ j, j ≠ i → (s.handle env i replies other).1.clients j = s.clients j) ∧
        (s.handle env i replies other).1.stream = s.stream ∧
        ¬OnPush ((s.handle env i replies other).1.clients i)) := by
  rw [handle]
  rcases hdisp : httpDispatch (s.clients i) with _ | _ | url
  · right
    have hn : ¬OnPush (s.clients i) := by
      unfold OnPush
      rw [hdisp]
      simp
    exact ⟨hn, rfl, rfl, rfl, rfl, fun _ _ => rfl, rfl, hn⟩
  · right
    have hn : ¬OnPush (s.clients i) := by
      unfold OnPush
      rw [hdisp]
      simp
    exact ⟨hn, rfl, rfl, rfl, rfl, fun _ _ => rfl, rfl, hn⟩
  · dsimp only
    split
    · rename_i hurl
      subst hurl
      exact Or.inl ⟨hdisp, rfl⟩
    · rename_i hurl
      right
      have hd := (otherUrl_spec hi hstate other).2
      -- sending the page leaves everything but `sent` as it is
      have hsend : ∀ (t : Server) (page : Option String) (conn : Option ℕ),
          (t.send conn page).ota = t.ota ∧ (t.send conn page).dev = t.dev ∧
          (t.send conn page).finish = t.finish ∧ (t.send conn page).image = t.image ∧
          (t.send conn page).clients = t.clients ∧ (t.send conn page).stream = t.stream := by
        intro t page conn
        rcases page with _ | page <;> exact ⟨rfl, rfl, rfl, rfl, rfl, rfl⟩
      rcases hsend (s.setClient i (otherUrl other (s.clients i)).1) (otherUrl other (s.clients i)).2.page
        (otherUrl other (s.clients i)).1.conn with ⟨h1, h2, h3, h4, h5, h6⟩
      have hn : ¬OnPush (s.clients i) := by
        unfold OnPush
        rw [hdisp]
        simpa using hurl
      refine ⟨hn, h1, h2, h3, h4, ?_, h6, ?_⟩
      · intro j hne
        rw [h5]
        simp [setClient, Function.update_of_ne hne]
      · rw [h5]
        unfold OnPush at hn ⊢
        simp only [setClient, Function.update_self]
        rw [hd]
        exact hn

/-- The other slots while slot `i` takes a segment. -/
theorem take_others {i j : Slot} (hne : j ≠ i) (data : List UInt8) :
    (s.take i data).clients j = s.clients j ∧ (s.take i data).stream j = s.stream j := by
  rw [take]
  dsimp only [setClient]
  refine ⟨Function.update_of_ne hne _ _, ?_⟩
  split
  · rfl
  · exact Function.update_of_ne hne _ _

/-- The handler of slot `i`, in the state in which it is looked up. -/
theorem handle_delivered (env : OtaEnv) {i : Slot} {data : List UInt8}
    (hroom : (s.clients i).bufused + data.length ≤ 2048) (s₁ : Server) (hota : s₁.ota = s.ota)
    (hdev : s₁.dev = s.dev) (hfinish : s₁.finish = s.finish) (himage : s₁.image = s.image)
    (hsent : s₁.sent = s.sent)
    (hothers : ∀ j, j ≠ i → s₁.clients j = s.clients j ∧ s₁.stream j = s.stream j)
    (hstate : (s₁.clients i).state ≠ .headers)
    (hentered : (s.clients i).state = .headers → (s₁.clients i).postused = 0)
    (hmore : (s.clients i).state ≠ .headers →
      s₁.clients i = extend (s.clients i) data ∧ s₁.stream i = s.stream i ++ data)
    (hi : ClientInv (s₁.clients i) (s₁.stream i)) (replies : List FlashReply) (other : OtherReply) :
    (¬OnPush (s₁.clients i) ∧ Quiet env s (s₁.handle env i replies other).1) ∨
      (OnPush (s₁.clients i) ∧ Delivered s i data s₁ ∧
        s₁.handle env i replies other = s₁.pushUrl env i replies) := by
  rcases handle_cases env hi hstate replies other with ⟨hp, heq⟩ | ⟨hn, e1, e2, e3, e4, e5, e6, e7⟩
  · exact Or.inr ⟨hp, ⟨hota, hdev, hfinish, himage, hsent, hothers, ⟨hstate, hp⟩, hentered, hroom,
      hmore⟩, heq⟩
  · refine Or.inl ⟨hn, Quiet.of_slot i (e1.trans hota) (e2.trans hdev) (e3.trans hfinish)
      (e4.trans himage) ?_ ?_⟩
    · intro j hne
      rw [e5 j hne, e6]
      exact hothers j hne
    · intro hp
      exact e7 hp.push

/-- What a segment leads to, from `http_process` on: no push request and a quiet callback, or a
call of `http_url_ota_push` on a server whose slots satisfy `W`. -/
def ProcessCase (env : OtaEnv) (W : Slot → Upload) (s : Server) (i : Slot) (data : List UInt8)
    (outside : Mem) (replies : List FlashReply) (other : OtherReply) : Prop :=
  ((∀ s₁, (s.take i data).ready i outside = some s₁ → ¬OnPush (s₁.clients i)) ∧
      Quiet env s ((s.take i data).process env i outside replies other).1) ∨
    ∃ s₁, (s.take i data).ready i outside = some s₁ ∧ OnPush (s₁.clients i) ∧ Delivered s i data s₁ ∧
      s₁.Inv env W ∧
      (s.take i data).process env i outside replies other = s₁.pushUrl env i replies

/-- The handler runs on `s₁`, whether the header section was complete before or is now. -/
theorem ProcessCase.of_handle {i : Slot} {data : List UInt8} {outside : Mem}
    {replies : List FlashReply} {other : OtherReply} {s₁ : Server}
    (hready : (s.take i data).ready i outside = some s₁)
    (hprocess : (s.take i data).process env i outside replies other = s₁.handle env i replies other)
    (hinv : s₁.Inv env W)
    (hcases : (¬OnPush (s₁.clients i) ∧ Quiet env s (s₁.handle env i replies other).1) ∨
      (OnPush (s₁.clients i) ∧ Delivered s i data s₁ ∧
        s₁.handle env i replies other = s₁.pushUrl env i replies)) :
    ProcessCase env W s i data outside replies other := by
  unfold ProcessCase
  rw [hprocess]
  rcases hcases with ⟨hn, hq⟩ | ⟨hp, hd, heq⟩
  · refine Or.inl ⟨?_, hq⟩
    intro s₂ hs₂
    rw [hready, Option.some.injEq] at hs₂
    rw [← hs₂]
    exact hn
  · exact Or.inr ⟨s₁, hready, hp, hd, hinv, heq⟩

/-- The slot that has taken the segment. -/
theorem take_self (s : Server) (i : Slot) (data : List UInt8) :
    (s.take i data).clients i = extend (s.clients i) data := by
  simp [take, setClient]

/-- A client whose header section stays open is no push request. -/
theorem take_setClient_quiet (env : OtaEnv) (s : Server) (i : Slot) (data : List UInt8)
    {c : HttpClient} (hc : c.state = .headers) : Quiet env s ((s.take i data).setClient i c) := by
  refine Quiet.of_slot i rfl rfl rfl rfl ?_ ?_
  · intro j hne
    rw [setClient]
    dsimp only
    rw [Function.update_of_ne hne]
    exact take_others hne data
  · intro hp
    apply hp.state
    simpa [setClient] using hc

/-- A segment of a header section, which is parsed again. -/
theorem process_headers (hr : UploadRule P U V) (h : s.Inv env fun _ => U) {i : Slot} {data : List UInt8}
    (hroom : (s.clients i).bufused + data.length ≤ 2048) (hh : (s.clients i).state = .headers)
    (outside : Mem) (replies : List FlashReply) (other : OtherReply) :
    ProcessCase env (during U V i) s i data outside replies other := by
  have htake := h.take hr hroom
  have hothers := fun j (hne : j ≠ i) => take_others (s := s) hne data
  have hst : ((s.take i data).clients i).state = .headers := by rw [take_self]; exact hh
  rcases hp : httpHeaders outside ((s.take i data).clients i) with fault | ⟨c, r⟩
  · left
    rw [ready, process, if_pos hst, if_pos hst, hp]
    refine ⟨by simp, Quiet.of_slot i rfl rfl rfl rfl hothers ?_⟩
    intro hp
    exact hp.state hst
  rcases httpHeaders_spec hp with ⟨-, -, hpost, hbuf, hcomplete, hkeep⟩
  rcases r with _ | w | _
  · left
    rw [ready, process, if_pos hst, if_pos hst, hp]
    exact ⟨by simp, take_setClient_quiet env s i data ((hkeep (by simp)).trans hst)⟩
  · left
    rw [ready, process, if_pos hst, if_pos hst, hp]
    exact ⟨by simp, take_setClient_quiet env s i data ((hkeep (by simp)).trans hst)⟩
  · -- the header section is complete, and what is left in the buffer is the start of the body
    have hzero : c.postused = 0 := hpost.trans ((htake.client i).headers hst)
    have hci' : ((s.take i data).enter i c).clients i = c := by simp [enter, setClient]
    have hc : ClientInv c (pendingBytes c) := by
      refine ⟨le_trans hbuf (htake.client i).bufused_le, by omega,
        fun hne => absurd hne (hcomplete rfl), fun _ => ⟨?_, ?_⟩⟩
      · rw [hzero, List.drop_zero]
      · have := (htake.client i).bufused_le
        rw [hzero, pendingBytes, List.length_take, Buf.length_toList]
        omega
    have hinv : ((s.take i data).enter i c).Inv env (during U V i) := by
      refine (htake.update i (fun _ _ => rfl) hc fun _ _ _ hu => ?_).congr rfl rfl rfl rfl
      omega
    refine ProcessCase.of_handle ?_ ?_ hinv ?_
    · rw [ready, if_pos hst, hp]
    · rw [process, if_pos hst, hp]
    · refine handle_delivered env hroom ((s.take i data).enter i c) rfl rfl rfl rfl rfl ?_ ?_ ?_ ?_ ?_ replies other
      · intro j hne
        rw [enter, setClient]
        dsimp only
        rw [Function.update_of_ne hne, Function.update_of_ne hne]
        exact hothers j hne
      · rw [hci']
        exact hcomplete rfl
      · intro _
        rw [hci']
        exact hzero
      · intro hne
        exact absurd hh hne
      · exact hinv.client i

/-- A segment behind the header section, which goes to the handler at once. -/
theorem process_body (hr : UploadRule P U V) (h : s.Inv env fun _ => U) {i : Slot} {data : List UInt8}
    (hroom : (s.clients i).bufused + data.length ≤ 2048) (hh : (s.clients i).state ≠ .headers)
    (outside : Mem) (replies : List FlashReply) (other : OtherReply) :
    ProcessCase env (during U V i) s i data outside replies other := by
  have htake := h.take hr hroom
  have hst : ((s.take i data).clients i).state ≠ .headers := by rw [take_self]; exact hh
  refine ProcessCase.of_handle ?_ ?_ htake ?_
  · rw [ready, if_neg hst]
  · rw [process, if_neg hst]
  · refine handle_delivered env hroom (s.take i data) rfl rfl rfl rfl rfl
      (fun j hne => take_others hne data) hst ?_ ?_ ?_ replies other
    · intro hne
      exact absurd hne hh
    · intro _
      refine ⟨take_self s i data, ?_⟩
      rw [take]
      dsimp only
      rw [if_neg hh, Function.update_self]
    · exact htake.client i

/-- A segment, from `http_process` on: a call of `http_url_ota_push`, or no push request. -/
theorem process_cases (hr : UploadRule P U V) (h : s.Inv env fun _ => U) {i : Slot} {data : List UInt8}
    (hroom : (s.clients i).bufused + data.length ≤ 2048) (outside : Mem)
    (replies : List FlashReply) (other : OtherReply) :
    ProcessCase env (during U V i) s i data outside replies other := by
  by_cases hh : (s.clients i).state = .headers
  · exact process_headers hr h hroom hh outside replies other
  · exact process_body hr h hroom hh outside replies other

/-- What a call of `http_url_ota_push` leaves, as far as the update is concerned. -/
theorem pushUrl_frame (env : OtaEnv) (s : Server) (i : Slot) (replies : List FlashReply) :
    (s.pushUrl env i replies).1.clients
        = Function.update s.clients i (s.callPush env i replies).1.client ∧
      (s.pushUrl env i replies).1.ota = (s.callPush env i replies).1.ota ∧
      (s.pushUrl env i replies).1.dev = (s.callPush env i replies).1.dev ∧
      (s.pushUrl env i replies).1.stream = s.stream := by
  rw [pushUrl]
  rcases s.callPush env i replies with ⟨r, _ | _ | e | _⟩ <;> exact ⟨rfl, rfl, rfl, rfl⟩

/-- What a callback that calls `http_url_ota_push` leaves. -/
structure Left (s s₁ s' : Server) (i : Slot) (r : OtaRun) : Prop where
  client : s'.clients i = r.client
  ota : s'.ota = r.ota
  dev : s'.dev = r.dev
  stream : s'.stream i = s₁.stream i
  others : ∀ j, j ≠ i → s'.clients j = s.clients j ∧ s'.stream j = s.stream j

theorem Calls.left {e : HttpEvent} {i : Slot} {replies : List FlashReply} {s₁ : Server}
    (h : Calls env s e i replies s₁) :
    Left s s₁ (s.step env e) i (s₁.callPush env i replies).1 := by
  rcases h.event with ⟨conn, data, outside, other, -, -, hd⟩
  rcases h.result with ⟨queue, hq⟩
  rcases pushUrl_frame env s₁ i replies with ⟨hc, ho, hdev, hs⟩
  rw [hq]
  refine ⟨?_, ho, hdev, ?_, ?_⟩
  · dsimp only
    rw [hc, Function.update_self]
  · dsimp only
    rw [hs]
  · intro j hne
    dsimp only
    rw [hc, hs, Function.update_of_ne hne]
    exact hd.others j hne

/-- What the 202 path leaves. -/
structure Accepted (s s' : Server) (i : Slot) : Prop where
  finish : s'.finish = true
  armed : s'.armed = true
  image : s'.image = some (s'.ota.newaddrBeg, (s'.stream i).take (s'.clients i).postlen)
  sent : s'.sent = ((s'.clients i).conn, response202) :: s.sent

theorem Calls.accepted {e : HttpEvent} {i : Slot} {replies : List FlashReply} {s₁ : Server}
    (h : Calls env s e i replies s₁) (hacc : (s₁.callPush env i replies).2 = .accepted) :
    Accepted s (s.step env e) i := by
  rcases h.event with ⟨conn, data, outside, other, -, -, hd⟩
  rcases h.result with ⟨queue, hq⟩
  have hpush : (s₁.pushUrl env i replies).1
      = ((s₁.commit i (s₁.callPush env i replies).1).send (s₁.callPush env i replies).1.client.conn
          (some response202)).accept i := by
    rw [pushUrl]
    generalize s₁.callPush env i replies = res at hacc
    rcases res with ⟨r, _ | _ | err | _⟩
    · cases hacc
    · rfl
    · cases hacc
    · cases hacc
  rw [hq, hpush]
  refine ⟨rfl, rfl, rfl, ?_⟩
  show ((s₁.callPush env i replies).1.client.conn, response202) :: s₁.sent = _
  rw [hd.sent]
  simp [accept, send, commit, setClient]

/-- `recv_cb` is quiet, or it delivers its segment and calls `http_url_ota_push`. -/
theorem recv_cases (hr : UploadRule P U V) (h : s.Inv env fun _ => U)
    (hs : (s.crashed || s.rebooting) = false) (conn : ℕ) (data : List UInt8) (outside : Mem)
    (replies : List FlashReply) (other : OtherReply) :
    let e := HttpEvent.recv conn data outside replies other
    (s.pushCall e = none ∧ Quiet env s (s.step env e)) ∨
      ∃ i replies s₁, s.pushCall e = some (i, s₁) ∧ Calls env s e i replies s₁ ∧
        s₁.Inv env (during U V i) := by
  intro e
  have hstep : s.step env (.recv conn data outside replies other)
      = s.recvCb env conn data outside replies other := by
    rw [step, hs]
    rfl
  rcases hrev : s.reverse conn with _ | i
  · left
    -- no slot is linked to the connection, and it is posted for disconnection
    rw [hstep, recvCb, pushCall, hs, hrev]
    exact ⟨rfl, (Quiet.refl env s).post conn⟩
  by_cases hroom : (s.clients i).bufused + data.length > 2048
  · left
    rw [hstep, recvCb, pushCall, hs, hrev]
    -- the segment does not fit the buffer
    dsimp only
    rw [if_pos hroom, if_pos hroom]
    exact ⟨rfl, (Quiet.refl env s).post conn⟩
  -- what comes after `http_process` only posts the connection
  have heq : ∃ queue, s.step env (.recv conn data outside replies other)
      = { ((s.take i data).process env i outside replies other).1 with queue } := by
    rw [hstep, recvCb, hrev]
    dsimp only
    rw [if_neg hroom]
    rcases (s.take i data).process env i outside replies other with ⟨s', _ | _⟩
    · exact ⟨s'.queue, rfl⟩
    · exact post_eq s' conn
  have hcall : s.pushCall (.recv conn data outside replies other)
      = match (s.take i data).ready i outside with
        | none => none
        | some s₁ =>
          if httpDispatch (s₁.clients i) = .ok (some .otaPush) then some (i, s₁) else none := by
    rw [pushCall, hs, hrev]
    dsimp only
    rw [if_neg hroom]
    rfl
  rcases heq with ⟨queue, hq⟩
  rcases process_cases hr h (Nat.le_of_not_gt hroom) outside replies other with ⟨hn, hquiet⟩ |
    ⟨s₁, hready, hp, hd, hinv, hpush⟩
  · left
    rw [hq, hcall]
    refine ⟨?_, hquiet.queue queue⟩
    rcases hr₁ : (s.take i data).ready i outside with _ | s₁
    · rfl
    · exact if_neg (hn s₁ hr₁)
  · right
    rw [hpush] at hq
    refine ⟨i, replies, s₁, ?_, ⟨⟨conn, data, outside, other, rfl, hrev, hd⟩, queue, hq⟩, hinv⟩
    rw [hcall, hready]
    exact if_pos hp

/-- A callback is quiet, or it delivers a segment and calls `http_url_ota_push`. -/
theorem step_cases (hr : UploadRule P U V) (h : s.Inv env fun _ => U) (e : HttpEvent) :
    (s.pushCall e = none ∧ Quiet env s (s.step env e)) ∨
      ∃ i replies s₁, s.pushCall e = some (i, s₁) ∧ Calls env s e i replies s₁ ∧
        s₁.Inv env (during U V i) := by
  rcases hs : (s.crashed || s.rebooting) with _ | _
  swap
  · left
    unfold Server.step Server.pushCall
    rw [hs, if_pos rfl, if_pos rfl]
    exact ⟨rfl, Quiet.refl env s⟩
  rcases e with ⟨conn, registered⟩ | ⟨conn, data, outside, replies, other⟩ | conn | ⟨conn, err⟩ | _ | _ | left
  · left
    unfold Server.step Server.pushCall
    rw [hs]
    exact ⟨rfl, connCb_quiet env s conn registered⟩
  · exact recv_cases hr h hs conn data outside replies other
  · left
    unfold Server.step Server.pushCall
    rw [hs]
    exact ⟨rfl, disconnCb_quiet env s conn⟩
  · left
    unfold Server.step Server.pushCall
    rw [hs]
    exact ⟨rfl, Quiet.refl env s⟩
  · left
    unfold Server.step Server.pushCall
    rw [hs]
    exact ⟨rfl, (Quiet.refl env s).queue _⟩
  · left
    unfold Server.step Server.pushCall
    rw [hs]
    refine ⟨rfl, ?_⟩
    show Quiet env s s.otaReboot
    rw [otaReboot]
    split
    · exact ⟨rfl, rfl, fun _ _ _ _ => rfl, rfl, rfl, fun _ => Or.inl (KeptSlot.of_eq rfl rfl)⟩
    · exact Quiet.refl env s
  · left
    unfold Server.step Server.pushCall
    rw [hs]
    exact ⟨rfl, paramStore_quiet env s left⟩

/-- The server runs callbacks. -/
def Running (s : Server) : Prop := s.crashed = false ∧ s.rebooting = false

/-- A segment that finds room in a slot with a push request. -/
theorem step_recv_pushing (env : OtaEnv) (hrun : s.Running) {conn : ℕ} {i : Slot} (hrev : s.reverse conn = some i)
    (hp : Pushing (s.clients i)) {data : List UInt8}
    (hroom : (s.clients i).bufused + data.length ≤ 2048) (outside : Mem) (replies : List FlashReply)
    (other : OtherReply) :
    ∃ queue, s.step env (.recv conn data outside replies other)
      = { ((s.take i data).pushUrl env i replies).1 with queue } := by
  have hci : (s.take i data).clients i = extend (s.clients i) data := by simp [take, setClient]
  have hprocess : (s.take i data).process env i outside replies other
      = (s.take i data).pushUrl env i replies := by
    have hstate : ((s.take i data).clients i).state ≠ .headers := by
      rw [hci]
      exact hp.state
    have hpush : OnPush ((s.take i data).clients i) := (onPush_congr (by rw [hci]; rfl)).mpr hp.push
    unfold OnPush at hpush
    rw [process, if_neg hstate, handle, hpush]
    rfl
  have hstep : s.step env (.recv conn data outside replies other)
      = s.recvCb env conn data outside replies other := by
    rw [step, hrun.1, hrun.2]
    rfl
  rw [hstep, recvCb, hrev]
  dsimp only
  rw [if_neg (Nat.not_lt.mpr hroom), hprocess]
  rcases (s.take i data).pushUrl env i replies with ⟨s', _ | _⟩
  · exact ⟨s'.queue, rfl⟩
  · exact post_eq s' conn

theorem pushCall_pushing (hrun : s.Running) {conn : ℕ} {i : Slot} (hrev : s.reverse conn = some i)
    (hp : Pushing (s.clients i)) {data : List UInt8}
    (hroom : (s.clients i).bufused + data.length ≤ 2048) (outside : Mem) (replies : List FlashReply)
    (other : OtherReply) :
    s.pushCall (.recv conn data outside replies other) = some (i, s.take i data) := by
  have hci : (s.take i data).clients i = extend (s.clients i) data := by simp [take, setClient]
  have hstate : ((s.take i data).clients i).state ≠ .headers := by
    rw [hci]
    exact hp.state
  have hpush : httpDispatch ((s.take i data).clients i) = .ok (some .otaPush) :=
    (onPush_congr (by rw [hci]; rfl)).mpr hp.push
  unfold pushCall
  rw [hrun.1, hrun.2]
  dsimp only [Bool.or_false]
  rw [if_neg (by simp), hrev]
  dsimp only
  rw [if_neg (Nat.not_lt.mpr hroom), ready, if_neg hstate]
  dsimp only
  rw [if_pos hpush]

end Server
end Esp8266Toolbox
