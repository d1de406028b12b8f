import Esp8266Toolbox.Lib.Loops
import Esp8266Toolbox.Lib.Runs
import Esp8266Toolbox.Http.OtaTheorems
import Mathlib.Data.List.TakeWhile

/-!
# Invariants of the server

`Server.Inv` says of a state: each slot's buffer continues its stream, the upload of the owner
of `otastate` is in a given kind of state, and all flash calls so far were inside the target
partition. The kind of state is a parameter. `UploadRule` is what it has to satisfy, namely that
received data and calls of `http_url_ota_push` preserve it, and `Inv.step` carries the
invariant through every callback from that.
-/

namespace Esp8266Toolbox

/-! ## What parsing a header section leaves alone -/

/-- The fields the header parser does not assign before it is complete. -/
structure SameSlot (c c' : HttpClient) : Prop where
  inuse : c'.inuse = c.inuse
  conn : c'.conn = c.conn
  state : c'.state = c.state
  bufused : c'.bufused = c.bufused
  postused : c'.postused = c.postused

theorem SameSlot.refl (c : HttpClient) : SameSlot c c := ⟨rfl, rfl, rfl, rfl, rfl⟩

theorem SameSlot.trans {c c' c'' : HttpClient} (h : SameSlot c c') (h' : SameSlot c' c'') :
    SameSlot c c'' :=
  ⟨h'.inuse.trans h.inuse, h'.conn.trans h.conn, h'.state.trans h.state, h'.bufused.trans h.bufused,
    h'.postused.trans h.postused⟩

theorem requestLine_same {rd : Mem} {c c' : HttpClient} {buf nextline : ℕ} {r : Headers}
    (h : requestLine rd c buf nextline = .ok (c', r)) : SameSlot c c' := by
  unfold requestLine at h
  obtain ⟨t1, -, h⟩ := Loops.bind_eq_ok h
  rcases t1 with _ | ⟨token, nexttoken⟩
  · cases h
    exact SameSlot.refl _
  obtain ⟨word, -, h⟩ := Loops.bind_eq_ok h
  split at h
  swap
  · cases h
    exact SameSlot.refl _
  obtain ⟨t2, -, h⟩ := Loops.bind_eq_ok h
  rcases t2 with _ | ⟨token, nexttoken⟩
  · cases h
    exact ⟨rfl, rfl, rfl, rfl, rfl⟩
  dsimp only at h
  split at h
  · cases h
    exact ⟨rfl, rfl, rfl, rfl, rfl⟩
  obtain ⟨url, -, h⟩ := Loops.bind_eq_ok h
  cases h
  split <;> exact ⟨rfl, rfl, rfl, rfl, rfl⟩

theorem headerLine_same {rd : Mem} {c c' : HttpClient} {buf nextline : ℕ} {r : Headers}
    (h : headerLine rd c buf nextline = .ok (c', r)) : SameSlot c c' := by
  unfold headerLine at h
  obtain ⟨t1, -, h⟩ := Loops.bind_eq_ok h
  rcases t1 with _ | ⟨token, nexttoken⟩
  · cases h
    exact SameSlot.refl _
  obtain ⟨word, -, h⟩ := Loops.bind_eq_ok h
  split at h
  · obtain ⟨t2, -, h⟩ := Loops.bind_eq_ok h
    rcases t2 with _ | ⟨token, nexttoken⟩
    · cases h
      exact SameSlot.refl _
    dsimp only at h
    split at h
    · cases h
      exact SameSlot.refl _
    obtain ⟨host, -, h⟩ := Loops.bind_eq_ok h
    cases h
    -- only `host` is written
    split <;> exact ⟨rfl, rfl, rfl, rfl, rfl⟩
  split at h
  · obtain ⟨t2, -, h⟩ := Loops.bind_eq_ok h
    rcases t2 with _ | ⟨token, nexttoken⟩
    · cases h
      exact SameSlot.refl _
    obtain ⟨v, -, h⟩ := Loops.bind_eq_ok h
    cases h
    -- only `postlen` is written
    exact ⟨rfl, rfl, rfl, rfl, rfl⟩
  · cases h
    exact SameSlot.refl _

theorem headerLoop_same {rd : Mem} (fuel : ℕ) {c c' : HttpClient} {buf len buf' : ℕ} {r : Headers}
    (h : headerLoop rd fuel c buf len = .ok (c', r, buf')) : SameSlot c c' := by
  induction fuel generalizing c buf len with
  | zero => simp [headerLoop] at h
  | succ fuel ih =>
    rw [headerLoop] at h
    obtain ⟨b, -, h⟩ := Loops.bind_eq_ok h
    split at h
    · cases h
      exact SameSlot.refl _
    obtain ⟨l, -, h⟩ := Loops.bind_eq_ok h
    rcases l with _ | nextline
    · cases h
      exact SameSlot.refl _
    obtain ⟨⟨c₁, r₁⟩, hline, h⟩ := Loops.bind_eq_ok h
    have hs := headerLine_same hline
    dsimp only at h
    split at h
    · exact hs.trans (ih h)
    · cases h
      exact hs

/-- An incomplete or rejected header section leaves the slot as it was; a complete one empties
the buffer up to the body and leaves `HTTP_STATE_HEADERS`. -/
theorem httpHeaders_spec {outside : Mem} {c c' : HttpClient} {r : Headers}
    (h : httpHeaders outside c = .ok (c', r)) :
    c'.conn = c.conn ∧ c'.inuse = c.inuse ∧ c'.postused = c.postused ∧ c'.bufused ≤ c.bufused ∧
      (r = .complete → c'.state ≠ .headers) ∧ (r ≠ .complete → c'.state = c.state) := by
  have hsame : ∀ {d : HttpClient}, SameSlot c d → d.conn = c.conn ∧ d.inuse = c.inuse ∧
      d.postused = c.postused ∧ d.bufused ≤ c.bufused ∧ d.state = c.state := fun hs =>
    ⟨hs.conn, hs.inuse, hs.postused, le_of_eq hs.bufused, hs.state⟩
  unfold httpHeaders at h
  obtain ⟨l, -, h⟩ := Loops.bind_eq_ok h
  rcases l with _ | nextline
  · cases h
    exact ⟨rfl, rfl, rfl, le_rfl, by simp, by simp⟩
  obtain ⟨⟨c₁, r₁⟩, hreq, h⟩ := Loops.bind_eq_ok h
  have hs₁ := requestLine_same hreq
  dsimp only at h
  split at h
  swap
  · rename_i hr₁
    cases h
    obtain ⟨h1, h2, h3, h4, h5⟩ := hsame hs₁
    exact ⟨h1, h2, h3, h4, fun hr => absurd hr hr₁, fun _ => h5⟩
  obtain ⟨⟨c₂, r₂, buf⟩, hloop, h⟩ := Loops.bind_eq_ok h
  have hs₂ := hs₁.trans (headerLoop_same _ hloop)
  obtain ⟨h1, h2, h3, h4, h5⟩ := hsame hs₂
  dsimp only at h
  split at h
  swap
  · rename_i hr₂
    cases h
    exact ⟨h1, h2, h3, h4, fun hr => absurd hr hr₂, fun _ => h5⟩
  split at h
  · cases h
  · cases h
    refine ⟨h1, h2, h3, le_trans (Nat.sub_le _ _) h4, fun _ => ?_, by simp⟩
    -- the next state is that of the method, `GET` or `POST`
    show c₂.method.next ≠ .headers
    cases c₂.method <;> simp [HttpMethod.next]

/-! ## Handlers and the url -/

/-- The request is for `http_url_ota_push`. -/
def OnPush (c : HttpClient) : Prop := httpDispatch c = .ok (some .otaPush)

theorem onPush_congr {c c' : HttpClient} (h : c'.url = c.url) : OnPush c' ↔ OnPush c := by
  unfold OnPush httpDispatch HttpClient.baseurl
  rw [h]

/-- `HTTP_IGNORE_POSTDATA` consumes the stream. -/
theorem ignorePostdata_spec {c : HttpClient} {m : List UInt8} (h : ClientInv c m)
    (hstate : c.state ≠ .headers) :
    ClientInv (ignorePostdata c).1 m ∧ (ignorePostdata c).1.url = c.url ∧
      (ignorePostdata c).1.state ≠ .headers := by
  rw [ignorePostdata]
  by_cases hpd : c.state = .postdata
  swap
  · rw [if_neg hpd]
    exact ⟨h, rfl, hstate⟩
  rw [if_pos hpd]
  obtain ⟨hpend, hlen⟩ := h.pending hstate
  have hbuf := h.bufused_le
  have hpost := h.postused_le
  generalize hk : min c.bufused (c.postlen - c.postused) = k
  have hmoved : (c.buf.memcpy 0 ((c.buf.toList.take c.bufused).drop k)).toList.take (c.bufused - k)
      = m.drop (c.postused + k) := by
    rw [Buf.take_memmove _ hbuf, ← List.drop_drop, ← hpend]
    rfl
  dsimp only
  split
  · refine ⟨⟨?_, ?_, by simp, fun _ => ⟨hmoved, ?_⟩⟩, rfl, by simp⟩
    · exact le_trans (Nat.sub_le _ _) hbuf
    · show c.postused + k ≤ c.postlen
      omega
    · show m.length = c.postused + k + (c.bufused - k)
      omega
  · refine ⟨⟨?_, ?_, fun hh => absurd hh hstate, fun _ => ⟨hmoved, ?_⟩⟩, rfl, hstate⟩
    · exact le_trans (Nat.sub_le _ _) hbuf
    · show c.postused + k ≤ c.postlen
      omega
    · show m.length = c.postused + k + (c.bufused - k)
      omega

/-- A change behind the first `?` does not change the base url. -/
theorem baseurl_memcpy_query {c : HttpClient} (q : List UInt8) (hq : c.url.get c.baseurl.length = 0x3f) :
    ({ c with url := c.url.memcpy (c.baseurl.length + 1) q } : HttpClient).baseurl = c.baseurl := by
  have hlt : c.baseurl.length < 256 := by
    by_contra hge
    rw [Buf.get_of_le _ (by omega)] at hq
    simp at hq
  unfold HttpClient.baseurl at hq hlt ⊢
  generalize hp : (fun ch : UInt8 => decide (ch ≠ 0x3f) && decide (ch ≠ 0)) = p at *
  generalize hk : (c.url.toList.takeWhile p).length = k at *
  have hsplit : c.url.toList.take (k + 1) = c.url.toList.takeWhile p ++ [0x3f] := by
    have hpre : c.url.toList.take k = c.url.toList.takeWhile p := by
      have h := List.takeWhile_append_dropWhile (p := p) (l := c.url.toList)
      conv_lhs => rw [← h]
      rw [← hk, List.take_left']
      rfl
    have hkk : k < c.url.toList.length := by simpa using hlt
    rw [List.take_add_one, hpre, List.getElem?_eq_getElem hkk]
    rw [Buf.get, List.getD_eq_getElem _ _ hkk] at hq
    rw [hq]
    rfl
  -- the copy goes behind the `?`, so the front of the array stays
  have hnew : (c.url.memcpy (k + 1) q).toList.take (k + 1) = c.url.toList.take (k + 1) := by
    simp only [Buf.memcpy, List.take_take, List.append_assoc]
    rw [min_eq_left (by omega), List.take_left' (by simp; omega)]
  have hstop : ∀ rest : List UInt8,
      (c.url.toList.takeWhile p ++ [0x3f] ++ rest).takeWhile p = c.url.toList.takeWhile p := by
    intro rest
    rw [List.append_assoc, List.takeWhile_append_of_pos (fun a ha => List.mem_takeWhile_imp ha)]
    simp [← hp]
  rw [← List.take_append_drop (k + 1) (c.url.memcpy (k + 1) q).toList, hnew, hsplit, hstop]

/-- The other handlers keep the slot in order and do not become a push. -/
theorem otherUrl_spec {c : HttpClient} {m : List UInt8} (h : ClientInv c m) (hstate : c.state ≠ .headers)
    (other : OtherReply) :
    ClientInv (Server.otherUrl other c).1 m ∧ httpDispatch (Server.otherUrl other c).1 = httpDispatch c := by
  obtain ⟨hc, hurl, -⟩ := ignorePostdata_spec h hstate
  have hdisp : httpDispatch (ignorePostdata c).1 = httpDispatch c := by
    unfold httpDispatch HttpClient.baseurl
    rw [hurl]
  rw [Server.otherUrl]
  rcases hi : ignorePostdata c with ⟨c', _ | _⟩
  · rw [hi] at hc hdisp
    dsimp only at hc hdisp ⊢
    split
    · rename_i hq
      refine ⟨⟨hc.bufused_le, hc.postused_le, hc.headers, hc.pending⟩, ?_⟩
      rw [← hdisp]
      unfold httpDispatch
      rw [baseurl_memcpy_query _ hq]
    · exact ⟨hc, hdisp⟩
  · rw [hi] at hc hdisp
    exact ⟨hc, hdisp⟩

/-! ## The invariant -/

/-- A kind of state of an upload, given the partition and the stream. -/
abbrev Upload := ℕ → ℕ → List UInt8 → OtaRun → Prop

/-- Changes outside of its counters, buffers and partition do not matter to an upload. -/
def Upload.Local (U : Upload) : Prop :=
  ∀ {base limit m c c' o d d'}, U base limit m ⟨c, o, d⟩ → SameData base limit c c' d d' →
    U base limit m ⟨c', o, d'⟩

/-- Uploads that are in `U` between two callbacks: received data takes them to `V`, and a call
whose flash replies satisfy `P` takes them, and uploads that have just begun, back to `U`. -/
structure UploadRule (P : List FlashReply → Prop) (U V : Upload) : Prop where
  localU : U.Local
  localV : V.Local
  inv : ∀ {base limit m r}, V base limit m r → UploadInv base limit m r
  received : ∀ {base limit m data c o d}, U base limit m ⟨c, o, d⟩ →
    c.bufused + data.length ≤ 2048 → V base limit (m ++ data) ⟨Server.extend c data, o, d⟩
  resumed : ∀ {env base limit m r}, Partition base limit → ClientInv r.client m →
    r.client.state ≠ .headers → P r.dev.replies → V base limit m r → U base limit m (otaData env r).1
  began : ∀ {env base limit m r}, Partition base limit → r.client.state ≠ .headers →
    P r.dev.replies → r.client.postused = 0 → Uploading base limit 0 m r →
    U base limit m (otaData env r).1

/-- The states of `UploadInv`, for any replies. -/
theorem uploadInv_rule : UploadRule (fun _ => True) UploadInv UploadInv where
  localU h := h.congr
  localV h := h.congr
  inv h := h
  received h hroom := h.received hroom
  resumed hp hc hs _ h := (otaData_spec _ hp hc hs h).inv
  began hp hs _ _ h := (otaData_spec _ hp (h.client hs) hs h.inv).inv

/-- The flash replies prepared in an event satisfy `P`. -/
def HttpEvent.Replies (P : List FlashReply → Prop) : HttpEvent → Prop
  | .recv _ _ _ replies _ => P replies
  | _ => True

namespace Server

/-- What a call for slot `i` would work on. -/
def pushRun (s : Server) (i : Slot) : OtaRun := ⟨s.clients i, s.ota, s.dev⟩

/-- Slot `i` owns `otastate` and has handed in POST data for it. -/
structure Owns (s : Server) (i : Slot) : Prop where
  owner : s.ota.client = some i
  state : (s.clients i).state ≠ .headers
  push : OnPush (s.clients i)
  used : 0 < (s.clients i).postused

/-- The invariant of the server, `W i` being the kind of state the upload of slot `i` is in. -/
structure Inv (env : OtaEnv) (W : Slot → Upload) (s : Server) : Prop where
  client : ∀ i, ClientInv (s.clients i) (s.stream i)
  upload : ∀ i, s.Owns i →
    ∃ base limit, env.target = some (base, limit) ∧ W i base limit (s.stream i) (s.pushRun i)
  ops : ∀ op ∈ s.dev.ops, ∃ base limit, env.target = some (base, limit) ∧ op.Within base limit

variable {env : OtaEnv} {s : Server} {W : Slot → Upload} {P : List FlashReply → Prop} {U V : Upload}

theorem init_inv (env : OtaEnv) (content : ℕ → UInt8) : (Server.init content).Inv env W where
  client _ := ⟨Nat.zero_le _, le_rfl, fun _ => rfl, fun h => absurd rfl h⟩
  upload i h := by
    have := h.owner
    simp [Server.init, OtaState.zero] at this
  ops op h := by simp [Server.init] at h

/-- The invariant does not read the queue, the pages sent and the flags. -/
theorem Inv.congr (h : s.Inv env W) {s' : Server} (hc : s'.clients = s.clients) (ho : s'.ota = s.ota)
    (hd : s'.dev = s.dev) (hs : s'.stream = s.stream) : s'.Inv env W where
  client i := by rw [hc, hs]; exact h.client i
  upload i hown := by
    have hown' : s.Owns i :=
      ⟨by rw [← ho]; exact hown.owner, by rw [← hc]; exact hown.state, by rw [← hc]; exact hown.push,
        by rw [← hc]; exact hown.used⟩
    obtain ⟨base, limit, htarget, hinv⟩ := h.upload i hown'
    refine ⟨base, limit, htarget, ?_⟩
    unfold pushRun at hinv ⊢
    rw [hc, ho, hd, hs]
    exact hinv
  ops := by rw [hd]; exact h.ops

theorem Inv.post (h : s.Inv env W) (conn : ℕ) : (s.post conn).Inv env W := by
  unfold Server.post
  split
  · exact h.congr rfl rfl rfl rfl
  · exact h

theorem Inv.send (h : s.Inv env W) (conn : Option ℕ) (page : Option String) :
    (s.send conn page).Inv env W := by
  cases page with
  | none => exact h
  | some page => exact h.congr rfl rfl rfl rfl

/-- A slot may change as long as its upload, if it has one, is in the right kind of state. The
kind may change with it. -/
theorem Inv.update (h : s.Inv env W) (i : Slot) {c : HttpClient} {m : List UInt8} {W' : Slot → Upload}
    (hW : ∀ j, j ≠ i → W' j = W j) (hc : ClientInv c m)
    (hown : s.ota.client = some i → c.state ≠ .headers → OnPush c → 0 < c.postused →
      ∃ base limit, env.target = some (base, limit) ∧ W' i base limit m ⟨c, s.ota, s.dev⟩) :
    ({ s with clients := Function.update s.clients i c,
              stream := Function.update s.stream i m } : Server).Inv env W' where
  client j := by
    rcases eq_or_ne j i with rfl | hne
    · simpa using hc
    · simpa [Function.update_of_ne hne] using h.client j
  upload j hj := by
    rcases eq_or_ne j i with rfl | hne
    · have hstate := hj.state
      have hpush := hj.push
      have hused := hj.used
      simp only [Function.update_self] at hstate hpush hused
      simpa [pushRun] using hown hj.owner hstate hpush hused
    · have hj' : s.Owns j := by
        refine ⟨hj.owner, ?_, ?_, ?_⟩
        · simpa [Function.update_of_ne hne] using hj.state
        · simpa [Function.update_of_ne hne] using hj.push
        · simpa [Function.update_of_ne hne] using hj.used
      rw [hW j hne]
      simpa [pushRun, Function.update_of_ne hne] using h.upload j hj'
  ops := h.ops

theorem Inv.setClient (h : s.Inv env W) (i : Slot) {c : HttpClient} {W' : Slot → Upload}
    (hW : ∀ j, j ≠ i → W' j = W j) (hc : ClientInv c (s.stream i))
    (hown : s.ota.client = some i → c.state ≠ .headers → OnPush c → 0 < c.postused →
      ∃ base limit, env.target = some (base, limit) ∧
        W' i base limit (s.stream i) ⟨c, s.ota, s.dev⟩) :
    (s.setClient i c).Inv env W' := by
  have hu := h.update i hW hc hown
  rw [Function.update_eq_self] at hu
  exact hu

/-! ## Preservation, callback by callback -/

theorem Inv.connCb (h : s.Inv env W) (conn : ℕ) (registered : Bool) :
    (s.connCb conn registered).Inv env W := by
  have h0 : ({ s with reverse := Function.update s.reverse conn none } : Server).Inv env W :=
    h.congr rfl rfl rfl rfl
  rw [Server.connCb]
  cases registered with
  | false => exact h0.post conn
  | true =>
    dsimp only
    rw [if_pos rfl]
    split
    · exact h0.post conn
    · rename_i i _
      have hc : ClientInv { HttpClient.zero with inuse := true, conn := some conn } [] :=
        ⟨Nat.zero_le _, le_rfl, fun _ => rfl, fun hs => absurd rfl hs⟩
      have hu := h0.update i (fun _ _ => rfl) hc (fun _ hs _ _ => absurd rfl hs)
      exact hu.congr rfl rfl rfl rfl

theorem Inv.disconnCb (hU : ∀ i, (W i).Local) (h : s.Inv env W) (conn : ℕ) :
    (s.disconnCb conn).Inv env W := by
  rw [Server.disconnCb]
  rcases s.reverse conn with _ | i
  · exact h
  · have hi := h.client i
    have hc : ClientInv { s.clients i with inuse := false } (s.stream i) :=
      ⟨hi.bufused_le, hi.postused_le, hi.headers, hi.pending⟩
    refine h.setClient i (fun _ _ => rfl) hc fun ho hs hp hu => ?_
    obtain ⟨base, limit, htarget, hinv⟩ := h.upload i ⟨ho, hs, hp, hu⟩
    exact ⟨base, limit, htarget, hU i hinv ⟨rfl, rfl, rfl, rfl, fun _ _ _ => rfl⟩⟩

/-- The parameter sectors are in neither partition. -/
theorem param_outside {base limit sizeKb : ℕ} (htarget : env.target = some (base, limit))
    (hk : flashSizeKb env.flashMap = some sizeKb) :
    paramAddr sizeKb + 3 * secSize ≤ base ∨ base + limit ≤ paramAddr sizeKb := by
  obtain ⟨k, hk', hlimit, hbase⟩ := target_cases htarget
  rw [hk] at hk'
  cases hk'
  rcases flashSizeKb_cases hk with rfl | rfl | rfl | rfl <;>
    rcases hbase with ⟨-, hb⟩ | ⟨-, hb⟩ <;> subst hb <;> subst hlimit <;> decide

theorem paramStore_content {base limit : ℕ} (htarget : env.target = some (base, limit))
    (left : ℕ → UInt8) {a : ℕ} (ha : base ≤ a) (ha' : a < base + limit) :
    (s.paramStore env left).dev.content a = s.dev.content a := by
  rw [Server.paramStore]
  rcases hk : flashSizeKb env.flashMap with _ | sizeKb
  · rfl
  · rcases param_outside htarget hk with hlow | hhigh
    · exact patch_outside (Or.inr (by omega))
    · exact patch_outside (Or.inl (by omega))

theorem paramStore_frame (env : OtaEnv) (s : Server) (left : ℕ → UInt8) :
    ∃ content, s.paramStore env left = { s with dev := { s.dev with content } } := by
  rw [Server.paramStore]
  rcases flashSizeKb env.flashMap with _ | sizeKb
  · exact ⟨s.dev.content, rfl⟩
  · exact ⟨_, rfl⟩

theorem Inv.paramStore (hU : ∀ i, (W i).Local) (h : s.Inv env W) (left : ℕ → UInt8) :
    (s.paramStore env left).Inv env W := by
  have hcontent := fun {base limit} (htarget : env.target = some (base, limit)) {a} =>
    paramStore_content (s := s) htarget left (a := a)
  obtain ⟨content, heq⟩ := paramStore_frame env s left
  rw [heq] at hcontent ⊢
  refine ⟨h.client, fun i hown => ?_, h.ops⟩
  obtain ⟨base, limit, htarget, hinv⟩ := h.upload i ⟨hown.owner, hown.state, hown.push, hown.used⟩
  exact ⟨base, limit, htarget, hU i hinv ⟨rfl, rfl, rfl, rfl, fun a => hcontent htarget⟩⟩

/-- While slot `i` has received data that its handler has not seen. -/
def during (U V : Upload) (i : Slot) : Slot → Upload := Function.update (fun _ => U) i V

@[simp] theorem during_self (U V : Upload) (i : Slot) : during U V i i = V := by simp [during]

theorem during_ne {i j : Slot} (h : j ≠ i) : during U V i j = U := by
  simp [during, Function.update_of_ne h]

theorem Inv.take (hr : UploadRule P U V) (h : s.Inv env fun _ => U) {i : Slot} {data : List UInt8}
    (hroom : (s.clients i).bufused + data.length ≤ 2048) : (s.take i data).Inv env (during U V i) := by
  have hi := h.client i
  have hW : ∀ j, j ≠ i → during U V i j = (fun _ => U) j := fun j hj => during_ne hj
  rw [Server.take]
  by_cases hh : (s.clients i).state = .headers
  · rw [if_pos hh]
    have hc : ClientInv (extend (s.clients i) data) (s.stream i) :=
      ⟨hroom, hi.postused_le, hi.headers, fun hne => absurd hh hne⟩
    exact (h.setClient i hW hc fun _ hne => absurd hh hne).congr rfl rfl rfl rfl
  · rw [if_neg hh]
    obtain ⟨hpend, hlen⟩ := hi.pending hh
    have hc : ClientInv (extend (s.clients i) data) (s.stream i ++ data) := by
      refine ⟨hroom, hi.postused_le, hi.headers, fun _ => ⟨?_, ?_⟩⟩
      · show Server.pendingBytes (extend (s.clients i) data)
          = (s.stream i ++ data).drop (s.clients i).postused
        rw [pendingBytes_extend hroom, hpend, List.drop_append_of_le_length (by omega)]
      · show (s.stream i ++ data).length
          = (s.clients i).postused + ((s.clients i).bufused + data.length)
        rw [List.length_append]
        omega
    apply h.update i hW hc
    intro ho _ hp hu
    obtain ⟨base, limit, htarget, hinv⟩ := h.upload i ⟨ho, hh, (onPush_congr rfl).mp hp, hu⟩
    refine ⟨base, limit, htarget, ?_⟩
    rw [during_self]
    exact hr.received hinv hroom

/-- The state after a call of `http_url_ota_push` for slot `i` that has left `r`. -/
theorem Inv.commit (hU : U.Local) {i : Slot} (h : s.Inv env (during U V i)) {r : OtaRun}
    (hc : ClientInv r.client (s.stream i))
    (hops : ∀ op ∈ r.dev.ops, ∃ base limit, env.target = some (base, limit) ∧ op.Within base limit)
    (hown : r.ota.client = some i → 0 < r.client.postused →
      ∃ base limit, env.target = some (base, limit) ∧ U base limit (s.stream i) r)
    (hother : r.ota.client ≠ some i → r.ota = s.ota ∧ r.dev.content = s.dev.content) :
    (s.commit i r).Inv env fun _ => U where
  client j := by
    rcases eq_or_ne j i with rfl | hne
    · simpa [Server.commit, Server.setClient] using hc
    · simpa [Server.commit, Server.setClient, Function.update_of_ne hne] using h.client j
  upload j hj := by
    rcases eq_or_ne j i with rfl | hne
    · -- the slot of the call
      have hused := hj.used
      simp only [Server.commit, Server.setClient, Function.update_self] at hused
      simpa [Server.commit, Server.setClient, pushRun] using hown hj.owner hused
    · -- another slot owns the upload, so the call has left it alone
      have hji : r.ota.client = some j := hj.owner
      obtain ⟨ho, hd⟩ := hother (by rw [hji]; simpa using hne)
      have hj' : s.Owns j := by
        refine ⟨by rw [← ho]; exact hji, ?_, ?_, ?_⟩
        · simpa [Server.commit, Server.setClient, Function.update_of_ne hne] using hj.state
        · simpa [Server.commit, Server.setClient, Function.update_of_ne hne] using hj.push
        · simpa [Server.commit, Server.setClient, Function.update_of_ne hne] using hj.used
      obtain ⟨base, limit, htarget, hinv⟩ := h.upload j hj'
      rw [during_ne hne] at hinv
      refine ⟨base, limit, htarget, ?_⟩
      simp only [Server.commit, Server.setClient, pushRun, Function.update_of_ne hne, ho]
      exact hU hinv ⟨rfl, rfl, rfl, rfl, fun a _ _ => by rw [hd]⟩
  ops := hops

/-- The flash calls of a call by the owner. -/
theorem Inv.ops_data (h : s.Inv env W) {base limit : ℕ}
    (htarget : env.target = some (base, limit)) {d : FlashDev} {replies : List FlashReply}
    (hd : DevStep base limit { s.dev with replies } d) :
    ∀ op ∈ d.ops, ∃ base limit, env.target = some (base, limit) ∧ op.Within base limit := by
  intro op hop
  rcases hd.ops op hop with hold | hin
  · exact h.ops op hold
  · exact ⟨base, limit, htarget, hin⟩

theorem Inv.callPush (hr : UploadRule P U V) {i : Slot} (h : s.Inv env (during U V i))
    (hstate : (s.clients i).state ≠ .headers) (hpush : OnPush (s.clients i)) {replies : List FlashReply}
    (hP : P replies) : (s.commit i (s.callPush env i replies).1).Inv env fun _ => U := by
  have hi := h.client i
  have hcases := otaPush_cases env i (r := ⟨s.clients i, s.ota, { s.dev with replies }⟩) hi
  unfold Server.callPush
  generalize otaPush env i ⟨s.clients i, s.ota, { s.dev with replies }⟩ = res at hcases
  -- failed to begin, turned down, just begun, or going on
  rcases hcases with ⟨ota, e, -, hpost, hown⟩ | ⟨hpost, hown⟩ |
    ⟨base, limit, ota, htarget, hpost, hst, hown, hup⟩ | ⟨hpost, hown⟩
  · refine h.commit hr.localU hi h.ops (fun _ hu => ?_) (fun hne => absurd hown hne)
    dsimp only at hpost hu
    omega
  · exact h.commit hr.localU hi h.ops (fun ho => absurd ho hown) (fun _ => ⟨rfl, rfl⟩)
  · have hd := otaData_spec env (target_partition htarget) hi hstate hup.inv
    have hown' : (otaData env ⟨s.clients i, ota, { s.dev with replies }⟩).1.ota.client = some i :=
      hd.same.owner.trans hown
    exact h.commit hr.localU hd.client (h.ops_data htarget hd.dev)
      (fun _ _ => ⟨base, limit, htarget, hr.began (target_partition htarget) hstate hP hpost hup⟩)
      (fun hne => absurd hown' hne)
  · obtain ⟨base, limit, htarget, hinv⟩ := h.upload i ⟨hown, hstate, hpush, hpost⟩
    rw [during_self] at hinv
    have hinv' : V base limit (s.stream i) ⟨s.clients i, s.ota, { s.dev with replies }⟩ :=
      hr.localV hinv ⟨rfl, rfl, rfl, rfl, fun _ _ _ => rfl⟩
    have hd := otaData_spec env (target_partition htarget) hi hstate (hr.inv hinv')
    have hown' : (otaData env ⟨s.clients i, s.ota, { s.dev with replies }⟩).1.ota.client = some i :=
      hd.same.owner.trans hown
    exact h.commit hr.localU hd.client (h.ops_data htarget hd.dev)
      (fun _ _ => ⟨base, limit, htarget, hr.resumed (target_partition htarget) hi hstate hP hinv'⟩)
      (fun hne => absurd hown' hne)

theorem Inv.pushUrl (hr : UploadRule P U V) {i : Slot} (h : s.Inv env (during U V i))
    (hstate : (s.clients i).state ≠ .headers) (hpush : OnPush (s.clients i)) {replies : List FlashReply}
    (hP : P replies) : (s.pushUrl env i replies).1.Inv env fun _ => U := by
  have hcommit := h.callPush hr hstate hpush hP
  rw [Server.pushUrl]
  rcases hcall : s.callPush env i replies with ⟨r, res⟩
  rw [hcall] at hcommit
  have hsend := hcommit.send r.client.conn res.response
  rcases res with _ | _ | e | _
  · exact hsend
  · exact hsend.congr rfl rfl rfl rfl
  · exact hsend
  · exact hsend.congr rfl rfl rfl rfl

/-- Where the url of slot `i` is not a push, its upload state does not matter. -/
theorem Inv.idle {i : Slot} (h : s.Inv env (during U V i)) (hpush : ¬OnPush (s.clients i)) :
    s.Inv env fun _ => U := by
  refine ⟨h.client, fun j hj => ?_, h.ops⟩
  rcases eq_or_ne j i with rfl | hne
  · exact absurd hj.push hpush
  · have := h.upload j hj
    rwa [during_ne hne] at this

theorem Inv.handle (hr : UploadRule P U V) {i : Slot} (h : s.Inv env (during U V i))
    (hstate : (s.clients i).state ≠ .headers) {replies : List FlashReply} (hP : P replies)
    (other : OtherReply) : (s.handle env i replies other).1.Inv env fun _ => U := by
  rw [Server.handle]
  rcases hdisp : httpDispatch (s.clients i) with _ | _ | url
  · have hidle : ¬OnPush (s.clients i) := by unfold OnPush; rw [hdisp]; simp
    exact (h.idle hidle).congr rfl rfl rfl rfl
  · have hidle : ¬OnPush (s.clients i) := by unfold OnPush; rw [hdisp]; simp
    exact h.idle hidle
  · dsimp only
    split
    · rename_i hurl
      subst hurl
      exact h.pushUrl hr hstate hdisp hP
    · rename_i hurl
      obtain ⟨hc, hd⟩ := otherUrl_spec (h.client i) hstate other
      refine (h.setClient i (fun j hj => (during_ne hj).symm) hc fun _ _ hp => ?_).send _ _
      -- the handler was not a push, and its url has not become one
      unfold OnPush at hp
      rw [hd, hdisp] at hp
      simp only [Except.ok.injEq, Option.some.injEq] at hp
      exact absurd hp hurl

theorem Inv.process (hr : UploadRule P U V) {i : Slot} (h : s.Inv env (during U V i)) (outside : Mem)
    {replies : List FlashReply} (hP : P replies) (other : OtherReply) :
    (s.process env i outside replies other).1.Inv env fun _ => U := by
  have hi := h.client i
  have hW : ∀ j, j ≠ i → (fun _ => U) j = during U V i j := fun j hj => (during_ne hj).symm
  rw [Server.process]
  by_cases hh : (s.clients i).state = .headers
  swap
  · rw [if_neg hh]
    exact h.handle hr hh hP other
  rw [if_pos hh]
  have hzero := hi.headers hh
  have hsame : s.Inv env fun _ => U := by
    have := h.setClient i hW hi fun _ hne => absurd hh hne
    rwa [Server.setClient, Function.update_eq_self] at this
  rcases hp : httpHeaders outside (s.clients i) with _ | ⟨c, r⟩
  · exact hsame.congr rfl rfl rfl rfl
  obtain ⟨-, -, hpost, hbuf, hcomplete, hkeep⟩ := httpHeaders_spec hp
  have hbuf' := le_trans hbuf hi.bufused_le
  -- without a complete header section no upload can have begun
  have hother : r ≠ .complete → (s.setClient i c).Inv env fun _ => U := by
    intro hne
    have hst : c.state = .headers := (hkeep hne).trans hh
    exact h.setClient i hW ⟨hbuf', by omega, fun _ => by omega, fun hn => absurd hst hn⟩
      (fun _ hn => absurd hst hn)
  rcases r with _ | w | _
  · exact hother (by simp)
  · exact hother (by simp)
  · have hst := hcomplete rfl
    have hc : ClientInv c (pendingBytes c) := by
      refine ⟨hbuf', by omega, fun hne => absurd hne hst, fun _ => ⟨?_, ?_⟩⟩
      · rw [hpost, hzero, List.drop_zero]
      · rw [hpost, hzero, pendingBytes, List.length_take, Buf.length_toList]
        omega
    have henter : (s.enter i c).Inv env (during U V i) := by
      refine (h.update i (fun _ _ => rfl) hc fun _ _ _ hu => ?_).congr rfl rfl rfl rfl
      omega
    apply henter.handle hr _ hP
    simpa [Server.enter, Server.setClient] using hst

theorem Inv.recvCb (hr : UploadRule P U V) (h : s.Inv env fun _ => U) (conn : ℕ) (data : List UInt8)
    (outside : Mem) {replies : List FlashReply} (hP : P replies) (other : OtherReply) :
    (s.recvCb env conn data outside replies other).Inv env fun _ => U := by
  rw [Server.recvCb]
  rcases s.reverse conn with _ | i
  · exact h.post conn
  dsimp only
  split
  · exact h.post conn
  · rename_i hroom
    have hp := (h.take hr (Nat.le_of_not_gt hroom)).process hr outside hP other
    rcases hres : (s.take i data).process env i outside replies other with ⟨s', _ | _⟩
    · rw [hres] at hp
      exact hp
    · rw [hres] at hp
      exact hp.post conn

/-- Every callback keeps the invariant. -/
theorem Inv.step (hr : UploadRule P U V) (h : s.Inv env fun _ => U) {e : HttpEvent}
    (hP : e.Replies P) : (s.step env e).Inv env fun _ => U := by
  unfold Server.step
  split
  · exact h
  cases e with
  | connect conn registered => exact h.connCb conn registered
  | recv conn data outside replies other => exact h.recvCb hr conn data outside hP other
  | disconnect conn => exact h.disconnCb (fun _ => hr.localU) conn
  | error conn err => exact h
  | task => exact h.congr rfl rfl rfl rfl
  | reboot =>
    dsimp only
    rw [Server.otaReboot]
    split
    · exact h.congr rfl rfl rfl rfl
    · exact h
  | paramStore left => exact h.paramStore (fun _ => hr.localU) left

theorem run_concat (env : OtaEnv) (content : ℕ → UInt8) (es : List HttpEvent) (e : HttpEvent) :
    Server.run env content (es ++ [e]) = (Server.run env content es).step env e := by
  simp [Server.run]

/-- The invariant holds in every state of every run. -/
theorem run_inv (env : OtaEnv) (content : ℕ → UInt8) (es : List HttpEvent) :
    (Server.run env content es).Inv env fun _ => UploadInv := by
  apply Runs.foldl_inv _ (init_inv env content)
  intro s e h
  exact h.step uploadInv_rule (by cases e <;> trivial)

end Server
end Esp8266Toolbox
