import Esp8266Toolbox.Http.OtaLife
import Esp8266Toolbox.Http.Visits

/-!
# A push, from the connection to the new partition

The request of `make ota` on a connection of its own, header section and image, cut into segments that
the buffer has room for. Until its last byte has come nothing is answered, and with it the other
partition holds the image and the push is answered, `202 Accepted` if the signature is that of the
image.

* `PushComing` and `pushComing_step`: what the slot holds between two segments, and what one does;
* `push_delivered`: all of them, and the decision;
* `make_ota`: the push of the makefile, up to the restart.
-/

namespace Esp8266Toolbox

/-- A request for `http_url_ota_push`, with the image that it announces. -/
structure PushRequest where
  head : Request
  sig : List UInt8
  image : List UInt8
  head_short : head.bytes.length ≤ 1025
  post : head.method = .post
  url_eq : head.url = ascii "/ota/push" ++ 0x3f :: sig
  sig_text : 0 ∉ sig
  announced : (runUpdates (head.updates head.fields) HttpClient.zero).postlen = image.length
  nonempty : image ≠ []

namespace PushRequest

/-- What the network carries. -/
def text (d : PushRequest) : List UInt8 := d.head.bytes ++ d.image

/-- The array of the url. -/
def urlBuf (d : PushRequest) : Buf 256 := ((Buf.zero 256).memcpy 0 d.head.url).set d.head.url.length 0

end PushRequest

/-- The header section has been parsed. -/
structure PushAsked (d : PushRequest) (conn : ℕ) (c : HttpClient) : Prop where
  state : c.state = .postdata
  conn : c.conn = some conn
  url : c.url = d.urlBuf
  postlen : c.postlen = d.image.length

theorem PushAsked.push {d : PushRequest} {conn : ℕ} {c : HttpClient} (h : PushAsked d conn c) : OnPush c := by
  have hbase : c.baseurl = basePart d.head.url := by
    have hlen := d.head.url_short
    have hcopied := baseurl_applyCopies .zero (show d.head.url.length ≤ 256 by omega)
    rw [applyCopies_url _ (by omega), if_pos (by omega)] at hcopied
    rw [HttpClient.baseurl, h.url]
    exact hcopied
  rw [OnPush, httpDispatch, hbase, d.url_eq, Site.basePart_query (by decide)]
  decide

/-- The signature block reads the signature of the request. -/
theorem PushAsked.query {d : PushRequest} {conn : ℕ} {c : HttpClient} (h : PushAsked d conn c) :
    c.query = some d.sig := by
  have hzero : 0 ∉ d.head.url := by
    rw [d.url_eq]
    have hbase : 0 ∉ ascii "/ota/push" := by decide
    simp [hbase, d.sig_text]
  have hlist : c.url.toList = d.head.url ++ 0 :: List.replicate (255 - d.head.url.length) 0 := by
    rw [h.url]
    exact copied_toList d.head.url_short
  exact query_of_copied hlist hzero d.url_eq (by decide)

theorem pushAsked_parsed (d : PushRequest) (conn : ℕ) (part : List UInt8) :
    PushAsked d conn (d.head.parsed (.fresh conn) part) ∧ (d.head.parsed (.fresh conn) part).postused = 0 := by
  obtain ⟨hconn, -, hpostused, hurl⟩ := updates_members d.head (.fresh conn)
  refine ⟨⟨?_, hconn, hurl, ?_⟩, hpostused⟩
  · show d.head.method.next = .postdata
    rw [d.post]
    rfl
  · show (runUpdates (d.head.updates d.head.fields) (.fresh conn)).postlen = d.image.length
    rw [← d.announced]
    exact updates_postlen d.head rfl

theorem PushAsked.same {d : PushRequest} {conn : ℕ} {c c' : HttpClient} (h : PushAsked d conn c)
    (hstate : c'.state = c.state) (hconn : c'.conn = c.conn) (hurl : c'.url = c.url)
    (hpostlen : c'.postlen = c.postlen) : PushAsked d conn c' :=
  ⟨hstate.trans h.state, hconn.trans h.conn, hurl.trans h.url, hpostlen.trans h.postlen⟩

namespace Server

variable {env : OtaEnv} {base limit : ℕ} {s s' s₁ : Server} {i : Slot} {conn : ℕ} {d : PushRequest}
  {e : HttpEvent} {got : List UInt8}

/-! ## One call -/

/-- The call for the first bytes of the image: it waits for the others, or all of them are in flash
and it compares. -/
theorem push_call (htarget : env.target = some (base, limit)) (h : s₁.Inv env (during Drained Receiving i))
    (hasked : PushAsked d conn (s₁.clients i)) (hfits : d.image.length ≤ limit)
    (hmore : (s₁.clients i).postused < d.image.length)
    (hmine : (s₁.clients i).postused = 0 ∨ s₁.ota.client = some i) :
    ((s₁.stream i).length < d.image.length → (s₁.callPush env i []).2 = .pending ∧
      PushAsked d conn (s₁.callPush env i []).1.client ∧
      (s₁.callPush env i []).1.client.postused < d.image.length ∧
      (s₁.callPush env i []).1.ota.client = some i) ∧
    ((s₁.stream i).length = d.image.length → ∃ r₁, s₁.callPush env i [] = otaCompare env r₁ ∧
      Checked base limit (s₁.stream i) r₁ ∧ PushAsked d conn r₁.client) := by
  have hpushing : Pushing (s₁.clients i) := ⟨by rw [hasked.state]; decide, hasked.push⟩
  have hok := callPush_okCases htarget h hpushing
  have hpostlen := hasked.postlen
  generalize s₁.callPush env i [] = res at hok
  cases hok with
  | refused ota err hpost hown hwhy =>
    dsimp only at hwhy
    rcases hwhy with hwhy | hwhy
    · exact absurd hasked.state hwhy
    · omega
  | displaced hpost hown =>
    dsimp only at hpost hown
    rcases hmine with hzero | howner
    · omega
    · exact absurd howner hown
  | again hpost hown hflashed hdone =>
    have hend := hflashed.postused_eq
    dsimp only at hend
    omega
  | goesOn ota res hown hgoes hdata =>
    cases hdata with
    | waits r₁ hsame hlt hbuf n hup =>
      have hlen := hup.length
      have hsamelen : r₁.client.postlen = (s₁.clients i).postlen := hsame.postlen
      refine ⟨fun _ => ⟨rfl, hasked.same hsame.state hsame.conn hsame.url hsame.postlen, ?_, ?_⟩, fun hfull => ?_⟩
      · dsimp only
        omega
      · exact hsame.owner.trans hown
      · omega
    | checks r₁ hsame hchecked =>
      have hlen := hchecked.flashed.length
      have hend := hchecked.flashed.postused_eq
      have hsamelen : r₁.client.postlen = (s₁.clients i).postlen := hsame.postlen
      refine ⟨fun hshort => ?_, fun _ => ⟨r₁, rfl, hchecked, ?_⟩⟩
      · omega
      · exact hasked.same hsame.state hsame.conn hsame.url hsame.postlen

/-- The callback behind a call of `http_url_ota_push` for which the flash works. -/
theorem calls_of_pushCall (hs : Settled env limit s) (he : e.Replies (· = [])) (hcall : s.pushCall e = some (i, s₁)) :
    Calls env s e i [] s₁ ∧ s₁.Inv env (during Drained Receiving i) := by
  rcases step_cases drained_rule hs.inv e with ⟨hnone, -⟩ | ⟨j, replies, s₂, hsome, hcalls, hinv⟩
  · rw [hcall] at hnone
    cases hnone
  · rw [hcall, Option.some.injEq, Prod.mk.injEq] at hsome
    obtain ⟨rfl, rfl⟩ := hsome
    rw [hcalls.replies_nil he] at hcalls
    exact ⟨hcalls, hinv⟩

/-- Before the call only the slots have changed. -/
def OnlySlots (s s₁ : Server) : Prop := s₁ = { s with clients := s₁.clients, stream := s₁.stream }

/-- A call that waits says nothing. -/
theorem step_pending (hslots : OnlySlots s s₁) (hcalls : Calls env s e i [] s₁)
    (hpending : (s₁.callPush env i []).2 = .pending) :
    ∃ clients stream ota dev queue, s.step env e = { s with clients, stream, ota, dev, queue } := by
  obtain ⟨queue, hresult⟩ := hcalls.result
  have hurl : (s₁.pushUrl env i []).1 = s₁.commit i (s₁.callPush env i []).1 := by
    rw [pushUrl]
    generalize s₁.callPush env i [] = res at hpending
    obtain ⟨r, result⟩ := res
    dsimp only at hpending
    subst hpending
    rfl
  rw [hresult, hurl, commit, setClient, hslots]
  exact ⟨_, _, _, _, _, rfl⟩

/-! ## One segment -/

/-- What slot `i` holds after the beginning `got` of the request. -/
inductive PushComing (d : PushRequest) (limit conn : ℕ) (got : List UInt8) (s : Server) (i : Slot) : Prop
  | head (hstate : (s.clients i).state = .headers) (hreading : Reading d.head (.fresh conn) got (s.clients i))
      (hlt : got.length < d.head.bytes.length)
  | body (hawaiting : s.Awaiting limit i) (hasked : PushAsked d conn (s.clients i))
      (hstream : s.stream i = got.drop d.head.bytes.length) (hle : d.head.bytes.length ≤ got.length)

/-- Since `s` the server has answered nobody, and it waits for more of the request. -/
structure PushHears (env : OtaEnv) (d : PushRequest) (limit conn : ℕ) (got : List UInt8) (s s' : Server)
    (i : Slot) : Prop where
  settled : Settled env limit s'
  running : s'.Running
  reverse : s'.reverse conn = some i
  sent : s'.sent = s.sent
  image : s'.image = s.image
  armed : s'.armed = s.armed
  coming : PushComing d limit conn got s' i

/-- The last segment: the call compares, with all of the image in flash. -/
def PushCompares (env : OtaEnv) (d : PushRequest) (base limit conn : ℕ) (s : Server) (e : HttpEvent) (i : Slot) : Prop :=
  ∃ s₁ r₁, s.pushCall e = some (i, s₁) ∧ OnlySlots s s₁ ∧ Calls env s e i [] s₁ ∧
    s₁.callPush env i [] = otaCompare env r₁ ∧ Checked base limit (s₁.stream i) r₁ ∧
    PushAsked d conn r₁.client ∧ s₁.stream i = d.image

/-- A segment that calls `http_url_ota_push`, with `part` of the image received. -/
theorem PushHears.called (htarget : env.target = some (base, limit)) (hfits : d.image.length ≤ limit)
    (h : PushHears env d limit conn got s s' i) {data : List UInt8} (he : e.Replies (· = []))
    (hcall : s'.pushCall e = some (i, s₁)) (hslots : OnlySlots s' s₁) (hasked : PushAsked d conn (s₁.clients i))
    (hmore : (s₁.clients i).postused < d.image.length)
    (hmine : (s₁.clients i).postused = 0 ∨ s₁.ota.client = some i)
    (hstream : s₁.stream i = (got ++ data).drop d.head.bytes.length)
    (hle : d.head.bytes.length ≤ (got ++ data).length) (hpre : got ++ data <+: d.text) :
    ((got ++ data).length < d.text.length → PushHears env d limit conn (got ++ data) s (s'.step env e) i) ∧
      ((got ++ data).length = d.text.length → PushCompares env d base limit conn s' e i) := by
  have htext : d.text.length = d.head.bytes.length + d.image.length := List.length_append
  have hpartlen : (s₁.stream i).length = (got ++ data).length - d.head.bytes.length := by
    rw [hstream, List.length_drop]
  obtain ⟨hcalls, hinv⟩ := calls_of_pushCall h.settled he hcall
  obtain ⟨hwaits, hcompares⟩ := push_call htarget hinv hasked hfits hmore hmine
  constructor
  · intro hlt
    obtain ⟨hpending, hasked', hmore', hown⟩ := hwaits (by omega)
    have hleft := hcalls.left
    obtain ⟨clients, stream, ota, dev, queue, hafter⟩ := step_pending hslots hcalls hpending
    refine ⟨⟨h.settled.inv.step drained_rule he, h.settled.fresh.step htarget h.settled.inv he⟩, ?_, ?_, ?_, ?_, ?_,
      .body ⟨?_, ?_, ?_, ?_, .inr ?_⟩ ?_ ?_ hle⟩
    · rw [hafter]
      exact h.running
    · rw [hafter]
      exact h.reverse
    · rw [hafter]
      exact h.sent
    · rw [hafter]
      exact h.image
    · rw [hafter]
      exact h.armed
    · rw [hleft.client]
      exact hasked'.state
    · rw [hleft.client]
      exact hasked'.push
    · rw [hleft.client, hasked'.postlen]
      exact hmore'
    · rw [hleft.client, hasked'.postlen]
      exact hfits
    · rw [hleft.ota]
      exact hown
    · rw [hleft.client]
      exact hasked'
    · rw [hleft.stream]
      exact hstream
  · intro hend
    obtain ⟨r₁, hres, hchecked, hasked'⟩ := hcompares (by omega)
    refine ⟨s₁, r₁, hcall, hslots, hcalls, hres, hchecked, hasked', ?_⟩
    rw [hstream, hpre.eq_of_length hend, PushRequest.text, List.drop_left]

theorem pushComing_step (htarget : env.target = some (base, limit)) (hfits : d.image.length ≤ limit)
    (h : PushHears env d limit conn got s s' i) {data : List UInt8} (hpre : got ++ data <+: d.text)
    (hroom : d.head.bytes.length + data.length ≤ 2049) (outside : Mem) (other : OtherReply) :
    ((got ++ data).length < d.text.length →
      PushHears env d limit conn (got ++ data) s (s'.step env (.recv conn data outside [] other)) i) ∧
      ((got ++ data).length = d.text.length →
        PushCompares env d base limit conn s' (.recv conn data outside [] other) i) := by
  have he : (HttpEvent.recv conn data outside [] other).Replies (· = []) := rfl
  have hshort := d.head_short
  have htext : d.text.length = d.head.bytes.length + d.image.length := List.length_append
  have hlen : (got ++ data).length = got.length + data.length := List.length_append
  have hbound := hpre.length_le
  have hcrlf : 2 ≤ d.head.bytes.length := by
    rw [Request.bytes, List.length_append, List.length_append]
    have htwo : crlf.length = 2 := rfl
    omega
  cases h.coming with
  | head hstate hreading hlt =>
    have hused := hreading.used
    have hfits' : got.length + data.length ≤ 2048 := by omega
    have hextended := hreading.extend hfits'
    have hstate' : ((s'.take i data).clients i).state = .headers := by
      rw [take_self]
      exact hstate
    rw [← take_self s' i data] at hextended
    by_cases hopen : (got ++ data).length < d.head.bytes.length
    · -- the header section is still incomplete
      have hbeginning : got ++ data <+: d.head.bytes :=
        List.prefix_of_prefix_length_le hpre (List.prefix_append _ _) (by omega)
      obtain ⟨c', hc', hreading'⟩ := (httpHeaders_open (by omega) hextended hbeginning hopen).1
        (Site.narrow_of_short (by omega)) outside
      have hafter : s'.step env (.recv conn data outside [] other) = (s'.take i data).setClient i c' := by
        rw [step, h.running.1, h.running.2]
        show s'.recvCb env conn data outside [] other = _
        rw [recvCb, h.reverse]
        dsimp only
        rw [if_neg (by omega), process, if_pos hstate', hc']
      have hself : ((s'.take i data).setClient i c').clients i = c' := Function.update_self ..
      have hsettled : Settled env limit (s'.step env (.recv conn data outside [] other)) :=
        ⟨h.settled.inv.step drained_rule he, h.settled.fresh.step htarget h.settled.inv he⟩
      refine ⟨fun _ => ⟨hsettled, ?_, ?_, ?_, ?_, ?_, .head ?_ ?_ hopen⟩, fun hend => by omega⟩
      all_goals rw [hafter]
      · exact h.running
      · exact h.reverse
      · exact h.sent
      · exact h.image
      · exact h.armed
      · rw [hself]
        exact hreading'.state hextended hstate'
      · rw [hself]
        exact hreading'
    · -- the section is complete, with the beginning of the image behind it
      obtain ⟨part, hpart⟩ : ∃ part, got ++ data = d.head.bytes ++ part := by
        obtain ⟨part, hpart⟩ := List.prefix_of_prefix_length_le (List.prefix_append d.head.bytes d.image) hpre (by omega)
        exact ⟨part, hpart.symm⟩
      have hsum : (got ++ data).length = d.head.bytes.length + part.length := by
        rw [hpart, List.length_append]
      rw [hpart] at hextended
      have hparsed := httpHeaders_complete hextended (by rw [List.length_append]; omega) outside
      obtain ⟨hasked, hzero⟩ := pushAsked_parsed d conn part
      have hclient : ((s'.take i data).enter i (d.head.parsed (.fresh conn) part)).clients i
          = d.head.parsed (.fresh conn) part := Function.update_self ..
      have hcall : s'.pushCall (.recv conn data outside [] other)
          = some (i, (s'.take i data).enter i (d.head.parsed (.fresh conn) part)) := by
        have hpush : httpDispatch (((s'.take i data).enter i (d.head.parsed (.fresh conn) part)).clients i)
            = .ok (some .otaPush) := by
          rw [hclient]
          exact hasked.push
        rw [pushCall, h.running.1, h.running.2, if_neg (by simp), h.reverse]
        dsimp only
        rw [if_neg (by omega), ready, if_pos hstate', hparsed]
        exact if_pos hpush
      have himage : 0 < d.image.length := List.length_pos_of_ne_nil d.nonempty
      refine h.called htarget hfits he hcall rfl ?_ ?_ ?_ ?_ (by omega) hpre
      · rw [hclient]
        exact hasked
      · rw [hclient, hzero]
        exact himage
      · rw [hclient]
        exact .inl hzero
      · have hentered : ((s'.take i data).enter i (d.head.parsed (.fresh conn) part)).stream i
            = pendingBytes (d.head.parsed (.fresh conn) part) := Function.update_self ..
        rw [hentered, pendingBytes_parsed _ _ (by omega), hpart, List.drop_left]
  | body hawaiting hasked hstream hle =>
    have hempty := hawaiting.empty h.settled.inv h.settled.fresh
    have hcall : s'.pushCall (.recv conn data outside [] other) = some (i, s'.take i data) :=
      pushCall_pushing h.running h.reverse hawaiting.pushing (by omega) outside [] other
    have hstate : ¬(s'.clients i).state = .headers := by
      rw [hasked.state]
      decide
    have hmore := hawaiting.more
    have hpostlen := hasked.postlen
    refine h.called htarget hfits he hcall rfl ?_ ?_ ?_ ?_ (by omega) hpre
    · rw [take_self]
      exact hasked.same rfl rfl rfl rfl
    · rw [take_self]
      exact hpostlen ▸ hmore
    · rw [take_self]
      exact hawaiting.mine
    · rw [take]
      dsimp only
      rw [if_neg hstate, Function.update_self, hstream, List.drop_append_of_le_length hle]

/-! ## The decision -/

/-- A call that compares, and does not accept, has been rejected. -/
theorem otaCompare_rejected {r : OtaRun} (h : (otaCompare env r).2 ≠ .accepted) :
    ∃ err, (otaCompare env r).2 = .rejected err := by
  unfold otaCompare at h ⊢
  split
  · exact ⟨_, rfl⟩
  · rename_i hsame
    rw [if_neg hsame] at h
    split
    · exact ⟨_, rfl⟩
    · rename_i hsig
      rw [hsig] at h
      exact absurd rfl h

/-- The last segment of a push: the image is in flash, and the page is the one for its signature. -/
theorem PushCompares.decided (h : PushCompares env d base limit conn s e i) {n k : ℕ}
    (hkey : env.pubkey.Is512 n k) :
    flashBytes (s.step env e).dev.content base d.image.length = d.image ∧
      (SigMatches n k (Fips180.sha256 d.image) (some d.sig) →
        (s.step env e).sent = (some conn, response202) :: s.sent ∧
          (s.step env e).image = some (base, d.image) ∧ (s.step env e).armed = true ∧ (s.step env e).finish = true) ∧
      (¬SigMatches n k (Fips180.sha256 d.image) (some d.sig) →
        (s.step env e).sent = (some conn, response400) :: s.sent ∧ (s.step env e).image = s.image ∧
          (s.step env e).armed = s.armed) := by
  obtain ⟨s₁, r₁, hcall, hslots, hcalls, hres, hchecked, hasked, hstream⟩ := h
  have hleft := hcalls.left
  have hwhole : (s₁.stream i).take r₁.client.postlen = d.image := by
    rw [hstream, hasked.postlen, List.take_length]
  have hcompared := hchecked.compare env
  have hsame := (otaCompare_same env r₁).1
  have hhash1 := hchecked.hash1
  have hhash2 := hchecked.hash2
  rw [hwhole] at hhash1 hhash2
  have hiff := otaCompare_accepted_iff hkey (r := r₁) (by rw [hhash1]; exact length_sha256 _)
    (by rw [hhash2]; exact length_sha256 _)
  rw [hhash1, hhash2, hasked.query] at hiff
  have hclient : (s₁.callPush env i []).1.client = r₁.client := by rw [hres, hsame.client]
  refine ⟨?_, fun hmatch => ?_, fun hno => ?_⟩
  · have hflash := hcompared.flashed.flashed
    rw [hsame.client, hwhole, hasked.postlen] at hflash
    rw [hleft.dev, hres]
    exact hflash
  · have hacc : (s₁.callPush env i []).2 = .accepted := by
      rw [hres]
      exact hiff.mpr ⟨rfl, hmatch⟩
    obtain ⟨hfinish, harmed, himage, hsent⟩ := hcalls.accepted hacc
    have hbeg := hcompared.flashed.beg
    rw [← hres] at hbeg
    rw [hleft.client, hclient] at himage hsent
    rw [hasked.conn] at hsent
    rw [hleft.ota, hleft.stream, hwhole, hbeg] at himage
    exact ⟨hsent, himage, harmed, hfinish⟩
  · have hnot : (otaCompare env r₁).2 ≠ .accepted := fun hacc => hno (hiff.mp hacc).2
    obtain ⟨err, herr⟩ := otaCompare_rejected hnot
    obtain ⟨queue, hresult⟩ := hcalls.result
    have hrejected : (s₁.callPush env i []).2 = .rejected err := by rw [hres, herr]
    have hurl : (s₁.pushUrl env i []).1
        = (s₁.commit i (s₁.callPush env i []).1).send (some conn) (some response400) := by
      rw [pushUrl]
      rw [← hasked.conn, ← hclient]
      generalize s₁.callPush env i [] = res at hrejected
      obtain ⟨r, result⟩ := res
      dsimp only at hrejected
      subst hrejected
      rfl
    rw [hresult, hurl, commit, setClient, send, hslots]
    exact ⟨rfl, rfl, rfl⟩

/-- The server outlives the decision. -/
theorem PushCompares.running (h : PushCompares env d base limit conn s e i) (hrun : s.Running) :
    (s.step env e).Running := by
  obtain ⟨s₁, r₁, -, hslots, hcalls, hres, -⟩ := h
  obtain ⟨queue, hresult⟩ := hcalls.result
  obtain ⟨-, hrebooting, hcrashed, -⟩ := pushUrl_flags env s₁ i []
  have hdecided : (s₁.callPush env i []).2 ≠ .crashed := by
    rw [hres]
    by_cases hacc : (otaCompare env r₁).2 = .accepted
    · rw [hacc]
      simp
    · obtain ⟨err, herr⟩ := otaCompare_rejected hacc
      rw [herr]
      simp
  rw [hresult]
  refine ⟨(hcrashed hdecided).trans ?_, hrebooting.trans ?_⟩
  · rw [hslots]
    exact hrun.1
  · rw [hslots]
    exact hrun.2

/-! ## All segments -/

/-- The server after a connection and some segments, with the memory behind the buffer. -/
def pushed (env : OtaEnv) (s : Server) (conn : ℕ) (segs : List (List UInt8 × Mem × OtherReply)) : Server :=
  segs.foldl (fun s p => s.step env (.recv conn p.1 p.2.1 [] p.2.2)) (s.step env (.connect conn true))

theorem connect_pushHears (env : OtaEnv) (d : PushRequest) (conn : ℕ) (htarget : env.target = some (base, limit))
    (hs : Settled env limit s) (hrun : s.Running) (hfree : s.freeSlot = some i) :
    PushHears env d limit conn [] s (s.step env (.connect conn true)) i := by
  have he : (HttpEvent.connect conn true).Replies (· = []) := trivial
  have hbytes : 0 < d.head.bytes.length := by
    rw [Request.bytes, List.length_append, List.length_append]
    have htwo : crlf.length = 2 := rfl
    omega
  have hconn : s.connCb conn true = { s with
      clients := Function.update s.clients i (.fresh conn)
      reverse := Function.update (Function.update s.reverse conn none) conn (some i)
      stream := Function.update s.stream i [] } := by
    have hsame : ({ s with reverse := Function.update s.reverse conn none } : Server).freeSlot = some i := hfree
    rw [connCb, if_pos rfl, hsame]
    rfl
  have hstep : s.step env (.connect conn true) = s.connCb conn true := by
    rw [step, hrun.1, hrun.2]
    rfl
  have hsettled : Settled env limit (s.step env (.connect conn true)) :=
    ⟨hs.inv.step drained_rule he, hs.fresh.step htarget hs.inv he⟩
  refine ⟨hsettled, ?_, ?_, ?_, ?_, ?_, .head ?_ ?_ hbytes⟩
  all_goals rw [hstep, hconn]
  · exact hrun
  · exact Function.update_self ..
  · dsimp only
    rw [Function.update_self]
    rfl
  · dsimp only
    rw [Function.update_self]
    exact reading_fresh d.head conn

theorem pushed_coming (htarget : env.target = some (base, limit)) (hfits : d.image.length ≤ limit)
    {segs : List (List UInt8 × Mem × OtherReply)} (h : PushHears env d limit conn got s s' i)
    (hcut : got ++ (segs.map Prod.fst).flatten = d.text) (hopen : got.length < d.text.length)
    (hsegs : ∀ p ∈ segs, p.1 ≠ [] ∧ d.head.bytes.length + p.1.length ≤ 2049) :
    (∀ pre, pre <+: segs → pre ≠ segs → ∃ got', PushHears env d limit conn got' s
      (pre.foldl (fun s p => s.step env (.recv conn p.1 p.2.1 [] p.2.2)) s') i) ∧
    ∃ t e got', PushHears env d limit conn got' s t i ∧ PushCompares env d base limit conn t e i ∧
      segs.foldl (fun s p => s.step env (.recv conn p.1 p.2.1 [] p.2.2)) s' = t.step env e := by
  induction segs generalizing got s' with
  | nil =>
    rw [List.map_nil, List.flatten_nil, List.append_nil] at hcut
    rw [hcut] at hopen
    exact absurd hopen (lt_irrefl _)
  | cons p segs ih =>
    rw [List.map_cons, List.flatten_cons, ← List.append_assoc] at hcut
    obtain ⟨hne, hroom⟩ := hsegs p List.mem_cons_self
    have hrest : (got ++ p.1).length + (segs.map Prod.fst).flatten.length = d.text.length :=
      List.length_append.symm.trans (congrArg List.length hcut)
    obtain ⟨hmore, hlast⟩ := pushComing_step htarget hfits h ⟨_, hcut⟩ hroom p.2.1 p.2.2
    rcases segs with _ | ⟨q, segs⟩
    · refine ⟨fun pre hprefix hother => ?_, s', _, got, h, hlast (by simpa using hrest), rfl⟩
      rcases pre with _ | ⟨x, pre⟩
      · exact ⟨got, h⟩
      · obtain ⟨rfl, hnil⟩ := List.cons_prefix_cons.mp hprefix
        exact absurd (by rw [List.prefix_nil.mp hnil]) hother
    · have hq : 0 < q.1.length := List.length_pos_of_ne_nil (hsegs q (by simp)).1
      have hmost : q.1.length ≤ ((q :: segs).map Prod.fst).flatten.length := by
        rw [List.map_cons, List.flatten_cons, List.length_append]
        omega
      have hopen' : (got ++ p.1).length < d.text.length := by omega
      obtain ⟨hquiet, hcompares⟩ := ih (hmore hopen') hcut hopen' fun x hx => hsegs x (List.mem_cons_of_mem _ hx)
      refine ⟨fun pre hprefix hother => ?_, hcompares⟩
      rcases pre with _ | ⟨x, pre⟩
      · exact ⟨got, h⟩
      · obtain ⟨rfl, hprefix'⟩ := List.cons_prefix_cons.mp hprefix
        exact hquiet pre hprefix' fun heq => hother (by rw [heq])

/-- A push of an image that fits, on a new connection that gets a slot, in segments that the buffer has
room for behind the header section. -/
structure PushVisit (d : PushRequest) (limit : ℕ) (s : Server) (i : Slot)
    (segs : List (List UInt8 × Mem × OtherReply)) : Prop where
  running : s.Running
  free : s.freeSlot = some i
  fits : d.image.length ≤ limit
  whole : (segs.map Prod.fst).flatten = d.text
  segments : ∀ p ∈ segs, p.1 ≠ [] ∧ d.head.bytes.length + p.1.length ≤ 2049

theorem PushVisit.compares {segs : List (List UInt8 × Mem × OtherReply)} (h : PushVisit d limit s i segs)
    (htarget : env.target = some (base, limit)) (hs : Settled env limit s) (conn : ℕ) :
    (∀ pre, pre <+: segs → pre ≠ segs → ∃ got, PushHears env d limit conn got s (pushed env s conn pre) i) ∧
    ∃ t e got, PushHears env d limit conn got s t i ∧ PushCompares env d base limit conn t e i ∧
      pushed env s conn segs = t.step env e := by
  refine pushed_coming htarget h.fits (connect_pushHears env d conn htarget hs h.running h.free) ?_ ?_ h.segments
  · rw [List.nil_append, h.whole]
  · have himage : 0 < d.image.length := List.length_pos_of_ne_nil d.nonempty
    rw [PushRequest.text, List.length_append, List.length_nil]
    omega

/-- The server outlives a push. -/
theorem PushVisit.outlived {segs : List (List UInt8 × Mem × OtherReply)} (h : PushVisit d limit s i segs)
    (htarget : env.target = some (base, limit)) (hs : Settled env limit s) (conn : ℕ) :
    (pushed env s conn segs).Running := by
  obtain ⟨-, t, e, got, hhears, hcompares, hlast⟩ := h.compares htarget hs conn
  rw [hlast]
  exact hcompares.running hhears.running

/-- What `rsasign.py` prints for an image passes the signature block. -/
theorem sigMatches_rsasign {p q k dd : ℕ} (hp : p.Prime) (hq : q.Prime) (hne : p ≠ q) (hlow : 2 ^ 511 ≤ p * q)
    (hhigh : p * q < 2 ^ 512) (hed : k * dd ≡ 1 [MOD Nat.lcm (p - 1) (q - 1)]) (image : List UInt8) :
    SigMatches (p * q) k (Fips180.sha256 image) (some (rsasign (Fips180.sha256 image) dd (p * q))) := by
  obtain ⟨v, hv, hvlen, hpow⟩ := rsasign_matches hp hq hne hlow hhigh hed (length_sha256 image)
  refine ⟨_, v, rfl, hv, hvlen, ?_⟩
  rw [hpow, sigHash_beNat (length_sha256 image)]

/-- The callbacks of `pushed`. -/
def pushEvents (conn : ℕ) (segs : List (List UInt8 × Mem × OtherReply)) : List HttpEvent :=
  .connect conn true :: segs.map fun p => .recv conn p.1 p.2.1 [] p.2.2

theorem run_pushEvents (env : OtaEnv) (content : ℕ → UInt8) (es : List HttpEvent) (conn : ℕ)
    (segs : List (List UInt8 × Mem × OtherReply)) :
    Server.run env content (es ++ pushEvents conn segs) = pushed env (Server.run env content es) conn segs := by
  rw [Server.run, List.foldl_append, pushEvents, List.foldl_cons, List.foldl_map]
  rfl

/-- An image has been accepted, it is in flash, and the restart into it is coming. -/
structure Upgrading (env : OtaEnv) (base : ℕ) (body : List UInt8) (s : Server) : Prop where
  inv : s.Inv env fun _ => UploadInv
  finish : s.finish = true
  image : s.image = some (base, body)
  flash : flashBytes s.dev.content base body.length = body
  timer : s.armed = true ∨ s.rebooting = true

theorem Upgrading.step {body : List UInt8} (h : Upgrading env base body s) (htarget : env.target = some (base, limit))
    (hlen : body.length ≤ limit) (hcall : s.pushCall e = none) : Upgrading env base body (s.step env e) := by
  obtain ⟨-, hquiet⟩ | ⟨i, replies, s₁, hsome, -⟩ := step_cases uploadInv_rule h.inv e
  · refine ⟨h.inv.step uploadInv_rule (by cases e <;> trivial), hquiet.finish.trans h.finish,
      hquiet.image.trans h.image, ?_, step_armed env h.timer hcall⟩
    refine Eq.trans ?_ h.flash
    exact flashBytes_congr fun a ha ha' => hquiet.content htarget a ha (by omega)
  · rw [hcall] at hsome
    cases hsome

/-- The timer is still armed, or it has fired already. -/
theorem Upgrading.restart {boot : BootLoader} (hboot : boot.Switches) {chip : Chip} {es : List HttpEvent}
    {body : List UInt8} (h : Upgrading (chip.env env) base body (Server.run (chip.env env) chip.content es))
    (htarget : (chip.env env).target = some (base, limit))
    (halive : (Server.run (chip.env env) chip.content es).crashed = false) :
    chip.restart boot env (es ++ [.reboot])
      = ⟨base, (Server.run (chip.env env) chip.content es).dev.content, body⟩ := by
  obtain ⟨hrebooting, hfinish, himage, hdev⟩ := step_upgrade (chip.env env) halive h.timer
  rw [Chip.restart, run_concat, hrebooting, hfinish, h.finish, himage, h.image, hdev]
  exact congrArg (Chip.mk · _ _) (Chip.target_other hboot htarget).1

/-- **`make ota`.** Whatever the server has gone through since its start, as long as the flash has worked: an
image that fits, pushed with the signature that `rsasign.py` has made with the private key to the key
on the chip, is answered `202 Accepted`. Until the timer fires other requests may come, to any page
but the push; then the chip starts the other partition, and that partition holds the image. -/
theorem make_ota {boot : BootLoader} (hboot : boot.Switches) {chip : Chip}
    (htarget : (chip.env env).target = some (base, limit)) {p q k dd : ℕ} (hp : p.Prime) (hq : q.Prime)
    (hne : p ≠ q) (hlow : 2 ^ 511 ≤ p * q) (hhigh : p * q < 2 ^ 512)
    (hed : k * dd ≡ 1 [MOD Nat.lcm (p - 1) (q - 1)]) (hfit : k < 16 ^ 300)
    (hkey : env.pubkey = ⟨tobigint (p * q), tobigint k⟩) {es : List HttpEvent}
    (hes : ∀ ev ∈ es, ev.Replies (· = [])) (hsig : d.sig = rsasign (Fips180.sha256 d.image) dd (p * q))
    {segs : List (List UInt8 × Mem × OtherReply)}
    (h : PushVisit d limit (Server.run (chip.env env) chip.content es) i segs) (conn : ℕ) {after : List HttpEvent}
    (hafter : Runs.Along (Server.step (chip.env env)) (fun s e => s.pushCall e = none)
      (Server.run (chip.env env) chip.content (es ++ pushEvents conn segs)) after)
    (halive : (Server.run (chip.env env) chip.content (es ++ pushEvents conn segs ++ after)).crashed = false) :
    let next := chip.restart boot env (es ++ pushEvents conn segs ++ after ++ [.reboot])
    (Server.run (chip.env env) chip.content (es ++ pushEvents conn segs)).sent
        = (some conn, response202) :: (Server.run (chip.env env) chip.content es).sent ∧
      next.userbinAddr = base ∧ next.image = d.image ∧ flashBytes next.content base d.image.length = d.image := by
  have h512 : (chip.env env).pubkey.Is512 (p * q) k := by
    have hsame : (chip.env env).pubkey = env.pubkey := rfl
    rw [hsame, hkey]
    exact tobigint_is512 hlow hhigh hfit
  have hmatch : SigMatches (p * q) k (Fips180.sha256 d.image) (some d.sig) := by
    rw [hsig]
    exact sigMatches_rsasign hp hq hne hlow hhigh hed d.image
  obtain ⟨-, t, e, got, hhears, hcompares, hlast⟩ := h.compares htarget (run_settled htarget chip.content hes) conn
  obtain ⟨hflash, haccepted, -⟩ := hcompares.decided h512
  obtain ⟨hsent, himage, harmed, hfinish⟩ := haccepted hmatch
  have hpushed : Server.run (chip.env env) chip.content (es ++ pushEvents conn segs) = t.step (chip.env env) e := by
    rw [run_pushEvents, hlast]
  have hdone : Upgrading (chip.env env) base d.image
      (Server.run (chip.env env) chip.content (es ++ pushEvents conn segs)) := by
    refine ⟨run_inv _ _ _, ?_, ?_, ?_, .inl ?_⟩
    all_goals rw [hpushed]
    · exact hfinish
    · exact himage
    · exact hflash
    · exact harmed
  have hleft : Upgrading (chip.env env) base d.image
      (Server.run (chip.env env) chip.content (es ++ pushEvents conn segs ++ after)) := by
    have hfold := Runs.foldl_inv_along
      (fun _ _ hcall hs => Upgrading.step hs htarget h.fits hcall) hdone hafter
    rw [Server.run, List.foldl_append]
    exact hfold
  dsimp only
  rw [hleft.restart hboot htarget halive]
  exact ⟨by rw [hpushed, hsent, hhears.sent], rfl, rfl, hleft.flash⟩

/-! ## A push of four bytes, in two segments -/

/-- What the makefile sends for the image `boot` to `testChip`. -/
def bootPush : PushRequest where
  head := {
    method := .post
    url := ascii "/ota/push" ++ 0x3f :: hexText bootPower
    version := ascii "HTTP/1.1"
    fields := [⟨ascii "Content-Length", ascii "4", by decide, by unfold LineText; decide, fun _ => ⟨0x34, [], rfl, by decide⟩⟩]
    url_text := by decide +kernel
    url_nonempty := by decide
    url_short := by decide +kernel
    version_text := Site.http11_text
    host_short := by decide }
  sig := hexText bootPower
  image := ascii "boot"
  head_short := by decide +kernel
  post := rfl
  url_eq := rfl
  sig_text := by decide +kernel
  announced := by decide +kernel
  nonempty := by decide

/-- The second segment starts within the image. -/
def bootSegments : List (List UInt8 × Mem × OtherReply) :=
  [(bootPush.head.bytes ++ ascii "b", fun _ => .error .outOfBounds, ⟨none, false, []⟩),
    (ascii "oot", fun _ => .error .outOfBounds, ⟨none, false, []⟩)]

theorem boot_visit : PushVisit bootPush 241664 (Server.run testChip (fun _ => 0) []) 0 bootSegments := by
  refine ⟨⟨rfl, rfl⟩, by decide, by decide, by decide +kernel, ?_⟩
  simp only [bootSegments, List.forall_mem_cons]
  decide +kernel

theorem make_ota_boot :
    let next := Chip.delivered.restart Chip.testBoot testChip
      ([] ++ pushEvents 7 bootSegments ++ [.task] ++ [.reboot])
    next.userbinAddr = 266240 ∧ next.image = ascii "boot" ∧
      flashBytes next.content 266240 (ascii "boot").length = ascii "boot" := by
  have hfit : 65537 < 16 ^ 300 :=
    lt_of_lt_of_le (by norm_num : 65537 < 16 ^ 5) (Nat.pow_le_pow_right (by norm_num) (by norm_num))
  have htarget : (Chip.delivered.env testChip).target = some (266240, 241664) := testChip_target
  have hes : ∀ ev ∈ ([] : List HttpEvent), ev.Replies (· = []) := by simp
  have hrunning := boot_visit.outlived testChip_target (run_settled testChip_target (fun _ => 0) hes) 7
  have hpushed := run_pushEvents testChip (fun _ => 0) [] 7 bootSegments
  -- the task of the answer runs before the timer fires
  have hcall (s : Server) : s.pushCall .task = none := by
    unfold pushCall
    split <;> rfl
  have hcrashed (s : Server) : (s.step testChip .task).crashed = s.crashed := by
    unfold Server.step
    split <;> rfl
  have halive : (Server.run testChip (fun _ => 0) ([] ++ pushEvents 7 bootSegments ++ [.task])).crashed = false := by
    rw [run_concat, hpushed, hcrashed]
    exact hrunning.1
  have hafter : Runs.Along (Server.step testChip) (fun s e => s.pushCall e = none)
      (Server.run testChip (fun _ => 0) ([] ++ pushEvents 7 bootSegments)) [.task] := ⟨hcall _, trivial⟩
  exact (make_ota Chip.testBoot_switches htarget (by norm_num : Nat.Prime 65537) testPrime_prime (by decide)
    testPrime_low testPrime_high testExponent_inverse hfit rfl hes rsasign_boot.symm boot_visit 7
    hafter halive).2

end Server
end Esp8266Toolbox
