import Esp8266Toolbox.Http.FieldWrites
import Esp8266Toolbox.Http.Segments
import Esp8266Toolbox.Http.SiteAnswers

/-!
# From the connection to the handler

A request comes in segments, and the handler of its url runs again on each of them once the header
section is complete. The handlers that ignore the body wait: nothing is said and
nothing is done before the last byte of the request, and with it the handler answers.

* `Coming` and `coming_step`: what a slot holds between two segments, and what one segment does;
* `deliver_coming`: all of them.
-/

namespace Esp8266Toolbox

/-! ## The request -/

/-- A request with its body, for a handler that ignores the body. The header section is short enough
for the scans of the parser wherever it is cut, and the body is as long as it says. -/
structure SiteRequest where
  head : Request
  body : List UInt8
  head_short : head.bytes.length ≤ 1025
  announced : (runUpdates (head.updates head.fields) HttpClient.zero).postlen = body.length
  get_empty : head.method = .get → body = []
  base_short : (basePart head.url).length < 128
  no_push : HttpUrl.find (basePart head.url) ≠ .otaPush

namespace SiteRequest

variable {d : SiteRequest}

/-- What the network carries. -/
def text (d : SiteRequest) : List UInt8 := d.head.bytes ++ d.body

/-- The array of the url. -/
def urlBuf (d : SiteRequest) : Buf 256 := ((Buf.zero 256).memcpy 0 d.head.url).set d.head.url.length 0

end SiteRequest

/-- What the updates of the header section do not touch, and what they set. -/
theorem updates_members (r : Request) (c : HttpClient) :
    (runUpdates (r.updates r.fields) c).conn = c.conn ∧
      (runUpdates (r.updates r.fields) c).state = c.state ∧
      (runUpdates (r.updates r.fields) c).postused = c.postused ∧
      (runUpdates (r.updates r.fields) c).url = (c.url.memcpy 0 r.url).set r.url.length 0 := by
  have hfields : ∀ (fs : List HeaderField) (d : HttpClient),
      (runUpdates (fs.map HeaderField.set) d).conn = d.conn ∧
        (runUpdates (fs.map HeaderField.set) d).state = d.state ∧
        (runUpdates (fs.map HeaderField.set) d).postused = d.postused ∧
        (runUpdates (fs.map HeaderField.set) d).url = d.url := by
    intro fs
    induction fs with
    | nil => exact fun d => ⟨rfl, rfl, rfl, rfl⟩
    | cons f fs ih =>
      intro d
      have hset : (f.set d).conn = d.conn ∧ (f.set d).state = d.state ∧ (f.set d).postused = d.postused ∧
          (f.set d).url = d.url := by
        unfold HeaderField.set
        split
        · exact ⟨rfl, rfl, rfl, rfl⟩
        · split <;> exact ⟨rfl, rfl, rfl, rfl⟩
      obtain ⟨h₁, h₂, h₃, h₄⟩ := ih (f.set d)
      obtain ⟨k₁, k₂, k₃, k₄⟩ := hset
      exact ⟨h₁.trans k₁, h₂.trans k₂, h₃.trans k₃, h₄.trans k₄⟩
  exact hfields r.fields (r.set c)

/-- The announced length only depends on the one that was there. -/
theorem updates_postlen (r : Request) {c c' : HttpClient} (h : c.postlen = c'.postlen) :
    (runUpdates (r.updates r.fields) c).postlen = (runUpdates (r.updates r.fields) c').postlen := by
  have hfields : ∀ (fs : List HeaderField) (d d' : HttpClient), d.postlen = d'.postlen →
      (runUpdates (fs.map HeaderField.set) d).postlen = (runUpdates (fs.map HeaderField.set) d').postlen := by
    intro fs
    induction fs with
    | nil => exact fun d d' h => h
    | cons f fs ih =>
      intro d d' h
      refine ih (f.set d) (f.set d') ?_
      unfold HeaderField.set
      split
      · exact h
      · split
        · rfl
        · exact h
  exact hfields r.fields (r.set c) (r.set c') h

/-! ## The slot -/

/-- The lines parsed so far have left the state. -/
theorem Reading.state {r : Request} {start : HttpClient} {got got' : List UInt8} {c c' : HttpClient}
    (h : Reading r start got c) (h' : Reading r start got' c') (hstate : c'.state = .headers) :
    c.state = .headers := by
  have hagain := (h.again (.zero 2048) 0).trans (h'.again (.zero 2048) 0).symm
  have hsame := congrArg HttpClient.state hagain
  rw [(updates_members r _).2.1, (updates_members r _).2.1] at hsame
  exact hsame.trans hstate

/-- The header section has been parsed, and `k` bytes of the body have come. -/
structure Asked (d : SiteRequest) (conn k : ℕ) (c : HttpClient) : Prop where
  state : c.state = d.head.method.next
  conn : c.conn = some conn
  url : c.url = d.urlBuf
  postlen : c.postlen = d.body.length
  count : c.postused + c.bufused = k

/-- The handler has waited, and left nothing in the buffer. -/
structure Waiting (d : SiteRequest) (conn k : ℕ) (c : HttpClient) : Prop extends Asked d conn k c where
  empty : c.bufused = 0
  post : d.head.method = .post

/-- The handler finds the whole request. -/
structure Ready (d : SiteRequest) (conn : ℕ) (c : HttpClient) : Prop where
  conn : c.conn = some conn
  url : c.url = d.urlBuf

theorem asked_parsed (d : SiteRequest) (conn : ℕ) (part : List UInt8) :
    Asked d conn part.length (d.head.parsed (.fresh conn) part) := by
  obtain ⟨hconn, -, hpostused, hurl⟩ := updates_members d.head (.fresh conn)
  refine ⟨rfl, hconn, hurl, ?_, ?_⟩
  · show (runUpdates (d.head.updates d.head.fields) (.fresh conn)).postlen = d.body.length
    rw [← d.announced]
    exact updates_postlen d.head rfl
  · show (runUpdates (d.head.updates d.head.fields) (.fresh conn)).postused + part.length = part.length
    rw [hpostused]
    exact Nat.zero_add _

theorem Waiting.extend {d : SiteRequest} {conn k : ℕ} {c : HttpClient} (h : Waiting d conn k c) (data : List UInt8) :
    Asked d conn (k + data.length) (Server.extend c data) := by
  refine ⟨h.state, h.conn, h.url, h.postlen, ?_⟩
  have hcount := h.count
  show c.postused + (c.bufused + data.length) = k + data.length
  omega

/-- `HTTP_IGNORE_POSTDATA` takes what has come, and waits for the rest. -/
theorem Asked.ignore {d : SiteRequest} {conn k : ℕ} {c : HttpClient} (h : Asked d conn k c)
    (hk : k ≤ d.body.length) :
    (k < d.body.length → ∃ c', ignorePostdata c = (c', true) ∧ Waiting d conn k c') ∧
      (k = d.body.length → ∃ c', ignorePostdata c = (c', false) ∧ Ready d conn c') := by
  obtain ⟨hstate, hconn, hurl, hpostlen, hcount⟩ := h
  have hlen : min c.bufused (c.postlen - c.postused) = c.bufused := by
    rw [hpostlen]
    omega
  unfold ignorePostdata
  rw [hlen]
  cases hmethod : d.head.method with
  | get =>
    have hbody := d.get_empty hmethod
    have hget : ¬c.state = .postdata := by
      rw [hstate, hmethod]
      decide
    rw [if_neg hget, hbody]
    exact ⟨fun hlt => absurd hlt (Nat.not_lt_zero k), fun _ => ⟨c, rfl, hconn, hurl⟩⟩
  | post =>
    have hpost : c.state = .postdata := by
      rw [hstate, hmethod]
      rfl
    rw [if_pos hpost]
    dsimp only
    constructor
    · intro hlt
      rw [if_neg (by rw [hpostlen]; omega)]
      refine ⟨_, rfl, ⟨hstate, hconn, hurl, hpostlen, ?_⟩, Nat.sub_self _, hmethod⟩
      dsimp only
      omega
    · intro heq
      rw [if_pos (by rw [hpostlen]; omega)]
      exact ⟨_, rfl, hconn, hurl⟩

/-- The url that the parser has copied leads to the handler of the request. -/
theorem Asked.dispatch {d : SiteRequest} {conn k : ℕ} {c : HttpClient} (h : Asked d conn k c) :
    httpDispatch c = .ok (some (.find (basePart d.head.url))) := by
  have hbase : c.baseurl = basePart d.head.url := by
    have hlen := d.head.url_short
    have hcopied := baseurl_applyCopies .zero (show d.head.url.length ≤ 256 by omega)
    rw [applyCopies_url _ (by omega), if_pos (by omega)] at hcopied
    rw [HttpClient.baseurl, h.url]
    exact hcopied
  have hshort := d.base_short
  rw [httpDispatch, hbase, if_neg (by omega), if_neg (by omega)]

/-! ## A call -/

namespace Site

variable {env : SiteEnv} {s s' : Site} {w : SiteWorld} {i : Slot} {conn : ℕ}

/-- While post data is missing a handler does nothing. -/
theorem call_pending {client client' : HttpClient} {url : HttpUrl} (hurl : url ≠ .otaPush)
    (h : ignorePostdata client = (client', true)) : s.call env w client url = (s, ⟨client', [], false⟩) := by
  have hserve (page : HttpClient → Option (List UInt8)) : servePage client page = ⟨client', [], false⟩ := by
    rw [servePage, ignoringPostdata, h]
  have hlevel (change : UInt8 → UInt8) (levels : LogLevels) :
      changeLevel change client levels = (⟨client', [], false⟩, levels) := by
    rw [changeLevel, ignoringPostdata, h]
  have hsetup (next : Site × PageRun) : s.setupPage client next = next := by
    rw [setupPage, h]
  cases url with
  | blank => exact congrArg (Prod.mk s) (hserve _)
  | notFound => exact congrArg (Prod.mk s) (hserve _)
  | otaBin => exact congrArg (Prod.mk s) (hserve _)
  | uptime => exact congrArg (Prod.mk s) (hserve _)
  | version => exact congrArg (Prod.mk s) (hserve _)
  | otaPush => exact absurd rfl hurl
  | logsLower =>
    rw [call, httpUrlLogsLower, hlevel]
  | logsRaise =>
    rw [call, httpUrlLogsRaise, hlevel]
  | reset =>
    rw [call, httpUrlReset, ignoringPostdata, h]
    rfl
  | smtpSetup =>
    rw [call, hsetup, httpUrlSmtpSetup, h]
    rfl
  | wifiSetup =>
    rw [call, hsetup, httpUrlWifiSetup, ignoringPostdata, h]
  | logs =>
    rw [call_logs, httpUrlLogs, logsPostdata, h]

theorem handle_pending {c' : HttpClient} {url : HttpUrl} (hurl : url ≠ .otaPush)
    (hdispatch : httpDispatch (s.base.clients i) = .ok (some url)) (hs : s.crashed = false)
    (h : ignorePostdata (s.base.clients i) = (c', true)) :
    s.handle env i w = ({ s with base := s.base.setClient i c' }, false) := by
  rw [handle, hdispatch]
  dsimp only
  rw [if_neg hurl, call_pending hurl h]
  dsimp only
  rw [if_neg (by simp [hs])]
  rfl

/-! ## One segment -/

/-- Since `s` nothing has changed but the slot `i`, which is that of `conn`. -/
def InSlot (s s' : Site) (conn : ℕ) (i : Slot) : Prop :=
  ∃ client stream, s' = { s with
    base := { s.base with
      clients := Function.update s.base.clients i client
      reverse := Function.update s.base.reverse conn (some i)
      stream := Function.update s.base.stream i stream } }

/-- Since `s` the site has worked for slot `i` only, and the slot is as `P` says. -/
structure Hears (s s' : Site) (conn : ℕ) (i : Slot) (P : HttpClient → Prop) : Prop where
  slot : s.InSlot s' conn i
  running : s'.stopped = false
  reverse : s'.base.reverse conn = some i
  client : P (s'.base.clients i)

/-- The slot after the beginning `got` of the request. -/
inductive Coming (d : SiteRequest) (conn : ℕ) (got : List UInt8) (c : HttpClient) : Prop
  | head (hstate : c.state = .headers) (hreading : Reading d.head (.fresh conn) got c)
      (hlt : got.length < d.head.bytes.length)
  | body (hwaiting : Waiting d conn (got.length - d.head.bytes.length) c) (hle : d.head.bytes.length ≤ got.length)

/-- The end of `http_client_recv_cb`. -/
def kill (conn : ℕ) : Site × Bool → Site
  | (s, true) => { s with base := s.base.post conn }
  | (s, false) => s

/-- The last segment of the request calls the handler of its url, for a client that is ready. -/
def Calls (env : SiteEnv) (d : SiteRequest) (s s' : Site) (conn : ℕ) (i : Slot) (w : SiteWorld) : Prop :=
  ∃ s₁ c c', Hears s s₁ conn i (· = c) ∧ httpDispatch c = .ok (some (.find (basePart d.head.url))) ∧
    ignorePostdata c = (c', false) ∧ Ready d conn c' ∧ s' = kill conn (s₁.handle env i w)

/-- What the site has said and set going is not in a slot. -/
theorem InSlot.ledger (h : s.InSlot s' conn i) : s'.ledger = s.ledger := by
  obtain ⟨client, stream, rfl⟩ := h
  rfl

theorem InSlot.put (h : s.InSlot s' conn i) (c : HttpClient) {stream : Slot → List UInt8}
    (hstream : ∃ bs, stream = Function.update s'.base.stream i bs) :
    s.InSlot { s' with base := { s'.base with clients := Function.update s'.base.clients i c, stream } } conn i := by
  obtain ⟨client, bs₀, rfl⟩ := h
  obtain ⟨bs, rfl⟩ := hstream
  refine ⟨c, bs, ?_⟩
  dsimp only
  rw [Function.update_idem, Function.update_idem]

theorem Hears.put {P Q : HttpClient → Prop} (h : Hears s s' conn i P) {c : HttpClient} (hc : Q c)
    {stream : Slot → List UInt8} (hstream : ∃ bs, stream = Function.update s'.base.stream i bs) :
    Hears s { s' with base := { s'.base with clients := Function.update s'.base.clients i c, stream } }
      conn i Q := by
  refine ⟨h.slot.put c hstream, h.running, h.reverse, ?_⟩
  dsimp only
  rw [Function.update_self]
  exact hc

/-- A segment, taken into the slot. -/
theorem Hears.take {P Q : HttpClient → Prop} (h : Hears s s' conn i P) {data : List UInt8}
    (hc : Q (Server.extend (s'.base.clients i) data)) :
    Hears s { s' with base := s'.base.take i data } conn i Q := by
  refine h.put hc ?_
  split
  · exact ⟨_, (Function.update_eq_self i _).symm⟩
  · exact ⟨_, rfl⟩

theorem recvCb_kill (env : SiteEnv) (w : SiteWorld) {data : List UInt8} (hrev : s.base.reverse conn = some i)
    (hroom : (s.base.clients i).bufused + data.length ≤ 2048) :
    s.recvCb env conn data w = kill conn (({ s with base := s.base.take i data } : Site).process env i w) := by
  rw [recvCb, hrev]
  dsimp only
  rw [if_neg (by omega)]
  rcases ({ s with base := s.base.take i data } : Site).process env i w with ⟨t, _ | _⟩ <;> rfl

/-- The handler of the url, with the first `k` bytes of the body. -/
theorem Hears.handle {d : SiteRequest} {k : ℕ} (h : Hears s s' conn i (Asked d conn k)) (hk : k ≤ d.body.length)
    (env : SiteEnv) (w : SiteWorld) :
    (k < d.body.length → Hears s (kill conn (s'.handle env i w)) conn i (Waiting d conn k)) ∧
      (k = d.body.length → Calls env d s (kill conn (s'.handle env i w)) conn i w) := by
  obtain ⟨hwait, hready⟩ := h.client.ignore hk
  have hdispatch := h.client.dispatch
  have hs : s'.crashed = false := by
    have hrunning := h.running
    simp only [stopped, Bool.or_eq_false_iff] at hrunning
    exact hrunning.1.2
  constructor
  · intro hlt
    obtain ⟨c', hc', hwaiting⟩ := hwait hlt
    rw [handle_pending d.no_push hdispatch hs hc']
    exact h.put hwaiting ⟨_, (Function.update_eq_self i _).symm⟩
  · intro heq
    obtain ⟨c', hc', hc'ready⟩ := hready heq
    exact ⟨s', _, c', ⟨h.slot, h.running, h.reverse, rfl⟩, hdispatch, hc', hc'ready, rfl⟩

theorem process_eq {c : HttpClient} (hc : s.base.clients i = c) :
    s.process env i w =
      if c.state = .headers then
        match httpHeaders w.outside c with
        | .error _ => ({ s with base := { s.base with crashed := true } }, false)
        | .ok (client, .incomplete) => ({ s with base := s.base.setClient i client }, false)
        | .ok (client, .bad _) => ({ s with base := s.base.setClient i client }, true)
        | .ok (client, .complete) => { s with base := s.base.enter i client }.handle env i w
      else s.handle env i w := by
  rw [← hc]
  rfl

/-- A short text is narrow. -/
theorem narrow_of_short {got : List UInt8} (h : got.length ≤ 1024) : Narrow got := by
  intro k hk
  have hle := hk.1
  omega

theorem coming_step {d : SiteRequest} {got data : List UInt8} (h : Hears s s' conn i (Coming d conn got))
    (hpre : got ++ data <+: d.text) (hroom : d.head.bytes.length + data.length ≤ 2049) (env : SiteEnv)
    (w : SiteWorld) :
    ((got ++ data).length < d.text.length →
      Hears s (s'.step env (.recv conn data w)) conn i (Coming d conn (got ++ data))) ∧
    ((got ++ data).length = d.text.length →
      Calls env d s (s'.step env (.recv conn data w)) conn i w) := by
  have hstep : s'.step env (.recv conn data w) = s'.recvCb env conn data w := by
    have hrunning := h.running
    rw [step, hrunning]
    rfl
  have hshort := d.head_short
  have htext : d.text.length = d.head.bytes.length + d.body.length := List.length_append
  have hlen : (got ++ data).length = got.length + data.length := List.length_append
  have hbound := hpre.length_le
  rw [hstep]
  have hcrlf : 2 ≤ d.head.bytes.length := by
    rw [Request.bytes, List.length_append, List.length_append]
    have htwo : crlf.length = 2 := rfl
    omega
  cases h.client with
  | head hstate hreading hlt =>
    have hused := hreading.used
    have hfits : got.length + data.length ≤ 2048 := by omega
    have hextended := hreading.extend hfits
    have htaken : Hears s { s' with base := s'.base.take i data } conn i (· = Server.extend (s'.base.clients i) data) :=
      h.take rfl
    have hstate' : (Server.extend (s'.base.clients i) data).state = .headers := hstate
    rw [recvCb_kill env w h.reverse (by omega), process_eq htaken.client, if_pos hstate']
    by_cases hopen : (got ++ data).length < d.head.bytes.length
    · -- the header section is still incomplete
      have hbeginning : got ++ data <+: d.head.bytes :=
        List.prefix_of_prefix_length_le hpre (List.prefix_append _ _) (by omega)
      obtain ⟨c', hc', hreading'⟩ := (httpHeaders_open (by omega) hextended hbeginning hopen).1
        (narrow_of_short (by omega)) w.outside
      rw [hc']
      refine ⟨fun _ => ?_, fun hend => by omega⟩
      exact htaken.put (.head (hreading'.state hextended hstate) hreading' hopen)
        ⟨_, (Function.update_eq_self i _).symm⟩
    · -- the section is complete, with the beginning of the body behind it
      obtain ⟨part, hpart⟩ : ∃ part, got ++ data = d.head.bytes ++ part := by
        obtain ⟨part, hpart⟩ := List.prefix_of_prefix_length_le (List.prefix_append d.head.bytes d.body) hpre (by omega)
        exact ⟨part, hpart.symm⟩
      have hsum : (got ++ data).length = d.head.bytes.length + part.length := by
        rw [hpart, List.length_append]
      rw [hpart] at hextended
      rw [httpHeaders_complete hextended (by rw [List.length_append]; omega) w.outside]
      have hentered : Hears s { s' with base := (s'.base.take i data).enter i (d.head.parsed (.fresh conn) part) }
          conn i (Asked d conn part.length) := htaken.put (asked_parsed d conn part) ⟨_, rfl⟩
      obtain ⟨hwait, hcall⟩ := hentered.handle (by omega) env w
      have hle := Nat.le_of_not_lt hopen
      have hcount : (got ++ data).length - d.head.bytes.length = part.length := by omega
      refine ⟨fun hlt' => ?_, fun hend => hcall (by omega)⟩
      have hwaiting := hwait (by omega)
      exact ⟨hwaiting.slot, hwaiting.running, hwaiting.reverse,
        .body (hcount ▸ hwaiting.client) hle⟩
  | body hwaiting hle =>
    have hused := hwaiting.empty
    have htaken : Hears s { s' with base := s'.base.take i data } conn i
        (Asked d conn (got.length - d.head.bytes.length + data.length)) := h.take (hwaiting.extend data)
    have hstate : ¬(Server.extend (s'.base.clients i) data).state = .headers := by
      show ¬(s'.base.clients i).state = .headers
      rw [hwaiting.state, hwaiting.post]
      decide
    rw [recvCb_kill env w h.reverse (by omega), process_eq (Function.update_self ..), if_neg hstate]
    obtain ⟨hwait, hcall⟩ := htaken.handle (by omega) env w
    have hcount : (got ++ data).length - d.head.bytes.length
        = got.length - d.head.bytes.length + data.length := by omega
    refine ⟨fun hlt' => ?_, fun hend => hcall (by omega)⟩
    have hwaiting' := hwait (by omega)
    exact ⟨hwaiting'.slot, hwaiting'.running, hwaiting'.reverse,
      .body (hcount ▸ hwaiting'.client) (by omega)⟩

/-! ## All segments -/

/-- The segments of a request, each with what the world is like when it comes. -/
def deliver (env : SiteEnv) (conn : ℕ) (s : Site) (segs : List (List UInt8 × SiteWorld)) : Site :=
  segs.foldl (fun s p => s.step env (.recv conn p.1 p.2)) s

theorem deliver_coming (env : SiteEnv) {d : SiteRequest} {segs : List (List UInt8 × SiteWorld)} {got : List UInt8}
    (h : Hears s s' conn i (Coming d conn got)) (hcut : got ++ (segs.map Prod.fst).flatten = d.text)
    (hopen : got.length < d.text.length)
    (hsegs : ∀ p ∈ segs, p.1 ≠ [] ∧ d.head.bytes.length + p.1.length ≤ 2049) :
    (∀ pre, pre <+: segs → pre ≠ segs → s.InSlot (deliver env conn s' pre) conn i) ∧
      ∃ p ∈ segs.getLast?, Calls env d s (deliver env conn s' segs) conn i p.2 := by
  induction segs generalizing got s' with
  | nil =>
    rw [List.map_nil, List.flatten_nil, List.append_nil] at hcut
    rw [hcut] at hopen
    exact absurd hopen (lt_irrefl _)
  | cons p segs ih =>
    rw [List.map_cons, List.flatten_cons, ← List.append_assoc] at hcut
    obtain ⟨hne, hroom⟩ := hsegs p List.mem_cons_self
    have hpre : got ++ p.1 <+: d.text := ⟨_, hcut⟩
    have hrest : (got ++ p.1).length + (segs.map Prod.fst).flatten.length = d.text.length :=
      List.length_append.symm.trans (congrArg List.length hcut)
    obtain ⟨hmore, hlast⟩ := coming_step h hpre hroom env p.2
    rcases segs with _ | ⟨q, segs⟩
    · refine ⟨fun pre hprefix hother => ?_, p, rfl, hlast (by simpa using hrest)⟩
      rcases pre with _ | ⟨x, pre⟩
      · exact h.slot
      · obtain ⟨rfl, hnil⟩ := List.cons_prefix_cons.mp hprefix
        exact absurd (by rw [List.prefix_nil.mp hnil]) hother
    · have hq : 0 < q.1.length := List.length_pos_of_ne_nil (hsegs q (by simp)).1
      have hmost : q.1.length ≤ ((q :: segs).map Prod.fst).flatten.length := by
        rw [List.map_cons, List.flatten_cons, List.length_append]
        omega
      have hopen' : (got ++ p.1).length < d.text.length := by omega
      obtain ⟨hquiet, hcall⟩ := ih (hmore hopen') hcut hopen' fun x hx => hsegs x (List.mem_cons_of_mem _ hx)
      refine ⟨fun pre hprefix hother => ?_, ?_⟩
      · rcases pre with _ | ⟨x, pre⟩
        · exact h.slot
        · obtain ⟨rfl, hprefix'⟩ := List.cons_prefix_cons.mp hprefix
          exact hquiet pre hprefix' fun heq => hother (by rw [heq])
      · rw [List.getLast?_cons_cons]
        exact hcall

/-- A connection with a free slot. -/
theorem connect_coming (env : SiteEnv) (d : SiteRequest) (conn : ℕ) (hrun : s.stopped = false)
    (hfree : s.base.freeSlot = some i) :
    Hears s (s.step env (.connect conn true)) conn i (Coming d conn []) := by
  have hbytes : 0 < d.head.bytes.length := by
    rw [Request.bytes, List.length_append, List.length_append]
    have htwo : crlf.length = 2 := rfl
    omega
  have hstep : s.step env (.connect conn true) = { s with base := s.base.connCb conn true } := by
    rw [step, hrun]
    rfl
  have hconn : s.base.connCb conn true = { s.base with
      clients := Function.update s.base.clients i (.fresh conn)
      reverse := Function.update (Function.update s.base.reverse conn none) conn (some i)
      stream := Function.update s.base.stream i [] } := by
    have hsame : ({ s.base with reverse := Function.update s.base.reverse conn none } : Server).freeSlot
        = some i := hfree
    rw [Server.connCb, if_pos rfl, hsame]
    rfl
  rw [hstep, hconn]
  refine ⟨⟨.fresh conn, [], ?_⟩, hrun, Function.update_self .., ?_⟩
  · rw [Function.update_idem]
  dsimp only
  rw [Function.update_self]
  exact .head rfl (reading_fresh d.head conn) hbytes

end Site
end Esp8266Toolbox
