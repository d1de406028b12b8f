import Esp8266Toolbox.Http.Delivery
import Esp8266Toolbox.Http.FormSubmission

/-!
# Requests to the site

What a visitor sees: a request to any url but the log page and the push is answered with exactly one
complete page, sent when its last byte has come, and what has been typed into a form of the site, if
it has no spaces and fits, is what the device works with afterwards.
-/

namespace Esp8266Toolbox

/-- A url that has been copied ends within its array. -/
theorem copied_toList {url : List UInt8} (h : url.length ≤ 255) :
    (((Buf.zero 256).memcpy 0 url).set url.length 0).toList = url ++ 0 :: List.replicate (255 - url.length) 0 := by
  have hcopied : ((Buf.zero 256).memcpy 0 url).toList = url ++ List.replicate (256 - url.length) 0 :=
    toList_received (by omega)
  rw [Buf.toList_set _ (by omega), hcopied, List.take_left, List.drop_append, List.drop_of_length_le (by omega),
    List.nil_append, List.drop_replicate]
  congr 3
  omega

/-- The query of a url that has been copied. -/
theorem query_of_copied {c : HttpClient} {url base query rest : List UInt8} (h : c.url.toList = url ++ 0 :: rest)
    (hzero : 0 ∉ url) (hurl : url = base ++ 0x3f :: query) (hbase : 0x3f ∉ base) : c.query = some query := by
  have hcstr : cstr c.url.toList = url := by
    rw [h]
    exact cstr_append_zero hzero _
  have hterm : 0 ∈ c.url.toList := by
    rw [h]
    simp
  have hfirst : ∀ b ∈ base, (b ≠ 0x3f) := fun b hb heq => hbase (heq ▸ hb)
  rw [HttpClient.query, List.append_assoc, cstr_append_of_mem hterm, hcstr, hurl]
  rw [if_pos (by simp), List.dropWhile_append_of_pos (by simpa using hfirst)]
  simp

theorem urlBuf_toList (d : SiteRequest) :
    d.urlBuf.toList = d.head.url ++ 0 :: List.replicate (255 - d.head.url.length) 0 :=
  copied_toList d.head.url_short

theorem Ready.terminated {d : SiteRequest} {conn : ℕ} {c : HttpClient} (h : Ready d conn c) :
    0 ∈ c.url.toList := by
  rw [h.url, urlBuf_toList]
  simp

/-- The handler of a form finds the query of the request. -/
theorem Ready.query {d : SiteRequest} {conn : ℕ} {c : HttpClient} (h : Ready d conn c) {base query : List UInt8}
    (hurl : d.head.url = base ++ 0x3f :: query) (hbase : 0x3f ∉ base) (hzero : 0 ∉ d.head.url) :
    c.query = some query := by
  have hlist := urlBuf_toList d
  rw [← h.url] at hlist
  exact query_of_copied hlist hzero hurl hbase

namespace Site

/-- A request on a new connection that gets a slot, at any times, in segments that the buffer has room
for behind the header section. -/
structure Visit (d : SiteRequest) (s : Site) (i : Slot) (segs : List (List UInt8 × SiteWorld)) : Prop where
  running : s.stopped = false
  free : s.base.freeSlot = some i
  whole : (segs.map Prod.fst).flatten = d.text
  segments : ∀ p ∈ segs, p.1 ≠ [] ∧ d.head.bytes.length + p.1.length ≤ 2049

/-- The site after the connection and some segments. -/
def visited (env : SiteEnv) (s : Site) (conn : ℕ) (segs : List (List UInt8 × SiteWorld)) : Site :=
  deliver env conn (s.step env (.connect conn true)) segs

variable {env : SiteEnv} {s : Site} {w : SiteWorld} {i : Slot} {d : SiteRequest} {conn : ℕ}
  {segs : List (List UInt8 × SiteWorld)}

theorem Visit.calls (h : Visit d s i segs) (env : SiteEnv) (conn : ℕ) :
    (∀ pre, pre <+: segs → pre ≠ segs → s.InSlot (visited env s conn pre) conn i) ∧
      ∃ p ∈ segs.getLast?, Calls env d s (visited env s conn segs) conn i p.2 := by
  refine deliver_coming env (connect_coming env d conn h.running h.free) ?_ ?_ h.segments
  · rw [List.nil_append, h.whole]
  · have hcrlf : 0 < crlf.length := by decide
    rw [SiteRequest.text, Request.bytes]
    simp only [List.length_append, List.length_nil]
    omega

/-! ## One page for a request -/

/-- A short text behind a short page fits. -/
theorem printf_isSome (srcs : List (List UInt8)) (text : List UInt8) (hsrcs : srcs.flatten.length < 1000)
    (htext : text.length < 128) : ∃ out, (outbufAppends [] srcs).bind (outbufPrintf · text) = some out ∧
      out.length < 1128 := by
  have hcap : httpOutbufMaxlen = 4096 := rfl
  rw [appends_eq hsrcs, Option.bind_some, outbufPrintf, if_neg (by omega), outbufAppend, if_neg (by omega)]
  refine ⟨_, rfl, ?_⟩
  rw [List.length_append]
  omega

theorem appends_isSome {srcs : List (List UInt8)} (h : srcs.flatten.length < 1000) :
    (outbufAppends [] srcs).isSome := by
  rw [appends_eq h]
  rfl

theorem pageOtaBin_isSome (userbin : Fin 2) (client : HttpClient) : (pageOtaBin userbin client).isSome := by
  obtain ⟨c, hc⟩ : ∃ c : UInt8, decimal userbin = [c] := ⟨_, decimal_of_lt (by omega)⟩
  have hlong : (ascii "<html><body><h1>" ++ [c] ++ ascii "</h1></body></html>\n").length = 37 := by
    simp only [List.length_append, List.length_singleton]
    decide
  rw [pageOtaBin, hc]
  split
  · obtain ⟨out, hout, -⟩ := printf_isSome
      [ascii "HTTP/1.1 200 OK\r\n", ascii "Connection: close\r\n", ascii "Content-type: text/plain\r\n",
        ascii "Content-length: 2\r\n", crlf] ([c] ++ [LF]) (by decide +kernel) (by simp)
    exact Option.isSome_iff_exists.mpr ⟨out, hout⟩
  · obtain ⟨out, hout, -⟩ := printf_isSome
      [ascii "HTTP/1.1 200 OK\r\n", ascii "Connection: close\r\n", ascii "Content-type: text/html\r\n",
        ascii "Content-length: 37\r\n", crlf] _ (by decide +kernel) (by rw [hlong]; norm_num)
    exact Option.isSome_iff_exists.mpr ⟨out, hout⟩

theorem pageVersion_isSome (built : BuildDatetime) : (pageVersion built).isSome := by
  have hbuilt := built.length_eq
  have hcap : httpOutbufMaxlen = 4096 := rfl
  have hlen : (ascii "<h1>Version " ++ version ++ ascii " built on " ++ built.text ++ ascii "</h1>").length = 52 := by
    simp only [List.length_append, hbuilt]
    decide
  obtain ⟨out, hout, hshort⟩ := printf_isSome (pageHead ++ [ascii "<html><body>"]) _ (by decide +kernel)
    (show (ascii "<h1>Version " ++ version ++ ascii " built on " ++ built.text ++ ascii "</h1>").length < 128 by omega)
  have htail : (ascii "</body></html>\n").length = 15 := by decide
  have hlast : outbufAppend out (ascii "</body></html>\n") = some (out ++ ascii "</body></html>\n") := by
    rw [outbufAppend, if_neg (by omega)]
  obtain ⟨out', hout', hprint⟩ := Option.bind_eq_some_iff.mp hout
  rw [pageVersion, hout', Option.bind_eq_bind, Option.bind_some, hprint, Option.bind_some,
    hlast]
  rfl

/-- A handler that has the whole request ends, and sends one page. -/
theorem call_page (env : SiteEnv) (w : SiteWorld) {client c : HttpClient} {url : HttpUrl} (hclient : ignorePostdata client = (c, false))
    (hterm : 0 ∈ c.url.toList) (hs : s.crashed = false) (hurl : url ≠ .otaPush ∧ url ≠ .logs) :
    (s.call env w client url).1.crashed = false ∧ (s.call env w client url).2.sent ≠ [] := by
  have hstrays : ¬strays c := fun h => h.1 hterm
  have hsend {page : Option (List UInt8)} (hpage : page.isSome) : (sendPage c page).sent ≠ [] := by
    obtain ⟨p, rfl⟩ := Option.isSome_iff_exists.mp hpage
    exact List.cons_ne_nil _ _
  have hserve {page : HttpClient → Option (List UInt8)} (hpage : (page c).isSome) :
      (servePage client page).sent ≠ [] := by
    rw [servePage, ignoringPostdata, hclient]
    exact hsend hpage
  have hlevel (change : UInt8 → UInt8) : (changeLevel change client s.levels).1.sent ≠ [] := by
    rw [changeLevel, ignoringPostdata, hclient]
    dsimp only
    split
    · exact hsend (appends_isSome (by decide +kernel))
    · exact hsend (appends_isSome (by decide +kernel))
  have hsetup {next : Site × PageRun} (hnext : next.1.crashed = false) (hsent : next.2.sent ≠ []) :
      (s.setupPage client next).1.crashed = false ∧ (s.setupPage client next).2.sent ≠ [] := by
    rw [setupPage, hclient]
    dsimp only
    rw [if_neg hstrays]
    exact ⟨hnext, hsent⟩
  cases url with
  | otaPush => exact absurd rfl hurl.1
  | logs => exact absurd rfl hurl.2
  | blank => exact ⟨hs, hserve (appends_isSome (by decide +kernel))⟩
  | notFound => exact ⟨hs, hserve (appends_isSome (by decide +kernel))⟩
  | otaBin => exact ⟨hs, hserve (pageOtaBin_isSome env.userbin c)⟩
  | uptime =>
    refine ⟨hs, hserve ?_⟩
    rw [pageUptime_eq]
    rfl
  | version => exact ⟨hs, hserve (pageVersion_isSome env.built)⟩
  | logsLower => exact ⟨hs, hlevel logLower⟩
  | logsRaise => exact ⟨hs, hlevel logRaise⟩
  | reset =>
    have hpage : outbufAppends [] setupAccepted = some acceptedPage := page_done
    rw [call, httpUrlReset, hpage, ignoringPostdata, hclient]
    exact ⟨hs, List.cons_ne_nil _ _⟩
  | smtpSetup =>
    obtain ⟨settings, hrun | ⟨page, st, -, -, hrun⟩⟩ := httpUrlSmtpSetup_cases s.settings hclient
    · refine hsetup ?_ ?_
      · rw [hrun]
        exact hs
      · rw [hrun]
        exact List.cons_ne_nil _ _
    · refine hsetup ?_ ?_
      · rw [hrun]
        exact hs
      · rw [hrun]
        exact List.cons_ne_nil _ _
  | wifiSetup =>
    obtain ⟨conf, hrun⟩ | ⟨exit, -, hrun⟩ := httpUrlWifiSetup_cases w.taken hclient
    · refine hsetup ?_ ?_
      · rw [hrun]
        exact hs
      · rw [hrun]
        exact hsend (wifiPage_isSome .done)
    · refine hsetup ?_ ?_
      · rw [hrun]
        exact hs
      · rw [hrun]
        exact hsend (wifiPage_isSome exit)

theorem ledger_kill (conn : ℕ) (r : Site × Bool) : (kill conn r).ledger = r.1.ledger := by
  rcases r with ⟨t, _ | _⟩
  · rfl
  · exact ledger_post t conn

/-- The handler that the url of the request leads to. -/
def serve (env : SiteEnv) (w : SiteWorld) (d : SiteRequest) (s : Site) (client : HttpClient) : Site × PageRun :=
  s.call env w client (.find (basePart d.head.url))

/-- The handler has been called for `client`, which the macro has made `ready`, in the site `before`. -/
structure Served (env : SiteEnv) (w : SiteWorld) (d : SiteRequest) (s : Site) (conn : ℕ) (i : Slot)
    (before : Site) (client ready : HttpClient) (s' : Site) : Prop where
  slot : s.InSlot before conn i
  ignored : ignorePostdata client = (ready, false)
  isReady : Ready d conn ready
  spec : CallSpec before client (serve env w d before client).1 (serve env w d before client).2
  conn_eq : (serve env w d before client).2.client.conn = some conn
  page : ∃ page st, Answers page st ∧ (serve env w d before client).2.sent = [page]
  after : s' = kill conn ((serve env w d before client).1.finish i (serve env w d before client).2,
    (serve env w d before client).2.ret)

theorem Calls.served {s' : Site} (h : Calls env d s s' conn i w)
    (hurl : HttpUrl.find (basePart d.head.url) ≠ .logs) :
    ∃ before client ready, Served env w d s conn i before client ready s' := by
  obtain ⟨before, client, ready, hhears, hdispatch, hclient, hready, rfl⟩ := h
  have hs : before.crashed = false := by
    have hrunning := hhears.running
    simp only [stopped, Bool.or_eq_false_iff] at hrunning
    exact hrunning.1.2
  obtain ⟨hcrashed, hsent⟩ := call_page env w hclient hready.terminated hs ⟨d.no_push, hurl⟩
  have hspec : CallSpec before client (serve env w d before client).1 (serve env w d before client).2 :=
    call_spec env w before client d.no_push hcrashed
  refine ⟨before, client, ready, hhears.slot, hclient, hready, hspec, ?_, ?_, ?_⟩
  · obtain hkept | ⟨-, -, hkept⟩ := hspec.kept
    · rw [hkept, hclient]
      exact hready.conn
    · rw [hkept, hclient, parsed_conn]
      exact hready.conn
  · obtain hnone | ⟨page, hpage⟩ := hspec.page
    · exact absurd hnone hsent
    · obtain ⟨st, hst⟩ := hspec.answers page (hpage ▸ List.mem_singleton_self page)
      exact ⟨page, st, hst, hpage⟩
  · rw [handle, hhears.client, hdispatch]
    dsimp only
    rw [if_neg d.no_push, ← serve, if_neg]
    rw [serve, hcrashed]
    exact Bool.false_ne_true

/-- The ledger behind a call: its page is the last one. -/
theorem Served.ledger_say {before s' : Site} {client ready : HttpClient}
    (h : Served env w d s conn i before client ready s') (page : List UInt8)
    (hsent : (serve env w d before client).2.sent = [page]) :
    s'.ledger = (serve env w d before client).1.ledger.say (some conn) page := by
  rw [h.after, ledger_kill]
  dsimp only
  rw [finish, hsent, h.conn_eq]
  rfl

/-- **One request, one page.** A request to any url but the log page and the push: before its last byte
has come nothing changes but its own slot, and with it there is exactly one complete page, to the
connection that it came from. -/
theorem visit_answered (env : SiteEnv) (h : Visit d s i segs) (conn : ℕ)
    (hurl : HttpUrl.find (basePart d.head.url) ≠ .logs) :
    (∀ pre, pre <+: segs → pre ≠ segs → s.InSlot (visited env s conn pre) conn i) ∧
      ∃ page st, Answers page st ∧ (visited env s conn segs).pages = (some conn, page) :: s.pages := by
  obtain ⟨hquiet, p, -, hcalls⟩ := h.calls env conn
  obtain ⟨before, client, ready, hserved⟩ := hcalls.served hurl
  obtain ⟨page, st, hpage, hsent⟩ := hserved.page
  have hpages : (serve env p.2 d before client).1.ledger.pages = s.ledger.pages := by
    rw [← hserved.slot.ledger]
    obtain ⟨hsame, -⟩ | ⟨action, hact, -⟩ := hserved.spec.acts
    · rw [hsame]
    · rw [hact]
      cases action <;> rfl
  refine ⟨hquiet, page, st, hpage, ?_⟩
  exact (congrArg SiteLedger.pages (hserved.ledger_say page hsent)).trans (congrArg ((some conn, page) :: ·) hpages)

theorem http11_text : LineText (ascii "HTTP/1.1") := by
  unfold LineText
  decide

/-- A request without header lines. -/
def plainRequest (url : List UInt8) (htext : ∀ c ∈ url, blank c = false) (hne : url ≠ [])
    (hshort : url.length ≤ 255) : Request where
  method := .get
  url := url
  version := ascii "HTTP/1.1"
  fields := []
  url_text := htext
  url_nonempty := hne
  url_short := hshort
  version_text := http11_text
  host_short := fun _ hf => absurd hf List.not_mem_nil

theorem plainRequest_short {url : List UInt8} (htext : ∀ c ∈ url, blank c = false) (hne : url ≠ [])
    (hshort : url.length ≤ 255) : (plainRequest url htext hne hshort).bytes.length ≤ 1025 := by
  have hword : HttpMethod.get.word.length = 3 := rfl
  have hversion : (ascii "HTTP/1.1").length = 8 := by decide
  have hcrlf : crlf.length = 2 := rfl
  simp only [Request.bytes, Request.text, Request.tail, plainRequest, List.map_nil, List.flatten_nil,
    List.length_append, List.length_cons, List.length_nil]
  omega

/-- A `GET` of it. -/
def getRequest (url : List UInt8) (htext : ∀ c ∈ url, blank c = false) (hne : url ≠ []) (hshort : url.length ≤ 255)
    (hbase : (basePart url).length < 128) (hpush : HttpUrl.find (basePart url) ≠ .otaPush) : SiteRequest where
  head := plainRequest url htext hne hshort
  body := []
  head_short := plainRequest_short htext hne hshort
  announced := rfl
  get_empty := fun _ => rfl
  base_short := hbase
  no_push := hpush

/-- A visit to the page of the uptime, in two segments. -/
def uptimeRequest : SiteRequest :=
  getRequest (ascii "/uptime") (by decide) (by decide) (by decide) (by decide) (by decide)

theorem uptime_visit :
    Visit uptimeRequest bootedSite 0
      [(ascii "GET /uptime HTTP/1.1\r", quietWorld), (ascii "\n\r\n", quietWorld)] := by
  refine ⟨by decide, by decide, by decide, ?_⟩
  simp only [List.forall_mem_cons]
  decide

theorem visit_answered_uptime :
    ∃ page st, Answers page st ∧ (visited plainEnv bootedSite 7
      [(ascii "GET /uptime HTTP/1.1\r", quietWorld), (ascii "\n\r\n", quietWorld)]).pages
        = (some 7, page) :: bootedSite.pages :=
  (visit_answered plainEnv uptime_visit 7 (by decide)).2

/-! ## The forms -/

theorem basePart_query {base : List UInt8} (hbase : 0x3f ∉ base ∧ 0 ∉ base) (query : List UInt8) :
    basePart (base ++ 0x3f :: query) = base := by
  have hplain : ∀ c ∈ base, (c ≠ 0x3f && c ≠ 0) = true := by
    intro c hc
    have hmark : c ≠ 0x3f := fun h => hbase.1 (h ▸ hc)
    have hzero : c ≠ 0 := fun h => hbase.2 (h ▸ hc)
    simp [hmark, hzero]
  rw [basePart, List.takeWhile_append_of_pos hplain]
  simp

theorem setupPage_ready {client c : HttpClient} (hclient : ignorePostdata client = (c, false))
    (hterm : 0 ∈ c.url.toList) (next : Site × PageRun) :
    s.setupPage client next = (next.1, { next.2 with client := parsed next.2.client }) := by
  have hstrays : ¬strays c := fun h => h.1 hterm
  rw [setupPage, hclient]
  dsimp only
  rw [if_neg hstrays]

/-- **The form of the network page, over the network.** What has been typed into it, without spaces, is
submitted as a `GET`: with its last byte, and no sooner, the station has the name and the password as
they were typed, and the visitor `202 Accepted`. -/
theorem wifi_form_visit (env : SiteEnv) (h : Visit d s i segs) (conn : ℕ) {ssid password : List UInt8}
    (hurl : d.head.url = ascii "/wifi/setup" ++ 0x3f :: formQuery (wifiFields ssid password))
    (hssid : Typed ssid) (hpass : Typed password) (hne : ssid ≠ [] ∧ password ≠ [])
    (hlen : ssid.length < 32 ∧ password.length < 64) (htaken : ∀ p ∈ segs, p.2.taken = true) :
    (∀ pre, pre <+: segs → pre ≠ segs → s.InSlot (visited env s conn pre) conn i) ∧
      ∃ conf, cstr conf.ssid.toList = ssid ∧ cstr conf.password.toList = password ∧
        (visited env s conn segs).ledger
          = (s.ledger.act (some conn) (.station conf)).say (some conn) acceptedPage := by
  obtain ⟨hquiet, p, hp, hcalls⟩ := h.calls env conn
  refine ⟨hquiet, ?_⟩
  have hbase : 0x3f ∉ ascii "/wifi/setup" ∧ 0 ∉ ascii "/wifi/setup" := by decide
  have hfind : HttpUrl.find (basePart d.head.url) = .wifiSetup := by
    rw [hurl, basePart_query hbase]
    decide
  have hzero : 0 ∉ d.head.url := by
    have hquery : 0 ∉ formQuery (wifiFields ssid password) :=
      formQuery_no_zero (by simp only [wifiFields, List.forall_mem_cons]; decide)
    rw [hurl]
    simp [hbase.2, hquery]
  obtain ⟨before, client, ready, hserved⟩ := hcalls.served (by rw [hfind]; decide)
  have hquery := hserved.isReady.query hurl hbase.1 hzero
  have hclient := hserved.ignored
  have hready : (ignorePostdata client).2 = false := by rw [hclient]
  obtain ⟨conf, hconf, hcssid, hcpass, hsent⟩ := wifi_form_stored hready (by rw [hclient]; exact hquery)
    hssid hpass hne hlen
  have hserve : serve env p.2 d before client =
      ({ before with station := some conf }.act (httpUrlWifiSetup true client).page.client.conn (.station conf),
        { (httpUrlWifiSetup true client).page with
          client := parsed (httpUrlWifiSetup true client).page.client }) := by
    rw [serve, hfind, call, setupPage_ready hclient hserved.isReady.terminated,
      htaken p (List.mem_of_getLast? hp)]
    dsimp only
    rw [hconf]
  have hconn := hserved.conn_eq
  have hsay := hserved.ledger_say acceptedPage (by rw [hserve]; exact hsent)
  rw [hserve] at hconn hsay
  rw [parsed_conn] at hconn
  refine ⟨conf, hcssid, hcpass, ?_⟩
  rw [hsay, hconn, ← hserved.slot.ledger]
  rfl

/-- A name and a password, typed into the form. -/
def wifiRequest : SiteRequest :=
  getRequest (ascii "/wifi/setup" ++ 0x3f :: formQuery (wifiFields (ascii "home") (ascii "s&cret")))
    (by decide) (by decide) (by decide) (by decide) (by decide)

theorem wifi_visit : Visit wifiRequest bootedSite 0
    [(ascii "GET /wifi/setup?ssid=ho", quietWorld), (ascii "me&pass=s%26cret HTTP/1.1\r\n\r\n", quietWorld)] := by
  refine ⟨by decide, by decide, by decide, ?_⟩
  simp only [List.forall_mem_cons]
  decide

theorem wifi_form_visit_home :
    ∃ conf : StationConfig, cstr conf.ssid.toList = ascii "home" ∧ cstr conf.password.toList = ascii "s&cret" ∧
      (visited plainEnv bootedSite 7 [(ascii "GET /wifi/setup?ssid=ho", quietWorld),
        (ascii "me&pass=s%26cret HTTP/1.1\r\n\r\n", quietWorld)]).ledger
        = (bootedSite.ledger.act (some 7) (.station conf)).say (some 7) acceptedPage :=
  (wifi_form_visit plainEnv wifi_visit 7 rfl ⟨by decide, by decide, by decide⟩ ⟨by decide, by decide, by decide⟩
    (by decide) (by decide) (by simp only [List.forall_mem_cons]; exact ⟨rfl, rfl, by simp⟩)).2

/-- **The form of the mail account, over the network**: with the last byte of the request, and no
sooner, `smtp_server` is what has been typed, without spaces, and the timer that stores it is armed. -/
theorem account_form_visit (env : SiteEnv) (h : Visit d s i segs) (conn : ℕ) {f : AccountForm} (hfits : f.Fits)
    (hurl : d.head.url = ascii "/smtp/setup" ++ 0x3f :: formQuery f.fields) :
    (∀ pre, pre <+: segs → pre ≠ segs → s.InSlot (visited env s conn pre) conn i) ∧
      ∃ account, (visited env s conn segs).settings = account ∧
        (∀ t, cstr (account.text t).toList = f.text t) ∧ account.port = f.port ∧
        (visited env s conn segs).ledger
          = (s.ledger.act (some conn) (.settings account)).say (some conn) acceptedPage := by
  obtain ⟨hquiet, p, hp, hcalls⟩ := h.calls env conn
  refine ⟨hquiet, ?_⟩
  have hbase : 0x3f ∉ ascii "/smtp/setup" ∧ 0 ∉ ascii "/smtp/setup" := by decide
  have hfind : HttpUrl.find (basePart d.head.url) = .smtpSetup := by
    rw [hurl, basePart_query hbase]
    decide
  have hzero : 0 ∉ d.head.url := by
    have hquery : 0 ∉ formQuery f.fields :=
      formQuery_no_zero (by simp only [AccountForm.fields, List.forall_mem_cons]; decide)
    rw [hurl]
    simp [hbase.2, hquery]
  obtain ⟨before, client, ready, hserved⟩ := hcalls.served (by rw [hfind]; decide)
  have hquery := hserved.isReady.query hurl hbase.1 hzero
  have hclient := hserved.ignored
  have hready : (ignorePostdata client).2 = false := by rw [hclient]
  obtain ⟨htext, hport, hsent, harmed⟩ := account_form_stored hfits hready (by rw [hclient]; exact hquery)
    before.settings
  have hserve : serve env p.2 d before client =
      ({ before with
          settings := (httpUrlSmtpSetup client before.settings).settings
          settingsArmed := true }.act (httpUrlSmtpSetup client before.settings).client.conn
          (.settings (httpUrlSmtpSetup client before.settings).settings),
        ⟨parsed (httpUrlSmtpSetup client before.settings).client,
          (httpUrlSmtpSetup client before.settings).sent, (httpUrlSmtpSetup client before.settings).ret⟩) := by
    rw [serve, hfind, call, setupPage_ready hclient hserved.isReady.terminated]
    dsimp only
    rw [if_pos harmed]
  have hconn := hserved.conn_eq
  have hsay := hserved.ledger_say acceptedPage (by rw [hserve]; exact hsent)
  have hsettings : (visited env s conn segs).settings = (httpUrlSmtpSetup client before.settings).settings := by
    have hkill (r : Site × Bool) : (kill conn r).settings = r.1.settings := by
      rcases r with ⟨t, _ | _⟩ <;> rfl
    rw [hserved.after, hkill, finish, hserve]
    rfl
  rw [hserve] at hconn hsay
  rw [parsed_conn] at hconn
  refine ⟨_, hsettings, htext, hport, ?_⟩
  rw [hsay, hconn, ← hserved.slot.ledger]
  rfl

def accountRequest : SiteRequest :=
  getRequest (ascii "/smtp/setup" ++ 0x3f :: formQuery typedAccount.fields)
    (by decide) (by decide) (by decide) (by decide) (by decide)

theorem account_visit : Visit accountRequest bootedSite 0
    [(ascii "GET /smtp/setup?from=a%40b&to=c%40d&host=mx&port=465&user=me", quietWorld),
      (ascii "&pass=pw HTTP/1.1\r\n\r\n", quietWorld)] := by
  refine ⟨by decide, by decide, by decide, ?_⟩
  simp only [List.forall_mem_cons]
  decide

theorem account_form_visit_typed :
    ∃ account : SmtpSettings, (visited plainEnv bootedSite 7
        [(ascii "GET /smtp/setup?from=a%40b&to=c%40d&host=mx&port=465&user=me", quietWorld),
          (ascii "&pass=pw HTTP/1.1\r\n\r\n", quietWorld)]).settings = account ∧
      (∀ t, cstr (account.text t).toList = typedAccount.text t) ∧ account.port = 465 := by
  obtain ⟨account, hsettings, htext, hport, -⟩ :=
    (account_form_visit plainEnv account_visit 7 typedAccount_fits rfl).2
  exact ⟨account, hsettings, htext, hport⟩

end Site
end Esp8266Toolbox
