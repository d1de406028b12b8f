import Esp8266Toolbox.Http.PagesTheorems
import Esp8266Toolbox.Http.Server

/-!
# The web server with its handlers

`Server` leaves open what the handlers other than `http_url_ota_push` do. Here `http_process` calls
the handlers of the program: the site is a server with the levels of the log, the mail account, the
station and the timers that the handlers work on. What the SDK and the rest of the program choose
is part of the event, as before.

`actions` is a history variable: what a handler has set going, for which connection.
-/

namespace Esp8266Toolbox

/-- What is fixed when the program is built and started. -/
structure SiteEnv where
  ota : OtaEnv
  built : BuildDatetime
  userbin : Fin 2

/-- What a handler finds when it is called: the memory behind the buffer, the answers of the flash
chip and of the SDK, the uptime and the log. -/
structure SiteWorld where
  outside : Mem
  replies : List FlashReply
  uptimeUs : UInt64
  area : LogArea
  stamp : LogsMessage → LogStamp
  sendFails : Bool
  /-- `wifi_station_set_config` returns true. -/
  taken : Bool

/-- What a handler sets going: another network, a write of the mail account, a restart, an update. -/
inductive SiteAction where
  | station (conf : StationConfig)
  | settings (s : SmtpSettings)
  | reset
  | update
deriving DecidableEq, Repr

/-- The site. -/
structure Site where
  base : Server
  /-- The pages handed to `espconn_send`, byte by byte, the latest first. -/
  pages : List (Option ℕ × List UInt8)
  levels : LogLevels
  settings : SmtpSettings
  /-- The timer of `smtp_param_write` is armed. -/
  settingsArmed : Bool
  /-- The configuration that the station was last given. -/
  station : Option StationConfig
  /-- The timer of `reset` is armed. -/
  resetArmed : Bool
  /-- `system_restart` has been called. -/
  restarting : Bool
  /-- A handler has left its array: the log page that of its lines, a setup page that of the url. -/
  crashed : Bool
  actions : List (Option ℕ × SiteAction)

/-- The text of a page, for `Server`. -/
def pageText (page : List UInt8) : String := String.ofList (page.map fun c => Char.ofNat c.toNat)

/-- A callback, with the choices of the environment. -/
inductive SiteEvent where
  | connect (conn : ℕ) (registered : Bool)
  | recv (conn : ℕ) (data : List UInt8) (world : SiteWorld)
  | disconnect (conn : ℕ)
  | error (conn : ℕ) (err : ℤ)
  | task
  /-- The timer of an accepted push fires. -/
  | reboot
  /-- The timer of `http_url_reset` fires. -/
  | reset
  /-- The timer of `http_url_smtp_setup` fires; `left` is what the parameter sectors hold then. -/
  | paramWrite (left : ℕ → UInt8)

namespace Site

/-- The site after `http_init` and `smtp_init`. -/
def init (content : ℕ → UInt8) (settings : SmtpSettings) : Site :=
  { base := .init content, pages := [], levels := .boot, settings, settingsArmed := false, station := none,
    resetArmed := false, restarting := false, crashed := false, actions := [] }

/-- Something set going for a connection. -/
def act (s : Site) (conn : Option ℕ) (action : SiteAction) : Site :=
  { s with actions := (conn, action) :: s.actions }

/-- The setup pages write into the url: behind a url that fills its array if there is a `=`. -/
def strays (client : HttpClient) : Prop := 0 ∉ client.url.toList ∧ ∃ query ∈ client.query, 0x3d ∈ query

instance (client : HttpClient) : Decidable (strays client) := inferInstanceAs (Decidable (_ ∧ _))

/-- The url that a setup page leaves: the first `=` of the query is overwritten by a terminator, and
nobody looks at what is behind it. -/
def parsed (client : HttpClient) : HttpClient :=
  match client.query.bind (cutAt 0x3d) with
  | none => client
  | some (key, _) => { client with url := client.url.set (client.baseurl.length + 1 + key.length) 0 }

/-- A call of a setup page, which has ended with `next` but for the url. -/
def setupPage (s : Site) (client : HttpClient) (next : Site × PageRun) : Site × PageRun :=
  match ignorePostdata client with
  | (_, true) => next
  | (client, false) =>
    if strays client then ({ s with crashed := true }, ⟨client, [], false⟩)
    else (next.1, { next.2 with client := parsed next.2.client })

/-- A handler other than `http_url_ota_push`, called for a client. -/
def call (env : SiteEnv) (w : SiteWorld) (s : Site) (client : HttpClient) : HttpUrl → Site × PageRun
  | .blank => (s, httpUrlBlank client)
  | .logs =>
    match httpUrlLogs ⟨(s.levels .http).toNat, w.stamp, w.sendFails⟩ client w.area with
    | .error _ => ({ s with crashed := true }, ⟨client, [], false⟩)
    | .ok r => (s, ⟨r.client, r.sent, r.ret⟩)
  | .logsLower =>
    let (r, levels) := httpUrlLogsLower client s.levels
    ({ s with levels }, r)
  | .logsRaise =>
    let (r, levels) := httpUrlLogsRaise client s.levels
    ({ s with levels }, r)
  | .otaBin => (s, httpUrlOtaBin env.userbin client)
  | .otaPush => (s, ⟨client, [], false⟩)
  | .reset =>
    let (r, armed) := httpUrlReset client
    (if armed then { s with resetArmed := true }.act r.client.conn .reset else s, r)
  | .smtpSetup =>
    let r := httpUrlSmtpSetup client s.settings
    let s' := { s with settings := r.settings }
    s.setupPage client
      (if r.armed then { s' with settingsArmed := true }.act r.client.conn (.settings r.settings) else s',
        ⟨r.client, r.sent, r.ret⟩)
  | .uptime => (s, httpUrlUptime w.uptimeUs client)
  | .version => (s, httpUrlVersion env.built client)
  | .wifiSetup =>
    let r := httpUrlWifiSetup w.taken client
    s.setupPage client
      (match r.station with
        | none => s
        | some conf => { s with station := some conf }.act r.page.client.conn (.station conf), r.page)
  | .notFound => (s, httpUrl404 client)

/-- The end of a call for slot `i`: its client is stored, its page is on its way. -/
def finish (s : Site) (i : Slot) (run : PageRun) : Site :=
  { s with
    base := (s.base.setClient i run.client).send run.client.conn (run.sent.head?.map pageText)
    pages := run.sent.map (run.client.conn, ·) ++ s.pages }

/-- `http_url_ota_push`, called for slot `i`. -/
def push (env : SiteEnv) (s : Site) (i : Slot) (w : SiteWorld) : Site × Bool :=
  let (r, result) := s.base.callPush env.ota i w.replies
  let (base, done) := s.base.pushUrl env.ota i w.replies
  let s := { s with base, pages := result.response.toList.map (fun page => (r.client.conn, ascii page)) ++ s.pages }
  (if result = .accepted then s.act r.client.conn .update else s, done)

/-- The second half of `http_process`. -/
def handle (env : SiteEnv) (s : Site) (i : Slot) (w : SiteWorld) : Site × Bool :=
  match httpDispatch (s.base.clients i) with
  | .error _ => ({ s with base := { s.base with crashed := true } }, false)
  | .ok none => (s, true)
  | .ok (some url) =>
    if url = .otaPush then s.push env i w
    else
      let (s, run) := s.call env w (s.base.clients i) url
      if s.crashed then (s, false) else (s.finish i run, run.ret)

/-- `http_process`, for the client in slot `i`. -/
def process (env : SiteEnv) (s : Site) (i : Slot) (w : SiteWorld) : Site × Bool :=
  if (s.base.clients i).state = .headers then
    match httpHeaders w.outside (s.base.clients i) with
    | .error _ => ({ s with base := { s.base with crashed := true } }, false)
    | .ok (client, .incomplete) => ({ s with base := s.base.setClient i client }, false)
    | .ok (client, .bad _) => ({ s with base := s.base.setClient i client }, true)
    | .ok (client, .complete) => { s with base := s.base.enter i client }.handle env i w
  else s.handle env i w

/-- `http_client_recv_cb`. -/
def recvCb (env : SiteEnv) (s : Site) (conn : ℕ) (data : List UInt8) (w : SiteWorld) : Site :=
  match s.base.reverse conn with
  | none => { s with base := s.base.post conn }
  | some i =>
    if (s.base.clients i).bufused + data.length > 2048 then { s with base := s.base.post conn }
    else
      match { s with base := s.base.take i data }.process env i w with
      | (s, true) => { s with base := s.base.post conn }
      | (s, false) => s

/-- The site runs no callback any more. -/
def stopped (s : Site) : Bool := s.base.crashed || s.base.rebooting || s.crashed || s.restarting

/-- One callback. -/
def step (env : SiteEnv) (s : Site) (e : SiteEvent) : Site :=
  if s.stopped then s
  else
    match e with
    | .connect conn registered => { s with base := s.base.connCb conn registered }
    | .recv conn data w => s.recvCb env conn data w
    | .disconnect conn => { s with base := s.base.disconnCb conn }
    | .error _ _ => s
    | .task => { s with base := { s.base with queue := s.base.queue.tail } }
    | .reboot => { s with base := s.base.otaReboot }
    | .reset => if s.resetArmed then { s with resetArmed := false, restarting := true } else s
    | .paramWrite left =>
      if s.settingsArmed then { s with settingsArmed := false, base := s.base.paramStore env.ota left } else s

/-- A run from boot. -/
def run (env : SiteEnv) (content : ℕ → UInt8) (settings : SmtpSettings) (es : List SiteEvent) : Site :=
  es.foldl (step env) (init content settings)

/-- The site after boot, in a world where nothing happens. -/
def bootedSite : Site := .init (fun _ => 0) oldAccount

def plainEnv : SiteEnv :=
  ⟨⟨.map4M256, user1Addr, ⟨bigintZero, bigintZero⟩⟩, ⟨ascii "Jan  1 2018 00:00:00", by decide, by decide⟩, 0⟩

def quietWorld : SiteWorld where
  outside := fun _ => .error .outOfBounds
  replies := []
  uptimeUs := 0
  area := ⟨logInit, Buf.zero _⟩
  stamp := fun _ => ⟨0, [], 0⟩
  sendFails := false
  taken := true

end Site
end Esp8266Toolbox
