import Esp8266Toolbox.Http.Ota

/-!
# `http/init.c`: the server and its callbacks

The whole web server as a state machine: four client slots, the connections that point to
them, the queue of kill tasks, and the single `otastate` they share. `Server.step` is one
callback; everything the SDK and the network may choose (order of the callbacks, cutting of
the data, answers to flash calls, memory behind a client's buffer) is part of the event.

Two history variables record what the callbacks have done: `stream`, the bytes taken into a
slot behind the header section of its request, and `image`, what the last accepted push was
made of.
-/

namespace Esp8266Toolbox

/-- The server. -/
structure Server where
  clients : Slot → HttpClient
  reverse : ℕ → Option Slot
  queue : List ℕ
  ota : OtaState
  dev : FlashDev
  /-- `UPGRADE_FLAG_FINISH` has been set. -/
  finish : Bool
  /-- The timer that calls `ota_reboot` is armed. -/
  armed : Bool
  /-- `system_upgrade_reboot` has been called. -/
  rebooting : Bool
  /-- A callback has left the memory it may use; nothing is known any more. -/
  crashed : Bool
  /-- The pages handed to `espconn_send`, the latest first. -/
  sent : List (Option ℕ × String)
  stream : Slot → List UInt8
  image : Option (ℕ × List UInt8)

/-- The server after `http_init`, on a chip with the given flash content. -/
def Server.init (content : ℕ → UInt8) : Server :=
  { clients := fun _ => HttpClient.zero, reverse := fun _ => none, queue := [], ota := OtaState.zero,
    dev := ⟨content, [], []⟩, finish := false, armed := false, rebooting := false, crashed := false,
    sent := [], stream := fun _ => [], image := none }

/-- What a handler other than `http_url_ota_push` does once it has the whole request: the page
it sends, its return value, and the query part of the url as its parser leaves it. -/
structure OtherReply where
  page : Option String
  ret : Bool
  query : List UInt8
deriving DecidableEq, Repr

/-- A callback, with the choices of the environment. -/
inductive HttpEvent where
  /-- `http_server_conn_cb`; the flag says that both callbacks could be registered. -/
  | connect (conn : ℕ) (registered : Bool)
  /-- `http_client_recv_cb`. -/
  | recv (conn : ℕ) (data : List UInt8) (outside : Mem) (replies : List FlashReply)
      (other : OtherReply)
  /-- `http_client_disconn_cb`. -/
  | disconnect (conn : ℕ)
  /-- `http_server_error_cb`. -/
  | error (conn : ℕ) (err : ℤ)
  /-- `http_task` takes a task from the queue. -/
  | task
  /-- The timer armed by an accepted push fires. -/
  | reboot
  /-- `param_store` rewrites the parameter sectors. -/
  | paramStore (left : ℕ → UInt8)

namespace Server

/-- `system_os_post` of a kill task into a queue of four. -/
def post (s : Server) (conn : ℕ) : Server :=
  if s.queue.length < 4 then { s with queue := s.queue ++ [conn] } else s

/-- The slot `i` holds `client`. -/
def setClient (s : Server) (i : Slot) (client : HttpClient) : Server :=
  { s with clients := Function.update s.clients i client }

/-- The first free slot. -/
def freeSlot (s : Server) : Option Slot := (List.finRange 4).find? fun i => !(s.clients i).inuse

/-- `http_server_conn_cb`. -/
def connCb (s : Server) (conn : ℕ) (registered : Bool) : Server :=
  let s := { s with reverse := Function.update s.reverse conn none }
  if registered then
    match s.freeSlot with
    | none => s.post conn
    | some i =>
      { s with
        clients := Function.update s.clients i { HttpClient.zero with inuse := true, conn := some conn }
        reverse := Function.update s.reverse conn (some i)
        stream := Function.update s.stream i [] }
  else s.post conn

/-- `http_client_disconn_cb`. -/
def disconnCb (s : Server) (conn : ℕ) : Server :=
  match s.reverse conn with
  | none => s
  | some i => s.setClient i { s.clients i with inuse := false }

/-- `espconn_send` of a page, if there is one. -/
def send (s : Server) (conn : Option ℕ) (page : Option String) : Server :=
  match page with
  | none => s
  | some page => { s with sent := (conn, page) :: s.sent }

/-- A handler other than `http_url_ota_push`: `HTTP_IGNORE_POSTDATA`, then its page. The parsers of
the setup pages work on the query part of the url, in place. -/
def otherUrl (other : OtherReply) (client : HttpClient) : HttpClient × OtherReply :=
  match ignorePostdata client with
  | (client, true) => (client, { page := none, ret := false, query := [] })
  | (client, false) =>
    let k := client.baseurl.length
    if client.url.get k = 0x3f then ({ client with url := client.url.memcpy (k + 1) other.query }, other)
    else (client, other)

/-- The 202 path of `http_url_ota_push` behind the response. -/
def accept (s : Server) (i : Slot) : Server :=
  { s with finish := true, armed := true,
           image := some (s.ota.newaddrBeg, (s.stream i).take (s.clients i).postlen) }

/-- The call of `http_url_ota_push` for slot `i`. -/
def callPush (env : OtaEnv) (s : Server) (i : Slot) (replies : List FlashReply) : OtaRun × OtaResult :=
  otaPush env i ⟨s.clients i, s.ota, { s.dev with replies }⟩

/-- The server after a call for slot `i` that has left `r`. -/
def commit (s : Server) (i : Slot) (r : OtaRun) : Server :=
  { s with ota := r.ota, dev := r.dev }.setClient i r.client

/-- `http_url_ota_push` called by `http_process`; the flag is the return value 1. -/
def pushUrl (env : OtaEnv) (s : Server) (i : Slot) (replies : List FlashReply) : Server × Bool :=
  let (r, result) := s.callPush env i replies
  let s := (s.commit i r).send r.client.conn result.response
  match result with
  | .pending => (s, false)
  | .accepted => (s.accept i, true)
  | .rejected _ => (s, true)
  | .crashed => ({ s with crashed := true }, false)

/-- The second half of `http_process`: the url is looked up and its handler called. -/
def handle (env : OtaEnv) (s : Server) (i : Slot) (replies : List FlashReply) (other : OtherReply) :
    Server × Bool :=
  match httpDispatch (s.clients i) with
  | .error _ => ({ s with crashed := true }, false)
  | .ok none => (s, true)
  | .ok (some url) =>
    if url = .otaPush then s.pushUrl env i replies
    else
      let (client, reply) := otherUrl other (s.clients i)
      ((s.setClient i client).send client.conn reply.page, reply.ret)

/-- The bytes of `client->buf` in use. -/
def pendingBytes (client : HttpClient) : List UInt8 := client.buf.toList.take client.bufused

/-- The header section of slot `i` is complete: what is left in the buffer starts its stream. -/
def enter (s : Server) (i : Slot) (client : HttpClient) : Server :=
  { s.setClient i client with stream := Function.update s.stream i (pendingBytes client) }

/-- `http_process`, for the client in slot `i`. -/
def process (env : OtaEnv) (s : Server) (i : Slot) (outside : Mem) (replies : List FlashReply)
    (other : OtherReply) : Server × Bool :=
  if (s.clients i).state = .headers then
    match httpHeaders outside (s.clients i) with
    | .error _ => ({ s with crashed := true }, false)
    | .ok (client, .incomplete) => (s.setClient i client, false)
    | .ok (client, .bad _) => (s.setClient i client, true)
    | .ok (client, .complete) => (s.enter i client).handle env i replies other
  else s.handle env i replies other

/-- `os_memcpy` of the received data behind the bytes in use. -/
def extend (client : HttpClient) (data : List UInt8) : HttpClient :=
  { client with buf := client.buf.memcpy client.bufused data,
                bufused := client.bufused + data.length }

/-- The slot `i` takes the received data. -/
def take (s : Server) (i : Slot) (data : List UInt8) : Server :=
  { s.setClient i (extend (s.clients i) data) with
    stream := if (s.clients i).state = .headers then s.stream
      else Function.update s.stream i (s.stream i ++ data) }

/-- `http_client_recv_cb`. -/
def recvCb (env : OtaEnv) (s : Server) (conn : ℕ) (data : List UInt8) (outside : Mem)
    (replies : List FlashReply) (other : OtherReply) : Server :=
  match s.reverse conn with
  | none => s.post conn
  | some i =>
    if (s.clients i).bufused + data.length > 2048 then s.post conn
    else
      match (s.take i data).process env i outside replies other with
      | (s, true) => s.post conn
      | (s, false) => s

/-- The address of the three sectors `param_store` uses. -/
def paramAddr (sizeKb : ℕ) : ℕ := (sizeKb / 2 - 4 * 3) * 1024

/-- `param_store`, as far as flash is concerned. -/
def paramStore (env : OtaEnv) (s : Server) (left : ℕ → UInt8) : Server :=
  match flashSizeKb env.flashMap with
  | none => s
  | some sizeKb =>
    { s with dev := { s.dev with content := patch s.dev.content (paramAddr sizeKb) (3 * secSize) left } }

/-- `ota_reboot`. -/
def otaReboot (s : Server) : Server := if s.armed then { s with armed := false, rebooting := true } else s

/-- One callback. A server that has crashed or is rebooting runs none. -/
def step (env : OtaEnv) (s : Server) (e : HttpEvent) : Server :=
  if s.crashed || s.rebooting then s
  else
    match e with
    | .connect conn registered => s.connCb conn registered
    | .recv conn data outside replies other => s.recvCb env conn data outside replies other
    | .disconnect conn => s.disconnCb conn
    | .error _ _ => s
    | .task => { s with queue := s.queue.tail }
    | .reboot => s.otaReboot
    | .paramStore left => s.paramStore env left

/-- A run from boot. -/
def run (env : OtaEnv) (content : ℕ → UInt8) (es : List HttpEvent) : Server :=
  es.foldl (step env) (Server.init content)

end Server
end Esp8266Toolbox
