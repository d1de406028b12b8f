import Esp8266Toolbox.Http.Outbuf
import Esp8266Toolbox.Http.Process
import Esp8266Toolbox.Http.Utils
import Esp8266Toolbox.Smtp.Client

/-!
# `http/url_smtp.c`: the page for the mail account

`http_url_smtp_setup` takes the query of the url apart and copies each value straight into
`smtp_server`. On the way the handler writes terminators into the url. A call does not look at them
again, so the model keeps the url here; `Site.parsed` is the url that a further segment finds. The log
macros are left out.
-/

namespace Esp8266Toolbox

/-- `SmtpServer` with the addresses, which the mail client does not look at. -/
structure SmtpSettings extends SmtpServer where
  from' : Buf 128
  to' : Buf 128
deriving DecidableEq, Repr

/-- A value stored in `smtp_server.port`. -/
def portValue (v : List UInt8) : ℕ := (atoiStr v % 2 ^ 16).toNat

/-- `index(s, c)` and a terminator written there: the string before it and the one behind it. -/
def cutAt (c : UInt8) (s : List UInt8) : Option (List UInt8 × List UInt8) :=
  if c ∈ s then some (s.takeWhile (· ≠ c), (s.dropWhile (· ≠ c)).tail) else none

/-- The copy of a value into a field, or `none` when it overflows. -/
def setText {n : ℕ} (b : Buf n) (val : List UInt8) : Option (Buf n) :=
  if val.length ≥ n then none else some (b.memcpy 0 (val ++ [0]))

/-- The comparisons of `key`. The error is `goto fail`, with `smtp_server` as it is then. -/
def setupField (key val : List UInt8) (s : SmtpSettings) : Except SmtpSettings SmtpSettings := do
  let s ←
    if strncmp key (ascii "host") 4 = 0 then
      match setText s.host val with
      | none => .error s
      | some b => .ok { s with host := b }
    else if strncmp key (ascii "port") 4 = 0 then .ok { s with port := portValue val }
    else if strncmp key (ascii "user") 4 = 0 then
      match setText s.user val with
      | none => .error s
      | some b => .ok { s with user := b }
    else if strncmp key (ascii "pass") 4 = 0 then
      match setText s.pass val with
      | none => .error s
      | some b => .ok { s with pass := b }
    else .ok s
  let s ←
    if strncmp key (ascii "from") 4 = 0 then
      match setText s.from' val with
      | none => .error s
      | some b => .ok { s with from' := b }
    else .ok s
  if strncmp key (ascii "to") 2 = 0 then
    match setText s.to' val with
    | none => .error s
    | some b => .ok { s with to' := b }
  else .ok s

/-- How the loop over the query ends: at its end, by `goto form`, or by `goto fail`. -/
inductive SetupExit where
  | done | form | fail
deriving DecidableEq, Repr

/-- At most `fuel` turns of the loop over the query. -/
def setupLoop : ℕ → List UInt8 → SmtpSettings → SmtpSettings × SetupExit
  | 0, _, s => (s, .form)
  | fuel + 1, key, s =>
    match cutAt 0x3d key with
    | none => (s, .form)
    | some (key, val) =>
      let (val, next) :=
        match cutAt 0x26 val with
        | some (val, next) => (val, some next)
        | none => (val, none)
      match setupField key (urlDecode val) s with
      | .error s => (s, .fail)
      | .ok s =>
        match next with
        | none => (s, .done)
        | some next => setupLoop fuel next s

/-- None of the strings of `smtp_server` is empty, and the port is not 0. -/
def SmtpSettings.Complete (s : SmtpSettings) : Prop :=
  s.host.get 0 ≠ 0 ∧ s.port ≠ 0 ∧ s.user.get 0 ≠ 0 ∧ s.pass.get 0 ≠ 0 ∧ s.from'.get 0 ≠ 0 ∧
    s.to'.get 0 ≠ 0

instance (s : SmtpSettings) : Decidable s.Complete := inferInstanceAs (Decidable (_ ∧ _))

/-! ## The pages -/

/-- The answer `202 Accepted`. -/
def setupAccepted : List (List UInt8) :=
  [ascii "HTTP/1.1 202 Accepted\r\n", ascii "Connection: close\r\n", ascii "Content-type: text/html\r\n",
    ascii "Content-length: 48\r\n", crlf, ascii "<html><body><h1>202 Accepted</h1></body></html>\n"]

/-- The answer `400 Bad Request`. -/
def setupBadRequest : List (List UInt8) :=
  [ascii "HTTP/1.1 400 Bad Request\r\n", ascii "Connection: close\r\n", ascii "Content-type: text/html\r\n",
    ascii "Content-length: 51\r\n", crlf, ascii "<html><body><h1>400 Bad Request</h1></body></html>\n"]

/-- A row of the form. -/
def setupRow (label : List UInt8) (name : String) (rest : List UInt8) : List (List UInt8) :=
  [ascii "<tr>", ascii "<td class=\"label\">" ++ label ++ ascii "</td>\n",
    ascii "<td><input type=\"text\" name=\"" ++ ascii name ++ ascii "\"></td>\n", rest]

/-- The form. -/
def setupForm : List (List UInt8) :=
  let sized (what : String) (n : ℕ) := ascii what ++ ascii " (max " ++ decimal n ++ ascii " bytes)"
  [ascii "<html><head><style>\n", ascii ".label \x7btext-align: right\x7d\n",
    ascii "</style></head><body>\n", ascii "<form action=\"/smtp/setup\" method=\"get\">\n",
    ascii "<table>\n"] ++
  setupRow (sized "Mail from" 128) "from" (ascii "<td/></tr>\n") ++
  setupRow (sized "Mail to" 128) "to" (ascii "<td/></tr>\n") ++
  setupRow (sized "Hostname" 64) "host" (ascii "<td/></tr>\n") ++
  setupRow (ascii "Port number") "port" (ascii "<td/></tr>\n") ++
  setupRow (sized "Username" 64) "user" (ascii "<td/></tr>\n") ++
  setupRow (sized "Password" 64) "pass" (ascii "<td><input type=\"submit\"/></td></tr>\n") ++
  [ascii "</table></form></body></html>\n"]

/-- The page that an exit leads to; `none` when an append returns from the handler. -/
def SetupExit.page : SetupExit → Option (List UInt8)
  | .done => outbufAppends [] setupAccepted
  | .fail => outbufAppends [] setupBadRequest
  | .form => do
    let head ← outbufAppends [] pageHead
    let out ← outbufAppends head setupForm
    return patchLength out (out.length - head.length)

/-! ## The handler -/

/-- The end of a call: the client, `smtp_server`, whether the timer of `smtp_param_write` was armed,
what was handed to `espconn_send`, and whether the handler returned 1. -/
structure SetupRun where
  client : HttpClient
  settings : SmtpSettings
  armed : Bool
  sent : List (List UInt8)
  ret : Bool
deriving DecidableEq, Repr

/-- The query taken apart, and the check that nothing is missing. -/
def setupResult (query : Option (List UInt8)) (s : SmtpSettings) : SmtpSettings × SetupExit :=
  match query with
  | none => (s, .form)
  | some key =>
    let r := setupLoop (key.length + 1) key s
    if r.2 = .done ∧ ¬r.1.Complete then (r.1, .form) else r

/-- `http_url_smtp_setup`. -/
def httpUrlSmtpSetup (client : HttpClient) (s : SmtpSettings) : SetupRun :=
  match ignorePostdata client with
  | (client, true) => ⟨client, s, false, [], false⟩
  | (client, false) =>
    let (s, exit) := setupResult client.query s
    let armed := exit = .done
    match exit.page with
    | none => ⟨client, s, armed, [], false⟩
    | some out => ⟨client, s, armed, [out], true⟩

end Esp8266Toolbox
