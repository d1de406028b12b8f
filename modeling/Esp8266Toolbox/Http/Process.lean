import Esp8266Toolbox.Lib.CString

/-!
# `http/process.c` and the client record of `http/private.h`

`httpHeaders` is the `HTTP_STATE_HEADERS` half of `http_process`. It scans `client->buf` by
offset through a `Mem`, so that a scan past the 2048 bytes of the array is visible: what it
finds there is a parameter. The header section is parsed again from the start on every
segment, with the length the source keeps by hand.
-/

namespace Esp8266Toolbox

/-! ## The client record -/

/-- `HTTP_STATE_…`. -/
inductive HttpState where
  | headers
  | postdata
  | response
deriving DecidableEq, Repr

/-- `HTTP_METHOD_…`. -/
inductive HttpMethod where
  | get
  | post
deriving DecidableEq, Repr

/-- `HttpClient`; `conn` is the connection of the slot, `none` for `NULL`. -/
structure HttpClient where
  inuse : Bool
  conn : Option ℕ
  state : HttpState
  method : HttpMethod
  url : Buf 256
  host : Buf 64
  buf : Buf 2048
  bufused : ℕ
  postused : ℕ
  postlen : ℕ
deriving DecidableEq, Repr

/-- A slot after `os_bzero`. -/
def HttpClient.zero : HttpClient :=
  { inuse := false, conn := none, state := .headers, method := .get, url := Buf.zero _,
    host := Buf.zero _, buf := Buf.zero _, bufused := 0, postused := 0, postlen := 0 }

/-! ## The scanners -/

/-- The loop of `parseline` from `i` on, with `n` passes to go. -/
def parselineFrom (rd : Mem) (buf : ℕ) : ℕ → ℕ → Except Fault (Option ℕ)
  | 0, _ => .ok none
  | n + 1, i => do
    let c ← rd (buf + i - 1)
    if c = CR then
      let c' ← rd (buf + i)
      if c' = LF then return some (buf + i + 1)
      else parselineFrom rd buf n (i + 1)
    else parselineFrom rd buf n (i + 1)

/-- `parseline(buf, len)`: the offset after the line, or `none`. -/
def parseline (rd : Mem) (buf len : ℕ) : Except Fault (Option ℕ) := parselineFrom rd buf (len - 1) 1

/-- The token delimiters. -/
def blank (c : UInt8) : Bool := c = SP || c = CR || c = LF

/-- The first loop of `parsetoken`: the offset of the token, or `none` at `len`. -/
def skipBlanks (rd : Mem) (buf len : ℕ) : ℕ → ℕ → Except Fault (Option ℕ)
  | 0, _ => .error .outOfBounds
  | fuel + 1, i => do
    let c ← rd (buf + i)
    if blank c then
      if i = len then return none else skipBlanks rd buf len fuel (i + 1)
    else return some i

/-- The second loop of `parsetoken`: the offset after the token. -/
def skipToken (rd : Mem) (buf len : ℕ) : ℕ → ℕ → Except Fault ℕ
  | 0, _ => .error .outOfBounds
  | fuel + 1, i => do
    let c ← rd (buf + i)
    if blank c then return i
    else if i = len then return i
    else skipToken rd buf len fuel (i + 1)

/-- `parsetoken(buf, len, &end)`: the start and the end of the token, or `none`. -/
def parsetoken (rd : Mem) (buf len : ℕ) : Except Fault (Option (ℕ × ℕ)) := do
  match ← skipBlanks rd buf len ramSize 0 with
  | none => return none
  | some i =>
    let j ← skipToken rd buf len ramSize (i + 1)
    return some (buf + i, buf + j)

/-- The difference of two pointers as a `size_t`. -/
def ptrDiff (p q : ℕ) : ℕ := (p + 2 ^ 32 - q) % 2 ^ 32

/-- `os_strncmp(token, text, MIN(nexttoken-token, strlen(text))) == 0`. -/
def tokenIs (token : List UInt8) (text : String) : Bool :=
  strncmp token (ascii text) (min token.length (ascii text).length) = 0

/-! ## The request line and the header lines -/

/-- How `http_process` leaves the header section: incomplete (return 0), rejected with a
warning (return 1), or complete. -/
inductive Headers where
  | incomplete
  | bad (warning : String)
  | complete
deriving DecidableEq, Repr

/-- The request line `[buf, nextline)`. -/
def requestLine (rd : Mem) (client : HttpClient) (buf nextline : ℕ) :
    Except Fault (HttpClient × Headers) := do
  match ← parsetoken rd buf (ptrDiff nextline buf) with
  | none => return (client, .bad "incomplete request line")
  | some (token, nexttoken) =>
    let word ← readBytes rd token (nexttoken - token)
    if tokenIs word "GET" || tokenIs word "POST" then
      let client := { client with method := if tokenIs word "GET" then .get else .post }
      match ← parsetoken rd nexttoken (ptrDiff nextline nexttoken) with
      | none => return (client, .bad "incomplete request line")
      | some (token, nexttoken) =>
        if nexttoken - token > 256 then return (client, .bad "client url overflow")
        else
          let url ← readBytes rd token (nexttoken - token)
          -- the terminator of a url of 256 bytes lands in `host`, the next member
          let client := if url.length < 256 then
              { client with url := (client.url.memcpy 0 url).set url.length 0 }
            else { client with url := client.url.memcpy 0 url, host := client.host.set 0 0 }
          return (client, .complete)
    else return (client, .bad "unsupported method")

/-- The header line `[buf, nextline)`. -/
def headerLine (rd : Mem) (client : HttpClient) (buf nextline : ℕ) :
    Except Fault (HttpClient × Headers) := do
  match ← parsetoken rd buf (ptrDiff nextline buf) with
  | none => return (client, .bad "bad header line")
  | some (token, nexttoken) =>
    let word ← readBytes rd token (nexttoken - token)
    if tokenIs word "Host:" then
      match ← parsetoken rd nexttoken (ptrDiff nextline nexttoken) with
      | none => return (client, .bad "incomplete host header line")
      | some (token, nexttoken) =>
        if nexttoken - token > 64 then return (client, .bad "client host overflow")
        else
          let host ← readBytes rd token (nexttoken - token)
          -- the terminator of a host of 64 bytes lands in `buf`, the next member
          let client := if host.length < 64 then
              { client with host := (client.host.memcpy 0 host).set host.length 0 }
            else { client with host := client.host.memcpy 0 host, buf := client.buf.set 0 0 }
          return (client, .complete)
    else if tokenIs word "Content-Length:" then
      match ← parsetoken rd nexttoken (ptrDiff nextline nexttoken) with
      | none => return (client, .bad "incomplete content-length header line")
      | some (token, _) =>
        let v ← atoi rd token
        return ({ client with postlen := (v % 2 ^ 32).toNat }, .complete)
    else return (client, .complete)

/-- The test for the blank line: `len>=2 && buf[0]=='\r' && buf[1]=='\n'`. -/
def blankLine (rd : Mem) (buf len : ℕ) : Except Fault Bool :=
  if len ≥ 2 then do
    let c ← rd buf
    if c = CR then
      let c' ← rd (buf + 1)
      return c' = LF
    else return false
  else .ok false

/-- The loop over the header lines from `buf` on, `len` being what the source takes for the
number of bytes left; the result has the offset behind the blank line. -/
def headerLoop (rd : Mem) : ℕ → HttpClient → ℕ → ℕ → Except Fault (HttpClient × Headers × ℕ)
  | 0, _, _, _ => .error .outOfBounds
  | fuel + 1, client, buf, len => do
    if ← blankLine rd buf len then return (client, .complete, buf + 2)
    else
      match ← parseline rd buf len with
      | none => return (client, .incomplete, buf)
      | some nextline =>
        let (client, r) ← headerLine rd client buf nextline
        if r = .complete then
          -- `buf` is advanced before the difference is taken, so `len` stays
          let buf := nextline
          let len := len - (nextline - buf)
          headerLoop rd fuel client buf len
        else return (client, r, buf)

/-- The state the method asks for. -/
def HttpMethod.next : HttpMethod → HttpState
  | .get => .response
  | .post => .postdata

/-- The `HTTP_STATE_HEADERS` half of `http_process`; `outside` is what it reads when it leaves
`client->buf`. -/
def httpHeaders (outside : Mem) (client : HttpClient) : Except Fault (HttpClient × Headers) := do
  let rd := client.buf.mem outside
  match ← parseline rd 0 client.bufused with
  | none => return (client, .incomplete)
  | some nextline =>
    let (client, r) ← requestLine rd client 0 nextline
    if r = .complete then
      let (client, r, buf) ← headerLoop rd ramSize client nextline client.bufused
      if r = .complete then
        if client.bufused < buf then .error .outOfBounds
        else
          let left := (client.buf.toList.take client.bufused).drop buf
          return ({ client with buf := client.buf.memcpy 0 left, bufused := client.bufused - buf,
                                state := client.method.next }, .complete)
      else return (client, r)
    else return (client, r)

/-! ## The url -/

/-- `http_urls`, and the page for everything else. -/
inductive HttpUrl where
  | blank | logs | logsLower | logsRaise | otaBin | otaPush | reset | smtpSetup | uptime | version
  | wifiSetup | notFound
deriving DecidableEq, Repr

/-- The handler whose `baseurl` is `base`. -/
def HttpUrl.find (base : List UInt8) : HttpUrl :=
  if base = ascii "/" then .blank
  else if base = ascii "/logs" then .logs
  else if base = ascii "/logs/lower" then .logsLower
  else if base = ascii "/logs/raise" then .logsRaise
  else if base = ascii "/ota/bin" then .otaBin
  else if base = ascii "/ota/push" then .otaPush
  else if base = ascii "/reset" then .reset
  else if base = ascii "/smtp/setup" then .smtpSetup
  else if base = ascii "/uptime" then .uptime
  else if base = ascii "/version" then .version
  else if base = ascii "/wifi/setup" then .wifiSetup
  else .notFound

/-- The url up to its `?` or its terminator. -/
def HttpClient.baseurl (client : HttpClient) : List UInt8 :=
  client.url.toList.takeWhile fun c => c ≠ 0x3f && c ≠ 0

/-- The handler `http_process` calls; `none` when the base url is too long for its buffer. A
base url of exactly 128 bytes would be terminated outside of that buffer. -/
def httpDispatch (client : HttpClient) : Except Fault (Option HttpUrl) :=
  if client.baseurl.length > 128 then .ok none
  else if client.baseurl.length = 128 then .error .outOfBounds
  else .ok (some (HttpUrl.find client.baseurl))

/-- The text behind the first `?` of the url, `none` if it has none. A url that fills its array
runs on into the members behind it. -/
def HttpClient.query (client : HttpClient) : Option (List UInt8) :=
  let s := cstr (client.url.toList ++ client.host.toList ++ client.buf.toList)
  if 0x3f ∈ s then some ((s.dropWhile (· ≠ 0x3f)).tail) else none

/-- `HTTP_IGNORE_POSTDATA`; the flag says that the macro returned 0. -/
def ignorePostdata (client : HttpClient) : HttpClient × Bool :=
  if client.state = .postdata then
    let len := min client.bufused (client.postlen - client.postused)
    let left := (client.buf.toList.take client.bufused).drop len
    let client := { client with postused := client.postused + len, buf := client.buf.memcpy 0 left,
                                bufused := client.bufused - len }
    if client.postused = client.postlen then ({ client with state := .response }, false)
    else (client, true)
  else (client, false)

end Esp8266Toolbox
