import Esp8266Toolbox.Lib.TextLines
import Esp8266Toolbox.LogMacros
import Esp8266Toolbox.Http.Outbuf
import Esp8266Toolbox.Http.Process

/-!
# `http/url_logs.c`: the log page

`http_url_logs` collects where the lines of `logbuf.main` begin and then shows the text between
every two neighbours of that list as a table row. `strchr` reads on into `logbuf.line` and
`logbuf.entry` when `logbuf.main` has no terminator.
-/

namespace Esp8266Toolbox

/-- What `http_url_logs` logs itself. -/
inductive LogsMessage where
  | extraBytes | avoided | overflow | sendFailed
deriving DecidableEq, Repr

/-- The level of a message. -/
def LogsMessage.level : LogsMessage → LogLevel
  | .extraBytes => .warning
  | .avoided => .debug
  | .overflow => .error
  | .sendFailed => .error

/-- The text of a message. -/
def LogsMessage.text : LogsMessage → List UInt8
  | .extraBytes => ascii "extra bytes after post data"
  | .avoided => ascii "avoided http_outbuf overflow"
  | .overflow => ascii "http_outbuf overflow"
  | .sendFailed => ascii "espconn_send() failed"

/-- The surroundings of a call: `HTTP_LOG_LEVEL`, what the macros add to the messages, and whether
`espconn_send` fails. -/
structure LogsEnv where
  threshold : ℕ
  stamp : LogsMessage → LogStamp
  sendFails : Bool

/-- `ERROR(HTTP, …)` and its like. -/
def LogsEnv.put (env : LogsEnv) (m : LogsMessage) (a : LogArea) : LogArea :=
  a.put env.threshold m.level (env.stamp m) m.text

/-- `HTTP_IGNORE_POSTDATA` with its warning; the flag says that the macro returned 0. -/
def logsPostdata (env : LogsEnv) (client : HttpClient) (a : LogArea) : HttpClient × LogArea × Bool :=
  let (client', pending) := ignorePostdata client
  let a := if client.state = .postdata ∧ client'.state = .response ∧ client'.bufused > 0 then
      env.put .extraBytes a
    else a
  (client', a, pending)

/-! ## The scan -/

/-- `MAX_LINES`. -/
def maxLines : ℕ := 100

/-- The memory from `logbuf.main` to the end of `logbuf`. -/
def LogArea.mem (a : LogArea) : List UInt8 :=
  a.log.main.toList ++ (a.line.toList ++ a.log.entry.toList)

/-- A call of `strchr`: where it starts, how many bytes it reads, and whether it succeeds. -/
structure LogSearch where
  start : ℕ
  reads : ℕ
  found : Bool
deriving DecidableEq, Repr

/-- The calls of `strchr` from offset `i` on. -/
def logScan (mem : List UInt8) : ℕ → ℕ → List LogSearch
  | 0, _ => []
  | fuel + 1, i =>
    if i < logMainLen then
      match strchr (mem.drop i) LF with
      | none => [⟨i, (cstr (mem.drop i)).length + 1, false⟩]
      | some n => ⟨i, n + 1, true⟩ :: logScan mem fuel (i + (n + 1))
    else []

/-- All calls of `strchr`. -/
def LogArea.searches (a : LogArea) : List LogSearch := logScan a.mem (logMainLen + 1) 0

/-- The values stored at `lines[count++]`, in order. -/
def LogArea.lines (a : LogArea) : List ℕ := (a.searches.filter (·.found)).map (·.start)

/-! ## The page -/

/-- The texts around a line in its row. -/
def rowBeg : List UInt8 := ascii "<tr><td><pre class=\"inline\">"
def rowEnd : List UInt8 := ascii "</pre></td></tr>\n"

/-- The end of the page. -/
def logsTrailer : List UInt8 := ascii "</table></body></html>\n"

/-- The texts between the blank line and the first row. -/
def logsTop (refresh : Bool) : List (List UInt8) :=
  [ascii "<html><head><style type=\"text/css\">\n" ++
    ascii "tr:nth-child(even) \x7b background-color: #ffffff; \x7d\n" ++
    ascii "tr:nth-child(odd)  \x7b background-color: #dddddd; \x7d\n" ++
    ascii "pre.inline         \x7b          display: inline;  \x7d\n" ++
    ascii "</style></head><body>\n"] ++
  (if refresh then
    [ascii "<script type=\"text/javascript\">\n",
      ascii "setTimeout(function() \x7b window.location.reload(true); \x7d, 20000);\n",
      ascii "</script>\n"]
  else []) ++
  [ascii "<table>\n"]

/-- Appends in the handler; the error carries `logbuf` as the handler leaves it when it returns 0. -/
def logsAppend (env : LogsEnv) (a : LogArea) (out : List UInt8) (srcs : List (List UInt8)) :
    Except LogArea (List UInt8) :=
  match outbufAppends out srcs with
  | none => .error (env.put .overflow a)
  | some out => .ok out

/-- `logbuf` with a byte of `logbuf.main` set. -/
def LogArea.poke (a : LogArea) (i : ℕ) (v : UInt8) : LogArea :=
  { a with log := { a.log with main := a.log.main.set i v } }

/-- The row of the line between the offsets `p` and `q`: a terminator stands at `q` meanwhile. -/
def logsRow (env : LogsEnv) (a : LogArea) (out : List UInt8) (p q : ℕ) :
    Except LogArea (LogArea × List UInt8) := do
  let t := a.log.main.get q
  let a := a.poke q 0
  let out ← logsAppend env a out [rowBeg, cstr (a.mem.drop p), rowEnd]
  return (a.poke q t, out)

/-- The loop over the rows. -/
def logsRows (env : LogsEnv) : List (ℕ × ℕ) → LogArea → List UInt8 → Except LogArea (LogArea × List UInt8)
  | [], a, out => .ok (a, out)
  | (p, q) :: rest, a, out =>
    if out.length + 19 + (q - p) ≥ httpOutbufMaxlen - 24 then .ok (env.put .avoided a, out)
    else do
      let (a, out) ← logsRow env a out p q
      logsRows env rest a out

/-- The page as it is sent, for the line starts that the scan has found. -/
def logsPage (env : LogsEnv) (refresh : Bool) (lines : List ℕ) (a : LogArea) :
    Except LogArea (LogArea × List UInt8) := do
  let out ← logsAppend env a [] pageHead
  let beg := out.length
  let out ← logsAppend env a out (logsTop refresh)
  let (a, out) ← logsRows env (lines.zip lines.tail) a out
  let out ← logsAppend env a out [logsTrailer]
  return (a, patchLength out (out.length - beg))

/-- The end of a call: the client, `logbuf`, what was handed to `espconn_send`, and whether the
handler returned 1. -/
structure LogsRun where
  client : HttpClient
  area : LogArea
  sent : List (List UInt8)
  ret : Bool
deriving DecidableEq, Repr

/-- The url as a string, which runs on into the members behind it if it fills its array. -/
def HttpClient.urlText (client : HttpClient) : List UInt8 :=
  cstr (client.url.toList ++ client.host.toList ++ client.buf.toList)

/-- `http_url_logs`. A store behind the end of `lines` ends the model of the call. -/
def httpUrlLogs (env : LogsEnv) (client : HttpClient) (a : LogArea) : Except Fault LogsRun :=
  match logsPostdata env client a with
  | (client, a, true) => .ok ⟨client, a, [], false⟩
  | (client, a, false) =>
    if a.lines.length > maxLines then .error .outOfBounds
    else
      let refresh := (strstr client.urlText (ascii "?refresh")).isSome
      match logsPage env refresh a.lines a with
      | .error a => .ok ⟨client, a, [], false⟩
      | .ok (a, out) =>
        let a := if env.sendFails then env.put .sendFailed a else a
        .ok ⟨client, a, [out], true⟩

end Esp8266Toolbox
