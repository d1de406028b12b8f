import Esp8266Toolbox.Http.UrlLogs
import Esp8266Toolbox.Http.UrlSmtp

/-!
# The small pages: `urls.c`, `url_info.c`, `url_reset.c`, `url_ota.c` and the levels of `url_logs.c`

`http_process` empties `http_outbuf` before it calls a handler. These handlers take no post data,
put one page together and send it; they differ in the page and in what they do beside it.
-/

namespace Esp8266Toolbox

/-- The end of a call: the client, what was handed to `espconn_send`, and whether the handler
returned 1. -/
structure PageRun where
  client : HttpClient
  sent : List (List UInt8)
  ret : Bool
deriving DecidableEq, Repr

/-- The end of a handler whose page is put together, or whose append has returned. -/
def sendPage (client : HttpClient) (page : Option (List UInt8)) : PageRun :=
  match page with
  | none => ⟨client, [], false⟩
  | some page => ⟨client, [page], true⟩

/-- A handler that begins with `HTTP_IGNORE_POSTDATA`, and what it does then. -/
def ignoringPostdata {α : Type} (client : HttpClient) (pending : HttpClient → α) (rest : HttpClient → α) : α :=
  match ignorePostdata client with
  | (client, true) => pending client
  | (client, false) => rest client

/-- A handler that only sends a page. -/
def servePage (client : HttpClient) (page : HttpClient → Option (List UInt8)) : PageRun :=
  ignoringPostdata client (fun client => ⟨client, [], false⟩) fun client => sendPage client (page client)

/-- `HTTP_OUTBUF_PRINTF`, with the text that the conversions make. -/
def outbufPrintf (out text : List UInt8) : Option (List UInt8) :=
  if text.length ≥ 128 then none else outbufAppend out text

/-- The end of a page that begins with a template for its length. -/
def finishPage (out : List UInt8) : List UInt8 := patchLength out (out.length - pageHead.flatten.length)

/-! ## `http/urls.c` -/

/-- The page of `http_url_404`. -/
def page404 : Option (List UInt8) :=
  outbufAppends []
    [ascii "HTTP/1.1 404 Not Found\r\n", ascii "Connection: close\r\n", ascii "Content-type: text/html\r\n",
      ascii "Content-length: 49\r\n", crlf, ascii "<html><body><h1>404 Not Found</h1></body></html>\n"]

/-- The page of `http_url_blank`. -/
def pageBlank : Option (List UInt8) :=
  outbufAppends []
    [ascii "HTTP/1.1 200 OK\r\n", ascii "Connection: close\r\n", ascii "Content-type: text/html\r\n",
      ascii "Content-length: 27\r\n", crlf, ascii "<html><body></body></html>\n"]

/-- `http_url_404`. -/
def httpUrl404 (client : HttpClient) : PageRun := servePage client fun _ => page404

/-- `http_url_blank`. -/
def httpUrlBlank (client : HttpClient) : PageRun := servePage client fun _ => pageBlank

/-! ## `http/url_info.c` -/

/-- The text `hh:mm:ss` and the days before it, as the page has them. -/
def uptimeText (uptimeUs : UInt64) : List (List UInt8) :=
  let uptimeSecs := uptimeUs / 1000000
  let days := (uptimeSecs / (60 * 60 * 24)).toUInt32
  let hours := (uptimeSecs % (60 * 60 * 24) / (60 * 60)).toUInt8
  let mins := (uptimeSecs % (60 * 60 * 24) % (60 * 60) / 60).toUInt8
  let secs := (uptimeSecs % (60 * 60 * 24) % (60 * 60) % 60).toUInt8
  (if days > 0 then [decimal days.toNat ++ ascii " days "] else []) ++
    [padded 2 hours.toNat ++ ascii ":" ++ padded 2 mins.toNat ++ ascii ":" ++ padded 2 secs.toNat ++
      ascii "</h1>"]

/-- The page of `http_url_uptime`, for what `uptime_us` returns. -/
def pageUptime (uptimeUs : UInt64) : Option (List UInt8) := do
  let out ← outbufAppends [] (pageHead ++ [ascii "<html><body>", ascii "<h1>Uptime of "])
  let out ← (uptimeText uptimeUs).foldlM outbufPrintf out
  let out ← outbufAppend out (ascii "</body></html>\n")
  return finishPage out

/-- `VERSION`. -/
def version : List UInt8 := ascii "1" ++ ascii "." ++ ascii "0" ++ ascii "." ++ ascii "0"

/-- `BUILD_DATETIME`: the date and the time of the compilation, which the compiler puts in. -/
structure BuildDatetime where
  text : List UInt8
  /-- `Mmm dd yyyy hh:mm:ss`. -/
  length_eq : text.length = 20
  no_zero : 0 ∉ text

/-- The page of `http_url_version`. -/
def pageVersion (built : BuildDatetime) : Option (List UInt8) := do
  let out ← outbufAppends [] (pageHead ++ [ascii "<html><body>"])
  let out ← outbufPrintf out
    (ascii "<h1>Version " ++ version ++ ascii " built on " ++ built.text ++ ascii "</h1>")
  let out ← outbufAppend out (ascii "</body></html>\n")
  return finishPage out

/-- `http_url_uptime`. -/
def httpUrlUptime (uptimeUs : UInt64) (client : HttpClient) : PageRun :=
  servePage client fun _ => pageUptime uptimeUs

/-- `http_url_version`. -/
def httpUrlVersion (built : BuildDatetime) (client : HttpClient) : PageRun :=
  servePage client fun _ => pageVersion built

/-! ## `http/url_reset.c` -/

/-- `http_url_reset`; the flag says that the timer was armed. -/
def httpUrlReset (client : HttpClient) : PageRun × Bool :=
  ignoringPostdata client (fun client => (⟨client, [], false⟩, false)) fun client =>
    match outbufAppends [] setupAccepted with
    | none => (sendPage client none, false)
    | some page => (sendPage client (some page), true)

/-! ## `http_url_ota_bin` -/

/-- The page of `http_url_ota_bin`, for what `system_upgrade_userbin_check` returns:
`UPGRADE_FW_BIN1` or `UPGRADE_FW_BIN2`. -/
def pageOtaBin (userbin : Fin 2) (client : HttpClient) : Option (List UInt8) := do
  let bin := decimal userbin
  if (strstr client.urlText (ascii "?text")).isSome then
    let out ← outbufAppends []
      [ascii "HTTP/1.1 200 OK\r\n", ascii "Connection: close\r\n", ascii "Content-type: text/plain\r\n",
        ascii "Content-length: 2\r\n", crlf]
    outbufPrintf out (bin ++ [LF])
  else
    let out ← outbufAppends []
      [ascii "HTTP/1.1 200 OK\r\n", ascii "Connection: close\r\n", ascii "Content-type: text/html\r\n",
        ascii "Content-length: 37\r\n", crlf]
    outbufPrintf out (ascii "<html><body><h1>" ++ bin ++ ascii "</h1></body></html>\n")

/-- `http_url_ota_bin`. -/
def httpUrlOtaBin (userbin : Fin 2) (client : HttpClient) : PageRun := servePage client (pageOtaBin userbin)

/-! ## The levels of `log/log.c` and their pages -/

/-- The subsystems that have a level of their own. -/
inductive LogSys where
  | crypto | driver | http | main | ota | smtp
deriving DecidableEq, Repr

/-- `CRYPTO_LOG_LEVEL` to `SMTP_LOG_LEVEL`. -/
abbrev LogLevels := LogSys → UInt8

/-- The levels at boot: `LEVEL_INFO`. -/
def LogLevels.boot : LogLevels := fun _ => 20

/-- `log_raise`. -/
def logRaise (sys : UInt8) : UInt8 :=
  if sys < 10 then 10
  else if sys < 20 then 20
  else if sys < 30 then 30
  else if sys < 40 then 40
  else if sys < 50 then 50
  else sys

/-- `log_lower`. -/
def logLower (sys : UInt8) : UInt8 :=
  if sys > 50 then 50
  else if sys > 40 then 40
  else if sys > 30 then 30
  else if sys > 20 then 20
  else if sys > 10 then 10
  else sys

/-- The subsystem that a url names; the comparisons are made in this order. -/
def logsSys (url : List UInt8) : Option LogSys :=
  if (strstr url (ascii "?crypto")).isSome then some .crypto
  else if (strstr url (ascii "?driver")).isSome then some .driver
  else if (strstr url (ascii "?http")).isSome then some .http
  else if (strstr url (ascii "?main")).isSome then some .main
  else if (strstr url (ascii "?ota")).isSome then some .ota
  else if (strstr url (ascii "?smtp")).isSome then some .smtp
  else none

/-- The answer to a request that names a subsystem. -/
def pageLevel : List (List UInt8) :=
  [ascii "HTTP/1.1 200 OK\r\n", ascii "Connection: close\r\n", ascii "Content-type: text/html\r\n",
    ascii "Content-length: 42\r\n", crlf, ascii "<html><body><h1>200 OK</h1></body></html>\n"]

/-- `http_url_logs_lower` and `http_url_logs_raise`, with what they call for the level. -/
def changeLevel (change : UInt8 → UInt8) (client : HttpClient) (levels : LogLevels) : PageRun × LogLevels :=
  ignoringPostdata client (fun client => (⟨client, [], false⟩, levels)) fun client =>
    match logsSys client.urlText with
    | some sys =>
      (sendPage client (outbufAppends [] pageLevel), Function.update levels sys (change (levels sys)))
    | none => (sendPage client (outbufAppends [] setupBadRequest), levels)

/-- `http_url_logs_lower`. -/
def httpUrlLogsLower (client : HttpClient) (levels : LogLevels) : PageRun × LogLevels :=
  changeLevel logLower client levels

/-- `http_url_logs_raise`. -/
def httpUrlLogsRaise (client : HttpClient) (levels : LogLevels) : PageRun × LogLevels :=
  changeLevel logRaise client levels

end Esp8266Toolbox
