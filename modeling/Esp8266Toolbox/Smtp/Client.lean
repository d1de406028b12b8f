import Esp8266Toolbox.Crypto.Base64
import Esp8266Toolbox.Crypto.CramMd5
import Esp8266Toolbox.Crypto.Md5

/-!
# `smtp/smtp.c`: the mail client

One mail at a time is sent over one connection. `Smtp.step` is one callback, or one call of
`smtp_send`; everything the SDK and the network may choose (the order of the callbacks, the
cutting of the data, the return values of the SDK, what the stack holds) is part of the event.
The buffers are the source's: what the server sends is looked at as a C string in `inbuf`, and a
scan that finds no terminator leaves the array, which is a fault.

`sent` records the data handed to `espconn_send`. The log macros are left out, but for one that
reads an array of the client without a terminator.
-/

namespace Esp8266Toolbox

/-- `SMTP_STATE_…`. -/
inductive SmtpStage where
  | failed | ready | resolve | connect | greet | challenge | auth | from' | to' | data | quit | close
deriving DecidableEq, Repr

/-- `SmtpServer`. -/
structure SmtpServer where
  host : Buf 64
  port : ℕ
  user : Buf 64
  pass : Buf 64
deriving DecidableEq, Repr

/-- The argument of an armed `smtp_send_kill`: `NULL`, or the connection of the callback that
armed it. -/
inductive KillArg where
  | null
  | conn
deriving DecidableEq, Repr

/-- `smtp_server`, `smtp_state` and `SMTP_LOG_LEVEL`. -/
structure Smtp where
  server : SmtpServer
  logLevel : ℕ
  stage : SmtpStage
  remotePort : ℕ
  remoteIp : UInt32
  /-- The armed timer. -/
  timer : Option KillArg
  inbuf : Buf 2048
  inbufused : ℕ
  outbuf : Buf 1024
  from' : Buf 128
  to' : Buf 128
  subj : Buf 128
  body : Buf 512
  /-- What has been handed to `espconn_send`, in order. -/
  sent : List (List UInt8)
deriving DecidableEq, Repr

/-- The arguments of `smtp_send`: C strings. -/
structure Mail where
  from' : List UInt8
  to' : List UInt8
  subj : List UInt8
  body : List UInt8
  nul_free : 0 ∉ from' ∧ 0 ∉ to' ∧ 0 ∉ subj ∧ 0 ∉ body
deriving DecidableEq, Repr

/-- The answer of `espconn_gethostbyname`. -/
inductive Lookup where
  | ok (ip : UInt32)
  | inprogress
  | failed
deriving DecidableEq, Repr

/-- Return values in `smtp_send_connect`. -/
structure ConnectRv where
  connectcb : ℤ
  reconcb : ℤ
  connect : ℤ
deriving DecidableEq, Repr

/-- Return values in `smtp_send_conn_cb`. -/
structure ConnRv where
  disconcb : ℤ
  recvcb : ℤ
  sentcb : ℤ
  send : ℤ
deriving DecidableEq, Repr

/-- What the local arrays of `smtp_send_challenge`, and those of the calls of `md5` in it, hold
before they are written. -/
structure Stack where
  chal : Buf 128
  left : Buf 64
  right : Buf 256
  md5 : ℕ → Md5State

/-- `LEVEL_DEBUG`. -/
def LEVEL_DEBUG : ℕ := 10

namespace Smtp

/-- The client after `smtp_init`, with what `param_retrieve` has read. -/
def init (server : SmtpServer) (logLevel : ℕ) : Smtp :=
  { server, logLevel, stage := .ready, remotePort := 0, remoteIp := 0, timer := none,
    inbuf := Buf.zero _, inbufused := 0, outbuf := Buf.zero _, from' := Buf.zero _, to' := Buf.zero _,
    subj := Buf.zero _, body := Buf.zero _, sent := [] }

/-- The failure exits: `SMTP_STATE_FAILED`, and the kill timer. -/
def fail (s : Smtp) (arg : KillArg) : Smtp := { s with stage := .failed, timer := some arg }

/-- `espconn_send(&smtp_state.conn, data, len)` with its failure exit. -/
def espconnSend (s : Smtp) (data : List UInt8) (rv : ℤ) : Smtp :=
  let s := { s with sent := s.sent ++ [data] }
  if rv ≠ 0 then s.fail .null else s

/-! ## Opening a session -/

/-- `smtp_send_connect`. -/
def sendConnect (s : Smtp) (ip : UInt32) (rv : ConnectRv) : Smtp :=
  let s := { s with stage := .connect, remotePort := s.server.port, remoteIp := ip }
  if rv.connectcb ≠ 0 then { s with stage := .failed }
  else if rv.reconcb ≠ 0 then { s with stage := .failed }
  else if rv.connect ≠ 0 then { s with stage := .failed }
  else s

/-- `smtp_send`. -/
def send (s : Smtp) (mail : Mail) (lookup : Lookup) (rv : ConnectRv) : Except Fault Smtp := do
  let host ← s.server.host.str 0
  if host.length = 0 then return s
  else if s.stage ≠ .ready then return s
  else if mail.from'.length + 1 > 128 then return s
  else
    let s := { s with from' := s.from'.strncpy 0 mail.from' (mail.from'.length + 1) }
    if mail.to'.length + 1 > 128 then return s
    else
      let s := { s with to' := s.to'.strncpy 0 mail.to' (mail.to'.length + 1) }
      if mail.subj.length + 1 > 128 then return s
      else
        let s := { s with subj := s.subj.strncpy 0 mail.subj (mail.subj.length + 1) }
        if mail.body.length + 1 > 512 then return s
        else
          let s := { s with body := s.body.strncpy 0 mail.body (mail.body.length + 1) }
          let s := { s with stage := .resolve }
          match lookup with
          | .ok ip => return s.sendConnect ip rv
          | .inprogress => return s
          | .failed => return { s with stage := .failed }

/-- `smtp_send_dns`. -/
def sendDns (s : Smtp) (ip : Option UInt32) (rv : ConnectRv) : Smtp :=
  match ip with
  | none => { s with stage := .failed }
  | some ip => s.sendConnect ip rv

/-- `smtp_send_conn_cb`. -/
def connCb (s : Smtp) (rv : ConnRv) : Smtp :=
  if rv.disconcb ≠ 0 then s.fail .conn
  else if rv.recvcb ≠ 0 then s.fail .conn
  else if rv.sentcb ≠ 0 then s.fail .conn
  else
    let s := { s with stage := .greet }
    s.espconnSend ((ascii "ehlo [127.0.1.1]\r\n").take 18) rv.send

/-! ## Lines of the server -/

/-- `os_strstr((char *)smtp_state.inbuf, "\r\n")`, after the store of a terminator where the
string ends anyway. -/
def lineEnd (s : Smtp) : Except Fault (Option ℕ) := do
  let text ← s.inbuf.str 0
  let inbuf ← s.inbuf.put text.length 0
  let text ← inbuf.str 0
  return strstr text crlf

/-- `smtp_state.inbuf` starts with the text. -/
def startsWith (s : Smtp) (text : String) (n : ℕ) : Bool := strncmp (ascii text) s.inbuf.toList n = 0

/-- The bytes up to `e` leave the buffer: a 16-bit subtraction, and a move of what is left and
the byte behind it. -/
def consume (s : Smtp) (e : ℕ) : Except Fault Smtp := do
  let inbufused := (s.inbufused + 65536 - e) % 65536
  let rest ← s.inbuf.load e (inbufused + 1)
  let inbuf ← s.inbuf.copy 0 rest
  return { s with inbuf, inbufused }

/-- The frame of the handlers that wait for one line: nothing happens before it is complete, a
line that does not start with `code` is a failure, and another one is taken out of the buffer
before `act`. -/
def onLine (s : Smtp) (code : String) (act : Smtp → Except Fault Smtp) : Except Fault Smtp := do
  match ← s.lineEnd with
  | none => return s
  | some e =>
    if s.startsWith code 4 then
      let s ← s.consume (e + 2)
      act s
    else return s.fail .null

/-- The text is formatted into `outbuf`, and `len` bytes of it are sent. -/
def sendFormatted (s : Smtp) (text : List UInt8) (len : ℕ) (rv : ℤ) : Except Fault Smtp := do
  let s := { s with outbuf := (snprintf s.outbuf text).1 }
  let data ← s.outbuf.load 0 len
  return s.espconnSend data rv

/-- `smtp_state.outbuf[j] = 0`, where `espconn_send` has not failed. -/
def terminate (s : Smtp) (j : ℕ) (rv : ℤ) : Except Fault Smtp :=
  if rv ≠ 0 then .ok s
  else do
    let outbuf ← s.outbuf.put j 0
    return { s with outbuf }

/-- `smtp_send_greet`, from one pass of its loop on; each pass takes a line out of the buffer. -/
def greetLoop (rv : ℤ) : ℕ → Smtp → Except Fault Smtp
  | 0, _ => .error .outOfBounds
  | fuel + 1, s => do
    match ← s.lineEnd with
    | none => return s
    | some e =>
      if s.startsWith "220" 3 || s.startsWith "250" 3 then
        let done := s.startsWith "250 " 4
        let s ← s.consume (e + 2)
        if done then
          let s := { s with stage := .challenge }
          return s.espconnSend ((ascii "AUTH CRAM-MD5\r\n").take 15) rv
        else if s.inbufused = 0 then return s
        else greetLoop rv fuel s
      else return s.fail .null

/-- `smtp_send_greet`. -/
def sendGreet (s : Smtp) (rv : ℤ) : Except Fault Smtp := greetLoop rv (s.inbufused + 1) s

/-! ## The answer to the challenge -/

/-- `for (i=0; i<MD5_BLOCKSIZE; i++) buf[i] ^= v`. -/
def xorBlock {n : ℕ} (b : Buf n) (v : UInt8) : Except Fault (Buf n) :=
  (List.range 64).foldlM (fun b i => b.put i (b.get i ^^^ v)) b

/-- `%02x` of each byte. -/
def hexLower (bs : List UInt8) : List UInt8 :=
  bs.flatMap fun (b : UInt8) => [(ascii "0123456789abcdef").getD (b >>> 4).toNat 0,
    (ascii "0123456789abcdef").getD (b &&& 15).toNat 0]

/-- The block of `smtp_send_challenge` that computes the answer, from the decoded challenge:
`outbuf` and the number of bytes to send, or `none` for a failure exit. -/
def respond (s : Smtp) (stack : Stack) (chal : Buf 128) : Except Fault (Option (Buf 1024 × ℕ)) := do
  let pass ← s.server.pass.str 0
  let key ←
    if pass.length > 64 then do
      let hash ← md5 (stack.md5 0) pass
      (Buf.zero 64).copy 0 hash
    else (Buf.zero 64).copy 0 pass
  let left ← stack.left.copy 0 key.toList
  let left ← xorBlock left 0x5c
  let text ← chal.str 0
  if 64 + text.length > 256 then return none
  else
    let right ← stack.right.copy 0 key.toList
    let right ← xorBlock right 0x36
    let right ← right.copy 64 text
    -- `DEBUG(SMTP, "right = …%s", …, right+16)`
    let _ ← if s.logLevel ≤ LEVEL_DEBUG then right.str 16 else pure []
    let hash ← md5 (stack.md5 1) (← right.load 0 (64 + text.length))
    let right ← right.copy 64 hash
    let right ← right.copy 0 left.toList
    let resp ← md5 (stack.md5 2) (← right.load 0 (64 + 16))
    let user ← s.server.user.str 0
    let len := user.length + 33
    if len > 256 then return none
    else
      let right := (snprintf right (user ++ ascii " " ++ hexLower resp)).1
      let (len2, outbuf) ← b64Encode (← right.load 0 len) s.outbuf
      if len2 < 0 then return none
      else
        let outbuf ← outbuf.copy len2.toNat crlf
        return some (outbuf, len2.toNat + 2)

/-- `smtp_send_challenge`. -/
def sendChallenge (s : Smtp) (stack : Stack) (rv : ℤ) : Except Fault Smtp := do
  match ← s.lineEnd with
  | none => return s
  | some e =>
    if s.startsWith "334 " 4 then
      let (len2, chal) ← b64Decode (← s.inbuf.load 4 (e - 4)) stack.chal
      if len2 < 0 then return s.fail .null
      else
        let chal ← chal.put len2.toNat 0
        let s ← s.consume (e + 2)
        let s := { s with stage := .auth }
        match ← s.respond stack chal with
        | none => return s.fail .null
        | some (outbuf, len) =>
          let s := { s with outbuf }
          let s := s.espconnSend (← s.outbuf.load 0 len) rv
          s.terminate (len - 2) rv
    else return s.fail .null

/-! ## The other handlers -/

/-- `smtp_send_auth`. -/
def sendAuth (s : Smtp) (rv : ℤ) : Except Fault Smtp :=
  s.onLine "235 " fun s => do
    let s := { s with stage := .from' }
    let from' ← s.from'.str 0
    let s ← s.sendFormatted (ascii "mail FROM:<" ++ from' ++ ascii ">\r\n") (from'.length + 14) rv
    s.terminate (from'.length + 12) rv

/-- `smtp_send_from`. -/
def sendFrom (s : Smtp) (rv : ℤ) : Except Fault Smtp :=
  s.onLine "250 " fun s => do
    let s := { s with stage := .to' }
    let to' ← s.to'.str 0
    let s ← s.sendFormatted (ascii "rcpt TO:<" ++ to' ++ ascii ">\r\n") (to'.length + 12) rv
    s.terminate (to'.length + 10) rv

/-- `smtp_send_to`. -/
def sendTo (s : Smtp) (rv : ℤ) : Except Fault Smtp :=
  s.onLine "250 " fun s =>
    let s := { s with stage := .data }
    s.sendFormatted (ascii "data\r\n") 6 rv

/-- `smtp_send_data`. -/
def sendData (s : Smtp) (rv : ℤ) : Except Fault Smtp :=
  s.onLine "354 " fun s => do
    let s := { s with stage := .quit }
    let from' ← s.from'.str 0
    let to' ← s.to'.str 0
    let subj ← s.subj.str 0
    let body ← s.body.str 0
    s.sendFormatted
      (ascii "From: " ++ from' ++ ascii "\r\nTo: " ++ to' ++ ascii "\r\nSubject: " ++ subj ++
        ascii "\r\n\r\n" ++ body ++ ascii "\r\n.\r\n")
      (6 + from'.length + 6 + to'.length + 11 + subj.length + 4 + body.length + 5) rv

/-- `smtp_send_quit`. -/
def sendQuit (s : Smtp) (rv : ℤ) : Except Fault Smtp :=
  s.onLine "250 " fun s =>
    let s := { s with stage := .close }
    s.sendFormatted (ascii "quit\r\n") 6 rv

/-- `smtp_send_close`. -/
def sendClose (s : Smtp) : Except Fault Smtp :=
  s.onLine "221 " fun s => return { s with stage := .ready }

/-- `smtp_send_recv_cb`. -/
def recvCb (s : Smtp) (data : List UInt8) (stack : Stack) (rv : ℤ) : Except Fault Smtp :=
  if s.inbufused + data.length ≥ 2048 then .ok (s.fail .null)
  else do
    let inbuf ← s.inbuf.copy s.inbufused data
    let s := { s with inbuf, inbufused := s.inbufused + data.length }
    match s.stage with
    | .greet => s.sendGreet rv
    | .challenge => s.sendChallenge stack rv
    | .auth => s.sendAuth rv
    | .from' => s.sendFrom rv
    | .to' => s.sendTo rv
    | .data => s.sendData rv
    | .quit => s.sendQuit rv
    | .close => s.sendClose
    | .failed | .ready | .resolve | .connect => return s

end Smtp

/-! ## Callbacks -/

/-- A callback or a call, with the choices of the environment. -/
inductive SmtpEvent where
  | send (mail : Mail) (lookup : Lookup) (rv : ConnectRv)
  | dns (ip : Option UInt32) (rv : ConnectRv)
  | connected (rv : ConnRv)
  /-- `smtp_send_error_cb`, which only logs: an attempt to connect has failed, or an open connection
  is gone. -/
  | error (err : ℤ) (connecting : Bool)
  /-- `smtp_send_disconn_cb`, which only logs. -/
  | disconnected
  | recv (data : List UInt8) (stack : Stack) (rv : ℤ)
  /-- `smtp_send_sent_cb`, which only logs. -/
  | sent
  /-- The timer fires: `smtp_send_kill`. -/
  | kill
  /-- The setup page writes `smtp_server`. -/
  | setup (server : SmtpServer)
  /-- `log_raise` or `log_lower`. -/
  | logLevel (level : ℕ)

/-- One callback. -/
def Smtp.step (s : Smtp) : SmtpEvent → Except Fault Smtp
  | .send mail lookup rv => s.send mail lookup rv
  | .dns ip rv => .ok (s.sendDns ip rv)
  | .connected rv => .ok (s.connCb rv)
  | .error _ _ => .ok s
  | .disconnected => .ok s
  | .recv data stack rv => s.recvCb data stack rv
  | .sent => .ok s
  | .kill => .ok { s with timer := none }
  | .setup server => .ok { s with server }
  | .logLevel level => .ok { s with logLevel := level }

end Esp8266Toolbox
