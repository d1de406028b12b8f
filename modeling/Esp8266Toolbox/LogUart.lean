import Esp8266Toolbox.Log

/-!
# `log/uart0/main.c`: the log on the host

The device prints every entry of its log, and the program at the other end of the line reads them byte
by byte, into an array of 1024, and prints a line when it is complete. The initialisation of the
port is left out.
-/

namespace Esp8266Toolbox

/-! ## The device -/

/-- What the calls of `log_entry` hand to `os_printf("%s", logbuf.entry)`. -/
def logPrinted (b : LogBuf) : List LogCall → List UInt8
  | [] => []
  | c :: calls => cstr (logEntry b c).entry.toList ++ logPrinted (logEntry b c) calls

/-- What is on the line, `putc` being what the SDK makes of one character. -/
def uartText (putc : UInt8 → List UInt8) (calls : List LogCall) : List UInt8 :=
  (logPrinted logInit calls).flatMap putc

/-! ## The host -/

/-- What `read(fd, buf+i, 1)` returns. -/
inductive ReadResult where
  | failed
  | nothing
  | byte (b : UInt8)
deriving DecidableEq, Repr

/-- `main`, in its loop. -/
structure Uart0 where
  buf : Buf 1024
  i : ℕ
  loop : Bool
  printed : List UInt8
  /-- The status it has returned. -/
  status : Option ℕ
deriving DecidableEq, Repr

/-- `main` before its loop; the array is not initialised. -/
def Uart0.start (buf : Buf 1024) : Uart0 := { buf, i := 0, loop := true, printed := [], status := none }

namespace Uart0

/-- The body of the loop. -/
def body (s : Uart0) : ReadResult → Uart0
  | .failed => { s with status := some 1 }
  | .nothing => s
  | .byte b =>
    let buf := s.buf.set s.i b
    let i := s.i + 1
    if i > 1024 - 1 then { s with buf, i, status := some 1 }
    else if buf.get (i - 1) = LF then
      let buf := buf.set i 0
      { s with buf, i := 0, printed := s.printed ++ cstr buf.toList }
    else { s with buf, i }

/-- What happens to the program: a call of `read` returns, or `sighandler` is called, on the way to `read`
or behind it. -/
inductive Event where
  | read (result : ReadResult)
  | signal (reading : Bool)
deriving DecidableEq, Repr

/-- One event. A loop that is left returns 0. -/
def step (s : Uart0) (e : Event) : Uart0 :=
  if s.status.isSome then s
  else
    match e with
    -- `loop` is not tested before the call of `read` has returned
    | .signal true => { s with loop := false }
    | .signal false => { s with loop := false, status := some 0 }
    | .read result =>
      let s := s.body result
      if s.status.isNone && !s.loop then { s with status := some 0 } else s

/-- The program from its loop on. -/
def run (buf : Buf 1024) (es : List Event) : Uart0 := es.foldl step (start buf)

/-- The bytes that `read` has returned. -/
def received : List Event → List UInt8
  | [] => []
  | .read (.byte b) :: es => b :: received es
  | _ :: es => received es

end Uart0
end Esp8266Toolbox
