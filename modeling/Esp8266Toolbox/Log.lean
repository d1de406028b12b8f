import Esp8266Toolbox.Lib.Format

/-!
# `log/log.c`

The log buffer. An entry is formatted into `logbuf.entry`, cut there if it is too long, and put
at the front of `logbuf.main`, whose end falls off.
-/

namespace Esp8266Toolbox

/-- `sizeof(logbuf.main)`: `HTTP_OUTBUF_MAXLEN-500`. -/
def logMainLen : ℕ := 4 * 1024 - 500

/-- `LogBuf`, without the `line` that the logging macros format into. -/
structure LogBuf where
  main : Buf logMainLen
  entry : Buf 256
deriving DecidableEq, Repr

/-- `log_init`. -/
def logInit : LogBuf := ⟨Buf.zero _, Buf.zero _⟩

/-- A call of `log_entry`: the uptime it reads and its arguments. -/
structure LogCall where
  timeUs : UInt64
  level : List UInt8
  file : List UInt8
  line : ℤ
  mesg : List UInt8
deriving DecidableEq, Repr

/-- The time stamp, `"%ud %02u:%02u:%02u.%03u"` or the same without the days. -/
def logStamp (timeUs : UInt64) : List UInt8 :=
  let timeSecs := timeUs / 1000000
  let days := (timeSecs / (60 * 60 * 24)).toUInt32
  let hrs := (timeSecs % (60 * 60 * 24) / (60 * 60)).toUInt8
  let mins := (timeSecs % (60 * 60 * 24) % (60 * 60) / 60).toUInt8
  let secs := (timeSecs % (60 * 60 * 24) % (60 * 60) % 60).toUInt8
  let ms := (timeUs % 1000000 / 1000).toUInt16
  let clock := padded 2 hrs.toNat ++ ascii ":" ++ padded 2 mins.toNat ++ ascii ":" ++ padded 2 secs.toNat
    ++ ascii "." ++ padded 3 ms.toNat
  if days > 0 then decimal days.toNat ++ ascii "d " ++ clock else clock

/-- The formatted text, `"…: %s: %s:%d: %s\n"`. -/
def LogCall.text (c : LogCall) : List UInt8 :=
  logStamp c.timeUs ++ ascii ": " ++ cstr c.level ++ ascii ": " ++ cstr c.file ++ ascii ":" ++ signed c.line
    ++ ascii ": " ++ cstr c.mesg ++ [LF]

/-- `log_entry`. -/
def logEntry (b : LogBuf) (c : LogCall) : LogBuf :=
  let (entry, rv) := snprintf b.entry c.text
  let entry := if rv ≥ 256 then entry.strncpy (256 - 5) (ascii "...\n") 5 else entry
  let len := (cstr entry.toList).length
  let main := b.main.memcpy len (b.main.toList.take (logMainLen - len))
  let main := main.memcpy 0 (entry.toList.take len)
  { main, entry }

/-- A sequence of calls from `log_init` on. -/
def logRun (calls : List LogCall) : LogBuf := calls.foldl logEntry logInit

end Esp8266Toolbox
