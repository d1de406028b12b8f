import Esp8266Toolbox.Log

/-!
# `log/log.h`

The macros `DEBUG` to `CRITICAL` format a message into `logbuf.line`, cut it there if it is too
long, and hand it to `log_entry`, unless the level of the subsystem is higher.
-/

namespace Esp8266Toolbox

/-- `LEVEL_…`. -/
inductive LogLevel where
  | debug | info | warning | error | critical
deriving DecidableEq, Repr

/-- The number of a level. -/
def LogLevel.num : LogLevel → ℕ
  | .debug => 10
  | .info => 20
  | .warning => 30
  | .error => 40
  | .critical => 50

/-- The name of a level in an entry. -/
def LogLevel.name : LogLevel → List UInt8
  | .debug => ascii "debug"
  | .info => ascii "info"
  | .warning => ascii "warning"
  | .error => ascii "error"
  | .critical => ascii "critical"

/-- `logbuf`, all of it. -/
structure LogArea where
  log : LogBuf
  line : Buf 192
deriving DecidableEq, Repr

/-- What a macro adds to its message: the uptime, `__FILE__` and `__LINE__`. -/
structure LogStamp where
  timeUs : UInt64
  file : List UInt8
  line : ℤ
deriving DecidableEq, Repr

/-- The formatted message in `logbuf.line`. -/
def logLine (line : Buf 192) (text : List UInt8) : Buf 192 :=
  let (line, rv) := snprintf line text
  if rv ≥ 192 then line.strncpy (192 - 4) (ascii "...") 4 else line

/-- The call of `log_entry` for a message that `logbuf.line` holds. -/
def logCall (level : LogLevel) (stamp : LogStamp) (line : Buf 192) : LogCall :=
  { timeUs := stamp.timeUs, level := level.name, file := stamp.file, line := stamp.line,
    mesg := line.toList }

/-- A macro of a subsystem whose level is `threshold`. -/
def LogArea.put (threshold : ℕ) (level : LogLevel) (stamp : LogStamp) (text : List UInt8)
    (a : LogArea) : LogArea :=
  if threshold ≤ level.num then
    let line := logLine a.line text
    { log := logEntry a.log (logCall level stamp line), line }
  else a

end Esp8266Toolbox
