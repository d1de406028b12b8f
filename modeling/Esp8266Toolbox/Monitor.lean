import Esp8266Toolbox.Drivers.Tsl2561
import Esp8266Toolbox.Http.UrlSmtp
import Esp8266Toolbox.Smtp.Session
import Esp8266Toolbox.Uptime

/-!
# The mails of the program: `user_init.c`, `uptime.c`, `wifi.c`

Three callbacks call `smtp_send`: the two timers that `user_init` arms, and the event that the station
has an address. `Program` is their static variables and the client of `smtp.c`; what the sensor, the
clock, the SDK and the mail server do is part of the event. `raised` is a history variable.
-/

namespace Esp8266Toolbox

/-! ## The timers -/

/-- The static variables of `monitor`. -/
structure MonitorState where
  oldlux : ℤ
  lastmail : UInt64
deriving DecidableEq, Repr

def MonitorState.boot : MonitorState := ⟨-1, 0⟩

/-- `llabs(now - lastmail) / 1000000 > 5*60`. -/
def mailDue (now lastmail : UInt64) : Bool := (now - lastmail).toInt64.toInt.natAbs / 1000000 > 5 * 60

/-- `"esp8266-%08x"`. -/
def chipName (chipId : UInt32) : String :=
  let hex := Nat.toDigits 16 chipId.toNat
  "esp8266-" ++ String.ofList (List.replicate (8 - hex.length) '0' ++ hex)

/-- `monitor`, with the result of `tsl2561_lux`, and of `uptime_us` should it be called. -/
def monitor (lux : ℤ) (now : UInt64) (chipId : UInt32) (s : MonitorState) : MonitorState × Option String :=
  if lux = -1 then (s, none)
  else if s.oldlux = -1 then ({ s with oldlux := lux }, none)
  else if lux > (s.oldlux * 14).tdiv 10 ∧ mailDue now s.lastmail then
    (⟨lux, now⟩, some (chipName chipId ++ " sharp lux increase"))
  else ({ s with oldlux := lux }, none)

/-- What the timers work on. -/
structure Timers where
  uptime : UptimeState
  monitor : MonitorState
deriving DecidableEq, Repr

/-- A timer fires: `uptime_handler`, with the times of its clock readings, or `monitor`, with that of
its own and with what is on the bus. -/
inductive TimerEvent where
  | uptime (T₁ T₂ T₃ : ℕ)
  | monitor (T : ℕ) (dev : I2cDevice)

namespace Timers

def boot : Timers := ⟨.boot, .boot⟩

/-- One timer, and the subject of the mail that it sends. -/
def fire (chipId : UInt32) (t : Timers) : TimerEvent → Timers × Option String
  | .uptime T₁ T₂ T₃ =>
    let (uptime, subj) := uptimeHandler chipId t.uptime T₁ T₂ T₃
    ({ t with uptime }, subj)
  | .monitor T dev =>
    let (monitor, subj) := Esp8266Toolbox.monitor (tsl2561Lux dev).2 (uptimeUs t.uptime T) chipId t.monitor
    ({ t with monitor }, subj)

end Timers

/-- The timers, with the last clock reading of the handler, and the calls of `uptime_us` with which
`monitor` has sent its mails. -/
structure TimerRun where
  timers : Timers
  seen : ℕ
  mails : List UptimeCall

namespace TimerRun

def step (chipId : UInt32) (r : TimerRun) (e : TimerEvent) : TimerRun :=
  let (timers, subj) := r.timers.fire chipId e
  match e with
  | .uptime _ T₂ _ => { r with timers, seen := T₂ }
  | .monitor T _ =>
    { r with timers, mails := r.mails ++ subj.toList.map fun _ => ⟨T, uptimeUs r.timers.uptime T, r.seen⟩ }

/-- A run from boot. -/
def run (chipId : UInt32) (es : List TimerEvent) : TimerRun := es.foldl (step chipId) ⟨.boot, 0, []⟩

end TimerRun

namespace TimerEvent

/-- The clock readings, as if `monitor` always called `uptime_us`. -/
def clock : TimerEvent → UptimeEvent
  | .uptime T₁ T₂ T₃ => .handler T₁ T₂ T₃
  | .monitor T _ => .call T

/-- The illuminance that `monitor` has measured. -/
def lux : TimerEvent → Option ℤ
  | .uptime _ _ _ => none
  | .monitor _ dev => if (tsl2561Lux dev).2 = -1 then none else some (tsl2561Lux dev).2

end TimerEvent

/-- The last illuminance that has been measured. -/
def lastLux (es : List TimerEvent) : Option ℤ := (es.filterMap TimerEvent.lux).getLast?

/-! ## The program -/

/-- What a call of `smtp_send` finds: the array of the subject, and the answers of the SDK. -/
structure SendCall where
  stack : Buf 64
  lookup : Lookup
  rv : ConnectRv

/-- A callback of the client itself. -/
def SmtpEvent.callback : SmtpEvent → Bool
  | .send _ _ _ | .setup _ => false
  | _ => true

/-- A callback of the program. -/
inductive ProgramEvent where
  | timer (e : TimerEvent) (call : SendCall)
  /-- `EVENT_STAMODE_GOT_IP`. -/
  | gotIp (call : SendCall)
  /-- The setup page writes `smtp_server`. -/
  | setup (account : SmtpSettings)
  | smtp (e : SmtpEvent) (h : e.callback = true)

/-- The program. -/
structure Program where
  timers : Timers
  /-- `smtp_server.from` and `smtp_server.to`; the rest of the account is with the client. -/
  from' : Buf 128
  to' : Buf 128
  mailer : SmtpRun
  /-- The subjects with which `smtp_send` has been called, and the mails. -/
  raised : List (String × Mail)

namespace Program

/-- After `user_init`, with what `smtp_init` has read. -/
def init (account : SmtpSettings) (logLevel : ℕ) : Program :=
  { timers := .boot, from' := account.from', to' := account.to', mailer := .init account.toSmtpServer logLevel,
    raised := [] }

/-- The text in `subj` after `os_snprintf`. -/
def subjText (stack : Buf 64) (subj : String) : List UInt8 := cstr (snprintf stack (ascii subj)).1.toList

/-- `smtp_send(smtp_server.from, smtp_server.to, subj, "")`. -/
def mail (p : Program) (stack : Buf 64) (subj : String) : Mail where
  from' := cstr p.from'.toList
  to' := cstr p.to'.toList
  subj := subjText stack subj
  body := []
  nul_free := ⟨cstr_no_zero _, cstr_no_zero _, cstr_no_zero _, List.not_mem_nil⟩

/-- The client returns before it looks at the mail. -/
def idle (p : Program) : Prop :=
  p.mailer.stopped = true ∨ ∃ host ∈ (p.mailer.client.server.host.str 0).toOption,
    host = [] ∨ p.mailer.client.stage ≠ .ready

instance (p : Program) : Decidable p.idle := inferInstanceAs (Decidable (_ ∨ _))

/-- The call of `smtp_send`. Where a string of the account does not end in its array, its length is
not that of a string of the array. -/
def notify (p : Program) (call : SendCall) (subj : String) : Program :=
  if p.idle ∨ 0 ∈ p.from'.toList ∧ 0 ∈ p.to'.toList then
    { p with
      mailer := p.mailer.step (.send (p.mail call.stack subj) call.lookup call.rv)
      raised := p.raised ++ [(subj, p.mail call.stack subj)] }
  else { p with mailer := { p.mailer with stopped := true } }

/-- One callback. -/
def step (chipId : UInt32) (p : Program) : ProgramEvent → Program
  | .timer e call =>
    let (timers, subj) := p.timers.fire chipId e
    match subj with
    | none => { p with timers }
    | some subj => { p with timers }.notify call subj
  | .gotIp call => p.notify call (chipName chipId ++ " online")
  | .setup account =>
    { p with from' := account.from', to' := account.to', mailer := p.mailer.step (.setup account.toSmtpServer) }
  | .smtp e _ => { p with mailer := p.mailer.step e }

/-- A run from `user_init`. -/
def run (chipId : UInt32) (account : SmtpSettings) (logLevel : ℕ) (es : List ProgramEvent) : Program :=
  es.foldl (step chipId) (init account logLevel)

end Program
end Esp8266Toolbox
