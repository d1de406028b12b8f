import Esp8266Toolbox.Http.UrlSmtp
import Esp8266Toolbox.Param

/-!
# The mail account and the flash

`smtp_server` is filled from the parameter area at boot, changed by the setup page, and written back
by a timer that an accepted request arms. `SmtpAccount` is a device with these parts; the SDK, which
loads and saves the area, is a parameter as in `param.c`.
-/

namespace Esp8266Toolbox

/-! ## The structure in memory -/

/-- `sizeof(smtp_server)`. -/
def smtpServerSize : ℕ := 450

/-- The bytes of `smtp_server`; the port is a `uint16_t`, low byte first. -/
def SmtpSettings.bytes (s : SmtpSettings) : List UInt8 :=
  s.host.toList ++ [UInt8.ofNat s.port, UInt8.ofNat (s.port / 256)] ++ s.user.toList ++ s.pass.toList ++
    s.from'.toList ++ s.to'.toList

/-- `os_memcpy` over `smtp_server`. -/
def SmtpSettings.ofBytes (bs : List UInt8) : SmtpSettings :=
  let text (n off : ℕ) : Buf n := (Buf.zero n).memcpy 0 ((bs.drop off).take n)
  { host := text 64 0
    port := (bs.getD 64 0).toNat + 256 * (bs.getD 65 0).toNat
    user := text 64 66
    pass := text 64 130
    from' := text 128 194
    to' := text 128 322 }

/-- `os_bzero(&smtp_server, sizeof(smtp_server))`. -/
def SmtpSettings.zero : SmtpSettings :=
  { host := Buf.zero _, port := 0, user := Buf.zero _, pass := Buf.zero _, from' := Buf.zero _, to' := Buf.zero _ }

/-! ## The device -/

variable {F : Type}

/-- The parts of the device that the account lives in. -/
structure SmtpAccount (F : Type) where
  param : ParamState F
  /-- `smtp_server`. -/
  settings : SmtpSettings
  /-- The timer of `smtp_param_write` is armed. -/
  armed : Bool

/-- What happens to it. -/
inductive AccountEvent where
  /-- `http_url_smtp_setup` is called. -/
  | setup (client : HttpClient)
  /-- The timer fires. -/
  | paramWrite
  /-- The device starts again; static memory is cleared. -/
  | restart

/-- `smtp_init`, as far as `smtp_server` is concerned. -/
def smtpInit (sdk : ParamSdk F) (param : ParamState F) : ParamState F × SmtpSettings :=
  match paramRetrieve sdk param 0 (UInt16.ofNat smtpServerSize) with
  | (param, none) => (param, .zero)
  | (param, some bytes) => (param, .ofBytes bytes)

/-- `smtp_param_write`. -/
def smtpParamWrite (sdk : ParamSdk F) (param : ParamState F) (s : SmtpSettings) : ParamState F :=
  (paramStore sdk param 0 s.bytes).1

namespace SmtpAccount

/-- One event. -/
def step (sdk : ParamSdk F) (a : SmtpAccount F) : AccountEvent → SmtpAccount F
  | .setup client =>
    let r := httpUrlSmtpSetup client a.settings
    { a with settings := r.settings, armed := a.armed || r.armed }
  | .paramWrite =>
    if a.armed then { a with param := smtpParamWrite sdk a.param a.settings, armed := false } else a
  | .restart =>
    let (param, settings) := smtpInit sdk { a.param with buf := Buf.zero _ }
    ⟨param, settings, false⟩

/-- A run. -/
def run (sdk : ParamSdk F) (a : SmtpAccount F) (es : List AccountEvent) : SmtpAccount F := es.foldl (step sdk) a

end SmtpAccount
end Esp8266Toolbox
