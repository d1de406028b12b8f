import Mathlib.Algebra.Group.Nat.Defs
import Mathlib.Data.List.Basic
import Mathlib.Tactic.Common

/-!
# `uptime.c`

The 64-bit uptime is put together from the 32-bit counter of the SDK and a high word that
only the periodic `uptime_handler` maintains. Time is the true number of microseconds since
boot; the SDK's `system_get_time` returns it modulo `2^32`.

A run is a list of events: calls of `uptime_us` made elsewhere in the program, and runs of
the handler, which reads the clock three times. `UptimeSchedule` is what the timer
armed in `user_init` promises: the handler runs at least once every 20 minutes.
-/

namespace Esp8266Toolbox

/-- The SDK's clock at true time `T`. -/
def systemGetTime (T : ℕ) : UInt32 := UInt32.ofNat T

/-- The static variables of `uptime.c`. -/
structure UptimeState where
  high : UInt32
  last : UInt32
deriving DecidableEq, Repr

/-- Their values at boot. -/
def UptimeState.boot : UptimeState := ⟨0, 0⟩

/-- `uptime_us`, called at true time `T`. -/
def uptimeUs (s : UptimeState) (T : ℕ) : UInt64 :=
  (s.high.toUInt64 <<< 32) ||| (systemGetTime T).toUInt64

/-- `(us / 1000000) / (60*60*24)` stored into a `uint32_t`. -/
def uptimeDays (us : UInt64) : UInt32 := (us / 1000000 / 86400).toUInt32

/-- The update of `uptime_high` and `uptime_last` with the clock read at `T`. -/
def uptimeTick (s : UptimeState) (T : ℕ) : UptimeState :=
  let t := systemGetTime T
  ⟨if t < s.last then s.high + 1 else s.high, t⟩

/-- The subject of the daily mail, `"esp8266-%08x day %u"`. -/
def dailySubject (chipId days : UInt32) : String :=
  let hex := Nat.toDigits 16 chipId.toNat
  "esp8266-" ++ String.ofList (List.replicate (8 - hex.length) '0' ++ hex) ++ " day "
    ++ toString days.toNat

/-- `uptime_handler`, with the times of its three clock readings: the new state and the
subject of the mail, if one is sent. -/
def uptimeHandler (chipId : UInt32) (s : UptimeState) (T₁ T₂ T₃ : ℕ) : UptimeState × Option String :=
  let days1 := uptimeDays (uptimeUs s T₁)
  let s := uptimeTick s T₂
  let days2 := uptimeDays (uptimeUs s T₃)
  (s, if days2 > days1 then some (dailySubject chipId days2) else none)

/-! ## Runs -/

/-- What happens at the true times it carries. -/
inductive UptimeEvent where
  | call (T : ℕ)
  | handler (T₁ T₂ T₃ : ℕ)
deriving DecidableEq, Repr

/-- One call of `uptime_us`: when it was made, what it returned, and when the handler had
last read the clock before it. -/
structure UptimeCall where
  time : ℕ
  value : UInt64
  seen : ℕ
deriving DecidableEq, Repr

/-- The calls of `uptime_us` in a run, those of the handler included, in order; `L` is the
handler's last clock reading before the run. -/
def uptimeCalls (chipId : UInt32) : ℕ → UptimeState → List UptimeEvent → List UptimeCall
  | _, _, [] => []
  | L, s, .call T :: es => ⟨T, uptimeUs s T, L⟩ :: uptimeCalls chipId L s es
  | L, s, .handler T₁ T₂ T₃ :: es =>
    let s' := (uptimeHandler chipId s T₁ T₂ T₃).1
    ⟨T₁, uptimeUs s T₁, L⟩ :: ⟨T₃, uptimeUs s' T₃, T₂⟩ :: uptimeCalls chipId T₂ s' es

/-- The period of the timer in microseconds: `1000*60*20` milliseconds. -/
def uptimePeriod : ℕ := 1000 * 60 * 20 * 1000

/-- The events are in the order of their times, which start at `now` and stay below `2^64`, and
the handler, whose last clock reading was at `L`, reads the clock at least once a period. -/
def UptimeSchedule : ℕ → ℕ → List UptimeEvent → Prop
  | _, _, [] => True
  | L, now, .call T :: es => now ≤ T ∧ T ≤ L + uptimePeriod ∧ T < 2 ^ 64 ∧ UptimeSchedule L T es
  | L, now, .handler T₁ T₂ T₃ :: es =>
    now ≤ T₁ ∧ T₁ ≤ T₂ ∧ T₂ ≤ L + uptimePeriod ∧ T₂ ≤ T₃ ∧ T₃ ≤ T₂ + uptimePeriod ∧ T₃ < 2 ^ 64 ∧
      UptimeSchedule T₂ T₃ es

instance UptimeSchedule.decidable : (L now : ℕ) → (es : List UptimeEvent) →
    Decidable (UptimeSchedule L now es)
  | _, _, [] => inferInstanceAs (Decidable True)
  | L, _, .call T :: es =>
    have := UptimeSchedule.decidable L T es
    inferInstanceAs (Decidable (_ ∧ _))
  | _, _, .handler _ T₂ T₃ :: es =>
    have := UptimeSchedule.decidable T₂ T₃ es
    inferInstanceAs (Decidable (_ ∧ _))

/-- The call returned the time at which it was made. -/
def UptimeCall.Exact (c : UptimeCall) : Prop := c.value.toNat = c.time

/-- The 32-bit counter has not overflowed between the handler's last clock reading and the
call. -/
def UptimeCall.NoUnseenOverflow (c : UptimeCall) : Prop := c.time / 2 ^ 32 = c.seen / 2 ^ 32

/-- No call returned less than an earlier one. -/
def UptimeMonotone (calls : List UptimeCall) : Prop := calls.Pairwise fun c c' => c.value ≤ c'.value

end Esp8266Toolbox
