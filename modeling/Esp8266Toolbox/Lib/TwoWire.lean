import Mathlib.Data.List.Basic

/-!
# Two-wire buses

A data wire and a clock wire. What counts on such a bus is not a level but a mark: data falls or
rises while the clock is high (the start and the stop condition), or a clock pulse goes by with
quiet data (a bit). A `Target` is any machine that hears the marks and may hold the data wire low;
`Bus.drive` is one change of what the master drives, with everything it causes.
-/

namespace TwoWire

/-- What is heard on the bus. -/
inductive Mark where
  | start | stop
  | bit (b : Bool)
deriving DecidableEq, Repr

/-- A machine on the bus. It hears marks, and holds the data wire low in some of its states. -/
structure Target (σ : Type*) where
  hear : σ → Mark → σ
  pulls : σ → Bool

/-- A clock pulse: the target hears what is on the data wire. -/
def Target.pulse {σ : Type*} (tgt : Target σ) (sda : Bool) (x : σ) : σ :=
  tgt.hear x (.bit (sda && !tgt.pulls x))

/-- The bus: what the master drives, the data level sampled at the last rise of the clock if no
condition has been heard since, and the state of the target. -/
structure Bus (σ : Type*) where
  sda : Bool
  scl : Bool
  bit : Option Bool
  target : σ
deriving DecidableEq, Repr

namespace Bus

variable {σ : Type*} (tgt : Target σ)

/-- The level of the data wire: low as soon as one side holds it low. -/
def wire (b : Bus σ) : Bool := b.sda && !tgt.pulls b.target

/-- The mark of a change from the levels of `b` to `wire` and `scl`, and the sample kept after it. -/
def listen (b : Bus σ) (wire scl : Bool) : Option Bool × Option Mark :=
  if b.scl && scl then
    if b.wire tgt && !wire then (none, some .start)
    else if !b.wire tgt && wire then (none, some .stop)
    else (b.bit, none)
  else if scl then (some wire, none)
  else (none, b.bit.map .bit)

/-- The master drives other levels. -/
def drive (b : Bus σ) (sda scl : Bool) : Bus σ :=
  let heard := b.listen tgt (sda && !tgt.pulls b.target) scl
  { sda, scl, bit := heard.1, target := heard.2.elim b.target (tgt.hear b.target) }

/-! ## The changes of a well-driven bus -/

/-- The clock is low, and nothing is sampled. -/
def low (sda : Bool) (x : σ) : Bus σ := ⟨sda, false, none, x⟩

/-- The clock is high. -/
def high (sda : Bool) (bit : Option Bool) (x : σ) : Bus σ := ⟨sda, true, bit, x⟩

/-- While the clock is low the data may change. -/
theorem drive_data (sda sda' : Bool) (x : σ) : (low sda x).drive tgt sda' false = low sda' x := rfl

/-- Under a low clock nothing is sampled. -/
theorem drive_down (b : Bus σ) (sda : Bool) :
    b.drive tgt sda false = low sda (b.drive tgt sda false).target := by
  cases h : b.scl <;> simp [drive, listen, low, h]

/-- The clock rises. -/
theorem drive_rise (sda : Bool) (x : σ) :
    (low sda x).drive tgt sda true = high sda (some (sda && !tgt.pulls x)) x := rfl

/-- Nothing changes while the clock is high. -/
theorem drive_high (sda : Bool) (bit : Option Bool) (x : σ) :
    (high sda bit x).drive tgt sda true = high sda bit x := by
  cases h : (sda && !tgt.pulls x) <;> simp [drive, listen, high, wire, h]

/-- The data falls under a high clock: a start, unless the target holds the data low anyway. -/
theorem drive_start {x : σ} (h : tgt.pulls x = false) (bit : Option Bool) :
    (high true bit x).drive tgt false true = high false none (tgt.hear x .start) := by
  simp [drive, listen, high, wire, h]

/-- The data rises under a high clock: a stop. -/
theorem drive_stop {x : σ} (h : tgt.pulls x = false) (bit : Option Bool) :
    (high false bit x).drive tgt true true = high true none (tgt.hear x .stop) := by
  simp [drive, listen, high, wire, h]

/-- While the target holds the data low, the master is not heard. -/
theorem drive_held {x : σ} (h : tgt.pulls x = true) (sda sda' : Bool) (bit : Option Bool) :
    (high sda bit x).drive tgt sda' true = high sda' bit x := by
  simp [drive, listen, high, wire, h]

end Bus
end TwoWire
