import Esp8266Toolbox.Drivers.Tsl2561

/-!
# The bus transactions of `drivers/tsl2561.c`

Each transaction that succeeds only adds to the trace, and adds no missing acknowledgement; one
that fails leaves a missing acknowledgement behind. What a transaction has read is the value it
returns.
-/

namespace Esp8266Toolbox

/-- The bytes that were read. -/
def Trace.reads (t : Trace) : List UInt8 :=
  t.filterMap fun | .read b => some b | _ => none

/-- A byte stayed without its acknowledgement. -/
def Trace.BusError (t : Trace) : Prop := .ack false ∈ t

instance (t : Trace) : Decidable t.BusError := inferInstanceAs (Decidable (.ack false ∈ t))

/-- The first byte read is not the identification of a known part. -/
def Trace.PartError (t : Trace) : Prop :=
  ∃ id, t.reads.head? = some id ∧ ¬(id >>> 4 = 1 ∨ id >>> 4 = 5)

@[simp] theorem Trace.reads_append (t u : Trace) : (t ++ u : Trace).reads = t.reads ++ u.reads :=
  List.filterMap_append

/-- A step that starts at the trace `t`: on success the trace `pos` of its result continues `t`
acknowledged, and has read what `got` says; on failure there is a missing acknowledgement. -/
def Transacts {α : Type} (t : Trace) (pos : α → Trace) (got : α → List UInt8 → Prop) :
    Except Trace α → Prop
  | .ok a => ∃ u : Trace, pos a = t ++ u ∧ ¬u.BusError ∧ got a u.reads
  | .error t' => t'.BusError

namespace Transacts

variable {α β : Type} {t : Trace} {pos : α → Trace} {got : α → List UInt8 → Prop}
  {pos' : β → Trace} {got' : β → List UInt8 → Prop} {r : Except Trace α}

theorem not_busError_append {u v : Trace} (hu : ¬u.BusError) (hv : ¬v.BusError) :
    ¬(u ++ v : Trace).BusError := fun h => (List.mem_append.mp h).elim hu hv

/-- One step after another. -/
theorem bind {f : α → Except Trace β} (h : Transacts t pos got r)
    (hf : ∀ a bs, got a bs → Transacts (pos a) pos' (fun b cs => got' b (bs ++ cs)) (f a)) :
    Transacts t pos' got' (r >>= f) := by
  cases r with
  | error t' => exact h
  | ok a =>
    obtain ⟨u, hpos, hu, hgot⟩ := h
    have hnext := hf a u.reads hgot
    change Transacts t pos' got' (f a)
    cases hfa : f a with
    | error t' => rw [hfa] at hnext; exact hnext
    | ok b =>
      rw [hfa] at hnext
      obtain ⟨v, hpos', hv, hgot'⟩ := hnext
      exact ⟨u ++ v, by rw [hpos', hpos, List.append_assoc], not_busError_append hu hv,
        by rw [Trace.reads_append]; exact hgot'⟩

/-- Conditions on the bus that neither miss an acknowledgement nor read a byte. -/
theorem of_append {u : Trace} (hu : ¬u.BusError) (hr : u.reads = [])
    (h : Transacts (t ++ u) pos got r) : Transacts t pos got r := by
  cases r with
  | error t' => exact h
  | ok a =>
    obtain ⟨v, hpos, hv, hgot⟩ := h
    exact ⟨u ++ v, by rw [hpos, List.append_assoc], not_busError_append hu hv,
      by rw [Trace.reads_append, hr]; exact hgot⟩

end Transacts

section
variable (dev : I2cDevice) (t : Trace)

/-- The steps that read nothing. -/
abbrev Silent (t : Trace) (r : Except Trace Trace) : Prop := Transacts t id (fun _ bs => bs = []) r

theorem send_transacts (b : UInt8) : Silent t (dev.send t b) := by
  unfold I2cDevice.send
  dsimp only
  cases dev.ack (t ++ [.write b]) with
  | false => simp [Transacts, Trace.BusError]
  | true => exact ⟨[.write b, .ack true], by simp, by simp [Trace.BusError], rfl⟩

theorem select_transacts {reg : UInt8} (hreg : ¬reg > 0x0f) : Silent t (dev.select t reg) := by
  unfold I2cDevice.select
  rw [if_neg hreg]
  refine .of_append (u := [.start]) (by decide) rfl (.bind (send_transacts dev _ _) ?_)
  rintro t' _ rfl
  exact send_transacts dev _ _

theorem tsl2561Writebyte_transacts {reg : UInt8} (hreg : ¬reg > 0x0f) (val : UInt8) :
    Silent t (tsl2561Writebyte dev t reg val) := by
  refine .bind (select_transacts dev t hreg) ?_
  rintro t' _ rfl
  refine .bind (send_transacts dev _ _) ?_
  rintro t'' _ rfl
  exact ⟨[.stop], rfl, by decide, rfl⟩

/-- A byte that is read is the byte returned. -/
theorem tsl2561Readbyte_transacts {reg : UInt8} (hreg : ¬reg > 0x0f) :
    Transacts t Prod.fst (fun a bs => bs = [a.2]) (tsl2561Readbyte dev t reg) := by
  refine .bind (select_transacts dev t hreg) ?_
  rintro t' _ rfl
  refine .of_append (u := [.start]) (by decide) rfl (.bind (send_transacts dev _ _) ?_)
  rintro t'' _ rfl
  exact ⟨[.read (dev.read t''), .sendNack, .stop], by simp, by simp [Trace.BusError], rfl⟩

/-- A word is read with its low byte first. -/
theorem tsl2561Readword_transacts {reg : UInt8} (hreg : ¬reg > 0x0f) :
    Transacts t Prod.fst
      (fun a bs => ∃ low high, bs = [low, high] ∧ a.2 = (high.toUInt16 <<< 8) ||| low.toUInt16)
      (tsl2561Readword dev t reg) := by
  refine .bind (select_transacts dev t hreg) ?_
  rintro t' _ rfl
  refine .of_append (u := [.start]) (by decide) rfl (.bind (send_transacts dev _ _) ?_)
  rintro t'' _ rfl
  exact ⟨[.read _, .sendAck, .read _, .sendNack, .stop], by simp, by simp [Trace.BusError],
    _, _, rfl, rfl⟩

/-- `tsl2561_lux` after the identification of the part. -/
def measurePart (dev : I2cDevice) (p : Trace × UInt8) : Except Trace (Trace × UInt16) := do
  let t ← tsl2561Writebyte dev p.1 REG_CONTROL 0x03
  let t ← tsl2561Writebyte dev t REG_TIMING 0x12
  let (t, data0) ← tsl2561Readword dev t REG_DATA0LOW
  let (t, data1) ← tsl2561Readword dev t REG_DATA1LOW
  let t ← tsl2561Writebyte dev t REG_CONTROL 0x00
  return (t, calcLux 1 2 (if p.2 >>> 4 == 5 then 0 else 1) data0 data1)

theorem tsl2561Measure_eq :
    tsl2561Measure dev t = tsl2561Readbyte dev t REG_ID >>= fun p =>
      if !(p.2 >>> 4 == 1 || p.2 >>> 4 == 5) then .error p.1 else measurePart dev p := rfl

/-- What the identification and the four bytes of the channels stand for. -/
def measured (id low0 high0 low1 high1 : UInt8) : UInt16 :=
  calcLux 1 2 (if id >>> 4 == 5 then 0 else 1) ((high0.toUInt16 <<< 8) ||| low0.toUInt16)
    ((high1.toUInt16 <<< 8) ||| low1.toUInt16)

theorem measurePart_transacts (p : Trace × UInt8) :
    Transacts p.1 Prod.fst (fun a bs => ∃ low0 high0 low1 high1,
      bs = [low0, high0, low1, high1] ∧ a.2 = measured p.2 low0 high0 low1 high1)
      (measurePart dev p) := by
  refine .bind (tsl2561Writebyte_transacts dev _ (by decide) _) ?_
  rintro t₁ _ rfl
  refine .bind (tsl2561Writebyte_transacts dev _ (by decide) _) ?_
  rintro t₂ _ rfl
  refine .bind (tsl2561Readword_transacts dev _ (by decide)) ?_
  rintro ⟨t₃, data0⟩ _ ⟨low0, high0, rfl, rfl⟩
  refine .bind (tsl2561Readword_transacts dev _ (by decide)) ?_
  rintro ⟨t₄, data1⟩ _ ⟨low1, high1, rfl, rfl⟩
  refine .bind (tsl2561Writebyte_transacts dev _ (by decide) _) ?_
  rintro t₅ _ rfl
  exact ⟨[], by simp, by decide, low0, high0, low1, high1, rfl, rfl⟩

/-- The bytes read by a measurement that succeeds, with the illuminance they stand for. -/
def Measured (t : Trace) (lux : UInt16) : Prop :=
  ∃ id low0 high0 low1 high1, t.reads = [id, low0, high0, low1, high1] ∧
    (id >>> 4 = 1 ∨ id >>> 4 = 5) ∧ lux = measured id low0 high0 low1 high1

theorem Measured.not_partError {lux : UInt16} (h : Measured t lux) : ¬t.PartError := by
  obtain ⟨id, low0, high0, low1, high1, hreads, hpart, -⟩ := h
  rintro ⟨id', hhead, hnot⟩
  rw [hreads, List.head?_cons, Option.some.injEq] at hhead
  exact hnot (hhead ▸ hpart)

/-- A measurement succeeds without an error of the bus or of the part, and fails with one. -/
theorem tsl2561Measure_spec :
    match tsl2561Measure dev [] with
    | .ok (t, lux) => ¬t.BusError ∧ Measured t lux
    | .error t => t.BusError ∨ t.PartError := by
  have hid := @tsl2561Readbyte_transacts dev [] REG_ID (by decide)
  rw [tsl2561Measure_eq]
  rcases hbyte : tsl2561Readbyte dev [] REG_ID with t | ⟨t, id⟩
  · rw [hbyte] at hid
    exact .inl hid
  · rw [hbyte] at hid
    obtain ⟨u, rfl, hbus, hreads⟩ := hid
    change match (if !(id >>> 4 == 1 || id >>> 4 == 5) then .error t else measurePart dev (t, id) :
        Except Trace (Trace × UInt16)) with
      | .ok (t, lux) => ¬t.BusError ∧ Measured t lux
      | .error t => t.BusError ∨ t.PartError
    -- the first byte read is the identification, which decides about the part
    by_cases hpart : id >>> 4 = 1 ∨ id >>> 4 = 5
    · rw [if_neg (by rcases hpart with h | h <;> simp [h])]
      have hrest := measurePart_transacts dev (t, id)
      rcases hm : measurePart dev (t, id) with t' | ⟨t', lux⟩
      · rw [hm] at hrest
        exact .inl hrest
      · rw [hm] at hrest
        obtain ⟨v, rfl, hbus', low0, high0, low1, high1, hreads', hlux⟩ := hrest
        refine ⟨Transacts.not_busError_append hbus hbus', id, low0, high0, low1, high1, ?_,
          hpart, hlux⟩
        rw [Trace.reads_append, hreads, hreads']
        rfl
    · rw [if_pos (by simpa using hpart)]
      exact .inr ⟨id, by rw [hreads]; rfl, hpart⟩

/-- A run of `tsl2561_lux` meets an error of the bus or of the part and returns -1, or it meets
none and returns the illuminance of the bytes it has read. -/
theorem tsl2561Lux_cases :
    (((tsl2561Lux dev).1.BusError ∨ (tsl2561Lux dev).1.PartError) ∧ (tsl2561Lux dev).2 = -1) ∨
    (¬(tsl2561Lux dev).1.BusError ∧ ∃ lux, Measured (tsl2561Lux dev).1 lux ∧
      (tsl2561Lux dev).2 = lux.toNat) := by
  have h := tsl2561Measure_spec dev
  unfold tsl2561Lux
  rcases hm : tsl2561Measure dev [] with t | ⟨t, lux⟩
  · rw [hm] at h
    exact .inl ⟨h, rfl⟩
  · rw [hm] at h
    exact .inr ⟨h.1, lux, h.2, rfl⟩

end

end Esp8266Toolbox
