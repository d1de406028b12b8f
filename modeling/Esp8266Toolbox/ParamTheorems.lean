import Esp8266Toolbox.Lib.Runs
import Esp8266Toolbox.Param

/-!
# Records of the parameter area

A store writes its record and nothing else, and a record that has been stored is read back until
a store overlaps it.
-/

namespace Esp8266Toolbox

/-- The SDK reads back and replaces the `area` it keeps in each sector, and does not fail. -/
structure ParamSdk.Reliable {F : Type} (sdk : ParamSdk F) (area : F → ℕ → Buf 1024) : Prop where
  load : ∀ f sec offset len, offset + len ≤ 1024 →
    sdk.load f sec offset len = (((area f sec).toList.drop offset).take len, true)
  save : ∀ f sec bytes, bytes.length = 1024 →
    (sdk.save f sec bytes).2 = true ∧ (area (sdk.save f sec bytes).1 sec).toList = bytes

/-- The record of a value. -/
def paramRecord (val : List UInt8) : List UInt8 := paramMagic ++ val

theorem paramRecord_length (val : List UInt8) : (paramRecord val).length = 4 + val.length := by
  rw [paramRecord, List.length_append]
  rfl

/-- The record of a call, with its magic bytes, lies inside the area. -/
def ParamCall.Inside : ParamCall → Prop
  | .store offset val => offset.toNat + 4 + val.length ≤ 1024
  | .retrieve offset len => offset.toNat + 4 + len.toNat ≤ 1024

/-- The call does not store into `[offset, offset + 4 + len)`. -/
def ParamCall.Apart (offset len : ℕ) : ParamCall → Prop
  | .store offset' val =>
    offset'.toNat + 4 + val.length ≤ offset ∨ offset + 4 + len ≤ offset'.toNat
  | .retrieve _ _ => True

variable {F : Type} {sdk : ParamSdk F} {area : F → ℕ → Buf 1024} {sizeKb : ℕ}

/-- A store that fits succeeds and writes its record into the area. -/
theorem paramStore_spec (hsdk : sdk.Reliable area) (hmap : flashSizeKb sdk.flashMap = some sizeKb)
    (s : ParamState F) {offset : UInt16} {val : List UInt8} (hin : offset.toNat + 4 + val.length ≤ 1024) :
    (paramStore sdk s offset val).2 = 0 ∧
      area (paramStore sdk s offset val).1.flash (paramSector sizeKb)
        = (area s.flash (paramSector sizeKb)).memcpy offset.toNat (paramRecord val) := by
  have hmagic : paramMagic.length = 4 := rfl
  have hload := hsdk.load s.flash (paramSector sizeKb) 0 1024 (by omega)
  rw [List.drop_zero, List.take_of_length_le (by simp)] at hload
  have hbuf : ∀ b : Buf 1024, (b.memcpy offset.toNat paramMagic).memcpy (offset.toNat + paramMagic.length) val
      = b.memcpy offset.toNat (paramRecord val) := fun b => b.memcpy_memcpy _ _ _ (by omega)
  unfold paramStore
  simp only [hmap]
  rw [if_neg (by omega)]
  simp only [hload, Bool.not_true, Bool.false_eq_true, if_false]
  rw [Buf.memcpy_whole, hbuf]
  rcases hsdk.save s.flash (paramSector sizeKb)
    ((area s.flash (paramSector sizeKb)).memcpy offset.toNat (paramRecord val)).toList (by simp) with
    ⟨hsaved, harea⟩
  simp only [hsaved, Bool.not_true, Bool.false_eq_true, if_false]
  exact ⟨trivial, Buf.ext harea⟩

/-- Retrieving changes nothing in flash. -/
theorem paramRetrieve_flash (s : ParamState F) (offset len : UInt16) :
    (paramRetrieve sdk s offset len).1.flash = s.flash := by
  unfold paramRetrieve
  split
  · rfl
  · dsimp only
    generalize memcmp _ _ _ = differ
    split
    · rfl
    · split <;> rfl

/-- A record is read back. -/
theorem paramRetrieve_record (hsdk : sdk.Reliable area) (hmap : flashSizeKb sdk.flashMap = some sizeKb)
    (s : ParamState F) {offset len : UInt16} {val : List UInt8} (hlen : len.toNat = val.length)
    (hin : offset.toNat + 4 + len.toNat ≤ 1024)
    (hrecord : (area s.flash (paramSector sizeKb)).slice offset.toNat (4 + len.toNat) = paramRecord val) :
    (paramRetrieve sdk s offset len).2 = some val := by
  have hmagic : paramMagic.length = 4 := rfl
  have hload := hsdk.load s.flash (paramSector sizeKb) offset.toNat (4 + len.toNat) (by omega)
  rw [Buf.slice] at hrecord
  rw [hrecord] at hload
  have hlength := paramRecord_length val
  have hbuf : (s.buf.memcpy 0 (paramRecord val)).toList
      = paramMagic ++ (val ++ s.buf.toList.drop (4 + val.length)) := by
    rw [Buf.toList_memcpy _ (by omega), List.take_zero, List.nil_append, Nat.zero_add, hlength, paramRecord,
      List.append_assoc]
  unfold paramRetrieve
  simp only [hmap, hmagic, hload, Bool.not_true, Bool.false_eq_true, if_false]
  rw [hbuf]
  have hcmp : ∀ rest, memcmp (paramMagic ++ rest) paramMagic (if 4 ≠ 0 then 1 else 0) = 0 := by
    intro rest
    simp [memcmp, paramMagic]
  rw [hcmp, if_neg (by decide)]
  dsimp only
  rw [← hmagic, List.drop_left, hlen, List.take_left]

/-- A store leaves what lies outside of its record as it is. -/
theorem paramStore_frame (hsdk : sdk.Reliable area) (hmap : flashSizeKb sdk.flashMap = some sizeKb)
    (s : ParamState F) {offset : UInt16} {val : List UInt8} (hin : offset.toNat + 4 + val.length ≤ 1024)
    {off len : ℕ} (hoff : off + len ≤ 1024)
    (hapart : offset.toNat + 4 + val.length ≤ off ∨ off + len ≤ offset.toNat) :
    (area (paramStore sdk s offset val).1.flash (paramSector sizeKb)).slice off len
      = (area s.flash (paramSector sizeKb)).slice off len := by
  have hlength := paramRecord_length val
  rw [(paramStore_spec hsdk hmap s hin).2]
  apply Buf.slice_congr hoff
  intro i hi hi'
  rw [Buf.get_memcpy, if_pos (by omega), if_neg (by omega)]

/-- A call that does not store into a record leaves it as it is. -/
theorem paramCall_apart (hsdk : sdk.Reliable area) (hmap : flashSizeKb sdk.flashMap = some sizeKb)
    (s : ParamState F) {c : ParamCall} (hin : c.Inside) {off len : ℕ} (hoff : off + 4 + len ≤ 1024)
    (hapart : c.Apart off len) :
    (area (paramCall sdk s c).flash (paramSector sizeKb)).slice off (4 + len)
      = (area s.flash (paramSector sizeKb)).slice off (4 + len) := by
  cases c with
  | store offset val =>
    apply paramStore_frame hsdk hmap s hin (by omega)
    rcases hapart with h | h
    · exact Or.inl h
    · right
      omega
  | retrieve offset len' =>
    show (area (paramRetrieve sdk s offset len').1.flash _).slice _ _ = _
    rw [paramRetrieve_flash]

/-- A stored value is read back as long as no store has overlapped its record, and a store leaves
the records it does not overlap as they are. -/
theorem param_read_back {F : Type} (sdk : ParamSdk F) (area : F → ℕ → Buf 1024) (hsdk : sdk.Reliable area)
    {sizeKb : ℕ} (hmap : flashSizeKb sdk.flashMap = some sizeKb) (s : ParamState F) :
    (∀ (before after : List ParamCall) (offset len : UInt16) (val : List UInt8),
      (∀ c ∈ before ++ .store offset val :: after, c.Inside) → len.toNat = val.length →
      (∀ c ∈ after, c.Apart offset.toNat len.toNat) →
      (paramRetrieve sdk (paramRun sdk s (before ++ .store offset val :: after)) offset len).2 = some val) ∧
    ∀ (offset : UInt16) (val : List UInt8) (off len : ℕ), offset.toNat + 4 + val.length ≤ 1024 →
      off + 4 + len ≤ 1024 → (ParamCall.store offset val).Apart off len →
      (area (paramStore sdk s offset val).1.flash (paramSector sizeKb)).slice off (4 + len)
        = (area s.flash (paramSector sizeKb)).slice off (4 + len) := by
  constructor
  · intro before after offset len val hinside hlen hapart
    have hstore : offset.toNat + 4 + val.length ≤ 1024 := hinside (.store offset val) (by simp)
    have hafter : ∀ c ∈ after, c.Inside := fun c hc => hinside c (by simp [hc])
    apply paramRetrieve_record hsdk hmap _ hlen (by omega)
    rw [paramRun, List.foldl_append, List.foldl_cons]
    -- the record is there after the store, and no later call touches it
    have hfresh : ∀ t, (area (paramCall sdk t (.store offset val)).flash (paramSector sizeKb)).slice
        offset.toNat (4 + len.toNat) = paramRecord val := by
      intro t
      show (area (paramStore sdk t offset val).1.flash _).slice _ _ = _
      have hlength := paramRecord_length val
      rw [(paramStore_spec hsdk hmap t hstore).2, hlen, ← hlength]
      exact Buf.slice_memcpy _ (by omega)
    have hkeep : ∀ t c, c ∈ after → (area t.flash (paramSector sizeKb)).slice offset.toNat (4 + len.toNat)
        = paramRecord val → (area (paramCall sdk t c).flash (paramSector sizeKb)).slice
        offset.toNat (4 + len.toNat) = paramRecord val := by
      intro t c hc h
      rw [paramCall_apart hsdk hmap t (hafter c hc) (by omega) (hapart c hc)]
      exact h
    exact Runs.foldl_inv_along hkeep (hfresh _) (Runs.along_of_forall (fun c hc _ => hc) _)
  · intro offset val off len hin hoff hapart
    exact paramCall_apart (c := .store offset val) hsdk hmap s hin hoff hapart

/-! ## A chip -/

/-- A chip that keeps the area of each sector. -/
def testParamSdk : ParamSdk (ℕ → Buf 1024) where
  flashMap := .map4M256
  load f sec offset len := (((f sec).toList.drop offset).take len, true)
  save f sec bytes := (Function.update f sec ((Buf.zero 1024).memcpy 0 bytes), true)

theorem testParamSdk_reliable : testParamSdk.Reliable fun f sec => f sec where
  load := fun _ _ _ _ _ => rfl
  save := by
    intro f sec bytes hlen
    refine ⟨rfl, ?_⟩
    show (Function.update f sec ((Buf.zero 1024).memcpy 0 bytes) sec).toList = bytes
    rw [Function.update_self, Buf.toList_memcpy _ (by omega), List.drop_of_length_le (by simp [hlen])]
    simp

theorem param_read_back_apart :
    (paramRetrieve testParamSdk (paramRun testParamSdk ⟨Buf.zero _, fun _ => Buf.zero _⟩
      ([] ++ .store 0 [1, 2, 3] :: [.store 7 [4], .retrieve 7 1])) 0 3).2 = some [1, 2, 3] := by
  apply (param_read_back testParamSdk _ testParamSdk_reliable rfl ⟨Buf.zero _, fun _ => Buf.zero _⟩).1
  · simp [ParamCall.Inside]
  · rfl
  · simp [ParamCall.Apart]

end Esp8266Toolbox
