import Esp8266Toolbox.Lib.Checked
import Esp8266Toolbox.ParamTheorems

/-!
# What `param.c` checks

`param_retrieve` compares one byte of the magic instead of four, and the one bound that
`param_store` checks leaves the offset out. The functions are repeated here with every access
to `param_buf` checked; where no access fails, they are the functions of the model.
-/

namespace Esp8266Toolbox

variable {F : Type} {sdk : ParamSdk F}

/-! ## Accesses to `param_buf` -/

/-- `param_store` with checked accesses: a run that leaves `param_buf` is an error. -/
def paramStoreChecked (sdk : ParamSdk F) (s : ParamState F) (offset : UInt16) (val : List UInt8) :
    Except Fault (ParamState F × ℕ) :=
  match flashSizeKb sdk.flashMap with
  | none => .ok (s, 1)
  | some sizeKb =>
    if 1024 < paramMagic.length + val.length then .ok (s, 1)
    else do
      let (bytes, loaded) := sdk.load s.flash (paramSector sizeKb) 0 1024
      let buf ← s.buf.copy 0 bytes
      if !loaded then return ({ s with buf }, 1)
      else
        let buf ← buf.copy offset.toNat paramMagic
        let buf ← buf.copy (offset.toNat + paramMagic.length) val
        let data ← buf.load 0 1024
        let (flash, saved) := sdk.save s.flash (paramSector sizeKb) data
        if !saved then return (⟨buf, flash⟩, 1) else return (⟨buf, flash⟩, 0)

/-- `param_retrieve` with checked accesses. -/
def paramRetrieveChecked (sdk : ParamSdk F) (s : ParamState F) (offset len : UInt16) :
    Except Fault (ParamState F × Option (List UInt8)) :=
  match flashSizeKb sdk.flashMap with
  | none => .ok (s, none)
  | some sizeKb => do
    let (bytes, loaded) := sdk.load s.flash (paramSector sizeKb) offset.toNat (paramMagic.length + len.toNat)
    let buf ← s.buf.copy 0 bytes
    if !loaded then return ({ s with buf }, none)
    else
      let count := if paramMagic.length ≠ 0 then 1 else 0
      let front ← buf.load 0 count
      if memcmp front paramMagic count ≠ 0 then return ({ s with buf }, none)
      else
        let val ← buf.load paramMagic.length len.toNat
        return ({ s with buf }, some val)

/-- `system_param_load` writes at most the bytes it is asked for, and all of them when it
succeeds. -/
def ParamSdk.LoadsAsked (sdk : ParamSdk F) : Prop :=
  ∀ f sec offset len, (sdk.load f sec offset len).1.length ≤ len ∧
    ((sdk.load f sec offset len).2 = true → (sdk.load f sec offset len).1.length = len)

/-- `param_buf` after the copies of `param_store` over the bytes it has loaded. -/
def storedBuf (s : ParamState F) (bytes : List UInt8) (offset : UInt16) (val : List UInt8) : Buf 1024 :=
  ((s.buf.memcpy 0 bytes).memcpy offset.toNat paramMagic).memcpy (offset.toNat + paramMagic.length) val

/-- What should hold of a call of `param_store`: it returns nonzero without changing the flash, or
its accesses to `param_buf` stay inside. -/
def StoreBounded (sdk : ParamSdk F) (s : ParamState F) (offset : UInt16) (val : List UInt8) : Prop :=
  ((paramStore sdk s offset val).2 ≠ 0 ∧ (paramStore sdk s offset val).1.flash = s.flash) ∨
    ∃ r, paramStoreChecked sdk s offset val = .ok r

/-- The same of a call of `param_retrieve`. -/
def RetrieveBounded (sdk : ParamSdk F) (s : ParamState F) (offset len : UInt16) : Prop :=
  ((paramRetrieve sdk s offset len).2 = none ∧ (paramRetrieve sdk s offset len).1.flash = s.flash) ∨
    ∃ r, paramRetrieveChecked sdk s offset len = .ok r

/-- Where the map is supported, the value passes the guard and the area is loaded, the record lies
in the area, or the save fails and leaves the flash as it was. -/
def StoreSafe (sdk : ParamSdk F) (s : ParamState F) (offset : UInt16) (val : List UInt8) : Prop :=
  ∀ sizeKb bytes, flashSizeKb sdk.flashMap = some sizeKb → 4 + val.length ≤ 1024 →
    sdk.load s.flash (paramSector sizeKb) 0 1024 = (bytes, true) → offset.toNat + 4 + val.length ≤ 1024 ∨
      sdk.save s.flash (paramSector sizeKb) (storedBuf s bytes offset val).toList = (s.flash, false)

/-- Where the map is supported and more bytes are loaded than `param_buf` has, the first one is
not that of the magic. -/
def RetrieveSafe (sdk : ParamSdk F) (s : ParamState F) (offset len : UInt16) : Prop :=
  ∀ sizeKb bytes, flashSizeKb sdk.flashMap = some sizeKb → 1024 < 4 + len.toNat →
    sdk.load s.flash (paramSector sizeKb) offset.toNat (4 + len.toNat) = (bytes, true) → bytes.headD 0 ≠ 0xca

/-! ## Calls that stay inside -/

theorem copy_error {n : ℕ} (b : Buf n) {off : ℕ} {src : List UInt8} (h : ¬off + src.length ≤ n) :
    b.copy off src = .error .outOfBounds := if_neg h

/-- The checked accesses of `param_store`, once the area is loaded. -/
theorem paramStoreChecked_ok_iff {s : ParamState F} {sizeKb : ℕ} {bytes : List UInt8}
    (hmap : flashSizeKb sdk.flashMap = some sizeKb) (offset : UInt16) {val : List UInt8}
    (hlen : 4 + val.length ≤ 1024) (hload : sdk.load s.flash (paramSector sizeKb) 0 1024 = (bytes, true))
    (hbytes : bytes.length ≤ 1024) :
    (∃ r, paramStoreChecked sdk s offset val = .ok r) ↔ offset.toNat + 4 + val.length ≤ 1024 := by
  have hmagic : paramMagic.length = 4 := rfl
  unfold paramStoreChecked
  simp only [hmap, hmagic, hload, Bool.not_true, Bool.false_eq_true, if_false]
  rw [if_neg (by omega), Buf.copy_ok s.buf (by omega), Loops.ok_bind]
  by_cases hin : offset.toNat + 4 + val.length ≤ 1024
  · -- both copies stay inside, and so does the save
    rw [Buf.copy_ok _ (by omega), Loops.ok_bind, Buf.copy_ok _ (by omega), Loops.ok_bind, Buf.load_ok _ (by omega),
      Loops.ok_bind]
    refine iff_of_true ?_ hin
    split
    · exact ⟨_, rfl⟩
    · exact ⟨_, rfl⟩
  · refine iff_of_false ?_ hin
    rintro ⟨r, hr⟩
    obtain ⟨buf, hfirst, hr⟩ := Loops.bind_eq_ok hr
    rw [copy_error buf (by omega)] at hr
    nomatch hr

/-- The checked accesses of `param_retrieve`, once the record is loaded. -/
theorem paramRetrieveChecked_ok_iff {s : ParamState F} {sizeKb : ℕ} {bytes : List UInt8}
    (hmap : flashSizeKb sdk.flashMap = some sizeKb) {offset len : UInt16}
    (hload : sdk.load s.flash (paramSector sizeKb) offset.toNat (4 + len.toNat) = (bytes, true))
    (hbytes : bytes.length = 4 + len.toNat) :
    (∃ r, paramRetrieveChecked sdk s offset len = .ok r) ↔ 4 + len.toNat ≤ 1024 := by
  have hmagic : paramMagic.length = 4 := rfl
  unfold paramRetrieveChecked
  simp only [hmap, hmagic, hload, Bool.not_true, Bool.false_eq_true, if_false]
  by_cases hroom : 4 + len.toNat ≤ 1024
  · rw [Buf.copy_ok s.buf (by omega), Loops.ok_bind, Buf.load_ok _ (by norm_num), Loops.ok_bind]
    refine iff_of_true ?_ hroom
    by_cases hdiffer : memcmp ((s.buf.memcpy 0 bytes).slice 0 (if 4 ≠ 0 then 1 else 0)) paramMagic
        (if 4 ≠ 0 then 1 else 0) ≠ 0
    · rw [if_pos hdiffer]
      exact ⟨_, rfl⟩
    · rw [if_neg hdiffer, Buf.load_ok _ (by omega)]
      exact ⟨_, rfl⟩
  · -- the load itself writes over the end
    refine iff_of_false ?_ hroom
    rintro ⟨r, hr⟩
    rw [copy_error s.buf (by omega)] at hr
    nomatch hr

/-- `param_retrieve` compares one byte. -/
theorem memcmp_magic_iff (bytes : List UInt8) :
    memcmp bytes paramMagic (if paramMagic.length ≠ 0 then 1 else 0) = 0 ↔ bytes.headD 0 = 0xca := by
  rw [if_pos (by decide), memcmp, memcmp]
  by_cases hdiffer : bytes.headD 0 ≠ paramMagic.headD 0
  · rw [if_pos hdiffer]
    -- two different bytes differ as numbers
    have htoNat : (bytes.headD 0).toNat ≠ (paramMagic.headD 0).toNat := fun h => hdiffer (UInt8.toNat_inj.mp h)
    exact iff_of_false (by omega) hdiffer
  · rw [if_neg hdiffer]
    exact iff_of_true rfl (not_not.mp hdiffer)

theorem headD_memcpy (b : Buf 1024) {bytes : List UInt8} (h : bytes ≠ []) :
    (b.memcpy 0 bytes).toList.headD 0 = bytes.headD 0 := by
  cases bytes with
  | nil => exact absurd rfl h
  | cons c bytes => rfl

/-- The result of `param_retrieve`, once the record is loaded, depends on its first byte. -/
theorem paramRetrieve_none_iff {s : ParamState F} {sizeKb : ℕ} {bytes : List UInt8}
    (hmap : flashSizeKb sdk.flashMap = some sizeKb) {offset len : UInt16}
    (hload : sdk.load s.flash (paramSector sizeKb) offset.toNat (4 + len.toNat) = (bytes, true))
    (hbytes : bytes ≠ []) : (paramRetrieve sdk s offset len).2 = none ↔ bytes.headD 0 ≠ 0xca := by
  have hload' : sdk.load s.flash (paramSector sizeKb) offset.toNat (paramMagic.length + len.toNat) = (bytes, true) :=
    hload
  unfold paramRetrieve
  simp only [hmap, hload', Bool.not_true, Bool.false_eq_true, if_false]
  have hbyte := memcmp_magic_iff (s.buf.memcpy 0 bytes).toList
  rw [headD_memcpy s.buf hbytes] at hbyte
  by_cases hdiffer : memcmp (s.buf.memcpy 0 bytes).toList paramMagic (if paramMagic.length ≠ 0 then 1 else 0) = 0
  · rw [if_neg (not_not.mpr hdiffer)]
    exact iff_of_false (by simp) (not_not.mpr (hbyte.mp hdiffer))
  · rw [if_pos hdiffer]
    exact iff_of_true rfl (mt hbyte.mpr hdiffer)

theorem copy_eq_ok {n : ℕ} {b c : Buf n} {off : ℕ} {src : List UInt8} (h : b.copy off src = .ok c) :
    c = b.memcpy off src := by
  unfold Buf.copy at h
  split_ifs at h
  exact (Except.ok.inj h).symm

theorem load_eq_ok {n : ℕ} {b : Buf n} {off len : ℕ} {bytes : List UInt8} (h : b.load off len = .ok bytes) :
    bytes = b.slice off len := by
  unfold Buf.load at h
  split_ifs at h
  exact (Except.ok.inj h).symm

/-- A run of `param_store` that stays inside is the one of the model. -/
theorem paramStoreChecked_eq {s : ParamState F} {offset : UInt16} {val : List UInt8} {r : ParamState F × ℕ}
    (h : paramStoreChecked sdk s offset val = .ok r) : r = paramStore sdk s offset val := by
  unfold paramStoreChecked at h
  unfold paramStore
  cases hmap : flashSizeKb sdk.flashMap with
  | none =>
    rw [hmap] at h
    exact (Except.ok.inj h).symm
  | some sizeKb =>
    rcases hload : sdk.load s.flash (paramSector sizeKb) 0 1024 with ⟨bytes, loaded⟩
    simp only [hmap, hload] at h ⊢
    by_cases hlen : 1024 < paramMagic.length + val.length
    · rw [if_pos hlen] at h ⊢
      exact (Except.ok.inj h).symm
    rw [if_neg hlen] at h ⊢
    obtain ⟨buf, hbuf, h⟩ := Loops.bind_eq_ok h
    rw [copy_eq_ok hbuf] at h
    by_cases hloaded : (!loaded) = true
    · rw [if_pos hloaded] at h ⊢
      exact (Except.ok.inj h).symm
    rw [if_neg hloaded] at h ⊢
    obtain ⟨buf', hbuf', h⟩ := Loops.bind_eq_ok h
    obtain ⟨buf'', hbuf'', h⟩ := Loops.bind_eq_ok h
    obtain ⟨data, hdata, h⟩ := Loops.bind_eq_ok h
    -- what is saved is the whole buffer
    have hwhole : data = buf''.toList := by
      rw [load_eq_ok hdata, Buf.slice, List.drop_zero, List.take_of_length_le (by simp)]
    rw [hwhole, copy_eq_ok hbuf'', copy_eq_ok hbuf'] at h
    split_ifs at h ⊢
    · exact (Except.ok.inj h).symm
    · exact (Except.ok.inj h).symm

/-- A run of `param_retrieve` that stays inside is the one of the model. -/
theorem paramRetrieveChecked_eq {s : ParamState F} {offset len : UInt16} {r : ParamState F × Option (List UInt8)}
    (h : paramRetrieveChecked sdk s offset len = .ok r) : r = paramRetrieve sdk s offset len := by
  unfold paramRetrieveChecked at h
  unfold paramRetrieve
  cases hmap : flashSizeKb sdk.flashMap with
  | none =>
    rw [hmap] at h
    exact (Except.ok.inj h).symm
  | some sizeKb =>
    rcases hload : sdk.load s.flash (paramSector sizeKb) offset.toNat (paramMagic.length + len.toNat) with
      ⟨bytes, loaded⟩
    simp only [hmap, hload] at h ⊢
    obtain ⟨buf, hbuf, h⟩ := Loops.bind_eq_ok h
    rw [copy_eq_ok hbuf] at h
    by_cases hloaded : (!loaded) = true
    · rw [if_pos hloaded] at h ⊢
      exact (Except.ok.inj h).symm
    rw [if_neg hloaded] at h ⊢
    obtain ⟨front, hfront, h⟩ := Loops.bind_eq_ok h
    -- the one byte loaded is the first of the array
    have hcmp : memcmp front paramMagic (if paramMagic.length ≠ 0 then 1 else 0)
        = memcmp (s.buf.memcpy 0 bytes).toList paramMagic (if paramMagic.length ≠ 0 then 1 else 0) := by
      rw [load_eq_ok hfront, Buf.slice, List.drop_zero, if_pos (by decide), memcmp, memcmp, memcmp, memcmp]
      cases (s.buf.memcpy 0 bytes).toList <;> rfl
    rw [hcmp] at h
    by_cases hdiffer : memcmp (s.buf.memcpy 0 bytes).toList paramMagic (if paramMagic.length ≠ 0 then 1 else 0) ≠ 0
    · rw [if_pos hdiffer] at h ⊢
      exact (Except.ok.inj h).symm
    · rw [if_neg hdiffer] at h ⊢
      obtain ⟨val, hval, h⟩ := Loops.bind_eq_ok h
      rw [load_eq_ok hval] at h
      exact (Except.ok.inj h).symm

/-- `param_store` from the copies on. -/
theorem paramStore_loaded {s : ParamState F} {sizeKb : ℕ} {bytes : List UInt8}
    (hmap : flashSizeKb sdk.flashMap = some sizeKb) (offset : UInt16) {val : List UInt8}
    (hlen : 4 + val.length ≤ 1024) (hload : sdk.load s.flash (paramSector sizeKb) 0 1024 = (bytes, true)) :
    ((paramStore sdk s offset val).2 ≠ 0 ∧ (paramStore sdk s offset val).1.flash = s.flash) ↔
      sdk.save s.flash (paramSector sizeKb) (storedBuf s bytes offset val).toList = (s.flash, false) := by
  have hmagic : paramMagic.length = 4 := rfl
  unfold paramStore storedBuf
  simp only [hmap, hload, Bool.not_true, Bool.false_eq_true, if_false]
  rw [if_neg (by omega)]
  rcases hsave : sdk.save s.flash (paramSector sizeKb) (((s.buf.memcpy 0 bytes).memcpy offset.toNat paramMagic).memcpy
    (offset.toNat + paramMagic.length) val).toList with ⟨flash, saved⟩
  simp only [hsave]
  cases saved with
  | false => simp
  | true => simp

theorem storeBounded_iff (hsdk : sdk.LoadsAsked) (s : ParamState F) (offset : UInt16) (val : List UInt8) :
    StoreBounded sdk s offset val ↔ StoreSafe sdk s offset val := by
  have hmagic : paramMagic.length = 4 := rfl
  unfold StoreBounded StoreSafe
  cases hmap : flashSizeKb sdk.flashMap with
  | none =>
    refine iff_of_true (.inl ?_) (fun _ _ h => nomatch h)
    unfold paramStore
    simp [hmap]
  | some sizeKb =>
    by_cases hlen : 4 + val.length ≤ 1024
    swap
    · -- the guard refuses the value
      refine iff_of_true (.inl ?_) (fun _ _ _ h => absurd h hlen)
      unfold paramStore
      simp only [hmap]
      rw [if_pos (by omega)]
      exact ⟨one_ne_zero, rfl⟩
    obtain ⟨hshort, -⟩ := hsdk s.flash (paramSector sizeKb) 0 1024
    rcases hload : sdk.load s.flash (paramSector sizeKb) 0 1024 with ⟨bytes, loaded⟩
    rw [hload] at hshort
    cases loaded with
    | false =>
      refine iff_of_true (.inl ?_) ?_
      · unfold paramStore
        simp only [hmap, hload]
        rw [if_neg (by omega)]
        exact ⟨one_ne_zero, rfl⟩
      · rintro _ _ ⟨⟩ _ h
        rw [hload] at h
        nomatch h
    | true =>
      rw [paramStore_loaded hmap offset hlen hload, paramStoreChecked_ok_iff hmap offset hlen hload hshort]
      constructor
      · rintro h _ _ ⟨⟩ - hload'
        rw [hload] at hload'
        cases hload'
        exact h.symm
      · intro h
        exact (h sizeKb bytes rfl hlen hload).symm

theorem retrieveBounded_iff (hsdk : sdk.LoadsAsked) (s : ParamState F) (offset len : UInt16) :
    RetrieveBounded sdk s offset len ↔ RetrieveSafe sdk s offset len := by
  have hmagic : paramMagic.length = 4 := rfl
  unfold RetrieveBounded RetrieveSafe
  rw [and_iff_left (paramRetrieve_flash s offset len)]
  cases hmap : flashSizeKb sdk.flashMap with
  | none =>
    -- an unknown flash map: nothing is loaded
    refine iff_of_true (.inl ?_) (fun _ _ h => nomatch h)
    unfold paramRetrieve
    simp [hmap]
  | some sizeKb =>
    obtain ⟨-, hfull⟩ := hsdk s.flash (paramSector sizeKb) offset.toNat (4 + len.toNat)
    rcases hload : sdk.load s.flash (paramSector sizeKb) offset.toNat (4 + len.toNat) with ⟨bytes, loaded⟩
    rw [hload] at hfull
    cases loaded with
    | false =>
      -- a failed load: nothing is copied out
      refine iff_of_true (.inl ?_) ?_
      · unfold paramRetrieve
        simp only [hmap, hmagic, hload]
        rfl
      · rintro _ _ ⟨⟩ _ h
        rw [hload] at h
        nomatch h
    | true =>
      -- the whole value has been loaded behind its magic
      have hbytes : bytes.length = 4 + len.toNat := hfull rfl
      have hne : bytes ≠ [] := by
        rintro rfl
        simp at hbytes
        omega
      rw [paramRetrieve_none_iff hmap hload hne, paramRetrieveChecked_ok_iff hmap hload hbytes]
      constructor
      · rintro h _ _ ⟨⟩ hlarge hload'
        rw [hload] at hload'
        cases hload'
        exact h.resolve_right (by omega)
      · intro h
        by_cases hroom : 4 + len.toNat ≤ 1024
        · exact .inr hroom
        · exact .inl (h sizeKb bytes rfl (by omega) hload)

/-- **Bounds.** For every offset and length, a call of `param_store` that does not return nonzero
with the flash as it was stays inside `param_buf` exactly when the record lies in the area, and one
of `param_retrieve` exactly when the record fits `param_buf`. -/
theorem param_bounds_iff {F : Type} (sdk : ParamSdk F) (hsdk : sdk.LoadsAsked) (s : ParamState F)
    (offset len : UInt16) (val : List UInt8) :
    (StoreBounded sdk s offset val ↔ StoreSafe sdk s offset val) ∧
      (RetrieveBounded sdk s offset len ↔ RetrieveSafe sdk s offset len) :=
  ⟨storeBounded_iff hsdk s offset val, retrieveBounded_iff hsdk s offset len⟩

/-- A chip that keeps 4096 bytes of each sector and refuses to load more. -/
def sectorSdk : ParamSdk (ℕ → Buf 4096) where
  flashMap := .map4M256
  load f sec offset len := if offset + len ≤ 4096 then ((f sec).slice offset len, true) else ([], false)
  save f sec bytes := (Function.update f sec ((f sec).memcpy 0 bytes), true)

theorem sectorSdk_loadsAsked : sectorSdk.LoadsAsked := by
  intro f sec offset len
  by_cases hin : offset + len ≤ 4096
  · have hlen : ((f sec).slice offset len).length = len := by
      simp [Buf.slice]
      omega
    simp [sectorSdk, hin, hlen]
  · simp [sectorSdk, hin]

/-- A record of one byte at the front of the area. -/
theorem param_bounds_iff_front :
    (StoreBounded sectorSdk ⟨Buf.zero _, fun _ => Buf.zero _⟩ 0 [7] ↔
        StoreSafe sectorSdk ⟨Buf.zero _, fun _ => Buf.zero _⟩ 0 [7]) ∧
      (RetrieveBounded sectorSdk ⟨Buf.zero _, fun _ => Buf.zero _⟩ 0 1 ↔
        RetrieveSafe sectorSdk ⟨Buf.zero _, fun _ => Buf.zero _⟩ 0 1) :=
  param_bounds_iff sectorSdk sectorSdk_loadsAsked _ 0 1 [7]

/-- A byte stored at offset 1020, and 1021 bytes retrieved from an area that starts with `ca`. -/
theorem param_buf_overrun :
    ¬StoreBounded sectorSdk ⟨Buf.zero _, fun _ => Buf.zero _⟩ 1020 [7] ∧
      ¬RetrieveBounded sectorSdk ⟨Buf.zero _, fun _ => (Buf.zero _).set 0 0xca⟩ 0 1021 := by
  rw [storeBounded_iff sectorSdk_loadsAsked, retrieveBounded_iff sectorSdk_loadsAsked]
  constructor
  · intro h
    rcases h 512 _ rfl (by decide) rfl with hin | hsave
    · exact absurd hin (by decide)
    · nomatch congrArg Prod.snd hsave
  · intro h
    exact h 512 _ rfl (by decide) rfl rfl

/-! ## The magic -/

/-- `param_retrieve(offset, val, len)`: the return code, and the bytes at `val` afterwards. -/
def paramRetrieveInto (sdk : ParamSdk F) (s : ParamState F) (offset len : UInt16) (val : List UInt8) :
    ℕ × List UInt8 :=
  match (paramRetrieve sdk s offset len).2 with
  | none => (1, val)
  | some bytes => (0, bytes)

/-- What should hold of a call: success for records with the magic only, and no change of `val`
without success. -/
def ValidatesMagic (sdk : ParamSdk F) (content : Buf 1024) (s : ParamState F) (offset len : UInt16)
    (val : List UInt8) : Prop :=
  ((paramRetrieveInto sdk s offset len val).1 = 0 ↔ content.slice offset.toNat 4 = paramMagic) ∧
    ((paramRetrieveInto sdk s offset len val).1 ≠ 0 → (paramRetrieveInto sdk s offset len val).2 = val)

variable {area : F → ℕ → Buf 1024} {sizeKb : ℕ}

/-- The first byte decides. -/
theorem paramRetrieveInto_zero_iff (hsdk : sdk.Reliable area) (hmap : flashSizeKb sdk.flashMap = some sizeKb)
    (s : ParamState F) {offset len : UInt16} (hin : offset.toNat + 4 + len.toNat ≤ 1024) (val : List UInt8) :
    (paramRetrieveInto sdk s offset len val).1 = 0 ↔
      (area s.flash (paramSector sizeKb)).get offset.toNat = 0xca := by
  have hload := hsdk.load s.flash (paramSector sizeKb) offset.toNat (4 + len.toNat) (by omega)
  generalize area s.flash (paramSector sizeKb) = content at hload ⊢
  have hlt : offset.toNat < content.toList.length := by
    rw [content.length_toList]
    omega
  have hfirst : (content.toList.drop offset.toNat).take (4 + len.toNat)
      = content.get offset.toNat :: (content.toList.drop (offset.toNat + 1)).take (3 + len.toNat) := by
    rw [List.drop_eq_getElem_cons hlt, show 4 + len.toNat = 3 + len.toNat + 1 by omega, List.take_succ_cons, Buf.get,
      List.getD_eq_getElem _ _ hlt]
  have hnone := paramRetrieve_none_iff hmap hload (by simp [hfirst])
  rw [hfirst, List.headD_cons] at hnone
  unfold paramRetrieveInto
  cases hret : (paramRetrieve sdk s offset len).2 with
  | none => exact iff_of_false one_ne_zero (hnone.mp hret)
  | some bytes =>
    refine iff_of_true rfl ?_
    by_contra hbyte
    rw [hnone.mpr hbyte] at hret
    cases hret

/-- **Validation.** For every content of the area and every record that lies in it, `param_retrieve`
tells a record with the magic from other bytes exactly when the first byte is not that of the magic
or all four are. -/
theorem param_retrieve_validates_iff {F : Type} (sdk : ParamSdk F) (area : F → ℕ → Buf 1024)
    (hsdk : sdk.Reliable area) {sizeKb : ℕ} (hmap : flashSizeKb sdk.flashMap = some sizeKb) (s : ParamState F)
    (offset len : UInt16) (hin : offset.toNat + 4 + len.toNat ≤ 1024) (val : List UInt8) :
    ValidatesMagic sdk (area s.flash (paramSector sizeKb)) s offset len val ↔
      (area s.flash (paramSector sizeKb)).get offset.toNat ≠ 0xca ∨
        (area s.flash (paramSector sizeKb)).slice offset.toNat 4 = paramMagic := by
  have hzero := paramRetrieveInto_zero_iff hsdk hmap s hin val
  have hkept : (paramRetrieveInto sdk s offset len val).1 ≠ 0 → (paramRetrieveInto sdk s offset len val).2 = val := by
    unfold paramRetrieveInto
    cases (paramRetrieve sdk s offset len).2 with
    | none => exact fun _ => rfl
    | some bytes => exact fun h => absurd rfl h
  rw [ValidatesMagic, hzero]
  generalize area s.flash (paramSector sizeKb) = content
  -- the first byte of the magic is `0xca`
  have hfirst : content.slice offset.toNat 4 = paramMagic → content.get offset.toNat = 0xca := by
    intro h
    have hget := congrArg (List.getD · 0 0) h
    have hlt : offset.toNat < content.toList.length := by
      rw [content.length_toList]
      omega
    rw [Buf.slice, List.drop_eq_getElem_cons hlt, List.take_succ_cons] at hget
    rw [Buf.get, List.getD_eq_getElem _ _ hlt]
    exact hget
  constructor
  · rintro ⟨hiff, -⟩
    by_cases hbyte : content.get offset.toNat = 0xca
    · exact .inr (hiff.mp hbyte)
    · exact .inl hbyte
  · intro hcond
    refine ⟨⟨fun hbyte => ?_, hfirst⟩, hkept⟩
    exact hcond.resolve_left (not_not.mpr hbyte)

/-- A blank area. -/
theorem param_retrieve_validates_iff_blank :
    ValidatesMagic testParamSdk (Buf.zero _) ⟨Buf.zero _, fun _ => Buf.zero _⟩ 0 2 [1, 2] ↔
      (Buf.zero 1024).get (0 : UInt16).toNat ≠ 0xca ∨ (Buf.zero 1024).slice (0 : UInt16).toNat 4 = paramMagic :=
  param_retrieve_validates_iff testParamSdk _ testParamSdk_reliable rfl ⟨Buf.zero _, fun _ => Buf.zero _⟩ 0 2
    (by decide) [1, 2]

/-- An area that starts with `ca 00 00 00`: the record is accepted and `val` overwritten. -/
theorem one_magic_byte_accepted :
    ¬ValidatesMagic testParamSdk ((Buf.zero _).set 0 0xca) ⟨Buf.zero _, fun _ => (Buf.zero _).set 0 0xca⟩ 0 2
      [1, 2] := by
  have hzero : (paramRetrieveInto testParamSdk ⟨Buf.zero _, fun _ => (Buf.zero _).set 0 0xca⟩ 0 2 [1, 2]).1 = 0 :=
    (paramRetrieveInto_zero_iff testParamSdk_reliable rfl ⟨Buf.zero _, fun _ => (Buf.zero _).set 0 0xca⟩ (by decide)
      [1, 2]).mpr (by decide)
  rintro ⟨hiff, -⟩
  have hmagic := hiff.mp hzero
  exact absurd hmagic (by decide)

end Esp8266Toolbox
