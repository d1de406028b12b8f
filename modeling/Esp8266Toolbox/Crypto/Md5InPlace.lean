import Esp8266Toolbox.Crypto.Md5Theorems
import Esp8266Toolbox.Lib.Checked

/-!
# `md5.c` on memory

The message and the digest are places in one memory here, as the pointers of the source are,
and they may overlap: `smtp_send_challenge` lets `md5` write its digest into the buffer that
`md5` reads. All of the message is read before the first byte of the digest is written, so the
overlap does not matter.
-/

namespace Esp8266Toolbox

variable {n : ℕ}

/-! ## Reading and writing memory -/

/-- The loop of `md5_proc` on the `len` bytes at `buf`, of which `used` are done. -/
def md5ProcAtLoop (mem : Buf n) (buf len : ℕ) : ℕ → Md5State → ℕ → Except Fault Md5State
  | 0, state, _ => .ok state
  | fuel + 1, state, used =>
    if len - used > 0 then do
      let len2 := min (64 - state.buflen) (len - used)
      let chunk ← mem.load (buf + used) len2
      md5ProcAtLoop mem buf len fuel (BlockHash.absorb md5Consume state chunk) (used + len2)
    else .ok state

/-- `md5_proc(state, buf, len)`. -/
def md5ProcAt (mem : Buf n) (state : Md5State) (buf len : ℕ) : Except Fault Md5State :=
  md5ProcAtLoop mem buf len len state 0

/-- One pass of the last loop of `md5_done`. -/
def md5HashStep (h : Md5Words) (hash : ℕ) (mem : Buf n) (i : ℕ) : Except Fault (Buf n) := do
  let x := h.toList.getD i 0
  let mem ← mem.put (hash + i * 4) x.toUInt8
  let mem ← mem.put (hash + i * 4 + 1) (x >>> 8).toUInt8
  let mem ← mem.put (hash + i * 4 + 2) (x >>> 16).toUInt8
  let mem ← mem.put (hash + i * 4 + 3) (x >>> 24).toUInt8
  return mem

/-- `md5_done(state, hash)`: the state and the memory it leaves. -/
def md5DoneAt (state : Md5State) (mem : Buf n) (hash : ℕ) : Except Fault (Md5State × Buf n) := do
  let state ← BlockHash.done md5Consume md5LenBytes state
  let mem ← (List.range 4).foldlM (md5HashStep state.h hash) mem
  return (state, mem)

/-- `md5_init`, `md5_proc` on each region `(buf, len)` and `md5_done`: the memory they leave. -/
def md5StreamAt (s : Md5State) (mem : Buf n) (regions : List (ℕ × ℕ)) (hash : ℕ) : Except Fault (Buf n) := do
  let state ← regions.foldlM (fun state r => md5ProcAt mem state r.1 r.2) (md5Init s)
  let (_, mem) ← md5DoneAt state mem hash
  return mem

/-- `md5(buf, len, hash)`, with the contents of its local state before `md5_init`. -/
def md5At (s : Md5State) (mem : Buf n) (buf len hash : ℕ) : Except Fault (Buf n) := do
  let state ← md5ProcAt mem (md5Init s) buf len
  let (_, mem) ← md5DoneAt state mem hash
  return mem

/-! ## What they do -/

theorem md5ProcAtLoop_spec (mem : Buf n) (buf len : ℕ) (hbuf : buf + len ≤ n) (fuel : ℕ) (state : Md5State)
    (used : ℕ) (hused : used ≤ len) :
    md5ProcAtLoop mem buf len fuel state used
      = .ok (BlockHash.procLoop md5Consume fuel state (mem.slice (buf + used) (len - used))) := by
  induction fuel generalizing state used with
  | zero => rfl
  | succ fuel ih =>
    have hlen : (mem.slice (buf + used) (len - used)).length = len - used := by
      simp [Buf.slice]
      omega
    rw [md5ProcAtLoop, BlockHash.procLoop, hlen]
    by_cases hmore : len - used > 0
    · generalize hlen2 : min (64 - state.buflen) (len - used) = len2
      have htake : (mem.slice (buf + used) (len - used)).take len2 = mem.slice (buf + used) len2 := by
        rw [Buf.slice, List.take_take, min_eq_left (by omega)]
        rfl
      have hdrop : (mem.slice (buf + used) (len - used)).drop len2
          = mem.slice (buf + (used + len2)) (len - (used + len2)) := by
        rw [Buf.slice, List.drop_take, List.drop_drop, Nat.add_assoc, Nat.sub_sub]
        rfl
      simp only [if_pos hmore, htake, hdrop]
      rw [Buf.load_ok mem (by omega), Loops.ok_bind, ih _ _ (by omega)]
    · rw [if_neg hmore, if_neg hmore]

/-- `md5_proc` in memory absorbs the bytes of its region. -/
theorem md5ProcAt_spec (mem : Buf n) (state : Md5State) {buf len : ℕ} (hbuf : buf + len ≤ n) :
    md5ProcAt mem state buf len = .ok (md5Proc state (mem.slice buf len)) := by
  have hlen : (mem.slice buf len).length = len := by
    simp [Buf.slice]
    omega
  rw [md5ProcAt, md5ProcAtLoop_spec mem buf len hbuf len state 0 (Nat.zero_le _), md5Proc, BlockHash.proc, hlen]
  rfl

theorem take_succ_flatMap {h : Md5Words} {i : ℕ} (hi : i < 4) :
    (h.toList.take (i + 1)).flatMap md5WordBytes
      = (h.toList.take i).flatMap md5WordBytes ++ md5WordBytes (h.toList.getD i 0) := by
  have hlen : i < h.toList.length := by simpa using hi
  rw [List.take_succ_eq_append_getElem hlen, List.flatMap_append, List.getD_eq_getElem _ _ hlen, List.flatMap_singleton]

/-- The loop of `md5_done` writes the digest as a block. -/
theorem md5HashLoop_spec (h : Md5Words) {hash : ℕ} (mem : Buf n) (hhash : hash + 16 ≤ n) :
    (List.range 4).foldlM (md5HashStep h hash) mem = .ok (mem.memcpy hash (h.toList.flatMap md5WordBytes)) := by
  let Inv : ℕ → Buf n → Prop := fun i mem' => mem' = mem.memcpy hash ((h.toList.take i).flatMap md5WordBytes)
  have hloop : ∃ mem', (List.range 4).foldlM (md5HashStep h hash) mem = .ok mem' ∧ Inv 4 mem' := by
    apply Loops.foldlM_range_ok _ Inv
    · show mem = mem.memcpy hash []
      apply Buf.ext
      rw [Buf.toList_memcpy _ (by simp; omega)]
      simp
    intro i mem' hi hinv
    have hlen : ((h.toList.take i).flatMap md5WordBytes).length = i * 4 := by
      rw [List.length_flatMap]
      show ((h.toList.take i).map fun _ => 4).sum = i * 4
      rw [List.map_const', List.sum_replicate, List.length_take]
      simp
      omega
    have hput := mem'.put_four (j := hash + i * 4) (h.toList.getD i 0).toUInt8 ((h.toList.getD i 0) >>> 8).toUInt8
      ((h.toList.getD i 0) >>> 16).toUInt8 ((h.toList.getD i 0) >>> 24).toUInt8 (by omega) pure
    simp only [bind_pure] at hput
    refine ⟨_, hput, ?_⟩
    show _ = _
    rw [take_succ_flatMap hi, ← Buf.memcpy_memcpy _ _ _ _ (by rw [hlen]; simp [md5WordBytes]; omega), hlen, hinv]
    rfl
  obtain ⟨mem', hok, hinv⟩ := hloop
  rw [hok, hinv, List.take_of_length_le (by simp)]

/-- `md5_done` in memory writes the digest of what was absorbed and nothing else. -/
theorem md5DoneAt_spec {state : Md5State} {m : List UInt8} (habs : BlockHash.Absorbed md5Consume md5H state m)
    (hm : m.length < 2 ^ 29) (mem : Buf n) {hash : ℕ} (hhash : hash + 16 ≤ n) :
    ∃ state', md5DoneAt state mem hash = .ok (state', mem.memcpy hash (Rfc1321.md5 m)) := by
  obtain ⟨state', hdone⟩ := md5Done_spec habs hm
  rw [md5Done] at hdone
  rcases Loops.bind_eq_ok hdone with ⟨state'', hblocks, hret⟩
  have hdigest : state''.h.toList.flatMap md5WordBytes = Rfc1321.md5 m := by
    simp only [pure, Except.pure, Except.ok.injEq, Prod.mk.injEq] at hret
    exact hret.2
  refine ⟨state'', ?_⟩
  rw [md5DoneAt, hblocks, Loops.ok_bind, md5HashLoop_spec _ _ hhash, hdigest]
  rfl

/-- Reading regions of memory one after the other absorbs their bytes. -/
theorem foldlM_md5ProcAt (mem : Buf n) (regions : List (ℕ × ℕ)) (hin : ∀ r ∈ regions, r.1 + r.2 ≤ n)
    {state : Md5State} {m : List UInt8} (habs : BlockHash.Absorbed md5Consume md5H state m) :
    ∃ state', regions.foldlM (fun state r => md5ProcAt mem state r.1 r.2) state = .ok state' ∧
      BlockHash.Absorbed md5Consume md5H state' (m ++ regions.flatMap fun r => mem.slice r.1 r.2) := by
  induction regions generalizing state m with
  | nil => exact ⟨state, rfl, by simpa using habs⟩
  | cons r regions ih =>
    have hstep : md5ProcAt mem state r.1 r.2 = .ok (md5Proc state (mem.slice r.1 r.2)) :=
      md5ProcAt_spec mem state (hin r List.mem_cons_self)
    have hrest := ih (fun r' hr' => hin r' (List.mem_cons_of_mem _ hr')) (BlockHash.proc_spec habs (mem.slice r.1 r.2))
    rcases hrest with ⟨state', hfold, habs'⟩
    refine ⟨state', ?_, ?_⟩
    · rw [List.foldlM_cons, hstep, Loops.ok_bind]
      exact hfold
    · rwa [List.flatMap_cons, ← List.append_assoc]

/-- `md5` in memory writes the digest of its region and nothing else, wherever `hash` is. -/
theorem md5At_spec (s : Md5State) (mem : Buf n) {buf len hash : ℕ} (hbuf : buf + len ≤ n) (hhash : hash + 16 ≤ n)
    (hlen : len < 2 ^ 29) : md5At s mem buf len hash = .ok (mem.memcpy hash (Rfc1321.md5 (mem.slice buf len))) := by
  have habs := BlockHash.proc_spec (md5Init_absorbed s) (mem.slice buf len)
  have hm : (mem.slice buf len).length < 2 ^ 29 := by
    simp [Buf.slice]
    omega
  obtain ⟨state', hdone⟩ := md5DoneAt_spec habs hm mem hhash
  rw [md5At, md5ProcAt_spec mem (md5Init s) hbuf, Loops.ok_bind, md5Proc, hdone]
  rfl

/-- So a call of `md5` in place is a load, the digest of the bytes loaded, and a copy. -/
theorem md5At_eq_load_copy (s : Md5State) (mem : Buf n) {buf len hash : ℕ} (hbuf : buf + len ≤ n)
    (hhash : hash + 16 ≤ n) (hlen : len < 2 ^ 29) :
    md5At s mem buf len hash = (do
      let digest ← md5 s (← mem.load buf len)
      mem.copy hash digest) := by
  have hm : (mem.slice buf len).length < 2 ^ 29 := by
    simp [Buf.slice]
    omega
  have hdigest := Rfc1321.length_md5 (mem.slice buf len)
  rw [md5At_spec s mem hbuf hhash hlen, Buf.load_ok mem hbuf, Loops.ok_bind, md5_spec s hm, Loops.ok_bind,
    Buf.copy_ok mem (by omega)]

/-- **MD5.** However a message of fewer than `2^29` bytes is cut, `md5.c` writes its digest: fed
as byte strings, in one call of `md5`, and from regions of a memory in which the digest may
overwrite the message. -/
theorem md5_streaming_eq_standard (m : List UInt8) (hm : m.length < 2 ^ 29) :
    (∀ (s : Md5State) (chunks : List (List UInt8)), chunks.flatten = m →
      ∃ s', md5Done (chunks.foldl md5Proc (md5Init s)) = .ok (s', Rfc1321.md5 m)) ∧
    (∀ s : Md5State, md5 s m = .ok (Rfc1321.md5 m)) ∧
    ∀ (n : ℕ) (mem : Buf n) (hash : ℕ) (s : Md5State), hash + 16 ≤ n →
      (∀ regions : List (ℕ × ℕ), (∀ r ∈ regions, r.1 + r.2 ≤ n) →
        (regions.flatMap fun r => mem.slice r.1 r.2) = m →
        md5StreamAt s mem regions hash = .ok (mem.memcpy hash (Rfc1321.md5 m))) ∧
      ∀ buf : ℕ, buf + m.length ≤ n → mem.slice buf m.length = m →
        md5At s mem buf m.length hash = .ok (mem.memcpy hash (Rfc1321.md5 m)) := by
  refine ⟨?_, fun s => md5_spec s hm, ?_⟩
  · intro s chunks hsplit
    have habs := BlockHash.foldl_proc_spec (md5Init_absorbed s) chunks
    rw [List.nil_append, hsplit] at habs
    exact md5Done_spec habs hm
  intro n mem hash s hhash
  constructor
  · intro regions hin hsplit
    obtain ⟨state, hfold, habs⟩ := foldlM_md5ProcAt mem regions hin (md5Init_absorbed s)
    rw [List.nil_append, hsplit] at habs
    obtain ⟨state', hdone⟩ := md5DoneAt_spec habs hm mem hhash
    rw [md5StreamAt, hfold, Loops.ok_bind, hdone]
    rfl
  · intro buf hbuf hsplit
    rw [md5At_spec s mem hbuf hhash hm, hsplit]

/-- A key of 64 bytes with a challenge of 40 behind it, the digest written over the challenge. -/
theorem md5_streaming_eq_standard_overlap :
    md5At ⟨Buf.zero 64, 0, 0, md5H⟩ (Buf.zero 200) 0 104 64
      = .ok ((Buf.zero 200).memcpy 64 (Rfc1321.md5 (List.replicate 104 0))) := by
  have hall := (md5_streaming_eq_standard (List.replicate 104 0) (by simp)).2.2
  have hcall := (hall 200 (Buf.zero 200) 64 ⟨Buf.zero 64, 0, 0, md5H⟩ (by norm_num)).2 0 (by simp) (by decide)
  rwa [List.length_replicate] at hcall

end Esp8266Toolbox
