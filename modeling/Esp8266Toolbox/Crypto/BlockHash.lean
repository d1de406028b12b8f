import Esp8266Toolbox.Lib.Blocks
import Esp8266Toolbox.Lib.Bytes

/-!
# The streaming code shared by `sha256.c` and `md5.c`

The two files have the same state record and, but for the compression function and the
byte order of the length, the same `_proc` and `_done`. The common code is here once, over
an arbitrary chaining value `σ` and compression function `consume`.

`Absorbed` is the abstraction: a state that has absorbed `m` holds the chaining value of
the complete blocks of `m` and, in the first `buflen` bytes of its buffer, the rest.
-/

namespace Esp8266Toolbox

/-- `Sha256State` and `Md5State`. -/
structure BlockState (σ : Type) where
  buf : Buf 64
  buflen : ℕ
  totallen : UInt32
  h : σ
deriving DecidableEq, Repr

namespace BlockHash

variable {σ : Type} (consume : σ → List UInt8 → σ)

/-- One pass of the loop of `_proc`: `chunk` is copied behind the buffered bytes, and a full
buffer is consumed. -/
def absorb (st : BlockState σ) (chunk : List UInt8) : BlockState σ :=
  let st := { st with buf := st.buf.memcpy st.buflen chunk, buflen := st.buflen + chunk.length }
  if st.buflen = 64 then
    { st with h := consume st.h st.buf.toList, buflen := 0, totallen := st.totallen + 64 }
  else st

/-- The loop of `_proc`, with as much fuel as there are bytes. -/
def procLoop : ℕ → BlockState σ → List UInt8 → BlockState σ
  | 0, st, _ => st
  | fuel + 1, st, data =>
    if data.length > 0 then
      let len2 := min (64 - st.buflen) data.length
      procLoop fuel (absorb consume st (data.take len2)) (data.drop len2)
    else st

/-- `sha256_proc` and `md5_proc`. -/
def proc (st : BlockState σ) (data : List UInt8) : BlockState σ :=
  procLoop consume data.length st data

/-- `_done` up to the digest: padding, the length field and the last compressions. The
buffer index is checked: the source asserts `buflen < 64`. -/
def done (lenBytes : UInt32 → List UInt8) (st : BlockState σ) : Except Fault (BlockState σ) :=
  if st.buflen < 56 then
    let totallen := st.totallen + UInt32.ofNat st.buflen
    let buf := st.buf.set st.buflen 0x80
    let buflen := st.buflen + 1
    let buf := buf.memcpy buflen (List.replicate (56 - buflen) 0)
    let buf := buf.memcpy 56 (lenBytes (totallen * 8))
    .ok { buf, buflen, totallen, h := consume st.h buf.toList }
  else if st.buflen < 64 then
    let totallen := st.totallen + UInt32.ofNat st.buflen
    let buf := st.buf.set st.buflen 0x80
    let buflen := st.buflen + 1
    let buf := buf.memcpy buflen (List.replicate (64 - buflen) 0)
    let h := consume st.h buf.toList
    let buf := buf.memcpy 0 (List.replicate 56 0)
    let buf := buf.memcpy 56 (lenBytes (totallen * 8))
    .ok { buf, buflen, totallen, h := consume h buf.toList }
  else .error .outOfBounds

/-- The padded message: the bit `1`, zeros up to 56 modulo 64 bytes, and the length field. -/
def pad (lenField : ℕ → List UInt8) (m : List UInt8) : List UInt8 :=
  m ++ 0x80 :: List.replicate ((119 - m.length % 64) % 64) 0 ++ lenField (8 * m.length)

/-! ## What a state has absorbed -/

/-- The state has absorbed `m`, starting from the chaining value `h0`. -/
structure Absorbed (h0 : σ) (st : BlockState σ) (m : List UInt8) : Prop where
  h_eq : st.h = (blocks 64 m).foldl consume h0
  buflen_eq : st.buflen = m.length % 64
  pending : st.buf.toList.take st.buflen = rest 64 m
  total : st.totallen = UInt32.ofNat (64 * (m.length / 64))

variable {consume} {h0 : σ}

theorem absorbed_nil {st : BlockState σ} (hh : st.h = h0) (hb : st.buflen = 0)
    (ht : st.totallen = 0) : Absorbed consume h0 st [] :=
  ⟨by simpa using hh, by simpa using hb, by simp [hb], by simpa using ht⟩

/-- One pass of the loop absorbs its chunk. -/
theorem absorb_spec {st : BlockState σ} {m chunk : List UInt8} (h : Absorbed consume h0 st m)
    (hlen : m.length % 64 + chunk.length ≤ 64) :
    Absorbed consume h0 (absorb consume st chunk) (m ++ chunk) := by
  obtain ⟨hh, hbl, hpend, htot⟩ := h
  have hcopy : (st.buf.memcpy st.buflen chunk).toList.take (st.buflen + chunk.length)
      = rest 64 m ++ chunk := by
    rw [Buf.toList_memcpy _ (by omega), hpend, List.take_append_of_le_length (by
      rw [List.length_append, length_rest]; omega)]
    apply List.take_of_length_le
    rw [List.length_append, length_rest]
    omega
  simp only [absorb]
  by_cases hfull : st.buflen + chunk.length = 64
  · -- the chunk fills the block, which is consumed
    obtain ⟨hblocks, hrest⟩ := blocks_append_full (by norm_num) (by omega : m.length % 64 + chunk.length = 64)
    have hbuf : (st.buf.memcpy st.buflen chunk).toList = rest 64 m ++ chunk := by
      rw [← hcopy, hfull]
      exact (List.take_of_length_le (by simp)).symm
    have hdiv : (m ++ chunk).length / 64 = m.length / 64 + 1 := by rw [List.length_append]; omega
    simp only [hfull, if_true]
    refine ⟨?_, ?_, ?_, ?_⟩
    · rw [hblocks, List.foldl_append, hbuf, hh]
      rfl
    · simp only
      rw [List.length_append]
      omega
    · simp [hrest]
    · simp only
      rw [hdiv, htot, Nat.mul_succ]
      simp
  · -- the block stays open
    obtain ⟨hblocks, hrest⟩ := blocks_append_lt (by omega : m.length % 64 + chunk.length < 64)
    have hdiv : (m ++ chunk).length / 64 = m.length / 64 := by rw [List.length_append]; omega
    simp only [hfull, if_false]
    refine ⟨by rw [hblocks]; exact hh, ?_, by rw [hrest]; exact hcopy, by rw [hdiv]; exact htot⟩
    simp only
    rw [List.length_append]
    omega

theorem procLoop_spec (fuel : ℕ) {st : BlockState σ} {m data : List UInt8}
    (h : Absorbed consume h0 st m) (hfuel : data.length ≤ fuel) :
    Absorbed consume h0 (procLoop consume fuel st data) (m ++ data) := by
  induction fuel generalizing st m data with
  | zero =>
    have hnil : data = [] := List.length_eq_zero_iff.mp (by omega)
    rw [hnil, List.append_nil]
    exact h
  | succ fuel ih =>
    rw [procLoop]
    by_cases hpos : data.length > 0
    · simp only [hpos, if_true]
      have hbl := h.buflen_eq
      have hmod : m.length % 64 < 64 := Nat.mod_lt _ (by norm_num)
      generalize hlen2 : min (64 - st.buflen) data.length = len2
      have hstep : Absorbed consume h0 (absorb consume st (data.take len2)) (m ++ data.take len2) :=
        absorb_spec h (by rw [List.length_take]; omega)
      have hrem : (data.drop len2).length ≤ fuel := by rw [List.length_drop]; omega
      have hnext := ih hstep hrem
      rwa [List.append_assoc, List.take_append_drop] at hnext
    · have hnil : data = [] := List.length_eq_zero_iff.mp (by omega)
      rw [if_neg hpos, hnil, List.append_nil]
      exact h

/-- `_proc` absorbs its data. -/
theorem proc_spec {st : BlockState σ} {m : List UInt8} (h : Absorbed consume h0 st m)
    (data : List UInt8) : Absorbed consume h0 (proc consume st data) (m ++ data) :=
  procLoop_spec _ h le_rfl

/-- A run of `_proc` calls absorbs the concatenation of their data, however it is cut. -/
theorem foldl_proc_spec {st : BlockState σ} {m : List UInt8} (h : Absorbed consume h0 st m)
    (chunks : List (List UInt8)) :
    Absorbed consume h0 (chunks.foldl (proc consume) st) (m ++ chunks.flatten) := by
  induction chunks generalizing st m with
  | nil => simpa using h
  | cons c cs ih =>
    rw [List.foldl_cons, List.flatten_cons, ← List.append_assoc]
    exact ih (proc_spec h c)

/-! ## The last blocks -/

/-- The buffer after the `0x80` byte and the zeros up to `k`. -/
theorem toList_marker (b : Buf 64) {r k : ℕ} (hr : r < k) (hk : k ≤ 64) :
    ((b.set r 0x80).memcpy (r + 1) (List.replicate (k - (r + 1)) 0)).toList
      = b.toList.take r ++ 0x80 :: List.replicate (k - (r + 1)) 0 ++ b.toList.drop k := by
  have hlen : (b.toList.take r ++ [(0x80 : UInt8)]).length = r + 1 := by simp; omega
  rw [Buf.toList_memcpy _ (by rw [List.length_replicate]; omega), Buf.toList_set _ (by omega),
    List.length_replicate, show r + 1 + (k - (r + 1)) = k by omega]
  rw [show b.toList.take r ++ 0x80 :: b.toList.drop (r + 1)
      = (b.toList.take r ++ [(0x80 : UInt8)]) ++ b.toList.drop (r + 1) by simp]
  rw [List.take_left' hlen, List.drop_append, List.drop_of_length_le (by omega), hlen,
    List.nil_append, List.drop_drop, show r + 1 + (k - (r + 1)) = k by omega]
  simp

/-- The buffer after the length field has been written behind 56 bytes. -/
theorem toList_lenField {b : Buf 64} {front back len : List UInt8} (hb : b.toList = front ++ back)
    (hfront : front.length = 56) (hlen : len.length = 8) :
    (b.memcpy 56 len).toList = front ++ len := by
  rw [Buf.toList_memcpy _ (by omega), hb, List.take_left' hfront, hlen,
    List.drop_of_length_le (by rw [← hb]; simp), List.append_nil]

/-- `_done` compresses exactly the padded message, as long as the length has not wrapped. -/
theorem done_spec {lenBytes : UInt32 → List UInt8} {lenField : ℕ → List UInt8} {st : BlockState σ}
    {m : List UInt8} (h : Absorbed consume h0 st m) (hlen8 : ∀ x, (lenBytes x).length = 8)
    (hfield : lenBytes (UInt32.ofNat m.length * 8) = lenField (8 * m.length)) :
    ∃ st', done consume lenBytes st = .ok st' ∧
      st'.h = (blocks 64 (pad lenField m)).foldl consume h0 := by
  obtain ⟨hh, hbl, hpend, htot⟩ := h
  have hmod : m.length % 64 < 64 := Nat.mod_lt _ (by norm_num)
  have htotal : st.totallen + UInt32.ofNat st.buflen = UInt32.ofNat m.length := by
    rw [htot, hbl, ← UInt32.ofNat_add, Nat.div_add_mod]
  have hL8 : (lenField (8 * m.length)).length = 8 := by rw [← hfield]; exact hlen8 _
  simp only [done, htotal, hfield]
  by_cases h56 : st.buflen < 56
  · -- one block: message rest, marker, zeros, length
    rw [if_pos h56]
    refine ⟨_, rfl, ?_⟩
    simp only
    have hz : (119 - m.length % 64) % 64 = 56 - (st.buflen + 1) := by omega
    rw [toList_lenField (toList_marker st.buf h56 (by norm_num)) (by simp; omega) hL8, hpend]
    have hpad : pad lenField m
        = m ++ (0x80 :: List.replicate (56 - (st.buflen + 1)) 0 ++ lenField (8 * m.length)) := by
      rw [pad, hz]
      simp
    have hfull : m.length % 64 +
        (0x80 :: List.replicate (56 - (st.buflen + 1)) 0 ++ lenField (8 * m.length)).length = 64 := by
      simp [hL8]
      omega
    rw [hpad, (blocks_append_full (by norm_num) hfull).1, List.foldl_append, ← hh]
    simp
  · -- two blocks: the marker still fits, the length does not
    rw [if_neg h56, if_pos (by omega)]
    refine ⟨_, rfl, ?_⟩
    simp only
    have hz : (119 - m.length % 64) % 64 = 64 - (st.buflen + 1) + 56 := by omega
    generalize hb1 : (st.buf.set st.buflen 0x80).memcpy (st.buflen + 1)
      (List.replicate (64 - (st.buflen + 1)) 0) = b1
    have hb1' : b1.toList = rest 64 m ++ 0x80 :: List.replicate (64 - (st.buflen + 1)) 0 := by
      rw [← hb1, toList_marker st.buf (by omega) le_rfl, hpend, List.drop_of_length_le (by simp),
        List.append_nil]
    have hb2 : (b1.memcpy 0 (List.replicate 56 0)).toList = List.replicate 56 0 ++ b1.toList.drop 56 := by
      rw [Buf.toList_memcpy _ (by simp)]
      simp
    rw [toList_lenField hb2 (by simp) hL8, hb1']
    have hfull1 : m.length % 64
        + ((0x80 : UInt8) :: List.replicate (64 - (st.buflen + 1)) 0).length = 64 := by
      simp
      omega
    obtain ⟨hblocks1, hrest1⟩ := blocks_append_full (by norm_num) hfull1
    have hfull2 : (m ++ 0x80 :: List.replicate (64 - (st.buflen + 1)) 0).length % 64
        + (List.replicate 56 0 ++ lenField (8 * m.length)).length = 64 := by
      simp [hL8]
      omega
    obtain ⟨hblocks2, -⟩ := blocks_append_full (by norm_num) hfull2
    have hpad : pad lenField m = (m ++ 0x80 :: List.replicate (64 - (st.buflen + 1)) 0)
        ++ (List.replicate 56 0 ++ lenField (8 * m.length)) := by
      rw [pad, hz, List.replicate_add]
      simp
    rw [hpad, hblocks2, hblocks1, hrest1, List.foldl_append, List.foldl_append, ← hh]
    simp

/-- The block that `_done` compresses last is left in the buffer, with the field of the 32-bit
product in its last eight bytes. -/
theorem done_last {lenBytes : UInt32 → List UInt8} {st : BlockState σ} {m : List UInt8}
    (h : Absorbed consume h0 st m) (hlen8 : ∀ x, (lenBytes x).length = 8) :
    ∃ st' h', done consume lenBytes st = .ok st' ∧ st'.h = consume h' st'.buf.toList ∧
      st'.buf.slice 56 8 = lenBytes (UInt32.ofNat m.length * 8) := by
  obtain ⟨-, hbl, -, htot⟩ := h
  have hmod : m.length % 64 < 64 := Nat.mod_lt _ (by norm_num)
  have htotal : st.totallen + UInt32.ofNat st.buflen = UInt32.ofNat m.length := by
    rw [htot, hbl, ← UInt32.ofNat_add, Nat.div_add_mod]
  have hfield : ∀ b : Buf 64, (b.memcpy 56 (lenBytes (UInt32.ofNat m.length * 8))).slice 56 8
      = lenBytes (UInt32.ofNat m.length * 8) := by
    intro b
    have hslice := @Buf.slice_memcpy 64 b 56 (lenBytes (UInt32.ofNat m.length * 8)) (by rw [hlen8])
    rwa [hlen8] at hslice
  simp only [done, htotal]
  by_cases h56 : st.buflen < 56
  · rw [if_pos h56]
    exact ⟨_, _, rfl, rfl, hfield _⟩
  · rw [if_neg h56, if_pos (by omega)]
    exact ⟨_, _, rfl, rfl, hfield _⟩

end BlockHash
end Esp8266Toolbox
