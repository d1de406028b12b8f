import Esp8266Toolbox.Crypto.Sha256Theorems
import Esp8266Toolbox.Http.Server

/-!
# What one call of `http_url_ota_push` does

Bytes go from `client->buf` through the sector buffer into flash and into the hash. The
invariant `Uploading` ties the four positions together for a given byte stream `m`: of its
first `postused` bytes, `n` (whole sectors) are in flash and in the hash and the other
`secused` are in the sector buffer, and `client->buf` continues `m` at `postused`. `Flashed`
is the state behind the last sector.
-/

namespace Esp8266Toolbox

open Server

/-! ## Flash content -/

@[simp] theorem length_flashBytes (content : ℕ → UInt8) (addr len : ℕ) :
    (flashBytes content addr len).length = len := by simp [flashBytes]

theorem flashBytes_congr {c c' : ℕ → UInt8} {addr len : ℕ}
    (h : ∀ a, addr ≤ a → a < addr + len → c a = c' a) :
    flashBytes c addr len = flashBytes c' addr len := by
  unfold flashBytes
  apply List.map_congr_left
  intro k hk
  have hk' := List.mem_range.mp hk
  exact h _ (by omega) (by omega)

theorem flashBytes_add (c : ℕ → UInt8) (addr x y : ℕ) :
    flashBytes c addr (x + y) = flashBytes c addr x ++ flashBytes c (addr + x) y := by
  unfold flashBytes
  rw [List.range_add, List.map_append, List.map_map]
  congr 1
  apply List.map_congr_left
  intro k _
  simp [Nat.add_assoc]

theorem flashBytes_take (c : ℕ → UInt8) (addr : ℕ) {k len : ℕ} (h : k ≤ len) :
    (flashBytes c addr len).take k = flashBytes c addr k := by
  obtain ⟨d, rfl⟩ := Nat.exists_eq_add_of_le h
  rw [flashBytes_add, List.take_left' (by simp)]

theorem patch_outside {c : ℕ → UInt8} {addr len a : ℕ} {new : ℕ → UInt8}
    (h : a < addr ∨ addr + len ≤ a) : patch c addr len new a = c a := by
  unfold patch
  rw [if_neg (by omega)]

theorem patch_inside {c : ℕ → UInt8} {addr len a : ℕ} {new : ℕ → UInt8} (h : addr ≤ a)
    (h' : a < addr + len) : patch c addr len new a = new a := by
  unfold patch
  rw [if_pos ⟨h, h'⟩]

/-- The content of a chip after one more erase or write call at `addr`, whatever it answers. -/
def OnlySector (addr : ℕ) (c c' : ℕ → UInt8) : Prop :=
  ∀ a, a < addr ∨ addr + secSize ≤ a → c' a = c a

theorem OnlySector.trans {addr : ℕ} {c c' c'' : ℕ → UInt8} (h : OnlySector addr c c')
    (h' : OnlySector addr c' c'') : OnlySector addr c c'' := by
  intro a ha
  rw [h' a ha, h a ha]

theorem spiFlashEraseSector_spec (d : FlashDev) (sec : ℕ) :
    (spiFlashEraseSector d sec).1.ops = .erase (sec * secSize) :: d.ops ∧
      OnlySector (sec * secSize) d.content (spiFlashEraseSector d sec).1.content ∧
      (spiFlashEraseSector d sec).1.replies = d.replies.tail ∧
      ((spiFlashEraseSector d sec).2 = true → ∀ a, sec * secSize ≤ a → a < sec * secSize + secSize →
        (spiFlashEraseSector d sec).1.content a = 0xff) := by
  unfold spiFlashEraseSector
  cases d.replies.headD .ok with
  | ok =>
    dsimp only
    refine ⟨rfl, fun a ha => patch_outside ha, rfl, ?_⟩
    intro _ a h h'
    rw [patch_inside h h']
  | fail left => exact ⟨rfl, fun a ha => patch_outside ha, rfl, by simp⟩

theorem spiFlashWrite_spec (d : FlashDev) (addr : ℕ) (data : Buf secSize) :
    (spiFlashWrite d addr data).1.ops = .write addr :: d.ops ∧
      OnlySector addr d.content (spiFlashWrite d addr data).1.content ∧
      (spiFlashWrite d addr data).1.replies = d.replies.tail ∧
      ((spiFlashWrite d addr data).2 = true → ∀ a, addr ≤ a → a < addr + secSize →
        (spiFlashWrite d addr data).1.content a = d.content a &&& data.get (a - addr)) := by
  unfold spiFlashWrite
  cases d.replies.headD .ok with
  | ok =>
    dsimp only
    refine ⟨rfl, fun a ha => patch_outside ha, rfl, ?_⟩
    intro _ a h h'
    rw [patch_inside h h']
  | fail left => exact ⟨rfl, fun a ha => patch_outside ha, rfl, by simp⟩

theorem spiFlashEraseSector_ok {d : FlashDev} (hd : d.replies = []) (sec : ℕ) :
    (spiFlashEraseSector d sec).2 = true := by
  simp [spiFlashEraseSector, hd]

theorem spiFlashWrite_ok {d : FlashDev} (hd : d.replies = []) (addr : ℕ) (data : Buf secSize) :
    (spiFlashWrite d addr data).2 = true := by
  simp [spiFlashWrite, hd]

/-! ## The invariant of an upload -/

/-- Of the stream `m`, `postused` bytes have been taken, `n` of them are in flash from `base` on
and in the hash, the others are in the sector buffer; `client->buf` has what follows. -/
structure Uploading (base limit n : ℕ) (m : List UInt8) (r : OtaRun) : Prop where
  bufused_le : r.client.bufused ≤ 2048
  postused_le : r.client.postused ≤ r.client.postlen
  fits : r.client.postlen ≤ limit
  pending : pendingBytes r.client = m.drop r.client.postused
  length : m.length = r.client.postused + r.client.bufused
  beg : r.ota.newaddrBeg = base
  app : r.ota.appsize = r.client.postlen
  cur : r.ota.newaddrCur = base + n
  aligned : secSize ∣ n
  count : n + r.ota.secused = r.client.postused
  secused_le : r.ota.secused ≤ secSize
  sector : r.ota.secbuf.toList.take r.ota.secused = (m.take r.client.postused).drop n
  flashed : flashBytes r.dev.content base n = m.take n
  hashed : BlockHash.Absorbed sha256Consume sha256H r.ota.sha256 (m.take n)

/-- All of the announced bytes of `m` are in flash from `base` on. -/
structure Flashed (base limit : ℕ) (m : List UInt8) (r : OtaRun) : Prop where
  bufused_le : r.client.bufused ≤ 2048
  postused_eq : r.client.postused = r.client.postlen
  fits : r.client.postlen ≤ limit
  pending : pendingBytes r.client = m.drop r.client.postused
  length : m.length = r.client.postused + r.client.bufused
  beg : r.ota.newaddrBeg = base
  app : r.ota.appsize = r.client.postlen
  secused_eq : r.ota.secused = 0
  flashed : flashBytes r.dev.content base r.client.postlen = m.take r.client.postlen

/-- The hash has seen all of the announced bytes. -/
def Hashed (m : List UInt8) (r : OtaRun) : Prop :=
  BlockHash.Absorbed sha256Consume sha256H r.ota.sha256 (m.take r.client.postlen)

/-- With every byte taken and an empty sector buffer, nothing is missing in flash. -/
theorem Uploading.flashed_of_empty {base limit n : ℕ} {m : List UInt8} {r : OtaRun}
    (h : Uploading base limit n m r) (hpost : r.client.postused = r.client.postlen)
    (hsec : r.ota.secused = 0) : Flashed base limit m r ∧ Hashed m r := by
  have hn : n = r.client.postlen := by
    have := h.count
    omega
  have hfl := h.flashed
  have hha := h.hashed
  rw [hn] at hfl hha
  exact ⟨⟨h.bufused_le, hpost, h.fits, h.pending, h.length, h.beg, h.app, hsec, hfl⟩, hha⟩

/-- The loop does not touch these. -/
structure SameRequest (r r' : OtaRun) : Prop where
  postlen : r'.client.postlen = r.client.postlen
  state : r'.client.state = r.client.state
  conn : r'.client.conn = r.client.conn
  inuse : r'.client.inuse = r.client.inuse
  url : r'.client.url = r.client.url
  host : r'.client.host = r.client.host
  owner : r'.ota.client = r.ota.client

theorem SameRequest.refl (r : OtaRun) : SameRequest r r := ⟨rfl, rfl, rfl, rfl, rfl, rfl, rfl⟩

theorem SameRequest.trans {r r' r'' : OtaRun} (h : SameRequest r r') (h' : SameRequest r' r'') :
    SameRequest r r'' :=
  ⟨h'.postlen.trans h.postlen, h'.state.trans h.state, h'.conn.trans h.conn,
    h'.inuse.trans h.inuse, h'.url.trans h.url, h'.host.trans h.host, h'.owner.trans h.owner⟩

/-! ## One pass of the loop -/

theorem otaTake_same (r : OtaRun) : SameRequest r (otaTake r) := ⟨rfl, rfl, rfl, rfl, rfl, rfl, rfl⟩

/-- The number of bytes one pass moves. -/
def takeLen (r : OtaRun) : ℕ :=
  min (min r.client.bufused (r.client.postlen - r.client.postused)) (secSize - r.ota.secused)

theorem otaTake_spec {base limit n : ℕ} {m : List UInt8} {r : OtaRun}
    (h : Uploading base limit n m r) : Uploading base limit n m (otaTake r) := by
  have hlen : takeLen r ≤ r.client.bufused := by unfold takeLen; omega
  have hlen' : takeLen r + r.client.postused ≤ r.client.postlen := by
    have := h.postused_le
    unfold takeLen
    omega
  have hsec : r.ota.secused + takeLen r ≤ secSize := by
    have := h.secused_le
    unfold takeLen
    omega
  have hbuf := h.bufused_le
  have hdata : (r.client.buf.toList.take (takeLen r)).length = takeLen r := by
    rw [List.length_take, Buf.length_toList]
    omega
  -- the bytes moved are the next ones of the stream
  have hmoved : r.client.buf.toList.take (takeLen r) = (m.drop r.client.postused).take (takeLen r) := by
    rw [← h.pending, pendingBytes, List.take_take, min_eq_left hlen]
  have hcount := h.count
  have hlength := h.length
  constructor
  case bufused_le => exact le_trans (Nat.sub_le _ _) hbuf
  case postused_le =>
    show r.client.postused + takeLen r ≤ r.client.postlen
    omega
  case fits => exact h.fits
  case pending =>
    show (r.client.buf.memcpy 0 ((r.client.buf.toList.take r.client.bufused).drop (takeLen r))).toList.take
      (r.client.bufused - takeLen r) = m.drop (r.client.postused + takeLen r)
    rw [Buf.take_memmove _ hbuf, ← List.drop_drop, ← h.pending, pendingBytes]
  case length =>
    show m.length = r.client.postused + takeLen r + (r.client.bufused - takeLen r)
    omega
  case beg => exact h.beg
  case app => exact h.app
  case cur => exact h.cur
  case aligned => exact h.aligned
  case count =>
    show n + (r.ota.secused + takeLen r) = r.client.postused + takeLen r
    omega
  case secused_le => exact hsec
  case sector =>
    show (r.ota.secbuf.memcpy r.ota.secused (r.client.buf.toList.take (takeLen r))).toList.take
      (r.ota.secused + takeLen r) = (m.take (r.client.postused + takeLen r)).drop n
    have hcopy := r.ota.secbuf.take_memcpy
      (show r.ota.secused + (r.client.buf.toList.take (takeLen r)).length ≤ secSize by omega)
    rw [hdata] at hcopy
    rw [hcopy, h.sector, hmoved, List.take_add, List.drop_append_of_le_length]
    rw [List.length_take]
    omega
  case flashed => exact h.flashed
  case hashed => exact h.hashed

/-! ## Flash calls stay inside the partition -/

/-- The call affects only `[base, base + limit)`. -/
def FlashOp.Within (base limit : ℕ) (op : FlashOp) : Prop :=
  base ≤ op.addr ∧ op.addr + secSize ≤ base + limit

/-- From `d` to `d'` the chip has only been erased and written within the partition. -/
structure DevStep (base limit : ℕ) (d d' : FlashDev) : Prop where
  ops : ∀ op ∈ d'.ops, op ∈ d.ops ∨ op.Within base limit
  outside : ∀ a, a < base ∨ base + limit ≤ a → d'.content a = d.content a
  replies : d.replies = [] → d'.replies = []

theorem DevStep.refl (base limit : ℕ) (d : FlashDev) : DevStep base limit d d :=
  ⟨fun _ h => Or.inl h, fun _ _ => rfl, fun h => h⟩

theorem DevStep.trans {base limit : ℕ} {d d' d'' : FlashDev} (h : DevStep base limit d d')
    (h' : DevStep base limit d' d'') : DevStep base limit d d'' := by
  refine ⟨fun op hop => ?_, fun a ha => ?_, fun hr => h'.replies (h.replies hr)⟩
  · rcases h'.ops op hop with hmem | hin
    · exact h.ops op hmem
    · exact Or.inr hin
  · rw [h'.outside a ha, h.outside a ha]

/-- Erasing and writing the sector at `addr`. -/
theorem DevStep.of_sector {base limit addr : ℕ} {d d' : FlashDev} {op : FlashOp}
    (hops : d'.ops = op :: d.ops) (hop : op.addr = addr) (hlow : base ≤ addr)
    (hhigh : addr + secSize ≤ base + limit) (honly : OnlySector addr d.content d'.content)
    (hrep : d'.replies = d.replies.tail) : DevStep base limit d d' := by
  refine ⟨fun o ho => ?_, fun a ha => honly a (by omega), fun hr => by rw [hrep, hr]; rfl⟩
  rw [hops, List.mem_cons] at ho
  rcases ho with rfl | ho
  · right
    unfold FlashOp.Within
    omega
  · exact Or.inl ho

/-- A partition made of whole sectors, shorter than the messages SHA-256 counts correctly. -/
structure Partition (base limit : ℕ) : Prop where
  base_aligned : secSize ∣ base
  limit_aligned : secSize ∣ limit
  small : limit < 2 ^ 29

theorem Partition.room {base limit n : ℕ} (h : Partition base limit) (hn : secSize ∣ n)
    (hlt : n < limit) : n + secSize ≤ limit := by
  rcases h.limit_aligned with ⟨a, ha⟩
  rcases hn with ⟨b, hb⟩
  have hab : b < a := by
    apply Nat.lt_of_mul_lt_mul_left (a := secSize)
    omega
  calc n + secSize = secSize * (b + 1) := by rw [hb]; ring
    _ ≤ secSize * a := Nat.mul_le_mul_left _ hab
    _ = limit := ha.symm

theorem byte_ones_and (x : UInt8) : 0xff &&& x = x := by
  apply UInt8.toNat_inj.mp
  rw [UInt8.toNat_and]
  have hx : x.toNat < 2 ^ 8 := x.toNat_lt
  have h := Nat.and_two_pow_sub_one_of_lt_two_pow hx
  rw [Nat.land_comm]
  exact h

/-! ## Emptying the sector buffer -/

/-- A successful flush puts the sector into flash and into the hash. -/
theorem flush_advance {base limit n : ℕ} {m : List UInt8} {r : OtaRun} {c : ℕ → UInt8}
    (h : Uploading base limit n m r)
    (honly : OnlySector (base + n) r.dev.content c)
    (hnew : ∀ a, base + n ≤ a → a < base + n + secSize → c a = r.ota.secbuf.get (a - (base + n))) :
    flashBytes c base r.client.postused = m.take r.client.postused ∧
      BlockHash.Absorbed sha256Consume sha256H
        (sha256Proc r.ota.sha256 (r.ota.secbuf.toList.take r.ota.secused)) (m.take r.client.postused) := by
  have hle := h.secused_le
  have hsplit : m.take r.client.postused = m.take n ++ r.ota.secbuf.toList.take r.ota.secused := by
    have hn : n ≤ r.client.postused := by have := h.count; omega
    have hcut := List.take_append_drop n (m.take r.client.postused)
    rw [List.take_take, min_eq_left hn] at hcut
    rw [h.sector, hcut]
  refine ⟨?_, ?_⟩
  · -- the sectors before are not touched, and the new one is what the buffer held
    have hold : flashBytes c base n = m.take n := by
      rw [← h.flashed]
      exact flashBytes_congr fun a _ ha => honly a (by omega)
    have hsec : flashBytes c (base + n) r.ota.secused = r.ota.secbuf.toList.take r.ota.secused := by
      apply List.ext_getElem
      · simp
        omega
      · intro k h1 h2
        have hk : k < r.ota.secused := by simpa using h1
        have hget := hnew (base + n + k) (by omega) (by omega)
        rw [show base + n + k - (base + n) = k by omega] at hget
        simp only [flashBytes, List.getElem_map, List.getElem_range, List.getElem_take]
        rw [hget, Buf.get, List.getD_eq_getElem]
    rw [← h.count, flashBytes_add, hold, hsec, h.count, hsplit]
  · rw [hsplit]
    exact BlockHash.proc_spec h.hashed _

/-- A flush at the end of a pass: it fails and leaves the upload as it was, or it moves on by one
sector, or it was the last one. -/
theorem otaFlush_spec {base limit n : ℕ} {m : List UInt8} {r : OtaRun} (hp : Partition base limit)
    (h : Uploading base limit n m r) (hn : n < r.client.postlen) :
    (otaFlush r).1.client = r.client ∧ SameRequest r (otaFlush r).1 ∧
      DevStep base limit r.dev (otaFlush r).1.dev ∧
      (r.dev.replies = [] → (otaFlush r).2 = none) ∧
      ((otaFlush r).2 ≠ none → Uploading base limit n m (otaFlush r).1) ∧
      ((otaFlush r).2 = none → r.ota.secused = secSize →
        Uploading base limit (n + secSize) m (otaFlush r).1 ∧ (otaFlush r).1.ota.secused = 0) ∧
      ((otaFlush r).2 = none → r.client.postused = r.client.postlen →
        Flashed base limit m (otaFlush r).1 ∧ Hashed m (otaFlush r).1) := by
  have hcur : r.ota.newaddrCur / secSize * secSize = base + n := by
    rw [h.cur]
    exact Nat.div_mul_cancel (Nat.dvd_add hp.base_aligned h.aligned)
  have hroom : base + n + secSize ≤ base + limit := by
    have := hp.room h.aligned (lt_of_lt_of_le hn h.fits)
    omega
  obtain ⟨he_ops, he_only, he_rep, he_ok⟩ :=
    spiFlashEraseSector_spec r.dev (r.ota.newaddrCur / secSize)
  rw [hcur] at he_ops he_only he_ok
  have he_succ : r.dev.replies = [] → (spiFlashEraseSector r.dev (r.ota.newaddrCur / secSize)).2 = true :=
    fun hr => spiFlashEraseSector_ok hr _
  unfold otaFlush
  generalize hed : spiFlashEraseSector r.dev (r.ota.newaddrCur / secSize) = ed at *
  obtain ⟨dev1, erased⟩ := ed
  have hdev1 : DevStep base limit r.dev dev1 :=
    DevStep.of_sector he_ops rfl (Nat.le_add_right base n) hroom he_only he_rep
  -- the upload does not see what a failed call leaves in its sector
  have hkeep : ∀ dev : FlashDev, OnlySector (base + n) r.dev.content dev.content →
      Uploading base limit n m { r with dev } := by
    intro dev hdev
    refine { h with flashed := ?_ }
    rw [← h.flashed]
    exact flashBytes_congr fun a _ ha => hdev a (by omega)
  cases erased with
  | false =>
    simp only [Bool.false_eq_true, if_false]
    refine ⟨trivial, ⟨rfl, rfl, rfl, rfl, rfl, rfl, rfl⟩, hdev1, ?_, fun _ => hkeep dev1 he_only, ?_, ?_⟩
    · intro hr
      simpa using he_succ hr
    · simp
    · simp
  | true =>
    simp only [if_true]
    obtain ⟨hw_ops, hw_only, hw_rep, hw_ok⟩ := spiFlashWrite_spec dev1 r.ota.newaddrCur r.ota.secbuf
    have hw_succ : dev1.replies = [] → (spiFlashWrite dev1 r.ota.newaddrCur r.ota.secbuf).2 = true :=
      fun hr => spiFlashWrite_ok hr _ _
    rw [h.cur] at hw_ops hw_only hw_rep hw_ok hw_succ ⊢
    generalize hwd : spiFlashWrite dev1 (base + n) r.ota.secbuf = wd at *
    obtain ⟨dev2, written⟩ := wd
    have hdev2 : DevStep base limit r.dev dev2 :=
      hdev1.trans (DevStep.of_sector hw_ops rfl (Nat.le_add_right base n) hroom hw_only hw_rep)
    have honly : OnlySector (base + n) r.dev.content dev2.content := he_only.trans hw_only
    cases written with
    | false =>
      simp only [Bool.false_eq_true, if_false]
      refine ⟨trivial, ⟨rfl, rfl, rfl, rfl, rfl, rfl, rfl⟩, hdev2, ?_, fun _ => hkeep dev2 honly, ?_, ?_⟩
      · intro hr
        simpa using hw_succ (hdev1.replies hr)
      · simp
      · simp
    | true =>
      have hnew : ∀ a, base + n ≤ a → a < base + n + secSize →
          dev2.content a = r.ota.secbuf.get (a - (base + n)) := by
        intro a ha ha'
        rw [hw_ok rfl a ha ha', he_ok rfl a ha ha', byte_ones_and]
      obtain ⟨hfl, hha⟩ := flush_advance h honly hnew
      have hcount := h.count
      simp only [if_true]
      refine ⟨trivial, ⟨rfl, rfl, rfl, rfl, rfl, rfl, rfl⟩, hdev2, fun _ => trivial, by simp, ?_, ?_⟩
      · intro _ hfull
        have hpost : n + secSize = r.client.postused := by omega
        refine ⟨{ h with cur := ?_, aligned := ?_, count := ?_, secused_le := ?_, sector := ?_,
                         flashed := ?_, hashed := ?_ }, trivial⟩
        · show base + n + secSize = base + (n + secSize)
          omega
        · exact Nat.dvd_add h.aligned (dvd_refl _)
        · exact hpost
        · exact Nat.zero_le _
        · show _ = (m.take r.client.postused).drop (n + secSize)
          rw [hpost, List.drop_of_length_le (by rw [List.length_take]; omega)]
          rfl
        · rw [hpost]
          exact hfl
        · rw [hpost]
          exact hha
      · intro _ hdone
        rw [hdone] at hfl hha
        exact ⟨⟨h.bufused_le, hdone, h.fits, h.pending, h.length, h.beg, h.app, rfl, hfl⟩, hha⟩

/-! ## The loop -/

/-- The loop has nothing to do once the announced bytes have been taken. -/
theorem otaLoop_done (fuel : ℕ) {r : OtaRun} (h : r.client.postused = r.client.postlen) :
    otaLoop fuel r = (r, none) := by
  cases fuel with
  | zero => rfl
  | succ fuel =>
    rw [otaLoop, if_neg]
    omega

/-- What the loop leaves of an upload: a failed call, an upload that waits for more data, or a
complete image. -/
structure LoopSpec (base limit : ℕ) (m : List UInt8) (r : OtaRun) (res : OtaRun × Option OtaError) :
    Prop where
  same : SameRequest r res.1
  dev : DevStep base limit r.dev res.1.dev
  ok : r.dev.replies = [] → res.2 = none
  failed : res.2 ≠ none → ∃ n, Uploading base limit n m res.1
  went : res.2 = none →
    (res.1.client.postused < res.1.client.postlen ∧ res.1.client.bufused = 0 ∧
      ∃ n, Uploading base limit n m res.1) ∨ (Flashed base limit m res.1 ∧ Hashed m res.1)

/-- A pass in front of the rest of the loop. -/
theorem LoopSpec.cons {base limit : ℕ} {m : List UInt8} {r r₁ : OtaRun} {res : OtaRun × Option OtaError}
    (hsame : SameRequest r r₁) (hdev : DevStep base limit r.dev r₁.dev)
    (h : LoopSpec base limit m r₁ res) : LoopSpec base limit m r res :=
  ⟨hsame.trans h.same, hdev.trans h.dev, fun hr => h.ok (hdev.replies hr), h.failed, h.went⟩

/-- Twice the bytes at hand, and one more for a full sector buffer: each pass makes it smaller. -/
def loopMeasure (r : OtaRun) : ℕ :=
  2 * r.client.bufused + if r.ota.secused = secSize then 1 else 0

/-- A pass moves a byte, or it finds the sector buffer full and empties it. -/
theorem loopMeasure_take {r : OtaRun} (hsec : r.ota.secused ≤ secSize)
    (hmore : r.client.bufused > 0 ∧ r.client.postlen > r.client.postused) :
    2 * (otaTake r).client.bufused < loopMeasure r := by
  have hbuf : (otaTake r).client.bufused = r.client.bufused - takeLen r := rfl
  have hzero : takeLen r = 0 → r.ota.secused = secSize := by
    unfold takeLen
    omega
  unfold loopMeasure
  rcases Nat.eq_zero_or_pos (takeLen r) with h0 | hpos
  · rw [if_pos (hzero h0)]
    omega
  · have : takeLen r ≤ r.client.bufused := by unfold takeLen; omega
    split <;> omega

/-- The loop, by induction on the fuel: each pass is a step of `otaFlush_spec` or moves bytes into
the sector buffer only. -/
theorem otaLoop_spec {base limit : ℕ} (hp : Partition base limit) {m : List UInt8} (fuel : ℕ) {n : ℕ}
    {r : OtaRun} (h : Uploading base limit n m r) (hlt : r.client.postused < r.client.postlen)
    (hfuel : loopMeasure r < fuel) : LoopSpec base limit m r (otaLoop fuel r) := by
  induction fuel generalizing r n with
  | zero => omega
  | succ fuel ih =>
    rw [otaLoop]
    by_cases hmore : r.client.bufused > 0 ∧ r.client.postlen > r.client.postused
    swap
    · -- no byte at hand
      rw [if_neg hmore]
      refine ⟨SameRequest.refl r, DevStep.refl _ _ _, fun _ => rfl, by simp, fun _ => Or.inl ?_⟩
      have hnone : r.client.bufused = 0 := by omega
      exact ⟨hlt, hnone, n, h⟩
    rw [if_pos hmore]
    have h₁ := otaTake_spec h
    have hsame := otaTake_same r
    have hdev : (otaTake r).dev = r.dev := rfl
    have hmeasure : 2 * (otaTake r).client.bufused < fuel := by
      have := loopMeasure_take h.secused_le hmore
      omega
    have hn : n < (otaTake r).client.postlen := by
      rw [hsame.postlen]
      have := h.count
      omega
    generalize otaTake r = r₁ at *
    dsimp only
    by_cases hflush : r₁.ota.secused = secSize ∨ r₁.client.postused = r₁.client.postlen
    · rw [if_pos hflush]
      obtain ⟨hclient, hsame₂, hdev₂, hok₂, hfail₂, hfull₂, hdone₂⟩ := otaFlush_spec hp h₁ hn
      rcases hres : otaFlush r₁ with ⟨r₂, _ | e⟩
      · rw [hres] at hclient hsame₂ hdev₂ hfull₂ hdone₂
        dsimp only at hclient hsame₂ hdev₂ hfull₂ hdone₂ ⊢
        rw [hdev] at hdev₂
        apply LoopSpec.cons (hsame.trans hsame₂) hdev₂
        by_cases hend : r₁.client.postused = r₁.client.postlen
        · -- the last sector
          rw [otaLoop_done fuel (by rw [hclient]; exact hend)]
          exact ⟨SameRequest.refl r₂, DevStep.refl _ _ _, fun _ => rfl, by simp,
            fun _ => Or.inr (hdone₂ rfl hend)⟩
        · -- the buffer is empty again, so twice the bytes at hand is the measure
          obtain ⟨hup, hsec0⟩ := hfull₂ rfl (by omega)
          apply ih hup
          · rw [hclient]
            have := h₁.postused_le
            omega
          · unfold loopMeasure
            rw [hclient, hsec0]
            simpa [secSize] using hmeasure
      · rw [hres] at hsame₂ hdev₂ hok₂ hfail₂
        dsimp only at hsame₂ hdev₂ hok₂ hfail₂ ⊢
        rw [hdev] at hdev₂ hok₂
        exact ⟨hsame.trans hsame₂, hdev₂, hok₂, fun _ => ⟨n, hfail₂ (by simp)⟩, by simp⟩
    · rw [if_neg hflush]
      rw [not_or] at hflush
      apply LoopSpec.cons hsame (by rw [hdev]; exact DevStep.refl _ _ _)
      apply ih h₁
      · have := h₁.postused_le
        omega
      · unfold loopMeasure
        rw [if_neg hflush.1]
        exact hmeasure

/-! ## Read-back and verification -/

/-- What the part behind the loop leaves alone. -/
structure SameUpload (r r' : OtaRun) : Prop where
  client : r'.client = r.client
  content : r'.dev.content = r.dev.content
  ops : r'.dev.ops = r.dev.ops
  replies : r.dev.replies = [] → r'.dev.replies = []
  owner : r'.ota.client = r.ota.client
  beg : r'.ota.newaddrBeg = r.ota.newaddrBeg
  app : r'.ota.appsize = r.ota.appsize
  secused : r'.ota.secused = r.ota.secused

theorem SameUpload.refl (r : OtaRun) : SameUpload r r :=
  ⟨rfl, rfl, rfl, fun h => h, rfl, rfl, rfl, rfl⟩

theorem SameUpload.trans {r r' r'' : OtaRun} (h : SameUpload r r') (h' : SameUpload r' r'') :
    SameUpload r r'' :=
  ⟨h'.client.trans h.client, h'.content.trans h.content, h'.ops.trans h.ops,
    fun hr => h'.replies (h.replies hr), h'.owner.trans h.owner, h'.beg.trans h.beg,
    h'.app.trans h.app, h'.secused.trans h.secused⟩

theorem SameUpload.same {r r' : OtaRun} (h : SameUpload r r') : SameRequest r r' := by
  have hc := h.client
  exact ⟨by rw [hc], by rw [hc], by rw [hc], by rw [hc], by rw [hc], by rw [hc], h.owner⟩

theorem SameUpload.dev {r r' : OtaRun} (h : SameUpload r r') (base limit : ℕ) :
    DevStep base limit r.dev r'.dev :=
  ⟨fun op hop => Or.inl (by rw [← h.ops]; exact hop), fun a _ => by rw [h.content], h.replies⟩

theorem Flashed.same {base limit : ℕ} {m : List UInt8} {r r' : OtaRun} (h : Flashed base limit m r)
    (hs : SameUpload r r') : Flashed base limit m r' := by
  have hc := hs.client
  refine ⟨?_, ?_, ?_, ?_, ?_, ?_, ?_, ?_, ?_⟩
  · rw [hc]; exact h.bufused_le
  · rw [hc]; exact h.postused_eq
  · rw [hc]; exact h.fits
  · rw [hc]; exact h.pending
  · rw [hc]; exact h.length
  · rw [hs.beg]; exact h.beg
  · rw [hs.app, hc]; exact h.app
  · rw [hs.secused]; exact h.secused_eq
  · rw [hs.content, hc]; exact h.flashed

theorem otaReadBack_same (r : OtaRun) (addrs : List ℕ) : SameUpload r (otaReadBack r addrs).1 := by
  induction addrs generalizing r with
  | nil => exact SameUpload.refl r
  | cons addr addrs ih =>
    rw [otaReadBack, spiFlashRead]
    cases d : r.dev.replies.headD .ok with
    | ok =>
      dsimp only
      refine SameUpload.trans ?_ (ih _)
      exact ⟨rfl, rfl, rfl, fun hr => by simp [hr], rfl, rfl, rfl, rfl⟩
    | fail left => exact ⟨rfl, rfl, rfl, fun hr => by simp [hr], rfl, rfl, rfl, rfl⟩

theorem otaSignature_same (env : OtaEnv) (query : Option (List UInt8)) (r : OtaRun) :
    SameUpload r { r with ota := (otaSignature env query r.ota).1 } := by
  rcases query with _ | start
  · exact SameUpload.refl r
  · rw [otaSignature]
    rcases bigintFromhex start with _ | cipher
    · exact SameUpload.refl r
    · dsimp only
      rcases rsaPubkeyDecrypt env.pubkey cipher with _ | clear
      · exact ⟨rfl, rfl, rfl, fun h => h, rfl, rfl, rfl, rfl⟩
      · dsimp only
        split
        · exact ⟨rfl, rfl, rfl, fun h => h, rfl, rfl, rfl, rfl⟩
        · exact ⟨rfl, rfl, rfl, fun h => h, rfl, rfl, rfl, rfl⟩

theorem otaCompare_same (env : OtaEnv) (r : OtaRun) :
    SameUpload r (otaCompare env r).1 ∧ (otaCompare env r).2 ≠ .pending := by
  rw [otaCompare]
  split
  · exact ⟨SameUpload.refl r, by simp⟩
  · have hs := otaSignature_same env r.client.query r
    rcases hsig : otaSignature env r.client.query r.ota with ⟨ota, _ | e⟩
    · rw [hsig] at hs
      exact ⟨hs, by simp⟩
    · rw [hsig] at hs
      exact ⟨hs, by simp⟩

theorem otaVerify_same (env : OtaEnv) (r : OtaRun) :
    SameUpload r (otaVerify env r).1 ∧ (otaVerify env r).2 ≠ .pending := by
  rw [otaVerify]
  rcases sha256Done r.ota.sha256 with _ | ⟨sha256, hash2⟩
  · exact ⟨SameUpload.refl r, by simp⟩
  · have hs : SameUpload r { r with ota := { r.ota with sha256, hash2 } } :=
      ⟨rfl, rfl, rfl, fun h => h, rfl, rfl, rfl, rfl⟩
    have hc := otaCompare_same env { r with ota := { r.ota with sha256, hash2 } }
    exact ⟨hs.trans hc.1, hc.2⟩

theorem otaRecheck_same (env : OtaEnv) (r : OtaRun) :
    SameUpload r (otaRecheck env r).1 ∧ (otaRecheck env r).2 ≠ .pending := by
  rw [otaRecheck]
  have hs := otaReadBack_same r (readBackAddrs r.ota)
  rcases hrb : otaReadBack r (readBackAddrs r.ota) with ⟨r₁, _ | e⟩
  · rw [hrb] at hs
    have hv := otaVerify_same env r₁
    exact ⟨hs.trans hv.1, hv.2⟩
  · rw [hrb] at hs
    exact ⟨hs, by simp⟩

/-- Verification writes no flash and never asks for more data. -/
theorem otaComplete_same (env : OtaEnv) (r : OtaRun) :
    SameUpload r (otaComplete env r).1 ∧ (otaComplete env r).2 ≠ .pending := by
  rw [otaComplete]
  rcases sha256Done r.ota.sha256 with _ | ⟨sha256, hash1⟩
  · exact ⟨SameUpload.refl r, by simp⟩
  · have hs : SameUpload r { r with ota := { r.ota with sha256 := sha256Init sha256, hash1 } } :=
      ⟨rfl, rfl, rfl, fun h => h, rfl, rfl, rfl, rfl⟩
    have hc := otaRecheck_same env { r with ota := { r.ota with sha256 := sha256Init sha256, hash1 } }
    exact ⟨hs.trans hc.1, hc.2⟩

/-! ## A call by the owner -/

/-- What `client->buf` holds, relative to the stream of its connection. -/
structure ClientInv (c : HttpClient) (m : List UInt8) : Prop where
  bufused_le : c.bufused ≤ 2048
  postused_le : c.postused ≤ c.postlen
  headers : c.state = .headers → c.postused = 0
  pending : c.state ≠ .headers → pendingBytes c = m.drop c.postused ∧ m.length = c.postused + c.bufused

theorem Uploading.client {base limit n : ℕ} {m : List UInt8} {r : OtaRun}
    (h : Uploading base limit n m r) (hs : r.client.state ≠ .headers) : ClientInv r.client m :=
  ⟨h.bufused_le, h.postused_le, fun hh => absurd hh hs, fun _ => ⟨h.pending, h.length⟩⟩

theorem Flashed.client {base limit : ℕ} {m : List UInt8} {r : OtaRun} (h : Flashed base limit m r)
    (hs : r.client.state ≠ .headers) : ClientInv r.client m :=
  ⟨h.bufused_le, le_of_eq h.postused_eq, fun hh => absurd hh hs, fun _ => ⟨h.pending, h.length⟩⟩

/-- Every announced byte has been taken, but a flash call has failed on the last sector. -/
def Stranded (r : OtaRun) : Prop := r.client.postused = r.client.postlen ∧ r.ota.secused ≠ 0

/-- The state of an upload between two calls. -/
def UploadInv (base limit : ℕ) (m : List UInt8) (r : OtaRun) : Prop :=
  (r.client.postused < r.client.postlen ∧ ∃ n, Uploading base limit n m r) ∨
    Flashed base limit m r ∨ Stranded r

theorem Uploading.inv {base limit n : ℕ} {m : List UInt8} {r : OtaRun}
    (h : Uploading base limit n m r) : UploadInv base limit m r := by
  rcases Nat.lt_or_eq_of_le h.postused_le with hlt | heq
  · exact Or.inl ⟨hlt, n, h⟩
  · rcases Nat.eq_zero_or_pos r.ota.secused with h0 | hpos
    · exact Or.inr (Or.inl (h.flashed_of_empty heq h0).1)
    · exact Or.inr (Or.inr ⟨heq, by omega⟩)

/-- The client record `c'` has the data of `c` that an upload depends on, and the chips agree
inside the partition. -/
structure SameData (base limit : ℕ) (c c' : HttpClient) (d d' : FlashDev) : Prop where
  buf : c'.buf = c.buf
  bufused : c'.bufused = c.bufused
  postused : c'.postused = c.postused
  postlen : c'.postlen = c.postlen
  content : ∀ a, base ≤ a → a < base + limit → d'.content a = d.content a

section
variable {base limit : ℕ} {m : List UInt8} {c c' : HttpClient} {o : OtaState} {d d' : FlashDev}

theorem SameData.pending (h : SameData base limit c c' d d') : pendingBytes c' = pendingBytes c := by
  unfold pendingBytes
  rw [h.buf, h.bufused]

theorem SameData.flash (h : SameData base limit c c' d d') {k : ℕ} (hk : k ≤ limit) :
    flashBytes d'.content base k = flashBytes d.content base k :=
  flashBytes_congr fun a ha ha' => h.content a ha (by omega)

theorem Uploading.congr {n : ℕ} (h : Uploading base limit n m ⟨c, o, d⟩)
    (hs : SameData base limit c c' d d') : Uploading base limit n m ⟨c', o, d'⟩ := by
  have hn : n ≤ limit := by
    have h1 := h.count
    have h2 := h.postused_le
    have h3 := h.fits
    omega
  have hbufused := hs.bufused
  have hpostused := hs.postused
  have hpostlen := hs.postlen
  constructor
  case bufused_le => exact le_of_eq_of_le hbufused h.bufused_le
  case postused_le => dsimp only; rw [hpostused, hpostlen]; exact h.postused_le
  case fits => dsimp only; rw [hpostlen]; exact h.fits
  case pending => dsimp only; rw [hs.pending, hpostused]; exact h.pending
  case length => dsimp only; rw [hpostused, hbufused]; exact h.length
  case beg => exact h.beg
  case app => dsimp only; rw [hpostlen]; exact h.app
  case cur => exact h.cur
  case aligned => exact h.aligned
  case count => dsimp only; rw [hpostused]; exact h.count
  case secused_le => exact h.secused_le
  case sector => dsimp only; rw [hpostused]; exact h.sector
  case flashed => dsimp only; rw [hs.flash hn]; exact h.flashed
  case hashed => exact h.hashed

theorem Flashed.congr (h : Flashed base limit m ⟨c, o, d⟩) (hs : SameData base limit c c' d d') :
    Flashed base limit m ⟨c', o, d'⟩ := by
  have hbufused := hs.bufused
  have hpostused := hs.postused
  have hpostlen := hs.postlen
  constructor
  case bufused_le => exact le_of_eq_of_le hbufused h.bufused_le
  case postused_eq => dsimp only; rw [hpostused, hpostlen]; exact h.postused_eq
  case fits => dsimp only; rw [hpostlen]; exact h.fits
  case pending => dsimp only; rw [hs.pending, hpostused]; exact h.pending
  case length => dsimp only; rw [hpostused, hbufused]; exact h.length
  case beg => exact h.beg
  case app => dsimp only; rw [hpostlen]; exact h.app
  case secused_eq => exact h.secused_eq
  case flashed => dsimp only; rw [hpostlen, hs.flash h.fits]; exact h.flashed

/-- The state of an upload is one of its counters, buffers and partition. -/
theorem UploadInv.congr (h : UploadInv base limit m ⟨c, o, d⟩) (hs : SameData base limit c c' d d') :
    UploadInv base limit m ⟨c', o, d'⟩ := by
  have hpostused := hs.postused
  have hpostlen := hs.postlen
  rcases h with ⟨hlt, n, hup⟩ | hf | ⟨hst, hsec⟩
  · dsimp only at hlt
    exact Or.inl ⟨by dsimp only; omega, n, hup.congr hs⟩
  · exact Or.inr (Or.inl (hf.congr hs))
  · dsimp only at hst
    exact Or.inr (Or.inr ⟨by dsimp only; omega, hsec⟩)

theorem pendingBytes_extend {c : HttpClient} {data : List UInt8} (h : c.bufused + data.length ≤ 2048) :
    pendingBytes (extend c data) = pendingBytes c ++ data :=
  Buf.take_memcpy c.buf h

/-- Received data continues the upload. -/
theorem Uploading.received {n : ℕ} {data : List UInt8} (h : Uploading base limit n m ⟨c, o, d⟩)
    (hroom : c.bufused + data.length ≤ 2048) :
    Uploading base limit n (m ++ data) ⟨extend c data, o, d⟩ := by
  have hlen := h.length
  have hcount := h.count
  dsimp only at hlen hcount
  have htake : ∀ k ≤ c.postused, (m ++ data).take k = m.take k := fun k hk =>
    List.take_append_of_le_length (by omega)
  constructor
  case bufused_le => exact hroom
  case postused_le => exact h.postused_le
  case fits => exact h.fits
  case pending =>
    show pendingBytes (extend c data) = (m ++ data).drop c.postused
    rw [pendingBytes_extend hroom, List.drop_append_of_le_length (by omega), h.pending]
  case length =>
    show (m ++ data).length = c.postused + (c.bufused + data.length)
    rw [List.length_append]
    omega
  case beg => exact h.beg
  case app => exact h.app
  case cur => exact h.cur
  case aligned => exact h.aligned
  case count => exact h.count
  case secused_le => exact h.secused_le
  case sector =>
    show _ = ((m ++ data).take c.postused).drop n
    rw [htake _ le_rfl]
    exact h.sector
  case flashed => rw [htake n (by omega)]; exact h.flashed
  case hashed => rw [htake n (by omega)]; exact h.hashed

/-- Data behind the announced bytes does not change them. -/
theorem Flashed.take_append (h : Flashed base limit m ⟨c, o, d⟩) (data : List UInt8) :
    (m ++ data).take c.postlen = m.take c.postlen := by
  have hlen := h.length
  have hpost := h.postused_eq
  dsimp only at hlen hpost
  exact List.take_append_of_le_length (by omega)

theorem Flashed.received {data : List UInt8} (h : Flashed base limit m ⟨c, o, d⟩)
    (hroom : c.bufused + data.length ≤ 2048) :
    Flashed base limit (m ++ data) ⟨extend c data, o, d⟩ := by
  have hlen := h.length
  dsimp only at hlen
  constructor
  case bufused_le => exact hroom
  case postused_eq => exact h.postused_eq
  case fits => exact h.fits
  case pending =>
    show pendingBytes (extend c data) = (m ++ data).drop c.postused
    rw [pendingBytes_extend hroom, List.drop_append_of_le_length (by omega), h.pending]
  case length =>
    show (m ++ data).length = c.postused + (c.bufused + data.length)
    rw [List.length_append]
    omega
  case beg => exact h.beg
  case app => exact h.app
  case secused_eq => exact h.secused_eq
  case flashed =>
    show _ = (m ++ data).take c.postlen
    rw [h.take_append]
    exact h.flashed

theorem UploadInv.received {data : List UInt8} (h : UploadInv base limit m ⟨c, o, d⟩)
    (hroom : c.bufused + data.length ≤ 2048) :
    UploadInv base limit (m ++ data) ⟨extend c data, o, d⟩ := by
  rcases h with ⟨hlt, n, hup⟩ | hf | hst
  · exact Or.inl ⟨hlt, n, hup.received hroom⟩
  · exact Or.inr (Or.inl (hf.received hroom))
  · exact Or.inr (Or.inr hst)

end

/-- What a call by the owner of the upload does. -/
structure DataSpec (base limit : ℕ) (m : List UInt8) (r : OtaRun) (res : OtaRun × OtaResult) : Prop where
  same : SameRequest r res.1
  dev : DevStep base limit r.dev res.1.dev
  client : ClientInv res.1.client m
  inv : UploadInv base limit m res.1
  pending : res.2 = .pending → res.1.client.postused < res.1.client.postlen ∧ res.1.client.bufused = 0
  accepted : res.2 = .accepted → ¬Stranded r → Flashed base limit m res.1

theorem otaComplete_spec (env : OtaEnv) {base limit : ℕ} {m : List UInt8} {r : OtaRun}
    (hc : ClientInv r.client m) (h : Flashed base limit m r ∨ Stranded r) :
    DataSpec base limit m r (otaComplete env r) := by
  obtain ⟨hs, hne⟩ := otaComplete_same env r
  refine ⟨hs.same, hs.dev base limit, by rw [hs.client]; exact hc, ?_, fun hp => absurd hp hne, ?_⟩
  · rcases h with hf | ⟨hpost, hsec⟩
    · exact Or.inr (Or.inl (hf.same hs))
    · refine Or.inr (Or.inr ⟨?_, ?_⟩)
      · rw [hs.client]; exact hpost
      · rw [hs.secused]; exact hsec
  · intro _ hns
    rcases h with hf | hst
    · exact hf.same hs
    · exact absurd hst hns

theorem otaData_spec (env : OtaEnv) {base limit : ℕ} (hp : Partition base limit) {m : List UInt8}
    {r : OtaRun} (hc : ClientInv r.client m) (hstate : r.client.state ≠ .headers)
    (h : UploadInv base limit m r) : DataSpec base limit m r (otaData env r) := by
  rw [otaData]
  rcases h with ⟨hlt, n, hup⟩ | hdone
  · -- the upload goes on; the last sector may end it
    have hfuel : loopMeasure r < 2 * r.client.bufused + 2 := by
      unfold loopMeasure
      split <;> omega
    have hloop := otaLoop_spec hp _ hup hlt hfuel
    have hstate₁ : (otaLoop (2 * r.client.bufused + 2) r).1.client.state ≠ .headers := by
      rw [hloop.same.state]
      exact hstate
    rcases hres : otaLoop (2 * r.client.bufused + 2) r with ⟨r₁, _ | e⟩
    · rw [hres] at hloop hstate₁
      dsimp only at hstate₁ ⊢
      rcases hloop.went rfl with ⟨hlt₁, hbuf₁, n₁, hup₁⟩ | ⟨hfl, -⟩
      · rw [if_pos hlt₁]
        exact ⟨hloop.same, hloop.dev, hup₁.client hstate₁, hup₁.inv, fun _ => ⟨hlt₁, hbuf₁⟩, by simp⟩
      · have hpost : r₁.client.postused = r₁.client.postlen := hfl.postused_eq
        rw [if_neg (by omega)]
        have hcs := otaComplete_spec env (hfl.client hstate₁) (Or.inl hfl)
        refine ⟨hloop.same.trans hcs.same, hloop.dev.trans hcs.dev, hcs.client, hcs.inv, hcs.pending, ?_⟩
        intro hacc _
        have hsec : r₁.ota.secused = 0 := hfl.secused_eq
        exact hcs.accepted hacc fun hst => hst.2 hsec
    · rw [hres] at hloop hstate₁
      obtain ⟨n₁, hup₁⟩ := hloop.failed (by simp)
      exact ⟨hloop.same, hloop.dev, hup₁.client hstate₁, hup₁.inv, by simp, by simp⟩
  · -- the upload was complete before, so only the end of the request is left
    have hpost : r.client.postused = r.client.postlen := by
      rcases hdone with hf | hst
      · exact hf.postused_eq
      · exact hst.1
    rw [otaLoop_done _ hpost]
    dsimp only
    rw [if_neg (by omega)]
    exact otaComplete_spec env hc hdone

/-! ## Any call -/

/-- The partition an update goes to: its base and the largest image; `none` when the code
refuses the flash map or the address of the running image. -/
def OtaEnv.target (env : OtaEnv) : Option (ℕ × ℕ) :=
  match flashSizeKb env.flashMap with
  | none => none
  | some sizeKb =>
    if env.userbinAddr = user1Addr then some (user2Addr sizeKb, maxAppSize sizeKb)
    else if env.userbinAddr = user2Addr sizeKb then some (user1Addr, maxAppSize sizeKb)
    else none

/-- The sizes of the supported maps. -/
theorem flashSizeKb_cases {map : FlashMap} {sizeKb : ℕ} (h : flashSizeKb map = some sizeKb) :
    sizeKb = 512 ∨ sizeKb = 1024 ∨ sizeKb = 2048 ∨ sizeKb = 4096 := by
  cases map <;> simp [flashSizeKb] at h <;> omega

/-- A target determines the layout. -/
theorem target_cases {env : OtaEnv} {base limit : ℕ} (h : env.target = some (base, limit)) :
    ∃ sizeKb, flashSizeKb env.flashMap = some sizeKb ∧ limit = maxAppSize sizeKb ∧
      ((env.userbinAddr = user1Addr ∧ base = user2Addr sizeKb) ∨
        (env.userbinAddr = user2Addr sizeKb ∧ base = user1Addr)) := by
  unfold OtaEnv.target at h
  rcases hk : flashSizeKb env.flashMap with _ | sizeKb
  · simp [hk] at h
  · rw [hk] at h
    dsimp only at h
    refine ⟨sizeKb, rfl, ?_⟩
    split at h
    · rename_i hu
      simp only [Option.some.injEq, Prod.mk.injEq] at h
      exact ⟨h.2.symm, Or.inl ⟨hu, h.1.symm⟩⟩
    · split at h
      · rename_i hu
        simp only [Option.some.injEq, Prod.mk.injEq] at h
        exact ⟨h.2.symm, Or.inr ⟨hu, h.1.symm⟩⟩
      · simp at h

theorem target_partition {env : OtaEnv} {base limit : ℕ} (h : env.target = some (base, limit)) :
    Partition base limit := by
  obtain ⟨sizeKb, hk, hlimit, hbase⟩ := target_cases h
  rcases flashSizeKb_cases hk with rfl | rfl | rfl | rfl <;>
    rcases hbase with ⟨-, hb⟩ | ⟨-, hb⟩ <;> subst hb <;> subst hlimit <;>
    exact ⟨by decide, by decide, by decide⟩

/-- The block under `postused == 0` makes the caller the owner and, when it does not fail, starts
an upload. -/
theorem otaBegin_spec (env : OtaEnv) (i : Slot) (r : OtaRun) :
    (otaBegin env i r.client r.ota).1.client = some i ∧
      ((otaBegin env i r.client r.ota).2 = none →
        ∃ base limit, env.target = some (base, limit) ∧ r.client.state = .postdata ∧
          ∀ m, ClientInv r.client m → r.client.postused = 0 →
            Uploading base limit 0 m { r with ota := (otaBegin env i r.client r.ota).1 }) := by
  rw [otaBegin]
  rcases hk : flashSizeKb env.flashMap with _ | sizeKb
  · exact ⟨rfl, by simp⟩
  dsimp only
  split
  · exact ⟨rfl, by simp⟩
  rename_i hua
  split
  · exact ⟨rfl, by simp⟩
  rename_i hstate
  split
  · exact ⟨rfl, by simp⟩
  rename_i hsize
  rw [ne_eq, Decidable.not_not] at hstate
  -- all checks passed: the target is the half of flash that is not running
  refine ⟨rfl, fun _ => ⟨if env.userbinAddr = user1Addr then user2Addr sizeKb else user1Addr,
    maxAppSize sizeKb, ?_, hstate, ?_⟩⟩
  · unfold OtaEnv.target
    rw [hk]
    dsimp only
    by_cases hu : env.userbinAddr = user1Addr
    · simp [hu]
    · have hu2 : env.userbinAddr = user2Addr sizeKb := by
        by_contra hne
        exact hua ⟨hu, hne⟩
      have hne : user2Addr sizeKb ≠ user1Addr := by rw [← hu2]; exact hu
      simp [hu2, hne]
  · intro m hc hpost
    obtain ⟨hpend, hlen⟩ := hc.pending (by rw [hstate]; simp)
    refine ⟨hc.bufused_le, hc.postused_le, Nat.le_of_not_gt hsize, hpend, hlen, rfl, rfl, rfl, dvd_zero _, ?_,
      Nat.zero_le _, ?_, rfl, ?_⟩
    · exact hpost.symm
    · simp [hpost]
    · exact sha256Init_absorbed r.ota.sha256

/-- The block does not fail on a request whose image fits. -/
theorem otaBegin_ok {env : OtaEnv} {base limit : ℕ} (htarget : env.target = some (base, limit))
    (i : Slot) {c : HttpClient} (hstate : c.state = .postdata) (hfits : c.postlen ≤ limit)
    (ota : OtaState) : (otaBegin env i c ota).2 = none := by
  rcases target_cases htarget with ⟨sizeKb, hk, hlimit, hbase⟩
  rw [otaBegin, hk]
  dsimp only
  rw [if_neg, if_neg (by simpa using hstate), if_neg (by omega)]
  rintro ⟨h1, h2⟩
  rcases hbase with ⟨hu, -⟩ | ⟨hu, -⟩
  · exact h1 hu
  · exact h2 hu

/-- A call of `http_url_ota_push` is refused before its loop, or runs the loop on an upload that
has just begun or goes on. -/
inductive PushCases (env : OtaEnv) (i : Slot) (m : List UInt8) (r : OtaRun) :
    OtaRun × OtaResult → Prop where
  | refused (ota : OtaState) (e : OtaError) (hbegin : (otaBegin env i r.client r.ota).2 = some e)
      (hpost : r.client.postused = 0) (hown : ota.client = some i) :
      PushCases env i m r ({ r with ota }, .rejected e)
  | displaced (hpost : 0 < r.client.postused) (hown : r.ota.client ≠ some i) :
      PushCases env i m r (r, .rejected .multipleClient)
  | began (base limit : ℕ) (ota : OtaState) (htarget : env.target = some (base, limit))
      (hpost : r.client.postused = 0) (hstate : r.client.state = .postdata) (hown : ota.client = some i)
      (hup : Uploading base limit 0 m { r with ota }) :
      PushCases env i m r (otaData env { r with ota })
  | resumed (hpost : 0 < r.client.postused) (hown : r.ota.client = some i) :
      PushCases env i m r (otaData env r)

theorem otaPush_cases (env : OtaEnv) (i : Slot) {m : List UInt8} {r : OtaRun}
    (hc : ClientInv r.client m) : PushCases env i m r (otaPush env i r) := by
  rw [otaPush]
  by_cases hpost : r.client.postused = 0
  · rw [if_pos hpost]
    obtain ⟨hown, hok⟩ := otaBegin_spec env i r
    rcases hb : otaBegin env i r.client r.ota with ⟨ota, _ | e⟩
    · rw [hb] at hown hok
      dsimp only at hown hok ⊢
      obtain ⟨base, limit, htarget, hstate, hup⟩ := hok rfl
      rw [if_neg (by simpa using hown)]
      exact PushCases.began base limit ota htarget hpost hstate hown (hup m hc hpost)
    · rw [hb] at hown
      exact PushCases.refused ota e (by rw [hb]) hpost hown
  · rw [if_neg hpost]
    dsimp only
    split
    · rename_i hown
      exact PushCases.displaced (by omega) hown
    · rename_i hown
      exact PushCases.resumed (by omega) (by simpa using hown)

end Esp8266Toolbox
