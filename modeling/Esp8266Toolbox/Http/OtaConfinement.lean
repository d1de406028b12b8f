import Esp8266Toolbox.Http.ServerTheorems

/-!
# Updates stay inside the partition that is not running

Every erase and write call of `http_url_ota_push`, in every run of the server, affects one
sector of the partition the chip does not run from, below the size limit of an image. The
layout facts then keep it away from the running image, from the parameter sectors and from
the system data at the end of the flash.
-/

namespace Esp8266Toolbox

/-- The base of the partition that is not running. -/
def otherPartition (env : OtaEnv) (sizeKb : ℕ) : ℕ :=
  if env.userbinAddr = user1Addr then user2Addr sizeKb else user1Addr

/-- `[lo, lo + secSize)` and `[a, a + len)` have no address in common. -/
def SectorApart (lo a len : ℕ) : Prop := lo + secSize ≤ a ∨ a + len ≤ lo

/-- Where a call of `http_url_ota_push` may land on a chip with `sizeKb` of flash. -/
structure OtaConfined (env : OtaEnv) (sizeKb : ℕ) (op : FlashOp) : Prop where
  inside : op.Within (otherPartition env sizeKb) ((sizeKb / 2 - 20) * 1024)
  running : SectorApart op.addr env.userbinAddr ((sizeKb / 2 - 20) * 1024)
  params : SectorApart op.addr ((sizeKb / 2 - 12) * 1024) (3 * secSize)
  system : op.addr + secSize ≤ (sizeKb - 16) * 1024

/-- The sizes and addresses of the supported layouts keep the target partition clear. -/
theorem confined_of_within {env : OtaEnv} {base limit : ℕ} {op : FlashOp}
    (htarget : env.target = some (base, limit)) (hop : op.Within base limit) :
    ∃ sizeKb, flashSizeKb env.flashMap = some sizeKb ∧
      (env.userbinAddr = user1Addr ∨ env.userbinAddr = user2Addr sizeKb) ∧
      OtaConfined env sizeKb op := by
  obtain ⟨sizeKb, hk, hlimit, hbase⟩ := target_cases htarget
  obtain ⟨hlow, hhigh⟩ := hop
  refine ⟨sizeKb, hk, hbase.imp And.left And.left, ?_⟩
  have hpart : otherPartition env sizeKb = base := by
    rcases hbase with ⟨hu, hb⟩ | ⟨hu, hb⟩
    · rw [otherPartition, if_pos hu, hb]
    · have hne : user2Addr sizeKb ≠ user1Addr := by
        rcases flashSizeKb_cases hk with rfl | rfl | rfl | rfl <;> decide
      rw [otherPartition, if_neg (by rw [hu]; exact hne), hb]
  have hlim : limit = (sizeKb / 2 - 20) * 1024 := hlimit
  constructor
  case inside =>
    rw [hpart, ← hlim]
    exact ⟨hlow, hhigh⟩
  all_goals
    unfold SectorApart user1Addr user2Addr secSize at *
    rcases flashSizeKb_cases hk with rfl | rfl | rfl | rfl <;> omega

/-- In every run, every sector that `http_url_ota_push` erases or writes lies in the partition
that is not running, below the size limit. -/
theorem ota_flash_confined (env : OtaEnv) (content : ℕ → UInt8) (es : List HttpEvent) :
    ∀ op ∈ (Server.run env content es).dev.ops, ∃ sizeKb, flashSizeKb env.flashMap = some sizeKb ∧
      (env.userbinAddr = user1Addr ∨ env.userbinAddr = user2Addr sizeKb) ∧ OtaConfined env sizeKb op := by
  intro op hop
  obtain ⟨base, limit, htarget, hin⟩ := (Server.run_inv env content es).ops op hop
  exact confined_of_within htarget hin

/-- A chip of 512 KB that runs from its first partition, with a key that is never used. -/
def smallChip : OtaEnv := ⟨.map4M256, user1Addr, ⟨bigintZero, bigintZero⟩⟩

/-- The four bytes of an image, pushed without a signature. -/
def unsignedSegment : HttpEvent :=
  .recv 7 (ascii "POST /ota/push HTTP/1.1\r\nContent-Length: 4\r\n\r\nboot") (fun _ => .error .outOfBounds)
    [] ⟨none, false, []⟩

/-- A connection that pushes them. -/
def unsignedPush : List HttpEvent := [.connect 7 true, unsignedSegment]

/-- The image is in flash, and the whole body is used. -/
theorem unsignedPush_flashed :
    let s := Server.run smallChip (fun _ => 0) unsignedPush
    FlashOp.write 266240 ∈ s.dev.ops ∧ (s.clients 0).state = .postdata ∧
      httpDispatch (s.clients 0) = .ok (some .otaPush) ∧ (s.clients 0).postused = 4 ∧
      (s.clients 0).postlen = 4 ∧ s.stream 0 = ascii "boot" := by
  decide +kernel

/-- The push erases and writes the first sector of the second partition. -/
theorem ota_flash_confined_push :
    FlashOp.write 266240 ∈ (Server.run smallChip (fun _ => 0) unsignedPush).dev.ops ∧
      ∃ sizeKb, flashSizeKb smallChip.flashMap = some sizeKb ∧
        (smallChip.userbinAddr = user1Addr ∨ smallChip.userbinAddr = user2Addr sizeKb) ∧
        OtaConfined smallChip sizeKb (.write 266240) := by
  have hmem := unsignedPush_flashed.1
  exact ⟨hmem, ota_flash_confined smallChip _ unsignedPush _ hmem⟩

end Esp8266Toolbox
