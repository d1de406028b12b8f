import Esp8266Toolbox.Crypto.Md5Theorems
import Esp8266Toolbox.Crypto.Sha256Theorems

/-!
# The length field of the hashes

Both `_done` functions form the number of bits as a product of the 32-bit `totallen` and 8, in
32 bits, and spread it over eight bytes. The last block so carries the number of bits modulo
`2^32`: from `2^29` bytes on it is not the length of the message.
-/

namespace Esp8266Toolbox

/-- The last eight bytes of the block in the buffer of a state. -/
def BlockState.lengthField {σ : Type} (state : BlockState σ) : List UInt8 := state.buf.slice 56 8

/-- The last block that `sha256_done` processes carries the number of bits of `m`. -/
def Sha256LengthRight (state : Sha256State) (m : List UInt8) : Prop :=
  ∃ state' hash h, sha256Done state = .ok (state', hash) ∧ state'.h = sha256Consume h state'.buf.toList ∧
    beNat state'.lengthField = 8 * m.length

/-- The last block that `md5_done` processes carries the number of bits of `m`. -/
def Md5LengthRight (state : Md5State) (m : List UInt8) : Prop :=
  ∃ state' hash h, md5Done state = .ok (state', hash) ∧ state'.h = md5Consume h state'.buf.toList ∧
    leNat state'.lengthField = 8 * m.length

/-! ## The eight bytes -/

theorem leNat_md5LenBytes (x : UInt32) : leNat (md5LenBytes x) = x.toNat := by
  have hlt := x.toNat_lt
  simp only [md5LenBytes, leNat]
  simp [Nat.shiftRight_eq_div_pow]
  omega

theorem beNat_sha256LenBytes (x : UInt32) : beNat (sha256LenBytes x) = x.toNat := leNat_md5LenBytes x

/-- The product in 32 bits is the number of bits below `2^29` bytes only. -/
theorem mul_eight_eq_iff {n : ℕ} (hn : n < 2 ^ 32) : (UInt32.ofNat n * 8).toNat = 8 * n ↔ n < 2 ^ 29 := by
  have hval : (UInt32.ofNat n * 8).toNat = n * 8 % 2 ^ 32 := by simp
  rw [hval]
  constructor
  · intro h
    have hlt : n * 8 % 2 ^ 32 < 2 ^ 32 := Nat.mod_lt _ (by norm_num)
    omega
  · intro h
    omega

/-! ## The last blocks -/

theorem sha256LengthRight_iff {state : Sha256State} {m : List UInt8}
    (habs : BlockHash.Absorbed sha256Consume sha256H state m) (hm : m.length < 2 ^ 32) :
    Sha256LengthRight state m ↔ m.length < 2 ^ 29 := by
  obtain ⟨last, h, hdone, hlast, hfield⟩ := BlockHash.done_last habs length_sha256LenBytes
  have hrun : sha256Done state = .ok (last, last.h.toList.flatMap sha256WordBytes) := by
    rw [sha256Done, hdone]
    rfl
  have hval : beNat last.lengthField = (UInt32.ofNat m.length * 8).toNat := by
    rw [BlockState.lengthField, hfield, beNat_sha256LenBytes]
  rw [← mul_eight_eq_iff hm, ← hval]
  constructor
  · rintro ⟨state', hash, h', hrun', -, hlen⟩
    rw [hrun] at hrun'
    cases hrun'
    exact hlen
  · intro hlen
    exact ⟨last, _, h, hrun, hlast, hlen⟩

theorem md5LengthRight_iff {state : Md5State} {m : List UInt8}
    (habs : BlockHash.Absorbed md5Consume md5H state m) (hm : m.length < 2 ^ 32) :
    Md5LengthRight state m ↔ m.length < 2 ^ 29 := by
  obtain ⟨last, h, hdone, hlast, hfield⟩ := @BlockHash.done_last _ _ _ md5LenBytes _ _ habs fun _ => rfl
  have hrun : md5Done state = .ok (last, last.h.toList.flatMap md5WordBytes) := by
    rw [md5Done, hdone]
    rfl
  have hval : leNat last.lengthField = (UInt32.ofNat m.length * 8).toNat := by
    rw [BlockState.lengthField, hfield, leNat_md5LenBytes]
  rw [← mul_eight_eq_iff hm, ← hval]
  constructor
  · rintro ⟨state', hash, h', hrun', -, hlen⟩
    rw [hrun] at hrun'
    cases hrun'
    exact hlen
  · intro hlen
    exact ⟨last, _, h, hrun, hlast, hlen⟩

/-- **The length field.** In whatever chunks a message of fewer than `2^32` bytes is fed, the last
block of either hash carries its number of bits exactly when the message has fewer than `2^29`
bytes. -/
theorem length_field_iff (m : List UInt8) (hm : m.length < 2 ^ 32) (chunks : List (List UInt8))
    (hsplit : chunks.flatten = m) (s : Sha256State) (t : Md5State) :
    (Sha256LengthRight (chunks.foldl sha256Proc (sha256Init s)) m ↔ m.length < 2 ^ 29) ∧
      (Md5LengthRight (chunks.foldl md5Proc (md5Init t)) m ↔ m.length < 2 ^ 29) := by
  have hsha := BlockHash.foldl_proc_spec (sha256Init_absorbed s) chunks
  have hmd5 := BlockHash.foldl_proc_spec (md5Init_absorbed t) chunks
  rw [List.nil_append, hsplit] at hsha hmd5
  exact ⟨sha256LengthRight_iff hsha hm, md5LengthRight_iff hmd5 hm⟩

/-- Three bytes in two chunks. -/
theorem length_field_iff_three :
    (Sha256LengthRight ([[1, 2], [3]].foldl sha256Proc (sha256Init ⟨Buf.zero 64, 0, 0, sha256H⟩)) [1, 2, 3] ↔
        [(1 : UInt8), 2, 3].length < 2 ^ 29) ∧
      (Md5LengthRight ([[1, 2], [3]].foldl md5Proc (md5Init ⟨Buf.zero 64, 0, 0, md5H⟩)) [1, 2, 3] ↔
        [(1 : UInt8), 2, 3].length < 2 ^ 29) :=
  length_field_iff [1, 2, 3] (by decide) [[1, 2], [3]] rfl _ _

/-- A message of `2^29` bytes, fed in one chunk: the field of either hash is zero. -/
theorem length_field_wraps :
    ¬Sha256LengthRight (sha256Proc (sha256Init ⟨Buf.zero 64, 0, 0, sha256H⟩) (List.replicate (2 ^ 29) 0))
        (List.replicate (2 ^ 29) 0) ∧
      ¬Md5LengthRight (md5Proc (md5Init ⟨Buf.zero 64, 0, 0, md5H⟩) (List.replicate (2 ^ 29) 0))
        (List.replicate (2 ^ 29) 0) := by
  have hlen : (List.replicate (2 ^ 29) (0 : UInt8)).length = 2 ^ 29 := List.length_replicate
  generalize List.replicate (2 ^ 29) (0 : UInt8) = m at hlen
  have hsha := BlockHash.proc_spec (sha256Init_absorbed ⟨Buf.zero 64, 0, 0, sha256H⟩) m
  have hmd5 := BlockHash.proc_spec (md5Init_absorbed ⟨Buf.zero 64, 0, 0, md5H⟩) m
  rw [List.nil_append] at hsha hmd5
  constructor
  · intro h
    have hlt := (sha256LengthRight_iff hsha (by omega)).mp h
    omega
  · intro h
    have hlt := (md5LengthRight_iff hmd5 (by omega)).mp h
    omega

end Esp8266Toolbox
