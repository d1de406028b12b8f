import Esp8266Toolbox.Lib.Format

/-!
# Checked accesses to C arrays

Stores, copies and string reads that fail where C leaves the array, and what they do where
they succeed.
-/

namespace Esp8266Toolbox
namespace Buf

variable {n : ℕ}

/-- `buf[j] = v`. -/
def put (b : Buf n) (j : ℕ) (v : UInt8) : Except Fault (Buf n) :=
  if j < n then .ok (b.set j v) else .error .outOfBounds

/-- `memcpy(buf + off, src, len)`. -/
def copy (b : Buf n) (off : ℕ) (src : List UInt8) : Except Fault (Buf n) :=
  if off + src.length ≤ n then .ok (b.memcpy off src) else .error .outOfBounds

/-- The bytes `[off, off + len)`, for a copy out of the array. -/
def load (b : Buf n) (off len : ℕ) : Except Fault (List UInt8) :=
  if off + len ≤ n then .ok (b.slice off len) else .error .outOfBounds

/-- The C string that starts at `buf + off`. Where no terminator follows, the scan leaves the
array. -/
def str (b : Buf n) (off : ℕ) : Except Fault (List UInt8) :=
  if 0 ∈ b.toList.drop off then .ok (cstr (b.toList.drop off)) else .error .outOfBounds

theorem put_ok (b : Buf n) {j : ℕ} (hj : j < n) (v : UInt8) : b.put j v = .ok (b.set j v) := if_pos hj

theorem copy_ok (b : Buf n) {off : ℕ} {src : List UInt8} (h : off + src.length ≤ n) :
    b.copy off src = .ok (b.memcpy off src) := if_pos h

/-- Four stores, one behind the other. -/
theorem put_four {β : Type} (b : Buf n) {j : ℕ} (w x y z : UInt8) (h : j + 4 ≤ n) (k : Buf n → Except Fault β) :
    (do
      let b ← b.put j w
      let b ← b.put (j + 1) x
      let b ← b.put (j + 2) y
      let b ← b.put (j + 3) z
      k b) = k (b.memcpy j [w, x, y, z]) := by
  rw [put_ok _ (by omega), Loops.ok_bind, put_ok _ (by omega), Loops.ok_bind, put_ok _ (by omega), Loops.ok_bind,
    put_ok _ (by omega), Loops.ok_bind, ← foldl_indexed]
  rfl

theorem load_ok (b : Buf n) {off len : ℕ} (h : off + len ≤ n) : b.load off len = .ok (b.slice off len) :=
  if_pos h

/-- A string that ends inside the array. -/
theorem str_ok {b : Buf n} {off : ℕ} {text rest : List UInt8} (htext : 0 ∉ text)
    (h : b.toList.drop off = text ++ 0 :: rest) : b.str off = .ok text := by
  rw [str, if_pos (by simp [h]), h, cstr_append_zero htext]

/-- A string that was read is in the array, without terminators and with one behind it. -/
theorem str_eq_ok {b : Buf n} {off : ℕ} {text : List UInt8} (h : b.str off = .ok text) :
    0 ∉ text ∧ ∃ rest, b.toList.drop off = text ++ 0 :: rest := by
  unfold str at h
  split_ifs at h with hmem
  cases h
  refine ⟨cstr_no_zero _, ?_⟩
  generalize b.toList.drop off = l at hmem
  induction l with
  | nil => simp at hmem
  | cons c l ih =>
    by_cases hc : c = 0
    · exact ⟨l, by simp [cstr, hc]⟩
    · have hmem' : 0 ∈ l := by simpa [Ne.symm hc] using hmem
      obtain ⟨rest, hrest⟩ := ih hmem'
      refine ⟨rest, ?_⟩
      rw [cstr, List.takeWhile_cons_of_pos (by simpa using hc), List.cons_append]
      exact congrArg (c :: ·) hrest

/-- An array that ends in a terminator holds a string. -/
theorem zero_mem {b : Buf n} {j : ℕ} (hj : j < n) (h : b.get j = 0) : 0 ∈ b.toList := by
  have hlen : j < b.toList.length := by rwa [b.length_toList]
  rw [Buf.get, List.getD_eq_getElem _ _ hlen] at h
  rw [← h]
  exact List.getElem_mem hlen

theorem str_of_mem {b : Buf n} (h : 0 ∈ b.toList) : b.str 0 = .ok (cstr b.toList) := by
  rw [Buf.str, List.drop_zero, if_pos h]

/-- A string of an array is shorter than the array. -/
theorem length_lt_of_str {b : Buf n} {text : List UInt8} (h : b.str 0 = .ok text) :
    text.length < n := by
  obtain ⟨-, rest, hrest⟩ := Buf.str_eq_ok h
  have hlen := congrArg List.length hrest
  simp at hlen
  omega

/-- A copy over bytes that are known replaces them. -/
theorem copy_over (b : Buf n) (front old back src : List UInt8)
    (h : b.toList = front ++ old ++ back) (hsrc : src.length = old.length) :
    ∃ b', b.copy front.length src = .ok b' ∧ b'.toList = front ++ src ++ back := by
  have hlen := congrArg List.length h
  simp only [Buf.length_toList, List.length_append] at hlen
  refine ⟨_, Buf.copy_ok b (by omega), ?_⟩
  rw [Buf.toList_memcpy b (by omega), h, hsrc, ← List.length_append, List.drop_left, List.append_assoc front old,
    List.take_left]

/-- A store over a byte that is known. -/
theorem put_over (b : Buf n) (front back : List UInt8) (old v : UInt8) (h : b.toList = front ++ old :: back) :
    ∃ b', b.put front.length v = .ok b' ∧ b'.toList = front ++ v :: back := by
  have hlen := congrArg List.length h
  simp only [Buf.length_toList, List.length_append, List.length_cons] at hlen
  refine ⟨_, Buf.put_ok b (by omega) v, ?_⟩
  show b.toList.set front.length v = _
  rw [h, List.set_append_right _ _ le_rfl, Nat.sub_self, List.set_cons_zero]

/-- The bytes inside an array. -/
theorem load_over (b : Buf n) (front mid back : List UInt8) (h : b.toList = front ++ mid ++ back) :
    b.load front.length mid.length = .ok mid := by
  have hlen := congrArg List.length h
  simp only [Buf.length_toList, List.length_append] at hlen
  rw [Buf.load_ok b (by omega), Buf.slice, h, List.append_assoc, List.drop_left, List.take_left]

/-- The bytes at the front of an array. -/
theorem load_front (b : Buf n) (front back : List UInt8) (h : b.toList = front ++ back) :
    b.load 0 front.length = .ok front := b.load_over [] front back h

/-- A formatted text that fits is in the array. -/
theorem load_snprintf (b : Buf n) (text : List UInt8) (h : text.length < n) :
    (snprintf b text).1.load 0 text.length = .ok text := by
  have hfit : text.take (n - 1) = text := List.take_of_length_le (by omega)
  apply Buf.load_front _ text (0 :: b.toList.drop (text.length + 1))
  rw [snprintf, if_neg (by omega), hfit, Buf.toList_memcpy b (by simp; omega)]
  simp

/-- A string that fits is copied with its terminator. -/
theorem str_strncpy (b : Buf n) {text : List UInt8} (htext : 0 ∉ text) (h : text.length < n) :
    (b.strncpy 0 text (text.length + 1)).str 0 = .ok text := by
  have hcopied : (cstr text ++ List.replicate (text.length + 1) 0).take (text.length + 1) = text ++ [0] := by
    rw [cstr_eq_self htext, List.take_append, List.take_of_length_le (by omega), Nat.add_sub_cancel_left,
      List.take_replicate]
    simp
  have hbytes : (b.strncpy 0 text (text.length + 1)).toList.drop 0 = text ++ 0 :: b.toList.drop (text.length + 1) := by
    rw [strncpy, hcopied, List.drop_zero, toList_memcpy b (by simp; omega)]
    simp
  exact str_ok htext hbytes

/-! ## Arrays that agree on their first bytes -/

/-- A store behind the bytes that two arrays share. -/
theorem put_sameEnd {b b' : Buf n} {j : ℕ} (h : b.toList.take j = b'.toList.take j) (v : UInt8) :
    Loops.SameEnd (fun c c' : Buf n => c.toList.take (j + 1) = c'.toList.take (j + 1)) (b.put j v) (b'.put j v) := by
  by_cases hj : j < n
  · have hfront : ∀ c : Buf n, (c.set j v).toList.take (j + 1) = c.toList.take j ++ [v] := by
      intro c
      have hlen : (c.toList.take j ++ [v]).length = j + 1 := by simp; omega
      rw [toList_set c hj, List.append_cons, List.take_left' hlen]
    rw [put_ok b hj, put_ok b' hj]
    show (b.set j v).toList.take (j + 1) = (b'.set j v).toList.take (j + 1)
    rw [hfront, hfront, h]
  · rw [put, put, if_neg hj, if_neg hj]
    trivial

end Buf
end Esp8266Toolbox
