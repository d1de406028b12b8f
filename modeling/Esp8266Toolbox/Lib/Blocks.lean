import Mathlib.Data.List.Basic
import Mathlib.Tactic.Common
import Mathlib.Tactic.Ring

/-!
# Cutting a list into blocks

`blocks k xs` are the complete blocks of `k` elements of `xs`, in order; a shorter rest is
left over and named by `rest k xs`. The two extension lemmas say what appending does while
the rest is not yet full (`blocks_append_lt`) and when it becomes a block
(`blocks_append_full`).
-/

namespace Esp8266Toolbox

variable {α : Type*}

/-- The complete blocks of `k` elements. -/
def blocks (k : ℕ) (xs : List α) : List (List α) :=
  (List.range (xs.length / k)).map fun i => (xs.drop (k * i)).take k

/-- What is left after the complete blocks. -/
def rest (k : ℕ) (xs : List α) : List α := xs.drop (k * (xs.length / k))

@[simp] theorem blocks_nil (k : ℕ) : blocks k ([] : List α) = [] := by simp [blocks]

@[simp] theorem rest_nil (k : ℕ) : rest k ([] : List α) = [] := by simp [rest]

theorem length_rest (k : ℕ) (xs : List α) : (rest k xs).length = xs.length % k := by
  rw [rest, List.length_drop, Nat.mod_eq_sub_mul_div]

theorem length_of_mem_blocks {k : ℕ} {xs b : List α} (hb : b ∈ blocks k xs) : b.length = k := by
  rw [blocks, List.mem_map] at hb
  rcases hb with ⟨i, hi, rfl⟩
  have hi' := List.mem_range.mp hi
  have hle : k * (i + 1) ≤ xs.length :=
    le_trans (Nat.mul_le_mul_left k hi') (Nat.mul_div_le _ _)
  rw [Nat.mul_succ] at hle
  rw [List.length_take, List.length_drop]
  omega

/-- The first complete blocks do not see what is appended. -/
theorem blocks_append_take (k : ℕ) (xs ys : List α) :
    (List.range (xs.length / k)).map (fun i => ((xs ++ ys).drop (k * i)).take k) = blocks k xs := by
  unfold blocks
  apply List.map_congr_left
  intro i hi
  have hi' := List.mem_range.mp hi
  have hle : k * (i + 1) ≤ xs.length :=
    le_trans (Nat.mul_le_mul_left k hi') (Nat.mul_div_le _ _)
  rw [Nat.mul_succ] at hle
  rw [List.drop_append_of_le_length (by omega), List.take_append_of_le_length (by
    rw [List.length_drop]; omega)]

/-- Appending fewer elements than the rest has room for adds no block. -/
theorem blocks_append_lt {k : ℕ} {xs ys : List α} (h : xs.length % k + ys.length < k) :
    blocks k (xs ++ ys) = blocks k xs ∧ rest k (xs ++ ys) = rest k xs ++ ys := by
  have hdiv : (xs ++ ys).length / k = xs.length / k := by
    rw [List.length_append]
    conv_lhs => rw [← Nat.div_add_mod xs.length k, add_assoc,
      Nat.mul_add_div (by omega), Nat.div_eq_of_lt h, add_zero]
  refine ⟨?_, ?_⟩
  · rw [← blocks_append_take k xs ys, blocks, hdiv]
  · rw [rest, hdiv, rest, List.drop_append_of_le_length (Nat.mul_div_le _ _)]

/-- Appending exactly what the rest lacks completes one more block. -/
theorem blocks_append_full {k : ℕ} {xs ys : List α} (hk : 0 < k) (h : xs.length % k + ys.length = k) :
    blocks k (xs ++ ys) = blocks k xs ++ [rest k xs ++ ys] ∧ rest k (xs ++ ys) = [] := by
  have hlen : (xs ++ ys).length = k * (xs.length / k + 1) := by
    rw [List.length_append, Nat.mul_succ]
    have := Nat.div_add_mod xs.length k
    omega
  have hdiv : (xs ++ ys).length / k = xs.length / k + 1 := by
    rw [hlen, Nat.mul_div_cancel_left _ hk]
  refine ⟨?_, ?_⟩
  · rw [blocks, hdiv, List.range_succ, List.map_append, blocks_append_take]
    congr 1
    simp only [List.map_cons, List.map_nil]
    rw [List.drop_append_of_le_length (Nat.mul_div_le _ _)]
    congr 1
    apply List.take_of_length_le
    rw [List.length_append, List.length_drop, ← Nat.mod_eq_sub_mul_div, h]
  · rw [rest, hdiv, ← hlen, List.drop_length]

end Esp8266Toolbox
