import Mathlib.Data.List.Basic
import Mathlib.Algebra.Group.Nat.Defs
import Mathlib.Tactic.Common

/-!
# A stream cut into blocks

The full blocks of `n` elements at the front of a list and the rest behind them. What completes the
rest makes one more block.
-/

namespace Library

variable {α : Type*} {n : ℕ} {xs ys : List α}

/-- The full blocks of `n` elements, in order. -/
def blocks (n : ℕ) (xs : List α) : List (List α) :=
  (List.range (xs.length / n)).map fun i => (xs.drop (n * i)).take n

/-- The elements behind the last full block. -/
def remainder (n : ℕ) (xs : List α) : List α := xs.drop (n * (xs.length / n))

@[simp] theorem length_remainder : (remainder n xs).length = xs.length % n := by
  rw [remainder, List.length_drop]
  exact (Nat.mod_eq_sub_mul_div).symm

/-- A number of more blocks leaves the ones before. -/
theorem blocks_append {k : ℕ} (h : (xs ++ ys).length / n = xs.length / n + k) :
    blocks n (xs ++ ys) = blocks n xs ++
      (List.range k).map fun i => ((xs ++ ys).drop (n * (xs.length / n + i))).take n := by
  rw [blocks, h, List.range_add, List.map_append, List.map_map]
  congr 1
  refine List.map_congr_left ?_
  intro i hi
  have hi := List.mem_range.1 hi
  have hle : n * (i + 1) ≤ xs.length :=
    Nat.le_trans (Nat.mul_le_mul_left n hi) (Nat.mul_div_le xs.length n)
  rw [Nat.mul_add, Nat.mul_one] at hle
  rw [List.drop_append_of_le_length (by omega),
    List.take_append_of_le_length (by rw [List.length_drop]; omega)]

/-- The full blocks end within the list. -/
theorem drop_append_remainder :
    (xs ++ ys).drop (n * (xs.length / n)) = remainder n xs ++ ys := by
  rw [remainder, List.drop_append_of_le_length (Nat.mul_div_le _ _)]

/-- What completes a block leaves no rest. -/
theorem blocks_append_of_eq (hn : 0 < n) (h : (remainder n xs).length + ys.length = n) :
    blocks n (xs ++ ys) = blocks n xs ++ [remainder n xs ++ ys] ∧
      remainder n (xs ++ ys) = [] := by
  rw [length_remainder] at h
  have hdiv : (xs ++ ys).length / n = xs.length / n + 1 := by
    have hsplit := Nat.div_add_mod xs.length n
    rw [List.length_append, ← hsplit, Nat.add_assoc, Nat.mul_add_div hn, h, hsplit,
      Nat.div_self hn]
  have hfull : (remainder n xs ++ ys).length = n := by
    rw [List.length_append, length_remainder, h]
  constructor
  · rw [blocks_append hdiv, List.range_one, List.map_singleton, Nat.add_zero,
      drop_append_remainder, List.take_of_length_le (Nat.le_of_eq hfull)]
  · rw [remainder, hdiv, Nat.mul_add, Nat.mul_one, ← List.drop_drop, drop_append_remainder,
      List.drop_of_length_le (Nat.le_of_eq hfull)]

end Library
