import Mathlib.Data.List.Basic
import Mathlib.Tactic.Common

/-!
# A stream cut into transactions

A list of transactions is a stream, their concatenation, with marked positions: `boundary txs k`
is where the first `k` transactions end. No boundary lies strictly inside a transaction.
-/

namespace Library

variable {β : Type*} {txs us : List (List β)} {j k : ℕ}

/-- The stream position at which the first `k` transactions end. -/
def boundary (txs : List (List β)) (k : ℕ) : ℕ :=
  (txs.take k).flatten.length

@[simp] theorem boundary_zero : boundary txs 0 = 0 := by simp [boundary]

/-- The last boundary is the length of the stream. -/
theorem boundary_length : boundary txs txs.length = txs.flatten.length := by simp [boundary]

/-- Later transactions do not move a boundary. -/
theorem boundary_append (h : k ≤ txs.length) : boundary (txs ++ us) k = boundary txs k := by
  simp [boundary, List.take_append_of_le_length h]

/-- Boundaries are in order. -/
theorem boundary_mono (txs : List (List β)) (h : j ≤ k) : boundary txs j ≤ boundary txs k := by
  obtain ⟨d, rfl⟩ := Nat.exists_eq_add_of_le h
  simp [boundary, List.take_add]

/-- No boundary is past the end of the stream. -/
theorem boundary_le (txs : List (List β)) (k : ℕ) : boundary txs k ≤ txs.flatten.length := by
  by_cases h : k ≤ txs.length
  · simpa [boundary_length] using boundary_mono txs h
  · simp [boundary, List.take_of_length_le (Nat.le_of_not_le h)]

end Library
