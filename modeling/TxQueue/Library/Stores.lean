import Mathlib.Data.List.Induction
import Mathlib.Logic.Function.Basic
import Mathlib.Order.Interval.Finset.Nat
import Mathlib.Tactic.Common

/-!
# Memory as a sequence of stores, and cyclic addresses

A memory is what a list of stores leaves of a base content (`image`). `Settled` says that a
cell has its final value from some store on, whatever part of the later stores a reader has
seen. A cyclic buffer of `c` cells holds the position `p` of an unbounded stream in the cell
`p % c`; two positions less than `c` apart have different cells.
-/

namespace Library

variable {κ β ι : Type*} [DecidableEq κ] {base : κ → β} {stores later : List (κ × β)}

/-- The content of memory after some stores, in order. -/
def image (base : κ → β) (stores : List (κ × β)) : κ → β :=
  stores.foldl (fun m x => Function.update m x.1 x.2) base

@[simp] theorem image_nil : image base [] = base := rfl

theorem image_append : image base (stores ++ later) = image (image base stores) later :=
  List.foldl_append

/-- A cell that no store addresses keeps its content. -/
theorem image_of_forall_ne {a : κ} (h : ∀ x ∈ stores, x.1 ≠ a) : image base stores a = base a := by
  induction stores using List.reverseRecOn with
  | nil => rfl
  | append_singleton stores x ih =>
      have hx : a ≠ x.1 := (h x (by simp)).symm
      rw [image_append]
      simpa [image, hx] using ih fun y hy => h y (by simp [hy])

/-- Stores to pairwise different cells all stay in place. -/
theorem image_map {l : List ι} {f : ι → κ} {g : ι → β} {i : ι} (hi : i ∈ l)
    (hinj : ∀ j ∈ l, f j = f i → g j = g i) :
    image base (l.map fun j => (f j, g j)) (f i) = g i := by
  induction l using List.reverseRecOn with
  | nil => simp at hi
  | append_singleton l j ih =>
      rw [List.map_append, image_append]
      by_cases hj : f j = f i
      · simpa [image, hj] using hinj j (by simp) hj
      · have hne : f i ≠ f j := fun h => hj h.symm
        have hmem : i ∈ l := by
          rcases List.mem_append.1 hi with hi | hi
          · exact hi
          · exact absurd (List.mem_singleton.1 hi ▸ rfl) hj
        simpa [image, hne] using ih hmem fun j hj => hinj j (by simp [hj])

/-- From the `n`-th store on, the cell `a` holds `b`. -/
def Settled (base : κ → β) (stores : List (κ × β)) (n : ℕ) (a : κ) (b : β) : Prop :=
  ∀ v, n ≤ v → v ≤ stores.length → image base (stores.take v) a = b

namespace Settled

variable {n m : ℕ} {a : κ} {b : β}

/-- A settled cell holds its value now. -/
theorem image_eq (h : Settled base stores n a b) (hn : n ≤ stores.length) :
    image base stores a = b := by
  simpa using h stores.length hn le_rfl

/-- Later stores to other cells leave a settled cell settled. -/
theorem append (h : Settled base stores n a b) (hn : n ≤ stores.length)
    (hlater : ∀ x ∈ later, x.1 ≠ a) : Settled base (stores ++ later) n a b := by
  intro v hv _
  by_cases hle : v ≤ stores.length
  · rw [List.take_append_of_le_length hle]
    exact h v hv hle
  · have hsplit : (stores ++ later).take v = stores ++ later.take (v - stores.length) := by
      rw [List.take_append, List.take_of_length_le (by omega)]
    rw [hsplit, image_append, image_of_forall_ne fun x hx => hlater x (List.mem_of_mem_take hx)]
    exact h.image_eq hn

/-- A cell that holds `b` is settled from the current store on. -/
theorem of_image (h : image base stores a = b) : Settled base stores stores.length a b := by
  intro v hv hle
  obtain rfl : v = stores.length := le_antisymm hle hv
  simpa using h

end Settled

/-- Positions less than one lap apart have different cells. -/
theorem mod_ne_mod {c p q : ℕ} (hpq : p < q) (hlap : q < p + c) : p % c ≠ q % c := by
  intro h
  have hp : p ∈ (Finset.Ico p (p + c) : Set ℕ) := by simp; omega
  have hq : q ∈ (Finset.Ico p (p + c) : Set ℕ) := by simp; omega
  exact hpq.ne (Nat.mod_injOn_Ico p c hp hq h)

end Library
