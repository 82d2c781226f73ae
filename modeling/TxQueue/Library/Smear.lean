import Mathlib.Algebra.Group.Nat.Defs
import Mathlib.Data.Nat.Size
import Mathlib.Order.Basic
import Mathlib.Order.Nat
import Mathlib.Tactic.Common

/-!
# Smearing the highest bit of a number

Or-ing a number with itself, shifted right by 1, 2, 4 and so on, sets every bit below the highest
one: after the shift by `k` each bit tells whether one of the `2 * k` bits from it on was set. What
comes out is one less than a power of two.
-/

namespace Library

/-- Each bit of `y` tells whether one of the `k` bits of `x` from it on is set. -/
def Smeared (x y k : ℕ) : Prop :=
  ∀ i, y.testBit i = true ↔ ∃ j, i ≤ j ∧ j < i + k ∧ x.testBit j = true

namespace Smeared

variable {x y k n : ℕ}

/-- Before any shift. -/
theorem one (x : ℕ) : Smeared x x 1 := by
  intro i
  constructor
  · intro hi
    exact ⟨i, le_rfl, by omega, hi⟩
  · rintro ⟨j, hij, hj, hbit⟩
    obtain rfl : j = i := by omega
    exact hbit

/-- A shift by as many bits as each bit covers doubles these. -/
theorem double (h : Smeared x y k) : Smeared x (y ||| y >>> k) (2 * k) := by
  intro i
  rw [Nat.testBit_or, Nat.testBit_shiftRight, Bool.or_eq_true, h i, h (k + i)]
  constructor
  · rintro (⟨j, hij, hj, hbit⟩ | ⟨j, hij, hj, hbit⟩)
    · exact ⟨j, hij, by omega, hbit⟩
    · exact ⟨j, by omega, by omega, hbit⟩
  · rintro ⟨j, hij, hj, hbit⟩
    rcases Nat.lt_or_ge j (i + k) with hlt | hge
    · exact .inl ⟨j, hij, hlt, hbit⟩
    · exact .inr ⟨j, by omega, by omega, hbit⟩

/-- When each bit covers all of the number, the bits below its length are set. -/
theorem eq_two_pow (h : Smeared x y n) (hx : x < 2 ^ n) : y = 2 ^ x.size - 1 := by
  refine Nat.eq_of_testBit_eq ?_
  intro i
  rw [Nat.testBit_two_pow_sub_one, Bool.eq_iff_iff, h i, decide_eq_true_iff, Nat.lt_size]
  constructor
  · rintro ⟨j, hij, -, hbit⟩
    exact (Nat.pow_le_pow_right Nat.two_pos hij).trans (Nat.ge_two_pow_of_testBit hbit)
  · intro hle
    obtain ⟨j, hij, hbit⟩ := Nat.exists_ge_and_testBit_of_ge_two_pow hle
    refine ⟨j, hij, ?_, hbit⟩
    have hlt : 2 ^ j < 2 ^ n := (Nat.ge_two_pow_of_testBit hbit).trans_lt hx
    have := (Nat.pow_lt_pow_iff_right Nat.one_lt_two).1 hlt
    omega

end Smeared

end Library
