import TxQueue.Library.LittleEndian

/-!
# Big-endian bytes

The bytes of a number with the most significant first, and the word that four such bytes stand for.
-/

namespace Library

/-- The last `n` bytes of a number, the most significant first. -/
def beBytes (n x : ℕ) : List UInt8 :=
  (List.range n).map fun i => UInt8.ofNat (x / 256 ^ (n - 1 - i))

@[simp] theorem length_beBytes (n x : ℕ) : (beBytes n x).length = n := by simp [beBytes]

/-- The two halves of a number. -/
theorem beBytes_add {m n x y : ℕ} (hy : y < 256 ^ n) :
    beBytes (m + n) (x * 256 ^ n + y) = beBytes m x ++ beBytes n y := by
  simp only [beBytes, List.range_add, List.map_append, List.map_map]
  congr 1
  · refine List.map_congr_left ?_
    intro i hi
    have hi := List.mem_range.1 hi
    rw [show m + n - 1 - i = n + (m - 1 - i) by omega, Nat.pow_add, ← Nat.div_div_eq_div_mul,
      Nat.mul_comm x, Nat.mul_add_div (Nat.pow_pos (by decide)), Nat.div_eq_of_lt hy, Nat.add_zero]
  · refine List.map_congr_left ?_
    intro i hi
    have hi := List.mem_range.1 hi
    rw [Function.comp_apply, show m + n - 1 - (m + i) = n - 1 - i by omega]
    -- the first half is a multiple of 256 in these places
    have hsplit : x * 256 ^ n = 256 ^ (n - 1 - i) * (256 * (x * 256 ^ i)) := by
      have hpow : 256 ^ n = 256 ^ (n - 1 - i) * (256 ^ i * 256) := by
        rw [← Nat.pow_succ, ← Nat.pow_add]
        congr 1
        omega
      rw [hpow, Nat.mul_left_comm, Nat.mul_comm (256 ^ i), Nat.mul_left_comm x]
    rw [hsplit, Nat.mul_add_div (Nat.pow_pos (by decide))]
    apply UInt8.toNat_inj.1
    rw [UInt8.toNat_ofNat', UInt8.toNat_ofNat']
    exact Nat.mul_add_mod 256 _ _

/-- Reversing the little-endian representation. -/
theorem reverse_le64 (x : UInt64) : (le64 x).reverse = beBytes 8 x.toNat := rfl

end Library
