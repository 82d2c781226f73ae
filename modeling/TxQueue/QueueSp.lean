import Mathlib.Order.Bounds.Basic
import TxQueue.Library.Smear
import TxQueue.Transaction.Copy

/-!
# The single-process constructor

`tx_queue_sp_t::tx_queue_sp_t` with the allocator as a parameter. The capacity is rounded up to a
power of two by a chain of shifts on `capacity - 1`. For a request of more than 2^63 bytes the chain
sets all bits and the increment wraps to 0.
-/

namespace TxQueue

open Library

/-- What the constructor relies on of `_aligned_malloc` and `aligned_alloc`: a block that is not
null has exactly the requested number of bytes. -/
structure Allocator where
  alignedMalloc : UInt64 → UInt64 → UInt64
  blockSize : UInt64 → UInt64 → ℕ
  exact : ∀ size alignment, alignedMalloc size alignment ≠ 0 →
    blockSize size alignment = size.toNat

/-- `tx_queue_sp_t`. -/
structure TxQueueSp extends BaseTxQueue where
  status_ : TxQueueStatus

/-- The rounding of the capacity. -/
def roundUp (capacity : UInt64) : UInt64 :=
  let capacity := capacity - 1
  let capacity := capacity ||| capacity >>> 1
  let capacity := capacity ||| capacity >>> 2
  let capacity := capacity ||| capacity >>> 4
  let capacity := capacity ||| capacity >>> 8
  let capacity := capacity ||| capacity >>> 16
  let capacity := capacity ||| capacity >>> 32
  capacity + 1

/-- `tx_queue_sp_t::tx_queue_sp_t`. `status` is what the memory of the object held before. -/
def txQueueSp (allocator : Allocator) (status : TxQueueStatus) (capacity : UInt64) : TxQueueSp :=
  if capacity < cacheLineSize then { status_ := status.construct }
  else
    { storage_ := allocator.alignedMalloc (roundUp capacity) cacheLineSize
      capacity_ := roundUp capacity
      status_ := { status.construct with head_ := 0, tail_ := 0 } }

variable {capacity : UInt64}

/-- One link of the chain of shifts. -/
theorem Smeared.or_shiftRight {x : ℕ} {y s : UInt64} (h : Smeared x y.toNat s.toNat)
    (hs : s.toNat < 64) : Smeared x (y ||| y >>> s).toNat (2 * s.toNat) := by
  rw [UInt64.toNat_or, UInt64.toNat_shiftRight, Nat.mod_eq_of_lt hs]
  exact h.double

/-- The rounded capacity: the power of two above `capacity - 1`, in 64 bits. -/
theorem roundUp_toNat (capacity : UInt64) :
    (roundUp capacity).toNat = 2 ^ (capacity - 1).toNat.size % 2 ^ 64 := by
  have h1 := Smeared.or_shiftRight (s := 1) (Smeared.one (capacity - 1).toNat) (by decide)
  have h2 := Smeared.or_shiftRight (s := 2) h1 (by decide)
  have h4 := Smeared.or_shiftRight (s := 4) h2 (by decide)
  have h8 := Smeared.or_shiftRight (s := 8) h4 (by decide)
  have h16 := Smeared.or_shiftRight (s := 16) h8 (by decide)
  have h32 := Smeared.or_shiftRight (s := 32) h16 (by decide)
  have hall := h32.eq_two_pow (capacity - 1).toNat_lt
  simp only [roundUp]
  rw [UInt64.toNat_add, hall, UInt64.toNat_one, Nat.sub_add_cancel (Nat.one_le_two_pow)]

/-- A request of at most 2^63 bytes is rounded without wrapping. -/
theorem roundUp_toNat_of_le (hpos : 0 < capacity.toNat) (hle : capacity.toNat ≤ 2 ^ 63) :
    (roundUp capacity).toNat = 2 ^ (capacity.toNat - 1).size := by
  have hsub := sub_one_toNat hpos
  have hsize : (capacity - 1).toNat.size ≤ 63 := Nat.size_le.2 (by omega)
  have hlt : 2 ^ (capacity - 1).toNat.size < 2 ^ 64 :=
    Nat.pow_lt_pow_right Nat.one_lt_two (by omega)
  rw [roundUp_toNat, Nat.mod_eq_of_lt hlt, hsub]

/-- It is rounded to the least power of two that is not below it. -/
theorem roundUp_isLeast (hpos : 0 < capacity.toNat) (hle : capacity.toNat ≤ 2 ^ 63) :
    IsLeast {p | (∃ k, p = 2 ^ k) ∧ capacity.toNat ≤ p} (roundUp capacity).toNat := by
  rw [roundUp_toNat_of_le hpos hle]
  constructor
  · have habove := Nat.lt_size_self (capacity.toNat - 1)
    exact ⟨⟨_, rfl⟩, by omega⟩
  · rintro _ ⟨⟨k, rfl⟩, hk⟩
    -- the number before the request needs at most `k` bits
    have hsize : (capacity.toNat - 1).size ≤ k := Nat.size_le.2 (by omega)
    exact Nat.pow_le_pow_right Nat.two_pos hsize

/-- A request of at most 2^63 bytes is rounded up to a power of two. -/
theorem roundUp_isPowTwo (hpos : 0 < capacity.toNat) (hle : capacity.toNat ≤ 2 ^ 63) :
    IsPowTwo (roundUp capacity) ∧ capacity ≤ roundUp capacity := by
  obtain ⟨⟨hpow, hcovers⟩, -⟩ := roundUp_isLeast hpos hle
  exact ⟨hpow, UInt64.le_iff_toNat_le.2 hcovers⟩

/-- A larger request is rounded to 0. -/
theorem roundUp_eq_zero (hgt : 2 ^ 63 < capacity.toNat) : roundUp capacity = 0 := by
  have hlt := capacity.toNat_lt
  have hsub := sub_one_toNat (Nat.zero_lt_of_lt hgt)
  have hle : (capacity - 1).toNat.size ≤ 64 := Nat.size_le.2 (by omega)
  have hge : 63 < (capacity - 1).toNat.size := Nat.lt_size.2 (by omega)
  have hsize : (capacity - 1).toNat.size = 64 := by omega
  apply UInt64.toNat_inj.1
  rw [roundUp_toNat, hsize]
  rfl

/-- The capacity of the queue for a request between a cache line and 2^63 bytes: the least power of
two not below the request, never less for a larger one, and the request itself if it is one. -/
theorem capacity_rounding (hmin : cacheLineSize ≤ capacity) (hmax : capacity.toNat ≤ 2 ^ 63) :
    (∀ allocator status, (txQueueSp allocator status capacity).capacity_ = roundUp capacity) ∧
    IsLeast {p | (∃ k, p = 2 ^ k) ∧ capacity.toNat ≤ p} (roundUp capacity).toNat ∧
    (∀ capacity' : UInt64, capacity ≤ capacity' → capacity'.toNat ≤ 2 ^ 63 →
      roundUp capacity ≤ roundUp capacity') ∧
    (IsPowTwo capacity → roundUp capacity = capacity) := by
  have hline : 0 < cacheLineSize.toNat := by decide
  have hpos : 0 < capacity.toNat := hline.trans_le (UInt64.le_iff_toNat_le.1 hmin)
  have hleast := roundUp_isLeast hpos hmax
  refine ⟨?_, hleast, ?_, ?_⟩
  · intro allocator status
    simp [txQueueSp, UInt64.not_lt.2 hmin]
  · intro capacity' hle hmax'
    rw [UInt64.le_iff_toNat_le] at hle ⊢
    obtain ⟨⟨hpow, hcovers⟩, -⟩ := roundUp_isLeast (hpos.trans_le hle) hmax'
    exact hleast.2 ⟨hpow, hle.trans hcovers⟩
  · intro hpow
    have hself : IsLeast {p | (∃ k, p = 2 ^ k) ∧ capacity.toNat ≤ p} capacity.toNat :=
      ⟨⟨hpow, le_rfl⟩, fun _ hp => hp.2⟩
    exact UInt64.toNat_inj.1 (hleast.unique hself)

/-- `capacity_rounding` on the smallest request, which stays. -/
theorem capacity_rounding_line : roundUp cacheLineSize = cacheLineSize :=
  (capacity_rounding (UInt64.le_refl _) (by decide)).2.2.2 ⟨6, rfl⟩

end TxQueue
