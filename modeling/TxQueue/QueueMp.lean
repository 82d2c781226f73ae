import TxQueue.Transaction.Copy

/-!
# The checks of the multi-process constructor

A block has a valid size when it holds the status and a ring whose capacity is a power of two, and
a place in the address space when it is mapped at an aligned address and ends before the last one.
On these `tx_queue_mp_t` accepts. Its bit test lets a capacity of 0 pass as well.
-/

namespace TxQueue

/-- A size with room for the status and a ring of `2 ^ k` bytes. -/
def ValidSize (size : UInt64) : Prop :=
  ∃ k, size.toNat = sizeofTxQueueStatus.toNat + 2 ^ k

/-- An address that a mapping can have: not null, and aligned to the cache line. -/
structure ValidAddress (address : UInt64) : Prop where
  ne_null : address ≠ 0
  aligned : address.toNat % cacheLineSize.toNat = 0

variable {address size : UInt64}

/-- There is room for the status and at least one byte. -/
theorem ValidSize.lt (h : ValidSize size) : sizeofTxQueueStatus.toNat < size.toNat := by
  obtain ⟨k, hk⟩ := h
  rw [hk]
  exact Nat.lt_add_of_pos_right (Nat.two_pow_pos k)

/-- The status and the ring behind it make up the block. -/
theorem ValidSize.status_add_ring (h : ValidSize size) :
    sizeofTxQueueStatus.toNat + (size - sizeofTxQueueStatus).toNat = size.toNat := by
  rw [UInt64.toNat_sub_of_le _ _ (UInt64.le_iff_toNat_le.2 h.lt.le)]
  exact Nat.add_sub_of_le h.lt.le

/-- The ring of a block of valid size. -/
theorem ValidSize.isPowTwo (h : ValidSize size) : IsPowTwo (size - sizeofTxQueueStatus) := by
  obtain ⟨k, hk⟩ := id h
  rw [← h.status_add_ring] at hk
  exact ⟨k, Nat.add_left_cancel hk⟩

/-- A size below that of the status wraps to more than any power of two. -/
theorem validSize_iff : ValidSize size ↔ IsPowTwo (size - sizeofTxQueueStatus) := by
  refine ⟨ValidSize.isPowTwo, ?_⟩
  intro h
  have hle := h.le
  obtain ⟨k, hk⟩ := h
  have hlt := size.toNat_lt
  have hstatus : sizeofTxQueueStatus.toNat = 128 := rfl
  rw [UInt64.toNat_sub, hstatus] at hk hle
  refine ⟨k, ?_⟩
  rw [← hk, hstatus]
  omega

/-- The test for a power of two. -/
theorem IsPowTwo.and_sub_one {capacity : UInt64} (h : IsPowTwo capacity) :
    capacity &&& (capacity - 1) = 0 := by
  obtain ⟨k, hk⟩ := h
  apply UInt64.toNat_inj.1
  rw [and_mask_toNat hk, Nat.mod_self]
  rfl

/-- The test lets 0 pass as well, and nothing else. -/
theorem and_sub_one_eq_zero_iff {capacity : UInt64} :
    capacity &&& (capacity - 1) = 0 ↔ capacity = 0 ∨ IsPowTwo capacity := by
  constructor
  · intro h
    by_cases hzero : capacity = 0
    · exact Or.inl hzero
    · have hne : capacity.toNat ≠ 0 := fun h => hzero (UInt64.toNat_inj.1 h)
      have hand := congrArg UInt64.toNat h
      rw [UInt64.toNat_and, sub_one_toNat (Nat.pos_of_ne_zero hne), UInt64.toNat_zero] at hand
      exact Or.inr ((Nat.and_sub_one_eq_zero_iff_isPowerOfTwo hne).1 hand)
  · rintro (rfl | h)
    · rfl
    · exact h.and_sub_one

/-- The test for the alignment looks at the storage behind the status, which is aligned exactly if
the address is. -/
theorem and_mask_eq_zero_iff :
    (address + sizeofTxQueueStatus) &&& (cacheLineSize - 1) = 0 ↔
      address.toNat % cacheLineSize.toNat = 0 := by
  have hline : cacheLineSize.toNat = 2 ^ 6 := rfl
  have hstatus : sizeofTxQueueStatus.toNat = 2 * 2 ^ 6 := rfl
  rw [← UInt64.toNat_inj, and_mask_toNat hline, UInt64.toNat_add, mod_wrap_mod hline, hstatus,
    hline, Nat.add_mul_mod_self_right, UInt64.toNat_zero]

/-- The test for the alignment. -/
theorem ValidAddress.and_mask (h : ValidAddress address) :
    (address + sizeofTxQueueStatus) &&& (cacheLineSize - 1) = 0 :=
  and_mask_eq_zero_iff.2 h.aligned

/-- The constructor accepts a valid block. -/
theorem txQueueMp_eq (haddress : ValidAddress address) (hsize : ValidSize size) :
    txQueueMp address size =
      { storage_ := address + sizeofTxQueueStatus, capacity_ := size - sizeofTxQueueStatus } := by
  simp [txQueueMp, haddress.ne_null, haddress.and_mask, hsize.isPowTwo.and_sub_one]

/-- The constructor initialises the queue on a valid address with room for the status and either no
ring at all or one of a power of two, and leaves it as it was on every other block. -/
theorem txQueueMp_cases (address size : UInt64) :
    (ValidAddress address ∧ (size = sizeofTxQueueStatus ∨ ValidSize size) ∧ txQueueMp address size =
      { storage_ := address + sizeofTxQueueStatus, capacity_ := size - sizeofTxQueueStatus }) ∨
    (¬ (ValidAddress address ∧ (size = sizeofTxQueueStatus ∨ ValidSize size)) ∧
      txQueueMp address size = {}) := by
  have hring : (size - sizeofTxQueueStatus) &&& (size - sizeofTxQueueStatus - 1) = 0 ↔
      size = sizeofTxQueueStatus ∨ ValidSize size := by
    rw [and_sub_one_eq_zero_iff, UInt64.sub_eq_iff_eq_add, UInt64.zero_add, validSize_iff]
  by_cases hnull : address = 0
  · exact Or.inr ⟨fun h => h.1.ne_null hnull, by simp [txQueueMp, hnull]⟩
  · by_cases halign : address.toNat % cacheLineSize.toNat = 0
    · by_cases hsize : size = sizeofTxQueueStatus ∨ ValidSize size
      · refine Or.inl ⟨⟨hnull, halign⟩, hsize, ?_⟩
        simp [txQueueMp, hnull, and_mask_eq_zero_iff.2 halign, hring.2 hsize]
      · refine Or.inr ⟨fun h => hsize h.2, ?_⟩
        simp [txQueueMp, hnull, mt hring.1 hsize]
    · refine Or.inr ⟨fun h => halign h.1.aligned, ?_⟩
      simp [txQueueMp, hnull, mt and_mask_eq_zero_iff.1 halign]

/-- What the constructor accepts: besides the valid blocks also those of exactly the size of the
status. Two lines before the end of the address space the storage is null. -/
theorem txQueueMp_isOk_iff : (txQueueMp address size).isOk ↔
    ValidAddress address ∧ (size = sizeofTxQueueStatus ∨ ValidSize size) ∧
      address + sizeofTxQueueStatus ≠ 0 := by
  rcases txQueueMp_cases address size with ⟨haddress, hsize, heq⟩ | ⟨hnot, heq⟩
  · rw [heq]
    simp [BaseTxQueue.isOk, haddress, hsize]
  · rw [heq]
    exact iff_of_false (by simp [BaseTxQueue.isOk]) fun h => hnot ⟨h.1, h.2.1⟩

/-- The queue on a valid block that ends within the address space is ok. -/
theorem txQueueMp_isOk (haddress : ValidAddress address) (hsize : ValidSize size)
    (hend : address.toNat + size.toNat ≤ 2 ^ 64) : (txQueueMp address size).isOk := by
  have hroom := hsize.lt
  have hstatus : sizeofTxQueueStatus.toNat = 128 := rfl
  have hne : address + sizeofTxQueueStatus ≠ 0 := by
    intro h
    have htoNat := congrArg UInt64.toNat h
    rw [UInt64.toNat_add, UInt64.toNat_zero, Nat.mod_eq_of_lt (by omega)] at htoNat
    omega
  simpa [txQueueMp_eq haddress hsize, BaseTxQueue.isOk] using hne

end TxQueue
