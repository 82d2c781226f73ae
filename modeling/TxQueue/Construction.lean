import TxQueue.QueueSp
import TxQueue.Concurrent.Bounds

/-!
# What the constructors accept

When `is_ok` holds after construction, the transactions on the queue rely on a ring of `capacity_`
bytes behind `storage_`, and on a capacity that is a power of two. Both constructors let a ring of 0
bytes pass in one corner: the one of the single process when the rounding of the capacity wraps,
the other for a block with room for the status only.
-/

namespace TxQueue

open Library

/-- What the transactions rely on of an accepted single-process queue: a power of two that covers
the request, a block of that size, the indices at 0, and in every run no `memcpy` beyond the
block. -/
structure TxQueueSp.Sound (queue : TxQueueSp) (allocator : Allocator) (request : UInt64) :
    Prop where
  isPowTwo : IsPowTwo queue.capacity_
  covers : request ≤ queue.capacity_
  blockSize : allocator.blockSize queue.capacity_ cacheLineSize = queue.capacity_.toNat
  head : queue.status_.head_ = 0
  tail : queue.status_.tail_ = 0
  within : ∀ vis start w ts, (worldLts queue.toBaseTxQueue vis).initial start →
    Run (worldLts queue.toBaseTxQueue vis) start ts w →
    ∀ t ∈ ts, ∀ a, t.source.state.access t.event = some a →
      a.queue = queue.toBaseTxQueue ∧ a.Within (allocator.blockSize queue.capacity_ cacheLineSize)

/-- Each byte of an access is one of the block. -/
def Access.Inside (a : Access) (address size : UInt64) : Prop :=
  ∀ i < a.copy.count.toNat, ∃ j < size.toNat,
    a.storage + a.copy.ring + UInt64.ofNat i = address + UInt64.ofNat j

/-- What the transactions rely on of an accepted multi-process queue: an aligned storage with a
power of two of bytes behind the status, and no access outside the block, neither in a run of
transactions on the queue nor in one of processes on the block, by the process to which it is mapped
at `address`. -/
structure BaseTxQueue.Usable (queue : BaseTxQueue) (address size : UInt64) : Prop where
  ne_null : address ≠ 0
  aligned : queue.storage_.toNat % cacheLineSize.toNat = 0
  room : sizeofTxQueueStatus.toNat + queue.capacity_.toNat = size.toNat
  isPowTwo : IsPowTwo queue.capacity_
  inside : ∀ vis start w ts, (worldLts queue vis).initial start →
    Run (worldLts queue vis) start ts w →
    ∀ t ∈ ts, ∀ a, t.source.state.access t.event = some a → a.Inside address size
  processInside : ∀ start w ts, (processLts size).initial start →
    Run (processLts size) start ts w →
    ∀ t ∈ ts, ∀ a, t.source.state.access t.event = some a → a.queue = queue →
      a.Inside address size

/-! ## The single-process queue -/

section Single

variable {allocator : Allocator} {status : TxQueueStatus} {capacity : UInt64}

/-- On a power of two the runs keep to the ring. -/
theorem TxQueueSp.sound_of_isPowTwo {queue : TxQueueSp} (hcap : IsPowTwo queue.capacity_)
    (hcovers : capacity ≤ queue.capacity_)
    (hsize : allocator.blockSize queue.capacity_ cacheLineSize = queue.capacity_.toNat)
    (hhead : queue.status_.head_ = 0) (htail : queue.status_.tail_ = 0) :
    queue.Sound allocator capacity := by
  refine ⟨hcap, hcovers, hsize, hhead, htail, ?_⟩
  intro vis start w ts hstart hrun
  rw [hsize]
  exact within_of_run hcap hstart hrun

/-- The single-process constructor gives a sound queue whenever it gives an ok one, if and only if
the request is at most 2^63 bytes or the allocator returns null for 0 bytes. -/
theorem txQueueSp_iff (allocator : Allocator) (status : TxQueueStatus) (capacity : UInt64) :
    ((txQueueSp allocator status capacity).isOk →
      (txQueueSp allocator status capacity).Sound allocator capacity) ↔
    capacity.toNat ≤ 2 ^ 63 ∨ allocator.alignedMalloc 0 cacheLineSize = 0 := by
  have hline : cacheLineSize.toNat = 64 := rfl
  by_cases hsmall : capacity < cacheLineSize
  · -- refused before the allocation
    rw [UInt64.lt_iff_toNat_lt] at hsmall
    refine iff_of_true ?_ (Or.inl (by omega))
    intro hok
    simp [txQueueSp, UInt64.lt_iff_toNat_lt, hsmall, BaseTxQueue.isOk] at hok
  · have heq : txQueueSp allocator status capacity =
        { storage_ := allocator.alignedMalloc (roundUp capacity) cacheLineSize
          capacity_ := roundUp capacity
          status_ := { status.construct with head_ := 0, tail_ := 0 } } := by
      rw [txQueueSp, if_neg hsmall]
    rw [UInt64.lt_iff_toNat_lt] at hsmall
    rw [heq]
    by_cases hle : capacity.toNat ≤ 2 ^ 63
    · refine iff_of_true ?_ (Or.inl hle)
      intro hok
      obtain ⟨hcap, hcovers⟩ := roundUp_isPowTwo (by omega) hle
      have hne : allocator.alignedMalloc (roundUp capacity) cacheLineSize ≠ 0 := by
        simpa [BaseTxQueue.isOk] using hok
      exact TxQueueSp.sound_of_isPowTwo hcap hcovers (allocator.exact _ _ hne) rfl rfl
    · have hzero := roundUp_eq_zero (by omega : 2 ^ 63 < capacity.toNat)
      rw [hzero]
      constructor
      · intro hsound
        by_contra hnot
        simp only [hle, false_or] at hnot
        have hpos := (hsound (by simpa [BaseTxQueue.isOk] using hnot)).isPowTwo.pos
        exact Nat.lt_irrefl 0 hpos
      · rintro (h | hnull)
        · exact absurd h hle
        · intro hok
          simp [BaseTxQueue.isOk, hnull] at hok

end Single

/-! ## The multi-process queue -/

section Multi

variable {address size : UInt64}

/-- An access within the ring behind the status is inside the block. -/
theorem Access.Within.inside {a : Access} (hsize : ValidSize size)
    (ha : a.Within (size - sizeofTxQueueStatus).toNat)
    (hstorage : a.queue.storage_ = address + sizeofTxQueueStatus) : a.Inside address size := by
  have hstatus : sizeofTxQueueStatus.toNat = 128 := rfl
  have hroom := hsize.status_add_ring
  have hle := ha.le
  intro i hi
  refine ⟨128 + a.copy.ring.toNat + i, by omega, ?_⟩
  rw [ha.storage, hstorage, UInt64.ofNat_add, UInt64.ofNat_add, UInt64.ofNat_toNat]
  simp only [UInt64.add_assoc]
  rfl

/-- The multi-process constructor gives a usable queue whenever it gives an ok one, if and only if
the size is not just that of the status, or the address is not valid, or the storage behind the
status is null. -/
theorem txQueueMp_iff (address size : UInt64) :
    ((txQueueMp address size).isOk → (txQueueMp address size).Usable address size) ↔
    size ≠ sizeofTxQueueStatus ∨ ¬ ValidAddress address ∨ address + sizeofTxQueueStatus = 0 := by
  rw [txQueueMp_isOk_iff]
  have hstatus : sizeofTxQueueStatus.toNat = 128 := rfl
  constructor
  · intro husable
    by_contra hnot
    simp only [not_or, not_not] at hnot
    obtain ⟨rfl, haddress, hne⟩ := hnot
    have hpos := (husable ⟨haddress, Or.inl rfl, hne⟩).isPowTwo.pos
    -- a block of the size of the status leaves no ring
    rcases txQueueMp_cases address sizeofTxQueueStatus with ⟨-, -, heq⟩ | ⟨hnot, -⟩
    · rw [heq] at hpos
      exact Nat.lt_irrefl 0 hpos
    · exact hnot ⟨haddress, Or.inl rfl⟩
  · rintro hcond ⟨haddress, hsize, hne⟩
    have hvalid : ValidSize size := by
      rcases hsize with rfl | hvalid
      · exact absurd hcond (by simp [haddress, hne])
      · exact hvalid
    have hcap := hvalid.isPowTwo
    have heq := txQueueMp_eq haddress hvalid
    have hstorage : (txQueueMp address size).storage_ = address + sizeofTxQueueStatus := by rw [heq]
    have hcapacity : (txQueueMp address size).capacity_ = size - sizeofTxQueueStatus := by rw [heq]
    refine ⟨haddress.ne_null, ?_, ?_, hcapacity ▸ hcap, ?_, ?_⟩
    · rw [hstorage]
      have hmask := congrArg UInt64.toNat haddress.and_mask
      rwa [and_mask_toNat (show cacheLineSize.toNat = 2 ^ 6 from rfl)] at hmask
    · rw [hcapacity]
      exact hvalid.status_add_ring
    · intro vis start w ts hstart hrun t ht a ha
      obtain ⟨hqueue, hwithin⟩ := within_of_run (hcapacity ▸ hcap) hstart hrun t ht a ha
      exact (hcapacity ▸ hwithin).inside hvalid (by rw [hqueue, hstorage])
    · intro start w ts hstart hrun t ht a ha hqueue
      obtain ⟨-, hwithin⟩ := within_of_process_run hvalid hstart hrun t ht a ha
      exact hwithin.inside hvalid (by rw [hqueue, hstorage])

end Multi

/-! ## A ring of 0 bytes -/

/-- The transaction that opens on an empty ring of 0 bytes passes the availability check. -/
theorem reserve_of_capacity_zero {queue : BaseTxQueue} (hok : queue.isOk)
    (hcap : queue.capacity_ = 0) :
    (TxWrite.construct queue 0 0).reserve 1 0 = .ok (TxWrite.construct queue 0 0) := by
  have hspace : (TxWrite.construct queue 0 0).space = 0 - 1 := by
    simp only [TxWrite.space, TxWrite.construct, hcap]
    rfl
  have hvalid : (TxWrite.construct queue 0 0).invalidated_ = false := by
    simp [TxWrite.construct, hok]
  simp only [TxWrite.reserve, hvalid, hspace, Bool.false_eq_true, if_false]
  rfl

/-- On an ok queue with a capacity of 0, a write of one byte to the empty ring stores it. -/
theorem zero_capacity_access (queue : BaseTxQueue) (hok : queue.isOk)
    (hcap : queue.capacity_ = 0) :
    ∃ ts w, Run (worldLts queue .everyLoad) (freshWorld queue) ts w ∧
      ∃ t ∈ ts, t.source.state.access t.event = some ⟨queue, queue.storage_, ⟨0, 0, 1⟩⟩ := by
  have hcopies : copies 0 queue.capacity_ 1 = [⟨0, 0, 0⟩, ⟨0, 0, 1⟩] := by
    rw [hcap]
    rfl
  have h0 : Run (worldLts queue .everyLoad) (freshWorld queue) [] _ := .nil
  have h1 := h0.andThen (.openWrite 0 (by exact le_rfl) (by exact Nat.one_pos) rfl)
  have h2 := h1.andThen (.beginWrite (fun _ => 7) 1 0 (by exact le_rfl) (by exact Nat.one_pos)
    rfl (reserve_of_capacity_zero hok hcap))
  have hside : Producer.copying (TxWrite.construct queue 0 0) (fun _ => 7) 1
      (copies 0 queue.capacity_ 1) =
      .copying (TxWrite.construct queue 0 0) (fun _ => 7) 1 [⟨0, 0, 0⟩, ⟨0, 0, 1⟩] := by
    rw [hcopies]
  have h3 := h2.andThen (.copyIn hside)
  have h4 := h3.andThen (.wrote rfl)
  exact ⟨_, _, h4, _, List.mem_append_right _ (List.mem_singleton_self _), rfl⟩

/-- An allocator that has a block at address 64 for every request. -/
def generousAllocator : Allocator where
  alignedMalloc := fun _ _ => 64
  blockSize := fun size _ => size.toNat
  exact := fun _ _ _ => rfl

/-- A request of 2^63 + 1 bytes gets a block of 0 bytes and an ok queue of capacity 0, and a write
stores a byte behind the block. -/
theorem huge_request_unsound : ∃ queue : TxQueueSp,
    queue = txQueueSp generousAllocator { tail_ := 5, head_ := 7 } 0x8000000000000001 ∧ queue.isOk ∧
    queue.capacity_ = 0 ∧
    (∃ ts w, Run (worldLts queue.toBaseTxQueue .everyLoad) (freshWorld queue.toBaseTxQueue) ts w ∧
      ∃ t ∈ ts, ∃ a, t.source.state.access t.event = some a ∧
        ¬ a.Within (generousAllocator.blockSize queue.capacity_ cacheLineSize)) ∧
    ¬ (queue.isOk → queue.Sound generousAllocator 0x8000000000000001) := by
  have hround : roundUp 0x8000000000000001 = 0 := roundUp_eq_zero (by decide)
  have heq : txQueueSp generousAllocator { tail_ := 5, head_ := 7 } 0x8000000000000001 =
      { storage_ := 64, capacity_ := 0, status_ := { tail_ := 0, head_ := 0 } } := by
    rw [txQueueSp, if_neg (by decide), hround]
    rfl
  refine ⟨_, heq.symm, rfl, rfl, ?_, ?_⟩
  · obtain ⟨ts, w, hrun, t, ht, ha⟩ := zero_capacity_access ⟨64, 0⟩ rfl rfl
    exact ⟨ts, w, hrun, t, ht, _, ha, fun h => Nat.not_succ_le_zero 0 h.le⟩
  · intro hsound
    exact Nat.lt_irrefl 0 (hsound rfl).isPowTwo.pos

/-- A block with room for the status only gets an ok queue of capacity 0, and a write stores a byte
behind the block. -/
theorem status_only_unusable : ∃ queue, queue = txQueueMp 4096 128 ∧ queue.isOk ∧
    queue.capacity_ = 0 ∧
    (∃ ts w, Run (worldLts queue .everyLoad) (freshWorld queue) ts w ∧
      ∃ t ∈ ts, ∃ a, t.source.state.access t.event = some a ∧ ¬ a.Inside 4096 128) ∧
    ¬ (queue.isOk → queue.Usable 4096 128) := by
  refine ⟨⟨4224, 0⟩, rfl, rfl, rfl, ?_, ?_⟩
  · obtain ⟨ts, w, hrun, t, ht, ha⟩ := zero_capacity_access ⟨4224, 0⟩ rfl rfl
    refine ⟨ts, w, hrun, t, ht, _, ha, ?_⟩
    intro hinside
    obtain ⟨j, hj, heq⟩ := hinside 0 Nat.one_pos
    have hsum := congrArg UInt64.toNat heq
    change j < 128 at hj
    change 4224 = (4096 + j % 2 ^ 64) % 2 ^ 64 at hsum
    omega
  · intro husable
    exact Nat.lt_irrefl 0 (husable rfl).isPowTwo.pos

end TxQueue
