import TxQueue.Transaction.Positions

/-!
# The calls against the modular reference

`imp_write` and `imp_read` on every state with a power-of-two capacity and a local index below it,
whether or not the cached index, the block and the local index belong to one history. A call either
fails, and then the ring, the buffer and the local index are as before, or moves the bytes between
the buffer and consecutive slots modulo the capacity. Neither makes a `memcpy` past the end of the
ring or of the buffer.
-/

namespace TxQueue

open Library

/-- The slots that a writer with its tail at `tail` may fill before the spare one. -/
def freeSlots (cap head tail : ℕ) : ℕ := (head + (cap - 1 - tail)) % cap

/-- The slots that a reader with its head at `head` may read before the tail. -/
def filledSlots (cap tail head : ℕ) : ℕ := (tail + (cap - head)) % cap

/-- `ring'` is `ring` with the first `size` bytes of the buffer in the slots from `index` on. -/
structure Puts (cap index size : ℕ) (buffer ring ring' : ℕ → UInt8) : Prop where
  slot : ∀ i < size, ring' ((index + i) % cap) = buffer i
  other : ∀ a, (∀ i < size, (index + i) % cap ≠ a) → ring' a = ring a

/-- `buffer'` is `buffer` with the slots from `index` on in its first `size` bytes. -/
structure Fetches (cap index size : ℕ) (ring buffer buffer' : ℕ → UInt8) : Prop where
  byte : ∀ i < size, buffer' i = ring ((index + i) % cap)
  other : ∀ i, size ≤ i → buffer' i = buffer i

/-- A `memcpy` within a ring of `cap` bytes and a buffer of `size` bytes. -/
def Memcpy.Within (c : Memcpy) (cap size : ℕ) : Prop :=
  c.ring.toNat + c.count.toNat ≤ cap ∧ c.user.toNat + c.count.toNat ≤ size

/-- The `memcpy` calls of an `imp_write`, if `head` is what it would load. -/
def TxWrite.memcpys (tx : TxWrite) (size head : UInt64) : List Memcpy :=
  match tx.reserve size head with
  | .error _ => []
  | .ok tx' => copies tx'.tail_ tx'.capacity_ size

/-- The `memcpy` calls of an `imp_read`, if `tail` is what it would load. -/
def TxRead.memcpys (tx : TxRead) (size tail : UInt64) : List Memcpy :=
  match tx.reserve size tail with
  | .error _ => []
  | .ok tx' => copies tx'.head_ tx'.capacity_ size

/-- A failed `imp_write` changes the cached head, `invalidated_` and `producer_core_` at most. -/
structure WriteResult.Refused (result : WriteResult) (tx : TxWrite) (block : Block) : Prop where
  ok : result.ok = false
  tx : result.tx = { tx with
    cachedHead_ := result.tx.cachedHead_
    invalidated_ := result.tx.invalidated_ }
  block : result.block = { block with
    status := { block.status with producerCore_ := result.block.status.producerCore_ } }

/-- A successful `imp_write` puts the buffer at the local tail and moves it. -/
structure WriteResult.Stored (result : WriteResult) (tx : TxWrite) (block : Block)
    (buffer : ℕ → UInt8) (size : ℕ) : Prop where
  ok : result.ok = true
  ring : Puts tx.capacity_.toNat tx.tail_.toNat size buffer block.ring result.block.ring
  tail : result.tx.tail_.toNat = (tx.tail_.toNat + size) % tx.capacity_.toNat

/-- A failed `imp_read` changes the cached tail, `invalidated_` and `consumer_core_` at most. -/
structure ReadResult.Refused (result : ReadResult) (tx : TxRead) (block : Block)
    (buffer : ℕ → UInt8) : Prop where
  ok : result.ok = false
  tx : result.tx = { tx with
    cachedTail_ := result.tx.cachedTail_
    invalidated_ := result.tx.invalidated_ }
  block : result.block = { block with
    status := { block.status with consumerCore_ := result.block.status.consumerCore_ } }
  buffer : result.buffer = buffer

/-- A successful `imp_read` fetches the bytes at the local head, moves it and leaves the ring. -/
structure ReadResult.Fetched (result : ReadResult) (tx : TxRead) (block : Block)
    (buffer : ℕ → UInt8) (size : ℕ) : Prop where
  ok : result.ok = true
  buffer : Fetches tx.capacity_.toNat tx.head_.toNat size block.ring buffer result.buffer
  ring : result.block.ring = block.ring
  head : result.tx.head_.toNat = (tx.head_.toNat + size) % tx.capacity_.toNat

/-! ## Copies of less than a lap -/

section Copies

variable {cap p n : ℕ}

/-- The stores to at most a lap of slots put each byte in its own. -/
theorem puts_slotPairs (hn : n ≤ cap) (buffer ring : ℕ → UInt8) :
    Puts cap p n buffer ring
      (image ring ((slotPairs cap p n).map fun x => (x.1, buffer x.2))) := by
  constructor
  · intro i hi
    rw [slotPairs, List.map_map]
    refine image_map (f := fun i => (p + i) % cap) (List.mem_range.2 hi) ?_
    intro j hj hslot
    have hj := List.mem_range.1 hj
    rcases lt_trichotomy j i with hji | rfl | hij
    · exact absurd hslot (mod_ne_mod (by omega) (by omega))
    · rfl
    · exact absurd hslot (mod_ne_mod (by omega) (by omega)).symm
  · intro a ha
    refine image_of_forall_ne ?_
    intro x hx
    rw [slotPairs, List.map_map] at hx
    obtain ⟨i, hi, rfl⟩ := List.mem_map.1 hx
    exact ha i (List.mem_range.1 hi)

/-- The loads from some slots fetch the byte of each. -/
theorem fetches_slotPairs (ring buffer : ℕ → UInt8) :
    Fetches cap p n ring buffer
      (image buffer ((slotPairs cap p n).map fun x => (x.2, ring x.1))) := by
  constructor
  · intro i hi
    rw [slotPairs, List.map_map]
    exact image_map (f := fun i => i) (List.mem_range.2 hi) fun j _ hj => by rw [hj]
  · intro i hi
    refine image_of_forall_ne ?_
    intro x hx
    rw [slotPairs, List.map_map] at hx
    obtain ⟨j, hj, rfl⟩ := List.mem_map.1 hx
    have := List.mem_range.1 hj
    show j ≠ i
    omega

/-- The copies of a transfer smaller than the ring stay inside the ring and the buffer. -/
theorem copies_within {capacity index size : UInt64} (h : IsPowTwo capacity)
    (hindex : index.toNat < capacity.toNat) (hsize : size.toNat < capacity.toNat) :
    ∀ c ∈ copies index capacity size, c.Within capacity.toNat size.toNat := by
  intro c hc
  rcases copies_cases h hindex hsize with ⟨first, rest, heq, hfirst, hrest, hgt⟩ | ⟨heq, hle⟩
  -- the first copy ends at the end of the ring, the second at the end of the buffer
  · rw [heq] at hc
    rcases List.mem_pair.1 hc with rfl | rfl
    · show index.toNat + first.toNat ≤ capacity.toNat ∧
        (0 : UInt64).toNat + first.toNat ≤ size.toNat
      rw [hfirst, UInt64.toNat_zero]
      omega
    · show (0 : UInt64).toNat + rest.toNat ≤ capacity.toNat ∧
        first.toNat + rest.toNat ≤ size.toNat
      rw [hfirst, hrest, UInt64.toNat_zero]
      omega
  · rw [heq] at hc
    obtain rfl := List.mem_singleton.1 hc
    show index.toNat + size.toNat ≤ capacity.toNat ∧ (0 : UInt64).toNat + size.toNat ≤ size.toNat
    rw [UInt64.toNat_zero]
    omega

end Copies

/-! ## `imp_write` -/

namespace TxWrite

variable {tx tx' : TxWrite} {size head : UInt64}

/-- The ring after an `imp_write` is what its `memcpy` calls leave. -/
theorem impWrite_ring (tx : TxWrite) (block : Block) (core : Int32) (buffer : ℕ → UInt8)
    (size : UInt64) : (tx.impWrite block core buffer size).block.ring =
      (tx.memcpys size block.status.head_).foldl (fun ring c => c.copyIn buffer ring)
        block.ring := by
  unfold impWrite memcpys
  cases tx.reserve size block.status.head_ with
  | error tx' =>
      dsimp only
      split <;> rfl
  | ok tx' =>
      dsimp only [Block.resetProducerCore]
      split <;> rfl

/-- The free space in the transaction's own indices, in unbounded arithmetic. -/
theorem space_toNat (hcap : IsPowTwo tx.capacity_) (htail : tx.tail_.toNat < tx.capacity_.toNat) :
    tx.space.toNat = freeSlots tx.capacity_.toNat tx.cachedHead_.toNat tx.tail_.toNat :=
  availableSpace_toNat hcap htail

/-- What passes the availability check leaves the spare slot free. -/
theorem lt_of_reserve (hcap : IsPowTwo tx.capacity_) (htail : tx.tail_.toNat < tx.capacity_.toNat)
    (hreserve : tx.reserve size head = .ok tx') :
    tx'.tail_ = tx.tail_ ∧ tx'.capacity_ = tx.capacity_ ∧ size.toNat < tx.capacity_.toNat := by
  obtain ⟨-, hroom, htx'⟩ := reserve_eq_ok hreserve
  have htail' : tx'.tail_ = tx.tail_ := by rw [htx']
  have hcapacity' : tx'.capacity_ = tx.capacity_ := by rw [htx']
  refine ⟨htail', hcapacity', ?_⟩
  rw [UInt64.le_iff_toNat_le, space_toNat (hcapacity' ▸ hcap) (by rwa [htail', hcapacity'])]
    at hroom
  have hlt := Nat.mod_lt (tx'.cachedHead_.toNat + (tx'.capacity_.toNat - 1 - tx'.tail_.toNat))
    (hcapacity' ▸ hcap.pos)
  rw [freeSlots] at hroom
  rw [← hcapacity']
  omega

/-- When the availability check passes. -/
theorem reserve_ok_iff (hcap : IsPowTwo tx.capacity_)
    (htail : tx.tail_.toNat < tx.capacity_.toNat) (size head : UInt64) :
    (∃ tx', tx.reserve size head = .ok tx') ↔ tx.invalidated_ = false ∧
      (size.toNat ≤ freeSlots tx.capacity_.toNat tx.cachedHead_.toNat tx.tail_.toNat ∨
        size.toNat ≤ freeSlots tx.capacity_.toNat head.toNat tx.tail_.toNat) := by
  have hspace := space_toNat hcap htail
  have hagain := @space_toNat { tx with cachedHead_ := head } hcap htail
  dsimp only at hagain
  simp only [reserve]
  split_ifs with hinvalid hless hless'
  · simp [hinvalid]
  · rw [gt_iff_lt, UInt64.lt_iff_toNat_lt] at hless hless'
    simp only [exists_false, false_iff]
    omega
  · rw [gt_iff_lt, UInt64.lt_iff_toNat_lt] at hless hless'
    simp only [Except.ok.injEq, exists_eq', true_iff]
    exact ⟨by simpa using hinvalid, Or.inr (by omega)⟩
  · rw [gt_iff_lt, UInt64.lt_iff_toNat_lt] at hless
    simp only [Except.ok.injEq, exists_eq', true_iff]
    exact ⟨by simpa using hinvalid, Or.inl (by omega)⟩

/-- `imp_write` against the reference: it fails and changes no byte and no local index, or puts the
buffer in the slots from the local tail on; and it fails only when there is no room by the cached
nor by the loaded head. -/
theorem impWrite_reference (hcap : IsPowTwo tx.capacity_)
    (htail : tx.tail_.toNat < tx.capacity_.toNat) (block : Block) (core : Int32)
    (buffer : ℕ → UInt8) :
    ((tx.impWrite block core buffer size).Refused tx block ∨
      (tx.impWrite block core buffer size).Stored tx block buffer size.toNat) ∧
    ((tx.impWrite block core buffer size).ok = true ↔ tx.invalidated_ = false ∧
      (size.toNat ≤ freeSlots tx.capacity_.toNat tx.cachedHead_.toNat tx.tail_.toNat ∨
        size.toNat ≤ freeSlots tx.capacity_.toNat block.status.head_.toNat tx.tail_.toNat)) ∧
    ∀ c ∈ tx.memcpys size block.status.head_, c.Within tx.capacity_.toNat size.toNat := by
  have hroom := reserve_ok_iff hcap htail size block.status.head_
  cases hreserve : tx.reserve size block.status.head_ with
  | error tx' =>
      have hresult : tx.impWrite block core buffer size =
          ⟨false, tx', if tx.invalidated_ then block else block.storeProducerCore core⟩ := by
        simp [impWrite, hreserve]
      have hmemcpys : tx.memcpys size block.status.head_ = [] := by simp [memcpys, hreserve]
      rw [← hroom, hresult, hmemcpys]
      refine ⟨Or.inl ⟨rfl, ?_, ?_⟩, by simp [hreserve], by simp⟩
      · exact (reserve_eq_error hreserve).2.2 ▸ rfl
      · show (if tx.invalidated_ then block else block.storeProducerCore core) = _
        split <;> rfl
  | ok tx' =>
      obtain ⟨htail', hcapacity', hsize⟩ := lt_of_reserve hcap htail hreserve
      have hmemcpys : tx.memcpys size block.status.head_ =
          copies tx.tail_ tx.capacity_ size := by
        simp [memcpys, hreserve, htail', hcapacity']
      have hok : (tx.impWrite block core buffer size).ok = true := by simp [impWrite, hreserve]
      rw [← hroom, hmemcpys]
      refine ⟨Or.inr ⟨hok, ?_, ?_⟩, by simp [hok, hreserve], copies_within hcap htail hsize⟩
      · rw [impWrite_ring, hmemcpys, foldl_copyIn, copies_pairs hcap htail hsize]
        exact puts_slotPairs hsize.le buffer block.ring
      · simp only [impWrite, hreserve, finish, htail', hcapacity']
        exact advance_toNat hcap tx.tail_ size

end TxWrite

/-! ## `imp_read` -/

namespace TxRead

variable {tx tx' : TxRead} {size tail : UInt64}

/-- The buffer after an `imp_read` is what its `memcpy` calls leave. -/
theorem impRead_buffer (tx : TxRead) (block : Block) (core : Int32) (buffer : ℕ → UInt8)
    (size : UInt64) : (tx.impRead block core buffer size).buffer =
      (tx.memcpys size block.status.tail_).foldl (fun buffer c => c.copyOut block.ring buffer)
        buffer := by
  unfold impRead memcpys
  cases tx.reserve size block.status.tail_ <;> rfl

/-- The readable data in the transaction's own indices, in unbounded arithmetic. -/
theorem data_toNat (hcap : IsPowTwo tx.capacity_) (hhead : tx.head_.toNat < tx.capacity_.toNat) :
    tx.data.toNat = filledSlots tx.capacity_.toNat tx.cachedTail_.toNat tx.head_.toNat :=
  availableData_toNat hcap hhead

/-- What passes the availability check is less than a lap. -/
theorem lt_of_reserve (hcap : IsPowTwo tx.capacity_) (hhead : tx.head_.toNat < tx.capacity_.toNat)
    (hreserve : tx.reserve size tail = .ok tx') :
    tx'.head_ = tx.head_ ∧ tx'.capacity_ = tx.capacity_ ∧ size.toNat < tx.capacity_.toNat := by
  obtain ⟨-, hroom, htx'⟩ := reserve_eq_ok hreserve
  have hhead' : tx'.head_ = tx.head_ := by rw [htx']
  have hcapacity' : tx'.capacity_ = tx.capacity_ := by rw [htx']
  refine ⟨hhead', hcapacity', ?_⟩
  rw [UInt64.le_iff_toNat_le, data_toNat (hcapacity' ▸ hcap) (by rwa [hhead', hcapacity'])]
    at hroom
  have hlt := Nat.mod_lt (tx'.cachedTail_.toNat + (tx'.capacity_.toNat - tx'.head_.toNat))
    (hcapacity' ▸ hcap.pos)
  rw [filledSlots] at hroom
  rw [← hcapacity']
  omega

/-- When the availability check passes. -/
theorem reserve_ok_iff (hcap : IsPowTwo tx.capacity_)
    (hhead : tx.head_.toNat < tx.capacity_.toNat) (size tail : UInt64) :
    (∃ tx', tx.reserve size tail = .ok tx') ↔ tx.invalidated_ = false ∧
      (size.toNat ≤ filledSlots tx.capacity_.toNat tx.cachedTail_.toNat tx.head_.toNat ∨
        size.toNat ≤ filledSlots tx.capacity_.toNat tail.toNat tx.head_.toNat) := by
  have hdata := data_toNat hcap hhead
  have hagain := @data_toNat { tx with cachedTail_ := tail } hcap hhead
  dsimp only at hagain
  simp only [reserve]
  split_ifs with hinvalid hless hless'
  · simp [hinvalid]
  · rw [gt_iff_lt, UInt64.lt_iff_toNat_lt] at hless hless'
    simp only [exists_false, false_iff]
    omega
  · rw [gt_iff_lt, UInt64.lt_iff_toNat_lt] at hless hless'
    simp only [Except.ok.injEq, exists_eq', true_iff]
    exact ⟨by simpa using hinvalid, Or.inr (by omega)⟩
  · rw [gt_iff_lt, UInt64.lt_iff_toNat_lt] at hless
    simp only [Except.ok.injEq, exists_eq', true_iff]
    exact ⟨by simpa using hinvalid, Or.inl (by omega)⟩

/-- `imp_read` against the reference: it fails and changes no byte and no local index, or fetches
the slots from the local head on; and it fails only when there is too little by the cached and by
the loaded tail. -/
theorem impRead_reference (hcap : IsPowTwo tx.capacity_)
    (hhead : tx.head_.toNat < tx.capacity_.toNat) (block : Block) (core : Int32)
    (buffer : ℕ → UInt8) :
    ((tx.impRead block core buffer size).Refused tx block buffer ∨
      (tx.impRead block core buffer size).Fetched tx block buffer size.toNat) ∧
    ((tx.impRead block core buffer size).ok = true ↔ tx.invalidated_ = false ∧
      (size.toNat ≤ filledSlots tx.capacity_.toNat tx.cachedTail_.toNat tx.head_.toNat ∨
        size.toNat ≤ filledSlots tx.capacity_.toNat block.status.tail_.toNat tx.head_.toNat)) ∧
    ∀ c ∈ tx.memcpys size block.status.tail_, c.Within tx.capacity_.toNat size.toNat := by
  have hfill := reserve_ok_iff hcap hhead size block.status.tail_
  cases hreserve : tx.reserve size block.status.tail_ with
  | error tx' =>
      have hresult : tx.impRead block core buffer size =
          ⟨false, tx', if tx.invalidated_ then block else block.storeConsumerCore core,
            buffer⟩ := by
        simp [impRead, hreserve]
      have hmemcpys : tx.memcpys size block.status.tail_ = [] := by simp [memcpys, hreserve]
      rw [← hfill, hresult, hmemcpys]
      refine ⟨Or.inl ⟨rfl, ?_, ?_, rfl⟩, by simp [hreserve], by simp⟩
      · exact (reserve_eq_error hreserve).2.2 ▸ rfl
      · show (if tx.invalidated_ then block else block.storeConsumerCore core) = _
        split <;> rfl
  | ok tx' =>
      obtain ⟨hhead', hcapacity', hsize⟩ := lt_of_reserve hcap hhead hreserve
      have hmemcpys : tx.memcpys size block.status.tail_ =
          copies tx.head_ tx.capacity_ size := by
        simp [memcpys, hreserve, hhead', hcapacity']
      have hok : (tx.impRead block core buffer size).ok = true := by simp [impRead, hreserve]
      rw [← hfill, hmemcpys]
      refine ⟨Or.inr ⟨hok, ?_, ?_, ?_⟩, by simp [hok, hreserve], copies_within hcap hhead hsize⟩
      · rw [impRead_buffer, hmemcpys, foldl_copyOut, copies_pairs hcap hhead hsize]
        exact fetches_slotPairs block.ring buffer
      · simp only [impRead, hreserve, Block.resetConsumerCore]
        split <;> rfl
      · simp only [impRead, hreserve, finish, hhead', hcapacity']
        exact advance_toNat hcap tx.head_ size

end TxRead

/-- Both calls against the reference, for every capacity that is a power of two. -/
theorem imp_reference {cap : UInt64} (hcap : IsPowTwo cap) (block : Block) (core : Int32)
    (buffer : ℕ → UInt8) (size : UInt64) :
    (∀ tx : TxWrite, tx.capacity_ = cap → tx.tail_ < cap →
      ((tx.impWrite block core buffer size).Refused tx block ∨
        (tx.impWrite block core buffer size).Stored tx block buffer size.toNat) ∧
      ((tx.impWrite block core buffer size).ok = true ↔ tx.invalidated_ = false ∧
        (size.toNat ≤ freeSlots cap.toNat tx.cachedHead_.toNat tx.tail_.toNat ∨
          size.toNat ≤ freeSlots cap.toNat block.status.head_.toNat tx.tail_.toNat)) ∧
      ∀ c ∈ tx.memcpys size block.status.head_, c.Within cap.toNat size.toNat) ∧
    (∀ tx : TxRead, tx.capacity_ = cap → tx.head_ < cap →
      ((tx.impRead block core buffer size).Refused tx block buffer ∨
        (tx.impRead block core buffer size).Fetched tx block buffer size.toNat) ∧
      ((tx.impRead block core buffer size).ok = true ↔ tx.invalidated_ = false ∧
        (size.toNat ≤ filledSlots cap.toNat tx.cachedTail_.toNat tx.head_.toNat ∨
          size.toNat ≤ filledSlots cap.toNat block.status.tail_.toNat tx.head_.toNat)) ∧
      ∀ c ∈ tx.memcpys size block.status.tail_, c.Within cap.toNat size.toNat) := by
  constructor
  · rintro tx rfl htail
    exact TxWrite.impWrite_reference hcap (UInt64.lt_iff_toNat_lt.1 htail) block core buffer
  · rintro tx rfl hhead
    exact TxRead.impRead_reference hcap (UInt64.lt_iff_toNat_lt.1 hhead) block core buffer

/-- A write transaction at the last slot of an empty ring of four. -/
def lastSlotWriter : TxWrite where
  queue_ := { storage_ := 64, capacity_ := 4 }
  storage_ := 64
  tail_ := 3
  cachedHead_ := 3
  capacity_ := 4
  invalidated_ := false

/-- `imp_reference` on a write that passes the end of the ring and fills it. -/
theorem lastSlotWriter_stores :
    (lastSlotWriter.impWrite { ring := fun _ => 0, status := { tail_ := 3, head_ := 3 } } 0
      (fun i => UInt8.ofNat i) 3).ok = true :=
  ((imp_reference (show IsPowTwo 4 from ⟨2, rfl⟩) _ 0 _ 3).1 lastSlotWriter rfl
    (by decide)).2.1.2 ⟨rfl, Or.inl (by decide)⟩

end TxQueue
