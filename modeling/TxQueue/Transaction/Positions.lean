import TxQueue.Transaction.Read
import TxQueue.Transaction.Write

/-!
# Transactions at stream positions

A transaction's two indices are stream positions modulo the capacity. As long as these are less
than a lap apart the availability check is exact for the index in the cache, and so for the index
in the block after a load; `imp_write` then stores the buffer at the local position, `imp_read`
returns what stands there, and both move it by the number of bytes.
-/

namespace TxQueue

open Library

/-- A write transaction whose local tail is at position `q` and whose cached head is at `p`. -/
structure TxWrite.At (cap : UInt64) (tx : TxWrite) (p q : ℕ) : Prop where
  queue : tx.queue_.capacity_ = cap
  capacity : tx.capacity_ = cap
  tail : tx.tail_.toNat = q % cap.toNat
  head : tx.cachedHead_.toNat = p % cap.toNat

/-- A read transaction whose local head is at position `p` and whose cached tail is at `q`. -/
structure TxRead.At (cap : UInt64) (tx : TxRead) (p q : ℕ) : Prop where
  queue : tx.queue_.capacity_ = cap
  capacity : tx.capacity_ = cap
  head : tx.head_.toNat = p % cap.toNat
  tail : tx.cachedTail_.toNat = q % cap.toNat

/-- The free space that a write transaction shows is exact for what it has observed. -/
theorem TxWrite.At.space_toNat {cap : UInt64} {tx : TxWrite} {p q : ℕ} (h : tx.At cap p q)
    (hcap : IsPowTwo cap) (hpq : p ≤ q) (hlap : q ≤ p + (cap.toNat - 1)) :
    tx.space.toNat = cap.toNat - 1 - (q - p) := by
  rw [TxWrite.space, h.capacity]
  exact availableSpace_of_pos hcap h.head h.tail hpq hlap

/-- The readable data that a read transaction shows is exact for what it has observed. -/
theorem TxRead.At.data_toNat {cap : UInt64} {tx : TxRead} {p q : ℕ} (h : tx.At cap p q)
    (hcap : IsPowTwo cap) (hpq : p ≤ q) (hlap : q ≤ p + (cap.toNat - 1)) :
    tx.data.toNat = q - p := by
  rw [TxRead.data, h.capacity]
  exact availableData_of_pos hcap h.head h.tail hpq hlap

/-- Moving the local tail. -/
theorem TxWrite.At.finish {cap : UInt64} {tx : TxWrite} {p q : ℕ} (h : tx.At cap p q)
    (hcap : IsPowTwo cap) (size : UInt64) : (tx.finish size).At cap p (q + size.toNat) where
  queue := h.queue
  capacity := h.capacity
  tail := by
    rw [TxWrite.finish, h.capacity]
    exact advance_of_pos hcap size h.tail
  head := h.head

/-- Moving the local head. -/
theorem TxRead.At.finish {cap : UInt64} {tx : TxRead} {p q : ℕ} (h : tx.At cap p q)
    (hcap : IsPowTwo cap) (size : UInt64) : (tx.finish size).At cap (p + size.toNat) q where
  queue := h.queue
  capacity := h.capacity
  head := by
    rw [TxRead.finish, h.capacity]
    exact advance_of_pos hcap size h.head
  tail := h.tail

/-! ## The availability check

A check that loads the other index again moves the observed position, and one that does not keeps
it. Either way the transaction it leaves has the observed position in its cache. -/

section Reserve

variable {cap size v : UInt64} {pos : ℕ → ℕ} {o k : ℕ}

theorem TxWrite.At.reserve_ok {tx tx' : TxWrite} {q : ℕ} (h : tx.At cap (pos o) q)
    (hv : v.toNat = pos k % cap.toNat) (hreserve : tx.reserve size v = .ok tx') :
    tx'.At cap (pos (if tx.reloads size then k else o)) q ∧ tx'.invalidated_ = false := by
  obtain ⟨hvalid, -, rfl⟩ := TxWrite.reserve_eq_ok hreserve
  exact ⟨⟨h.queue, h.capacity, h.tail, by split_ifs <;> [exact hv; exact h.head]⟩, hvalid⟩

theorem TxWrite.At.reserve_error {tx tx' : TxWrite} {q : ℕ} (h : tx.At cap (pos o) q)
    (hv : v.toNat = pos k % cap.toNat) (hreserve : tx.reserve size v = .error tx') :
    tx'.At cap (pos (if tx.reloads size then k else o)) q := by
  obtain ⟨-, -, rfl⟩ := TxWrite.reserve_eq_error hreserve
  exact ⟨h.queue, h.capacity, h.tail, by split_ifs <;> [exact hv; exact h.head]⟩

theorem TxRead.At.reserve_ok {tx tx' : TxRead} {p : ℕ} (h : tx.At cap p (pos o))
    (hv : v.toNat = pos k % cap.toNat) (hreserve : tx.reserve size v = .ok tx') :
    tx'.At cap p (pos (if tx.reloads size then k else o)) ∧ tx'.invalidated_ = false := by
  obtain ⟨hvalid, -, rfl⟩ := TxRead.reserve_eq_ok hreserve
  exact ⟨⟨h.queue, h.capacity, h.head, by split_ifs <;> [exact hv; exact h.tail]⟩, hvalid⟩

theorem TxRead.At.reserve_error {tx tx' : TxRead} {p : ℕ} (h : tx.At cap p (pos o))
    (hv : v.toNat = pos k % cap.toNat) (hreserve : tx.reserve size v = .error tx') :
    tx'.At cap p (pos (if tx.reloads size then k else o)) := by
  obtain ⟨-, -, rfl⟩ := TxRead.reserve_eq_error hreserve
  exact ⟨h.queue, h.capacity, h.head, by split_ifs <;> [exact hv; exact h.tail]⟩

/-- The observed position does not move back. -/
theorem le_ite (b : Bool) (hle : o ≤ k) : o ≤ if b then k else o := by
  cases b <;> simp [hle]

end Reserve

/-! ## The calls as a whole -/

variable {cap : UInt64} {p q r : ℕ}

/-- What stands in a ring of `cap` slots from position `p` on. -/
def ringBytes (cap : UInt64) (ring : ℕ → UInt8) (p n : ℕ) : List UInt8 :=
  (List.range n).map fun i => ring ((p + i) % cap.toNat)

/-- The stores of some bytes from position `q` on. -/
def slotStores (cap : UInt64) (q : ℕ) (data : List UInt8) : List (ℕ × UInt8) :=
  (List.range data.length).map fun i => ((q + i) % cap.toNat, data.getD i 0)

/-- The bytes of a ring from a slot on. -/
theorem ringBytes_mod (cap : UInt64) (ring : ℕ → UInt8) (p n : ℕ) :
    ringBytes cap ring (p % cap.toNat) n = ringBytes cap ring p n := by
  simp [ringBytes]

@[simp] theorem length_ringBytes (cap : UInt64) (ring : ℕ → UInt8) (p n : ℕ) :
    (ringBytes cap ring p n).length = n := by
  simp [ringBytes]

/-- Bytes one after the other. -/
theorem ringBytes_add (cap : UInt64) (ring : ℕ → UInt8) (p m n : ℕ) :
    ringBytes cap ring p (m + n) = ringBytes cap ring p m ++ ringBytes cap ring (p + m) n := by
  simp [ringBytes, List.range_add, Nat.add_assoc, Function.comp_def]

/-- Stores one after the other. -/
theorem slotStores_append (cap : UInt64) (q : ℕ) (xs ys : List UInt8) :
    slotStores cap q (xs ++ ys) = slotStores cap q xs ++ slotStores cap (q + xs.length) ys := by
  simp only [slotStores, List.length_append, List.range_add, List.map_append, List.map_map]
  congr 1
  · refine List.map_congr_left ?_
    intro i hi
    simp [List.getElem?_append_left (List.mem_range.1 hi)]
  · refine List.map_congr_left ?_
    intro i hi
    simp [List.getElem?_append_right, Nat.add_assoc]

/-- Less than a lap of stores stands in the ring. -/
theorem ringBytes_slotStores (cap : UInt64) (ring : ℕ → UInt8) (q : ℕ) (data : List UInt8)
    (hlen : data.length ≤ cap.toNat) :
    ringBytes cap (image ring (slotStores cap q data)) q data.length = data := by
  refine List.ext_getElem (by simp [ringBytes]) ?_
  intro i hi hi'
  simp only [ringBytes, List.getElem_map, List.getElem_range]
  rw [slotStores, image_map (f := fun i => (q + i) % cap.toNat) (List.mem_range.2 hi')
    fun j hj heq => ?_]
  · simp [hi']
  · have hj := List.mem_range.1 hj
    rcases lt_trichotomy j i with hji | rfl | hij
    · exact absurd heq (mod_ne_mod (by omega) (by omega))
    · rfl
    · exact absurd heq (mod_ne_mod (by omega) (by omega)).symm

/-- The copies of an `imp_write` are its byte stores. -/
theorem foldl_copyIn (buffer ring : ℕ → UInt8) (cs : List Memcpy) :
    cs.foldl (fun ring c => c.copyIn buffer ring) ring =
      image ring ((cs.flatMap Memcpy.pairs).map fun x => (x.1, buffer x.2)) := by
  induction cs generalizing ring with
  | nil => rfl
  | cons c cs ih =>
      rw [List.foldl_cons, ih, c.copyIn_eq, List.flatMap_cons, List.map_append, image_append]
      rfl

/-- The copies of an `imp_read` fetch the bytes of their slots. -/
theorem foldl_copyOut (ring buffer : ℕ → UInt8) (cs : List Memcpy) :
    cs.foldl (fun buffer c => c.copyOut ring buffer) buffer =
      image buffer ((cs.flatMap Memcpy.pairs).map fun x => (x.2, ring x.1)) := by
  induction cs generalizing buffer with
  | nil => rfl
  | cons c cs ih =>
      rw [List.foldl_cons, ih, c.copyOut_eq, List.flatMap_cons, List.map_append, image_append]

/-- A valid write transaction with its local tail at position `q`, on a block with the head at `r`;
what it has cached is a position of the head less than a lap behind its tail. -/
structure TxWrite.Ready (cap : UInt64) (tx : TxWrite) (block : Block) (q r : ℕ) : Prop where
  valid : tx.invalidated_ = false
  cached : ∃ p ≤ r, q ≤ p + (cap.toNat - 1) ∧ tx.At cap p q
  head : block.status.head_.toNat = r % cap.toNat
  le : r ≤ q

/-- A valid read transaction with its local head at position `p`, on a block with the tail at `r`;
what it has cached is a position of the tail. -/
structure TxRead.Ready (cap : UInt64) (tx : TxRead) (block : Block) (p r : ℕ) : Prop where
  valid : tx.invalidated_ = false
  cached : ∃ q ≤ r, p ≤ q ∧ tx.At cap p q
  tail : block.status.tail_.toNat = r % cap.toNat
  lap : r ≤ p + (cap.toNat - 1)

/-- A write transaction opened now is ready. -/
theorem TxWrite.ready_construct {queue : BaseTxQueue} {block : Block} (hok : queue.isOk)
    (hhead : block.status.head_.toNat = r % queue.capacity_.toNat)
    (htail : block.status.tail_.toNat = q % queue.capacity_.toNat) (hrq : r ≤ q)
    (hlap : q ≤ r + (queue.capacity_.toNat - 1)) :
    (TxWrite.construct queue block.status.tail_ block.status.head_).Ready queue.capacity_ block
      q r :=
  ⟨by simpa [construct] using hok, ⟨r, le_rfl, hlap, rfl, rfl, htail, hhead⟩, hhead, hrq⟩

/-- A read transaction opened now is ready. -/
theorem TxRead.ready_construct {queue : BaseTxQueue} {block : Block} (hok : queue.isOk)
    (hhead : block.status.head_.toNat = p % queue.capacity_.toNat)
    (htail : block.status.tail_.toNat = r % queue.capacity_.toNat) (hpr : p ≤ r)
    (hlap : r ≤ p + (queue.capacity_.toNat - 1)) :
    (TxRead.construct queue block.status.head_ block.status.tail_).Ready queue.capacity_ block
      p r :=
  ⟨by simpa [construct] using hok, ⟨r, le_rfl, hpr, rfl, rfl, hhead, htail⟩, htail, hlap⟩

namespace TxWrite.Ready

variable {tx : TxWrite} {block : Block} {size : UInt64}

/-- The availability check succeeds exactly if the buffer fits before the spare slot. -/
theorem reserve_iff (h : tx.Ready cap block q r) (hcap : IsPowTwo cap) :
    (∃ tx', tx.reserve size block.status.head_ = .ok tx') ↔
      q + size.toNat ≤ r + (cap.toNat - 1) := by
  obtain ⟨p, hpr, hlap, hat⟩ := h.cached
  have hrq := h.le
  have hspace := hat.space_toNat hcap (hpr.trans hrq) hlap
  have hload : TxWrite.At cap
      { tx with cachedHead_ := block.status.head_, invalidated_ := false } r q :=
    ⟨hat.queue, hat.capacity, hat.tail, h.head⟩
  have hagain := hload.space_toNat hcap hrq (by omega)
  simp only [reserve, h.valid, Bool.false_eq_true, if_false, gt_iff_lt, UInt64.lt_iff_toNat_lt]
  split_ifs with hless hless'
  · simp only [exists_false, false_iff]
    omega
  · simp only [Except.ok.injEq, exists_eq', true_iff]
    omega
  · simp only [Except.ok.injEq, exists_eq', true_iff]
    omega

/-- An `imp_write` that fits stores the buffer from the local tail on and moves it. -/
theorem impWrite (h : tx.Ready cap block q r) (hcap : IsPowTwo cap) (core : Int32)
    (buffer : ℕ → UInt8) (hfits : q + size.toNat ≤ r + (cap.toNat - 1)) :
    (tx.impWrite block core buffer size).ok = true ∧
      (tx.impWrite block core buffer size).tx.Ready cap (tx.impWrite block core buffer size).block
        (q + size.toNat) r ∧
      (tx.impWrite block core buffer size).block.ring =
        image block.ring ((slotPairs cap.toNat q size.toNat).map fun x => (x.1, buffer x.2)) := by
  obtain ⟨p, hpr, hlap, hat⟩ := h.cached
  have hrq := h.le
  have hpos := hcap.pos
  obtain ⟨tx', hreserve⟩ := (h.reserve_iff hcap).2 hfits
  obtain ⟨-, hroom, htx'⟩ := reserve_eq_ok hreserve
  -- the head that the check has used in the end: the cached one, or the published one
  obtain ⟨p', hp', hp'r, hat'⟩ : ∃ p', p ≤ p' ∧ p' ≤ r ∧ tx'.At cap p' q := by
    subst htx'
    cases hload : tx.reloads size with
    | true => exact ⟨r, hpr, le_rfl, hat.queue, hat.capacity, hat.tail, h.head⟩
    | false => exact ⟨p, le_rfl, hpr, hat⟩
  have hspace := hat'.space_toNat hcap (hp'r.trans hrq) (by omega)
  rw [UInt64.le_iff_toNat_le, hspace] at hroom
  have hpairs := copies_pairs_of_pos hcap hat'.tail (show size.toNat < cap.toNat by omega)
  simp only [TxWrite.impWrite, hreserve]
  refine ⟨trivial, ⟨?_, ⟨p', hp'r, by omega, hat'.finish hcap size⟩, ?_, by omega⟩, ?_⟩
  · simp [htx', h.valid]
  · unfold Block.resetProducerCore
    split <;> exact h.head
  · rw [← hpairs, hat'.capacity]
    unfold Block.resetProducerCore
    split <;> exact foldl_copyIn _ _ _

/-- An `imp_write` that does not fit fails. -/
theorem impWrite_fails (h : tx.Ready cap block q r) (hcap : IsPowTwo cap) (core : Int32)
    (buffer : ℕ → UInt8) (hfull : r + (cap.toNat - 1) < q + size.toNat) :
    (tx.impWrite block core buffer size).ok = false ∧
      (tx.impWrite block core buffer size).tx.invalidated_ = true ∧
      (tx.impWrite block core buffer size).block.ring = block.ring := by
  cases hreserve : tx.reserve size block.status.head_ with
  | ok tx' => exact absurd ((h.reserve_iff hcap).1 ⟨tx', hreserve⟩) (by omega)
  | error tx' =>
      simp only [TxWrite.impWrite, hreserve, (reserve_eq_error hreserve).1]
      refine ⟨trivial, trivial, ?_⟩
      split <;> rfl

/-- An `imp_write` of some bytes that fit. -/
theorem impWrite_data (h : tx.Ready cap block q r) (hcap : IsPowTwo cap) (core : Int32)
    (data : List UInt8) (hfits : q + data.length ≤ r + (cap.toNat - 1)) :
    (tx.impWrite block core (data.getD · 0) (UInt64.ofNat data.length)).ok = true ∧
      (tx.impWrite block core (data.getD · 0) (UInt64.ofNat data.length)).tx.Ready cap
        (tx.impWrite block core (data.getD · 0) (UInt64.ofNat data.length)).block
        (q + data.length) r ∧
      (tx.impWrite block core (data.getD · 0) (UInt64.ofNat data.length)).block.ring =
        image block.ring (slotStores cap q data) := by
  have hle := hcap.le
  have hrq := h.le
  have hsize : (UInt64.ofNat data.length).toNat = data.length :=
    UInt64.toNat_ofNat_of_lt' (show data.length < 2 ^ 64 by omega)
  have hcall := h.impWrite hcap core (data.getD · 0) (by rwa [hsize])
  rw [hsize] at hcall
  have hstores : (slotPairs cap.toNat q data.length).map (fun x => (x.1, data.getD x.2 0)) =
      slotStores cap q data := by
    simp [slotPairs, slotStores]
  rwa [hstores] at hcall

end TxWrite.Ready

namespace TxRead.Ready

variable {tx : TxRead} {block : Block} {size : UInt64}

/-- The availability check succeeds exactly if the request ends at or before the tail. -/
theorem reserve_iff (h : tx.Ready cap block p r) (hcap : IsPowTwo cap) :
    (∃ tx', tx.reserve size block.status.tail_ = .ok tx') ↔ p + size.toNat ≤ r := by
  obtain ⟨q, hqr, hpq, hat⟩ := h.cached
  have hlap := h.lap
  have hdata := hat.data_toNat hcap hpq (by omega)
  have hload : TxRead.At cap
      { tx with cachedTail_ := block.status.tail_, invalidated_ := false } p r :=
    ⟨hat.queue, hat.capacity, hat.head, h.tail⟩
  have hagain := hload.data_toNat hcap (hpq.trans hqr) hlap
  simp only [reserve, h.valid, Bool.false_eq_true, if_false, gt_iff_lt, UInt64.lt_iff_toNat_lt]
  split_ifs with hless hless'
  · simp only [exists_false, false_iff]
    omega
  · simp only [Except.ok.injEq, exists_eq', true_iff]
    omega
  · simp only [Except.ok.injEq, exists_eq', true_iff]
    omega

/-- An `imp_read` of what is there returns the bytes from the local head on and moves it. -/
theorem impRead (h : tx.Ready cap block p r) (hcap : IsPowTwo cap) (core : Int32)
    (buffer : ℕ → UInt8) (hfits : p + size.toNat ≤ r) :
    (tx.impRead block core buffer size).ok = true ∧
      (tx.impRead block core buffer size).tx.Ready cap (tx.impRead block core buffer size).block
        (p + size.toNat) r ∧
      (tx.impRead block core buffer size).block.ring = block.ring ∧
      bytes (tx.impRead block core buffer size).buffer size =
        ringBytes cap block.ring p size.toNat := by
  obtain ⟨q, hqr, hpq, hat⟩ := h.cached
  have hlap := h.lap
  have hpos := hcap.pos
  obtain ⟨tx', hreserve⟩ := (h.reserve_iff hcap).2 hfits
  obtain ⟨-, hroom, htx'⟩ := reserve_eq_ok hreserve
  -- the tail that the check has used in the end: the cached one, or the published one
  obtain ⟨q', hq'r, hpq', hat'⟩ : ∃ q', q' ≤ r ∧ p ≤ q' ∧ tx'.At cap p q' := by
    subst htx'
    cases hload : tx.reloads size with
    | true => exact ⟨r, le_rfl, hpq.trans hqr, hat.queue, hat.capacity, hat.head, h.tail⟩
    | false => exact ⟨q, hqr, hpq, hat⟩
  rw [UInt64.le_iff_toNat_le, hat'.data_toNat hcap hpq' (by omega)] at hroom
  have hpairs := copies_pairs_of_pos hcap hat'.head (show size.toNat < cap.toNat by omega)
  simp only [TxRead.impRead, hreserve]
  refine ⟨trivial, ⟨?_, ⟨q', hq'r, by omega, hat'.finish hcap size⟩, ?_, by omega⟩, ?_, ?_⟩
  · simp [htx', h.valid]
  · unfold Block.resetConsumerCore
    split <;> exact h.tail
  · unfold Block.resetConsumerCore
    split <;> rfl
  · rw [foldl_copyOut, hat'.capacity, hpairs]
    refine List.map_congr_left ?_
    intro i hi
    simp only [slotPairs, List.map_map]
    exact image_map (f := fun j => j) hi fun j _ hj => by rw [hj]

/-- An `imp_read` of more than is there fails. -/
theorem impRead_fails (h : tx.Ready cap block p r) (hcap : IsPowTwo cap) (core : Int32)
    (buffer : ℕ → UInt8) (hshort : r < p + size.toNat) :
    (tx.impRead block core buffer size).ok = false ∧
      (tx.impRead block core buffer size).tx.invalidated_ = true ∧
      (tx.impRead block core buffer size).block.ring = block.ring := by
  cases hreserve : tx.reserve size block.status.tail_ with
  | ok tx' => exact absurd ((h.reserve_iff hcap).1 ⟨tx', hreserve⟩) (by omega)
  | error tx' =>
      simp only [TxRead.impRead, hreserve, (reserve_eq_error hreserve).1]
      refine ⟨trivial, trivial, ?_⟩
      split <;> rfl

end TxRead.Ready

end TxQueue
