import TxQueue.Concurrent.Calls
import TxQueue.Concurrent.Sides
import TxQueue.Library.LittleEndian
import TxQueue.QueueMp

/-!
# A rejected construction

The member initialiser of `tx_queue_mp_t` constructs the status block in place before the
constructor body makes its checks, so that a rejected block has been written to as well. The
transactions on a rejected queue are invalid from the start and touch nothing.
-/

namespace TxQueue

open Library

/-- The bytes of the address space. -/
abbrev Memory := UInt64 → UInt8

/-- The offsets of the members of `tx_queue_status_t`. -/
def offsetofTail : UInt64 := 0
def offsetofProducerCore : UInt64 := 8
def offsetofHead : UInt64 := 64
def offsetofConsumerCore : UInt64 := 72

/-- The addresses of `n` consecutive bytes. -/
def addresses (address : UInt64) (n : ℕ) : List UInt64 :=
  (List.range n).map fun i => address + UInt64.ofNat i

/-- The four bytes of an `int32_t`. -/
def le32 (x : Int32) : List UInt8 :=
  (List.range 4).map fun i => UInt8.ofNat (x.toUInt32.toNat / 256 ^ i)

/-- The `int32_t` that some bytes represent. -/
def ofLe32 (bs : List UInt8) : Int32 :=
  Int32.ofNat (bs.foldr (fun b n => b.toNat + 256 * n) 0)

/-- The byte stores that assign an `int32_t`. -/
def store32 (address : UInt64) (x : Int32) : List (UInt64 × UInt8) :=
  (addresses address 4).zip (le32 x)

/-- The status block at an address. -/
def Memory.status (m : Memory) (address : UInt64) : TxQueueStatus where
  tail_ := ofLe64 ((addresses (address + offsetofTail) 8).map m)
  producerCore_ := ofLe32 ((addresses (address + offsetofProducerCore) 4).map m)
  head_ := ofLe64 ((addresses (address + offsetofHead) 8).map m)
  consumerCore_ := ofLe32 ((addresses (address + offsetofConsumerCore) 4).map m)

/-- The stores of `new(p) tx_queue_status_t`. This form of `new` takes the address it is given, null
included, and the default initialisers store the two core hints there. -/
def placementNew (p : UInt64) : List (UInt64 × UInt8) :=
  store32 (p + offsetofProducerCore) (-1) ++ store32 (p + offsetofConsumerCore) (-1)

/-- What `tx_queue_mp_t::tx_queue_mp_t` leaves: the object with the address of `status_`, and the
byte stores it has made, in order. -/
structure Construction where
  queue : BaseTxQueue
  status_ : UInt64
  stores : List (UInt64 × UInt8)

/-- `tx_queue_mp_t::tx_queue_mp_t` with its effect on memory. -/
def constructMp (prealloc capacity : UInt64) : Construction where
  queue := txQueueMp prealloc capacity
  status_ := prealloc
  stores := placementNew prealloc

/-- Every transaction on the queue, on either side and against any other side, is invalid, and after
its constructor no step of it changes anything but the transaction itself. -/
structure BaseTxQueue.Inert (queue : BaseTxQueue) : Prop where
  producer : ∀ vis start w ts, Run (worldLts queue vis) start ts w →
    start.state.producer = .idle queue → ∀ t ∈ ts, t.event.ofProducer = true →
    t.target.state.producer.isValid = false ∧ (t.event = .openWrite ∨
      t.target.state = { t.source.state with producer := t.target.state.producer })
  consumer : ∀ vis start w ts, Run (worldLts queue vis) start ts w →
    start.state.consumer = .idle queue → ∀ t ∈ ts, t.event.ofProducer = false →
    t.target.state.consumer.isValid = false ∧ (t.event = .openRead ∨
      t.target.state = { t.source.state with consumer := t.target.state.consumer })

/-- A construction without effect: no byte has been stored at any address, and the transactions on
the object do nothing. -/
structure Construction.NoEffect (c : Construction) : Prop where
  stores : c.stores = []
  inert : c.queue.Inert

/-! ## The stores of the constructor -/

section Stores

variable {address a : UInt64}

/-- Different offsets of a block have different addresses. -/
theorem add_ofNat_ne {i j : ℕ} (hi : i < 2 ^ 64) (hj : j < 2 ^ 64) (hne : i ≠ j) :
    address + UInt64.ofNat i ≠ address + UInt64.ofNat j := by
  intro h
  have hsame := congrArg UInt64.toNat ((UInt64.add_right_inj address).1 h)
  rw [UInt64.toNat_ofNat', UInt64.toNat_ofNat', Nat.mod_eq_of_lt hi, Nat.mod_eq_of_lt hj] at hsame
  exact hne hsame

/-- The addresses behind an offset. -/
theorem addresses_add (address : UInt64) (k n : ℕ) :
    addresses (address + UInt64.ofNat k) n =
      (List.range' k n).map fun i => address + UInt64.ofNat i := by
  rw [addresses, List.range'_eq_map_range, List.map_map]
  refine List.map_congr_left ?_
  intro i _
  simp only [Function.comp_apply, UInt64.ofNat_add, UInt64.add_assoc]

/-- The stores of the constructor: -1 in each of the two core hints. -/
theorem placementNew_eq (p : UInt64) : placementNew p =
    (List.range' 8 4 ++ List.range' 72 4).map fun i => (p + UInt64.ofNat i, 255) := by
  have hproducer : p + offsetofProducerCore = p + UInt64.ofNat 8 := rfl
  have hconsumer : p + offsetofConsumerCore = p + UInt64.ofNat 72 := rfl
  rw [placementNew, store32, store32, hproducer, hconsumer, addresses_add, addresses_add]
  rfl

/-- A byte of the block after the constructor. -/
theorem image_placementNew (m : Memory) (p : UInt64) {i : ℕ} (hi : i < 2 ^ 64) :
    image m (placementNew p) (p + UInt64.ofNat i) =
      if i ∈ List.range' 8 4 ++ List.range' 72 4 then 255 else m (p + UInt64.ofNat i) := by
  rw [placementNew_eq]
  split
  · next hmem =>
      exact image_map (f := fun i => p + UInt64.ofNat i) (g := fun _ => 255) hmem fun _ _ _ => rfl
  · next hnot =>
      refine image_of_forall_ne ?_
      intro x hx
      obtain ⟨j, hj, rfl⟩ := List.mem_map.1 hx
      refine add_ofNat_ne ?_ hi fun hji => hnot (hji ▸ hj)
      simp only [List.mem_append, List.mem_range'_1] at hj
      omega

/-- On the status block they are what the default initialisers do. -/
theorem status_placementNew (m : Memory) (p : UInt64) :
    Memory.status (image m (placementNew p)) p = (Memory.status m p).construct := by
  have hindex : ∀ k, k = 0 ∨ k = 64 →
      (addresses (p + UInt64.ofNat k) 8).map (image m (placementNew p)) =
        (addresses (p + UInt64.ofNat k) 8).map m := by
    intro k hk
    rw [addresses_add, List.map_map, List.map_map]
    refine List.map_congr_left ?_
    intro i hi
    rw [List.mem_range'_1] at hi
    rw [Function.comp_apply, Function.comp_apply, image_placementNew m p (by omega), if_neg]
    simp only [List.mem_append, List.mem_range'_1]
    omega
  have hcore : ∀ k, k = 8 ∨ k = 72 →
      (addresses (p + UInt64.ofNat k) 4).map (image m (placementNew p)) = [255, 255, 255, 255] := by
    intro k hk
    have hall : ∀ i ∈ List.range' k 4,
        (image m (placementNew p) ∘ fun i => p + UInt64.ofNat i) i = 255 := by
      intro i hi
      rw [List.mem_range'_1] at hi
      rw [Function.comp_apply, image_placementNew m p (by omega), if_pos]
      simp only [List.mem_append, List.mem_range'_1]
      omega
    rw [addresses_add, List.map_map, List.map_congr_left hall, List.map_const']
    simp
  rw [Memory.status, TxQueueStatus.construct, TxQueueStatus.mk.injEq]
  refine ⟨congrArg ofLe64 (hindex 0 (Or.inl rfl)), ?_, congrArg ofLe64 (hindex 64 (Or.inr rfl)), ?_⟩
  · exact congrArg ofLe32 (hcore 8 (Or.inl rfl))
  · exact congrArg ofLe32 (hcore 72 (Or.inr rfl))

end Stores

/-! ## Transactions on a rejected queue -/

/-- The producer is on the queue, between transactions or in an invalid one. -/
def Producer.Shut (queue : BaseTxQueue) : Producer → Prop
  | .idle queue' => queue' = queue
  | .live tx => tx.queue_ = queue ∧ tx.invalidated_ = true
  | _ => False

/-- The consumer is on the queue, between transactions or in an invalid one. -/
def Consumer.Shut (queue : BaseTxQueue) : Consumer → Prop
  | .idle queue' => queue' = queue
  | .live tx => tx.queue_ = queue ∧ tx.invalidated_ = true
  | _ => False

section Steps

variable {queue : BaseTxQueue} {vis : Visibility} {s s' : System} {e : Event}

theorem Producer.Shut.isValid {p : Producer} (h : p.Shut queue) : p.isValid = false := by
  cases p with
  | live tx => simp [Producer.isValid, TxWrite.toBool, h.2]
  | copying => exact h.elim
  | _ => rfl

theorem Consumer.Shut.isValid {p : Consumer} (h : p.Shut queue) : p.isValid = false := by
  cases p with
  | live tx => simp [Consumer.isValid, TxRead.toBool, h.2]
  | copying => exact h.elim
  | _ => rfl

/-- A step of the producer on a queue that is not ok: it goes on so, and unless it opens a
transaction it changes nothing else. -/
theorem Producer.Shut.step (hok : queue.isOk = false) (h : s.producer.Shut queue)
    (hstep : Step vis s e s') (he : e.ofProducer = true) :
    s'.producer.Shut queue ∧ (e = .openWrite ∨ s' = { s with producer := s'.producer }) := by
  cases hstep with
  | openWrite k hle hlt hside =>
      rw [hside] at h
      obtain rfl := h
      exact ⟨⟨rfl, by simp [TxWrite.construct, hok]⟩, Or.inl rfl⟩
  | beginWrite buffer size k hle hlt hside hreserve =>
      rw [hside] at h
      exact absurd (TxWrite.reserve_eq_ok hreserve).1 (by simp [h.2])
  | refuseWrite buffer size k core hle hlt hside hreserve =>
      rw [hside] at h
      obtain ⟨hinvalid, -, htx'⟩ := TxWrite.reserve_eq_error hreserve
      refine ⟨⟨by rw [htx']; exact h.1, hinvalid⟩, Or.inr ?_⟩
      -- an invalid transaction does not reload the head
      simp [TxWrite.reloads, h.2, Channel.acquireIf]
  | copyIn hside => rw [hside] at h; exact h.elim
  | wrote hside => rw [hside] at h; exact h.elim
  | invalidateWrite hside =>
      rw [hside] at h
      exact ⟨⟨h.1, rfl⟩, Or.inr rfl⟩
  | closeWrite hside =>
      rw [hside] at h
      refine ⟨h.1, Or.inr ?_⟩
      simp [h.2]
  | _ => cases he

/-- The same for the consumer. -/
theorem Consumer.Shut.step (hok : queue.isOk = false) (h : s.consumer.Shut queue)
    (hstep : Step vis s e s') (he : e.ofProducer = false) :
    s'.consumer.Shut queue ∧ (e = .openRead ∨ s' = { s with consumer := s'.consumer }) := by
  cases hstep with
  | openRead k hle hlt hside =>
      rw [hside] at h
      obtain rfl := h
      exact ⟨⟨rfl, by simp [TxRead.construct, hok]⟩, Or.inl rfl⟩
  | beginRead buffer size k hle hlt hside hreserve =>
      rw [hside] at h
      exact absurd (TxRead.reserve_eq_ok hreserve).1 (by simp [h.2])
  | refuseRead size k core hle hlt hside hreserve =>
      rw [hside] at h
      obtain ⟨hinvalid, -, htx'⟩ := TxRead.reserve_eq_error hreserve
      refine ⟨⟨by rw [htx']; exact h.1, hinvalid⟩, Or.inr ?_⟩
      simp [TxRead.reloads, h.2, Channel.acquireIf]
  | copyOut hside => rw [hside] at h; exact h.elim
  | read hside => rw [hside] at h; exact h.elim
  | invalidateRead hside =>
      rw [hside] at h
      exact ⟨⟨h.1, rfl⟩, Or.inr rfl⟩
  | closeRead hside =>
      rw [hside] at h
      refine ⟨h.1, Or.inr ?_⟩
      simp [h.2]
  | _ => cases he

/-- The transactions on a queue that is not ok do nothing. -/
theorem inert_of_not_ok (hok : queue.isOk = false) : queue.Inert := by
  constructor
  · intro vis start w ts hrun hstart t ht he
    have hmem := hrun.invariant_of_mem (I := fun w => w.state.producer.Shut queue)
      (by rw [hstart]; rfl) ?_ t ht
    · obtain ⟨hsource, ⟨hstep, -⟩, htarget⟩ := hmem
      exact ⟨htarget.isValid, (hsource.step hok hstep he).2⟩
    · rintro ⟨s, h⟩ e ⟨s', h'⟩ hs ⟨hstep, -⟩
      cases he : e.ofProducer with
      | true => exact (hs.step hok hstep he).1
      | false =>
          show s'.producer.Shut queue
          rw [hstep.producer_eq he]
          exact hs
  · intro vis start w ts hrun hstart t ht he
    have hmem := hrun.invariant_of_mem (I := fun w => w.state.consumer.Shut queue)
      (by rw [hstart]; rfl) ?_ t ht
    · obtain ⟨hsource, ⟨hstep, -⟩, htarget⟩ := hmem
      exact ⟨htarget.isValid, (hsource.step hok hstep he).2⟩
    · rintro ⟨s, h⟩ e ⟨s', h'⟩ hs ⟨hstep, -⟩
      cases he : e.ofProducer with
      | true =>
          show s'.consumer.Shut queue
          rw [hstep.consumer_eq he]
          exact hs
      | false => exact (hs.step hok hstep he).1

end Steps

/-- A construction that ends not ok is without effect if and only if it does not end so, for the
stores come before the checks. The transactions on the object do nothing even so. -/
theorem constructMp_iff (address size : UInt64) :
    (((constructMp address size).queue.isOk = false → (constructMp address size).NoEffect) ↔
      ValidAddress address ∧ (size = sizeofTxQueueStatus ∨ ValidSize size) ∧
        address + sizeofTxQueueStatus ≠ 0) ∧
    ((constructMp address size).queue.isOk = false → (constructMp address size).queue.Inert) := by
  refine ⟨?_, inert_of_not_ok⟩
  rw [← txQueueMp_isOk_iff]
  constructor
  · intro hnone
    by_contra hnot
    have hstores := (hnone (Bool.eq_false_iff.2 hnot)).stores
    have hlength := congrArg List.length hstores
    simp [constructMp, placementNew_eq] at hlength
  · intro hok hnot
    exact absurd hok (by rw [show (txQueueMp address size).isOk = false from hnot]; simp)

/-- Of a block of 200 bytes at an aligned address the ring would have 72 bytes. The constructor
rejects it, and has changed a byte of it before. A null address is written through as well. -/
theorem rejected_block_written : ∃ c, c = constructMp 4096 200 ∧ c.queue.isOk = false ∧
    image (fun _ => 0) c.stores (4096 + 8) = 255 ∧
    (0 + 8, 255) ∈ (constructMp 0 200).stores ∧ (4096 + 72, 255) ∈ (constructMp 4096 4).stores ∧
    ¬ (c.queue.isOk = false → c.NoEffect) := by
  refine ⟨_, rfl, rfl, ?_, ?_, ?_, ?_⟩
  · exact (image_placementNew (fun _ => 0) 4096 (by decide : 8 < 2 ^ 64)).trans (if_pos (by decide))
  · decide
  · decide
  · intro hnone
    exact absurd (hnone rfl).stores (by decide)

end TxQueue
