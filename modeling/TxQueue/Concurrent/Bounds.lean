import TxQueue.Concurrent.Reattach
import TxQueue.Transaction.Reference

/-!
# Bounds of the ring accesses

Every byte of the ring that a run touches, it touches in a `memcpy` of `imp_write` or `imp_read`.
The copies of a call are fixed when it passes its availability check, and they stay within the ring
because the local index and the size are below the capacity by then.
-/

namespace TxQueue

open Library

/-- A `memcpy` on the ring that `storage` points to, in a transaction on `queue`. -/
structure Access where
  queue : BaseTxQueue
  storage : UInt64
  copy : Memcpy
  deriving DecidableEq

/-- The `memcpy` that comes next in `imp_write`. -/
def Producer.access : Producer → Option Access
  | .copying tx _ _ (c :: _) => some ⟨tx.queue_, tx.storage_, c⟩
  | _ => none

/-- The `memcpy` that comes next in `imp_read`. -/
def Consumer.access : Consumer → Option Access
  | .copying tx _ _ (c :: _) => some ⟨tx.queue_, tx.storage_, c⟩
  | _ => none

/-- The ring access of a step with a given event. -/
def System.access (s : System) : Event → Option Access
  | .copyIn => s.producer.access
  | .wrote _ => s.producer.access
  | .copyOut => s.consumer.access
  | .read _ => s.consumer.access
  | _ => none

/-- An access within the first `size` bytes of the ring of its queue. -/
structure Access.Within (a : Access) (size : ℕ) : Prop where
  storage : a.storage = a.queue.storage_
  le : a.copy.ring.toNat + a.copy.count.toNat ≤ size

/-- The producer works on one of the queues `P`, and the copies it has still to make stay within
`size` bytes. -/
def Producer.Bounded (P : BaseTxQueue → Prop) (size : ℕ) : Producer → Prop
  | .detached => True
  | .idle queue => P queue
  | .live tx => P tx.queue_ ∧ tx.storage_ = tx.queue_.storage_
  | .copying tx _ _ rest => (P tx.queue_ ∧ tx.storage_ = tx.queue_.storage_) ∧
      ∀ c ∈ rest, c.ring.toNat + c.count.toNat ≤ size

/-- The consumer works on one of the queues `P`, and the copies it has still to make stay within
`size` bytes. -/
def Consumer.Bounded (P : BaseTxQueue → Prop) (size : ℕ) : Consumer → Prop
  | .detached => True
  | .idle queue => P queue
  | .live tx => P tx.queue_ ∧ tx.storage_ = tx.queue_.storage_
  | .copying tx _ _ rest => (P tx.queue_ ∧ tx.storage_ = tx.queue_.storage_) ∧
      ∀ c ∈ rest, c.ring.toNat + c.count.toNat ≤ size

/-- The bounds of both sides. -/
structure Bounded (P : BaseTxQueue → Prop) (size : ℕ) (s : System) : Prop where
  producer : s.producer.Bounded P size
  consumer : s.consumer.Bounded P size

variable {P : BaseTxQueue → Prop} {cap : UInt64} {s s' : System} {h : History} {e : Event}

/-- What a side within the bounds accesses. -/
theorem Bounded.within {size : ℕ} {a : Access} (hb : Bounded P size s)
    (ha : s.access e = some a) : P a.queue ∧ a.Within size := by
  have hside : s.producer.access = some a ∨ s.consumer.access = some a := by
    cases e <;> simp_all [System.access]
  rcases hside with hside | hside
  · have hproducer := hb.producer
    unfold Producer.access at hside
    split at hside
    · next hcopying =>
        cases hside
        rw [hcopying] at hproducer
        exact ⟨hproducer.1.1, hproducer.1.2, hproducer.2 _ List.mem_cons_self⟩
    · cases hside
  · have hconsumer := hb.consumer
    unfold Consumer.access at hside
    split at hside
    · next hcopying =>
        cases hside
        rw [hcopying] at hconsumer
        exact ⟨hconsumer.1.1, hconsumer.1.2, hconsumer.2 _ List.mem_cons_self⟩
    · cases hside

/-- The copies of an `imp_write` that has passed its check. -/
theorem Indices.copies_in (hcap : IsPowTwo cap) (hi : Indices cap ⟨s, h⟩) {tx : TxWrite}
    {buffer : ℕ → UInt8} {size : UInt64} {rest : List Memcpy}
    (hside : s.producer = .copying tx buffer size rest) :
    ∀ c ∈ copies tx.tail_ tx.capacity_ size, c.ring.toNat + c.count.toNat ≤ cap.toNat := by
  have hpending := hi.producer_pending_le
  have hplaced := hi.producer
  have hpos := hcap.pos
  simp only [hside, Producer.pending, Producer.Placed] at hpending hplaced
  intro c hc
  rw [hplaced.1.capacity] at hc
  exact (copies_within hcap (hplaced.1.tail ▸ Nat.mod_lt _ hpos) (by omega) c hc).1

/-- The copies of an `imp_read` that has passed its check. -/
theorem Indices.copies_out (hcap : IsPowTwo cap) (hi : Indices cap ⟨s, h⟩) {tx : TxRead}
    {buffer : ℕ → UInt8} {size : UInt64} {rest : List Memcpy}
    (hside : s.consumer = .copying tx buffer size rest) :
    ∀ c ∈ copies tx.head_ tx.capacity_ size, c.ring.toNat + c.count.toNat ≤ cap.toNat := by
  have hpending := hi.consumer_pending_le
  have hplaced := hi.consumer
  have hpos := hcap.pos
  simp only [hside, Consumer.pending, Consumer.Placed] at hpending hplaced
  intro c hc
  rw [hplaced.1.capacity] at hc
  exact (copies_within hcap (hplaced.1.head ▸ Nat.mod_lt _ hpos) (by omega) c hc).1

/-- Every step of a transaction keeps the bounds. -/
theorem Bounded.step {vis : Visibility} (hcap : IsPowTwo cap) (hi : Indices cap ⟨s, h⟩)
    (hb : Bounded P cap.toNat s) (hstep : Step vis s e s') : Bounded P cap.toNat s' := by
  have hnext := hi.step hcap hstep
  have hproducer := hb.producer
  have hconsumer := hb.consumer
  cases hstep with
  | openWrite k hle hlt hside =>
      rw [hside] at hproducer
      exact ⟨⟨hproducer, rfl⟩, hconsumer⟩
  | beginWrite buffer size k hle hlt hside hreserve =>
      rw [hside] at hproducer
      refine ⟨⟨?_, hnext.copies_in hcap rfl⟩, hconsumer⟩
      rw [(TxWrite.reserve_eq_ok hreserve).2.2]
      exact hproducer
  | refuseWrite buffer size k core hle hlt hside hreserve =>
      rw [hside] at hproducer
      refine ⟨?_, hconsumer⟩
      rw [(TxWrite.reserve_eq_error hreserve).2.2]
      exact hproducer
  | copyIn hside =>
      rw [hside] at hproducer
      exact ⟨⟨hproducer.1, fun c hc => hproducer.2 c (List.mem_cons_of_mem _ hc)⟩, hconsumer⟩
  | wrote hside =>
      rw [hside] at hproducer
      exact ⟨hproducer.1, hconsumer⟩
  | invalidateWrite hside =>
      rw [hside] at hproducer
      exact ⟨hproducer, hconsumer⟩
  | closeWrite hside =>
      rw [hside] at hproducer
      exact ⟨hproducer.1, hconsumer⟩
  | openRead k hle hlt hside =>
      rw [hside] at hconsumer
      exact ⟨hproducer, hconsumer, rfl⟩
  | beginRead buffer size k hle hlt hside hreserve =>
      rw [hside] at hconsumer
      refine ⟨hproducer, ?_, hnext.copies_out hcap rfl⟩
      rw [(TxRead.reserve_eq_ok hreserve).2.2]
      exact hconsumer
  | refuseRead size k core hle hlt hside hreserve =>
      rw [hside] at hconsumer
      refine ⟨hproducer, ?_⟩
      rw [(TxRead.reserve_eq_error hreserve).2.2]
      exact hconsumer
  | copyOut hside =>
      rw [hside] at hconsumer
      exact ⟨hproducer, hconsumer.1, fun c hc => hconsumer.2 c (List.mem_cons_of_mem _ hc)⟩
  | read hside =>
      rw [hside] at hconsumer
      exact ⟨hproducer, hconsumer.1⟩
  | invalidateRead hside =>
      rw [hside] at hconsumer
      exact ⟨hproducer, hconsumer⟩
  | closeRead hside =>
      rw [hside] at hconsumer
      exact ⟨hproducer, hconsumer.1⟩

/-- So does the death of a process and its replacement. -/
theorem Bounded.processStep {size : UInt64} (hsize : ValidSize size)
    (hcap : cap = size - sizeofTxQueueStatus) (hi : Indices cap ⟨s, h⟩)
    (hqueues : ∀ address, ValidAddress address → P (txQueueMp address size))
    (hb : Bounded P cap.toNat s) (hstep : ProcessStep size s e s') :
    Bounded P cap.toNat s' := by
  cases hstep with
  | use hstep => exact hb.step (hcap ▸ hsize.isPowTwo) hi hstep
  | killProducer => exact ⟨trivial, hb.consumer⟩
  | attachProducer address haddress => exact ⟨hqueues address haddress, hb.consumer⟩
  | killConsumer => exact ⟨hb.producer, trivial⟩
  | attachConsumer address haddress => exact ⟨hb.producer, hqueues address haddress⟩

/-- In every run on a fresh queue whose capacity is a power of two, each `memcpy` stays within the
ring. -/
theorem within_of_run {queue : BaseTxQueue} {vis : Visibility} {start w : World}
    {ts : List (Transition World Event)} (hcap : IsPowTwo queue.capacity_)
    (hstart : (worldLts queue vis).initial start) (hrun : Run (worldLts queue vis) start ts w) :
    ∀ t ∈ ts, ∀ a, t.source.state.access t.event = some a →
      a.queue = queue ∧ a.Within queue.capacity_.toNat := by
  intro t ht a ha
  have hmem := hrun.invariant_of_mem
    (I := fun w => Indices queue.capacity_ w ∧ Bounded (· = queue) queue.capacity_.toNat w.state)
    ?_ ?_ t ht
  · exact hmem.1.2.within ha
  · obtain ⟨s, h⟩ := start
    obtain ⟨hfresh, rfl⟩ := hstart
    refine ⟨.of_fresh hfresh, ?_, ?_⟩
    · rw [hfresh.producer]
      exact rfl
    · rw [hfresh.consumer]
      exact rfl
  · rintro ⟨s, h⟩ e ⟨s', h'⟩ ⟨hi, hb⟩ ⟨hstep, rfl⟩
    exact ⟨hi.step hcap hstep, hb.step hcap hi hstep⟩

/-- In every run of processes on a zeroed block, each `memcpy` stays within the ring behind the
address at which its process has mapped the block. -/
theorem within_of_process_run {size : UInt64} {start w : World}
    {ts : List (Transition World Event)} (hsize : ValidSize size)
    (hstart : (processLts size).initial start) (hrun : Run (processLts size) start ts w) :
    ∀ t ∈ ts, ∀ a, t.source.state.access t.event = some a →
      (∃ address, ValidAddress address ∧ a.queue = txQueueMp address size) ∧
        a.Within (size - sizeofTxQueueStatus).toNat := by
  intro t ht a ha
  have hmem := hrun.invariant_of_mem
    (I := fun w => Indices (size - sizeofTxQueueStatus) w ∧
      Bounded (fun queue => ∃ address, ValidAddress address ∧ queue = txQueueMp address size)
        (size - sizeofTxQueueStatus).toNat w.state)
    ?_ ?_ t ht
  · exact hmem.1.2.within ha
  · obtain ⟨s, h⟩ := start
    obtain ⟨rfl, rfl⟩ := hstart
    exact ⟨Invariant.zeroed.indices, trivial, trivial⟩
  · rintro ⟨s, h⟩ e ⟨s', h'⟩ ⟨hi, hb⟩ ⟨hstep, rfl⟩
    exact ⟨hi.processStep hsize rfl hstep,
      hb.processStep hsize rfl hi (fun address haddress => ⟨address, haddress, rfl⟩) hstep⟩

end TxQueue
