import TxQueue.Library.Refinement
import TxQueue.Library.TransactionalQueue
import TxQueue.Concurrent.Bounds
import TxQueue.Concurrent.Capacity
import TxQueue.Concurrent.Sides

/-!
# The ring is a transactional queue

What the memory stands for can be read off the memory alone. The bytes between the published indices
are queued, and those between a published index and the local one of an open transaction are the
bytes of the transaction. Seen like this, the steps of the two sides are those of a transactional
queue for `capacity()` bytes: a call of `imp_write` or `imp_read` has its effect in one step, and
whatever happens inside it does not show. Processes that die and are replaced show nothing else.
-/

namespace TxQueue

open Library

/-- The bytes of the ring from one index to another. -/
def Block.between (cap : UInt64) (block : Block) (first last : UInt64) : List UInt8 :=
  ringBytes cap block.ring first.toNat (filledSlots cap.toNat last.toNat first.toNat)

/-- The producer's transaction, by the bytes that it has written. -/
def Producer.draft (data : TxWrite → List UInt8) : Producer → Draft UInt8
  | .live tx => .ofValid tx.toBool (data tx)
  | .copying tx _ _ _ => .ofValid tx.toBool (data tx)
  | _ => .closed

/-- The consumer's transaction, by the bytes that it has read. -/
def Consumer.draft (data : TxRead → List UInt8) : Consumer → Draft UInt8
  | .live tx => .ofValid tx.toBool (data tx)
  | .copying tx _ _ _ => .ofValid tx.toBool (data tx)
  | _ => .closed

/-- What the memory and the two local indices stand for. -/
def System.transactional (cap : UInt64) (s : System) : TransactionalQueue UInt8 where
  queued := s.block.unread cap
  writer := s.producer.draft fun tx => s.block.between cap s.block.status.tail_ tx.tail_
  reader := s.consumer.draft fun tx => s.block.between cap s.block.status.head_ tx.head_

/-- What a step shows of the transactions. -/
def Event.transaction : Event → Option (TransactionEvent UInt8)
  | .openWrite => some .openWrite
  | .wrote data => some (.put data)
  | .refuseWrite _ => some .failWrite
  | .invalidateWrite => some .failWrite
  | .closeWrite published => some (.closeWrite published)
  | .killProducer => some .crashWrite
  | .openRead => some .openRead
  | .read data => some (.take data)
  | .refuseRead _ => some .failRead
  | .invalidateRead => some .failRead
  | .closeRead published => some (.closeRead published)
  | .killConsumer => some .crashRead
  | _ => none

@[simp]
theorem Event.transaction_closeWrite (published : Bool) :
    (Event.closeWrite published).transaction = some (.closeWrite published) :=
  rfl

@[simp]
theorem Event.transaction_closeRead (published : Bool) :
    (Event.closeRead published).transaction = some (.closeRead published) :=
  rfl

/-- The history without the boundaries between the transactions. -/
def History.ledger (h : History) : Ledger UInt8 where
  written := h.written.flatten
  writing := h.writing
  consumed := h.consumed.flatten
  reading := h.reading

/-- What a state and its history stand for. -/
def World.transactional (cap : UInt64) (w : World) :
    Observed (TransactionalQueue UInt8) (Ledger UInt8) :=
  ⟨w.state.transactional cap, w.log.ledger⟩

/-- What a state stands for by its history. -/
def World.account (w : World) : TransactionalQueue UInt8 where
  queued := w.log.stream.drop w.log.head
  writer := w.state.producer.draft fun _ => w.log.writing
  reader := w.state.consumer.draft fun _ => w.log.reading

/-! ## Memory and history -/

section Memory

variable {cap : UInt64} {w : World} {block : Block} {first last : UInt64} {p q : ℕ}

/-- Between indices less than a lap apart are the bytes of the positions. -/
theorem Block.between_eq (hcap : IsPowTwo cap) (hfirst : first.toNat = p % cap.toNat)
    (hlast : last.toNat = q % cap.toNat) (hle : p ≤ q) (hlap : q ≤ p + (cap.toNat - 1)) :
    block.between cap first last = ringBytes cap block.ring p (q - p) := by
  let moved : Block := ⟨block.ring, ⟨last, -1, first, -1⟩⟩
  have hspans : moved.Spans cap p q := ⟨hfirst, hlast, hle, hlap⟩
  exact hspans.unread_eq hcap

/-- From the published tail to the local one stand the bytes of the open write transaction. -/
theorem Invariant.between_tail (hcap : IsPowTwo cap) (hi : Invariant cap w) {tx : TxWrite}
    (hat : tx.At cap w.seenHead w.log.localTail) :
    w.state.block.between cap w.state.block.status.tail_ tx.tail_ = w.log.writing := by
  have hspace := hi.indices.space
  have hseen := Indices.seenHead_le w
  have horder := hi.indices.head_le_tail
  have hlocal : w.log.localTail = w.log.tail + w.log.writing.length := rfl
  rw [Block.between_eq hcap hi.indices.spans.tail hat.tail (by omega) (by omega), hlocal,
    Nat.add_sub_cancel_left]
  refine List.ext_getElem (by simp) ?_
  intro i hleft hright
  have hb : w.log.writing[i]? = some w.log.writing[i] := List.getElem?_eq_getElem hright
  have hring := hi.contents.writing i _ hb
  simp only [ringBytes, List.getElem_map, List.getElem_range]
  exact hring

/-- From the published head to the local one stand the bytes of the open read transaction. -/
theorem Invariant.between_head (hcap : IsPowTwo cap) (hi : Invariant cap w) {tx : TxRead}
    (hat : tx.At cap w.log.localHead w.seenTail) :
    w.state.block.between cap w.state.block.status.head_ tx.head_ = w.log.reading := by
  have hdata := hi.indices.data
  have hseen := Indices.seenTail_le w
  have hlap := hi.indices.tail_le
  have hlocal : w.log.localHead = w.log.head + w.log.reading.length := rfl
  rw [Block.between_eq hcap hi.indices.spans.head hat.head (by omega) (by omega), hlocal,
    Nat.add_sub_cancel_left]
  refine (hi.contents.ringBytes_unread hi.indices le_rfl (by omega)).trans ?_
  obtain ⟨later, hlater⟩ := hi.reads.read
  rw [← hlater, List.append_assoc, History.head, List.drop_left, List.take_left]

/-- What the memory stands for is what has happened. -/
theorem Invariant.transactional_eq (hcap : IsPowTwo cap) (hi : Invariant cap w) :
    w.state.transactional cap = w.account := by
  have hproducer := hi.indices.producer
  have hconsumer := hi.indices.consumer
  unfold System.transactional World.account
  congr 1
  · exact hi.unread_eq hcap
  · cases hside : w.state.producer with
    | live tx =>
        rw [hside] at hproducer
        simp only [Producer.draft, hi.between_tail hcap hproducer]
    | copying tx buffer size rest =>
        rw [hside] at hproducer
        simp only [Producer.draft, hi.between_tail hcap hproducer.1]
    | _ => rfl
  · cases hside : w.state.consumer with
    | live tx =>
        rw [hside] at hconsumer
        simp only [Consumer.draft, hi.between_head hcap hconsumer]
    | copying tx buffer size rest =>
        rw [hside] at hconsumer
        simp only [Consumer.draft, hi.between_head hcap hconsumer.1]
    | _ => rfl

end Memory

/-! ## The steps -/

section Steps

variable {cap : UInt64} {vis : Visibility} {ok : Bool → Prop} {s s' : System} {h : History}
  {e : Event}

/-- The ledger of a history goes with the events that are shown. -/
theorem History.ledger_record (h : History) (e : Event) :
    (h.record e).ledger = (e.transaction.map h.ledger.record).getD h.ledger := by
  cases e with
  | closeWrite published =>
      cases published <;> simp [ledger, record, Ledger.record]
  | closeRead published =>
      cases published <;> simp [ledger, record, Ledger.record]
  | _ => rfl

/-- The bytes of an `imp_write` that comes to its end fit behind the queued ones. -/
theorem Indices.room_of_wrote {data : List UInt8} (hcap : IsPowTwo cap) (hi : Indices cap ⟨s, h⟩)
    (hstep : Step vis s (.wrote data) s') :
    (h.stream.drop h.head).length + (h.writing ++ data).length ≤ cap.toNat - 1 := by
  have hnext := hi.step hcap hstep
  have hspace := hnext.space
  have hseen := seenHead_le ⟨s', h.record (.wrote data)⟩
  have hlocal : (h.record (.wrote data)).localTail =
      h.stream.length + (h.writing ++ data).length := rfl
  have hhead : (h.record (.wrote data)).head = h.head := rfl
  have horder : h.head ≤ h.stream.length := hi.head_le_tail
  rw [List.length_drop]
  simp only at hspace hseen
  omega

/-- What an `imp_read` returns are the queued bytes behind those that the transaction has read. -/
theorem Reads.isPrefix_of_read {data : List UInt8} (hi : Reads cap ⟨s', h.record (.read data)⟩) :
    h.reading ++ data <+: h.stream.drop h.head := by
  obtain ⟨later, hlater⟩ := hi.read
  change h.consumed.flatten ++ (h.reading ++ data) ++ later = h.stream at hlater
  rw [← hlater, List.append_assoc, History.head, List.drop_left]
  exact List.prefix_append _ _

/-- A step of the producer is a step of the writer, or does not show. -/
theorem Step.follows_write (hcap : IsPowTwo cap) (hi : Indices cap ⟨s, h⟩)
    (hbounded : Bounded (fun queue => ok queue.isOk) cap.toNat s) (hstep : Step vis s e s')
    (he : e.ofProducer = true) :
    (queueLts UInt8 (cap.toNat - 1) ok).Follows (World.account ⟨s, h⟩) e.transaction
      (World.account ⟨s', h.record e⟩) := by
  have hproducer := hi.producer
  have horder : h.head ≤ h.written.flatten.length := hi.head_le_tail
  cases hstep with
  | @openWrite queue k hle hlt hside =>
      have hqueue : ok queue.isOk := by simpa [hside, Producer.Bounded] using hbounded.producer
      rw [hside] at hproducer
      have hdraft : (Producer.live (.construct queue s.down.latest s.up.releases[k].value)).draft
          (fun _ => h.writing) = .ofValid queue.isOk [] := by
        simp [Producer.draft, TxWrite.toBool, TxWrite.construct,
          show h.writing = [] from hproducer.2]
      have hopen : TransactionStep (cap.toNat - 1) ok (World.account ⟨s, h⟩) .openWrite
          { World.account ⟨s, h⟩ with writer := .ofValid queue.isOk [] } :=
        .openWrite (by simp [World.account, hside, Producer.draft]) hqueue
      rwa [← hdraft] at hopen
  | @beginWrite tx tx' buffer size k hle hlt hside hreserve =>
      obtain ⟨-, -, rfl⟩ := TxWrite.reserve_eq_ok hreserve
      exact .silent (by simp [World.account, hside, Producer.draft, TxWrite.toBool,
        History.record])
  | @refuseWrite tx tx' buffer size k core hle hlt hside hreserve =>
      have hdraft : (Producer.live tx').draft (fun _ => h.writing) = .doomed := by
        simp [Producer.draft, TxWrite.toBool, (TxWrite.reserve_eq_error hreserve).1, Draft.ofValid]
      have hfail : TransactionStep (cap.toNat - 1) ok (World.account ⟨s, h⟩) .failWrite
          { World.account ⟨s, h⟩ with writer := .doomed } :=
        .failWrite (by simp [World.account, hside, Producer.draft, Draft.ofValid_ne_closed])
      rwa [← hdraft] at hfail
  | @copyIn tx buffer size c c' rest hside =>
      exact .silent (by simp [World.account, hside, Producer.draft, History.record])
  | @wrote tx buffer size c hside =>
      have hroom := hi.room_of_wrote hcap (.wrote hside : Step vis s _ _)
      rw [hside] at hproducer
      have hactive : (World.account ⟨s, h⟩).writer = .active h.writing := by
        simp [World.account, hside, Producer.draft, TxWrite.toBool, hproducer.2, Draft.ofValid]
      have hdraft : (Producer.live (tx.finish size)).draft
          (fun _ => h.writing ++ bytes buffer size) = .active (h.writing ++ bytes buffer size) := by
        simp [Producer.draft, TxWrite.toBool, TxWrite.finish, hproducer.2, Draft.ofValid]
      have hput : TransactionStep (cap.toNat - 1) ok (World.account ⟨s, h⟩)
          (.put (bytes buffer size))
          { World.account ⟨s, h⟩ with writer := .active (h.writing ++ bytes buffer size) } :=
        .put hactive hroom
      rwa [← hdraft] at hput
  | @invalidateWrite tx hside =>
      exact .failWrite (by simp [World.account, hside, Producer.draft, Draft.ofValid_ne_closed])
  | @closeWrite tx hside =>
      cases hvalid : tx.toBool with
      | true =>
          have hactive : (World.account ⟨s, h⟩).writer = .active h.writing := by
            simp [World.account, hside, Producer.draft, hvalid, Draft.ofValid]
          have hstream : (h.record (.closeWrite true)).stream.drop h.head =
              h.stream.drop h.head ++ h.writing := by
            simp [History.record, History.stream, List.drop_append_of_le_length horder]
          have hcommit : TransactionStep (cap.toNat - 1) ok (World.account ⟨s, h⟩)
              (.closeWrite true) _ := .commitWrite hactive
          simp only [World.account] at hcommit
          rwa [← hstream] at hcommit
      | false =>
          exact .dropWrite (by simp [World.account, hside, Producer.draft, hvalid, Draft.ofValid])
  | _ => cases he

/-- A step of the consumer is a step of the reader, or does not show. -/
theorem Step.follows_read (hi : Indices cap ⟨s, h⟩)
    (hbounded : Bounded (fun queue => ok queue.isOk) cap.toNat s)
    (hreads : Reads cap ⟨s', h.record e⟩) (hstep : Step vis s e s') (he : e.ofProducer = false) :
    (queueLts UInt8 (cap.toNat - 1) ok).Follows (World.account ⟨s, h⟩) e.transaction
      (World.account ⟨s', h.record e⟩) := by
  have hconsumer := hi.consumer
  cases hstep with
  | @openRead queue k hle hlt hside =>
      have hqueue : ok queue.isOk := by simpa [hside, Consumer.Bounded] using hbounded.consumer
      rw [hside] at hconsumer
      have hdraft : (Consumer.live (.construct queue s.up.latest s.down.releases[k].value)).draft
          (fun _ => h.reading) = .ofValid queue.isOk [] := by
        simp [Consumer.draft, TxRead.toBool, TxRead.construct,
          show h.reading = [] from hconsumer.2]
      have hopen : TransactionStep (cap.toNat - 1) ok (World.account ⟨s, h⟩) .openRead
          { World.account ⟨s, h⟩ with reader := .ofValid queue.isOk [] } :=
        .openRead (by simp [World.account, hside, Consumer.draft]) hqueue
      rwa [← hdraft] at hopen
  | @beginRead tx tx' buffer size k hle hlt hside hreserve =>
      obtain ⟨-, -, rfl⟩ := TxRead.reserve_eq_ok hreserve
      exact .silent (by simp [World.account, hside, Consumer.draft, TxRead.toBool,
        History.record])
  | @refuseRead tx tx' size k core hle hlt hside hreserve =>
      have hdraft : (Consumer.live tx').draft (fun _ => h.reading) = .doomed := by
        simp [Consumer.draft, TxRead.toBool, (TxRead.reserve_eq_error hreserve).1, Draft.ofValid]
      have hfail : TransactionStep (cap.toNat - 1) ok (World.account ⟨s, h⟩) .failRead
          { World.account ⟨s, h⟩ with reader := .doomed } :=
        .failRead (by simp [World.account, hside, Consumer.draft, Draft.ofValid_ne_closed])
      rwa [← hdraft] at hfail
  | @copyOut tx buffer m size c c' rest hside hsees =>
      exact .silent (by simp [World.account, hside, Consumer.draft, History.record])
  | @read tx buffer m size c hside hsees =>
      rw [hside] at hconsumer
      have hactive : (World.account ⟨s, h⟩).reader = .active h.reading := by
        simp [World.account, hside, Consumer.draft, TxRead.toBool, hconsumer.2, Draft.ofValid]
      have hdraft : (Consumer.live (tx.finish size)).draft
          (fun _ => h.reading ++ bytes (c.copyOut m buffer) size) =
            .active (h.reading ++ bytes (c.copyOut m buffer) size) := by
        simp [Consumer.draft, TxRead.toBool, TxRead.finish, hconsumer.2, Draft.ofValid]
      have htake : TransactionStep (cap.toNat - 1) ok (World.account ⟨s, h⟩)
          (.take (bytes (c.copyOut m buffer) size))
          { World.account ⟨s, h⟩ with
            reader := .active (h.reading ++ bytes (c.copyOut m buffer) size) } :=
        .take hactive hreads.isPrefix_of_read
      rwa [← hdraft] at htake
  | @invalidateRead tx hside =>
      exact .failRead (by simp [World.account, hside, Consumer.draft, Draft.ofValid_ne_closed])
  | @closeRead tx hside =>
      cases hvalid : tx.toBool with
      | true =>
          have hactive : (World.account ⟨s, h⟩).reader = .active h.reading := by
            simp [World.account, hside, Consumer.draft, hvalid, Draft.ofValid]
          have hstream : h.stream.drop (h.record (.closeRead true)).head =
              (h.stream.drop h.head).drop h.reading.length := by
            simp [History.record, History.head]
          have hcommit : TransactionStep (cap.toNat - 1) ok (World.account ⟨s, h⟩)
              (.closeRead true) _ := .commitRead hactive
          simp only [World.account] at hcommit
          rwa [← hstream] at hcommit
      | false =>
          exact .dropRead (by simp [World.account, hside, Consumer.draft, hvalid, Draft.ofValid])
  | _ => cases he

/-- A step of either side is a step of the transactional queue, or does not show. -/
theorem Step.follows (hcap : IsPowTwo cap) (hi : Indices cap ⟨s, h⟩)
    (hbounded : Bounded (fun queue => ok queue.isOk) cap.toNat s)
    (hreads : Reads cap ⟨s', h.record e⟩) (hstep : Step vis s e s') :
    (queueLts UInt8 (cap.toNat - 1) ok).Follows (World.account ⟨s, h⟩) e.transaction
      (World.account ⟨s', h.record e⟩) := by
  cases he : e.ofProducer with
  | true => exact hstep.follows_write hcap hi hbounded he
  | false => exact hstep.follows_read hi hbounded hreads he

end Steps

/-! ## Runs -/

/-- The start of a queue is an empty transactional queue. -/
theorem World.transactional_of_initial {queue : RingQueue} {start : World}
    (hstart : (worldLts queue.toBaseTxQueue .everyLoad).initial start) :
    start.transactional queue.capacity_ = ⟨.empty, {}⟩ := by
  have hi := Invariant.of_initial hstart
  obtain ⟨s, h⟩ := start
  obtain ⟨hs, rfl⟩ := hstart
  have hproducer : s.producer = .idle queue.toBaseTxQueue := hs.producer
  have hconsumer : s.consumer = .idle queue.toBaseTxQueue := hs.consumer
  rw [World.transactional, hi.transactional_eq queue.isPowTwo]
  simp [World.account, hproducer, hconsumer, Producer.draft, Consumer.draft,
    TransactionalQueue.empty, History.stream, History.ledger]

/-- The producer and the consumer on a queue, as a transactional queue. -/
def ringRefinement (queue : RingQueue) : Refinement (worldLts queue.toBaseTxQueue .everyLoad)
    (transactionalLts UInt8 (queue.capacity_.toNat - 1) (· = queue.isOk)) where
  invariant w := Invariant queue.capacity_ w ∧
    Bounded (·.isOk = queue.isOk) queue.capacity_.toNat w.state
  abstract := World.transactional queue.capacity_
  visible := Event.transaction
  of_initial start hstart := by
    have htransactional := World.transactional_of_initial hstart
    have hi := Invariant.of_initial hstart
    obtain ⟨hs, -⟩ := hstart
    refine ⟨⟨hi, ?_, ?_⟩, ?_⟩
    · simp [hs.producer, Producer.Bounded]
    · simp [hs.consumer, Consumer.Bounded]
    · rw [htransactional]
      exact ⟨rfl, rfl⟩
  of_step w e w' hi hstep := by
    obtain ⟨hi, hbounded⟩ := hi
    have hnext := hi.step hstep
    obtain ⟨s, h⟩ := w
    obtain ⟨s', h'⟩ := w'
    obtain ⟨hs, rfl⟩ := hstep
    refine ⟨⟨hnext, hbounded.step queue.isPowTwo hi.indices hs⟩, ?_⟩
    rw [World.transactional, World.transactional, hi.transactional_eq queue.isPowTwo,
      hnext.transactional_eq queue.isPowTwo]
    exact (hs.follows queue.isPowTwo hi.indices hbounded hnext.reads).observe (h.ledger_record e)

/-- Every step of two processes keeps the three invariants. -/
theorem Invariant.processStep {size : UInt64} {w w' : World} {e : Event} (hsize : ValidSize size)
    (hi : Invariant (size - sizeofTxQueueStatus) w) (hstep : (processLts size).step w e w') :
    Invariant (size - sizeofTxQueueStatus) w' := by
  obtain ⟨s', h'⟩ := w'
  obtain ⟨hs, rfl⟩ := hstep
  exact ⟨hi.indices.processStep hsize rfl hs, hi.contents.processStep hsize.isPowTwo hi.indices hs,
    hi.reads.processStep hsize.isPowTwo hi.indices hi.contents hs⟩

/-- A step of a process is a step of the transactional queue, or does not show. -/
theorem ProcessStep.follows {cap size : UInt64} {s s' : System} {h : History} {e : Event}
    (hcap : IsPowTwo cap) (hi : Indices cap ⟨s, h⟩) (hbounded : Bounded (fun _ => True) cap.toNat s)
    (hreads : Reads cap ⟨s', h.record e⟩) (hstep : ProcessStep size s e s') :
    (queueLts UInt8 (cap.toNat - 1) fun _ => True).Follows (World.account ⟨s, h⟩) e.transaction
      (World.account ⟨s', h.record e⟩) := by
  cases hstep with
  | use hstep => exact hstep.follows hcap hi hbounded hreads
  | killProducer torn htorn => exact .crashWrite
  | killConsumer => exact .crashRead
  | attachProducer address haddress hside =>
      exact .silent (by simp [World.account, hside, Producer.draft, History.record])
  | attachConsumer address haddress hside =>
      exact .silent (by simp [World.account, hside, Consumer.draft, History.record])

/-- Processes on a block, as a transactional queue. -/
def processRefinement {size : UInt64} (hsize : ValidSize size) : Refinement (processLts size)
    (transactionalLts UInt8 ((size - sizeofTxQueueStatus).toNat - 1) fun _ => True) where
  invariant w := Invariant (size - sizeofTxQueueStatus) w ∧
    Bounded (fun _ => True) (size - sizeofTxQueueStatus).toNat w.state
  abstract := World.transactional (size - sizeofTxQueueStatus)
  visible := Event.transaction
  of_initial start hstart := by
    obtain ⟨s, h⟩ := start
    obtain ⟨rfl, rfl⟩ := hstart
    refine ⟨⟨.zeroed, trivial, trivial⟩, ?_, rfl⟩
    exact Invariant.zeroed.transactional_eq hsize.isPowTwo
  of_step w e w' hi hstep := by
    obtain ⟨hi, hbounded⟩ := hi
    have hnext := hi.processStep hsize hstep
    obtain ⟨s, h⟩ := w
    obtain ⟨s', h'⟩ := w'
    obtain ⟨hs, rfl⟩ := hstep
    refine ⟨⟨hnext, hbounded.processStep hsize rfl hi.indices (fun _ _ => trivial) hs⟩, ?_⟩
    rw [World.transactional, World.transactional, hi.transactional_eq hsize.isPowTwo,
      hnext.transactional_eq hsize.isPowTwo]
    exact (hs.follows hsize.isPowTwo hi.indices hbounded hnext.reads).observe (h.ledger_record e)

/-- Every run on a queue is a run of a transactional queue for `capacity()` bytes, with the same
transactions in the same order, that ends in what the memory stands for. -/
theorem refines_transactional (queue : RingQueue) {start w : World}
    {ts : List (Transition World Event)}
    (hstart : (worldLts queue.toBaseTxQueue .everyLoad).initial start)
    (hrun : Run (worldLts queue.toBaseTxQueue .everyLoad) start ts w) :
    ∃ us, Run (transactionalLts UInt8 queue.capacity.toNat (· = queue.isOk)) ⟨.empty, {}⟩ us
        (w.transactional queue.capacity_) ∧
      us.map Transition.event = (ts.map Transition.event).filterMap Event.transaction := by
  obtain ⟨us, -, hus, hevents⟩ := (ringRefinement queue).run hstart hrun
  have hcapacity : queue.capacity.toNat = queue.capacity_.toNat - 1 :=
    sub_one_toNat queue.isPowTwo.pos
  refine ⟨us, ?_, hevents⟩
  rw [hcapacity, ← World.transactional_of_initial hstart]
  exact hus

/-- `refines_transactional` on a run that commits two bytes and reads one of them. -/
theorem refines_transactional_half_read : ∃ us w,
    Run (transactionalLts UInt8 smallQueue.capacity.toNat (· = smallQueue.isOk)) ⟨.empty, {}⟩ us
        (World.transactional smallQueue.capacity_ w) ∧
      us.map Transition.event =
        [.openWrite, .put [7, 7], .closeWrite true, .openRead, .take [7]] := by
  have h0 : Run (worldLts smallQueue.toBaseTxQueue .everyLoad)
    (freshWorld smallQueue.toBaseTxQueue) [] _ := .nil
  have h1 := h0.andThen (.openWrite 0 (by decide) (by decide) rfl)
  have h2 := h1.andThen (.beginWrite (fun _ => 7) 2 0 (by decide) (by decide) rfl rfl)
  have h3 := h2.andThen (.wrote rfl)
  have h4 := h3.andThen (.closeWrite rfl)
  have h5 := h4.andThen (.openRead 1 (by decide) (by decide) rfl)
  have h6 := h5.andThen (.beginRead (fun _ => 0) 1 1 (by decide) (by decide) rfl rfl)
  have h7 := h6.andThen (.read rfl (Channel.sees_image _ _ _))
  obtain ⟨us, hus, hevents⟩ := refines_transactional smallQueue
    (freshWorld_initial smallQueue.toBaseTxQueue .everyLoad) h7
  exact ⟨us, _, hus, hevents⟩

section Processes

variable {size : UInt64} {start w w' : World} {ts us : List (Transition World Event)}

/-- The laws of a transactional queue hold in every run of two processes. -/
theorem accounted_of_run (hsize : ValidSize size) (hstart : (processLts size).initial start)
    (hrun : Run (processLts size) start ts w) :
    Accounted ((size - sizeofTxQueueStatus).toNat - 1)
      (w.transactional (size - sizeofTxQueueStatus)) := by
  obtain ⟨us, hinitial, hus, -⟩ := (processRefinement hsize).run hstart hrun
  exact .of_run hinitial hus

/-- Two bytes are committed. A consumer reads the first one and dies, and the next reads both. -/
theorem crashed_reader_run : ∃ ts w us w', Run (processLts 132) ⟨System.zeroed, {}⟩ ts w ∧
    Run (processLts 132) w us w' ∧ w.log.reading = [7] ∧ w'.log.written = [[7, 8]] ∧
    w'.log.consumed = [] ∧ w'.log.reading = [7, 8] ∧ ∀ u ∈ us, u.event ≠ .closeRead true := by
  have haddress : ValidAddress 4096 := ⟨by decide, by decide⟩
  have h0 : Run (processLts 132) ⟨System.zeroed, {}⟩ [] _ := .nil
  have h1 := h0.andThen (.attachProducer 4096 haddress rfl)
  have h2 := h1.andThen (.use (.openWrite 0 (by decide) (by decide) rfl))
  have h3 := h2.andThen
    (.use (.beginWrite (fun i => if i = 0 then 7 else 8) 2 0 (by decide) (by decide) rfl rfl))
  have h4 := h3.andThen (.use (.wrote rfl))
  have h5 := h4.andThen (.use (.closeWrite rfl))
  have h6 := h5.andThen (.attachConsumer 4096 haddress rfl)
  have h7 := h6.andThen (.use (.openRead 1 (by decide) (by decide) rfl))
  have h8 := h7.andThen (.use (.beginRead (fun _ => 0) 1 1 (by decide) (by decide) rfl rfl))
  have h9 := h8.andThen (.use (.read rfl (Channel.sees_image _ _ _)))
  have h10 := h9.rest.andThen .killConsumer
  have h11 := h10.andThen (.attachConsumer 8192 ⟨by decide, by decide⟩ rfl)
  have h12 := h11.andThen (.use (.openRead 1 (by decide) (by decide) rfl))
  have h13 := h12.andThen (.use (.beginRead (fun _ => 0) 2 1 (by decide) (by decide) rfl rfl))
  have h14 := h13.andThen (.use (.read rfl (Channel.sees_image _ _ _)))
  exact ⟨_, _, _, _, h9, h14, by decide +kernel, by decide +kernel, rfl, by decide +kernel,
    by simp⟩

/-- Every run in which processes die and are replaced is a run of a transactional queue, in which a
transaction ends without a commit where its process dies and nothing else shows. -/
theorem processes_refine (size : UInt64) (hsize : ValidSize size)
    (hstart : (processLts size).initial start) (hrun : Run (processLts size) start ts w) :
    ∃ us, Run (transactionalLts UInt8 ((size - sizeofTxQueueStatus).toNat - 1) fun _ => True)
        ⟨.empty, {}⟩ us (w.transactional (size - sizeofTxQueueStatus)) ∧
      us.map Transition.event = (ts.map Transition.event).filterMap Event.transaction := by
  obtain ⟨us, ⟨hstate, hlog⟩, hus, hevents⟩ := (processRefinement hsize).run hstart hrun
  have hempty : (processRefinement hsize).abstract start = ⟨.empty, {}⟩ :=
    congrArg₂ Observed.mk hstate hlog
  rw [hempty] at hus
  exact ⟨us, hus, hevents⟩

/-- `processes_refine` on a run in which a consumer dies. -/
theorem processes_refine_crashed_reader : ∃ us w,
    Run (transactionalLts UInt8 3 fun _ => True) ⟨.empty, {}⟩ us (World.transactional 4 w) ∧
      w.log.reading = [7, 8] := by
  obtain ⟨ts, w, us, w', hrun, hlater, -, -, -, hreading, -⟩ := crashed_reader_run
  obtain ⟨vs, hvs, -⟩ := processes_refine 132 ⟨2, rfl⟩ ⟨rfl, rfl⟩ (hrun.append hlater)
  exact ⟨vs, w', hvs, hreading⟩

/-- In every run in which processes die and are replaced, what the committed write transactions have
written is what the committed read transactions have read and what stands in the ring between the
published indices. That is never more than `capacity()` bytes, with those of the open write
transaction, and an open read transaction has read the first of them. -/
theorem conservation (size : UInt64) (hsize : ValidSize size)
    (hstart : (processLts size).initial start) (hrun : Run (processLts size) start ts w) :
    w.log.written.flatten =
        w.log.consumed.flatten ++ w.state.block.unread (size - sizeofTxQueueStatus) ∧
      (w.state.block.unread (size - sizeofTxQueueStatus)).length +
          (w.state.transactional (size - sizeofTxQueueStatus)).writer.items.length ≤
        (size - sizeofTxQueueStatus).toNat - 1 ∧
      w.log.reading <+: w.state.block.unread (size - sizeofTxQueueStatus) := by
  have hi := accounted_of_run hsize hstart hrun
  exact ⟨hi.stream, hi.room, hi.reading⟩

/-- `conservation` on a run in which a consumer dies. -/
theorem conservation_crashed_reader : ∃ ts w, Run (processLts 132) ⟨System.zeroed, {}⟩ ts w ∧
    w.state.block.unread 4 = [7, 8] := by
  obtain ⟨ts, w, us, w', hrun, hlater, -, hwritten, hconsumed, -⟩ := crashed_reader_run
  obtain ⟨hbytes, -, -⟩ := conservation 132 ⟨2, rfl⟩ ⟨rfl, rfl⟩ (hrun.append hlater)
  rw [hwritten, hconsumed] at hbytes
  exact ⟨_, w', hrun.append hlater, hbytes.symm⟩

/-- As long as no read transaction commits, every consumer process reads the same bytes again,
whether the read transactions before were refused, invalidated or lost with their process. -/
theorem reread (size : UInt64) (hsize : ValidSize size)
    (hstart : (processLts size).initial start) (hrun : Run (processLts size) start ts w)
    (hlater : Run (processLts size) w us w') (hcommits : ∀ u ∈ us, u.event ≠ .closeRead true) :
    w.log.reading <+: w'.log.reading ∨ w'.log.reading <+: w.log.reading := by
  have hinvariant := (processRefinement hsize).invariant_of_run
    ((processRefinement hsize).of_initial start hstart).1 hrun
  obtain ⟨vs, hvs, hevents⟩ := (processRefinement hsize).follow hinvariant hlater
  refine (accounted_of_run hsize hstart hrun).comparable hvs ?_
  intro v hv hevent
  have hmem := List.mem_map_of_mem (f := Transition.event) hv
  rw [hevents, hevent] at hmem
  obtain ⟨e, he, hshown⟩ := List.mem_filterMap.1 hmem
  obtain ⟨u, hu, rfl⟩ := List.mem_map.1 he
  refine hcommits u hu ?_
  change u.event.transaction = some (.closeRead true) at hshown
  generalize u.event = e at hshown
  cases e with
  | closeRead published =>
      simp only [Event.transaction_closeRead, Option.some.injEq,
        TransactionEvent.closeRead.injEq] at hshown
      rw [hshown]
  | _ => cases hshown

/-- `reread` on a run in which a consumer dies and the next one reads on. -/
theorem reread_crashed_reader : ∃ ts us w w', Run (processLts 132) ⟨System.zeroed, {}⟩ ts w ∧
    Run (processLts 132) w us w' ∧ w.log.reading = [7] ∧ w'.log.reading = [7, 8] ∧
    (w.log.reading <+: w'.log.reading ∨ w'.log.reading <+: w.log.reading) := by
  obtain ⟨ts, w, us, w', hrun, hlater, hreading, -, -, hreading', hcommits⟩ := crashed_reader_run
  exact ⟨ts, us, w, w', hrun, hlater, hreading, hreading',
    reread 132 ⟨2, rfl⟩ ⟨rfl, rfl⟩ hrun hlater hcommits⟩

end Processes

end TxQueue
