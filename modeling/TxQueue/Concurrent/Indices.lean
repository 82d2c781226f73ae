import TxQueue.Library.Stream
import TxQueue.Concurrent.System
import TxQueue.Transaction.Positions

/-!
# The index invariant

Every value that `tail_` or `head_` has held is the end of a committed transaction, modulo the
capacity, and the two sides' own copies are stream positions modulo the capacity as well. What
makes the modular formulas exact is that a side never gets more than the capacity ahead of what it
has itself observed: the producer's local tail, counting an `imp_write` in progress, is less than a
lap past the newest head it has read, and the consumer's local head is not past the newest tail it
has read. Coherence keeps the bound through stale loads. The invariant does not depend on which
bytes are visible.
-/

namespace TxQueue

open Library

/-- The modification order of an index: it starts at 0 and then holds the end of each committed
transaction. -/
structure Tracks (cap : UInt64) (rs : List (Release UInt64)) (txs : List (List UInt8)) : Prop where
  length : rs.length = txs.length + 1
  value : ∀ k (hk : k < rs.length), rs[k].value.toNat = boundary txs k % cap.toNat

/-- The number of bytes that an `imp_write` in progress will have written. -/
def Producer.pending : Producer → ℕ
  | .copying _ _ size _ => size.toNat
  | _ => 0

/-- The number of bytes that an `imp_read` in progress will have read. -/
def Consumer.pending : Consumer → ℕ
  | .copying _ _ size _ => size.toNat
  | _ => 0

/-- The producer's state fits the positions `p` of the head it observed and `q` of its local tail,
and the bytes of its open transaction. -/
def Producer.Placed (cap : UInt64) (p q : ℕ) (writing : List UInt8) : Producer → Prop
  | .detached => writing = []
  | .idle queue => queue.capacity_ = cap ∧ writing = []
  | .live tx => tx.At cap p q
  | .copying tx _ _ _ => tx.At cap p q ∧ tx.invalidated_ = false

/-- The consumer's state fits the positions `p` of its local head and `q` of the tail it observed,
and the bytes of its open transaction. -/
def Consumer.Placed (cap : UInt64) (p q : ℕ) (reading : List UInt8) : Consumer → Prop
  | .detached => reading = []
  | .idle queue => queue.capacity_ = cap ∧ reading = []
  | .live tx => tx.At cap p q
  | .copying tx _ _ _ => tx.At cap p q ∧ tx.invalidated_ = false

/-- The stream position of the newest head the producer has observed. -/
def World.seenHead (w : World) : ℕ := boundary w.log.consumed w.state.up.observed

/-- The stream position of the newest tail the consumer has observed. -/
def World.seenTail (w : World) : ℕ := boundary w.log.written w.state.down.observed

/-- The index invariant. -/
structure Indices (cap : UInt64) (w : World) : Prop where
  tails : Tracks cap w.state.down.releases w.log.written
  heads : Tracks cap w.state.up.releases w.log.consumed
  space : w.log.localTail + w.state.producer.pending ≤ w.seenHead + (cap.toNat - 1)
  data : w.log.localHead + w.state.consumer.pending ≤ w.seenTail
  producer : w.state.producer.Placed cap w.seenHead w.log.localTail w.log.writing
  consumer : w.state.consumer.Placed cap w.log.localHead w.seenTail w.log.reading

namespace Tracks

variable {cap v : UInt64} {rs : List (Release UInt64)} {txs : List (List UInt8)}
  {data : List UInt8} {n k : ℕ}

/-- No commit yet. -/
theorem init {α : Type*} : Tracks cap (Channel.init 0 : Channel α UInt64).releases [] :=
  ⟨rfl, fun k hk => by simp [Channel.init, boundary]⟩

/-- One more commit. -/
theorem release (h : Tracks cap rs txs)
    (hv : v.toNat = (txs.flatten.length + data.length) % cap.toNat) :
    Tracks cap (rs ++ [⟨v, n⟩]) (txs ++ [data]) := by
  have hlen := h.length
  refine ⟨by simp [hlen], ?_⟩
  intro k hk
  by_cases hlt : k < rs.length
  · rw [List.getElem_append_left hlt, boundary_append (by omega)]
    exact h.value k hlt
  · obtain rfl : k = rs.length := by simp at hk; omega
    rw [List.getElem_append_right le_rfl]
    simp only [Nat.sub_self, List.getElem_cons_zero, hv]
    rw [show rs.length = (txs ++ [data]).length by simp [hlen], boundary_length]
    simp

/-- The last value of the index is the end of the last committed transaction. -/
theorem latest {α : Type*} {c : Channel α UInt64} (h : Tracks cap c.releases txs) :
    c.latest.toNat = txs.flatten.length % cap.toNat := by
  have hlast : c.last = txs.length := by simp [Channel.last, h.length]
  rw [Channel.latest_eq c.last_lt, h.value _ c.last_lt, hlast, boundary_length]

/-- A place in the modification order is a number of committed transactions. -/
theorem le_length (h : Tracks cap rs txs) (hk : k < rs.length) : k ≤ txs.length := by
  have := h.length
  omega

end Tracks

namespace Indices

variable {cap : UInt64} {w : World}

/-- The consumer has observed no tail that was not published. -/
theorem seenTail_le (w : World) : w.seenTail ≤ w.log.tail := boundary_le _ _

/-- The producer has observed no head that was not published. -/
theorem seenHead_le (w : World) : w.seenHead ≤ w.log.head := boundary_le _ _

/-- The published head is not past the published tail. -/
theorem head_le_tail (h : Indices cap w) : w.log.head ≤ w.log.tail := by
  have hdata := h.data
  have htail := seenTail_le w
  unfold History.localHead at hdata
  omega

/-- The published tail is less than a lap past the published head. -/
theorem tail_le (h : Indices cap w) : w.log.tail ≤ w.log.head + (cap.toNat - 1) := by
  have hspace := h.space
  have hhead := seenHead_le w
  unfold History.localTail at hspace
  omega

/-- An `imp_write` in progress leaves the spare slot free. -/
theorem producer_pending_le (h : Indices cap w) : w.state.producer.pending ≤ cap.toNat - 1 := by
  have hspace := h.space
  have hhead := seenHead_le w
  have htail := h.head_le_tail
  unfold History.localTail at hspace
  omega

/-- An `imp_read` in progress reads less than a lap. -/
theorem consumer_pending_le (h : Indices cap w) : w.state.consumer.pending ≤ cap.toNat - 1 := by
  have hdata := h.data
  have htail := seenTail_le w
  have hlap := h.tail_le
  unfold History.localHead at hdata
  omega

end Indices

/-! ## Preservation -/

namespace Indices

variable {cap : UInt64} {vis : Visibility} {s s' : System} {h : History} {e : Event}

/-- A fresh queue satisfies the index invariant. -/
theorem of_fresh {queue : BaseTxQueue} (hs : s.IsFresh queue) :
    Indices queue.capacity_ ⟨s, {}⟩ where
  tails := by
    rw [hs.down]
    exact .init
  heads := by
    rw [hs.up]
    exact .init
  space := by simp [hs.producer, Producer.pending, History.localTail, History.tail]
  data := by simp [hs.consumer, Consumer.pending, History.localHead, History.head]
  producer := by simp [hs.producer, Producer.Placed]
  consumer := by simp [hs.consumer, Consumer.Placed]

section Write

variable {data : List UInt8} {published : Bool}

/-- A write transaction starts at the published tail, with some published head not older than the
one observed before. -/
theorem openWrite (hi : Indices cap ⟨s, h⟩) (hstep : Step vis s .openWrite s') :
    Indices cap ⟨s', h⟩ := by
  have hspace := hi.space
  have hproducer := hi.producer
  simp only [World.seenHead] at hspace hproducer
  cases hstep with
  | @openWrite queue k hle hlt hside =>
      have hmono := boundary_mono h.consumed hle
      simp only [hside, Producer.pending, Producer.Placed] at hspace hproducer
      obtain ⟨hqueue, hwriting⟩ := hproducer
      refine ⟨hi.tails, hi.heads, ?_, hi.data, ?_, hi.consumer⟩
      · show h.localTail + 0 ≤ boundary h.consumed k + (cap.toNat - 1)
        omega
      · have hlocal : h.localTail = h.tail := by simp [History.localTail, hwriting]
        refine ⟨hqueue, hqueue, ?_, hi.heads.value k hlt⟩
        show s.down.latest.toNat = h.localTail % cap.toNat
        rw [hlocal]
        exact hi.tails.latest

/-- An `imp_write` passes the availability check only if its bytes fit into the lap past the head
that the producer has observed by then. -/
theorem beginWrite (hcap : IsPowTwo cap) (hi : Indices cap ⟨s, h⟩)
    (hstep : Step vis s (.beginWrite data) s') : Indices cap ⟨s', h⟩ := by
  have hspace := hi.space
  have hproducer := hi.producer
  have hheadtail : h.head ≤ h.tail := hi.head_le_tail
  have hlocalTail : h.localTail = h.tail + h.writing.length := rfl
  simp only [World.seenHead] at hspace hproducer
  cases hstep with
  | @beginWrite tx tx' buffer size k hle hlt hside hreserve =>
      simp only [hside, Producer.pending, Producer.Placed] at hspace hproducer
      obtain ⟨hat, hvalid⟩ := hproducer.reserve_ok (hi.heads.value k hlt) hreserve
      have hroom := UInt64.le_iff_toNat_le.1 (TxWrite.reserve_eq_ok hreserve).2.1
      -- a reload moves the observed head forward, so the bound from before still holds
      have hmono := boundary_mono h.consumed (le_ite (tx.reloads size) hle)
      have hseen : _ ≤ h.head :=
        boundary_le h.consumed (if tx.reloads size then k else s.up.observed)
      rw [hat.space_toNat hcap (by omega) (by omega)] at hroom
      refine ⟨hi.tails, hi.heads, ?_, hi.data, ?_, hi.consumer⟩
      · simp only [World.seenHead, Channel.acquireIf_observed, Producer.pending]
        omega
      · simpa [World.seenHead, Producer.Placed] using ⟨hat, hvalid⟩

/-- An `imp_write` that fails has observed a head not older than before. -/
theorem refuseWrite (hi : Indices cap ⟨s, h⟩) (hstep : Step vis s (.refuseWrite data) s') :
    Indices cap ⟨s', h⟩ := by
  have hspace := hi.space
  have hproducer := hi.producer
  simp only [World.seenHead] at hspace hproducer
  cases hstep with
  | @refuseWrite tx tx' buffer size k core hle hlt hside hreserve =>
      simp only [hside, Producer.pending, Producer.Placed] at hspace hproducer
      have hat := hproducer.reserve_error (hi.heads.value k hlt) hreserve
      have hmono := boundary_mono h.consumed (le_ite (tx.reloads size) hle)
      refine ⟨hi.tails, hi.heads, ?_, hi.data, ?_, hi.consumer⟩
      · simp only [World.seenHead, Channel.acquireIf_observed, Producer.pending]
        omega
      · simpa [World.seenHead, Producer.Placed] using hat

/-- The last `memcpy` of an `imp_write` moves the local tail by the size of the write. -/
theorem wrote (hcap : IsPowTwo cap) (hi : Indices cap ⟨s, h⟩)
    (hstep : Step vis s (.wrote data) s') : Indices cap ⟨s', h.record (.wrote data)⟩ := by
  have hspace := hi.space
  have hproducer := hi.producer
  simp only [World.seenHead] at hspace hproducer
  cases hstep with
  | @wrote tx buffer size c hside =>
      simp only [hside, Producer.pending, Producer.Placed] at hspace hproducer
      have hlocal : (h.record (.wrote (bytes buffer size))).localTail =
          h.localTail + size.toNat := by
        simp [History.record, History.localTail, History.tail]
        omega
      refine ⟨hi.tails, hi.heads, ?_, hi.data, ?_, hi.consumer⟩
      · show (h.record _).localTail + 0 ≤ boundary h.consumed s.up.observed + (cap.toNat - 1)
        omega
      · show (tx.finish size).At cap _ _
        rw [hlocal]
        exact hproducer.1.finish hcap size

/-- The destructor of a valid write transaction publishes its local tail, and that of an invalid
one publishes nothing. -/
theorem closeWrite (hi : Indices cap ⟨s, h⟩) (hstep : Step vis s (.closeWrite published) s') :
    Indices cap ⟨s', h.record (.closeWrite published)⟩ := by
  have hspace := hi.space
  have hproducer := hi.producer
  have hlocalTail : h.localTail = h.tail + h.writing.length := rfl
  simp only [World.seenHead] at hspace hproducer
  cases hstep with
  | @closeWrite tx hside =>
      simp only [hside, Producer.pending, Producer.Placed] at hspace hproducer
      cases hinv : tx.invalidated_ with
      | true =>
          simp only [TxWrite.toBool, hinv, Bool.not_true, if_true]
          refine ⟨hi.tails, hi.heads, ?_, hi.data, ⟨hproducer.queue, rfl⟩, hi.consumer⟩
          show h.tail + 0 + 0 ≤ boundary h.consumed s.up.observed + (cap.toNat - 1)
          omega
      | false =>
          simp only [TxWrite.toBool, hinv, Bool.not_false, Bool.false_eq_true, if_false]
          -- the tail the consumer has observed is an older one
          have hseen : boundary (h.written ++ [h.writing]) s.down.observed =
              boundary h.written s.down.observed :=
            boundary_append (hi.tails.le_length s.down.observed_lt)
          refine ⟨hi.tails.release hproducer.tail, hi.heads, ?_, ?_, ⟨hproducer.queue, rfl⟩, ?_⟩
          · show (h.written ++ [h.writing]).flatten.length + 0 + 0 ≤
              boundary h.consumed s.up.observed + (cap.toNat - 1)
            simpa [hlocalTail, History.tail] using hspace
          · show h.localHead + s.consumer.pending ≤
              boundary (h.written ++ [h.writing]) s.down.observed
            rw [hseen]
            exact hi.data
          · show s.consumer.Placed cap h.localHead
              (boundary (h.written ++ [h.writing]) s.down.observed) h.reading
            rw [hseen]
            exact hi.consumer

end Write

section Read

variable {data : List UInt8} {size : UInt64} {published : Bool}

/-- A read transaction starts at the published head, with some published tail not older than the
one observed before. -/
theorem openRead (hi : Indices cap ⟨s, h⟩) (hstep : Step vis s .openRead s') :
    Indices cap ⟨s', h⟩ := by
  have hdata := hi.data
  have hconsumer := hi.consumer
  simp only [World.seenTail] at hdata hconsumer
  cases hstep with
  | @openRead queue k hle hlt hside =>
      have hmono := boundary_mono h.written hle
      simp only [hside, Consumer.pending, Consumer.Placed] at hdata hconsumer
      obtain ⟨hqueue, hreading⟩ := hconsumer
      refine ⟨hi.tails, hi.heads, hi.space, ?_, hi.producer, ?_⟩
      · show h.localHead + 0 ≤ boundary h.written k
        omega
      · have hlocal : h.localHead = h.head := by simp [History.localHead, hreading]
        refine ⟨hqueue, hqueue, ?_, hi.tails.value k hlt⟩
        show s.up.latest.toNat = h.localHead % cap.toNat
        rw [hlocal]
        exact hi.heads.latest

/-- An `imp_read` passes the availability check only if its bytes lie below the tail that the
consumer has observed by then. -/
theorem beginRead (hcap : IsPowTwo cap) (hi : Indices cap ⟨s, h⟩)
    (hstep : Step vis s (.beginRead size) s') : Indices cap ⟨s', h⟩ := by
  have hdata := hi.data
  have hconsumer := hi.consumer
  have htail : h.tail ≤ h.head + (cap.toNat - 1) := hi.tail_le
  have hlocalHead : h.localHead = h.head + h.reading.length := rfl
  simp only [World.seenTail] at hdata hconsumer
  cases hstep with
  | @beginRead tx tx' buffer size k hle hlt hside hreserve =>
      simp only [hside, Consumer.pending, Consumer.Placed] at hdata hconsumer
      obtain ⟨hat, hvalid⟩ := hconsumer.reserve_ok (hi.tails.value k hlt) hreserve
      have hroom := UInt64.le_iff_toNat_le.1 (TxRead.reserve_eq_ok hreserve).2.1
      -- a reload moves the observed tail forward, so the bound from before still holds
      have hmono := boundary_mono h.written (le_ite (tx.reloads size) hle)
      have hseen : _ ≤ h.tail :=
        boundary_le h.written (if tx.reloads size then k else s.down.observed)
      rw [hat.data_toNat hcap (by omega) (by omega)] at hroom
      refine ⟨hi.tails, hi.heads, hi.space, ?_, hi.producer, ?_⟩
      · simp only [World.seenTail, Channel.acquireIf_observed, Consumer.pending]
        omega
      · simpa [World.seenTail, Consumer.Placed] using ⟨hat, hvalid⟩

/-- An `imp_read` that fails has observed a tail not older than before. -/
theorem refuseRead (hi : Indices cap ⟨s, h⟩) (hstep : Step vis s (.refuseRead size) s') :
    Indices cap ⟨s', h⟩ := by
  have hdata := hi.data
  have hconsumer := hi.consumer
  simp only [World.seenTail] at hdata hconsumer
  cases hstep with
  | @refuseRead tx tx' size k core hle hlt hside hreserve =>
      simp only [hside, Consumer.pending, Consumer.Placed] at hdata hconsumer
      have hat := hconsumer.reserve_error (hi.tails.value k hlt) hreserve
      have hmono := boundary_mono h.written (le_ite (tx.reloads size) hle)
      refine ⟨hi.tails, hi.heads, hi.space, ?_, hi.producer, ?_⟩
      · simp only [World.seenTail, Channel.acquireIf_observed, Consumer.pending]
        omega
      · simpa [World.seenTail, Consumer.Placed] using hat

/-- The last `memcpy` of an `imp_read` moves the local head by the size of the read. -/
theorem read (hcap : IsPowTwo cap) (hi : Indices cap ⟨s, h⟩)
    (hstep : Step vis s (.read data) s') : Indices cap ⟨s', h.record (.read data)⟩ := by
  have hdata := hi.data
  have hconsumer := hi.consumer
  simp only [World.seenTail] at hdata hconsumer
  cases hstep with
  | @read tx buffer m size c hside hsees =>
      simp only [hside, Consumer.pending, Consumer.Placed] at hdata hconsumer
      have hlocal : (h.record (.read (bytes (c.copyOut m buffer) size))).localHead =
          h.localHead + size.toNat := by
        simp [History.record, History.localHead, History.head]
        omega
      refine ⟨hi.tails, hi.heads, hi.space, ?_, hi.producer, ?_⟩
      · show (h.record _).localHead + 0 ≤ boundary h.written s.down.observed
        omega
      · show (tx.finish size).At cap _ _
        rw [hlocal]
        exact hconsumer.1.finish hcap size

/-- The destructor of a valid read transaction publishes its local head, and that of an invalid one
publishes nothing. -/
theorem closeRead (hi : Indices cap ⟨s, h⟩) (hstep : Step vis s (.closeRead published) s') :
    Indices cap ⟨s', h.record (.closeRead published)⟩ := by
  have hdata := hi.data
  have hconsumer := hi.consumer
  have hlocalHead : h.localHead = h.head + h.reading.length := rfl
  simp only [World.seenTail] at hdata hconsumer
  cases hstep with
  | @closeRead tx hside =>
      simp only [hside, Consumer.pending, Consumer.Placed] at hdata hconsumer
      cases hinv : tx.invalidated_ with
      | true =>
          simp only [TxRead.toBool, hinv, Bool.not_true, if_true]
          refine ⟨hi.tails, hi.heads, hi.space, ?_, hi.producer, ⟨hconsumer.queue, rfl⟩⟩
          show h.head + 0 + 0 ≤ boundary h.written s.down.observed
          omega
      | false =>
          simp only [TxRead.toBool, hinv, Bool.not_false, Bool.false_eq_true, if_false]
          -- the head the producer has observed is an older one
          have hseen : boundary (h.consumed ++ [h.reading]) s.up.observed =
              boundary h.consumed s.up.observed :=
            boundary_append (hi.heads.le_length s.up.observed_lt)
          refine ⟨hi.tails, hi.heads.release hconsumer.head, ?_, ?_, ?_, ⟨hconsumer.queue, rfl⟩⟩
          · show h.localTail + s.producer.pending ≤
              boundary (h.consumed ++ [h.reading]) s.up.observed + (cap.toNat - 1)
            rw [hseen]
            exact hi.space
          · show (h.consumed ++ [h.reading]).flatten.length + 0 + 0 ≤
              boundary h.written s.down.observed
            simpa [hlocalHead, History.head] using hdata
          · show s.producer.Placed cap
              (boundary (h.consumed ++ [h.reading]) s.up.observed) h.localTail h.writing
            rw [hseen]
            exact hi.producer

end Read

/-- Every step keeps the index invariant. -/
theorem step (hcap : IsPowTwo cap) (hi : Indices cap ⟨s, h⟩) (hstep : Step vis s e s') :
    Indices cap ⟨s', h.record e⟩ := by
  cases e with
  | openWrite => exact hi.openWrite hstep
  | beginWrite data => exact hi.beginWrite hcap hstep
  | copyIn =>
      have hspace := hi.space
      have hproducer := hi.producer
      cases hstep with
      | copyIn hside =>
          simp only [hside, Producer.pending, Producer.Placed] at hspace hproducer
          exact ⟨hi.tails, hi.heads, hspace, hi.data, hproducer, hi.consumer⟩
  | wrote data => exact hi.wrote hcap hstep
  | refuseWrite data => exact hi.refuseWrite hstep
  | invalidateWrite =>
      have hspace := hi.space
      have hproducer := hi.producer
      cases hstep with
      | invalidateWrite hside =>
          simp only [hside, Producer.pending, Producer.Placed] at hspace hproducer
          exact ⟨hi.tails, hi.heads, hspace, hi.data,
            ⟨hproducer.queue, hproducer.capacity, hproducer.tail, hproducer.head⟩, hi.consumer⟩
  | closeWrite published => exact hi.closeWrite hstep
  | openRead => exact hi.openRead hstep
  | beginRead size => exact hi.beginRead hcap hstep
  | copyOut =>
      have hdata := hi.data
      have hconsumer := hi.consumer
      cases hstep with
      | copyOut hside hsees =>
          simp only [hside, Consumer.pending, Consumer.Placed] at hdata hconsumer
          exact ⟨hi.tails, hi.heads, hi.space, hdata, hi.producer, hconsumer⟩
  | read data => exact hi.read hcap hstep
  | refuseRead size => exact hi.refuseRead hstep
  | invalidateRead =>
      have hdata := hi.data
      have hconsumer := hi.consumer
      cases hstep with
      | invalidateRead hside =>
          simp only [hside, Consumer.pending, Consumer.Placed] at hdata hconsumer
          exact ⟨hi.tails, hi.heads, hi.space, hdata, hi.producer,
            ⟨hconsumer.queue, hconsumer.capacity, hconsumer.head, hconsumer.tail⟩⟩
  | closeRead published => exact hi.closeRead hstep
  | killProducer | attachProducer | killConsumer | attachConsumer => cases hstep

end Indices

end TxQueue
