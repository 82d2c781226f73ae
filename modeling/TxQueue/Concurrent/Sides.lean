import TxQueue.Concurrent.System

/-!
# What each side sees of a step

A step belongs to one side and leaves the other side's transaction and the other side's part of the
history alone. To its own side it shows whether the transaction is still valid.
-/

namespace TxQueue

open Library

/-- The steps of the producer. -/
def Event.ofProducer : Event → Bool
  | .openWrite => true
  | .beginWrite _ => true
  | .copyIn => true
  | .wrote _ => true
  | .refuseWrite _ => true
  | .invalidateWrite => true
  | .closeWrite _ => true
  | .killProducer => true
  | .attachProducer => true
  | _ => false

/-- The producer has a live transaction that is valid. -/
def Producer.isValid : Producer → Bool
  | .live tx => tx.toBool
  | .copying tx _ _ _ => tx.toBool
  | _ => false

/-- The consumer has a live transaction that is valid. -/
def Consumer.isValid : Consumer → Bool
  | .live tx => tx.toBool
  | .copying tx _ _ _ => tx.toBool
  | _ => false

namespace Step

variable {vis : Visibility} {s s' : System} {e : Event}

theorem consumer_eq (hstep : Step vis s e s') (he : e.ofProducer = true) :
    s'.consumer = s.consumer := by
  cases hstep <;> first | rfl | cases he

theorem producer_eq (hstep : Step vis s e s') (he : e.ofProducer = false) :
    s'.producer = s.producer := by
  cases hstep <;> first | rfl | cases he

section Write

variable {queue : BaseTxQueue} {data : List UInt8} {published : Bool}

/-- On a queue that is ok a new transaction is valid. -/
theorem openWrite_isValid (hok : queue.isOk) (hside : s.producer = .idle queue)
    (hstep : Step vis s .openWrite s') : s'.producer.isValid = true := by
  cases hstep with
  | openWrite k hle hlt hidle =>
      obtain rfl := Producer.idle.inj (hside.symm.trans hidle)
      simpa [Producer.isValid, TxWrite.toBool, TxWrite.construct] using hok

theorem beginWrite_isValid (hstep : Step vis s (.beginWrite data) s') :
    s'.producer.isValid = s.producer.isValid := by
  cases hstep with
  | beginWrite buffer size k hle hlt hside hreserve =>
      obtain ⟨-, -, rfl⟩ := TxWrite.reserve_eq_ok hreserve
      simp [hside, Producer.isValid, TxWrite.toBool]

theorem copyIn_isValid (hstep : Step vis s .copyIn s') :
    s'.producer.isValid = s.producer.isValid := by
  cases hstep with
  | copyIn hside => simp [hside, Producer.isValid]

theorem wrote_isValid (hstep : Step vis s (.wrote data) s') :
    s'.producer.isValid = s.producer.isValid := by
  cases hstep with
  | wrote hside => simp [hside, Producer.isValid, TxWrite.toBool]

theorem refuseWrite_isValid (hstep : Step vis s (.refuseWrite data) s') :
    s'.producer.isValid = false := by
  cases hstep with
  | refuseWrite buffer size k core hle hlt hside hreserve =>
      simp [Producer.isValid, TxWrite.toBool, (TxWrite.reserve_eq_error hreserve).1]

theorem closeWrite_published (hstep : Step vis s (.closeWrite published) s') :
    published = s.producer.isValid := by
  cases hstep with
  | closeWrite hside => simp [hside, Producer.isValid]

end Write

section Read

variable {queue : BaseTxQueue} {data : List UInt8} {size : UInt64} {published : Bool}

/-- On a queue that is ok a new transaction is valid. -/
theorem openRead_isValid (hok : queue.isOk) (hside : s.consumer = .idle queue)
    (hstep : Step vis s .openRead s') : s'.consumer.isValid = true := by
  cases hstep with
  | openRead k hle hlt hidle =>
      obtain rfl := Consumer.idle.inj (hside.symm.trans hidle)
      simpa [Consumer.isValid, TxRead.toBool, TxRead.construct] using hok

theorem beginRead_isValid (hstep : Step vis s (.beginRead size) s') :
    s'.consumer.isValid = s.consumer.isValid := by
  cases hstep with
  | beginRead buffer size k hle hlt hside hreserve =>
      obtain ⟨-, -, rfl⟩ := TxRead.reserve_eq_ok hreserve
      simp [hside, Consumer.isValid, TxRead.toBool]

theorem copyOut_isValid (hstep : Step vis s .copyOut s') :
    s'.consumer.isValid = s.consumer.isValid := by
  cases hstep with
  | copyOut hside => simp [hside, Consumer.isValid]

theorem read_isValid (hstep : Step vis s (.read data) s') :
    s'.consumer.isValid = s.consumer.isValid := by
  cases hstep with
  | read hside => simp [hside, Consumer.isValid, TxRead.toBool]

theorem refuseRead_isValid (hstep : Step vis s (.refuseRead size) s') :
    s'.consumer.isValid = false := by
  cases hstep with
  | refuseRead size k core hle hlt hside hreserve =>
      simp [Consumer.isValid, TxRead.toBool, (TxRead.reserve_eq_error hreserve).1]

theorem closeRead_published (hstep : Step vis s (.closeRead published) s') :
    published = s.consumer.isValid := by
  cases hstep with
  | closeRead hside => simp [hside, Consumer.isValid]

end Read

end Step

namespace History

variable {e : Event}

theorem record_of_producer (h : History) (he : e.ofProducer = true) :
    (h.record e).consumed = h.consumed ∧ (h.record e).reading = h.reading := by
  cases e <;> first | exact ⟨rfl, rfl⟩ | cases he

theorem record_of_consumer (h : History) (he : e.ofProducer = false) :
    (h.record e).written = h.written ∧ (h.record e).writing = h.writing := by
  cases e <;> first | exact ⟨rfl, rfl⟩ | cases he

end History

end TxQueue
