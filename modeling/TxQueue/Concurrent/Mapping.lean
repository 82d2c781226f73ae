import TxQueue.Concurrent.Sides

/-!
# Each process at its own address

Two processes map the shared block at different addresses, so that their queue objects differ in
`storage_`. Nothing that a side does on the block depends on the address. So whatever they do
there could as well be done on any single queue object of the same capacity, with the same events,
from before either of them has attached. Only the core hints, on which no step depends either, need
not be the same.
-/

namespace TxQueue

open Library

/-- The two queue objects are the same but for the address. -/
structure BaseTxQueue.Fits (queue other : BaseTxQueue) : Prop where
  isOk : other.isOk = queue.isOk
  capacity : other.capacity_ = queue.capacity_

section Rebase

variable {queue other : BaseTxQueue} {size index : UInt64}

/-- The transaction as if it were on `queue`. -/
def TxWrite.rebase (queue : BaseTxQueue) (tx : TxWrite) : TxWrite :=
  { tx with queue_ := queue, storage_ := queue.storage_ }

/-- The transaction as if it were on `queue`. -/
def TxRead.rebase (queue : BaseTxQueue) (tx : TxRead) : TxRead :=
  { tx with queue_ := queue, storage_ := queue.storage_ }

theorem TxWrite.rebase_construct (h : queue.Fits other) (tail head : UInt64) :
    (TxWrite.construct other tail head).rebase queue = .construct queue tail head := by
  simp only [rebase, construct, h.isOk, h.capacity]

theorem TxRead.rebase_construct (h : queue.Fits other) (head tail : UInt64) :
    (TxRead.construct other head tail).rebase queue = .construct queue head tail := by
  simp only [rebase, construct, h.isOk, h.capacity]

/-- The availability check does not look at the address. -/
theorem TxWrite.reserve_rebase (queue : BaseTxQueue) (tx : TxWrite) (size head : UInt64) :
    (tx.rebase queue).reserve size head =
      ((tx.reserve size head).mapError (rebase queue)).map (rebase queue) := by
  show (if tx.invalidated_ then .error (tx.rebase queue)
    else if size > tx.space then
      if size > TxWrite.space { tx with cachedHead_ := head } then
        .error (rebase queue { tx with cachedHead_ := head, invalidated_ := true })
      else .ok (rebase queue { tx with cachedHead_ := head })
    else .ok (tx.rebase queue) : Except TxWrite TxWrite) = _
  simp only [reserve]
  split_ifs <;> rfl

/-- The availability check does not look at the address. -/
theorem TxRead.reserve_rebase (queue : BaseTxQueue) (tx : TxRead) (size tail : UInt64) :
    (tx.rebase queue).reserve size tail =
      ((tx.reserve size tail).mapError (rebase queue)).map (rebase queue) := by
  show (if tx.invalidated_ then .error (tx.rebase queue)
    else if size > tx.data then
      if size > TxRead.data { tx with cachedTail_ := tail } then
        .error (rebase queue { tx with cachedTail_ := tail, invalidated_ := true })
      else .ok (rebase queue { tx with cachedTail_ := tail })
    else .ok (tx.rebase queue) : Except TxRead TxRead) = _
  simp only [reserve]
  split_ifs <;> rfl

end Rebase

/-! ## The two sides -/

/-- The producer as if it had attached to `queue`, from the start. -/
def Producer.rebase (queue : BaseTxQueue) : Producer → Producer
  | .detached => .idle queue
  | .idle _ => .idle queue
  | .live tx => .live (tx.rebase queue)
  | .copying tx buffer size rest => .copying (tx.rebase queue) buffer size rest

/-- The consumer as if it had attached to `queue`, from the start. -/
def Consumer.rebase (queue : BaseTxQueue) : Consumer → Consumer
  | .detached => .idle queue
  | .idle _ => .idle queue
  | .live tx => .live (tx.rebase queue)
  | .copying tx buffer size rest => .copying (tx.rebase queue) buffer size rest

/-- The queue object that the producer uses. -/
def Producer.queue? : Producer → Option BaseTxQueue
  | .detached => none
  | .idle queue => some queue
  | .live tx => some tx.queue_
  | .copying tx _ _ _ => some tx.queue_

/-- The queue object that the consumer uses. -/
def Consumer.queue? : Consumer → Option BaseTxQueue
  | .detached => none
  | .idle queue => some queue
  | .live tx => some tx.queue_
  | .copying tx _ _ _ => some tx.queue_

/-- The system as if the sides had attached to `queue` and to `queue'`, with other core hints. -/
def System.rebase (queue queue' : BaseTxQueue) (cores : Int32 × Int32) (s : System) : System :=
  { s with
    producerCore_ := cores.1
    consumerCore_ := cores.2
    producer := s.producer.rebase queue
    consumer := s.consumer.rebase queue' }

namespace Step

variable {vis : Visibility} {s s' : System} {e : Event} {queue queue' : BaseTxQueue}

/-- A step leaves the queue objects alone. -/
theorem queue?_eq (hstep : Step vis s e s') :
    s'.producer.queue? = s.producer.queue? ∧ s'.consumer.queue? = s.consumer.queue? := by
  cases hstep with
  | openWrite k hle hlt hside | openRead k hle hlt hside =>
      rw [hside]
      exact ⟨rfl, rfl⟩
  | beginWrite buffer size k hle hlt hside hreserve =>
      obtain ⟨-, -, rfl⟩ := TxWrite.reserve_eq_ok hreserve
      rw [hside]
      exact ⟨rfl, rfl⟩
  | refuseWrite buffer size k core hle hlt hside hreserve =>
      obtain ⟨-, -, rfl⟩ := TxWrite.reserve_eq_error hreserve
      rw [hside]
      exact ⟨rfl, rfl⟩
  | beginRead buffer size k hle hlt hside hreserve =>
      obtain ⟨-, -, rfl⟩ := TxRead.reserve_eq_ok hreserve
      rw [hside]
      exact ⟨rfl, rfl⟩
  | refuseRead size k core hle hlt hside hreserve =>
      obtain ⟨-, -, rfl⟩ := TxRead.reserve_eq_error hreserve
      rw [hside]
      exact ⟨rfl, rfl⟩
  | copyIn hside | wrote hside | invalidateWrite hside | closeWrite hside | copyOut hside
  | read hside | invalidateRead hside | closeRead hside =>
      rw [hside]
      exact ⟨rfl, rfl⟩

/-- A side whose queue object fits can as well take its steps on `queue` or `queue'`. -/
theorem rebase
    (hproducer : e.ofProducer = true → ∀ other, s.producer.queue? = some other → queue.Fits other)
    (hconsumer : e.ofProducer = false →
      ∀ other, s.consumer.queue? = some other → queue'.Fits other)
    (cores : Int32 × Int32) (hstep : Step vis s e s') :
    ∃ cores', Step vis (s.rebase queue queue' cores) e (s'.rebase queue queue' cores') := by
  have hproducer' : ∀ side, s.producer = side →
      (s.rebase queue queue' cores).producer = side.rebase queue :=
    fun _ => congrArg (Producer.rebase queue)
  have hconsumer' : ∀ side, s.consumer = side →
      (s.rebase queue queue' cores).consumer = side.rebase queue' :=
    fun _ => congrArg (Consumer.rebase queue')
  cases hstep with
  | @openWrite other k hle hlt hside =>
      have hfits : queue.Fits other := hproducer rfl other (by rw [hside, Producer.queue?])
      refine ⟨cores, ?_⟩
      have hopen : Step vis _ _ _ := .openWrite (s := s.rebase queue queue' cores) k hle hlt
        (hproducer' _ hside)
      rw [← TxWrite.rebase_construct hfits] at hopen
      exact hopen
  | @beginWrite tx tx' buffer size k hle hlt hside hreserve =>
      have hlive : (s.rebase queue queue' cores).producer = .live (tx.rebase queue) :=
        hproducer' _ hside
      have hreserve' : (tx.rebase queue).reserve size s.up.releases[k].value =
          .ok (tx'.rebase queue) := by
        rw [TxWrite.reserve_rebase, hreserve]
        rfl
      have hnext : Step vis _ _ _ :=
        .beginWrite (s := s.rebase queue queue' cores) buffer size k hle hlt hlive hreserve'
      exact ⟨cores, hnext⟩
  | @refuseWrite tx tx' buffer size k core hle hlt hside hreserve =>
      have hlive : (s.rebase queue queue' cores).producer = .live (tx.rebase queue) :=
        hproducer' _ hside
      have hreserve' : (tx.rebase queue).reserve size s.up.releases[k].value =
          .error (tx'.rebase queue) := by
        rw [TxWrite.reserve_rebase, hreserve]
        rfl
      have hnext : Step vis _ _ _ :=
        .refuseWrite (s := s.rebase queue queue' cores) buffer size k core hle hlt hlive hreserve'
      exact ⟨(if tx.invalidated_ then cores.1 else core, cores.2), hnext⟩
  | copyIn hside =>
      exact ⟨cores, .copyIn (s := s.rebase queue queue' cores) (hproducer' _ hside)⟩
  | wrote hside =>
      exact ⟨(-1, cores.2), .wrote (s := s.rebase queue queue' cores) (hproducer' _ hside)⟩
  | invalidateWrite hside =>
      exact ⟨cores, .invalidateWrite (s := s.rebase queue queue' cores) (hproducer' _ hside)⟩
  | closeWrite hside =>
      exact ⟨cores, .closeWrite (s := s.rebase queue queue' cores) (hproducer' _ hside)⟩
  | @openRead other k hle hlt hside =>
      have hfits : queue'.Fits other := hconsumer rfl other (by rw [hside, Consumer.queue?])
      refine ⟨cores, ?_⟩
      have hopen : Step vis _ _ _ := .openRead (s := s.rebase queue queue' cores) k hle hlt
        (hconsumer' _ hside)
      rw [← TxRead.rebase_construct hfits] at hopen
      exact hopen
  | @beginRead tx tx' buffer size k hle hlt hside hreserve =>
      have hlive : (s.rebase queue queue' cores).consumer = .live (tx.rebase queue') :=
        hconsumer' _ hside
      have hreserve' : (tx.rebase queue').reserve size s.down.releases[k].value =
          .ok (tx'.rebase queue') := by
        rw [TxRead.reserve_rebase, hreserve]
        rfl
      have hnext : Step vis _ _ _ :=
        .beginRead (s := s.rebase queue queue' cores) buffer size k hle hlt hlive hreserve'
      exact ⟨cores, hnext⟩
  | @refuseRead tx tx' size k core hle hlt hside hreserve =>
      have hlive : (s.rebase queue queue' cores).consumer = .live (tx.rebase queue') :=
        hconsumer' _ hside
      have hreserve' : (tx.rebase queue').reserve size s.down.releases[k].value =
          .error (tx'.rebase queue') := by
        rw [TxRead.reserve_rebase, hreserve]
        rfl
      have hnext : Step vis _ _ _ :=
        .refuseRead (s := s.rebase queue queue' cores) size k core hle hlt hlive hreserve'
      exact ⟨(cores.1, if tx.invalidated_ then cores.2 else core), hnext⟩
  | copyOut hside hsees =>
      exact ⟨cores, .copyOut (s := s.rebase queue queue' cores) (hconsumer' _ hside) hsees⟩
  | read hside hsees =>
      exact ⟨(cores.1, -1), .read (s := s.rebase queue queue' cores) (hconsumer' _ hside) hsees⟩
  | invalidateRead hside =>
      exact ⟨cores, .invalidateRead (s := s.rebase queue queue' cores) (hconsumer' _ hside)⟩
  | closeRead hside =>
      exact ⟨cores, .closeRead (s := s.rebase queue queue' cores) (hconsumer' _ hside)⟩

end Step

/-! ## Runs -/

/-- The shared block with the two sides attached to queue objects of their own. -/
structure System.IsMapped (queue queue' : BaseTxQueue) (s : System) : Prop where
  down : s.down = .init 0
  up : s.up = .init 0
  producer : s.producer = .idle queue
  consumer : s.consumer = .idle queue'

/-- Two processes that have mapped the block each at its own address, with their history. -/
abbrev mappedWorldLts (queue queue' : BaseTxQueue) (vis : Visibility) : Lts World Event :=
  Lts.observe { initial := System.IsMapped queue queue', step := Step vis } History.record {}

/-- The second world is the first with the two queue objects at other addresses. -/
structure World.Moved (queue queue' other other' : BaseTxQueue) (w w' : World) : Prop where
  producer : w.state.producer.queue? = some other
  consumer : w.state.consumer.queue? = some other'
  log : w'.log = w.log
  state : ∃ cores, w'.state = w.state.rebase queue queue' cores

/-- A step can be taken at other addresses. -/
theorem World.Moved.step {queue queue' other other' : BaseTxQueue} {vis : Visibility}
    {w w' u : World} {e : Event} (hfits : queue.Fits other) (hfits' : queue'.Fits other')
    (h : w.Moved queue queue' other other' u)
    (hstep : (mappedWorldLts other other' vis).step w e w') :
    ∃ u', (mappedWorldLts queue queue' vis).step u e u' ∧ w'.Moved queue queue' other other' u' := by
  obtain ⟨hproducer, hconsumer, hlog, cores, hstate⟩ := h
  obtain ⟨hstep, hrecord⟩ := hstep
  obtain ⟨hsame, hsame'⟩ := hstep.queue?_eq
  obtain ⟨cores', hnext⟩ := hstep.rebase
    (fun _ q hq => Option.some.inj (hproducer.symm.trans hq) ▸ hfits)
    (fun _ q hq => Option.some.inj (hconsumer.symm.trans hq) ▸ hfits') cores
  refine ⟨⟨w'.state.rebase queue queue' cores', u.log.record e⟩, ⟨hstate ▸ hnext, rfl⟩,
    hsame.trans hproducer, hsame'.trans hconsumer, ?_, cores', rfl⟩
  rw [hlog, hrecord]

/-- Wherever the two processes have mapped the block: every run has the same events, the same
history and the same stores as some run with the block at any other two addresses. -/
theorem position_independent (queue queue' other other' : BaseTxQueue) (hfits : queue.Fits other)
    (hfits' : queue'.Fits other') (vis : Visibility) {start w : World}
    {ts : List (Transition World Event)} (hstart : (mappedWorldLts other other' vis).initial start)
    (hrun : Run (mappedWorldLts other other' vis) start ts w) :
    ∃ start' us w', (mappedWorldLts queue queue' vis).initial start' ∧
      Run (mappedWorldLts queue queue' vis) start' us w' ∧
      us.map Transition.event = ts.map Transition.event ∧ w'.log = w.log ∧
      w'.state.base = w.state.base ∧ w'.state.down = w.state.down ∧ w'.state.up = w.state.up := by
  obtain ⟨⟨hdown, hup, hproducer, hconsumer⟩, hlog⟩ := hstart
  have hmoved : start.Moved queue queue' other other'
      ⟨start.state.rebase queue queue' (0, 0), start.log⟩ :=
    ⟨congrArg Producer.queue? hproducer, congrArg Consumer.queue? hconsumer, rfl, (0, 0), rfl⟩
  obtain ⟨us, w', hus, -, hevents, -, -, hlog', cores, hstate⟩ := hrun.simulate
    (B := mappedWorldLts queue queue' vis) (P := fun _ => True) (Q := fun _ => True)
    (fun _ _ => trivial) hmoved fun _ _ _ h hstep =>
      have ⟨u', hnext, h'⟩ := h.step hfits hfits' hstep
      ⟨u', hnext, trivial, h'⟩
  refine ⟨⟨start.state.rebase queue queue' (0, 0), start.log⟩, us, w', ⟨⟨hdown, hup, ?_, ?_⟩, hlog⟩,
    hus, hevents, hlog', ?_⟩
  · exact congrArg (Producer.rebase queue) hproducer
  · exact congrArg (Consumer.rebase queue') hconsumer
  · rw [hstate]
    exact ⟨rfl, rfl, rfl⟩

/-- `position_independent` on a producer at the address 4224 and a consumer at 8320. -/
theorem position_independent_open : ∃ start us w,
    (mappedWorldLts ⟨64, 16⟩ ⟨64, 16⟩ .everyLoad).initial start ∧
    Run (mappedWorldLts ⟨64, 16⟩ ⟨64, 16⟩ .everyLoad) start us w ∧
    us.map Transition.event = [.openWrite, .openRead] := by
  let start : World :=
    ⟨{ base := fun _ => 0
       down := .init 0
       up := .init 0
       producerCore_ := 0
       consumerCore_ := 0
       producer := .idle ⟨4224, 16⟩
       consumer := .idle ⟨8320, 16⟩ }, {}⟩
  have hstart : (mappedWorldLts ⟨4224, 16⟩ ⟨8320, 16⟩ .everyLoad).initial start :=
    ⟨⟨rfl, rfl, rfl, rfl⟩, rfl⟩
  have h0 : Run (mappedWorldLts ⟨4224, 16⟩ ⟨8320, 16⟩ .everyLoad) start [] start := .nil
  have h1 := h0.andThen (.openWrite 0 (by decide) (by decide) rfl)
  have h2 := h1.andThen (.openRead 0 (by decide) (by decide) rfl)
  obtain ⟨start', us, w', hstart', hus, hevents, -⟩ := position_independent ⟨64, 16⟩ ⟨64, 16⟩
    ⟨4224, 16⟩ ⟨8320, 16⟩ ⟨rfl, rfl⟩ ⟨rfl, rfl⟩ .everyLoad hstart h2
  exact ⟨start', us, w', hstart', hus, hevents⟩

end TxQueue
