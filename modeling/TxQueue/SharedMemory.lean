import TxQueue.Library.Transition
import TxQueue.QueueMp

/-!
# Bring-up through shared memory

`shared_memory` in the producer creates a named mapping, maps it and stores the size in its first
cache line; in the consumer it opens the mapping by name, maps it and loads the size. The mapping
can be opened as soon as it is created, and is zero-filled then. Both sides construct their queue
behind the header. The sizes agree in exactly those runs in which the consumer loads the header
after the producer has stored it.
-/

namespace TxQueue

open Library

/-- `shared_memory`, with the address of the view, or of the bytes behind the header once that is
done with. -/
structure SharedMemory where
  mapBuffer_ : UInt64
  size_ : UInt64
  create_ : Bool
  deriving DecidableEq

namespace SharedMemory

/-- The members that `shared_memory::shared_memory` initialises. -/
def construct (size : UInt64) : SharedMemory where
  mapBuffer_ := 0
  size_ := size
  create_ := size != 0

/-- `shared_memory::get_size`. -/
def getSize (memory : SharedMemory) : UInt64 := memory.size_

/-- The bytes behind the header. -/
def skipHeader (memory : SharedMemory) : SharedMemory :=
  { memory with mapBuffer_ := memory.mapBuffer_ + cacheLineSize }

end SharedMemory

/-- Where a process is in `create_buffer` or `open_buffer`: before the creation or the opening of
the mapping, before the view, before the access to the header, after it (`operator*` returns the
buffer from then on), and after the construction of the queue. -/
inductive Stage where
  | mapping
  | view
  | header
  | ready
  | attached (queue : BaseTxQueue)
  deriving DecidableEq

/-- A process that starts up. -/
structure Starter where
  memory : SharedMemory
  stage : Stage

/-- Past the access to the header, so that `operator*` returns the buffer. -/
def Stage.IsReady : Stage → Prop
  | .mapping => False
  | .view => False
  | .header => False
  | .ready => True
  | .attached _ => True

/-- The header of the named mapping, once it exists, and the two processes. -/
structure BringUp where
  header : Option UInt64
  producer : Starter
  consumer : Starter

inductive BringUpEvent where
  | createFails
  | createMapping
  | viewCreated
  | viewNotCreated
  | storeHeader
  | constructProducer
  | openFails
  | openMapping
  | viewOpened
  | viewNotOpened
  | loadHeader
  | constructConsumer
  deriving DecidableEq

/-- An address at which a view of the header and `size` bytes can be. -/
structure ViewAddress (size view : UInt64) : Prop where
  ne_null : view ≠ 0
  aligned : view.toNat % cacheLineSize.toNat = 0
  fits : view.toNat + cacheLineSize.toNat + size.toNat ≤ 2 ^ 64

/-- The steps of the two starts on a block of `size` bytes. After a failed mapping or view the
process calls `operator*` again. -/
inductive BringUpStep (size : UInt64) : BringUp → BringUpEvent → BringUp → Prop where
  | createFails {s : BringUp} (hstage : s.producer.stage = .mapping) :
      BringUpStep size s .createFails s
  | createMapping {s : BringUp} (hstage : s.producer.stage = .mapping) :
      BringUpStep size s .createMapping
        { s with header := some (s.header.getD 0), producer := { s.producer with stage := .view } }
  | viewCreated {s : BringUp} (view : UInt64) (hview : ViewAddress size view)
      (hstage : s.producer.stage = .view) :
      BringUpStep size s .viewCreated
        { s with producer := ⟨{ s.producer.memory with mapBuffer_ := view }, .header⟩ }
  | viewNotCreated {s : BringUp} (hstage : s.producer.stage = .view) :
      BringUpStep size s .viewNotCreated { s with producer := { s.producer with stage := .mapping } }
  | storeHeader {s : BringUp} (hstage : s.producer.stage = .header) :
      BringUpStep size s .storeHeader
        { s with
          header := some s.producer.memory.size_
          producer := ⟨s.producer.memory.skipHeader, .ready⟩ }
  | constructProducer {s : BringUp} (hstage : s.producer.stage = .ready) :
      BringUpStep size s .constructProducer
        { s with
          producer := { s.producer with
            stage := .attached (txQueueMp s.producer.memory.mapBuffer_ size) } }
  | openFails {s : BringUp} (hstage : s.consumer.stage = .mapping) (hheader : s.header = none) :
      BringUpStep size s .openFails s
  | openMapping {s : BringUp} (hstage : s.consumer.stage = .mapping) (hheader : s.header.isSome) :
      BringUpStep size s .openMapping { s with consumer := { s.consumer with stage := .view } }
  | viewOpened {s : BringUp} (view : UInt64) (hview : ViewAddress size view)
      (hstage : s.consumer.stage = .view) :
      BringUpStep size s .viewOpened
        { s with consumer := ⟨{ s.consumer.memory with mapBuffer_ := view }, .header⟩ }
  | viewNotOpened {s : BringUp} (hstage : s.consumer.stage = .view) :
      BringUpStep size s .viewNotOpened { s with consumer := { s.consumer with stage := .mapping } }
  | loadHeader {s : BringUp} {v : UInt64} (hstage : s.consumer.stage = .header)
      (hheader : s.header = some v) :
      BringUpStep size s .loadHeader
        { s with consumer := ⟨{ s.consumer.memory with size_ := v }.skipHeader, .ready⟩ }
  | constructConsumer {s : BringUp} (hstage : s.consumer.stage = .ready) :
      BringUpStep size s .constructConsumer
        { s with
          consumer := { s.consumer with
            stage := .attached (txQueueMp s.consumer.memory.mapBuffer_ s.consumer.memory.getSize) } }

/-- The start with nothing shared yet. -/
def bringUpStart (size : UInt64) : BringUp :=
  ⟨none, ⟨.construct size, .mapping⟩, ⟨.construct 0, .mapping⟩⟩

/-- One producer and one consumer that start up. -/
def bringUpLts (size : UInt64) : Lts BringUp BringUpEvent where
  initial s := s = bringUpStart size
  step := BringUpStep size

/-- Once `operator*` has returned the buffer in the consumer, `get_size` is the producer's size,
and so the consumer's queue is ok and the capacities agree. -/
def BringUp.Agrees (size : UInt64) (s : BringUp) : Prop :=
  s.consumer.stage.IsReady → s.consumer.memory.getSize = size ∧
    ∀ queue, s.consumer.stage = .attached queue → queue.isOk ∧
      ∀ queue', s.producer.stage = .attached queue' → queue'.capacity_ = queue.capacity_

/-- The buffer behind the header of a view. -/
structure BufferAddress (size buffer : UInt64) : Prop extends ValidAddress buffer where
  fits : buffer.toNat + size.toNat ≤ 2 ^ 64

theorem ViewAddress.buffer {size view : UInt64} (h : ViewAddress size view)
    (hsize : ValidSize size) : BufferAddress size (view + cacheLineSize) := by
  have hroom := hsize.lt
  have haligned := h.aligned
  have hfits := h.fits
  have hline : cacheLineSize.toNat = 64 := rfl
  have hsum : (view + cacheLineSize).toNat = view.toNat + cacheLineSize.toNat := by
    rw [UInt64.toNat_add, Nat.mod_eq_of_lt (by omega)]
  rw [hline] at haligned hsum hfits
  refine ⟨⟨?_, by rw [hsum, hline]; omega⟩, by omega⟩
  intro hzero
  rw [hzero, UInt64.toNat_zero] at hsum
  omega

/-- What the stage of a process says about its buffer and its queue, for the size with which it
constructs the queue. -/
def Starter.Placed (size : UInt64) (queueSize : UInt64) (p : Starter) : Prop :=
  match p.stage with
  | .mapping => True
  | .view => True
  | .header => ViewAddress size p.memory.mapBuffer_
  | .ready => BufferAddress size p.memory.mapBuffer_
  | .attached queue => BufferAddress size p.memory.mapBuffer_ ∧
      queue = txQueueMp p.memory.mapBuffer_ queueSize

/-- The header of an existing mapping at each stage of the producer. -/
def Stage.headerValue (size : UInt64) : Stage → UInt64
  | .mapping => 0
  | .view => 0
  | .header => 0
  | .ready => size
  | .attached _ => size

/-- The header holds the size from the store on. -/
theorem Stage.headerValue_eq_iff {size : UInt64} (hne : 0 ≠ size) (stage : Stage) :
    stage.headerValue size = size ↔ stage.IsReady := by
  cases stage <;> simp [headerValue, IsReady, hne]

/-- The invariant of the bring-up. -/
structure BringUp.Consistent (size : UInt64) (s : BringUp) : Prop where
  producerSize : s.producer.memory.size_ = size
  header : ∀ v, s.header = some v → v = s.producer.stage.headerValue size
  producer : s.producer.Placed size size
  consumer : s.consumer.Placed size s.consumer.memory.size_

namespace BringUp.Consistent

variable {size : UInt64} {s s' : BringUp} {e : BringUpEvent}

theorem of_initial (h : (bringUpLts size).initial s) : s.Consistent size := by
  cases h
  exact ⟨rfl, fun v hv => (by cases hv), trivial, trivial⟩

/-- Every step keeps the invariant. -/
theorem step (hsize : ValidSize size) (hi : s.Consistent size) (hstep : BringUpStep size s e s') :
    s'.Consistent size := by
  have hproducer := hi.producer
  have hconsumer := hi.consumer
  have hheader := hi.header
  unfold Starter.Placed at hproducer hconsumer
  cases hstep with
  | createFails => exact hi
  | createMapping hstage =>
      rw [hstage] at hheader
      refine ⟨hi.producerSize, ?_, trivial, hi.consumer⟩
      intro v hv
      -- a new mapping is zero-filled, and an old one has not been stored to
      cases hs : s.header with
      | none => simpa [hs, Stage.headerValue] using hv.symm
      | some v' =>
          obtain rfl : v' = v := by simpa [hs] using hv
          exact hheader v' hs
  | viewCreated view hview hstage =>
      rw [hstage] at hheader
      exact ⟨hi.producerSize, hheader, hview, hi.consumer⟩
  | viewNotCreated hstage =>
      rw [hstage] at hheader
      exact ⟨hi.producerSize, hheader, trivial, hi.consumer⟩
  | storeHeader hstage =>
      rw [hstage] at hproducer
      refine ⟨hi.producerSize, ?_, hproducer.buffer hsize, hi.consumer⟩
      intro v hv
      exact (Option.some.inj hv).symm.trans hi.producerSize
  | constructProducer hstage =>
      rw [hstage] at hheader hproducer
      exact ⟨hi.producerSize, hheader, ⟨hproducer, rfl⟩, hi.consumer⟩
  | openFails => exact hi
  | openMapping => exact ⟨hi.producerSize, hheader, hi.producer, trivial⟩
  | viewOpened view hview => exact ⟨hi.producerSize, hheader, hi.producer, hview⟩
  | viewNotOpened => exact ⟨hi.producerSize, hheader, hi.producer, trivial⟩
  | loadHeader hstage =>
      rw [hstage] at hconsumer
      exact ⟨hi.producerSize, hheader, hi.producer, hconsumer.buffer hsize⟩
  | constructConsumer hstage =>
      rw [hstage] at hconsumer
      exact ⟨hi.producerSize, hheader, hi.producer, ⟨hconsumer, rfl⟩⟩

/-- The invariant holds in every run. -/
theorem of_run {start : BringUp} {ts : List (Transition BringUp BringUpEvent)}
    (hsize : ValidSize size) (hstart : (bringUpLts size).initial start)
    (hrun : Run (bringUpLts size) start ts s) : s.Consistent size :=
  hrun.invariant (of_initial hstart) fun _ _ _ hi hstep => hi.step hsize hstep

/-- Equal sizes are all that the agreement asks for. -/
theorem agrees_iff (hsize : ValidSize size) (hi : s.Consistent size) :
    s.Agrees size ↔ (s.consumer.stage.IsReady → s.consumer.memory.size_ = size) := by
  constructor
  · exact fun h hopened => (h hopened).1
  · refine fun h hopened => ⟨h hopened, ?_⟩
    intro queue hqueue
    have hconsumer := hi.consumer
    simp only [Starter.Placed, hqueue, h hopened] at hconsumer
    obtain ⟨hbuffer, rfl⟩ := hconsumer
    refine ⟨txQueueMp_isOk hbuffer.toValidAddress hsize hbuffer.fits, ?_⟩
    intro queue' hqueue'
    have hproducer := hi.producer
    simp only [Starter.Placed, hqueue'] at hproducer
    obtain ⟨hbuffer', rfl⟩ := hproducer
    rw [txQueueMp_eq hbuffer.toValidAddress hsize, txQueueMp_eq hbuffer'.toValidAddress hsize]

end BringUp.Consistent

/-- From equal sizes, a step keeps them equal exactly if it is not a load of the header before the
producer has stored it. -/
theorem BringUpStep.size_eq_iff {size : UInt64} {s s' : BringUp} {e : BringUpEvent}
    (hsize : ValidSize size) (hi : s.Consistent size) (hstep : BringUpStep size s e s')
    (hs : s.consumer.stage.IsReady → s.consumer.memory.size_ = size) :
    (s'.consumer.stage.IsReady → s'.consumer.memory.size_ = size) ↔
      (e = .loadHeader → s.producer.stage.IsReady) := by
  cases hstep with
  | createFails | createMapping | viewCreated | viewNotCreated | storeHeader | constructProducer
  | openFails => exact iff_of_true hs (by simp)
  | openMapping | viewOpened | viewNotOpened => exact iff_of_true (fun h => h.elim) (by simp)
  | @loadHeader v hstage hheader =>
      -- the load takes whatever the header holds, which is the size only after the store
      have hne : (0 : UInt64) ≠ size := by
        rintro rfl
        exact Nat.not_lt_zero _ hsize.lt
      show (True → v = size) ↔ (BringUpEvent.loadHeader = .loadHeader → s.producer.stage.IsReady)
      rw [true_imp_iff, hi.header v hheader, Stage.headerValue_eq_iff hne]
      simp
  | constructConsumer hstage =>
      exact iff_of_true (fun _ => hs (by simp [hstage, Stage.IsReady])) (by simp)

/-- For every valid size and every run, the consumer agrees with the producer in all states if and
only if each load of the header comes after the producer has stored it. -/
theorem bringUp_iff (size : UInt64) (hsize : ValidSize size) {start s : BringUp}
    {ts : List (Transition BringUp BringUpEvent)} (hstart : (bringUpLts size).initial start)
    (hrun : Run (bringUpLts size) start ts s) :
    (∀ t ∈ ts, t.target.Agrees size) ↔
      ∀ t ∈ ts, t.event = .loadHeader → t.source.producer.stage.IsReady := by
  suffices hboth : ((∀ t ∈ ts, t.target.Agrees size) ↔
      ∀ t ∈ ts, t.event = .loadHeader → t.source.producer.stage.IsReady) ∧
      ((∀ t ∈ ts, t.target.Agrees size) → s.Agrees size) from hboth.1
  induction hrun with
  | nil =>
      cases hstart
      exact ⟨by simp, fun _ h => h.elim⟩
  | snoc hrun hstep ih =>
      have hi := BringUp.Consistent.of_run hsize hstart hrun
      have hnext := hi.step hsize hstep
      simp only [List.mem_append, List.mem_singleton, or_imp, forall_and, forall_eq, ih.1]
      refine ⟨and_congr_right ?_, fun hall => hall.2⟩
      intro hall
      have hs := (hi.agrees_iff hsize).1 (ih.2 (ih.1.2 hall))
      rw [hnext.agrees_iff hsize, BringUpStep.size_eq_iff hsize hi hstep hs]

theorem viewAddress_page : ViewAddress 132 4096 := ⟨by decide, by decide, by decide⟩

/-- The consumer opens the mapping of a block of 132 bytes before its header is stored. It takes 0
for the size, and its queue is not ok. -/
theorem early_open_not_ok : ∃ ts s, (bringUpLts 132).initial (bringUpStart 132) ∧
    Run (bringUpLts 132) (bringUpStart 132) ts s ∧ ValidSize 132 ∧
    s.consumer.stage.IsReady ∧ s.consumer.memory.getSize = 0 ∧
    (∃ queue, s.consumer.stage = .attached queue ∧ queue.isOk = false) ∧ ¬ s.Agrees 132 := by
  have h0 : Run (bringUpLts 132) (bringUpStart 132) [] _ := .nil
  have h1 := h0.snoc (.createMapping rfl)
  have h2 := h1.snoc (.openMapping rfl rfl)
  have h3 := h2.snoc (.viewOpened 4096 viewAddress_page rfl)
  have h4 := h3.snoc (.loadHeader rfl rfl)
  have h5 := h4.snoc (.constructConsumer rfl)
  refine ⟨_, _, rfl, h5, ⟨2, rfl⟩, trivial, rfl, ⟨_, rfl, by decide⟩, ?_⟩
  intro hagrees
  exact absurd (hagrees trivial).1 (by decide)

/-- `bringUp_iff` on a run in which the header is stored first. -/
theorem bringUp_header_first : ∃ ts s, (bringUpLts 132).initial (bringUpStart 132) ∧
    Run (bringUpLts 132) (bringUpStart 132) ts s ∧
    (∃ queue, s.consumer.stage = .attached queue) ∧ ∀ t ∈ ts, t.target.Agrees 132 := by
  have h0 : Run (bringUpLts 132) (bringUpStart 132) [] _ := .nil
  have h1 := h0.snoc (.createMapping rfl)
  have h2 := h1.snoc (.viewCreated 4096 viewAddress_page rfl)
  have h3 := h2.snoc (.openMapping rfl rfl)
  have h4 := h3.snoc (.storeHeader rfl)
  have h5 := h4.snoc (.viewOpened 4096 viewAddress_page rfl)
  have h6 := h5.snoc (.loadHeader rfl rfl)
  have h7 := h6.snoc (.constructConsumer rfl)
  refine ⟨_, _, rfl, h7, ⟨_, rfl⟩, (bringUp_iff 132 ⟨2, rfl⟩ rfl h7).2 ?_⟩
  simp only [List.nil_append, List.cons_append, List.mem_cons, List.not_mem_nil, or_false]
  rintro t (rfl | rfl | rfl | rfl | rfl | rfl | rfl) hevent
  all_goals first
    | exact trivial
    | cases hevent

end TxQueue
