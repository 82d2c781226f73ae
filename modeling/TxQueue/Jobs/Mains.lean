import TxQueue.SharedMemory
import TxQueue.Concurrent.Mapping
import TxQueue.Concurrent.Reattach
import TxQueue.Jobs.TransmisionTermination
import TxQueue.Jobs.HashStr

/-!
# The two programs from their start

`main` of the producer and of the consumer with `-t`: the bring-up of the shared memory, the
construction of the two queue objects at different addresses, the check of each, and `transmision`.
The programs start at any time and their steps interleave freely. A producer without a view has a
queue that is not ok, and so has a consumer that has loaded the header too early: the check stops
them before they touch the ring.
-/

namespace TxQueue

open Library

variable {σ σ' : Type*}

/-- Where `main` is: before the check of the queue, past `return -1`, or in `transmision`. -/
inductive MainPhase (ξ : Type*) where
  | starting
  | refused
  | running (program : ξ)

/-- The bring-up, the block behind the header and the two programs. -/
structure Mains (σ σ' : Type*) where
  bringUp : BringUp
  system : System
  transmit : MainPhase (ProducerTransmision σ)
  receive : MainPhase (ConsumerTransmision σ')

/-- What happens in the two programs. `refuseNull` is the check of a queue without a buffer, `giveUp`
the end of the consumer's wait for the shared memory, and `destroyMapping` what the system does when
the producer exits before the consumer has a handle. -/
inductive MainEvent where
  | bringUp (e : BringUpEvent)
  | refuseNull
  | refuseProducer
  | refuseConsumer
  | runProducer
  | runConsumer
  | giveUp
  | destroyMapping
  | transfer (e : TransferEvent)
  deriving DecidableEq

/-- The steps of the producer. -/
def BringUpEvent.ofProducer : BringUpEvent → Bool
  | .createFails => true
  | .createMapping => true
  | .viewCreated => true
  | .viewNotCreated => true
  | .storeHeader => true
  | .constructProducer => true
  | _ => false

/-- The two steps that construct a queue. -/
def BringUpEvent.isConstruct : BringUpEvent → Bool
  | .constructProducer => true
  | .constructConsumer => true
  | _ => false

/-- The queue of a process that has constructed it. -/
def Stage.queue? : Stage → Option BaseTxQueue
  | .attached queue => some queue
  | _ => none

/-- The effect of the constructor on the block, before its checks: both core hints are reset. -/
def System.construct (s : System) : System :=
  { s with
    producerCore_ := s.status.construct.producerCore_
    consumerCore_ := s.status.construct.consumerCore_ }

/-- What `main` of the producer returns, if it has returned. -/
def Mains.producerResult (s : Mains σ σ') : Option ℤ :=
  match s.transmit with
  | .starting => none
  | .refused => some (-1)
  | .running .error => some (-1)
  | .running (.startTime _) => none
  | .running (.job t) => if t.control = .quit then some 0 else none

/-- What `main` of the consumer returns, if it has returned. -/
def Mains.consumerResult (s : Mains σ σ') : Option ℤ :=
  match s.receive with
  | .starting => none
  | .refused => some (-1)
  | .running (.startTime _) => none
  | .running (.job _ r) => if r.control = .quit then some 0 else none

/-- The steps of the two programs on a block of `size` bytes. -/
inductive MainStep (size : UInt64) (setup : TransmisionSetup σ σ') :
    Mains σ σ' → MainEvent → Mains σ σ' → Prop where
  | bringUp {s : Mains σ σ'} {e : BringUpEvent} {b : BringUp}
      (hstep : BringUpStep size s.bringUp e b) (hconstruct : e.isConstruct = false)
      (hproducer : e.ofProducer = true → s.transmit = .starting)
      (hconsumer : e.ofProducer = false → s.receive = .starting) :
      MainStep size setup s (.bringUp e) { s with bringUp := b }
  | constructProducer {s : Mains σ σ'} {b : BringUp} {queue : BaseTxQueue}
      (hstep : BringUpStep size s.bringUp .constructProducer b)
      (hqueue : b.producer.stage = .attached queue) (hstarting : s.transmit = .starting) :
      MainStep size setup s (.bringUp .constructProducer)
        { s with bringUp := b, system := { s.system.construct with producer := .idle queue } }
  | constructConsumer {s : Mains σ σ'} {b : BringUp} {queue : BaseTxQueue}
      (hstep : BringUpStep size s.bringUp .constructConsumer b)
      (hqueue : b.consumer.stage = .attached queue) (hstarting : s.receive = .starting) :
      MainStep size setup s (.bringUp .constructConsumer)
        { s with bringUp := b, system := { s.system.construct with consumer := .idle queue } }
  | refuseNull {s : Mains σ σ'} (hstage : s.bringUp.producer.stage = .mapping)
      (hok : (txQueueMp 0 size).isOk = false) (hstarting : s.transmit = .starting) :
      MainStep size setup s .refuseNull { s with transmit := .refused }
  | refuseProducer {s : Mains σ σ'} {queue : BaseTxQueue}
      (hqueue : s.bringUp.producer.stage = .attached queue) (hok : queue.isOk = false)
      (hstarting : s.transmit = .starting) :
      MainStep size setup s .refuseProducer { s with transmit := .refused }
  | runProducer {s : Mains σ σ'} {queue : BaseTxQueue}
      (hqueue : s.bringUp.producer.stage = .attached queue) (hok : queue.isOk = true)
      (hstarting : s.transmit = .starting) :
      MainStep size setup s .runProducer { s with transmit := .running (.startTime .start) }
  | refuseConsumer {s : Mains σ σ'} {queue : BaseTxQueue}
      (hqueue : s.bringUp.consumer.stage = .attached queue) (hok : queue.isOk = false)
      (hstarting : s.receive = .starting) :
      MainStep size setup s .refuseConsumer { s with receive := .refused }
  | runConsumer {s : Mains σ σ'} {queue : BaseTxQueue}
      (hqueue : s.bringUp.consumer.stage = .attached queue) (hok : queue.isOk = true)
      (hstarting : s.receive = .starting) :
      MainStep size setup s .runConsumer { s with receive := .running (.startTime .loop) }
  | giveUp {s : Mains σ σ'} (hstage : s.bringUp.consumer.stage = .mapping)
      (hstarting : s.receive = .starting) :
      MainStep size setup s .giveUp { s with receive := .refused }
  | destroyMapping {s : Mains σ σ'} (hreturned : s.producerResult.isSome)
      (hstage : s.bringUp.consumer.stage = .mapping) :
      MainStep size setup s .destroyMapping
        { s with bringUp := { s.bringUp with header := none } }
  | transmit {s : Mains σ σ'} {x x' : ProducerTransmision σ} {a : Action} {system : System}
      (hrunning : s.transmit = .running x)
      (hjob : ProducerTransmisionStep setup.source setup.producerVerification setup.timestamp x a x')
      (hacts : s.system.ProducerActs .everyLoad a system) :
      MainStep size setup s (.transfer (.transmit a))
        { s with system := system, transmit := .running x' }
  | receive {s : Mains σ σ'} {x x' : ConsumerTransmision σ'} {a : Action} {system : System}
      (hrunning : s.receive = .running x)
      (hjob : ConsumerTransmisionStep setup.consumerVerification setup.maxChunkSize x a x')
      (hacts : s.system.ConsumerActs .everyLoad a system) :
      MainStep size setup s (.transfer (.receive a))
        { s with system := system, receive := .running x' }

/-- The log of what the two programs do with the queue. -/
def TransferLog.recordMain (log : TransferLog) : MainEvent → TransferLog
  | .transfer e => log.record e
  | _ => log

/-- Nothing is shared yet, and a block that is mapped is zero-filled. -/
def mainsStart (size : UInt64) : Mains σ σ' where
  bringUp := bringUpStart size
  system := .zeroed
  transmit := .starting
  receive := .starting

/-- A state of the two programs with the log. -/
abbrev MainsWorld (σ σ' : Type*) := Observed (Mains σ σ') TransferLog

/-- The two programs with what has happened so far. -/
abbrev mainsWorldLts (size : UInt64) (setup : TransmisionSetup σ σ') :
    Lts (MainsWorld σ σ') MainEvent :=
  Lts.observe { initial := fun s => s = mainsStart size, step := MainStep size setup }
    TransferLog.recordMain {}

theorem Mains.producerResult_of_job {s : Mains σ σ'} {t : Transmitter σ}
    (hjob : s.transmit = .running (.job t)) :
    s.producerResult = if t.control = .quit then some 0 else none := by
  rw [producerResult, hjob]

theorem Mains.consumerResult_of_job {s : Mains σ σ'} {startTime : Int64} {r : Receiver σ'}
    (hjob : s.receive = .running (.job startTime r)) :
    s.consumerResult = if r.control = .quit then some 0 else none := by
  rw [consumerResult, hjob]

/-! ## The bring-up -/

section BringUp

variable {size : UInt64} {b b' : BringUp} {e : BringUpEvent}

/-- A step of the bring-up leaves the other process alone. -/
theorem BringUpStep.other_eq (hstep : BringUpStep size b e b') :
    (e.ofProducer = true → b'.consumer = b.consumer) ∧
      (e.ofProducer = false → b'.producer = b.producer) := by
  cases hstep with
  | createFails | createMapping | viewCreated | viewNotCreated | storeHeader
  | constructProducer => exact ⟨fun _ => rfl, fun he => by cases he⟩
  | openFails | openMapping | viewOpened | viewNotOpened | loadHeader
  | constructConsumer => exact ⟨fun he => (by cases he), fun _ => rfl⟩

/-- A step that does not construct a queue attaches no process. -/
theorem BringUpStep.queue?_eq (hstep : BringUpStep size b e b') (he : e.isConstruct = false) :
    b'.producer.stage.queue? = b.producer.stage.queue? ∧
      b'.consumer.stage.queue? = b.consumer.stage.queue? := by
  cases hstep with
  | constructProducer | constructConsumer => cases he
  | createFails | openFails => exact ⟨rfl, rfl⟩
  | createMapping hstage | viewCreated _ _ hstage | viewNotCreated hstage | storeHeader hstage
  | openMapping hstage | viewOpened _ _ hstage | viewNotOpened hstage | loadHeader hstage =>
      rw [hstage]
      exact ⟨rfl, rfl⟩

/-- The invariant of the bring-up, with what the consumer can have loaded. -/
structure BringUp.Loads (size : UInt64) (b : BringUp) : Prop extends b.Consistent size where
  unread : ¬ b.consumer.stage.IsReady → b.consumer.memory.size_ = 0
  loaded : b.consumer.memory.size_ = 0 ∨ b.consumer.memory.size_ = size

/-- Every step keeps it. -/
theorem BringUp.Loads.step (hsize : ValidSize size) (hi : b.Loads size)
    (hstep : BringUpStep size b e b') : b'.Loads size := by
  refine ⟨hi.toConsistent.step hsize hstep, ?_, ?_⟩
  · cases hstep with
    | createFails | createMapping | viewCreated | viewNotCreated | storeHeader | constructProducer
    | openFails => exact hi.unread
    | openMapping hstage | viewOpened _ _ hstage | viewNotOpened hstage =>
        exact fun _ => hi.unread (by rw [hstage]; exact id)
    | loadHeader => exact fun hready => (hready trivial).elim
    | constructConsumer => exact fun hready => (hready trivial).elim
  · cases hstep with
    | loadHeader hstage hheader =>
        rw [hi.header _ hheader]
        cases b.producer.stage with
        | mapping | view | header => exact .inl rfl
        | ready | attached => exact .inr rfl
    | _ => exact hi.loaded

/-- The end of the shared memory leaves the processes alone. -/
theorem BringUp.Loads.destroyMapping (hi : b.Loads size) :
    ({ b with header := none } : BringUp).Loads size :=
  ⟨⟨hi.producerSize, nofun, hi.producer, hi.consumer⟩, hi.unread, hi.loaded⟩

/-- A queue on the block, wherever a process maps it. -/
def blockQueue (size : UInt64) (hsize : ValidSize size) : RingQueue where
  storage_ := 64
  capacity_ := size - sizeofTxQueueStatus
  isPowTwo := hsize.isPowTwo

theorem blockQueue_fits {buffer : UInt64} (hsize : ValidSize size)
    (hbuffer : BufferAddress size buffer) :
    (blockQueue size hsize).Fits (txQueueMp buffer size) := by
  constructor
  · exact txQueueMp_isOk hbuffer.toValidAddress hsize hbuffer.fits
  · rw [txQueueMp_eq hbuffer.toValidAddress hsize, blockQueue]

/-- The queue of the producer is ok. -/
theorem BringUp.Loads.fits_producer {queue : BaseTxQueue} (hsize : ValidSize size)
    (hi : b.Loads size) (hqueue : b.producer.stage = .attached queue) :
    (blockQueue size hsize).Fits queue := by
  have hproducer := hi.producer
  simp only [Starter.Placed, hqueue] at hproducer
  obtain ⟨hbuffer, rfl⟩ := hproducer
  exact blockQueue_fits hsize hbuffer

/-- The queue of the consumer is ok, unless it has loaded the header too early. -/
theorem BringUp.Loads.fits_consumer {queue : BaseTxQueue} (hsize : ValidSize size)
    (hi : b.Loads size) (hqueue : b.consumer.stage = .attached queue) :
    (b.consumer.memory.size_ = 0 ∧ queue.isOk = false) ∨
      (b.consumer.memory.size_ = size ∧ (blockQueue size hsize).Fits queue) := by
  have hconsumer := hi.consumer
  simp only [Starter.Placed, hqueue] at hconsumer
  obtain ⟨hbuffer, rfl⟩ := hconsumer
  rcases hi.loaded with hloaded | hloaded
  · refine .inl ⟨hloaded, ?_⟩
    rw [hloaded, ← Bool.not_eq_true, txQueueMp_isOk_iff]
    rintro ⟨-, hzero | hzero, -⟩
    · cases hzero
    · exact Nat.not_lt_zero _ hzero.lt
  · refine .inr ⟨hloaded, ?_⟩
    rw [hloaded]
    exact blockQueue_fits hsize hbuffer

end BringUp

/-! ## The sides of the queue -/

/-- Each side is attached to the queue that its process has constructed, and a program that runs has
one that fits the block. A producer that has been refused has no buffer, and a consumer that has been
refused has seen no size. -/
structure Mains.Attached (size : UInt64) (hsize : ValidSize size) (s : Mains σ σ') : Prop where
  bringUp : s.bringUp.Loads size
  producer : s.system.producer.queue? = s.bringUp.producer.stage.queue?
  consumer : s.system.consumer.queue? = s.bringUp.consumer.stage.queue?
  transmit : ∀ x, s.transmit = .running x →
    ∃ other, s.system.producer.queue? = some other ∧ (blockQueue size hsize).Fits other
  receive : ∀ x, s.receive = .running x → s.bringUp.consumer.memory.size_ = size ∧
    ∃ other, s.system.consumer.queue? = some other ∧ (blockQueue size hsize).Fits other
  unmapped : s.transmit = .refused → s.bringUp.producer.stage = .mapping
  refused : s.receive = .refused → s.bringUp.consumer.memory.size_ = 0

section Acts

variable {vis : Visibility} {s s' : System} {a : Action} {queue queue' : BaseTxQueue}

/-- What a program does leaves the queue objects alone. -/
theorem System.ProducerActs.queue?_eq (hacts : s.ProducerActs vis a s') :
    s'.producer.queue? = s.producer.queue? ∧ s'.consumer.queue? = s.consumer.queue? := by
  cases a with
  | call e => exact Step.queue?_eq hacts
  | test valid =>
      obtain ⟨-, rfl⟩ := hacts
      exact ⟨rfl, rfl⟩
  | account data | leave =>
      obtain rfl := hacts
      exact ⟨rfl, rfl⟩

theorem System.ConsumerActs.queue?_eq (hacts : s.ConsumerActs vis a s') :
    s'.producer.queue? = s.producer.queue? ∧ s'.consumer.queue? = s.consumer.queue? := by
  cases a with
  | call e => exact Step.queue?_eq hacts
  | test valid =>
      obtain ⟨-, rfl⟩ := hacts
      exact ⟨rfl, rfl⟩
  | account data | leave =>
      obtain rfl := hacts
      exact ⟨rfl, rfl⟩

/-- What the producer's program does, it can do at another address. -/
theorem System.ProducerActs.rebase (queue' : BaseTxQueue)
    (hfits : ∀ other, s.producer.queue? = some other → queue.Fits other)
    (hjob : ∀ e, a = .call e → e.ofProducer = true) (cores : Int32 × Int32)
    (hacts : s.ProducerActs vis a s') :
    ∃ cores', (s.rebase queue queue' cores).ProducerActs vis a (s'.rebase queue queue' cores') := by
  cases a with
  | call e =>
      have he := hjob e rfl
      exact Step.rebase (fun _ => hfits) (fun he' => Bool.noConfusion (he.symm.trans he')) cores
        hacts
  | test valid =>
      obtain ⟨⟨tx, hside, hvalid⟩, rfl⟩ := hacts
      exact ⟨cores, ⟨tx.rebase queue, congrArg (Producer.rebase queue) hside, hvalid⟩, rfl⟩
  | account data | leave =>
      obtain rfl := hacts
      exact ⟨cores, rfl⟩

/-- What the consumer's program does, it can do at another address. -/
theorem System.ConsumerActs.rebase (queue : BaseTxQueue)
    (hfits : ∀ other, s.consumer.queue? = some other → queue'.Fits other)
    (hjob : ∀ e, a = .call e → e.ofProducer = false) (cores : Int32 × Int32)
    (hacts : s.ConsumerActs vis a s') :
    ∃ cores', (s.rebase queue queue' cores).ConsumerActs vis a (s'.rebase queue queue' cores') := by
  cases a with
  | call e =>
      have he := hjob e rfl
      exact Step.rebase (fun he' => Bool.noConfusion (he.symm.trans he')) (fun _ => hfits) cores
        hacts
  | test valid =>
      obtain ⟨⟨tx, hside, hvalid⟩, rfl⟩ := hacts
      exact ⟨cores, ⟨tx.rebase queue', congrArg (Consumer.rebase queue') hside, hvalid⟩, rfl⟩
  | account data | leave =>
      obtain rfl := hacts
      exact ⟨cores, rfl⟩

end Acts

section Attached

variable {size : UInt64} {hsize : ValidSize size} {setup : TransmisionSetup σ σ'}
  {s s' : Mains σ σ'} {e : MainEvent}

theorem Mains.Attached.of_start : (mainsStart size : Mains σ σ').Attached size hsize where
  bringUp := ⟨.of_initial rfl, fun _ => rfl, .inl rfl⟩
  producer := rfl
  consumer := rfl
  transmit := nofun
  receive := nofun
  unmapped := nofun
  refused := nofun

/-- Every step of either program keeps the sides attached. -/
theorem Mains.Attached.step (hi : s.Attached size hsize) (hstep : MainStep size setup s e s') :
    s'.Attached size hsize := by
  obtain ⟨hbringUp, hproducer, hconsumer, htransmit, hreceive, hunmapped, hrefused⟩ := hi
  cases hstep with
  | @bringUp e b hstep hconstruct hstarting hstarting' =>
      obtain ⟨hsame, hsame'⟩ := hstep.queue?_eq hconstruct
      refine ⟨hbringUp.step hsize hstep, hproducer.trans hsame.symm, hconsumer.trans hsame'.symm,
        htransmit, fun x hx => ?_, fun hx => ?_, fun hx => ?_⟩
      · cases he : e.ofProducer with
        | true => exact ((hstep.other_eq).1 he).symm ▸ hreceive x hx
        | false => cases (hstarting' he).symm.trans hx
      · cases he : e.ofProducer with
        | true => cases (hstarting he).symm.trans hx
        | false => exact ((hstep.other_eq).2 he).symm ▸ hunmapped hx
      · cases he : e.ofProducer with
        | true => exact ((hstep.other_eq).1 he).symm ▸ hrefused hx
        | false => cases (hstarting' he).symm.trans hx
  | @constructProducer b queue hstep hqueue hstarting =>
      have hother := (hstep.other_eq).1 rfl
      refine ⟨hbringUp.step hsize hstep, ?_, ?_, fun x hx => ?_, ?_, fun hx => ?_, ?_⟩
      · rw [hqueue]
        rfl
      · rw [hother]
        exact hconsumer
      · cases hstarting.symm.trans hx
      · rw [hother]
        exact hreceive
      · cases hstarting.symm.trans hx
      · rw [hother]
        exact hrefused
  | @constructConsumer b queue hstep hqueue hstarting =>
      have hother := (hstep.other_eq).2 rfl
      refine ⟨hbringUp.step hsize hstep, ?_, ?_, htransmit, fun x hx => ?_, ?_, fun hx => ?_⟩
      · rw [hother]
        exact hproducer
      · rw [hqueue]
        rfl
      · cases hstarting.symm.trans hx
      · rw [hother]
        exact hunmapped
      · cases hstarting.symm.trans hx
  | refuseNull hstage hok hstarting =>
      exact ⟨hbringUp, hproducer, hconsumer, nofun, hreceive, fun _ => hstage, hrefused⟩
  | @refuseProducer queue hqueue hok hstarting =>
      have hfits := (hbringUp.fits_producer hsize hqueue).isOk
      cases hok.symm.trans hfits
  | @runProducer queue hqueue hok hstarting =>
      refine ⟨hbringUp, hproducer, hconsumer, fun x hx => ?_, hreceive, nofun, hrefused⟩
      refine ⟨queue, ?_, hbringUp.fits_producer hsize hqueue⟩
      rw [hproducer, hqueue]
      rfl
  | @refuseConsumer queue hqueue hok hstarting =>
      refine ⟨hbringUp, hproducer, hconsumer, htransmit, nofun, hunmapped, fun _ => ?_⟩
      rcases hbringUp.fits_consumer hsize hqueue with ⟨hzero, -⟩ | ⟨-, hfits⟩
      · exact hzero
      · cases hok.symm.trans hfits.isOk
  | @runConsumer queue hqueue hok hstarting =>
      refine ⟨hbringUp, hproducer, hconsumer, htransmit, fun x hx => ?_, hunmapped, nofun⟩
      rcases hbringUp.fits_consumer hsize hqueue with ⟨-, hnot⟩ | ⟨hloaded, hfits⟩
      · cases hok.symm.trans hnot
      · refine ⟨hloaded, queue, ?_, hfits⟩
        rw [hconsumer, hqueue]
        rfl
  | giveUp hstage hstarting =>
      refine ⟨hbringUp, hproducer, hconsumer, htransmit, nofun, hunmapped, fun _ => ?_⟩
      exact hbringUp.unread (by rw [hstage]; exact id)
  | destroyMapping =>
      exact ⟨hbringUp.destroyMapping, hproducer, hconsumer, htransmit, hreceive, hunmapped, hrefused⟩
  | @transmit x x' a system hrunning hjob hacts =>
      obtain ⟨hsame, hsame'⟩ := hacts.queue?_eq
      refine ⟨hbringUp, hsame.trans hproducer, hsame'.trans hconsumer, fun _ _ => ?_, fun y hy => ?_,
        nofun, hrefused⟩
      · rw [hsame]
        exact htransmit x hrunning
      · rw [hsame']
        exact hreceive y hy
  | @receive x x' a system hrunning hjob hacts =>
      obtain ⟨hsame, hsame'⟩ := hacts.queue?_eq
      refine ⟨hbringUp, hsame.trans hproducer, hsame'.trans hconsumer, fun y hy => ?_, fun _ _ => ?_,
        hunmapped, nofun⟩
      · rw [hsame]
        exact htransmit y hy
      · rw [hsame']
        exact hreceive x hrunning

end Attached

/-! ## The two programs on one queue -/

/-- The program, before its first step as long as `main` has not called it. -/
def MainPhase.program {ξ : Type*} (first : ξ) : MainPhase ξ → ξ
  | .running program => program
  | _ => first

/-- The two programs as if both had been on `queue` from the start. -/
def Mains.toTransmision (queue : BaseTxQueue) (cores : Int32 × Int32) (s : Mains σ σ') :
    Transmision σ σ' where
  system := s.system.rebase queue queue cores
  transmit := s.transmit.program (.startTime .start)
  receive := s.receive.program (.startTime .loop)

/-- What the two programs do with the queue. -/
def MainEvent.transfer? : MainEvent → Option TransferEvent
  | .transfer e => some e
  | _ => none

theorem TransferLog.recordMain_eq (log : TransferLog) (e : MainEvent) :
    log.recordMain e = (e.transfer?.map log.record).getD log := by
  cases e <;> rfl

section Follows

variable {size : UInt64} {hsize : ValidSize size} {setup : TransmisionSetup σ σ'}
  {s s' : Mains σ σ'} {e : MainEvent}

/-- A process that has just constructed its queue is where it was as if from the start. -/
theorem Producer.rebase_of_none {side : Producer} (queue : BaseTxQueue) (h : side.queue? = none) :
    side.rebase queue = .idle queue := by
  cases side with
  | detached => rfl
  | _ => cases h

theorem Consumer.rebase_of_none {side : Consumer} (queue : BaseTxQueue) (h : side.queue? = none) :
    side.rebase queue = .idle queue := by
  cases side with
  | detached => rfl
  | _ => cases h

/-- Each step of `main` is a step of `transmision` on the block, or none at all. -/
theorem MainStep.follows (hi : s.Attached size hsize) (cores : Int32 × Int32)
    (hstep : MainStep size setup s e s') :
    ∃ cores', (transmisionLts (blockQueue size hsize).toBaseTxQueue setup .everyLoad).Follows
      (s.toTransmision (blockQueue size hsize).toBaseTxQueue cores) e.transfer?
      (s'.toTransmision (blockQueue size hsize).toBaseTxQueue cores') := by
  cases hstep with
  | bringUp => exact ⟨cores, rfl⟩
  | @constructProducer b queue hstep hqueue hstarting =>
      refine ⟨cores, .silent ?_⟩
      have hnone : s.system.producer.queue? = none := by
        rw [hi.producer]
        cases hstep with
        | constructProducer hstage =>
            rw [hstage]
            rfl
      unfold Mains.toTransmision System.rebase
      rw [Producer.rebase_of_none _ hnone]
      rfl
  | @constructConsumer b queue hstep hqueue hstarting =>
      refine ⟨cores, .silent ?_⟩
      have hnone : s.system.consumer.queue? = none := by
        rw [hi.consumer]
        cases hstep with
        | constructConsumer hstage =>
            rw [hstage]
            rfl
      unfold Mains.toTransmision System.rebase
      rw [Consumer.rebase_of_none _ hnone]
      rfl
  | destroyMapping => exact ⟨cores, rfl⟩
  | refuseNull _ _ hstarting | refuseProducer _ _ hstarting | runProducer _ _ hstarting
  | refuseConsumer _ _ hstarting | runConsumer _ _ hstarting | giveUp _ hstarting =>
      refine ⟨cores, .silent ?_⟩
      simp only [Mains.toTransmision, hstarting, MainPhase.program]
  | @transmit x x' a system hrunning hjob hacts =>
      obtain ⟨other, hother, hfits⟩ := hi.transmit x hrunning
      obtain ⟨cores', hnext⟩ := hacts.rebase (blockQueue size hsize).toBaseTxQueue
        (fun q hq => Option.some.inj (hother.symm.trans hq) ▸ hfits)
        (fun e he => (he ▸ hjob).ofProducer) cores
      refine ⟨cores', TransmisionStep.transmit ?_ hnext⟩
      unfold Mains.toTransmision
      rw [hrunning]
      exact hjob
  | @receive x x' a system hrunning hjob hacts =>
      obtain ⟨-, other, hother, hfits⟩ := hi.receive x hrunning
      obtain ⟨cores', hnext⟩ := hacts.rebase (blockQueue size hsize).toBaseTxQueue
        (fun q hq => Option.some.inj (hother.symm.trans hq) ▸ hfits)
        (fun e he => (he ▸ hjob).ofProducer) cores
      refine ⟨cores', TransmisionStep.receive ?_ hnext⟩
      unfold Mains.toTransmision
      rw [hrunning]
      exact hjob

end Follows

/-! ## What the programs return -/

/-- The invariant of the two programs. -/
structure MainsDelivery (size : UInt64) (hsize : ValidSize size) (setup : TransmisionSetup σ σ')
    (w : MainsWorld σ σ') : Prop where
  attached : w.state.Attached size hsize
  untouched : (∀ x, w.state.receive ≠ .running x) →
    w.log.accepted = [] ∧ w.log.history.consumed = []
  unwritten : (∀ x, w.state.transmit ≠ .running x) → w.log.history.written = []
  programs : ∃ cores, TransmisionDelivery (blockQueue size hsize).toBaseTxQueue setup
      ⟨w.state.toTransmision (blockQueue size hsize).toBaseTxQueue cores, w.log⟩ ∧
    TransmisionWorld.At (blockQueue size hsize).toBaseTxQueue setup.source
      ⟨w.state.toTransmision (blockQueue size hsize).toBaseTxQueue cores, w.log⟩

namespace MainsDelivery

variable {size : UInt64} {hsize : ValidSize size} {setup : TransmisionSetup σ σ'}
  {start w w' : MainsWorld σ σ'} {e : MainEvent}

theorem of_initial (hstart : (mainsWorldLts size setup).initial start) :
    MainsDelivery size hsize setup start := by
  obtain ⟨state, log⟩ := start
  obtain ⟨rfl, rfl⟩ := hstart
  have hfresh : (transmisionWorldLts (blockQueue size hsize).toBaseTxQueue setup .everyLoad).initial
      ⟨(mainsStart size).toTransmision (blockQueue size hsize).toBaseTxQueue (0, 0), {}⟩ :=
    ⟨⟨⟨rfl, rfl, rfl, rfl⟩, rfl, rfl⟩, rfl⟩
  exact ⟨.of_start, fun _ => ⟨rfl, rfl⟩, fun _ => rfl, (0, 0), .of_initial hfresh,
    .of_initial hfresh⟩

/-- As long as the consumer is not in `transmision` it leaves the queue untouched. -/
theorem untouched_step (hi : MainsDelivery size hsize setup w)
    (hstep : (mainsWorldLts size setup).step w e w') (hnot : ∀ x, w'.state.receive ≠ .running x) :
    w'.log.accepted = [] ∧ w'.log.history.consumed = [] := by
  obtain ⟨s, log⟩ := w
  obtain ⟨s', log'⟩ := w'
  obtain ⟨hstep, rfl⟩ := hstep
  cases hstep with
  | bringUp | constructProducer | constructConsumer | refuseNull | refuseProducer | runProducer
  | destroyMapping => exact hi.untouched hnot
  | refuseConsumer _ _ hstarting | giveUp _ hstarting =>
      exact hi.untouched fun x hx => by cases hstarting.symm.trans hx
  | runConsumer => exact (hnot _ rfl).elim
  | receive => exact (hnot _ rfl).elim
  | @transmit x x' a system hrunning hjob hacts =>
      obtain ⟨haccepted, hconsumed⟩ := hi.untouched hnot
      cases a with
      | call e =>
          exact ⟨haccepted, (log.history.record_of_producer hjob.ofProducer).1.trans hconsumed⟩
      | test valid | account data | leave => exact ⟨haccepted, hconsumed⟩

/-- As long as the producer is not in `transmision` it writes nothing. -/
theorem unwritten_step (hi : MainsDelivery size hsize setup w)
    (hstep : (mainsWorldLts size setup).step w e w')
    (hnot : ∀ x, w'.state.transmit ≠ .running x) : w'.log.history.written = [] := by
  obtain ⟨s, log⟩ := w
  obtain ⟨s', log'⟩ := w'
  obtain ⟨hstep, rfl⟩ := hstep
  cases hstep with
  | bringUp | constructProducer | constructConsumer | refuseConsumer | runConsumer | giveUp
  | destroyMapping => exact hi.unwritten hnot
  | refuseNull _ _ hstarting | refuseProducer _ _ hstarting =>
      exact hi.unwritten fun x hx => by cases hstarting.symm.trans hx
  | runProducer => exact (hnot _ rfl).elim
  | transmit => exact (hnot _ rfl).elim
  | @receive x x' a system hrunning hjob hacts =>
      have hwritten := hi.unwritten hnot
      cases a with
      | call e => exact (log.history.record_of_consumer hjob.ofProducer).1.trans hwritten
      | test valid | account data | leave => exact hwritten

/-- Every step of either program keeps the invariant. -/
theorem step (hmin : 1 ≤ setup.source.minChunkSize_)
    (hroom : 8 ≤ (blockQueue size hsize).capacity.toNat) (hi : MainsDelivery size hsize setup w)
    (hstep : (mainsWorldLts size setup).step w e w') : MainsDelivery size hsize setup w' := by
  refine ⟨hi.attached.step hstep.1, hi.untouched_step hstep, hi.unwritten_step hstep, ?_⟩
  obtain ⟨cores, hdelivery, hat⟩ := hi.programs
  obtain ⟨cores', hfollows⟩ := hstep.1.follows hi.attached cores
  have hobserved : (transmisionWorldLts (blockQueue size hsize).toBaseTxQueue setup
      .everyLoad).Follows ⟨_, w.log⟩ e.transfer? ⟨_, w'.log⟩ :=
    hfollows.observe (hstep.2.trans (TransferLog.recordMain_eq _ _))
  refine ⟨cores', ?_⟩
  cases hshown : e.transfer? with
  | none =>
      rw [hshown] at hobserved
      have hsame : _ = _ := hobserved
      rw [hsame]
      exact ⟨hdelivery, hat⟩
  | some e' =>
      rw [hshown] at hobserved
      exact ⟨hdelivery.step hmin hroom hobserved, hat.step rfl hobserved.1⟩

/-- What the consumer has accepted is the beginning of the source. -/
theorem accepted_isPrefix (htime : setup.timestamp ≠ 0) (hi : MainsDelivery size hsize setup w) :
    w.log.accepted.flatten <+: setup.source.srcData_ := by
  obtain ⟨cores, hdelivery, -⟩ := hi.programs
  exact hdelivery.accepted_flatten_isPrefix htime

end MainsDelivery

end TxQueue
