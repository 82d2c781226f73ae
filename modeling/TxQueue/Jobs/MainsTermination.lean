import TxQueue.Jobs.Mains
import TxQueue.Jobs.Programs

/-!
# The two programs come to their end

From their start the programs have to get through the bring-up first. Each step of a process brings
it closer to the check of its queue, once the attempts to map the shared memory succeed. It passes
that check unless something is lost: a process goes on without a buffer, the consumer loads the
header before the producer has stored it, or the producer exits before the consumer has a handle.
When both programs are in `transmision` they are an execution of `transmision` on one queue, which
ends.
-/

namespace TxQueue

open Library

variable {σ σ' : Type*}

/-! ## The bring-up of a process -/

/-- The attempts to map the shared memory that fail although it exists or could exist. -/
def BringUpEvent.failsToMap : BringUpEvent → Bool
  | .createFails => true
  | .viewNotCreated => true
  | .viewNotOpened => true
  | _ => false

/-- The steps of the producer, and of the system when it has exited. -/
def MainEvent.ofProducer : MainEvent → Bool
  | .bringUp e => e.ofProducer
  | .refuseNull => true
  | .refuseProducer => true
  | .runProducer => true
  | .destroyMapping => true
  | .transfer (.transmit _) => true
  | _ => false

/-- The number of steps up to the construction of the queue, if every attempt succeeds. -/
def Stage.stepsLeft : Stage → ℕ
  | .mapping => 4
  | .view => 3
  | .header => 2
  | .ready => 1
  | .attached _ => 0

/-- The shared memory exists once the producer has gone on from its creation. -/
def BringUp.IsCreated (b : BringUp) : Prop :=
  b.producer.stage = .mapping ∨ b.header.isSome

/-- The consumer goes on to its view only if the shared memory exists. -/
def BringUp.IsOpened (b : BringUp) : Prop :=
  b.header = none → b.consumer.stage = .mapping

section BringUp

variable {size : UInt64} {b b' : BringUp} {e : BringUpEvent}

theorem BringUp.IsCreated.step (hi : b.IsCreated) (hstep : BringUpStep size b e b') :
    b'.IsCreated := by
  cases hstep with
  | createFails | openFails | openMapping | viewOpened | viewNotOpened | loadHeader
  | constructConsumer => exact hi
  | createMapping => exact .inr rfl
  | viewNotCreated => exact .inl rfl
  | storeHeader => exact .inr rfl
  | viewCreated view hview hstage | constructProducer hstage =>
      refine .inr (hi.resolve_left fun hmapping => ?_)
      cases hstage.symm.trans hmapping

theorem BringUp.IsOpened.step (hi : b.IsOpened) (hstep : BringUpStep size b e b') :
    b'.IsOpened := by
  intro hnone
  cases hstep with
  | createFails | viewCreated | viewNotCreated | constructProducer | openFails => exact hi hnone
  | createMapping | storeHeader => cases hnone
  | openMapping hstage hheader =>
      rw [show b.header = none from hnone] at hheader
      cases hheader
  | viewOpened view hview hstage => cases hstage.symm.trans (hi hnone)
  | viewNotOpened => rfl
  | loadHeader hstage hheader => cases hheader.symm.trans hnone
  | constructConsumer hstage => cases hstage.symm.trans (hi hnone)

end BringUp

/-! ## The phases of the two programs -/

namespace MainStep

variable {size : UInt64} {hsize : ValidSize size} {setup : TransmisionSetup σ σ'}
  {s s' : Mains σ σ'} {e : MainEvent}

/-- A program that runs goes on. -/
theorem transmit_running {x : ProducerTransmision σ} (hstep : MainStep size setup s e s')
    (hrunning : s.transmit = .running x) : ∃ x', s'.transmit = .running x' := by
  cases hstep with
  | bringUp | constructProducer | constructConsumer | refuseConsumer | runConsumer | giveUp
  | destroyMapping | receive => exact ⟨x, hrunning⟩
  | refuseNull _ _ hstarting | refuseProducer _ _ hstarting | runProducer _ _ hstarting =>
      cases hstarting.symm.trans hrunning
  | transmit => exact ⟨_, rfl⟩

theorem receive_running {x : ConsumerTransmision σ'} (hstep : MainStep size setup s e s')
    (hrunning : s.receive = .running x) : ∃ x', s'.receive = .running x' := by
  cases hstep with
  | bringUp | constructProducer | constructConsumer | refuseNull | refuseProducer | runProducer
  | destroyMapping | transmit => exact ⟨x, hrunning⟩
  | refuseConsumer _ _ hstarting | runConsumer _ _ hstarting | giveUp _ hstarting =>
      cases hstarting.symm.trans hrunning
  | receive => exact ⟨_, rfl⟩

/-- The steps of a program that runs are those of `transmision`. -/
theorem exists_transmit {x : ProducerTransmision σ} (hstep : MainStep size setup s e s')
    (hrunning : s.transmit = .running x) (hresult : s.producerResult = none)
    (he : e.ofProducer = true) : ∃ a, e = .transfer (.transmit a) := by
  cases hstep with
  | bringUp _ _ hstarting => cases (hstarting he).symm.trans hrunning
  | constructProducer _ _ hstarting | refuseNull _ _ hstarting | refuseProducer _ _ hstarting
  | runProducer _ _ hstarting => cases hstarting.symm.trans hrunning
  | constructConsumer | refuseConsumer | runConsumer | giveUp | receive => cases he
  | destroyMapping hreturned =>
      rw [hresult] at hreturned
      cases hreturned
  | transmit => exact ⟨_, rfl⟩

theorem exists_receive {x : ConsumerTransmision σ'} (hstep : MainStep size setup s e s')
    (hrunning : s.receive = .running x) (he : e.ofProducer = false) :
    ∃ a, e = .transfer (.receive a) := by
  cases hstep with
  | bringUp _ _ _ hstarting => cases (hstarting he).symm.trans hrunning
  | constructConsumer _ _ hstarting | refuseConsumer _ _ hstarting | runConsumer _ _ hstarting
  | giveUp _ hstarting => cases hstarting.symm.trans hrunning
  | constructProducer | refuseNull | refuseProducer | runProducer | destroyMapping
  | transmit => cases he
  | receive => exact ⟨_, rfl⟩

end MainStep

/-! ## Executions -/

theorem Producer.isValid_rebase (queue : BaseTxQueue) (side : Producer) :
    (side.rebase queue).isValid = side.isValid := by
  cases side <;> rfl

theorem Consumer.isValid_rebase (queue : BaseTxQueue) (side : Consumer) :
    (side.rebase queue).isValid = side.isValid := by
  cases side <;> rfl

section Executions

variable {size : UInt64} {hsize : ValidSize size} {setup : TransmisionSetup σ σ'}

/-- Each process takes steps again and again until `main` has returned, and from some moment on no
attempt to map the shared memory fails. -/
structure MainsKeepRunning (x : Execution (mainsWorldLts size setup)) : Prop where
  producer : ∀ n, ∃ m, n ≤ m ∧ ((x.state m).state.producerResult.isSome ∨
    ∃ e, x.event m = some e ∧ e.ofProducer = true)
  consumer : ∀ n, ∃ m, n ≤ m ∧ ((x.state m).state.consumerResult.isSome ∨
    ∃ e, x.event m = some e ∧ e.ofProducer = false)
  maps : ∃ n, ∀ m e, n ≤ m → x.event m = some (.bringUp e) → e.failsToMap = false

/-- Stores to the indices are seen at some time by the availability checks that fail. -/
structure MainsSeeStores (x : Execution (mainsWorldLts size setup)) : Prop where
  transmit : ∀ n, ∃ k, ∀ m data, k ≤ m →
    x.event m = some (.transfer (.transmit (.call (.refuseWrite data)))) →
    (x.state m).state.system.producer.isValid = true →
    (x.state n).state.system.up.last ≤ (x.state (m + 1)).state.system.up.observed
  receive : ∀ n, ∃ k, ∀ m size, k ≤ m →
    x.event m = some (.transfer (.receive (.call (.refuseRead size)))) →
    (x.state m).state.system.consumer.isValid = true →
    (x.state n).state.system.down.last ≤ (x.state (m + 1)).state.system.down.observed

variable {x : Execution (mainsWorldLts size setup)} {n m : ℕ}

/-- A program that runs keeps running. -/
theorem transmitRunning_of_le (h : ∃ y, (x.state n).state.transmit = .running y) (hle : n ≤ m) :
    ∃ y, (x.state m).state.transmit = .running y := by
  refine x.induct (I := fun w => ∃ y, w.state.transmit = .running y) h ?_ hle
  rintro k e - hevent ⟨y, hrunning⟩
  exact (x.step hevent).1.transmit_running hrunning

theorem receiveRunning_of_le (h : ∃ y, (x.state n).state.receive = .running y) (hle : n ≤ m) :
    ∃ y, (x.state m).state.receive = .running y := by
  refine x.induct (I := fun w => ∃ y, w.state.receive = .running y) h ?_ hle
  rintro k e - hevent ⟨y, hrunning⟩
  exact (x.step hevent).1.receive_running hrunning

/-- The two programs, as if both had been on one queue from the start. -/
def MainsWorld.Shows (hsize : ValidSize size) (w : MainsWorld σ σ') (v : TransmisionWorld σ σ') :
    Prop :=
  w.state.Attached size hsize ∧
    ∃ cores, v = ⟨w.state.toTransmision (blockQueue size hsize).toBaseTxQueue cores, w.log⟩

/-- A program that has returned a result has come to its end. -/
theorem ProducerTransmision.hasEnded_of_result {s : Mains σ σ'} {p : ProducerTransmision σ}
    (hrunning : s.transmit = .running p) (hresult : s.producerResult.isSome) : p.HasEnded := by
  cases p with
  | startTime control =>
      rw [Mains.producerResult, hrunning] at hresult
      cases hresult
  | error => trivial
  | job t =>
      rw [Mains.producerResult_of_job hrunning] at hresult
      split at hresult
      case isTrue hquit => exact hquit
      · cases hresult

theorem ConsumerTransmision.hasEnded_of_result {s : Mains σ σ'} {p : ConsumerTransmision σ'}
    (hrunning : s.receive = .running p) (hresult : s.consumerResult.isSome) : p.HasEnded := by
  cases p with
  | startTime control =>
      rw [Mains.consumerResult, hrunning] at hresult
      cases hresult
  | job startTime r =>
      rw [Mains.consumerResult_of_job hrunning] at hresult
      split at hresult
      case isTrue hquit => exact hquit
      · cases hresult

namespace MainsWorld.Shows

variable {w : MainsWorld σ σ'} {v : TransmisionWorld σ σ'}

theorem log_eq (h : w.Shows hsize v) : v.log = w.log := by
  obtain ⟨-, cores, rfl⟩ := h
  rfl

theorem transmit_eq {p : ProducerTransmision σ} (h : w.Shows hsize v)
    (hrunning : w.state.transmit = .running p) : v.state.transmit = p := by
  obtain ⟨-, cores, rfl⟩ := h
  exact congrArg (MainPhase.program (.startTime .start)) hrunning

theorem receive_eq {p : ConsumerTransmision σ'} (h : w.Shows hsize v)
    (hrunning : w.state.receive = .running p) : v.state.receive = p := by
  obtain ⟨-, cores, rfl⟩ := h
  exact congrArg (MainPhase.program (.startTime .loop)) hrunning

/-- The channels of the indices are the same. -/
theorem channels_eq (h : w.Shows hsize v) :
    v.state.system.up = w.state.system.up ∧ v.state.system.down = w.state.system.down := by
  obtain ⟨-, cores, rfl⟩ := h
  exact ⟨rfl, rfl⟩

/-- So is the validity of the open transactions. -/
theorem isValid_eq (h : w.Shows hsize v) :
    v.state.system.producer.isValid = w.state.system.producer.isValid ∧
      v.state.system.consumer.isValid = w.state.system.consumer.isValid := by
  obtain ⟨-, cores, rfl⟩ := h
  exact ⟨Producer.isValid_rebase _ _, Consumer.isValid_rebase _ _⟩

end MainsWorld.Shows

/-- Programs that are in `transmision` and keep running are jobs that keep running. -/
theorem MainsKeepRunning.programs
    {y : Execution (transmisionWorldLts (blockQueue size hsize).toBaseTxQueue setup .everyLoad)}
    (hruns : MainsKeepRunning x) (hshows : ∀ n, (x.state n).Shows hsize (y.state n) ∧
      y.event n = (x.event n).bind MainEvent.transfer?)
    (htransmit : ∃ p, (x.state n).state.transmit = .running p)
    (hreceive : ∃ p, (x.state n).state.receive = .running p) : ProgramsKeepRunning y := by
  constructor
  · intro k
    obtain ⟨m, hle, hm⟩ := hruns.producer (max n k)
    obtain ⟨p, hrunning⟩ := transmitRunning_of_le htransmit ((le_max_left n k).trans hle)
    refine ⟨m, (le_max_right n k).trans hle, ?_⟩
    rw [(hshows m).1.transmit_eq hrunning]
    cases hresult : (x.state m).state.producerResult with
    | some code =>
        exact .inl (ProducerTransmision.hasEnded_of_result hrunning (by rw [hresult]; rfl))
    | none =>
        obtain ⟨e, hevent, he⟩ := hm.resolve_left (by rw [hresult]; nofun)
        obtain ⟨a, rfl⟩ := (x.step hevent).1.exists_transmit hrunning hresult he
        exact .inr ⟨.transmit a, by rw [(hshows m).2, hevent]; rfl, a, rfl⟩
  · intro k
    obtain ⟨m, hle, hm⟩ := hruns.consumer (max n k)
    obtain ⟨p, hrunning⟩ := receiveRunning_of_le hreceive ((le_max_left n k).trans hle)
    refine ⟨m, (le_max_right n k).trans hle, hm.imp (fun hresult => ?_) ?_⟩
    · rw [(hshows m).1.receive_eq hrunning]
      exact ConsumerTransmision.hasEnded_of_result hrunning hresult
    · rintro ⟨e, hevent, he⟩
      obtain ⟨a, rfl⟩ := (x.step hevent).1.exists_receive hrunning he
      exact ⟨.receive a, by rw [(hshows m).2, hevent]; rfl, a, rfl⟩

/-- An event that is shown is an event of the two programs. -/
theorem MainEvent.eq_transfer {event : Option MainEvent} {e : TransferEvent}
    (h : event.bind MainEvent.transfer? = some e) : event = some (.transfer e) := by
  obtain ⟨e', rfl, he'⟩ := Option.bind_eq_some_iff.1 h
  cases e' with
  | transfer e' => rw [Option.some.inj he']
  | _ => cases he'

theorem MainsSeeStores.programs
    {y : Execution (transmisionWorldLts (blockQueue size hsize).toBaseTxQueue setup .everyLoad)}
    (hsees : MainsSeeStores x) (hshows : ∀ n, (x.state n).Shows hsize (y.state n) ∧
      y.event n = (x.event n).bind MainEvent.transfer?) : ProgramsSeeStores y := by
  constructor
  · intro n
    obtain ⟨k, hk⟩ := hsees.transmit n
    refine ⟨k, fun m data hle hevent hvalid => ?_⟩
    rw [(hshows n).1.channels_eq.1, (hshows (m + 1)).1.channels_eq.1]
    exact hk m data hle (MainEvent.eq_transfer ((hshows m).2.symm.trans hevent))
      ((hshows m).1.isValid_eq.1.symm.trans hvalid)
  · intro n
    obtain ⟨k, hk⟩ := hsees.receive n
    refine ⟨k, fun m size hle hevent hvalid => ?_⟩
    rw [(hshows n).1.channels_eq.2, (hshows (m + 1)).1.channels_eq.2]
    exact hk m size hle (MainEvent.eq_transfer ((hshows m).2.symm.trans hevent))
      ((hshows m).1.isValid_eq.2.symm.trans hvalid)

end Executions

/-- The two programs in `transmision`. -/
def TransmisionWorld.running (b : BringUp) (w : TransmisionWorld σ σ') : MainsWorld σ σ' :=
  ⟨⟨b, w.state.system, .running w.state.transmit, .running w.state.receive⟩, w.log⟩

end TxQueue
