import TxQueue.Jobs.Termination
import TxQueue.Jobs.TransmisionEndToEnd

/-!
# The inter-process programs come to their end

Three phases, each ended by a party that keeps running. The producer sends the start time in a
bounded number of steps, since on a valid queue with room for a word its single attempt cannot fail.
The consumer polls: once its checks see the store to the tail that published the start time, the
next word that it tries to read is there. From then on the programs are their jobs, and what the
jobs do is an execution of the transfer behind that word.
-/

namespace TxQueue

open Library

variable {σ σ' : Type*} {queue : RingQueue} {setup : TransmisionSetup σ σ'}

/-! ## Where the two sides of the queue are -/

/-- The producer's side of the queue is where the control point of a sender says, on a queue on
which a transaction is valid when it is opened. -/
def SendControl.At {μ : Type*} (queue : BaseTxQueue) (side : Producer) : SendControl μ → Prop
  | .start => side = .idle queue
  | .opened _ => side.IsOpen queue none ∧ side.isValid = true
  | .writing _ rest => side.IsOpen queue rest.head?
  | .succeeded _ => side = .idle queue
  | .skipped => False
  | .failed => False

def ProducerTransmision.At (queue : BaseTxQueue) (source : TransmitBuffer) (side : Producer) :
    ProducerTransmision σ → Prop
  | .startTime control => control.At queue side
  | .job t => t.At queue source side
  | .error => False

def StartTimeControl.At (queue : BaseTxQueue) (side : Consumer) : StartTimeControl → Prop
  | .loop => side = .idle queue
  | .opened => side.IsOpen queue none
  | .reading => side.IsOpen queue (some 8)
  | .close _ => side.IsOpen queue none
  | .test _ => side = .idle queue

def ConsumerTransmision.At (queue : BaseTxQueue) (side : Consumer) :
    ConsumerTransmision σ → Prop
  | .startTime control => control.At queue side
  | .job _ r => r.At queue side

/-- Both sides of the queue are where the programs say. -/
structure TransmisionWorld.At (queue : BaseTxQueue) (source : TransmitBuffer)
    (w : TransmisionWorld σ σ') : Prop where
  transmit : w.state.transmit.At queue source w.state.system.producer
  receive : w.state.receive.At queue w.state.system.consumer

section At

variable {source : TransmitBuffer} {verification : Verification σ} {timestamp : Int64}
  {maxChunkSize : UInt64} {base : BaseTxQueue} {vis : Visibility} {s s' : System} {a : Action}

theorem SendControl.At.step {μ : Type*} {parts : μ → List (List UInt8)} {c c' : SendControl μ}
    {a : ReportAction μ} (hok : base.isOk) (h : c.At base s.producer)
    (hjob : SendStep parts c a c') (hacts : s.ProducerActs vis a.onQueue s') :
    c'.At base s'.producer := by
  cases hjob with
  | openWrite message => exact ⟨.of_openWrite h hacts, Step.openWrite_isValid hok h hacts⟩
  | enter =>
      obtain ⟨-, rfl⟩ := hacts
      exact h.1.of_live
  | skip =>
      obtain ⟨-, hfalse⟩ := System.ProducerActs.of_test hacts
      rw [h.2] at hfalse
      cases hfalse
  | beginWrite => exact h.beginWrite hacts
  | copyIn => exact h.copyIn hacts
  | wrote => exact h.wrote hacts
  | refuseWrite => exact h.refuseWrite hacts
  | closeSkipped => exact h.elim
  | close => exact h.closeWrite hacts

theorem ProducerTransmision.At.step {x x' : ProducerTransmision σ} (hok : base.isOk)
    (h : x.At base source s.producer)
    (hjob : ProducerTransmisionStep source verification timestamp x a x')
    (hacts : s.ProducerActs vis a s') : x'.At base source s'.producer := by
  cases hjob with
  | startTime hb hsend =>
      subst hb
      exact SendControl.At.step hok h hsend hacts
  | start =>
      obtain rfl := hacts
      exact h
  | error => exact h.elim
  | job hjob => exact Transmitter.At.step h hjob hacts

theorem StartTimeControl.At.step {c c' : StartTimeControl} (h : c.At base s.consumer)
    (hwait : StartTimeStep c a c') (hacts : s.ConsumerActs vis a s') : c'.At base s'.consumer := by
  cases hwait with
  | openRead => exact .of_openRead h hacts
  | enter | skip =>
      obtain ⟨-, rfl⟩ := hacts
      exact Consumer.IsOpen.of_live h
  | beginRead => exact Consumer.IsOpen.beginRead h hacts
  | copyOut => exact Consumer.IsOpen.copyOut h hacts
  | read => exact Consumer.IsOpen.read h hacts
  | refuseRead => exact Consumer.IsOpen.refuseRead h hacts
  | close => exact Consumer.IsOpen.closeRead h hacts
  | again =>
      obtain rfl := hacts
      exact h

theorem ConsumerTransmision.At.step {x x' : ConsumerTransmision σ} (h : x.At base s.consumer)
    (hjob : ConsumerTransmisionStep verification maxChunkSize x a x')
    (hacts : s.ConsumerActs vis a s') : x'.At base s'.consumer := by
  cases hjob with
  | startTime hwait => exact StartTimeControl.At.step h hwait hacts
  | start =>
      obtain rfl := hacts
      exact h
  | job hjob => exact Receiver.At.step h hjob hacts

/-- What the producer does leaves the consumer's side alone. -/
theorem ProducerTransmisionStep.consumer_eq {x x' : ProducerTransmision σ}
    (hjob : ProducerTransmisionStep source verification timestamp x a x')
    (hacts : s.ProducerActs vis a s') : s'.consumer = s.consumer := by
  cases a with
  | call e => exact Step.consumer_eq hacts hjob.ofProducer
  | test valid => rw [hacts.2]
  | account data | leave => rw [show s' = s from hacts]

/-- What the consumer does leaves the producer's side alone. -/
theorem ConsumerTransmisionStep.producer_eq {x x' : ConsumerTransmision σ}
    (hjob : ConsumerTransmisionStep verification maxChunkSize x a x')
    (hacts : s.ConsumerActs vis a s') : s'.producer = s.producer := by
  cases a with
  | call e => exact Step.producer_eq hacts hjob.ofProducer
  | test valid => rw [hacts.2]
  | account data | leave => rw [show s' = s from hacts]

theorem TransmisionStep.of_transmit {s s' : Transmision σ σ'}
    (hstep : TransmisionStep setup vis s (.transmit a) s') :
    ProducerTransmisionStep setup.source setup.producerVerification setup.timestamp s.transmit a
      s'.transmit ∧ s.system.ProducerActs vis a s'.system ∧ s'.receive = s.receive := by
  cases hstep with
  | transmit hjob hacts => exact ⟨hjob, hacts, rfl⟩

theorem TransmisionStep.of_receive {s s' : Transmision σ σ'}
    (hstep : TransmisionStep setup vis s (.receive a) s') :
    ConsumerTransmisionStep setup.consumerVerification setup.maxChunkSize s.receive a s'.receive ∧
      s.system.ConsumerActs vis a s'.system ∧ s'.transmit = s.transmit := by
  cases hstep with
  | receive hjob hacts => exact ⟨hjob, hacts, rfl⟩

namespace TransmisionWorld.At

variable {w w' : TransmisionWorld σ σ'} {e : TransferEvent}

theorem of_initial (hstart : (transmisionWorldLts base setup vis).initial w) :
    w.At base setup.source := by
  obtain ⟨⟨system, transmit, receive⟩, log⟩ := w
  obtain ⟨⟨hsystem, rfl, rfl⟩, -⟩ := hstart
  exact ⟨hsystem.producer, hsystem.consumer⟩

/-- Every step of either program keeps both sides where the programs say. -/
theorem step (hok : base.isOk) (h : w.At base setup.source)
    (hstep : TransmisionStep setup vis w.state e w'.state) : w'.At base setup.source := by
  cases e with
  | transmit a =>
      obtain ⟨hjob, hacts, hsame⟩ := hstep.of_transmit
      refine ⟨h.transmit.step hok hjob hacts, ?_⟩
      rw [hsame, hjob.consumer_eq hacts]
      exact h.receive
  | receive a =>
      obtain ⟨hjob, hacts, hsame⟩ := hstep.of_receive
      refine ⟨?_, h.receive.step hjob hacts⟩
      rw [hsame, hjob.producer_eq hacts]
      exact h.transmit

end TransmisionWorld.At

end At

/-! ## Every attempt comes to its end -/

/-- The number of control points up to the end of the block that sends the start time. -/
def SendControl.pointsLeft {μ : Type*} : SendControl μ → ℕ
  | .start => 5
  | .opened _ => 4
  | .writing _ rest => rest.length + 2
  | .skipped => 2
  | .failed => 1
  | .succeeded _ => 1

/-- The number of control points up to the end of a pass of the loop that waits for the start time.
A pass ends with the destructor. -/
def StartTimeControl.pointsLeft : StartTimeControl → ℕ
  | .test _ => 5
  | .loop => 4
  | .opened => 3
  | .reading => 2
  | .close _ => 1

/-- A bound for the steps of the producer up to its job. -/
def ProducerTransmision.rank (x : ProducerTransmision σ) (side : Producer) : ℕ :=
  match x with
  | .startTime control => 4 * control.pointsLeft + side.stepsLeft
  | _ => 0

/-- A bound for the steps of the consumer up to the end of its pass, before its job. -/
def ConsumerTransmision.rank (x : ConsumerTransmision σ) (side : Consumer) : ℕ :=
  match x with
  | .startTime control => 4 * control.pointsLeft + side.stepsLeft
  | _ => 0

section Rank

variable {source : TransmitBuffer} {verification : Verification σ} {timestamp : Int64}
  {maxChunkSize : UInt64} {vis : Visibility} {s s' : System} {a : Action}

/-- A step of the block that sends the start time brings its end closer. -/
theorem SendStep.rank_lt {c c' : SendControl Unit} {a : ReportAction Unit}
    (hjob : SendStep (fun _ => startTimeParts timestamp) c a c')
    (hacts : s.ProducerActs vis a.onQueue s') :
    4 * c'.pointsLeft + s'.producer.stepsLeft < 4 * c.pointsLeft + s.producer.stepsLeft := by
  cases hjob with
  | openWrite message =>
      cases hacts with
      | openWrite k hle hlt hside => simp [hside, Producer.stepsLeft, SendControl.pointsLeft]
  | enter | skip =>
      obtain ⟨-, rfl⟩ := hacts
      simp [SendControl.pointsLeft, startTimeParts]
  | beginWrite =>
      cases hacts with
      | beginWrite buffer size k hle hlt hside hreserve =>
          rw [hside]
          exact Nat.add_lt_add_left (Nat.lt_succ_of_le (copies_busy _ _ _).2) _
  | copyIn =>
      cases hacts with
      | copyIn hside => simp [hside, Producer.stepsLeft]
  | wrote =>
      cases hacts with
      | wrote hside =>
          simp only [hside, Producer.stepsLeft, SendControl.pointsLeft, List.length_cons]
          omega
  | refuseWrite =>
      cases hacts with
      | refuseWrite buffer size k core hle hlt hside hreserve =>
          simp only [hside, Producer.stepsLeft, SendControl.pointsLeft, List.length_nil,
            List.length_cons]
          omega
  | closeSkipped | close =>
      cases hacts with
      | closeWrite hside => simp [hside, Producer.stepsLeft, SendControl.pointsLeft]

/-- A step of the producer brings its job closer. -/
theorem ProducerTransmisionStep.rank_lt {x x' : ProducerTransmision σ}
    (hjob : ProducerTransmisionStep source verification timestamp x a x')
    (hacts : s.ProducerActs vis a s') (hbefore : ∀ t, x ≠ .job t) :
    x'.rank s'.producer < x.rank s.producer := by
  cases hjob with
  | startTime hb hsend =>
      subst hb
      exact hsend.rank_lt hacts
  | start | error => exact Nat.add_pos_left (Nat.succ_pos 3) _
  | job hjob => exact absurd rfl (hbefore _)

/-- A step of the loop that waits for the start time closes a transaction or brings that closer. -/
theorem StartTimeStep.rank_lt {c c' : StartTimeControl} (hwait : StartTimeStep c a c')
    (hacts : s.ConsumerActs vis a s') :
    (∃ published, a = .call (.closeRead published)) ∨
      4 * c'.pointsLeft + s'.consumer.stepsLeft < 4 * c.pointsLeft + s.consumer.stepsLeft := by
  cases hwait with
  | close => exact .inl ⟨_, rfl⟩
  | openRead =>
      right
      cases hacts with
      | openRead k hle hlt hside =>
          simp [hside, Consumer.stepsLeft, StartTimeControl.pointsLeft]
  | enter | skip =>
      obtain ⟨-, rfl⟩ := hacts
      simp [StartTimeControl.pointsLeft]
  | beginRead =>
      right
      cases hacts with
      | beginRead buffer size k hle hlt hside hreserve =>
          rw [hside]
          exact Nat.add_lt_add_left (Nat.lt_succ_of_le (copies_busy _ _ _).2) _
  | copyOut =>
      right
      cases hacts with
      | copyOut hside hsees => simp [hside, Consumer.stepsLeft]
  | read hlen =>
      right
      cases hacts with
      | read hside hsees => simp [hside, Consumer.stepsLeft, StartTimeControl.pointsLeft]
  | refuseRead =>
      right
      cases hacts with
      | refuseRead size k core hle hlt hside hreserve =>
          simp [hside, Consumer.stepsLeft, StartTimeControl.pointsLeft]
  | again =>
      obtain rfl := hacts
      simp [StartTimeControl.pointsLeft]

end Rank

/-! ## A word that is there is read -/

/-- The consumer has no transaction open that would not commit, while it waits for the start time. -/
def StartTimeControl.Valid (side : Consumer) : StartTimeControl → Prop
  | .loop => True
  | .test _ => True
  | _ => side.isValid = true

/-- If a word can be read, the consumer's transactions stay valid. -/
theorem StartTimeControl.Valid.step {base : BaseTxQueue} {vis : Visibility} {s s' : System}
    {a : Action} {c c' : StartTimeControl} (hok : base.isOk) (hat : c.At base s.consumer)
    (hvalid : c.Valid s.consumer) (hwait : StartTimeStep c a c') (hacts : s.ConsumerActs vis a s')
    (hword : c = .reading → s.consumer.isValid = true → a ≠ .call (.refuseRead 8)) :
    c'.Valid s'.consumer := by
  cases hwait with
  | openRead => exact Step.openRead_isValid hok hat hacts
  | enter =>
      obtain ⟨rfl, -⟩ := System.ConsumerActs.of_test hacts
      exact hvalid
  | skip =>
      obtain ⟨-, hfalse⟩ := System.ConsumerActs.of_test hacts
      rw [show s.consumer.isValid = true from hvalid] at hfalse
      cases hfalse
  | beginRead => exact (Step.beginRead_isValid hacts).trans hvalid
  | copyOut => exact (Step.copyOut_isValid hacts).trans hvalid
  | read => exact (Step.read_isValid hacts).trans hvalid
  | refuseRead => exact absurd rfl (hword rfl hvalid)
  | close | again => exact trivial

namespace TransmisionDelivery

variable {w : TransmisionWorld σ σ'}

/-- Where the consumer reads, nothing has been read. -/
theorem of_reading (htime : setup.timestamp ≠ 0)
    (hi : TransmisionDelivery queue.toBaseTxQueue setup w)
    (hreceive : w.state.receive = .startTime .reading) : w.log.history.localHead = 0 := by
  have hplaced := hi.receiving
  rw [hreceive] at hplaced
  obtain ⟨-, n, hconsumed, hreading⟩ := hplaced
  rw [History.localHead, History.head, hi.consumed_eq_nil htime hconsumed, hreading]
  rfl

/-- Before the destructor nothing has been taken. -/
theorem of_close {timestamp : UInt64} (htime : setup.timestamp ≠ 0)
    (hi : TransmisionDelivery queue.toBaseTxQueue setup w)
    (hreceive : w.state.receive = .startTime (.close timestamp)) :
    w.log.history.consumed = [] := by
  have hplaced := hi.receiving
  rw [hreceive] at hplaced
  obtain ⟨-, n, hconsumed, -⟩ := hplaced
  exact hi.consumed_eq_nil htime hconsumed

/-- Once the producer's job has started, the start time is the first transaction. -/
theorem boundary_one {t : Transmitter σ} (hi : TransmisionDelivery queue.toBaseTxQueue setup w)
    (htransmit : w.state.transmit = .job t) :
    1 ≤ w.state.system.down.last ∧ boundary w.log.history.written 1 = 8 := by
  have hlast : w.state.system.down.last = w.log.history.written.length :=
    hi.queue.indices.tails.last_eq
  have hsending := hi.sending
  rw [htransmit] at hsending
  obtain ⟨h, hbehind, -⟩ := hsending
  rw [hlast, hbehind]
  exact ⟨Nat.succ_pos _, by simp [boundary, History.behind]⟩

/-- A check that has loaded the store of the start time does not fail. -/
theorem not_refuseRead {t : Transmitter σ} {s : System} (htime : setup.timestamp ≠ 0)
    (hi : TransmisionDelivery queue.toBaseTxQueue setup w) (htransmit : w.state.transmit = .job t)
    (hreceive : w.state.receive = .startTime .reading)
    (hvalid : w.state.system.consumer.isValid = true) (hsees : 1 ≤ s.down.observed) :
    ¬ Step .everyLoad w.state.system (.refuseRead 8) s := by
  intro hstep
  have hshort : boundary w.log.history.written 1 < w.log.history.localHead + (8 : UInt64).toNat :=
    hi.queue.indices.short_of_seen queue.isPowTwo hstep hvalid hsees
  rw [(hi.boundary_one htransmit).2, hi.of_reading htime hreceive] at hshort
  exact absurd hshort (by decide)

end TransmisionDelivery

/-! ## Executions -/

/-- The producer has come to its end. -/
def ProducerTransmision.HasEnded : ProducerTransmision σ → Prop
  | .startTime _ => False
  | .job t => t.control = .quit
  | .error => True

/-- The consumer has come to its end. -/
def ConsumerTransmision.HasEnded : ConsumerTransmision σ → Prop
  | .startTime _ => False
  | .job _ r => r.control = .quit

/-- Each program takes steps again and again until it has come to its end. -/
structure ProgramsKeepRunning
    (x : Execution (transmisionWorldLts queue.toBaseTxQueue setup .everyLoad)) : Prop where
  transmit : ∀ n, ∃ m, n ≤ m ∧ ((x.state m).state.transmit.HasEnded ∨
    ∃ e, x.event m = some e ∧ ∃ a, e = .transmit a)
  receive : ∀ n, ∃ m, n ≤ m ∧ ((x.state m).state.receive.HasEnded ∨
    ∃ e, x.event m = some e ∧ ∃ a, e = .receive a)

/-- Stores to the indices are seen at some time by the availability checks that fail. -/
structure ProgramsSeeStores
    (x : Execution (transmisionWorldLts queue.toBaseTxQueue setup .everyLoad)) : Prop where
  transmit : ∀ n, ∃ k, ∀ m data, k ≤ m →
    x.event m = some (.transmit (.call (.refuseWrite data))) →
    (x.state m).state.system.producer.isValid = true →
    (x.state n).state.system.up.last ≤ (x.state (m + 1)).state.system.up.observed
  receive : ∀ n, ∃ k, ∀ m size, k ≤ m →
    x.event m = some (.receive (.call (.refuseRead size))) →
    (x.state m).state.system.consumer.isValid = true →
    (x.state n).state.system.down.last ≤ (x.state (m + 1)).state.system.down.observed

section Executions

variable {x : Execution (transmisionWorldLts queue.toBaseTxQueue setup .everyLoad)} {n m : ℕ}

/-- A job that has started goes on. -/
theorem transmitJob_of_le (hjob : ∃ t, (x.state n).state.transmit = .job t) (hle : n ≤ m) :
    ∃ t, (x.state m).state.transmit = .job t := by
  refine x.induct (I := fun w => ∃ t, w.state.transmit = .job t) hjob ?_ hle
  rintro k e - hevent ⟨t, htransmit⟩
  cases e with
  | transmit a =>
      obtain ⟨hstep, -, -⟩ := (x.step hevent).1.of_transmit
      rw [htransmit] at hstep
      generalize (x.state (k + 1)).state.transmit = y at hstep ⊢
      cases hstep with
      | job hjob => exact ⟨_, rfl⟩
  | receive a =>
      obtain ⟨-, -, hsame⟩ := (x.step hevent).1.of_receive
      exact ⟨t, hsame.trans htransmit⟩

theorem receiveJob_of_le {startTime : Int64}
    (hjob : ∃ r, (x.state n).state.receive = .job startTime r) (hle : n ≤ m) :
    ∃ r, (x.state m).state.receive = .job startTime r := by
  refine x.induct (I := fun w => ∃ r, w.state.receive = .job startTime r) hjob ?_ hle
  rintro k e - hevent ⟨r, hreceive⟩
  cases e with
  | receive a =>
      obtain ⟨hstep, -, -⟩ := (x.step hevent).1.of_receive
      rw [hreceive] at hstep
      generalize (x.state (k + 1)).state.receive = y at hstep ⊢
      cases hstep with
      | job hjob => exact ⟨_, rfl⟩
  | transmit a =>
      obtain ⟨-, -, hsame⟩ := (x.step hevent).1.of_transmit
      exact ⟨r, hsame.trans hreceive⟩

/-- The producer comes to its job. -/
theorem exists_transmitJob (hplaced : ∀ m, (x.state m).At queue.toBaseTxQueue setup.source)
    (hruns : ProgramsKeepRunning x) : ∃ n t, (x.state n).state.transmit = .job t := by
  by_contra hnever
  have hbefore : ∀ m t, (x.state m).state.transmit ≠ .job t := fun m t h => hnever ⟨m, t, h⟩
  have hoften : x.Often fun e => ∃ a, e = .transmit a := by
    intro k
    obtain ⟨m, hle, hm⟩ := hruns.transmit k
    refine ⟨m, hle, hm.resolve_left fun hended => ?_⟩
    have hat := (hplaced m).transmit
    have hnot := hbefore m
    generalize (x.state m).state.transmit = y at hended hat hnot
    cases y with
    | startTime control => exact hended
    | job t => exact hnot t rfl
    | error => exact hat
  -- each of its steps brings it closer
  refine hoften.not_descending (n := 0)
    (fun w => w.state.transmit.rank w.state.system.producer) ?_ ?_
  · rintro m _ - hevent ⟨a, rfl⟩
    obtain ⟨hjob, hacts, -⟩ := (x.step hevent).1.of_transmit
    exact hjob.rank_lt hacts (hbefore m)
  · rintro m e - hevent hother
    cases e with
    | transmit a => exact absurd ⟨a, rfl⟩ hother
    | receive a =>
        obtain ⟨hjob, hacts, hsame⟩ := (x.step hevent).1.of_receive
        rw [hsame, hjob.producer_eq hacts]

section Waiting

variable {a : Action} {c : StartTimeControl}

/-- A consumer that waits for ever takes the steps of its loop. -/
theorem startTimeStep_of_waits (hwaits : ∀ m, ∃ c, (x.state m).state.receive = .startTime c)
    (hevent : x.event m = some (.receive a)) (hreceive : (x.state m).state.receive = .startTime c) :
    ∃ c', (x.state (m + 1)).state.receive = .startTime c' ∧ StartTimeStep c a c' ∧
      (x.state m).state.system.ConsumerActs .everyLoad a (x.state (m + 1)).state.system := by
  obtain ⟨hjob, hacts, -⟩ := (x.step hevent).1.of_receive
  obtain ⟨c', hreceive'⟩ := hwaits (m + 1)
  rw [hreceive, hreceive'] at hjob
  cases hjob with
  | startTime hwait => exact ⟨c', hreceive', hwait, hacts⟩

/-- A consumer that waits for ever closes transactions again and again. -/
theorem often_closeStartTime (hwaits : ∀ m, ∃ c, (x.state m).state.receive = .startTime c)
    (hruns : ProgramsKeepRunning x) :
    x.Often fun e => ∃ published, e = .receive (.call (.closeRead published)) := by
  have hoften : x.Often fun e => ∃ a, e = .receive a := by
    intro k
    obtain ⟨m, hle, hm⟩ := hruns.receive k
    refine ⟨m, hle, hm.resolve_left fun hended => ?_⟩
    obtain ⟨c, hreceive⟩ := hwaits m
    rw [hreceive] at hended
    exact hended
  intro k
  refine hoften.finish (fun w => w.state.receive.rank w.state.system.consumer) ?_ ?_
  · rintro m _ - hevent ⟨a, rfl⟩
    obtain ⟨c, hreceive⟩ := hwaits m
    obtain ⟨c', hreceive', hwait, hacts⟩ := startTimeStep_of_waits hwaits hevent hreceive
    rw [hreceive, hreceive']
    rcases hwait.rank_lt hacts with ⟨published, rfl⟩ | hlt
    · exact .inl ⟨published, rfl⟩
    · exact .inr hlt
  · rintro m e - hevent hother
    cases e with
    | receive a => exact absurd ⟨a, rfl⟩ hother
    | transmit a =>
        obtain ⟨hjob, hacts, hsame⟩ := (x.step hevent).1.of_transmit
        rw [hsame, hjob.consumer_eq hacts]

/-- Such a consumer is at the destructor when it closes a transaction. -/
theorem close_of_waits {published : Bool}
    (hwaits : ∀ m, ∃ c, (x.state m).state.receive = .startTime c)
    (hevent : x.event m = some (.receive (.call (.closeRead published)))) :
    ∃ timestamp, (x.state m).state.receive = .startTime (.close timestamp) ∧
      (x.state (m + 1)).state.receive = .startTime (.test timestamp) := by
  obtain ⟨c, hreceive⟩ := hwaits m
  obtain ⟨c', hreceive', hwait, -⟩ := startTimeStep_of_waits hwaits hevent hreceive
  cases hwait with
  | close => exact ⟨_, hreceive, hreceive'⟩

end Waiting

/-- Once the producer's job has started, the consumer comes to its own. -/
theorem exists_receiveJob (hok : queue.isOk) (htime : setup.timestamp ≠ 0)
    (hdelivery : ∀ m, TransmisionDelivery queue.toBaseTxQueue setup (x.state m))
    (hplaced : ∀ m, (x.state m).At queue.toBaseTxQueue setup.source)
    (hruns : ProgramsKeepRunning x) (hsees : ProgramsSeeStores x)
    (hjob : ∃ t, (x.state n).state.transmit = .job t) :
    ∃ m r, (x.state m).state.receive = .job setup.timestamp r := by
  by_contra hnever
  have hwaits : ∀ m, ∃ c, (x.state m).state.receive = .startTime c := by
    intro m
    cases hreceive : (x.state m).state.receive with
    | startTime c => exact ⟨c, rfl⟩
    | job startTime r =>
        obtain ⟨rfl, -⟩ := (hdelivery m).exists_receiving htime hreceive
        exact absurd ⟨m, r, hreceive⟩ hnever
  have hclose := often_closeStartTime hwaits hruns
  -- from some moment on every check sees the start time, and transactions stay valid
  obtain ⟨k, hk⟩ := hsees.receive n
  obtain ⟨m₁, hm₁, _, hevent₁, ⟨published₁, rfl⟩, c, hreceive₁, hvalid⟩ := hclose.holding
    (n := max n k) (I := fun w => ∃ c, w.state.receive = .startTime c ∧
      c.Valid w.state.system.consumer) (by
      rintro m _ - hevent ⟨published, rfl⟩
      obtain ⟨timestamp, -, hreceive⟩ := close_of_waits hwaits hevent
      exact ⟨_, hreceive, trivial⟩) (by
      rintro m e hm hevent ⟨c, hreceive, hvalid⟩
      cases e with
      | transmit a =>
          obtain ⟨hjob, hacts, hsame⟩ := (x.step hevent).1.of_transmit
          rw [hsame, hjob.consumer_eq hacts]
          exact ⟨c, hreceive, hvalid⟩
      | receive a =>
          obtain ⟨c', hreceive', hwait, hacts⟩ := startTimeStep_of_waits hwaits hevent hreceive
          have hat := (hplaced m).receive
          rw [hreceive] at hat
          refine ⟨c', hreceive', hvalid.step hok hat hwait hacts ?_⟩
          rintro rfl hopen rfl
          obtain ⟨t, htransmit⟩ := transmitJob_of_le hjob ((le_max_left n k).trans hm)
          obtain ⟨t', htransmit'⟩ := hjob
          have hseen := hk m 8 ((le_max_right n k).trans hm) hevent hopen
          have hlast := ((hdelivery n).boundary_one htransmit').1
          exact (hdelivery m).not_refuseRead htime htransmit hreceive hopen (hlast.trans hseen)
            hacts)
  -- so the next transaction commits, and there is none after it
  obtain ⟨timestamp₁, hclose₁, -⟩ := close_of_waits hwaits hevent₁
  obtain rfl := ConsumerTransmision.startTime.inj (hreceive₁.symm.trans hclose₁)
  have hpublished : published₁ = true :=
    (Step.closeRead_published (x.step hevent₁).1.of_receive.2.1).trans hvalid
  obtain ⟨m₂, hm₂, _, hevent₂, published₂, rfl⟩ := hclose (m₁ + 1)
  obtain ⟨timestamp₂, hreceive₂, -⟩ := close_of_waits hwaits hevent₂
  have hnil := (hdelivery m₂).of_close htime hreceive₂
  have hprefix : (x.state (m₁ + 1)).log.history.consumed <+:
      (x.state m₂).log.history.consumed := by
    refine x.induct (I := fun w => (x.state (m₁ + 1)).log.history.consumed <+:
      w.log.history.consumed) List.prefix_rfl ?_ hm₂
    intro m e _ hevent hm
    rw [(x.step hevent).2]
    exact hm.trans ((x.state m).log.record_isPrefix e).2
  rw [hnil, List.prefix_nil, (x.step hevent₁).2, hpublished] at hprefix
  simp [TransferLog.record, History.record] at hprefix

end Executions

/-! ## The programs at their jobs -/

/-- What the two sides have committed after their first transactions. -/
def History.afterFirst (h : History) : History :=
  { h with written := h.written.tail, consumed := h.consumed.tail }

/-- The consumer's job, before its first step until the start time has been taken. -/
def ConsumerTransmision.receiver (verification : Verification σ) (maxChunkSize : UInt64) :
    ConsumerTransmision σ → Receiver σ
  | .job _ r => r
  | _ => ⟨.loop, .start verification, List.replicate maxChunkSize.toNat 0⟩

/-- The transfer that the jobs of the two programs make behind the start time, without hashes. -/
def TransmisionWorld.transfer (setup : TransmisionSetup σ σ') (w : TransmisionWorld σ σ') :
    TransferWorld Unit where
  state := ⟨w.state.system,
    (w.state.transmit.transmitter setup.producerVerification).map fun _ => (),
    (w.state.receive.receiver setup.consumerVerification setup.maxChunkSize).map fun _ => ()⟩
  log := { w.log with history := w.log.history.afterFirst }

section Jobs

variable {v : TransferWorld (σ × σ')} {w : TransmisionWorld σ σ'} {e : TransferEvent}

/-- What the programs do at their jobs is a step of that transfer. -/
theorem transferStep_of_job
    (hstep : (transmisionWorldLts queue.toBaseTxQueue setup .everyLoad).step
      (.ofTransfer setup.timestamp v) e w) :
    (transferWorldLts queue.toBaseTxQueue setup.source .unit setup.maxChunkSize .everyLoad).step
      (TransmisionWorld.transfer setup (.ofTransfer setup.timestamp v)) e (w.transfer setup) := by
  obtain ⟨state, log⟩ := w
  obtain ⟨hstep, rfl⟩ := hstep
  have hbehind : (TransmisionWorld.ofTransfer setup.timestamp v).log.history =
      v.log.history.behind [le64 setup.timestamp.toUInt64] [le64 setup.timestamp.toUInt64] := rfl
  have hlog := TransferLog.record_behind hbehind e
  refine ⟨?_, ?_⟩
  · cases hstep with
    | transmit hjob hacts =>
        cases hjob with
        | job hjob => exact .transmit (hjob.map (Verification.morphism_unit _)) hacts
    | receive hjob hacts =>
        cases hjob with
        | job hjob => exact .receive (hjob.map (Verification.morphism_unit _)) hacts
  · rw [TransmisionWorld.transfer, hlog]
    rfl

/-- That transfer satisfies the invariant of a transfer behind the start time. -/
theorem deliveryBehind_transfer
    (hbehind : DeliveryBehind queue.toBaseTxQueue setup.source setup.verification
      [le64 setup.timestamp.toUInt64] v) :
    DeliveryBehind queue.toBaseTxQueue setup.source .unit [le64 setup.timestamp.toUInt64]
      (TransmisionWorld.transfer setup (.ofTransfer setup.timestamp v)) :=
  ⟨hbehind.queue,
    ⟨hbehind.sending.chunks, hbehind.sending.fromSource, hbehind.sending.total, rfl,
      hbehind.sending.control⟩,
    ⟨hbehind.receiving.chunks, hbehind.receiving.total, rfl, hbehind.receiving.control⟩⟩

end Jobs

/-- If any message fits the queue, both programs come to their ends in every execution in which they
keep running and their checks see the stores after some time. -/
theorem exists_quit_programs (hok : queue.isOk) (hmin : 1 ≤ setup.source.minChunkSize_)
    (hfits : min setup.source.maxChunkSize_.toNat setup.source.srcData_.length + 8 ≤
      queue.capacity.toNat) (htime : setup.timestamp ≠ 0)
    {x : Execution (transmisionWorldLts queue.toBaseTxQueue setup .everyLoad)}
    (hstart : (transmisionWorldLts queue.toBaseTxQueue setup .everyLoad).initial (x.state 0))
    (hruns : ProgramsKeepRunning x) (hsees : ProgramsSeeStores x) :
    ∃ n, TransmisionDelivery queue.toBaseTxQueue setup (x.state n) ∧
      ∃ t r, (x.state n).state.transmit = .job t ∧ t.control = .quit ∧
        (x.state n).state.receive = .job setup.timestamp r ∧ r.control = .quit ∧
        (x.state n).log.accepted.flatten = setup.source.srcData_ := by
  have hroom : 8 ≤ queue.capacity.toNat := by omega
  have hdelivery : ∀ m, TransmisionDelivery queue.toBaseTxQueue setup (x.state m) :=
    fun m => x.induct (n := 0) (.of_initial hstart)
      (fun m e _ hevent hi => hi.step hmin hroom (x.step hevent)) m.zero_le
  have hplaced : ∀ m, (x.state m).At queue.toBaseTxQueue setup.source :=
    fun m => x.induct (n := 0) (.of_initial hstart)
      (fun m e _ hevent h => h.step hok (x.step hevent).1) m.zero_le
  obtain ⟨n₁, htransmit⟩ := exists_transmitJob hplaced hruns
  obtain ⟨n₂, hreceive⟩ := exists_receiveJob hok htime hdelivery hplaced hruns hsees htransmit
  -- from here the programs are their jobs
  let n := max n₁ n₂
  have htransfer : ∀ m, n ≤ m → ∃ v : TransferWorld (σ × σ'),
      x.state m = .ofTransfer setup.timestamp v ∧
      DeliveryBehind queue.toBaseTxQueue setup.source setup.verification
        [le64 setup.timestamp.toUInt64] v := by
    intro m hle
    obtain ⟨t, htransmit⟩ := transmitJob_of_le htransmit ((le_max_left n₁ n₂).trans hle)
    obtain ⟨r, hreceive⟩ := receiveJob_of_le hreceive ((le_max_right n₁ n₂).trans hle)
    exact (hdelivery m).exists_transfer htime htransmit hreceive
  let y : Execution (transferWorldLts queue.toBaseTxQueue setup.source .unit setup.maxChunkSize
      .everyLoad) := x.image (TransmisionWorld.transfer setup) n (by
    intro m e hle hevent
    obtain ⟨v, hv, -⟩ := htransfer m hle
    have hstep := x.step hevent
    rw [hv] at hstep ⊢
    exact transferStep_of_job hstep)
  have hjobs : ∀ m, ∃ v : TransferWorld (σ × σ'), x.state (n + m) = .ofTransfer setup.timestamp v ∧
      DeliveryBehind queue.toBaseTxQueue setup.source setup.verification
        [le64 setup.timestamp.toUInt64] v ∧
      y.state m = TransmisionWorld.transfer setup (.ofTransfer setup.timestamp v) := by
    intro m
    obtain ⟨v, hv, hbehind⟩ := htransfer (n + m) (Nat.le_add_right n m)
    exact ⟨v, hv, hbehind, congrArg (TransmisionWorld.transfer setup) hv⟩
  have hrunning : KeepsRunning y := by
    constructor
    · intro k
      obtain ⟨m, hle, hm⟩ := hruns.transmit (n + k)
      obtain ⟨j, rfl⟩ := Nat.exists_eq_add_of_le ((Nat.le_add_right n k).trans hle)
      obtain ⟨v, hv, -, hy⟩ := hjobs j
      rw [hv] at hm
      refine ⟨j, Nat.le_of_add_le_add_left hle, ?_⟩
      rw [hy]
      exact hm
    · intro k
      obtain ⟨m, hle, hm⟩ := hruns.receive (n + k)
      obtain ⟨j, rfl⟩ := Nat.exists_eq_add_of_le ((Nat.le_add_right n k).trans hle)
      obtain ⟨v, hv, -, hy⟩ := hjobs j
      rw [hv] at hm
      refine ⟨j, Nat.le_of_add_le_add_left hle, ?_⟩
      rw [hy]
      exact hm
  have hseen : SeesStores y := by
    constructor
    · intro m
      obtain ⟨k, hk⟩ := hsees.transmit (n + m)
      exact ⟨k, fun j data hle hevent => hk (n + j) data (Nat.le_add_left_of_le hle) hevent⟩
    · intro m
      obtain ⟨k, hk⟩ := hsees.receive (n + m)
      exact ⟨k, fun j size hle hevent => hk (n + j) size (Nat.le_add_left_of_le hle) hevent⟩
  obtain ⟨v₀, hv₀, hbehind₀, hy₀⟩ := hjobs 0
  have hat : (y.state 0).At queue.toBaseTxQueue setup.source := by
    have hat := hplaced (n + 0)
    rw [hv₀] at hat
    rw [hy₀]
    exact ⟨hat.transmit, hat.receive⟩
  obtain ⟨m, hquit⟩ := receive_quits hok hmin hfits (hy₀ ▸ deliveryBehind_transfer hbehind₀) hat
    hrunning hseen
  obtain ⟨v, hv, hbehind, hy⟩ := hjobs m
  have hquit : v.state.receive.control = .quit := by
    rw [hy] at hquit
    exact hquit
  obtain ⟨heq, hsource, htransmit⟩ :=
    (hbehind.receiving.accepted_isPrefix hbehind.sending hbehind.read_isPrefix).2
      (by rw [hquit]; trivial)
  refine ⟨n + m, hdelivery (n + m), v.state.transmit.map Prod.fst, v.state.receive.map Prod.snd, ?_⟩
  rw [hv]
  exact ⟨rfl, htransmit, rfl, hquit, heq ▸ hsource⟩

/-- In every execution in which both programs keep running and their checks see the stores after some
time, with a start time that is not zero and a queue that can hold any message, both come to their
ends, and the consumer's job has the start time and the whole source. -/
theorem transmision_terminates (queue : RingQueue) (setup : TransmisionSetup σ σ')
    (hok : queue.isOk) (hmin : 1 ≤ setup.source.minChunkSize_)
    (hfits : min setup.source.maxChunkSize_.toNat setup.source.srcData_.length + 8 ≤
      queue.capacity.toNat) (htime : setup.timestamp ≠ 0)
    (x : Execution (transmisionWorldLts queue.toBaseTxQueue setup .everyLoad))
    (hstart : (transmisionWorldLts queue.toBaseTxQueue setup .everyLoad).initial (x.state 0))
    (hruns : ProgramsKeepRunning x) (hsees : ProgramsSeeStores x) :
    ∃ n t r, (x.state n).state.transmit = .job t ∧ t.control = .quit ∧
      (x.state n).state.receive = .job setup.timestamp r ∧ r.control = .quit ∧
      (x.state n).log.accepted.flatten = setup.source.srcData_ := by
  obtain ⟨n, -, t, r, hquit⟩ := exists_quit_programs hok hmin hfits htime hstart hruns hsees
  exact ⟨n, t, r, hquit⟩

/-- The consumer's job is over only when the producer's is. -/
theorem TransmisionDelivery.exists_quit_transmit {w : TransmisionWorld σ σ'} {startTime : Int64}
    {r : Receiver σ'} (htime : setup.timestamp ≠ 0)
    (hi : TransmisionDelivery queue.toBaseTxQueue setup w)
    (hreceive : w.state.receive = .job startTime r) (hquit : r.control = .quit) :
    ∃ t, w.state.transmit = .job t ∧ t.control = .quit := by
  obtain ⟨-, h, h', hsending, hreceiving, hread⟩ := hi.exists_receiving htime hreceive
  obtain ⟨-, -, htransmit⟩ := (hreceiving.accepted_isPrefix hsending hread).2
    (by rw [hquit]; trivial)
  exact ⟨_, ProducerTransmision.eq_job_of_quit htransmit, htransmit⟩

/-- From every start there is such an execution: one that stands still once both programs have come
to their ends. -/
theorem exists_programsKeepRunning {start : TransmisionWorld σ σ'} (hok : queue.isOk)
    (hmin : 1 ≤ setup.source.minChunkSize_)
    (hle : setup.source.minChunkSize_ ≤ setup.source.maxChunkSize_)
    (hcompletable : setup.source.Completable queue.capacity.toNat) (htime : setup.timestamp ≠ 0)
    (hstart : (transmisionWorldLts queue.toBaseTxQueue setup .everyLoad).initial start) :
    ∃ x : Execution (transmisionWorldLts queue.toBaseTxQueue setup .everyLoad),
      x.state 0 = start ∧ ProgramsKeepRunning x ∧ ProgramsSeeStores x := by
  have hroom : 8 ≤ queue.capacity.toNat := hcompletable.signal
  have hi : TransmisionDelivery queue.toBaseTxQueue setup start := .of_initial hstart
  have hrests : start.Rests queue.toBaseTxQueue := by
    obtain ⟨⟨system, transmit, receive⟩, log⟩ := start
    obtain ⟨⟨hsystem, rfl, rfl⟩, -⟩ := hstart
    exact ⟨hsystem.producer, hsystem.consumer, trivial, trivial⟩
  obtain ⟨w, r, ⟨ts, hrun, -⟩, hreceive, hquit, -⟩ :=
    hi.leads_quit hok hmin hle hcompletable htime hrests
  have hi : TransmisionDelivery queue.toBaseTxQueue setup w :=
    hrun.invariant hi fun _ _ _ hi hstep => hi.step hmin hroom hstep
  obtain ⟨t, htransmit, hquit'⟩ := hi.exists_quit_transmit htime hreceive hquit
  obtain ⟨x, hx, n, hn⟩ := Execution.exists_of_run hrun
  have hstill : ∀ k m e, max n k ≤ m → x.event m ≠ some e := by
    intro k m e hle hevent
    rw [(hn m ((le_max_left n k).trans hle)).2] at hevent
    cases hevent
  refine ⟨x, hx, ⟨fun k => ?_, fun k => ?_⟩,
    ⟨fun k => ⟨max n k, fun m data hle hevent => (hstill k m _ hle hevent).elim⟩,
      fun k => ⟨max n k, fun m size hle hevent => (hstill k m _ hle hevent).elim⟩⟩⟩
  · refine ⟨max n k, le_max_right n k, .inl ?_⟩
    rw [(hn _ (le_max_left n k)).1, htransmit]
    exact hquit'
  · refine ⟨max n k, le_max_right n k, .inl ?_⟩
    rw [(hn _ (le_max_left n k)).1, hreceive]
    exact hquit

/-- `transmision_terminates` on a transfer of three bytes. -/
theorem transmision_terminates_three_bytes :
    ∃ x : Execution (transmisionWorldLts frameQueue.toBaseTxQueue threeBytesSetup .everyLoad),
      ProgramsKeepRunning x ∧ ProgramsSeeStores x ∧ ∃ n r,
        (x.state n).state.receive = .job 5 r ∧ r.control = .quit ∧
        (x.state n).log.accepted.flatten = [1, 2, 3] := by
  have hstart := freshTransmision_initial frameQueue.toBaseTxQueue threeBytesSetup .everyLoad
  obtain ⟨x, hx, hruns, hsees⟩ := exists_programsKeepRunning (by decide) (by decide) (by decide)
    ⟨by decide, fun _ => by decide⟩ (by decide) hstart
  obtain ⟨n, -, r, -, -, hreceive, hquit, hflatten⟩ :=
    transmision_terminates frameQueue threeBytesSetup (by decide) (by decide) (by decide)
      (by decide) x (hx ▸ hstart) hruns hsees
  exact ⟨x, hruns, hsees, n, r, hreceive, hquit, hflatten⟩

end TxQueue
