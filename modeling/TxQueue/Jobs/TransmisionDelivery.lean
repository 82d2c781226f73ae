import TxQueue.Jobs.Delivery
import TxQueue.Jobs.Reporting
import TxQueue.Jobs.Transmision

/-!
# The inter-process programs deliver the start time and the buffer

The start time is the first word on the queue, and the frames follow it. A queue that holds a word
has room for it, so the producer's block does not lose it, and a start time that is not zero ends
the loop of the consumer at once. What the two jobs then see is the history behind that word.
-/

namespace TxQueue

open Library

variable {σ σ' : Type*}

/-- To the log, a sender's action is what it does to the history. -/
theorem TransferLog.record_onQueue {μ : Type*} (log : TransferLog) (a : ReportAction μ) :
    log.record (.transmit a.onQueue) = { log with history := a.record log.history } := by
  cases a <;> rfl

/-! ## The producer -/

/-- What the producer has committed: nothing, the start time, or the start time and what its job has
committed behind it. -/
def ProducerTransmision.Placed (source : TransmitBuffer) (verification : Verification σ)
    (timestamp : Int64) (valid : Bool) (h : History) (sent : List (List UInt8)) :
    ProducerTransmision σ → Prop
  | .startTime control =>
      sent = [] ∧
        Reporting (fun _ : Unit => startTimeParts timestamp) [] control valid h [] True
  | .job t =>
      ∃ h', h = h'.behind [le64 timestamp.toUInt64] [] ∧
        Sending source verification t valid h' sent
  | .error => sent = [] ∧ h.written = []

/-- On a queue that is empty and holds the word, the block that sends the start time finds room. -/
theorem Reporting.hasRoom_of_startTime {timestamp : Int64} {c c' : SendControl Unit}
    {a : ReportAction Unit} {cap : UInt64} {s s' : System} {h h' : History}
    (hroom : 8 ≤ cap.toNat - 1)
    (hi : Reporting (fun _ : Unit => startTimeParts timestamp) [] c s.producer.isValid h [] True)
    (hsend : SendStep (fun _ => startTimeParts timestamp) c a c') :
    a.HasRoom cap ⟨s, h⟩ ⟨s', h'⟩ := by
  have hplaced := hi.placed
  have hwritten := (hi.reported trivial).2
  have hfits : ∀ part rest, c = .writing () (part :: rest) →
      World.HasRoomFor cap ⟨s, h⟩ ⟨s', h'⟩ part := by
    intro part rest hc
    subst hc
    obtain ⟨hopen, hwriting⟩ := hplaced
    have hword := congrArg List.length (hwriting (hopen (List.cons_ne_nil _ _)))
    have hempty : h.written = [] := by simpa [SendControl.pending] using hwritten
    simp only [List.length_append, List.flatten_cons, startTimeParts, List.flatten_nil,
      length_le64, List.length_nil] at hword
    simp only [World.HasRoomFor, History.localTail, History.tail, hempty, List.flatten_nil,
      List.length_nil]
    omega
  cases hsend with
  | beginWrite => exact hfits _ _ rfl
  | refuseWrite => exact hfits _ _ rfl
  | _ => trivial

namespace ProducerTransmision

variable {source : TransmitBuffer} {verification : Verification σ} {timestamp : Int64}
  {x x' : ProducerTransmision σ} {cap : UInt64} {vis : Visibility} {s s' : System}
  {log : TransferLog} {a : Action}

/-- Every step of the producer keeps its invariant. -/
theorem Placed.step (hcap : IsPowTwo cap) (hroom : 8 ≤ cap.toNat - 1)
    (hmin : 1 ≤ source.minChunkSize_) (hindices : Indices cap ⟨s, log.history⟩)
    (hi : x.Placed source verification timestamp s.producer.isValid log.history log.sent)
    (hjob : ProducerTransmisionStep source verification timestamp x a x')
    (hacts : s.ProducerActs vis a s') :
    x'.Placed source verification timestamp s'.producer.isValid (log.record (.transmit a)).history
      (log.record (.transmit a)).sent := by
  cases hjob with
  | startTime hb hsend =>
      subst hb
      obtain ⟨hsent, hreporting⟩ := hi
      have hnext := hreporting.step hcap hindices hsend hacts
      rw [true_and, eq_true (hreporting.hasRoom_of_startTime hroom hsend)] at hnext
      rw [log.record_onQueue]
      exact ⟨hsent, hnext⟩
  -- the start time is committed, since there was room for it
  | start =>
      obtain rfl := hacts
      obtain ⟨hsent, hreporting⟩ := hi
      have hwritten : log.history.written = [le64 timestamp.toUInt64] := by
        simpa [SendControl.pending, startTimeParts] using (hreporting.reported trivial).2
      refine ⟨{ log.history with written := [] }, ?_, ?_⟩
      · exact congrArg (fun written => { log.history with written := written }) hwritten
      · rw [show (log.record (.transmit .leave)).sent = [] from hsent]
        exact ⟨by simp, List.nil_prefix, rfl, rfl, rfl⟩
  | error =>
      obtain rfl := hacts
      obtain ⟨hsent, hreporting⟩ := hi
      exact ⟨hsent, (hreporting.reported trivial).2⟩
  | job hjob =>
      obtain ⟨h', hbehind, hsending⟩ := hi
      let log' : TransferLog := { log with history := h' }
      have hsame : log'.history.writing = log.history.writing := by rw [hbehind]; rfl
      have hi' : Sending source verification _ s.producer.isValid log'.history log'.sent := hsending
      have hnext := hi'.step_of_writing hmin hindices hsame hjob hacts
      rw [TransferLog.record_behind hbehind]
      exact ⟨_, rfl, hnext⟩

/-- A step of the consumer leaves the invariant of the producer alone. -/
theorem Placed.of_receive {verification' : Verification σ'} {maxChunkSize : UInt64}
    {y y' : ConsumerTransmision σ'}
    (hi : x.Placed source verification timestamp s.producer.isValid log.history log.sent)
    (hjob : ConsumerTransmisionStep verification' maxChunkSize y a y')
    (hacts : s.ConsumerActs vis a s') :
    x.Placed source verification timestamp s'.producer.isValid (log.record (.receive a)).history
      (log.record (.receive a)).sent := by
  cases a with
  | call e =>
      have he := hjob.ofProducer
      have hproducer := Step.producer_eq hacts he
      cases x with
      | startTime control => exact ⟨hi.1, hi.2.of_consumer he hacts⟩
      | job t =>
          obtain ⟨h', hbehind, hsending⟩ := hi
          obtain ⟨hwritten, hwriting⟩ := h'.record_of_consumer he
          rw [TransferLog.record_behind hbehind, hproducer]
          refine ⟨h'.record e, rfl, hsending.goto ?_⟩
          rw [hwritten, hwriting]
          exact hsending.control
      | error => exact ⟨hi.1, (log.history.record_of_consumer he).1.trans hi.2⟩
  | test valid =>
      obtain ⟨-, rfl⟩ := hacts
      exact hi
  | account data =>
      obtain rfl := hacts
      exact hi
  | leave =>
      obtain rfl := hacts
      exact hi

/-- What the producer's job has committed stands behind the start time. -/
theorem Placed.exists_sending {valid : Bool} {h : History} {sent : List (List UInt8)}
    (hi : x.Placed source verification timestamp valid h sent) :
    ∃ h', Sending source verification (x.transmitter verification) valid h' sent ∧
      (h.written = [] ∨ h.written = le64 timestamp.toUInt64 :: h'.written) := by
  have hstart : sent = [] →
      Sending source verification ⟨.loop, .start verification⟩ valid {} sent := by
    intro hsent
    subst hsent
    exact ⟨by simp, List.nil_prefix, rfl, rfl, rfl⟩
  cases x with
  | startTime control =>
      obtain ⟨hsent, hreporting⟩ := hi
      refine ⟨{}, hstart hsent, ?_⟩
      have hwritten := (hreporting.reported trivial).2
      cases control with
      | succeeded => exact .inr (by simpa [SendControl.pending, startTimeParts] using hwritten)
      | _ => exact .inl hwritten
  | job t =>
      obtain ⟨h', rfl, hsending⟩ := hi
      exact ⟨h', hsending, .inr rfl⟩
  | error => exact ⟨{}, hstart hi.1, .inl hi.2⟩

end ProducerTransmision

/-! ## The consumer -/

/-- What a control point of the loop that waits for the start time says about the open transaction
and the history, given the zeros that it has passed over. -/
def StartTimeControl.Placed (valid : Bool) (consumed : List (List UInt8)) (reading : List UInt8)
    (zeros : List (List UInt8)) : StartTimeControl → Prop
  | .loop => consumed = zeros
  | .opened => consumed = zeros ∧ reading = []
  | .reading => consumed = zeros ∧ reading = []
  | .close timestamp =>
      consumed = zeros ∧ if valid then reading = le64 timestamp else timestamp = 0
  | .test timestamp => consumed = zeros ++ if timestamp = 0 then [] else [le64 timestamp]

/-- What the consumer has taken: zeros, and once its job has started a start time and what its job
has taken behind it. -/
def ConsumerTransmision.Placed (verification : Verification σ) (valid : Bool) (h : History)
    (accepted : List (List UInt8)) : ConsumerTransmision σ → Prop
  | .startTime control =>
      accepted = [] ∧ ∃ n, control.Placed valid h.consumed h.reading (List.replicate n (le64 0))
  | .job time r =>
      ∃ n timestamp h', timestamp ≠ 0 ∧ time = timestamp.toInt64 ∧
        h = h'.behind [] (List.replicate n (le64 0) ++ [le64 timestamp]) ∧
        Receiving verification r valid h' accepted

/-- Every step of the loop keeps its invariant. -/
theorem StartTimeControl.Placed.step {c c' : StartTimeControl} {cap : UInt64} {vis : Visibility}
    {s s' : System} {log : TransferLog} {a : Action} {n : ℕ}
    (hindices : Indices cap ⟨s, log.history⟩)
    (hi : c.Placed s.consumer.isValid log.history.consumed log.history.reading
      (List.replicate n (le64 0)))
    (hwait : StartTimeStep c a c') (hacts : s.ConsumerActs vis a s') :
    ∃ n', c'.Placed s'.consumer.isValid (log.record (.receive a)).history.consumed
      (log.record (.receive a)).history.reading (List.replicate n' (le64 0)) := by
  cases hwait with
  | openRead => exact ⟨n, hi, Receiving.reading_of_openRead hindices hacts⟩
  | enter =>
      obtain ⟨-, rfl⟩ := hacts
      exact ⟨n, hi⟩
  | skip =>
      obtain ⟨rfl, hinvalid⟩ := hacts.of_test
      exact ⟨n, hi.1, by simp [hinvalid]⟩
  | beginRead => exact ⟨n, hi⟩
  | copyOut => exact ⟨n, hi⟩
  | @read data hlen =>
      obtain ⟨hconsumed, hreading⟩ := hi
      refine ⟨n, hconsumed, ?_⟩
      rw [if_pos (Receiving.valid_of_read hindices hacts), le64_ofLe64 hlen]
      simp [TransferLog.record, History.record, hreading]
  | refuseRead =>
      have hinvalid := Step.refuseRead_isValid hacts
      exact ⟨n, hi.1, by simp [hinvalid]⟩
  | @close timestamp published =>
      have hpublished := Step.closeRead_published hacts
      obtain ⟨hconsumed, hreading⟩ := hi
      subst hpublished
      cases hvalid : s.consumer.isValid with
      | false =>
          rw [hvalid, if_neg Bool.false_ne_true] at hreading
          refine ⟨n, ?_⟩
          simp [StartTimeControl.Placed, TransferLog.record, History.record, hconsumed, hreading]
      | true =>
          rw [hvalid, if_pos rfl] at hreading
          -- a zero is passed over, anything else is the start time
          by_cases hzero : timestamp = 0
          · refine ⟨n + 1, ?_⟩
            simp [StartTimeControl.Placed, TransferLog.record, History.record, hconsumed, hreading,
              hzero, List.replicate_succ']
          · refine ⟨n, ?_⟩
            simp [StartTimeControl.Placed, TransferLog.record, History.record, hconsumed, hreading,
              hzero]
  | again =>
      obtain rfl := hacts
      refine ⟨n, ?_⟩
      show log.history.consumed = _
      simpa [StartTimeControl.Placed] using hi

namespace ConsumerTransmision

variable {verification : Verification σ} {maxChunkSize : UInt64} {x x' : ConsumerTransmision σ}
  {cap : UInt64} {vis : Visibility} {s s' : System} {log : TransferLog} {a : Action}

/-- Every step of the consumer keeps its invariant. -/
theorem Placed.step (hindices : Indices cap ⟨s, log.history⟩)
    (hi : x.Placed verification s.consumer.isValid log.history log.accepted)
    (hjob : ConsumerTransmisionStep verification maxChunkSize x a x')
    (hacts : s.ConsumerActs vis a s') :
    x'.Placed verification s'.consumer.isValid (log.record (.receive a)).history
      (log.record (.receive a)).accepted := by
  cases hjob with
  | startTime hwait =>
      obtain ⟨haccepted, n, hplaced⟩ := hi
      obtain ⟨n', hnext⟩ := hplaced.step hindices hwait hacts
      refine ⟨?_, n', hnext⟩
      cases hwait <;> exact haccepted
  | @start timestamp hne =>
      obtain rfl := hacts
      obtain ⟨haccepted, n, hplaced⟩ := hi
      have hconsumed : log.history.consumed = List.replicate n (le64 0) ++ [le64 timestamp] := by
        simpa [StartTimeControl.Placed, hne] using hplaced
      refine ⟨n, timestamp, { log.history with consumed := [] }, hne, rfl, ?_, ?_⟩
      · rw [History.behind, List.append_nil]
        exact congrArg (fun consumed => { log.history with consumed := consumed }) hconsumed
      · rw [show (log.record (.receive .leave)).accepted = [] from haccepted]
        exact ⟨by simp, rfl, rfl, rfl⟩
  | job hjob =>
      obtain ⟨n, timestamp, h', hne, htime, hbehind, hreceiving⟩ := hi
      let log' : TransferLog := { log with history := h' }
      have hsame : log'.history.reading = log.history.reading := by rw [hbehind]; rfl
      have hi' : Receiving verification _ s.consumer.isValid log'.history log'.accepted :=
        hreceiving
      have hnext := hi'.step_of_reading hindices hsame hjob hacts
      rw [TransferLog.record_behind hbehind]
      exact ⟨n, timestamp, _, hne, htime, rfl, hnext⟩

/-- A step of the producer leaves the invariant of the consumer alone. -/
theorem Placed.of_transmit {source : TransmitBuffer} {verification' : Verification σ'}
    {timestamp : Int64} {y y' : ProducerTransmision σ'}
    (hi : x.Placed verification s.consumer.isValid log.history log.accepted)
    (hjob : ProducerTransmisionStep source verification' timestamp y a y')
    (hacts : s.ProducerActs vis a s') :
    x.Placed verification s'.consumer.isValid (log.record (.transmit a)).history
      (log.record (.transmit a)).accepted := by
  cases a with
  | call e =>
      have he := hjob.ofProducer
      have hconsumer := Step.consumer_eq hacts he
      rw [hconsumer]
      cases x with
      | startTime control =>
          obtain ⟨hconsumed, hreading⟩ := log.history.record_of_producer he
          obtain ⟨haccepted, n, hplaced⟩ := hi
          refine ⟨haccepted, n, ?_⟩
          show control.Placed _ (log.history.record e).consumed (log.history.record e).reading _
          rw [hconsumed, hreading]
          exact hplaced
      | job startTime r =>
          obtain ⟨n, timestamp, h', hne, htime, hbehind, hreceiving⟩ := hi
          obtain ⟨hconsumed, hreading⟩ := h'.record_of_producer he
          rw [TransferLog.record_behind hbehind]
          refine ⟨n, timestamp, h'.record e, hne, htime, rfl, hreceiving.goto ?_⟩
          rw [hconsumed, hreading]
          exact hreceiving.control
  | test valid =>
      obtain ⟨-, rfl⟩ := hacts
      exact hi
  | account data =>
      obtain rfl := hacts
      exact hi
  | leave =>
      obtain rfl := hacts
      exact hi

end ConsumerTransmision

/-! ## The two programs -/

/-- The invariant of the two programs. -/
structure TransmisionDelivery (queue : BaseTxQueue) (setup : TransmisionSetup σ σ')
    (w : TransmisionWorld σ σ') : Prop where
  queue : Invariant queue.capacity_ w.world
  sending : w.state.transmit.Placed setup.source setup.producerVerification setup.timestamp
    w.state.system.producer.isValid w.log.history w.log.sent
  receiving : w.state.receive.Placed setup.consumerVerification w.state.system.consumer.isValid
    w.log.history w.log.accepted

/-- The buffer of the consumer's job has `max_chunk_size_` bytes. -/
def TransmisionWorld.HasBuffer (maxChunkSize : UInt64) (w : TransmisionWorld σ σ') : Prop :=
  ∀ startTime r, w.state.receive = .job startTime r → r.buffer.length = maxChunkSize.toNat

theorem toUInt64_ne_zero {timestamp : Int64} (htime : timestamp ≠ 0) :
    timestamp.toUInt64 ≠ 0 := by
  intro hzero
  rw [← timestamp.toInt64_toUInt64, hzero] at htime
  exact htime rfl

/-- Where a word that is not zero is the first on the queue, it is the first that is not zero. -/
theorem word_eq_of_isPrefix {n : ℕ} {word word' : UInt64} {consumed written : List (List UInt8)}
    {reading : List UInt8} (hne : word ≠ 0)
    (h : ((List.replicate n (le64 0) ++ [le64 word']) ++ consumed).flatten ++ reading <+:
      (le64 word :: written).flatten) :
    n = 0 ∧ word' = word ∧ consumed.flatten ++ reading <+: written.flatten := by
  cases n with
  | zero =>
      simp only [List.replicate_zero, List.nil_append, List.singleton_append, List.flatten_cons,
        List.append_assoc] at h
      exact ⟨rfl, le64_append_isPrefix h⟩
  | succ n =>
      simp only [List.replicate_succ, List.cons_append, List.flatten_cons, List.append_assoc] at h
      exact absurd (le64_append_isPrefix h).1.symm hne

namespace TransmisionDelivery

variable {queue : RingQueue} {setup : TransmisionSetup σ σ'} {start w w' : TransmisionWorld σ σ'}
  {e : TransferEvent} {startTime : Int64} {r : Receiver σ'}

/-- The start satisfies the invariant. -/
theorem of_initial
    (hstart : (transmisionWorldLts queue.toBaseTxQueue setup .everyLoad).initial start) :
    TransmisionDelivery queue.toBaseTxQueue setup start := by
  obtain ⟨⟨system, transmit, receive⟩, log⟩ := start
  obtain ⟨⟨hsystem, rfl, rfl⟩, rfl⟩ := hstart
  exact ⟨⟨.of_fresh hsystem, .of_fresh hsystem, .of_fresh hsystem⟩,
    ⟨rfl, .of_start _ _ {} _ trivial⟩, rfl, 0, rfl⟩

/-- Every step of either program keeps the invariant. -/
theorem step (hmin : 1 ≤ setup.source.minChunkSize_) (hroom : 8 ≤ queue.capacity.toNat)
    (hi : TransmisionDelivery queue.toBaseTxQueue setup w)
    (hstep : (transmisionWorldLts queue.toBaseTxQueue setup .everyLoad).step w e w') :
    TransmisionDelivery queue.toBaseTxQueue setup w' := by
  have hcapacity : queue.capacity.toNat = queue.capacity_.toNat - 1 :=
    sub_one_toNat queue.isPowTwo.pos
  obtain ⟨s', log'⟩ := w'
  obtain ⟨hstep, rfl⟩ := hstep
  cases hstep with
  | transmit hjob hacts =>
      exact ⟨hi.queue.of_moves (TransferLog.moves_of_transmit hacts),
        hi.sending.step queue.isPowTwo (hcapacity ▸ hroom) hmin hi.queue.indices hjob hacts,
        hi.receiving.of_transmit hjob hacts⟩
  | receive hjob hacts =>
      exact ⟨hi.queue.of_moves (TransferLog.moves_of_receive hacts),
        hi.sending.of_receive hjob hacts, hi.receiving.step hi.queue.indices hjob hacts⟩

/-- The consumer's job has the start time of the producer, and sees the frames behind it. -/
theorem exists_receiving (htime : setup.timestamp ≠ 0)
    (hi : TransmisionDelivery queue.toBaseTxQueue setup w)
    (hreceive : w.state.receive = .job startTime r) :
    startTime = setup.timestamp ∧ ∃ h h',
      Sending setup.source setup.producerVerification
        (w.state.transmit.transmitter setup.producerVerification)
        w.state.system.producer.isValid h w.log.sent ∧
      Receiving setup.consumerVerification r w.state.system.consumer.isValid h' w.log.accepted ∧
      h'.consumed.flatten ++ h'.reading <+: h.written.flatten := by
  obtain ⟨h, hsending, hwritten⟩ := hi.sending.exists_sending
  have hreceiving := hi.receiving
  rw [hreceive] at hreceiving
  obtain ⟨n, word, h', -, rfl, hbehind, hreceiving⟩ := hreceiving
  have hread : w.log.history.consumed.flatten ++ w.log.history.reading <+:
      w.log.history.written.flatten := hi.queue.reads.read
  rw [hbehind] at hread hwritten
  rcases hwritten with hwritten | hwritten
  · rw [hwritten] at hread
    have hlength := hread.length_le
    simp [History.behind] at hlength
  · rw [hwritten] at hread
    obtain ⟨-, rfl, hread⟩ := word_eq_of_isPrefix (toUInt64_ne_zero htime) hread
    exact ⟨setup.timestamp.toInt64_toUInt64, h, h', hsending, hreceiving, hread⟩

/-- What has been accepted is the beginning of the source. -/
theorem accepted_flatten_isPrefix (htime : setup.timestamp ≠ 0)
    (hi : TransmisionDelivery queue.toBaseTxQueue setup w) :
    w.log.accepted.flatten <+: setup.source.srcData_ := by
  cases hreceive : w.state.receive with
  | startTime control =>
      have hreceiving := hi.receiving
      rw [hreceive] at hreceiving
      rw [show w.log.accepted = [] from hreceiving.1]
      exact List.nil_prefix
  | job startTime r =>
      obtain ⟨-, h, h', hsending, hreceiving, hread⟩ := hi.exists_receiving htime hreceive
      obtain ⟨later, hlater⟩ := (hreceiving.accepted_isPrefix hsending hread).1
      refine .trans ?_ hsending.fromSource
      rw [← hlater, List.flatten_append]
      exact List.prefix_append _ _

/-- The buffer of the consumer's job keeps its size. -/
theorem length_buffer (htime : setup.timestamp ≠ 0)
    (hmax : setup.source.maxChunkSize_ ≤ setup.maxChunkSize)
    (hi : TransmisionDelivery queue.toBaseTxQueue setup w)
    (hbuffer : w.HasBuffer setup.maxChunkSize)
    (hstep : TransmisionStep setup .everyLoad w.state e w'.state) :
    w'.HasBuffer setup.maxChunkSize := by
  have hle : ∀ startTime r, w.state.receive = .job startTime r → ∀ chunkSize,
      r.control = .readData chunkSize → chunkSize ≤ setup.maxChunkSize := by
    intro startTime r hreceive chunkSize hcontrol
    obtain ⟨-, h, h', hsending, hreceiving, hread⟩ := hi.exists_receiving htime hreceive
    exact UInt64.le_trans (hreceiving.chunkSize_le hsending hread hcontrol) hmax
  unfold TransmisionWorld.HasBuffer at hbuffer ⊢
  generalize w'.state = state' at hstep
  cases hstep with
  | transmit hjob hacts => exact hbuffer
  | receive hjob hacts =>
      generalize w.state.receive = x at hjob hbuffer hle
      intro startTime r' hnext
      cases hjob with
      | startTime hwait => cases hnext
      | start hne =>
          obtain ⟨-, rfl⟩ := ConsumerTransmision.job.inj hnext
          exact List.length_replicate
      | @job startTime r r' a hjob =>
          obtain ⟨rfl, rfl⟩ := ConsumerTransmision.job.inj hnext
          exact hjob.length_buffer (hle startTime r rfl) (hbuffer startTime r rfl)

end TransmisionDelivery

end TxQueue
