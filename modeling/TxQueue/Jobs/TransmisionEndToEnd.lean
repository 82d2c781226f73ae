import TxQueue.Jobs.EndToEnd
import TxQueue.Jobs.InteractivePasses
import TxQueue.Jobs.TransmisionDelivery
import TxQueue.Jobs.Verification

/-!
# The inter-process programs end to end

Between transactions the producer can send the start time, the consumer can then take it, and from
there the two jobs can be completed as on a fresh queue, behind the word that the queue has carried.
-/

namespace TxQueue

open Library

variable {σ σ' : Type*}

/-- The producer is between two transactions, and has not failed. -/
def ProducerTransmision.IsBetween : ProducerTransmision σ → Prop
  | .startTime .start => True
  | .job t => t.control.IsBetween
  | _ => False

/-- The consumer is between two transactions. -/
def ConsumerTransmision.IsBetween : ConsumerTransmision σ → Prop
  | .startTime .loop => True
  | .job _ r => r.control = .loop
  | _ => False

/-- Both programs are between their transactions. -/
structure TransmisionWorld.Rests (queue : BaseTxQueue) (w : TransmisionWorld σ σ') : Prop where
  producer : w.state.system.producer = .idle queue
  consumer : w.state.system.consumer = .idle queue
  transmit : w.state.transmit.IsBetween
  receive : w.state.receive.IsBetween

section Passes

variable {queue : BaseTxQueue} {setup : TransmisionSetup σ σ'} {vis : Visibility}
  {maxChunkSize : UInt64} {timestamp : Int64} {w : TransmisionWorld σ σ'}

/-- The hashes of both programs. -/
def TransmisionSetup.verification (setup : TransmisionSetup σ σ') : Verification (σ × σ') :=
  setup.producerVerification.prod setup.consumerVerification

/-- The two programs with their jobs at work, each with its part of the hash, on the queue that has
carried the start time. -/
def TransmisionWorld.ofTransfer (timestamp : Int64) (w : TransferWorld (σ × σ')) :
    TransmisionWorld σ σ' where
  state := ⟨w.state.system, .job (w.state.transmit.map Prod.fst),
    .job timestamp (w.state.receive.map Prod.snd)⟩
  log := { w.log with
    history := w.log.history.behind [le64 timestamp.toUInt64] [le64 timestamp.toUInt64] }

variable (timestamp) in
/-- The two programs take the steps of their jobs. -/
theorem leads_ofTransfer {w w' : TransferWorld (σ × σ')}
    (h : (transferWorldLts queue setup.source setup.verification maxChunkSize vis).Leads
      (fun _ => True) w w') :
    (transmisionWorldLts queue setup vis).Leads (fun _ => True) (.ofTransfer timestamp w)
      (.ofTransfer timestamp w') := by
  refine h.map (TransmisionWorld.ofTransfer timestamp) ?_
  intro w₁ e w₂ _ hstep
  obtain ⟨s₂, log₂⟩ := w₂
  obtain ⟨hstep, rfl⟩ := hstep
  have hbehind : (TransmisionWorld.ofTransfer timestamp w₁).log.history =
      w₁.log.history.behind [le64 timestamp.toUInt64] [le64 timestamp.toUInt64] := rfl
  have hlog := (TransferLog.record_behind hbehind e).symm
  cases hstep with
  | transmit hjob hacts =>
      have hmap := hjob.map (Verification.morphism_fst _ _)
      exact ⟨_, ⟨.transmit (.job hmap) hacts, hlog⟩, trivial⟩
  | receive hjob hacts =>
      have hmap := hjob.map (Verification.morphism_snd _ _)
      exact ⟨_, ⟨.receive (.job hmap) hacts, hlog⟩, trivial⟩

/-- The two programs with the producer, and the queue, where the sender of the start time is. -/
def TransmisionWorld.withSender (w : TransmisionWorld σ σ') (v : SenderWorld Unit) :
    TransmisionWorld σ σ' where
  state := ⟨v.state.system, .startTime v.state.control, w.state.receive⟩
  log := { w.log with history := v.log }

variable (queue setup) in
/-- The producer takes the steps of the sender. -/
theorem TransmisionWorld.leads_withSender {v v' : SenderWorld Unit}
    (h : (senderLts (fun _ => startTimeParts setup.timestamp) w.world vis).Leads
      SenderEvent.ofSender v v') :
    (transmisionWorldLts queue setup vis).Leads (fun _ => True) (w.withSender v)
      (w.withSender v') := by
  refine h.map w.withSender ?_
  intro v₁ e v₂ he hstep
  obtain ⟨s₂, log₂⟩ := v₂
  obtain ⟨hstep, rfl⟩ := hstep
  cases hstep with
  | @send a c system hjob hacts =>
      have hlog := (w.withSender v₁).log.record_onQueue a
      exact ⟨_, ⟨.transmit (.startTime rfl hjob) hacts, hlog.symm⟩, trivial⟩
  | consumer => exact he.elim

variable (setup vis) in
/-- The producer sends the start time and starts its job. -/
theorem leads_sendStartTime (hok : queue.isOk) (hside : w.state.system.producer = .idle queue)
    (hwriting : w.log.history.writing = []) (hstart : w.state.transmit = .startTime .start) :
    ∃ w', (transmisionWorldLts queue setup vis).Leads (fun _ => True) w w' ∧
      w'.state.transmit = .job ⟨.loop, .start setup.producerVerification⟩ ∧
      w'.state.system.producer = .idle queue ∧
      w'.state.system.consumer = w.state.system.consumer ∧ w'.state.receive = w.state.receive := by
  let parts : Unit → List (List UInt8) := fun _ => startTimeParts setup.timestamp
  have hfits : ∀ part ∈ parts (), FitsWord part :=
    fun _ => fitsWord_of_mem_startTimeParts setup.timestamp
  obtain ⟨v, hleads, hcontrol, hpass⟩ := leads_succeeded (w := w.world) vis hok hside hwriting
    hfits 0
  have hsender := TransmisionWorld.leads_withSender queue setup hleads
  obtain ⟨⟨system, control⟩, log⟩ := v
  obtain rfl : control = .succeeded () := hcontrol
  obtain ⟨⟨s, x, y⟩, log'⟩ := w
  obtain rfl : x = .startTime .start := hstart
  have hjob := hsender.andThen (.transmit .start rfl) trivial
  exact ⟨_, hjob, rfl, hpass.producer, hpass.consumer, rfl⟩

variable (setup vis) in
/-- A pass of the loop that waits for the start time, where a word can be read. -/
theorem leads_takeWord (hok : queue.isOk) (hside : w.state.system.consumer = .idle queue)
    (hreceive : w.state.receive = .startTime .loop)
    (hread : ((TxRead.construct queue w.state.system.block.status.head_
      w.state.system.block.status.tail_).impRead w.state.system.block 0 (fun _ => 0) 8).ok = true) :
    ∃ w' word reading, (transmisionWorldLts queue setup vis).Leads (fun _ => True) w w' ∧
      w'.state.receive = .startTime (.test word) ∧
      w'.log.history.consumed = w.log.history.consumed ++ [reading] ∧
      w'.state.system.consumer = .idle queue ∧
      w'.state.system.producer = w.state.system.producer ∧
      w'.state.transmit = w.state.transmit := by
  obtain ⟨⟨s, x, y⟩, log⟩ := w
  obtain rfl : y = .startTime .loop := hreceive
  change s.consumer = .idle queue at hside
  obtain ⟨s₁, hopen, hconsumer₁, hblock₁, hdown₁, hproducer₁⟩ := System.openRead_steps vis hside
  have h₀ := Lts.Leads.refl (transmisionWorldLts queue setup vis) (fun _ => True)
    ⟨⟨s, x, .startTime .loop⟩, log⟩
  have h₁ := h₀.andThen (.receive (.startTime .openRead) hopen) trivial
  have h₂ := h₁.andThen (.receive (.startTime .enter)
    ⟨⟨_, hconsumer₁, by simp [TxRead.construct, TxRead.toBool, hok]⟩, rfl⟩) trivial
  obtain ⟨s₃, s₄, hsteps, hlast, hconsumer₄, hblock₄, hdown₄, hproducer₄⟩ :=
    System.read_steps queue vis hconsumer₁ hdown₁ 0 (fun _ => 0) 8
  -- the steps inside `imp_read` leave the program and the log alone
  have h₃ := h₂.trans (hsteps.map
    (B := transmisionWorldLts queue setup vis) (R := fun _ => True)
    (fun s => (⟨⟨s, x, .startTime .reading⟩, _⟩ : TransmisionWorld σ σ')) (by
      intro s e s' he hstep
      rcases he with rfl | rfl
      · exact ⟨_, ⟨.receive (.startTime .beginRead) hstep, rfl⟩, trivial⟩
      · exact ⟨_, ⟨.receive (.startTime .copyOut) hstep, rfl⟩, trivial⟩))
  rw [hblock₁] at hlast hconsumer₄
  let result := (TxRead.construct queue s.block.status.head_ s.block.status.tail_).impRead s.block 0
    (fun _ => 0) 8
  have hok' : result.ok = true := hread
  have hvalid : result.tx.toBool = true := (TxRead.impRead_ok _ _ _ _ _).symm.trans hok'
  change Step vis s₃ (if result.ok then .read (bytes result.buffer 8) else _) s₄ at hlast
  rw [hok', if_pos rfl] at hlast
  have h₄ := h₃.andThen (.receive (.startTime (.read (length_bytes _ _))) hlast) trivial
  obtain ⟨s₅, hclose, hconsumer₅, -, hproducer₅⟩ := System.closeRead_steps vis hconsumer₄
  change Step vis s₄ (.closeRead result.tx.toBool) s₅ at hclose
  rw [hvalid] at hclose
  have h₅ := h₄.andThen (.receive (.startTime .close) hclose) trivial
  refine ⟨_, _, _, h₅, rfl, rfl, ?_, ?_, rfl⟩
  · show s₅.consumer = _
    rw [hconsumer₅, TxRead.impRead_queue]
    rfl
  · exact hproducer₅.trans (hproducer₄.trans hproducer₁)

end Passes

namespace TransmisionDelivery

variable {queue : RingQueue} {setup : TransmisionSetup σ σ'} {w : TransmisionWorld σ σ'}

/-- The consumer passes over no zeros, since the start time comes first. -/
theorem consumed_eq_nil {n : ℕ} (htime : setup.timestamp ≠ 0)
    (hi : TransmisionDelivery queue.toBaseTxQueue setup w)
    (hconsumed : w.log.history.consumed = List.replicate n (le64 0)) :
    w.log.history.consumed = [] := by
  obtain ⟨h, -, hwritten⟩ := hi.sending.exists_sending
  have hread : w.log.history.consumed.flatten ++ w.log.history.reading <+:
      w.log.history.written.flatten := hi.queue.reads.read
  cases n with
  | zero => exact hconsumed
  | succ n =>
      rw [hconsumed, List.replicate_succ, List.flatten_cons, List.append_assoc] at hread
      rcases hwritten with hwritten | hwritten
      · rw [hwritten] at hread
        have hlength := hread.length_le
        simp at hlength
      · rw [hwritten, List.flatten_cons] at hread
        have hzero := (le64_append_isPrefix hread).1
        exact absurd hzero.symm (toUInt64_ne_zero htime)

/-- Once the producer's job has started, the consumer can take the start time and start its job. -/
theorem leads_readStartTime {t : Transmitter σ} (hok : queue.isOk)
    (hmin : 1 ≤ setup.source.minChunkSize_) (hroom : 8 ≤ queue.capacity.toNat)
    (htime : setup.timestamp ≠ 0)
    (hi : TransmisionDelivery queue.toBaseTxQueue setup w)
    (hside : w.state.system.consumer = .idle queue.toBaseTxQueue)
    (htransmit : w.state.transmit = .job t) (hreceive : w.state.receive = .startTime .loop) :
    ∃ w' r, (transmisionWorldLts queue.toBaseTxQueue setup .everyLoad).Leads (fun _ => True) w w' ∧
      w'.state.receive = .job setup.timestamp r ∧ r.control = .loop ∧
      w'.state.system.consumer = .idle queue.toBaseTxQueue ∧
      w'.state.system.producer = w.state.system.producer ∧ w'.state.transmit = .job t := by
  have hindices := hi.queue.indices
  -- the start time is unread
  have hreceiving := hi.receiving
  rw [hreceive] at hreceiving
  obtain ⟨-, n, hzeros⟩ := hreceiving
  have hconsumed := hi.consumed_eq_nil htime hzeros
  have hsending := hi.sending
  rw [htransmit] at hsending
  obtain ⟨h', hbehind, -⟩ := hsending
  have hhead : w.log.history.head = 0 := by simp [History.head, hconsumed]
  have htail : 0 + (8 : UInt64).toNat ≤ w.log.history.tail := by
    simp [History.tail, hbehind, History.behind]
  have hlap : w.log.history.tail ≤ w.log.history.head + (queue.capacity_.toNat - 1) :=
    hindices.tail_le
  rw [hhead] at hlap
  have hheads : w.state.system.block.status.head_.toNat = 0 % queue.capacity_.toNat :=
    hhead ▸ hindices.heads.latest
  have hready := TxRead.ready_construct hok hheads hindices.tails.latest (Nat.zero_le _) hlap
  obtain ⟨hread, -⟩ := hready.impRead queue.isPowTwo 0 (fun _ => 0) htail
  obtain ⟨w', word, reading, hleads, hreceive', hconsumed', hconsumer', hproducer', htransmit'⟩ :=
    leads_takeWord setup .everyLoad hok hside hreceive hread
  have hi' : TransmisionDelivery queue.toBaseTxQueue setup w' :=
    hleads.induct hi fun _ _ _ _ hi hstep => hi.step hmin hroom hstep
  have hne : word ≠ 0 := by
    rintro rfl
    have hreceiving' := hi'.receiving
    rw [hreceive'] at hreceiving'
    obtain ⟨-, n', hzeros'⟩ := hreceiving'
    simp only [StartTimeControl.Placed, if_true, List.append_nil] at hzeros'
    have hnil := hi'.consumed_eq_nil htime hzeros'
    rw [hconsumed'] at hnil
    exact List.append_ne_nil_of_right_ne_nil _ (List.cons_ne_nil _ _) hnil
  obtain ⟨⟨s, x, y⟩, log⟩ := w'
  obtain rfl : y = .startTime (.test word) := hreceive'
  have hleads' := hleads.andThen (.receive (.start hne) rfl) trivial
  have hi'' := hleads'.induct hi fun _ _ _ _ hi hstep => hi.step hmin hroom hstep
  obtain ⟨heq, -⟩ := hi''.exists_receiving htime rfl
  refine ⟨_, ⟨.loop, .start setup.consumerVerification,
    List.replicate setup.maxChunkSize.toNat 0⟩, hleads', ?_, rfl, hconsumer', hproducer',
    htransmit'.trans htransmit⟩
  rw [heq]

/-- Once both jobs have started, they see a transfer behind the start time. -/
theorem exists_transfer {t : Transmitter σ} {r : Receiver σ'} (htime : setup.timestamp ≠ 0)
    (hi : TransmisionDelivery queue.toBaseTxQueue setup w)
    (htransmit : w.state.transmit = .job t) (hreceive : w.state.receive = .job setup.timestamp r) :
    ∃ v : TransferWorld (σ × σ'), w = .ofTransfer setup.timestamp v ∧
      DeliveryBehind queue.toBaseTxQueue setup.source setup.verification
        [le64 setup.timestamp.toUInt64] v := by
  obtain ⟨⟨s, x, y⟩, history, sent, accepted⟩ := w
  obtain rfl : x = .job t := htransmit
  obtain rfl : y = .job setup.timestamp r := hreceive
  obtain ⟨h, rfl, hsending⟩ := hi.sending
  obtain ⟨n, word, h', -, -, hbehind, hreceiving⟩ := hi.receiving
  obtain ⟨written, writing, consumed, reading⟩ := h
  obtain ⟨written', writing', consumed', reading'⟩ := h'
  simp only [History.behind, List.nil_append, History.mk.injEq] at hbehind
  obtain ⟨rfl, rfl, rfl, rfl⟩ := hbehind
  have hread : ((List.replicate n (le64 0) ++ [le64 word]) ++ consumed').flatten ++ reading <+:
      (le64 setup.timestamp.toUInt64 :: written).flatten := hi.queue.reads.read
  obtain ⟨rfl, rfl, -⟩ := word_eq_of_isPrefix (toUInt64_ne_zero htime) hread
  -- each job with what the other would have for a hash
  let t' : Transmitter (σ × σ') := t.map fun status =>
    (status, sent.foldl setup.consumerVerification.update setup.consumerVerification.init)
  let r' : Receiver (σ × σ') := r.map fun status =>
    (accepted.foldl setup.producerVerification.update setup.producerVerification.init, status)
  refine ⟨⟨⟨s, t', r'⟩, ⟨⟨written, writing, consumed', reading⟩, sent, accepted⟩⟩, rfl, hi.queue,
    ⟨hsending.chunks, hsending.fromSource, hsending.total, ?_, hsending.control⟩,
    ⟨hreceiving.chunks, hreceiving.total, ?_, hreceiving.control⟩⟩
  · rw [TransmisionSetup.verification, Verification.foldl_prod]
    exact congrArg (·, _) hsending.hash
  · rw [TransmisionSetup.verification, Verification.foldl_prod]
    exact congrArg (_, ·) hreceiving.hash

/-- Between transactions the producer can come to its job. -/
theorem leads_transmitJob (hok : queue.isOk) (hmin : 1 ≤ setup.source.minChunkSize_)
    (hroom : 8 ≤ queue.capacity.toNat)
    (hi : TransmisionDelivery queue.toBaseTxQueue setup w)
    (hrests : w.Rests queue.toBaseTxQueue) :
    ∃ w' t, (transmisionWorldLts queue.toBaseTxQueue setup .everyLoad).Leads (fun _ => True) w w' ∧
      TransmisionDelivery queue.toBaseTxQueue setup w' ∧
      w'.Rests queue.toBaseTxQueue ∧ w'.state.transmit = .job t := by
  have hbetween := hrests.transmit
  have hproducer := hi.queue.indices.producer
  simp only [TransmisionWorld.world, hrests.producer, Producer.Placed] at hproducer
  cases htransmit : w.state.transmit with
  | startTime control =>
      rw [htransmit] at hbetween
      cases control with
      | start =>
          obtain ⟨w', hleads, htransmit', hproducer', hconsumer', hreceive'⟩ :=
            leads_sendStartTime setup .everyLoad hok hrests.producer hproducer.2 htransmit
          refine ⟨w', _, hleads, ?_, ⟨hproducer', hconsumer'.trans hrests.consumer, ?_, ?_⟩,
            htransmit'⟩
          · exact hleads.induct hi fun _ _ _ _ hi hstep => hi.step hmin hroom hstep
          · rw [htransmit']
            trivial
          · rw [hreceive']
            exact hrests.receive
      | _ => exact hbetween.elim
  | job t => exact ⟨w, t, .refl _ _ _, hi, hrests, htransmit⟩
  | error =>
      rw [htransmit] at hbetween
      exact hbetween.elim

/-- Behind a producer in its job the consumer can come to its own. -/
theorem leads_receiveJob {t : Transmitter σ} (hok : queue.isOk)
    (hmin : 1 ≤ setup.source.minChunkSize_) (hroom : 8 ≤ queue.capacity.toNat)
    (htime : setup.timestamp ≠ 0)
    (hi : TransmisionDelivery queue.toBaseTxQueue setup w)
    (hrests : w.Rests queue.toBaseTxQueue) (htransmit : w.state.transmit = .job t) :
    ∃ w' r, (transmisionWorldLts queue.toBaseTxQueue setup .everyLoad).Leads (fun _ => True) w w' ∧
      TransmisionDelivery queue.toBaseTxQueue setup w' ∧
      w'.Rests queue.toBaseTxQueue ∧ w'.state.transmit = .job t ∧
      w'.state.receive = .job setup.timestamp r := by
  have hbetween := hrests.receive
  cases hreceive : w.state.receive with
  | startTime control =>
      rw [hreceive] at hbetween
      cases control with
      | loop =>
          obtain ⟨w', r, hleads, hreceive', hcontrol, hconsumer', hproducer', htransmit'⟩ :=
            hi.leads_readStartTime hok hmin hroom htime hrests.consumer htransmit hreceive
          refine ⟨w', r, hleads, ?_, ⟨hproducer'.trans hrests.producer, hconsumer', ?_, ?_⟩,
            htransmit', hreceive'⟩
          · exact hleads.induct hi fun _ _ _ _ hi hstep => hi.step hmin hroom hstep
          · rw [htransmit', ← htransmit]
            exact hrests.transmit
          · rw [hreceive']
            exact hcontrol
      | _ => exact hbetween.elim
  | job startTime r =>
      obtain ⟨rfl, -⟩ := hi.exists_receiving htime hreceive
      exact ⟨w, r, .refl _ _ _, hi, hrests, htransmit, hreceive⟩

/-- Between transactions the two programs can be completed. -/
theorem leads_quit (hok : queue.isOk) (hmin : 1 ≤ setup.source.minChunkSize_)
    (hle : setup.source.minChunkSize_ ≤ setup.source.maxChunkSize_)
    (hcompletable : setup.source.Completable queue.capacity.toNat)
    (htime : setup.timestamp ≠ 0)
    (hi : TransmisionDelivery queue.toBaseTxQueue setup w)
    (hrests : w.Rests queue.toBaseTxQueue) :
    ∃ w' r, (transmisionWorldLts queue.toBaseTxQueue setup .everyLoad).Leads (fun _ => True) w w' ∧
      w'.state.receive = .job setup.timestamp r ∧ r.control = .quit ∧
      w'.log.accepted.flatten = setup.source.srcData_ := by
  have hroom : 8 ≤ queue.capacity.toNat := hcompletable.signal
  obtain ⟨w₁, t, hleads₁, hi₁, hrests₁, htransmit₁⟩ := hi.leads_transmitJob hok hmin hroom hrests
  obtain ⟨w₂, r, hleads₂, hi₂, hrests₂, htransmit₂, hreceive₂⟩ :=
    hi₁.leads_receiveJob hok hmin hroom htime hrests₁ htransmit₁
  -- from here the programs are their jobs
  obtain ⟨v, rfl, hbehind⟩ := hi₂.exists_transfer htime htransmit₂ hreceive₂
  have hv : Rests queue.toBaseTxQueue v :=
    ⟨hrests₂.producer, hrests₂.consumer, hrests₂.transmit, hrests₂.receive⟩
  obtain ⟨v', hleads₃, hquit⟩ := hbehind.leads_quit setup.maxChunkSize hok hmin hle hcompletable hv
  have hleads := (hleads₁.trans hleads₂).trans (leads_ofTransfer setup.timestamp hleads₃)
  refine ⟨_, v'.state.receive.map Prod.snd, hleads, rfl, hquit, ?_⟩
  have hi₃ : DeliveryBehind queue.toBaseTxQueue setup.source setup.verification _ v' :=
    hleads₃.induct hbehind fun _ _ _ _ hi hstep => hi.step hmin hstep
  obtain ⟨heq, hsource, -⟩ := (hi₃.receiving.accepted_isPrefix hi₃.sending hi₃.read_isPrefix).2
    (by rw [hquit]; trivial)
  exact heq ▸ hsource

end TransmisionDelivery

/-- The start of the two programs with a ring of zeros. -/
def freshTransmision (queue : BaseTxQueue) : TransmisionWorld σ σ' where
  state := ⟨(freshWorld queue).state, .startTime .start, .startTime .loop⟩
  log := {}

theorem freshTransmision_initial (queue : BaseTxQueue) (setup : TransmisionSetup σ σ')
    (vis : Visibility) :
    (transmisionWorldLts queue setup vis).initial (freshTransmision queue) :=
  ⟨⟨⟨rfl, rfl, rfl, rfl⟩, rfl, rfl⟩, rfl⟩

/-- Three bytes, with their sum in both programs. -/
def threeBytesSetup : TransmisionSetup UInt8 UInt8 where
  source := threeBytes
  timestamp := 5
  maxChunkSize := 2
  producerVerification := byteSum
  consumerVerification := byteSum

/-- In every run of the two programs, with a start time that is not zero and a queue that holds a
word, the consumer's job starts with the start time of the producer. It accepts a prefix of the
source, its buffer is not overrun, and when it has left its loop it has accepted the whole source in
the chunks in which it was sent. Then the producer's job is over, both jobs have the same
`total_data_`, and each has the hash of these chunks. -/
theorem transmision_delivery (queue : RingQueue) (setup : TransmisionSetup σ σ')
    (hmin : 1 ≤ setup.source.minChunkSize_)
    (hmax : setup.source.maxChunkSize_ ≤ setup.maxChunkSize) (hroom : 8 ≤ queue.capacity.toNat)
    (htime : setup.timestamp ≠ 0) {start w : TransmisionWorld σ σ'}
    {ts : List (Transition (TransmisionWorld σ σ') TransferEvent)}
    (hstart : (transmisionWorldLts queue.toBaseTxQueue setup .everyLoad).initial start)
    (hrun : Run (transmisionWorldLts queue.toBaseTxQueue setup .everyLoad) start ts w) :
    w.log.accepted.flatten <+: setup.source.srcData_ ∧
    ∀ startTime r, w.state.receive = .job startTime r →
      startTime = setup.timestamp ∧ r.buffer.length = setup.maxChunkSize.toNat ∧
      (∀ chunkSize, r.control = .readData chunkSize → chunkSize.toNat ≤ r.buffer.length) ∧
      (r.control.HasLeft → ∃ t, w.state.transmit = .job t ∧ t.control = .quit ∧
        w.log.accepted.flatten = setup.source.srcData_ ∧ w.log.accepted = w.log.sent ∧
        r.job.totalData_ = t.job.totalData_ ∧
        t.job.hashStatus_ = w.log.sent.foldl setup.producerVerification.update
          setup.producerVerification.init ∧
        r.job.hashStatus_ = w.log.sent.foldl setup.consumerVerification.update
          setup.consumerVerification.init) := by
  have hinvariant : ∀ w e w',
      TransmisionDelivery queue.toBaseTxQueue setup w ∧ w.HasBuffer setup.maxChunkSize →
      (transmisionWorldLts queue.toBaseTxQueue setup .everyLoad).step w e w' →
      TransmisionDelivery queue.toBaseTxQueue setup w' ∧ w'.HasBuffer setup.maxChunkSize := by
    intro w e w' hi hstep
    exact ⟨hi.1.step hmin hroom hstep, hi.1.length_buffer htime hmax hi.2 hstep.1⟩
  have hinitial : start.HasBuffer setup.maxChunkSize := by
    intro startTime r hreceive
    rw [hstart.1.receive] at hreceive
    cases hreceive
  obtain ⟨hi, hbuffer⟩ :=
    hrun.invariant ⟨TransmisionDelivery.of_initial hstart, hinitial⟩ hinvariant
  constructor
  · exact hi.accepted_flatten_isPrefix htime
  · intro startTime r hreceive
    obtain ⟨htimes, h, h', hsending, hreceiving, hread⟩ := hi.exists_receiving htime hreceive
    have hsize := hbuffer startTime r hreceive
    refine ⟨htimes, hsize, ?_, ?_⟩
    · intro chunkSize hcontrol
      rw [hsize]
      have hle := hreceiving.chunkSize_le hsending hread hcontrol
      exact UInt64.le_iff_toNat_le.1 (UInt64.le_trans hle hmax)
    · intro hleft
      obtain ⟨heq, hsource, hquit⟩ := (hreceiving.accepted_isPrefix hsending hread).2 hleft
      have hjob := ProducerTransmision.eq_job_of_quit hquit
      refine ⟨_, hjob, hquit, heq ▸ hsource, heq, ?_, hsending.hash, heq ▸ hreceiving.hash⟩
      rw [hreceiving.total, hsending.total, heq]

/-- `transmision_delivery` on a transfer of three bytes that comes to its end. -/
theorem transmision_delivery_three_bytes : ∃ ts w r t,
    Run (transmisionWorldLts frameQueue.toBaseTxQueue threeBytesSetup .everyLoad)
      (freshTransmision frameQueue.toBaseTxQueue) ts w ∧
    w.state.receive = .job 5 r ∧ w.state.transmit = .job t ∧
    w.log.accepted.flatten = [1, 2, 3] ∧ r.job.totalData_ = t.job.totalData_ := by
  have hstart := freshTransmision_initial frameQueue.toBaseTxQueue threeBytesSetup .everyLoad
  obtain ⟨w, r, ⟨ts, hrun, -⟩, hreceive, hquit, -⟩ :=
    (TransmisionDelivery.of_initial hstart).leads_quit (by decide) (by decide) (by decide)
      ⟨by decide, fun _ => by decide⟩ (by decide) ⟨rfl, rfl, trivial, trivial⟩
  obtain ⟨-, hjob⟩ := transmision_delivery frameQueue threeBytesSetup (by decide) (by decide)
    (by decide) (by decide) hstart hrun
  obtain ⟨-, -, -, hleft⟩ := hjob 5 r hreceive
  obtain ⟨t, htransmit, -, hflatten, -, htotal, -⟩ := hleft (by rw [hquit]; trivial)
  exact ⟨ts, w, r, t, hrun, hreceive, htransmit, hflatten, htotal⟩

/-- From every reachable state in which both programs are between their transactions they can be
completed: the consumer's job leaves its loop with the whole source. -/
theorem transmision_completes (queue : RingQueue) (setup : TransmisionSetup σ σ')
    (hok : queue.isOk) (hmin : 1 ≤ setup.source.minChunkSize_)
    (hle : setup.source.minChunkSize_ ≤ setup.source.maxChunkSize_)
    (hcompletable : setup.source.Completable queue.capacity.toNat)
    (htime : setup.timestamp ≠ 0) {start w : TransmisionWorld σ σ'}
    {ts : List (Transition (TransmisionWorld σ σ') TransferEvent)}
    (hstart : (transmisionWorldLts queue.toBaseTxQueue setup .everyLoad).initial start)
    (hrun : Run (transmisionWorldLts queue.toBaseTxQueue setup .everyLoad) start ts w)
    (hrests : w.Rests queue.toBaseTxQueue) :
    ∃ us w' r, Run (transmisionWorldLts queue.toBaseTxQueue setup .everyLoad) w us w' ∧
      w'.state.receive = .job setup.timestamp r ∧ r.control = .quit ∧
      w'.log.accepted.flatten = setup.source.srcData_ := by
  have hroom : 8 ≤ queue.capacity.toNat := hcompletable.signal
  have hi : TransmisionDelivery queue.toBaseTxQueue setup w :=
    hrun.invariant (.of_initial hstart) fun _ _ _ hi hstep => hi.step hmin hroom hstep
  obtain ⟨w', r, ⟨us, hus, -⟩, hreceive, hquit, hsource⟩ :=
    hi.leads_quit hok hmin hle hcompletable htime hrests
  exact ⟨us, w', r, hus, hreceive, hquit, hsource⟩

/-- `transmision_completes` from the start of a transfer of three bytes. -/
theorem transmision_completes_three_bytes : ∃ us w r,
    Run (transmisionWorldLts frameQueue.toBaseTxQueue threeBytesSetup .everyLoad)
      (freshTransmision frameQueue.toBaseTxQueue) us w ∧
    w.state.receive = .job 5 r ∧ r.control = .quit ∧ w.log.accepted.flatten = [1, 2, 3] :=
  transmision_completes frameQueue threeBytesSetup (by decide) (by decide) (by decide)
    ⟨by decide, fun _ => by decide⟩ (by decide) (freshTransmision_initial _ _ _) .nil
    ⟨rfl, rfl, trivial, trivial⟩

end TxQueue
