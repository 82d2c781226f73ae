import TxQueue.Concurrent.Fifo
import TxQueue.Jobs.Receiving

/-!
# The framed transfer delivers the buffer

The frames of the chunks are a prefix code, and the queue is first in, first out. So what the
consumer has accepted is a prefix of what the producer has sent, chunk by chunk, whatever the
transactions that were refused in between. `delivery` follows.
-/

namespace TxQueue

open Library

variable {σ σ' : Type*}

/-- The queue under the two jobs, with its history. -/
def TransferWorld.world (w : TransferWorld σ) : World := ⟨w.state.system, w.log.history⟩

/-- The history of a queue on which these transactions were committed before. -/
def History.behind (written consumed : List (List UInt8)) (h : History) : History :=
  { h with
    written := written ++ h.written
    consumed := consumed ++ h.consumed }

theorem History.record_behind (written consumed : List (List UInt8)) (h : History) (e : Event) :
    (h.behind written consumed).record e = (h.record e).behind written consumed := by
  cases e with
  | closeWrite published => cases published <;> simp [behind, record]
  | closeRead published => cases published <;> simp [behind, record]
  | _ => rfl

/-- A log goes on behind earlier transactions as it does without them. -/
theorem TransferLog.record_behind {written consumed : List (List UInt8)} {h : History}
    {log : TransferLog} (hbehind : log.history = h.behind written consumed) (e : TransferEvent) :
    log.record e = { ({ log with history := h }).record e with
      history := (({ log with history := h }).record e).history.behind written consumed } := by
  obtain ⟨history, sent, accepted⟩ := log
  obtain rfl := hbehind
  cases e with
  | transmit a | receive a => cases a <;> simp [TransferLog.record, History.record_behind]

/-- The invariant of the transfer. -/
structure Delivery (queue : BaseTxQueue) (source : TransmitBuffer) (verification : Verification σ)
    (w : TransferWorld σ) : Prop where
  queue : Invariant queue.capacity_ w.world
  sending : Sending source verification w.state.transmit w.state.system.producer.isValid
    w.log.history w.log.sent
  receiving : Receiving verification w.state.receive w.state.system.consumer.isValid w.log.history
    w.log.accepted

/-- A job that moves the queue keeps its invariant. -/
theorem Invariant.of_moves {queue : RingQueue} {w w' : World}
    (hi : Invariant queue.capacity_ w) (hmoves : w.Moves .everyLoad w') :
    Invariant queue.capacity_ w' := by
  rcases hmoves with ⟨e, hstep, hlog⟩ | rfl
  · have hnext : (worldLts queue.toBaseTxQueue .everyLoad).step w e w' := ⟨hstep, hlog⟩
    exact hi.step hnext
  · exact hi

/-- The committed transactions of the producer are messages that fit the consumer's buffer. -/
theorem Sending.length_le {source : TransmitBuffer} {verification : Verification σ}
    {t : Transmitter σ} {valid : Bool} {h : History} {sent messages : List (List UInt8)}
    (hi : Sending source verification t valid h sent)
    (hmessages : messages <+: sent ∨ messages = sent ++ [[]]) :
    ∀ data ∈ messages, data.length ≤ source.maxChunkSize_.toNat := by
  intro data hdata
  have hmem : data ∈ sent ∨ data = [] := by
    rcases hmessages with hpre | rfl
    · exact .inl (hpre.subset hdata)
    · simpa using hdata
  rcases hmem with hsent | rfl
  · exact (hi.chunks data hsent).2
  · exact Nat.zero_le _

/-- The messages of the producer that are committed, by their frames. -/
theorem Sending.exists_frames {source : TransmitBuffer} {verification : Verification σ}
    {t : Transmitter σ} {valid : Bool} {h : History} {sent : List (List UInt8)}
    (hi : Sending source verification t valid h sent) :
    ∃ messages, h.written = messages.map frame ∧
      (∀ data ∈ messages, data.length ≤ source.maxChunkSize_.toNat ∧ FitsWord data) ∧
      (messages <+: sent ∨
        t.control = .quit ∧ messages = sent ++ [[]] ∧ sent.flatten = source.srcData_) := by
  obtain ⟨messages, hwritten, hmessages⟩ := hi.exists_messages
  have hlength := hi.length_le (hmessages.imp id (·.2.1))
  exact ⟨messages, hwritten, fun data hdata =>
    ⟨hlength data hdata, (hlength data hdata).trans_lt (UInt64.toNat_lt _)⟩, hmessages⟩

/-- The buffer keeps its size in a step with a chunk that fits it. -/
theorem ReceiveStep.length_buffer {verification : Verification σ} {r r' : Receiver σ} {a : Action}
    {maxChunkSize : UInt64} (hjob : ReceiveStep verification r a r')
    (hle : ∀ chunkSize, r.control = .readData chunkSize → chunkSize ≤ maxChunkSize)
    (hbuffer : r.buffer.length = maxChunkSize.toNat) : r'.buffer.length = maxChunkSize.toNat := by
  cases hjob with
  | @readData job buffer data chunkSize hlen =>
      have hfits := UInt64.le_iff_toNat_le.1 (hle chunkSize rfl)
      simp only [List.length_append, List.length_drop] at hbuffer ⊢
      omega
  | _ => exact hbuffer

/-! ## The consumer behind the producer -/

section Behind

variable {source : TransmitBuffer} {verification : Verification σ}
  {verification' : Verification σ'} {t : Transmitter σ} {r : Receiver σ'} {valid valid' : Bool}
  {h h' : History} {sent accepted : List (List UInt8)}

/-- A size of which the consumer reads the data is the size of a chunk. -/
theorem Receiving.chunkSize_le (hi : Receiving verification' r valid h accepted)
    (hsending : Sending source verification t valid' h' sent)
    (hread : h.consumed.flatten ++ h.reading <+: h'.written.flatten) {chunkSize : UInt64}
    (hcontrol : r.control = .readData chunkSize) : chunkSize ≤ source.maxChunkSize_ := by
  have hplaced := hi.control
  rw [hcontrol] at hplaced
  obtain ⟨hconsumed, hsize⟩ := hplaced
  split_ifs at hsize
  · obtain ⟨messages, hwritten, hlength, -⟩ := hsending.exists_frames
    rw [hconsumed, hsize, hwritten] at hread
    obtain ⟨data, hpre, hlen⟩ := exists_of_frames_append_word
      (fun data hdata => (hi.chunks data hdata).2) (fun data hdata => (hlength data hdata).2) hread
    have hmem : data ∈ messages := hpre.subset (by simp)
    rw [UInt64.le_iff_toNat_le, ← hlen]
    exact (hlength data hmem).1
  · subst hsize
    exact UInt64.le_iff_toNat_le.2 (Nat.zero_le _)

/-- The frames that the consumer has read are the first ones of the producer, and the empty one is
the last. -/
theorem Receiving.accepted_isPrefix (hi : Receiving verification' r valid h accepted)
    (hsending : Sending source verification t valid' h' sent)
    (hread : h.consumed.flatten ++ h.reading <+: h'.written.flatten) :
    (accepted <+: sent) ∧ (r.control.HasLeft →
      accepted = sent ∧ sent.flatten = source.srcData_ ∧ t.control = .quit) := by
  obtain ⟨messages, hwritten, hlength, hmessages⟩ := hsending.exists_frames
  obtain ⟨received, hreceived, hleft⟩ := hi.exists_messages
  have hsent : [] ∉ sent := fun h => (hsending.chunks _ h).1 rfl
  have haccepted : [] ∉ accepted := fun h => (hi.chunks _ h).1 rfl
  have hfits : ∀ data ∈ received, FitsWord data := by
    intro data hdata
    have hmem : data ∈ accepted ∨ data = [] := by
      rcases hleft with ⟨rfl, -⟩ | ⟨rfl, -⟩
      · exact .inl hdata
      · simpa using hdata
    rcases hmem with hmem | rfl
    · exact (hi.chunks data hmem).2
    · show 0 < 2 ^ 64
      decide
  have hpre : received <+: messages := by
    refine frame_prefixCode.prefix_of_flatten hfits (fun data hdata => (hlength data hdata).2) ?_
    rw [← hwritten]
    exact hreceived.trans hread
  rcases hleft with ⟨rfl, hleft⟩ | ⟨rfl, -⟩
  · refine ⟨?_, fun h => (hleft h).elim⟩
    rcases hmessages with hmessages | ⟨-, rfl, -⟩
    · exact hpre.trans hmessages
    · rcases List.prefix_concat_iff.1 hpre with heq | hpre
      · exact absurd (heq ▸ by simp) haccepted
      · exact hpre
  · -- the empty message is the last one
    rcases hmessages with hmessages | ⟨hquit, rfl, hsource⟩
    · exact absurd ((hpre.trans hmessages).subset (by simp)) hsent
    · rcases List.prefix_concat_iff.1 hpre with heq | hpre
      · obtain ⟨heq, -⟩ := List.append_inj' heq rfl
        exact ⟨heq ▸ List.prefix_rfl, fun _ => ⟨heq, hsource, hquit⟩⟩
      · exact absurd (hpre.subset (by simp)) hsent

end Behind

/-! ## A transfer on a queue that has been used before -/

/-- The invariant of the transfer on a queue on which `base` was committed and taken before. -/
structure DeliveryBehind (queue : BaseTxQueue) (source : TransmitBuffer)
    (verification : Verification σ) (base : List (List UInt8)) (w : TransferWorld σ) : Prop where
  queue : Invariant queue.capacity_ ⟨w.state.system, w.log.history.behind base base⟩
  sending : Sending source verification w.state.transmit w.state.system.producer.isValid
    w.log.history w.log.sent
  receiving : Receiving verification w.state.receive w.state.system.consumer.isValid w.log.history
    w.log.accepted

/-- On a fresh queue nothing was committed before. -/
theorem Delivery.behind_nil {queue : BaseTxQueue} {source : TransmitBuffer}
    {verification : Verification σ} {w : TransferWorld σ}
    (hi : Delivery queue source verification w) : DeliveryBehind queue source verification [] w :=
  ⟨hi.queue, hi.sending, hi.receiving⟩

namespace DeliveryBehind

variable {queue : RingQueue} {source : TransmitBuffer} {verification : Verification σ}
  {maxChunkSize : UInt64} {base : List (List UInt8)} {w w' : TransferWorld σ} {e : TransferEvent}

/-- Every step of either job keeps the invariant. -/
theorem step (hmin : 1 ≤ source.minChunkSize_)
    (hi : DeliveryBehind queue.toBaseTxQueue source verification base w)
    (hstep : (transferWorldLts queue.toBaseTxQueue source verification maxChunkSize
      .everyLoad).step w e w') :
    DeliveryBehind queue.toBaseTxQueue source verification base w' := by
  obtain ⟨s, log⟩ := w
  obtain ⟨s', log'⟩ := w'
  obtain ⟨hstep, rfl⟩ := hstep
  -- the queue sees the log behind `base`
  let whole : TransferLog := { log with history := log.history.behind base base }
  have hbehind : whole.history = log.history.behind base base := rfl
  have hwhole : (whole.record e).history = (log.record e).history.behind base base :=
    congrArg TransferLog.history (TransferLog.record_behind hbehind e)
  cases hstep with
  | transmit hjob hacts =>
      have hmoves : World.Moves .everyLoad ⟨s.system, whole.history⟩
          ⟨_, (whole.record (.transmit _)).history⟩ := TransferLog.moves_of_transmit hacts
      rw [hwhole] at hmoves
      exact ⟨hi.queue.of_moves hmoves,
        hi.sending.step_of_writing hmin hi.queue.indices rfl hjob hacts,
        hi.receiving.of_transmit hjob hacts⟩
  | receive hjob hacts =>
      have hmoves : World.Moves .everyLoad ⟨s.system, whole.history⟩
          ⟨_, (whole.record (.receive _)).history⟩ := TransferLog.moves_of_receive hacts
      rw [hwhole] at hmoves
      exact ⟨hi.queue.of_moves hmoves, hi.sending.of_receive hjob hacts,
        hi.receiving.step_of_reading hi.queue.indices rfl hjob hacts⟩

/-- What the consumer has taken behind `base` starts what the producer has committed behind it. -/
theorem read_isPrefix (hi : DeliveryBehind queue.toBaseTxQueue source verification base w) :
    w.log.history.consumed.flatten ++ w.log.history.reading <+: w.log.history.written.flatten := by
  have hread : (base ++ w.log.history.consumed).flatten ++ w.log.history.reading <+:
      (base ++ w.log.history.written).flatten := hi.queue.reads.read
  rwa [List.flatten_append, List.flatten_append, List.append_assoc,
    List.prefix_append_right_inj] at hread

end DeliveryBehind

/-! ## A transfer on a fresh queue -/

namespace Delivery

variable {queue : RingQueue} {source : TransmitBuffer} {verification : Verification σ}
  {maxChunkSize : UInt64} {start w w' : TransferWorld σ} {e : TransferEvent}
  {ts : List (Transition (TransferWorld σ) TransferEvent)}

/-- The messages of the producer that are committed, by their frames. -/
theorem exists_messages
    (hi : Delivery queue.toBaseTxQueue source verification w) :
    ∃ messages, w.log.history.written = messages.map frame ∧
      (∀ data ∈ messages, data.length ≤ source.maxChunkSize_.toNat ∧ FitsWord data) ∧
      (messages <+: w.log.sent ∨ w.state.transmit.control = .quit ∧
        messages = w.log.sent ++ [[]] ∧ w.log.sent.flatten = source.srcData_) :=
  hi.sending.exists_frames

/-- A size of which the consumer reads the data fits the buffer. -/
theorem chunkSize_le (hmax : source.maxChunkSize_ ≤ maxChunkSize)
    (hi : Delivery queue.toBaseTxQueue source verification w) {chunkSize : UInt64}
    (hcontrol : w.state.receive.control = .readData chunkSize) : chunkSize ≤ maxChunkSize :=
  UInt64.le_trans (hi.receiving.chunkSize_le hi.sending hi.queue.reads.read hcontrol) hmax

/-- The start satisfies the invariant. -/
theorem of_initial (hstart : (transferWorldLts queue.toBaseTxQueue source verification maxChunkSize
    .everyLoad).initial start) :
    Delivery queue.toBaseTxQueue source verification start := by
  obtain ⟨⟨system, transmit, receive⟩, log⟩ := start
  obtain ⟨⟨hsystem, rfl, rfl⟩, rfl⟩ := hstart
  refine ⟨⟨.of_fresh hsystem, .of_fresh hsystem, .of_fresh hsystem⟩, ?_, ?_⟩
  · exact ⟨by simp, List.nil_prefix, rfl, rfl, rfl⟩
  · exact ⟨by simp, rfl, rfl, rfl⟩

/-- Every step of either job keeps the invariant. -/
theorem step (hmin : 1 ≤ source.minChunkSize_)
    (hi : Delivery queue.toBaseTxQueue source verification w)
    (hstep : (transferWorldLts queue.toBaseTxQueue source verification maxChunkSize
      .everyLoad).step w e w') :
    Delivery queue.toBaseTxQueue source verification w' := by
  obtain ⟨hqueue, hsending, hreceiving⟩ := hi.behind_nil.step hmin hstep
  exact ⟨hqueue, hsending, hreceiving⟩

/-- The invariant holds in every run. -/
theorem of_run (hmin : 1 ≤ source.minChunkSize_)
    (hstart : (transferWorldLts queue.toBaseTxQueue source verification maxChunkSize
      .everyLoad).initial start)
    (hrun : Run (transferWorldLts queue.toBaseTxQueue source verification maxChunkSize .everyLoad)
      start ts w) :
    Delivery queue.toBaseTxQueue source verification w :=
  hrun.invariant (of_initial hstart) fun _ _ _ hi hstep => hi.step hmin hstep

/-- The buffer keeps its size as long as no chunk is larger. -/
theorem length_buffer (hmax : source.maxChunkSize_ ≤ maxChunkSize)
    (hi : Delivery queue.toBaseTxQueue source verification w)
    (hbuffer : w.state.receive.buffer.length = maxChunkSize.toNat)
    (hstep : TransferStep source verification .everyLoad w.state e w'.state) :
    w'.state.receive.buffer.length = maxChunkSize.toNat := by
  have hle : ∀ chunkSize, w.state.receive.control = .readData chunkSize →
      chunkSize ≤ maxChunkSize := fun _ hcontrol => hi.chunkSize_le hmax hcontrol
  generalize w'.state = state' at hstep
  cases hstep with
  | transmit hjob hacts => exact hbuffer
  | receive hjob hacts => exact hjob.length_buffer hle hbuffer

/-- The size that a successful read has returned fits the buffer. -/
theorem readSize_le {data : List UInt8} (hmax : source.maxChunkSize_ ≤ maxChunkSize)
    (hi : Delivery queue.toBaseTxQueue source verification w')
    (hstep : TransferStep source verification .everyLoad w.state (.receive (.call (.read data)))
      w'.state)
    (hcontrol : w.state.receive.control = .readSize) : ofLe64 data ≤ maxChunkSize := by
  refine hi.chunkSize_le hmax ?_
  generalize w'.state = state' at hstep
  cases hstep with
  | receive hjob hacts => exact hjob.control_of_read hcontrol

/-- The frames that the consumer has read are the first ones of the producer. -/
theorem messages_isPrefix (hi : Delivery queue.toBaseTxQueue source verification w) :
    (w.log.accepted <+: w.log.sent) ∧ (w.state.receive.control.HasLeft →
      w.log.accepted = w.log.sent ∧ w.log.sent.flatten = source.srcData_) := by
  obtain ⟨hpre, hleft⟩ := hi.receiving.accepted_isPrefix hi.sending hi.queue.reads.read
  exact ⟨hpre, fun h => ⟨(hleft h).1, (hleft h).2.1⟩⟩

/-- A consumer that has left its loop has read the last frame of the producer. -/
theorem transmit_quit (hi : Delivery queue.toBaseTxQueue source verification w)
    (hleft : w.state.receive.control.HasLeft) : w.state.transmit.control = .quit :=
  ((hi.receiving.accepted_isPrefix hi.sending hi.queue.reads.read).2 hleft).2.2

end Delivery

end TxQueue
