import TxQueue.Jobs.Passes

/-!
# The transfer end to end

What the consumer has accepted is a prefix of the source at any time, and all of it once it has left
its loop (`delivery`). Between transactions the two jobs cannot both fail (`no_stuck_state`), and
from there the transfer can be completed.
-/

namespace TxQueue

open Library

variable {σ : Type*} {source : TransmitBuffer} {verification : Verification σ}
  {maxChunkSize : UInt64}

/-- Both sides of the queue are idle between their transactions. -/
structure Rests (queue : BaseTxQueue) (w : TransferWorld σ) : Prop where
  producer : w.state.system.producer = .idle queue
  consumer : w.state.system.consumer = .idle queue
  transmit : w.state.transmit.control.IsBetween
  receive : w.state.receive.control = .loop

variable (maxChunkSize) in
/-- From a state at rest the transfer can be completed: each pass that commits leaves the producer
with less to do, or the consumer with less to read. -/
theorem DeliveryBehind.leads_quit {queue : RingQueue} {base : List (List UInt8)}
    {w : TransferWorld σ} (hok : queue.isOk)
    (hmin : 1 ≤ source.minChunkSize_) (hle : source.minChunkSize_ ≤ source.maxChunkSize_)
    (hcompletable : source.Completable queue.capacity.toNat)
    (hi : DeliveryBehind queue.toBaseTxQueue source verification base w)
    (hrests : Rests queue.toBaseTxQueue w) :
    ∃ w', (transferWorldLts queue.toBaseTxQueue source verification maxChunkSize
      .everyLoad).Leads (fun _ => True) w w' ∧ w'.state.receive.control = .quit := by
  -- a pass of the producer lowers what it has left, a pass of the consumer the bytes in the ring
  induction hn : w.state.transmit.remaining source using Nat.strong_induction_on
    generalizing w with
  | _ n ihn =>
  induction hm : w.log.history.tail - w.log.history.head using Nat.strong_induction_on
    generalizing w with
  | _ m ihm =>
  have hproducer := hi.queue.indices.producer
  have hconsumer := hi.queue.indices.consumer
  simp only [hrests.producer, hrests.consumer, Producer.Placed,
    Consumer.Placed] at hproducer hconsumer
  rcases hi.commits_or_delivers hok hrests.receive with ⟨hquit, hcommits⟩ | ⟨data, -, hdelivers⟩
  · obtain ⟨calls, hcalls, hfits⟩ :=
      Transmitter.exists_fitting hmin hle hcompletable hrests.transmit hquit
    obtain ⟨block', hattempt, -⟩ := hcommits calls hfits 0
    obtain ⟨w', hleads, hpass, hbetween, hless⟩ :=
      leads_transmitPass verification maxChunkSize .everyLoad hok hrests.producer hproducer.2 hmin
        hcalls 0
    have hi' : DeliveryBehind queue.toBaseTxQueue source verification base w' :=
      hleads.induct hi fun _ _ _ _ hi hstep => hi.step hmin hstep
    have hrests' : Rests queue.toBaseTxQueue w' :=
      ⟨hpass.producer, hpass.consumer.trans hrests.consumer, hbetween,
        (congrArg Receiver.control hpass.receive).trans hrests.receive⟩
    have hlt := hless (congrArg Prod.fst hattempt)
    obtain ⟨w'', hleads', hquit⟩ := ihn _ (hn ▸ hlt) hi' hrests' rfl
    exact ⟨w'', (hleads.mono fun _ _ => trivial).trans hleads', hquit⟩
  · obtain ⟨block', hattempt, -⟩ := hdelivers 0 (w.state.receive.buffer.getD · 0)
    obtain ⟨w', hleads, hpass⟩ := leads_receivePass source verification maxChunkSize .everyLoad hok
      hrests.consumer hconsumer.2 hrests.receive 0
    have hi' : DeliveryBehind queue.toBaseTxQueue source verification base w' :=
      hleads.induct hi fun _ _ _ _ hi hstep => hi.step hmin hstep
    have hcontrol := hpass.control
    have hconsumed := hpass.consumed
    change attemptRead _ _ _ w.state.system.block = _ at hattempt
    rw [hattempt] at hcontrol hconsumed
    by_cases hempty : some data = some []
    · exact ⟨w', hleads.mono fun _ _ => trivial, by rw [hcontrol, if_pos hempty]⟩
    · rw [if_neg hempty] at hcontrol
      have hrests' : Rests queue.toBaseTxQueue w' :=
        ⟨hpass.producer.trans hrests.producer, hpass.consumer, hpass.transmit ▸ hrests.transmit,
          hcontrol⟩
      have horder : w'.log.history.head ≤ w'.log.history.tail := by
        obtain ⟨hhead, htail, -⟩ := w'.log.history.behind_positions base
        have horder := hi'.queue.indices.head_le_tail
        change (w'.log.history.behind base base).head ≤ (w'.log.history.behind base base).tail
          at horder
        omega
      have htail : w'.log.history.tail = w.log.history.tail := by
        rw [History.tail, History.tail, hpass.written]
      have hhead : w'.log.history.head = w.log.history.head + (8 + data.length) := by
        simp [History.head, hconsumed]
      obtain ⟨w'', hleads', hquit⟩ :=
        ihm _ (by omega) hi' hrests' (hpass.transmit ▸ hn) rfl
      exact ⟨w'', (hleads.mono fun _ _ => trivial).trans hleads', hquit⟩

variable (maxChunkSize) in
/-- On a fresh queue the transfer can be completed from any state at rest. -/
theorem Delivery.leads_quit {queue : RingQueue} {w : TransferWorld σ} (hok : queue.isOk)
    (hmin : 1 ≤ source.minChunkSize_) (hle : source.minChunkSize_ ≤ source.maxChunkSize_)
    (hfits : source.maxChunkSize_.toNat + 8 ≤ queue.capacity.toNat)
    (hi : Delivery queue.toBaseTxQueue source verification w)
    (hrests : Rests queue.toBaseTxQueue w) :
    ∃ w', (transferWorldLts queue.toBaseTxQueue source verification maxChunkSize
      .everyLoad).Leads (fun _ => True) w w' ∧ w'.state.receive.control = .quit :=
  hi.behind_nil.leads_quit maxChunkSize hok hmin hle (source.completable_of_max hle hfits) hrests

/-- The start of a transfer with a ring of zeros. -/
def freshTransfer (queue : BaseTxQueue) (verification : Verification σ) (maxChunkSize : UInt64) :
    TransferWorld σ where
  state :=
    { system := (freshWorld queue).state
      transmit := ⟨.loop, .start verification⟩
      receive := ⟨.loop, .start verification, List.replicate maxChunkSize.toNat 0⟩ }
  log := {}

theorem freshTransfer_initial (queue : BaseTxQueue) (source : TransmitBuffer)
    (verification : Verification σ) (maxChunkSize : UInt64) (vis : Visibility) :
    (transferWorldLts queue source verification maxChunkSize vis).initial
      (freshTransfer queue verification maxChunkSize) :=
  ⟨⟨⟨rfl, rfl, rfl, rfl⟩, rfl, rfl⟩, rfl⟩

/-- A queue of sixteen slots. -/
def frameQueue : RingQueue where
  storage_ := 64
  capacity_ := 16
  isPowTwo := ⟨4, rfl⟩

/-- Three bytes to be sent in chunks of one or two. -/
def threeBytes : TransmitBuffer where
  srcData_ := [1, 2, 3]
  minChunkSize_ := 1
  maxChunkSize_ := 2
  fitsWord := by
    unfold FitsWord
    decide

/-- The sum of the bytes. -/
def byteSum : Verification UInt8 where
  init := 0
  update := List.foldl (· + ·)

/-- In every run of the two jobs the accepted payload is a prefix of the source; a chunk size that
the consumer has read is at most its `max_chunk_size_`, and so the buffer is not overrun; and when
the consumer has left its loop it has accepted the whole source, in the chunks in which it was
sent, with the `total_data_` and the hash of the producer. -/
theorem delivery (queue : RingQueue) (source : TransmitBuffer) (verification : Verification σ)
    (maxChunkSize : UInt64) (hmin : 1 ≤ source.minChunkSize_)
    (hmax : source.maxChunkSize_ ≤ maxChunkSize) {start w : TransferWorld σ}
    {ts : List (Transition (TransferWorld σ) TransferEvent)}
    (hstart : (transferWorldLts queue.toBaseTxQueue source verification maxChunkSize
      .everyLoad).initial start)
    (hrun : Run (transferWorldLts queue.toBaseTxQueue source verification maxChunkSize .everyLoad)
      start ts w) :
    w.log.accepted.flatten <+: source.srcData_ ∧
    (∀ t ∈ ts, ∀ data, t.event = .receive (.call (.read data)) →
      t.source.state.receive.control = .readSize → ofLe64 data ≤ maxChunkSize) ∧
    w.state.receive.buffer.length = maxChunkSize.toNat ∧
    (∀ chunkSize, w.state.receive.control = .readData chunkSize →
      chunkSize.toNat ≤ w.state.receive.buffer.length) ∧
    (w.state.receive.control.HasLeft →
      w.log.accepted.flatten = source.srcData_ ∧ w.log.accepted = w.log.sent ∧
      w.state.receive.job.totalData_ = w.state.transmit.job.totalData_ ∧
      w.state.receive.job.hashStatus_ = w.state.transmit.job.hashStatus_) := by
  have hi := Delivery.of_run hmin hstart hrun
  have hinvariant : ∀ w e w', Delivery queue.toBaseTxQueue source verification w ∧
      w.state.receive.buffer.length = maxChunkSize.toNat →
      (transferWorldLts queue.toBaseTxQueue source verification maxChunkSize .everyLoad).step
        w e w' →
      Delivery queue.toBaseTxQueue source verification w' ∧
        w'.state.receive.buffer.length = maxChunkSize.toNat := by
    intro w e w' hi hstep
    exact ⟨hi.1.step hmin hstep, hi.1.length_buffer hmax hi.2 hstep.1⟩
  have hinitial : start.state.receive.buffer.length = maxChunkSize.toNat := by
    simp [hstart.1.receive]
  have hmem := hrun.invariant_of_mem ⟨Delivery.of_initial hstart, hinitial⟩ hinvariant
  have hbuffer := (hrun.invariant ⟨Delivery.of_initial hstart, hinitial⟩ hinvariant).2
  obtain ⟨hpre, hleft⟩ := hi.messages_isPrefix
  refine ⟨?_, ?_, hbuffer, ?_, ?_⟩
  · obtain ⟨later, hlater⟩ := hpre
    refine .trans ?_ hi.sending.fromSource
    rw [← hlater, List.flatten_append]
    exact List.prefix_append _ _
  · rintro ⟨w, e, w'⟩ ht data hevent hcontrol
    obtain ⟨-, ⟨hstep, -⟩, hnext, -⟩ := hmem _ ht
    exact hnext.readSize_le hmax (hevent ▸ hstep) hcontrol
  · intro chunkSize hcontrol
    rw [hbuffer]
    exact UInt64.le_iff_toNat_le.1 (hi.chunkSize_le hmax hcontrol)
  · intro h
    obtain ⟨heq, hsource⟩ := hleft h
    refine ⟨heq ▸ hsource, heq, ?_, ?_⟩
    · rw [hi.receiving.total, hi.sending.total, heq]
    · rw [hi.receiving.hash, hi.sending.hash, heq]

/-- `delivery` on a transfer of three bytes that comes to its end. -/
theorem delivery_three_bytes : ∃ ts w,
    (transferWorldLts frameQueue.toBaseTxQueue threeBytes byteSum 2 .everyLoad).initial
      (freshTransfer frameQueue.toBaseTxQueue byteSum 2) ∧
    Run (transferWorldLts frameQueue.toBaseTxQueue threeBytes byteSum 2 .everyLoad)
      (freshTransfer frameQueue.toBaseTxQueue byteSum 2) ts w ∧
    w.state.receive.control = .quit ∧ w.log.accepted.flatten = [1, 2, 3] ∧
    w.state.receive.job.totalData_ = w.state.transmit.job.totalData_ := by
  have hstart := freshTransfer_initial frameQueue.toBaseTxQueue threeBytes byteSum 2 .everyLoad
  have hrests : Rests frameQueue.toBaseTxQueue (freshTransfer frameQueue.toBaseTxQueue byteSum 2) :=
    ⟨rfl, rfl, trivial, rfl⟩
  obtain ⟨w, ⟨ts, hrun, -⟩, hquit⟩ := (Delivery.of_initial hstart).leads_quit 2
    (by decide) (by decide) (by decide) (by decide) hrests
  obtain ⟨-, -, -, -, hleft⟩ :=
    delivery frameQueue threeBytes byteSum 2 (by decide) (by decide) hstart hrun
  obtain ⟨hflatten, -, htotal, -⟩ := hleft (by rw [hquit]; trivial)
  exact ⟨ts, w, hstart, hrun, hquit, hflatten, htotal⟩

/-- In every reachable state in which both jobs are between transactions and the consumer has not
left its loop, a transaction of the producer now commits its next message, whichever it is, or
a transaction of the consumer now delivers the next frame. -/
theorem no_stuck_state (queue : RingQueue) (source : TransmitBuffer)
    (verification : Verification σ) (maxChunkSize : UInt64) (hok : queue.isOk)
    (hmin : 1 ≤ source.minChunkSize_) (hle : source.minChunkSize_ ≤ source.maxChunkSize_)
    (hfits : source.maxChunkSize_.toNat + 8 ≤ queue.capacity.toNat) {start w : TransferWorld σ}
    {ts : List (Transition (TransferWorld σ) TransferEvent)}
    (hstart : (transferWorldLts queue.toBaseTxQueue source verification maxChunkSize
      .everyLoad).initial start)
    (hrun : Run (transferWorldLts queue.toBaseTxQueue source verification maxChunkSize .everyLoad)
      start ts w)
    (htransmit : w.state.transmit.control.IsBetween)
    (hreceive : w.state.receive.control = .loop) :
    ((∃ calls, w.state.transmit.NextCalls source calls) ∧
      ∀ calls, w.state.transmit.NextCalls source calls →
        w.world.CommitsNow queue.toBaseTxQueue calls) ∨
    ∃ data, w.world.DeliversNow queue.toBaseTxQueue data :=
  (Delivery.of_run hmin hstart hrun).progress hok hmin hle hfits htransmit hreceive

/-- `no_stuck_state` at the start of a transfer of three bytes. -/
theorem no_stuck_state_three_bytes :
    ((∃ calls, (freshTransfer frameQueue.toBaseTxQueue byteSum 2).state.transmit.NextCalls
        threeBytes calls) ∧
      ∀ calls, (freshTransfer frameQueue.toBaseTxQueue byteSum 2).state.transmit.NextCalls
          threeBytes calls →
        (freshTransfer frameQueue.toBaseTxQueue byteSum 2).world.CommitsNow
          frameQueue.toBaseTxQueue calls) ∨
    ∃ data, (freshTransfer frameQueue.toBaseTxQueue byteSum 2).world.DeliversNow
      frameQueue.toBaseTxQueue data :=
  no_stuck_state frameQueue threeBytes byteSum 2 (by decide) (by decide) (by decide) (by decide)
    (freshTransfer_initial _ _ _ _ _) .nil trivial rfl

end TxQueue
