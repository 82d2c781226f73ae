import TxQueue.Concurrent.Capacity
import TxQueue.Jobs.Delivery

/-!
# The framed transfer does not get stuck

Between transactions the ring holds whole frames. If it holds none, the next message of the producer
fits, whatever the position of the indices; if it holds one, the consumer can read it. So the
attempts of the two jobs cannot both fail for good.
-/

namespace TxQueue

open Library

variable {σ : Type*}

/-! ## One pass of each job -/

/-- The calls of `imp_write` in a pass, one after the other. -/
def writeCalls (core : Int32) : List (List UInt8) → TxWrite → Block → TxWrite × Block
  | [], tx, block => (tx, block)
  | data :: calls, tx, block =>
      let result := tx.impWrite block core (data.getD · 0) (UInt64.ofNat data.length)
      writeCalls core calls result.tx result.block

/-- A transaction of the producer that makes these calls, with no step of the consumer in between:
whether it commits, and the block it leaves. -/
def attemptWrite (queue : BaseTxQueue) (core : Int32) (calls : List (List UInt8)) (block : Block) :
    Bool × Block :=
  let (tx, block) :=
    writeCalls core calls (.construct queue block.status.tail_ block.status.head_) block
  (tx.toBool, tx.destroy block)

/-- The calls of `imp_write` in the transaction that the producer opens next. -/
def Transmitter.NextCalls (source : TransmitBuffer) (t : Transmitter σ)
    (calls : List (List UInt8)) : Prop :=
  match t.control with
  | .loop =>
      if t.job.totalData_ < source.srcDataSize_ then
        ∃ draw, source.minChunkSize_ ≤ draw ∧ draw ≤ source.maxChunkSize_ ∧
          calls = [le64 (source.chunkSize t.job.totalData_ draw),
            source.chunk t.job.totalData_ (source.chunkSize t.job.totalData_ draw)]
      else calls = [le64 0]
  | .signal => calls = [le64 0]
  | _ => False

/-- A transaction of the consumer, with no step of the producer in between: the bytes of the chunk
if it commits, and the block it leaves. -/
def attemptRead (queue : BaseTxQueue) (core : Int32) (buffer : ℕ → UInt8) (block : Block) :
    Option (List UInt8) × Block :=
  let tx := TxRead.construct queue block.status.head_ block.status.tail_
  let size := tx.impRead block core (fun _ => 0) 8
  let chunkSize := if size.ok then ofLe64 (bytes size.buffer 8) else 0
  let data := size.tx.impRead size.block core buffer chunkSize
  (if data.tx.toBool then some (bytes data.buffer chunkSize) else none, data.tx.destroy data.block)

/-! ## A pass at stream positions -/

section Pass

variable {cap : UInt64} {q r : ℕ} {block : Block}

/-- Calls that fit store their bytes one after the other. -/
theorem writeCalls_ready {tx : TxWrite} {calls : List (List UInt8)} (hcap : IsPowTwo cap)
    (core : Int32) (h : tx.Ready cap block q r)
    (hfits : q + calls.flatten.length ≤ r + (cap.toNat - 1)) :
    (writeCalls core calls tx block).1.Ready cap (writeCalls core calls tx block).2
        (q + calls.flatten.length) r ∧
      (writeCalls core calls tx block).2.ring =
        image block.ring (slotStores cap q calls.flatten) := by
  induction calls generalizing tx block q with
  | nil => exact ⟨h, rfl⟩
  | cons data calls ih =>
      simp only [List.flatten_cons, List.length_append] at hfits
      obtain ⟨-, hnext, hring⟩ := h.impWrite_data hcap core data (by omega)
      obtain ⟨hend, hring'⟩ := ih hnext (by omega)
      constructor
      · rw [List.flatten_cons, List.length_append, ← Nat.add_assoc]
        exact hend
      · refine hring'.trans ?_
        rw [hring, List.flatten_cons, slotStores_append, image_append]

/-- A pass whose bytes fit before the spare slot commits them. -/
theorem attemptWrite_commits {queue : RingQueue} (calls : List (List UInt8)) (hok : queue.isOk)
    (core : Int32) (hhead : block.status.head_.toNat = r % queue.capacity_.toNat)
    (htail : block.status.tail_.toNat = q % queue.capacity_.toNat) (hrq : r ≤ q)
    (hfits : q + calls.flatten.length ≤ r + (queue.capacity_.toNat - 1)) :
    (attemptWrite queue.toBaseTxQueue core calls block).1 = true ∧
      (attemptWrite queue.toBaseTxQueue core calls block).2.ring =
        image block.ring (slotStores queue.capacity_ q calls.flatten) ∧
      (attemptWrite queue.toBaseTxQueue core calls block).2.status.tail_.toNat =
        (q + calls.flatten.length) % queue.capacity_.toNat := by
  have hready := TxWrite.ready_construct hok hhead htail hrq (by omega)
  obtain ⟨hend, hring⟩ := writeCalls_ready queue.isPowTwo core hready hfits
  obtain ⟨p, -, -, hat⟩ := hend.cached
  refine ⟨?_, ?_, ?_⟩
  · simp [attemptWrite, TxWrite.toBool, hend.valid]
  · simp only [attemptWrite, TxWrite.destroy_ring]
    exact hring
  · simp only [attemptWrite, TxWrite.destroy_tail hend.valid]
    exact hat.tail

/-- A pass with a whole frame in the ring delivers it. -/
theorem attemptRead_delivers {queue : RingQueue} {data : List UInt8} (hok : queue.isOk)
    (core : Int32) (buffer : ℕ → UInt8)
    (hhead : block.status.head_.toNat = q % queue.capacity_.toNat)
    (htail : block.status.tail_.toNat = r % queue.capacity_.toNat)
    (hlap : r ≤ q + (queue.capacity_.toNat - 1)) (hfits : q + (frame data).length ≤ r)
    (hword : FitsWord data)
    (hring : ringBytes queue.capacity_ block.ring q (frame data).length = frame data) :
    (attemptRead queue.toBaseTxQueue core buffer block).1 = some data ∧
      (attemptRead queue.toBaseTxQueue core buffer block).2.ring = block.ring ∧
      (attemptRead queue.toBaseTxQueue core buffer block).2.status.head_.toNat =
        (q + (frame data).length) % queue.capacity_.toNat := by
  have height : (8 : UInt64).toNat = 8 := rfl
  have hlen := lengthWord_toNat hword
  rw [length_frame] at hfits hring ⊢
  rw [ringBytes_add] at hring
  obtain ⟨hsize, hdata⟩ := List.append_inj hring (by simp [ringBytes])
  have hready := TxRead.ready_construct hok hhead htail (by omega) hlap
  obtain ⟨hfirst, hnext, hsame, hbytes⟩ :=
    hready.impRead queue.isPowTwo core (fun _ => 0) (show q + (8 : UInt64).toNat ≤ r by omega)
  obtain ⟨-, hend, hsame', hbytes'⟩ := hnext.impRead queue.isPowTwo core buffer
    (show q + (8 : UInt64).toNat + (lengthWord data).toNat ≤ r by omega)
  -- the first read returns the length of the message
  have hchunk : ofLe64 (bytes (((TxRead.construct queue.toBaseTxQueue block.status.head_
      block.status.tail_).impRead block core (fun _ => 0) 8).buffer) 8) = lengthWord data := by
    rw [hbytes, height, hsize, ofLe64_le64]
  obtain ⟨p, -, -, hat⟩ := hend.cached
  simp only [attemptRead, hfirst, if_true, hchunk, TxRead.toBool, hend.valid, Bool.not_false,
    TxRead.destroy_ring, TxRead.destroy_head hend.valid]
  refine ⟨?_, hsame'.trans hsame, ?_⟩
  · rw [hbytes', hsame, hlen, height, hdata]
  · rw [hat.head, hlen, height, Nat.add_assoc]

end Pass

/-! ## Whole frames in the ring -/

/-- The producer is between two transactions, or done. -/
def TransmitControl.IsBetween : TransmitControl → Prop
  | .loop => True
  | .signal => True
  | .quit => True
  | _ => False

namespace DeliveryBehind

variable {queue : RingQueue} {source : TransmitBuffer} {verification : Verification σ}
  {base : List (List UInt8)} {w : TransferWorld σ}

/-- Unless everything that is committed was read, the ring holds a whole frame. -/
theorem exists_frame (hi : DeliveryBehind queue.toBaseTxQueue source verification base w)
    (hreceive : w.state.receive.control = .loop)
    (hlt : w.log.history.head < w.log.history.tail) :
    ∃ data, w.log.history.consumed ++ [frame data] <+: w.log.history.written ∧ FitsWord data ∧
      w.log.history.head + (frame data).length ≤ w.log.history.tail ∧
      (w.log.history.stream.drop w.log.history.head).take (frame data).length = frame data := by
  obtain ⟨messages, hwritten, hlength, -⟩ := hi.sending.exists_frames
  have hconsumed := hi.receiving.control
  rw [hreceive] at hconsumed
  change w.log.history.consumed = w.log.accepted.map frame at hconsumed
  have hpre : w.log.accepted <+: messages := by
    refine frame_prefixCode.prefix_of_flatten (fun data hdata => (hi.receiving.chunks data hdata).2)
      (fun data hdata => (hlength data hdata).2) ?_
    rw [← hwritten, ← hconsumed]
    exact (List.prefix_append _ _).trans hi.read_isPrefix
  obtain ⟨rest, rfl⟩ := hpre
  simp only [History.head, History.tail, History.stream, hconsumed, hwritten, List.map_append,
    List.flatten_append, List.length_append] at hlt ⊢
  cases rest with
  | nil => simp at hlt
  | cons data rest =>
      refine ⟨data, ?_, (hlength data (by simp)).2, by simp, ?_⟩
      · simp [List.prefix_append_right_inj]
      · rw [List.drop_left, List.map_cons, List.flatten_cons, List.take_left]

/-- A producer that is done has committed the empty message, which a consumer in its loop has not
read. -/
theorem head_lt_tail_of_quit (hi : DeliveryBehind queue.toBaseTxQueue source verification base w)
    (htransmit : w.state.transmit.control = .quit) (hreceive : w.state.receive.control = .loop) :
    w.log.history.head < w.log.history.tail := by
  have hwritten := hi.sending.control
  have hconsumed := hi.receiving.control
  rw [htransmit] at hwritten
  rw [hreceive] at hconsumed
  change w.log.history.consumed = w.log.accepted.map frame at hconsumed
  obtain ⟨later, hlater⟩ := (hi.receiving.accepted_isPrefix hi.sending hi.read_isPrefix).1
  simp only [History.head, History.tail, hconsumed, hwritten.1, ← hlater, List.map_append,
    List.flatten_append, List.length_append]
  simp
  omega

end DeliveryBehind

namespace Transmitter

variable {source : TransmitBuffer} {t : Transmitter σ} {calls : List (List UInt8)}

/-- A producer between two transactions that is not done has a next message. -/
theorem exists_nextCalls (hle : source.minChunkSize_ ≤ source.maxChunkSize_)
    (hbetween : t.control.IsBetween) (hquit : t.control ≠ .quit) :
    ∃ calls, t.NextCalls source calls := by
  obtain ⟨control, job⟩ := t
  cases control with
  | loop =>
      by_cases hmore : job.totalData_ < source.srcDataSize_
      · have hdraw := UInt64.le_refl source.minChunkSize_
        exact ⟨_, (if_pos hmore).mpr ⟨source.minChunkSize_, hdraw, hle, rfl⟩⟩
      · exact ⟨[le64 0], (if_neg hmore).mpr rfl⟩
  | signal => exact ⟨[le64 0], rfl⟩
  | quit => exact absurd rfl hquit
  | _ => exact hbetween.elim

/-- The next message has a size and at most `max_chunk_size_` bytes. -/
theorem length_nextCalls (hmin : 1 ≤ source.minChunkSize_) (hcalls : t.NextCalls source calls) :
    calls.flatten.length ≤ source.maxChunkSize_.toNat + 8 := by
  obtain ⟨control, job⟩ := t
  cases control with
  | loop =>
      simp only [NextCalls] at hcalls
      split_ifs at hcalls with hmore
      · obtain ⟨draw, hdraw, hmax, rfl⟩ := hcalls
        have hchunk := source.isChunk hmin hdraw hmax hmore
        have hle := UInt64.le_iff_toNat_le.1 hchunk.le_max
        simp [hchunk.length_chunk]
        omega
      · subst hcalls
        simp
  | signal =>
      obtain rfl : calls = [le64 0] := hcalls
      simp
  | _ => exact hcalls.elim

end Transmitter

/-- A queue with this capacity holds some message wherever the transfer stands: the end of the
buffer, and a chunk of the smallest size or a whole buffer that is smaller than that. -/
structure TransmitBuffer.Completable (source : TransmitBuffer) (capacity : ℕ) : Prop where
  signal : 8 ≤ capacity
  chunk : source.srcData_ ≠ [] →
    min source.minChunkSize_.toNat source.srcData_.length + 8 ≤ capacity

/-- It is enough that a chunk of the largest size fits. -/
theorem TransmitBuffer.completable_of_max {source : TransmitBuffer} {capacity : ℕ}
    (hle : source.minChunkSize_ ≤ source.maxChunkSize_)
    (hfits : source.maxChunkSize_.toNat + 8 ≤ capacity) : source.Completable capacity := by
  have hle := UInt64.le_iff_toNat_le.1 hle
  constructor
  · omega
  · intro _
    omega

/-- Then a producer that is not done has a next message that fits. -/
theorem Transmitter.exists_fitting {source : TransmitBuffer} {t : Transmitter σ} {capacity : ℕ}
    (hmin : 1 ≤ source.minChunkSize_) (hle : source.minChunkSize_ ≤ source.maxChunkSize_)
    (hcompletable : source.Completable capacity) (hbetween : t.control.IsBetween)
    (hquit : t.control ≠ .quit) :
    ∃ calls, t.NextCalls source calls ∧ calls.flatten.length ≤ capacity := by
  have hsignal := hcompletable.signal
  obtain ⟨control, job⟩ := t
  cases control with
  | loop =>
      by_cases hmore : job.totalData_ < source.srcDataSize_
      · have hdraw := UInt64.le_refl source.minChunkSize_
        refine ⟨_, (if_pos hmore).mpr ⟨source.minChunkSize_, hdraw, hle, rfl⟩, ?_⟩
        have hsize := UInt64.lt_iff_toNat_lt.1 hmore
        rw [source.srcDataSize_toNat] at hsize
        have hchunk := hcompletable.chunk (List.ne_nil_of_length_pos (by omega))
        have hlength := (source.isChunk hmin hdraw hle hmore).length_chunk
        have hsmallest : (source.chunkSize job.totalData_ source.minChunkSize_).toNat ≤
            min source.minChunkSize_.toNat source.srcData_.length := by
          rw [TransmitBuffer.chunkSize, TransmitBuffer.toNat_min,
            UInt64.toNat_sub_of_le _ _ (UInt64.le_of_lt hmore), source.srcDataSize_toNat]
          omega
        simp [hlength]
        omega
      · exact ⟨[le64 0], (if_neg hmore).mpr rfl, by simpa using hsignal⟩
  | signal => exact ⟨[le64 0], rfl, by simpa using hsignal⟩
  | quit => exact absurd rfl hquit
  | _ => exact hbetween.elim

/-- A transaction of the producer with these calls, opened now, commits their bytes at the tail. -/
def World.CommitsNow (queue : BaseTxQueue) (w : World) (calls : List (List UInt8)) : Prop :=
  ∀ core, ∃ block', attemptWrite queue core calls w.state.block = (true, block') ∧
    ringBytes queue.capacity_ block'.ring w.log.tail calls.flatten.length = calls.flatten ∧
    block'.status.tail_.toNat = (w.log.tail + calls.flatten.length) % queue.capacity_.toNat

/-- A transaction of the consumer, opened now, delivers `data` from the next committed frame. -/
def World.DeliversNow (queue : BaseTxQueue) (w : World) (data : List UInt8) : Prop :=
  w.log.consumed ++ [frame data] <+: w.log.written ∧
    ∀ core buffer, ∃ block', attemptRead queue core buffer w.state.block = (some data, block') ∧
      block'.status.head_.toNat = (w.log.head + (frame data).length) % queue.capacity_.toNat

/-- The bytes of the transactions that were committed before come first. -/
theorem History.behind_positions (base : List (List UInt8)) (h : History) :
    (h.behind base base).head = base.flatten.length + h.head ∧
      (h.behind base base).tail = base.flatten.length + h.tail ∧
      (h.behind base base).stream.drop (h.behind base base).head = h.stream.drop h.head := by
  have hhead : (h.behind base base).head = base.flatten.length + h.head := by
    simp [head, behind]
  refine ⟨hhead, by simp [tail, behind], ?_⟩
  rw [hhead, ← List.drop_drop]
  simp [stream, behind]

/-- Between transactions, with the consumer in its loop, any transaction of the producer that the
queue can hold commits, and the producer is not done, or the ring holds a whole frame. -/
theorem DeliveryBehind.commits_or_delivers {queue : RingQueue} {source : TransmitBuffer}
    {verification : Verification σ} {base : List (List UInt8)} {w : TransferWorld σ}
    (hok : queue.isOk) (hi : DeliveryBehind queue.toBaseTxQueue source verification base w)
    (hreceive : w.state.receive.control = .loop) :
    let world : World := ⟨w.state.system, w.log.history.behind base base⟩
    (w.state.transmit.control ≠ .quit ∧
      ∀ calls : List (List UInt8), calls.flatten.length ≤ queue.capacity.toNat →
        world.CommitsNow queue.toBaseTxQueue calls) ∨
    ∃ data, world.DeliversNow queue.toBaseTxQueue data := by
  intro world
  have hindices := hi.queue.indices
  obtain ⟨hheads, htails, hunread⟩ := w.log.history.behind_positions base
  have hhead : w.state.system.block.status.head_.toNat =
      world.log.head % queue.capacity_.toNat := hindices.heads.latest
  have htail : w.state.system.block.status.tail_.toNat =
      world.log.tail % queue.capacity_.toNat := hindices.tails.latest
  have horder : world.log.head ≤ world.log.tail := hindices.head_le_tail
  have hlap : world.log.tail ≤ world.log.head + (queue.capacity_.toNat - 1) := hindices.tail_le
  have hcapacity : queue.capacity.toNat = queue.capacity_.toNat - 1 :=
    sub_one_toNat queue.isPowTwo.pos
  change world.log.head = _ at hheads
  change world.log.tail = _ at htails
  rcases horder.eq_or_lt with hempty | hlt
  -- an empty ring takes any message
  · left
    constructor
    · intro hquit
      have hlt := hi.head_lt_tail_of_quit hquit hreceive
      omega
    · intro calls hfits core
      obtain ⟨hcommits, hring, hend⟩ := attemptWrite_commits calls hok core hhead htail horder
        (by omega)
      refine ⟨_, Prod.ext hcommits rfl, ?_, hend⟩
      have hstored := ringBytes_slotStores queue.capacity_ w.state.system.block.ring
        world.log.tail calls.flatten (by omega)
      rw [← hring] at hstored
      exact hstored
  -- a ring that is not empty holds a whole frame, since frames are committed whole
  · right
    obtain ⟨data, hpre, hword, hwhole, hbytes⟩ := hi.exists_frame hreceive (by omega)
    have hwhole' : world.log.head + (frame data).length ≤ world.log.tail := by omega
    refine ⟨data, ?_, ?_⟩
    · show base ++ w.log.history.consumed ++ [frame data] <+: base ++ w.log.history.written
      rw [List.append_assoc, List.prefix_append_right_inj]
      exact hpre
    · intro core buffer
      have hring : ringBytes queue.capacity_ w.state.system.block.ring world.log.head
          (frame data).length = frame data := by
        refine (hi.queue.contents.ringBytes_unread hindices le_rfl hwhole').trans ?_
        rw [hunread]
        exact hbytes
      obtain ⟨hdata, -, hend⟩ := attemptRead_delivers hok core buffer hhead htail hlap hwhole'
        hword hring
      exact ⟨_, Prod.ext hdata rfl, hend⟩

/-- Between transactions, with the consumer in its loop, the next message of the producer fits or
the ring holds a whole frame. -/
theorem Delivery.progress {queue : RingQueue} {source : TransmitBuffer}
    {verification : Verification σ} {w : TransferWorld σ} (hok : queue.isOk)
    (hmin : 1 ≤ source.minChunkSize_) (hle : source.minChunkSize_ ≤ source.maxChunkSize_)
    (hfits : source.maxChunkSize_.toNat + 8 ≤ queue.capacity.toNat)
    (hi : Delivery queue.toBaseTxQueue source verification w)
    (htransmit : w.state.transmit.control.IsBetween)
    (hreceive : w.state.receive.control = .loop) :
    ((∃ calls, w.state.transmit.NextCalls source calls) ∧
      ∀ calls, w.state.transmit.NextCalls source calls →
        w.world.CommitsNow queue.toBaseTxQueue calls) ∨
    ∃ data, w.world.DeliversNow queue.toBaseTxQueue data := by
  rcases hi.behind_nil.commits_or_delivers hok hreceive with ⟨hquit, hcommits⟩ | hdelivers
  · refine .inl ⟨Transmitter.exists_nextCalls hle htransmit hquit, ?_⟩
    intro calls hcalls
    exact hcommits calls ((Transmitter.length_nextCalls hmin hcalls).trans hfits)
  · exact .inr hdelivers

end TxQueue
