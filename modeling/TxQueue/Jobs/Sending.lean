import TxQueue.Concurrent.Indices
import TxQueue.Jobs.Transfer

/-!
# What the producer has sent

At each control point of the producer the committed write transactions are the frames of the chunks
it has accounted for, and of the empty chunk at the end. A transaction that was refused at any point
is not committed, so a retry starts over.
-/

namespace TxQueue

open Library

variable {σ : Type*}

/-- `chunk_size` is a size of bytes that are left. -/
structure TransmitBuffer.IsChunk (source : TransmitBuffer) (totalData chunkSize : UInt64) :
    Prop where
  pos : 0 < chunkSize.toNat
  le_max : chunkSize ≤ source.maxChunkSize_
  fits : totalData.toNat + chunkSize.toNat ≤ source.srcData_.length

/-- What a control point of the producer says about the open transaction and the history, given the
chunks it has accounted for. -/
def TransmitControl.Placed (source : TransmitBuffer) (totalData : UInt64) (valid : Bool)
    (written : List (List UInt8)) (writing : List UInt8) (sent : List (List UInt8)) :
    TransmitControl → Prop
  | .loop => written = sent.map frame
  | .opened =>
      written = sent.map frame ∧ totalData < source.srcDataSize_ ∧ writing = []
  | .writeSize chunkSize =>
      written = sent.map frame ∧ source.IsChunk totalData chunkSize ∧ writing = []
  | .writeData chunkSize =>
      written = sent.map frame ∧ source.IsChunk totalData chunkSize ∧
        (valid → writing = le64 chunkSize)
  | .check chunkSize =>
      written = sent.map frame ∧ source.IsChunk totalData chunkSize ∧
        (valid → writing = le64 chunkSize ++ source.chunk totalData chunkSize)
  | .account chunkSize =>
      written = sent.map frame ∧ source.IsChunk totalData chunkSize ∧ valid ∧
        writing = le64 chunkSize ++ source.chunk totalData chunkSize
  | .close => (if valid then written ++ [writing] else written) = sent.map frame
  | .signal => written = sent.map frame ∧ sent.flatten = source.srcData_
  | .signalOpened =>
      written = sent.map frame ∧ sent.flatten = source.srcData_ ∧ writing = []
  | .writeZero => written = sent.map frame ∧ sent.flatten = source.srcData_ ∧ writing = []
  | .closeSignal wrote =>
      written = sent.map frame ∧ sent.flatten = source.srcData_ ∧ valid = wrote ∧
        (wrote → writing = frame [])
  | .quit => written = (sent ++ [[]]).map frame ∧ sent.flatten = source.srcData_

/-- The invariant of the producer. -/
structure Sending (source : TransmitBuffer) (verification : Verification σ) (t : Transmitter σ)
    (valid : Bool) (h : History) (sent : List (List UInt8)) : Prop where
  chunks : ∀ data ∈ sent, data ≠ [] ∧ data.length ≤ source.maxChunkSize_.toNat
  fromSource : sent.flatten <+: source.srcData_
  total : t.job.totalData_ = lengthWord sent.flatten
  hash : t.job.hashStatus_ = sent.foldl verification.update verification.init
  control : t.control.Placed source t.job.totalData_ valid h.written h.writing sent

namespace TransmitBuffer

variable {source : TransmitBuffer} {totalData draw chunkSize : UInt64}

theorem srcDataSize_toNat (source : TransmitBuffer) :
    source.srcDataSize_.toNat = source.srcData_.length := lengthWord_toNat source.fitsWord

theorem toNat_min (a b : UInt64) : (min a b).toNat = min a.toNat b.toNat := by
  show (if a ≤ b then a else b).toNat = _
  split_ifs with h
  · exact (min_eq_left (UInt64.le_iff_toNat_le.1 h)).symm
  · exact (min_eq_right (UInt64.le_iff_toNat_le.1 (UInt64.le_of_lt (UInt64.not_le.1 h)))).symm

/-- A draw of at least one gives a chunk as long as data is left. -/
theorem isChunk (hmin : 1 ≤ source.minChunkSize_) (hdraw : source.minChunkSize_ ≤ draw)
    (hmax : draw ≤ source.maxChunkSize_) (hmore : totalData < source.srcDataSize_) :
    source.IsChunk totalData (source.chunkSize totalData draw) := by
  have hsize := source.srcDataSize_toNat
  rw [UInt64.lt_iff_toNat_lt] at hmore
  rw [UInt64.le_iff_toNat_le] at hmin hdraw hmax
  have hone : (1 : UInt64).toNat = 1 := rfl
  have hsub : (source.srcDataSize_ - totalData).toNat =
      source.srcDataSize_.toNat - totalData.toNat :=
    UInt64.toNat_sub_of_le _ _ (UInt64.le_iff_toNat_le.2 hmore.le)
  have hle : (source.chunkSize totalData draw).toNat =
      min draw.toNat (source.srcDataSize_.toNat - totalData.toNat) := by
    rw [← hsub]
    exact toNat_min _ _
  refine ⟨by omega, UInt64.le_iff_toNat_le.2 (by omega), by omega⟩

/-- The chunk has `chunk_size` bytes. -/
theorem IsChunk.length_chunk (h : source.IsChunk totalData chunkSize) :
    (source.chunk totalData chunkSize).length = chunkSize.toNat := by
  have hfits := h.fits
  simp only [chunk, List.length_take, List.length_drop]
  omega

/-- The size that is written in front of a chunk is its length. -/
theorem IsChunk.frame_chunk (h : source.IsChunk totalData chunkSize) :
    frame (source.chunk totalData chunkSize) =
      le64 chunkSize ++ source.chunk totalData chunkSize :=
  frame_eq h.length_chunk

end TransmitBuffer

/-- The number of bytes adds up. -/
theorem lengthWord_append (xs ys : List UInt8) :
    lengthWord (xs ++ ys) = lengthWord xs + lengthWord ys := by
  simp [lengthWord]

namespace Sending

variable {source : TransmitBuffer} {verification : Verification σ} {t t' : Transmitter σ}
  {valid : Bool} {h : History} {sent : List (List UInt8)}

/-- `total_data_` is the number of bytes sent. -/
theorem total_toNat (hi : Sending source verification t valid h sent) :
    t.job.totalData_.toNat = sent.flatten.length := by
  rw [hi.total]
  exact lengthWord_toNat (hi.fromSource.length_le.trans_lt source.fitsWord)

/-- Accounting for the next chunk. -/
theorem account {chunkSize : UInt64} {control : TransmitControl}
    (hi : Sending source verification t valid h sent)
    (hchunk : source.IsChunk t.job.totalData_ chunkSize)
    (hcontrol : control.Placed source
      (t.job.account verification chunkSize (source.chunk t.job.totalData_ chunkSize)).totalData_
      valid h.written h.writing (sent ++ [source.chunk t.job.totalData_ chunkSize])) :
    Sending source verification
      ⟨control, t.job.account verification chunkSize (source.chunk t.job.totalData_ chunkSize)⟩
      valid h (sent ++ [source.chunk t.job.totalData_ chunkSize]) := by
  have hlen := hchunk.length_chunk
  refine ⟨?_, ?_, ?_, ?_, hcontrol⟩
  · intro data hdata
    rcases List.mem_append.1 hdata with hdata | hdata
    · exact hi.chunks data hdata
    · obtain rfl := List.mem_singleton.1 hdata
      have hpos := hchunk.pos
      refine ⟨List.ne_nil_of_length_pos (by omega), ?_⟩
      rw [hlen]
      exact UInt64.le_iff_toNat_le.1 hchunk.le_max
  · obtain ⟨later, hlater⟩ := hi.fromSource
    have hdrop : source.srcData_.drop t.job.totalData_.toNat = later := by
      rw [hi.total_toNat, ← hlater, List.drop_left]
    rw [List.flatten_append, List.flatten_singleton, ← hlater, List.prefix_append_right_inj,
      TransmitBuffer.chunk, hdrop]
    exact List.take_prefix _ _
  · rw [List.flatten_append, List.flatten_singleton, lengthWord_append, lengthWord_eq hlen,
      ← hi.total]
    rfl
  · rw [List.foldl_append, ← hi.hash]
    rfl

/-- The invariant looks at the open transaction only at the control point. -/
theorem goto {valid' : Bool} {h' : History} {control : TransmitControl}
    (hi : Sending source verification t valid h sent)
    (hcontrol : control.Placed source t.job.totalData_ valid' h'.written h'.writing sent) :
    Sending source verification { t with control := control } valid' h' sent :=
  ⟨hi.chunks, hi.fromSource, hi.total, hi.hash, hcontrol⟩

/-- A new transaction has nothing written. -/
theorem writing_of_openWrite {cap : UInt64} {vis : Visibility} {s s' : System}
    (hindices : Indices cap ⟨s, h⟩) (hstep : Step vis s .openWrite s') : h.writing = [] := by
  have hproducer := hindices.producer
  cases hstep with
  | openWrite k hle hlt hside =>
      simp only [hside, Producer.Placed] at hproducer
      exact hproducer.2

/-- An `imp_write` that comes to its end has a valid transaction. -/
theorem valid_of_wrote {cap : UInt64} {vis : Visibility} {s s' : System} {data : List UInt8}
    (hindices : Indices cap ⟨s, h⟩) (hstep : Step vis s (.wrote data) s') :
    s.producer.isValid = true := by
  have hproducer := hindices.producer
  cases hstep with
  | wrote hside =>
      simp only [hside, Producer.Placed] at hproducer
      simp [hside, Producer.isValid, TxWrite.toBool, hproducer.2]

/-- Every step of the producer keeps its invariant, whatever the queue has committed before. -/
theorem step_of_writing {cap : UInt64} {vis : Visibility} {s s' : System} {log : TransferLog}
    {a : Action} (hmin : 1 ≤ source.minChunkSize_) (hindices : Indices cap ⟨s, h⟩)
    (hsame : log.history.writing = h.writing)
    (hi : Sending source verification t s.producer.isValid log.history log.sent)
    (hjob : TransmitStep source verification t a t') (hacts : s.ProducerActs vis a s') :
    Sending source verification t' s'.producer.isValid (log.record (.transmit a)).history
      (log.record (.transmit a)).sent := by
  have hcontrol := hi.control
  cases hjob with
  | openChunk hmore =>
      exact hi.goto ⟨hcontrol, hmore, hsame.trans (writing_of_openWrite hindices hacts)⟩
  | enter hdraw hmax =>
      obtain ⟨-, rfl⟩ := hacts
      obtain ⟨hwritten, hmore, hwriting⟩ := hcontrol
      exact hi.goto ⟨hwritten, source.isChunk hmin hdraw hmax hmore, hwriting⟩
  | skip =>
      obtain ⟨rfl, hinvalid⟩ := hacts.of_test
      rw [hinvalid]
      exact hi.goto hcontrol.1
  | beginWrite hdata =>
      have hvalid := Step.beginWrite_isValid hacts
      rw [hvalid]
      exact hi.goto hcontrol
  | copyIn hdata =>
      have hvalid := Step.copyIn_isValid hacts
      rw [hvalid]
      exact hi.goto hcontrol
  | wrote hdata =>
      obtain ⟨control, job⟩ := t
      have hvalid := Step.wrote_isValid hacts
      rw [hvalid]
      cases control with
      | writeSize chunkSize =>
          obtain rfl := Option.some.inj hdata
          obtain ⟨hwritten, hchunk, hwriting⟩ := hcontrol
          refine hi.goto ⟨hwritten, hchunk, ?_⟩
          intro _
          simp [TransferLog.record, History.record, hwriting]
      | writeData chunkSize =>
          obtain rfl := Option.some.inj hdata
          obtain ⟨hwritten, hchunk, hwriting⟩ := hcontrol
          refine hi.goto ⟨hwritten, hchunk, ?_⟩
          intro h
          simp [TransferLog.record, History.record, hwriting h]
      | writeZero =>
          obtain rfl := Option.some.inj hdata
          obtain ⟨hwritten, hsource, hwriting⟩ := hcontrol
          refine hi.goto ⟨hwritten, hsource, valid_of_wrote hindices hacts, ?_⟩
          intro _
          simp [TransferLog.record, History.record, hwriting, frame, lengthWord]
      | _ => cases hdata
  | refuseWrite hdata =>
      obtain ⟨control, job⟩ := t
      have hinvalid := Step.refuseWrite_isValid hacts
      rw [hinvalid]
      cases control with
      | writeSize chunkSize => exact hi.goto ⟨hcontrol.1, hcontrol.2.1, by simp⟩
      | writeData chunkSize => exact hi.goto ⟨hcontrol.1, hcontrol.2.1, by simp⟩
      | writeZero => exact hi.goto ⟨hcontrol.1, hcontrol.2.1, rfl, by simp⟩
      | _ => cases hdata
  | checked =>
      obtain ⟨rfl, hvalid⟩ := hacts.of_test
      obtain ⟨hwritten, hchunk, hwriting⟩ := hcontrol
      exact hi.goto ⟨hwritten, hchunk, hvalid, hwriting hvalid⟩
  | failed =>
      obtain ⟨rfl, hinvalid⟩ := hacts.of_test
      rw [hinvalid]
      exact ⟨hi.chunks, hi.fromSource, hi.total, hi.hash, hcontrol.1⟩
  | account =>
      obtain rfl := hacts
      obtain ⟨hwritten, hchunk, hvalid, hwriting⟩ := hcontrol
      refine hi.account hchunk ?_
      simp only [TransmitControl.Placed, hvalid, if_true, hwritten, List.map_append,
        List.map_singleton, hchunk.frame_chunk, hwriting]
  | close =>
      have hpublished := Step.closeWrite_published hacts
      subst hpublished
      exact hi.goto hcontrol
  -- as many bytes as the source has were accounted for, so these are the source
  | leave hdone =>
      obtain rfl := hacts
      refine hi.goto ⟨hcontrol, hi.fromSource.eq_of_length_le ?_⟩
      rw [← source.srcDataSize_toNat, ← hi.total_toNat]
      exact UInt64.le_iff_toNat_le.1 hdone
  | openSignal =>
      exact hi.goto ⟨hcontrol.1, hcontrol.2, hsame.trans (writing_of_openWrite hindices hacts)⟩
  | enterSignal =>
      obtain ⟨-, rfl⟩ := hacts
      exact hi.goto hcontrol
  | skipSignal =>
      obtain ⟨rfl, hinvalid⟩ := hacts.of_test
      exact hi.goto ⟨hcontrol.1, hcontrol.2.1, hinvalid, by simp⟩
  -- `wrote` is what `write` returned, and it is true exactly if the destructor publishes
  | @closeSignal job wrote published =>
      have hpublished := Step.closeWrite_published hacts
      obtain ⟨hwritten, hsource, rfl, hwriting⟩ := hcontrol
      subst hpublished
      cases hvalid : s.producer.isValid with
      | true =>
          refine hi.goto ⟨?_, hsource⟩
          simp [TransferLog.record, History.record, hwritten, hwriting hvalid]
      | false => exact hi.goto ⟨hwritten, hsource⟩

/-- Every step of the producer keeps its invariant. -/
theorem step {cap : UInt64} {vis : Visibility} {s s' : System} {log : TransferLog} {a : Action}
    (hmin : 1 ≤ source.minChunkSize_) (hindices : Indices cap ⟨s, log.history⟩)
    (hi : Sending source verification t s.producer.isValid log.history log.sent)
    (hjob : TransmitStep source verification t a t') (hacts : s.ProducerActs vis a s') :
    Sending source verification t' s'.producer.isValid (log.record (.transmit a)).history
      (log.record (.transmit a)).sent :=
  hi.step_of_writing hmin hindices rfl hjob hacts

/-- A step of the consumer leaves the invariant of the producer alone. -/
theorem of_receive {vis : Visibility} {s s' : System} {log : TransferLog} {r r' : Receiver σ}
    {a : Action} (hi : Sending source verification t s.producer.isValid log.history log.sent)
    (hjob : ReceiveStep verification r a r') (hacts : s.ConsumerActs vis a s') :
    Sending source verification t s'.producer.isValid (log.record (.receive a)).history
      (log.record (.receive a)).sent := by
  cases a with
  | call e =>
      obtain ⟨hwritten, hwriting⟩ := log.history.record_of_consumer hjob.ofProducer
      have hproducer := Step.producer_eq hacts hjob.ofProducer
      refine ⟨hi.chunks, hi.fromSource, hi.total, hi.hash, ?_⟩
      simpa only [TransferLog.record, hwritten, hwriting, hproducer] using hi.control
  | test valid =>
      obtain ⟨-, rfl⟩ := hacts
      exact hi
  | account data =>
      obtain rfl := hacts
      exact hi
  | leave => cases hjob

/-- The committed transactions are the frames of chunks that have been accounted for, and of the
empty one at the end. -/
theorem exists_messages (hi : Sending source verification t valid h sent) :
    ∃ messages, h.written = messages.map frame ∧
      (messages <+: sent ∨
        t.control = .quit ∧ messages = sent ++ [[]] ∧ sent.flatten = source.srcData_) := by
  obtain ⟨control, job⟩ := t
  have hcontrol := hi.control
  cases control with
  | loop => exact ⟨sent, hcontrol, .inl List.prefix_rfl⟩
  | close =>
      cases valid with
      | false => exact ⟨sent, hcontrol, .inl List.prefix_rfl⟩
      | true =>
          obtain ⟨messages, rest, rfl, hmap, -⟩ := List.map_eq_append_iff.1 hcontrol.symm
          exact ⟨messages, hmap.symm, .inl (List.prefix_append _ _)⟩
  | quit => exact ⟨sent ++ [[]], hcontrol.1, .inr ⟨rfl, rfl, hcontrol.2⟩⟩
  | _ => exact ⟨sent, hcontrol.1, .inl List.prefix_rfl⟩

end Sending

end TxQueue
