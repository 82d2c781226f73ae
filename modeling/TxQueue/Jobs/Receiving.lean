import TxQueue.Jobs.Sending

/-!
# What the consumer has accepted

At each control point of the consumer the committed read transactions are the frames of the chunks
it has accounted for, and of the empty chunk once it has left its loop. A transaction that was
refused at any point is not committed, so a retry reads the same frame again from its start.
-/

namespace TxQueue

open Library

variable {σ : Type*}

/-- What a control point of the consumer says about the open transaction, the history and the
buffer, given the chunks it has accounted for. -/
def ReceiveControl.Placed (valid : Bool) (consumed : List (List UInt8)) (reading buffer : List UInt8)
    (accepted : List (List UInt8)) : ReceiveControl → Prop
  | .loop => consumed = accepted.map frame
  | .opened => consumed = accepted.map frame ∧ reading = []
  | .readSize => consumed = accepted.map frame ∧ reading = []
  | .readData chunkSize =>
      consumed = accepted.map frame ∧ if valid then reading = le64 chunkSize else chunkSize = 0
  | .check chunkSize =>
      consumed = accepted.map frame ∧ (valid → chunkSize.toNat ≤ buffer.length ∧
        reading = le64 chunkSize ++ buffer.take chunkSize.toNat)
  | .account chunkSize =>
      consumed = accepted.map frame ∧ chunkSize ≠ 0 ∧ valid ∧ chunkSize.toNat ≤ buffer.length ∧
        reading = le64 chunkSize ++ buffer.take chunkSize.toNat
  | .close => (if valid then consumed ++ [reading] else consumed) = accepted.map frame
  | .closeQuit => consumed = accepted.map frame ∧ valid ∧ reading = frame []
  | .quit => consumed = (accepted ++ [[]]).map frame

/-- The consumer has left its loop. -/
def ReceiveControl.HasLeft : ReceiveControl → Prop
  | .closeQuit => True
  | .quit => True
  | _ => False

/-- The invariant of the consumer. -/
structure Receiving (verification : Verification σ) (r : Receiver σ) (valid : Bool) (h : History)
    (accepted : List (List UInt8)) : Prop where
  chunks : ∀ data ∈ accepted, data ≠ [] ∧ FitsWord data
  total : r.job.totalData_ = lengthWord accepted.flatten
  hash : r.job.hashStatus_ = accepted.foldl verification.update verification.init
  control : r.control.Placed valid h.consumed h.reading r.buffer accepted

namespace Receiving

variable {verification : Verification σ} {r r' : Receiver σ}
  {valid : Bool} {h : History} {accepted : List (List UInt8)}

/-- The invariant looks at the open transaction only at the control point. -/
theorem goto {valid' : Bool} {h' : History} {control : ReceiveControl}
    (hi : Receiving verification r valid h accepted)
    (hcontrol : control.Placed valid' h'.consumed h'.reading r.buffer accepted) :
    Receiving verification { r with control := control } valid' h' accepted :=
  ⟨hi.chunks, hi.total, hi.hash, hcontrol⟩

/-- Accounting for the chunk that the open transaction has read. -/
theorem account {job : UtestJob σ} {buffer : List UInt8} {chunkSize : UInt64}
    (hi : Receiving verification ⟨.account chunkSize, job, buffer⟩ valid h accepted) :
    Receiving verification
      ⟨.close, job.account verification chunkSize (buffer.take chunkSize.toNat), buffer⟩
      valid h (accepted ++ [buffer.take chunkSize.toNat]) := by
  obtain ⟨hconsumed, hne, hvalid, hfits, hreading⟩ := hi.control
  have hlen : (buffer.take chunkSize.toNat).length = chunkSize.toNat := by
    rw [List.length_take]
    exact min_eq_left hfits
  have hword := lengthWord_eq hlen
  refine ⟨?_, ?_, ?_, ?_⟩
  · intro data hdata
    rcases List.mem_append.1 hdata with hdata | hdata
    · exact hi.chunks data hdata
    · obtain rfl := List.mem_singleton.1 hdata
      refine ⟨fun hnil => hne ?_, fitsWord_of_length hlen⟩
      rw [← hword, hnil]
      rfl
  · rw [List.flatten_append, List.flatten_singleton, lengthWord_append, hword, ← hi.total]
    rfl
  · rw [List.foldl_append, ← hi.hash]
    rfl
  · simp [ReceiveControl.Placed, hvalid, hconsumed, hreading, frame, hword]

/-- A new transaction has nothing read. -/
theorem reading_of_openRead {cap : UInt64} {vis : Visibility} {s s' : System}
    (hindices : Indices cap ⟨s, h⟩) (hstep : Step vis s .openRead s') : h.reading = [] := by
  have hconsumer := hindices.consumer
  cases hstep with
  | openRead k hle hlt hside =>
      simp only [hside, Consumer.Placed] at hconsumer
      exact hconsumer.2

/-- An `imp_read` that comes to its end has a valid transaction. -/
theorem valid_of_read {cap : UInt64} {vis : Visibility} {s s' : System} {data : List UInt8}
    (hindices : Indices cap ⟨s, h⟩) (hstep : Step vis s (.read data) s') :
    s'.consumer.isValid = true := by
  rw [hstep.read_isValid]
  have hconsumer := hindices.consumer
  cases hstep with
  | read hside =>
      simp only [hside, Consumer.Placed] at hconsumer
      simp [hside, Consumer.isValid, TxRead.toBool, hconsumer.2]

/-- Every step of the consumer keeps its invariant, whatever it has taken from the queue before. -/
theorem step_of_reading {cap : UInt64} {vis : Visibility} {s s' : System} {log : TransferLog}
    {a : Action} (hindices : Indices cap ⟨s, h⟩) (hsame : log.history.reading = h.reading)
    (hi : Receiving verification r s.consumer.isValid log.history log.accepted)
    (hjob : ReceiveStep verification r a r') (hacts : s.ConsumerActs vis a s') :
    Receiving verification r' s'.consumer.isValid (log.record (.receive a)).history
      (log.record (.receive a)).accepted := by
  have hcontrol := hi.control
  cases hjob with
  | openRead => exact hi.goto ⟨hcontrol, hsame.trans (reading_of_openRead hindices hacts)⟩
  | enter =>
      obtain ⟨-, rfl⟩ := hacts
      exact hi.goto hcontrol
  | skip =>
      obtain ⟨rfl, hinvalid⟩ := hacts.of_test
      rw [hinvalid]
      exact hi.goto hcontrol.1
  | beginRead hsize =>
      have hvalid := Step.beginRead_isValid hacts
      rw [hvalid]
      exact hi.goto hcontrol
  | copyOut hsize =>
      have hvalid := Step.copyOut_isValid hacts
      rw [hvalid]
      exact hi.goto hcontrol
  | readSize hlen =>
      refine hi.goto ⟨hcontrol.1, ?_⟩
      rw [if_pos (valid_of_read hindices hacts), le64_ofLe64 hlen]
      simp [TransferLog.record, History.record, hcontrol.2]
  | refuseSize =>
      have hinvalid := Step.refuseRead_isValid hacts
      exact hi.goto ⟨hcontrol.1, by simp [hinvalid]⟩
  | @readData job buffer data chunkSize hlen =>
      have hvalid := valid_of_read hindices hacts
      obtain ⟨hconsumed, hreading⟩ := hcontrol
      rw [← Step.read_isValid hacts, if_pos hvalid] at hreading
      refine ⟨hi.chunks, hi.total, hi.hash, hconsumed, fun _ => ⟨?_, ?_⟩⟩
      · simp [hlen]
      · simp [TransferLog.record, History.record, hreading, ← hlen]
  | refuseData =>
      have hinvalid := Step.refuseRead_isValid hacts
      exact hi.goto ⟨hcontrol.1, by simp [hinvalid]⟩
  | failed =>
      obtain ⟨rfl, hinvalid⟩ := hacts.of_test
      rw [hinvalid]
      exact ⟨hi.chunks, hi.total, hi.hash, hcontrol.1⟩
  -- a size of 0 in a valid transaction is the frame of the empty chunk
  | finished =>
      obtain ⟨rfl, hvalid⟩ := hacts.of_test
      refine hi.goto ⟨hcontrol.1, hvalid, ?_⟩
      simpa [TransferLog.record, frame, lengthWord] using (hcontrol.2 hvalid).2
  | checked hne =>
      obtain ⟨rfl, hvalid⟩ := hacts.of_test
      exact hi.goto ⟨hcontrol.1, hne, hvalid, hcontrol.2 hvalid⟩
  | account =>
      obtain rfl := hacts
      exact hi.account
  | close =>
      have hpublished := Step.closeRead_published hacts
      subst hpublished
      exact hi.goto hcontrol
  | closeQuit =>
      have hpublished := Step.closeRead_published hacts
      obtain ⟨hconsumed, hvalid, hreading⟩ := hcontrol
      subst hpublished
      refine hi.goto ?_
      simp [ReceiveControl.Placed, TransferLog.record, History.record, hvalid, hconsumed, hreading]

/-- Every step of the consumer keeps its invariant. -/
theorem step {cap : UInt64} {vis : Visibility} {s s' : System} {log : TransferLog} {a : Action}
    (hindices : Indices cap ⟨s, log.history⟩)
    (hi : Receiving verification r s.consumer.isValid log.history log.accepted)
    (hjob : ReceiveStep verification r a r') (hacts : s.ConsumerActs vis a s') :
    Receiving verification r' s'.consumer.isValid (log.record (.receive a)).history
      (log.record (.receive a)).accepted :=
  hi.step_of_reading hindices rfl hjob hacts

/-- A step of the producer leaves the invariant of the consumer alone. -/
theorem of_transmit {source : TransmitBuffer} {vis : Visibility} {s s' : System}
    {log : TransferLog} {t t' : Transmitter σ} {a : Action}
    (hi : Receiving verification r s.consumer.isValid log.history log.accepted)
    (hjob : TransmitStep source verification t a t') (hacts : s.ProducerActs vis a s') :
    Receiving verification r s'.consumer.isValid
      (log.record (.transmit a)).history (log.record (.transmit a)).accepted := by
  cases a with
  | call e =>
      obtain ⟨hconsumed, hreading⟩ := log.history.record_of_producer hjob.ofProducer
      have hconsumer := Step.consumer_eq hacts hjob.ofProducer
      refine ⟨hi.chunks, hi.total, hi.hash, ?_⟩
      simpa only [TransferLog.record, hconsumed, hreading, hconsumer] using hi.control
  | test valid =>
      obtain ⟨-, rfl⟩ := hacts
      exact hi
  | account data =>
      obtain rfl := hacts
      exact hi
  | leave =>
      obtain rfl := hacts
      exact hi

/-- What has been read starts with the frames of the accepted chunks, and of the empty one once the
consumer has left its loop. -/
theorem exists_messages (hi : Receiving verification r valid h accepted) :
    ∃ messages, (messages.map frame).flatten <+: h.consumed.flatten ++ h.reading ∧
      (messages = accepted ∧ ¬ r.control.HasLeft ∨
        messages = accepted ++ [[]] ∧ r.control.HasLeft) := by
  obtain ⟨control, job, buffer⟩ := r
  have hcontrol := hi.control
  cases control with
  | loop => exact ⟨accepted, by simp [← show _ = _ from hcontrol], .inl ⟨rfl, id⟩⟩
  | close =>
      refine ⟨accepted, ?_, .inl ⟨rfl, id⟩⟩
      rw [← show _ = _ from hcontrol]
      cases valid <;> simp
  | closeQuit =>
      obtain ⟨hconsumed, -, hreading⟩ := hcontrol
      exact ⟨accepted ++ [[]], by simp [hconsumed, hreading], .inr ⟨rfl, trivial⟩⟩
  | quit => exact ⟨accepted ++ [[]], by simp [show _ = _ from hcontrol], .inr ⟨rfl, trivial⟩⟩
  | _ => exact ⟨accepted, by simp [← show _ = _ from hcontrol.1], .inl ⟨rfl, id⟩⟩

end Receiving

end TxQueue
