import TxQueue.Jobs.EndToEnd
import TxQueue.Jobs.Turns

/-!
# What the attempts count

`transaction_attempts_` counts the transactions of a job that fail the test of its loop. The
programs print it as the number of re-attempts. Over a run these are the transactions that the job
opens for a chunk and rolls back, modulo 2^64, and every other one has been accounted for: so at the
end the transactions opened are the messages and the re-attempts. This holds on any queue that is ok,
whatever the loads return and whatever the bytes are.
-/

namespace TxQueue

open Library

variable {σ : Type*}

/-- Where a job stands with its transactions: between two, in one that is not accounted for, or at
the destructor of one that has failed the test or has been accounted for. -/
inductive Pass where
  | between
  | inside
  | failed
  | accounted
  deriving DecidableEq

/-- The transactions that signal the end are not in the loop that counts. -/
def TransmitControl.pass (valid : Bool) : TransmitControl → Pass
  | .opened => .inside
  | .writeSize _ => .inside
  | .writeData _ => .inside
  | .check _ => .inside
  | .account _ => .inside
  | .close => if valid then .accounted else .failed
  | _ => .between

/-- The consumer takes the end signal in a transaction of its loop and leaves without accounting for
it. -/
def ReceiveControl.pass (valid : Bool) : ReceiveControl → Pass
  | .loop => .between
  | .close => if valid then .accounted else .failed
  | _ => .inside

/-- The numbers of transactions opened and rolled back in the loop of a job. -/
structure Tally where
  opened : ℕ
  rolledBack : ℕ

namespace Tally

/-- The tally after an action of the producer's job. -/
def transmit (tally : Tally) (control : TransmitControl) : Action → Tally
  | .call .openWrite =>
      if control = .loop then { tally with opened := tally.opened + 1 } else tally
  | .call (.closeWrite false) =>
      if control = .close then { tally with rolledBack := tally.rolledBack + 1 } else tally
  | _ => tally

/-- The tally after an action of the consumer's job. -/
def receive (tally : Tally) : Action → Tally
  | .call .openRead => { tally with opened := tally.opened + 1 }
  | .call (.closeRead false) => { tally with rolledBack := tally.rolledBack + 1 }
  | _ => tally

/-- The tally of the producer's job over a run. -/
def ofTransmit (ts : List (Transition (TransferWorld σ) TransferEvent)) : Tally :=
  ts.foldl (fun tally t =>
    match t.event with
    | .transmit a => tally.transmit t.source.state.transmit.control a
    | .receive _ => tally) ⟨0, 0⟩

/-- The tally of the consumer's job over a run. -/
def ofReceive (ts : List (Transition (TransferWorld σ) TransferEvent)) : Tally :=
  ts.foldl (fun tally t =>
    match t.event with
    | .transmit _ => tally
    | .receive a => tally.receive a) ⟨0, 0⟩

/-- What a job that has counted `attempts` failed transactions and accounted for `accounted` chunks
has opened and rolled back. -/
def Counts (tally : Tally) (attempts : UInt64) (accounted : ℕ) : Pass → Prop
  | .between => attempts = .ofNat tally.rolledBack ∧ tally.opened = accounted + tally.rolledBack
  | .inside =>
      attempts = .ofNat tally.rolledBack ∧ tally.opened = accounted + tally.rolledBack + 1
  | .failed =>
      attempts = .ofNat (tally.rolledBack + 1) ∧
        tally.opened = accounted + tally.rolledBack + 1
  | .accounted => attempts = .ofNat tally.rolledBack ∧ tally.opened = accounted + tally.rolledBack

variable {tally : Tally} {attempts : UInt64} {accounted : ℕ}

theorem Counts.opens (h : tally.Counts attempts accounted .between) :
    Counts { tally with opened := tally.opened + 1 } attempts accounted .inside :=
  ⟨h.1, congrArg (· + 1) h.2⟩

theorem Counts.retry (h : tally.Counts attempts accounted .inside) :
    tally.Counts (attempts + 1) accounted .failed := by
  refine ⟨?_, h.2⟩
  rw [h.1, UInt64.ofNat_add]
  rfl

theorem Counts.account (h : tally.Counts attempts accounted .inside) :
    tally.Counts attempts (accounted + 1) .accounted := by
  refine ⟨h.1, ?_⟩
  rw [h.2, Nat.add_right_comm]

theorem Counts.rollBack (h : tally.Counts attempts accounted .failed) :
    Counts { tally with rolledBack := tally.rolledBack + 1 } attempts accounted .between := h

end Tally

/-! ## The producer's job -/

section Transmit

variable {queue : BaseTxQueue} {source : TransmitBuffer} {verification : Verification σ}
  {vis : Visibility} {s s' : System} {t t' : Transmitter σ} {a : Action} {log : TransferLog}
  {tally : Tally}

/-- The tally fits what the job has counted. A transaction that has just been opened is valid, and so
is one that is being accounted for. -/
structure Transmitter.Counted (t : Transmitter σ) (side : Producer) (tally : Tally)
    (sent : List (List UInt8)) : Prop where
  opened : t.control = .opened → side.isValid = true
  account : ∀ chunkSize, t.control = .account chunkSize → side.isValid = true
  counts : tally.Counts t.job.transactionAttempts_ sent.length (t.control.pass side.isValid)

/-- A call of `imp_write` does not end the pass. -/
theorem Transmitter.pass_of_writes {data : List UInt8} (hwrites : t.writes source = some data)
    (ok valid valid' : Bool) :
    (t.control.afterWrite ok).pass valid' = t.control.pass valid ∧
      t.control.afterWrite ok ≠ .opened ∧
      ∀ chunkSize, t.control.afterWrite ok ≠ .account chunkSize := by
  obtain ⟨control, job⟩ := t
  cases control with
  | writeSize | writeData | writeZero => exact ⟨rfl, nofun, nofun⟩
  | _ => cases hwrites

/-- Every step of the producer's job keeps the tally. -/
theorem Transmitter.Counted.step (hok : queue.isOk) (hat : t.At queue source s.producer)
    (h : t.Counted s.producer tally log.sent) (hjob : TransmitStep source verification t a t')
    (hacts : s.ProducerActs vis a s') :
    t'.Counted s'.producer (tally.transmit t.control a) (log.record (.transmit a)).sent := by
  obtain ⟨hopened, haccount, hcounts⟩ := h
  cases hjob with
  | openChunk hmore =>
      exact ⟨fun _ => Step.openWrite_isValid hok hat hacts, nofun, hcounts.opens⟩
  | enter hdraw hmax =>
      obtain ⟨-, rfl⟩ := hacts
      exact ⟨nofun, nofun, hcounts⟩
  | skip =>
      obtain ⟨-, hinvalid⟩ := hacts.of_test
      exact absurd (hinvalid.symm.trans (hopened rfl)) Bool.false_ne_true
  | beginWrite hwrites =>
      have hvalid := Step.beginWrite_isValid hacts
      rw [← hvalid] at hopened haccount hcounts
      exact ⟨hopened, haccount, hcounts⟩
  | copyIn hwrites =>
      have hvalid := Step.copyIn_isValid hacts
      rw [← hvalid] at hopened haccount hcounts
      exact ⟨hopened, haccount, hcounts⟩
  | wrote hwrites =>
      obtain ⟨hpass, hopened', haccount'⟩ :=
        pass_of_writes hwrites true s.producer.isValid s'.producer.isValid
      refine ⟨fun heq => (hopened' heq).elim, fun _ heq => (haccount' _ heq).elim, ?_⟩
      exact hpass.symm ▸ hcounts
  | refuseWrite hwrites =>
      obtain ⟨hpass, hopened', haccount'⟩ :=
        pass_of_writes hwrites false s.producer.isValid s'.producer.isValid
      refine ⟨fun heq => (hopened' heq).elim, fun _ heq => (haccount' _ heq).elim, ?_⟩
      exact hpass.symm ▸ hcounts
  | checked =>
      obtain ⟨rfl, hvalid⟩ := hacts.of_test
      exact ⟨nofun, fun _ _ => hvalid, hcounts⟩
  | failed =>
      obtain ⟨rfl, hinvalid⟩ := hacts.of_test
      refine ⟨nofun, nofun, ?_⟩
      rw [hinvalid]
      exact hcounts.retry
  | @account job chunkSize =>
      obtain rfl := hacts
      refine ⟨nofun, nofun, ?_⟩
      rw [haccount chunkSize rfl]
      show tally.Counts _ (log.sent ++ [_]).length .accounted
      rw [List.length_append]
      exact hcounts.account
  | @close job published =>
      have hpublished := Step.closeWrite_published hacts
      rw [← hpublished] at hcounts
      refine ⟨nofun, nofun, ?_⟩
      cases published with
      | true => exact hcounts
      | false => exact hcounts.rollBack
  | leave hdone => exact ⟨nofun, nofun, hcounts⟩
  | openSignal => exact ⟨nofun, nofun, hcounts⟩
  | enterSignal => exact ⟨nofun, nofun, hcounts⟩
  | skipSignal => exact ⟨nofun, nofun, hcounts⟩
  | @closeSignal job wrote published =>
      cases wrote <;> cases published <;> exact ⟨nofun, nofun, hcounts⟩

end Transmit

/-! ## The consumer's job -/

section Receive

variable {queue : BaseTxQueue} {verification : Verification σ} {vis : Visibility} {s s' : System}
  {r r' : Receiver σ} {a : Action} {log : TransferLog} {tally : Tally}

/-- The tally fits what the job has counted, and the transaction that takes the end signal is valid
too. -/
structure Receiver.Counted (r : Receiver σ) (side : Consumer) (tally : Tally)
    (accepted : List (List UInt8)) : Prop where
  opened : r.control = .opened → side.isValid = true
  account : ∀ chunkSize, r.control = .account chunkSize → side.isValid = true
  closeQuit : r.control = .closeQuit → side.isValid = true
  counts : tally.Counts r.job.transactionAttempts_ accepted.length (r.control.pass side.isValid)

/-- Every step of the consumer's job keeps the tally. -/
theorem Receiver.Counted.step (hok : queue.isOk) (hat : r.At queue s.consumer)
    (h : r.Counted s.consumer tally log.accepted) (hjob : ReceiveStep verification r a r')
    (hacts : s.ConsumerActs vis a s') :
    r'.Counted s'.consumer (tally.receive a) (log.record (.receive a)).accepted := by
  obtain ⟨hopened, haccount, hquit, hcounts⟩ := h
  cases hjob with
  | openRead =>
      exact ⟨fun _ => Step.openRead_isValid hok hat hacts, nofun, nofun, hcounts.opens⟩
  | enter =>
      obtain ⟨-, rfl⟩ := hacts
      exact ⟨nofun, nofun, nofun, hcounts⟩
  | skip =>
      obtain ⟨-, hinvalid⟩ := hacts.of_test
      exact absurd (hinvalid.symm.trans (hopened rfl)) Bool.false_ne_true
  | beginRead hreads =>
      have hvalid := Step.beginRead_isValid hacts
      rw [← hvalid] at hopened haccount hquit hcounts
      exact ⟨hopened, haccount, hquit, hcounts⟩
  | copyOut hreads =>
      have hvalid := Step.copyOut_isValid hacts
      rw [← hvalid] at hopened haccount hquit hcounts
      exact ⟨hopened, haccount, hquit, hcounts⟩
  | readSize | refuseSize | readData | refuseData => exact ⟨nofun, nofun, nofun, hcounts⟩
  | failed =>
      obtain ⟨rfl, hinvalid⟩ := hacts.of_test
      refine ⟨nofun, nofun, nofun, ?_⟩
      rw [hinvalid]
      exact hcounts.retry
  | finished =>
      obtain ⟨rfl, hvalid⟩ := hacts.of_test
      exact ⟨nofun, nofun, fun _ => hvalid, hcounts⟩
  | checked hne =>
      obtain ⟨rfl, hvalid⟩ := hacts.of_test
      exact ⟨nofun, fun _ _ => hvalid, nofun, hcounts⟩
  | @account job buffer chunkSize =>
      obtain rfl := hacts
      refine ⟨nofun, nofun, nofun, ?_⟩
      rw [haccount chunkSize rfl]
      show tally.Counts _ (log.accepted ++ [_]).length .accounted
      rw [List.length_append]
      exact hcounts.account
  | @close job buffer published =>
      have hpublished := Step.closeRead_published hacts
      rw [← hpublished] at hcounts
      refine ⟨nofun, nofun, nofun, ?_⟩
      cases published with
      | true => exact hcounts
      | false => exact hcounts.rollBack
  | @closeQuit job buffer published =>
      have hpublished := Step.closeRead_published hacts
      obtain rfl := hpublished.trans (hquit rfl)
      exact ⟨nofun, nofun, nofun, hcounts⟩

end Receive

/-! ## Runs -/

section Runs

variable {queue : BaseTxQueue} {source : TransmitBuffer} {verification : Verification σ}
  {maxChunkSize : UInt64} {vis : Visibility} {start w : TransferWorld σ}
  {ts : List (Transition (TransferWorld σ) TransferEvent)}

/-- The tallies over a run fit what the jobs have counted. -/
structure TransferWorld.Counted (queue : BaseTxQueue) (source : TransmitBuffer)
    (ts : List (Transition (TransferWorld σ) TransferEvent)) (w : TransferWorld σ) : Prop
    extends w.At queue source where
  transmitted : w.state.transmit.Counted w.state.system.producer (.ofTransmit ts) w.log.sent
  received : w.state.receive.Counted w.state.system.consumer (.ofReceive ts) w.log.accepted

/-- The chunks that the other job has accounted for stay as they are. -/
theorem TransferLog.record_other (log : TransferLog) (a : Action) :
    (log.record (.receive a)).sent = log.sent ∧
      (log.record (.transmit a)).accepted = log.accepted := by
  cases a <;> exact ⟨rfl, rfl⟩

/-- The tallies fit in every run. -/
theorem TransferWorld.Counted.of_run (hok : queue.isOk)
    (hstart : (transferWorldLts queue source verification maxChunkSize vis).initial start)
    (hrun : Run (transferWorldLts queue source verification maxChunkSize vis) start ts w) :
    w.Counted queue source ts := by
  induction hrun with
  | nil =>
      have hat := TransferWorld.At.of_initial hstart
      obtain ⟨⟨system, transmit, receive⟩, log⟩ := start
      obtain ⟨⟨hsystem, rfl, rfl⟩, rfl⟩ := hstart
      exact ⟨hat, ⟨nofun, nofun, rfl, rfl⟩, ⟨nofun, nofun, nofun, rfl, rfl⟩⟩
  | @snoc ts w w' e hrun hstep ih =>
      obtain ⟨s, log⟩ := w
      obtain ⟨s', log'⟩ := w'
      obtain ⟨hstep, rfl⟩ := hstep
      have hat' : TransferWorld.At queue source ⟨s', log.record e⟩ := ih.toAt.step hstep
      cases hstep with
      | @transmit a t system hjob hacts =>
          refine ⟨hat', ?_, ?_⟩
          · rw [Tally.ofTransmit, List.foldl_append]
            exact ih.transmitted.step hok ih.toAt.transmit hjob hacts
          · rw [Tally.ofReceive, List.foldl_append, (log.record_other a).2]
            exact (hjob.consumer_eq hacts).symm ▸ ih.received
      | @receive a r system hjob hacts =>
          refine ⟨hat', ?_, ?_⟩
          · rw [Tally.ofTransmit, List.foldl_append, (log.record_other a).1]
            exact (hjob.producer_eq hacts).symm ▸ ih.transmitted
          · rw [Tally.ofReceive, List.foldl_append]
            exact ih.received.step hok ih.toAt.receive hjob hacts

end Runs

/-- In every run on a queue that is ok: whenever the producer's job is between two transactions, it
has counted the transactions of its loop that were rolled back, and all others of them are chunks
that it has accounted for. The same holds for the consumer's job at the start of its loop, and at the
end there is one more, that of the end signal. -/
theorem transaction_attempts (queue : BaseTxQueue) (source : TransmitBuffer)
    (verification : Verification σ) (maxChunkSize : UInt64) (vis : Visibility) (hok : queue.isOk)
    {start w : TransferWorld σ} {ts : List (Transition (TransferWorld σ) TransferEvent)}
    (hstart : (transferWorldLts queue source verification maxChunkSize vis).initial start)
    (hrun : Run (transferWorldLts queue source verification maxChunkSize vis) start ts w) :
    (w.state.transmit.control.IsBetween →
      w.state.transmit.job.transactionAttempts_ = .ofNat (Tally.ofTransmit ts).rolledBack ∧
        (Tally.ofTransmit ts).opened = w.log.sent.length + (Tally.ofTransmit ts).rolledBack) ∧
    (w.state.receive.control = .loop →
      w.state.receive.job.transactionAttempts_ = .ofNat (Tally.ofReceive ts).rolledBack ∧
        (Tally.ofReceive ts).opened = w.log.accepted.length + (Tally.ofReceive ts).rolledBack) ∧
    (w.state.receive.control = .quit →
      w.state.receive.job.transactionAttempts_ = .ofNat (Tally.ofReceive ts).rolledBack ∧
        (Tally.ofReceive ts).opened =
          w.log.accepted.length + (Tally.ofReceive ts).rolledBack + 1) := by
  have hi := TransferWorld.Counted.of_run hok hstart hrun
  have htransmit := hi.transmitted.counts
  have hreceive := hi.received.counts
  refine ⟨fun hbetween => ?_, fun hloop => ?_, fun hquit => ?_⟩
  · cases hcontrol : w.state.transmit.control with
    | loop | signal | quit =>
        rw [hcontrol] at htransmit
        exact htransmit
    | _ =>
        rw [hcontrol] at hbetween
        exact hbetween.elim
  · rw [hloop] at hreceive
    exact hreceive
  · rw [hquit] at hreceive
    exact hreceive

/-- `transaction_attempts` on a consumer that has found the ring empty. -/
theorem transaction_attempts_empty : ∃ ts w,
    Run (transferWorldLts frameQueue.toBaseTxQueue threeBytes byteSum 2 .everyLoad)
      (freshTransfer frameQueue.toBaseTxQueue byteSum 2) ts w ∧
    w.state.receive.control = .loop ∧ w.log.accepted = [] ∧
    Tally.ofReceive ts = ⟨1, 1⟩ ∧ w.state.receive.job.transactionAttempts_ = 1 := by
  have hstart := freshTransfer_initial frameQueue.toBaseTxQueue threeBytes byteSum 2 .everyLoad
  have h0 : Run (transferWorldLts frameQueue.toBaseTxQueue threeBytes byteSum 2 .everyLoad)
    (freshTransfer frameQueue.toBaseTxQueue byteSum 2) [] _ := .nil
  have h1 := h0.andThen (.receive .openRead (.openRead 0 (by decide) (by decide) rfl))
  have h2 := h1.andThen (.receive .enter ⟨⟨_, rfl, rfl⟩, rfl⟩)
  have h3 := h2.andThen (.receive .refuseSize
    (.refuseRead 8 0 0 (by decide) (by decide) rfl rfl))
  have h4 := h3.andThen (.receive .refuseData
    (.refuseRead 0 0 0 (by decide) (by decide) rfl rfl))
  have h5 := h4.andThen (.receive .failed ⟨⟨_, rfl, rfl⟩, rfl⟩)
  have h6 := h5.andThen (.receive .close (.closeRead rfl))
  have hattempts := (transaction_attempts frameQueue.toBaseTxQueue threeBytes byteSum 2 .everyLoad
    (by decide) hstart h6).2.1 rfl
  exact ⟨_, _, h6, rfl, rfl, rfl, hattempts.1⟩

end TxQueue
