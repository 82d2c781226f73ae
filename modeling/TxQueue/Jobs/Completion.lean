import TxQueue.Jobs.Returning

/-!
# When the framed transfer can be completed

If the queue holds the smallest message wherever the transfer stands, it can be completed from every
reachable state, also from the middle of a transaction on either side. If it does not, no chunk is
ever committed: the producer draws sizes for ever, or signals the end for ever.
-/

namespace TxQueue

open Library

variable {σ : Type*} {queue : RingQueue} {source : TransmitBuffer}
  {verification : Verification σ} {maxChunkSize : UInt64} {w w' : TransferWorld σ}

/-- The size that the producer has drawn for its chunk. -/
def TransmitControl.drawn : TransmitControl → Option UInt64
  | .writeSize chunkSize => some chunkSize
  | .writeData chunkSize => some chunkSize
  | .check chunkSize => some chunkSize
  | .account chunkSize => some chunkSize
  | _ => none

@[simp] theorem TransmitControl.drawn_afterWrite (ok : Bool) (control : TransmitControl) :
    (control.afterWrite ok).drawn = control.drawn := by
  cases control <;> rfl

/-- A chunk is smaller than the minimum only at the end of the buffer. -/
def Transmitter.Draws (source : TransmitBuffer) (t : Transmitter σ) : Prop :=
  ∀ chunkSize, t.control.drawn = some chunkSize →
    min source.minChunkSize_.toNat (source.srcDataSize_ - t.job.totalData_).toNat ≤ chunkSize.toNat

/-- Every step of the job keeps to the sizes that it may draw. -/
theorem Transmitter.Draws.step {t t' : Transmitter σ} {a : Action} (h : t.Draws source)
    (hjob : TransmitStep source verification t a t') : t'.Draws source := by
  cases hjob with
  | @enter job draw hdraw hmax =>
      intro chunkSize hchunk
      obtain rfl := Option.some.inj hchunk
      rw [TransmitBuffer.chunkSize, TransmitBuffer.toNat_min]
      exact min_le_min_right _ (UInt64.le_iff_toNat_le.1 hdraw)
  | wrote hdata | refuseWrite hdata => simpa [Draws] using h
  | @closeSignal job wrote published =>
      intro chunkSize hdrawn
      cases wrote <;> cases hdrawn
  | beginWrite | copyIn | checked => exact h
  | openChunk | skip | failed | account | close | leave | openSignal | enterSignal | skipSignal =>
      intro chunkSize hdrawn
      cases hdrawn

theorem TransmitStep.control_of_account {t t' : Transmitter σ} {data : List UInt8}
    (hjob : TransmitStep source verification t (.account data) t') :
    ∃ chunkSize, t.control = .account chunkSize := by
  cases hjob with
  | account => exact ⟨_, rfl⟩

/-- A job is over once it has closed the transaction that signals the end. -/
theorem TransmitStep.control_of_quit {t t' : Transmitter σ} {a : Action}
    (hjob : TransmitStep source verification t a t') (hquit : t'.control = .quit) :
    t.control = .quit ∨ t.control = .closeSignal true := by
  cases hjob with
  | beginWrite | copyIn => exact .inl hquit
  | @wrote t data hdata | @refuseWrite t data hdata =>
      obtain ⟨control, job⟩ := t
      cases control <;> cases hquit
      exact .inl rfl
  | @closeSignal job wrote published =>
      cases wrote with
      | true => exact .inr rfl
      | false => cases hquit
  | _ => cases hquit

/-- Before anything is committed, the open transaction fits the empty ring. -/
theorem Delivery.length_writing_le (hi : Delivery queue.toBaseTxQueue source verification w)
    (hwritten : w.log.history.written = []) :
    w.log.history.writing.length ≤ queue.capacity.toNat := by
  have hindices := hi.queue.indices
  have hspace : w.log.history.localTail + w.state.system.producer.pending ≤
    w.world.seenHead + (queue.capacity_.toNat - 1) := hindices.space
  have hseen : w.world.seenHead ≤ w.log.history.head := Indices.seenHead_le w.world
  have horder : w.log.history.head ≤ w.log.history.tail := hindices.head_le_tail
  have hcapacity : queue.capacity.toNat = queue.capacity_.toNat - 1 :=
    sub_one_toNat queue.isPowTwo.pos
  simp only [History.localTail, History.tail, hwritten, List.flatten_nil, List.length_nil]
    at hspace horder
  omega

/-- No chunk was committed, and the end is not signalled. -/
structure TransferWorld.Stalled (source : TransmitBuffer) (w : TransferWorld σ) : Prop where
  draws : w.state.transmit.Draws source
  sent : w.log.sent = []
  signal : w.state.transmit.control ≠ .quit

namespace TransferWorld.Stalled

/-- A transaction that commits a chunk first shows that the transfer can be completed. -/
theorem completable_of_account {chunkSize : UInt64} (h : w.Stalled source)
    (hi : Delivery queue.toBaseTxQueue source verification w)
    (hcontrol : w.state.transmit.control = .account chunkSize) :
    source.Completable queue.capacity.toNat := by
  have hplaced := hi.sending.control
  have htotal := hi.sending.total
  rw [hcontrol] at hplaced
  rw [h.sent] at hplaced htotal
  obtain ⟨hwritten, hchunk, -, hwriting⟩ := hplaced
  have hlength := hi.length_writing_le hwritten
  have hfits := hchunk.fits
  have hzero : w.state.transmit.job.totalData_ = 0 := htotal
  rw [hwriting, List.length_append, length_le64, hchunk.length_chunk] at hlength
  have hdraws := h.draws chunkSize (by rw [hcontrol]; rfl)
  rw [hzero, UInt64.sub_zero, source.srcDataSize_toNat] at hdraws
  exact ⟨by omega, fun _ => by omega⟩

/-- So does one that signals the end. -/
theorem completable_of_signal (h : w.Stalled source)
    (hi : Delivery queue.toBaseTxQueue source verification w)
    (hcontrol : w.state.transmit.control = .closeSignal true) :
    source.Completable queue.capacity.toNat := by
  have hplaced := hi.sending.control
  rw [hcontrol, h.sent] at hplaced
  obtain ⟨hwritten, hsource, -, hwriting⟩ := hplaced
  have hlength := hi.length_writing_le hwritten
  rw [hwriting rfl, length_frame] at hlength
  exact ⟨by simpa using hlength, fun hne => absurd hsource.symm hne⟩

/-- Every step keeps the transfer stalled on a queue that is too small for it. -/
theorem step {e : TransferEvent} (hnot : ¬ source.Completable queue.capacity.toNat)
    (hi : Delivery queue.toBaseTxQueue source verification w) (h : w.Stalled source)
    (hstep : (transferWorldLts queue.toBaseTxQueue source verification maxChunkSize
      .everyLoad).step w e w') : w'.Stalled source := by
  obtain ⟨s', log'⟩ := w'
  obtain ⟨hstep, rfl⟩ := hstep
  cases hstep with
  | @receive a r system hjob hacts => exact ⟨h.draws, by cases a <;> exact h.sent, h.signal⟩
  | @transmit a t system hjob hacts =>
      refine ⟨h.draws.step hjob, ?_, ?_⟩
      · cases a with
        | account data =>
            obtain ⟨chunkSize, hcontrol⟩ := hjob.control_of_account
            exact absurd (h.completable_of_account hi hcontrol) hnot
        | _ => exact h.sent
      · intro hquit
        rcases hjob.control_of_quit hquit with hcontrol | hcontrol
        · exact h.signal hcontrol
        · exact hnot (h.completable_of_signal hi hcontrol)

/-- In no run is a chunk committed on a queue that is too small. -/
theorem of_run {start : TransferWorld σ} {ts : List (Transition (TransferWorld σ) TransferEvent)}
    (hnot : ¬ source.Completable queue.capacity.toNat) (hmin : 1 ≤ source.minChunkSize_)
    (hstart : (transferWorldLts queue.toBaseTxQueue source verification maxChunkSize
      .everyLoad).initial start)
    (hrun : Run (transferWorldLts queue.toBaseTxQueue source verification maxChunkSize .everyLoad)
      start ts w) :
    Delivery queue.toBaseTxQueue source verification w ∧ w.Stalled source := by
  have hinitial : start.Stalled source := by
    obtain ⟨⟨system, transmit, receive⟩, log⟩ := start
    obtain ⟨⟨-, rfl, -⟩, rfl⟩ := hstart
    refine ⟨?_, rfl, ?_⟩
    · exact fun _ hdrawn => nomatch hdrawn
    · exact fun hquit => nomatch hquit
  refine hrun.invariant (I := fun w => Delivery queue.toBaseTxQueue source verification w ∧
    w.Stalled source) ⟨.of_initial hstart, hinitial⟩ ?_
  intro w e w' hi hstep
  exact ⟨hi.1.step hmin hstep, hi.2.step hnot hi.1 hstep⟩

/-- The consumer waits for the end that is not signalled. -/
theorem receive_ne_quit (h : w.Stalled source)
    (hi : Delivery queue.toBaseTxQueue source verification w) :
    w.state.receive.control ≠ .quit :=
  fun hquit => h.signal (hi.transmit_quit (by rw [hquit]; trivial))

end TransferWorld.Stalled

/-- From every reachable state, whatever the two jobs are in the middle of, the transfer can be
completed if and only if the queue can hold the smallest message at any time. If it cannot, no run
commits a chunk or signals the end. -/
theorem completion (queue : RingQueue) (source : TransmitBuffer) (verification : Verification σ)
    (maxChunkSize : UInt64) (hok : queue.isOk) (hmin : 1 ≤ source.minChunkSize_)
    (hle : source.minChunkSize_ ≤ source.maxChunkSize_) {start w : TransferWorld σ}
    {ts : List (Transition (TransferWorld σ) TransferEvent)}
    (hstart : (transferWorldLts queue.toBaseTxQueue source verification maxChunkSize
      .everyLoad).initial start)
    (hrun : Run (transferWorldLts queue.toBaseTxQueue source verification maxChunkSize .everyLoad)
      start ts w) :
    ((∃ us w', Run (transferWorldLts queue.toBaseTxQueue source verification maxChunkSize
      .everyLoad) w us w' ∧ w'.state.receive.control = .quit) ↔
      source.Completable queue.capacity.toNat) ∧
    (¬ source.Completable queue.capacity.toNat →
      w.log.sent = [] ∧ w.log.accepted = [] ∧ w.state.transmit.control ≠ .quit ∧
        w.state.receive.control ≠ .quit) := by
  refine ⟨⟨?_, ?_⟩, ?_⟩
  · rintro ⟨us, w', hus, hquit⟩
    by_contra hnot
    obtain ⟨hi, hstalled⟩ := TransferWorld.Stalled.of_run hnot hmin hstart (hrun.append hus)
    exact hstalled.receive_ne_quit hi hquit
  · intro hcompletable
    have hat : w.At queue.toBaseTxQueue source :=
      hrun.invariant (.of_initial hstart) fun _ _ _ h hstep => h.step hstep.1
    obtain ⟨w₁, hleads₁, hrests | hquit⟩ :=
      hat.leads_rests .everyLoad verification maxChunkSize hle
    · have hi₁ : Delivery queue.toBaseTxQueue source verification w₁ :=
        hleads₁.induct (Delivery.of_run hmin hstart hrun) fun _ _ _ _ hi hstep => hi.step hmin hstep
      obtain ⟨w₂, hleads₂, hquit⟩ :=
        hi₁.behind_nil.leads_quit maxChunkSize hok hmin hle hcompletable hrests
      obtain ⟨us, hus, -⟩ := hleads₁.trans hleads₂
      exact ⟨us, w₂, hus, hquit⟩
    · obtain ⟨us, hus, -⟩ := hleads₁
      exact ⟨us, w₁, hus, hquit⟩
  · intro hnot
    obtain ⟨hi, hstalled⟩ := TransferWorld.Stalled.of_run hnot hmin hstart hrun
    have hpre := hi.messages_isPrefix.1
    rw [hstalled.sent] at hpre
    exact ⟨hstalled.sent, List.prefix_nil.1 hpre, hstalled.signal, hstalled.receive_ne_quit hi⟩

/-- `completion` on a producer that has just opened a transaction. -/
theorem completion_opened : ∃ us w,
    Run (transferWorldLts frameQueue.toBaseTxQueue threeBytes byteSum 2 .everyLoad)
      (freshTransfer frameQueue.toBaseTxQueue byteSum 2) us w ∧
    w.state.receive.control = .quit := by
  have hstart := freshTransfer_initial frameQueue.toBaseTxQueue threeBytes byteSum 2 .everyLoad
  have h0 : Run (transferWorldLts frameQueue.toBaseTxQueue threeBytes byteSum 2 .everyLoad)
    (freshTransfer frameQueue.toBaseTxQueue byteSum 2) [] _ := .nil
  have h1 := h0.andThen (.transmit (.openChunk (by decide))
    (.openWrite 0 (by decide) (by decide) rfl))
  obtain ⟨us, w, hus, hquit⟩ := (completion frameQueue threeBytes byteSum 2 (by decide) (by decide)
    (by decide) hstart h1).1.2 ⟨by decide, fun _ => by decide⟩
  exact ⟨_, w, h1.append hus, hquit⟩

end TxQueue
