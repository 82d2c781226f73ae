import TxQueue.Library.Fairness
import TxQueue.Jobs.Completion
import TxQueue.Jobs.Turns

/-!
# The transfer comes to its end

The jobs spin: a transaction that fails is tried again, and nothing but the other job's progress
makes it succeed. If both jobs keep running and stores to the indices are seen after some time,
the spinning ends exactly if a chunk of any size that can be drawn fits the queue. Commits are
bounded by the source, so they would have to cease in an execution that never ends. From then on
nothing moves in the ring: if it is empty the next transaction of the producer commits, and if it
holds a frame the next transaction of the consumer does.
-/

namespace TxQueue

open Library

variable {σ : Type*} {queue : RingQueue} {source : TransmitBuffer} {verification : Verification σ}
  {maxChunkSize : UInt64} {base : List (List UInt8)} {w w' : TransferWorld σ}

/-! ## Transactions that cannot fail -/

/-- The producer's job has no transaction open that would not commit. -/
def Transmitter.Valid (t : Transmitter σ) (side : Producer) : Prop :=
  t.control.IsBetween ∨ side.isValid = true

/-- The consumer's job has no transaction open that would not commit. -/
def Receiver.Valid (r : Receiver σ) (side : Consumer) : Prop :=
  r.control = .loop ∨ r.control = .quit ∨ side.isValid = true

/-- With the bytes of the next call a transaction has at most a size and a chunk. -/
theorem Sending.length_call {t : Transmitter σ} {h : History} {sent : List (List UInt8)}
    {data : List UInt8} (hi : Sending source verification t true h sent)
    (hwrites : t.writes source = some data) :
    h.writing.length + data.length ≤
      min source.maxChunkSize_.toNat source.srcData_.length + 8 := by
  obtain ⟨control, job⟩ := t
  have hcontrol := hi.control
  cases control with
  | writeSize chunkSize =>
      obtain rfl := Option.some.inj hwrites
      simp [hcontrol.2.2]
  | writeData chunkSize =>
      obtain rfl := Option.some.inj hwrites
      obtain ⟨-, hchunk, hwriting⟩ := hcontrol
      have hfits := hchunk.fits
      have hmax := UInt64.le_iff_toNat_le.1 hchunk.le_max
      rw [hwriting rfl, length_le64, hchunk.length_chunk]
      omega
  | writeZero =>
      obtain rfl := Option.some.inj hwrites
      simp [hcontrol.2.2]
  | _ => cases hwrites

/-- With the bytes of the next call a transaction has read at most the next frame. -/
theorem Receiving.length_call {r : Receiver σ} {h : History} {accepted : List (List UInt8)}
    {size : UInt64} {data : List UInt8} (hi : Receiving verification r true h accepted)
    (hreads : r.control.reads = some size)
    (hread : h.consumed.flatten ++ h.reading <+: h.written.flatten)
    (hframe : h.consumed ++ [frame data] <+: h.written) (hword : FitsWord data) :
    h.reading.length + size.toNat ≤ (frame data).length := by
  obtain ⟨control, job, buffer⟩ := r
  have hcontrol := hi.control
  cases control with
  | readSize =>
      obtain rfl := Option.some.inj hreads
      simp [hcontrol.2]
  | readData chunkSize =>
      obtain rfl := Option.some.inj hreads
      obtain ⟨-, hreading⟩ := hcontrol
      rw [if_pos rfl] at hreading
      obtain ⟨later, hlater⟩ := hframe
      rw [hreading, ← hlater, List.append_assoc, List.flatten_append,
        List.prefix_append_right_inj] at hread
      have hwords : le64 chunkSize ++ [] <+: le64 (lengthWord data) ++ (data ++ later.flatten) := by
        simpa [frame] using hread
      have hsize := (le64_append_isPrefix hwords).1
      rw [hreading, length_le64, length_frame, hsize, lengthWord_toNat hword]
  | _ => cases hreads

section Valid

variable {cap : UInt64} {s s' : System} {t t' : Transmitter σ} {r r' : Receiver σ}
  {h h' : History} {sent accepted : List (List UInt8)} {vis : Visibility} {a : Action}

/-- If the ring has room for any message and the checks see the last head, the producer's
transactions stay valid. -/
theorem Transmitter.Valid.step (hok : queue.isOk) (hi : Indices queue.capacity_ ⟨s, h'⟩)
    (hsending : Sending source verification t s.producer.isValid h sent)
    (hat : t.At queue.toBaseTxQueue source s.producer) (hwriting : h'.writing = h.writing)
    (hroom : h'.tail + (min source.maxChunkSize_.toNat source.srcData_.length + 8) ≤
      h'.head + (queue.capacity_.toNat - 1))
    (hvalid : t.Valid s.producer) (hjob : TransmitStep source verification t a t')
    (hacts : s.ProducerActs vis a s') (hsees : a.SeesLast s s') : t'.Valid s'.producer := by
  have hopen : ¬ t.control.IsBetween → s.producer.isValid = true := hvalid.resolve_left
  have hcall : ∀ data, t.writes source = some data → s.producer.isValid = true := by
    intro data hwrites
    refine hopen fun hbetween => ?_
    obtain ⟨control, job⟩ := t
    cases control with
    | writeSize | writeData | writeZero => exact hbetween
    | _ => cases hwrites
  cases hjob with
  | openChunk | openSignal => exact .inr (Step.openWrite_isValid hok hat hacts)
  | enter | checked | enterSignal =>
      obtain ⟨rfl, htrue⟩ := hacts.of_test
      exact .inr htrue
  | skip | failed | skipSignal =>
      obtain ⟨-, hfalse⟩ := hacts.of_test
      rw [hopen id] at hfalse
      cases hfalse
  | beginWrite hwrites => exact .inr ((Step.beginWrite_isValid hacts).trans (hcall _ hwrites))
  | copyIn hwrites => exact .inr ((Step.copyIn_isValid hacts).trans (hcall _ hwrites))
  | wrote hwrites => exact .inr ((Step.wrote_isValid hacts).trans (hcall _ hwrites))
  | refuseWrite hwrites =>
      have htrue := hcall _ hwrites
      rw [htrue] at hsending
      have hlength := hsending.length_call hwrites
      have hfull := hi.full_of_refuseWrite queue.isPowTwo hacts htrue (hsees htrue)
      simp only [History.localTail, hwriting] at hfull
      omega
  | account =>
      obtain rfl := hacts
      exact .inr (hopen id)
  | close | leave => exact .inl trivial
  | @closeSignal _ wrote => cases wrote <;> exact .inl trivial

/-- If the ring holds a whole frame and the checks see the last tail, the consumer's transactions
stay valid. -/
theorem Receiver.Valid.step {data : List UInt8} (hok : queue.isOk)
    (hi : Indices queue.capacity_ ⟨s, h'⟩)
    (hreceiving : Receiving verification r s.consumer.isValid h accepted)
    (hat : r.At queue.toBaseTxQueue s.consumer) (hreading : h'.reading = h.reading)
    (hread : h.consumed.flatten ++ h.reading <+: h.written.flatten)
    (hframe : h.consumed ++ [frame data] <+: h.written) (hword : FitsWord data)
    (hwhole : h'.head + (frame data).length ≤ h'.tail)
    (hvalid : r.Valid s.consumer) (hjob : ReceiveStep verification r a r')
    (hacts : s.ConsumerActs vis a s') (hsees : a.SeesLast s s') : r'.Valid s'.consumer := by
  have hopen : r.control ≠ .loop → r.control ≠ .quit → s.consumer.isValid = true :=
    fun hloop hquit => (hvalid.resolve_left hloop).resolve_left hquit
  have hcall : ∀ size, r.control.reads = some size → s.consumer.isValid = true := by
    intro size hreads
    refine hopen ?_ ?_
    · rintro hloop
      rw [hloop] at hreads
      cases hreads
    · rintro hquit
      rw [hquit] at hreads
      cases hreads
  have hrefused : ∀ size, r.control.reads = some size → ¬ ∃ s', Step vis s (.refuseRead size) s' ∧
      (s.consumer.isValid → UpToDate s'.down) := by
    rintro size hreads ⟨s', hstep, hlast⟩
    have htrue := hcall size hreads
    rw [htrue] at hreceiving
    have hlength := hreceiving.length_call hreads hread hframe hword
    have hshort := hi.short_of_refuseRead queue.isPowTwo hstep htrue (hlast htrue)
    simp only [History.localHead, hreading] at hshort
    omega
  cases hjob with
  | openRead => exact .inr (.inr (Step.openRead_isValid hok hat hacts))
  | enter | finished | checked =>
      obtain ⟨rfl, htrue⟩ := hacts.of_test
      exact .inr (.inr htrue)
  | skip | failed =>
      obtain ⟨-, hfalse⟩ := hacts.of_test
      rw [hopen (by simp) (by simp)] at hfalse
      cases hfalse
  | beginRead hreads => exact .inr (.inr ((Step.beginRead_isValid hacts).trans (hcall _ hreads)))
  | copyOut hreads => exact .inr (.inr ((Step.copyOut_isValid hacts).trans (hcall _ hreads)))
  | readSize | readData =>
      exact .inr (.inr ((Step.read_isValid hacts).trans (hcall _ rfl)))
  | refuseSize | refuseData => exact absurd ⟨s', hacts, hsees⟩ (hrefused _ rfl)
  | account =>
      obtain rfl := hacts
      exact .inr (.inr (hopen (by simp) (by simp)))
  | close => exact .inl rfl
  | closeQuit => exact .inr (.inl rfl)

/-- A valid transaction commits when it is closed. -/
theorem Transmitter.Valid.commits {published : Bool} (hvalid : t.Valid s.producer)
    (hjob : TransmitStep source verification t (.call (.closeWrite published)) t')
    (hacts : s.ProducerActs vis (.call (.closeWrite published)) s') : published = true := by
  have hpublished := Step.closeWrite_published hacts
  cases hjob with
  | close | closeSignal => exact hpublished.trans (hvalid.resolve_left id)

theorem Receiver.Valid.commits {published : Bool} (hvalid : r.Valid s.consumer)
    (hjob : ReceiveStep verification r (.call (.closeRead published)) r')
    (hacts : s.ConsumerActs vis (.call (.closeRead published)) s') : published = true := by
  have hpublished := Step.closeRead_published hacts
  cases hjob with
  | close | closeQuit =>
      exact hpublished.trans ((hvalid.resolve_left (by simp)).resolve_left (by simp))

/-- After a transaction there is none. -/
theorem TransmitStep.valid_of_close {published : Bool}
    (hjob : TransmitStep source verification t (.call (.closeWrite published)) t')
    (side : Producer) : t'.Valid side := by
  cases hjob with
  | close => exact .inl trivial
  | @closeSignal _ wrote => cases wrote <;> exact .inl trivial

theorem ReceiveStep.control_of_close {published : Bool}
    (hjob : ReceiveStep verification r (.call (.closeRead published)) r') :
    r'.control = .loop ∨ r'.control = .quit := by
  cases hjob with
  | close => exact .inl rfl
  | closeQuit => exact .inr rfl

/-- A job that has come to its end takes no step. -/
theorem TransmitStep.not_quit (hjob : TransmitStep source verification t a t') :
    t.control ≠ .quit := by
  cases hjob with
  | beginWrite hwrites | copyIn hwrites | wrote hwrites | refuseWrite hwrites =>
      intro hquit
      simp [Transmitter.writes, hquit] at hwrites
  | _ => exact fun hquit => by cases hquit

end Valid

/-! ## Commits cease -/

section Commits

variable {h : History} {t : Transmitter σ} {r : Receiver σ} {valid : Bool}
  {sent accepted : List (List UInt8)}

/-- The number of committed transactions. -/
def History.commits (h : History) : ℕ := h.written.length + h.consumed.length

/-- A committed transaction stays committed. -/
theorem History.record_isPrefix (h : History) (e : Event) :
    h.written <+: (h.record e).written ∧ h.consumed <+: (h.record e).consumed := by
  cases e with
  | closeWrite published => cases published <;> simp [record]
  | closeRead published => cases published <;> simp [record]
  | _ => exact ⟨List.prefix_rfl, List.prefix_rfl⟩

theorem TransferLog.record_isPrefix (log : TransferLog) (e : TransferEvent) :
    log.history.written <+: (log.record e).history.written ∧
      log.history.consumed <+: (log.record e).history.consumed := by
  cases e with
  | transmit a | receive a =>
      cases a with
      | call e => exact log.history.record_isPrefix e
      | _ => exact ⟨List.prefix_rfl, List.prefix_rfl⟩

/-- No chunk is empty, so there are no more of them than bytes. -/
theorem Sending.length_sent (hi : Sending source verification t valid h sent) :
    sent.length ≤ source.srcData_.length := by
  refine le_trans ?_ hi.fromSource.length_le
  rw [List.length_flatten, ← List.length_map (f := List.length)]
  refine List.length_le_sum_of_one_le _ ?_
  intro n hn
  obtain ⟨data, hdata, rfl⟩ := List.mem_map.1 hn
  exact List.length_pos_iff.2 (hi.chunks data hdata).1

/-- The producer commits its chunks and the end. -/
theorem Sending.length_written (hi : Sending source verification t valid h sent) :
    h.written.length ≤ sent.length + 1 := by
  obtain ⟨messages, hmessages, hpre | ⟨-, rfl, -⟩⟩ := hi.exists_messages
  · rw [hmessages, List.length_map]
    exact Nat.le_succ_of_le hpre.length_le
  · simp [hmessages]

/-- The consumer commits the chunks that it accepts and the end. -/
theorem Receiving.length_consumed (hi : Receiving verification r valid h accepted) :
    h.consumed.length ≤ accepted.length + 1 := by
  obtain ⟨control, job, buffer⟩ := r
  have hcontrol := hi.control
  cases control with
  | loop =>
      rw [show h.consumed = accepted.map frame from hcontrol]
      simp
  | close =>
      have hlength := congrArg List.length hcontrol
      split_ifs at hlength <;> simp at hlength <;> omega
  | quit =>
      rw [show h.consumed = List.map frame (accepted ++ [[]]) from hcontrol]
      simp
  | _ =>
      rw [hcontrol.1]
      simp

/-- The source bounds the number of commits. -/
theorem DeliveryBehind.commits_le
    (hi : DeliveryBehind queue.toBaseTxQueue source verification base w) :
    w.log.history.commits ≤ 2 * (source.srcData_.length + 1) := by
  have hsent := hi.sending.length_sent
  have hwritten := hi.sending.length_written
  have hconsumed := hi.receiving.length_consumed
  have haccepted := (hi.receiving.accepted_isPrefix hi.sending hi.read_isPrefix).1.length_le
  unfold History.commits
  omega

end Commits

/-! ## Executions -/

/-- Each job takes steps again and again until it has come to its end. -/
structure KeepsRunning
    (x : Execution (transferWorldLts queue.toBaseTxQueue source verification maxChunkSize
      .everyLoad)) : Prop where
  transmit : ∀ n, ∃ m, n ≤ m ∧ ((x.state m).state.transmit.control = .quit ∨
    ∃ e, x.event m = some e ∧ ∃ a, e = .transmit a)
  receive : ∀ n, ∃ m, n ≤ m ∧ ((x.state m).state.receive.control = .quit ∨
    ∃ e, x.event m = some e ∧ ∃ a, e = .receive a)

/-- Stores to the indices are seen at some time: the availability checks that fail later than that
have loaded an index that is no older. -/
structure SeesStores
    (x : Execution (transferWorldLts queue.toBaseTxQueue source verification maxChunkSize
      .everyLoad)) : Prop where
  transmit : ∀ n, ∃ k, ∀ m data, k ≤ m →
    x.event m = some (.transmit (.call (.refuseWrite data))) →
    (x.state m).state.system.producer.isValid = true →
    (x.state n).state.system.up.last ≤ (x.state (m + 1)).state.system.up.observed
  receive : ∀ n, ∃ k, ∀ m size, k ≤ m →
    x.event m = some (.receive (.call (.refuseRead size))) →
    (x.state m).state.system.consumer.isValid = true →
    (x.state n).state.system.down.last ≤ (x.state (m + 1)).state.system.down.observed

/-- From the moment `n` on nothing is committed, and every check sees the last store. -/
structure SettledFrom (base : List (List UInt8)) (n : ℕ)
    (x : Execution (transferWorldLts queue.toBaseTxQueue source verification maxChunkSize
      .everyLoad)) : Prop where
  delivery : ∀ m, n ≤ m → DeliveryBehind queue.toBaseTxQueue source verification base (x.state m)
  placed : ∀ m, n ≤ m → (x.state m).At queue.toBaseTxQueue source
  written : ∀ m, n ≤ m →
    (x.state m).log.history.written = (x.state n).log.history.written
  consumed : ∀ m, n ≤ m →
    (x.state m).log.history.consumed = (x.state n).log.history.consumed
  transmit : ∀ m a, n ≤ m → x.event m = some (.transmit a) →
    a.SeesLast (x.state m).state.system (x.state (m + 1)).state.system
  receive : ∀ m a, n ≤ m → x.event m = some (.receive a) →
    a.SeesLast (x.state m).state.system (x.state (m + 1)).state.system

section Settled

variable {n : ℕ} {x : Execution (transferWorldLts queue.toBaseTxQueue source verification
  maxChunkSize .everyLoad)}

theorem TransferStep.of_transmit {vis : Visibility} {s s' : Transfer σ} {a : Action}
    (hstep : TransferStep source verification vis s (.transmit a) s') :
    TransmitStep source verification s.transmit a s'.transmit ∧
      s.system.ProducerActs vis a s'.system ∧ s'.receive = s.receive := by
  cases hstep with
  | transmit hjob hacts => exact ⟨hjob, hacts, rfl⟩

theorem TransferStep.of_receive {vis : Visibility} {s s' : Transfer σ} {a : Action}
    (hstep : TransferStep source verification vis s (.receive a) s') :
    ReceiveStep verification s.receive a s'.receive ∧
      s.system.ConsumerActs vis a s'.system ∧ s'.transmit = s.transmit := by
  cases hstep with
  | receive hjob hacts => exact ⟨hjob, hacts, rfl⟩

/-- Only the checks that fail in a call of `imp_write` matter to the producer's job. -/
theorem TransferStep.seesLast_transmit {vis : Visibility} {s s' : Transfer σ} {a : Action}
    (hstep : TransferStep source verification vis s (.transmit a) s')
    (h : ∀ data, a = .call (.refuseWrite data) → s.system.producer.isValid = true →
      UpToDate s'.system.up) : a.SeesLast s.system s'.system := by
  cases hstep with
  | transmit hjob hacts =>
      cases a with
      | call e =>
          cases e with
          | refuseWrite data => exact h data rfl
          | refuseRead size => cases hjob.ofProducer
          | _ => trivial
      | _ => trivial

theorem TransferStep.seesLast_receive {vis : Visibility} {s s' : Transfer σ} {a : Action}
    (hstep : TransferStep source verification vis s (.receive a) s')
    (h : ∀ size, a = .call (.refuseRead size) → s.system.consumer.isValid = true →
      UpToDate s'.system.down) : a.SeesLast s.system s'.system := by
  cases hstep with
  | receive hjob hacts =>
      cases a with
      | call e =>
          cases e with
          | refuseRead size => exact h size rfl
          | refuseWrite data => cases hjob.ofProducer
          | _ => trivial
      | _ => trivial

/-- What is committed at some moment stays committed. -/
theorem history_isPrefix {m : ℕ} (hle : n ≤ m) :
    (x.state n).log.history.written <+: (x.state m).log.history.written ∧
      (x.state n).log.history.consumed <+: (x.state m).log.history.consumed := by
  refine x.induct (I := fun w => (x.state n).log.history.written <+: w.log.history.written ∧
    (x.state n).log.history.consumed <+: w.log.history.consumed)
    ⟨List.prefix_rfl, List.prefix_rfl⟩ ?_ hle
  intro k e _ hevent hk
  have hrecord := (x.state k).log.record_isPrefix e
  rw [← (x.step hevent).2] at hrecord
  exact ⟨hk.1.trans hrecord.1, hk.2.trans hrecord.2⟩

/-- From some moment on nothing is committed. -/
theorem exists_commits_cease
    (hi : ∀ m, DeliveryBehind queue.toBaseTxQueue source verification base (x.state m)) :
    ∃ n, ∀ m, n ≤ m →
      (x.state m).log.history.written = (x.state n).log.history.written ∧
      (x.state m).log.history.consumed = (x.state n).log.history.consumed := by
  obtain ⟨n, hn⟩ := x.settles (fun w => w.log.history.commits) _
    (fun n => Nat.add_le_add (history_isPrefix n.le_succ).1.length_le
      (history_isPrefix n.le_succ).2.length_le) fun n => (hi n).commits_le
  refine ⟨n, fun m hle => ?_⟩
  have hcommits := hn m hle
  obtain ⟨hwritten, hconsumed⟩ := history_isPrefix (x := x) hle
  have hwrittenLe := hwritten.length_le
  have hconsumedLe := hconsumed.length_le
  simp only [History.commits] at hcommits
  exact ⟨(hwritten.eq_of_length (by omega)).symm, (hconsumed.eq_of_length (by omega)).symm⟩

/-- A reader that has read a release no older than the last one is up to date. -/
theorem upToDate_of_le {α ι : Type*} {c : Channel α ι} (h : c.last ≤ c.observed) : UpToDate c :=
  le_antisymm (Nat.le_sub_one_of_lt c.observed_lt) h

/-- Every execution settles. -/
theorem exists_settledFrom (hmin : 1 ≤ source.minChunkSize_) (hsees : SeesStores x)
    (hi : DeliveryBehind queue.toBaseTxQueue source verification base (x.state 0))
    (hat : (x.state 0).At queue.toBaseTxQueue source) : ∃ n, SettledFrom base n x := by
  have hdelivery : ∀ m, DeliveryBehind queue.toBaseTxQueue source verification base (x.state m) :=
    fun m => x.induct (n := 0) hi (fun m e _ hevent hi => hi.step hmin (x.step hevent)) m.zero_le
  have hplaced : ∀ m, (x.state m).At queue.toBaseTxQueue source :=
    fun m => x.induct (n := 0) hat (fun m e _ hevent h => h.step (x.step hevent).1) m.zero_le
  obtain ⟨n, hn⟩ := exists_commits_cease hdelivery
  have hup : ∀ m, n ≤ m →
      (x.state m).state.system.up.last = (x.state n).state.system.up.last := by
    intro m hle
    rw [(hdelivery m).queue.indices.heads.last_eq, (hdelivery n).queue.indices.heads.last_eq]
    exact congrArg (fun txs => (base ++ txs).length) (hn m hle).2
  have hdown : ∀ m, n ≤ m →
      (x.state m).state.system.down.last = (x.state n).state.system.down.last := by
    intro m hle
    rw [(hdelivery m).queue.indices.tails.last_eq, (hdelivery n).queue.indices.tails.last_eq]
    exact congrArg (fun txs => (base ++ txs).length) (hn m hle).1
  obtain ⟨k₁, hk₁⟩ := hsees.transmit n
  obtain ⟨k₂, hk₂⟩ := hsees.receive n
  refine ⟨max n (max k₁ k₂), fun m _ => hdelivery m, fun m _ => hplaced m, ?_, ?_, ?_, ?_⟩
  · intro m hle
    rw [(hn m (by omega)).1, (hn _ (le_max_left _ _)).1]
  · intro m hle
    rw [(hn m (by omega)).2, (hn _ (le_max_left _ _)).2]
  · intro m a hle hevent
    refine (x.step hevent).1.seesLast_transmit ?_
    rintro data rfl hvalid
    refine upToDate_of_le ?_
    rw [hup (m + 1) (by omega)]
    exact hk₁ m data (by omega) hevent hvalid
  · intro m a hle hevent
    refine (x.step hevent).1.seesLast_receive ?_
    rintro size rfl hvalid
    refine upToDate_of_le ?_
    rw [hdown (m + 1) (by omega)]
    exact hk₂ m size (by omega) hevent hvalid

/-- A job that keeps running and does not come to its end ends transactions again and again. -/
theorem often_closeWrite (hruns : KeepsRunning x)
    (hquit : ∀ m, n ≤ m → (x.state m).state.transmit.control ≠ .quit) :
    x.Often fun e => ∃ published, e = .transmit (.call (.closeWrite published)) := by
  have hoften : x.Often fun e => ∃ a, e = .transmit a := by
    intro k
    obtain ⟨m, hle, hm⟩ := hruns.transmit (max n k)
    exact ⟨m, by omega, hm.resolve_left (hquit m (by omega))⟩
  intro k
  refine hoften.finish (fun w => w.state.transmit.rank w.state.system.producer) ?_ ?_
  · rintro m _ - hevent ⟨a, rfl⟩
    obtain ⟨hjob, hacts, -⟩ := (x.step hevent).1.of_transmit
    rcases hjob.rank_lt hacts with ⟨published, rfl⟩ | hlt
    · exact .inl ⟨published, rfl⟩
    · exact .inr hlt
  · rintro m e - hevent hother
    cases e with
    | transmit a => exact absurd ⟨a, rfl⟩ hother
    | receive a =>
        obtain ⟨hjob, hacts, hsame⟩ := (x.step hevent).1.of_receive
        rw [hsame, hjob.producer_eq hacts]

theorem often_closeRead (hruns : KeepsRunning x)
    (hquit : ∀ m, n ≤ m → (x.state m).state.receive.control ≠ .quit) :
    x.Often fun e => ∃ published, e = .receive (.call (.closeRead published)) := by
  have hoften : x.Often fun e => ∃ a, e = .receive a := by
    intro k
    obtain ⟨m, hle, hm⟩ := hruns.receive (max n k)
    exact ⟨m, by omega, hm.resolve_left (hquit m (by omega))⟩
  intro k
  refine hoften.finish (fun w => w.state.receive.rank w.state.system.consumer) ?_ ?_
  · rintro m _ - hevent ⟨a, rfl⟩
    obtain ⟨hjob, hacts, -⟩ := (x.step hevent).1.of_receive
    rcases hjob.rank_lt hacts with ⟨published, rfl⟩ | hlt
    · exact .inl ⟨published, rfl⟩
    · exact .inr hlt
  · rintro m e - hevent hother
    cases e with
    | receive a => exact absurd ⟨a, rfl⟩ hother
    | transmit a =>
        obtain ⟨hjob, hacts, hsame⟩ := (x.step hevent).1.of_transmit
        rw [hsame, hjob.consumer_eq hacts]

namespace SettledFrom

/-- Nothing is committed any more. -/
theorem not_commit {m : ℕ} (hs : SettledFrom base n x) (hle : n ≤ m) :
    x.event m ≠ some (.transmit (.call (.closeWrite true))) ∧
      x.event m ≠ some (.receive (.call (.closeRead true))) := by
  constructor
  · intro hevent
    have hwritten := (hs.written (m + 1) (by omega)).trans (hs.written m hle).symm
    rw [(x.step hevent).2] at hwritten
    simpa [TransferLog.record, History.record] using congrArg List.length hwritten
  · intro hevent
    have hconsumed := (hs.consumed (m + 1) (by omega)).trans (hs.consumed m hle).symm
    rw [(x.step hevent).2] at hconsumed
    simpa [TransferLog.record, History.record] using congrArg List.length hconsumed

/-- With room for any message the producer's job comes to its end. -/
theorem transmit_quits (hok : queue.isOk) (hs : SettledFrom base n x) (hruns : KeepsRunning x)
    (hroom : (x.state n).log.history.tail +
        (min source.maxChunkSize_.toNat source.srcData_.length + 8) ≤
      (x.state n).log.history.head + (queue.capacity_.toNat - 1)) :
    ∃ m, n ≤ m ∧ (x.state m).state.transmit.control = .quit := by
  by_contra hnever
  have hquit : ∀ m, n ≤ m → (x.state m).state.transmit.control ≠ .quit :=
    fun m hle hquit => hnever ⟨m, hle, hquit⟩
  -- from the next transaction on they stay valid, so the one after it commits
  obtain ⟨m, hm, _, hevent, ⟨published, rfl⟩, hvalid⟩ := (often_closeWrite hruns hquit).holding
    (n := n) (I := fun w => w.state.transmit.Valid w.state.system.producer) (by
      rintro m _ hle hevent ⟨published, rfl⟩
      exact (x.step hevent).1.of_transmit.1.valid_of_close _) (by
      intro m e hle hevent hvalid
      have hi := hs.delivery m hle
      obtain ⟨hheads, htails, -⟩ := (x.state m).log.history.behind_positions base
      cases e with
      | transmit a =>
          obtain ⟨hjob, hacts, -⟩ := (x.step hevent).1.of_transmit
          refine hvalid.step hok hi.queue.indices hi.sending (hs.placed m hle).transmit rfl
            ?_ hjob hacts (hs.transmit m a hle hevent)
          have hhead : (x.state m).log.history.head = (x.state n).log.history.head :=
            congrArg (List.length ∘ List.flatten) (hs.consumed m hle)
          have htail : (x.state m).log.history.tail = (x.state n).log.history.tail :=
            congrArg (List.length ∘ List.flatten) (hs.written m hle)
          omega
      | receive a =>
          obtain ⟨hjob, hacts, hsame⟩ := (x.step hevent).1.of_receive
          rw [hsame, hjob.producer_eq hacts]
          exact hvalid)
  obtain ⟨hjob, hacts, -⟩ := (x.step hevent).1.of_transmit
  obtain rfl := hvalid.commits hjob hacts
  exact (hs.not_commit hm).1 hevent

/-- With a committed frame in the ring the consumer's job comes to its end. -/
theorem receive_quits (hok : queue.isOk) (hs : SettledFrom base n x) (hruns : KeepsRunning x)
    (hlt : (x.state n).log.history.head < (x.state n).log.history.tail) :
    ∃ m, n ≤ m ∧ (x.state m).state.receive.control = .quit := by
  by_contra hnever
  have hquit : ∀ m, n ≤ m → (x.state m).state.receive.control ≠ .quit :=
    fun m hle hquit => hnever ⟨m, hle, hquit⟩
  have hclose := often_closeRead hruns hquit
  have hhead : ∀ k, n ≤ k → (x.state k).log.history.head = (x.state n).log.history.head :=
    fun k hk => congrArg (List.length ∘ List.flatten) (hs.consumed k hk)
  have htail : ∀ k, n ≤ k → (x.state k).log.history.tail = (x.state n).log.history.tail :=
    fun k hk => congrArg (List.length ∘ List.flatten) (hs.written k hk)
  obtain ⟨m₀, hm₀, _, hevent₀, published₀, rfl⟩ := hclose n
  -- between two transactions the ring holds a whole frame
  have hloop : (x.state (m₀ + 1)).state.receive.control = .loop :=
    ((x.step hevent₀).1.of_receive.1.control_of_close).resolve_right (hquit _ (by omega))
  obtain ⟨data, hframe, hword, hwhole, -⟩ := (hs.delivery (m₀ + 1) (by omega)).exists_frame hloop
    (by rw [hhead _ (by omega), htail _ (by omega)]; exact hlt)
  -- the transactions from here on stay valid, so one commits
  obtain ⟨m, hm, _, hevent, ⟨published, rfl⟩, hvalid⟩ := hclose.holding
    (n := m₀ + 1) (I := fun w => w.state.receive.Valid w.state.system.consumer) (by
      rintro m _ hle hevent ⟨published, rfl⟩
      exact ((x.step hevent).1.of_receive.1.control_of_close).imp_right .inl) (by
      intro m e hle hevent hvalid
      have hi := hs.delivery m (by omega)
      obtain ⟨hheads, htails, -⟩ := (x.state m).log.history.behind_positions base
      cases e with
      | transmit a =>
          obtain ⟨hjob, hacts, hsame⟩ := (x.step hevent).1.of_transmit
          rw [hsame, hjob.consumer_eq hacts]
          exact hvalid
      | receive a =>
          obtain ⟨hjob, hacts, -⟩ := (x.step hevent).1.of_receive
          have hframe' : (x.state m).log.history.consumed ++ [frame data] <+:
              (x.state m).log.history.written := by
            rw [hs.consumed m (by omega), hs.written m (by omega),
              ← hs.consumed (m₀ + 1) (by omega), ← hs.written (m₀ + 1) (by omega)]
            exact hframe
          refine hvalid.step hok hi.queue.indices hi.receiving (hs.placed m (by omega)).receive rfl
            hi.read_isPrefix hframe' hword ?_ hjob hacts (hs.receive m a (by omega) hevent)
          rw [hheads, htails, hhead m (by omega), htail m (by omega), ← hhead (m₀ + 1) (by omega),
            ← htail (m₀ + 1) (by omega)]
          omega)
  obtain ⟨hjob, hacts, -⟩ := (x.step hevent).1.of_receive
  obtain rfl := hvalid.commits hjob hacts
  exact (hs.not_commit (by omega)).2 hevent

end SettledFrom

/-- A job that has come to its end stays there. -/
theorem transmit_quit_of_le {m : ℕ} (hquit : (x.state n).state.transmit.control = .quit)
    (hle : n ≤ m) : (x.state m).state.transmit.control = .quit := by
  refine x.induct (I := fun w => w.state.transmit.control = .quit) hquit ?_ hle
  intro k e _ hevent hcontrol
  cases e with
  | transmit a =>
      obtain ⟨hjob, -, -⟩ := (x.step hevent).1.of_transmit
      exact (hjob.not_quit hcontrol).elim
  | receive a => rw [(x.step hevent).1.of_receive.2.2, hcontrol]

/-- In an execution in which both jobs keep running and stores are seen, the consumer's job comes to
its end if the queue can hold any message, whatever was on the queue before. -/
theorem receive_quits (hok : queue.isOk) (hmin : 1 ≤ source.minChunkSize_)
    (hfits : min source.maxChunkSize_.toNat source.srcData_.length + 8 ≤ queue.capacity.toNat)
    (hi : DeliveryBehind queue.toBaseTxQueue source verification base (x.state 0))
    (hat : (x.state 0).At queue.toBaseTxQueue source) (hruns : KeepsRunning x)
    (hsees : SeesStores x) : ∃ m, (x.state m).state.receive.control = .quit := by
  obtain ⟨n, hs⟩ := exists_settledFrom hmin hsees hi hat
  have hindices := (hs.delivery n le_rfl).queue.indices
  obtain ⟨hheads, htails, -⟩ := (x.state n).log.history.behind_positions base
  have hcapacity : queue.capacity.toNat = queue.capacity_.toNat - 1 :=
    sub_one_toNat queue.isPowTwo.pos
  have horder : (x.state n).log.history.head ≤ (x.state n).log.history.tail := by
    have hwhole : ((x.state n).log.history.behind base base).head ≤
      ((x.state n).log.history.behind base base).tail := hindices.head_le_tail
    omega
  rcases horder.eq_or_lt with hempty | hlt
  · -- the producer can go on to its end, and signals it with a frame
    obtain ⟨m, hle, hquit⟩ := hs.transmit_quits hok hruns (by omega)
    by_contra hnever
    have hnot : ∀ k, (x.state k).state.receive.control ≠ .quit :=
      fun k hk => hnever ⟨k, hk⟩
    obtain ⟨k, hk, _, hevent, published, rfl⟩ :=
      often_closeRead (n := n) hruns (fun k _ => hnot k) m
    have hloop : (x.state (k + 1)).state.receive.control = .loop :=
      ((x.step hevent).1.of_receive.1.control_of_close).resolve_right (hnot _)
    have hlt := (hs.delivery (k + 1) (by omega)).head_lt_tail_of_quit
      (transmit_quit_of_le hquit (by omega)) hloop
    rw [History.head, History.tail, hs.consumed _ (by omega), hs.written _ (by omega)] at hlt
    exact absurd hempty hlt.ne
  · obtain ⟨m, -, hquit⟩ := hs.receive_quits hok hruns hlt
    exact ⟨m, hquit⟩

end Settled

end TxQueue
