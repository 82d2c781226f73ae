import TxQueue.Jobs.Returning

/-!
# The turns of a job

Wherever a job is, it has come to its end or can take a step, and each step closes a transaction or
brings the job closer to closing one. A job whose availability checks see the last store can have
one fail only if the ring is really too full for the message, or really holds too few bytes.
-/

namespace TxQueue

open Library

variable {σ : Type*}

/-! ## Every pass comes to its end -/

/-- The number of steps that a call of `imp_write` can still take. -/
def Producer.stepsLeft : Producer → ℕ
  | .live _ => 3
  | .copying _ _ _ rest => rest.length
  | _ => 0

/-- The number of steps that a call of `imp_read` can still take. -/
def Consumer.stepsLeft : Consumer → ℕ
  | .live _ => 3
  | .copying _ _ _ rest => rest.length
  | _ => 0

/-- The number of control points up to the end of a pass. -/
def TransmitControl.pointsLeft : TransmitControl → ℕ
  | .loop => 7
  | .opened => 6
  | .writeSize _ => 5
  | .writeData _ => 4
  | .check _ => 3
  | .account _ => 2
  | .close => 1
  | .signal => 4
  | .signalOpened => 3
  | .writeZero => 2
  | .closeSignal _ => 1
  | .quit => 0

/-- The number of control points up to the end of a pass. -/
def ReceiveControl.pointsLeft : ReceiveControl → ℕ
  | .loop => 7
  | .opened => 6
  | .readSize => 5
  | .readData _ => 4
  | .check _ => 3
  | .account _ => 2
  | .close => 1
  | .closeQuit => 1
  | .quit => 0

/-- A bound for the steps of the producer's job up to the end of its pass. -/
def Transmitter.rank (t : Transmitter σ) (side : Producer) : ℕ :=
  4 * t.control.pointsLeft + side.stepsLeft

/-- A bound for the steps of the consumer's job up to the end of its pass. -/
def Receiver.rank (r : Receiver σ) (side : Consumer) : ℕ :=
  4 * r.control.pointsLeft + side.stepsLeft

section Rank

variable {source : TransmitBuffer} {verification : Verification σ} {vis : Visibility}
  {s s' : System} {t t' : Transmitter σ} {r r' : Receiver σ} {a : Action}

theorem Transmitter.pointsLeft_afterWrite {data : List UInt8} (ok : Bool)
    (hwrites : t.writes source = some data) :
    (t.control.afterWrite ok).pointsLeft + 1 = t.control.pointsLeft := by
  obtain ⟨control, job⟩ := t
  cases control with
  | writeSize | writeData | writeZero => rfl
  | _ => cases hwrites

/-- A step of the producer's job closes a transaction or lowers the rank. -/
theorem TransmitStep.rank_lt (hjob : TransmitStep source verification t a t')
    (hacts : s.ProducerActs vis a s') :
    (∃ published, a = .call (.closeWrite published)) ∨
      t'.rank s'.producer < t.rank s.producer := by
  cases hjob with
  | close | closeSignal => exact .inl ⟨_, rfl⟩
  | openChunk | openSignal =>
      right
      cases hacts with
      | openWrite k hle hlt hside =>
          simp [Transmitter.rank, hside, Producer.stepsLeft, TransmitControl.pointsLeft]
  | enter | skip | checked | failed | enterSignal | skipSignal =>
      obtain ⟨-, rfl⟩ := hacts
      simp [Transmitter.rank, TransmitControl.pointsLeft]
  | account | leave =>
      obtain rfl := hacts
      simp [Transmitter.rank, TransmitControl.pointsLeft]
  | beginWrite hwrites =>
      right
      cases hacts with
      | beginWrite buffer size k hle hlt hside hreserve =>
          rw [Transmitter.rank, Transmitter.rank, hside]
          exact Nat.add_lt_add_left (Nat.lt_succ_of_le (copies_busy _ _ _).2) _
  | copyIn hwrites =>
      right
      cases hacts with
      | copyIn hside => simp [Transmitter.rank, hside, Producer.stepsLeft]
  | wrote hwrites =>
      right
      have hpoints := Transmitter.pointsLeft_afterWrite true hwrites
      cases hacts with
      | wrote hside =>
          simp only [Transmitter.rank, hside, Producer.stepsLeft, List.length_singleton]
          omega
  | refuseWrite hwrites =>
      right
      have hpoints := Transmitter.pointsLeft_afterWrite false hwrites
      cases hacts with
      | refuseWrite buffer size k core hle hlt hside hreserve =>
          simp only [Transmitter.rank, hside, Producer.stepsLeft]
          omega

/-- A step of the consumer's job closes a transaction or lowers the rank. -/
theorem ReceiveStep.rank_lt (hjob : ReceiveStep verification r a r')
    (hacts : s.ConsumerActs vis a s') :
    (∃ published, a = .call (.closeRead published)) ∨ r'.rank s'.consumer < r.rank s.consumer := by
  cases hjob with
  | close | closeQuit => exact .inl ⟨_, rfl⟩
  | openRead =>
      right
      cases hacts with
      | openRead k hle hlt hside =>
          simp [Receiver.rank, hside, Consumer.stepsLeft, ReceiveControl.pointsLeft]
  | enter | skip | failed | finished | checked =>
      obtain ⟨-, rfl⟩ := hacts
      simp [Receiver.rank, ReceiveControl.pointsLeft]
  | account =>
      obtain rfl := hacts
      simp [Receiver.rank, ReceiveControl.pointsLeft]
  | beginRead hreads =>
      right
      cases hacts with
      | beginRead buffer size k hle hlt hside hreserve =>
          rw [Receiver.rank, Receiver.rank, hside]
          exact Nat.add_lt_add_left (Nat.lt_succ_of_le (copies_busy _ _ _).2) _
  | copyOut hreads =>
      right
      cases hacts with
      | copyOut hside hsees => simp [Receiver.rank, hside, Consumer.stepsLeft]
  | readSize hlen | readData hlen =>
      right
      cases hacts with
      | read hside hsees =>
          simp [Receiver.rank, hside, Consumer.stepsLeft, ReceiveControl.pointsLeft]
  | refuseSize | refuseData =>
      right
      cases hacts with
      | refuseRead size k core hle hlt hside hreserve =>
          simp [Receiver.rank, hside, Consumer.stepsLeft, ReceiveControl.pointsLeft]

/-- What the producer's job does leaves the consumer's side alone. -/
theorem TransmitStep.consumer_eq (hjob : TransmitStep source verification t a t')
    (hacts : s.ProducerActs vis a s') : s'.consumer = s.consumer := by
  cases a with
  | call e => exact Step.consumer_eq hacts hjob.ofProducer
  | test valid => rw [hacts.2]
  | account data | leave => rw [show s' = s from hacts]

/-- What the consumer's job does leaves the producer's side alone. -/
theorem ReceiveStep.producer_eq (hjob : ReceiveStep verification r a r')
    (hacts : s.ConsumerActs vis a s') : s'.producer = s.producer := by
  cases a with
  | call e => exact Step.producer_eq hacts hjob.ofProducer
  | test valid => rw [hacts.2]
  | account data | leave => rw [show s' = s from hacts]

end Rank

/-! ## A job that has not come to its end can go on -/

/-- A failed availability check has loaded the index that was stored last. -/
def System.SeesLast (s : System) (e : Event) (s' : System) : Prop :=
  match e with
  | .refuseWrite _ => s.producer.isValid → UpToDate s'.up
  | .refuseRead _ => s.consumer.isValid → UpToDate s'.down
  | _ => True

section Next

variable {queue : BaseTxQueue} {s : System}

/-- A call of `imp_write` can go on, wherever it is. -/
theorem Producer.IsOpen.next {data : List UInt8} (vis : Visibility) (hfits : FitsWord data)
    (h : s.producer.IsOpen queue (some data)) :
    ∃ e s', Step vis s e s' ∧ s.SeesLast e s' ∧
      (e = .beginWrite data ∨ e = .copyIn ∨ e = .wrote data ∨ e = .refuseWrite data) := by
  have hdata := bytes_getD hfits
  cases hside : s.producer with
  | live tx =>
      have hlt := s.up.last_lt
      have hle : s.up.observed ≤ s.up.last := Nat.le_sub_one_of_lt s.up.observed_lt
      cases hreserve : tx.reserve (UInt64.ofNat data.length) s.up.releases[s.up.last].value with
      | ok tx' =>
          refine ⟨_, _, .beginWrite (data.getD · 0) _ _ hle hlt hside hreserve, trivial, ?_⟩
          rw [hdata]
          exact .inl rfl
      | error tx' =>
          refine ⟨_, _, .refuseWrite (data.getD · 0) _ _ 0 hle hlt hside hreserve, ?_, ?_⟩
          · intro hvalid
            have hinv : tx.invalidated_ = false := by
              simpa [hside, Producer.isValid, TxWrite.toBool] using hvalid
            have hload := ((TxWrite.reserve_eq_error hreserve).2.1 hinv).1
            exact if_pos hload
          · rw [hdata]
            exact .inr (.inr (.inr rfl))
  | copying tx buffer size rest =>
      rw [hside] at h
      obtain ⟨-, hne, hcall⟩ := h
      obtain rfl := Option.some.inj hcall
      cases rest with
      | nil => exact absurd rfl hne
      | cons c rest =>
          cases rest with
          | nil => exact ⟨_, _, .wrote hside, trivial, .inr (.inr (.inl rfl))⟩
          | cons c' rest => exact ⟨_, _, .copyIn hside, trivial, .inr (.inl rfl)⟩
  | _ =>
      rw [hside] at h
      exact h.elim

/-- A call of `imp_read` can go on, wherever it is. -/
theorem Consumer.IsOpen.next {size : UInt64} (vis : Visibility)
    (h : s.consumer.IsOpen queue (some size)) :
    ∃ e s', Step vis s e s' ∧ s.SeesLast e s' ∧
      (e = .beginRead size ∨ e = .copyOut ∨ e = .refuseRead size ∨
        ∃ data, e = .read data ∧ data.length = size.toNat) := by
  cases hside : s.consumer with
  | live tx =>
      have hlt := s.down.last_lt
      have hle : s.down.observed ≤ s.down.last := Nat.le_sub_one_of_lt s.down.observed_lt
      cases hreserve : tx.reserve size s.down.releases[s.down.last].value with
      | ok tx' =>
          exact ⟨_, _, .beginRead (fun _ => 0) _ _ hle hlt hside hreserve, trivial, .inl rfl⟩
      | error tx' =>
          refine ⟨_, _, .refuseRead _ _ 0 hle hlt hside hreserve, ?_, .inr (.inr (.inl rfl))⟩
          intro hvalid
          have hinv : tx.invalidated_ = false := by
            simpa [hside, Consumer.isValid, TxRead.toBool] using hvalid
          have hload := ((TxRead.reserve_eq_error hreserve).2.1 hinv).1
          exact if_pos hload
  | copying tx buffer size' rest =>
      have hsees := Channel.sees_image s.base s.down vis
      rw [hside] at h
      obtain ⟨-, hne, hcall⟩ := h
      obtain rfl := Option.some.inj hcall
      cases rest with
      | nil => exact absurd rfl hne
      | cons c rest =>
          cases rest with
          | nil =>
              exact ⟨_, _, .read hside hsees, trivial,
                .inr (.inr (.inr ⟨_, rfl, length_bytes _ _⟩))⟩
          | cons c' rest => exact ⟨_, _, .copyOut hside hsees, trivial, .inr (.inl rfl)⟩
  | _ =>
      rw [hside] at h
      exact h.elim

/-- What an action of the producer's job does sees the last store. -/
def Action.SeesLast (s : System) (a : Action) (s' : System) : Prop :=
  match a with
  | .call e => s.SeesLast e s'
  | _ => True

variable {source : TransmitBuffer}

/-- Wherever the producer's job is, it has come to its end or can take a step. -/
theorem Transmitter.At.next {t : Transmitter σ} (verification : Verification σ) (vis : Visibility)
    (hle : source.minChunkSize_ ≤ source.maxChunkSize_) (h : t.At queue source s.producer) :
    t.control = .quit ∨ ∃ a t' s', TransmitStep source verification t a t' ∧
      s.ProducerActs vis a s' ∧ a.SeesLast s s' := by
  obtain ⟨control, job⟩ := t
  have hopen : s.producer = .idle queue → ∃ s', Step vis s .openWrite s' := by
    intro hside
    exact ⟨_, .openWrite _ le_rfl s.up.observed_lt hside⟩
  have hcall : ∀ data, FitsWord data → (⟨control, job⟩ : Transmitter σ).writes source = some data →
      s.producer.IsOpen queue (some data) → ∃ a t' s',
        TransmitStep source verification ⟨control, job⟩ a t' ∧ s.ProducerActs vis a s' ∧
          a.SeesLast s s' := by
    intro data hfits hwrites hside
    obtain ⟨e, s', hstep, hsees, rfl | rfl | rfl | rfl⟩ := hside.next vis hfits
    · exact ⟨.call _, _, s', .beginWrite hwrites, hstep, hsees⟩
    · exact ⟨.call _, _, s', .copyIn hwrites, hstep, hsees⟩
    · exact ⟨.call _, _, s', .wrote hwrites, hstep, hsees⟩
    · exact ⟨.call _, _, s', .refuseWrite hwrites, hstep, hsees⟩
  cases control with
  | quit => exact .inl rfl
  | loop =>
      right
      by_cases hmore : job.totalData_ < source.srcDataSize_
      · obtain ⟨s', hstep⟩ := hopen h
        exact ⟨.call _, _, s', .openChunk hmore, hstep, trivial⟩
      · exact ⟨.leave, _, s, .leave (UInt64.not_lt.1 hmore), rfl, trivial⟩
  | signal =>
      obtain ⟨s', hstep⟩ := hopen h
      exact .inr ⟨.call _, _, s', .openSignal, hstep, trivial⟩
  | opened =>
      obtain ⟨tx, hside, -⟩ := h.live
      cases hvalid : tx.toBool with
      | true =>
          exact .inr ⟨.test true, _, s, .enter (UInt64.le_refl _) hle, ⟨⟨tx, hside, hvalid⟩, rfl⟩,
            trivial⟩
      | false => exact .inr ⟨.test false, _, s, .skip, ⟨⟨tx, hside, hvalid⟩, rfl⟩, trivial⟩
  | signalOpened =>
      obtain ⟨tx, hside, -⟩ := h.live
      cases hvalid : tx.toBool with
      | true => exact .inr ⟨.test true, _, s, .enterSignal, ⟨⟨tx, hside, hvalid⟩, rfl⟩, trivial⟩
      | false => exact .inr ⟨.test false, _, s, .skipSignal, ⟨⟨tx, hside, hvalid⟩, rfl⟩, trivial⟩
  | check chunkSize =>
      obtain ⟨tx, hside, -⟩ := h.live
      cases hvalid : tx.toBool with
      | true => exact .inr ⟨.test true, _, s, .checked, ⟨⟨tx, hside, hvalid⟩, rfl⟩, trivial⟩
      | false => exact .inr ⟨.test false, _, s, .failed, ⟨⟨tx, hside, hvalid⟩, rfl⟩, trivial⟩
  | account chunkSize => exact .inr ⟨.account _, _, s, .account, rfl, trivial⟩
  | close =>
      obtain ⟨tx, hside, -⟩ := h.live
      exact .inr ⟨.call _, _, _, .close, .closeWrite hside, trivial⟩
  | closeSignal wrote =>
      obtain ⟨tx, hside, -⟩ := h.live
      exact .inr ⟨.call _, _, _, .closeSignal, .closeWrite hside, trivial⟩
  | writeSize chunkSize => exact .inr (hcall _ (fitsWord_le64 chunkSize) rfl h)
  | writeData chunkSize =>
      exact .inr (hcall _ ((List.length_take_le _ _).trans_lt chunkSize.toNat_lt) rfl h)
  | writeZero => exact .inr (hcall _ (fitsWord_le64 0) rfl h)

/-- Wherever the consumer's job is, it has come to its end or can take a step. -/
theorem Receiver.At.next {r : Receiver σ} (verification : Verification σ) (vis : Visibility)
    (h : r.At queue s.consumer) :
    r.control = .quit ∨ ∃ a r' s', ReceiveStep verification r a r' ∧
      s.ConsumerActs vis a s' ∧ a.SeesLast s s' := by
  obtain ⟨control, job, buffer⟩ := r
  cases control with
  | quit => exact .inl rfl
  | loop =>
      exact .inr ⟨.call _, _, _, .openRead, .openRead _ le_rfl s.down.observed_lt h, trivial⟩
  | opened =>
      obtain ⟨tx, hside, -⟩ := h.live
      cases hvalid : tx.toBool with
      | true => exact .inr ⟨.test true, _, s, .enter, ⟨⟨tx, hside, hvalid⟩, rfl⟩, trivial⟩
      | false => exact .inr ⟨.test false, _, s, .skip, ⟨⟨tx, hside, hvalid⟩, rfl⟩, trivial⟩
  | readSize =>
      obtain ⟨e, s', hstep, hsees, rfl | rfl | rfl | ⟨data, rfl, hlen⟩⟩ :=
        Consumer.IsOpen.next vis h
      · exact .inr ⟨.call _, _, s', .beginRead rfl, hstep, hsees⟩
      · exact .inr ⟨.call _, _, s', .copyOut rfl, hstep, hsees⟩
      · exact .inr ⟨.call _, _, s', .refuseSize, hstep, hsees⟩
      · exact .inr ⟨.call _, _, s', .readSize hlen, hstep, hsees⟩
  | readData chunkSize =>
      obtain ⟨e, s', hstep, hsees, rfl | rfl | rfl | ⟨data, rfl, hlen⟩⟩ :=
        Consumer.IsOpen.next vis h
      · exact .inr ⟨.call _, _, s', .beginRead rfl, hstep, hsees⟩
      · exact .inr ⟨.call _, _, s', .copyOut rfl, hstep, hsees⟩
      · exact .inr ⟨.call _, _, s', .refuseData, hstep, hsees⟩
      · exact .inr ⟨.call _, _, s', .readData hlen, hstep, hsees⟩
  | check chunkSize =>
      obtain ⟨tx, hside, -⟩ := h.live
      cases hvalid : tx.toBool with
      | true =>
          by_cases hzero : chunkSize = 0
          · subst hzero
            exact .inr ⟨.test true, _, s, .finished, ⟨⟨tx, hside, hvalid⟩, rfl⟩, trivial⟩
          · exact .inr ⟨.test true, _, s, .checked hzero, ⟨⟨tx, hside, hvalid⟩, rfl⟩, trivial⟩
      | false => exact .inr ⟨.test false, _, s, .failed, ⟨⟨tx, hside, hvalid⟩, rfl⟩, trivial⟩
  | account chunkSize => exact .inr ⟨.account _, _, s, .account, rfl, trivial⟩
  | close =>
      obtain ⟨tx, hside, -⟩ := h.live
      exact .inr ⟨.call _, _, _, .close, .closeRead hside, trivial⟩
  | closeQuit =>
      obtain ⟨tx, hside, -⟩ := h.live
      exact .inr ⟨.call _, _, _, .closeQuit, .closeRead hside, trivial⟩

end Next

/-! ## Why a check fails -/

section Refused

variable {cap : UInt64} {vis : Visibility} {s s' : System} {h : History}

/-- The place of the last store to an index is the number of committed transactions. -/
theorem Tracks.last_eq {α : Type*} {c : Channel α UInt64} {txs : List (List UInt8)}
    (h : Tracks cap c.releases txs) : c.last = txs.length := by
  simp [Channel.last, h.length]

/-- If a check of `imp_write` fails that has loaded the last head, the bytes do not fit. -/
theorem Indices.full_of_refuseWrite {data : List UInt8} (hcap : IsPowTwo cap)
    (hi : Indices cap ⟨s, h⟩) (hstep : Step vis s (.refuseWrite data) s')
    (hvalid : s.producer.isValid = true) (hsees : UpToDate s'.up) :
    h.head + (cap.toNat - 1) < h.localTail + data.length := by
  have hspace := hi.space
  have hproducer := hi.producer
  have horder : h.head ≤ h.tail := hi.head_le_tail
  have hlocal : h.localTail = h.tail + h.writing.length := rfl
  have hseen : World.seenHead ⟨s, h⟩ ≤ h.head := Indices.seenHead_le ⟨s, h⟩
  cases hstep with
  | @refuseWrite tx tx' buffer size k core hle hlt hside hreserve =>
      simp only [hside, Producer.pending, Producer.Placed] at hspace hproducer
      have hinv : tx.invalidated_ = false := by
        simpa [hside, Producer.isValid, TxWrite.toBool] using hvalid
      obtain ⟨hload, hshort⟩ := (TxWrite.reserve_eq_error hreserve).2.1 hinv
      have hat := hproducer.reserve_error (hi.heads.value k hlt) hreserve
      have hlast : k = h.consumed.length := by
        have hsame : k = s.up.last := by simpa [UpToDate, hload, Channel.last] using hsees
        exact hsame.trans hi.heads.last_eq
      have hpos : boundary h.consumed k = h.head := hlast ▸ boundary_length
      rw [hload, if_pos rfl, hpos] at hat
      rw [UInt64.lt_iff_toNat_lt, hat.space_toNat hcap (by omega) (by omega)] at hshort
      simp only [length_bytes]
      omega

/-- If a check of `imp_read` fails that has loaded no older a tail than some store, then up to that
store the bytes are not there. -/
theorem Indices.short_of_seen {size : UInt64} {n : ℕ} (hcap : IsPowTwo cap) (hi : Indices cap ⟨s, h⟩)
    (hstep : Step vis s (.refuseRead size) s') (hvalid : s.consumer.isValid = true)
    (hsees : n ≤ s'.down.observed) : boundary h.written n < h.localHead + size.toNat := by
  have hdata := hi.data
  have hconsumer := hi.consumer
  have hlap : h.tail ≤ h.head + (cap.toNat - 1) := hi.tail_le
  have hlocal : h.localHead = h.head + h.reading.length := rfl
  cases hstep with
  | @refuseRead tx tx' size k core hle hlt hside hreserve =>
      simp only [hside, Consumer.pending, Consumer.Placed] at hdata hconsumer
      have hinv : tx.invalidated_ = false := by
        simpa [hside, Consumer.isValid, TxRead.toBool] using hvalid
      obtain ⟨hload, hshort⟩ := (TxRead.reserve_eq_error hreserve).2.1 hinv
      have hat := hconsumer.reserve_error (hi.tails.value k hlt) hreserve
      have hseen : n ≤ k := by simpa [hload] using hsees
      have hmono := boundary_mono h.written hseen
      have hold : World.seenTail ⟨s, h⟩ ≤ boundary h.written k := boundary_mono h.written hle
      have hlast : boundary h.written k ≤ h.tail := boundary_le h.written k
      rw [hload, if_pos rfl] at hat
      change tx'.At cap h.localHead (boundary h.written k) at hat
      rw [UInt64.lt_iff_toNat_lt, hat.data_toNat hcap (by omega) (by omega)] at hshort
      omega

/-- If a check of `imp_read` fails that has loaded the last tail, the bytes are not there. -/
theorem Indices.short_of_refuseRead {size : UInt64} (hcap : IsPowTwo cap)
    (hi : Indices cap ⟨s, h⟩) (hstep : Step vis s (.refuseRead size) s')
    (hvalid : s.consumer.isValid = true) (hsees : UpToDate s'.down) :
    h.tail < h.localHead + size.toNat := by
  have hlast : s'.down.last = s.down.last := by
    cases hstep with
    | refuseRead k core hle hlt hside hreserve => simp [Channel.last]
  have hobserved : h.written.length ≤ s'.down.observed := by
    rw [hsees, hlast, hi.tails.last_eq]
  have hshort := hi.short_of_seen hcap hstep hvalid hobserved
  rwa [boundary_length] at hshort

end Refused

end TxQueue
