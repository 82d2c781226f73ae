import TxQueue.Concurrent.WaitFree
import TxQueue.Jobs.EndToEnd

/-!
# Every job comes back to rest

The side of the queue on which a job works is where the job's control point says: without a
transaction between two of them, with a live one elsewhere, and inside `imp_write` or `imp_read`
with the arguments of the call that the job is making. So from any reachable state a job can end its
transaction by its own steps, whatever the other job is doing.
-/

namespace TxQueue

open Library

variable {σ : Type*} {queue : BaseTxQueue} {vis : Visibility} {s s' : System}

/-! ## Inside a transaction of the producer -/

/-- The producer has an open transaction on the queue, in no call or in a call of `imp_write` with
the bytes `call`. -/
def Producer.IsOpen (queue : BaseTxQueue) (call : Option (List UInt8)) : Producer → Prop
  | .live tx => tx.queue_ = queue
  | .copying tx buffer size rest =>
      tx.queue_ = queue ∧ rest ≠ [] ∧ call = some (bytes buffer size)
  | _ => False

namespace Producer.IsOpen

variable {call call' : Option (List UInt8)} {data : List UInt8} {published : Bool}

/-- Without a call the transaction is live. -/
theorem live {side : Producer} (h : side.IsOpen queue none) :
    ∃ tx, side = .live tx ∧ tx.queue_ = queue := by
  cases side with
  | live tx => exact ⟨tx, rfl, h⟩
  | copying => cases h.2.2
  | _ => exact h.elim

/-- A live transaction is open before any call. -/
theorem of_live {side : Producer} (h : side.IsOpen queue none) : side.IsOpen queue call := by
  obtain ⟨tx, rfl, hqueue⟩ := h.live
  exact hqueue

theorem of_openWrite (hside : s.producer = .idle queue) (hstep : Step vis s .openWrite s') :
    s'.producer.IsOpen queue call := by
  cases hstep with
  | openWrite k hle hlt hidle =>
      obtain rfl := Producer.idle.inj (hside.symm.trans hidle)
      rfl

theorem beginWrite (h : s.producer.IsOpen queue call) (hstep : Step vis s (.beginWrite data) s') :
    s'.producer.IsOpen queue (some data) := by
  cases hstep with
  | beginWrite buffer size k hle hlt hside hreserve =>
      obtain ⟨-, -, rfl⟩ := TxWrite.reserve_eq_ok hreserve
      rw [hside] at h
      exact ⟨h, (copies_busy _ _ _).1, rfl⟩

theorem copyIn (h : s.producer.IsOpen queue call) (hstep : Step vis s .copyIn s') :
    s'.producer.IsOpen queue call := by
  cases hstep with
  | copyIn hside =>
      rw [hside] at h
      exact ⟨h.1, List.cons_ne_nil _ _, h.2.2⟩

theorem wrote (h : s.producer.IsOpen queue call) (hstep : Step vis s (.wrote data) s') :
    s'.producer.IsOpen queue call' := by
  cases hstep with
  | wrote hside =>
      rw [hside] at h
      exact h.1

theorem refuseWrite (h : s.producer.IsOpen queue call)
    (hstep : Step vis s (.refuseWrite data) s') : s'.producer.IsOpen queue call' := by
  cases hstep with
  | refuseWrite buffer size k core hle hlt hside hreserve =>
      obtain ⟨-, -, rfl⟩ := TxWrite.reserve_eq_error hreserve
      rw [hside] at h
      exact h

theorem closeWrite (h : s.producer.IsOpen queue call)
    (hstep : Step vis s (.closeWrite published) s') : s'.producer = .idle queue := by
  cases hstep with
  | closeWrite hside =>
      rw [hside] at h
      exact congrArg Producer.idle h

variable (queue vis) in
/-- The copies that a call of `imp_write` has still to make can be made. -/
theorem leads_copies {tx : TxWrite} {buffer : ℕ → UInt8} {size : UInt64} {rest : List Memcpy}
    (hside : s.producer = .copying tx buffer size rest) (hne : rest ≠ []) :
    ∃ s₁ s', (txQueueLts queue vis).Leads
        (fun e => e = .beginWrite (bytes buffer size) ∨ e = .copyIn) s s₁ ∧
      Step vis s₁ (.wrote (bytes buffer size)) s' := by
  induction rest generalizing s with
  | nil => exact absurd rfl hne
  | cons c rest ih =>
      cases rest with
      | nil => exact ⟨s, _, .refl _ _ _, .wrote hside⟩
      | cons c' rest =>
          have hcopy : Step vis s .copyIn _ := .copyIn hside
          obtain ⟨s₁, s', hleads, hlast⟩ := ih (s := { s with
            down := s.down.send (c.stores buffer)
            producer := .copying tx buffer size (c' :: rest) }) rfl (List.cons_ne_nil _ _)
          exact ⟨s₁, s', (Lts.Leads.single hcopy (.inr rfl)).trans hleads, hlast⟩

variable (vis) in
/-- A call of `imp_write` can return, wherever it is. -/
theorem returns (hfits : FitsWord data) (h : s.producer.IsOpen queue (some data)) :
    ∃ s₁ s', ∃ ok : Bool,
      (txQueueLts queue vis).Leads (fun e => e = .beginWrite data ∨ e = .copyIn) s s₁ ∧
      Step vis s₁ (if ok then .wrote data else .refuseWrite data) s' := by
  have hdata := bytes_getD hfits
  cases hside : s.producer with
  | live tx =>
      have hlt := s.up.observed_lt
      cases hreserve : tx.reserve (UInt64.ofNat data.length)
          s.up.releases[s.up.observed].value with
      | ok tx' =>
          have hbegin : ∃ s₁, Step vis s (.beginWrite (bytes (data.getD · 0) _)) s₁ ∧
              s₁.producer = .copying tx' (data.getD · 0) (UInt64.ofNat data.length)
                (copies tx'.tail_ tx'.capacity_ (UInt64.ofNat data.length)) :=
            ⟨_, .beginWrite _ _ _ le_rfl hlt hside hreserve, rfl⟩
          rw [hdata] at hbegin
          obtain ⟨s₀, hbegin, hcopying⟩ := hbegin
          obtain ⟨s₁, s', hleads, hlast⟩ := leads_copies queue vis hcopying (copies_busy _ _ _).1
          rw [hdata] at hleads hlast
          exact ⟨s₁, s', true, (Lts.Leads.single hbegin (.inl rfl)).trans hleads, hlast⟩
      | error tx' =>
          have hrefuse : ∃ s₁, Step vis s (.refuseWrite (bytes (data.getD · 0) _)) s₁ :=
            ⟨_, .refuseWrite _ _ _ 0 le_rfl hlt hside hreserve⟩
          rw [hdata] at hrefuse
          obtain ⟨s', hrefuse⟩ := hrefuse
          exact ⟨s, s', false, .refl _ _ _, hrefuse⟩
  | copying tx buffer size rest =>
      rw [hside] at h
      obtain ⟨-, hne, hcall⟩ := h
      obtain rfl := Option.some.inj hcall
      obtain ⟨s₁, s', hleads, hlast⟩ := leads_copies queue vis hside hne
      exact ⟨s₁, s', true, hleads, hlast⟩
  | _ =>
      rw [hside] at h
      exact h.elim

end Producer.IsOpen

/-! ## Inside a transaction of the consumer -/

/-- The consumer has an open transaction on the queue, in no call or in a call of `imp_read` with
the size `call`. -/
def Consumer.IsOpen (queue : BaseTxQueue) (call : Option UInt64) : Consumer → Prop
  | .live tx => tx.queue_ = queue
  | .copying tx _ size rest => tx.queue_ = queue ∧ rest ≠ [] ∧ call = some size
  | _ => False

namespace Consumer.IsOpen

variable {call call' : Option UInt64} {size : UInt64} {data : List UInt8} {published : Bool}

/-- Without a call the transaction is live. -/
theorem live {side : Consumer} (h : side.IsOpen queue none) :
    ∃ tx, side = .live tx ∧ tx.queue_ = queue := by
  cases side with
  | live tx => exact ⟨tx, rfl, h⟩
  | copying => cases h.2.2
  | _ => exact h.elim

/-- A live transaction is open before any call. -/
theorem of_live {side : Consumer} (h : side.IsOpen queue none) : side.IsOpen queue call := by
  obtain ⟨tx, rfl, hqueue⟩ := h.live
  exact hqueue

theorem of_openRead (hside : s.consumer = .idle queue) (hstep : Step vis s .openRead s') :
    s'.consumer.IsOpen queue call := by
  cases hstep with
  | openRead k hle hlt hidle =>
      obtain rfl := Consumer.idle.inj (hside.symm.trans hidle)
      rfl

theorem beginRead (h : s.consumer.IsOpen queue call) (hstep : Step vis s (.beginRead size) s') :
    s'.consumer.IsOpen queue (some size) := by
  cases hstep with
  | beginRead buffer size k hle hlt hside hreserve =>
      obtain ⟨-, -, rfl⟩ := TxRead.reserve_eq_ok hreserve
      rw [hside] at h
      exact ⟨h, (copies_busy _ _ _).1, rfl⟩

theorem copyOut (h : s.consumer.IsOpen queue call) (hstep : Step vis s .copyOut s') :
    s'.consumer.IsOpen queue call := by
  cases hstep with
  | copyOut hside hsees =>
      rw [hside] at h
      exact ⟨h.1, List.cons_ne_nil _ _, h.2.2⟩

theorem read (h : s.consumer.IsOpen queue call) (hstep : Step vis s (.read data) s') :
    s'.consumer.IsOpen queue call' := by
  cases hstep with
  | read hside hsees =>
      rw [hside] at h
      exact h.1

theorem refuseRead (h : s.consumer.IsOpen queue call) (hstep : Step vis s (.refuseRead size) s') :
    s'.consumer.IsOpen queue call' := by
  cases hstep with
  | refuseRead size k core hle hlt hside hreserve =>
      obtain ⟨-, -, rfl⟩ := TxRead.reserve_eq_error hreserve
      rw [hside] at h
      exact h

theorem closeRead (h : s.consumer.IsOpen queue call)
    (hstep : Step vis s (.closeRead published) s') : s'.consumer = .idle queue := by
  cases hstep with
  | closeRead hside =>
      rw [hside] at h
      exact congrArg Consumer.idle h

variable (queue vis) in
/-- The copies that a call of `imp_read` has still to make can be made. -/
theorem leads_copies {tx : TxRead} {buffer : ℕ → UInt8} {rest : List Memcpy}
    (hside : s.consumer = .copying tx buffer size rest) (hne : rest ≠ []) :
    ∃ s₁ s' data, (txQueueLts queue vis).Leads (fun e => e = .beginRead size ∨ e = .copyOut) s s₁ ∧
      Step vis s₁ (.read data) s' ∧ data.length = size.toNat := by
  have hsees := Channel.sees_image s.base s.down vis
  induction rest generalizing s buffer with
  | nil => exact absurd rfl hne
  | cons c rest ih =>
      cases rest with
      | nil => exact ⟨s, _, _, .refl _ _ _, .read hside hsees, length_bytes _ _⟩
      | cons c' rest =>
          have hcopy : ∃ s₁, Step vis s .copyOut s₁ ∧ s₁.consumer = .copying tx
              (c.copyOut (image s.base s.down.data) buffer) size (c' :: rest) :=
            ⟨_, .copyOut hside hsees, rfl⟩
          obtain ⟨s₀, hcopy, hcopying⟩ := hcopy
          obtain ⟨s₁, s', data, hleads, hlast⟩ := ih hcopying (List.cons_ne_nil _ _)
            (Channel.sees_image s₀.base s₀.down vis)
          exact ⟨s₁, s', data, (Lts.Leads.single hcopy (.inr rfl)).trans hleads, hlast⟩

variable (vis) in
/-- A call of `imp_read` can return, wherever it is. -/
theorem returns (h : s.consumer.IsOpen queue (some size)) :
    ∃ s₁, (txQueueLts queue vis).Leads (fun e => e = .beginRead size ∨ e = .copyOut) s s₁ ∧
      ((∃ s', Step vis s₁ (.refuseRead size) s') ∨
        ∃ s' data, Step vis s₁ (.read data) s' ∧ data.length = size.toNat) := by
  cases hside : s.consumer with
  | live tx =>
      have hlt := s.down.observed_lt
      cases hreserve : tx.reserve size s.down.releases[s.down.observed].value with
      | ok tx' =>
          have hbegin : ∃ s₁, Step vis s (.beginRead size) s₁ ∧ s₁.consumer =
              .copying tx' (fun _ => 0) size (copies tx'.head_ tx'.capacity_ size) :=
            ⟨_, .beginRead _ _ _ le_rfl hlt hside hreserve, rfl⟩
          obtain ⟨s₀, hbegin, hcopying⟩ := hbegin
          obtain ⟨s₁, s', data, hleads, hlast⟩ :=
            leads_copies queue vis hcopying (copies_busy _ _ _).1
          exact ⟨s₁, (Lts.Leads.single hbegin (.inl rfl)).trans hleads, .inr ⟨s', data, hlast⟩⟩
      | error tx' =>
          exact ⟨s, .refl _ _ _, .inl ⟨_, .refuseRead _ _ 0 le_rfl hlt hside hreserve⟩⟩
  | copying tx buffer size' rest =>
      rw [hside] at h
      obtain ⟨-, hne, hcall⟩ := h
      obtain rfl := Option.some.inj hcall
      obtain ⟨s₁, s', data, hleads, hlast⟩ := leads_copies queue vis hside hne
      exact ⟨s₁, hleads, .inr ⟨s', data, hlast⟩⟩
  | _ =>
      rw [hside] at h
      exact h.elim

end Consumer.IsOpen

/-! ## The producer's job -/

/-- The producer's side of the queue is where the control point of its job says. -/
def Transmitter.At (queue : BaseTxQueue) (source : TransmitBuffer) (t : Transmitter σ)
    (side : Producer) : Prop :=
  match t.control with
  | .loop => side = .idle queue
  | .signal => side = .idle queue
  | .quit => side = .idle queue
  | _ => side.IsOpen queue (t.writes source)

/-- The consumer's side of the queue is where the control point of its job says. -/
def Receiver.At (queue : BaseTxQueue) (r : Receiver σ) (side : Consumer) : Prop :=
  match r.control with
  | .loop => side = .idle queue
  | .quit => side = .idle queue
  | _ => side.IsOpen queue r.control.reads

section Steps

variable {source : TransmitBuffer} {verification : Verification σ} {t t' : Transmitter σ}
  {r r' : Receiver σ} {a : Action} {data : List UInt8} {size : UInt64}

/-- Inside a call of `imp_write` the transaction is open. -/
theorem Transmitter.at_iff_isOpen {side : Producer} (hwrites : t.writes source = some data) :
    t.At queue source side ↔ side.IsOpen queue (some data) := by
  obtain ⟨control, job⟩ := t
  cases control with
  | writeSize | writeData | writeZero => rw [← hwrites, At]
  | _ => cases hwrites

/-- Between two transactions there is none. -/
theorem Transmitter.At.idle {side : Producer} (h : t.At queue source side)
    (hbetween : t.control.IsBetween) : side = .idle queue := by
  obtain ⟨control, job⟩ := t
  cases control with
  | loop | signal | quit => exact h
  | _ => exact hbetween.elim

/-- A call of `imp_write` that returns leaves the transaction open. -/
theorem Transmitter.at_afterWrite (hwrites : t.writes source = some data)
    (h : ∀ call, s.producer.IsOpen queue call) (ok : Bool) :
    ({ t with control := t.control.afterWrite ok } : Transmitter σ).At queue source s.producer := by
  obtain ⟨control, job⟩ := t
  cases control with
  | writeSize | writeData | writeZero => exact h _
  | _ => cases hwrites

/-- Every step of the producer's job keeps its side where it says. -/
theorem Transmitter.At.step (h : t.At queue source s.producer)
    (hjob : TransmitStep source verification t a t') (hacts : s.ProducerActs vis a s') :
    t'.At queue source s'.producer := by
  cases hjob with
  | openChunk | openSignal => exact .of_openWrite h hacts
  | enter | skip | checked | failed | enterSignal | skipSignal =>
      obtain ⟨-, rfl⟩ := hacts
      exact h.of_live
  | beginWrite hwrites =>
      rw [at_iff_isOpen hwrites] at h ⊢
      exact h.beginWrite hacts
  | copyIn hwrites =>
      rw [at_iff_isOpen hwrites] at h ⊢
      exact h.copyIn hacts
  | wrote hwrites =>
      have hopen := (at_iff_isOpen hwrites).1 h
      exact at_afterWrite hwrites (fun _ => hopen.wrote hacts) true
  | refuseWrite hwrites =>
      have hopen := (at_iff_isOpen hwrites).1 h
      exact at_afterWrite hwrites (fun _ => hopen.refuseWrite hacts) false
  | account =>
      obtain rfl := hacts
      exact h
  | close => exact h.closeWrite hacts
  | leave =>
      obtain rfl := hacts
      exact h
  | @closeSignal job wrote published =>
      have hidle := h.closeWrite hacts
      cases wrote <;> exact hidle

/-- At the start of its loop there is no transaction. -/
theorem Receiver.At.idle {side : Consumer} (h : r.At queue side) (hloop : r.control = .loop) :
    side = .idle queue := by
  obtain ⟨control, job, buffer⟩ := r
  obtain rfl : control = .loop := hloop
  exact h

/-- Inside a call of `imp_read` the transaction is open. -/
theorem Receiver.at_iff_isOpen {side : Consumer} (hreads : r.control.reads = some size) :
    r.At queue side ↔ side.IsOpen queue (some size) := by
  obtain ⟨control, job, buffer⟩ := r
  cases control with
  | readSize | readData => rw [← hreads, At]
  | _ => cases hreads

/-- Every step of the consumer's job keeps its side where it says. -/
theorem Receiver.At.step (h : r.At queue s.consumer) (hjob : ReceiveStep verification r a r')
    (hacts : s.ConsumerActs vis a s') : r'.At queue s'.consumer := by
  cases hjob with
  | openRead => exact .of_openRead h hacts
  | enter | skip | failed | finished | checked =>
      obtain ⟨-, rfl⟩ := hacts
      exact h.of_live
  | beginRead hreads =>
      rw [at_iff_isOpen hreads] at h ⊢
      exact h.beginRead hacts
  | copyOut hreads =>
      rw [at_iff_isOpen hreads] at h ⊢
      exact h.copyOut hacts
  | readSize | readData => exact Consumer.IsOpen.read h hacts
  | refuseSize | refuseData => exact Consumer.IsOpen.refuseRead h hacts
  | account =>
      obtain rfl := hacts
      exact h
  | close | closeQuit => exact h.closeRead hacts

end Steps

/-! ## Ending a transaction -/

section Ends

variable {source : TransmitBuffer} {verification : Verification σ} {maxChunkSize : UInt64}
  {w w' : TransferWorld σ} {t : Transmitter σ} {r : Receiver σ} {log : TransferLog}
  {job : UtestJob σ} {buffer : List UInt8} {chunkSize : UInt64}

/-- The producer's job can come to a point between two transactions by its own steps. -/
def TransmitEnds (queue : BaseTxQueue) (source : TransmitBuffer) (verification : Verification σ)
    (maxChunkSize : UInt64) (vis : Visibility) (w : TransferWorld σ) : Prop :=
  ∃ w', (transferWorldLts queue source verification maxChunkSize vis).Leads
      TransferEvent.ofTransmit w w' ∧ w'.state.transmit.control.IsBetween

/-- The same for the consumer's job. -/
def ReceiveEnds (queue : BaseTxQueue) (source : TransmitBuffer) (verification : Verification σ)
    (maxChunkSize : UInt64) (vis : Visibility) (w : TransferWorld σ) : Prop :=
  ∃ w', (transferWorldLts queue source verification maxChunkSize vis).Leads
      TransferEvent.ofReceive w w' ∧
    (w'.state.receive.control = .loop ∨ w'.state.receive.control = .quit)

namespace TransmitEnds

theorem of_leads (h : (transferWorldLts queue source verification maxChunkSize vis).Leads
      TransferEvent.ofTransmit w w')
    (hends : TransmitEnds queue source verification maxChunkSize vis w') :
    TransmitEnds queue source verification maxChunkSize vis w := by
  obtain ⟨w'', hleads, hbetween⟩ := hends
  exact ⟨w'', h.trans hleads, hbetween⟩

/-- With a step of the job in front. -/
theorem of_step {a : Action} (hjob : TransmitStep source verification w.state.transmit a t)
    (hacts : w.state.system.ProducerActs vis a s)
    (hends : TransmitEnds queue source verification maxChunkSize vis
      ⟨⟨s, t, w.state.receive⟩, w.log.record (.transmit a)⟩) :
    TransmitEnds queue source verification maxChunkSize vis w :=
  of_leads ((Lts.Leads.refl _ _ w).andThen (.transmit hjob hacts) trivial) hends

/-- With a call of `imp_write` in front. -/
theorem of_returns {data : List UInt8} (hwrites : t.writes source = some data)
    (hfits : FitsWord data) (h : s.producer.IsOpen queue (some data))
    (hends : ∀ ok s' log', s'.producer.IsOpen queue none →
      TransmitEnds queue source verification maxChunkSize vis
        ⟨⟨s', { t with control := t.control.afterWrite ok }, r⟩, log'⟩) :
    TransmitEnds queue source verification maxChunkSize vis ⟨⟨s, t, r⟩, log⟩ := by
  obtain ⟨s₁, s', ok, hsteps, hlast⟩ := h.returns vis hfits
  have hopen : s₁.producer.IsOpen queue (some data) := by
    refine hsteps.induct (I := fun s => s.producer.IsOpen queue (some data)) h ?_
    intro s e s' he hopen hstep
    rcases he with rfl | rfl
    · exact hopen.beginWrite hstep
    · exact hopen.copyIn hstep
  have hbefore : (transferWorldLts queue source verification maxChunkSize vis).Leads
      TransferEvent.ofTransmit ⟨⟨s, t, r⟩, log⟩ ⟨⟨s₁, t, r⟩, log⟩ :=
    leads_writing (.refl _ _ _) hwrites hsteps
  refine of_leads hbefore ?_
  cases ok with
  | true => exact of_step (.wrote hwrites) hlast (hends true s' _ (hopen.wrote hlast))
  | false => exact of_step (.refuseWrite hwrites) hlast (hends false s' _ (hopen.refuseWrite hlast))

theorem of_close (h : s.producer.IsOpen queue none) :
    TransmitEnds queue source verification maxChunkSize vis ⟨⟨s, ⟨.close, job⟩, r⟩, log⟩ := by
  obtain ⟨tx, hside, -⟩ := h.live
  exact of_step .close (.closeWrite hside) ⟨_, .refl _ _ _, trivial⟩

theorem of_closeSignal {wrote : Bool} (h : s.producer.IsOpen queue none) :
    TransmitEnds queue source verification maxChunkSize vis
      ⟨⟨s, ⟨.closeSignal wrote, job⟩, r⟩, log⟩ := by
  obtain ⟨tx, hside, -⟩ := h.live
  exact of_step .closeSignal (.closeWrite hside)
    ⟨_, .refl _ _ _, by cases wrote <;> exact trivial⟩

theorem of_account (h : s.producer.IsOpen queue none) :
    TransmitEnds queue source verification maxChunkSize vis
      ⟨⟨s, ⟨.account chunkSize, job⟩, r⟩, log⟩ :=
  of_step .account rfl (of_close h)

theorem of_check (h : s.producer.IsOpen queue none) :
    TransmitEnds queue source verification maxChunkSize vis
      ⟨⟨s, ⟨.check chunkSize, job⟩, r⟩, log⟩ := by
  obtain ⟨tx, hside, -⟩ := h.live
  cases hvalid : tx.toBool with
  | true => exact of_step .checked ⟨⟨tx, hside, hvalid⟩, rfl⟩ (of_account h)
  | false => exact of_step .failed ⟨⟨tx, hside, hvalid⟩, rfl⟩ (of_close h)

theorem of_writeData (h : s.producer.IsOpen queue (some (source.chunk job.totalData_ chunkSize))) :
    TransmitEnds queue source verification maxChunkSize vis
      ⟨⟨s, ⟨.writeData chunkSize, job⟩, r⟩, log⟩ := by
  have hfits : FitsWord (source.chunk job.totalData_ chunkSize) :=
    (List.length_take_le _ _).trans_lt chunkSize.toNat_lt
  exact of_returns rfl hfits h fun _ _ _ hopen => of_check hopen

theorem of_writeSize (h : s.producer.IsOpen queue (some (le64 chunkSize))) :
    TransmitEnds queue source verification maxChunkSize vis
      ⟨⟨s, ⟨.writeSize chunkSize, job⟩, r⟩, log⟩ :=
  of_returns rfl (fitsWord_le64 chunkSize) h fun _ _ _ hopen => of_writeData hopen.of_live

theorem of_writeZero (h : s.producer.IsOpen queue (some (le64 0))) :
    TransmitEnds queue source verification maxChunkSize vis ⟨⟨s, ⟨.writeZero, job⟩, r⟩, log⟩ :=
  of_returns rfl (fitsWord_le64 0) h fun _ _ _ hopen => of_closeSignal hopen

variable (vis verification maxChunkSize r log) in
/-- From every control point. -/
theorem of_at (hle : source.minChunkSize_ ≤ source.maxChunkSize_)
    (h : t.At queue source s.producer) :
    TransmitEnds queue source verification maxChunkSize vis ⟨⟨s, t, r⟩, log⟩ := by
  obtain ⟨control, job⟩ := t
  cases control with
  | loop | signal | quit => exact ⟨_, .refl _ _ _, trivial⟩
  | opened =>
      obtain ⟨tx, hside, -⟩ := h.live
      cases hvalid : tx.toBool with
      | true =>
          exact of_step (.enter (UInt64.le_refl _) hle) ⟨⟨tx, hside, hvalid⟩, rfl⟩
            (of_writeSize h.of_live)
      | false => exact of_step .skip ⟨⟨tx, hside, hvalid⟩, rfl⟩ (of_close h)
  | signalOpened =>
      obtain ⟨tx, hside, -⟩ := h.live
      cases hvalid : tx.toBool with
      | true => exact of_step .enterSignal ⟨⟨tx, hside, hvalid⟩, rfl⟩ (of_writeZero h.of_live)
      | false => exact of_step .skipSignal ⟨⟨tx, hside, hvalid⟩, rfl⟩ (of_closeSignal h)
  | writeSize chunkSize => exact of_writeSize h
  | writeData chunkSize => exact of_writeData h
  | writeZero => exact of_writeZero h
  | check chunkSize => exact of_check h
  | account chunkSize => exact of_account h
  | close => exact of_close h
  | closeSignal wrote => exact of_closeSignal h

end TransmitEnds

namespace ReceiveEnds

theorem of_leads (h : (transferWorldLts queue source verification maxChunkSize vis).Leads
      TransferEvent.ofReceive w w')
    (hends : ReceiveEnds queue source verification maxChunkSize vis w') :
    ReceiveEnds queue source verification maxChunkSize vis w := by
  obtain ⟨w'', hleads, hbetween⟩ := hends
  exact ⟨w'', h.trans hleads, hbetween⟩

/-- With a step of the job in front. -/
theorem of_step {a : Action} (hjob : ReceiveStep verification w.state.receive a r)
    (hacts : w.state.system.ConsumerActs vis a s)
    (hends : ReceiveEnds queue source verification maxChunkSize vis
      ⟨⟨s, w.state.transmit, r⟩, w.log.record (.receive a)⟩) :
    ReceiveEnds queue source verification maxChunkSize vis w :=
  of_leads ((Lts.Leads.refl _ _ w).andThen (.receive hjob hacts) trivial) hends

/-- With the steps inside a call of `imp_read` in front. -/
theorem of_returns {size : UInt64} (hreads : r.control.reads = some size)
    (h : s.consumer.IsOpen queue (some size))
    (hends : ∀ s₁, s₁.consumer.IsOpen queue (some size) →
      ((∃ s', Step vis s₁ (.refuseRead size) s') ∨
        ∃ s' data, Step vis s₁ (.read data) s' ∧ data.length = size.toNat) →
      ReceiveEnds queue source verification maxChunkSize vis ⟨⟨s₁, t, r⟩, log⟩) :
    ReceiveEnds queue source verification maxChunkSize vis ⟨⟨s, t, r⟩, log⟩ := by
  obtain ⟨s₁, hsteps, hlast⟩ := h.returns vis
  have hopen : s₁.consumer.IsOpen queue (some size) := by
    refine hsteps.induct (I := fun s => s.consumer.IsOpen queue (some size)) h ?_
    intro s e s' he hopen hstep
    rcases he with rfl | rfl
    · exact hopen.beginRead hstep
    · exact hopen.copyOut hstep
  have hbefore : (transferWorldLts queue source verification maxChunkSize vis).Leads
      TransferEvent.ofReceive ⟨⟨s, t, r⟩, log⟩ ⟨⟨s₁, t, r⟩, log⟩ :=
    leads_reading (.refl _ _ _) hreads hsteps
  exact of_leads hbefore (hends s₁ hopen hlast)

theorem of_close (h : s.consumer.IsOpen queue none) :
    ReceiveEnds queue source verification maxChunkSize vis
      ⟨⟨s, t, ⟨.close, job, buffer⟩⟩, log⟩ := by
  obtain ⟨tx, hside, -⟩ := h.live
  exact of_step .close (.closeRead hside) ⟨_, .refl _ _ _, .inl rfl⟩

theorem of_closeQuit (h : s.consumer.IsOpen queue none) :
    ReceiveEnds queue source verification maxChunkSize vis
      ⟨⟨s, t, ⟨.closeQuit, job, buffer⟩⟩, log⟩ := by
  obtain ⟨tx, hside, -⟩ := h.live
  exact of_step .closeQuit (.closeRead hside) ⟨_, .refl _ _ _, .inr rfl⟩

theorem of_account (h : s.consumer.IsOpen queue none) :
    ReceiveEnds queue source verification maxChunkSize vis
      ⟨⟨s, t, ⟨.account chunkSize, job, buffer⟩⟩, log⟩ :=
  of_step .account rfl (of_close h)

theorem of_check (h : s.consumer.IsOpen queue none) :
    ReceiveEnds queue source verification maxChunkSize vis
      ⟨⟨s, t, ⟨.check chunkSize, job, buffer⟩⟩, log⟩ := by
  obtain ⟨tx, hside, -⟩ := h.live
  cases hvalid : tx.toBool with
  | true =>
      by_cases hzero : chunkSize = 0
      · subst hzero
        exact of_step .finished ⟨⟨tx, hside, hvalid⟩, rfl⟩ (of_closeQuit h)
      · exact of_step (.checked hzero) ⟨⟨tx, hside, hvalid⟩, rfl⟩ (of_account h)
  | false => exact of_step .failed ⟨⟨tx, hside, hvalid⟩, rfl⟩ (of_close h)

theorem of_readData (h : s.consumer.IsOpen queue (some chunkSize)) :
    ReceiveEnds queue source verification maxChunkSize vis
      ⟨⟨s, t, ⟨.readData chunkSize, job, buffer⟩⟩, log⟩ := by
  refine of_returns rfl h ?_
  rintro s₁ hopen (⟨s', hlast⟩ | ⟨s', data, hlast, hlength⟩)
  · exact of_step .refuseData hlast (of_check (hopen.refuseRead hlast))
  · exact of_step (.readData hlength) hlast (of_check (hopen.read hlast))

theorem of_readSize (h : s.consumer.IsOpen queue (some 8)) :
    ReceiveEnds queue source verification maxChunkSize vis
      ⟨⟨s, t, ⟨.readSize, job, buffer⟩⟩, log⟩ := by
  refine of_returns rfl h ?_
  rintro s₁ hopen (⟨s', hlast⟩ | ⟨s', data, hlast, hlength⟩)
  · exact of_step .refuseSize hlast (of_readData (hopen.refuseRead hlast))
  · exact of_step (.readSize hlength) hlast (of_readData (hopen.read hlast))

variable (vis source verification maxChunkSize t log) in
/-- From every control point. -/
theorem of_at (h : r.At queue s.consumer) :
    ReceiveEnds queue source verification maxChunkSize vis ⟨⟨s, t, r⟩, log⟩ := by
  obtain ⟨control, job, buffer⟩ := r
  cases control with
  | loop => exact ⟨_, .refl _ _ _, .inl rfl⟩
  | quit => exact ⟨_, .refl _ _ _, .inr rfl⟩
  | opened =>
      obtain ⟨tx, hside, -⟩ := h.live
      cases hvalid : tx.toBool with
      | true => exact of_step .enter ⟨⟨tx, hside, hvalid⟩, rfl⟩ (of_readSize h.of_live)
      | false => exact of_step .skip ⟨⟨tx, hside, hvalid⟩, rfl⟩ (of_close h)
  | readSize => exact of_readSize h
  | readData chunkSize => exact of_readData h
  | check chunkSize => exact of_check h
  | account chunkSize => exact of_account h
  | close => exact of_close h
  | closeQuit => exact of_closeQuit h

end ReceiveEnds

/-- Both sides of the queue are where the control points of their jobs say. -/
structure TransferWorld.At (queue : BaseTxQueue) (source : TransmitBuffer) (w : TransferWorld σ) :
    Prop where
  transmit : w.state.transmit.At queue source w.state.system.producer
  receive : w.state.receive.At queue w.state.system.consumer

namespace TransferWorld.At

theorem of_initial
    (hstart : (transferWorldLts queue source verification maxChunkSize vis).initial w) :
    w.At queue source := by
  obtain ⟨⟨system, transmit, receive⟩, log⟩ := w
  obtain ⟨⟨hsystem, rfl, rfl⟩, -⟩ := hstart
  exact ⟨hsystem.producer, hsystem.consumer⟩

/-- Every step of either job keeps both sides where the jobs say. -/
theorem step {e : TransferEvent} (h : w.At queue source)
    (hstep : TransferStep source verification vis w.state e w'.state) : w'.At queue source := by
  obtain ⟨s, log⟩ := w
  obtain ⟨s', log'⟩ := w'
  cases hstep with
  | @transmit a t system hjob hacts =>
      refine ⟨h.transmit.step hjob hacts, ?_⟩
      cases a with
      | call e => exact (Step.consumer_eq hacts hjob.ofProducer) ▸ h.receive
      | test valid => exact hacts.2 ▸ h.receive
      | account data | leave => exact (hacts : system = _) ▸ h.receive
  | @receive a r system hjob hacts =>
      refine ⟨?_, h.receive.step hjob hacts⟩
      cases a with
      | call e => exact (Step.producer_eq hacts hjob.ofProducer) ▸ h.transmit
      | test valid => exact hacts.2 ▸ h.transmit
      | account data | leave => exact (hacts : system = _) ▸ h.transmit

variable (verification maxChunkSize vis) in
/-- From any state in which the sides are where the jobs say, both jobs can come to rest, or the
consumer has quit. -/
theorem leads_rests (hle : source.minChunkSize_ ≤ source.maxChunkSize_) (h : w.At queue source) :
    ∃ w', (transferWorldLts queue source verification maxChunkSize vis).Leads (fun _ => True) w w' ∧
      (Rests queue w' ∨ w'.state.receive.control = .quit) := by
  obtain ⟨⟨s, t, r⟩, log⟩ := w
  obtain ⟨w₁, hleads₁, hbetween₁⟩ :=
    TransmitEnds.of_at vis verification maxChunkSize r log hle h.transmit
  have h₁ : w₁.At queue source := hleads₁.induct h fun _ _ _ _ h hstep => h.step hstep.1
  obtain ⟨⟨s₁, t₁, r₁⟩, log₁⟩ := w₁
  obtain ⟨w₂, hleads₂, hreceive₂⟩ :=
    ReceiveEnds.of_at vis source verification maxChunkSize t₁ log₁ h₁.receive
  have h₂ : w₂.At queue source := hleads₂.induct h₁ fun _ _ _ _ h hstep => h.step hstep.1
  have hbetween₂ : w₂.state.transmit.control.IsBetween := by
    refine hleads₂.induct (I := fun w => w.state.transmit.control.IsBetween) hbetween₁ ?_
    rintro w e ⟨s', log'⟩ he hbetween ⟨hstep, -⟩
    cases hstep with
    | transmit hjob hacts => exact he.elim
    | receive hjob hacts => exact hbetween
  refine ⟨w₂, (hleads₁.mono fun _ _ => trivial).trans (hleads₂.mono fun _ _ => trivial), ?_⟩
  rcases hreceive₂ with hloop | hquit
  · exact .inl ⟨h₂.transmit.idle hbetween₂, h₂.receive.idle hloop, hbetween₂, hloop⟩
  · exact .inr hquit

end TransferWorld.At

end Ends

end TxQueue
