import TxQueue.Library.Progress
import TxQueue.Concurrent.Fifo
import TxQueue.Concurrent.Sides

/-!
# No side waits for the other

Every step of a side is possible whatever the other side is doing, and a call of `imp_write` or
`imp_read` that has passed its availability check returns after at most two own steps. A partner
that is stopped in the middle of a transaction holds up nothing.
-/

namespace TxQueue

open Library

variable {vis : Visibility} {queue : BaseTxQueue} {w w' : World}

/-- The number of `memcpy` calls that an `imp_write` with these bytes has still to make. -/
def Producer.remaining (data : List UInt8) : Producer → ℕ
  | .copying _ buffer size rest => if bytes buffer size = data then rest.length else 0
  | _ => 0

/-- The number of `memcpy` calls that an `imp_read` of this size has still to make. -/
def Consumer.remaining (size : UInt64) : Consumer → ℕ
  | .copying _ _ size' rest => if size' = size then rest.length else 0
  | _ => 0

/-- An `imp_write` past its availability check. -/
def writeTask (queue : BaseTxQueue) (vis : Visibility) (data : List UInt8) :
    Task (worldLts queue vis) where
  own := Event.ofProducer
  finish e := e = .wrote data
  rank w := w.state.producer.remaining data
  enabled w hrank := by
    cases hside : w.state.producer with
    | copying tx buffer size rest =>
        cases rest with
        | nil => simp [hside, Producer.remaining] at hrank
        | cons c rest =>
            cases rest with
            | nil => exact ⟨.wrote _, ⟨_, _⟩, rfl, .wrote hside, rfl⟩
            | cons c' rest => exact ⟨.copyIn, ⟨_, _⟩, rfl, .copyIn hside, rfl⟩
    | _ => simp [hside, Producer.remaining] at hrank
  of_own w e w' hrank hstep hown := by
    obtain ⟨hstep, -⟩ := hstep
    generalize w'.state = s' at hstep
    cases hstep with
    | copyIn hside =>
        simp only [hside, Producer.remaining] at hrank ⊢
        split_ifs at hrank ⊢ with hdata
        · refine .inr ⟨Nat.succ_pos _, Nat.lt_succ_self _⟩
        · exact absurd hrank (lt_irrefl 0)
    | wrote hside =>
        simp only [hside, Producer.remaining] at hrank
        split_ifs at hrank with hdata
        · exact .inl (congrArg Event.wrote hdata)
        · exact absurd hrank (lt_irrefl 0)
    | openWrite _ _ _ hside | beginWrite _ _ _ _ _ hside | refuseWrite _ _ _ _ _ _ hside =>
        simp [hside, Producer.remaining] at hrank
    | invalidateWrite hside | closeWrite hside => simp [hside, Producer.remaining] at hrank
    | _ => cases hown
  of_other w e w' _ hstep hother := by rw [hstep.1.producer_eq hother]

/-- An `imp_read` past its availability check. -/
def readTask (queue : BaseTxQueue) (vis : Visibility) (size : UInt64) :
    Task (worldLts queue vis) where
  own e := !e.ofProducer
  finish e := ∃ data, e = .read data ∧ data.length = size.toNat
  rank w := w.state.consumer.remaining size
  enabled w hrank := by
    cases hside : w.state.consumer with
    | copying tx buffer size' rest =>
        have hsees := Channel.sees_image w.state.base w.state.down vis
        cases rest with
        | nil => simp [hside, Consumer.remaining] at hrank
        | cons c rest =>
            cases rest with
            | nil => exact ⟨.read _, ⟨_, _⟩, rfl, .read hside hsees, rfl⟩
            | cons c' rest => exact ⟨.copyOut, ⟨_, _⟩, rfl, .copyOut hside hsees, rfl⟩
    | _ => simp [hside, Consumer.remaining] at hrank
  of_own w e w' hrank hstep hown := by
    obtain ⟨hstep, -⟩ := hstep
    generalize w'.state = s' at hstep
    cases hstep with
    | copyOut hside hsees =>
        simp only [hside, Consumer.remaining] at hrank ⊢
        split_ifs at hrank ⊢ with hsize
        · refine .inr ⟨Nat.succ_pos _, Nat.lt_succ_self _⟩
        · exact absurd hrank (lt_irrefl 0)
    | read hside hsees =>
        simp only [hside, Consumer.remaining] at hrank
        split_ifs at hrank with hsize
        · exact .inl ⟨_, rfl, by simp [hsize]⟩
        · exact absurd hrank (lt_irrefl 0)
    | openRead _ _ _ hside | beginRead _ _ _ _ _ hside | refuseRead _ _ _ _ _ hside =>
        simp [hside, Consumer.remaining] at hrank
    | invalidateRead hside | closeRead hside => simp [hside, Consumer.remaining] at hrank
    | _ => cases hown
  of_other w e w' _ hstep hother := by
    rw [hstep.1.consumer_eq (by simpa using hother)]

/-- An `imp_write` in progress has one or two copies to make. -/
def Producer.Busy : Producer → Prop
  | .copying _ _ _ rest => rest ≠ [] ∧ rest.length ≤ 2
  | _ => True

/-- An `imp_read` in progress has one or two copies to make. -/
def Consumer.Busy : Consumer → Prop
  | .copying _ _ _ rest => rest ≠ [] ∧ rest.length ≤ 2
  | _ => True

/-- A transfer takes one copy or two. -/
theorem copies_busy (index capacity size : UInt64) :
    copies index capacity size ≠ [] ∧ (copies index capacity size).length ≤ 2 := by
  unfold copies
  split <;> simp

/-- Every step keeps the number of copies. -/
theorem Step.busy {s s' : System} {e : Event} (hproducer : s.producer.Busy)
    (hconsumer : s.consumer.Busy) (hstep : Step vis s e s') :
    s'.producer.Busy ∧ s'.consumer.Busy := by
  cases hstep with
  | beginWrite => exact ⟨copies_busy _ _ _, hconsumer⟩
  | copyIn hside =>
      rw [hside] at hproducer
      exact ⟨⟨by simp, (Nat.le_succ _).trans hproducer.2⟩, hconsumer⟩
  | beginRead => exact ⟨hproducer, copies_busy _ _ _⟩
  | copyOut hside hsees =>
      rw [hside] at hconsumer
      exact ⟨hproducer, by simp, (Nat.le_succ _).trans hconsumer.2⟩
  | openWrite | refuseWrite | wrote | invalidateWrite | closeWrite => exact ⟨trivial, hconsumer⟩
  | openRead | refuseRead | read | invalidateRead | closeRead => exact ⟨hproducer, trivial⟩

theorem busy_of_run {start : World} {ts : List (Transition World Event)}
    (hstart : (worldLts queue vis).initial start) (hrun : Run (worldLts queue vis) start ts w) :
    w.state.producer.Busy ∧ w.state.consumer.Busy := by
  refine hrun.invariant (I := fun w => w.state.producer.Busy ∧ w.state.consumer.Busy) ?_ ?_
  · rw [hstart.1.producer, hstart.1.consumer]
    exact ⟨trivial, trivial⟩
  · intro w e w' hi hstep
    exact hstep.1.busy hi.1 hi.2

/-- The producer can take its next step: it can open a transaction, have any `imp_write` pass or
fail its availability check, invalidate and close the transaction. An `imp_write` past its check can
go on, and has returned after two more steps of the producer in any run from here. -/
structure World.WritesOn (queue : BaseTxQueue) (vis : Visibility) (w : World) : Prop where
  openWrite : ∀ queue', w.state.producer = .idle queue' → ∃ s', Step vis w.state .openWrite s'
  check : ∀ tx buffer size, w.state.producer = .live tx →
    (∃ s', Step vis w.state (.beginWrite (bytes buffer size)) s') ∨
      ∃ s', Step vis w.state (.refuseWrite (bytes buffer size)) s'
  invalidate : ∀ tx, w.state.producer = .live tx → ∃ s', Step vis w.state .invalidateWrite s'
  close : ∀ tx, w.state.producer = .live tx → ∃ s', Step vis w.state (.closeWrite tx.toBool) s'
  copy : ∀ tx buffer size rest, w.state.producer = .copying tx buffer size rest →
    ∃ e s', e.ofProducer = true ∧ Step vis w.state e s'
  returns : ∀ tx buffer size rest, w.state.producer = .copying tx buffer size rest →
    ∀ us w', Run (worldLts queue vis) w us w' → 2 ≤ us.countP (fun u => u.event.ofProducer) →
      ∃ u ∈ us, u.event = .wrote (bytes buffer size)

/-- The same for the consumer and `imp_read`. -/
structure World.ReadsOn (queue : BaseTxQueue) (vis : Visibility) (w : World) : Prop where
  openRead : ∀ queue', w.state.consumer = .idle queue' → ∃ s', Step vis w.state .openRead s'
  check : ∀ tx size, w.state.consumer = .live tx →
    (∃ s', Step vis w.state (.beginRead size) s') ∨ ∃ s', Step vis w.state (.refuseRead size) s'
  invalidate : ∀ tx, w.state.consumer = .live tx → ∃ s', Step vis w.state .invalidateRead s'
  close : ∀ tx, w.state.consumer = .live tx → ∃ s', Step vis w.state (.closeRead tx.toBool) s'
  copy : ∀ tx buffer size rest, w.state.consumer = .copying tx buffer size rest →
    ∃ e s', e.ofProducer = false ∧ Step vis w.state e s'
  returns : ∀ tx buffer size rest, w.state.consumer = .copying tx buffer size rest →
    ∀ us w', Run (worldLts queue vis) w us w' → 2 ≤ us.countP (fun u => !u.event.ofProducer) →
      ∃ u ∈ us, ∃ data, u.event = .read data ∧ data.length = size.toNat

/-- A producer with one or two copies to make writes on. -/
theorem Producer.Busy.writesOn (queue : BaseTxQueue) (vis : Visibility)
    (hbusy : w.state.producer.Busy) : w.WritesOn queue vis := by
  have hlt := w.state.up.observed_lt
  have hrank : ∀ tx buffer size rest, w.state.producer = .copying tx buffer size rest →
      (writeTask queue vis (bytes buffer size)).rank w = rest.length ∧ rest ≠ [] ∧
        rest.length ≤ 2 := by
    intro tx buffer size rest hside
    rw [hside] at hbusy
    exact ⟨by simp [writeTask, hside, Producer.remaining], hbusy⟩
  constructor
  · intro queue' hside
    exact ⟨_, .openWrite _ le_rfl hlt hside⟩
  · intro tx buffer size hside
    cases hreserve : tx.reserve size w.state.up.releases[w.state.up.observed].value with
    | ok tx' => exact .inl ⟨_, .beginWrite buffer size _ le_rfl hlt hside hreserve⟩
    | error tx' => exact .inr ⟨_, .refuseWrite buffer size _ 0 le_rfl hlt hside hreserve⟩
  · intro tx hside
    exact ⟨_, .invalidateWrite hside⟩
  · intro tx hside
    exact ⟨_, .closeWrite hside⟩
  · intro tx buffer size rest hside
    obtain ⟨hlen, hne, -⟩ := hrank tx buffer size rest hside
    obtain ⟨e, w', hown, hstep, -⟩ := (writeTask queue vis (bytes buffer size)).enabled w
      (hlen ▸ List.length_pos_iff.2 hne)
    exact ⟨e, w'.state, hown, hstep⟩
  · intro tx buffer size rest hside us w' hlater hsteps
    obtain ⟨hlen, hne, hle⟩ := hrank tx buffer size rest hside
    exact (writeTask queue vis (bytes buffer size)).finishes
      (hlen ▸ List.length_pos_iff.2 hne) hlater (hlen ▸ hle.trans hsteps)

/-- A consumer with one or two copies to make reads on. -/
theorem Consumer.Busy.readsOn (queue : BaseTxQueue) (vis : Visibility)
    (hbusy : w.state.consumer.Busy) : w.ReadsOn queue vis := by
  have hlt := w.state.down.observed_lt
  have hrank : ∀ tx buffer size rest, w.state.consumer = .copying tx buffer size rest →
      (readTask queue vis size).rank w = rest.length ∧ rest ≠ [] ∧ rest.length ≤ 2 := by
    intro tx buffer size rest hside
    rw [hside] at hbusy
    exact ⟨by simp [readTask, hside, Consumer.remaining], hbusy⟩
  constructor
  · intro queue' hside
    exact ⟨_, .openRead _ le_rfl hlt hside⟩
  · intro tx size hside
    cases hreserve : tx.reserve size w.state.down.releases[w.state.down.observed].value with
    | ok tx' => exact .inl ⟨_, .beginRead (fun _ => 0) size _ le_rfl hlt hside hreserve⟩
    | error tx' => exact .inr ⟨_, .refuseRead size _ 0 le_rfl hlt hside hreserve⟩
  · intro tx hside
    exact ⟨_, .invalidateRead hside⟩
  · intro tx hside
    exact ⟨_, .closeRead hside⟩
  · intro tx buffer size rest hside
    obtain ⟨hlen, hne, -⟩ := hrank tx buffer size rest hside
    obtain ⟨e, w', hown, hstep, -⟩ := (readTask queue vis size).enabled w
      (hlen ▸ List.length_pos_iff.2 hne)
    exact ⟨e, w'.state, by simpa [readTask] using hown, hstep⟩
  · intro tx buffer size rest hside us w' hlater hsteps
    obtain ⟨hlen, hne, hle⟩ := hrank tx buffer size rest hside
    exact (readTask queue vis size).finishes (hlen ▸ List.length_pos_iff.2 hne) hlater
      (hlen ▸ hle.trans hsteps)

/-- In every reachable state each side can go on, and a call that is past its availability check
has returned after two more steps of its side, whatever the other side does in between. -/
theorem wait_free (queue : BaseTxQueue) (vis : Visibility) {start w : World}
    {ts : List (Transition World Event)} (hstart : (worldLts queue vis).initial start)
    (hrun : Run (worldLts queue vis) start ts w) :
    w.WritesOn queue vis ∧ w.ReadsOn queue vis := by
  obtain ⟨hproducer, hconsumer⟩ := busy_of_run hstart hrun
  exact ⟨hproducer.writesOn queue vis, hconsumer.readsOn queue vis⟩

/-- `wait_free` on a run in which the consumer opens a transaction in the middle of an
`imp_write`. -/
theorem wait_free_open_read : ∃ ts us w w',
    Run (worldLts smallQueue.toBaseTxQueue .everyLoad) (freshWorld smallQueue.toBaseTxQueue) ts w ∧
    Run (worldLts smallQueue.toBaseTxQueue .everyLoad) w us w' ∧
    (∃ u ∈ us, u.event = .wrote [7, 7]) ∧ w'.log.written = [[7, 7]] := by
  have h0 : Run (worldLts smallQueue.toBaseTxQueue .everyLoad)
    (freshWorld smallQueue.toBaseTxQueue) [] _ := .nil
  have h1 := h0.andThen (.openWrite 0 (by decide) (by decide) rfl)
  have h2 := h1.andThen (.beginWrite (fun _ => 7) 2 0 (by decide) (by decide) rfl rfl)
  have h3 := h2.rest.andThen (.openRead 0 (by decide) (by decide) rfl)
  have h4 := h3.andThen (.wrote rfl)
  have h5 := h4.andThen (.closeWrite rfl)
  have hgoes := (wait_free smallQueue.toBaseTxQueue .everyLoad
    (freshWorld_initial smallQueue.toBaseTxQueue .everyLoad) h2).1
  exact ⟨_, _, _, _, h2, h5, hgoes.returns _ _ _ _ rfl _ _ h5 (by decide), rfl⟩

end TxQueue
