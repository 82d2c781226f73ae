import TxQueue.Concurrent.Calls
import TxQueue.Transaction.Synchronised

/-!
# The two-party system without the caches

`SyncStep` is the two-party system in which each availability check first loads the last value of
the other side's index. Two states are alike if they have the same memory and differ in what the
sides have cached and loaded at most.
-/

namespace TxQueue

open Library

/-- The returns of an availability check. -/
def Event.isCheck : Event → Bool
  | .beginWrite _ => true
  | .refuseWrite _ => true
  | .beginRead _ => true
  | .refuseRead _ => true
  | _ => false

/-- The steps of the two sides without the caches. -/
inductive SyncStep (vis : Visibility) : System → Event → System → Prop where
  | beginWrite {s : System} {tx tx' : TxWrite} (buffer : ℕ → UInt8) (size : UInt64)
      (hside : s.producer = .live tx) (hreserve : tx.reserveSync size s.up.latest = .ok tx') :
      SyncStep vis s (.beginWrite (bytes buffer size))
        { s with
          up := s.up.acquireIf true s.up.last s.up.last_lt
          producer := .copying tx' buffer size (copies tx'.tail_ tx'.capacity_ size) }
  | refuseWrite {s : System} {tx tx' : TxWrite} (buffer : ℕ → UInt8) (size : UInt64)
      (core : Int32) (hside : s.producer = .live tx)
      (hreserve : tx.reserveSync size s.up.latest = .error tx') :
      SyncStep vis s (.refuseWrite (bytes buffer size))
        { s with
          up := s.up.acquireIf (!tx.invalidated_) s.up.last s.up.last_lt
          producerCore_ := if tx.invalidated_ then s.producerCore_ else core
          producer := .live tx' }
  | beginRead {s : System} {tx tx' : TxRead} (buffer : ℕ → UInt8) (size : UInt64)
      (hside : s.consumer = .live tx) (hreserve : tx.reserveSync size s.down.latest = .ok tx') :
      SyncStep vis s (.beginRead size)
        { s with
          down := s.down.acquireIf true s.down.last s.down.last_lt
          consumer := .copying tx' buffer size (copies tx'.head_ tx'.capacity_ size) }
  | refuseRead {s : System} {tx tx' : TxRead} (size : UInt64) (core : Int32)
      (hside : s.consumer = .live tx)
      (hreserve : tx.reserveSync size s.down.latest = .error tx') :
      SyncStep vis s (.refuseRead size)
        { s with
          down := s.down.acquireIf (!tx.invalidated_) s.down.last s.down.last_lt
          consumerCore_ := if tx.invalidated_ then s.consumerCore_ else core
          consumer := .live tx' }
  | other {s s' : System} {e : Event} (hcheck : e.isCheck = false) (hstep : Step vis s e s') :
      SyncStep vis s e s'

/-- The two-party system without the caches. -/
def syncLts (queue : BaseTxQueue) (vis : Visibility) : Lts System Event where
  initial := System.IsFresh queue
  step := SyncStep vis

/-- The same with its history. -/
abbrev syncWorldLts (queue : BaseTxQueue) (vis : Visibility) : Lts World Event :=
  (syncLts queue vis).observe History.record {}

/-- The re-load of an availability check, if the transition is one, has seen the last value. -/
def SeesCurrent (t : Transition World Event) : Prop :=
  (∀ tx data, t.source.state.producer = .live tx →
    (t.event = .beginWrite data ∨ t.event = .refuseWrite data) →
    tx.reloads (UInt64.ofNat data.length) = true → UpToDate t.target.state.up) ∧
  (∀ tx size, t.source.state.consumer = .live tx →
    (t.event = .beginRead size ∨ t.event = .refuseRead size) →
    tx.reloads size = true → UpToDate t.target.state.down)

/-- Two producers are alike if they differ in the cached head at most. -/
inductive Producer.Alike : Producer → Producer → Prop where
  | detached : Producer.Alike .detached .detached
  | idle (queue : BaseTxQueue) : Producer.Alike (.idle queue) (.idle queue)
  | live {tx tx' : TxWrite} (h : tx.Alike tx') : Producer.Alike (.live tx) (.live tx')
  | copying {tx tx' : TxWrite} (h : tx.Alike tx') (buffer : ℕ → UInt8) (size : UInt64)
      (rest : List Memcpy) :
      Producer.Alike (.copying tx buffer size rest) (.copying tx' buffer size rest)

/-- Two consumers are alike if they differ in the cached tail at most. -/
inductive Consumer.Alike : Consumer → Consumer → Prop where
  | detached : Consumer.Alike .detached .detached
  | idle (queue : BaseTxQueue) : Consumer.Alike (.idle queue) (.idle queue)
  | live {tx tx' : TxRead} (h : tx.Alike tx') : Consumer.Alike (.live tx) (.live tx')
  | copying {tx tx' : TxRead} (h : tx.Alike tx') (buffer : ℕ → UInt8) (size : UInt64)
      (rest : List Memcpy) :
      Consumer.Alike (.copying tx buffer size rest) (.copying tx' buffer size rest)

/-- Two states have the same memory and the same local states but for the caches, and the sides of
the second have observed at least as much. -/
structure System.Alike (s s' : System) : Prop where
  base : s'.base = s.base
  down : s.down.Behind s'.down
  up : s.up.Behind s'.up
  producerCore : s'.producerCore_ = s.producerCore_
  consumerCore : s'.consumerCore_ = s.consumerCore_
  producer : s.producer.Alike s'.producer
  consumer : s.consumer.Alike s'.consumer

namespace Producer.Alike

variable {a b : Producer}

theorem refl (a : Producer) : a.Alike a := by
  cases a with
  | detached => exact .detached
  | idle queue => exact .idle queue
  | live tx => exact .live (.refl tx)
  | copying tx buffer size rest => exact .copying (.refl tx) buffer size rest

theorem symm (h : a.Alike b) : b.Alike a := by
  cases h with
  | detached => exact .detached
  | idle queue => exact .idle queue
  | live h => exact .live h.symm
  | copying h buffer size rest => exact .copying h.symm buffer size rest

theorem of_idle {queue : BaseTxQueue} (h : (Producer.idle queue).Alike b) : b = .idle queue := by
  cases h
  rfl

theorem of_live {tx : TxWrite} (h : (Producer.live tx).Alike b) :
    ∃ tx', b = .live tx' ∧ tx.Alike tx' := by
  cases h with
  | live h => exact ⟨_, rfl, h⟩

theorem of_copying {tx : TxWrite} {buffer : ℕ → UInt8} {size : UInt64} {rest : List Memcpy}
    (h : (Producer.copying tx buffer size rest).Alike b) :
    ∃ tx', b = .copying tx' buffer size rest ∧ tx.Alike tx' := by
  cases h with
  | copying h => exact ⟨_, rfl, h⟩

end Producer.Alike

namespace Consumer.Alike

variable {a b : Consumer}

theorem refl (a : Consumer) : a.Alike a := by
  cases a with
  | detached => exact .detached
  | idle queue => exact .idle queue
  | live tx => exact .live (.refl tx)
  | copying tx buffer size rest => exact .copying (.refl tx) buffer size rest

theorem symm (h : a.Alike b) : b.Alike a := by
  cases h with
  | detached => exact .detached
  | idle queue => exact .idle queue
  | live h => exact .live h.symm
  | copying h buffer size rest => exact .copying h.symm buffer size rest

theorem of_idle {queue : BaseTxQueue} (h : (Consumer.idle queue).Alike b) : b = .idle queue := by
  cases h
  rfl

theorem of_live {tx : TxRead} (h : (Consumer.live tx).Alike b) :
    ∃ tx', b = .live tx' ∧ tx.Alike tx' := by
  cases h with
  | live h => exact ⟨_, rfl, h⟩

theorem of_copying {tx : TxRead} {buffer : ℕ → UInt8} {size : UInt64} {rest : List Memcpy}
    (h : (Consumer.copying tx buffer size rest).Alike b) :
    ∃ tx', b = .copying tx' buffer size rest ∧ tx.Alike tx' := by
  cases h with
  | copying h => exact ⟨_, rfl, h⟩

end Consumer.Alike

theorem System.Alike.refl (s : System) : s.Alike s :=
  ⟨rfl, .refl _, .refl _, rfl, rfl, .refl _, .refl _⟩

end TxQueue
