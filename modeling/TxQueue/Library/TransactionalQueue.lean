import TxQueue.Library.Transition

/-!
# Transactional queues

What a queue with transactions is for one writer and one reader, without a ring and without indices.
Elements put into a write transaction are queued when it commits; elements taken in a read
transaction leave the queue when it commits. A transaction that has failed is doomed: it cannot
commit any more. A call may fail at any time, since a side need not know how far the other one is.
-/

namespace Library

variable {α : Type*}

/-- A side of the queue: between transactions, in a transaction with its elements so far, or in one
that cannot commit any more. -/
inductive Draft (α : Type*) where
  | closed
  | active (items : List α)
  | doomed

/-- The elements of a transaction that can still commit. -/
def Draft.items : Draft α → List α
  | .active items => items
  | _ => []

/-- A transaction that is valid or not. -/
def Draft.ofValid (valid : Bool) (items : List α) : Draft α :=
  if valid then .active items else .doomed

theorem Draft.ofValid_ne_closed (valid : Bool) (items : List α) :
    Draft.ofValid valid items ≠ .closed := by
  cases valid <;> simp [ofValid]

/-- The elements that are committed and not yet consumed, and the two sides. -/
structure TransactionalQueue (α : Type*) where
  queued : List α
  writer : Draft α
  reader : Draft α

/-- The end of a transaction says whether it commits. -/
inductive TransactionEvent (α : Type*) where
  | openWrite
  | put (items : List α)
  | failWrite
  | closeWrite (committed : Bool)
  | crashWrite
  | openRead
  | take (items : List α)
  | failRead
  | closeRead (committed : Bool)
  | crashRead
  deriving DecidableEq

/-- The steps of a queue for up to `bound` elements, those in the open write transaction included.
A transaction may be opened valid or doomed, as `ok` allows. -/
inductive TransactionStep (bound : ℕ) (ok : Bool → Prop) :
    TransactionalQueue α → TransactionEvent α → TransactionalQueue α → Prop where
  | openWrite {q : TransactionalQueue α} {valid : Bool} (hside : q.writer = .closed)
      (hvalid : ok valid) :
      TransactionStep bound ok q .openWrite { q with writer := .ofValid valid [] }
  | put {q : TransactionalQueue α} {xs items : List α} (hside : q.writer = .active xs)
      (hroom : q.queued.length + (xs ++ items).length ≤ bound) :
      TransactionStep bound ok q (.put items) { q with writer := .active (xs ++ items) }
  | failWrite {q : TransactionalQueue α} (hside : q.writer ≠ .closed) :
      TransactionStep bound ok q .failWrite { q with writer := .doomed }
  | commitWrite {q : TransactionalQueue α} {xs : List α} (hside : q.writer = .active xs) :
      TransactionStep bound ok q (.closeWrite true)
        { q with
          queued := q.queued ++ xs
          writer := .closed }
  | dropWrite {q : TransactionalQueue α} (hside : q.writer = .doomed) :
      TransactionStep bound ok q (.closeWrite false) { q with writer := .closed }
  | crashWrite {q : TransactionalQueue α} :
      TransactionStep bound ok q .crashWrite { q with writer := .closed }
  | openRead {q : TransactionalQueue α} {valid : Bool} (hside : q.reader = .closed)
      (hvalid : ok valid) :
      TransactionStep bound ok q .openRead { q with reader := .ofValid valid [] }
  | take {q : TransactionalQueue α} {xs items : List α} (hside : q.reader = .active xs)
      (hqueued : xs ++ items <+: q.queued) :
      TransactionStep bound ok q (.take items) { q with reader := .active (xs ++ items) }
  | failRead {q : TransactionalQueue α} (hside : q.reader ≠ .closed) :
      TransactionStep bound ok q .failRead { q with reader := .doomed }
  | commitRead {q : TransactionalQueue α} {xs : List α} (hside : q.reader = .active xs) :
      TransactionStep bound ok q (.closeRead true)
        { q with
          queued := q.queued.drop xs.length
          reader := .closed }
  | dropRead {q : TransactionalQueue α} (hside : q.reader = .doomed) :
      TransactionStep bound ok q (.closeRead false) { q with reader := .closed }
  | crashRead {q : TransactionalQueue α} :
      TransactionStep bound ok q .crashRead { q with reader := .closed }

/-- What the events say: the elements of all committed write transactions and of the open one, and
the same for the read transactions. -/
structure Ledger (α : Type*) where
  written : List α := []
  writing : List α := []
  consumed : List α := []
  reading : List α := []

/-- The ledger after one more event. -/
def Ledger.record (l : Ledger α) : TransactionEvent α → Ledger α
  | .put items => { l with writing := l.writing ++ items }
  | .closeWrite committed =>
      { l with
        written := if committed then l.written ++ l.writing else l.written
        writing := [] }
  | .crashWrite => { l with writing := [] }
  | .take items => { l with reading := l.reading ++ items }
  | .closeRead committed =>
      { l with
        consumed := if committed then l.consumed ++ l.reading else l.consumed
        reading := [] }
  | .crashRead => { l with reading := [] }
  | _ => l

/-- An empty queue with both sides between transactions. -/
def TransactionalQueue.empty : TransactionalQueue α := ⟨[], .closed, .closed⟩

/-- A queue that is empty at the start. -/
def queueLts (α : Type*) (bound : ℕ) (ok : Bool → Prop) :
    Lts (TransactionalQueue α) (TransactionEvent α) where
  initial q := q = .empty
  step := TransactionStep bound ok

/-- The queue with its ledger. -/
abbrev transactionalLts (α : Type*) (bound : ℕ) (ok : Bool → Prop) :
    Lts (Observed (TransactionalQueue α) (Ledger α)) (TransactionEvent α) :=
  (queueLts α bound ok).observe Ledger.record {}

/-- A side and its part of the ledger. -/
def Draft.Placed (ledger : List α) : Draft α → Prop
  | .closed => ledger = []
  | .active items => ledger = items
  | .doomed => True

/-- A transaction that is opened has no elements. -/
theorem Draft.placed_ofValid {ledger : List α} (h : ledger = []) (valid : Bool) :
    (Draft.ofValid valid []).Placed ledger := by
  cases valid with
  | true => exact h
  | false => trivial

theorem Draft.items_ofValid_nil (valid : Bool) :
    (Draft.ofValid valid [] : Draft α).items = [] := by
  cases valid <;> rfl

/-- The law of a queue: what was written is what was consumed and what is queued, there is room for
what is queued and written, and what is being read are the first elements. -/
structure Accounted (bound : ℕ) (w : Observed (TransactionalQueue α) (Ledger α)) : Prop where
  stream : w.log.written = w.log.consumed ++ w.state.queued
  room : w.state.queued.length + w.state.writer.items.length ≤ bound
  reading : w.log.reading <+: w.state.queued
  writer : w.state.writer.Placed w.log.writing
  reader : w.state.reader.Placed w.log.reading

namespace Accounted

variable {bound : ℕ} {ok : Bool → Prop} {start w w' : Observed (TransactionalQueue α) (Ledger α)}
  {ts : List (Transition (Observed (TransactionalQueue α) (Ledger α)) (TransactionEvent α))}
  {e : TransactionEvent α}

theorem of_initial (hstart : (transactionalLts α bound ok).initial start) :
    Accounted bound start := by
  obtain ⟨q, l⟩ := start
  obtain ⟨rfl, rfl⟩ := hstart
  exact ⟨rfl, Nat.zero_le _, List.nil_prefix, rfl, rfl⟩

/-- Every step keeps the law. -/
theorem step (hi : Accounted bound w) (hstep : (transactionalLts α bound ok).step w e w') :
    Accounted bound w' := by
  obtain ⟨q', l'⟩ := w'
  obtain ⟨q, l⟩ := w
  obtain ⟨hstep, rfl⟩ := hstep
  obtain ⟨hstream, hroom, hreading, hwriter, hreader⟩ := hi
  simp only at hstep hstream hroom hreading hwriter hreader
  cases hstep with
  | openWrite hside hvalid =>
      rw [hside] at hwriter
      refine ⟨hstream, ?_, hreading, Draft.placed_ofValid hwriter _, hreader⟩
      simp only [Draft.items_ofValid_nil, List.length_nil]
      omega
  | @put xs items hside hput =>
      rw [hside] at hwriter
      exact ⟨hstream, hput, hreading, congrArg (· ++ items) hwriter, hreader⟩
  | failWrite hside => exact ⟨hstream, by simp [Draft.items]; omega, hreading, trivial, hreader⟩
  | @commitWrite xs hside =>
      rw [hside] at hwriter hroom
      have hxs : l.writing = xs := hwriter
      refine ⟨?_, ?_, hreading.trans (List.prefix_append _ _), rfl, hreader⟩
      · simp [Ledger.record, hstream, hxs]
      · simpa [Draft.items] using hroom
  | dropWrite hside => exact ⟨hstream, by simp [Draft.items]; omega, hreading, rfl, hreader⟩
  | crashWrite => exact ⟨hstream, by simp [Draft.items]; omega, hreading, rfl, hreader⟩
  | openRead hside hvalid =>
      rw [hside] at hreader
      exact ⟨hstream, hroom, hreading, hwriter, Draft.placed_ofValid hreader _⟩
  | @take xs items hside hqueued =>
      rw [hside] at hreader
      have hxs : l.reading = xs := hreader
      exact ⟨hstream, hroom, by simpa [Ledger.record, hxs] using hqueued, hwriter,
        congrArg (· ++ items) hxs⟩
  | failRead hside => exact ⟨hstream, hroom, hreading, hwriter, trivial⟩
  | @commitRead xs hside =>
      rw [hside] at hreader
      have hxs : l.reading = xs := hreader
      obtain ⟨rest, hrest⟩ := hxs ▸ hreading
      refine ⟨?_, ?_, List.nil_prefix, hwriter, rfl⟩
      · simp [Ledger.record, hstream, hxs, ← hrest]
      · simp only [List.length_drop]
        omega
  | dropRead hside => exact ⟨hstream, hroom, List.nil_prefix, hwriter, rfl⟩
  | crashRead => exact ⟨hstream, hroom, List.nil_prefix, hwriter, rfl⟩

theorem of_run (hstart : (transactionalLts α bound ok).initial start)
    (hrun : Run (transactionalLts α bound ok) start ts w) : Accounted bound w :=
  hrun.invariant (of_initial hstart) fun _ _ _ hi hstep => hi.step hstep

end Accounted

section Reread

variable {bound : ℕ} {ok : Bool → Prop} {start w w' : Observed (TransactionalQueue α) (Ledger α)}
  {ts : List (Transition (Observed (TransactionalQueue α) (Ledger α)) (TransactionEvent α))}
  {e : TransactionEvent α}

/-- Only a committed read transaction takes elements from the front of the queue. -/
theorem TransactionStep.queued_isPrefix {q q' : TransactionalQueue α}
    (he : e ≠ .closeRead true) (hstep : TransactionStep bound ok q e q') :
    q.queued <+: q'.queued := by
  cases hstep with
  | commitWrite => exact List.prefix_append _ _
  | commitRead => exact absurd rfl he
  | _ => exact List.prefix_rfl

/-- As long as no read transaction commits, the reader reads the same elements again. -/
theorem Accounted.comparable (hi : Accounted bound w)
    (hrun : Run (transactionalLts α bound ok) w ts w')
    (hcommits : ∀ t ∈ ts, t.event ≠ .closeRead true) :
    w.log.reading <+: w'.log.reading ∨ w'.log.reading <+: w.log.reading := by
  have hlater : Accounted bound w' := hrun.invariant hi fun _ _ _ hi hstep => hi.step hstep
  have hgrows : w.state.queued <+: w'.state.queued := by
    refine hrun.invariant_of_events (I := fun v => w.state.queued <+: v.state.queued)
      (P := (· ≠ .closeRead true)) List.prefix_rfl hcommits ?_
    intro s e s' he hpre hstep
    exact hpre.trans (hstep.1.queued_isPrefix he)
  exact List.prefix_or_prefix_of_prefix (hi.reading.trans hgrows) hlater.reading

end Reread

end Library
