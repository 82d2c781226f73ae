import TxQueue.Concurrent.Fifo

/-!
# What the acquire loads cover

The constructors load the other side's index with relaxed order, and `imp_read` / `imp_write` load
it again, with acquire order, only when that optimistic value shows too little. Here an acquire
load alone guarantees the visibility of what the other side did before its release store. The
discipline that every transfer stays within what its side has acquired can then fail, and it holds
in exactly those runs whose fast-path transfers do not go past the last acquired index.
-/

namespace TxQueue

open Library

/-- The stream position of the newest tail that the consumer has acquired. -/
def World.acquiredTail (w : World) : ℕ := boundary w.log.written w.state.down.acquired

/-- The stream position of the newest head that the producer has acquired. -/
def World.acquiredHead (w : World) : ℕ := boundary w.log.consumed w.state.up.acquired

/-- Every byte that a successful `imp_read` copies lies below an acquired tail, and every position
that a successful `imp_write` fills is in the first lap or one lap past a position below an
acquired head. -/
structure World.Disciplined (cap : UInt64) (w : World) : Prop where
  reads : ∀ i < w.state.consumer.pending, w.log.localHead + i < w.acquiredTail
  writes : ∀ i < w.state.producer.pending, w.log.localTail + i < w.acquiredHead + cap.toNat

namespace World.Disciplined

variable {cap : UInt64} {vis : Visibility} {s s' : System} {h : History} {e : Event}

/-- Nothing is under way on a fresh queue. -/
theorem of_initial {queue : BaseTxQueue} {start : World}
    (hstart : (worldLts queue vis).initial start) : start.Disciplined cap where
  reads := by simp [hstart.1.consumer, Consumer.pending]
  writes := by simp [hstart.1.producer, Producer.pending]

/-- A run is disciplined at its end if it is so after each step. -/
theorem of_run {queue : BaseTxQueue} {start w : World} {ts : List (Transition World Event)}
    (hstart : (worldLts queue vis).initial start) (hrun : Run (worldLts queue vis) start ts w)
    (hall : ∀ t ∈ ts, t.target.Disciplined cap) : w.Disciplined cap := by
  cases hrun with
  | nil => exact of_initial hstart
  | snoc hrun hstep => exact hall _ (List.mem_append_right _ (List.mem_singleton_self _))

/-- In a disciplined state of the weaker memory, what an `imp_read` copies is visible. -/
theorem covered {w : World} (hi : w.Disciplined cap) : w.Covered .acquireOnly := hi.reads

end World.Disciplined

section Runs

variable {queue : RingQueue} {start w : World} {ts : List (Transition World Event)}

/-- The index invariant does not depend on what is visible. -/
theorem Indices.of_run {vis : Visibility}
    (hstart : (worldLts queue.toBaseTxQueue vis).initial start)
    (hrun : Run (worldLts queue.toBaseTxQueue vis) start ts w) : Indices queue.capacity_ w := by
  refine hrun.invariant (Invariant.of_initial hstart).indices ?_
  rintro ⟨s, h⟩ e ⟨s', h'⟩ hi ⟨hstep, rfl⟩
  exact hi.step queue.isPowTwo hstep

/-- A disciplined run in the weaker memory keeps all three invariants. -/
theorem Invariant.of_disciplined_run
    (hstart : (worldLts queue.toBaseTxQueue .acquireOnly).initial start)
    (hrun : Run (worldLts queue.toBaseTxQueue .acquireOnly) start ts w)
    (hall : ∀ t ∈ ts, t.target.Disciplined queue.capacity_) : Invariant queue.capacity_ w := by
  induction hrun with
  | nil => exact .of_initial hstart
  | @snoc ts s s' e hrun hstep ih =>
      have hbefore : ∀ t ∈ ts, t.target.Disciplined queue.capacity_ :=
        fun t ht => hall t (List.mem_append_left _ ht)
      have hdisciplined := World.Disciplined.of_run hstart hrun hbefore
      exact (ih hbefore).step_of_covered hdisciplined.covered hstep

/-- In a disciplined run a successful `imp_read` returns the committed bytes at the consumer's
position, and what was consumed is a prefix of what was written: the discipline is all that the
weaker memory lacks. -/
theorem fifo_of_disciplined (hstart : (worldLts queue.toBaseTxQueue .acquireOnly).initial start)
    (hrun : Run (worldLts queue.toBaseTxQueue .acquireOnly) start ts w)
    (hall : ∀ t ∈ ts, t.target.Disciplined queue.capacity_) :
    (∀ data s', Step .acquireOnly w.state (.read data) s' →
      data = (w.log.written.flatten.drop w.log.localHead).take data.length) ∧
    w.log.consumed.flatten <+: w.log.written.flatten := by
  have hi := Invariant.of_disciplined_run hstart hrun hall
  have hd := World.Disciplined.of_run hstart hrun hall
  exact ⟨fun data s' hstep => (hi.read_eq hd.covered hstep).2, hi.consumed_isPrefix⟩

end Runs

end TxQueue
