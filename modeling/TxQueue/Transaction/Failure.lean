import TxQueue.Transaction.Overloads

/-!
# Failure of a write and publication

A session is a write transaction from its construction on, used by any sequence of `write` and
`invalidate` calls. `imp_write` leaves a valid transaction exactly when it returns `true`. The one
path on which a call returns `false` without going through `imp_write` is that of an empty text;
in every session without such a call on a valid transaction, failure is sticky and publication
exact, and in every other one it is not.
-/

namespace TxQueue

open Library

/-- A write transaction and the block it writes to. -/
structure Session where
  tx : TxWrite
  block : Block

/-- The calls of a session, with what they return. -/
inductive SessionEvent where
  | wrote (call : WriteCall) (ok : Bool)
  | invalidated

/-- The steps of a session. -/
inductive SessionStep : Session → SessionEvent → Session → Prop where
  | write {s : Session} {result : WriteResult} (call : WriteCall) (env : ℕ → Env)
      (hresult : writeAll env s.tx s.block call.ops = result) :
      SessionStep s (.wrote call result.ok) ⟨result.tx, result.block⟩
  | invalidate {s : Session} : SessionStep s .invalidated ⟨s.tx.invalidate, s.block⟩

/-- The sessions on a queue. The constructor may load any indices. -/
def sessionLts (queue : BaseTxQueue) : Lts Session SessionEvent where
  initial s := ∃ tail head, s.tx = .construct queue tail head
  step := SessionStep

/-- A `write` that returned `true`. -/
def SessionEvent.Succeeds : SessionEvent → Prop
  | .wrote _ ok => ok
  | .invalidated => False

/-- A `write` that returned `false`. -/
def SessionEvent.Fails : SessionEvent → Prop
  | .wrote _ ok => ok = false
  | .invalidated => False

theorem SessionEvent.Fails.not_succeeds {e : SessionEvent} (h : e.Fails) : ¬ e.Succeeds := by
  cases e with
  | wrote call ok =>
      show ¬ ok = true
      rw [show ok = false from h]
      exact Bool.false_ne_true
  | invalidated => exact h.elim

/-- After a `write` has returned `false` the transaction is invalid, and every later `write`
returns `false` and changes no byte of the ring. -/
def Sticky (ts : List (Transition Session SessionEvent)) : Prop :=
  ∀ before t after, ts = before ++ t :: after → t.event.Fails →
    t.target.tx.toBool = false ∧
    ∀ u ∈ after, ∀ call ok, u.event = .wrote call ok →
      ok = false ∧ u.target.block.ring = u.source.block.ring

/-- The destructor stores `tail_` exactly if the queue was ok, every `write` returned `true` and
`invalidate` was not called. -/
def PublishesExactly (queue : BaseTxQueue) (ts : List (Transition Session SessionEvent))
    (s : Session) : Prop :=
  s.tx.published.isSome ↔ queue.isOk ∧ ∀ t ∈ ts, t.event.Succeeds

/-- A `write` of an empty text, alone or as the first of several arguments, on a valid
transaction. -/
def WritesEmptyText (t : Transition Session SessionEvent) : Prop :=
  t.source.tx.toBool ∧ ∃ call ok, t.event = .wrote call ok ∧ call.first.IsEmptyText

section Steps

variable {s s' : Session} {e : SessionEvent}

/-- A step on an invalid transaction leaves it invalid, and as a `write` returns `false` and leaves
the ring alone. -/
theorem SessionStep.of_invalid (hstep : SessionStep s e s') (hinvalid : s.tx.toBool = false) :
    s'.tx.toBool = false ∧ ∀ call ok, e = .wrote call ok →
      ok = false ∧ s'.block.ring = s.block.ring := by
  cases hstep with
  | write call env hresult =>
      subst hresult
      obtain ⟨op, tail, hops, -⟩ := call.ops_eq
      have hne : call.ops ≠ [] := by simp [hops]
      obtain ⟨hok, htx, hring⟩ := writeAll_of_invalid env s.block
        (by simpa [TxWrite.toBool] using hinvalid) hne
      refine ⟨by rwa [htx], ?_⟩
      rintro call' ok ⟨⟩
      exact ⟨hok, hring⟩
  | invalidate => exact ⟨rfl, by simp⟩

/-- A `write` of an empty text on a valid transaction returns `false` and leaves it valid. -/
theorem SessionStep.of_writesEmptyText (hstep : SessionStep s e s')
    (hempty : WritesEmptyText ⟨s, e, s'⟩) : e.Fails ∧ s'.tx.toBool := by
  obtain ⟨hvalid, call, ok, rfl, hfirst⟩ := hempty
  cases hstep with
  | write call env hresult =>
      subst hresult
      obtain ⟨op, tail, hops, hop, -⟩ := call.ops_eq
      rw [hop.2 hfirst] at hops
      simp only [hops, writeAll]
      exact ⟨rfl, hvalid⟩

/-- Any other step leaves a valid transaction exactly if it starts with one and succeeds. -/
theorem SessionStep.toBool_iff (hstep : SessionStep s e s')
    (hempty : ¬ WritesEmptyText ⟨s, e, s'⟩) : s'.tx.toBool ↔ s.tx.toBool ∧ e.Succeeds := by
  cases hvalid : s.tx.toBool with
  | false => simp [(hstep.of_invalid hvalid).1]
  | true =>
      cases hstep with
      | write call env hresult =>
          subst hresult
          obtain ⟨op, tail, hops, hop, htail⟩ := call.ops_eq
          have hsome : none ∉ call.ops := by
            rw [hops, List.mem_cons, not_or]
            refine ⟨?_, htail⟩
            intro hnone
            exact hempty ⟨hvalid, call, _, rfl, hop.1 hnone.symm⟩
          simp [SessionEvent.Succeeds, writeAll_ok hvalid hsome]
      | invalidate => simp [SessionEvent.Succeeds, TxWrite.toBool]

end Steps

section Runs

variable {queue : BaseTxQueue} {start s : Session} {ts : List (Transition Session SessionEvent)}

/-- In a session without empty texts the transaction is valid exactly if the queue was ok and all
calls succeeded. -/
theorem toBool_iff_of_run (hstart : (sessionLts queue).initial start)
    (hrun : Run (sessionLts queue) start ts s) (hempty : ∀ t ∈ ts, ¬ WritesEmptyText t) :
    s.tx.toBool ↔ queue.isOk ∧ ∀ t ∈ ts, t.event.Succeeds := by
  induction hrun with
  | nil =>
      obtain ⟨tail, head, htx⟩ := hstart
      simp [htx, TxWrite.construct, TxWrite.toBool]
  | snoc hrun hstep ih =>
      simp only [List.mem_append, List.mem_singleton, or_imp, forall_and, forall_eq] at hempty ⊢
      rw [SessionStep.toBool_iff hstep hempty.2, ih hempty.1, and_assoc]

/-- After an invalid state the rest of a session changes nothing. -/
theorem invalid_of_run (hrun : Run (sessionLts queue) start ts s)
    (hinvalid : start.tx.toBool = false) : ∀ t ∈ ts, ∀ call ok, t.event = .wrote call ok →
      ok = false ∧ t.target.block.ring = t.source.block.ring := by
  intro t ht
  obtain ⟨hsource, hstep, -⟩ := hrun.invariant_of_mem (I := fun s => s.tx.toBool = false) hinvalid
    (fun s e s' hs hstep => (SessionStep.of_invalid hstep hs).1) t ht
  exact (SessionStep.of_invalid hstep hsource).2

end Runs

/-- In every session, failure is sticky and publication exact if and only if no `write` of an empty
text is made while the transaction is valid. -/
theorem sticky_iff (queue : BaseTxQueue) {start s : Session}
    {ts : List (Transition Session SessionEvent)} (hstart : (sessionLts queue).initial start)
    (hrun : Run (sessionLts queue) start ts s) :
    (Sticky ts ∧ PublishesExactly queue ts s) ↔ ∀ t ∈ ts, ¬ WritesEmptyText t := by
  constructor
  · rintro ⟨hsticky, -⟩ t ht hempty
    obtain ⟨before, after, rfl⟩ := List.append_of_mem ht
    obtain ⟨hfails, hvalid⟩ := SessionStep.of_writesEmptyText hrun.split_at.2.1 hempty
    -- the call has failed and left the transaction valid
    exact absurd hvalid (by simp [(hsticky before t after rfl hfails).1])
  · intro hempty
    constructor
    · rintro before t after rfl hfails
      obtain ⟨-, hstep, hafter⟩ := hrun.split_at
      have hinvalid : t.target.tx.toBool = false := by
        by_contra hvalid
        have hiff := SessionStep.toBool_iff hstep (hempty t (by simp))
        exact hfails.not_succeeds (hiff.1 (by simpa using hvalid)).2
      exact ⟨hinvalid, invalid_of_run hafter hinvalid⟩
    · have hiff := toBool_iff_of_run hstart hrun hempty
      rw [PublishesExactly, ← hiff]
      cases hinv : s.tx.invalidated_ <;> simp [TxWrite.published, TxWrite.toBool, hinv]

/-- `write("")`. -/
def writeEmptyText : WriteCall where
  first := .array .char 1 4096 fun _ => 0
  rest := []
  ops := [none]
  resolves := rfl

/-- `write(uint8_t{7})`. -/
def writeByte : WriteCall where
  first := .value [7] (some 7)
  rest := []
  ops := [some (.ofList [7])]
  resolves := rfl

/-- A write transaction just opened on an empty queue of four slots. -/
def openSession : Session where
  tx := .construct { storage_ := 64, capacity_ := 4 } 0 0
  block := { ring := fun _ => 0, status := { tail_ := 0, head_ := 0 } }

/-- After `write("")` has returned `false`, the next `write` returns `true` and the destructor
publishes. -/
theorem empty_text_not_sticky : ∃ ts s,
    (sessionLts { storage_ := 64, capacity_ := 4 }).initial openSession ∧
    Run (sessionLts { storage_ := 64, capacity_ := 4 }) openSession ts s ∧
    ¬ Sticky ts ∧ ¬ PublishesExactly { storage_ := 64, capacity_ := 4 } ts s ∧
    s.tx.published = some 1 := by
  have hfirst := Run.single (A := sessionLts { storage_ := 64, capacity_ := 4 })
    (SessionStep.write (s := openSession) writeEmptyText (fun _ => ⟨0, 0⟩) rfl)
  have hrun := hfirst.snoc (.write writeByte (fun _ => ⟨0, 0⟩) rfl)
  refine ⟨_, _, ⟨0, 0, rfl⟩, hrun, ?_, ?_, rfl⟩
  · intro hsticky
    exact absurd (hsticky [] _ _ rfl rfl).1 (by decide)
  · intro hexact
    exact absurd ((hexact.1 rfl).2 _ List.mem_cons_self)
      (by simp [SessionEvent.Succeeds, writeAll, writeEmptyText])

/-- `sticky_iff` on a session that writes a byte. -/
theorem sticky_of_byte : ∃ ts s,
    Run (sessionLts { storage_ := 64, capacity_ := 4 }) openSession ts s ∧
    s.tx.published = some 1 ∧ Sticky ts ∧
    PublishesExactly { storage_ := 64, capacity_ := 4 } ts s := by
  have hrun := Run.single (A := sessionLts { storage_ := 64, capacity_ := 4 })
    (SessionStep.write (s := openSession) writeByte (fun _ => ⟨0, 0⟩) rfl)
  refine ⟨_, _, hrun, rfl, (sticky_iff _ ⟨0, 0, rfl⟩ hrun).2 ?_⟩
  intro t ht
  obtain rfl := List.mem_singleton.1 ht
  rintro ⟨-, call, ok, heq, hempty⟩
  cases heq
  exact hempty

end TxQueue
