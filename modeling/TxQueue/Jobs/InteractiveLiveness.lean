import TxQueue.Jobs.InteractiveDelivery
import TxQueue.Jobs.Termination

/-!
# What is committed is reported in the end

The receiver polls for ever, so it comes to no end; but every committed message is reported by it
after some time, if it keeps running and its failed checks see the stores to the tail at some time.
Nothing is asked of the transmitter. As long as a committed message is unread, the receiver has
committed too few transactions; these settle, and from then on the message that is there has to be
taken by the next transaction.
-/

namespace TxQueue

open Library

/-! ## The turns of the receiver -/

/-- The consumer's side of the queue is where the control point of the receiver says. -/
def InteractiveReceiveControl.At (queue : BaseTxQueue) (side : Consumer)
    (c : InteractiveReceiveControl) : Prop :=
  match c with
  | .loop => side = .idle queue
  | _ => side.IsOpen queue c.reads

/-- The receiver has no transaction open that would not commit. -/
def InteractiveReceiveControl.Valid (side : Consumer) : InteractiveReceiveControl → Prop
  | .loop => True
  | _ => side.isValid = true

/-- The number of control points up to the end of a pass. -/
def InteractiveReceiveControl.pointsLeft : InteractiveReceiveControl → ℕ
  | .loop => 7
  | .opened => 6
  | .readNumber => 5
  | .readTimestamp _ => 4
  | .check _ => 3
  | .report _ => 2
  | .close => 1

/-- A bound for the steps of the receiver up to the end of its pass. -/
def InteractiveReceiveControl.rank (c : InteractiveReceiveControl) (side : Consumer) : ℕ :=
  4 * c.pointsLeft + side.stepsLeft

namespace InteractiveReceiveStep

variable {c c' : InteractiveReceiveControl} {a : ReportAction Message} {queue : BaseTxQueue}
  {vis : Visibility} {s s' : System}

theorem step_at (h : c.At queue s.consumer) (hjob : InteractiveReceiveStep c a c')
    (hacts : s.ConsumerActs vis a.onQueue s') : c'.At queue s'.consumer := by
  have hcall : ∀ size, c.reads = some size → s.consumer.IsOpen queue (some size) := by
    intro size hsize
    cases c with
    | readNumber | readTimestamp number =>
        rw [← hsize]
        exact h
    | _ => cases hsize
  cases hjob with
  | openRead => exact .of_openRead h hacts
  | enter | skip | checked | failed =>
      obtain ⟨-, rfl⟩ := hacts
      exact Consumer.IsOpen.of_live h
  | beginRead hsize =>
      have hopen := (hcall _ hsize).beginRead hacts
      cases c with
      | readNumber | readTimestamp number =>
          rw [← hsize] at hopen
          exact hopen
      | _ => cases hsize
  | copyOut hsize =>
      have hopen := (hcall _ hsize).copyOut hacts
      cases c with
      | readNumber | readTimestamp number =>
          rw [← hsize] at hopen
          exact hopen
      | _ => cases hsize
  | readNumber | readTimestamp => exact (hcall _ rfl).read hacts
  | refuseRead hsize => exact (hcall _ hsize).refuseRead hacts
  | report =>
      obtain rfl := hacts
      exact h
  | close => exact Consumer.IsOpen.closeRead h hacts

/-- If the bytes of the next call are there, the receiver's transactions stay valid. -/
theorem step_valid (hok : queue.isOk) (hat : c.At queue s.consumer) (hvalid : c.Valid s.consumer)
    (hjob : InteractiveReceiveStep c a c') (hacts : s.ConsumerActs vis a.onQueue s')
    (hthere : ∀ size, c.reads = some size → s.consumer.isValid = true →
      a ≠ .call (.refuseRead size)) : c'.Valid s'.consumer := by
  have hcall : ∀ size, c.reads = some size → s.consumer.isValid = true := by
    intro size hsize
    cases c with
    | readNumber | readTimestamp number => exact hvalid
    | _ => cases hsize
  have hsame : ∀ size, c.reads = some size → s'.consumer.isValid = true →
      c.Valid s'.consumer := by
    intro size hsize hvalid'
    cases c with
    | readNumber | readTimestamp number => exact hvalid'
    | _ => cases hsize
  cases hjob with
  | openRead => exact Step.openRead_isValid hok hat hacts
  | enter | checked =>
      obtain ⟨rfl, -⟩ := System.ConsumerActs.of_test hacts
      exact hvalid
  | skip | failed =>
      obtain ⟨-, hfalse⟩ := System.ConsumerActs.of_test hacts
      rw [show s.consumer.isValid = true from hvalid] at hfalse
      cases hfalse
  | beginRead hsize =>
      exact hsame _ hsize ((Step.beginRead_isValid hacts).trans (hcall _ hsize))
  | copyOut hsize => exact hsame _ hsize ((Step.copyOut_isValid hacts).trans (hcall _ hsize))
  | readNumber | readTimestamp => exact (Step.read_isValid hacts).trans hvalid
  | refuseRead hsize => exact absurd rfl (hthere _ hsize (hcall _ hsize))
  | report =>
      obtain rfl := hacts
      exact hvalid
  | close => exact trivial

/-- A step of the receiver closes a transaction or lowers the rank. -/
theorem rank_lt (hjob : InteractiveReceiveStep c a c') (hacts : s.ConsumerActs vis a.onQueue s') :
    (∃ published, a = .call (.closeRead published)) ∨ c'.rank s'.consumer < c.rank s.consumer := by
  cases hjob with
  | close => exact .inl ⟨_, rfl⟩
  | openRead =>
      right
      cases hacts with
      | openRead k hle hlt hside =>
          simp [InteractiveReceiveControl.rank, hside, Consumer.stepsLeft,
            InteractiveReceiveControl.pointsLeft]
  | enter | skip | checked | failed =>
      obtain ⟨-, rfl⟩ := hacts
      simp [InteractiveReceiveControl.rank, InteractiveReceiveControl.pointsLeft]
  | report =>
      obtain rfl := hacts
      simp [InteractiveReceiveControl.rank, InteractiveReceiveControl.pointsLeft]
  | beginRead hsize =>
      right
      cases hacts with
      | beginRead buffer size k hle hlt hside hreserve =>
          rw [InteractiveReceiveControl.rank, InteractiveReceiveControl.rank, hside]
          exact Nat.add_lt_add_left (Nat.lt_succ_of_le (copies_busy _ _ _).2) _
  | copyOut hsize =>
      right
      cases hacts with
      | copyOut hside hsees => simp [InteractiveReceiveControl.rank, hside, Consumer.stepsLeft]
  | readNumber hlen | readTimestamp hlen =>
      right
      cases hacts with
      | read hside hsees =>
          simp [InteractiveReceiveControl.rank, hside, Consumer.stepsLeft,
            InteractiveReceiveControl.pointsLeft]
  | refuseRead hsize =>
      right
      cases hacts with
      | refuseRead size k core hle hlt hside hreserve =>
          cases c with
          | readNumber | readTimestamp number =>
              simp [InteractiveReceiveControl.rank, hside, Consumer.stepsLeft,
                InteractiveReceiveControl.pointsLeft]
          | _ => cases hsize

/-- Wherever the receiver is, it can take a step, and its checks can see the last store. -/
theorem next (vis : Visibility) (h : c.At queue s.consumer) :
    ∃ a c' s', InteractiveReceiveStep c a c' ∧ s.ConsumerActs vis a.onQueue s' ∧
      ∀ size, a = .call (.refuseRead size) → s.consumer.isValid = true → UpToDate s'.down := by
  cases c with
  | loop => exact ⟨.call _, _, _, .openRead, .openRead _ le_rfl s.down.observed_lt h, by simp⟩
  | opened =>
      obtain ⟨tx, hside, -⟩ := Consumer.IsOpen.live h
      cases hvalid : tx.toBool with
      | true => exact ⟨.test true, _, s, .enter, ⟨⟨tx, hside, hvalid⟩, rfl⟩, by simp⟩
      | false => exact ⟨.test false, _, s, .skip, ⟨⟨tx, hside, hvalid⟩, rfl⟩, by simp⟩
  | readNumber =>
      obtain ⟨e, s', hstep, hsees, rfl | rfl | rfl | ⟨data, rfl, hlen⟩⟩ :=
        Consumer.IsOpen.next vis h
      · exact ⟨.call _, _, s', .beginRead rfl, hstep, by simp⟩
      · exact ⟨.call _, _, s', .copyOut rfl, hstep, by simp⟩
      · exact ⟨.call _, _, s', .refuseRead rfl, hstep, fun _ _ => hsees⟩
      · exact ⟨.call _, _, s', .readNumber hlen, hstep, by simp⟩
  | readTimestamp number =>
      obtain ⟨e, s', hstep, hsees, rfl | rfl | rfl | ⟨data, rfl, hlen⟩⟩ :=
        Consumer.IsOpen.next vis h
      · exact ⟨.call _, _, s', .beginRead rfl, hstep, by simp⟩
      · exact ⟨.call _, _, s', .copyOut rfl, hstep, by simp⟩
      · exact ⟨.call _, _, s', .refuseRead rfl, hstep, fun _ _ => hsees⟩
      · exact ⟨.call _, _, s', .readTimestamp hlen, hstep, by simp⟩
  | check message =>
      obtain ⟨tx, hside, -⟩ := Consumer.IsOpen.live h
      cases hvalid : tx.toBool with
      | true => exact ⟨.test true, _, s, .checked, ⟨⟨tx, hside, hvalid⟩, rfl⟩, by simp⟩
      | false => exact ⟨.test false, _, s, .failed, ⟨⟨tx, hside, hvalid⟩, rfl⟩, by simp⟩
  | report message => exact ⟨.report message, _, s, .report, rfl, by simp⟩
  | close =>
      obtain ⟨tx, hside, -⟩ := Consumer.IsOpen.live h
      exact ⟨.call _, _, _, .close, .closeRead hside, by simp⟩

/-- A transaction is closed at the end of a pass. -/
theorem control_of_close {published : Bool}
    (hjob : InteractiveReceiveStep c (.call (.closeRead published)) c') :
    c = .close ∧ c' = .loop := by
  cases hjob with
  | close => exact ⟨rfl, rfl⟩

end InteractiveReceiveStep

/-! ## The unread messages -/

namespace Interaction

variable {queue : RingQueue} {w : InteractiveWorld} {kept : Prop} {n : ℕ}

/-- The receiver has committed no more transactions than it has reported messages. -/
theorem length_consumed (hi : Interaction queue.capacity_ kept w) :
    w.log.history.consumed.length ≤ w.log.received.length := by
  have hlength := congrArg List.length hi.receiving.consumed_eq
  rw [List.length_map, List.length_take] at hlength
  omega

/-- With the bytes of the next call the receiver has read at most one message more than it has
committed. -/
theorem length_call {size : UInt64} (hi : Interaction queue.capacity_ kept w)
    (hreads : w.state.receive.reads = some size) :
    w.log.history.localHead + size.toNat ≤ 10 * (w.log.history.consumed.length + 1) := by
  have hhead : w.log.history.head = 10 * w.log.history.consumed.length := by
    rw [History.head, hi.receiving.consumed_eq, Message.length_flatten, List.length_map]
  have hplaced := hi.receiving
  rw [History.localHead, hhead]
  cases hreceive : w.state.receive with
  | readNumber =>
      rw [hreceive] at hreads hplaced
      obtain rfl := Option.some.inj hreads
      rw [hplaced.2]
      simp
      omega
  | readTimestamp number =>
      rw [hreceive] at hreads hplaced
      obtain rfl := Option.some.inj hreads
      rw [hplaced.2]
      simp
      omega
  | _ =>
      rw [hreceive] at hreads
      cases hreads

/-- While a message is unread, a check that has loaded the store that published it does not fail. -/
theorem not_refuseRead {size : UInt64} {s : System} (hi : Interaction queue.capacity_ kept w)
    (hunread : w.log.history.consumed.length < n) (hle : n ≤ w.log.history.written.length)
    (hreads : w.state.receive.reads = some size)
    (hvalid : w.state.system.consumer.isValid = true) (hsees : n ≤ s.down.observed) :
    ¬ Step .everyLoad w.state.system (.refuseRead size) s := by
  intro hstep
  have hshort : boundary w.log.history.written n < w.log.history.localHead + size.toNat :=
    hi.queue.indices.short_of_seen queue.isPowTwo hstep hvalid hsees
  obtain ⟨messages, hwritten⟩ := hi.reporting.messages
  change w.log.history.written = messages.map Message.bytes at hwritten
  have hboundary : boundary w.log.history.written n = 10 * n := by
    rw [hwritten, List.length_map] at hle
    rw [boundary, hwritten, ← List.map_take, Message.length_flatten,
      List.length_take_of_le hle]
  have hcall := hi.length_call hreads
  omega

end Interaction

/-! ## Executions -/

section Executions

variable {queue : RingQueue}
  {x : Execution (interactiveWorldLts queue.toBaseTxQueue .everyLoad)} {n m : ℕ}

/-- The checks of the transmitter up to the moment `n` have found room. -/
def FoundRoom (x : Execution (interactiveWorldLts queue.toBaseTxQueue .everyLoad)) (n : ℕ) : Prop :=
  ∀ k < n, ∀ e, x.event k = some e →
    e.HasRoom queue.capacity_ (x.state k).world (x.state (k + 1)).world

/-- Stores to the tail are seen at some time by the checks of the receiver that fail. -/
def ReceiverSeesStores (x : Execution (interactiveWorldLts queue.toBaseTxQueue .everyLoad)) :
    Prop :=
  ∀ n, ∃ k, ∀ m size, k ≤ m → x.event m = some (.receive (.call (.refuseRead size))) →
    (x.state m).state.system.consumer.isValid = true →
    (x.state n).state.system.down.last ≤ (x.state (m + 1)).state.system.down.observed

theorem InteractiveStep.of_transmit {vis : Visibility} {s s' : Interactive}
    {a : ReportAction Message} (hstep : InteractiveStep vis s (.transmit a) s') :
    InteractiveTransmitStep s.transmit a s'.transmit ∧
      s.system.ProducerActs vis a.onQueue s'.system ∧ s'.receive = s.receive := by
  cases hstep with
  | transmit hjob hacts => exact ⟨hjob, hacts, rfl⟩

theorem InteractiveStep.of_receive {vis : Visibility} {s s' : Interactive}
    {a : ReportAction Message} (hstep : InteractiveStep vis s (.receive a) s') :
    InteractiveReceiveStep s.receive a s'.receive ∧
      s.system.ConsumerActs vis a.onQueue s'.system ∧ s'.transmit = s.transmit := by
  cases hstep with
  | receive hjob hacts => exact ⟨hjob, hacts, rfl⟩

/-- What the transmitter does leaves the consumer's side alone. -/
theorem InteractiveTransmitStep.consumer_eq {vis : Visibility} {s s' : System}
    {c c' : SendControl Message} {a : ReportAction Message} (hjob : InteractiveTransmitStep c a c')
    (hacts : s.ProducerActs vis a.onQueue s') : s'.consumer = s.consumer := by
  rcases ReportAction.producerActs_cases hacts with ⟨e, rfl, hstep⟩ | ⟨rfl, -⟩
  · exact Step.consumer_eq hstep hjob.ofProducer
  · rfl

/-- The invariant holds along an execution, with the account of the messages as long as there is
room. -/
theorem Interaction.of_execution
    (hstart : (interactiveWorldLts queue.toBaseTxQueue .everyLoad).initial (x.state 0)) (n : ℕ) :
    Interaction queue.capacity_ (FoundRoom x n) (x.state n) := by
  induction n with
  | zero => exact .of_initial hstart fun k hk => absurd hk k.not_lt_zero
  | succ n ih =>
      have hroom : FoundRoom x (n + 1) ↔ FoundRoom x n ∧ ∀ e, x.event n = some e →
          e.HasRoom queue.capacity_ (x.state n).world (x.state (n + 1)).world :=
        Nat.forall_lt_succ_right
      rw [hroom]
      cases hevent : x.event n with
      | none =>
          have hfollows := x.follows n
          rw [hevent] at hfollows
          have hsame : x.state (n + 1) = x.state n := hfollows
          rw [hsame]
          simpa using ih
      | some e => simpa using ih.step (x.step hevent)

theorem InteractiveLog.record_isPrefix (log : InteractiveLog) (e : InteractiveEvent) :
    log.history.written <+: (log.record e).history.written ∧
      log.history.consumed <+: (log.record e).history.consumed := by
  cases e with
  | transmit a | receive a =>
      cases a with
      | call e => exact log.history.record_isPrefix e
      | _ => exact ⟨List.prefix_rfl, List.prefix_rfl⟩

/-- What is committed at some moment stays committed. -/
theorem interactive_isPrefix (hle : n ≤ m) :
    (x.state n).log.history.written <+: (x.state m).log.history.written ∧
      (x.state n).log.history.consumed <+: (x.state m).log.history.consumed := by
  refine x.induct (I := fun w => (x.state n).log.history.written <+: w.log.history.written ∧
    (x.state n).log.history.consumed <+: w.log.history.consumed)
    ⟨List.prefix_rfl, List.prefix_rfl⟩ ?_ hle
  intro k e _ hevent hk
  have hrecord := (x.state k).log.record_isPrefix e
  rw [← (x.step hevent).2] at hrecord
  exact ⟨hk.1.trans hrecord.1, hk.2.trans hrecord.2⟩

/-- A receiver that keeps running closes transactions again and again. -/
theorem often_closeRead_interactive (hruns : x.Often fun e => ∃ a, e = .receive a) :
    x.Often fun e => ∃ published, e = .receive (.call (.closeRead published)) := by
  intro k
  refine hruns.finish (fun w => w.state.receive.rank w.state.system.consumer) ?_ ?_
  · rintro m _ - hevent ⟨a, rfl⟩
    obtain ⟨hjob, hacts, -⟩ := (x.step hevent).1.of_receive
    rcases hjob.rank_lt hacts with ⟨published, rfl⟩ | hlt
    · exact .inl ⟨published, rfl⟩
    · exact .inr hlt
  · rintro m e - hevent hother
    cases e with
    | receive a => exact absurd ⟨a, rfl⟩ hother
    | transmit a =>
        obtain ⟨hjob, hacts, hsame⟩ := (x.step hevent).1.of_transmit
        rw [hsame, hjob.consumer_eq hacts]

/-- Every step keeps the consumer's side where the receiver says. -/
theorem InteractiveStep.receiver_at {vis : Visibility} {s s' : Interactive} {e : InteractiveEvent}
    {queue : BaseTxQueue} (hat : s.receive.At queue s.system.consumer)
    (hstep : InteractiveStep vis s e s') : s'.receive.At queue s'.system.consumer := by
  cases hstep with
  | receive hjob hacts => exact hjob.step_at hat hacts
  | transmit hjob hacts =>
      rw [hjob.consumer_eq hacts]
      exact hat

theorem Interactive.IsFresh.receiver_at {queue : BaseTxQueue} {s : Interactive}
    (h : s.IsFresh queue) : s.receive.At queue s.system.consumer := by
  rw [h.receive]
  exact h.system.consumer

/-- The receiver commits a transaction for each transaction that the transmitter has committed. -/
theorem exists_consumed (hok : queue.isOk)
    (hstart : (interactiveWorldLts queue.toBaseTxQueue .everyLoad).initial (x.state 0))
    (hruns : x.Often fun e => ∃ a, e = .receive a) (hsees : ReceiverSeesStores x) (n : ℕ) :
    ∃ m, n ≤ m ∧
      (x.state n).log.history.written.length ≤ (x.state m).log.history.consumed.length := by
  by_contra hnever
  have hi := Interaction.of_execution hstart
  have hat : ∀ m, (x.state m).state.receive.At queue.toBaseTxQueue
      (x.state m).state.system.consumer :=
    fun m => x.induct (n := 0) (I := fun w => w.state.receive.At queue.toBaseTxQueue
      w.state.system.consumer) hstart.1.receiver_at
      (fun _ _ _ hevent hat => (x.step hevent).1.receiver_at hat) m.zero_le
  have hunread : ∀ m, (x.state m).log.history.consumed.length <
      (x.state n).log.history.written.length := by
    intro m
    have hle := (interactive_isPrefix (x := x) (le_max_right n m)).2.length_le
    exact hle.trans_lt (not_le.1 fun h => hnever ⟨max n m, le_max_left n m, h⟩)
  -- the commits of the receiver settle, and its checks see the message
  obtain ⟨n₁, hn₁⟩ := x.settles (fun w => w.log.history.consumed.length) _
    (fun m => (interactive_isPrefix m.le_succ).2.length_le) fun m => (hunread m).le
  obtain ⟨k, hk⟩ := hsees n
  obtain ⟨m, hm, _, hevent, ⟨published, rfl⟩, hvalid⟩ :=
    (often_closeRead_interactive hruns).holding (n := max n (max n₁ k))
      (I := fun w => w.state.receive.Valid w.state.system.consumer) (by
      rintro m _ - hevent ⟨published, rfl⟩
      rw [(x.step hevent).1.of_receive.1.control_of_close.2]
      trivial) (by
      intro m e hm hevent hvalid
      cases e with
      | transmit a =>
          obtain ⟨hjob, hacts, hsame⟩ := (x.step hevent).1.of_transmit
          rw [hsame, hjob.consumer_eq hacts]
          exact hvalid
      | receive a =>
          obtain ⟨hjob, hacts, -⟩ := (x.step hevent).1.of_receive
          refine hjob.step_valid hok (hat m) hvalid hacts ?_
          rintro size hreads hopen rfl
          have hwritten := (interactive_isPrefix (x := x) (show n ≤ m by omega)).1.length_le
          have hseen := hk m size (by omega) hevent hopen
          rw [show (x.state n).state.system.down.last = (x.state n).log.history.written.length from
            (hi n).queue.indices.tails.last_eq] at hseen
          exact (hi m).not_refuseRead (hunread m) hwritten hreads hopen hseen hacts)
  -- so the next transaction commits
  obtain ⟨hjob, hacts, -⟩ := (x.step hevent).1.of_receive
  rw [hjob.control_of_close.1] at hvalid
  obtain rfl : published = true := (Step.closeRead_published hacts).trans hvalid
  have hsame := (hn₁ (m + 1) (by omega)).trans (hn₁ m (by omega)).symm
  rw [(x.step hevent).2] at hsame
  simp [InteractiveLog.record, ReportAction.record, History.record] at hsame

/-- In every execution in which the receiver keeps running and its failed checks see the stores to
the tail at some time, every message that is committed is reported by the receiver after some time,
in the order of the commits. Up to a moment before which each check of the transmitter has found
room, these are the messages that the transmitter has reported, and the one it is about to. -/
theorem eventually_received (queue : RingQueue) (hok : queue.isOk)
    (x : Execution (interactiveWorldLts queue.toBaseTxQueue .everyLoad))
    (hstart : (interactiveWorldLts queue.toBaseTxQueue .everyLoad).initial (x.state 0))
    (hruns : x.Often fun e => ∃ a, e = .receive a) (hsees : ReceiverSeesStores x) (n : ℕ) :
    ∃ messages, (x.state n).log.history.written = messages.map Message.bytes ∧
      (FoundRoom x n → messages = (x.state n).log.sent ++ (x.state n).state.transmit.pending) ∧
      ∃ m, n ≤ m ∧ messages <+: (x.state m).log.received := by
  have hi := Interaction.of_execution hstart
  obtain ⟨messages, hwritten⟩ := (hi n).reporting.messages
  change (x.state n).log.history.written = messages.map Message.bytes at hwritten
  refine ⟨messages, hwritten, ?_, ?_⟩
  · intro hroom
    obtain ⟨-, hreported⟩ := (hi n).reporting.reported hroom
    change (x.state n).log.history.written = _ at hreported
    rw [List.nil_append, hwritten] at hreported
    exact List.map_injective_iff.2 Message.bytes_injective hreported
  · obtain ⟨m, hle, hconsumed⟩ := exists_consumed hok hstart hruns hsees n
    refine ⟨m, hle, ?_⟩
    obtain ⟨messages', -, hwritten', hreceived, -⟩ := (hi m).exists_messages
    have hprefix := (interactive_isPrefix (x := x) hle).1
    rw [hwritten, hwritten', List.prefix_map_iff_of_injective Message.bytes_injective] at hprefix
    rw [hwritten, List.length_map] at hconsumed
    exact List.prefix_of_prefix_length_le hprefix hreceived
      (hconsumed.trans (hi m).length_consumed)

/-- From every state in which the consumer's side is where the receiver says, there is an execution
in which the receiver polls, and its failed checks see the last store. -/
theorem exists_polling {w : InteractiveWorld}
    (hat : w.state.receive.At queue.toBaseTxQueue w.state.system.consumer) :
    ∃ x : Execution (interactiveWorldLts queue.toBaseTxQueue .everyLoad), x.state 0 = w ∧
      (∀ n, ∃ m, n ≤ m ∧ ∃ e, x.event m = some e ∧ ∃ a, e = .receive a) ∧
      ∀ m size, x.event m = some (.receive (.call (.refuseRead size))) →
        (x.state m).state.system.consumer.isValid = true →
        UpToDate (x.state (m + 1)).state.system.down := by
  have hturn : ∀ (_ : Unit) (w : InteractiveWorld),
      w.state.receive.At queue.toBaseTxQueue w.state.system.consumer →
      ∃ event w', Execution.Turn (interactiveWorldLts queue.toBaseTxQueue .everyLoad)
        (fun w e w' => ∀ size, e = .receive (.call (.refuseRead size)) →
          w.state.system.consumer.isValid = true → UpToDate w'.state.system.down)
        (fun e => ∃ a, e = .receive a) (fun _ => False) w event w' ∧
        w'.state.receive.At queue.toBaseTxQueue w'.state.system.consumer := by
    intro _ w hat
    obtain ⟨a, c, s, hjob, hacts, hsees⟩ := InteractiveReceiveStep.next .everyLoad hat
    refine ⟨some (.receive a), ⟨⟨s, w.state.transmit, c⟩, w.log.record (.receive a)⟩,
      ⟨⟨a, rfl⟩, ⟨.receive hjob hacts, rfl⟩, ?_⟩, hjob.step_at hat hacts⟩
    intro size he
    exact hsees size (InteractiveEvent.receive.inj he)
  obtain ⟨x, hx, -, hlast, hruns⟩ :=
    Execution.exists_scheduled
      (K := fun w : InteractiveWorld => w.state.receive.At queue.toBaseTxQueue
        w.state.system.consumer)
      (fun _ => ()) (fun _ n => ⟨n, le_rfl, rfl⟩) hat hturn
  refine ⟨x, hx, fun n => ?_, fun m size hevent => hlast m _ hevent size rfl⟩
  obtain ⟨m, hle, hm⟩ := hruns () n
  exact ⟨m, hle, hm.resolve_left id⟩

end Executions

/-- `eventually_received` on a single press of the key. -/
theorem eventually_received_one_press :
    ∃ x : Execution (interactiveWorldLts frameQueue.toBaseTxQueue .everyLoad),
      (x.Often fun e => ∃ a, e = .receive a) ∧ ReceiverSeesStores x ∧ ∃ n m,
        (x.state n).log.sent = [⟨7, 9⟩] ∧ (x.state n).log.received = [] ∧
        [⟨7, 9⟩] <+: (x.state m).log.received := by
  have hstart := freshInteractive_initial frameQueue.toBaseTxQueue .everyLoad
  obtain ⟨ts, w, hrun, -, -, hsent, hreceived, hwritten⟩ := one_press_run
  have hat : w.state.receive.At frameQueue.toBaseTxQueue w.state.system.consumer :=
    hrun.invariant (I := fun w => w.state.receive.At frameQueue.toBaseTxQueue
      w.state.system.consumer) hstart.1.receiver_at fun w e w' hat hstep => hstep.1.receiver_at hat
  obtain ⟨x, hx, hruns, hlast⟩ := exists_polling hat
  obtain ⟨y, hy, n, hn⟩ := Execution.exists_append hrun x hx
  have hstart' := hy ▸ hstart
  have hruns' : y.Often fun e => ∃ a, e = .receive a := by
    intro k
    obtain ⟨m, hle, e, hevent, he⟩ := hruns k
    exact ⟨n + m, by omega, e, (hn m).2.trans hevent, he⟩
  have hsees : ReceiverSeesStores y := by
    intro k
    refine ⟨max n k, fun m size hle hevent hvalid => ?_⟩
    have hdown : ∀ m, (y.state m).state.system.down.last =
        (y.state m).log.history.written.length :=
      fun m => (Interaction.of_execution hstart' m).queue.indices.tails.last_eq
    have hcurrent : UpToDate (y.state (m + 1)).state.system.down := by
      obtain ⟨j, rfl⟩ := Nat.exists_eq_add_of_le ((le_max_left n k).trans hle)
      rw [(hn j).2] at hevent
      rw [(hn j).1] at hvalid
      rw [Nat.add_assoc, (hn (j + 1)).1]
      exact hlast j size hevent hvalid
    rw [hcurrent, hdown k, hdown (m + 1)]
    exact (interactive_isPrefix (by omega)).1.length_le
  have hw : y.state n = w := (hn 0).1.trans hx
  obtain ⟨messages, hmessages, -, m, -, hprefix⟩ :=
    eventually_received frameQueue (by decide) y hstart' hruns' hsees n
  rw [hw, hwritten] at hmessages
  obtain rfl : [⟨7, 9⟩] = messages :=
    List.map_injective_iff.2 Message.bytes_injective (by simpa using hmessages)
  exact ⟨y, hruns', hsees, n, m, by rw [hw, hsent], by rw [hw, hreceived], hprefix⟩

end TxQueue
