import TxQueue.Concurrent.Capacity
import TxQueue.Jobs.EndToEnd
import TxQueue.Jobs.InteractivePasses
import TxQueue.Jobs.Reporting

/-!
# What is reported as sent is delivered as long as there is room

The committed transactions of the interactive jobs are messages of one length, and the queue is
first in, first out. So the receiver reports the committed messages, in order, and the others are in
the queue; `Reporting` says when these are the messages that the transmitter reports.
-/

namespace TxQueue

open Library

/-! ## The receiver -/

/-- What a control point of the receiver says about the open transaction and the history, given the
messages it has reported. -/
def InteractiveReceiveControl.Placed (valid : Bool) (consumed : List (List UInt8))
    (reading : List UInt8) (received : List Message) : InteractiveReceiveControl → Prop
  | .loop => consumed = received.map Message.bytes
  | .opened => consumed = received.map Message.bytes ∧ reading = []
  | .readNumber => consumed = received.map Message.bytes ∧ reading = []
  | .readTimestamp number => consumed = received.map Message.bytes ∧ reading = le16 number
  | .check message => consumed = received.map Message.bytes ∧ (valid → reading = message.bytes)
  | .report message => consumed = received.map Message.bytes ∧ valid ∧ reading = message.bytes
  | .close => (if valid then consumed ++ [reading] else consumed) = received.map Message.bytes

namespace InteractiveReceiveControl

variable {c c' : InteractiveReceiveControl} {cap : UInt64} {vis : Visibility} {s s' : System}
  {h : History} {received : List Message} {a : ReportAction Message}

/-- Every step of the receiver keeps its invariant. -/
theorem Placed.step (hindices : Indices cap ⟨s, h⟩)
    (hi : c.Placed s.consumer.isValid h.consumed h.reading received)
    (hjob : InteractiveReceiveStep c a c') (hacts : s.ConsumerActs vis a.onQueue s') :
    c'.Placed s'.consumer.isValid (a.record h).consumed (a.record h).reading
      (a.recordReport received) := by
  cases hjob with
  | openRead => exact ⟨hi, Receiving.reading_of_openRead hindices hacts⟩
  | enter =>
      obtain ⟨-, rfl⟩ := hacts
      exact hi
  | skip =>
      obtain ⟨rfl, hinvalid⟩ := System.ConsumerActs.of_test hacts
      rw [hinvalid]
      exact hi.1
  | beginRead hsize =>
      have hvalid := Step.beginRead_isValid hacts
      rw [hvalid]
      exact hi
  | copyOut hsize =>
      have hvalid := Step.copyOut_isValid hacts
      rw [hvalid]
      exact hi
  | @readNumber data hlen =>
      obtain ⟨hconsumed, hreading⟩ := hi
      refine ⟨hconsumed, ?_⟩
      show h.reading ++ data = _
      rw [hreading, List.nil_append, le16_ofLe16 hlen]
  | @readTimestamp number data hlen =>
      obtain ⟨hconsumed, hreading⟩ := hi
      refine ⟨hconsumed, fun _ => ?_⟩
      show h.reading ++ data = _
      rw [hreading, Message.bytes_eq, UInt64.toUInt64_toInt64, le64_ofLe64 hlen]
  | refuseRead hsize =>
      have hinvalid := Step.refuseRead_isValid hacts
      rw [hinvalid]
      cases c with
      | readNumber => exact ⟨hi.1, by simp⟩
      | readTimestamp number => exact ⟨hi.1, by simp⟩
      | _ => cases hsize
  | checked =>
      obtain ⟨rfl, hvalid⟩ := System.ConsumerActs.of_test hacts
      exact ⟨hi.1, hvalid, hi.2 hvalid⟩
  | failed =>
      obtain ⟨rfl, hinvalid⟩ := System.ConsumerActs.of_test hacts
      rw [hinvalid]
      exact hi.1
  | report =>
      obtain rfl := hacts
      obtain ⟨hconsumed, hvalid, hreading⟩ := hi
      rw [hvalid]
      show h.consumed ++ [h.reading] = (received ++ [_]).map Message.bytes
      rw [hconsumed, hreading, List.map_append, List.map_singleton]
  | close =>
      have hpublished := Step.closeRead_published hacts
      subst hpublished
      exact hi

/-- A step of the transmitter leaves the invariant of the receiver alone. -/
theorem Placed.of_transmit {control control' : SendControl Message}
    (hi : c.Placed s.consumer.isValid h.consumed h.reading received)
    (hjob : InteractiveTransmitStep control a control') (hacts : s.ProducerActs vis a.onQueue s') :
    c.Placed s'.consumer.isValid (a.record h).consumed (a.record h).reading received := by
  rcases ReportAction.producerActs_cases hacts with ⟨e, rfl, hstep⟩ | ⟨rfl, hrecord⟩
  · obtain ⟨hconsumed, hreading⟩ := h.record_of_producer hjob.ofProducer
    show c.Placed s'.consumer.isValid (h.record e).consumed (h.record e).reading received
    rw [hconsumed, hreading, Step.consumer_eq hstep hjob.ofProducer]
    exact hi
  · rw [hrecord]
    exact hi

/-- The committed read transactions are the messages that were reported, up to the one that is not
closed yet. -/
theorem Placed.map_bytes {valid : Bool} {consumed : List (List UInt8)} {reading : List UInt8}
    (hi : c.Placed valid consumed reading received) :
    received.map Message.bytes = consumed ∨ received.map Message.bytes = consumed ++ [reading] := by
  cases c with
  | loop => exact .inl hi.symm
  | close =>
      cases valid with
      | true => exact .inr hi.symm
      | false => exact .inl hi.symm
  | _ => exact .inl hi.1.symm

/-- The messages of the committed read transactions. -/
theorem Placed.consumed_eq {valid : Bool} {consumed : List (List UInt8)} {reading : List UInt8}
    (hi : c.Placed valid consumed reading received) :
    consumed = (received.take consumed.length).map Message.bytes := by
  rw [List.map_take]
  rcases hi.map_bytes with hmap | hmap
  · rw [hmap, List.take_length]
  · rw [hmap, List.take_left]

/-- What was reported has been read. -/
theorem Placed.flatten_isPrefix {valid : Bool} {consumed : List (List UInt8)}
    {reading : List UInt8} (hi : c.Placed valid consumed reading received) :
    (received.map Message.bytes).flatten <+: consumed.flatten ++ reading := by
  rcases hi.map_bytes with hmap | hmap
  · rw [hmap]
    exact List.prefix_append _ _
  · rw [hmap, List.flatten_append, List.flatten_singleton]

end InteractiveReceiveControl

/-! ## The two jobs -/

/-- If the event is an availability check of the transmitter, then there is room. -/
def InteractiveEvent.HasRoom (cap : UInt64) (w w' : World) : InteractiveEvent → Prop
  | .transmit a => a.HasRoom cap w w'
  | .receive _ => True

/-- The invariant of the two jobs. -/
structure Interaction (cap : UInt64) (kept : Prop) (w : InteractiveWorld) : Prop where
  queue : Invariant cap w.world
  reporting : Reporting Message.parts [] w.state.transmit w.state.system.producer.isValid
    w.log.history w.log.sent kept
  receiving : w.state.receive.Placed w.state.system.consumer.isValid w.log.history.consumed
    w.log.history.reading w.log.received

namespace Interaction

variable {queue : RingQueue} {start w w' : InteractiveWorld} {kept : Prop} {e : InteractiveEvent}
  {ts : List (Transition InteractiveWorld InteractiveEvent)}

/-- The start satisfies the invariant. -/
theorem of_initial (hstart : (interactiveWorldLts queue.toBaseTxQueue .everyLoad).initial start)
    (hkept : kept) : Interaction queue.capacity_ kept start := by
  obtain ⟨⟨system, transmit, receive⟩, log⟩ := start
  obtain ⟨⟨hsystem, rfl, rfl⟩, rfl⟩ := hstart
  exact ⟨⟨.of_fresh hsystem, .of_fresh hsystem, .of_fresh hsystem⟩,
    .of_start Message.parts _ {} kept hkept, rfl⟩

/-- Every step of either job keeps the invariant, and the account of the messages as long as there
is room. -/
theorem step (hi : Interaction queue.capacity_ kept w)
    (hstep : (interactiveWorldLts queue.toBaseTxQueue .everyLoad).step w e w') :
    Interaction queue.capacity_ (kept ∧ e.HasRoom queue.capacity_ w.world w'.world) w' := by
  obtain ⟨s', log'⟩ := w'
  obtain ⟨hstep, rfl⟩ := hstep
  cases hstep with
  | transmit hjob hacts =>
      exact ⟨hi.queue.of_moves (ReportAction.moves _ (ReportAction.producerActs_cases hacts)),
        hi.reporting.transmit queue.isPowTwo hi.queue.indices hjob hacts,
        hi.receiving.of_transmit hjob hacts⟩
  | receive hjob hacts =>
      show Interaction queue.capacity_ (kept ∧ True) _
      rw [and_true]
      exact ⟨hi.queue.of_moves (ReportAction.moves _ (ReportAction.consumerActs_cases hacts)),
        hi.reporting.of_receive hjob hacts, hi.receiving.step hi.queue.indices hjob hacts⟩

/-- The invariant holds in every run, with the account of the messages as long as there is room. -/
theorem of_run (hstart : (interactiveWorldLts queue.toBaseTxQueue .everyLoad).initial start)
    (hrun : Run (interactiveWorldLts queue.toBaseTxQueue .everyLoad) start ts w) :
    Interaction queue.capacity_
      (∀ t ∈ ts, t.event.HasRoom queue.capacity_ t.source.world t.target.world) w := by
  induction hrun with
  | nil => exact of_initial hstart (by simp)
  | snoc _ hstep ih =>
      rw [List.forall_mem_append, List.forall_mem_singleton]
      exact ih.step hstep

end Interaction

/-- The receiver reports the messages that the transmitter reports, or is about to report, in their
order; and those that the transmitter has reported were received or stand in the queue. -/
structure InteractiveWorld.Delivered (cap : UInt64) (w : InteractiveWorld) : Prop where
  order : w.log.received <+: w.log.sent ++ w.state.transmit.pending
  kept : ∃ queued : List Message,
    w.state.system.block.unread cap = (queued.map Message.bytes).flatten ∧
      w.log.sent <+: w.log.received.take w.log.history.consumed.length ++ queued

namespace Interaction

variable {queue : RingQueue} {w : InteractiveWorld} {kept : Prop}

/-- The messages that are committed: those that the receiver has taken, and those in the queue. -/
theorem exists_messages (hi : Interaction queue.capacity_ kept w) :
    ∃ messages queued, w.log.history.written = messages.map Message.bytes ∧
      w.log.received <+: messages ∧
      messages = w.log.received.take w.log.history.consumed.length ++ queued ∧
      w.state.system.block.unread queue.capacity_ = (queued.map Message.bytes).flatten := by
  obtain ⟨messages, hwritten⟩ := hi.reporting.messages
  change w.log.history.written = messages.map Message.bytes at hwritten
  have hpre : w.log.received <+: messages := by
    refine Message.prefixCode.prefix_of_flatten (fun _ _ => trivial) (fun _ _ => trivial) ?_
    rw [← hwritten]
    exact hi.receiving.flatten_isPrefix.trans hi.queue.reads.read
  obtain ⟨queued, hqueued⟩ := (List.take_prefix w.log.history.consumed.length _).trans hpre
  refine ⟨messages, queued, hwritten, hpre, hqueued.symm, ?_⟩
  have hunread := hi.queue.unread_eq queue.isPowTwo
  have hhead : w.log.history.head =
      ((w.log.received.take w.log.history.consumed.length).map Message.bytes).flatten.length := by
    rw [← hi.receiving.consumed_eq]
    rfl
  refine hunread.trans ?_
  show w.log.history.written.flatten.drop w.log.history.head = _
  rw [hwritten, ← hqueued, hhead, List.map_append, List.flatten_append, List.drop_left]

/-- With room at each availability check the messages are delivered. -/
theorem delivered (hi : Interaction queue.capacity_ kept w) (hkept : kept) :
    w.Delivered queue.capacity_ := by
  obtain ⟨messages, queued, hwritten, hreceived, hmessages, hunread⟩ := hi.exists_messages
  obtain ⟨-, hreported⟩ := hi.reporting.reported hkept
  rw [List.nil_append, hwritten] at hreported
  obtain rfl := List.map_injective_iff.2 Message.bytes_injective hreported
  exact ⟨hreceived, queued, hunread, hmessages ▸ List.prefix_append _ _⟩

/-- Only committed messages are delivered. -/
theorem length_sent_le (hi : Interaction queue.capacity_ kept w)
    (hdelivered : w.Delivered queue.capacity_) :
    w.log.sent.length ≤ w.log.history.written.length := by
  obtain ⟨messages, queued, hwritten, -, hmessages, hunread⟩ := hi.exists_messages
  obtain ⟨queued', hunread', hsent⟩ := hdelivered.kept
  -- the queue holds as many messages as it has bytes for
  have hqueued : 10 * queued'.length = 10 * queued.length := by
    rw [← Message.length_flatten, ← Message.length_flatten, ← hunread, ← hunread']
  have hlength := congrArg List.length hmessages
  have hle := hsent.length_le
  rw [List.length_append] at hlength hle
  rw [hwritten, List.length_map]
  omega

/-- A message that is lost and reported is not delivered. -/
theorem not_delivered (hi : Interaction queue.capacity_ kept w) (hkept : ¬ kept)
    (htransmit : w.state.transmit = .start) : ¬ w.Delivered queue.capacity_ := by
  intro hdelivered
  have hle := hi.length_sent_le hdelivered
  have hlost := hi.reporting.lost hkept
  simp only [htransmit, SendControl.owed, List.length_nil] at hlost
  omega

end Interaction

/-! ## One transaction of a sender -/

/-- If the event is an availability check of the sender, then there is room. -/
def SenderEvent.HasRoom {μ : Type*} (cap : UInt64) (w w' : World) : SenderEvent μ → Prop
  | .send a => a.HasRoom cap w w'
  | .consumer _ => True

/-- The invariant of a sender on one transaction, on a queue with `base` committed. -/
structure Sender.Commits {μ : Type*} (parts : μ → List (List UInt8)) (cap : UInt64)
    (base : List (List UInt8)) (kept : Prop) (v : SenderWorld μ) : Prop where
  queue : Invariant cap v.world
  reporting : Reporting parts base v.state.control v.state.system.producer.isValid v.log [] kept

namespace Sender.Commits

variable {μ : Type*} {parts : μ → List (List UInt8)} {queue : RingQueue} {w : World}
  {start v v' : SenderWorld μ} {kept : Prop} {base : List (List UInt8)} {e : SenderEvent μ}
  {us : List (Transition (SenderWorld μ) (SenderEvent μ))} {message : μ}

/-- Every step keeps the invariant, and the account of the message as long as there is room. -/
theorem step (hi : Commits parts queue.capacity_ base kept v)
    (hstep : (senderLts parts w .everyLoad).step v e v') :
    Commits parts queue.capacity_ base (kept ∧ e.HasRoom queue.capacity_ v.world v'.world) v' := by
  obtain ⟨s', log'⟩ := v'
  obtain ⟨hstep, rfl⟩ := hstep
  cases hstep with
  | send hjob hacts =>
      exact ⟨hi.queue.of_moves (ReportAction.moves _ (ReportAction.producerActs_cases hacts)),
        hi.reporting.step queue.isPowTwo hi.queue.indices hjob hacts⟩
  | @consumer e system hconsumer hstep =>
      have hnext : (worldLts queue.toBaseTxQueue .everyLoad).step v.world e
          ⟨system, v.log.record e⟩ := ⟨hstep, rfl⟩
      show Commits parts queue.capacity_ base (kept ∧ True) _
      rw [and_true]
      exact ⟨hi.queue.step hnext, hi.reporting.of_consumer hconsumer hstep⟩

/-- The invariant holds in every run, with the account of the message as long as there is room. -/
theorem of_run (hw : Invariant queue.capacity_ w)
    (hstart : (senderLts parts w .everyLoad).initial start)
    (hrun : Run (senderLts parts w .everyLoad) start us v) :
    Commits parts queue.capacity_ w.log.written
      (∀ u ∈ us, u.event.HasRoom queue.capacity_ u.source.world u.target.world) v := by
  induction hrun with
  | nil =>
      obtain ⟨s, log⟩ := start
      obtain ⟨rfl, rfl⟩ := hstart
      exact ⟨hw, .of_start parts _ _ _ (by simp)⟩
  | snoc _ hstep ih =>
      rw [List.forall_mem_append, List.forall_mem_singleton]
      exact ih.step hstep

/-- In the success branch the message is committed exactly if it was kept. -/
theorem written_eq_iff (hi : Commits parts queue.capacity_ base kept v)
    (hsucceeded : v.state.control = .succeeded message) :
    v.log.written = base ++ [(parts message).flatten] ↔ kept := by
  constructor
  · intro hwritten
    by_contra hkept
    have hlost := hi.reporting.lost hkept
    simp [hsucceeded, SendControl.owed, hwritten] at hlost
  · intro hkept
    have hreported := (hi.reporting.reported hkept).2
    simpa [hsucceeded, SendControl.pending] using hreported

end Sender.Commits

/-- As long as each availability check of the transmitter finds room, everything it reports is
delivered, in every state of the run; a run that ends between two of its passes delivers what was
reported exactly if each check has found room. In the same way the start time of the inter-process
producer is committed behind its success branch exactly if each check has found room. -/
theorem reported_delivered (queue : RingQueue) {start w : InteractiveWorld}
    {ts : List (Transition InteractiveWorld InteractiveEvent)}
    (hstart : (interactiveWorldLts queue.toBaseTxQueue .everyLoad).initial start)
    (hrun : Run (interactiveWorldLts queue.toBaseTxQueue .everyLoad) start ts w) :
    ((∀ t ∈ ts, t.event.HasRoom queue.capacity_ t.source.world t.target.world) →
      w.Delivered queue.capacity_ ∧ ∀ t ∈ ts, t.source.Delivered queue.capacity_) ∧
    (w.state.transmit = .start → (w.Delivered queue.capacity_ ↔
      ∀ t ∈ ts, t.event.HasRoom queue.capacity_ t.source.world t.target.world)) ∧
    ∀ {first w₀ : World} {vs : List (Transition World Event)} {block v : SenderWorld Int64}
      {us : List (Transition (SenderWorld Int64) (SenderEvent Int64))} {timestamp : Int64},
      (worldLts queue.toBaseTxQueue .everyLoad).initial first →
      Run (worldLts queue.toBaseTxQueue .everyLoad) first vs w₀ →
      (startTimeLts w₀ .everyLoad).initial block →
      Run (startTimeLts w₀ .everyLoad) block us v →
      v.state.control = .succeeded timestamp →
      (v.log.written = w₀.log.written ++ [le64 timestamp.toUInt64] ↔
        ∀ u ∈ us, u.event.HasRoom queue.capacity_ u.source.world u.target.world) := by
  have hi := Interaction.of_run hstart hrun
  refine ⟨?_, ?_, ?_⟩
  · intro hroom
    refine ⟨hi.delivered hroom, ?_⟩
    intro t ht
    obtain ⟨before, after, rfl⟩ := List.append_of_mem ht
    obtain ⟨hbefore, -, -⟩ := hrun.split_at
    exact (Interaction.of_run hstart hbefore).delivered
      fun u hu => hroom u (List.mem_append_left _ hu)
  · intro htransmit
    refine ⟨?_, hi.delivered⟩
    intro hdelivered
    by_contra hroom
    exact hi.not_delivered hroom htransmit hdelivered
  · intro first w₀ vs block v us timestamp hfirst hvs hblock hus hsucceeded
    have hw₀ := Invariant.of_run hfirst hvs
    have hcommits := Sender.Commits.of_run hw₀ hblock hus
    have hword : (startTimeParts timestamp).flatten = le64 timestamp.toUInt64 := by
      simp [startTimeParts]
    rw [← hword]
    exact hcommits.written_eq_iff hsucceeded

/-- The start of the two jobs with a ring of zeros. -/
def freshInteractive (queue : BaseTxQueue) : InteractiveWorld where
  state :=
    { system := (freshWorld queue).state
      transmit := .start
      receive := .loop }
  log := {}

theorem freshInteractive_initial (queue : BaseTxQueue) (vis : Visibility) :
    (interactiveWorldLts queue vis).initial (freshInteractive queue) :=
  ⟨⟨⟨rfl, rfl, rfl, rfl⟩, rfl, rfl⟩, rfl⟩

/-- The first press of the key on a queue of sixteen slots fits. -/
theorem one_press_run : ∃ ts w,
    Run (interactiveWorldLts frameQueue.toBaseTxQueue .everyLoad)
      (freshInteractive frameQueue.toBaseTxQueue) ts w ∧
    SendPass frameQueue.toBaseTxQueue 0 (Message.parts ⟨7, 9⟩)
      (freshWorld frameQueue.toBaseTxQueue) w.world ∧
    w.state.transmit = .start ∧ w.log.sent = [⟨7, 9⟩] ∧ w.log.received = [] ∧
    w.log.history.written = [Message.bytes ⟨7, 9⟩] := by
  obtain ⟨w, ⟨ts, hrun, -⟩, hpass, htransmit, -, hsent, hreceived⟩ :=
    leads_press .everyLoad (w := freshInteractive frameQueue.toBaseTxQueue) rfl rfl rfl rfl 0 ⟨7, 9⟩
  exact ⟨ts, w, hrun, hpass, htransmit, hsent, hreceived, hpass.written⟩

/-- `reported_delivered` on the first press, and on a start time on a fresh queue. -/
theorem reported_delivered_one : ∃ ts w us v,
    (interactiveWorldLts frameQueue.toBaseTxQueue .everyLoad).initial
      (freshInteractive frameQueue.toBaseTxQueue) ∧
    Run (interactiveWorldLts frameQueue.toBaseTxQueue .everyLoad)
      (freshInteractive frameQueue.toBaseTxQueue) ts w ∧
    w.log.sent = [⟨7, 9⟩] ∧ w.Delivered frameQueue.capacity_ ∧
    Run (startTimeLts (freshWorld frameQueue.toBaseTxQueue) .everyLoad)
      ⟨⟨(freshWorld frameQueue.toBaseTxQueue).state, .start⟩, {}⟩ us v ∧
    v.log.written = [le64 5] ∧
    ∀ u ∈ us, u.event.HasRoom frameQueue.capacity_ u.source.world u.target.world := by
  have hstart := freshInteractive_initial frameQueue.toBaseTxQueue .everyLoad
  obtain ⟨ts, w, hrun, -, htransmit, hsent, -, hwritten⟩ := one_press_run
  obtain ⟨v, ⟨us, hus, -⟩, hsucceeded, hpass⟩ :=
    leads_succeeded (w := freshWorld frameQueue.toBaseTxQueue) .everyLoad rfl rfl rfl
      (fun _ => fitsWord_of_mem_startTimeParts 5) 0
  obtain ⟨hdelivered, -, hcommitted⟩ := reported_delivered frameQueue hstart hrun
  refine ⟨ts, w, us, v, hstart, hrun, hsent, (hdelivered ?_).1, hus, hpass.written, ?_⟩
  · by_contra hroom
    have hlost := (Interaction.of_run hstart hrun).reporting.lost hroom
    simp [htransmit, hwritten, hsent, SendControl.owed] at hlost
  · exact (hcommitted (freshWorld_initial _ _) .nil ⟨rfl, rfl⟩ hus hsucceeded).1 hpass.written

/-- The key is pressed twice before the receiver runs. The second message does not fit, is reported
as sent, and is nowhere. The start time does not fit a queue of four slots at all, and the block
takes its success branch. -/
theorem reported_and_lost :
    (∃ ts w, (interactiveWorldLts frameQueue.toBaseTxQueue .everyLoad).initial
        (freshInteractive frameQueue.toBaseTxQueue) ∧
      Run (interactiveWorldLts frameQueue.toBaseTxQueue .everyLoad)
        (freshInteractive frameQueue.toBaseTxQueue) ts w ∧
      w.log.sent = [⟨7, 9⟩, ⟨8, 10⟩] ∧ w.log.received = [] ∧
      ¬ w.Delivered frameQueue.capacity_) ∧
    ∃ us v, Run (startTimeLts (freshWorld smallQueue.toBaseTxQueue) .everyLoad)
        ⟨⟨(freshWorld smallQueue.toBaseTxQueue).state, .start⟩, {}⟩ us v ∧
      v.state.control = .succeeded 5 ∧ v.log.written = [] := by
  constructor
  · have hstart := freshInteractive_initial frameQueue.toBaseTxQueue .everyLoad
    obtain ⟨ts, w, hrun, hpass, htransmit, hsent, hreceived, hwritten⟩ := one_press_run
    obtain ⟨w', ⟨us, hrun', -⟩, hpass', -, -, hsent', hreceived'⟩ :=
      leads_press .everyLoad rfl hpass.producer htransmit hpass.writing 0 ⟨8, 10⟩
    have hnext := hrun.append hrun'
    have hwritten' : w'.log.history.written = [Message.bytes ⟨7, 9⟩] := by
      refine hpass'.written.trans ?_
      rw [hpass.block, show w.world.log.written = _ from hwritten]
      rfl
    rw [hsent] at hsent'
    refine ⟨_, w', hstart, hnext, hsent', hreceived'.trans hreceived, ?_⟩
    intro hdelivered
    have hle := (Interaction.of_run hstart hnext).length_sent_le hdelivered
    simp [hsent', hwritten'] at hle
  · obtain ⟨v, ⟨us, hus, -⟩, hsucceeded, hpass⟩ :=
      leads_succeeded (w := freshWorld smallQueue.toBaseTxQueue) .everyLoad rfl rfl rfl
        (fun _ => fitsWord_of_mem_startTimeParts 5) 0
    exact ⟨us, v, hus, hsucceeded, hpass.written⟩

end TxQueue
