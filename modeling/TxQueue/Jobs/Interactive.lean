import TxQueue.Jobs.Transfer

/-!
# The interactive jobs and the start time

`utest_job_interactive_transmitter::run`, `utest_job_interactive_receiver::run` and the block with
which the inter-process producer sends the start time, as control points between the calls they make
on the queue. The two senders take a transaction that is valid when it is opened for a message that
is sent. Neither looks at what `write` returns.
-/

namespace TxQueue

open Library

/-- The number and the timestamp of an interactive message. -/
structure Message where
  number : UInt16 := 0
  timestamp : Int64 := 0
  deriving DecidableEq

/-- The object representations of the arguments of `write(number, timestamp)`. -/
def Message.parts (message : Message) : List (List UInt8) :=
  [le16 message.number, le64 message.timestamp.toUInt64]

namespace Message

/-- The object representation of a message. -/
def bytes (message : Message) : List UInt8 := message.parts.flatten

theorem bytes_eq (message : Message) :
    message.bytes = le16 message.number ++ le64 message.timestamp.toUInt64 := by
  simp [bytes, parts]

@[simp] theorem length_bytes (message : Message) : message.bytes.length = 10 := by
  simp [bytes_eq]

/-- The sizes of the arguments fit a word. -/
theorem fitsWord_of_mem {message : Message} {part : List UInt8} (h : part ∈ message.parts) :
    FitsWord part := by
  have hle : part.length ≤ 10 := by
    rw [← message.length_bytes]
    exact (List.sublist_flatten_of_mem h).length_le
  exact hle.trans_lt (by decide)

theorem bytes_injective : Function.Injective bytes := by
  intro message message' h
  rw [bytes_eq, bytes_eq] at h
  obtain ⟨hnumber, htimestamp⟩ := List.append_inj h (by simp)
  have hword := le64_injective htimestamp
  rw [mk.injEq]
  exact ⟨le16_injective hnumber, Function.LeftInverse.injective Int64.toInt64_toUInt64 hword⟩

/-- Messages are a prefix code, since they have one length. -/
theorem prefixCode : PrefixCode bytes fun _ => True :=
  .of_length (Nat.succ_pos 9) length_bytes bytes_injective

/-- The number of bytes of some messages. -/
theorem length_flatten (messages : List Message) :
    (messages.map bytes).flatten.length = 10 * messages.length := by
  simp [List.length_flatten, Function.comp_def, Nat.mul_comm]

end Message

/-- The object representation of the argument of `write(timestamp)`. -/
def startTimeParts (timestamp : Int64) : List (List UInt8) := [le64 timestamp.toUInt64]

theorem fitsWord_of_mem_startTimeParts (timestamp : Int64) {part : List UInt8}
    (h : part ∈ startTimeParts timestamp) : FitsWord part := by
  obtain rfl := List.mem_singleton.1 h
  exact fitsWord_le64 _

/-- What an interactive job does: a step of a call on the queue, the test of a transaction, the line
about a message, or going back to the start of its loop without one. -/
inductive ReportAction (μ : Type*) where
  | call (e : Event)
  | test (valid : Bool)
  | report (message : μ)
  | again

namespace ReportAction

variable {μ : Type*}

/-- To the queue, a line is like leaving a loop. -/
def onQueue : ReportAction μ → Action
  | call e => .call e
  | test valid => .test valid
  | report _ => .leave
  | again => .leave

/-- The messages that have been reported after one more action. -/
def recordReport (reported : List μ) : ReportAction μ → List μ
  | report message => reported ++ [message]
  | _ => reported

/-- The history of the queue after one more action. -/
def record (h : History) : ReportAction μ → History
  | call e => h.record e
  | _ => h

variable {a : ReportAction μ} {vis : Visibility} {s s' : System}

/-- An action of a producer is a step of a call, or leaves the queue and its history alone. -/
theorem producerActs_cases (hacts : s.ProducerActs vis a.onQueue s') :
    (∃ e, a = .call e ∧ Step vis s e s') ∨ s' = s ∧ ∀ h, a.record h = h := by
  cases a with
  | call e => exact .inl ⟨e, rfl, hacts⟩
  | test valid => exact .inr ⟨hacts.2, fun _ => rfl⟩
  | report message => exact .inr ⟨hacts, fun _ => rfl⟩
  | again => exact .inr ⟨hacts, fun _ => rfl⟩

/-- An action of a consumer is a step of a call, or leaves the queue and its history alone. -/
theorem consumerActs_cases (hacts : s.ConsumerActs vis a.onQueue s') :
    (∃ e, a = .call e ∧ Step vis s e s') ∨ s' = s ∧ ∀ h, a.record h = h := by
  cases a with
  | call e => exact .inl ⟨e, rfl, hacts⟩
  | test valid => exact .inr ⟨hacts.2, fun _ => rfl⟩
  | report message => exact .inr ⟨hacts, fun _ => rfl⟩
  | again => exact .inr ⟨hacts, fun _ => rfl⟩

/-- What a job does is a step of the queue, or none. -/
theorem moves (h : History)
    (hacts : (∃ e, a = .call e ∧ Step vis s e s') ∨ s' = s ∧ ∀ h, a.record h = h) :
    World.Moves vis ⟨s, h⟩ ⟨s', a.record h⟩ := by
  rcases hacts with ⟨e, rfl, hstep⟩ | ⟨rfl, hrecord⟩
  · exact .inl ⟨e, hstep, rfl⟩
  · rw [hrecord]
    exact .inr rfl

end ReportAction

/-! ## Senders -/

/-- Where a sender is. `start` is before the transaction and `opened` the `if` on it; `writing` is
inside `write`, with the arguments that are left, and behind it once there are none; `skipped` is
the `else` branch. The destructor leads to `failed` or `succeeded`. -/
inductive SendControl (μ : Type*) where
  | start
  | opened (message : μ)
  | writing (message : μ) (rest : List (List UInt8))
  | skipped
  | failed
  | succeeded (message : μ)

/-- The steps of a sender on one transaction. `parts` are the arguments it passes to `write`, which
returns at the first that does not fit. -/
inductive SendStep {μ : Type*} (parts : μ → List (List UInt8)) :
    SendControl μ → ReportAction μ → SendControl μ → Prop where
  | openWrite (message : μ) :
      SendStep parts .start (.call .openWrite) (.opened message)
  | enter {message : μ} :
      SendStep parts (.opened message) (.test true) (.writing message (parts message))
  | skip {message : μ} :
      SendStep parts (.opened message) (.test false) .skipped
  | beginWrite {message : μ} {part : List UInt8} {rest : List (List UInt8)} :
      SendStep parts (.writing message (part :: rest)) (.call (.beginWrite part))
        (.writing message (part :: rest))
  | copyIn {message : μ} {part : List UInt8} {rest : List (List UInt8)} :
      SendStep parts (.writing message (part :: rest)) (.call .copyIn)
        (.writing message (part :: rest))
  | wrote {message : μ} {part : List UInt8} {rest : List (List UInt8)} :
      SendStep parts (.writing message (part :: rest)) (.call (.wrote part))
        (.writing message rest)
  | refuseWrite {message : μ} {part : List UInt8} {rest : List (List UInt8)} :
      SendStep parts (.writing message (part :: rest)) (.call (.refuseWrite part))
        (.writing message [])
  | closeSkipped {published : Bool} :
      SendStep parts .skipped (.call (.closeWrite published)) .failed
  | close {message : μ} {published : Bool} :
      SendStep parts (.writing message []) (.call (.closeWrite published)) (.succeeded message)

/-- A sender takes the producer's steps on the queue. -/
theorem SendStep.ofProducer {μ : Type*} {parts : μ → List (List UInt8)} {c c' : SendControl μ}
    {e : Event} (hjob : SendStep parts c (.call e) c') : e.ofProducer = true := by
  cases hjob <;> rfl

/-- A sender prints nothing inside its transaction. -/
theorem SendStep.recordReport_eq {μ : Type*} {parts : μ → List (List UInt8)} {c c' : SendControl μ}
    {a : ReportAction μ} (hjob : SendStep parts c a c') (reported : List μ) :
    a.recordReport reported = reported := by
  cases hjob <;> rfl

/-- The steps of `utest_job_interactive_transmitter::run`. The line "Just sent" comes after the
transaction, and a pass without it after the line "Error sending". -/
inductive InteractiveTransmitStep :
    SendControl Message → ReportAction Message → SendControl Message → Prop where
  | send {c c' : SendControl Message} {a : ReportAction Message}
      (hsend : SendStep Message.parts c a c') : InteractiveTransmitStep c a c'
  | report {message : Message} :
      InteractiveTransmitStep (.succeeded message) (.report message) .start
  | again : InteractiveTransmitStep .failed .again .start

theorem InteractiveTransmitStep.ofProducer {c c' : SendControl Message} {e : Event}
    (hjob : InteractiveTransmitStep c (.call e) c') : e.ofProducer = true := by
  cases hjob with
  | send hsend => exact hsend.ofProducer

/-! ## The receiver -/

/-- Where the receiver is. `readNumber` and `readTimestamp` are inside `read<uint16_t, int64_t>()`,
`check` is the second `if`, with what the structured read has returned. -/
inductive InteractiveReceiveControl where
  | loop
  | opened
  | readNumber
  | readTimestamp (number : UInt16)
  | check (message : Message)
  | report (message : Message)
  | close

/-- The size of the field that the receiver is reading. -/
def InteractiveReceiveControl.reads : InteractiveReceiveControl → Option UInt64
  | .readNumber => some 2
  | .readTimestamp _ => some 8
  | _ => none

/-- The steps of `utest_job_interactive_receiver::run`. A structured read that fails returns a
value-initialised tuple. -/
inductive InteractiveReceiveStep :
    InteractiveReceiveControl → ReportAction Message → InteractiveReceiveControl → Prop where
  | openRead : InteractiveReceiveStep .loop (.call .openRead) .opened
  | enter : InteractiveReceiveStep .opened (.test true) .readNumber
  | skip : InteractiveReceiveStep .opened (.test false) .close
  | beginRead {c : InteractiveReceiveControl} {size : UInt64} (hsize : c.reads = some size) :
      InteractiveReceiveStep c (.call (.beginRead size)) c
  | copyOut {c : InteractiveReceiveControl} {size : UInt64} (hsize : c.reads = some size) :
      InteractiveReceiveStep c (.call .copyOut) c
  | readNumber {data : List UInt8} (hlen : data.length = 2) :
      InteractiveReceiveStep .readNumber (.call (.read data)) (.readTimestamp (ofLe16 data))
  | readTimestamp {number : UInt16} {data : List UInt8} (hlen : data.length = 8) :
      InteractiveReceiveStep (.readTimestamp number) (.call (.read data))
        (.check ⟨number, (ofLe64 data).toInt64⟩)
  | refuseRead {c : InteractiveReceiveControl} {size : UInt64} (hsize : c.reads = some size) :
      InteractiveReceiveStep c (.call (.refuseRead size)) (.check {})
  | checked {message : Message} :
      InteractiveReceiveStep (.check message) (.test true) (.report message)
  | failed {message : Message} :
      InteractiveReceiveStep (.check message) (.test false) .close
  | report {message : Message} :
      InteractiveReceiveStep (.report message) (.report message) .close
  | close {published : Bool} :
      InteractiveReceiveStep .close (.call (.closeRead published)) .loop

/-- The receiver takes the consumer's steps on the queue. -/
theorem InteractiveReceiveStep.ofProducer {c c' : InteractiveReceiveControl} {e : Event}
    (hjob : InteractiveReceiveStep c (.call e) c') : e.ofProducer = false := by
  cases hjob <;> rfl

/-! ## The two jobs on a queue -/

/-- The queue and the two interactive jobs. -/
structure Interactive where
  system : System
  transmit : SendControl Message
  receive : InteractiveReceiveControl

inductive InteractiveEvent where
  | transmit (a : ReportAction Message)
  | receive (a : ReportAction Message)

/-- The steps of the two interactive jobs. -/
inductive InteractiveStep (vis : Visibility) :
    Interactive → InteractiveEvent → Interactive → Prop where
  | transmit {s : Interactive} {a : ReportAction Message} {c : SendControl Message}
      {system : System} (hjob : InteractiveTransmitStep s.transmit a c)
      (hacts : s.system.ProducerActs vis a.onQueue system) :
      InteractiveStep vis s (.transmit a) ⟨system, c, s.receive⟩
  | receive {s : Interactive} {a : ReportAction Message} {c : InteractiveReceiveControl}
      {system : System} (hjob : InteractiveReceiveStep s.receive a c)
      (hacts : s.system.ConsumerActs vis a.onQueue system) :
      InteractiveStep vis s (.receive a) ⟨system, s.transmit, c⟩

/-- What has happened so far: the history of the queue, and the messages that the two jobs have
reported as sent and as received. -/
structure InteractiveLog where
  history : History := {}
  sent : List Message := []
  received : List Message := []

/-- The log after one more event. -/
def InteractiveLog.record (log : InteractiveLog) : InteractiveEvent → InteractiveLog
  | .transmit a => { log with history := a.record log.history, sent := a.recordReport log.sent }
  | .receive a =>
      { log with history := a.record log.history, received := a.recordReport log.received }

/-- The start of the two interactive jobs on a fresh queue. -/
structure Interactive.IsFresh (queue : BaseTxQueue) (s : Interactive) : Prop where
  system : s.system.IsFresh queue
  transmit : s.transmit = .start
  receive : s.receive = .loop

/-- The two interactive jobs on `queue`. -/
def interactiveLts (queue : BaseTxQueue) (vis : Visibility) : Lts Interactive InteractiveEvent where
  initial := Interactive.IsFresh queue
  step := InteractiveStep vis

abbrev InteractiveWorld := Observed Interactive InteractiveLog

/-- The two interactive jobs with what has happened so far. -/
abbrev interactiveWorldLts (queue : BaseTxQueue) (vis : Visibility) :
    Lts InteractiveWorld InteractiveEvent :=
  (interactiveLts queue vis).observe InteractiveLog.record {}

/-- The queue under the two interactive jobs, with its history. -/
def InteractiveWorld.world (w : InteractiveWorld) : World := ⟨w.state.system, w.log.history⟩

/-! ## One transaction of a sender -/

/-- The queue and a sender on one transaction. -/
structure Sender (μ : Type*) where
  system : System
  control : SendControl μ

inductive SenderEvent (μ : Type*) where
  | send (a : ReportAction μ)
  | consumer (e : Event)

/-- The steps of the sender, and any steps of a consumer in between. -/
inductive SenderStep {μ : Type*} (parts : μ → List (List UInt8)) (vis : Visibility) :
    Sender μ → SenderEvent μ → Sender μ → Prop where
  | send {s : Sender μ} {a : ReportAction μ} {c : SendControl μ} {system : System}
      (hjob : SendStep parts s.control a c) (hacts : s.system.ProducerActs vis a.onQueue system) :
      SenderStep parts vis s (.send a) ⟨system, c⟩
  | consumer {s : Sender μ} {e : Event} {system : System} (hconsumer : e.ofProducer = false)
      (hstep : Step vis s.system e system) :
      SenderStep parts vis s (.consumer e) ⟨system, s.control⟩

/-- The history of the queue after one more event. -/
def SenderEvent.record {μ : Type*} (h : History) : SenderEvent μ → History
  | .send a => a.record h
  | .consumer e => h.record e

abbrev SenderWorld (μ : Type*) := Observed (Sender μ) History

/-- A sender on one transaction, on a queue in the state of `w`. -/
abbrev senderLts {μ : Type*} (parts : μ → List (List UInt8)) (w : World) (vis : Visibility) :
    Lts (SenderWorld μ) (SenderEvent μ) :=
  Lts.observe ⟨fun s => s = ⟨w.state, .start⟩, SenderStep parts vis⟩ SenderEvent.record w.log

/-- The queue under the sender, with its history. -/
def SenderWorld.world {μ : Type*} (v : SenderWorld μ) : World := ⟨v.state.system, v.log⟩

/-- The block of `transmision` that sends the start time, on a queue in the state of `w`. -/
abbrev startTimeLts (w : World) (vis : Visibility) : Lts (SenderWorld Int64) (SenderEvent Int64) :=
  senderLts startTimeParts w vis

end TxQueue
