import TxQueue.Jobs.Interactive

/-!
# The inter-process programs

The two functions `transmision` around the framed transfer. The producer sends the start time as
one word on the queue itself, in a single attempt, and starts its job if the transaction was valid
when it was opened. The consumer reads words until one of them is not zero, takes it for the start
time and starts its job. From there the two jobs run on the same queue.
-/

namespace TxQueue

open Library

variable {σ σ' : Type*}

/-! ## The producer -/

/-- Where the producer is: in the block that sends the start time, in its job, or past
`return -1`. -/
inductive ProducerTransmision (σ : Type*) where
  | startTime (control : SendControl Unit)
  | job (t : Transmitter σ)
  | error

/-- The steps of `transmision` of the producer. `timestamp` is `start_time` in nanoseconds. -/
inductive ProducerTransmisionStep (source : TransmitBuffer) (verification : Verification σ)
    (timestamp : Int64) : ProducerTransmision σ → Action → ProducerTransmision σ → Prop where
  | startTime {c c' : SendControl Unit} {a : ReportAction Unit} {b : Action} (hb : a.onQueue = b)
      (hsend : SendStep (fun _ => startTimeParts timestamp) c a c') :
      ProducerTransmisionStep source verification timestamp (.startTime c) b (.startTime c')
  | start :
      ProducerTransmisionStep source verification timestamp (.startTime (.succeeded ())) .leave
        (.job ⟨.loop, .start verification⟩)
  | error :
      ProducerTransmisionStep source verification timestamp (.startTime .failed) .leave .error
  | job {t t' : Transmitter σ} {a : Action} (hjob : TransmitStep source verification t a t') :
      ProducerTransmisionStep source verification timestamp (.job t) a (.job t')

/-- The producer's job, before its first step until the start time has been sent. -/
def ProducerTransmision.transmitter (verification : Verification σ) :
    ProducerTransmision σ → Transmitter σ
  | .job t => t
  | _ => ⟨.loop, .start verification⟩

/-- A job that is over has started. -/
theorem ProducerTransmision.eq_job_of_quit {verification : Verification σ}
    {x : ProducerTransmision σ} (hquit : (x.transmitter verification).control = .quit) :
    x = .job (x.transmitter verification) := by
  cases x with
  | job t => rfl
  | _ => cases hquit

/-! ## The consumer -/

/-- Where the consumer is in the loop that waits for the start time. `opened` is the test of the new
transaction, `reading` is inside `read(timestamp)`, `close` the destructor and `test` the loop
condition, with the value that `timestamp` has there; it is zero before. -/
inductive StartTimeControl where
  | loop
  | opened
  | reading
  | close (timestamp : UInt64)
  | test (timestamp : UInt64)
  deriving DecidableEq

/-- Where the consumer is: in the loop that waits for the start time, or in its job with the start
time that it has set. -/
inductive ConsumerTransmision (σ : Type*) where
  | startTime (control : StartTimeControl)
  | job (startTime : Int64) (r : Receiver σ)

/-- The steps of the loop that waits for the start time. A failed `read` leaves `timestamp` as it
is. -/
inductive StartTimeStep : StartTimeControl → Action → StartTimeControl → Prop where
  | openRead : StartTimeStep .loop (.call .openRead) .opened
  | enter : StartTimeStep .opened (.test true) .reading
  | skip : StartTimeStep .opened (.test false) (.close 0)
  | beginRead : StartTimeStep .reading (.call (.beginRead 8)) .reading
  | copyOut : StartTimeStep .reading (.call .copyOut) .reading
  | read {data : List UInt8} (hlen : data.length = 8) :
      StartTimeStep .reading (.call (.read data)) (.close (ofLe64 data))
  | refuseRead : StartTimeStep .reading (.call (.refuseRead 8)) (.close 0)
  | close {timestamp : UInt64} {published : Bool} :
      StartTimeStep (.close timestamp) (.call (.closeRead published)) (.test timestamp)
  | again : StartTimeStep (.test 0) .leave .loop

/-- The steps of `transmision` of the consumer. -/
inductive ConsumerTransmisionStep (verification : Verification σ) (maxChunkSize : UInt64) :
    ConsumerTransmision σ → Action → ConsumerTransmision σ → Prop where
  | startTime {c c' : StartTimeControl} {a : Action} (hwait : StartTimeStep c a c') :
      ConsumerTransmisionStep verification maxChunkSize (.startTime c) a (.startTime c')
  | start {timestamp : UInt64} (hne : timestamp ≠ 0) :
      ConsumerTransmisionStep verification maxChunkSize (.startTime (.test timestamp)) .leave
        (.job timestamp.toInt64
          ⟨.loop, .start verification, List.replicate maxChunkSize.toNat 0⟩)
  | job {startTime : Int64} {r r' : Receiver σ} {a : Action}
      (hjob : ReceiveStep verification r a r') :
      ConsumerTransmisionStep verification maxChunkSize (.job startTime r) a (.job startTime r')

section OfProducer

variable {source : TransmitBuffer} {verification : Verification σ} {timestamp : Int64}
  {maxChunkSize : UInt64} {e : Event}

/-- The program of the producer takes the producer's steps on the queue. -/
theorem ProducerTransmisionStep.ofProducer {x x' : ProducerTransmision σ}
    (hjob : ProducerTransmisionStep source verification timestamp x (.call e) x') :
    e.ofProducer = true := by
  cases hjob with
  | @startTime c c' a b hb hsend =>
      cases a with
      | call e' =>
          obtain rfl := Action.call.inj hb
          exact hsend.ofProducer
      | _ => cases hb
  | job hjob => exact hjob.ofProducer

/-- The program of the consumer takes the consumer's steps on the queue. -/
theorem ConsumerTransmisionStep.ofProducer {x x' : ConsumerTransmision σ}
    (hjob : ConsumerTransmisionStep verification maxChunkSize x (.call e) x') :
    e.ofProducer = false := by
  cases hjob with
  | startTime hwait => cases hwait <;> rfl
  | job hjob => exact hjob.ofProducer

end OfProducer

/-! ## The two programs on a queue -/

/-- What the two programs work with. Each has a verification of its own, from its command line. -/
structure TransmisionSetup (σ σ' : Type*) where
  source : TransmitBuffer
  timestamp : Int64
  maxChunkSize : UInt64
  producerVerification : Verification σ
  consumerVerification : Verification σ'

/-- The queue and the two programs. -/
structure Transmision (σ σ' : Type*) where
  system : System
  transmit : ProducerTransmision σ
  receive : ConsumerTransmision σ'

/-- The steps of the two programs. -/
inductive TransmisionStep (setup : TransmisionSetup σ σ') (vis : Visibility) :
    Transmision σ σ' → TransferEvent → Transmision σ σ' → Prop where
  | transmit {s : Transmision σ σ'} {a : Action} {x : ProducerTransmision σ} {system : System}
      (hjob : ProducerTransmisionStep setup.source setup.producerVerification setup.timestamp
        s.transmit a x) (hacts : s.system.ProducerActs vis a system) :
      TransmisionStep setup vis s (.transmit a) ⟨system, x, s.receive⟩
  | receive {s : Transmision σ σ'} {a : Action} {x : ConsumerTransmision σ'} {system : System}
      (hjob : ConsumerTransmisionStep setup.consumerVerification setup.maxChunkSize s.receive a x)
      (hacts : s.system.ConsumerActs vis a system) :
      TransmisionStep setup vis s (.receive a) ⟨system, s.transmit, x⟩

/-- The start of the two programs on a fresh queue. -/
structure Transmision.IsFresh (queue : BaseTxQueue) (s : Transmision σ σ') : Prop where
  system : s.system.IsFresh queue
  transmit : s.transmit = .startTime .start
  receive : s.receive = .startTime .loop

/-- The two programs on `queue`. -/
def transmisionLts (queue : BaseTxQueue) (setup : TransmisionSetup σ σ') (vis : Visibility) :
    Lts (Transmision σ σ') TransferEvent where
  initial := Transmision.IsFresh queue
  step := TransmisionStep setup vis

/-- A state of the two programs with its log. -/
abbrev TransmisionWorld (σ σ' : Type*) := Observed (Transmision σ σ') TransferLog

/-- The two programs on `queue` with what has happened so far. -/
abbrev transmisionWorldLts (queue : BaseTxQueue) (setup : TransmisionSetup σ σ')
    (vis : Visibility) : Lts (TransmisionWorld σ σ') TransferEvent :=
  (transmisionLts queue setup vis).observe TransferLog.record {}

/-- The queue under the two programs, with its history. -/
def TransmisionWorld.world (w : TransmisionWorld σ σ') : World := ⟨w.state.system, w.log.history⟩

end TxQueue
