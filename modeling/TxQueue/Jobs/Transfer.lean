import TxQueue.Library.Framing
import TxQueue.Concurrent.Sides

/-!
# The framed buffer transfer

`utest_job_transmit_buffer::run` and `utest_job_receive_buffer::run` as control points between the
calls they make on the queue. The producer sends a buffer in chunks of random size, each in one
transaction behind its size, and a size of zero at the end; the consumer reads a size and as many
bytes in one transaction. Both retry as long as it takes. The jobs run against the two sides of a
queue, whose steps interleave freely.
-/

namespace TxQueue

open Library

/-- The hash that a job computes: `update` of `checksum` or `sha256` on the bytes of a chunk, or
nothing at all. -/
structure Verification (σ : Type*) where
  init : σ
  update : σ → List UInt8 → σ

/-- `utest_job`. -/
structure UtestJob (σ : Type*) where
  totalData_ : UInt64
  transactionAttempts_ : UInt64
  hashStatus_ : σ

variable {σ : Type*}

namespace UtestJob

/-- The members at the start of `run`. -/
def start (verification : Verification σ) : UtestJob σ where
  totalData_ := 0
  transactionAttempts_ := 0
  hashStatus_ := verification.init

/-- The end of a pass with a chunk: `update` on its bytes, and `total_data_ += chunk_size`. -/
def account (verification : Verification σ) (job : UtestJob σ) (chunkSize : UInt64)
    (data : List UInt8) : UtestJob σ :=
  { job with
    hashStatus_ := verification.update job.hashStatus_ data
    totalData_ := job.totalData_ + chunkSize }

/-- `transaction_attempts_++`. -/
def retry (job : UtestJob σ) : UtestJob σ :=
  { job with transactionAttempts_ := job.transactionAttempts_ + 1 }

end UtestJob

/-- What a job does: a step of a call on the queue, the test of a transaction, the accounting for a
chunk, or leaving the loop over the source. -/
inductive Action where
  | call (e : Event)
  | test (valid : Bool)
  | account (data : List UInt8)
  | leave
  deriving DecidableEq

/-! ## The producer -/

/-- The parameters of `utest_job_transmit_buffer`. -/
structure TransmitBuffer where
  srcData_ : List UInt8
  minChunkSize_ : UInt64
  maxChunkSize_ : UInt64
  fitsWord : FitsWord srcData_

namespace TransmitBuffer

/-- `src_data_size_`. -/
def srcDataSize_ (source : TransmitBuffer) : UInt64 := lengthWord source.srcData_

/-- `chunk_size`, from a draw of the random distribution. -/
def chunkSize (source : TransmitBuffer) (totalData draw : UInt64) : UInt64 :=
  min draw (source.srcDataSize_ - totalData)

/-- The `chunk_size` bytes at `src_addr`. -/
def chunk (source : TransmitBuffer) (totalData chunkSize : UInt64) : List UInt8 :=
  (source.srcData_.drop totalData.toNat).take chunkSize.toNat

end TransmitBuffer

/-- Where the producer is. `loop` is the loop condition, `opened` the test of the new transaction,
`writeSize` and `writeData` are the two calls of `write`, `check` is `if (!write_op)`, `account`
the accounting and `close` the destructor. The others are the same for the loop that signals the
end; `quit` comes after it. -/
inductive TransmitControl where
  | loop
  | opened
  | writeSize (chunkSize : UInt64)
  | writeData (chunkSize : UInt64)
  | check (chunkSize : UInt64)
  | account (chunkSize : UInt64)
  | close
  | signal
  | signalOpened
  | writeZero
  | closeSignal (wrote : Bool)
  | quit
  deriving DecidableEq

/-- The producer. -/
structure Transmitter (σ : Type*) where
  control : TransmitControl
  job : UtestJob σ

/-- The bytes with which the producer is in a call of `imp_write`. -/
def Transmitter.writes (source : TransmitBuffer) (t : Transmitter σ) : Option (List UInt8) :=
  match t.control with
  | .writeSize chunkSize => some (le64 chunkSize)
  | .writeData chunkSize => some (source.chunk t.job.totalData_ chunkSize)
  | .writeZero => some (le64 0)
  | _ => none

/-- Where the producer goes on after `imp_write` has returned. Only the last call looks at the
result. -/
def TransmitControl.afterWrite (ok : Bool) : TransmitControl → TransmitControl
  | .writeSize chunkSize => .writeData chunkSize
  | .writeData chunkSize => .check chunkSize
  | .writeZero => .closeSignal ok
  | control => control

/-- The steps of `utest_job_transmit_buffer::run`. -/
inductive TransmitStep (source : TransmitBuffer) (verification : Verification σ) :
    Transmitter σ → Action → Transmitter σ → Prop where
  | openChunk {job : UtestJob σ} (hmore : job.totalData_ < source.srcDataSize_) :
      TransmitStep source verification ⟨.loop, job⟩ (.call .openWrite) ⟨.opened, job⟩
  | enter {job : UtestJob σ} {draw : UInt64} (hmin : source.minChunkSize_ ≤ draw)
      (hmax : draw ≤ source.maxChunkSize_) :
      TransmitStep source verification ⟨.opened, job⟩ (.test true)
        ⟨.writeSize (source.chunkSize job.totalData_ draw), job⟩
  | skip {job : UtestJob σ} :
      TransmitStep source verification ⟨.opened, job⟩ (.test false) ⟨.close, job⟩
  | beginWrite {t : Transmitter σ} {data : List UInt8} (hdata : t.writes source = some data) :
      TransmitStep source verification t (.call (.beginWrite data)) t
  | copyIn {t : Transmitter σ} {data : List UInt8} (hdata : t.writes source = some data) :
      TransmitStep source verification t (.call .copyIn) t
  | wrote {t : Transmitter σ} {data : List UInt8} (hdata : t.writes source = some data) :
      TransmitStep source verification t (.call (.wrote data))
        { t with control := t.control.afterWrite true }
  | refuseWrite {t : Transmitter σ} {data : List UInt8} (hdata : t.writes source = some data) :
      TransmitStep source verification t (.call (.refuseWrite data))
        { t with control := t.control.afterWrite false }
  | checked {job : UtestJob σ} {chunkSize : UInt64} :
      TransmitStep source verification ⟨.check chunkSize, job⟩ (.test true)
        ⟨.account chunkSize, job⟩
  | failed {job : UtestJob σ} {chunkSize : UInt64} :
      TransmitStep source verification ⟨.check chunkSize, job⟩ (.test false) ⟨.close, job.retry⟩
  | account {job : UtestJob σ} {chunkSize : UInt64} :
      TransmitStep source verification ⟨.account chunkSize, job⟩
        (.account (source.chunk job.totalData_ chunkSize))
        ⟨.close, job.account verification chunkSize (source.chunk job.totalData_ chunkSize)⟩
  | close {job : UtestJob σ} {published : Bool} :
      TransmitStep source verification ⟨.close, job⟩ (.call (.closeWrite published)) ⟨.loop, job⟩
  | leave {job : UtestJob σ} (hdone : source.srcDataSize_ ≤ job.totalData_) :
      TransmitStep source verification ⟨.loop, job⟩ .leave ⟨.signal, job⟩
  | openSignal {job : UtestJob σ} :
      TransmitStep source verification ⟨.signal, job⟩ (.call .openWrite) ⟨.signalOpened, job⟩
  | enterSignal {job : UtestJob σ} :
      TransmitStep source verification ⟨.signalOpened, job⟩ (.test true) ⟨.writeZero, job⟩
  | skipSignal {job : UtestJob σ} :
      TransmitStep source verification ⟨.signalOpened, job⟩ (.test false)
        ⟨.closeSignal false, job⟩
  | closeSignal {job : UtestJob σ} {wrote published : Bool} :
      TransmitStep source verification ⟨.closeSignal wrote, job⟩ (.call (.closeWrite published))
        ⟨if wrote then .quit else .signal, job⟩

/-- The job takes the producer's steps on the queue. -/
theorem TransmitStep.ofProducer {source : TransmitBuffer} {verification : Verification σ}
    {t t' : Transmitter σ} {e : Event} (hjob : TransmitStep source verification t (.call e) t') :
    e.ofProducer = true := by
  cases hjob <;> rfl

/-! ## The consumer -/

/-- Where the consumer is. `closeQuit` is the destructor after `break`. -/
inductive ReceiveControl where
  | loop
  | opened
  | readSize
  | readData (chunkSize : UInt64)
  | check (chunkSize : UInt64)
  | account (chunkSize : UInt64)
  | close
  | closeQuit
  | quit
  deriving DecidableEq

/-- The consumer. -/
structure Receiver (σ : Type*) where
  control : ReceiveControl
  job : UtestJob σ
  buffer : List UInt8

/-- The number of bytes with which the consumer is in a call of `imp_read`. -/
def ReceiveControl.reads : ReceiveControl → Option UInt64
  | .readSize => some 8
  | .readData chunkSize => some chunkSize
  | _ => none

/-- The steps of `utest_job_receive_buffer::run`. A failed `read(chunk_size)` leaves the zero it was
initialised with. -/
inductive ReceiveStep (verification : Verification σ) :
    Receiver σ → Action → Receiver σ → Prop where
  | openRead {job : UtestJob σ} {buffer : List UInt8} :
      ReceiveStep verification ⟨.loop, job, buffer⟩ (.call .openRead) ⟨.opened, job, buffer⟩
  | enter {job : UtestJob σ} {buffer : List UInt8} :
      ReceiveStep verification ⟨.opened, job, buffer⟩ (.test true) ⟨.readSize, job, buffer⟩
  | skip {job : UtestJob σ} {buffer : List UInt8} :
      ReceiveStep verification ⟨.opened, job, buffer⟩ (.test false) ⟨.close, job, buffer⟩
  | beginRead {r : Receiver σ} {size : UInt64} (hsize : r.control.reads = some size) :
      ReceiveStep verification r (.call (.beginRead size)) r
  | copyOut {r : Receiver σ} {size : UInt64} (hsize : r.control.reads = some size) :
      ReceiveStep verification r (.call .copyOut) r
  | readSize {job : UtestJob σ} {buffer data : List UInt8} (hlen : data.length = 8) :
      ReceiveStep verification ⟨.readSize, job, buffer⟩ (.call (.read data))
        ⟨.readData (ofLe64 data), job, buffer⟩
  | refuseSize {job : UtestJob σ} {buffer : List UInt8} :
      ReceiveStep verification ⟨.readSize, job, buffer⟩ (.call (.refuseRead 8))
        ⟨.readData 0, job, buffer⟩
  | readData {job : UtestJob σ} {buffer data : List UInt8} {chunkSize : UInt64}
      (hlen : data.length = chunkSize.toNat) :
      ReceiveStep verification ⟨.readData chunkSize, job, buffer⟩ (.call (.read data))
        ⟨.check chunkSize, job, data ++ buffer.drop data.length⟩
  | refuseData {job : UtestJob σ} {buffer : List UInt8} {chunkSize : UInt64} :
      ReceiveStep verification ⟨.readData chunkSize, job, buffer⟩
        (.call (.refuseRead chunkSize)) ⟨.check chunkSize, job, buffer⟩
  | failed {job : UtestJob σ} {buffer : List UInt8} {chunkSize : UInt64} :
      ReceiveStep verification ⟨.check chunkSize, job, buffer⟩ (.test false)
        ⟨.close, job.retry, buffer⟩
  | finished {job : UtestJob σ} {buffer : List UInt8} :
      ReceiveStep verification ⟨.check 0, job, buffer⟩ (.test true) ⟨.closeQuit, job, buffer⟩
  | checked {job : UtestJob σ} {buffer : List UInt8} {chunkSize : UInt64} (hne : chunkSize ≠ 0) :
      ReceiveStep verification ⟨.check chunkSize, job, buffer⟩ (.test true)
        ⟨.account chunkSize, job, buffer⟩
  | account {job : UtestJob σ} {buffer : List UInt8} {chunkSize : UInt64} :
      ReceiveStep verification ⟨.account chunkSize, job, buffer⟩
        (.account (buffer.take chunkSize.toNat))
        ⟨.close, job.account verification chunkSize (buffer.take chunkSize.toNat), buffer⟩
  | close {job : UtestJob σ} {buffer : List UInt8} {published : Bool} :
      ReceiveStep verification ⟨.close, job, buffer⟩ (.call (.closeRead published))
        ⟨.loop, job, buffer⟩
  | closeQuit {job : UtestJob σ} {buffer : List UInt8} {published : Bool} :
      ReceiveStep verification ⟨.closeQuit, job, buffer⟩ (.call (.closeRead published))
        ⟨.quit, job, buffer⟩

/-- The job takes the consumer's steps on the queue. -/
theorem ReceiveStep.ofProducer {verification : Verification σ} {r r' : Receiver σ} {e : Event}
    (hjob : ReceiveStep verification r (.call e) r') : e.ofProducer = false := by
  cases hjob <;> rfl

/-- The first read gives the size of the second. -/
theorem ReceiveStep.control_of_read {verification : Verification σ} {r r' : Receiver σ}
    {data : List UInt8} (hjob : ReceiveStep verification r (.call (.read data)) r')
    (hcontrol : r.control = .readSize) : r'.control = .readData (ofLe64 data) := by
  cases hjob with
  | readSize hlen => rfl
  | readData hlen => cases hcontrol

/-! ## The two jobs on a queue -/

/-- The queue and the two jobs. -/
structure Transfer (σ : Type*) where
  system : System
  transmit : Transmitter σ
  receive : Receiver σ

inductive TransferEvent where
  | transmit (a : Action)
  | receive (a : Action)
  deriving DecidableEq

/-- What an action of the producer's job does to the queue. -/
def System.ProducerActs (vis : Visibility) (s : System) : Action → System → Prop
  | .call e, s' => Step vis s e s'
  | .test valid, s' => (∃ tx, s.producer = .live tx ∧ tx.toBool = valid) ∧ s' = s
  | .account _, s' => s' = s
  | .leave, s' => s' = s

/-- What an action of the consumer's job does to the queue. -/
def System.ConsumerActs (vis : Visibility) (s : System) : Action → System → Prop
  | .call e, s' => Step vis s e s'
  | .test valid, s' => (∃ tx, s.consumer = .live tx ∧ tx.toBool = valid) ∧ s' = s
  | .account _, s' => s' = s
  | .leave, s' => s' = s

section Test

variable {vis : Visibility} {s s' : System} {valid : Bool}

/-- A test of the open write transaction changes nothing. -/
theorem System.ProducerActs.of_test (hacts : s.ProducerActs vis (.test valid) s') :
    s' = s ∧ s.producer.isValid = valid := by
  obtain ⟨⟨tx, hside, hvalid⟩, rfl⟩ := hacts
  rw [hside]
  exact ⟨rfl, hvalid⟩

/-- A test of the open read transaction changes nothing. -/
theorem System.ConsumerActs.of_test (hacts : s.ConsumerActs vis (.test valid) s') :
    s' = s ∧ s.consumer.isValid = valid := by
  obtain ⟨⟨tx, hside, hvalid⟩, rfl⟩ := hacts
  rw [hside]
  exact ⟨rfl, hvalid⟩

end Test

/-- The steps of the two jobs. -/
inductive TransferStep (source : TransmitBuffer) (verification : Verification σ)
    (vis : Visibility) : Transfer σ → TransferEvent → Transfer σ → Prop where
  | transmit {s : Transfer σ} {a : Action} {t : Transmitter σ} {system : System}
      (hjob : TransmitStep source verification s.transmit a t)
      (hacts : s.system.ProducerActs vis a system) :
      TransferStep source verification vis s (.transmit a) ⟨system, t, s.receive⟩
  | receive {s : Transfer σ} {a : Action} {r : Receiver σ} {system : System}
      (hjob : ReceiveStep verification s.receive a r)
      (hacts : s.system.ConsumerActs vis a system) :
      TransferStep source verification vis s (.receive a) ⟨system, s.transmit, r⟩

/-- What has happened so far: the history of the queue, and the chunks that the two jobs have
accounted for. -/
structure TransferLog where
  history : History := {}
  sent : List (List UInt8) := []
  accepted : List (List UInt8) := []

/-- The log after one more event. -/
def TransferLog.record (log : TransferLog) : TransferEvent → TransferLog
  | .transmit (.call e) => { log with history := log.history.record e }
  | .transmit (.account data) => { log with sent := log.sent ++ [data] }
  | .receive (.call e) => { log with history := log.history.record e }
  | .receive (.account data) => { log with accepted := log.accepted ++ [data] }
  | _ => log

/-- The queue takes a step, or stays as it is. -/
def World.Moves (vis : Visibility) (w w' : World) : Prop :=
  (∃ e, Step vis w.state e w'.state ∧ w'.log = w.log.record e) ∨ w' = w

namespace TransferLog

variable {vis : Visibility} {s s' : System} {log : TransferLog} {a : Action}

/-- What the producer's job does is a step of the queue, or none. -/
theorem moves_of_transmit (hacts : s.ProducerActs vis a s') :
    World.Moves vis ⟨s, log.history⟩ ⟨s', (log.record (.transmit a)).history⟩ := by
  cases a with
  | call e => exact .inl ⟨e, hacts, rfl⟩
  | test valid =>
      obtain ⟨-, rfl⟩ := hacts
      exact .inr rfl
  | account data =>
      obtain rfl := hacts
      exact .inr rfl
  | leave =>
      obtain rfl := hacts
      exact .inr rfl

/-- What the consumer's job does is a step of the queue, or none. -/
theorem moves_of_receive (hacts : s.ConsumerActs vis a s') :
    World.Moves vis ⟨s, log.history⟩ ⟨s', (log.record (.receive a)).history⟩ := by
  cases a with
  | call e => exact .inl ⟨e, hacts, rfl⟩
  | test valid =>
      obtain ⟨-, rfl⟩ := hacts
      exact .inr rfl
  | account data =>
      obtain rfl := hacts
      exact .inr rfl
  | leave =>
      obtain rfl := hacts
      exact .inr rfl

end TransferLog

/-- The start of a transfer on a fresh queue, with a consumer that takes chunks of up to
`maxChunkSize` bytes. -/
structure Transfer.IsFresh (queue : BaseTxQueue) (verification : Verification σ)
    (maxChunkSize : UInt64) (s : Transfer σ) : Prop where
  system : s.system.IsFresh queue
  transmit : s.transmit = ⟨.loop, .start verification⟩
  receive : s.receive = ⟨.loop, .start verification, List.replicate maxChunkSize.toNat 0⟩

/-- The two jobs on `queue`. -/
def transferLts (queue : BaseTxQueue) (source : TransmitBuffer) (verification : Verification σ)
    (maxChunkSize : UInt64) (vis : Visibility) : Lts (Transfer σ) TransferEvent where
  initial := Transfer.IsFresh queue verification maxChunkSize
  step := TransferStep source verification vis

/-- A state of the two jobs with its log. -/
abbrev TransferWorld (σ : Type*) := Observed (Transfer σ) TransferLog

/-- The two jobs on `queue` with their log. -/
abbrev transferWorldLts (queue : BaseTxQueue) (source : TransmitBuffer)
    (verification : Verification σ) (maxChunkSize : UInt64) (vis : Visibility) :
    Lts (TransferWorld σ) TransferEvent :=
  (transferLts queue source verification maxChunkSize vis).observe TransferLog.record {}

end TxQueue
