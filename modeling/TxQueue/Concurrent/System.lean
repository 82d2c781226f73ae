import TxQueue.Library.Transition
import TxQueue.Library.Channel
import TxQueue.Transaction.Write
import TxQueue.Transaction.Read

/-!
# One producer and one consumer on a queue

The steps of the two sides interleave freely. A side is between transactions, has one live
transaction, or is inside `imp_write` / `imp_read` with some `memcpy` calls still to make. Each
step makes at most one access that matters to the other side: the load of its index, one
`memcpy`, or the release store of the own index.

The producer's byte stores and its stores to `tail_` travel to the consumer on the channel `down`.
On the channel `up` the consumer's stores to `head_` travel to the producer, together with the
completions of its reads. Which loads make the data below an index visible is the parameter `vis`
of a step.
-/

namespace TxQueue

open Library

/-- The producer. `copying tx buffer size rest` is inside `imp_write(buffer, size)`, past the
availability check, with the `memcpy` calls `rest` still to make. -/
inductive Producer where
  | detached
  | idle (queue : BaseTxQueue)
  | live (tx : TxWrite)
  | copying (tx : TxWrite) (buffer : ℕ → UInt8) (size : UInt64) (rest : List Memcpy)

/-- The consumer. `copying tx buffer size rest` is inside `imp_read(buffer, size)`, past the
availability check, with the `memcpy` calls `rest` still to make. -/
inductive Consumer where
  | detached
  | idle (queue : BaseTxQueue)
  | live (tx : TxRead)
  | copying (tx : TxRead) (buffer : ℕ → UInt8) (size : UInt64) (rest : List Memcpy)

/-- The shared memory and the two sides. `base` is the content of the ring before the first
store; `down` carries the byte stores to the ring by offset, and `up` the ring offsets whose reads
are complete. -/
structure System where
  base : ℕ → UInt8
  down : Channel (ℕ × UInt8) UInt64
  up : Channel ℕ UInt64
  producerCore_ : Int32
  consumerCore_ : Int32
  producer : Producer
  consumer : Consumer

/-- The status block as it stands in memory. -/
def System.status (s : System) : TxQueueStatus where
  tail_ := s.down.latest
  producerCore_ := s.producerCore_
  head_ := s.up.latest
  consumerCore_ := s.consumerCore_

/-- What a step shows. `wrote`, `refuseWrite`, `read` and `refuseRead` are the returns of
`imp_write` and `imp_read`. -/
inductive Event where
  | openWrite
  | beginWrite (data : List UInt8)
  | copyIn
  | wrote (data : List UInt8)
  | refuseWrite (data : List UInt8)
  | invalidateWrite
  | closeWrite (published : Bool)
  | openRead
  | beginRead (size : UInt64)
  | copyOut
  | read (data : List UInt8)
  | refuseRead (size : UInt64)
  | invalidateRead
  | closeRead (published : Bool)
  | killProducer
  | attachProducer
  | killConsumer
  | attachConsumer
  deriving DecidableEq

/-- The steps of the two sides. -/
inductive Step (vis : Visibility) : System → Event → System → Prop where
  | openWrite {s : System} {queue : BaseTxQueue} (k : ℕ) (hle : s.up.observed ≤ k)
      (hlt : k < s.up.releases.length) (hside : s.producer = .idle queue) :
      Step vis s .openWrite
        { s with
          up := s.up.loadRelaxed k hle hlt
          producer := .live (.construct queue s.down.latest s.up.releases[k].value) }
  | beginWrite {s : System} {tx tx' : TxWrite} (buffer : ℕ → UInt8) (size : UInt64) (k : ℕ)
      (hle : s.up.observed ≤ k) (hlt : k < s.up.releases.length) (hside : s.producer = .live tx)
      (hreserve : tx.reserve size s.up.releases[k].value = .ok tx') :
      Step vis s (.beginWrite (bytes buffer size))
        { s with
          up := s.up.acquireIf (tx.reloads size) k hlt
          producer := .copying tx' buffer size (copies tx'.tail_ tx'.capacity_ size) }
  | refuseWrite {s : System} {tx tx' : TxWrite} (buffer : ℕ → UInt8) (size : UInt64) (k : ℕ)
      (core : Int32) (hle : s.up.observed ≤ k) (hlt : k < s.up.releases.length)
      (hside : s.producer = .live tx)
      (hreserve : tx.reserve size s.up.releases[k].value = .error tx') :
      Step vis s (.refuseWrite (bytes buffer size))
        { s with
          up := s.up.acquireIf (tx.reloads size) k hlt
          producerCore_ := if tx.invalidated_ then s.producerCore_ else core
          producer := .live tx' }
  | copyIn {s : System} {tx : TxWrite} {buffer : ℕ → UInt8} {size : UInt64} {c c' : Memcpy}
      {rest : List Memcpy} (hside : s.producer = .copying tx buffer size (c :: c' :: rest)) :
      Step vis s .copyIn
        { s with
          down := s.down.send (c.stores buffer)
          producer := .copying tx buffer size (c' :: rest) }
  | wrote {s : System} {tx : TxWrite} {buffer : ℕ → UInt8} {size : UInt64} {c : Memcpy}
      (hside : s.producer = .copying tx buffer size [c]) :
      Step vis s (.wrote (bytes buffer size))
        { s with
          down := s.down.send (c.stores buffer)
          producerCore_ := -1
          producer := .live (tx.finish size) }
  | invalidateWrite {s : System} {tx : TxWrite} (hside : s.producer = .live tx) :
      Step vis s .invalidateWrite { s with producer := .live tx.invalidate }
  | closeWrite {s : System} {tx : TxWrite} (hside : s.producer = .live tx) :
      Step vis s (.closeWrite tx.toBool)
        { s with
          down := if tx.invalidated_ then s.down else s.down.release tx.tail_
          producer := .idle tx.queue_ }
  | openRead {s : System} {queue : BaseTxQueue} (k : ℕ) (hle : s.down.observed ≤ k)
      (hlt : k < s.down.releases.length) (hside : s.consumer = .idle queue) :
      Step vis s .openRead
        { s with
          down := s.down.loadRelaxed k hle hlt
          consumer := .live (.construct queue s.up.latest s.down.releases[k].value) }
  | beginRead {s : System} {tx tx' : TxRead} (buffer : ℕ → UInt8) (size : UInt64) (k : ℕ)
      (hle : s.down.observed ≤ k) (hlt : k < s.down.releases.length)
      (hside : s.consumer = .live tx)
      (hreserve : tx.reserve size s.down.releases[k].value = .ok tx') :
      Step vis s (.beginRead size)
        { s with
          down := s.down.acquireIf (tx.reloads size) k hlt
          consumer := .copying tx' buffer size (copies tx'.head_ tx'.capacity_ size) }
  | refuseRead {s : System} {tx tx' : TxRead} (size : UInt64) (k : ℕ) (core : Int32)
      (hle : s.down.observed ≤ k) (hlt : k < s.down.releases.length)
      (hside : s.consumer = .live tx)
      (hreserve : tx.reserve size s.down.releases[k].value = .error tx') :
      Step vis s (.refuseRead size)
        { s with
          down := s.down.acquireIf (tx.reloads size) k hlt
          consumerCore_ := if tx.invalidated_ then s.consumerCore_ else core
          consumer := .live tx' }
  | copyOut {s : System} {tx : TxRead} {buffer m : ℕ → UInt8} {size : UInt64} {c c' : Memcpy}
      {rest : List Memcpy} (hside : s.consumer = .copying tx buffer size (c :: c' :: rest))
      (hsees : s.down.Sees s.base vis m) :
      Step vis s .copyOut
        { s with
          up := s.up.send (c.pairs.map Prod.fst)
          consumer := .copying tx (c.copyOut m buffer) size (c' :: rest) }
  | read {s : System} {tx : TxRead} {buffer m : ℕ → UInt8} {size : UInt64} {c : Memcpy}
      (hside : s.consumer = .copying tx buffer size [c]) (hsees : s.down.Sees s.base vis m) :
      Step vis s (.read (bytes (c.copyOut m buffer) size))
        { s with
          up := s.up.send (c.pairs.map Prod.fst)
          consumerCore_ := -1
          consumer := .live (tx.finish size) }
  | invalidateRead {s : System} {tx : TxRead} (hside : s.consumer = .live tx) :
      Step vis s .invalidateRead { s with consumer := .live tx.invalidate }
  | closeRead {s : System} {tx : TxRead} (hside : s.consumer = .live tx) :
      Step vis s (.closeRead tx.toBool)
        { s with
          up := if tx.invalidated_ then s.up else s.up.release tx.head_
          consumer := .idle tx.queue_ }

/-- A queue with both sides attached, `head_ = tail_ = 0` and any content of the ring. -/
structure System.IsFresh (queue : BaseTxQueue) (s : System) : Prop where
  down : s.down = .init 0
  up : s.up = .init 0
  producer : s.producer = .idle queue
  consumer : s.consumer = .idle queue

/-- What has happened so far, read off the events alone: the bytes of the committed write
transactions, in order, and of the open one, and the same for the read transactions. -/
structure History where
  written : List (List UInt8) := []
  writing : List UInt8 := []
  consumed : List (List UInt8) := []
  reading : List UInt8 := []

namespace History

/-- The history after one more event. -/
def record (h : History) : Event → History
  | .wrote data => { h with writing := h.writing ++ data }
  | .closeWrite published =>
      { h with
        written := if published then h.written ++ [h.writing] else h.written
        writing := [] }
  | .killProducer => { h with writing := [] }
  | .read data => { h with reading := h.reading ++ data }
  | .closeRead published =>
      { h with
        consumed := if published then h.consumed ++ [h.reading] else h.consumed
        reading := [] }
  | .killConsumer => { h with reading := [] }
  | _ => h

/-- The stream of all committed bytes. -/
def stream (h : History) : List UInt8 := h.written.flatten

/-- The stream position of the published tail. -/
def tail (h : History) : ℕ := h.written.flatten.length

/-- The stream position of the published head. -/
def head (h : History) : ℕ := h.consumed.flatten.length

/-- The stream position of the producer's local tail. -/
def localTail (h : History) : ℕ := h.tail + h.writing.length

/-- The stream position of the consumer's local head. -/
def localHead (h : History) : ℕ := h.head + h.reading.length

end History

/-- The two-party system on `queue`. -/
def txQueueLts (queue : BaseTxQueue) (vis : Visibility) : Lts System Event where
  initial := System.IsFresh queue
  step := Step vis

/-- A state of the system with its history. -/
abbrev World := Observed System History

/-- The two-party system on `queue` with its history. -/
abbrev worldLts (queue : BaseTxQueue) (vis : Visibility) : Lts World Event :=
  (txQueueLts queue vis).observe History.record {}

end TxQueue
