import Mathlib.Algebra.Group.Nat.Defs
import Mathlib.Tactic.Common

/-!
# The queue object and the status block

`base_tx_queue_t`, `tx_queue_status_t` and the constructor of the multi-process queue. Pointers
are 64-bit addresses with `0` for `nullptr`. What the two sides share is a `Block`: the bytes that
`storage_` points to, addressed by their offset, and the status block.
-/

namespace TxQueue

/-- `CACHE_LINE_SIZE`, the value of `hardware_destructive_interference_size` on the platform. -/
def cacheLineSize : UInt64 := 64

/-- `sizeof(tx_queue_status_t)`: two cache lines, one for each index and its core hint. -/
def sizeofTxQueueStatus : UInt64 := 128

/-- `base_tx_queue_t`. -/
structure BaseTxQueue where
  storage_ : UInt64 := 0
  capacity_ : UInt64 := 0
  deriving DecidableEq

/-- `base_tx_queue_t::is_ok`. -/
def BaseTxQueue.isOk (queue : BaseTxQueue) : Bool := queue.storage_ != 0

/-- `base_tx_queue_t::capacity`: one slot stays free to tell a full ring from an empty one. -/
def BaseTxQueue.capacity (queue : BaseTxQueue) : UInt64 := queue.capacity_ - 1

/-- `tx_queue_status_t`. -/
structure TxQueueStatus where
  tail_ : UInt64
  producerCore_ : Int32 := -1
  head_ : UInt64
  consumerCore_ : Int32 := -1
  deriving DecidableEq

/-- Default-initialising a status block in place sets the two members with an initialiser and
leaves the indices as they are. -/
def TxQueueStatus.construct (status : TxQueueStatus) : TxQueueStatus :=
  { status with producerCore_ := -1, consumerCore_ := -1 }

/-- The memory that the producer and the consumer share. -/
structure Block where
  ring : ℕ → UInt8
  status : TxQueueStatus

/-- The queue object that `tx_queue_mp_t::tx_queue_mp_t` leaves. Its effect on the block is
`TxQueueStatus.construct`, and comes before the checks. -/
def txQueueMp (prealloc capacity : UInt64) : BaseTxQueue :=
  if prealloc = 0 then {}
  else
    let actualStorage := prealloc + sizeofTxQueueStatus
    let actualCapacity := capacity - sizeofTxQueueStatus
    if actualStorage &&& (cacheLineSize - 1) != 0 ||
        actualCapacity &&& (actualCapacity - 1) != 0 then {}
    else { storage_ := actualStorage, capacity_ := actualCapacity }

/-- A capacity the ring arithmetic is made for: a power of two. -/
def IsPowTwo (capacity : UInt64) : Prop := ∃ k, capacity.toNat = 2 ^ k

/-- A queue whose `capacity_` is a power of two. -/
structure RingQueue extends BaseTxQueue where
  isPowTwo : IsPowTwo capacity_

end TxQueue
