import TxQueue.Library.Transition
import TxQueue.Library.Refinement
import TxQueue.Library.TransactionalQueue
import TxQueue.Library.Progress
import TxQueue.Library.Fairness
import TxQueue.Library.Stores
import TxQueue.Library.Stream
import TxQueue.Library.Channel
import TxQueue.Library.LittleEndian
import TxQueue.Library.Framing
import TxQueue.Library.Smear
import TxQueue.Library.While
import TxQueue.Library.Blocks
import TxQueue.Library.BigEndian
import TxQueue.Library.Fips180
import TxQueue.Library.Hex
import TxQueue.Queue
import TxQueue.QueueMp
import TxQueue.Transaction.Copy
import TxQueue.Transaction.Write
import TxQueue.Transaction.Read
import TxQueue.Transaction.Positions
import TxQueue.Transaction.Reference
import TxQueue.Transaction.Synchronised
import TxQueue.Transaction.Overloads
import TxQueue.Transaction.Sequences
import TxQueue.Transaction.Variadic
import TxQueue.Transaction.Failure
import TxQueue.Transaction.Typed
import TxQueue.Transaction.Structured
import TxQueue.Concurrent.System
import TxQueue.Concurrent.Sides
import TxQueue.Concurrent.Indices
import TxQueue.Concurrent.Contents
import TxQueue.Concurrent.Calls
import TxQueue.Concurrent.Fifo
import TxQueue.Concurrent.Capacity
import TxQueue.Concurrent.Uncached
import TxQueue.Concurrent.Synchronised
import TxQueue.Concurrent.Atomicity
import TxQueue.Concurrent.Exclusion
import TxQueue.Concurrent.Ordering
import TxQueue.Concurrent.Reattach
import TxQueue.Concurrent.Mapping
import TxQueue.QueueSp
import TxQueue.Concurrent.Bounds
import TxQueue.Concurrent.Refinement
import TxQueue.Concurrent.WaitFree
import TxQueue.Construction
import TxQueue.Rejection
import TxQueue.Jobs.Transfer
import TxQueue.Jobs.Sending
import TxQueue.Jobs.Receiving
import TxQueue.Jobs.Delivery
import TxQueue.Jobs.Progress
import TxQueue.Jobs.Passes
import TxQueue.Jobs.EndToEnd
import TxQueue.Jobs.Returning
import TxQueue.Jobs.Completion
import TxQueue.Jobs.Turns
import TxQueue.Jobs.Attempts
import TxQueue.Jobs.Termination
import TxQueue.Jobs.Livelock
import TxQueue.Jobs.TransmisionTermination
import TxQueue.Jobs.Interactive
import TxQueue.Jobs.Reporting
import TxQueue.Jobs.InteractivePasses
import TxQueue.Jobs.InteractiveDelivery
import TxQueue.Jobs.InteractiveLiveness
import TxQueue.Jobs.Verification
import TxQueue.Jobs.Transmision
import TxQueue.Jobs.TransmisionDelivery
import TxQueue.Jobs.TransmisionEndToEnd
import TxQueue.SharedMemory
import TxQueue.MappedMemory
import TxQueue.Utests.Sha256
import TxQueue.Utests.Compression
import TxQueue.Utests.Digest
import TxQueue.Utests.Checksum
import TxQueue.Utests.Text
import TxQueue.Jobs.HashStr
import TxQueue.Jobs.Programs
import TxQueue.Jobs.Mains
import TxQueue.Jobs.MainsTermination
