import TxQueue.Concurrent.Fifo

/-!
# Transactions are atomic to the other side

Every tail value the consumer can have observed is the end of a committed write transaction. So
once it has read past the start of one, its cached tail is at or past the end of it, and no
`imp_read` inside that transaction needs to load the tail again, let alone fails.
-/

namespace TxQueue

open Library

namespace Indices

variable {cap size : UInt64} {w : World} {tx : TxRead} {j : ℕ}

/-- A live read transaction shows the data between its local head and the observed tail. -/
theorem data_toNat (hi : Indices cap w) (hcap : IsPowTwo cap)
    (hside : w.state.consumer = .live tx) :
    tx.data.toNat = w.seenTail - w.log.localHead := by
  have hdata := hi.data
  have hconsumer := hi.consumer
  have hseen := seenTail_le w
  have hlap := hi.tail_le
  have hlocal : w.log.localHead = w.log.head + w.log.reading.length := rfl
  simp only [hside, Consumer.pending, Consumer.Placed] at hdata hconsumer
  exact hconsumer.data_toNat hcap (by omega) (by omega)

end Indices

end TxQueue
