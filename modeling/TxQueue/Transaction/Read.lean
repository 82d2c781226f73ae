import TxQueue.Transaction.Copy

/-!
# The read transaction

`tx_read_t` with its constructor, `imp_read`, `invalidate` and destructor, arranged like the
write transaction.
-/

namespace TxQueue

/-- `tx_read_t`. -/
structure TxRead where
  queue_ : BaseTxQueue
  storage_ : UInt64
  head_ : UInt64
  cachedTail_ : UInt64
  capacity_ : UInt64
  invalidated_ : Bool
  deriving DecidableEq

/-- What a call of `imp_read` returns and leaves, the caller's buffer included. -/
structure ReadResult where
  ok : Bool
  tx : TxRead
  block : Block
  buffer : ℕ → UInt8

/-- `consumer_core_` after a failed availability check on `core`. -/
def Block.storeConsumerCore (block : Block) (core : Int32) : Block :=
  { block with status := { block.status with consumerCore_ := core } }

/-- `consumer_core_` after a successful `imp_read`. -/
def Block.resetConsumerCore (block : Block) : Block :=
  if block.status.consumerCore_ != -1 then block.storeConsumerCore (-1) else block

namespace TxRead

/-- `tx_read_t::tx_read_t`, given what its two relaxed loads return. -/
def construct (queue : BaseTxQueue) (head tail : UInt64) : TxRead where
  queue_ := queue
  storage_ := queue.storage_
  head_ := head
  cachedTail_ := tail
  capacity_ := queue.capacity_
  invalidated_ := !queue.isOk

/-- `tx_read_t::operator bool`. -/
def toBool (tx : TxRead) : Bool := !tx.invalidated_

/-- The readable data that the transaction's own copies of the indices show. -/
def data (tx : TxRead) : UInt64 := availableData tx.cachedTail_ tx.head_ tx.capacity_

/-- Whether `imp_read` loads `tail_` again. -/
def reloads (tx : TxRead) (size : UInt64) : Bool := !tx.invalidated_ && decide (tx.data < size)

/-- The part of `imp_read` before the copies: the transaction with which it goes on, or the one it
returns `false` with. `tail` is what the acquire load returns if it is made. -/
def reserve (tx : TxRead) (size tail : UInt64) : Except TxRead TxRead :=
  if tx.invalidated_ then .error tx
  else if size > tx.data then
    let tx := { tx with cachedTail_ := tail }
    if size > tx.data then .error { tx with invalidated_ := true } else .ok tx
  else .ok tx

/-- The part of `imp_read` after the copies. -/
def finish (tx : TxRead) (size : UInt64) : TxRead :=
  { tx with head_ := advance tx.head_ size tx.capacity_ }

/-- `tx_read_t::imp_read` by a thread on core `core`. -/
def impRead (tx : TxRead) (block : Block) (core : Int32) (buffer : ℕ → UInt8) (size : UInt64) :
    ReadResult :=
  match tx.reserve size block.status.tail_ with
  | .error tx' =>
      { ok := false
        tx := tx'
        block := if tx.invalidated_ then block else block.storeConsumerCore core
        buffer := buffer }
  | .ok tx' =>
      { ok := true
        tx := tx'.finish size
        block := block.resetConsumerCore
        buffer := (copies tx'.head_ tx'.capacity_ size).foldl
          (fun buffer c => c.copyOut block.ring buffer) buffer }

/-- `tx_read_t::invalidate`. -/
def invalidate (tx : TxRead) : TxRead := { tx with invalidated_ := true }

/-- What `tx_read_t::~tx_read_t` stores to `head_`, if it does. -/
def published (tx : TxRead) : Option UInt64 :=
  if tx.invalidated_ then none else some tx.head_

/-- `tx_read_t::~tx_read_t`. -/
def destroy (tx : TxRead) (block : Block) : Block :=
  match tx.published with
  | none => block
  | some head => { block with status := { block.status with head_ := head } }

variable {tx tx' : TxRead} {size tail : UInt64}

/-- Only a valid transaction loads again. -/
theorem valid_of_reloads (h : tx.reloads size = true) : (!tx.invalidated_) = true := by
  simp only [reloads, Bool.and_eq_true] at h
  exact h.1

/-- What `reserve` goes on with: a valid transaction that shows enough data, and whose cached tail
is the loaded one if there was a load. -/
theorem reserve_eq_ok (h : tx.reserve size tail = .ok tx') :
    tx.invalidated_ = false ∧ size ≤ tx'.data ∧
      tx' = { tx with cachedTail_ := if tx.reloads size then tail else tx.cachedTail_ } := by
  simp only [reserve] at h
  split_ifs at h with hinv hsize hagain
  · cases h
    have hload : tx.reloads size = true := by simp [reloads, hinv, hsize]
    simp_all
  · cases h
    have hload : tx.reloads size = false := by simp [reloads, hsize]
    rw [hload, if_neg Bool.false_ne_true]
    exact ⟨by simpa using hinv, by simpa using hsize, rfl⟩

/-- What `reserve` fails with: the transaction itself if it was invalid, and otherwise one that
has loaded the tail, shows too little data even so, and is invalid now. -/
theorem reserve_eq_error (h : tx.reserve size tail = .error tx') :
    tx'.invalidated_ = true ∧ (tx.invalidated_ = false → tx.reloads size ∧ tx'.data < size) ∧
      tx' = { tx with
        cachedTail_ := if tx.reloads size then tail else tx.cachedTail_
        invalidated_ := true } := by
  simp only [reserve] at h
  split_ifs at h with hinv hsize hagain
  · cases h
    have hload : tx.reloads size = false := by simp [reloads, hinv]
    rw [hload, if_neg Bool.false_ne_true]
    exact ⟨hinv, by simp [hinv], by simp [← hinv]⟩
  · cases h
    have hload : tx.reloads size = true := by simp [reloads, hinv, hsize]
    exact ⟨rfl, fun _ => ⟨hload, hagain⟩, by simp [hload]⟩

/-- On an invalid transaction `imp_read` does nothing. -/
theorem impRead_of_invalid (h : tx.invalidated_ = true) (block : Block) (core : Int32)
    (buffer : ℕ → UInt8) : tx.impRead block core buffer size = ⟨false, tx, block, buffer⟩ := by
  simp [impRead, reserve, h]

/-- `imp_read` returns `true` exactly if it leaves the transaction valid. -/
theorem impRead_ok (tx : TxRead) (block : Block) (core : Int32) (buffer : ℕ → UInt8)
    (size : UInt64) : (tx.impRead block core buffer size).ok =
      (tx.impRead block core buffer size).tx.toBool := by
  cases hreserve : tx.reserve size block.status.tail_ with
  | error tx' =>
      have hinvalid := (reserve_eq_error hreserve).1
      simp [impRead, hreserve, toBool, hinvalid]
  | ok tx' =>
      obtain ⟨hvalid, -, rfl⟩ := reserve_eq_ok hreserve
      simp [impRead, hreserve, toBool, finish, hvalid]

/-- An `imp_read` that succeeds comes after one that has succeeded. -/
theorem impRead_ok_of_later {block block' : Block} {core core' : Int32}
    {buffer buffer' : ℕ → UInt8} {size' : UInt64}
    (hlater : ((tx.impRead block core buffer size).tx.impRead block' core' buffer' size').ok) :
    (tx.impRead block core buffer size).ok := by
  by_contra hfail
  have hinvalid : (tx.impRead block core buffer size).tx.invalidated_ = true := by
    simpa [impRead_ok, toBool] using hfail
  simp [impRead_of_invalid hinvalid] at hlater

/-- A call of `imp_read` stays on its queue. -/
@[simp] theorem impRead_queue (tx : TxRead) (block : Block) (core : Int32) (buffer : ℕ → UInt8)
    (size : UInt64) : (tx.impRead block core buffer size).tx.queue_ = tx.queue_ := by
  cases hreserve : tx.reserve size block.status.tail_ with
  | error tx' =>
      obtain ⟨-, -, rfl⟩ := reserve_eq_error hreserve
      simp [impRead, hreserve]
  | ok tx' =>
      obtain ⟨-, -, rfl⟩ := reserve_eq_ok hreserve
      simp [impRead, hreserve, finish]

/-- `imp_read` stores to neither index, nor to the ring. -/
theorem impRead_memory (tx : TxRead) (block : Block) (core : Int32) (buffer : ℕ → UInt8)
    (size : UInt64) :
    (tx.impRead block core buffer size).block.status.head_ = block.status.head_ ∧
      (tx.impRead block core buffer size).block.status.tail_ = block.status.tail_ ∧
      (tx.impRead block core buffer size).block.ring = block.ring := by
  unfold impRead
  cases tx.reserve size block.status.tail_ with
  | error tx' =>
      dsimp only
      split <;> exact ⟨rfl, rfl, rfl⟩
  | ok tx' =>
      dsimp only [Block.resetConsumerCore]
      split <;> exact ⟨rfl, rfl, rfl⟩

@[simp] theorem destroy_ring (block : Block) : (tx.destroy block).ring = block.ring := by
  unfold destroy
  split <;> rfl

@[simp] theorem destroy_tail (block : Block) :
    (tx.destroy block).status.tail_ = block.status.tail_ := by
  unfold destroy
  split <;> rfl

theorem destroy_of_invalid (h : tx.invalidated_ = true) (block : Block) :
    tx.destroy block = block := by
  simp [destroy, published, h]

theorem destroy_head (h : tx.invalidated_ = false) (block : Block) :
    (tx.destroy block).status.head_ = tx.head_ := by
  simp [destroy, published, h]

@[simp] theorem finish_invalidated : (tx.finish size).invalidated_ = tx.invalidated_ := rfl
@[simp] theorem finish_capacity : (tx.finish size).capacity_ = tx.capacity_ := rfl
@[simp] theorem finish_cachedTail : (tx.finish size).cachedTail_ = tx.cachedTail_ := rfl
@[simp] theorem finish_queue : (tx.finish size).queue_ = tx.queue_ := rfl
@[simp] theorem invalidate_invalidated : tx.invalidate.invalidated_ = true := rfl

end TxRead

end TxQueue
