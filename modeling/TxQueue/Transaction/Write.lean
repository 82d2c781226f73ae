import TxQueue.Transaction.Copy

/-!
# The write transaction

`tx_write_t` with its constructor, `imp_write`, `invalidate` and destructor. A load of the other
side's index is an argument here: `construct` takes the values of the two loads, `reserve` the
value that the acquire load returns if it is made. `impWrite` puts the pieces together on one
block, as one thread executes them.
-/

namespace TxQueue

/-- `tx_write_t`. -/
structure TxWrite where
  queue_ : BaseTxQueue
  storage_ : UInt64
  tail_ : UInt64
  cachedHead_ : UInt64
  capacity_ : UInt64
  invalidated_ : Bool
  deriving DecidableEq

/-- What a call of `imp_write` returns and leaves. -/
structure WriteResult where
  ok : Bool
  tx : TxWrite
  block : Block

/-- `producer_core_` after a failed availability check on `core`. The yield that may follow has no
effect on the state. -/
def Block.storeProducerCore (block : Block) (core : Int32) : Block :=
  { block with status := { block.status with producerCore_ := core } }

/-- `producer_core_` after a successful `imp_write`. -/
def Block.resetProducerCore (block : Block) : Block :=
  if block.status.producerCore_ != -1 then block.storeProducerCore (-1) else block

namespace TxWrite

/-- `tx_write_t::tx_write_t`, given what its two relaxed loads return. -/
def construct (queue : BaseTxQueue) (tail head : UInt64) : TxWrite where
  queue_ := queue
  storage_ := queue.storage_
  tail_ := tail
  cachedHead_ := head
  capacity_ := queue.capacity_
  invalidated_ := !queue.isOk

/-- `tx_write_t::operator bool`. -/
def toBool (tx : TxWrite) : Bool := !tx.invalidated_

/-- The free space that the transaction's own copies of the indices show. -/
def space (tx : TxWrite) : UInt64 := availableSpace tx.cachedHead_ tx.tail_ tx.capacity_

/-- Whether `imp_write` loads `head_` again. -/
def reloads (tx : TxWrite) (size : UInt64) : Bool := !tx.invalidated_ && decide (tx.space < size)

/-- The part of `imp_write` before the copies: the transaction with which it goes on, or the one it
returns `false` with. `head` is what the acquire load returns if it is made. -/
def reserve (tx : TxWrite) (size head : UInt64) : Except TxWrite TxWrite :=
  if tx.invalidated_ then .error tx
  else if size > tx.space then
    let tx := { tx with cachedHead_ := head }
    if size > tx.space then .error { tx with invalidated_ := true } else .ok tx
  else .ok tx

/-- The part of `imp_write` after the copies. -/
def finish (tx : TxWrite) (size : UInt64) : TxWrite :=
  { tx with tail_ := advance tx.tail_ size tx.capacity_ }

/-- `tx_write_t::imp_write` by a thread on core `core`. -/
def impWrite (tx : TxWrite) (block : Block) (core : Int32) (buffer : ℕ → UInt8) (size : UInt64) :
    WriteResult :=
  match tx.reserve size block.status.head_ with
  | .error tx' =>
      { ok := false
        tx := tx'
        block := if tx.invalidated_ then block else block.storeProducerCore core }
  | .ok tx' =>
      { ok := true
        tx := tx'.finish size
        block := Block.resetProducerCore
          { block with
            ring := (copies tx'.tail_ tx'.capacity_ size).foldl
              (fun ring c => c.copyIn buffer ring) block.ring } }

/-- `tx_write_t::invalidate`. -/
def invalidate (tx : TxWrite) : TxWrite := { tx with invalidated_ := true }

/-- What `tx_write_t::~tx_write_t` stores to `tail_`, if it does. -/
def published (tx : TxWrite) : Option UInt64 :=
  if tx.invalidated_ then none else some tx.tail_

/-- `tx_write_t::~tx_write_t`. -/
def destroy (tx : TxWrite) (block : Block) : Block :=
  match tx.published with
  | none => block
  | some tail => { block with status := { block.status with tail_ := tail } }

variable {tx tx' : TxWrite} {size head : UInt64}

/-- Only a valid transaction loads again. -/
theorem valid_of_reloads (h : tx.reloads size = true) : (!tx.invalidated_) = true := by
  simp only [reloads, Bool.and_eq_true] at h
  exact h.1

/-- What `reserve` goes on with: a valid transaction that shows room, and whose cached head is
the loaded one if there was a load. -/
theorem reserve_eq_ok (h : tx.reserve size head = .ok tx') :
    tx.invalidated_ = false ∧ size ≤ tx'.space ∧
      tx' = { tx with cachedHead_ := if tx.reloads size then head else tx.cachedHead_ } := by
  simp only [reserve] at h
  split_ifs at h with hinv hsize hagain
  · cases h
    have hload : tx.reloads size = true := by simp [reloads, hinv, hsize]
    simp_all
  · cases h
    have hload : tx.reloads size = false := by simp [reloads, hsize]
    rw [hload, if_neg Bool.false_ne_true]
    exact ⟨by simpa using hinv, by simpa using hsize, rfl⟩

/-- What `reserve` fails with: the transaction itself if it was invalid, and otherwise one that
has loaded the head, shows too little room even so, and is invalid now. -/
theorem reserve_eq_error (h : tx.reserve size head = .error tx') :
    tx'.invalidated_ = true ∧ (tx.invalidated_ = false → tx.reloads size ∧ tx'.space < size) ∧
      tx' = { tx with
        cachedHead_ := if tx.reloads size then head else tx.cachedHead_
        invalidated_ := true } := by
  simp only [reserve] at h
  split_ifs at h with hinv hsize hagain
  · cases h
    have hload : tx.reloads size = false := by simp [reloads, hinv]
    rw [hload, if_neg Bool.false_ne_true]
    exact ⟨hinv, by simp [hinv], by simp [← hinv]⟩
  · cases h
    have hload : tx.reloads size = true := by simp [reloads, hinv, hsize]
    exact ⟨rfl, fun _ => ⟨hload, hagain⟩, by simp [hload]⟩

/-- On an invalid transaction `imp_write` does nothing. -/
theorem impWrite_of_invalid (h : tx.invalidated_ = true) (block : Block) (core : Int32)
    (buffer : ℕ → UInt8) : tx.impWrite block core buffer size = ⟨false, tx, block⟩ := by
  simp [impWrite, reserve, h]

/-- `imp_write` returns `true` exactly if it leaves the transaction valid. -/
theorem impWrite_ok (tx : TxWrite) (block : Block) (core : Int32) (buffer : ℕ → UInt8)
    (size : UInt64) : (tx.impWrite block core buffer size).ok =
      (tx.impWrite block core buffer size).tx.toBool := by
  cases hreserve : tx.reserve size block.status.head_ with
  | error tx' =>
      have hinvalid := (reserve_eq_error hreserve).1
      simp [impWrite, hreserve, toBool, hinvalid]
  | ok tx' =>
      obtain ⟨hvalid, -, rfl⟩ := reserve_eq_ok hreserve
      simp [impWrite, hreserve, toBool, finish, hvalid]

/-- An `imp_write` that succeeds comes after one that has succeeded. -/
theorem impWrite_ok_of_later {block block' : Block} {core core' : Int32}
    {buffer buffer' : ℕ → UInt8} {size' : UInt64}
    (hlater : ((tx.impWrite block core buffer size).tx.impWrite block' core' buffer' size').ok) :
    (tx.impWrite block core buffer size).ok := by
  by_contra hfail
  have hinvalid : (tx.impWrite block core buffer size).tx.invalidated_ = true := by
    simpa [impWrite_ok, toBool] using hfail
  simp [impWrite_of_invalid hinvalid] at hlater

/-- A call of `imp_write` stays on its queue. -/
@[simp] theorem impWrite_queue (tx : TxWrite) (block : Block) (core : Int32) (buffer : ℕ → UInt8)
    (size : UInt64) : (tx.impWrite block core buffer size).tx.queue_ = tx.queue_ := by
  cases hreserve : tx.reserve size block.status.head_ with
  | error tx' =>
      obtain ⟨-, -, rfl⟩ := reserve_eq_error hreserve
      simp [impWrite, hreserve]
  | ok tx' =>
      obtain ⟨-, -, rfl⟩ := reserve_eq_ok hreserve
      simp [impWrite, hreserve, finish]

/-- `imp_write` stores to neither index. -/
theorem impWrite_indices (tx : TxWrite) (block : Block) (core : Int32) (buffer : ℕ → UInt8)
    (size : UInt64) :
    (tx.impWrite block core buffer size).block.status.head_ = block.status.head_ ∧
      (tx.impWrite block core buffer size).block.status.tail_ = block.status.tail_ := by
  unfold impWrite
  cases tx.reserve size block.status.head_ with
  | error tx' =>
      dsimp only
      split <;> exact ⟨rfl, rfl⟩
  | ok tx' =>
      dsimp only [Block.resetProducerCore]
      split <;> exact ⟨rfl, rfl⟩

@[simp] theorem destroy_ring (block : Block) : (tx.destroy block).ring = block.ring := by
  unfold destroy
  split <;> rfl

@[simp] theorem destroy_head (block : Block) :
    (tx.destroy block).status.head_ = block.status.head_ := by
  unfold destroy
  split <;> rfl

theorem destroy_of_invalid (h : tx.invalidated_ = true) (block : Block) :
    tx.destroy block = block := by
  simp [destroy, published, h]

theorem destroy_tail (h : tx.invalidated_ = false) (block : Block) :
    (tx.destroy block).status.tail_ = tx.tail_ := by
  simp [destroy, published, h]

@[simp] theorem finish_invalidated : (tx.finish size).invalidated_ = tx.invalidated_ := rfl
@[simp] theorem finish_capacity : (tx.finish size).capacity_ = tx.capacity_ := rfl
@[simp] theorem finish_cachedHead : (tx.finish size).cachedHead_ = tx.cachedHead_ := rfl
@[simp] theorem finish_queue : (tx.finish size).queue_ = tx.queue_ := rfl
@[simp] theorem invalidate_invalidated : tx.invalidate.invalidated_ = true := rfl

end TxWrite

end TxQueue
