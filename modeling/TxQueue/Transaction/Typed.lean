import Mathlib.Algebra.Order.BigOperators.Group.List
import Mathlib.Algebra.GroupWithZero.Nat
import Mathlib.Algebra.Order.Group.Nat
import TxQueue.Transaction.Overloads
import TxQueue.Transaction.Positions

/-!
# Typed writes and typed reads

`write(const T&)` writes the object representation of a trivially copyable value, and the
characters of a `std::string`; `read(T&)` always reads `sizeof(T)` bytes into the object. For
trivially copyable types the two agree on the wire format, at every ring position. A `std::string`
is written as its characters but read as its object representation.
-/

namespace TxQueue

open Library

/-- A trivially copyable type with its object representation. -/
structure TrivialType where
  Value : Type
  sizeof : UInt64
  sizeof_pos : 0 < sizeof.toNat
  toBytes : Value → List UInt8
  ofBytes : List UInt8 → Value
  length_toBytes : ∀ v, (toBytes v).length = sizeof.toNat
  ofBytes_toBytes : ∀ v, ofBytes (toBytes v) = v

/-- What the platform makes of `std::string`: the size of the object, and the characters it holds
after its representation was overwritten. -/
structure StringLayout where
  sizeof : UInt64
  sizeof_pos : 0 < sizeof.toNat
  ofBytes : List UInt8 → List UInt8

/-- The item types that both `write` and `read` accept. -/
inductive ItemType where
  | trivial (T : TrivialType)
  | string

namespace ItemType

/-- The values of an item type. A `std::string` is its characters. -/
def Value : ItemType → Type
  | trivial T => T.Value
  | string => List UInt8

/-- `sizeof(T)`. -/
def sizeof (layout : StringLayout) : ItemType → UInt64
  | trivial T => T.sizeof
  | string => layout.sizeof

/-- The value of an object after `memcpy` into it. -/
def ofBytes (layout : StringLayout) : (t : ItemType) → List UInt8 → t.Value
  | trivial T => T.ofBytes
  | string => layout.ofBytes

/-- The bytes that `write(const T&)` passes to `imp_write`. -/
def wire : (t : ItemType) → t.Value → List UInt8
  | trivial T, v => T.toBytes v
  | string, text => text

/-- An item as an argument of `write`. -/
def argument : (t : ItemType) → t.Value → Argument
  | trivial T, v => .value (T.toBytes v) none
  | string, text => .string text

end ItemType

/-- A value for each of the types, like `tuple<ARGS...>`. -/
def Values : List ItemType → Type
  | [] => Unit
  | t :: ts => t.Value × Values ts

/-- The bytes of each item. -/
def Values.chunks : (ts : List ItemType) → Values ts → List (List UInt8)
  | [], _ => []
  | t :: ts, (v, vs) => t.wire v :: Values.chunks ts vs

/-- The bytes of all items, in order. -/
def Values.wire (ts : List ItemType) (vs : Values ts) : List UInt8 := (Values.chunks ts vs).flatten

/-- The `imp_write` calls of writing the items one after the other. -/
def Values.payloads : (ts : List ItemType) → Values ts → List (Option Payload)
  | [], _ => []
  | t :: ts, (v, vs) => (t.argument v).payload :: Values.payloads ts vs

/-- A read transaction at the start of a message that was written from `tail` to `tail'`, opened
before or after the message was committed. -/
structure TxRead.AtMessage (queue : BaseTxQueue) (tail tail' : UInt64) (tx : TxRead) : Prop where
  valid : tx.invalidated_ = false
  queue_eq : tx.queue_ = queue
  capacity : tx.capacity_ = queue.capacity_
  head : tx.head_ = tail
  cached : tx.cachedTail_ = tail ∨ tx.cachedTail_ = tail'

section Calls

variable {cap : UInt64} {q r : ℕ} {block : Block}

end Calls

section Law

variable {layout : StringLayout} {queue : RingQueue} {types : List ItemType}
  {values : Values types} {block : Block} {r q : ℕ} {core : Int32}

/-- The transaction and the block after the items were written, and the block after the commit. -/
abbrev written (queue : BaseTxQueue) (core : Int32) (types : List ItemType) (values : Values types)
    (block : Block) : WriteResult :=
  writeAll (fun _ => ⟨block.status.head_, core⟩)
    (.construct queue block.status.tail_ block.status.head_) block (Values.payloads types values)

/-- A reader at the message is ready to read it. -/
theorem TxRead.AtMessage.ready {reader : TxRead} {tail : UInt64} {block' : Block} {n : ℕ}
    (h : reader.AtMessage queue.toBaseTxQueue tail block'.status.tail_)
    (htail : tail.toNat = q % queue.capacity_.toNat)
    (hend : block'.status.tail_.toNat = (q + n) % queue.capacity_.toNat)
    (hn : n ≤ queue.capacity_.toNat - 1) : reader.Ready queue.capacity_ block' q (q + n) := by
  have hhead : reader.head_.toNat = q % queue.capacity_.toNat := by rw [h.head, htail]
  have hqueue : reader.queue_.capacity_ = queue.capacity_ := by rw [h.queue_eq]
  refine ⟨h.valid, ?_, hend, by omega⟩
  rcases h.cached with hcached | hcached
  · exact ⟨q, Nat.le_add_right _ _, le_rfl, hqueue, h.capacity, hhead, by rw [hcached, htail]⟩
  · exact ⟨q + n, le_rfl, Nat.le_add_right _ _, hqueue, h.capacity, hhead, by rw [hcached, hend]⟩

end Law

/-- `uint64_t`. -/
def uint64Type : TrivialType where
  Value := UInt64
  sizeof := 8
  sizeof_pos := by decide
  toBytes := le64
  ofBytes := ofLe64
  length_toBytes := length_le64
  ofBytes_toBytes := ofLe64_le64

end TxQueue
