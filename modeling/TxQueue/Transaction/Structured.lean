import TxQueue.Transaction.Sequences
import TxQueue.Transaction.Typed

/-!
# The structured read

`read<ARGS...>()` reads into the fields of a value-initialised tuple in order, up to the first
`read` that returns `false`. It returns the tuple it has filled if all have succeeded, and another
value-initialised one otherwise. So the caller sees all of the fields or none of them, and after a
failure the transaction publishes nothing.
-/

namespace TxQueue

open Library

/-- A trivially copyable type with a default constructor. -/
structure DefaultType extends TrivialType where
  init : Value

/-- `tuple<ARGS...>`. -/
def Tuple : List DefaultType → Type
  | [] => Unit
  | t :: ts => t.Value × Tuple ts

namespace Tuple

/-- `tuple<ARGS...>{}`. -/
def init : (ts : List DefaultType) → Tuple ts
  | [] => ()
  | t :: ts => (t.init, init ts)

/-- The fields in consecutive bytes, in order. -/
def decode : (ts : List DefaultType) → List UInt8 → Tuple ts
  | [], _ => ()
  | t :: ts, bs => (t.ofBytes (bs.take t.sizeof.toNat), decode ts (bs.drop t.sizeof.toNat))

/-- The sum of the sizes of the fields, in unbounded arithmetic. -/
def totalSize (ts : List DefaultType) : ℕ := (ts.map fun t => t.sizeof.toNat).sum

@[simp] theorem totalSize_nil : totalSize [] = 0 := rfl

@[simp] theorem totalSize_cons (t : DefaultType) (ts : List DefaultType) :
    totalSize (t :: ts) = t.sizeof.toNat + totalSize ts := by
  simp [totalSize]

end Tuple

/-- What a structured read returns and leaves. -/
structure TupleResult (ts : List DefaultType) where
  value : Tuple ts
  tx : TxRead
  block : Block

/-- The fold over `&&` in `read<ARGS...>()`: whether all fields were read, and the tuple with those
that were. -/
def TxRead.readFields (cores : ℕ → Int32) :
    (ts : List DefaultType) → Tuple ts → TxRead → Block → Bool × TupleResult ts
  | [], temp, tx, block => (true, ⟨temp, tx, block⟩)
  | t :: ts, (field, temp), tx, block =>
      let result := tx.impRead block (cores 0) ((t.toBytes field).getD · 0) t.sizeof
      let field := t.ofBytes (bytes result.buffer t.sizeof)
      if result.ok then
        let rest := readFields (fun i => cores (i + 1)) ts temp result.tx result.block
        (rest.1, ⟨(field, rest.2.value), rest.2.tx, rest.2.block⟩)
      else (false, ⟨(field, temp), result.tx, result.block⟩)

/-- `tx_read_t::read<ARGS...>`. -/
def TxRead.readTuple (cores : ℕ → Int32) (ts : List DefaultType) (tx : TxRead) (block : Block) :
    TupleResult ts :=
  match ts with
  | [] => ⟨(), tx, block⟩
  | t :: ts =>
      let (allRead, temp) := readFields cores (t :: ts) (Tuple.init (t :: ts)) tx block
      if allRead then temp else ⟨Tuple.init (t :: ts), temp.tx, temp.block⟩

/-- A read transaction as it stands in a run: its indices are slots of the ring, and the cached tail
is not ahead of the published one. -/
structure TxRead.Coherent (tx : TxRead) (block : Block) : Prop where
  queue : tx.queue_.capacity_ = tx.capacity_
  capacity : IsPowTwo tx.capacity_
  head : tx.head_ < tx.capacity_
  cached : tx.cachedTail_ < tx.capacity_
  tail : block.status.tail_ < tx.capacity_
  behind : filledSlots tx.capacity_.toNat tx.cachedTail_.toNat tx.head_.toNat ≤
    filledSlots tx.capacity_.toNat block.status.tail_.toNat tx.head_.toNat

/-- The number of bytes between the local head and the published tail. -/
def TxRead.readable (tx : TxRead) (block : Block) : ℕ :=
  filledSlots tx.capacity_.toNat block.status.tail_.toNat tx.head_.toNat

/-- A structured read of what is there. -/
structure TupleResult.Decoded {ts : List DefaultType} (result : TupleResult ts) (tx : TxRead)
    (block : Block) : Prop where
  value : result.value =
    Tuple.decode ts (ringBytes tx.capacity_ block.ring tx.head_.toNat (Tuple.totalSize ts))
  valid : result.tx.toBool = true
  head : result.tx.head_.toNat = (tx.head_.toNat + Tuple.totalSize ts) % tx.capacity_.toNat

/-- A structured read that returns nothing: every later read fails, and closing the transaction
leaves the indices and the ring as they were. -/
structure TupleResult.Empty {ts : List DefaultType} (result : TupleResult ts) (block : Block) :
    Prop where
  value : result.value = Tuple.init ts
  invalid : result.tx.toBool = false
  later : ∀ block' cores ps, (result.tx.reads block' cores ps).oks = ps.map fun _ => false
  head : (result.tx.destroy result.block).status.head_ = block.status.head_
  tail : (result.tx.destroy result.block).status.tail_ = block.status.tail_
  ring : (result.tx.destroy result.block).ring = block.ring

namespace TxRead

variable {tx : TxRead} {block : Block} {cap : UInt64} {p r : ℕ} {ts : List DefaultType}

/-- The slots between two indices, from one to the other. -/
theorem add_filledSlots_mod {c a b : ℕ} (ha : a < c) (hb : b < c) :
    (b + filledSlots c a b) % c = a := by
  rw [filledSlots, Nat.add_mod_mod, show b + (a + (c - b)) = a + c by omega, Nat.add_mod_right,
    Nat.mod_eq_of_lt ha]

/-- A valid transaction in a coherent state is ready, at its local head. -/
theorem Coherent.ready (h : tx.Coherent block) (hvalid : tx.invalidated_ = false) :
    tx.Ready tx.capacity_ block tx.head_.toNat (tx.head_.toNat + tx.readable block) := by
  have hpos := h.capacity.pos
  have hhead := UInt64.lt_iff_toNat_lt.1 h.head
  have hcached := UInt64.lt_iff_toNat_lt.1 h.cached
  have htail := UInt64.lt_iff_toNat_lt.1 h.tail
  have hlap : tx.readable block < tx.capacity_.toNat := Nat.mod_lt _ hpos
  refine ⟨hvalid, ⟨tx.head_.toNat + filledSlots tx.capacity_.toNat tx.cachedTail_.toNat
    tx.head_.toNat, Nat.add_le_add_left h.behind _, Nat.le_add_right _ _, h.queue, rfl, ?_, ?_⟩,
    ?_, by omega⟩
  · exact (Nat.mod_eq_of_lt hhead).symm
  · exact (add_filledSlots_mod hcached hhead).symm
  · exact (add_filledSlots_mod htail hhead).symm

/-- A structured read stores to neither index, nor to the ring. -/
theorem readFields_memory (cores : ℕ → Int32) (temp : Tuple ts) (tx : TxRead) (block : Block) :
    (readFields cores ts temp tx block).2.block.status.head_ = block.status.head_ ∧
      (readFields cores ts temp tx block).2.block.status.tail_ = block.status.tail_ ∧
      (readFields cores ts temp tx block).2.block.ring = block.ring := by
  induction ts generalizing cores tx block with
  | nil => exact ⟨rfl, rfl, rfl⟩
  | cons t ts ih =>
      obtain ⟨field, temp⟩ := temp
      obtain ⟨hhead, htail, hring⟩ :=
        tx.impRead_memory block (cores 0) ((t.toBytes field).getD · 0) t.sizeof
      simp only [readFields]
      split_ifs with hok
      · rw [← hhead, ← htail, ← hring]
        exact ih _ _ _ _
      · exact ⟨hhead, htail, hring⟩

/-- When all fields are there, all are read, each from its place. -/
theorem Ready.readFields_fit (h : tx.Ready cap block p r) (hcap : IsPowTwo cap)
    (cores : ℕ → Int32) (temp : Tuple ts) (hfits : p + Tuple.totalSize ts ≤ r) :
    (readFields cores ts temp tx block).1 = true ∧
      (readFields cores ts temp tx block).2.value =
        Tuple.decode ts (ringBytes cap block.ring p (Tuple.totalSize ts)) ∧
      (readFields cores ts temp tx block).2.tx.Ready cap
        (readFields cores ts temp tx block).2.block (p + Tuple.totalSize ts) r := by
  induction ts generalizing cores tx block p with
  | nil => exact ⟨rfl, rfl, h⟩
  | cons t ts ih =>
      obtain ⟨field, temp⟩ := temp
      rw [Tuple.totalSize_cons] at hfits
      have hfirst : p + t.sizeof.toNat ≤ r := by omega
      obtain ⟨hok, hready, hring, hbytes⟩ :=
        h.impRead hcap (cores 0) ((t.toBytes field).getD · 0) hfirst
      obtain ⟨hall, hvalue, hfinal⟩ :=
        ih hready (fun i => cores (i + 1)) temp (by omega)
      simp only [readFields, hok, if_true]
      refine ⟨hall, ?_, ?_⟩
      · rw [hvalue, hbytes, hring, Tuple.totalSize_cons, ringBytes_add]
        have hlength := length_ringBytes cap block.ring p t.sizeof.toNat
        simp only [Tuple.decode, List.take_left' hlength, List.drop_left' hlength]
        rfl
      · rw [Tuple.totalSize_cons, ← Nat.add_assoc]
        exact hfinal

/-- When not all fields are there, the fold stops with an invalid transaction. -/
theorem Ready.readFields_short (h : tx.Ready cap block p r) (hcap : IsPowTwo cap)
    (cores : ℕ → Int32) (temp : Tuple ts) (hshort : r < p + Tuple.totalSize ts) :
    (readFields cores ts temp tx block).1 = false ∧
      (readFields cores ts temp tx block).2.tx.invalidated_ = true := by
  induction ts generalizing cores tx block p with
  | nil =>
      obtain ⟨q, hqr, hpq, -⟩ := h.cached
      simp at hshort
      omega
  | cons t ts ih =>
      obtain ⟨field, temp⟩ := temp
      rcases Nat.lt_or_ge r (p + t.sizeof.toNat) with hlt | hfits
      · obtain ⟨hok, hinvalid, -⟩ :=
          h.impRead_fails hcap (cores 0) ((t.toBytes field).getD · 0) hlt
        simp only [readFields, hok, Bool.false_eq_true, if_false]
        exact ⟨trivial, hinvalid⟩
      · obtain ⟨hok, hready, -⟩ :=
          h.impRead hcap (cores 0) ((t.toBytes field).getD · 0) hfits
        rw [Tuple.totalSize_cons, ← Nat.add_assoc] at hshort
        simp only [readFields, hok, if_true]
        exact ih hready _ temp hshort

/-- An invalid transaction reads no field. -/
theorem readFields_of_invalid (hinvalid : tx.invalidated_ = true) (cores : ℕ → Int32)
    (t : DefaultType) (temp : Tuple (t :: ts)) :
    (readFields cores (t :: ts) temp tx block).1 = false ∧
      (readFields cores (t :: ts) temp tx block).2.tx.invalidated_ = true := by
  obtain ⟨field, temp⟩ := temp
  simp [readFields, impRead_of_invalid hinvalid, hinvalid]

/-- What is left of a structured read that has stopped. -/
theorem readTuple_empty {cores : ℕ → Int32} {t : DefaultType}
    (hstop : (readFields cores (t :: ts) (Tuple.init (t :: ts)) tx block).1 = false ∧
      (readFields cores (t :: ts) (Tuple.init (t :: ts)) tx block).2.tx.invalidated_ = true) :
    (readTuple cores (t :: ts) tx block).Empty block := by
  obtain ⟨hhead, htail, hring⟩ := readFields_memory cores (Tuple.init (t :: ts)) tx block
  have hresult : readTuple cores (t :: ts) tx block = ⟨Tuple.init (t :: ts),
      (readFields cores (t :: ts) (Tuple.init (t :: ts)) tx block).2.tx,
      (readFields cores (t :: ts) (Tuple.init (t :: ts)) tx block).2.block⟩ := by
    simp only [readTuple, hstop.1, Bool.false_eq_true, if_false]
  rw [hresult]
  refine ⟨rfl, ?_, fun block' cores ps => (reads_of_invalid hstop.2 block' cores ps).1, ?_, ?_, ?_⟩
  · simp [toBool, hstop.2]
  · rw [destroy_of_invalid hstop.2, hhead]
  · rw [destroy_of_invalid hstop.2, htail]
  · rw [destroy_of_invalid hstop.2, hring]

end TxRead

/-- In every coherent state, a structured read of types that are there returns the next bytes of the
stream decoded in order, and moves the local head past them; and otherwise it returns the
value-initialised tuple and leaves an invalid transaction that reads and publishes nothing. -/
theorem structured_read (ts : List DefaultType) {tx : TxRead} {block : Block}
    (h : tx.Coherent block) (cores : ℕ → Int32) :
    (tx.toBool ∧ Tuple.totalSize ts ≤ tx.readable block →
      (TxRead.readTuple cores ts tx block).Decoded tx block) ∧
    (¬ (tx.toBool ∧ Tuple.totalSize ts ≤ tx.readable block) →
      (TxRead.readTuple cores ts tx block).Empty block) := by
  cases ts with
  | nil =>
      have hhead := UInt64.lt_iff_toNat_lt.1 h.head
      constructor
      · rintro ⟨hvalid, -⟩
        exact ⟨rfl, hvalid, (Nat.mod_eq_of_lt hhead).symm⟩
      · intro hnot
        have hinvalid : tx.invalidated_ = true := by
          simpa [TxRead.toBool] using hnot
        refine ⟨rfl, by simp [TxRead.readTuple, TxRead.toBool, hinvalid], fun block' cores ps =>
          (TxRead.reads_of_invalid hinvalid block' cores ps).1, ?_, ?_, ?_⟩ <;>
        simp [TxRead.readTuple, TxRead.destroy_of_invalid hinvalid]
  | cons t ts =>
      constructor
      · rintro ⟨hvalid, hfits⟩
        have hready := h.ready (by simpa [TxRead.toBool] using hvalid)
        obtain ⟨hall, hvalue, hfinal⟩ := hready.readFields_fit h.capacity cores
          (Tuple.init (t :: ts)) (Nat.add_le_add_left hfits _)
        obtain ⟨q, -, -, hat⟩ := hfinal.cached
        have hresult : TxRead.readTuple cores (t :: ts) tx block =
            (TxRead.readFields cores (t :: ts) (Tuple.init (t :: ts)) tx block).2 := by
          simp only [TxRead.readTuple, hall, if_true]
        rw [hresult]
        exact ⟨hvalue, by simp [TxRead.toBool, hfinal.valid], hat.head⟩
      · intro hnot
        apply TxRead.readTuple_empty
        cases hinv : tx.invalidated_ with
        | true => exact TxRead.readFields_of_invalid hinv cores t _
        | false =>
            refine (h.ready hinv).readFields_short h.capacity cores _ ?_
            have hshort : ¬ Tuple.totalSize (t :: ts) ≤ tx.readable block := fun hfits =>
              hnot ⟨by simp [TxRead.toBool, hinv], hfits⟩
            omega

/-- `uint64_t`, with the value that value-initialisation gives it. -/
def wordType : DefaultType where
  toTrivialType := uint64Type
  init := (0 : UInt64)

/-- A block with eight readable bytes across the end of a ring of 64. -/
def wordBlock : Block := { ring := fun _ => 7, status := { tail_ := 4, head_ := 60 } }

/-- A read transaction on that block that has not observed any of the bytes. -/
def wordReader : TxRead := .construct { storage_ := 64, capacity_ := 64 } 60 60

theorem wordReader_coherent : wordReader.Coherent wordBlock :=
  ⟨rfl, ⟨6, rfl⟩, by decide, by decide, by decide, by decide⟩

/-- `structured_read` of two words where there is one. -/
theorem two_words_empty :
    (TxRead.readTuple (fun _ => 0) [wordType, wordType] wordReader wordBlock).value =
      Tuple.init [wordType, wordType] :=
  ((structured_read _ wordReader_coherent _).2 (by decide)).value

end TxQueue
