import TxQueue.Transaction.Sequences

/-!
# The variadic `write` and the sequence of its single writes

`write(first, rest...)` takes its first argument by reference and the others by value, so an array
among the others arrives as a pointer: at the end of the list it is written as an item, which is its
address, and before a number it selects the raw buffer overload. The variadic call is the sequence
of its single writes exactly if no such array makes a difference. Where one does, there is a
transaction that shows it: one in which every write before it fits exactly.
-/

namespace TxQueue

open Library

namespace Argument

def IsArray : Argument → Prop
  | array _ _ _ _ => True
  | _ => False

def IsPointer : Argument → Prop
  | pointer _ _ => True
  | _ => False

/-- What the language guarantees of an argument that is not a pointer: an object has at least one
byte, and all of it fits into half the address space. -/
def IsObject : Argument → Prop
  | value raw _ => 0 < raw.length ∧ raw.length < 2 ^ 63
  | string text => text.length < 2 ^ 63
  | array element extent _ _ => 0 < extent.toNat ∧ 0 < element.sizeof.toNat ∧
      extent.toNat * element.sizeof.toNat < 2 ^ 63
  | pointer _ _ => False

/-- An array whose bytes, as `write` takes them, are the representation of its own address. -/
def HoldsOwnAddress : Argument → Prop
  | array element extent address memory => ∃ size,
      (array element extent address memory).payload = some ⟨memory, size⟩ ∧
      bytes memory size = le64 address
  | _ => False

end Argument

/-- The list of arguments selects an overload at each step. -/
def Compiles (first : Argument) (rest : List Argument) : Prop :=
  (first.resolve (rest.map Argument.decay)).isSome

/-- A state of a write transaction on a queue with a power-of-two capacity. -/
structure TxWrite.Legal (tx : TxWrite) : Prop where
  capacity : IsPowTwo tx.capacity_
  tail : tx.tail_.toNat < tx.capacity_.toNat

/-- What the caller of `write` can tell two calls apart by. -/
structure WriteResult.Same (a b : WriteResult) : Prop where
  ok : a.ok = b.ok
  ring : a.block.ring = b.block.ring
  tail : a.tx.tail_ = b.tx.tail_
  invalidated : a.tx.invalidated_ = b.tx.invalidated_

/-- `write(first, rest...)` does what `write(first)` and then `write(a)` for each `a` of `rest` do,
up to the first that returns `false`. -/
def SequenceLaw (first : Argument) (rest : List Argument) : Prop :=
  ∃ ops, first.resolve (rest.map Argument.decay) = some ops ∧
    ∀ (env : ℕ → Env) (tx : TxWrite) (block : Block), tx.Legal →
      (writeAll env tx block ops).Same
        (writeAll env tx block ((first :: rest).map Argument.payload))

/-- The argument lists for which the law holds. -/
def DecaysWithoutEffect (first : Argument) (rest : List Argument) : Prop :=
  (∀ a ∈ rest, ¬ a.IsArray) ∨
    (∃ init a, rest = init ++ [a] ∧ (∀ b ∈ init, ¬ b.IsArray) ∧ a.HoldsOwnAddress) ∨
    (first.IsEmptyText ∧ Compiles first rest)

namespace Argument

variable {a first : Argument} {init rest : List Argument}

theorem decay_of_not_isArray (h : ¬ a.IsArray) : a.decay = a := by
  cases a with
  | array => exact absurd trivial h
  | value | string | pointer => rfl

theorem map_decay_of_not_isArray (h : ∀ a ∈ rest, ¬ a.IsArray) : rest.map decay = rest := by
  induction rest with
  | nil => rfl
  | cons a rest ih =>
      rw [List.map_cons, decay_of_not_isArray (h a List.mem_cons_self),
        ih fun b hb => h b (List.mem_cons_of_mem _ hb)]

theorem IsObject.not_isPointer (h : a.IsObject) : ¬ a.IsPointer := by
  cases a with
  | pointer => exact h.elim
  | value | string | array => exact id

theorem not_isPointer_iff : ¬ a.IsPointer ↔ ∀ address memory, a ≠ pointer address memory := by
  cases a <;> simp [IsPointer]

/-- Arguments that are no pointers are written one after the other, and then the rest. -/
theorem resolve_append {p : Argument} {tail : List Argument}
    (h : ∀ a ∈ first :: init, ¬ a.IsPointer) : first.resolve (init ++ p :: tail) =
      (p.resolve tail).map ((first :: init).map payload ++ ·) := by
  induction init generalizing first with
  | nil =>
      rw [List.nil_append, resolve_cons (not_isPointer_iff.1 (h first List.mem_cons_self))]
      rfl
  | cons b init ih =>
      rw [List.cons_append, resolve_cons (not_isPointer_iff.1 (h first List.mem_cons_self)),
        ih fun a ha => h a (List.mem_cons_of_mem _ ha), Option.map_map]
      rfl

/-- Without pointers the calls are those of the single writes. -/
theorem resolve_eq_map (h : ∀ a ∈ first :: rest, ¬ a.IsPointer) :
    first.resolve rest = some ((first :: rest).map payload) := by
  rcases List.eq_nil_or_concat rest with rfl | ⟨init, p, rfl⟩
  · cases first <;> rfl
  · rw [List.concat_eq_append, resolve_append fun a ha => h a (by
      rcases List.mem_cons.1 ha with rfl | ha
      · exact List.mem_cons_self
      · simp [ha])]
    cases p <;> simp [resolve]

/-- The array overload of an object that is no empty text makes a call, and of at least one byte. -/
theorem IsObject.payload_array {element : ElementType} {extent address : UInt64}
    {memory : ℕ → UInt8} (h : (array element extent address memory).IsObject)
    (hne : ¬ (array element extent address memory).IsEmptyText) :
    ∃ size, (array element extent address memory).payload = some ⟨memory, size⟩ ∧
      0 < size.toNat ∧ size.toNat < 2 ^ 63 := by
  obtain ⟨hextent, hsizeof, hbound⟩ := h
  have hlt := extent.toNat_lt
  have hle : extent.toNat - 1 < extent.toNat := by omega
  have hmul : (extent.toNat - 1) * element.sizeof.toNat < 2 ^ 63 :=
    (Nat.mul_le_mul_right _ hle.le).trans_lt hbound
  simp only [payload]
  split_ifs with htext hmore
  · rw [gt_iff_lt, UInt64.lt_iff_toNat_lt, UInt64.toNat_one] at hmore
    refine ⟨_, rfl, ?_⟩
    rw [UInt64.toNat_mul, sub_one_toNat hextent, Nat.mod_eq_of_lt (by omega)]
    exact ⟨Nat.mul_pos (by omega) hsizeof, hmul⟩
  · exact absurd ⟨htext, UInt64.not_lt.1 hmore⟩ hne
  · refine ⟨_, rfl, ?_⟩
    rw [UInt64.toNat_mul, Nat.mod_eq_of_lt (by omega)]
    exact ⟨Nat.mul_pos hextent hsizeof, hbound⟩

/-- An object that is no empty text is one call of less than half the address space. -/
theorem IsObject.payload (h : a.IsObject) (hne : ¬ a.IsEmptyText) :
    ∃ p, a.payload = some p ∧ p.size.toNat < 2 ^ 63 := by
  have hlist : ∀ raw : List UInt8, raw.length < 2 ^ 63 →
      (Payload.ofList raw).size.toNat < 2 ^ 63 := by
    intro raw hraw
    show (UInt64.ofNat raw.length).toNat < 2 ^ 63
    rwa [UInt64.toNat_ofNat_of_lt' (show raw.length < 2 ^ 64 by omega)]
  cases a with
  | value raw asSize => exact ⟨_, rfl, hlist raw h.2⟩
  | string text => exact ⟨_, rfl, hlist text h⟩
  | array element extent address memory =>
      obtain ⟨size, hpayload, -, hsize⟩ := h.payload_array hne
      exact ⟨_, hpayload, hsize⟩
  | pointer => exact h.elim

end Argument

/-! ## Calls that cannot be told apart -/

section Same

variable {tx : TxWrite} {env : ℕ → Env} {block : Block}

theorem WriteResult.Same.refl (a : WriteResult) : a.Same a := ⟨rfl, rfl, rfl, rfl⟩

/-- A call leaves a legal state. -/
theorem TxWrite.Legal.impWrite (h : tx.Legal) (block : Block) (core : Int32) (buffer : ℕ → UInt8)
    (size : UInt64) : (tx.impWrite block core buffer size).tx.Legal := by
  cases hreserve : tx.reserve size block.status.head_ with
  | error tx' =>
      obtain ⟨-, -, rfl⟩ := reserve_eq_error hreserve
      simp only [TxWrite.impWrite, hreserve]
      exact ⟨h.capacity, h.tail⟩
  | ok tx' =>
      obtain ⟨-, -, rfl⟩ := reserve_eq_ok hreserve
      simp only [TxWrite.impWrite, hreserve]
      refine ⟨h.capacity, ?_⟩
      show (advance tx.tail_ size tx.capacity_).toNat < tx.capacity_.toNat
      rw [advance_toNat h.capacity]
      exact Nat.mod_lt _ h.capacity.pos

/-- Only the first `size` bytes of a buffer matter. -/
theorem TxWrite.Legal.impWrite_congr (h : tx.Legal) (block : Block) (core : Int32)
    {buffer buffer' : ℕ → UInt8} {size : UInt64} (hbytes : bytes buffer size = bytes buffer' size) :
    tx.impWrite block core buffer size = tx.impWrite block core buffer' size := by
  have hbuffer : ∀ i < size.toNat, buffer i = buffer' i := fun i hi =>
    List.map_inj_left.1 hbytes i (List.mem_range.2 hi)
  cases hreserve : tx.reserve size block.status.head_ with
  | error tx' => simp only [TxWrite.impWrite, hreserve]
  | ok tx' =>
      obtain ⟨htail, hcapacity, hsize⟩ := lt_of_reserve h.capacity h.tail hreserve
      have hring : (copies tx'.tail_ tx'.capacity_ size).foldl
            (fun ring c => c.copyIn buffer ring) block.ring =
          (copies tx'.tail_ tx'.capacity_ size).foldl
            (fun ring c => c.copyIn buffer' ring) block.ring := by
        rw [foldl_copyIn, foldl_copyIn, htail, hcapacity, copies_pairs h.capacity h.tail hsize]
        congr 1
        refine List.map_congr_left ?_
        intro x hx
        obtain ⟨i, hi, rfl⟩ := List.mem_map.1 hx
        simp only [hbuffer i (List.mem_range.1 hi)]
      simp only [TxWrite.impWrite, hreserve, hring]

/-- Two payloads of the same bytes, after any calls. -/
theorem writeAll_congr (h : tx.Legal) (pre : List (Option Payload)) (p p' : Payload)
    (hsize : p.size = p'.size) (hbytes : bytes p.buffer p.size = bytes p'.buffer p'.size) :
    writeAll env tx block (pre ++ [some p]) = writeAll env tx block (pre ++ [some p']) := by
  induction pre generalizing env tx block with
  | nil =>
      rw [← hsize] at hbytes
      simp only [List.nil_append, writeAll, Payload.write, ← hsize, h.impWrite_congr _ _ hbytes]
  | cons op pre ih =>
      cases op with
      | none => rfl
      | some p =>
          simp only [List.cons_append, writeAll]
          split_ifs with hok
          · exact ih (h.impWrite _ _ _ _)
          · rfl

end Same

/-- The law holds where the condition does. -/
theorem DecaysWithoutEffect.sequenceLaw {first : Argument} {rest : List Argument}
    (h : DecaysWithoutEffect first rest) (hargs : ∀ a ∈ first :: rest, a.IsObject) :
    SequenceLaw first rest := by
  have hpointers : ∀ a ∈ first :: rest, ¬ a.IsPointer := fun a ha => (hargs a ha).not_isPointer
  rcases h with harrays | ⟨init, a, rfl, harrays, hown⟩ | ⟨hempty, hcompiles⟩
  -- no argument changes its type
  · refine ⟨_, ?_, fun env tx block _ => .refl _⟩
    rw [Argument.map_decay_of_not_isArray harrays, Argument.resolve_eq_map hpointers]
  -- the address is written in place of the same bytes
  · cases a with
    | array element extent address memory =>
        obtain ⟨size, hpayload, hbytes⟩ := hown
        have hsize : size = 8 := by
          have hlength := congrArg List.length hbytes
          rw [length_bytes, length_le64] at hlength
          exact UInt64.toNat_inj.1 hlength
        refine ⟨(first :: init).map Argument.payload ++ [some (.ofList (le64 address))], ?_, ?_⟩
        · rw [List.map_append, Argument.map_decay_of_not_isArray harrays]
          refine (Argument.resolve_append ?_).trans rfl
          intro a ha
          refine hpointers a ?_
          rcases List.mem_cons.1 ha with rfl | ha
          · exact List.mem_cons_self
          · simp [ha]
        · intro env tx block hlegal
          rw [← List.cons_append, List.map_append, List.map_singleton, hpayload,
            writeAll_congr hlegal _ _ ⟨memory, size⟩ hsize.symm ?_]
          · exact .refl _
          · rw [hbytes]
            rfl
    | value | string | pointer => exact hown.elim
  -- the first call fails before the others are made
  · obtain ⟨ops, hops⟩ := Option.isSome_iff_exists.1 hcompiles
    obtain ⟨op, tail, rfl, hop, -⟩ := WriteCall.ops_eq ⟨first, rest, ops, hops⟩
    refine ⟨_, hops, ?_⟩
    intro env tx block _
    rw [hop.2 hempty, List.map_cons, Argument.payload_eq_none_iff.2 hempty]
    exact .refl _

/-! ## Calls that can be told apart -/

/-- The largest power of two in 64 bits. -/
def largestCapacity : UInt64 := 0x8000000000000000

theorem isPowTwo_largestCapacity : IsPowTwo largestCapacity := ⟨63, by decide⟩

theorem largestCapacity_toNat : largestCapacity.toNat = 2 ^ 63 := by decide

/-- The other side has stored the head of stream position `r`. -/
def headAt (r : ℕ) : Env := ⟨UInt64.ofNat (r % 2 ^ 63), 0⟩

/-- A first call that meets `e`, and then calls that meet `env`. -/
def consEnv (e : Env) (env : ℕ → Env) : ℕ → Env
  | 0 => e
  | i + 1 => env i

/-- A valid transaction on a ring of the largest capacity that shows no free slot, with its cached
head at position `p`. -/
structure TxWrite.Full (tx : TxWrite) (p : ℕ) : Prop where
  valid : tx.invalidated_ = false
  full : tx.At largestCapacity p (p + (2 ^ 63 - 1))

/-- A transaction on an empty ring, which has cached a head a lap behind. -/
def fullTx : TxWrite where
  queue_ := { storage_ := 64, capacity_ := largestCapacity }
  storage_ := 64
  tail_ := 0x7fffffffffffffff
  cachedHead_ := 0
  capacity_ := largestCapacity
  invalidated_ := false

theorem fullTx_full : fullTx.Full 0 := ⟨rfl, rfl, rfl, by decide, by decide⟩

theorem fullTx_legal : fullTx.Legal := ⟨isPowTwo_largestCapacity, by decide⟩

/-- A call of one payload. -/
theorem writeAll_singleton (env : ℕ → Env) (tx : TxWrite) (block : Block) (p : Payload) :
    writeAll env tx block [some p] = p.write (env 0) tx block := by
  simp only [writeAll]
  split_ifs with hok
  · rw [← hok]
  · rfl

namespace TxWrite.Full

variable {tx : TxWrite} {p r : ℕ} {a : Payload}

/-- A full transaction is ready for any head that is not past its tail. -/
theorem ready (h : tx.Full p) (block : Block) (hpr : p ≤ r) (hr : r ≤ p + (2 ^ 63 - 1)) :
    tx.Ready largestCapacity
      { block with status := { block.status with head_ := (headAt r).head } }
      (p + (2 ^ 63 - 1)) r := by
  refine ⟨h.valid, ⟨p, hpr, le_of_eq rfl, h.full⟩, ?_, hr⟩
  show (UInt64.ofNat (r % 2 ^ 63)).toNat = r % largestCapacity.toNat
  have hlt : r % 2 ^ 63 < 2 ^ 64 := (Nat.mod_lt r (Nat.two_pow_pos 63)).trans (by decide)
  rw [UInt64.toNat_ofNat_of_lt' hlt, largestCapacity_toNat]

/-- A call that gets as much room as it needs succeeds. -/
theorem write_ok (h : tx.Full p) (block : Block) (hpr : p ≤ r) (hr : r ≤ p + (2 ^ 63 - 1))
    (hfits : p + a.size.toNat ≤ r) : (a.write (headAt r) tx block).ok = true ∧
      (a.write (headAt r) tx block).tx.Ready largestCapacity
        (a.write (headAt r) tx block).block (p + (2 ^ 63 - 1) + a.size.toNat) r ∧
      (a.write (headAt r) tx block).block.ring =
        image block.ring ((slotPairs largestCapacity.toNat (p + (2 ^ 63 - 1))
          a.size.toNat).map fun x => (x.1, a.buffer x.2)) :=
  (h.ready block hpr hr).impWrite isPowTwo_largestCapacity 0 a.buffer (by
    rw [largestCapacity_toNat]
    omega)

/-- A call that gets less room than it needs fails, with the local tail where it was. -/
theorem write_fails (h : tx.Full p) (block : Block) (hpr : p ≤ r) (hr : r ≤ p + (2 ^ 63 - 1))
    (hfull : r < p + a.size.toNat) : (a.write (headAt r) tx block).ok = false ∧
      (a.write (headAt r) tx block).tx.invalidated_ = true ∧
      (a.write (headAt r) tx block).tx.tail_ = tx.tail_ := by
  have hcap : IsPowTwo tx.capacity_ := h.full.capacity ▸ isPowTwo_largestCapacity
  have htail : tx.tail_.toNat < tx.capacity_.toNat := by
    rw [h.full.capacity, h.full.tail]
    exact Nat.mod_lt _ isPowTwo_largestCapacity.pos
  have hfails : (a.write (headAt r) tx block).ok = false ∧
      (a.write (headAt r) tx block).tx.invalidated_ = true ∧ _ :=
    (h.ready block hpr hr).impWrite_fails isPowTwo_largestCapacity 0 a.buffer (by
      rw [largestCapacity_toNat]
      omega)
  have hreference : (a.write (headAt r) tx block).Refused tx
        { block with status := { block.status with head_ := (headAt r).head } } ∨
      (a.write (headAt r) tx block).Stored tx
        { block with status := { block.status with head_ := (headAt r).head } } a.buffer
        a.size.toNat :=
    (TxWrite.impWrite_reference hcap htail _ 0 a.buffer).1
  refine ⟨hfails.1, hfails.2.1, ?_⟩
  rcases hreference with hrefused | hstored
  · rw [hrefused.tx]
  · exact absurd (hstored.ok.symm.trans hfails.1) (by decide)

/-- A call that gets exactly as much room as it needs leaves the transaction full. -/
theorem write_exact (h : tx.Full p) (block : Block) (hsize : a.size.toNat < 2 ^ 63) :
    (a.write (headAt (p + a.size.toNat)) tx block).ok = true ∧
      (a.write (headAt (p + a.size.toNat)) tx block).tx.Full (p + a.size.toNat) := by
  obtain ⟨hok, hready, -⟩ := h.write_ok (a := a) block (Nat.le_add_right p a.size.toNat)
    (by omega) le_rfl
  obtain ⟨p', hp', hlap, hat⟩ := hready.cached
  rw [largestCapacity_toNat] at hlap
  obtain rfl : p' = p + a.size.toNat := by omega
  refine ⟨hok, hready.valid, ?_⟩
  rwa [show p + (2 ^ 63 - 1) + a.size.toNat = p + a.size.toNat + (2 ^ 63 - 1) by omega] at hat

/-- Some heads make all of a list of calls fit exactly, so that whatever comes after meets a full
transaction. -/
theorem exists_env (h : tx.Full p) (block : Block) {ps : List Payload}
    (hsizes : ∀ a ∈ ps, a.size.toNat < 2 ^ 63) :
    ∃ (extend : (ℕ → Env) → ℕ → Env) (tx' : TxWrite) (p' : ℕ) (block' : Block), tx'.Full p' ∧
      ∀ env ops, writeAll (extend env) tx block (ps.map some ++ ops) =
        writeAll env tx' block' ops := by
  induction ps generalizing tx p block with
  | nil => exact ⟨id, tx, p, block, h, fun env ops => rfl⟩
  | cons a ps ih =>
      obtain ⟨hok, hfull⟩ := h.write_exact block (hsizes a List.mem_cons_self)
      obtain ⟨extend, tx', p', block', hfull', hrest⟩ :=
        ih hfull (a.write (headAt (p + a.size.toNat)) tx block).block
          fun b hb => hsizes b (List.mem_cons_of_mem _ hb)
      refine ⟨fun env => consEnv (headAt (p + a.size.toNat)) (extend env), tx', p', block',
        hfull', ?_⟩
      intro env ops
      rw [← hrest env ops]
      simp only [List.map_cons, List.cons_append, writeAll, consEnv, hok, if_true]

end TxWrite.Full

section Different

variable {tx : TxWrite} {p : ℕ}

/-- Two payloads that do the same on every full transaction have the same bytes. -/
theorem bytes_eq_of_same {a b : Payload} (hfull : tx.Full p) (block : Block)
    (ha : a.size.toNat < 2 ^ 63) (hb : b.size.toNat < 2 ^ 63)
    (hsame : (a.write (headAt (p + (2 ^ 63 - 1))) tx block).Same
      (b.write (headAt (p + (2 ^ 63 - 1))) tx block)) :
    a.size = b.size ∧ bytes a.buffer a.size = bytes b.buffer b.size := by
  have hcapacity := largestCapacity_toNat
  obtain ⟨-, hready, hring⟩ := hfull.write_ok (a := a) block (r := p + (2 ^ 63 - 1)) (by omega)
    le_rfl (by omega)
  obtain ⟨-, hready', hring'⟩ := hfull.write_ok (a := b) block (r := p + (2 ^ 63 - 1)) (by omega)
    le_rfl (by omega)
  obtain ⟨_, -, -, hat⟩ := hready.cached
  obtain ⟨_, -, -, hat'⟩ := hready'.cached
  have htail := congrArg UInt64.toNat hsame.tail
  rw [hat.tail, hat'.tail, hcapacity] at htail
  have hsize : a.size.toNat = b.size.toNat := by
    rcases lt_trichotomy a.size.toNat b.size.toNat with hlt | heq | hlt
    · exact absurd htail (mod_ne_mod (by omega) (by omega))
    · exact heq
    · exact absurd htail (mod_ne_mod (by omega) (by omega)).symm
  refine ⟨UInt64.toNat_inj.1 hsize, ?_⟩
  have hputs : Puts largestCapacity.toNat (p + (2 ^ 63 - 1)) a.size.toNat a.buffer block.ring _ :=
    puts_slotPairs (by omega) a.buffer block.ring
  have hputs' : Puts largestCapacity.toNat (p + (2 ^ 63 - 1)) b.size.toNat b.buffer block.ring _ :=
    puts_slotPairs (by omega) b.buffer block.ring
  rw [← hring, hsame.ring, hring'] at hputs
  rw [bytes, bytes, ← hsize]
  refine List.map_congr_left ?_
  intro i hi
  have hi := List.mem_range.1 hi
  rw [← hputs.slot i hi, hputs'.slot i (by omega)]

/-- A raw buffer in place of an array and an item does not do the same on every full transaction:
where the array alone fits, the two writes fail with the array written. -/
theorem not_same_of_raw {a b raw : Payload} (hfull : tx.Full p) (block : Block)
    (ha : 0 < a.size.toNat) (ha' : a.size.toNat < 2 ^ 63) (hb : 0 < b.size.toNat) :
    ¬ (writeAll (fun _ => headAt (p + a.size.toNat)) tx block [some raw]).Same
      (writeAll (fun _ => headAt (p + a.size.toNat)) tx block [some a, some b]) := by
  intro hsame
  obtain ⟨hok, hfull'⟩ := hfull.write_exact block ha'
  -- after the array there is no room for the item
  have hpair : writeAll (fun _ => headAt (p + a.size.toNat)) tx block [some a, some b] =
      b.write (headAt (p + a.size.toNat)) (a.write (headAt (p + a.size.toNat)) tx block).tx
        (a.write (headAt (p + a.size.toNat)) tx block).block := by
    rw [writeAll, if_pos hok, writeAll_singleton]
  obtain ⟨hfails, -, htail⟩ := hfull'.write_fails (a := b)
    (a.write (headAt (p + a.size.toNat)) tx block).block le_rfl (by omega) (by omega)
  rw [hpair, writeAll_singleton] at hsame
  rcases Nat.lt_or_ge a.size.toNat raw.size.toNat with hlt | hle
  -- the raw buffer does not fit, and leaves the local tail where it was
  · obtain ⟨-, -, hkept⟩ := hfull.write_fails (a := raw) block
      (Nat.le_add_right p a.size.toNat) (by omega) (by omega)
    have heq := congrArg UInt64.toNat (hkept.symm.trans (hsame.tail.trans htail))
    rw [hfull.full.tail, hfull'.full.tail, largestCapacity_toNat] at heq
    exact absurd heq (mod_ne_mod (by omega) (by omega))
  -- the raw buffer fits, and its write succeeds
  · obtain ⟨hraw, -⟩ := hfull.write_ok (a := raw) block (Nat.le_add_right p a.size.toNat)
      (by omega) (by omega)
    exact absurd (hraw.symm.trans (hsame.ok.trans hfails)) (by decide)

variable {element : ElementType} {extent address : UInt64} {memory : ℕ → UInt8}

/-- The address of an array as an item does the same on every full transaction only if the array
holds it. -/
theorem holdsOwnAddress_of_same (hfull : tx.Full p) (block : Block)
    (hobject : (Argument.array element extent address memory).IsObject)
    (hsame : ∀ env, (writeAll env tx block [some (.ofList (le64 address))]).Same
      (writeAll env tx block [(Argument.array element extent address memory).payload])) :
    (Argument.array element extent address memory).HoldsOwnAddress := by
  have haddress : (Payload.ofList (le64 address)).size.toNat < 2 ^ 63 := by
    show (UInt64.ofNat (le64 address).length).toNat < 2 ^ 63
    rw [length_le64]
    decide
  have hlast := hsame fun _ => headAt (p + (2 ^ 63 - 1))
  rw [writeAll_singleton] at hlast
  by_cases hempty : (Argument.array element extent address memory).IsEmptyText
  -- an empty text fails, and an address fits
  · rw [Argument.payload_eq_none_iff.2 hempty] at hlast
    obtain ⟨hok, -⟩ := hfull.write_ok (a := .ofList (le64 address)) block
      (r := p + (2 ^ 63 - 1)) (by omega) le_rfl (by omega)
    exact absurd (hok.symm.trans hlast.ok) Bool.true_eq_false.mp
  · obtain ⟨size, hpayload, -, hsize⟩ := hobject.payload_array hempty
    rw [hpayload, writeAll_singleton] at hlast
    obtain ⟨-, hbytes⟩ := bytes_eq_of_same hfull block haddress (b := ⟨memory, size⟩) hsize hlast
    exact ⟨size, hpayload, hbytes.symm⟩

/-- A raw buffer never does the same as an array and an item on every full transaction. -/
theorem not_same_of_array (hfull : tx.Full p) (block : Block)
    (hobject : (Argument.array element extent address memory).IsObject) {item : Payload}
    (hitem : 0 < item.size.toNat) (size : UInt64) :
    ¬ ∀ env, (writeAll env tx block [some ⟨memory, size⟩]).Same
      (writeAll env tx block
        [(Argument.array element extent address memory).payload, some item]) := by
  intro hsame
  by_cases hempty : (Argument.array element extent address memory).IsEmptyText
  -- an empty text fails and leaves the transaction valid, and a raw buffer does not do both
  · have hcall := hsame fun _ => headAt p
    rw [Argument.payload_eq_none_iff.2 hempty, writeAll_singleton] at hcall
    have hok : ((Payload.mk memory size).write (headAt p) tx block).ok =
        ((Payload.mk memory size).write (headAt p) tx block).tx.toBool :=
      tx.impWrite_ok _ _ _ _
    rw [TxWrite.toBool, hcall.ok, hcall.invalidated] at hok
    simp [writeAll, hfull.valid] at hok
  · obtain ⟨n, hpayload, hpos, hlt⟩ := hobject.payload_array hempty
    rw [hpayload] at hsame
    exact not_same_of_raw hfull block (a := ⟨memory, n⟩) hpos hlt hitem (hsame _)

end Different

/-! ## The exact condition -/

/-- A list with an array has a first one. -/
theorem exists_first_array {rest : List Argument} (h : ¬ ∀ a ∈ rest, ¬ a.IsArray) :
    ∃ init element extent address memory tail,
      rest = init ++ .array element extent address memory :: tail ∧ ∀ a ∈ init, ¬ a.IsArray := by
  induction rest with
  | nil => simp at h
  | cons a rest ih =>
      cases a with
      | array element extent address memory =>
          exact ⟨[], element, extent, address, memory, rest, rfl, by simp⟩
      | value | string | pointer =>
          obtain ⟨init, element, extent, address, memory, tail, rfl, hinit⟩ :=
            ih fun hrest => h (by simpa [Argument.IsArray] using hrest)
          exact ⟨_ :: init, element, extent, address, memory, tail, rfl, by
            simpa [Argument.IsArray] using hinit⟩

/-- Objects that are no empty texts are payloads of less than half the address space. -/
theorem exists_payloads {args : List Argument} (hargs : ∀ a ∈ args, a.IsObject)
    (hne : ∀ a ∈ args, ¬ a.IsEmptyText) : ∃ ps : List Payload,
      args.map Argument.payload = ps.map some ∧ ∀ p ∈ ps, p.size.toNat < 2 ^ 63 := by
  induction args with
  | nil => exact ⟨[], rfl, by simp⟩
  | cons a args ih =>
      obtain ⟨p, hp, hsize⟩ := (hargs a List.mem_cons_self).payload (hne a List.mem_cons_self)
      obtain ⟨ps, hps, hsizes⟩ := ih (fun b hb => hargs b (List.mem_cons_of_mem _ hb))
        fun b hb => hne b (List.mem_cons_of_mem _ hb)
      refine ⟨p :: ps, by simp [hp, hps], ?_⟩
      intro q hq
      rcases List.mem_cons.1 hq with rfl | hq
      · exact hsize
      · exact hsizes q hq

theorem Argument.IsEmptyText.isArray {a : Argument} (h : a.IsEmptyText) : a.IsArray := by
  cases a with
  | array => trivial
  | value | string | pointer => exact h.elim

/-- For every list of arguments, the variadic `write` does what the sequence of its single writes
does if and only if no argument after the first is an array, or only the last one is and holds its
own address, or the first one is an empty text in a call that compiles. -/
theorem sequenceLaw_iff (first : Argument) (rest : List Argument)
    (hargs : ∀ a ∈ first :: rest, a.IsObject) :
    SequenceLaw first rest ↔ DecaysWithoutEffect first rest := by
  refine ⟨?_, fun h => h.sequenceLaw hargs⟩
  rintro ⟨ops, hops, hlaw⟩
  by_cases harrays : ∀ a ∈ rest, ¬ a.IsArray
  · exact .inl harrays
  by_cases hempty : first.IsEmptyText
  · exact .inr (.inr ⟨hempty, by rw [Compiles, hops]; rfl⟩)
  obtain ⟨init, element, extent, address, memory, tail, rfl, hinit⟩ := exists_first_array harrays
  have hmem : ∀ a ∈ first :: init, a ∈ first :: (init ++ .array element extent address memory ::
      tail) := by
    intro a ha
    rcases List.mem_cons.1 ha with rfl | ha
    · exact List.mem_cons_self
    · simp [ha]
  have hobject : (Argument.array element extent address memory).IsObject :=
    hargs _ (by simp)
  -- what comes before the array are calls that all fit exactly for some heads
  obtain ⟨ps, hps, hsizes⟩ := exists_payloads (fun a ha => hargs a (hmem a ha)) (by
    intro a ha hempty'
    rcases List.mem_cons.1 ha with rfl | ha
    · exact hempty hempty'
    · exact hinit a ha hempty'.isArray)
  obtain ⟨extend, tx, p, block, hfull, hextend⟩ := fullTx_full.exists_env
    { ring := fun _ => 0, status := { tail_ := 0, head_ := 0 } } hsizes
  -- what the array and the rest select
  rw [List.map_append, Argument.map_decay_of_not_isArray hinit, List.map_cons,
    Argument.resolve_append fun a ha => (hargs a (hmem a ha)).not_isPointer, hps] at hops
  obtain ⟨later, hlater, rfl⟩ := Option.map_eq_some_iff.1 hops
  have hsame : ∀ env, (writeAll env tx block later).Same (writeAll env tx block
      ((Argument.array element extent address memory).payload :: tail.map Argument.payload)) := by
    intro env
    have hcalls := hlaw (extend env) fullTx
      { ring := fun _ => 0, status := { tail_ := 0, head_ := 0 } } fullTx_legal
    rwa [← List.cons_append, List.map_append, hps, List.map_cons, hextend, hextend] at hcalls
  cases tail with
  | nil =>
      obtain rfl : [some (Payload.ofList (le64 address))] = later := Option.some.inj hlater
      exact .inr (.inl ⟨init, _, rfl, hinit, holdsOwnAddress_of_same hfull block hobject hsame⟩)
  | cons b tail =>
      exfalso
      cases b with
      | value raw asSize =>
          cases tail with
          | nil =>
              obtain ⟨size, -, rfl⟩ := Option.map_eq_some_iff.1 hlater
              have hvalue : (Argument.value raw asSize).IsObject := hargs _ (by simp)
              have hitem : 0 < (Payload.ofList raw).size.toNat := by
                show 0 < (UInt64.ofNat raw.length).toNat
                rw [UInt64.toNat_ofNat_of_lt' (hvalue.2.trans (by decide))]
                exact hvalue.1
              exact not_same_of_array hfull block hobject hitem size hsame
          | cons c tail => simp [Argument.decay, Argument.resolve] at hlater
      | string | array | pointer => simp [Argument.decay, Argument.resolve] at hlater

/-- A transaction just opened on an empty ring of 64 bytes. -/
def openTx : TxWrite := .construct { storage_ := 64, capacity_ := 64 } 0 0

/-- `write(uint8_t{7}, "abc")` writes the address of the text in place of its three characters. -/
theorem write_byte_text_address :
    ¬ SequenceLaw (.value [7] (some 7))
      [.array .char 4 4096 fun i => [97, 98, 99, 0].getD i 0] := by
  rintro ⟨ops, hops, hlaw⟩
  obtain rfl := Option.some.inj hops
  have htail := (hlaw (fun _ => ⟨0, 0⟩) openTx
    { ring := fun _ => 0, status := { tail_ := 0, head_ := 0 } } ⟨⟨6, rfl⟩, by decide⟩).tail
  revert htail
  decide

/-- `sequenceLaw_iff` on `write("ab", uint8_t{7})`. -/
theorem write_text_byte :
    SequenceLaw (.array .char 3 4096 fun i => [97, 98, 0].getD i 0) [.value [7] (some 7)] :=
  (sequenceLaw_iff _ _ (by
    simp only [List.mem_cons, List.not_mem_nil, or_false, forall_eq_or_imp, forall_eq]
    exact ⟨⟨by decide, by decide, by decide⟩, by decide, by decide⟩)).2
      (.inl (by simp [Argument.IsArray]))

end TxQueue
