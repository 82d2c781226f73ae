import TxQueue.Library.LittleEndian
import TxQueue.Library.Transition
import TxQueue.Transaction.Write

/-!
# The overloads of `write`

`write` takes a raw buffer, an item, an array, or a list of arguments; every overload decides
success on its own path and ends in `imp_write`, or in no call at all. Which overload a list of
arguments selects at each step of the variadic recursion is fixed at compile time: `resolve` gives
the `imp_write` calls in order. A call is made between steps of the consumer, so each `imp_write`
meets its own value of `head_`.
-/

namespace TxQueue

open Library

/-- The element type of an array, as far as `write` tells it apart. -/
inductive ElementType where
  | char
  | wchar
  | other (size : UInt64)
  deriving DecidableEq

namespace ElementType

/-- `sizeof` the element type; `wchar_t` has two bytes on the platform. -/
def sizeof : ElementType → UInt64
  | char => 1
  | wchar => 2
  | other size => size

/-- The types whose arrays are taken for text with a trailing `'\0'`. -/
def isText : ElementType → Bool
  | char => true
  | wchar => true
  | other _ => false

end ElementType

/-- An argument of `write` with what the overloads use of it: the bytes of a trivially copyable
value and, if it converts to `uint64_t`, what it converts to; the characters of a `std::string`;
the extent, the address and the memory of an array; the address and the memory of a pointer. -/
inductive Argument where
  | value (raw : List UInt8) (asSize : Option UInt64)
  | string (text : List UInt8)
  | array (element : ElementType) (extent address : UInt64) (memory : ℕ → UInt8)
  | pointer (address : UInt64) (memory : ℕ → UInt8)

/-- The arguments of a call of `imp_write`. -/
structure Payload where
  buffer : ℕ → UInt8
  size : UInt64

/-- The bytes of an object. -/
def Payload.ofList (raw : List UInt8) : Payload where
  buffer i := raw.getD i 0
  size := UInt64.ofNat raw.length

namespace Argument

/-- Passing an argument by value turns an array into a pointer. -/
def decay : Argument → Argument
  | array _ _ address memory => pointer address memory
  | a => a

/-- The `imp_write` call of `write` with this argument alone: the item overload, or for an array the
array overload, which makes none for an empty text. -/
def payload : Argument → Option Payload
  | value raw _ => some (.ofList raw)
  | string text => some (.ofList text)
  | array element extent _ memory =>
      if element.isText then
        if extent > 1 then some ⟨memory, (extent - 1) * element.sizeof⟩ else none
      else some ⟨memory, extent * element.sizeof⟩
  | pointer address _ => some (.ofList (le64 address))

/-- The `imp_write` calls of `write(first, rest...)`, or `none` if no overload accepts it. Two
arguments of which the first is a pointer go to the raw buffer overload; no other list with
a pointer at its head, the last position apart, is accepted. -/
def resolve : Argument → List Argument → Option (List (Option Payload))
  | first, [] => some [first.payload]
  | pointer _ memory, [value _ asSize] => asSize.map fun size => [some ⟨memory, size⟩]
  | pointer _ _, _ :: _ => none
  | first, second :: rest => (resolve second rest).map (first.payload :: ·)

/-- An array of text that holds nothing but its `'\0'`. -/
def IsEmptyText : Argument → Prop
  | array element extent _ _ => element.isText ∧ extent ≤ 1
  | _ => False

end Argument

/-- A call of `write` that compiles. The arguments after the first are passed by value. -/
structure WriteCall where
  first : Argument
  rest : List Argument
  ops : List (Option Payload)
  resolves : first.resolve (rest.map Argument.decay) = some ops

/-- What a call of `imp_write` meets: the `head_` that it would load, and the core of the thread. -/
structure Env where
  head : UInt64
  core : Int32

/-- A call of `imp_write` after the consumer has stored `env.head`. -/
def Payload.write (p : Payload) (env : Env) (tx : TxWrite) (block : Block) : WriteResult :=
  tx.impWrite { block with status := { block.status with head_ := env.head } } env.core p.buffer
    p.size

/-- The calls of one `write`, up to the first that returns `false`. -/
def writeAll (env : ℕ → Env) (tx : TxWrite) (block : Block) : List (Option Payload) → WriteResult
  | [] => ⟨true, tx, block⟩
  | none :: _ => ⟨false, tx, block⟩
  | some p :: ops =>
      let result := p.write (env 0) tx block
      if result.ok then writeAll (fun i => env (i + 1)) result.tx result.block ops else result

namespace Argument

/-- An argument alone makes no `imp_write` call exactly if it is an empty text. -/
theorem payload_eq_none_iff {a : Argument} : a.payload = none ↔ a.IsEmptyText := by
  cases a with
  | array element extent address memory =>
      simp only [payload, IsEmptyText]
      split_ifs with htext hextent
      · simp [UInt64.not_le.2 hextent]
      · simp [htext, UInt64.not_lt.1 hextent]
      · simp [htext]
  | value | string | pointer => simp [payload, IsEmptyText]

/-- What is passed by value is not an empty text. -/
theorem not_isEmptyText_decay (a : Argument) : ¬ a.decay.IsEmptyText := by
  cases a <;> simp [decay, IsEmptyText]

/-- An argument that is not a pointer is written by itself, and then the rest. -/
theorem resolve_cons {first second : Argument} {rest : List Argument}
    (h : ∀ address memory, first ≠ pointer address memory) :
    first.resolve (second :: rest) = (second.resolve rest).map (first.payload :: ·) := by
  cases first with
  | pointer address memory => exact absurd rfl (h address memory)
  | value | string | array => simp only [resolve]

/-- All calls but the first of a `write` are `imp_write` calls, and the first is one unless the
first argument is an empty text. -/
theorem resolve_eq_some {first : Argument} {rest : List Argument} {ops : List (Option Payload)}
    (hrest : ∀ a ∈ rest, ¬ a.IsEmptyText) (h : first.resolve rest = some ops) :
    ∃ op tail, ops = op :: tail ∧ (op = none ↔ first.IsEmptyText) ∧ none ∉ tail := by
  induction rest generalizing first ops with
  | nil =>
      cases first <;> cases h <;> exact ⟨_, [], rfl, payload_eq_none_iff, by simp⟩
  | cons second rest ih =>
      by_cases hpointer : ∃ address memory, first = pointer address memory
      · obtain ⟨address, memory, rfl⟩ := hpointer
        -- the raw buffer overload
        obtain ⟨p, rfl⟩ : ∃ p, ops = [some p] := by
          unfold resolve at h
          split at h
          · simp at *
          · simp only [Option.map_eq_some_iff] at h
            obtain ⟨size, -, rfl⟩ := h
            exact ⟨_, rfl⟩
          · simp at h
          · simp at *
        exact ⟨_, [], rfl, by simp [IsEmptyText], by simp⟩
      · rw [resolve_cons fun address memory heq => hpointer ⟨address, memory, heq⟩] at h
        obtain ⟨ops', hops', rfl⟩ := Option.map_eq_some_iff.1 h
        obtain ⟨op, tail, rfl, hop, htail⟩ :=
          ih (fun a ha => hrest a (List.mem_cons_of_mem _ ha)) hops'
        refine ⟨_, _, rfl, payload_eq_none_iff, ?_⟩
        intro hmem
        rcases List.mem_cons.1 hmem with hnone | hmem
        · exact hrest second List.mem_cons_self (hop.1 hnone.symm)
        · exact htail hmem

end Argument

/-- The `imp_write` calls of a `write`. -/
theorem WriteCall.ops_eq (call : WriteCall) :
    ∃ op tail, call.ops = op :: tail ∧ (op = none ↔ call.first.IsEmptyText) ∧ none ∉ tail := by
  refine Argument.resolve_eq_some (?_) call.resolves
  intro a ha
  obtain ⟨b, -, rfl⟩ := List.mem_map.1 ha
  exact b.not_isEmptyText_decay

/-- On an invalid transaction a `write` returns `false` and changes neither the transaction nor the
ring. -/
theorem writeAll_of_invalid (env : ℕ → Env) {tx : TxWrite} (block : Block)
    {ops : List (Option Payload)} (hinvalid : tx.invalidated_ = true) (hops : ops ≠ []) :
    (writeAll env tx block ops).ok = false ∧ (writeAll env tx block ops).tx = tx ∧
      (writeAll env tx block ops).block.ring = block.ring := by
  cases ops with
  | nil => exact absurd rfl hops
  | cons op ops =>
      cases op with
      | none => exact ⟨rfl, rfl, rfl⟩
      | some p => simp [writeAll, Payload.write, TxWrite.impWrite_of_invalid hinvalid]

/-- A `write` made of `imp_write` calls alone returns `true` on a valid transaction exactly if it
leaves it valid. -/
theorem writeAll_ok {env : ℕ → Env} {tx : TxWrite} {block : Block} {ops : List (Option Payload)}
    (hvalid : tx.toBool) (hops : none ∉ ops) :
    (writeAll env tx block ops).ok = (writeAll env tx block ops).tx.toBool := by
  induction ops generalizing env tx block with
  | nil => exact hvalid.symm
  | cons op ops ih =>
      cases op with
      | none => simp at hops
      | some p =>
          have hok := tx.impWrite_ok
            { block with status := { block.status with head_ := (env 0).head } }
            (env 0).core p.buffer p.size
          simp only [writeAll]
          split_ifs with hresult
          · exact ih (hok.symm.trans hresult) fun h => hops (List.mem_cons_of_mem _ h)
          · exact hok

end TxQueue
