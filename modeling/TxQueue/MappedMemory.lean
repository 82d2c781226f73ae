import TxQueue.SharedMemory

/-!
# What a shared memory object acquires and releases

The life of a `shared_memory` from its constructor over any number of dereferences to its
destructor, with the answers of the system as parameters. An attempt that gets a mapping and no view
is repeated with a new mapping, and `map_buffer_` does not keep the address of the view: so the
destructor closes the mapping of the last attempt only, and unmaps an address behind the view.
-/

namespace TxQueue

open Library

/-- `INVALID_HANDLE_VALUE`. -/
def invalidHandleValue : UInt64 := 0xFFFFFFFFFFFFFFFF

/-- `shared_memory` with its mapping. -/
structure MappedMemory extends SharedMemory where
  mapFile_ : UInt64
  deriving DecidableEq

/-- The calls of the system, with their results. -/
inductive SystemCall where
  | createFileMapping (maximumSizeHigh maximumSizeLow : UInt32) (file : UInt64)
  | openFileMapping (file : UInt64)
  | mapViewOfFile (file size view : UInt64)
  | unmapViewOfFile (address : UInt64)
  | closeHandle (file : UInt64)
  deriving DecidableEq

/-- What the system answers to an attempt: a mapping, a view and the first word of the view, where 0
is a failure. A view has room behind its header, and no mapping is `INVALID_HANDLE_VALUE`. -/
structure Answer where
  file : UInt64
  view : UInt64
  header : UInt64
  file_ne : file ≠ invalidHandleValue
  room : view + cacheLineSize ≠ 0

/-- `split_size`. -/
def splitSize (size : UInt64) : UInt32 × UInt32 :=
  (((size >>> 32) &&& 0xFFFFFFFF).toUInt32, (size &&& 0xFFFFFFFF).toUInt32)

namespace MappedMemory

/-- The members before the first attempt of the constructor. -/
def initial (size : UInt64) : MappedMemory where
  toSharedMemory := .construct size
  mapFile_ := invalidHandleValue

/-- `shared_memory::create_buffer`. -/
def createBuffer (memory : MappedMemory) (answer : Answer) : MappedMemory × List SystemCall :=
  let totalSize := memory.size_ + cacheLineSize
  let (hi, lo) := splitSize totalSize
  let memory := { memory with mapFile_ := answer.file }
  let call := .createFileMapping hi lo answer.file
  let (memory, calls) :=
    if memory.mapFile_ ≠ 0 then
      ({ memory with mapBuffer_ := answer.view },
        [call, .mapViewOfFile answer.file totalSize answer.view])
    else (memory, [call])
  if memory.mapBuffer_ ≠ 0 then
    ({ memory with toSharedMemory := memory.toSharedMemory.skipHeader }, calls)
  else (memory, calls)

/-- `shared_memory::open_buffer`. -/
def openBuffer (memory : MappedMemory) (answer : Answer) : MappedMemory × List SystemCall :=
  let memory := { memory with mapFile_ := answer.file }
  if memory.mapFile_ = 0 then (memory, [.openFileMapping answer.file])
  else
    let calls := [.openFileMapping answer.file, .mapViewOfFile answer.file 0 answer.view]
    let memory := { memory with mapBuffer_ := answer.view }
    if memory.mapBuffer_ ≠ 0 then
      let memory := { memory with size_ := answer.header }
      ({ memory with toSharedMemory := memory.toSharedMemory.skipHeader }, calls)
    else (memory, calls)

/-- One attempt, of the constructor or of `operator*`. -/
def attempt (memory : MappedMemory) (answer : Answer) : MappedMemory × List SystemCall :=
  if memory.create_ then memory.createBuffer answer else memory.openBuffer answer

/-- `shared_memory::operator*`, which makes an attempt if there is no buffer. -/
def dereference (memory : MappedMemory) (answer : Answer) : MappedMemory × List SystemCall :=
  if memory.mapBuffer_ = 0 then memory.attempt answer else (memory, [])

/-- `shared_memory::~shared_memory`. -/
def destroy (memory : MappedMemory) : List SystemCall :=
  (if memory.mapBuffer_ ≠ 0 then [.unmapViewOfFile memory.mapBuffer_] else []) ++
    if memory.mapFile_ ≠ invalidHandleValue then [.closeHandle memory.mapFile_] else []

/-- The object after some dereferences, with the calls so far. -/
def dereferences (start : MappedMemory × List SystemCall) (answers : List Answer) :
    MappedMemory × List SystemCall :=
  answers.foldl (fun state answer =>
    let (memory, calls) := state.1.dereference answer
    (memory, state.2 ++ calls)) start

/-- All calls in the life of an object. -/
def life (size : UInt64) (first : Answer) (answers : List Answer) : List SystemCall :=
  let (memory, calls) := dereferences ((initial size).attempt first) answers
  calls ++ memory.destroy

end MappedMemory

/-! ## The arguments and results of the calls -/

namespace SystemCall

/-- The mappings that attempts have got, also the null ones. -/
def file? : SystemCall → Option UInt64
  | .createFileMapping _ _ file => some file
  | .openFileMapping file => some file
  | _ => none

/-- The view that a call has returned. -/
def view? : SystemCall → Option UInt64
  | .mapViewOfFile _ _ view => if view = 0 then none else some view
  | _ => none

def unmapped? : SystemCall → Option UInt64
  | .unmapViewOfFile address => some address
  | _ => none

def closed? : SystemCall → Option UInt64
  | .closeHandle file => some file
  | _ => none

end SystemCall

/-- The two halves name the whole size. -/
theorem splitSize_toNat (size : UInt64) :
    (splitSize size).1.toNat * 2 ^ 32 + (splitSize size).2.toNat = size.toNat := by
  have hlt := size.toNat_lt
  have hmask : (0xFFFFFFFF : UInt64).toNat = 2 ^ 32 - 1 := rfl
  have hhigh : size.toNat / 2 ^ 32 < 2 ^ 32 := by omega
  simp only [splitSize, UInt64.toNat_toUInt32, UInt64.toNat_and, UInt64.toNat_shiftRight, hmask,
    Nat.and_two_pow_sub_one_eq_mod]
  rw [show (32 : UInt64).toNat % 64 = 32 from rfl, Nat.shiftRight_eq_div_pow]
  omega

namespace MappedMemory

/-- What the object holds, given the calls that it has made: the mapping of the last attempt, and
the bytes behind the header of the only view, once there is one. -/
structure Holds (memory : MappedMemory) (calls : List SystemCall) : Prop where
  file : ∃ earlier, calls.filterMap SystemCall.file? = earlier ++ [memory.mapFile_]
  file_ne : memory.mapFile_ ≠ invalidHandleValue
  view : memory.mapBuffer_ = 0 ∧ calls.filterMap SystemCall.view? = [] ∨
    memory.mapBuffer_ ≠ 0 ∧ ∃ view, calls.filterMap SystemCall.view? = [view] ∧
      memory.mapBuffer_ = view + cacheLineSize
  unmapped : calls.filterMap SystemCall.unmapped? = []
  closed : calls.filterMap SystemCall.closed? = []

variable {memory : MappedMemory} {calls calls' : List SystemCall} {answer : Answer}

/-- An attempt holds what it has got. -/
theorem holds_createBuffer (hnull : memory.mapBuffer_ = 0) (answer : Answer) :
    (memory.createBuffer answer).1.Holds (memory.createBuffer answer).2 := by
  by_cases hfile : answer.file = 0
  · refine ⟨⟨[], ?_⟩, ?_, .inl ⟨?_, ?_⟩, ?_, ?_⟩ <;>
      simp [createBuffer, hfile, hnull, SystemCall.file?, SystemCall.view?, SystemCall.unmapped?,
        SystemCall.closed?, invalidHandleValue]
  · by_cases hview : answer.view = 0
    · refine ⟨⟨[], ?_⟩, ?_, .inl ⟨?_, ?_⟩, ?_, ?_⟩ <;>
        simp [createBuffer, hfile, hview, SystemCall.file?, SystemCall.view?,
          SystemCall.unmapped?, SystemCall.closed?, answer.file_ne]
    · refine ⟨⟨[], ?_⟩, ?_, .inr ⟨?_, answer.view, ?_, ?_⟩, ?_, ?_⟩ <;>
        simp [createBuffer, hfile, hview, SystemCall.file?, SystemCall.view?,
          SystemCall.unmapped?, SystemCall.closed?, SharedMemory.skipHeader, answer.file_ne,
          answer.room, List.filterMap_cons]

theorem holds_openBuffer (hnull : memory.mapBuffer_ = 0) (answer : Answer) :
    (memory.openBuffer answer).1.Holds (memory.openBuffer answer).2 := by
  by_cases hfile : answer.file = 0
  · refine ⟨⟨[], ?_⟩, ?_, .inl ⟨?_, ?_⟩, ?_, ?_⟩ <;>
      simp [openBuffer, hfile, hnull, SystemCall.file?, SystemCall.view?, SystemCall.unmapped?,
        SystemCall.closed?, invalidHandleValue]
  · by_cases hview : answer.view = 0
    · refine ⟨⟨[], ?_⟩, ?_, .inl ⟨?_, ?_⟩, ?_, ?_⟩ <;>
        simp [openBuffer, hfile, hview, SystemCall.file?, SystemCall.view?,
          SystemCall.unmapped?, SystemCall.closed?, answer.file_ne]
    · refine ⟨⟨[], ?_⟩, ?_, .inr ⟨?_, answer.view, ?_, ?_⟩, ?_, ?_⟩ <;>
        simp [openBuffer, hfile, hview, SystemCall.file?, SystemCall.view?,
          SystemCall.unmapped?, SystemCall.closed?, SharedMemory.skipHeader, answer.file_ne,
          answer.room, List.filterMap_cons]

theorem holds_attempt (hnull : memory.mapBuffer_ = 0) (answer : Answer) :
    (memory.attempt answer).1.Holds (memory.attempt answer).2 := by
  unfold attempt
  split
  · exact holds_createBuffer hnull answer
  · exact holds_openBuffer hnull answer

/-- A dereference after calls that have left no view behind holds what its attempt has got, and any
other nothing more. -/
theorem Holds.dereference (h : memory.Holds calls) (answer : Answer) :
    (memory.dereference answer).1.Holds (calls ++ (memory.dereference answer).2) := by
  unfold MappedMemory.dereference
  split
  case isTrue hnull =>
    obtain ⟨⟨earlier, hfile⟩, hne, hview, hunmapped, hclosed⟩ := holds_attempt hnull answer
    have hnone : calls.filterMap SystemCall.view? = [] :=
      (h.view.resolve_right fun hsome => hsome.1 hnull).2
    refine ⟨⟨calls.filterMap SystemCall.file? ++ earlier, ?_⟩, hne, ?_, ?_, ?_⟩
    · rw [List.filterMap_append, hfile, List.append_assoc]
    · rwa [List.filterMap_append, hnone, List.nil_append]
    · rw [List.filterMap_append, h.unmapped, hunmapped, List.nil_append]
    · rw [List.filterMap_append, h.closed, hclosed, List.nil_append]
  case isFalse hnonnull =>
    rw [List.append_nil]
    exact h

theorem Holds.dereferences (h : memory.Holds calls) (answers : List Answer) :
    (dereferences (memory, calls) answers).1.Holds (dereferences (memory, calls) answers).2 := by
  induction answers generalizing memory calls with
  | nil => exact h
  | cons answer answers ih => exact ih (h.dereference answer)

end MappedMemory

/-- Over the life of a shared memory object, with any answers of the system: it gets at most one
view. The destructor closes a mapping exactly once, that of the last attempt, also if that was null;
so the mappings of earlier attempts stay open. It unmaps once if there is a view, but the address
behind the header, so it never unmaps what it has got as a view. -/
theorem destroy_releases (size : UInt64) (first : Answer) (answers : List Answer) :
    let calls := MappedMemory.life size first answers
    (∃ earlier last, calls.filterMap SystemCall.file? = earlier ++ [last] ∧
      calls.filterMap SystemCall.closed? = [last]) ∧
    (calls.filterMap SystemCall.view? = [] ∧ calls.filterMap SystemCall.unmapped? = [] ∨
      ∃ view, calls.filterMap SystemCall.view? = [view] ∧
        calls.filterMap SystemCall.unmapped? = [view + cacheLineSize]) ∧
    ∀ address ∈ calls.filterMap SystemCall.unmapped?,
      address ∉ calls.filterMap SystemCall.view? := by
  intro calls
  let start := (MappedMemory.initial size).attempt first
  let state := MappedMemory.dereferences start answers
  have hstart : start.1.Holds start.2 := MappedMemory.holds_attempt rfl first
  obtain ⟨⟨earlier, hfile⟩, hne, hview, hunmapped, hclosed⟩ : state.1.Holds state.2 :=
    hstart.dereferences answers
  have hcalls : calls = state.2 ++ state.1.destroy := rfl
  have hdestroy : state.1.destroy =
      (if state.1.mapBuffer_ ≠ 0 then [.unmapViewOfFile state.1.mapBuffer_] else []) ++
        [.closeHandle state.1.mapFile_] := by
    rw [MappedMemory.destroy, if_pos hne]
  have hfiles : calls.filterMap SystemCall.file? = earlier ++ [state.1.mapFile_] := by
    rw [hcalls, List.filterMap_append, hfile, hdestroy]
    split <;> exact List.append_nil _
  have hcloses : calls.filterMap SystemCall.closed? = [state.1.mapFile_] := by
    rw [hcalls, List.filterMap_append, hclosed, hdestroy]
    split <;> rfl
  refine ⟨⟨earlier, _, hfiles, hcloses⟩, ?_⟩
  rcases hview with ⟨hnull, hview⟩ | ⟨hnonnull, view, hview, hbuffer⟩
  · rw [if_neg (not_not.2 hnull), List.nil_append] at hdestroy
    have hviews : calls.filterMap SystemCall.view? = [] := by
      rw [hcalls, List.filterMap_append, hview, hdestroy]
      rfl
    have hunmaps : calls.filterMap SystemCall.unmapped? = [] := by
      rw [hcalls, List.filterMap_append, hunmapped, hdestroy]
      rfl
    refine ⟨.inl ⟨hviews, hunmaps⟩, ?_⟩
    rw [hunmaps]
    exact fun address haddress => absurd haddress List.not_mem_nil
  · rw [if_pos hnonnull] at hdestroy
    have hviews : calls.filterMap SystemCall.view? = [view] := by
      rw [hcalls, List.filterMap_append, hview, hdestroy]
      rfl
    have hunmaps : calls.filterMap SystemCall.unmapped? = [view + cacheLineSize] := by
      rw [hcalls, List.filterMap_append, hunmapped, hdestroy, ← hbuffer]
      rfl
    refine ⟨.inr ⟨view, hviews, hunmaps⟩, ?_⟩
    intro address haddress hmem
    rw [hunmaps, List.mem_singleton] at haddress
    rw [hviews, List.mem_singleton, haddress, UInt64.add_eq_left] at hmem
    exact absurd hmem (by decide)

end TxQueue
