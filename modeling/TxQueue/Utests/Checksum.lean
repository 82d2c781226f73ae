import Mathlib.Algebra.GroupWithZero.Nat
import TxQueue.Library.While

/-!
# The checksum of the unit tests

`qcstudio::checksum`: the sum of the bytes modulo 2^32. The counter of the loop has 32 bits and the
size has 64, so that the counter never reaches a size of 2^32 or more.
-/

namespace TxQueue.Checksum

open Library

/-- `status_t`. -/
structure Status where
  checksum : UInt32 := 0
  deriving DecidableEq

/-- `digest_t`. -/
structure Digest where
  checksum : UInt32
  deriving DecidableEq

/-- The variables of `update`, and the places of the buffer that it has read, in order. -/
structure UpdateState where
  status : Status
  i : UInt32
  reads : List ℕ
  deriving DecidableEq

/-- The loop of `update(status, buffer, size)`. -/
def updateLoop (buffer : ℕ → UInt8) (size : UInt64) : Loop UpdateState where
  guard s := decide (s.i.toUInt64 < size)
  body s := some
    { status := ⟨s.status.checksum + (buffer s.i.toNat).toUInt32⟩
      i := s.i + 1
      reads := s.reads ++ [s.i.toNat] }

/-- `update(status, buffer, size)` on all bytes of a buffer. `none` is a call that has not returned
when its counter is past the size. -/
def update (status : Status) (buffer : List UInt8) : Option Status :=
  ((updateLoop (buffer.getD · 0) (UInt64.ofNat buffer.length)).exitWithin (buffer.length + 1)
    ⟨status, 0, []⟩).map UpdateState.status

/-- `to_digest`. -/
def toDigest (status : Status) : Digest := ⟨status.checksum⟩

/-- `to_string`. -/
def toString (digest : Digest) : String := String.ofList (Nat.toDigits 16 digest.checksum.toNat)

/-- `update(status, buffer, size)` returns and leaves `status'`. -/
def Updates (status : Status) (buffer : ℕ → UInt8) (size : UInt64) (status' : Status) : Prop :=
  ∃ i reads, (updateLoop buffer size).Exits ⟨status, 0, []⟩ ⟨status', i, reads⟩

/-- Calls of `update` over consecutive pieces of a buffer, of the given sizes, return and leave
`status'`. -/
def UpdatesAll : Status → (ℕ → UInt8) → List UInt64 → Status → Prop
  | status, _, [], status' => status' = status
  | status, buffer, size :: sizes, status' => ∃ next, Updates status buffer size next ∧
      UpdatesAll next (fun j => buffer (size.toNat + j)) sizes status'

/-- The sum of the first bytes of a buffer. -/
def byteSum (buffer : ℕ → UInt8) (n : ℕ) : ℕ := ((List.range n).map fun j => (buffer j).toNat).sum

/-- What `update` is for: it returns, has read each byte of the buffer once, in order, and has added
their sum; and updating piece by piece gives the digest of the whole. -/
structure Additive (status : Status) (buffer : ℕ → UInt8) (size : UInt64) : Prop where
  update : ∃ s, (updateLoop buffer size).Exits ⟨status, 0, []⟩ s ∧
    s.reads = List.range size.toNat ∧
    s.status.checksum = status.checksum + UInt32.ofNat (byteSum buffer size.toNat)
  pieces : ∀ sizes : List UInt64, (sizes.map UInt64.toNat).sum = size.toNat →
    ∃ whole piecewise, Updates status buffer size whole ∧
      UpdatesAll status buffer sizes piecewise ∧ toDigest piecewise = toDigest whole

variable {status : Status} {buffer : ℕ → UInt8} {size : UInt64}

@[simp] theorem byteSum_zero (buffer : ℕ → UInt8) : byteSum buffer 0 = 0 := rfl

/-- One more byte. -/
theorem byteSum_succ (buffer : ℕ → UInt8) (n : ℕ) :
    byteSum buffer (n + 1) = byteSum buffer n + (buffer n).toNat := by
  simp [byteSum, List.range_succ]

/-- The bytes of two consecutive pieces. -/
theorem byteSum_add (buffer : ℕ → UInt8) (m n : ℕ) :
    byteSum buffer (m + n) = byteSum buffer m + byteSum (fun j => buffer (m + j)) n := by
  induction n with
  | zero => rfl
  | succ n ih => rw [← Nat.add_assoc, byteSum_succ, ih, byteSum_succ, Nat.add_assoc]

/-- The counter compares with the size as a number. -/
theorem guard_iff {s : UpdateState} :
    (updateLoop buffer size).guard s = true ↔ s.i.toNat < size.toNat := by
  simp [updateLoop, UInt64.lt_iff_toNat_lt]

/-- After `i` iterations, while the counter has not wrapped. -/
structure Progress (status : Status) (buffer : ℕ → UInt8) (size : UInt64) (s : UpdateState) :
    Prop where
  le : s.i.toNat ≤ size.toNat
  reads : s.reads = List.range s.i.toNat
  checksum : s.status.checksum = status.checksum + UInt32.ofNat (byteSum buffer s.i.toNat)

/-- An iteration with a size below 2^32. -/
theorem Progress.step {s : UpdateState} (h : Progress status buffer size s)
    (hsize : size.toNat < 2 ^ 32) (hguard : (updateLoop buffer size).guard s = true) :
    ∃ s', (updateLoop buffer size).body s = some s' ∧ Progress status buffer size s' ∧
      size.toNat - s'.i.toNat < size.toNat - s.i.toNat := by
  rw [guard_iff] at hguard
  have hi : (s.i + 1).toNat = s.i.toNat + 1 := by
    rw [UInt32.toNat_add, UInt32.toNat_one]
    omega
  refine ⟨_, rfl, ⟨?_, ?_, ?_⟩, ?_⟩
  · show (s.i + 1).toNat ≤ size.toNat
    omega
  · show s.reads ++ [s.i.toNat] = List.range (s.i + 1).toNat
    rw [hi, List.range_succ, h.reads]
  · show s.status.checksum + (buffer s.i.toNat).toUInt32 = _
    rw [hi, byteSum_succ, UInt32.ofNat_add, h.checksum, UInt32.add_assoc]
    congr 2
    exact UInt32.toNat_inj.1 (by simp)
  · show size.toNat - (s.i + 1).toNat < size.toNat - s.i.toNat
    omega

/-- A buffer of fewer than 2^32 bytes: as many iterations as it has bytes. -/
theorem exitWithin_of_lt (status : Status) (buffer : ℕ → UInt8) (hsize : size.toNat < 2 ^ 32) :
    ∃ s, (updateLoop buffer size).exitWithin (size.toNat + 1) ⟨status, 0, []⟩ = some s ∧
      s.reads = List.range size.toNat ∧
      s.status.checksum = status.checksum + UInt32.ofNat (byteSum buffer size.toNat) := by
  have hstart : Progress status buffer size ⟨status, 0, []⟩ :=
    ⟨Nat.zero_le _, rfl, by simp⟩
  obtain ⟨t, ht, hprogress, hguard⟩ := Loop.exitWithin_of_measure
    (fun s : UpdateState => size.toNat - s.i.toNat) (fun s h => h.step hsize) hstart
    (Nat.lt_succ_self size.toNat)
  have hend : t.i.toNat = size.toNat := by
    have hle := hprogress.le
    have hnot : ¬ t.i.toNat < size.toNat := by
      intro hlt
      rw [guard_iff.2 hlt] at hguard
      cases hguard
    omega
  exact ⟨t, ht, hend ▸ hprogress.reads, hend ▸ hprogress.checksum⟩

/-- A buffer of fewer than 2^32 bytes. -/
theorem update_of_lt (status : Status) (buffer : ℕ → UInt8) (hsize : size.toNat < 2 ^ 32) :
    ∃ s, (updateLoop buffer size).Exits ⟨status, 0, []⟩ s ∧ s.reads = List.range size.toNat ∧
      s.status.checksum = status.checksum + UInt32.ofNat (byteSum buffer size.toNat) := by
  obtain ⟨s, hs, hreads, hchecksum⟩ := exitWithin_of_lt status buffer hsize
  exact ⟨s, Loop.exits_of_exitWithin hs, hreads, hchecksum⟩

/-- The sum over a list. -/
theorem byteSum_getD (data : List UInt8) :
    byteSum (data.getD · 0) data.length = (data.map UInt8.toNat).sum := by
  induction data with
  | nil => rfl
  | cons byte data ih =>
      have hrest : byteSum (fun j => (byte :: data).getD (1 + j) 0) data.length =
          byteSum (data.getD · 0) data.length := by
        congr 1
        funext j
        rw [Nat.add_comm, List.getD_cons_succ]
      rw [List.length_cons, Nat.add_comm, byteSum_add, hrest, ih, byteSum_succ]
      simp

/-- `update` returns for a list of fewer than 2^32 bytes, and adds their sum. -/
theorem update_eq_some (status : Status) {data : List UInt8} (hlt : data.length < 2 ^ 32) :
    update status data =
      some ⟨status.checksum + UInt32.ofNat (data.map UInt8.toNat).sum⟩ := by
  have hsize : (UInt64.ofNat data.length).toNat = data.length := by
    rw [UInt64.toNat_ofNat', Nat.mod_eq_of_lt (by omega)]
  have hlt' : (UInt64.ofNat data.length).toNat < 2 ^ 32 := hsize.symm ▸ hlt
  obtain ⟨s, hs, -, hchecksum⟩ := exitWithin_of_lt status (data.getD · 0) hlt'
  rw [hsize] at hs hchecksum
  rw [byteSum_getD] at hchecksum
  rw [update, hs, Option.map_some, ← hchecksum]

/-- A larger buffer: the counter wraps before it reaches the size. -/
theorem diverges_of_le (status : Status) (buffer : ℕ → UInt8) (hsize : 2 ^ 32 ≤ size.toNat) :
    (updateLoop buffer size).Diverges ⟨status, 0, []⟩ := by
  refine Loop.diverges_of_invariant (I := fun _ => True) ?_ trivial
  intro s _
  exact ⟨guard_iff.2 (Nat.lt_of_lt_of_le s.i.toNat_lt hsize), _, rfl, trivial⟩

/-- Pieces of fewer than 2^32 bytes each add up, also when they are more in total. -/
theorem updatesAll_of_lt (status : Status) (buffer : ℕ → UInt8) {sizes : List UInt64}
    (hsizes : ∀ size ∈ sizes, size.toNat < 2 ^ 32) :
    ∃ status', UpdatesAll status buffer sizes status' ∧ status'.checksum =
      status.checksum + UInt32.ofNat (byteSum buffer (sizes.map UInt64.toNat).sum) := by
  induction sizes generalizing status buffer with
  | nil => exact ⟨status, rfl, by simp⟩
  | cons size sizes ih =>
      rw [List.forall_mem_cons] at hsizes
      obtain ⟨s, hs, -, hchecksum⟩ := update_of_lt status buffer hsizes.1
      obtain ⟨status', hall, hsum⟩ := ih s.status (fun j => buffer (size.toNat + j)) hsizes.2
      refine ⟨status', ⟨s.status, ⟨s.i, s.reads, hs⟩, hall⟩, ?_⟩
      rw [hsum, hchecksum, List.map_cons, List.sum_cons, byteSum_add, UInt32.ofNat_add,
        UInt32.add_assoc]

/-- A piece is not larger than the whole. -/
theorem le_sum_of_mem {sizes : List UInt64} (h : size ∈ sizes) :
    size.toNat ≤ (sizes.map UInt64.toNat).sum := by
  induction sizes with
  | nil => cases h
  | cons first sizes ih =>
      rw [List.map_cons, List.sum_cons]
      rcases List.mem_cons.1 h with rfl | h
      · omega
      · have := ih h
        omega

/-- For every status, every buffer and every size, `update` does what it is for if and only if the
size is less than 2^32. -/
theorem additive_iff (status : Status) (buffer : ℕ → UInt8) (size : UInt64) :
    Additive status buffer size ↔ size.toNat < 2 ^ 32 := by
  constructor
  · intro h
    by_contra hnot
    obtain ⟨s, hs, -⟩ := h.update
    exact (diverges_of_le status buffer (Nat.le_of_not_lt hnot)).not_exits ⟨s, hs⟩
  · intro hsize
    obtain ⟨s, hs, hreads, hchecksum⟩ := update_of_lt status buffer hsize
    refine ⟨⟨s, hs, hreads, hchecksum⟩, ?_⟩
    intro sizes hsum
    have hsizes : ∀ piece ∈ sizes, piece.toNat < 2 ^ 32 := fun piece hpiece =>
      Nat.lt_of_le_of_lt (hsum ▸ le_sum_of_mem hpiece) hsize
    obtain ⟨status', hall, hpieces⟩ := updatesAll_of_lt status buffer hsizes
    refine ⟨s.status, status', ⟨s.i, s.reads, hs⟩, hall, ?_⟩
    rw [toDigest, toDigest, hpieces, hsum, hchecksum]

/-- With 4 GiB of zeros the loop never ends. -/
theorem update_four_gib : (updateLoop (fun _ => 0) 0x100000000).Diverges ⟨{}, 0, []⟩ ∧
    ¬ Additive {} (fun _ => 0) 0x100000000 := by
  have hdiverges : (updateLoop (fun _ => 0) 0x100000000).Diverges ⟨{}, 0, []⟩ :=
    diverges_of_le _ _ (by decide)
  refine ⟨hdiverges, ?_⟩
  intro h
  obtain ⟨s, hs, -⟩ := h.update
  exact hdiverges.not_exits ⟨s, hs⟩

end TxQueue.Checksum
