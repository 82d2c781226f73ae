import TxQueue.Library.Stores
import TxQueue.Queue

/-!
# Ring arithmetic and the `memcpy` calls of a transfer

The two availability formulas, the index update and the split of a transfer at the end of the
ring, as the source computes them on `uint64_t`. For a power-of-two capacity each is given its
meaning on stream positions: an index is a position modulo the capacity, and the formulas are
exact as long as the two positions are less than a lap apart.
-/

namespace TxQueue

open Library

/-- `available_space` of `imp_write`. -/
def availableSpace (cachedHead tail capacity : UInt64) : UInt64 :=
  (cachedHead - tail - 1 + capacity) &&& (capacity - 1)

/-- `available_data` of `imp_read`. -/
def availableData (cachedTail head capacity : UInt64) : UInt64 :=
  (cachedTail - head + capacity) &&& (capacity - 1)

/-- The update of the local index after a transfer. -/
def advance (index size capacity : UInt64) : UInt64 :=
  (index + size) &&& (capacity - 1)

/-- One `memcpy` between the ring and the caller's buffer: the offset from `storage_`, the offset
from `_buffer` and the number of bytes. -/
structure Memcpy where
  ring : UInt64
  user : UInt64
  count : UInt64
  deriving DecidableEq

/-- The `memcpy` calls of a transfer of `size` bytes at `index`: two when it passes the end of
the ring. -/
def copies (index capacity size : UInt64) : List Memcpy :=
  if index + size > capacity then
    let firstChunkSize := capacity - index
    [⟨index, 0, firstChunkSize⟩, ⟨0, firstChunkSize, size - firstChunkSize⟩]
  else [⟨index, 0, size⟩]

/-- `memcpy(dst + d, src + s, n)` on the content of the destination. -/
def memcpy (dst : ℕ → UInt8) (d : ℕ) (src : ℕ → UInt8) (s n : ℕ) : ℕ → UInt8 :=
  fun a => if d ≤ a ∧ a < d + n then src (s + (a - d)) else dst a

/-- The ring offset and the buffer offset of each byte of a `memcpy`. -/
def Memcpy.pairs (c : Memcpy) : List (ℕ × ℕ) :=
  (List.range c.count.toNat).map fun j => (c.ring.toNat + j, c.user.toNat + j)

/-- The slots of the stream positions from `p` on, each with its place in a buffer. -/
def slotPairs (cap p size : ℕ) : List (ℕ × ℕ) :=
  (List.range size).map fun i => ((p + i) % cap, i)

/-- The byte stores to the ring of a `memcpy` from the buffer. -/
def Memcpy.stores (c : Memcpy) (buffer : ℕ → UInt8) : List (ℕ × UInt8) :=
  c.pairs.map fun x => (x.1, buffer x.2)

/-- A `memcpy` from the buffer into the ring. -/
def Memcpy.copyIn (c : Memcpy) (buffer ring : ℕ → UInt8) : ℕ → UInt8 :=
  memcpy ring c.ring.toNat buffer c.user.toNat c.count.toNat

/-- A `memcpy` from the ring into the buffer. -/
def Memcpy.copyOut (c : Memcpy) (ring buffer : ℕ → UInt8) : ℕ → UInt8 :=
  memcpy buffer c.user.toNat ring c.ring.toNat c.count.toNat

/-- The first `size` bytes of a buffer. -/
def bytes (buffer : ℕ → UInt8) (size : UInt64) : List UInt8 :=
  (List.range size.toNat).map buffer

/-- A byte of a buffer, by its place. -/
theorem getElem?_bytes {buffer : ℕ → UInt8} {size : UInt64} {i : ℕ} {b : UInt8} :
    (bytes buffer size)[i]? = some b ↔ i < size.toNat ∧ buffer i = b := by
  simp [bytes, List.getElem?_eq_some_iff]

@[simp] theorem length_bytes (buffer : ℕ → UInt8) (size : UInt64) :
    (bytes buffer size).length = size.toNat := by simp [bytes]

theorem bytes_eq_nil_iff {buffer : ℕ → UInt8} {size : UInt64} :
    bytes buffer size = [] ↔ size = 0 := by
  rw [← List.length_eq_zero_iff, length_bytes, ← UInt64.toNat_inj]
  rfl

/-! ## Meaning of the index arithmetic -/

variable {capacity : UInt64} {k : ℕ}

/-- A decrement that does not wrap. -/
theorem sub_one_toNat {x : UInt64} (h : 0 < x.toNat) : (x - 1).toNat = x.toNat - 1 :=
  UInt64.toNat_sub_of_le _ _ (UInt64.le_iff_toNat_le.2 h)

/-- A mask of a power of two takes the remainder. -/
theorem and_mask_toNat (h : capacity.toNat = 2 ^ k) (x : UInt64) :
    (x &&& (capacity - 1)).toNat = x.toNat % capacity.toNat := by
  have hpos : 0 < capacity.toNat := h ▸ Nat.two_pow_pos k
  rw [UInt64.toNat_and, sub_one_toNat hpos, h, Nat.and_two_pow_sub_one_eq_mod]

/-- A power of two in 64 bits has a small exponent. -/
theorem exponent_lt (h : capacity.toNat = 2 ^ k) : k < 64 := by
  have hlt := capacity.toNat_lt
  rw [h] at hlt
  exact (Nat.pow_lt_pow_iff_right Nat.one_lt_two).1 hlt

/-- Reduction modulo 2^64 is invisible modulo a power of two that fits in 64 bits. -/
theorem mod_wrap_mod (h : capacity.toNat = 2 ^ k) (a : ℕ) :
    a % 2 ^ 64 % capacity.toNat = a % capacity.toNat := by
  rw [h]
  exact Nat.mod_mod_of_dvd a (Nat.pow_dvd_pow 2 (exponent_lt h).le)

theorem IsPowTwo.pos (h : IsPowTwo capacity) : 0 < capacity.toNat := by
  obtain ⟨k, hk⟩ := h
  rw [hk]
  exact Nat.two_pow_pos k

theorem IsPowTwo.dvd (h : IsPowTwo capacity) : ∃ q, 2 ^ 64 = capacity.toNat * q := by
  obtain ⟨k, hk⟩ := h
  rw [hk]
  exact Nat.pow_dvd_pow 2 (exponent_lt hk).le

/-- A power of two in 64 bits is at most 2^63. -/
theorem IsPowTwo.le (h : IsPowTwo capacity) : capacity.toNat ≤ 2 ^ 63 := by
  obtain ⟨k, hk⟩ := h
  rw [hk]
  exact Nat.pow_le_pow_right Nat.two_pos (Nat.le_of_lt_succ (exponent_lt hk))

/-- `available_space` in unwrapped arithmetic. -/
theorem availableSpace_toNat (h : IsPowTwo capacity) {head tail : UInt64}
    (htail : tail.toNat < capacity.toNat) :
    (availableSpace head tail capacity).toNat =
      (head.toNat + (capacity.toNat - 1 - tail.toNat)) % capacity.toNat := by
  obtain ⟨k, hk⟩ := id h
  obtain ⟨q, hq⟩ := h.dvd
  have hle := h.le
  have hhead := head.toNat_lt
  -- the sum wraps three times; each wrap is invisible modulo the capacity
  rw [availableSpace, and_mask_toNat hk, UInt64.toNat_add, mod_wrap_mod hk, UInt64.toNat_sub,
    UInt64.toNat_sub, UInt64.toNat_one, Nat.add_mod, mod_wrap_mod hk, ← Nat.add_mod]
  rw [show 2 ^ 64 - 1 + (2 ^ 64 - tail.toNat + head.toNat) % 2 ^ 64 + capacity.toNat =
    (2 ^ 64 - tail.toNat + head.toNat) % 2 ^ 64 + (2 ^ 64 - 1 + capacity.toNat) by omega,
    Nat.add_mod, mod_wrap_mod hk, ← Nat.add_mod]
  rw [show 2 ^ 64 - tail.toNat + head.toNat + (2 ^ 64 - 1 + capacity.toNat) =
    head.toNat + (capacity.toNat - 1 - tail.toNat) + (2 ^ 64 + 2 ^ 64) by omega, hq, ← Nat.mul_add,
    Nat.add_mul_mod_self_left]

/-- `available_data` in unwrapped arithmetic. -/
theorem availableData_toNat (h : IsPowTwo capacity) {head tail : UInt64}
    (hhead : head.toNat < capacity.toNat) :
    (availableData tail head capacity).toNat =
      (tail.toNat + (capacity.toNat - head.toNat)) % capacity.toNat := by
  obtain ⟨k, hk⟩ := id h
  obtain ⟨q, hq⟩ := h.dvd
  have hle := h.le
  have htail := tail.toNat_lt
  rw [availableData, and_mask_toNat hk, UInt64.toNat_add, mod_wrap_mod hk, UInt64.toNat_sub,
    Nat.add_mod, mod_wrap_mod hk, ← Nat.add_mod]
  rw [show 2 ^ 64 - head.toNat + tail.toNat + capacity.toNat =
    tail.toNat + (capacity.toNat - head.toNat) + 2 ^ 64 by omega, hq, Nat.add_mul_mod_self_left]

/-- The index update in unwrapped arithmetic. -/
theorem advance_toNat (h : IsPowTwo capacity) (index size : UInt64) :
    (advance index size capacity).toNat = (index.toNat + size.toNat) % capacity.toNat := by
  obtain ⟨k, hk⟩ := h
  rw [advance, and_mask_toNat hk, UInt64.toNat_add, mod_wrap_mod hk]

/-- The free space between two stream positions less than a lap apart. -/
theorem availableSpace_of_pos (h : IsPowTwo capacity) {head tail : UInt64} {p q : ℕ}
    (hhead : head.toNat = p % capacity.toNat) (htail : tail.toNat = q % capacity.toNat)
    (hpq : p ≤ q) (hlap : q ≤ p + (capacity.toNat - 1)) :
    (availableSpace head tail capacity).toNat = capacity.toNat - 1 - (q - p) := by
  have hpos := h.pos
  have hlt : q % capacity.toNat < capacity.toNat := Nat.mod_lt _ hpos
  rw [availableSpace_toNat h (htail ▸ hlt), hhead, htail]
  obtain ⟨d, rfl⟩ := Nat.exists_eq_add_of_le hpq
  have hp : p % capacity.toNat < capacity.toNat := Nat.mod_lt _ hpos
  rw [Nat.add_mod p d, Nat.mod_eq_of_lt (by omega : d < capacity.toNat)]
  generalize p % capacity.toNat = r at *
  rcases Nat.lt_or_ge (r + d) capacity.toNat with hrd | hrd
  · rw [Nat.mod_eq_of_lt hrd, Nat.mod_eq_of_lt (by omega)]
    omega
  · rw [Nat.mod_eq_sub_mod hrd, Nat.mod_eq_of_lt (by omega : r + d - capacity.toNat < _),
      Nat.mod_eq_sub_mod (by omega), Nat.mod_eq_of_lt (by omega)]
    omega

/-- The readable data between two stream positions less than a lap apart. -/
theorem availableData_of_pos (h : IsPowTwo capacity) {head tail : UInt64} {p q : ℕ}
    (hhead : head.toNat = p % capacity.toNat) (htail : tail.toNat = q % capacity.toNat)
    (hpq : p ≤ q) (hlap : q ≤ p + (capacity.toNat - 1)) :
    (availableData tail head capacity).toNat = q - p := by
  have hpos := h.pos
  have hlt : p % capacity.toNat < capacity.toNat := Nat.mod_lt _ hpos
  rw [availableData_toNat h (hhead ▸ hlt), hhead, htail]
  obtain ⟨d, rfl⟩ := Nat.exists_eq_add_of_le hpq
  rw [Nat.add_mod p d, Nat.mod_eq_of_lt (by omega : d < capacity.toNat)]
  generalize p % capacity.toNat = r at *
  rcases Nat.lt_or_ge (r + d) capacity.toNat with hrd | hrd
  · rw [Nat.mod_eq_of_lt hrd, Nat.mod_eq_sub_mod (by omega), Nat.mod_eq_of_lt (by omega)]
    omega
  · rw [Nat.mod_eq_sub_mod hrd, Nat.mod_eq_of_lt (by omega : r + d - capacity.toNat < _),
      Nat.mod_eq_of_lt (by omega)]
    omega

/-- The index of a stream position, moved on by a transfer. -/
theorem advance_of_pos (h : IsPowTwo capacity) {index : UInt64} {p : ℕ} (size : UInt64)
    (hindex : index.toNat = p % capacity.toNat) :
    (advance index size capacity).toNat = (p + size.toNat) % capacity.toNat := by
  rw [advance_toNat h, hindex, Nat.mod_add_mod]

/-! ## The two formulas against each other -/

/-- Two indices are the slots of two stream positions, which are as many bytes apart as the
difference of the indices is modulo the capacity. -/
theorem exists_pos_of_lt {head tail : UInt64} (hhead : head < capacity) (htail : tail < capacity) :
    ∃ used : ℕ, (used : ℤ) = ((tail.toNat : ℤ) - head.toNat) % capacity.toNat ∧
      used ≤ capacity.toNat - 1 ∧ head.toNat = head.toNat % capacity.toNat ∧
      tail.toNat = (head.toNat + used) % capacity.toNat := by
  rw [UInt64.lt_iff_toNat_lt] at hhead htail
  have hpos : (0 : ℤ) < capacity.toNat := by omega
  have hnonneg := Int.emod_nonneg ((tail.toNat : ℤ) - head.toNat) hpos.ne'
  have hlt := Int.emod_lt_of_pos ((tail.toNat : ℤ) - head.toNat) hpos
  obtain ⟨used, hused⟩ := Int.eq_ofNat_of_zero_le hnonneg
  refine ⟨used, hused.symm, by omega, (Nat.mod_eq_of_lt hhead).symm, ?_⟩
  -- in the integers, the difference modulo the capacity leads from one index to the other
  have hsum : ((head.toNat : ℤ) + used) % capacity.toNat = tail.toNat := by
    rw [← hused, Int.add_emod_emod, add_sub_cancel]
    exact Int.emod_eq_of_lt (Int.natCast_nonneg _) (Int.ofNat_lt.2 htail)
  exact_mod_cast hsum.symm

/-- The free space and the readable data of any two indices add up to all slots but the spare one,
and a transfer of what fits moves its bytes from one to the other. -/
theorem available_complement {head tail : UInt64} (h : IsPowTwo capacity) (hhead : head < capacity)
    (htail : tail < capacity) :
    ((availableSpace head tail capacity).toNat : ℤ) =
      capacity.toNat - 1 - ((tail.toNat : ℤ) - head.toNat) % capacity.toNat ∧
    ((availableData tail head capacity).toNat : ℤ) =
      ((tail.toNat : ℤ) - head.toNat) % capacity.toNat ∧
    availableSpace head tail capacity + availableData tail head capacity = capacity - 1 ∧
    (∀ n ≤ availableSpace head tail capacity,
      (availableSpace head (advance tail n capacity) capacity).toNat + n.toNat =
        (availableSpace head tail capacity).toNat ∧
      (availableData (advance tail n capacity) head capacity).toNat =
        (availableData tail head capacity).toNat + n.toNat) ∧
    (∀ n ≤ availableData tail head capacity,
      (availableSpace (advance head n capacity) tail capacity).toNat =
        (availableSpace head tail capacity).toNat + n.toNat ∧
      (availableData tail (advance head n capacity) capacity).toNat + n.toNat =
        (availableData tail head capacity).toNat) := by
  obtain ⟨used, hused, hle, hhead, htail⟩ := exists_pos_of_lt hhead htail
  have hpos := h.pos
  have hspace := availableSpace_of_pos h hhead htail (Nat.le_add_right _ _) (by omega)
  have hdata := availableData_of_pos h hhead htail (Nat.le_add_right _ _) (by omega)
  rw [Nat.add_sub_cancel_left] at hspace hdata
  rw [← hused]
  refine ⟨by omega, by omega, ?_, ?_, ?_⟩
  · apply UInt64.toNat_inj.1
    have hlt := capacity.toNat_lt
    rw [UInt64.toNat_add, hspace, hdata, sub_one_toNat hpos, Nat.mod_eq_of_lt (by omega)]
    omega
  · intro n hn
    rw [UInt64.le_iff_toNat_le, hspace] at hn
    have hnext := advance_of_pos h n htail
    rw [availableSpace_of_pos h hhead hnext (by omega) (by omega),
      availableData_of_pos h hhead hnext (by omega) (by omega), hspace, hdata]
    omega
  · intro n hn
    rw [UInt64.le_iff_toNat_le, hdata] at hn
    have hnext := advance_of_pos h n hhead
    rw [availableSpace_of_pos h hnext htail (by omega) (by omega),
      availableData_of_pos h hnext htail (by omega) (by omega), hspace, hdata]
    omega

/-- `available_complement` on a ring of eight slots whose data passes its end. -/
theorem available_complement_wrapped :
    availableSpace 6 1 8 + availableData 1 6 8 = 8 - 1 :=
  (available_complement ⟨3, rfl⟩ (by decide) (by decide)).2.2.1

/-! ## Meaning of the copies -/

/-- A `memcpy` is the stores of its bytes. -/
theorem memcpy_eq_image (dst src : ℕ → UInt8) (d s n : ℕ) :
    memcpy dst d src s n = image dst ((List.range n).map fun j => (d + j, src (s + j))) := by
  funext a
  by_cases ha : d ≤ a ∧ a < d + n
  · obtain ⟨j, rfl⟩ := Nat.exists_eq_add_of_le ha.1
    have hj : j ∈ List.range n := List.mem_range.2 (by omega)
    rw [image_map (f := fun j => d + j) hj fun i _ hi => by rw [Nat.add_left_cancel hi]]
    simp [memcpy, ha]
  · rw [image_of_forall_ne]
    · simp only [memcpy, if_neg ha]
    · intro x hx
      obtain ⟨j, hj, rfl⟩ := List.mem_map.1 hx
      have := List.mem_range.1 hj
      show d + j ≠ a
      omega

/-- A `memcpy` into the ring is its byte stores. -/
theorem Memcpy.copyIn_eq (c : Memcpy) (buffer ring : ℕ → UInt8) :
    c.copyIn buffer ring = image ring (c.stores buffer) := by
  simp [Memcpy.copyIn, memcpy_eq_image, Memcpy.stores, Memcpy.pairs, Function.comp_def]

/-- A `memcpy` out of the ring, by the pairs of its offsets. -/
theorem Memcpy.copyOut_eq (c : Memcpy) (ring buffer : ℕ → UInt8) :
    c.copyOut ring buffer = image buffer (c.pairs.map fun x => (x.2, ring x.1)) := by
  simp [Memcpy.copyOut, memcpy_eq_image, Memcpy.pairs, Function.comp_def]

/-- A transfer smaller than the ring is split exactly if it passes the end of the ring. -/
theorem copies_cases (h : IsPowTwo capacity) {index size : UInt64}
    (hindex : index.toNat < capacity.toNat) (hsize : size.toNat < capacity.toNat) :
    (∃ first rest : UInt64,
      copies index capacity size = [⟨index, 0, first⟩, ⟨0, first, rest⟩] ∧
      first.toNat = capacity.toNat - index.toNat ∧
      rest.toNat = size.toNat - (capacity.toNat - index.toNat) ∧
      capacity.toNat < index.toNat + size.toNat) ∨
    (copies index capacity size = [⟨index, 0, size⟩] ∧
      index.toNat + size.toNat ≤ capacity.toNat) := by
  have hle := h.le
  have hsum : (index + size).toNat = index.toNat + size.toNat := by
    rw [UInt64.toNat_add]
    omega
  by_cases hwrap : index + size > capacity
  · have hgt : capacity.toNat < index.toNat + size.toNat := by
      rwa [gt_iff_lt, UInt64.lt_iff_toNat_lt, hsum] at hwrap
    have hfirst : (capacity - index).toNat = capacity.toNat - index.toNat :=
      UInt64.toNat_sub_of_le _ _ (UInt64.le_iff_toNat_le.2 hindex.le)
    refine Or.inl ⟨capacity - index, size - (capacity - index), by simp [copies, hwrap], hfirst,
      ?_, hgt⟩
    rw [UInt64.toNat_sub, hfirst]
    omega
  · have hle' : index.toNat + size.toNat ≤ capacity.toNat := by
      rwa [gt_iff_lt, UInt64.lt_iff_toNat_lt, hsum, not_lt] at hwrap
    exact Or.inr ⟨by simp [copies, hwrap], hle'⟩

/-- The copies of a transfer smaller than the ring pair the buffer offsets, in order, with
consecutive slots modulo the capacity. -/
theorem copies_pairs (h : IsPowTwo capacity) {index size : UInt64}
    (hindex : index.toNat < capacity.toNat) (hsize : size.toNat < capacity.toNat) :
    (copies index capacity size).flatMap Memcpy.pairs =
      slotPairs capacity.toNat index.toNat size.toNat := by
  rcases copies_cases h hindex hsize with ⟨first, rest, heq, hfirst, hrest, hgt⟩ | ⟨heq, hle⟩
  · have hsplit : size.toNat = (capacity.toNat - index.toNat) +
        (size.toNat - (capacity.toNat - index.toNat)) := by omega
    rw [slotPairs, hsplit, List.range_add, List.map_append]
    simp only [heq, List.flatMap_cons, List.flatMap_nil, List.append_nil, Memcpy.pairs, hfirst,
      hrest, List.map_map]
    congr 1
    -- the first copy ends at the end of the ring, the second starts at slot 0
    · refine List.map_congr_left ?_
      intro i hi
      have := List.mem_range.1 hi
      simp [Nat.mod_eq_of_lt (by omega : index.toNat + i < capacity.toNat)]
    · refine List.map_congr_left ?_
      intro i hi
      have := List.mem_range.1 hi
      have hslot : (index.toNat + (capacity.toNat - index.toNat + i)) % capacity.toNat = i := by
        rw [show index.toNat + (capacity.toNat - index.toNat + i) = i + capacity.toNat by omega,
          Nat.add_mod_right, Nat.mod_eq_of_lt (by omega)]
      simp [hslot]
  · simp only [heq, List.flatMap_cons, List.flatMap_nil, List.append_nil, Memcpy.pairs, slotPairs]
    refine List.map_congr_left ?_
    intro i hi
    have := List.mem_range.1 hi
    simp [Nat.mod_eq_of_lt (by omega : index.toNat + i < capacity.toNat)]

/-- The same from a stream position. -/
theorem copies_pairs_of_pos (h : IsPowTwo capacity) {index size : UInt64} {p : ℕ}
    (hindex : index.toNat = p % capacity.toNat) (hsize : size.toNat < capacity.toNat) :
    (copies index capacity size).flatMap Memcpy.pairs =
      slotPairs capacity.toNat p size.toNat := by
  rw [copies_pairs h (hindex ▸ Nat.mod_lt _ h.pos) hsize]
  simp [slotPairs, hindex]

/-- A transfer makes at least one copy. -/
theorem copies_ne_nil (index capacity size : UInt64) : copies index capacity size ≠ [] := by
  unfold copies
  split <;> simp

/-- The part of a transfer that the next copies make: consecutive places, and then the rest. -/
theorem slotPairs_split {cap p size n : ℕ} {xs ys : List (ℕ × ℕ)} (hn : n ≤ size)
    (h : xs ++ ys = (slotPairs cap p size).drop n) :
    xs = (List.range' n xs.length).map (fun i => ((p + i) % cap, i)) ∧
      ys = (slotPairs cap p size).drop (n + xs.length) ∧ n + xs.length ≤ size := by
  have hlength := congrArg List.length h
  simp only [slotPairs, List.length_append, List.length_drop, List.length_map,
    List.length_range] at hlength
  have hxs : xs = ((slotPairs cap p size).drop n).take xs.length := by rw [← h, List.take_left]
  have hys : ys = ((slotPairs cap p size).drop n).drop xs.length := by rw [← h, List.drop_left]
  refine ⟨?_, by rw [hys, List.drop_drop], by omega⟩
  refine List.ext_getElem (by simp) ?_
  intro i hi _
  rw [List.getElem_of_eq hxs]
  simp [slotPairs]

/-- Each byte of a copy still to make is one of the transfer. -/
theorem exists_of_mem_pairs {cap p size n : ℕ} {c : Memcpy} {rest : List Memcpy}
    (h : (c :: rest).flatMap Memcpy.pairs = (slotPairs cap p size).drop n) {x : ℕ × ℕ}
    (hx : x ∈ c.pairs) : ∃ i < size, x = ((p + i) % cap, i) := by
  have hmem : x ∈ (slotPairs cap p size).drop n := by
    rw [← h, List.flatMap_cons]
    exact List.mem_append_left _ hx
  obtain ⟨i, hi, rfl⟩ := List.mem_map.1 (List.mem_of_mem_drop hmem)
  exact ⟨i, List.mem_range.1 hi, rfl⟩

/-- When no copies are left, a transfer is complete. -/
theorem eq_of_drop_slotPairs {cap p size n : ℕ} (hn : n ≤ size)
    (h : [] = (slotPairs cap p size).drop n) : n = size := by
  have hlength := congrArg List.length h
  simp [slotPairs] at hlength
  omega

end TxQueue
