import Mathlib.Algebra.GroupWithZero.Nat
import TxQueue.Transaction.Overloads
import TxQueue.Transaction.Reference

/-!
# The calls of one transaction

A transaction makes any number of `imp_write` or `imp_read` calls before its destructor. While the
other side publishes nothing, a transaction that starts out ready follows a law on the sums of the
sizes alone: a call returns `true` exactly if the bytes up to its own fit, and what the destructor
then publishes depends on the concatenated bytes and not on their division into calls.
-/

namespace TxQueue

open Library

/-- What the calls of a write transaction return, in order, and leave. -/
structure WritesResult where
  oks : List Bool
  tx : TxWrite
  block : Block

/-- What the calls of a read transaction return, in order, and leave. `data` holds the bytes of each
caller's buffer after its call. -/
structure ReadsResult where
  oks : List Bool
  data : List (List UInt8)
  tx : TxRead
  block : Block

/-- `write(buffer, size)` for each payload in turn, whatever the earlier calls have returned. -/
def TxWrite.writes (tx : TxWrite) (block : Block) (cores : ℕ → Int32) :
    List Payload → WritesResult
  | [] => ⟨[], tx, block⟩
  | p :: ps =>
      let result := tx.impWrite block (cores 0) p.buffer p.size
      let rest := result.tx.writes result.block (fun i => cores (i + 1)) ps
      ⟨result.ok :: rest.oks, rest.tx, rest.block⟩

/-- `read(buffer, size)` for each payload in turn, whatever the earlier calls have returned. -/
def TxRead.reads (tx : TxRead) (block : Block) (cores : ℕ → Int32) : List Payload → ReadsResult
  | [] => ⟨[], [], tx, block⟩
  | p :: ps =>
      let result := tx.impRead block (cores 0) p.buffer p.size
      let rest := result.tx.reads result.block (fun i => cores (i + 1)) ps
      ⟨result.ok :: rest.oks, bytes result.buffer p.size :: rest.data, rest.tx, rest.block⟩

/-- The sum of the sizes, in unbounded arithmetic. -/
def totalSize (ps : List Payload) : ℕ := (ps.map fun p => p.size.toNat).sum

/-- The buffers one after the other. -/
def concatenation (ps : List Payload) : List UInt8 := ps.flatMap fun p => bytes p.buffer p.size

@[simp] theorem totalSize_nil : totalSize [] = 0 := rfl

@[simp] theorem totalSize_cons (p : Payload) (ps : List Payload) :
    totalSize (p :: ps) = p.size.toNat + totalSize ps := by
  simp [totalSize]

@[simp] theorem concatenation_nil : concatenation [] = [] := rfl

@[simp] theorem concatenation_cons (p : Payload) (ps : List Payload) :
    concatenation (p :: ps) = bytes p.buffer p.size ++ concatenation ps := rfl

@[simp] theorem length_concatenation (ps : List Payload) :
    (concatenation ps).length = totalSize ps := by
  induction ps with
  | nil => rfl
  | cons p ps ih => simp [ih]

/-- The results of calls that stop at a limit: `true` as long as the sum of the sizes is within
it. -/
def withinLimit (limit : ℕ) (ps : List Payload) : List Bool :=
  (List.range ps.length).map fun i => decide (totalSize (ps.take (i + 1)) ≤ limit)

@[simp] theorem withinLimit_nil (limit : ℕ) : withinLimit limit [] = [] := rfl

@[simp] theorem length_withinLimit (limit : ℕ) (ps : List Payload) :
    (withinLimit limit ps).length = ps.length := by
  simp [withinLimit]

/-- A first call within the limit leaves its rest. -/
theorem withinLimit_cons {limit : ℕ} {p : Payload} {ps : List Payload} (h : p.size.toNat ≤ limit) :
    withinLimit limit (p :: ps) = true :: withinLimit (limit - p.size.toNat) ps := by
  simp only [withinLimit, List.length_cons, List.range_succ_eq_map, List.map_cons, List.map_map]
  congr 1
  · simp [h]
  · refine List.map_congr_left ?_
    intro i _
    simp only [Function.comp_apply, Nat.succ_eq_add_one, List.take_succ_cons, totalSize_cons,
      decide_eq_decide]
    omega

/-- After a first call beyond the limit no other is within it. -/
theorem withinLimit_cons_of_lt {limit : ℕ} {p : Payload} {ps : List Payload}
    (h : limit < p.size.toNat) : withinLimit limit (p :: ps) = false :: ps.map fun _ => false := by
  simp only [withinLimit, List.length_cons, List.range_succ_eq_map, List.map_cons, List.map_map]
  congr 1
  · simp [h]
  · refine List.ext_getElem (by simp) ?_
    intro i _ _
    simp
    omega

/-- All calls are within a limit exactly if their sum is. -/
theorem forall_withinLimit {limit : ℕ} {ps : List Payload} :
    (∀ ok ∈ withinLimit limit ps, ok = true) ↔ totalSize ps ≤ limit := by
  induction ps generalizing limit with
  | nil => simp
  | cons p ps ih =>
      rcases Nat.lt_or_ge limit p.size.toNat with h | h
      · rw [withinLimit_cons_of_lt h]
        simp
        omega
      · rw [withinLimit_cons h]
        simp only [List.mem_cons, forall_eq_or_imp, true_and, ih, totalSize_cons]
        omega

/-- The stores of a buffer from position `q` on. -/
theorem slotStores_bytes (cap : UInt64) (q : ℕ) (buffer : ℕ → UInt8) (size : UInt64) :
    (slotPairs cap.toNat q size.toNat).map (fun x => (x.1, buffer x.2)) =
      slotStores cap q (bytes buffer size) := by
  simp only [slotPairs, slotStores, length_bytes, List.map_map]
  refine List.map_congr_left ?_
  intro i hi
  simp [bytes, List.mem_range.1 hi]

/-- The stores from position `q` on leave the positions up to a lap before. -/
theorem image_slotStores_of_lt {cap : UInt64} {ring : ℕ → UInt8} {data : List UInt8} {n q : ℕ}
    (hn : n < q) (hlap : q + data.length ≤ n + cap.toNat) :
    image ring (slotStores cap q data) (n % cap.toNat) = ring (n % cap.toNat) := by
  refine image_of_forall_ne ?_
  intro x hx
  obtain ⟨i, hi, rfl⟩ := List.mem_map.1 hx
  have := List.mem_range.1 hi
  exact (mod_ne_mod (by omega) (by omega)).symm

/-- Bytes that agree position by position. -/
theorem ringBytes_congr {cap : UInt64} {ring ring' : ℕ → UInt8} {p n : ℕ}
    (h : ∀ i < n, ring ((p + i) % cap.toNat) = ring' ((p + i) % cap.toNat)) :
    ringBytes cap ring p n = ringBytes cap ring' p n :=
  List.map_congr_left fun i hi => h i (List.mem_range.1 hi)

variable {cap : UInt64} {block : Block} {p q r : ℕ}

/-! ## Writes -/

section Writes

variable {tx : TxWrite}

/-- On an invalid transaction all calls fail and nothing changes. -/
theorem TxWrite.writes_of_invalid (h : tx.invalidated_ = true) (block : Block)
    (cores : ℕ → Int32) (ps : List Payload) :
    tx.writes block cores ps = ⟨ps.map fun _ => false, tx, block⟩ := by
  induction ps generalizing cores with
  | nil => rfl
  | cons p ps ih => simp [writes, impWrite_of_invalid h, ih]

/-- The calls of a transaction store to neither index. -/
theorem TxWrite.writes_indices (tx : TxWrite) (block : Block) (cores : ℕ → Int32)
    (ps : List Payload) : (tx.writes block cores ps).block.status.head_ = block.status.head_ ∧
      (tx.writes block cores ps).block.status.tail_ = block.status.tail_ := by
  induction ps generalizing tx block cores with
  | nil => exact ⟨rfl, rfl⟩
  | cons p ps ih =>
      obtain ⟨hhead, htail⟩ := tx.impWrite_indices block (cores 0) p.buffer p.size
      rw [← hhead, ← htail]
      exact ih _ _ _

namespace TxWrite.Ready

/-- The calls succeed up to the first whose bytes do not fit before the spare slot. -/
theorem writes_oks (h : tx.Ready cap block q r) (hcap : IsPowTwo cap) (cores : ℕ → Int32)
    (ps : List Payload) :
    (tx.writes block cores ps).oks = withinLimit (r + (cap.toNat - 1) - q) ps := by
  induction ps generalizing tx block q cores with
  | nil => rfl
  | cons p ps ih =>
      have hroom : q ≤ r + (cap.toNat - 1) := by
        obtain ⟨p', hp', hlap, -⟩ := h.cached
        omega
      rcases Nat.lt_or_ge (r + (cap.toNat - 1)) (q + p.size.toNat) with hfull | hfits
      · obtain ⟨hok, hinvalid, -⟩ := h.impWrite_fails hcap (cores 0) p.buffer hfull
        rw [withinLimit_cons_of_lt (by omega)]
        simp only [writes, hok, writes_of_invalid hinvalid]
      · obtain ⟨hok, hready, -⟩ := h.impWrite hcap (cores 0) p.buffer hfits
        rw [withinLimit_cons (by omega)]
        simp only [writes, hok, ih hready]
        congr 2
        omega

/-- Calls that all fit store the concatenation of their buffers. -/
theorem writes_fit (h : tx.Ready cap block q r) (hcap : IsPowTwo cap) (cores : ℕ → Int32)
    {ps : List Payload} (hfits : q + totalSize ps ≤ r + (cap.toNat - 1)) :
    (tx.writes block cores ps).tx.Ready cap (tx.writes block cores ps).block
        (q + totalSize ps) r ∧
      (tx.writes block cores ps).block.ring =
        image block.ring (slotStores cap q (concatenation ps)) := by
  induction ps generalizing tx block q cores with
  | nil => exact ⟨h, rfl⟩
  | cons p ps ih =>
      rw [totalSize_cons] at hfits
      have hfirst : q + p.size.toNat ≤ r + (cap.toNat - 1) := by omega
      obtain ⟨-, hready, hring⟩ := h.impWrite hcap (cores 0) p.buffer hfirst
      obtain ⟨hfinal, hstores⟩ := ih hready (fun i => cores (i + 1)) (by omega)
      refine ⟨?_, ?_⟩
      · rw [totalSize_cons, ← Nat.add_assoc]
        exact hfinal
      · rw [concatenation_cons, slotStores_append, image_append, length_bytes, ← slotStores_bytes,
          ← hring]
        exact hstores

/-- Calls that do not all fit invalidate the transaction. -/
theorem writes_invalid (h : tx.Ready cap block q r) (hcap : IsPowTwo cap) (cores : ℕ → Int32)
    {ps : List Payload} (hfull : r + (cap.toNat - 1) < q + totalSize ps) :
    (tx.writes block cores ps).tx.invalidated_ = true := by
  induction ps generalizing tx block q cores with
  | nil =>
      obtain ⟨p', hp', hlap, -⟩ := h.cached
      simp at hfull
      omega
  | cons p ps ih =>
      rcases Nat.lt_or_ge (r + (cap.toNat - 1)) (q + p.size.toNat) with hlt | hfits
      · obtain ⟨-, hinvalid, -⟩ := h.impWrite_fails hcap (cores 0) p.buffer hlt
        simpa only [writes, writes_of_invalid hinvalid] using hinvalid
      · obtain ⟨-, hready, -⟩ := h.impWrite hcap (cores 0) p.buffer hfits
        rw [totalSize_cons, ← Nat.add_assoc] at hfull
        exact ih hready _ hfull

/-- No call touches a byte between the head and the local tail. -/
theorem writes_unread (h : tx.Ready cap block q r) (hcap : IsPowTwo cap) (cores : ℕ → Int32)
    (ps : List Payload) {n : ℕ} (hrn : r ≤ n) (hnq : n < q) :
    (tx.writes block cores ps).block.ring (n % cap.toNat) = block.ring (n % cap.toNat) := by
  induction ps generalizing tx block q cores with
  | nil => rfl
  | cons p ps ih =>
      rcases Nat.lt_or_ge (r + (cap.toNat - 1)) (q + p.size.toNat) with hlt | hfits
      · obtain ⟨-, hinvalid, hring⟩ := h.impWrite_fails hcap (cores 0) p.buffer hlt
        simp only [writes, writes_of_invalid hinvalid, hring]
      · obtain ⟨-, hready, hring⟩ := h.impWrite hcap (cores 0) p.buffer hfits
        refine (ih hready _ (by omega)).trans ?_
        rw [hring, slotStores_bytes]
        refine image_slotStores_of_lt hnq ?_
        rw [length_bytes]
        omega

end TxWrite.Ready

end Writes

/-! ## Reads -/

section Reads

variable {tx : TxRead}

/-- On an invalid transaction all calls fail and nothing changes. -/
theorem TxRead.reads_of_invalid (h : tx.invalidated_ = true) (block : Block)
    (cores : ℕ → Int32) (ps : List Payload) :
    (tx.reads block cores ps).oks = ps.map (fun _ => false) ∧
      (tx.reads block cores ps).tx = tx := by
  induction ps generalizing cores with
  | nil => exact ⟨rfl, rfl⟩
  | cons p ps ih => simp [reads, impRead_of_invalid h, ih]

/-- The calls of a read transaction store to neither index, nor to the ring. -/
theorem TxRead.reads_memory (tx : TxRead) (block : Block) (cores : ℕ → Int32)
    (ps : List Payload) : (tx.reads block cores ps).block.status.head_ = block.status.head_ ∧
      (tx.reads block cores ps).block.status.tail_ = block.status.tail_ ∧
      (tx.reads block cores ps).block.ring = block.ring := by
  induction ps generalizing tx block cores with
  | nil => exact ⟨rfl, rfl, rfl⟩
  | cons p ps ih =>
      obtain ⟨hhead, htail, hring⟩ := tx.impRead_memory block (cores 0) p.buffer p.size
      rw [← hhead, ← htail, ← hring]
      exact ih _ _ _

namespace TxRead.Ready

/-- The calls succeed up to the first that ends past the tail. -/
theorem reads_oks (h : tx.Ready cap block p r) (hcap : IsPowTwo cap) (cores : ℕ → Int32)
    (ps : List Payload) : (tx.reads block cores ps).oks = withinLimit (r - p) ps := by
  induction ps generalizing tx block p cores with
  | nil => rfl
  | cons a ps ih =>
      have hpr : p ≤ r := by
        obtain ⟨q', hq', hpq, -⟩ := h.cached
        omega
      rcases Nat.lt_or_ge r (p + a.size.toNat) with hshort | hfits
      · obtain ⟨hok, hinvalid, -⟩ := h.impRead_fails hcap (cores 0) a.buffer hshort
        rw [withinLimit_cons_of_lt (by omega)]
        simp only [reads, hok, (reads_of_invalid hinvalid _ _ _).1]
      · obtain ⟨hok, hready, -⟩ := h.impRead hcap (cores 0) a.buffer hfits
        rw [withinLimit_cons (by omega)]
        simp only [reads, hok, ih hready]
        congr 2
        omega

/-- Calls that all end before the tail return consecutive bytes. -/
theorem reads_fit (h : tx.Ready cap block p r) (hcap : IsPowTwo cap) (cores : ℕ → Int32)
    {ps : List Payload} (hfits : p + totalSize ps ≤ r) :
    (tx.reads block cores ps).tx.Ready cap (tx.reads block cores ps).block
        (p + totalSize ps) r ∧
      (tx.reads block cores ps).data.flatten = ringBytes cap block.ring p (totalSize ps) := by
  induction ps generalizing tx block p cores with
  | nil => exact ⟨h, rfl⟩
  | cons a ps ih =>
      rw [totalSize_cons] at hfits
      have hfirst : p + a.size.toNat ≤ r := by omega
      obtain ⟨-, hready, hring, hbytes⟩ := h.impRead hcap (cores 0) a.buffer hfirst
      obtain ⟨hfinal, hdata⟩ := ih hready (fun i => cores (i + 1)) (by omega)
      refine ⟨?_, ?_⟩
      · rw [totalSize_cons, ← Nat.add_assoc]
        exact hfinal
      · rw [totalSize_cons, ringBytes_add, ← hbytes, ← hring, ← hdata]
        rfl

/-- Calls that do not all end before the tail invalidate the transaction. -/
theorem reads_invalid (h : tx.Ready cap block p r) (hcap : IsPowTwo cap) (cores : ℕ → Int32)
    {ps : List Payload} (hshort : r < p + totalSize ps) :
    (tx.reads block cores ps).tx.invalidated_ = true := by
  induction ps generalizing tx block p cores with
  | nil =>
      obtain ⟨q', hq', hpq, -⟩ := h.cached
      simp at hshort
      omega
  | cons a ps ih =>
      rcases Nat.lt_or_ge r (p + a.size.toNat) with hlt | hfits
      · obtain ⟨-, hinvalid, -⟩ := h.impRead_fails hcap (cores 0) a.buffer hlt
        simpa only [reads, (reads_of_invalid hinvalid _ _ _).2] using hinvalid
      · obtain ⟨-, hready, -⟩ := h.impRead hcap (cores 0) a.buffer hfits
        rw [totalSize_cons, ← Nat.add_assoc] at hshort
        exact ih hready _ hshort

end TxRead.Ready

end Reads

end TxQueue
