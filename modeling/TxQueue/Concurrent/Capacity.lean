import TxQueue.Concurrent.Calls
import TxQueue.Concurrent.Fifo
import TxQueue.Transaction.Sequences

/-!
# The exact capacity of a transaction

A write transaction that is open while no read commits takes exactly the bytes that fit between the
occupied slots and the spare one, from whatever head the constructor has loaded. What it publishes
is the concatenation of its buffers or nothing. A read transaction that is open while no write
commits gets exactly the bytes that were unread at its start.
-/

namespace TxQueue

open Library

/-- The number of bytes between `head_` and `tail_`. -/
def Block.used (cap : UInt64) (block : Block) : ℕ :=
  filledSlots cap.toNat block.status.tail_.toNat block.status.head_.toNat

/-- The bytes between `head_` and `tail_`. -/
def Block.unread (cap : UInt64) (block : Block) : List UInt8 :=
  ringBytes cap block.ring block.status.head_.toNat (block.used cap)

/-- What a write transaction returns call by call, and the block it leaves when it is closed. -/
structure WriteOutcome where
  oks : List Bool
  block : Block

/-- What a read transaction returns call by call, the bytes in the callers' buffers, and the block
it leaves when it is closed. -/
structure ReadOutcome where
  oks : List Bool
  data : List (List UInt8)
  block : Block

/-- A whole write transaction. `head` is what the constructor loads from `head_`. -/
def writeTransaction (queue : BaseTxQueue) (block : Block) (head : UInt64) (cores : ℕ → Int32)
    (ps : List Payload) : WriteOutcome :=
  let result := (TxWrite.construct queue block.status.tail_ head).writes block cores ps
  ⟨result.oks, result.tx.destroy result.block⟩

/-- A whole read transaction. `tail` is what the constructor loads from `tail_`. -/
def readTransaction (queue : BaseTxQueue) (block : Block) (tail : UInt64) (cores : ℕ → Int32)
    (ps : List Payload) : ReadOutcome :=
  let result := (TxRead.construct queue block.status.head_ tail).reads block cores ps
  ⟨result.oks, result.data, result.tx.destroy result.block⟩

/-- Two write transactions have the same effect on the other side: both succeed or both fail, and
they leave the same indices with the same bytes between them. -/
structure WriteOutcome.Agrees (a b : WriteOutcome) (cap : UInt64) : Prop where
  ok_iff : (∀ ok ∈ a.oks, ok = true) ↔ ∀ ok ∈ b.oks, ok = true
  head : a.block.status.head_ = b.block.status.head_
  tail : a.block.status.tail_ = b.block.status.tail_
  unread : a.block.unread cap = b.block.unread cap

/-- Two read transactions have the same effect: both succeed or both fail, on success they have read
the same bytes, and they leave the same indices with the same bytes between them. -/
structure ReadOutcome.Agrees (a b : ReadOutcome) (cap : UInt64) : Prop where
  ok_iff : (∀ ok ∈ a.oks, ok = true) ↔ ∀ ok ∈ b.oks, ok = true
  data : (∀ ok ∈ a.oks, ok = true) → a.data.flatten = b.data.flatten
  head : a.block.status.head_ = b.block.status.head_
  tail : a.block.status.tail_ = b.block.status.tail_
  unread : a.block.unread cap = b.block.unread cap

/-- The law of a write transaction: which calls succeed, and what is published. -/
structure WriteOutcome.Lawful (outcome : WriteOutcome) (cap : UInt64) (block : Block)
    (ps : List Payload) : Prop where
  length : outcome.oks.length = ps.length
  returns : ∀ i < ps.length, outcome.oks[i]? = some true ↔
    totalSize (ps.take (i + 1)) ≤ cap.toNat - 1 - block.used cap
  head : outcome.block.status.head_ = block.status.head_
  published : (∀ ok ∈ outcome.oks, ok = true) →
    outcome.block.unread cap = block.unread cap ++ concatenation ps ∧
    outcome.block.status.tail_.toNat =
      (block.status.tail_.toNat + totalSize ps) % cap.toNat
  kept : false ∈ outcome.oks →
    outcome.block.unread cap = block.unread cap ∧
    outcome.block.status.tail_ = block.status.tail_

/-- The law of a read transaction: which calls succeed, what they return, and what is published. -/
structure ReadOutcome.Lawful (outcome : ReadOutcome) (cap : UInt64) (block : Block)
    (ps : List Payload) : Prop where
  length : outcome.oks.length = ps.length
  returns : ∀ i < ps.length, outcome.oks[i]? = some true ↔
    totalSize (ps.take (i + 1)) ≤ block.used cap
  tail : outcome.block.status.tail_ = block.status.tail_
  published : (∀ ok ∈ outcome.oks, ok = true) →
    outcome.data.flatten = (block.unread cap).take (totalSize ps) ∧
    outcome.block.unread cap = (block.unread cap).drop (totalSize ps) ∧
    outcome.block.status.head_.toNat =
      (block.status.head_.toNat + totalSize ps) % cap.toNat
  kept : false ∈ outcome.oks →
    outcome.block.unread cap = block.unread cap ∧
    outcome.block.status.head_ = block.status.head_

/-- The indices of a block are the stream positions `r` and `q`, less than a lap apart. -/
structure Block.Spans (cap : UInt64) (block : Block) (r q : ℕ) : Prop where
  head : block.status.head_.toNat = r % cap.toNat
  tail : block.status.tail_.toNat = q % cap.toNat
  le : r ≤ q
  lap : q ≤ r + (cap.toNat - 1)

variable {cap : UInt64} {block : Block} {p q r : ℕ}

namespace Block.Spans

/-- The occupancy between two positions. -/
theorem used_eq (h : block.Spans cap r q) (hcap : IsPowTwo cap) : block.used cap = q - r := by
  have hlt : block.status.head_.toNat < cap.toNat := h.head ▸ Nat.mod_lt _ hcap.pos
  rw [used, filledSlots, ← availableData_toNat hcap hlt]
  exact availableData_of_pos hcap h.head h.tail h.le h.lap

/-- The bytes between two positions. -/
theorem unread_eq (h : block.Spans cap r q) (hcap : IsPowTwo cap) :
    block.unread cap = ringBytes cap block.ring r (q - r) := by
  rw [unread, h.used_eq hcap, h.head, ringBytes_mod]

end Block.Spans

section Laws

variable {queue : BaseTxQueue} {cores : ℕ → Int32} {ps : List Payload}

/-- The results within a limit, one by one. -/
theorem withinLimit_getElem? {limit i : ℕ} (hi : i < ps.length) :
    (withinLimit limit ps)[i]? = some true ↔ totalSize (ps.take (i + 1)) ≤ limit := by
  simp [withinLimit, hi]

/-- Some result is beyond the limit exactly if the sum is. -/
theorem false_mem_withinLimit {limit : ℕ} :
    false ∈ withinLimit limit ps ↔ limit < totalSize ps := by
  rw [← not_le, ← forall_withinLimit]
  simp

/-- A transaction that starts out ready follows the law of writes. -/
theorem TxWrite.Ready.lawful {tx : TxWrite} (h : tx.Ready cap block q r)
    (hspans : block.Spans cap r q) (hcap : IsPowTwo cap) (cores : ℕ → Int32)
    (ps : List Payload) :
    WriteOutcome.Lawful
      ⟨(tx.writes block cores ps).oks,
        (tx.writes block cores ps).tx.destroy (tx.writes block cores ps).block⟩ cap block ps := by
  have hle := hspans.le
  have hlap := hspans.lap
  have hpos := hcap.pos
  have hlimit : r + (cap.toNat - 1) - q = cap.toNat - 1 - block.used cap := by
    rw [hspans.used_eq hcap]
    omega
  have hoks := h.writes_oks hcap cores ps
  obtain ⟨hhead, htail⟩ := tx.writes_indices block cores ps
  constructor
  · rw [hoks, length_withinLimit]
  · intro i hi
    rw [hoks, withinLimit_getElem? hi, hlimit]
  · simpa using hhead
  · intro hall
    have hfits : q + totalSize ps ≤ r + (cap.toNat - 1) := by
      rw [hoks, forall_withinLimit] at hall
      omega
    obtain ⟨hready, hring⟩ := h.writes_fit hcap cores hfits
    obtain ⟨p', hp', -, hat⟩ := hready.cached
    have hnext : Block.Spans cap
        ((tx.writes block cores ps).tx.destroy (tx.writes block cores ps).block) r
        (q + totalSize ps) :=
      ⟨by rw [destroy_head, hhead, hspans.head], by rw [destroy_tail hready.valid, hat.tail],
        by omega, by omega⟩
    refine ⟨?_, ?_⟩
    -- the old bytes stay where they are, and the new ones stand behind them
    · rw [hnext.unread_eq hcap, hspans.unread_eq hcap, destroy_ring,
        show q + totalSize ps - r = (q - r) + totalSize ps by omega, ringBytes_add,
        show r + (q - r) = q by omega]
      congr 1
      · refine ringBytes_congr ?_
        intro i hi
        exact h.writes_unread hcap cores ps (by omega) (by omega)
      · rw [hring, ← length_concatenation]
        exact ringBytes_slotStores cap block.ring q _ (by rw [length_concatenation]; omega)
    · rw [hnext.tail, hspans.tail, Nat.mod_add_mod]
  · intro hsome
    have hfull : r + (cap.toNat - 1) < q + totalSize ps := by
      rw [hoks, false_mem_withinLimit] at hsome
      omega
    have hinvalid := h.writes_invalid hcap cores hfull
    have hkept : Block.Spans cap (tx.writes block cores ps).block r q :=
      ⟨by rw [hhead, hspans.head], by rw [htail, hspans.tail], hle, hlap⟩
    rw [destroy_of_invalid hinvalid]
    refine ⟨?_, htail⟩
    rw [hkept.unread_eq hcap, hspans.unread_eq hcap]
    refine ringBytes_congr ?_
    intro i hi
    exact h.writes_unread hcap cores ps (by omega) (by omega)

/-- A transaction that starts out ready follows the law of reads. -/
theorem TxRead.Ready.lawful {tx : TxRead} (h : tx.Ready cap block r q)
    (hspans : block.Spans cap r q) (hcap : IsPowTwo cap) (cores : ℕ → Int32)
    (ps : List Payload) :
    ReadOutcome.Lawful
      ⟨(tx.reads block cores ps).oks, (tx.reads block cores ps).data,
        (tx.reads block cores ps).tx.destroy (tx.reads block cores ps).block⟩ cap block ps := by
  have hle := hspans.le
  have hlap := hspans.lap
  have hused := hspans.used_eq hcap
  have hoks := h.reads_oks hcap cores ps
  obtain ⟨hhead, htail, hring⟩ := tx.reads_memory block cores ps
  constructor
  · rw [hoks, length_withinLimit]
  · intro i hi
    rw [hoks, withinLimit_getElem? hi, hused]
  · simpa using htail
  · intro hall
    have hfits : r + totalSize ps ≤ q := by
      rw [hoks, forall_withinLimit] at hall
      omega
    obtain ⟨hready, hdata⟩ := h.reads_fit hcap cores hfits
    obtain ⟨p', hp', -, hat⟩ := hready.cached
    have hnext : Block.Spans cap
        ((tx.reads block cores ps).tx.destroy (tx.reads block cores ps).block)
        (r + totalSize ps) q :=
      ⟨by rw [destroy_head hready.valid, hat.head], by rw [destroy_tail, htail, hspans.tail],
        by omega, by omega⟩
    have hsplit : block.unread cap = ringBytes cap block.ring r (totalSize ps) ++
        ringBytes cap block.ring (r + totalSize ps) (q - (r + totalSize ps)) := by
      rw [hspans.unread_eq hcap, ← ringBytes_add]
      congr 1
      omega
    refine ⟨?_, ?_, ?_⟩
    · rw [hsplit, hdata, List.take_left' (length_ringBytes _ _ _ _)]
    · rw [hsplit, hnext.unread_eq hcap, destroy_ring, hring,
        List.drop_left' (length_ringBytes _ _ _ _)]
    · rw [hnext.head, hspans.head, Nat.mod_add_mod]
  · intro hsome
    have hshort : q < r + totalSize ps := by
      rw [hoks, false_mem_withinLimit] at hsome
      omega
    have hinvalid := h.reads_invalid hcap cores hshort
    have hkept : Block.Spans cap (tx.reads block cores ps).block r q :=
      ⟨by rw [hhead, hspans.head], by rw [htail, hspans.tail], hle, hlap⟩
    rw [destroy_of_invalid hinvalid]
    refine ⟨?_, hhead⟩
    rw [hkept.unread_eq hcap, hspans.unread_eq hcap, hring]

end Laws

/-! ## Independence of the division into calls -/

section Agrees

variable {ps ps' : List Payload}

/-- All calls succeed exactly if the sum of the sizes is within the limit. -/
theorem forall_ok_iff {oks : List Bool} {limit : ℕ} (hlength : oks.length = ps.length)
    (h : ∀ i < ps.length, oks[i]? = some true ↔ totalSize (ps.take (i + 1)) ≤ limit) :
    (∀ ok ∈ oks, ok = true) ↔ totalSize ps ≤ limit := by
  rw [← forall_withinLimit]
  suffices heq : oks = withinLimit limit ps by rw [heq]
  refine List.ext_getElem (by simpa using hlength) ?_
  intro i hi _
  have hget := h i (by omega)
  rw [List.getElem?_eq_getElem hi, Option.some.injEq] at hget
  rw [Bool.eq_iff_iff, hget]
  simp [withinLimit]

/-- What does not all succeed has failed somewhere. -/
theorem false_mem_of_not_forall {oks : List Bool} (h : ¬ ∀ ok ∈ oks, ok = true) :
    false ∈ oks := by
  simpa using h

/-- Only the concatenation of the buffers matters to the other side. -/
theorem WriteOutcome.Lawful.agrees {a b : WriteOutcome} (ha : a.Lawful cap block ps)
    (hb : b.Lawful cap block ps') (h : concatenation ps = concatenation ps') :
    a.Agrees b cap := by
  have htotal : totalSize ps = totalSize ps' := by
    rw [← length_concatenation, h, length_concatenation]
  have hiff : (∀ ok ∈ a.oks, ok = true) ↔ ∀ ok ∈ b.oks, ok = true := by
    rw [forall_ok_iff ha.length ha.returns, forall_ok_iff hb.length hb.returns, htotal]
  have hhead : a.block.status.head_ = b.block.status.head_ := ha.head.trans hb.head.symm
  by_cases hall : ∀ ok ∈ a.oks, ok = true
  · obtain ⟨hunread, htail⟩ := ha.published hall
    obtain ⟨hunread', htail'⟩ := hb.published (hiff.1 hall)
    refine ⟨hiff, hhead, UInt64.toNat_inj.1 ?_, ?_⟩
    · rw [htail, htail', htotal]
    · rw [hunread, hunread', h]
  · obtain ⟨hunread, htail⟩ := ha.kept (false_mem_of_not_forall hall)
    obtain ⟨hunread', htail'⟩ := hb.kept (false_mem_of_not_forall fun hb => hall (hiff.2 hb))
    exact ⟨hiff, hhead, htail.trans htail'.symm, hunread.trans hunread'.symm⟩

/-- Only the number of bytes asked for matters. -/
theorem ReadOutcome.Lawful.agrees {a b : ReadOutcome} (ha : a.Lawful cap block ps)
    (hb : b.Lawful cap block ps') (htotal : totalSize ps = totalSize ps') : a.Agrees b cap := by
  have hiff : (∀ ok ∈ a.oks, ok = true) ↔ ∀ ok ∈ b.oks, ok = true := by
    rw [forall_ok_iff ha.length ha.returns, forall_ok_iff hb.length hb.returns, htotal]
  have htail : a.block.status.tail_ = b.block.status.tail_ := ha.tail.trans hb.tail.symm
  by_cases hall : ∀ ok ∈ a.oks, ok = true
  · obtain ⟨hdata, hunread, hhead⟩ := ha.published hall
    obtain ⟨hdata', hunread', hhead'⟩ := hb.published (hiff.1 hall)
    refine ⟨hiff, fun _ => ?_, UInt64.toNat_inj.1 ?_, htail, ?_⟩
    · rw [hdata, hdata', htotal]
    · rw [hhead, hhead', htotal]
    · rw [hunread, hunread', htotal]
  · obtain ⟨hunread, hhead⟩ := ha.kept (false_mem_of_not_forall hall)
    obtain ⟨hunread', hhead'⟩ := hb.kept (false_mem_of_not_forall fun hb => hall (hiff.2 hb))
    exact ⟨hiff, fun h => absurd h hall, hhead.trans hhead'.symm, htail,
      hunread.trans hunread'.symm⟩

end Agrees

/-! ## Reachable states -/

namespace Indices

variable {w : World} {queue : BaseTxQueue}

/-- The published indices of a reachable state. -/
theorem spans (hi : Indices cap w) : w.state.block.Spans cap w.log.head w.log.tail :=
  ⟨hi.heads.latest, hi.tails.latest, hi.head_le_tail, hi.tail_le⟩

/-- A write transaction opened with any head that a load may return is ready. -/
theorem ready_write {head : UInt64} (hi : Indices queue.capacity_ w)
    (hside : w.state.producer = .idle queue) (hok : queue.isOk)
    (hhead : w.state.up.MayLoad head) :
    (TxWrite.construct queue w.state.block.status.tail_ head).Ready queue.capacity_
      w.state.block w.log.tail w.log.head := by
  have hspace := hi.space
  have hproducer := hi.producer
  simp only [hside, Producer.pending, Producer.Placed, World.seenHead] at hspace hproducer
  have hlocal : w.log.localTail = w.log.tail := by simp [History.localTail, hproducer.2]
  obtain ⟨k, hk, hle, rfl⟩ := hhead
  have hmono := boundary_mono w.log.consumed hle
  refine ⟨by simpa [TxWrite.construct] using hok, ⟨boundary w.log.consumed k, boundary_le _ _, ?_,
    rfl, rfl, hi.spans.tail, hi.heads.value k hk⟩, hi.spans.head, hi.head_le_tail⟩
  omega

/-- A read transaction opened with any tail that a load may return is ready. -/
theorem ready_read {tail : UInt64} (hi : Indices queue.capacity_ w)
    (hside : w.state.consumer = .idle queue) (hok : queue.isOk)
    (htail : w.state.down.MayLoad tail) :
    (TxRead.construct queue w.state.block.status.head_ tail).Ready queue.capacity_
      w.state.block w.log.head w.log.tail := by
  have hdata := hi.data
  have hconsumer := hi.consumer
  simp only [hside, Consumer.pending, Consumer.Placed, World.seenTail] at hdata hconsumer
  have hlocal : w.log.localHead = w.log.head := by simp [History.localHead, hconsumer.2]
  obtain ⟨k, hk, hle, rfl⟩ := htail
  have hmono := boundary_mono w.log.written hle
  refine ⟨by simpa [TxRead.construct] using hok, ⟨boundary w.log.written k, boundary_le _ _, ?_,
    rfl, rfl, hi.spans.head, hi.tails.value k hk⟩, hi.spans.tail, hi.tail_le⟩
  omega

end Indices

/-- Between the published indices the ring holds the stream. -/
theorem Contents.ringBytes_unread {cap : UInt64} {w : World} {p n : ℕ} (hi : Contents cap w)
    (hindices : Indices cap w) (hhead : w.log.head ≤ p) (htail : p + n ≤ w.log.tail) :
    ringBytes cap w.state.content p n = (w.log.stream.drop p).take n := by
  have hlen : w.log.stream.length = w.log.tail := rfl
  refine List.ext_getElem (by simp [ringBytes, hlen]; omega) ?_
  intro i hleft hright
  have hlt : i < n := by simpa [ringBytes] using hleft
  have hb : w.log.stream[p + i]? = some w.log.stream[p + i] := List.getElem?_eq_getElem (by omega)
  simp [ringBytes, hi.content_unread hindices (by omega) hb]

/-- The unread bytes of a queue are the stream from the published head on. -/
theorem Invariant.unread_eq {cap : UInt64} {w : World} (hcap : IsPowTwo cap)
    (hi : Invariant cap w) : w.state.block.unread cap = w.log.stream.drop w.log.head := by
  have horder := hi.indices.head_le_tail
  have hring := hi.contents.ringBytes_unread hi.indices le_rfl (Nat.add_sub_cancel' horder).le
  rw [hi.indices.spans.unread_eq hcap]
  refine hring.trans (List.take_of_length_le ?_)
  rw [List.length_drop]
  exact le_rfl

/-- In every reachable state, a write transaction opened with any head that a load may return takes
exactly what fits into the free slots and publishes the concatenation of its buffers or nothing, so
that the division into calls does not matter and `capacity()` bytes fit into an empty queue. A read
transaction gets exactly the unread bytes, in the same way. -/
theorem capacity_law (queue : RingQueue) (hok : queue.isOk) {start w : World}
    {ts : List (Transition World Event)}
    (hstart : (worldLts queue.toBaseTxQueue .everyLoad).initial start)
    (hrun : Run (worldLts queue.toBaseTxQueue .everyLoad) start ts w) :
    (w.state.producer = .idle queue.toBaseTxQueue → ∀ head cores ps, w.state.up.MayLoad head →
      (writeTransaction queue.toBaseTxQueue w.state.block head cores ps).Lawful queue.capacity_
        w.state.block ps ∧
      (∀ head' cores' ps', w.state.up.MayLoad head' → concatenation ps = concatenation ps' →
        (writeTransaction queue.toBaseTxQueue w.state.block head cores ps).Agrees
          (writeTransaction queue.toBaseTxQueue w.state.block head' cores' ps') queue.capacity_) ∧
      (w.state.block.status.head_ = w.state.block.status.tail_ →
        ((∀ ok ∈ (writeTransaction queue.toBaseTxQueue w.state.block head cores ps).oks,
          ok = true) ↔ totalSize ps ≤ queue.capacity.toNat))) ∧
    (w.state.consumer = .idle queue.toBaseTxQueue → ∀ tail cores ps, w.state.down.MayLoad tail →
      (readTransaction queue.toBaseTxQueue w.state.block tail cores ps).Lawful queue.capacity_
        w.state.block ps ∧
      (∀ tail' cores' ps', w.state.down.MayLoad tail' → totalSize ps = totalSize ps' →
        (readTransaction queue.toBaseTxQueue w.state.block tail cores ps).Agrees
          (readTransaction queue.toBaseTxQueue w.state.block tail' cores' ps')
          queue.capacity_)) := by
  have hcap := queue.isPowTwo
  have hi := (Invariant.of_run hstart hrun).indices
  have hspans := hi.spans
  constructor
  · intro hside head cores ps hhead
    have hlaw := (hi.ready_write hside hok hhead).lawful hspans hcap cores ps
    refine ⟨hlaw, ?_, ?_⟩
    · intro head' cores' ps' hhead' hps
      exact hlaw.agrees ((hi.ready_write hside hok hhead').lawful hspans hcap cores' ps') hps
    · intro hempty
      have hused : w.state.block.used queue.capacity_ = 0 := by
        have hlt := hspans.head ▸ Nat.mod_lt w.log.head hcap.pos
        rw [Block.used, filledSlots, ← hempty,
          show ∀ a c : ℕ, a ≤ c → a + (c - a) = c by omega, Nat.mod_self]
        exact hlt.le
      have hcapacity : queue.capacity.toNat = queue.capacity_.toNat - 1 := sub_one_toNat hcap.pos
      have hfit := forall_ok_iff hlaw.length hlaw.returns
      rwa [hused, Nat.sub_zero, ← hcapacity] at hfit
  · intro hside tail cores ps htail
    have hlaw := (hi.ready_read hside hok htail).lawful hspans hcap cores ps
    refine ⟨hlaw, ?_⟩
    intro tail' cores' ps' htail' hps
    exact hlaw.agrees ((hi.ready_read hside hok htail').lawful hspans hcap cores' ps') hps

/-- `capacity_law` on a fresh queue of four slots, which three single bytes fill. -/
theorem three_bytes_fit :
    (writeTransaction smallQueue.toBaseTxQueue (freshWorld smallQueue.toBaseTxQueue).state.block 0
      (fun _ => 0) [.ofList [1], .ofList [2], .ofList [3]]).oks.all id = true :=
  List.all_eq_true.2 ((((capacity_law smallQueue rfl (freshWorld_initial _ _) .nil).1 rfl 0 _ _
    (Channel.mayLoad_latest _)).2.2 rfl).2 (by decide))

end TxQueue
