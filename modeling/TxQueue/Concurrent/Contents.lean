import TxQueue.Concurrent.Indices

/-!
# The content of the ring

Between the published head and every tail value published so far, the ring holds the stream of
committed bytes, and each of these bytes has been in place since before the tail that covers it was
stored. Past the published tail it holds the bytes of the open write transaction. The producer
keeps this: by the index invariant it stores only to slots of positions less than a lap past the
published head, and these differ from the slots of all unread positions.
-/

namespace TxQueue

open Library

/-- What the ring holds after all stores so far: the producer's own view of it. -/
def System.content (s : System) : ℕ → UInt8 := image s.base s.down.data

/-- An `imp_write` in progress at position `q` has stored the first bytes of its buffer and has the
copies of the others still to make. -/
def Producer.Copied (cap : UInt64) (content : ℕ → UInt8) (q : ℕ) : Producer → Prop
  | .copying _ buffer size rest =>
      ∃ n ≤ size.toNat,
        rest.flatMap Memcpy.pairs = (slotPairs cap.toNat q size.toNat).drop n ∧
        ∀ i < n, content ((q + i) % cap.toNat) = buffer i
  | _ => True

/-- The byte stores of the next `memcpy`. -/
def Producer.nextStores : Producer → List (ℕ × UInt8)
  | .copying _ buffer _ (c :: _) => c.stores buffer
  | _ => []

/-- The content invariant. -/
structure Contents (cap : UInt64) (w : World) : Prop where
  committed : ∀ k (hk : k < w.state.down.releases.length) p b, w.log.head ≤ p →
    p < boundary w.log.written k → w.log.stream[p]? = some b →
    Settled w.state.base w.state.down.data w.state.down.releases[k].count (p % cap.toNat) b
  writing : ∀ i b, w.log.writing[i]? = some b →
    w.state.content ((w.log.tail + i) % cap.toNat) = b
  copied : w.state.producer.Copied cap w.state.content w.log.localTail

namespace Contents

variable {cap : UInt64} {vis : Visibility} {s s' : System} {h : History} {e : Event}

/-- A fresh queue satisfies the content invariant. -/
theorem of_fresh {queue : BaseTxQueue} (hs : s.IsFresh queue) :
    Contents queue.capacity_ ⟨s, {}⟩ where
  committed k hk p b _ hp := by simp [boundary] at hp
  writing i b hb := by simp at hb
  copied := by simp [hs.producer, Producer.Copied]

/-- The unread bytes are in the ring. -/
theorem content_unread {w : World} (hi : Contents cap w) (hindices : Indices cap w) {p : ℕ}
    {b : UInt8} (hhead : w.log.head ≤ p) (hb : w.log.stream[p]? = some b) :
    w.state.content (p % cap.toNat) = b := by
  have hp : p < w.log.tail := (List.getElem?_eq_some_iff.1 hb).1
  have hlen := hindices.tails.length
  have hk : w.log.written.length < w.state.down.releases.length := by omega
  have hbound : p < boundary w.log.written w.log.written.length := by rwa [boundary_length]
  refine (hi.committed _ hk p b hhead hbound hb).image_eq ?_
  exact w.state.down.count_le _ (List.getElem_mem hk)

/-- The next copy of an `imp_write` in progress stores to slots of positions past the local tail and
less than a lap past the published head. -/
theorem slot_of_mem_nextStores {w : World} (hi : Contents cap w) (hindices : Indices cap w)
    {x : ℕ × UInt8} (hx : x ∈ w.state.producer.nextStores) :
    ∃ p, w.log.localTail ≤ p ∧ p < w.log.head + cap.toNat ∧ x.1 = p % cap.toNat := by
  have hcopied := hi.copied
  have hspace := hindices.space
  have hpending := hindices.producer_pending_le
  have hseen := Indices.seenHead_le w
  cases hside : w.state.producer with
  | copying tx buffer size rest =>
      cases rest with
      | nil => simp [hside, Producer.nextStores] at hx
      | cons c rest =>
          simp only [hside, Producer.Copied, Producer.pending, Producer.nextStores] at *
          obtain ⟨n, hn, hpairs, -⟩ := hcopied
          obtain ⟨y, hy, rfl⟩ := List.mem_map.1 hx
          obtain ⟨i, hlt, rfl⟩ := exists_of_mem_pairs hpairs hy
          exact ⟨w.log.localTail + i, by omega, by omega, rfl⟩
  | detached | idle | live => simp [hside, Producer.nextStores] at hx

/-- The next copy of an `imp_write` in progress. Its stores go to the slots of consecutive
positions that the producer may use, so the bytes stored before stay. -/
theorem send {tx : TxWrite} {buffer : ℕ → UInt8} {size : UInt64} {c : Memcpy} {rest : List Memcpy}
    (hi : Contents cap ⟨s, h⟩) (hindices : Indices cap ⟨s, h⟩)
    (hside : s.producer = .copying tx buffer size (c :: rest)) :
    (∀ k (hk : k < s.down.releases.length) p b, h.head ≤ p → p < boundary h.written k →
      h.stream[p]? = some b →
      Settled s.base (s.down.data ++ c.stores buffer) s.down.releases[k].count
        (p % cap.toNat) b) ∧
    (∀ i b, h.writing[i]? = some b →
      image s.base (s.down.data ++ c.stores buffer) ((h.tail + i) % cap.toNat) = b) ∧
    ∃ n ≤ size.toNat,
      rest.flatMap Memcpy.pairs = (slotPairs cap.toNat h.localTail size.toNat).drop n ∧
      ∀ i < n, image s.base (s.down.data ++ c.stores buffer)
        ((h.localTail + i) % cap.toNat) = buffer i := by
  have hcopied := hi.copied
  have hspace := hindices.space
  have htail := hindices.head_le_tail
  have hseen := Indices.seenHead_le ⟨s, h⟩
  have hlocal : h.localTail = h.tail + h.writing.length := rfl
  simp only [hside, Producer.Copied, Producer.pending, List.flatMap_cons]
    at hcopied hspace htail hseen
  obtain ⟨n, hn, hpairs, hdone⟩ := hcopied
  obtain ⟨hc, hrest, hle⟩ := slotPairs_split hn hpairs
  -- every slot stored to belongs to a position that is not yet published
  have hslot : ∀ x ∈ c.stores buffer, ∃ i, n ≤ i ∧ i < size.toNat ∧
      x.1 = (h.localTail + i) % cap.toNat := by
    intro x hx
    obtain ⟨y, hy, rfl⟩ := List.mem_map.1 hx
    rw [hc] at hy
    obtain ⟨i, hi, rfl⟩ := List.mem_map.1 hy
    have := List.mem_range'_1.1 hi
    exact ⟨i, by omega, by omega, rfl⟩
  have hne : ∀ p, h.head ≤ p → p < h.localTail + n → ∀ x ∈ c.stores buffer,
      x.1 ≠ p % cap.toNat := by
    intro p hp hlt x hx
    obtain ⟨i, hni, hisize, hslot⟩ := hslot x hx
    rw [hslot]
    exact (mod_ne_mod (by omega) (by omega)).symm
  refine ⟨?_, ?_, n + c.pairs.length, hle, hrest, ?_⟩
  · intro k hk p b hhead hp hb
    have hbound := boundary_le h.written k
    refine (hi.committed k hk p b hhead hp hb).append ?_ (hne p hhead ?_)
    · exact s.down.count_le _ (List.getElem_mem hk)
    · unfold History.tail at hlocal
      omega
  · intro i b hb
    have hlt := (List.getElem?_eq_some_iff.1 hb).1
    rw [image_append, image_of_forall_ne (hne _ (by omega) (by omega))]
    exact hi.writing i b hb
  · intro i hin
    rw [image_append]
    by_cases hold : i < n
    · rw [image_of_forall_ne (hne _ (by omega) (by omega))]
      exact hdone i hold
    · have hstores : c.stores buffer = (List.range' n c.pairs.length).map
          fun j => ((h.localTail + j) % cap.toNat, buffer j) := by
        rw [Memcpy.stores, hc]
        simp
      rw [hstores]
      refine image_map (f := fun j => (h.localTail + j) % cap.toNat)
        (List.mem_range'_1.2 (by omega)) fun j hj heq => ?_
      have hj := List.mem_range'_1.1 hj
      rcases lt_trichotomy j i with hji | rfl | hij
      · exact absurd heq (mod_ne_mod (by omega) (by omega))
      · rfl
      · exact absurd heq (mod_ne_mod (by omega) (by omega)).symm

/-- When an `imp_write` has made its last copy, the ring holds its bytes behind those that the
transaction had written before. -/
theorem wrote {data : List UInt8} (hindices : Indices cap ⟨s, h⟩) (hi : Contents cap ⟨s, h⟩)
    (hstep : Step vis s (.wrote data) s') : Contents cap ⟨s', h.record (.wrote data)⟩ := by
  cases hstep with
  | @wrote tx buffer size c hside =>
      obtain ⟨hcommitted, hwriting, n, hn, hrest, hdone⟩ := hi.send hindices hside
      obtain rfl := eq_of_drop_slotPairs hn hrest
      refine ⟨hcommitted, ?_, trivial⟩
      intro i b hb
      change (h.writing ++ bytes buffer size)[i]? = some b at hb
      by_cases hold : i < h.writing.length
      · rw [List.getElem?_append_left hold] at hb
        exact hwriting i b hb
      · rw [List.getElem?_append_right (by omega)] at hb
        obtain ⟨hlt, rfl⟩ := getElem?_bytes.1 hb
        rw [← hdone _ hlt]
        show image _ _ ((h.tail + i) % cap.toNat) = _
        congr 2
        simp only [History.localTail]
        omega

/-- A commit publishes the bytes of the transaction, which are in the ring by then. -/
theorem closeWrite {published : Bool} (hindices : Indices cap ⟨s, h⟩) (hi : Contents cap ⟨s, h⟩)
    (hstep : Step vis s (.closeWrite published) s') :
    Contents cap ⟨s', h.record (.closeWrite published)⟩ := by
  cases hstep with
  | @closeWrite tx hside =>
      cases hinv : tx.invalidated_ with
      | true =>
          simp only [TxWrite.toBool, hinv, Bool.not_true, if_true]
          exact ⟨hi.committed, fun i b hb => by simp [History.record] at hb, trivial⟩
      | false =>
          simp only [TxWrite.toBool, hinv, Bool.not_false, Bool.false_eq_true, if_false]
          refine ⟨?_, fun i b hb => by simp [History.record] at hb, trivial⟩
          intro k hk p b hhead hp hb
          change h.head ≤ p at hhead
          change p < boundary (h.written ++ [h.writing]) k at hp
          change (h.written ++ [h.writing]).flatten[p]? = some b at hb
          rw [List.flatten_append] at hb
          by_cases hold : k < s.down.releases.length
          · rw [boundary_append (hindices.tails.le_length hold)] at hp
            have hlt := hp.trans_le (boundary_le h.written k)
            rw [List.getElem?_append_left hlt] at hb
            simpa [List.getElem_append_left hold] using hi.committed k hold p b hhead hp hb
          · obtain rfl : k = s.down.releases.length := by simp at hk; omega
            -- the new tail covers all stores so far, so it is enough that the ring holds `b` now
            have hnow : s.content (p % cap.toNat) = b := by
              by_cases hlt : p < h.written.flatten.length
              · rw [List.getElem?_append_left hlt] at hb
                exact hi.content_unread hindices hhead hb
              · rw [List.getElem?_append_right (by omega)] at hb
                have hopen := hi.writing (p - h.written.flatten.length) b (by simpa using hb)
                rwa [History.tail, Nat.add_sub_cancel' (Nat.le_of_not_lt hlt)] at hopen
            simpa using Settled.of_image hnow

/-- Every step keeps the content invariant. -/
theorem step (hcap : IsPowTwo cap) (hindices : Indices cap ⟨s, h⟩) (hi : Contents cap ⟨s, h⟩)
    (hstep : Step vis s e s') : Contents cap ⟨s', h.record e⟩ := by
  have hnext := hindices.step hcap hstep
  cases e with
  | beginWrite data =>
      cases hstep with
      | @beginWrite tx tx' buffer size k hle hlt hside hreserve =>
          have hsize : size.toNat ≤ cap.toNat - 1 := hnext.producer_pending_le
          have hpos := hcap.pos
          obtain ⟨hat, -⟩ : tx'.At cap _ h.localTail ∧ _ := hnext.producer
          refine ⟨hi.committed, hi.writing, 0, Nat.zero_le _, ?_, by simp⟩
          rw [hat.capacity, copies_pairs_of_pos hcap hat.tail (by omega)]
          rfl
  | copyIn =>
      cases hstep with
      | copyIn hside =>
          obtain ⟨hcommitted, hwriting, hcopied⟩ := hi.send hindices hside
          exact ⟨hcommitted, hwriting, hcopied⟩
  | wrote data => exact hi.wrote hindices hstep
  | closeWrite published => exact hi.closeWrite hindices hstep
  | closeRead published =>
      cases hstep with
      | @closeRead tx hside =>
          refine ⟨fun k hk p b hhead => hi.committed k hk p b ?_, hi.writing, hi.copied⟩
          refine le_trans ?_ hhead
          cases tx.toBool <;> simp [History.head, History.record]
  -- no other step stores to the ring or publishes an index
  | openWrite | refuseWrite | invalidateWrite =>
      cases hstep
      exact ⟨hi.committed, hi.writing, trivial⟩
  | openRead | beginRead | refuseRead | copyOut | read | invalidateRead =>
      cases hstep
      exact ⟨hi.committed, hi.writing, hi.copied⟩
  | killProducer | attachProducer | killConsumer | attachConsumer => cases hstep

end Contents

end TxQueue
