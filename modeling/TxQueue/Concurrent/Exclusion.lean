import TxQueue.Concurrent.Atomicity

/-!
# Nothing unread is overwritten

The producer's stores since its last commit lie between the published tail and one lap past the
published head, the consumer's reads between the published head and the published tail. One spare
slot keeps the two apart, also when the ring is full. An aborted read transaction therefore leaves
its bytes for the next one.
-/

namespace TxQueue

open Library

/-- The slots that the `imp_write` in progress stores to. -/
def Producer.slots : Producer → List ℕ
  | .copying tx _ size _ => ((copies tx.tail_ tx.capacity_ size).flatMap Memcpy.pairs).map Prod.fst
  | _ => []

/-- The slots that the `imp_read` in progress reads. -/
def Consumer.slots : Consumer → List ℕ
  | .copying tx _ size _ => ((copies tx.head_ tx.capacity_ size).flatMap Memcpy.pairs).map Prod.fst
  | _ => []

/-- The slots read since the last commit, and those of the `imp_read` in progress. -/
def System.Fetched (s : System) (a : ℕ) : Prop :=
  a ∈ s.up.unreleased ∨ a ∈ s.consumer.slots

/-- The positions behind the slots. The stores since the last commit are past the published tail
and less than a lap past the published head, and the reads since the last commit are in between. -/
structure Regions (cap : UInt64) (w : World) : Prop where
  stored : ∀ x ∈ w.state.down.unreleased, ∃ p, w.log.tail ≤ p ∧ p < w.log.head + cap.toNat ∧
    x.1 = p % cap.toNat
  fetched : ∀ a ∈ w.state.up.unreleased, ∃ p, w.log.head ≤ p ∧ p < w.log.tail ∧
    a = p % cap.toNat

namespace Regions

variable {cap : UInt64} {vis : Visibility} {s s' : System} {h : History} {e : Event}

/-- A fresh queue has no slots in use. -/
theorem of_fresh {queue : BaseTxQueue} (hs : s.IsFresh queue) :
    Regions queue.capacity_ ⟨s, {}⟩ where
  stored := by simp [hs.down]
  fetched := by simp [hs.up]

/-- The next copy of an `imp_write` in progress. -/
theorem send {tx : TxWrite} {buffer : ℕ → UInt8} {size : UInt64} {c : Memcpy} {rest : List Memcpy}
    (hi : Regions cap ⟨s, h⟩) (hindices : Indices cap ⟨s, h⟩) (hcontents : Contents cap ⟨s, h⟩)
    (hside : s.producer = .copying tx buffer size (c :: rest)) :
    ∀ x ∈ s.down.unreleased ++ c.stores buffer, ∃ p, h.tail ≤ p ∧ p < h.head + cap.toNat ∧
      x.1 = p % cap.toNat := by
  intro x hx
  rcases List.mem_append.1 hx with hx | hx
  · exact hi.stored x hx
  · have hnext : x ∈ s.producer.nextStores := by rwa [hside]
    obtain ⟨p, hp, hlt, hslot⟩ := hcontents.slot_of_mem_nextStores hindices hnext
    exact ⟨p, (Nat.le_add_right _ _).trans hp, hlt, hslot⟩

/-- The next copy of an `imp_read` in progress. -/
theorem fetch {tx : TxRead} {buffer : ℕ → UInt8} {size : UInt64} {c : Memcpy} {rest : List Memcpy}
    (hi : Regions cap ⟨s, h⟩) (hindices : Indices cap ⟨s, h⟩) (hreads : Reads cap ⟨s, h⟩)
    (hside : s.consumer = .copying tx buffer size (c :: rest)) :
    ∀ a ∈ s.up.unreleased ++ c.pairs.map Prod.fst, ∃ p, h.head ≤ p ∧ p < h.tail ∧
      a = p % cap.toNat := by
  have hcopied := hreads.copied
  have hdata := hindices.data
  have hseen := Indices.seenTail_le ⟨s, h⟩
  have hlocal : h.localHead = h.head + h.reading.length := rfl
  simp only [hside, Consumer.Copied, Consumer.pending] at hcopied hdata hseen
  intro x hx
  rcases List.mem_append.1 hx with hx | hx
  · exact hi.fetched x hx
  · obtain ⟨n, hn, hpairs, -⟩ := hcopied
    obtain ⟨y, hy, rfl⟩ := List.mem_map.1 hx
    obtain ⟨i, hlt, rfl⟩ := exists_of_mem_pairs hpairs hy
    exact ⟨h.localHead + i, by omega, by omega, rfl⟩

/-- Every step keeps the regions. -/
theorem step (hindices : Indices cap ⟨s, h⟩) (hcontents : Contents cap ⟨s, h⟩)
    (hreads : Reads cap ⟨s, h⟩) (hi : Regions cap ⟨s, h⟩) (hstep : Step vis s e s') :
    Regions cap ⟨s', h.record e⟩ := by
  cases hstep with
  | openWrite => exact ⟨hi.stored, hi.fetched⟩
  | beginWrite => exact ⟨hi.stored, hi.fetched⟩
  | refuseWrite => exact ⟨hi.stored, hi.fetched⟩
  | @copyIn tx buffer size c c' rest hside =>
      refine ⟨?_, hi.fetched⟩
      rw [Channel.unreleased_send]
      exact hi.send hindices hcontents hside
  | @wrote tx buffer size c hside =>
      refine ⟨?_, hi.fetched⟩
      rw [Channel.unreleased_send]
      exact hi.send hindices hcontents hside
  | invalidateWrite => exact ⟨hi.stored, hi.fetched⟩
  | @closeWrite tx hside =>
      cases hinv : tx.invalidated_ with
      | true =>
          simp only [TxWrite.toBool, hinv, Bool.not_true, if_true]
          exact ⟨hi.stored, hi.fetched⟩
      | false =>
          simp only [TxWrite.toBool, hinv, Bool.not_false, Bool.false_eq_true, if_false]
          refine ⟨by simp, ?_⟩
          intro a ha
          obtain ⟨p, hp, hlt, rfl⟩ := hi.fetched a ha
          refine ⟨p, hp, hlt.trans_le ?_, rfl⟩
          simp [History.tail, History.record]
  | openRead => exact ⟨hi.stored, hi.fetched⟩
  | beginRead => exact ⟨hi.stored, hi.fetched⟩
  | refuseRead => exact ⟨hi.stored, hi.fetched⟩
  | @copyOut tx buffer m size c c' rest hside =>
      refine ⟨hi.stored, ?_⟩
      rw [Channel.unreleased_send]
      exact hi.fetch hindices hreads hside
  | @read tx buffer m size c hside =>
      refine ⟨hi.stored, ?_⟩
      rw [Channel.unreleased_send]
      exact hi.fetch hindices hreads hside
  | invalidateRead => exact ⟨hi.stored, hi.fetched⟩
  | @closeRead tx hside =>
      cases hinv : tx.invalidated_ with
      | true =>
          simp only [TxRead.toBool, hinv, Bool.not_true, if_true]
          exact ⟨hi.stored, hi.fetched⟩
      | false =>
          simp only [TxRead.toBool, hinv, Bool.not_false, Bool.false_eq_true, if_false]
          refine ⟨?_, by simp⟩
          intro x hx
          obtain ⟨p, hp, hlt, hslot⟩ := hi.stored x hx
          refine ⟨p, hp, hlt.trans_le ?_, hslot⟩
          simp [History.head, History.record]

/-- The regions of every state of a run. -/
theorem of_run {queue : RingQueue} {start w : World} {ts : List (Transition World Event)}
    (hstart : (worldLts queue.toBaseTxQueue .everyLoad).initial start)
    (hrun : Run (worldLts queue.toBaseTxQueue .everyLoad) start ts w) :
    Regions queue.capacity_ w := by
  have hboth : Invariant queue.capacity_ w ∧ Regions queue.capacity_ w := by
    refine hrun.invariant (I := fun w => Invariant _ w ∧ Regions _ w) ?_ ?_
    · obtain ⟨s, h⟩ := start
      obtain ⟨hs, rfl⟩ := id hstart
      exact ⟨.of_initial hstart, .of_fresh hs⟩
    · rintro ⟨s, h⟩ e ⟨s', h'⟩ ⟨hi, hregions⟩ hstep
      refine ⟨hi.step hstep, ?_⟩
      obtain ⟨hs, rfl⟩ := hstep
      exact hregions.step hi.indices hi.contents hi.reads hs
  exact hboth.2

end Regions

/-! ## Aborted reads -/

/-- The published indices change at commits only. -/
theorem Step.latest_eq {vis : Visibility} {s s' : System} {e : Event} (hstep : Step vis s e s')
    (hwrite : e ≠ .closeWrite true) (hread : e ≠ .closeRead true) :
    s'.down.latest = s.down.latest ∧ s'.up.latest = s.up.latest := by
  cases hstep with
  | @closeWrite tx hside =>
      have hinv : tx.invalidated_ = true := by simpa [TxWrite.toBool] using hwrite
      simp [hinv]
  | @closeRead tx hside =>
      have hinv : tx.invalidated_ = true := by simpa [TxRead.toBool] using hread
      simp [hinv]
  | _ => exact ⟨rfl, rfl⟩

/-- What the world `w` keeps of `w₀` until the consumer commits. -/
structure World.Retains (w₀ w : World) : Prop where
  consumed : w.log.consumed = w₀.log.consumed
  stream : w₀.log.stream <+: w.log.stream
  seenTail : w₀.seenTail ≤ w.seenTail

namespace World.Retains

variable {cap : UInt64} {vis : Visibility} {w₀ : World} {s s' : System} {h : History} {e : Event}

theorem refl (w : World) : w.Retains w := ⟨rfl, List.prefix_rfl, le_rfl⟩

/-- Every step but a commit of the consumer keeps the head, adds to the stream and observes the
same tail or a later one. -/
theorem step (hr : w₀.Retains ⟨s, h⟩) (hi : Indices cap ⟨s, h⟩) (he : e ≠ .closeRead true)
    (hstep : Step vis s e s') : w₀.Retains ⟨s', h.record e⟩ := by
  obtain ⟨hconsumed, hstream, hseen⟩ := hr
  unfold World.seenTail at hseen
  cases hstep with
  | @closeWrite tx hside =>
      cases hinv : tx.invalidated_ with
      | true =>
          simp only [TxWrite.toBool, hinv, Bool.not_true, if_true]
          exact ⟨hconsumed, hstream, hseen⟩
      | false =>
          simp only [TxWrite.toBool, hinv, Bool.not_false, Bool.false_eq_true, if_false]
          refine ⟨hconsumed, hstream.trans ?_, hseen.trans ?_⟩
          · simp [History.stream, History.record]
          · show _ ≤ boundary (h.written ++ [h.writing]) s.down.observed
            rw [boundary_append (hi.tails.le_length s.down.observed_lt)]
  | openRead k hle => exact ⟨hconsumed, hstream, hseen.trans (boundary_mono _ hle)⟩
  | beginRead buffer size k hle =>
      exact ⟨hconsumed, hstream, hseen.trans (boundary_mono _ (le_ite _ hle))⟩
  | refuseRead size k core hle =>
      exact ⟨hconsumed, hstream, hseen.trans (boundary_mono _ (le_ite _ hle))⟩
  | @closeRead tx hside =>
      have hinv : tx.toBool = false := by simpa using he
      rw [hinv]
      exact ⟨hconsumed, hstream, hseen⟩
  | _ => exact ⟨hconsumed, hstream, hseen⟩

/-- A run without a commit of the consumer. -/
theorem of_run {queue : RingQueue} {w : World} {ts : List (Transition World Event)}
    (hi : Invariant queue.capacity_ w₀)
    (hrun : Run (worldLts queue.toBaseTxQueue .everyLoad) w₀ ts w)
    (hevents : ∀ t ∈ ts, t.event ≠ .closeRead true) :
    Invariant queue.capacity_ w ∧ w₀.Retains w := by
  refine hrun.invariant_of_events (I := fun w => Invariant _ w ∧ w₀.Retains w)
    (P := fun e => e ≠ .closeRead true) ⟨hi, refl w₀⟩ hevents ?_
  rintro ⟨s, h⟩ e ⟨s', h'⟩ he ⟨hi, hr⟩ hstep
  refine ⟨hi.step hstep, ?_⟩
  obtain ⟨hs, rfl⟩ := hstep
  exact hr.step hi.indices he hs

end World.Retains

section Exclusion

variable {queue : RingQueue} {start w : World} {ts : List (Transition World Event)}

end Exclusion

end TxQueue
