import TxQueue.Concurrent.Fifo
import TxQueue.QueueMp

/-!
# Death and re-attachment of the processes

A process that dies loses its open transaction and with it its local index; what it has published
stays. The constructor of a new process leaves both indices alone, so that it goes on from the last
commit of its predecessor, and the three invariants survive.
-/

namespace TxQueue

open Library

/-- The steps of two processes on one block of `size` bytes. Besides using its queue, a process may
die at any time, also in the middle of a `memcpy` of which then only some bytes are stored; and a
new process may take over a dead side by constructing `tx_queue_mp_t` on the block, wherever it has
mapped it. -/
inductive ProcessStep (size : UInt64) : System → Event → System → Prop where
  | use {s s' : System} {e : Event} (hstep : Step .everyLoad s e s') : ProcessStep size s e s'
  | killProducer {s : System} (torn : List (ℕ × UInt8)) (htorn : torn ⊆ s.producer.nextStores) :
      ProcessStep size s .killProducer
        { s with
          down := s.down.send torn
          producer := .detached }
  | attachProducer {s : System} (address : UInt64) (haddress : ValidAddress address)
      (hside : s.producer = .detached) :
      ProcessStep size s .attachProducer
        { s with
          up := s.up.acquireIf true s.up.last s.up.last_lt
          producerCore_ := s.status.construct.producerCore_
          consumerCore_ := s.status.construct.consumerCore_
          producer := .idle (txQueueMp address size) }
  | killConsumer {s : System} : ProcessStep size s .killConsumer { s with consumer := .detached }
  | attachConsumer {s : System} (address : UInt64) (haddress : ValidAddress address)
      (hside : s.consumer = .detached) :
      ProcessStep size s .attachConsumer
        { s with
          down := s.down.acquireIf true s.down.last s.down.last_lt
          producerCore_ := s.status.construct.producerCore_
          consumerCore_ := s.status.construct.consumerCore_
          consumer := .idle (txQueueMp address size) }

/-- A zero-initialised block to which no process is attached. -/
def System.zeroed : System where
  base := fun _ => 0
  down := .init 0
  up := .init 0
  producerCore_ := 0
  consumerCore_ := 0
  producer := .detached
  consumer := .detached

/-- The processes on one block of `size` bytes, with the history of all their incarnations. -/
abbrev processLts (size : UInt64) : Lts World Event :=
  Lts.observe { initial := fun s => s = System.zeroed, step := ProcessStep size } History.record {}

variable {cap size : UInt64} {s s' : System} {h : History} {e : Event}

/-- Every step keeps the index invariant. A new process has observed the last published index. -/
theorem Indices.processStep (hsize : ValidSize size) (hcap : cap = size - sizeofTxQueueStatus)
    (hi : Indices cap ⟨s, h⟩) (hstep : ProcessStep size s e s') :
    Indices cap ⟨s', h.record e⟩ := by
  have hspace := hi.space
  have hdata := hi.data
  have hproducer := hi.producer
  have hconsumer := hi.consumer
  have hlocalTail : h.localTail = h.tail + h.writing.length := rfl
  have hlocalHead : h.localHead = h.head + h.reading.length := rfl
  cases hstep with
  | use hstep => exact hi.step (hcap ▸ hsize.isPowTwo) hstep
  | killProducer torn htorn =>
      refine ⟨hi.tails, hi.heads, ?_, hi.data, rfl, hi.consumer⟩
      show h.tail + 0 + 0 ≤ World.seenHead ⟨s, h⟩ + (cap.toNat - 1)
      simp only at hspace
      omega
  | attachProducer address haddress hside =>
      have hlast : s.up.observed ≤ s.up.last := Nat.le_sub_one_of_lt s.up.observed_lt
      have hmono := boundary_mono h.consumed hlast
      simp only [hside, Producer.pending, Producer.Placed] at hspace hproducer
      refine ⟨hi.tails, hi.heads, ?_, hi.data, ⟨?_, hproducer⟩, hi.consumer⟩
      · show h.localTail + 0 ≤ boundary h.consumed s.up.last + (cap.toNat - 1)
        unfold World.seenHead at hspace
        simp only at hspace
        omega
      · rw [txQueueMp_eq haddress hsize, hcap]
  | killConsumer =>
      refine ⟨hi.tails, hi.heads, hi.space, ?_, hi.producer, rfl⟩
      show h.head + 0 + 0 ≤ World.seenTail ⟨s, h⟩
      simp only at hdata
      omega
  | attachConsumer address haddress hside =>
      have hlast : s.down.observed ≤ s.down.last := Nat.le_sub_one_of_lt s.down.observed_lt
      have hmono := boundary_mono h.written hlast
      simp only [hside, Consumer.pending, Consumer.Placed] at hdata hconsumer
      refine ⟨hi.tails, hi.heads, hi.space, ?_, hi.producer, ?_, hconsumer⟩
      · show h.localHead + 0 ≤ boundary h.written s.down.last
        unfold World.seenTail at hdata
        simp only at hdata
        omega
      · rw [txQueueMp_eq haddress hsize, hcap]

/-- Every step keeps the content invariant. The stores of a torn `memcpy` are past the published
tail, like those of a complete one. -/
theorem Contents.processStep (hcap : IsPowTwo cap) (hindices : Indices cap ⟨s, h⟩)
    (hi : Contents cap ⟨s, h⟩) (hstep : ProcessStep size s e s') :
    Contents cap ⟨s', h.record e⟩ := by
  cases hstep with
  | use hstep => exact hi.step hcap hindices hstep
  | killProducer torn htorn =>
      refine ⟨?_, fun i b hb => by simp [History.record] at hb, trivial⟩
      intro k hk p b hhead hp hb
      change h.head ≤ p at hhead
      refine (hi.committed k hk p b hhead hp hb).append
        (s.down.count_le _ (List.getElem_mem hk)) ?_
      intro x hx
      obtain ⟨q, hq, hlt, hslot⟩ := hi.slot_of_mem_nextStores hindices (htorn hx)
      change h.localTail ≤ q at hq
      change q < h.head + cap.toNat at hlt
      have hbelow : p < h.tail := hp.trans_le (boundary_le _ _)
      have hlocal : h.localTail = h.tail + h.writing.length := rfl
      rw [hslot]
      exact (mod_ne_mod (by omega) (by omega)).symm
  | attachProducer => exact ⟨hi.committed, hi.writing, trivial⟩
  | killConsumer => exact ⟨hi.committed, hi.writing, hi.copied⟩
  | attachConsumer => exact ⟨hi.committed, hi.writing, hi.copied⟩

/-- Every step keeps the read invariant. -/
theorem Reads.processStep (hcap : IsPowTwo cap) (hindices : Indices cap ⟨s, h⟩)
    (hcontents : Contents cap ⟨s, h⟩) (hi : Reads cap ⟨s, h⟩) (hstep : ProcessStep size s e s') :
    Reads cap ⟨s', h.record e⟩ := by
  cases hstep with
  | use hstep => exact hi.step hcap hindices hcontents hindices.covered hstep
  | killProducer => exact ⟨hi.read, hi.copied⟩
  | attachProducer => exact ⟨hi.read, hi.copied⟩
  | killConsumer =>
      have hread : h.consumed.flatten ++ h.reading <+: h.stream := hi.read
      refine ⟨?_, trivial⟩
      simpa [History.record, History.stream] using (List.prefix_append _ _).trans hread
  | attachConsumer => exact ⟨hi.read, trivial⟩

/-- The invariants hold on a zeroed block. -/
theorem Invariant.zeroed : Invariant cap ⟨System.zeroed, {}⟩ where
  indices := ⟨.init, .init,
    by simp [System.zeroed, Producer.pending, History.localTail, History.tail],
    by simp [System.zeroed, Consumer.pending, History.localHead, History.head], rfl, rfl⟩
  contents := ⟨fun k hk p b _ hp => by simp [boundary] at hp, fun i b hb => by simp at hb, trivial⟩
  reads := ⟨by simp, trivial⟩

/-- In every run in which the processes die and are replaced at any time, what the committed read
transactions of all consumer processes have read is a prefix of what the committed write
transactions of all producer processes have written. -/
theorem reattach (size : UInt64) (hsize : ValidSize size) {start w : World}
    {ts : List (Transition World Event)} (hstart : (processLts size).initial start)
    (hrun : Run (processLts size) start ts w) :
    w.log.consumed.flatten <+: w.log.written.flatten := by
  have hcap := hsize.isPowTwo
  have hi : Invariant (size - sizeofTxQueueStatus) w := by
    refine hrun.invariant ?_ ?_
    · obtain ⟨s, h⟩ := start
      obtain ⟨rfl, rfl⟩ := hstart
      exact .zeroed
    · rintro ⟨s, h⟩ e ⟨s', h'⟩ hi ⟨hstep, rfl⟩
      exact ⟨hi.indices.processStep hsize rfl hstep,
        hi.contents.processStep hcap hi.indices hstep,
        hi.reads.processStep hcap hi.indices hi.contents hstep⟩
  exact hi.consumed_isPrefix

/-- `reattach` on a run in which the first producer dies in the middle of a `memcpy` and the second
commits. -/
theorem reattach_torn_copy : ∃ ts w, Run (processLts 132) ⟨System.zeroed, {}⟩ ts w ∧
    w.log.consumed = [[8]] ∧ w.log.consumed.flatten <+: w.log.written.flatten := by
  have hsize : ValidSize 132 := ⟨2, rfl⟩
  have haddress : ValidAddress 4096 := ⟨by decide, by decide⟩
  have h0 : Run (processLts 132) ⟨System.zeroed, {}⟩ [] _ := .nil
  have h1 := h0.andThen (.attachProducer 4096 haddress rfl)
  have h2 := h1.andThen (.use (.openWrite 0 (by decide) (by decide) rfl))
  have h3 := h2.andThen (.use (.beginWrite (fun _ => 7) 2 0 (by decide) (by decide) rfl rfl))
  have h4 := h3.andThen (.killProducer [(1, 7)] (by decide))
  have h5 := h4.andThen (.attachConsumer 4096 haddress rfl)
  have h6 := h5.andThen (.attachProducer 8192 ⟨by decide, by decide⟩ rfl)
  have h7 := h6.andThen (.use (.openWrite 0 (by decide) (by decide) rfl))
  have h8 := h7.andThen (.use (.beginWrite (fun _ => 8) 1 0 (by decide) (by decide) rfl rfl))
  have h9 := h8.andThen (.use (.wrote rfl))
  have h10 := h9.andThen (.use (.closeWrite rfl))
  have h11 := h10.andThen (.use (.openRead 1 (by decide) (by decide) rfl))
  have h12 := h11.andThen (.use (.beginRead (fun _ => 0) 1 1 (by decide) (by decide) rfl rfl))
  have h13 := h12.andThen (.use (.read rfl (Channel.sees_image _ _ _)))
  have h14 := h13.andThen (.use (.closeRead rfl))
  exact ⟨_, _, h14, by decide +kernel, reattach 132 hsize ⟨rfl, rfl⟩ h14⟩

end TxQueue
