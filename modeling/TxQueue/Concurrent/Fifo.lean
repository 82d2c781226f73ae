import TxQueue.Concurrent.Contents

/-!
# First in, first out, exactly once

With the bytes below an observed index visible, an `imp_read` in progress collects the stream of
committed bytes from the consumer's local position on. `fifo` follows: every successful
`imp_read` returns the bytes at the consumer's stream position, and the committed read
transactions together are a prefix of the committed write transactions.
-/

namespace TxQueue

open Library

/-- An `imp_read` in progress at position `p` has copied the first bytes of its request and has
the copies of the others still to make. -/
def Consumer.Copied (cap : UInt64) (stream : List UInt8) (p : ℕ) : Consumer → Prop
  | .copying _ buffer size rest =>
      ∃ n ≤ size.toNat,
        rest.flatMap Memcpy.pairs = (slotPairs cap.toNat p size.toNat).drop n ∧
        ∀ i < n, stream[p + i]? = some (buffer i)
  | _ => True

/-- Every byte that the `imp_read` in progress copies is below a tail whose data is visible. -/
def World.Covered (vis : Visibility) (w : World) : Prop :=
  ∀ i < w.state.consumer.pending,
    w.log.localHead + i < boundary w.log.written (w.state.down.place vis)

/-- When each load brings the data below it along, the observed tail is enough. -/
theorem Indices.covered {cap : UInt64} {w : World} (hi : Indices cap w) : w.Covered .everyLoad := by
  intro i hlt
  have hdata := hi.data
  show _ < w.seenTail
  omega

/-- What the consumer has read is a prefix of the stream. -/
structure Reads (cap : UInt64) (w : World) : Prop where
  read : w.log.consumed.flatten ++ w.log.reading <+: w.log.stream
  copied : w.state.consumer.Copied cap w.log.stream w.log.localHead

/-- Bytes that match a stream at the end of a prefix extend the prefix. -/
theorem append_bytes_isPrefix {xs stream : List UInt8} {buffer : ℕ → UInt8} {size : UInt64}
    (hxs : xs <+: stream) (h : ∀ i < size.toNat, stream[xs.length + i]? = some (buffer i)) :
    xs ++ bytes buffer size <+: stream := by
  obtain ⟨ys, rfl⟩ := hxs
  refine (List.prefix_append_right_inj xs).2 (List.prefix_iff_getElem?.2 ?_)
  intro i hi
  have hi' : i < size.toNat := by simpa using hi
  have hget := h i hi'
  rw [List.getElem?_append_right (by omega), Nat.add_sub_cancel_left] at hget
  simp [hget, bytes]

/-- Later commits do not change what an `imp_read` in progress has copied. -/
theorem Consumer.Copied.mono {cap : UInt64} {stream stream' : List UInt8} {p : ℕ}
    {consumer : Consumer} (h : consumer.Copied cap stream p) (hpre : stream <+: stream') :
    consumer.Copied cap stream' p := by
  cases consumer with
  | copying tx buffer size rest =>
      obtain ⟨n, hn, hrest, hdone⟩ := h
      obtain ⟨later, rfl⟩ := hpre
      refine ⟨n, hn, hrest, ?_⟩
      intro i hi
      have hget := hdone i hi
      rwa [List.getElem?_append_left (List.getElem?_eq_some_iff.1 hget).1]
  | detached | idle | live => trivial

namespace Reads

variable {cap : UInt64} {vis : Visibility} {s s' : System} {h : History} {e : Event}

/-- A fresh queue satisfies the read invariant. -/
theorem of_fresh {queue : BaseTxQueue} (hs : s.IsFresh queue) :
    Reads queue.capacity_ ⟨s, {}⟩ where
  read := by simp
  copied := by simp [hs.consumer, Consumer.Copied]

/-- The next copy of an `imp_read` in progress brings bytes of the stream: the positions it covers
are below a tail whose data is visible, so their bytes are settled and visible. -/
theorem copy {tx : TxRead} {buffer m : ℕ → UInt8} {size : UInt64} {c : Memcpy}
    {rest : List Memcpy} (hi : Reads cap ⟨s, h⟩) (hcontents : Contents cap ⟨s, h⟩)
    (hside : s.consumer = .copying tx buffer size (c :: rest))
    (hcovered : World.Covered vis ⟨s, h⟩) (hsees : s.down.Sees s.base vis m) :
    ∃ n ≤ size.toNat,
      rest.flatMap Memcpy.pairs = (slotPairs cap.toNat h.localHead size.toNat).drop n ∧
      ∀ i < n, h.stream[h.localHead + i]? = some (c.copyOut m buffer i) := by
  have hcopied := hi.copied
  simp only [hside, Consumer.Copied, List.flatMap_cons] at hcopied
  obtain ⟨n, hn, hpairs, hdone⟩ := hcopied
  obtain ⟨hc, hrest, hle⟩ := slotPairs_split hn hpairs
  refine ⟨n + c.pairs.length, hle, hrest, ?_⟩
  intro i hin
  have hpairs : (c.pairs.map fun x => (x.2, m x.1)) = (List.range' n c.pairs.length).map
      fun j => (j, m ((h.localHead + j) % cap.toNat)) := by
    rw [hc]
    simp
  rw [c.copyOut_eq, hpairs]
  -- what earlier copies brought stays: this one goes to other offsets of the buffer
  by_cases hold : i < n
  · rw [image_of_forall_ne]
    · exact hdone i hold
    · intro x hx
      obtain ⟨j, hj, rfl⟩ := List.mem_map.1 hx
      have := List.mem_range'_1.1 hj
      show j ≠ i
      omega
  · rw [image_map (f := fun j => j) (g := fun j => m ((h.localHead + j) % cap.toNat))
      (List.mem_range'_1.2 (by omega)) fun j _ hj => by rw [hj]]
    -- the position is below a tail whose data is visible, so the slot is settled in this view
    have hbelow : h.localHead + i < boundary h.written (s.down.place vis) :=
      hcovered i (by simp only [hside, Consumer.pending]; omega)
    have hlt : h.localHead + i < h.stream.length := hbelow.trans_le (boundary_le _ _)
    obtain ⟨b, hb⟩ : ∃ b, h.stream[h.localHead + i]? = some b :=
      ⟨_, List.getElem?_eq_getElem hlt⟩
    have hhead : h.head ≤ h.localHead + i := by
      simp only [History.localHead]
      omega
    rw [hb, hsees.eq_of_settled
      (hcontents.committed _ (s.down.place_lt vis) _ b hhead hbelow hb) le_rfl]

/-- Every step keeps the read invariant. -/
theorem step (hcap : IsPowTwo cap) (hindices : Indices cap ⟨s, h⟩)
    (hcontents : Contents cap ⟨s, h⟩) (hcovered : World.Covered vis ⟨s, h⟩)
    (hi : Reads cap ⟨s, h⟩) (hstep : Step vis s e s') : Reads cap ⟨s', h.record e⟩ := by
  have hnext := hindices.step hcap hstep
  cases hstep with
  | openWrite => exact ⟨hi.read, hi.copied⟩
  | beginWrite => exact ⟨hi.read, hi.copied⟩
  | refuseWrite => exact ⟨hi.read, hi.copied⟩
  | copyIn => exact ⟨hi.read, hi.copied⟩
  | wrote => exact ⟨hi.read, hi.copied⟩
  | invalidateWrite => exact ⟨hi.read, hi.copied⟩
  | @closeWrite tx hside =>
      have hgrow : h.stream <+: (h.record (.closeWrite tx.toBool)).stream := by
        cases tx.toBool <;> simp [History.stream, History.record]
      exact ⟨hi.read.trans hgrow, hi.copied.mono hgrow⟩
  | openRead => exact ⟨hi.read, trivial⟩
  | @beginRead tx tx' buffer size k hle hlt hside hreserve =>
      have hsize : size.toNat ≤ cap.toNat - 1 := hnext.consumer_pending_le
      have hpos := hcap.pos
      obtain ⟨hat, -⟩ : tx'.At cap h.localHead _ ∧ _ := hnext.consumer
      refine ⟨hi.read, 0, Nat.zero_le _, ?_, by simp⟩
      rw [hat.capacity, copies_pairs_of_pos hcap hat.head (by omega)]
      rfl
  | refuseRead => exact ⟨hi.read, trivial⟩
  | @copyOut tx buffer m size c c' rest hside hsees =>
      exact ⟨hi.read, hi.copy hcontents hside hcovered hsees⟩
  | @read tx buffer m size c hside hsees =>
      obtain ⟨n, hn, hrest, hdone⟩ := hi.copy hcontents hside hcovered hsees
      obtain rfl := eq_of_drop_slotPairs hn hrest
      refine ⟨?_, trivial⟩
      show h.consumed.flatten ++ (h.reading ++ bytes _ size) <+: h.stream
      rw [← List.append_assoc]
      refine append_bytes_isPrefix hi.read ?_
      intro i hlt
      simpa [History.localHead, History.head] using hdone i hlt
  | invalidateRead => exact ⟨hi.read, trivial⟩
  | @closeRead tx hside =>
      have hread : h.consumed.flatten ++ h.reading <+: h.stream := hi.read
      refine ⟨?_, trivial⟩
      cases tx.toBool with
      | true => simpa [History.record, History.stream] using hread
      | false => simpa [History.record, History.stream] using (List.prefix_append _ _).trans hread

/-- A successful `imp_read` returns the next bytes of the stream. -/
theorem append_isPrefix {data : List UInt8} (hcap : IsPowTwo cap) (hindices : Indices cap ⟨s, h⟩)
    (hcontents : Contents cap ⟨s, h⟩) (hcovered : World.Covered vis ⟨s, h⟩)
    (hi : Reads cap ⟨s, h⟩) (hstep : Step vis s (.read data) s') :
    h.consumed.flatten ++ h.reading ++ data <+: h.stream := by
  have hread := (hi.step hcap hindices hcontents hcovered hstep).read
  rwa [List.append_assoc]

end Reads

/-- The three invariants together. -/
structure Invariant (cap : UInt64) (w : World) : Prop where
  indices : Indices cap w
  contents : Contents cap w
  reads : Reads cap w

namespace Invariant

variable {queue : RingQueue} {start w w' : World} {ts : List (Transition World Event)} {e : Event}

theorem of_initial {vis : Visibility} (hstart : (worldLts queue.toBaseTxQueue vis).initial start) :
    Invariant queue.capacity_ start := by
  obtain ⟨s, h⟩ := start
  obtain ⟨hs, rfl⟩ := hstart
  exact ⟨.of_fresh hs, .of_fresh hs, .of_fresh hs⟩

/-- Every step keeps the invariant, as long as what an `imp_read` copies is visible. -/
theorem step_of_covered {vis : Visibility} (hi : Invariant queue.capacity_ w)
    (hcovered : w.Covered vis) (hstep : (worldLts queue.toBaseTxQueue vis).step w e w') :
    Invariant queue.capacity_ w' := by
  obtain ⟨s', h'⟩ := w'
  obtain ⟨hs, rfl⟩ := hstep
  exact ⟨hi.indices.step queue.isPowTwo hs, hi.contents.step queue.isPowTwo hi.indices hs,
    hi.reads.step queue.isPowTwo hi.indices hi.contents hcovered hs⟩

theorem step (hi : Invariant queue.capacity_ w)
    (hstep : (worldLts queue.toBaseTxQueue .everyLoad).step w e w') :
    Invariant queue.capacity_ w' :=
  hi.step_of_covered hi.indices.covered hstep

theorem of_run (hstart : (worldLts queue.toBaseTxQueue .everyLoad).initial start)
    (hrun : Run (worldLts queue.toBaseTxQueue .everyLoad) start ts w) :
    Invariant queue.capacity_ w :=
  hrun.invariant (of_initial hstart) fun _ _ _ hi hstep => hi.step hstep

/-- A successful `imp_read` returns the bytes at the consumer's position in the stream. -/
theorem read_eq {vis : Visibility} {s' : System} {data : List UInt8}
    (hi : Invariant queue.capacity_ w) (hcovered : w.Covered vis)
    (hstep : Step vis w.state (.read data) s') :
    w.log.localHead + data.length ≤ w.log.written.flatten.length ∧
      data = (w.log.written.flatten.drop w.log.localHead).take data.length := by
  obtain ⟨later, hlater⟩ :=
    hi.reads.append_isPrefix queue.isPowTwo hi.indices hi.contents hcovered hstep
  have hlen : w.log.localHead = (w.log.consumed.flatten ++ w.log.reading).length := by
    simp [History.localHead, History.head]
  change _ = w.log.written.flatten at hlater
  rw [← hlater, hlen, List.append_assoc, List.drop_left, List.take_left]
  simp [Nat.add_assoc]

/-- What has been consumed is a prefix of what has been written. -/
theorem consumed_isPrefix {cap : UInt64} (hi : Invariant cap w) :
    w.log.consumed.flatten <+: w.log.written.flatten :=
  (List.prefix_append _ _).trans hi.reads.read

end Invariant

/-- In every run, a successful `imp_read` returns the bytes at the consumer's position in the
stream of the bytes committed so far, whether or not its transaction commits; and what the
committed read transactions have read is a prefix of what the committed write transactions have
written. -/
theorem fifo (queue : RingQueue) {start w : World} {ts : List (Transition World Event)}
    (hstart : (worldLts queue.toBaseTxQueue .everyLoad).initial start)
    (hrun : Run (worldLts queue.toBaseTxQueue .everyLoad) start ts w) :
    (∀ t ∈ ts, ∀ data, t.event = .read data →
      t.source.log.localHead + data.length ≤ t.source.log.written.flatten.length ∧
      data = (t.source.log.written.flatten.drop t.source.log.localHead).take data.length) ∧
    w.log.consumed.flatten <+: w.log.written.flatten := by
  refine ⟨?_, (Invariant.of_run hstart hrun).consumed_isPrefix⟩
  intro t ht data hdata
  obtain ⟨hi, ⟨hstep, -⟩, -⟩ := hrun.invariant_of_mem (Invariant.of_initial hstart)
    (fun _ _ _ hi hstep => hi.step hstep) t ht
  rw [hdata] at hstep
  exact hi.read_eq hi.indices.covered hstep

/-- A queue of four slots. -/
def smallQueue : RingQueue where
  storage_ := 64
  capacity_ := 4
  isPowTwo := ⟨2, rfl⟩

/-- A fresh world on a queue, with a ring of zeros. -/
def freshWorld (queue : BaseTxQueue) : World where
  state :=
    { base := fun _ => 0
      down := .init 0
      up := .init 0
      producerCore_ := -1
      consumerCore_ := -1
      producer := .idle queue
      consumer := .idle queue }
  log := {}

theorem freshWorld_initial (queue : BaseTxQueue) (vis : Visibility) :
    (worldLts queue vis).initial (freshWorld queue) :=
  ⟨⟨rfl, rfl, rfl, rfl⟩, rfl⟩

/-- Two bytes are committed, and the first of them is read. -/
theorem half_read_run : ∃ ts w tx,
    Run (worldLts smallQueue.toBaseTxQueue .everyLoad) (freshWorld smallQueue.toBaseTxQueue) ts w ∧
      w.log = { written := [[7, 7]], reading := [7] } ∧
      w.state.consumer = .live tx ∧ tx.toBool := by
  have h0 : Run (worldLts smallQueue.toBaseTxQueue .everyLoad)
    (freshWorld smallQueue.toBaseTxQueue) [] _ := .nil
  have h1 := h0.andThen (.openWrite 0 (by decide) (by decide) rfl)
  have h2 := h1.andThen (.beginWrite (fun _ => 7) 2 0 (by decide) (by decide) rfl rfl)
  have h3 := h2.andThen (.wrote rfl)
  have h4 := h3.andThen (.closeWrite rfl)
  have h5 := h4.andThen (.openRead 1 (by decide) (by decide) rfl)
  have h6 := h5.andThen (.beginRead (fun _ => 0) 1 1 (by decide) (by decide) rfl rfl)
  have h7 := h6.andThen (.read rfl (Channel.sees_image _ _ _))
  exact ⟨_, _, _, h7, rfl, rfl, rfl⟩

/-- `fifo` on a run that reads one byte and commits. -/
theorem fifo_one_byte : ∃ ts w,
    (worldLts smallQueue.toBaseTxQueue .everyLoad).initial
      (freshWorld smallQueue.toBaseTxQueue) ∧
    Run (worldLts smallQueue.toBaseTxQueue .everyLoad) (freshWorld smallQueue.toBaseTxQueue) ts w ∧
    w.log.consumed = [[7]] ∧ w.log.consumed.flatten <+: w.log.written.flatten := by
  obtain ⟨ts, w, tx, hrun, hlog, hside, hvalid⟩ := half_read_run
  have hstart := freshWorld_initial smallQueue.toBaseTxQueue .everyLoad
  have hnext := hrun.andThen (.closeRead hside)
  refine ⟨_, _, hstart, hnext, ?_, (fifo smallQueue hstart hnext).2⟩
  simp [History.record, hvalid, hlog]

end TxQueue
