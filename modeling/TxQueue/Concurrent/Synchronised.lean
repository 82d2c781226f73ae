import TxQueue.Concurrent.Capacity
import TxQueue.Concurrent.Uncached
import TxQueue.Transaction.Structured

/-!
# The fast path against always synchronising

In a reachable state a call with any index in its cache that a load may return does the same as one
that loads the current index first. So as long as the re-loads of the slow path see the current
index, the system with the caches and the one without them simulate each other, step by step and
with the same events.
-/

namespace TxQueue

open Library

/-! ## Single calls -/

namespace Indices

variable {cap : UInt64} {w : World}

/-- A live write transaction is ready while it is valid, with any head in its cache that a load may
return. -/
theorem ready_of_live_write {tx : TxWrite} {head : UInt64} (hi : Indices cap w)
    (hside : w.state.producer = .live tx) (hhead : w.state.up.MayLoad head)
    (hvalid : tx.invalidated_ = false) :
    TxWrite.Ready cap { tx with cachedHead_ := head } w.state.block w.log.localTail
      w.log.head := by
  have hspace := hi.space
  have hproducer := hi.producer
  have hheadtail := hi.head_le_tail
  simp only [hside, Producer.pending, Producer.Placed, World.seenHead] at hspace hproducer
  obtain ⟨k, hk, hle, rfl⟩ := hhead
  have hmono := boundary_mono w.log.consumed hle
  refine ⟨hvalid, ⟨boundary w.log.consumed k, boundary_le _ _, by omega, hproducer.queue,
    hproducer.capacity, hproducer.tail, hi.heads.value k hk⟩, hi.spans.head, ?_⟩
  unfold History.localTail
  omega

/-- A live read transaction is ready while it is valid, with any tail in its cache that a load may
return. -/
theorem ready_of_live_read {tx : TxRead} {tail : UInt64} (hi : Indices cap w)
    (hside : w.state.consumer = .live tx) (htail : w.state.down.MayLoad tail)
    (hvalid : tx.invalidated_ = false) :
    TxRead.Ready cap { tx with cachedTail_ := tail } w.state.block w.log.localHead
      w.log.tail := by
  have hdata := hi.data
  have hconsumer := hi.consumer
  have hlap := hi.tail_le
  simp only [hside, Consumer.pending, Consumer.Placed, World.seenTail] at hdata hconsumer
  obtain ⟨k, hk, hle, rfl⟩ := htail
  have hmono := boundary_mono w.log.written hle
  refine ⟨hvalid, ⟨boundary w.log.written k, boundary_le _ _, by omega, hconsumer.queue,
    hconsumer.capacity, hconsumer.head, hi.tails.value k hk⟩, hi.spans.tail, ?_⟩
  unfold History.localHead
  omega

/-- The cached head of a live write transaction is the value that the producer has observed. -/
theorem cached_write {tx : TxWrite} (hi : Indices cap w) (hside : w.state.producer = .live tx) :
    w.state.up.MayLoad tx.cachedHead_ := by
  have hproducer := hi.producer
  simp only [hside, Producer.Placed] at hproducer
  refine ⟨_, w.state.up.observed_lt, le_rfl, UInt64.toNat_inj.1 ?_⟩
  rw [hproducer.head, hi.heads.value]
  rfl

/-- The cached tail of a live read transaction is the value that the consumer has observed. -/
theorem cached_read {tx : TxRead} (hi : Indices cap w) (hside : w.state.consumer = .live tx) :
    w.state.down.MayLoad tx.cachedTail_ := by
  have hconsumer := hi.consumer
  simp only [hside, Consumer.Placed] at hconsumer
  refine ⟨_, w.state.down.observed_lt, le_rfl, UInt64.toNat_inj.1 ?_⟩
  rw [hconsumer.tail, hi.tails.value]
  rfl

/-- A live read transaction of a reachable state is coherent with the block, so that the law of the
structured read applies to it. -/
theorem coherent_read {tx : TxRead} (hi : Indices cap w) (hcap : IsPowTwo cap)
    (hside : w.state.consumer = .live tx) : tx.Coherent w.state.block := by
  have hdata := hi.data
  have hconsumer := hi.consumer
  have hlap := hi.tail_le
  have hseen := seenTail_le w
  have hlocal : w.log.localHead = w.log.head + w.log.reading.length := rfl
  simp only [hside, Consumer.pending, Consumer.Placed] at hdata hconsumer
  have hhead : tx.head_.toNat < cap.toNat := hconsumer.head ▸ Nat.mod_lt _ hcap.pos
  have htail := hi.spans.tail
  refine ⟨hconsumer.queue.trans hconsumer.capacity.symm, hconsumer.capacity ▸ hcap, ?_, ?_, ?_, ?_⟩
  · rwa [hconsumer.capacity, UInt64.lt_iff_toNat_lt]
  · rw [hconsumer.capacity, UInt64.lt_iff_toNat_lt, hconsumer.tail]
    exact Nat.mod_lt _ hcap.pos
  · rw [hconsumer.capacity, UInt64.lt_iff_toNat_lt, htail]
    exact Nat.mod_lt _ hcap.pos
  · rw [hconsumer.capacity, filledSlots, filledSlots, ← availableData_toNat hcap hhead,
      ← availableData_toNat hcap hhead,
      availableData_of_pos hcap hconsumer.head hconsumer.tail (by omega) (by omega),
      availableData_of_pos hcap hconsumer.head htail (by omega) (by omega)]
    omega

end Indices

/-- A check that loads nothing has the same outcome for every head. -/
theorem TxWrite.reserve_congr {tx : TxWrite} {size head head' : UInt64}
    (h : tx.reloads size = true → head = head') : tx.reserve size head = tx.reserve size head' := by
  cases hload : tx.reloads size with
  | true => rw [h hload]
  | false =>
      simp only [TxWrite.reloads, Bool.and_eq_false_iff, Bool.not_eq_false',
        decide_eq_false_iff_not] at hload
      simp only [TxWrite.reserve]
      rcases hload with hinv | hsize
      · simp only [hinv, if_true]
      · rw [if_neg (c := size > tx.space) hsize, if_neg (c := size > tx.space) hsize]

/-- A check that loads nothing has the same outcome for every tail. -/
theorem TxRead.reserve_congr {tx : TxRead} {size tail tail' : UInt64}
    (h : tx.reloads size = true → tail = tail') : tx.reserve size tail = tx.reserve size tail' := by
  cases hload : tx.reloads size with
  | true => rw [h hload]
  | false =>
      simp only [TxRead.reloads, Bool.and_eq_false_iff, Bool.not_eq_false',
        decide_eq_false_iff_not] at hload
      simp only [TxRead.reserve]
      rcases hload with hinv | hsize
      · simp only [hinv, if_true]
      · rw [if_neg (c := size > tx.data) hsize, if_neg (c := size > tx.data) hsize]

/-- A load that leaves the reader up to date has returned the last value. -/
theorem value_of_upToDate {α ι : Type*} {c : Channel α ι} {b : Bool} {k : ℕ}
    (hk : k < c.releases.length) (hb : b = true) (h : UpToDate (c.acquireIf b k hk)) :
    c.releases[k].value = c.latest := by
  subst hb
  have hlast : k = c.last := h
  subst hlast
  exact (c.latest_eq hk).symm

/-! ## Steps -/

section Steps

variable {cap : UInt64} {s s' u : System} {h : History} {e : Event}

/-- The check of a live write transaction, with the last head and without the cache. -/
theorem Indices.sameOutcome_write {tx tx' : TxWrite} (hi : Indices cap ⟨s, h⟩) (hcap : IsPowTwo cap)
    (hside : s.producer = .live tx) (halike : tx.Alike tx') (size : UInt64) :
    SameOutcome TxWrite.Alike (tx.reserve size s.up.latest)
      (tx'.reserveSync size s.up.latest) := by
  have hready : tx.invalidated_ = false → tx.Ready cap s.block h.localTail h.head :=
    fun hvalid => hi.ready_of_live_write hside (hi.cached_write hside) hvalid
  exact TxWrite.sameOutcome hcap hready halike size

/-- The check of a live read transaction, with the last tail and without the cache. -/
theorem Indices.sameOutcome_read {tx tx' : TxRead} (hi : Indices cap ⟨s, h⟩) (hcap : IsPowTwo cap)
    (hside : s.consumer = .live tx) (halike : tx.Alike tx') (size : UInt64) :
    SameOutcome TxRead.Alike (tx.reserve size s.down.latest)
      (tx'.reserveSync size s.down.latest) := by
  have hready : tx.invalidated_ = false → tx.Ready cap s.block h.localHead h.tail :=
    fun hvalid => hi.ready_of_live_read hside (hi.cached_read hside) hvalid
  exact TxRead.sameOutcome hcap hready halike size

/-- Two memories that the consumer may see give an `imp_read` in progress the same bytes. -/
theorem Invariant.copyOut_eq {tx : TxRead} {buffer m m' : ℕ → UInt8} {size : UInt64} {c : Memcpy}
    {rest : List Memcpy} (hi : Invariant cap ⟨s, h⟩)
    (hside : s.consumer = .copying tx buffer size (c :: rest))
    (hsees : s.down.Sees s.base .everyLoad m) (hsees' : s.down.Sees s.base .everyLoad m') :
    c.copyOut m buffer = c.copyOut m' buffer := by
  have hcopied := hi.reads.copied
  simp only [hside, Consumer.Copied, List.flatMap_cons] at hcopied
  obtain ⟨n, hn, hpairs, -⟩ := hcopied
  rw [c.copyOut_eq, c.copyOut_eq]
  congr 1
  refine List.map_congr_left ?_
  intro x hx
  obtain ⟨i, hlt, rfl⟩ := exists_of_mem_pairs hpairs hx
  -- the position is below the observed tail, so its slot is settled in both views
  have hbelow : h.localHead + i < boundary h.written (s.down.place .everyLoad) :=
    hi.indices.covered i (by simpa only [hside, Consumer.pending] using hlt)
  have hstream : h.localHead + i < h.stream.length := hbelow.trans_le (boundary_le _ _)
  obtain ⟨b, hb⟩ : ∃ b, h.stream[h.localHead + i]? = some b :=
    ⟨_, List.getElem?_eq_getElem hstream⟩
  have hhead : h.head ≤ h.localHead + i := by
    simp only [History.localHead]
    omega
  have hsettled :=
    hi.contents.committed _ (s.down.place_lt .everyLoad) _ b hhead hbelow hb
  show (i, m _) = (i, m' _)
  rw [hsees.eq_of_settled hsettled le_rfl, hsees'.eq_of_settled hsettled le_rfl]

/-- A write check whose re-load, if it is made, returns the last head. -/
theorem SeesCurrent.of_write {w w' : World} {tx : TxWrite} {buffer : ℕ → UInt8} {size : UInt64}
    (he : e = .beginWrite (bytes buffer size) ∨ e = .refuseWrite (bytes buffer size))
    (hside : w.state.producer = .live tx)
    (h : tx.reloads size = true → UpToDate w'.state.up) : SeesCurrent ⟨w, e, w'⟩ := by
  constructor
  · intro tx' data hside' he' hload
    obtain rfl := Producer.live.inj (hside.symm.trans hside')
    have hdata : data = bytes buffer size := by
      rcases he with rfl | rfl <;> rcases he' with he' | he' <;> cases he' <;> rfl
    subst hdata
    exact h (by simpa using hload)
  · intro tx' size' _ he'
    rcases he with rfl | rfl <;> rcases he' with he' | he' <;> cases he'

/-- A read check whose re-load, if it is made, returns the last tail. -/
theorem SeesCurrent.of_read {w w' : World} {tx : TxRead} {size : UInt64}
    (he : e = .beginRead size ∨ e = .refuseRead size) (hside : w.state.consumer = .live tx)
    (h : tx.reloads size = true → UpToDate w'.state.down) : SeesCurrent ⟨w, e, w'⟩ := by
  constructor
  · intro tx' data _ he'
    rcases he with rfl | rfl <;> rcases he' with he' | he' <;> cases he'
  · intro tx' size' hside' he' hload
    obtain rfl := Consumer.live.inj (hside.symm.trans hside')
    have hsize : size' = size := by
      rcases he with rfl | rfl <;> rcases he' with he' | he' <;> cases he' <;> rfl
    subst hsize
    exact h hload

/-- A step that is no check loads nothing again. -/
theorem SeesCurrent.of_not_check {w w' : World} (he : e.isCheck = false) :
    SeesCurrent ⟨w, e, w'⟩ := by
  constructor
  · rintro tx data - (rfl | rfl) <;> cases he
  · rintro tx size - (rfl | rfl) <;> cases he

/-- A load of the last value leaves the reader up to date. -/
theorem upToDate_acquireIf {α ι : Type*} (c : Channel α ι) {b : Bool} (hb : b = true) :
    UpToDate (c.acquireIf b c.last c.last_lt) := by
  subst hb
  rfl

namespace System.Alike

/-- A write check whose re-load is current, against the one without the cache. -/
theorem same_write {tx tx₂ : TxWrite} {k : ℕ} (hcap : IsPowTwo cap)
    (hi : Invariant cap ⟨s, h⟩) (hr : s.Alike s') (hlt : k < s.up.releases.length)
    (hside : s.producer = .live tx) (halike : tx.Alike tx₂) (size : UInt64)
    (hload : tx.reloads size = true → UpToDate (s.up.acquireIf (tx.reloads size) k hlt)) :
    SameOutcome TxWrite.Alike (tx.reserve size s.up.releases[k].value)
      (tx₂.reserveSync size s'.up.latest) := by
  have hlast : tx.reserve size s.up.releases[k].value = tx.reserve size s.up.latest :=
    TxWrite.reserve_congr fun h => value_of_upToDate hlt h (hload h)
  rw [hlast, hr.up.latest_eq]
  exact hi.indices.sameOutcome_write hcap hside halike size

/-- A read check whose re-load is current, against the one without the cache. -/
theorem same_read {tx tx₂ : TxRead} {k : ℕ} (hcap : IsPowTwo cap)
    (hi : Invariant cap ⟨s, h⟩) (hr : s.Alike s') (hlt : k < s.down.releases.length)
    (hside : s.consumer = .live tx) (halike : tx.Alike tx₂) (size : UInt64)
    (hload : tx.reloads size = true → UpToDate (s.down.acquireIf (tx.reloads size) k hlt)) :
    SameOutcome TxRead.Alike (tx.reserve size s.down.releases[k].value)
      (tx₂.reserveSync size s'.down.latest) := by
  have hlast : tx.reserve size s.down.releases[k].value = tx.reserve size s.down.latest :=
    TxRead.reserve_congr fun h => value_of_upToDate hlt h (hload h)
  rw [hlast, hr.down.latest_eq]
  exact hi.indices.sameOutcome_read hcap hside halike size

/-- What the consumer copies with the caches is what it copies when it sees all the data. -/
theorem copyOut_eq {tx : TxRead} {buffer m : ℕ → UInt8} {size : UInt64} {c : Memcpy}
    {rest : List Memcpy} (hr : s.Alike s') (hi : Invariant cap ⟨s, h⟩)
    (hside : s.consumer = .copying tx buffer size (c :: rest))
    (hsees : s.down.Sees s.base .everyLoad m) :
    c.copyOut m buffer = c.copyOut s'.content buffer := by
  have hall : s'.down.Sees s'.base .everyLoad s'.content := Channel.sees_image _ _ _
  rw [hr.base] at hall
  exact hi.copyOut_eq hside hsees (hr.down.sees hall)

/-- The write checks of the system with the caches, without them. -/
theorem sync_write (hcap : IsPowTwo cap) (hi : Invariant cap ⟨s, h⟩) (hr : s.Alike s')
    (hcurrent : SeesCurrent ⟨⟨s, h⟩, e, ⟨u, h.record e⟩⟩) (hstep : Step .everyLoad s e u)
    {data : List UInt8} (he : e = .beginWrite data ∨ e = .refuseWrite data) :
    ∃ u', SyncStep .everyLoad s' e u' ∧ u.Alike u' := by
  cases hstep with
  | @beginWrite tx tx' buffer size k hle hlt hside hreserve =>
      obtain ⟨tx₂, hside₂, halike⟩ := (hside ▸ hr.producer).of_live
      have hsame := hr.same_write hcap hi hlt hside halike size fun hload =>
        hcurrent.1 tx _ hside (Or.inl rfl) (by simpa using hload)
      rw [hreserve] at hsame
      generalize hsync : tx₂.reserveSync size s'.up.latest = outcome at hsame
      cases hsame with
      | ok halike' =>
          obtain ⟨v, rfl⟩ := halike'
          exact ⟨_, .beginWrite buffer size hside₂ hsync, hr.base, hr.down,
            hr.up.acquireIf_last (fun _ => rfl) hlt, hr.producerCore, hr.consumerCore,
            .copying ⟨v, rfl⟩ buffer size _, hr.consumer⟩
  | @refuseWrite tx tx' buffer size k core hle hlt hside hreserve =>
      obtain ⟨tx₂, hside₂, halike⟩ := (hside ▸ hr.producer).of_live
      have hsame := hr.same_write hcap hi hlt hside halike size fun hload =>
        hcurrent.1 tx _ hside (Or.inr rfl) (by simpa using hload)
      rw [hreserve] at hsame
      generalize hsync : tx₂.reserveSync size s'.up.latest = outcome at hsame
      cases hsame with
      | error halike' =>
          obtain ⟨v, rfl⟩ := halike
          refine ⟨_, .refuseWrite buffer size core hside₂ hsync, hr.base, hr.down,
            hr.up.acquireIf_last TxWrite.valid_of_reloads hlt, ?_, hr.consumerCore, .live halike',
            hr.consumer⟩
          simp only [hr.producerCore]
  | _ => rcases he with he | he <;> cases he

/-- The read checks of the system with the caches, without them. -/
theorem sync_read (hcap : IsPowTwo cap) (hi : Invariant cap ⟨s, h⟩) (hr : s.Alike s')
    (hcurrent : SeesCurrent ⟨⟨s, h⟩, e, ⟨u, h.record e⟩⟩) (hstep : Step .everyLoad s e u)
    {size : UInt64} (he : e = .beginRead size ∨ e = .refuseRead size) :
    ∃ u', SyncStep .everyLoad s' e u' ∧ u.Alike u' := by
  cases hstep with
  | @beginRead tx tx' buffer size k hle hlt hside hreserve =>
      obtain ⟨tx₂, hside₂, halike⟩ := (hside ▸ hr.consumer).of_live
      have hsame := hr.same_read hcap hi hlt hside halike size fun hload =>
        hcurrent.2 tx _ hside (Or.inl rfl) hload
      rw [hreserve] at hsame
      generalize hsync : tx₂.reserveSync size s'.down.latest = outcome at hsame
      cases hsame with
      | ok halike' =>
          obtain ⟨v, rfl⟩ := halike'
          exact ⟨_, .beginRead buffer size hside₂ hsync, hr.base,
            hr.down.acquireIf_last (fun _ => rfl) hlt, hr.up, hr.producerCore, hr.consumerCore,
            hr.producer, .copying ⟨v, rfl⟩ buffer size _⟩
  | @refuseRead tx tx' size k core hle hlt hside hreserve =>
      obtain ⟨tx₂, hside₂, halike⟩ := (hside ▸ hr.consumer).of_live
      have hsame := hr.same_read hcap hi hlt hside halike size fun hload =>
        hcurrent.2 tx _ hside (Or.inr rfl) hload
      rw [hreserve] at hsame
      generalize hsync : tx₂.reserveSync size s'.down.latest = outcome at hsame
      cases hsame with
      | error halike' =>
          obtain ⟨v, rfl⟩ := halike
          refine ⟨_, .refuseRead size core hside₂ hsync, hr.base,
            hr.down.acquireIf_last TxRead.valid_of_reloads hlt, hr.up, hr.producerCore, ?_,
            hr.producer, .live halike'⟩
          simp only [hr.consumerCore]
  | _ => rcases he with he | he <;> cases he

/-- Every step of the system with the caches whose re-load is current is one without them. -/
theorem sync_step (hcap : IsPowTwo cap) (hi : Invariant cap ⟨s, h⟩) (hr : s.Alike s')
    (hcurrent : SeesCurrent ⟨⟨s, h⟩, e, ⟨u, h.record e⟩⟩) (hstep : Step .everyLoad s e u) :
    ∃ u', SyncStep .everyLoad s' e u' ∧ u.Alike u' := by
  cases hstep with
  | beginWrite buffer size k hle hlt hside hreserve =>
      exact hr.sync_write hcap hi hcurrent (.beginWrite buffer size k hle hlt hside hreserve)
        (Or.inl rfl)
  | refuseWrite buffer size k core hle hlt hside hreserve =>
      exact hr.sync_write hcap hi hcurrent (.refuseWrite buffer size k core hle hlt hside hreserve)
        (Or.inr rfl)
  | beginRead buffer size k hle hlt hside hreserve =>
      exact hr.sync_read hcap hi hcurrent (.beginRead buffer size k hle hlt hside hreserve)
        (Or.inl rfl)
  | refuseRead size k core hle hlt hside hreserve =>
      exact hr.sync_read hcap hi hcurrent (.refuseRead size k core hle hlt hside hreserve)
        (Or.inr rfl)
  | @openWrite queue k hle hlt hside =>
      have hside₂ : s'.producer = .idle queue := (hside ▸ hr.producer).of_idle
      have hobserved : s'.up.observed ≤ s'.up.last := Nat.le_sub_one_of_lt s'.up.observed_lt
      refine ⟨_, .other rfl (.openWrite s'.up.last hobserved s'.up.last_lt hside₂), hr.base,
        hr.down, hr.up.loadRelaxed_last hle hlt hobserved, hr.producerCore, hr.consumerCore,
        .live ?_, hr.consumer⟩
      rw [hr.down.latest_eq]
      exact ⟨_, rfl⟩
  | @openRead queue k hle hlt hside =>
      have hside₂ : s'.consumer = .idle queue := (hside ▸ hr.consumer).of_idle
      have hobserved : s'.down.observed ≤ s'.down.last :=
        Nat.le_sub_one_of_lt s'.down.observed_lt
      refine ⟨_, .other rfl (.openRead s'.down.last hobserved s'.down.last_lt hside₂), hr.base,
        hr.down.loadRelaxed_last hle hlt hobserved, hr.up, hr.producerCore, hr.consumerCore,
        hr.producer, .live ?_⟩
      rw [hr.up.latest_eq]
      exact ⟨_, rfl⟩
  | @copyIn tx buffer size c c' rest hside =>
      obtain ⟨tx₂, hside₂, halike⟩ := (hside ▸ hr.producer).of_copying
      exact ⟨_, .other rfl (.copyIn hside₂), hr.base, hr.down.send _, hr.up, hr.producerCore,
        hr.consumerCore, .copying halike _ _ _, hr.consumer⟩
  | @wrote tx buffer size c hside =>
      obtain ⟨tx₂, hside₂, halike⟩ := (hside ▸ hr.producer).of_copying
      exact ⟨_, .other rfl (.wrote hside₂), hr.base, hr.down.send _, hr.up, rfl,
        hr.consumerCore, .live (halike.finish size), hr.consumer⟩
  | @invalidateWrite tx hside =>
      obtain ⟨tx₂, hside₂, v, rfl⟩ := (hside ▸ hr.producer).of_live
      exact ⟨_, .other rfl (.invalidateWrite hside₂), hr.base, hr.down, hr.up, hr.producerCore,
        hr.consumerCore, .live ⟨v, rfl⟩, hr.consumer⟩
  | @closeWrite tx hside =>
      obtain ⟨tx₂, hside₂, v, rfl⟩ := (hside ▸ hr.producer).of_live
      have hclose := @Step.closeWrite .everyLoad s' _ hside₂
      exact ⟨_, .other rfl hclose, hr.base, hr.down.releaseUnless _ _, hr.up, hr.producerCore,
        hr.consumerCore, .idle _, hr.consumer⟩
  | @copyOut tx buffer m size c c' rest hside hsees =>
      obtain ⟨tx₂, hside₂, halike⟩ := (hside ▸ hr.consumer).of_copying
      have hsees₂ : s'.down.Sees s'.base .everyLoad s'.content := Channel.sees_image _ _ _
      refine ⟨_, .other rfl (.copyOut hside₂ hsees₂), hr.base, hr.down, hr.up.send _,
        hr.producerCore, hr.consumerCore, hr.producer, ?_⟩
      rw [hr.copyOut_eq hi hside hsees]
      exact .copying halike _ _ _
  | @read tx buffer m size c hside hsees =>
      obtain ⟨tx₂, hside₂, halike⟩ := (hside ▸ hr.consumer).of_copying
      have hsees₂ : s'.down.Sees s'.base .everyLoad s'.content := Channel.sees_image _ _ _
      rw [hr.copyOut_eq hi hside hsees]
      exact ⟨_, .other rfl (.read hside₂ hsees₂), hr.base, hr.down, hr.up.send _, hr.producerCore,
        rfl, hr.producer, .live (halike.finish size)⟩
  | @invalidateRead tx hside =>
      obtain ⟨tx₂, hside₂, v, rfl⟩ := (hside ▸ hr.consumer).of_live
      exact ⟨_, .other rfl (.invalidateRead hside₂), hr.base, hr.down, hr.up, hr.producerCore,
        hr.consumerCore, hr.producer, .live ⟨v, rfl⟩⟩
  | @closeRead tx hside =>
      obtain ⟨tx₂, hside₂, v, rfl⟩ := (hside ▸ hr.consumer).of_live
      have hclose := @Step.closeRead .everyLoad s' _ hside₂
      exact ⟨_, .other rfl hclose, hr.base, hr.down, hr.up.releaseUnless _ _, hr.producerCore,
        hr.consumerCore, hr.producer, .idle _⟩

/-- Every check of the system without the caches is one with them whose re-load is current. -/
theorem cached_check (hcap : IsPowTwo cap) (hi : Invariant cap ⟨s, h⟩) (hr : s.Alike s')
    (hcheck : e.isCheck = true) (hstep : SyncStep .everyLoad s' e u) :
    ∃ u', Step .everyLoad s e u' ∧ SeesCurrent ⟨⟨s, h⟩, e, ⟨u', h.record e⟩⟩ ∧ u'.Alike u := by
  have hup : s.up.observed ≤ s.up.last := Nat.le_sub_one_of_lt s.up.observed_lt
  have hdown : s.down.observed ≤ s.down.last := Nat.le_sub_one_of_lt s.down.observed_lt
  cases hstep with
  | @beginWrite tx₂ tx₂' buffer size hside₂ hsync =>
      obtain ⟨tx, hside, halike⟩ := (hside₂ ▸ hr.producer.symm).of_live
      have hsame := hr.same_write hcap hi s.up.last_lt hside halike.symm size fun hload =>
        upToDate_acquireIf s.up hload
      rw [hsync] at hsame
      generalize hreserve : tx.reserve size _ = outcome at hsame
      cases hsame with
      | ok halike' =>
          obtain ⟨v, rfl⟩ := halike'
          refine ⟨_, .beginWrite buffer size s.up.last hup s.up.last_lt hside hreserve, ?_,
            hr.base, hr.down, hr.up.acquireIf_last (fun _ => rfl) s.up.last_lt, hr.producerCore,
            hr.consumerCore, .copying ⟨v, rfl⟩ buffer size _, hr.consumer⟩
          exact .of_write (Or.inl rfl) hside fun hload => upToDate_acquireIf s.up hload
  | @refuseWrite tx₂ tx₂' buffer size core hside₂ hsync =>
      obtain ⟨tx, hside, halike⟩ := (hside₂ ▸ hr.producer.symm).of_live
      have hsame := hr.same_write hcap hi s.up.last_lt hside halike.symm size fun hload =>
        upToDate_acquireIf s.up hload
      rw [hsync] at hsame
      generalize hreserve : tx.reserve size _ = outcome at hsame
      cases hsame with
      | error halike' =>
          obtain ⟨v, rfl⟩ := halike
          refine ⟨_, .refuseWrite buffer size s.up.last core hup s.up.last_lt hside hreserve, ?_,
            hr.base, hr.down, hr.up.acquireIf_last TxWrite.valid_of_reloads s.up.last_lt, ?_,
            hr.consumerCore, .live halike', hr.consumer⟩
          · exact .of_write (Or.inr rfl) hside fun hload => upToDate_acquireIf s.up hload
          · simp only [hr.producerCore]
  | @beginRead tx₂ tx₂' buffer size hside₂ hsync =>
      obtain ⟨tx, hside, halike⟩ := (hside₂ ▸ hr.consumer.symm).of_live
      have hsame := hr.same_read hcap hi s.down.last_lt hside halike.symm size fun hload =>
        upToDate_acquireIf s.down hload
      rw [hsync] at hsame
      generalize hreserve : tx.reserve size _ = outcome at hsame
      cases hsame with
      | ok halike' =>
          obtain ⟨v, rfl⟩ := halike'
          refine ⟨_, .beginRead buffer size s.down.last hdown s.down.last_lt hside hreserve, ?_,
            hr.base, hr.down.acquireIf_last (fun _ => rfl) s.down.last_lt, hr.up,
            hr.producerCore, hr.consumerCore, hr.producer, .copying ⟨v, rfl⟩ buffer size _⟩
          exact .of_read (Or.inl rfl) hside fun hload => upToDate_acquireIf s.down hload
  | @refuseRead tx₂ tx₂' size core hside₂ hsync =>
      obtain ⟨tx, hside, halike⟩ := (hside₂ ▸ hr.consumer.symm).of_live
      have hsame := hr.same_read hcap hi s.down.last_lt hside halike.symm size fun hload =>
        upToDate_acquireIf s.down hload
      rw [hsync] at hsame
      generalize hreserve : tx.reserve size _ = outcome at hsame
      cases hsame with
      | error halike' =>
          obtain ⟨v, rfl⟩ := halike
          refine ⟨_, .refuseRead size s.down.last core hdown s.down.last_lt hside hreserve, ?_,
            hr.base, hr.down.acquireIf_last TxRead.valid_of_reloads s.down.last_lt, hr.up,
            hr.producerCore, ?_, hr.producer, .live halike'⟩
          · exact .of_read (Or.inr rfl) hside fun hload => upToDate_acquireIf s.down hload
          · simp only [hr.consumerCore]
  | other hnot => simp [hnot] at hcheck

/-- Every step of the system without the caches is one with them whose re-load is current. -/
theorem cached_step (hcap : IsPowTwo cap) (hi : Invariant cap ⟨s, h⟩) (hr : s.Alike s')
    (hstep : SyncStep .everyLoad s' e u) :
    ∃ u', Step .everyLoad s e u' ∧ SeesCurrent ⟨⟨s, h⟩, e, ⟨u', h.record e⟩⟩ ∧ u'.Alike u := by
  cases hcheck : e.isCheck with
  | true => exact hr.cached_check hcap hi hcheck hstep
  | false =>
      have hstep : Step .everyLoad s' e u := by
        cases hstep with
        | other _ hstep => exact hstep
        | beginWrite | refuseWrite | beginRead | refuseRead => cases hcheck
      suffices hnext : ∃ u', Step .everyLoad s e u' ∧ u'.Alike u by
        obtain ⟨u', hu', halike⟩ := hnext
        exact ⟨u', hu', .of_not_check hcheck, halike⟩
      cases hstep with
      | beginWrite | refuseWrite | beginRead | refuseRead => cases hcheck
      | @openWrite queue k hle hlt hside₂ =>
          have hside : s.producer = .idle queue := (hside₂ ▸ hr.producer.symm).of_idle
          have hlt' : k < s.up.releases.length := hr.up.releases ▸ hlt
          refine ⟨_, .openWrite k (hr.up.observed.trans hle) hlt' hside, hr.base, hr.down,
            ⟨hr.up.data, hr.up.releases, le_rfl⟩, hr.producerCore, hr.consumerCore, .live ?_,
            hr.consumer⟩
          rw [hr.down.latest_eq]
          exact ⟨_, rfl⟩
      | @openRead queue k hle hlt hside₂ =>
          have hside : s.consumer = .idle queue := (hside₂ ▸ hr.consumer.symm).of_idle
          have hlt' : k < s.down.releases.length := hr.down.releases ▸ hlt
          refine ⟨_, .openRead k (hr.down.observed.trans hle) hlt' hside, hr.base,
            ⟨hr.down.data, hr.down.releases, le_rfl⟩, hr.up, hr.producerCore, hr.consumerCore,
            hr.producer, .live ?_⟩
          rw [hr.up.latest_eq]
          exact ⟨_, rfl⟩
      | @copyIn tx buffer size c c' rest hside₂ =>
          obtain ⟨tx', hside, halike⟩ := (hside₂ ▸ hr.producer.symm).of_copying
          exact ⟨_, .copyIn hside, hr.base, hr.down.send _, hr.up, hr.producerCore,
            hr.consumerCore, .copying halike.symm _ _ _, hr.consumer⟩
      | @wrote tx buffer size c hside₂ =>
          obtain ⟨tx', hside, halike⟩ := (hside₂ ▸ hr.producer.symm).of_copying
          exact ⟨_, .wrote hside, hr.base, hr.down.send _, hr.up, rfl, hr.consumerCore,
            .live (halike.symm.finish size), hr.consumer⟩
      | @invalidateWrite tx hside₂ =>
          obtain ⟨tx', hside, v, rfl⟩ := (hside₂ ▸ hr.producer.symm).of_live
          exact ⟨_, .invalidateWrite hside, hr.base, hr.down, hr.up, hr.producerCore,
            hr.consumerCore, .live ⟨tx.cachedHead_, rfl⟩, hr.consumer⟩
      | @closeWrite tx hside₂ =>
          obtain ⟨tx', hside, v, rfl⟩ := (hside₂ ▸ hr.producer.symm).of_live
          have hclose := @Step.closeWrite .everyLoad s _ hside
          exact ⟨_, hclose, hr.base, hr.down.releaseUnless _ _, hr.up, hr.producerCore,
            hr.consumerCore, .idle _, hr.consumer⟩
      | @copyOut tx buffer m size c c' rest hside₂ hsees₂ =>
          obtain ⟨tx', hside, halike⟩ := (hside₂ ▸ hr.consumer.symm).of_copying
          exact ⟨_, .copyOut hside (hr.down.sees (hr.base ▸ hsees₂)), hr.base, hr.down,
            hr.up.send _, hr.producerCore, hr.consumerCore, hr.producer,
            .copying halike.symm _ _ _⟩
      | @read tx buffer m size c hside₂ hsees₂ =>
          obtain ⟨tx', hside, halike⟩ := (hside₂ ▸ hr.consumer.symm).of_copying
          exact ⟨_, .read hside (hr.down.sees (hr.base ▸ hsees₂)), hr.base, hr.down,
            hr.up.send _, hr.producerCore, rfl, hr.producer, .live (halike.symm.finish size)⟩
      | @invalidateRead tx hside₂ =>
          obtain ⟨tx', hside, v, rfl⟩ := (hside₂ ▸ hr.consumer.symm).of_live
          exact ⟨_, .invalidateRead hside, hr.base, hr.down, hr.up, hr.producerCore,
            hr.consumerCore, hr.producer, .live ⟨tx.cachedTail_, rfl⟩⟩
      | @closeRead tx hside₂ =>
          obtain ⟨tx', hside, v, rfl⟩ := (hside₂ ▸ hr.consumer.symm).of_live
          have hclose := @Step.closeRead .everyLoad s _ hside
          exact ⟨_, hclose, hr.base, hr.down, hr.up.releaseUnless _ _, hr.producerCore,
            hr.consumerCore, hr.producer, .idle _⟩

end System.Alike

end Steps

/-! ## Runs -/

section Runs

variable {queue : RingQueue} {start w : World} {ts : List (Transition World Event)}

/-- The relation between the two systems at the same place of a run. -/
structure Mirrors (cap : UInt64) (w w' : World) : Prop where
  invariant : Invariant cap w
  log : w'.log = w.log
  alike : w.state.Alike w'.state

/-- A run with the caches has the same events without them, and ends in a state that is alike. -/
theorem sync_run (hstart : (worldLts queue.toBaseTxQueue .everyLoad).initial start)
    (hrun : Run (worldLts queue.toBaseTxQueue .everyLoad) start ts w)
    (hcurrent : ∀ t ∈ ts, SeesCurrent t) :
    ∃ us w', Run (syncWorldLts queue.toBaseTxQueue .everyLoad) start us w' ∧
      us.map Transition.event = ts.map Transition.event ∧ w'.log = w.log ∧
      w.state.Alike w'.state := by
  have hnext : ∀ t u, SeesCurrent t → Mirrors queue.capacity_ t.source u →
      (worldLts queue.toBaseTxQueue .everyLoad).step t.source t.event t.target →
      ∃ u', (syncWorldLts queue.toBaseTxQueue .everyLoad).step u t.event u' ∧ True ∧
        Mirrors queue.capacity_ t.target u' := by
    rintro ⟨⟨s, h⟩, e, ⟨u, h'⟩⟩ ⟨s', h''⟩ hcurrent ⟨hi, hlog, halike⟩ ⟨hstep, hrecord⟩
    obtain rfl : h'' = h := hlog
    obtain rfl : h' = h''.record e := hrecord
    obtain ⟨u', hu', halike'⟩ := halike.sync_step queue.isPowTwo hi hcurrent hstep
    exact ⟨⟨u', h''.record e⟩, ⟨hu', rfl⟩, trivial, hi.step ⟨hstep, rfl⟩, rfl, halike'⟩
  obtain ⟨us, w', hus, -, hevents, hmirrors⟩ := hrun.simulate
    (Q := fun _ => True) hcurrent ⟨Invariant.of_initial hstart, rfl, .refl _⟩ hnext
  exact ⟨us, w', hus, hevents, hmirrors.log, hmirrors.alike⟩

/-- A run without the caches has the same events with them, and ends in a state that is alike. -/
theorem cached_run (hstart : (worldLts queue.toBaseTxQueue .everyLoad).initial start)
    (hrun : Run (syncWorldLts queue.toBaseTxQueue .everyLoad) start ts w) :
    ∃ us w', Run (worldLts queue.toBaseTxQueue .everyLoad) start us w' ∧
      (∀ u ∈ us, SeesCurrent u) ∧ us.map Transition.event = ts.map Transition.event ∧
      w'.log = w.log ∧ w'.state.Alike w.state := by
  have hnext : ∀ (t : Transition World Event) (u : World), True →
      Mirrors queue.capacity_ u t.source →
      (syncWorldLts queue.toBaseTxQueue .everyLoad).step t.source t.event t.target →
      ∃ u', (worldLts queue.toBaseTxQueue .everyLoad).step u t.event u' ∧
        SeesCurrent ⟨u, t.event, u'⟩ ∧ Mirrors queue.capacity_ u' t.target := by
    rintro ⟨⟨s', h⟩, e, ⟨u, h'⟩⟩ ⟨s, h''⟩ - ⟨hi, hlog, halike⟩ ⟨hstep, hrecord⟩
    obtain rfl : h = h'' := hlog
    obtain rfl : h' = h.record e := hrecord
    obtain ⟨u', hu', hcurrent, halike'⟩ := halike.cached_step queue.isPowTwo hi hstep
    exact ⟨⟨u', h.record e⟩, ⟨hu', rfl⟩, hcurrent, hi.step ⟨hu', rfl⟩, rfl, halike'⟩
  obtain ⟨us, w', hus, hcurrent, hevents, hmirrors⟩ := hrun.simulate
    (R := fun w w' => Mirrors queue.capacity_ w' w) (fun _ _ => trivial)
    ⟨Invariant.of_initial hstart, rfl, .refl _⟩ hnext
  exact ⟨us, w', hus, hcurrent, hevents, hmirrors.log.symm, hmirrors.alike⟩

end Runs

/-- In every reachable state, `imp_write` with any head in its cache that a load may return does the
same as the reference that loads the current head before its check, and `imp_read` as well. So the
runs with the caches, if the re-loads of the slow path see the current index, and the runs without
them have the same events, with the same memory and local indices at the end. -/
theorem synchronised (queue : RingQueue) {start w : World} {ts : List (Transition World Event)}
    (hstart : (worldLts queue.toBaseTxQueue .everyLoad).initial start)
    (hrun : Run (worldLts queue.toBaseTxQueue .everyLoad) start ts w) :
    (∀ tx head core buffer size, w.state.producer = .live tx → w.state.up.MayLoad head →
      let fast := TxWrite.impWrite { tx with cachedHead_ := head } w.state.block core buffer size
      let sync := tx.impWriteSync w.state.block core buffer size
      fast.ok = sync.ok ∧ fast.block.ring = sync.block.ring ∧ fast.tx.tail_ = sync.tx.tail_ ∧
        fast.tx.invalidated_ = sync.tx.invalidated_) ∧
    (∀ tx tail core buffer size, w.state.consumer = .live tx → w.state.down.MayLoad tail →
      let fast := TxRead.impRead { tx with cachedTail_ := tail } w.state.block core buffer size
      let sync := tx.impReadSync w.state.block core buffer size
      fast.ok = sync.ok ∧ fast.buffer = sync.buffer ∧ fast.block.ring = sync.block.ring ∧
        fast.tx.head_ = sync.tx.head_ ∧ fast.tx.invalidated_ = sync.tx.invalidated_) ∧
    ((∀ t ∈ ts, SeesCurrent t) →
      ∃ us w', Run (syncWorldLts queue.toBaseTxQueue .everyLoad) start us w' ∧
        us.map Transition.event = ts.map Transition.event ∧ w'.log = w.log ∧
        w.state.Alike w'.state) ∧
    (∀ us w', Run (syncWorldLts queue.toBaseTxQueue .everyLoad) start us w' →
      ∃ ts w, Run (worldLts queue.toBaseTxQueue .everyLoad) start ts w ∧
        (∀ t ∈ ts, SeesCurrent t) ∧ ts.map Transition.event = us.map Transition.event ∧
        w.log = w'.log ∧ w.state.Alike w'.state) := by
  have hi := (Invariant.of_run hstart hrun).indices
  refine ⟨?_, ?_, sync_run hstart hrun, fun us w' hus => cached_run hstart hus⟩
  · intro tx head core buffer size hside hhead
    have hready := hi.ready_of_live_write hside hhead
    obtain ⟨hok, hblock, v, htx⟩ := TxWrite.impWrite_sync queue.isPowTwo
      (show TxWrite.Alike { tx with cachedHead_ := head } tx from ⟨tx.cachedHead_, rfl⟩)
      hready core buffer size
    exact ⟨hok, by rw [hblock], by rw [htx], by rw [htx]⟩
  · intro tx tail core buffer size hside htail
    have hready := hi.ready_of_live_read hside htail
    obtain ⟨hok, hblock, hbuffer, v, htx⟩ := TxRead.impRead_sync queue.isPowTwo
      (show TxRead.Alike { tx with cachedTail_ := tail } tx from ⟨tx.cachedTail_, rfl⟩)
      hready core buffer size
    exact ⟨hok, hbuffer, by rw [hblock], by rw [htx], by rw [htx]⟩

/-- `synchronised` in the middle of a read transaction. -/
theorem synchronised_half_read : ∃ ts w tx,
    Run (worldLts smallQueue.toBaseTxQueue .everyLoad) (freshWorld smallQueue.toBaseTxQueue) ts w ∧
    w.state.consumer = .live tx ∧
    (TxRead.impRead { tx with cachedTail_ := w.state.down.latest } w.state.block 0 (fun _ => 0)
      1).ok = (tx.impReadSync w.state.block 0 (fun _ => 0) 1).ok := by
  obtain ⟨ts, w, tx, hrun, -, hside, -⟩ := half_read_run
  have hboth := synchronised smallQueue (freshWorld_initial _ _) hrun
  exact ⟨ts, w, tx, hrun, hside,
    (hboth.2.1 tx _ 0 (fun _ => 0) 1 hside w.state.down.mayLoad_latest).1⟩

end TxQueue
