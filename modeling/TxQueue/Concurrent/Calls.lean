import TxQueue.Concurrent.Contents

/-!
# A call as a run of steps

With no step of the other side in between, and with the current value for each load, the steps of
a side from the call of `imp_write` or `imp_read` to its return do what `impWrite` and `impRead` do
to one block in one go, and those of a constructor or a destructor as well. So the calls on a block
are the system's calls, seen from one side.
-/

namespace TxQueue

open Library

/-- The memory that the two sides share, with all stores made. -/
def System.block (s : System) : Block where
  ring := s.content
  status := s.status

/-- Setting the hint back is a store of -1, if it is not -1 already. -/
theorem Block.resetProducerCore_eq (block : Block) :
    block.resetProducerCore = block.storeProducerCore (-1) := by
  obtain ⟨ring, tail, producerCore, head, consumerCore⟩ := block
  by_cases hcore : producerCore = -1 <;>
    simp [resetProducerCore, storeProducerCore, hcore]

theorem Block.resetConsumerCore_eq (block : Block) :
    block.resetConsumerCore = block.storeConsumerCore (-1) := by
  obtain ⟨ring, tail, producerCore, head, consumerCore⟩ := block
  by_cases hcore : consumerCore = -1 <;>
    simp [resetConsumerCore, storeConsumerCore, hcore]

/-- The reader of a channel has observed the last release, so that any further load returns it. -/
def UpToDate {α ι : Type*} (c : Channel α ι) : Prop := c.observed = c.last

namespace System

variable {queue : BaseTxQueue} {vis : Visibility} {s : System}

section Write

variable {tx : TxWrite} {size : UInt64} {cs : List Memcpy}

variable (vis) in
/-- Opening a write transaction with the current head. -/
theorem openWrite_steps (hside : s.producer = .idle queue) :
    ∃ s', Step vis s .openWrite s' ∧
      s'.producer = .live (.construct queue s.block.status.tail_ s.block.status.head_) ∧
      s'.block = s.block ∧ UpToDate s'.up ∧ s'.consumer = s.consumer := by
  have hle : s.up.observed ≤ s.up.last := Nat.le_sub_one_of_lt s.up.observed_lt
  refine ⟨_, .openWrite s.up.last hle s.up.last_lt hside, ?_, rfl, rfl, rfl⟩
  rw [← Channel.latest_eq]
  rfl

variable (queue vis) in
/-- The copies of an `imp_write` one after the other. -/
theorem copyIn_steps {buffer : ℕ → UInt8} (hne : cs ≠ [])
    (hside : s.producer = .copying tx buffer size cs) :
    ∃ s₁ s', (txQueueLts queue vis).Leads (· = .copyIn) s s₁ ∧
      Step vis s₁ (.wrote (bytes buffer size)) s' ∧ s'.producer = .live (tx.finish size) ∧
      s'.block = Block.storeProducerCore
        { s.block with ring := cs.foldl (fun ring c => c.copyIn buffer ring) s.block.ring } (-1) ∧
      s'.up = s.up ∧ s'.consumer = s.consumer := by
  induction cs generalizing s with
  | nil => exact absurd rfl hne
  | cons c cs ih =>
      have hstored : image s.base (s.down.data ++ c.stores buffer) = c.copyIn buffer s.content := by
        rw [image_append, c.copyIn_eq]
        rfl
      cases cs with
      | nil =>
          refine ⟨s, _, .refl _ _ _, .wrote hside, rfl, ?_, rfl, rfl⟩
          simp only [block, content, status, Channel.send_data, hstored, List.foldl_cons,
            List.foldl_nil, Block.storeProducerCore]
          rfl
      | cons c' cs =>
          obtain ⟨s₁, s', hcopies, hlast, hproducer, hblock, hup, hconsumer⟩ :=
            ih (s := { s with
              down := s.down.send (c.stores buffer)
              producer := .copying tx buffer size (c' :: cs) }) (by simp) rfl
          have hfirst : (txQueueLts queue vis).step s .copyIn _ := .copyIn hside
          refine ⟨s₁, s', .trans (.single hfirst rfl) hcopies, hlast, hproducer, ?_, hup, hconsumer⟩
          rw [hblock]
          simp only [block, content, status, Channel.send_data, hstored, List.foldl_cons]
          rfl

variable (queue vis) in
/-- An `imp_write` with the current head is `impWrite` on the block. -/
theorem write_steps (hside : s.producer = .live tx) (hcurrent : UpToDate s.up) (core : Int32)
    (buffer : ℕ → UInt8) (size : UInt64) :
    ∃ s₁ s', (txQueueLts queue vis).Leads
        (fun e => e = .beginWrite (bytes buffer size) ∨ e = .copyIn) s s₁ ∧
      Step vis s₁ (if (tx.impWrite s.block core buffer size).ok then .wrote (bytes buffer size)
        else .refuseWrite (bytes buffer size)) s' ∧
      s'.producer = .live (tx.impWrite s.block core buffer size).tx ∧
      s'.block = (tx.impWrite s.block core buffer size).block ∧ UpToDate s'.up ∧
      s'.consumer = s.consumer := by
  have hle : s.up.observed ≤ s.up.last := hcurrent.le
  have hlt := s.up.last_lt
  have hhead : s.up.releases[s.up.last].value = s.block.status.head_ := by
    rw [← Channel.latest_eq]
    rfl
  have hnext : UpToDate (s.up.acquireIf (tx.reloads size) s.up.last s.up.last_lt) := by
    show (if tx.reloads size then s.up.last else s.up.observed) = s.up.last
    rw [hcurrent, ite_self]
  cases hreserve : tx.reserve size s.block.status.head_ with
  | error tx' =>
      simp only [TxWrite.impWrite, hreserve, Bool.false_eq_true, if_false]
      rw [← hhead] at hreserve
      refine ⟨s, _, .refl _ _ _,
        .refuseWrite buffer size s.up.last core hle s.up.last_lt hside hreserve, rfl, ?_, hnext,
        rfl⟩
      cases tx.invalidated_ <;> rfl
  | ok tx' =>
      simp only [TxWrite.impWrite, hreserve, if_true]
      rw [← hhead] at hreserve
      -- the check, and then one step for each `memcpy`, the last of which is the return
      have hfirst : (txQueueLts queue vis).step s (.beginWrite (bytes buffer size)) _ :=
        .beginWrite buffer size s.up.last hle s.up.last_lt hside hreserve
      obtain ⟨s₁, s', hcopies, hlast, hproducer, hblock, hup, hconsumer⟩ :=
        copyIn_steps queue vis (s := { s with
          up := s.up.acquireIf (tx.reloads size) s.up.last s.up.last_lt
          producer := .copying tx' buffer size (copies tx'.tail_ tx'.capacity_ size) })
          (copies_ne_nil _ _ _) rfl
      refine ⟨s₁, s', .trans (.single hfirst (.inl rfl)) (hcopies.mono fun _ => .inr), hlast,
        hproducer, ?_, ?_, hconsumer⟩
      · rw [hblock, Block.resetProducerCore_eq]
        rfl
      · rwa [hup]

variable (vis) in
/-- The destructor is `destroy` on the block. -/
theorem closeWrite_steps (hside : s.producer = .live tx) :
    ∃ s', Step vis s (.closeWrite tx.toBool) s' ∧ s'.producer = .idle tx.queue_ ∧
      s'.block = tx.destroy s.block ∧ s'.consumer = s.consumer := by
  refine ⟨_, .closeWrite hside, rfl, ?_, rfl⟩
  cases hinv : tx.invalidated_ <;>
    simp [block, content, status, TxWrite.destroy, TxWrite.published, hinv, Channel.latest]

end Write

section Read

variable {tx : TxRead} {size : UInt64} {cs : List Memcpy}

variable (vis) in
/-- Opening a read transaction with the current tail. -/
theorem openRead_steps (hside : s.consumer = .idle queue) :
    ∃ s', Step vis s .openRead s' ∧
      s'.consumer = .live (.construct queue s.block.status.head_ s.block.status.tail_) ∧
      s'.block = s.block ∧ UpToDate s'.down ∧ s'.producer = s.producer := by
  have hle : s.down.observed ≤ s.down.last := Nat.le_sub_one_of_lt s.down.observed_lt
  refine ⟨_, .openRead s.down.last hle s.down.last_lt hside, ?_, rfl, rfl, rfl⟩
  rw [← Channel.latest_eq]
  rfl

variable (queue vis) in
/-- The copies of an `imp_read` one after the other. -/
theorem copyOut_steps {buffer : ℕ → UInt8} (hne : cs ≠ [])
    (hside : s.consumer = .copying tx buffer size cs) :
    ∃ s₁ s', (txQueueLts queue vis).Leads (· = .copyOut) s s₁ ∧
      Step vis s₁
        (.read (bytes (cs.foldl (fun buffer c => c.copyOut s.block.ring buffer) buffer) size)) s' ∧
      s'.consumer = .live (tx.finish size) ∧ s'.block = s.block.storeConsumerCore (-1) ∧
      s'.down = s.down ∧ s'.producer = s.producer := by
  induction cs generalizing s buffer with
  | nil => exact absurd rfl hne
  | cons c cs ih =>
      have hsees : s.down.Sees s.base vis s.content := Channel.sees_image _ _ _
      cases cs with
      | nil => exact ⟨s, _, .refl _ _ _, .read hside hsees, rfl, rfl, rfl, rfl⟩
      | cons c' cs =>
          obtain ⟨s₁, s', hcopies, hlast, hconsumer, hblock, hdown, hproducer⟩ :=
            ih (s := { s with
              up := s.up.send (c.pairs.map Prod.fst)
              consumer := .copying tx (c.copyOut s.content buffer) size (c' :: cs) }) (by simp) rfl
          have hfirst : (txQueueLts queue vis).step s .copyOut _ := .copyOut hside hsees
          exact ⟨s₁, s', .trans (.single hfirst rfl) hcopies, hlast, hconsumer, hblock, hdown,
            hproducer⟩

variable (queue vis) in
/-- An `imp_read` with the current tail is `impRead` on the block. -/
theorem read_steps (hside : s.consumer = .live tx) (hcurrent : UpToDate s.down) (core : Int32)
    (buffer : ℕ → UInt8) (size : UInt64) :
    ∃ s₁ s', (txQueueLts queue vis).Leads (fun e => e = .beginRead size ∨ e = .copyOut) s s₁ ∧
      Step vis s₁ (if (tx.impRead s.block core buffer size).ok
        then .read (bytes (tx.impRead s.block core buffer size).buffer size)
        else .refuseRead size) s' ∧
      s'.consumer = .live (tx.impRead s.block core buffer size).tx ∧
      s'.block = (tx.impRead s.block core buffer size).block ∧ UpToDate s'.down ∧
      s'.producer = s.producer := by
  have hle : s.down.observed ≤ s.down.last := hcurrent.le
  have hlt := s.down.last_lt
  have htail : s.down.releases[s.down.last].value = s.block.status.tail_ := by
    rw [← Channel.latest_eq]
    rfl
  have hnext : UpToDate (s.down.acquireIf (tx.reloads size) s.down.last s.down.last_lt) := by
    show (if tx.reloads size then s.down.last else s.down.observed) = s.down.last
    rw [hcurrent, ite_self]
  cases hreserve : tx.reserve size s.block.status.tail_ with
  | error tx' =>
      simp only [TxRead.impRead, hreserve, Bool.false_eq_true, if_false]
      rw [← htail] at hreserve
      refine ⟨s, _, .refl _ _ _,
        .refuseRead size s.down.last core hle s.down.last_lt hside hreserve, rfl, ?_, hnext, rfl⟩
      cases tx.invalidated_ <;> rfl
  | ok tx' =>
      simp only [TxRead.impRead, hreserve, if_true]
      rw [← htail] at hreserve
      have hfirst : (txQueueLts queue vis).step s (.beginRead size) _ :=
        .beginRead buffer size s.down.last hle s.down.last_lt hside hreserve
      obtain ⟨s₁, s', hcopies, hlast, hconsumer, hblock, hdown, hproducer⟩ :=
        copyOut_steps queue vis (s := { s with
          down := s.down.acquireIf (tx.reloads size) s.down.last s.down.last_lt
          consumer := .copying tx' buffer size (copies tx'.head_ tx'.capacity_ size) })
          (copies_ne_nil _ _ _) rfl
      refine ⟨s₁, s', .trans (.single hfirst (.inl rfl)) (hcopies.mono fun _ => .inr), hlast,
        hconsumer, ?_, ?_, hproducer⟩
      · rw [hblock, Block.resetConsumerCore_eq]
        rfl
      · rwa [hdown]

variable (vis) in
/-- The destructor is `destroy` on the block. -/
theorem closeRead_steps (hside : s.consumer = .live tx) :
    ∃ s', Step vis s (.closeRead tx.toBool) s' ∧ s'.consumer = .idle tx.queue_ ∧
      s'.block = tx.destroy s.block ∧ s'.producer = s.producer := by
  refine ⟨_, .closeRead hside, rfl, ?_, rfl⟩
  cases hinv : tx.invalidated_ <;>
    simp [block, content, status, TxRead.destroy, TxRead.published, hinv, Channel.latest]

end Read

end System

end TxQueue
