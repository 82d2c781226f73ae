import TxQueue.Transaction.Positions

/-!
# The calls without a cached index

The reference for the optimistic fast path: `imp_write` and `imp_read` that load the other side's
index before the availability check and check once. On a transaction that is ready the check has
the same outcome either way, and so have the calls.
-/

namespace TxQueue

open Library

/-- `reserve` with a load of `head_` before the only check. -/
def TxWrite.reserveSync (tx : TxWrite) (size head : UInt64) : Except TxWrite TxWrite :=
  if tx.invalidated_ then .error tx
  else
    let tx := { tx with cachedHead_ := head }
    if size > tx.space then .error { tx with invalidated_ := true } else .ok tx

/-- `imp_write` with a load of `head_` before the only check. -/
def TxWrite.impWriteSync (tx : TxWrite) (block : Block) (core : Int32) (buffer : ℕ → UInt8)
    (size : UInt64) : WriteResult :=
  match tx.reserveSync size block.status.head_ with
  | .error tx' =>
      { ok := false
        tx := tx'
        block := if tx.invalidated_ then block else block.storeProducerCore core }
  | .ok tx' =>
      { ok := true
        tx := tx'.finish size
        block := Block.resetProducerCore
          { block with
            ring := (copies tx'.tail_ tx'.capacity_ size).foldl
              (fun ring c => c.copyIn buffer ring) block.ring } }

/-- `reserve` with a load of `tail_` before the only check. -/
def TxRead.reserveSync (tx : TxRead) (size tail : UInt64) : Except TxRead TxRead :=
  if tx.invalidated_ then .error tx
  else
    let tx := { tx with cachedTail_ := tail }
    if size > tx.data then .error { tx with invalidated_ := true } else .ok tx

/-- `imp_read` with a load of `tail_` before the only check. -/
def TxRead.impReadSync (tx : TxRead) (block : Block) (core : Int32) (buffer : ℕ → UInt8)
    (size : UInt64) : ReadResult :=
  match tx.reserveSync size block.status.tail_ with
  | .error tx' =>
      { ok := false
        tx := tx'
        block := if tx.invalidated_ then block else block.storeConsumerCore core
        buffer := buffer }
  | .ok tx' =>
      { ok := true
        tx := tx'.finish size
        block := block.resetConsumerCore
        buffer := (copies tx'.head_ tx'.capacity_ size).foldl
          (fun buffer c => c.copyOut block.ring buffer) buffer }

/-- Two write transactions are alike if they differ in the cached head at most. -/
def TxWrite.Alike (tx tx' : TxWrite) : Prop := ∃ v, tx' = { tx with cachedHead_ := v }

/-- Two read transactions are alike if they differ in the cached tail at most. -/
def TxRead.Alike (tx tx' : TxRead) : Prop := ∃ v, tx' = { tx with cachedTail_ := v }

/-- Two availability checks have the same outcome, with transactions that are related by `R`. -/
inductive SameOutcome {τ : Type*} (R : τ → τ → Prop) : Except τ τ → Except τ τ → Prop where
  | ok {tx tx' : τ} : R tx tx' → SameOutcome R (.ok tx) (.ok tx')
  | error {tx tx' : τ} : R tx tx' → SameOutcome R (.error tx) (.error tx')

variable {cap : UInt64} {block : Block} {p q r : ℕ}

section Write

variable {tx tx' : TxWrite} {size head : UInt64}

theorem TxWrite.Alike.refl (tx : TxWrite) : tx.Alike tx := ⟨tx.cachedHead_, rfl⟩

theorem TxWrite.Alike.symm (h : tx.Alike tx') : tx'.Alike tx := by
  obtain ⟨v, rfl⟩ := h
  exact ⟨tx.cachedHead_, rfl⟩

theorem TxWrite.Alike.finish (h : tx.Alike tx') (size : UInt64) :
    (tx.finish size).Alike (tx'.finish size) := by
  obtain ⟨v, rfl⟩ := h
  exact ⟨v, rfl⟩

/-- The check without the cache succeeds exactly if the buffer fits before the spare slot. -/
theorem TxWrite.Ready.reserveSync_eq (h : tx.Ready cap block q r) (hcap : IsPowTwo cap)
    (size : UInt64) :
    tx.reserveSync size block.status.head_ =
      if q + size.toNat ≤ r + (cap.toNat - 1) then
        .ok { tx with cachedHead_ := block.status.head_ }
      else .error { tx with cachedHead_ := block.status.head_, invalidated_ := true } := by
  obtain ⟨p, hpr, hlap, hat⟩ := h.cached
  have hrq := h.le
  have hload : TxWrite.At cap
      { tx with cachedHead_ := block.status.head_, invalidated_ := false } r q :=
    ⟨hat.queue, hat.capacity, hat.tail, h.head⟩
  have hspace := hload.space_toNat hcap hrq (by omega)
  simp only [TxWrite.reserveSync, h.valid, Bool.false_eq_true, if_false, gt_iff_lt,
    UInt64.lt_iff_toNat_lt]
  rw [hspace]
  split_ifs with hless hfits hfits
  · omega
  · rfl
  · rfl
  · omega

/-- On a ready transaction the check has the same outcome with and without the cache. -/
theorem TxWrite.Ready.sameOutcome (h : tx.Ready cap block q r) (hcap : IsPowTwo cap)
    (size : UInt64) :
    SameOutcome TxWrite.Alike (tx.reserve size block.status.head_)
      (tx.reserveSync size block.status.head_) := by
  have hiff : (∃ tx', tx.reserve size block.status.head_ = .ok tx') ↔ _ := h.reserve_iff hcap
  rw [h.reserveSync_eq hcap]
  cases hreserve : tx.reserve size block.status.head_ with
  | ok tx' =>
      obtain ⟨-, -, rfl⟩ := TxWrite.reserve_eq_ok hreserve
      rw [if_pos (hiff.1 ⟨_, hreserve⟩)]
      exact .ok ⟨_, rfl⟩
  | error tx' =>
      have hnot : ¬ q + size.toNat ≤ r + (cap.toNat - 1) := by
        intro hfits
        simpa [hreserve] using hiff.2 hfits
      obtain ⟨-, -, rfl⟩ := TxWrite.reserve_eq_error hreserve
      rw [if_neg hnot]
      exact .error ⟨_, rfl⟩

/-- The same for a transaction that may be invalid, against any that is alike. -/
theorem TxWrite.sameOutcome (hcap : IsPowTwo cap)
    (hready : tx.invalidated_ = false → tx.Ready cap block q r) (halike : tx.Alike tx')
    (size : UInt64) :
    SameOutcome TxWrite.Alike (tx.reserve size block.status.head_)
      (tx'.reserveSync size block.status.head_) := by
  obtain ⟨v, rfl⟩ := halike
  cases hinv : tx.invalidated_ with
  | true =>
      simp only [TxWrite.reserve, TxWrite.reserveSync, hinv, if_true]
      exact .error ⟨v, by rw [hinv]⟩
  | false =>
      have hsame := (hready hinv).sameOutcome hcap size
      simpa only [TxWrite.reserveSync, hinv, Bool.false_eq_true, if_false] using hsame

/-- With any cached head, `imp_write` does the same as without a cache. -/
theorem TxWrite.impWrite_sync (hcap : IsPowTwo cap) (halike : tx.Alike tx')
    (hready : tx.invalidated_ = false → tx.Ready cap block q r) (core : Int32)
    (buffer : ℕ → UInt8) (size : UInt64) :
    (tx.impWrite block core buffer size).ok = (tx'.impWriteSync block core buffer size).ok ∧
      (tx.impWrite block core buffer size).block = (tx'.impWriteSync block core buffer size).block ∧
      (tx.impWrite block core buffer size).tx.Alike
        (tx'.impWriteSync block core buffer size).tx := by
  have hsame := sameOutcome hcap hready halike size
  have hinvalid : tx'.invalidated_ = tx.invalidated_ := by
    obtain ⟨v, rfl⟩ := halike
    rfl
  unfold impWrite impWriteSync
  rw [hinvalid]
  generalize tx.reserve size block.status.head_ = outcome at hsame
  generalize tx'.reserveSync size block.status.head_ = outcome' at hsame
  cases hsame with
  | ok halike =>
      obtain ⟨v, rfl⟩ := halike
      exact ⟨rfl, rfl, v, rfl⟩
  | error halike => exact ⟨rfl, rfl, halike⟩

end Write

section Read

variable {tx tx' : TxRead} {size tail : UInt64}

theorem TxRead.Alike.refl (tx : TxRead) : tx.Alike tx := ⟨tx.cachedTail_, rfl⟩

theorem TxRead.Alike.symm (h : tx.Alike tx') : tx'.Alike tx := by
  obtain ⟨v, rfl⟩ := h
  exact ⟨tx.cachedTail_, rfl⟩

theorem TxRead.Alike.finish (h : tx.Alike tx') (size : UInt64) :
    (tx.finish size).Alike (tx'.finish size) := by
  obtain ⟨v, rfl⟩ := h
  exact ⟨v, rfl⟩

/-- The check without the cache succeeds exactly if the request ends at or before the tail. -/
theorem TxRead.Ready.reserveSync_eq (h : tx.Ready cap block p r) (hcap : IsPowTwo cap)
    (size : UInt64) :
    tx.reserveSync size block.status.tail_ =
      if p + size.toNat ≤ r then .ok { tx with cachedTail_ := block.status.tail_ }
      else .error { tx with cachedTail_ := block.status.tail_, invalidated_ := true } := by
  obtain ⟨q, hqr, hpq, hat⟩ := h.cached
  have hload : TxRead.At cap
      { tx with cachedTail_ := block.status.tail_, invalidated_ := false } p r :=
    ⟨hat.queue, hat.capacity, hat.head, h.tail⟩
  have hdata := hload.data_toNat hcap (hpq.trans hqr) h.lap
  simp only [TxRead.reserveSync, h.valid, Bool.false_eq_true, if_false, gt_iff_lt,
    UInt64.lt_iff_toNat_lt]
  rw [hdata]
  split_ifs with hless hfits hfits
  · omega
  · rfl
  · rfl
  · omega

/-- On a ready transaction the check has the same outcome with and without the cache. -/
theorem TxRead.Ready.sameOutcome (h : tx.Ready cap block p r) (hcap : IsPowTwo cap)
    (size : UInt64) :
    SameOutcome TxRead.Alike (tx.reserve size block.status.tail_)
      (tx.reserveSync size block.status.tail_) := by
  have hiff : (∃ tx', tx.reserve size block.status.tail_ = .ok tx') ↔ _ := h.reserve_iff hcap
  rw [h.reserveSync_eq hcap]
  cases hreserve : tx.reserve size block.status.tail_ with
  | ok tx' =>
      obtain ⟨-, -, rfl⟩ := TxRead.reserve_eq_ok hreserve
      rw [if_pos (hiff.1 ⟨_, hreserve⟩)]
      exact .ok ⟨_, rfl⟩
  | error tx' =>
      have hnot : ¬ p + size.toNat ≤ r := by
        intro hfits
        simpa [hreserve] using hiff.2 hfits
      obtain ⟨-, -, rfl⟩ := TxRead.reserve_eq_error hreserve
      rw [if_neg hnot]
      exact .error ⟨_, rfl⟩

/-- The same for a transaction that may be invalid, against any that is alike. -/
theorem TxRead.sameOutcome (hcap : IsPowTwo cap)
    (hready : tx.invalidated_ = false → tx.Ready cap block p r) (halike : tx.Alike tx')
    (size : UInt64) :
    SameOutcome TxRead.Alike (tx.reserve size block.status.tail_)
      (tx'.reserveSync size block.status.tail_) := by
  obtain ⟨v, rfl⟩ := halike
  cases hinv : tx.invalidated_ with
  | true =>
      simp only [TxRead.reserve, TxRead.reserveSync, hinv, if_true]
      exact .error ⟨v, by rw [hinv]⟩
  | false =>
      have hsame := (hready hinv).sameOutcome hcap size
      simpa only [TxRead.reserveSync, hinv, Bool.false_eq_true, if_false] using hsame

/-- With any cached tail, `imp_read` does the same as without a cache. -/
theorem TxRead.impRead_sync (hcap : IsPowTwo cap) (halike : tx.Alike tx')
    (hready : tx.invalidated_ = false → tx.Ready cap block p r) (core : Int32)
    (buffer : ℕ → UInt8) (size : UInt64) :
    (tx.impRead block core buffer size).ok = (tx'.impReadSync block core buffer size).ok ∧
      (tx.impRead block core buffer size).block = (tx'.impReadSync block core buffer size).block ∧
      (tx.impRead block core buffer size).buffer =
        (tx'.impReadSync block core buffer size).buffer ∧
      (tx.impRead block core buffer size).tx.Alike
        (tx'.impReadSync block core buffer size).tx := by
  have hsame := sameOutcome hcap hready halike size
  have hinvalid : tx'.invalidated_ = tx.invalidated_ := by
    obtain ⟨v, rfl⟩ := halike
    rfl
  unfold impRead impReadSync
  rw [hinvalid]
  generalize tx.reserve size block.status.tail_ = outcome at hsame
  generalize tx'.reserveSync size block.status.tail_ = outcome' at hsame
  cases hsame with
  | ok halike =>
      obtain ⟨v, rfl⟩ := halike
      exact ⟨rfl, rfl, rfl, v, rfl⟩
  | error halike => exact ⟨rfl, rfl, rfl, halike⟩

end Read

end TxQueue
