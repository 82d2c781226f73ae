import TxQueue.Utests.Compression

/-!
# The streaming hash against the standard

At any time the status stands for a stream of bytes: `h` is the hash value of its full blocks that
are processed, and the first `cur` bytes of `curr_block` are the ones behind them. `update` appends
its buffer to the stream, and `to_digest` appends the padding.
-/

namespace TxQueue.Sha256

open Library Library.Fips180

/-- The bytes of a digest, which is four big-endian words. -/
def Digest.bytes (digest : Digest) : List UInt8 :=
  [digest.a, digest.b, digest.c, digest.d].flatMap fun x => beBytes 8 x.toNat

/-- The status stands for the stream `processed ++ tail`. -/
structure Buffered (status : Status) (processed tail : List UInt8) : Prop where
  whole : processed.length % 64 = 0
  hash : status.hash = hashBlocks processed
  cur : status.cur.toNat = tail.length
  bytes : status.currBlock.toList.take tail.length = tail

/-- The status between two calls of `update`, after the bytes of `message`. -/
structure Streamed (status : Status) (message : List UInt8) : Prop where
  buffered : ∃ processed tail, message = processed ++ tail ∧ tail.length < 64 ∧
    Buffered status processed tail
  bits : status.totalNumBits = UInt64.ofNat (8 * message.length)

/-! ## The partial block -/

/-- A store within the block comes behind the bytes before it. -/
theorem store_eq {start : UInt64} {bs : List UInt8} (block : Vector UInt8 64)
    (hle : start.toNat + bs.length ≤ 64) : ∃ block', store block start bs = some block' ∧
      block'.toList.take (start.toNat + bs.length) = block.toList.take start.toNat ++ bs := by
  refine ⟨_, if_pos hle, ?_⟩
  refine List.ext_getElem (by simp; omega) ?_
  intro i hi _
  rw [List.length_take, Vector.length_toList] at hi
  rw [List.getElem_take, Vector.getElem_toList, Vector.getElem_ofFn]
  dsimp only
  by_cases hlt : i < start.toNat
  · rw [if_neg (by omega), List.getElem_append_left (by simp; omega)]
    simp
  · rw [if_pos (by omega), List.getElem_append_right (by simp; omega)]
    simp [List.getD, show i - start.toNat < bs.length by omega,
      show min start.toNat 64 = start.toNat by omega]

namespace Buffered

variable {status : Status} {processed tail : List UInt8}

/-- A store behind the tail, with any update of `cur` that counts its bytes. -/
theorem store (h : Buffered status processed tail) (bs : List UInt8)
    (hle : tail.length + bs.length ≤ 64) :
    ∃ block, Sha256.store status.currBlock status.cur bs = some block ∧
      ∀ cur bits, cur.toNat = tail.length + bs.length →
        Buffered { status with currBlock := block, cur := cur, totalNumBits := bits } processed
          (tail ++ bs) := by
  obtain ⟨block, hblock, htake⟩ := store_eq status.currBlock (h.cur ▸ hle)
  rw [h.cur, h.bytes] at htake
  refine ⟨block, hblock, ?_⟩
  intro cur bits hcur
  refine ⟨h.whole, h.hash, by rw [hcur, List.length_append], ?_⟩
  rwa [List.length_append]

/-- `memset` behind the tail. -/
theorem clear (h : Buffered status processed tail) (count : UInt64)
    (hle : tail.length + count.toNat ≤ 64) :
    ∃ block, Sha256.clear status.currBlock status.cur count = some block ∧
      ∀ cur, cur.toNat = tail.length + count.toNat →
        Buffered { status with currBlock := block, cur := cur } processed
          (tail ++ List.replicate count.toNat 0) := by
  obtain ⟨block, hblock, hnext⟩ := h.store (List.replicate count.toNat 0) (by simpa using hle)
  exact ⟨block, hblock, fun cur hcur => hnext cur _ (by simpa using hcur)⟩

/-- A full block is processed. -/
theorem process (h : Buffered status processed tail) (hfull : tail.length = 64) :
    Buffered { processBlock status with cur := 0 } (processed ++ tail) [] := by
  have hwhole := h.whole
  have hrest : remainder 64 processed = [] :=
    List.eq_nil_of_length_eq_zero (by rw [length_remainder, hwhole])
  have hblock : status.currBlock.toList = tail := by
    rw [← h.bytes, hfull, List.take_of_length_le (by simp)]
  have hlength : (remainder 64 processed).length + tail.length = 64 := by
    rw [hrest, List.length_nil, Nat.zero_add, hfull]
  obtain ⟨hblocks, -⟩ := blocks_append_of_eq (by decide) hlength
  refine ⟨by rw [List.length_append]; omega, ?_, rfl, rfl⟩
  show (processBlock status).hash = _
  rw [processBlock_hash, h.hash, hblock, hashBlocks, hashBlocks, hblocks, hrest, List.foldl_append]
  rfl

end Buffered

/-! ## `update` -/

/-- A fresh status, whatever `curr_block` holds. -/
theorem streamed_fresh (block : Vector UInt8 64) : Streamed { currBlock := block } [] :=
  ⟨⟨[], [], rfl, by decide, rfl, hash_fresh block, rfl, rfl⟩, rfl⟩

theorem toNat_min (a b : UInt64) : (min a b).toNat = min a.toNat b.toNat := by
  show (if a ≤ b then a else b).toNat = _
  split
  · next hle => exact (Nat.min_eq_left (UInt64.le_iff_toNat_le.1 hle)).symm
  · next hnot =>
      exact (Nat.min_eq_right (Nat.le_of_not_le fun h => hnot (UInt64.le_iff_toNat_le.2 h))).symm

/-- One iteration takes some bytes from the buffer. -/
theorem updateLoop_body {s : UpdateState} {message : List UInt8} (h : Streamed s.status message)
    (hne : s.pc ≠ []) (hlt : s.pc.length < 2 ^ 64) :
    ∃ s' chunk, updateLoop.body s = some s' ∧ s.pc = chunk ++ s'.pc ∧ chunk ≠ [] ∧
      Streamed s'.status (message ++ chunk) := by
  obtain ⟨processed, tail, rfl, htail, hbuffered⟩ := h.buffered
  have hpos : 0 < s.pc.length := List.length_pos_iff.2 hne
  have hcur := hbuffered.cur
  -- the number of bytes that fit, in unbounded arithmetic
  obtain ⟨n, hn⟩ : ∃ n, n = min (64 - s.status.cur) (UInt64.ofNat s.pc.length) := ⟨_, rfl⟩
  have hcount : n.toNat = min (64 - tail.length) s.pc.length := by
    have havailable : (64 - s.status.cur).toNat = 64 - tail.length := by
      rw [UInt64.toNat_sub, hcur, show (64 : UInt64).toNat = 64 from rfl]
      omega
    have hleft : (UInt64.ofNat s.pc.length).toNat = s.pc.length := by
      rw [UInt64.toNat_ofNat', Nat.mod_eq_of_lt hlt]
    rw [hn, toNat_min, havailable, hleft]
  have hchunk : (s.pc.take n.toNat).length = n.toNat := by
    rw [List.length_take]
    omega
  obtain ⟨block, hblock, hnext⟩ := hbuffered.store (s.pc.take n.toNat) (by omega)
  have hsum : (s.status.cur + n).toNat = tail.length + n.toNat := by
    rw [UInt64.toNat_add, hcur]
    omega
  have hstored := hnext (s.status.cur + n) (s.status.totalNumBits + n * 8) (by rw [hsum, hchunk])
  have hbits : s.status.totalNumBits + n * 8 =
      UInt64.ofNat (8 * (processed ++ tail ++ s.pc.take n.toNat).length) := by
    rw [h.bits, @List.length_append _ (processed ++ tail), hchunk, Nat.mul_add,
      UInt64.ofNat_add, UInt64.ofNat_mul 8 n.toNat, UInt64.ofNat_toNat, UInt64.mul_comm n]
    rfl
  simp only [updateLoop, ← hn, hblock, Option.map_some]
  refine ⟨_, s.pc.take n.toNat, rfl, (List.take_append_drop _ _).symm, ?_, ?_, ?_⟩
  · intro hnil
    rw [hnil, List.length_nil] at hchunk
    omega
  · split
    · next hfull =>
        have hfull' : (tail ++ s.pc.take n.toNat).length = 64 := by
          rw [ge_iff_le, UInt64.le_iff_toNat_le, hsum] at hfull
          change 64 ≤ _ at hfull
          rw [List.length_append, hchunk]
          omega
        exact ⟨_, [], by rw [List.append_assoc, List.append_nil], by decide, hstored.process hfull'⟩
    · next hpartial =>
        refine ⟨_, _, List.append_assoc _ _ _, ?_, hstored⟩
        rw [ge_iff_le, UInt64.le_iff_toNat_le, hsum] at hpartial
        change ¬ 64 ≤ _ at hpartial
        rw [List.length_append, hchunk]
        omega
  · split <;> exact hbits

/-- `update` returns, within an iteration for every byte, and appends its buffer. -/
theorem exitWithin_streamed {status : Status} {message buffer : List UInt8}
    (h : Streamed status message) (hlt : buffer.length < 2 ^ 64) :
    ∃ t, updateLoop.exitWithin (buffer.length + 1) ⟨status, buffer⟩ = some t ∧
      Streamed t.status (message ++ buffer) := by
  have hexits := Loop.exitWithin_of_measure (L := updateLoop) (s := ⟨status, buffer⟩)
    (I := fun s => s.pc.length < 2 ^ 64 ∧
      ∃ seen, message ++ buffer = seen ++ s.pc ∧ Streamed s.status seen)
    (fun s => s.pc.length) ?_ ⟨hlt, message, rfl, h⟩ (Nat.lt_succ_self _)
  · obtain ⟨t, ht, ⟨-, seen, hseen, hstreamed⟩, hguard⟩ := hexits
    have hdone : t.pc = [] := by simpa [updateLoop] using hguard
    refine ⟨t, ht, ?_⟩
    rwa [hseen, hdone, List.append_nil]
  · rintro s ⟨hshort, seen, hseen, hstreamed⟩ hguard
    have hne : s.pc ≠ [] := by simpa [updateLoop] using hguard
    obtain ⟨s', chunk, hbody, hpc, hchunk, hnext⟩ := updateLoop_body hstreamed hne hshort
    have hlength := congrArg List.length hpc
    rw [List.length_append] at hlength
    have hpos := List.length_pos_iff.2 hchunk
    refine ⟨s', hbody, ⟨by omega, seen ++ chunk, ?_, hnext⟩, by omega⟩
    rw [hseen, hpc, List.append_assoc]

theorem update_streamed {status : Status} {message buffer : List UInt8}
    (h : Streamed status message) (hlt : buffer.length < 2 ^ 64) :
    ∃ status', update status buffer = some status' ∧ Streamed status' (message ++ buffer) := by
  obtain ⟨t, ht, hstreamed⟩ := exitWithin_streamed h hlt
  exact ⟨t.status, by rw [update, ht, Option.map_some], hstreamed⟩

theorem updates_streamed {status : Status} {message buffer : List UInt8}
    (h : Streamed status message) (hlt : buffer.length < 2 ^ 64) :
    ∃ status', Updates status buffer status' ∧ Streamed status' (message ++ buffer) := by
  obtain ⟨t, ht, hstreamed⟩ := exitWithin_streamed h hlt
  exact ⟨t.status, ⟨t.pc, Loop.exits_of_exitWithin ht⟩, hstreamed⟩

/-- `update` leaves one status only. -/
theorem updates_unique {status status' status'' : Status} {buffer : List UInt8}
    (h : Updates status buffer status') (h' : Updates status buffer status'') :
    status' = status'' := by
  obtain ⟨pc, hexits⟩ := h
  obtain ⟨pc', hexits'⟩ := h'
  exact congrArg UpdateState.status (hexits.unique hexits')

/-- Any number of calls returns, and appends the buffers in order. -/
theorem updatesAll_streamed {status : Status} {message : List UInt8} {pieces : List (List UInt8)}
    (h : Streamed status message) (hlt : pieces.flatten.length < 2 ^ 64) :
    ∃ status', UpdatesAll status pieces status' ∧
      Streamed status' (message ++ pieces.flatten) := by
  induction pieces generalizing status message with
  | nil => exact ⟨status, rfl, by simpa using h⟩
  | cons buffer pieces ih =>
      rw [List.flatten_cons, List.length_append] at hlt
      obtain ⟨next, hnext, hstreamed⟩ := updates_streamed h (by omega : buffer.length < 2 ^ 64)
      obtain ⟨status', hall, hdone⟩ := ih hstreamed (by omega)
      exact ⟨status', ⟨next, hnext, hall⟩, by rwa [List.flatten_cons, ← List.append_assoc]⟩

/-- They leave one status only. -/
theorem updatesAll_unique {status status' status'' : Status} {pieces : List (List UInt8)}
    (h : UpdatesAll status pieces status') (h' : UpdatesAll status pieces status'') :
    status' = status'' := by
  induction pieces generalizing status with
  | nil => exact Eq.trans h h'.symm
  | cons buffer pieces ih =>
      obtain ⟨next, hnext, hall⟩ := h
      obtain ⟨next', hnext', hall'⟩ := h'
      obtain rfl := updates_unique hnext hnext'
      exact ih hall hall'

/-! ## `to_digest` -/

/-- The number of zeros behind the end tag, as `to_digest` computes it. -/
theorem afterEndZeros_toNat {n : ℕ} (hn : n < 2 ^ 61) :
    (((55 - UInt64.ofNat (8 * n) / 8) % 64 + 64) % 64 : UInt64).toNat = zeros n := by
  have hlength : (UInt64.ofNat (8 * n) / 8).toNat = n := by
    rw [UInt64.toNat_div, UInt64.toNat_ofNat', Nat.mod_eq_of_lt (by omega)]
    exact Nat.mul_div_cancel_left n (by decide)
  have hsub : (55 - UInt64.ofNat (8 * n) / 8).toNat % 64 = zeros n := by
    rw [UInt64.toNat_sub, hlength, show (55 : UInt64).toNat = 55 from rfl]
    unfold zeros
    omega
  rw [UInt64.toNat_mod, UInt64.toNat_add, UInt64.toNat_mod]
  change ((55 - UInt64.ofNat (8 * n) / 8).toNat % 64 + 64) % 2 ^ 64 % 64 = zeros n
  have hlt : zeros n < 64 := Nat.mod_lt _ (by decide)
  omega

/-- The zeros fill the block up to the length, with a block in between if the tag leaves too little
room for it. -/
theorem padZeros_buffered {status : Status} {processed tail : List UInt8} {n : ℕ}
    (h : Buffered status processed tail) (hn : n < 2 ^ 61)
    (hbits : status.totalNumBits = UInt64.ofNat (8 * n)) (htail : tail.length = n % 64 + 1) :
    ∃ status' processed' tail', padZeros status = some status' ∧
      Buffered status' processed' tail' ∧
      processed' ++ tail' = processed ++ tail ++ List.replicate (zeros n) 0 ∧
      tail'.length = 56 ∧ status'.totalNumBits = status.totalNumBits := by
  have hz := afterEndZeros_toNat hn
  rw [← hbits] at hz
  obtain ⟨z, hzdef⟩ : ∃ z, z = ((55 - status.totalNumBits / 8) % 64 + 64) % 64 := ⟨_, rfl⟩
  have hremaining : (64 - status.cur).toNat = 63 - n % 64 := by
    rw [UInt64.toNat_sub, h.cur, htail, show (64 : UInt64).toNat = 64 from rfl]
    omega
  unfold padZeros
  rw [← hzdef] at hz ⊢
  have hzeros : zeros n = (119 - n % 64) % 64 := rfl
  by_cases hzero : z = 0
  · -- exactly 55: the tag ends where the length starts
    rw [hzero, UInt64.toNat_zero] at hz
    refine ⟨status, processed, tail, by simp [hzero], h, ?_, by omega, rfl⟩
    rw [← hz, List.replicate_zero, List.append_nil]
  · have hpos : z.toNat ≠ 0 := fun h => hzero (UInt64.toNat_inj.1 h)
    have hlast := h.cur
    by_cases hspill : z > 64 - status.cur
    · have hmore := hspill
      rw [gt_iff_lt, UInt64.lt_iff_toNat_lt, hremaining] at hmore
      have hsecond : (z - (64 - status.cur)).toNat = 56 := by
        rw [UInt64.toNat_sub, hremaining]
        omega
      -- the tag's block is filled and processed
      obtain ⟨block, hblock, hnext⟩ := h.clear (64 - status.cur) (by omega)
      have hprocessed := (hnext 64 (by rw [hremaining, htail]; show 64 = _; omega)).process
        (by rw [List.length_append, List.length_replicate]; omega)
      obtain ⟨block', hblock', hnext'⟩ := hprocessed.clear (z - (64 - status.cur))
        (by rw [hsecond]; decide)
      have hcleared : Sha256.clear (processBlock { status with currBlock := block }).currBlock 0
          (z - (64 - status.cur)) = some block' := hblock'
      refine ⟨_, _, _, ?_, hnext' (z - (64 - status.cur)) (by simp), ?_, ?_, rfl⟩
      · simp only [ne_eq, hzero, not_false_eq_true, if_true, hspill, hblock, hcleared,
          Option.bind_eq_bind, Option.bind_some]
        rfl
      · have hsum : zeros n = (64 - status.cur).toNat + (z - (64 - status.cur)).toNat := by omega
        rw [hsum, List.replicate_add]
        simp
      · rw [List.nil_append, List.length_replicate, hsecond]
    · have hless := hspill
      rw [gt_iff_lt, UInt64.lt_iff_toNat_lt, hremaining] at hless
      have hsum : (status.cur + z).toNat = tail.length + z.toNat := by
        rw [UInt64.toNat_add, hlast]
        omega
      obtain ⟨block, hblock, hnext⟩ := h.clear z (by omega)
      refine ⟨_, _, _, ?_, hnext (status.cur + z) hsum, ?_, ?_, rfl⟩
      · simp only [ne_eq, hzero, not_false_eq_true, if_true, hspill, if_false, hblock,
          Option.bind_eq_bind, Option.bind_some]
        rfl
      · rw [hz, List.append_assoc]
      · rw [List.length_append, List.length_replicate]
        omega

/-- The words of the digest, byte by byte. -/
theorem bytes_word (high low : UInt32) :
    beBytes 8 (high.toUInt64 <<< 32 ||| low.toUInt64).toNat =
      beBytes 4 high.toNat ++ beBytes 4 low.toNat := by
  have hhigh := high.toNat_lt
  have hlow := low.toNat_lt
  have hsum : (high.toUInt64 <<< 32 ||| low.toUInt64).toNat = high.toNat * 256 ^ 4 + low.toNat := by
    have hshift : high.toNat <<< 32 < 2 ^ 64 := by
      rw [Nat.shiftLeft_eq]
      omega
    rw [UInt64.toNat_or, UInt64.toNat_shiftLeft, UInt32.toNat_toUInt64, UInt32.toNat_toUInt64,
      show (32 : UInt64).toNat % 64 = 32 from rfl, Nat.mod_eq_of_lt hshift,
      ← Nat.shiftLeft_add_eq_or_of_lt hlow, Nat.shiftLeft_eq, show 256 ^ 4 = 2 ^ 32 from rfl]
  rw [hsum]
  exact beBytes_add (m := 4) hlow

/-- The words of the digest are those of the hash value. -/
theorem bytes_digest (status : Status) : status.digest.bytes = status.hash.bytes := by
  simp only [Status.digest, Digest.bytes, Words.bytes, List.flatMap_cons, List.flatMap_nil,
    bytes_word, List.append_assoc]
  rfl

/-- `to_digest` returns the digest of the stream. -/
theorem toDigest_streamed {status : Status} {message : List UInt8} (h : Streamed status message)
    (hlt : message.length < 2 ^ 61) :
    ∃ digest, toDigest status = some digest ∧ digest.bytes = sha256 message := by
  obtain ⟨processed, tail, hmessage, htail, hbuffered⟩ := h.buffered
  have hwhole := hbuffered.whole
  have hlength : tail.length = message.length % 64 := by
    rw [hmessage, List.length_append]
    omega
  obtain ⟨block, hblock, hnext⟩ := hbuffered.store [0x80]
    (by rw [List.length_singleton]; omega)
  have hcur : (status.cur + 1).toNat = tail.length + 1 := by
    rw [UInt64.toNat_add, hbuffered.cur, UInt64.toNat_one]
    omega
  have htagged := hnext (status.cur + 1) status.totalNumBits hcur
  obtain ⟨padded, processed', tail', hpadded, hbuffered', hstream, htail', hbits⟩ :=
    padZeros_buffered htagged hlt h.bits (by simpa using hlength)
  -- the length in bits, most significant byte first
  have hbytes : le64 (portableBswap64 padded.totalNumBits) = beBytes 8 (8 * message.length) := by
    rw [portableBswap64, le64_ofLe64 (by simp), reverse_le64, hbits]
    show beBytes 8 status.totalNumBits.toNat = _
    rw [h.bits, UInt64.toNat_ofNat', Nat.mod_eq_of_lt (by omega)]
  obtain ⟨block', hblock', hnext'⟩ :=
    hbuffered'.store (beBytes 8 (8 * message.length)) (by rw [htail', length_beBytes])
  have hfinal := (hnext' 64 0 (by rw [htail', length_beBytes]; rfl)).process
    (by rw [List.length_append, htail', length_beBytes])
  have hpad : processed' ++ (tail' ++ beBytes 8 (8 * message.length)) = pad message := by
    rw [← List.append_assoc, hstream, ← List.append_assoc, ← hmessage, pad]
    simp
  have hhash : (processBlock { padded with currBlock := block' }).hash =
      hashBlocks (pad message) := by
    rw [← hpad]
    exact hfinal.hash
  refine ⟨(processBlock { padded with currBlock := block' }).digest, ?_, ?_⟩
  · simp only [toDigest, hblock, hpadded, hbytes, hblock', Option.bind_eq_bind, Option.bind_some]
    rfl
  · rw [bytes_digest, hhash, sha256]

/-- For every message of fewer than 2^61 bytes, every content of the uninitialised block and every
way to split the message into calls of `update`, the calls return, they leave one status only, and
`to_digest` returns the digest of the standard, without an access outside the block. -/
theorem streaming_sha256 (garbage : Vector UInt8 64) (message : List UInt8)
    (pieces : List (List UInt8)) (hlt : message.length < 2 ^ 61)
    (hsplit : pieces.flatten = message) :
    ∃ status, UpdatesAll { currBlock := garbage } pieces status ∧
      (∀ status', UpdatesAll { currBlock := garbage } pieces status' → status' = status) ∧
      ∃ digest, toDigest status = some digest ∧ digest.bytes = sha256 message := by
  subst hsplit
  obtain ⟨status, hall, hstreamed⟩ := updatesAll_streamed (streamed_fresh garbage)
    (by omega : pieces.flatten.length < 2 ^ 64)
  obtain ⟨digest, hdigest, hbytes⟩ := toDigest_streamed hstreamed hlt
  exact ⟨status, hall, fun status' h => updatesAll_unique h hall, digest, hdigest, hbytes⟩

/-- `streaming_sha256` on two pieces with an empty one between them. -/
theorem streaming_sha256_abc : ∃ status digest,
    UpdatesAll { currBlock := Vector.replicate 64 7 } [[97], [], [98, 99]] status ∧
    toDigest status = some digest ∧ digest.bytes = sha256 [97, 98, 99] := by
  obtain ⟨status, hall, -, digest, hdigest, hbytes⟩ :=
    streaming_sha256 (Vector.replicate 64 7) [97, 98, 99] [[97], [], [98, 99]] (by decide) rfl
  exact ⟨status, digest, hall, hdigest, hbytes⟩

/-- The digest of "abc". -/
example : (match updateLoop.run 2 ⟨{ currBlock := Vector.replicate 64 7 }, [97, 98, 99]⟩ with
    | .exited s => toDigest s.status
    | _ => none) =
    some ⟨0xBA7816BF8F01CFEA, 0x414140DE5DAE2223, 0xB00361A396177A9C, 0xB410FF61F20015AD⟩ := by
  decide +kernel

end TxQueue.Sha256
