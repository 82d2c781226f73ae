import TxQueue.Library.Fips180
import TxQueue.Utests.Sha256

/-!
# `process_block` against the standard

The functions on 32-bit words, the table of constants, the message schedule and the rounds, each
against its definition in the standard, and from them one block.
-/

namespace TxQueue.Sha256

open Library Library.Fips180

/-- The variables as words of the standard. -/
def Vars.words (v : Vars) : Words :=
  ⟨v.a.toBitVec, v.b.toBitVec, v.c.toBitVec, v.d.toBitVec, v.e.toBitVec, v.f.toBitVec,
    v.g.toBitVec, v.h.toBitVec⟩

/-- The hash value in a status. -/
def Status.hash (status : Status) : Words := status.vars.words

/-! ## Functions on words -/

section Functions

variable (x y z : UInt32)

/-- The two shifts of `rotr` are a rotation. -/
theorem rotr_toBitVec {n : UInt32} (hn : 0 < n.toNat ∧ n.toNat < 32) :
    (rotr x n).toBitVec = x.toBitVec.rotateRight n.toNat := by
  obtain ⟨hpos, hlt⟩ := hn
  have hsub : (32 - n).toNat = 32 - n.toNat := by
    rw [UInt32.toNat_sub]
    change (2 ^ 32 - n.toNat + 32) % 2 ^ 32 = _
    omega
  apply BitVec.eq_of_toNat_eq
  rw [BitVec.rotateRight_def, BitVec.toNat_or, BitVec.toNat_ushiftRight, BitVec.toNat_shiftLeft,
    Nat.mod_eq_of_lt hlt]
  show (x >>> n ||| x <<< (32 - n)).toNat = _
  rw [UInt32.toNat_or, UInt32.toNat_shiftRight, UInt32.toNat_shiftLeft, hsub,
    Nat.mod_eq_of_lt hlt, Nat.mod_eq_of_lt (by omega : 32 - n.toNat < 32)]
  rfl

/-- Two rotations and a third word, which is one more rotation or a shift. -/
theorem rotr_xor_rotr_xor_toBitVec {m n : UInt32} (hm : 0 < m.toNat ∧ m.toNat < 32)
    (hn : 0 < n.toNat ∧ n.toNat < 32) : (rotr x m ^^^ rotr x n ^^^ y).toBitVec =
      x.toBitVec.rotateRight m.toNat ^^^ x.toBitVec.rotateRight n.toNat ^^^ y.toBitVec := by
  rw [UInt32.toBitVec_xor, UInt32.toBitVec_xor, rotr_toBitVec x hm, rotr_toBitVec x hn]

theorem sigma0_toBitVec : (sigma0 x).toBitVec = bigSigma0 x.toBitVec := by
  unfold sigma0 bigSigma0
  rw [rotr_xor_rotr_xor_toBitVec x _ (by decide) (by decide),
    rotr_toBitVec x (by decide)]
  rfl

theorem sigma1_toBitVec : (sigma1 x).toBitVec = bigSigma1 x.toBitVec := by
  unfold sigma1 bigSigma1
  rw [rotr_xor_rotr_xor_toBitVec x _ (by decide) (by decide),
    rotr_toBitVec x (by decide)]
  rfl

theorem sigma0_256_toBitVec : (sigma0_256 x).toBitVec = smallSigma0 x.toBitVec :=
  rotr_xor_rotr_xor_toBitVec x _ (by decide) (by decide)

theorem sigma1_256_toBitVec : (sigma1_256 x).toBitVec = smallSigma1 x.toBitVec :=
  rotr_xor_rotr_xor_toBitVec x _ (by decide) (by decide)

theorem ch_toBitVec : (ch x y z).toBitVec = Fips180.ch x.toBitVec y.toBitVec z.toBitVec := rfl

theorem maj_toBitVec : (maj x y z).toBitVec = Fips180.maj x.toBitVec y.toBitVec z.toBitVec := rfl

end Functions

/-- The table of the constants. -/
theorem k_toBitVec (j : Fin 64) : (k.get j).toBitVec = constant j := by
  revert j
  decide +kernel

/-- The entry for a round is the first 32 bits behind the point of the cube root of its prime. -/
theorem k_spec (j : Fin 64) : ∃ r, (k.get j).toBitVec = BitVec.ofNat 32 r ∧
    r ^ 3 ≤ primes.getD j 0 * 2 ^ (32 * 3) ∧ primes.getD j 0 * 2 ^ (32 * 3) < (r + 1) ^ 3 := by
  have hprime : ∀ j : Fin 64, primes.getD j 0 < 8 ^ 3 := by decide +kernel
  rw [k_toBitVec]
  exact fraction_spec (Nat.succ_pos 2) (hprime j)

/-- The initial hash value. -/
theorem hash_fresh (block : Vector UInt8 64) :
    Status.hash { currBlock := block } = Fips180.initial := by
  show (⟨0x6A09E667, 0xBB67AE85, 0x3C6EF372, 0xA54FF53A, 0x510E527F, 0x9B05688C, 0x1F83D9AB,
    0x5BE0CD19⟩ : Words) = Fips180.initial
  decide +kernel

/-! ## The message schedule -/

/-- Four bytes shifted into place. -/
theorem word_toBitVec (b0 b1 b2 b3 : UInt8) :
    (b0.toUInt32 <<< 24 ||| b1.toUInt32 <<< 16 ||| b2.toUInt32 <<< 8 ||| b3.toUInt32).toBitVec =
      word b0 b1 b2 b3 := by
  have hshift : ∀ (b : UInt8) (s : UInt32), s.toNat ≤ 24 →
      (b.toUInt32 <<< s).toNat = b.toNat <<< s.toNat := by
    intro b s hs
    have hlt : b.toNat <<< s.toNat < 2 ^ 32 := by
      rw [Nat.shiftLeft_eq]
      calc b.toNat * 2 ^ s.toNat < 2 ^ 8 * 2 ^ s.toNat :=
            Nat.mul_lt_mul_of_pos_right b.toNat_lt (Nat.two_pow_pos _)
        _ ≤ 2 ^ 8 * 2 ^ 24 := Nat.mul_le_mul_left _ (Nat.pow_le_pow_right Nat.two_pos hs)
        _ = 2 ^ 32 := rfl
    rw [UInt32.toNat_shiftLeft, UInt8.toNat_toUInt32, Nat.mod_eq_of_lt (by omega : s.toNat < 32),
      Nat.mod_eq_of_lt hlt]
  apply BitVec.eq_of_toNat_eq
  unfold word
  simp only [BitVec.toNat_append, Nat.shiftLeft_or_distrib, ← Nat.shiftLeft_add]
  show (b0.toUInt32 <<< 24 ||| b1.toUInt32 <<< 16 ||| b2.toUInt32 <<< 8 ||| b3.toUInt32).toNat = _
  rw [UInt32.toNat_or, UInt32.toNat_or, UInt32.toNat_or, hshift b0 24 (by decide),
    hshift b1 16 (by decide), hshift b2 8 (by decide), UInt8.toNat_toUInt32]
  rfl

/-- A word of the block. -/
theorem loadWord_toBitVec (block : Vector UInt8 64) (j : Fin 16) :
    (loadWord block j).toBitVec = blockWord block.toList j := by
  have hbyte : ∀ i (hi : i < 64), block.toList.getD i 0 = block[i] := by
    intro i hi
    simp [List.getD, hi]
  have hj := j.isLt
  rw [loadWord, word_toBitVec, blockWord, hbyte _ (by omega), hbyte _ (by omega),
    hbyte _ (by omega), hbyte _ (by omega)]
  congr 2 <;> simp [Nat.mul_comm]

/-- An array holds the first words of the schedule. -/
def Holds (block : List UInt8) (w : Array UInt32) : Prop :=
  ∀ t < w.size, (w.getD t 0).toBitVec = schedule block t

section Schedule

variable {block : List UInt8} {w : Array UInt32}

/-- The first loop. -/
theorem holds_loadWord (block : Vector UInt8 64) :
    Holds block.toList (Array.ofFn (loadWord block)) := by
  intro t ht
  rw [Array.size_ofFn] at ht
  rw [schedule_of_lt ht, ← loadWord_toBitVec block ⟨t, ht⟩]
  simp [Array.getD, ht]

/-- The next word, behind the ones before. -/
theorem Holds.push {x : UInt32} (h : Holds block w) (hx : x.toBitVec = schedule block w.size) :
    Holds block (w.push x) := by
  intro t ht
  rw [Array.size_push] at ht
  by_cases hlt : t < w.size
  · have hold := h t hlt
    simpa [Array.getD, ht, hlt, Array.getElem_push_lt hlt] using hold
  · obtain rfl : t = w.size := by omega
    simpa [Array.getD] using hx

/-- The second loop computes the rest of the schedule. -/
theorem Holds.extendWords (h : Holds block w) (hsize : w.size = 16) :
    Holds block (extendWords w) ∧ (extendWords w).size = 64 := by
  -- after `n` iterations the array has `16 + n` words
  suffices hloop : ∀ n, Holds block ((List.range' 16 n).foldl (fun w j => w.push
      (sigma1_256 (w.getD (j - 2) 0) + w.getD (j - 7) 0 + sigma0_256 (w.getD (j - 15) 0) +
        w.getD (j - 16) 0)) w) ∧
      ((List.range' 16 n).foldl (fun w j => w.push
        (sigma1_256 (w.getD (j - 2) 0) + w.getD (j - 7) 0 + sigma0_256 (w.getD (j - 15) 0) +
          w.getD (j - 16) 0)) w).size = 16 + n from hloop 48
  intro n
  induction n with
  | zero => exact ⟨h, hsize⟩
  | succ n ih =>
      obtain ⟨hold, hcount⟩ := ih
      rw [List.range'_concat, List.foldl_append, List.foldl_cons, List.foldl_nil, Nat.one_mul]
      generalize (List.range' 16 n).foldl _ w = w' at hold hcount
      refine ⟨hold.push ?_, by rw [Array.size_push, hcount, Nat.add_assoc]⟩
      rw [hcount, schedule_of_le (by omega), ← hold _ (by omega), ← hold _ (by omega),
        ← hold _ (by omega), ← hold _ (by omega), ← sigma0_256_toBitVec, ← sigma1_256_toBitVec]
      rfl

end Schedule

/-! ## The rounds -/

/-- One round. -/
theorem round_words {block : List UInt8} {w : Array UInt32} (h : Holds block w)
    (hsize : w.size = 64) (v : Vars) (j : Fin 64) :
    (round w v j).words = Fips180.round v.words (constant j) (schedule block j) := by
  have hw := h j (by omega)
  rw [← hw, ← k_toBitVec]
  unfold round Fips180.round Vars.words
  simp only [UInt32.toBitVec_add, sigma0_toBitVec, sigma1_toBitVec, ch_toBitVec, maj_toBitVec]

/-- All rounds. -/
theorem rounds_words {block : List UInt8} {w : Array UInt32} (h : Holds block w)
    (hsize : w.size = 64) (v : Vars) :
    ((List.finRange 64).foldl (round w) v).words =
      (List.range 64).foldl (fun v t => Fips180.round v (constant t) (schedule block t))
        v.words := by
  have hrange : List.range 64 = (List.finRange 64).map Fin.val :=
    List.map_coe_finRange_eq_range.symm
  rw [hrange, List.foldl_map]
  generalize List.finRange 64 = js
  induction js generalizing v with
  | nil => rfl
  | cons j js ih => rw [List.foldl_cons, List.foldl_cons, ih, round_words h hsize]

/-- One block. -/
theorem processBlock_hash (status : Status) :
    (processBlock status).hash = compress status.hash status.currBlock.toList := by
  obtain ⟨hold, hsize⟩ :=
    (holds_loadWord status.currBlock).extendWords Array.size_ofFn
  have hrounds := rounds_words hold hsize status.vars
  unfold compress Status.hash
  rw [← hrounds]
  simp only [processBlock, Status.vars, Vars.words, Words.mk.injEq]
  refine ⟨?_, ?_, ?_, ?_, ?_, ?_, ?_, ?_⟩ <;> exact BitVec.add_comm _ _

end TxQueue.Sha256
