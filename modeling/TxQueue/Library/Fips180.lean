import TxQueue.Library.BigEndian
import TxQueue.Library.Blocks

/-!
# SHA-256 by the standard

The hash function of FIPS 180-4 on messages of whole bytes: padding, parsing, the message schedule
and the 64 rounds on words of 32 bits. The constants are computed from their definition, as the
first fractional bits of square and cube roots of primes.
-/

namespace Library.Fips180

/-- A word of 32 bits. Its `+` is addition modulo 2^32. -/
abbrev Word := BitVec 32

/-! ## Functions on words -/

def ch (x y z : Word) : Word := (x &&& y) ^^^ (~~~x &&& z)

def maj (x y z : Word) : Word := (x &&& y) ^^^ (x &&& z) ^^^ (y &&& z)

def bigSigma0 (x : Word) : Word := x.rotateRight 2 ^^^ x.rotateRight 13 ^^^ x.rotateRight 22

def bigSigma1 (x : Word) : Word := x.rotateRight 6 ^^^ x.rotateRight 11 ^^^ x.rotateRight 25

def smallSigma0 (x : Word) : Word := x.rotateRight 7 ^^^ x.rotateRight 18 ^^^ x >>> 3

def smallSigma1 (x : Word) : Word := x.rotateRight 17 ^^^ x.rotateRight 19 ^^^ x >>> 10

/-! ## Constants -/

/-- The integer part of the `k`-th root of a number below `2 ^ (k * bits)`, bit by bit. -/
def root (k : ℕ) : ℕ → ℕ → ℕ
  | 0, _ => 0
  | bits + 1, n =>
      let r := 2 * root k bits (n / 2 ^ k)
      if (r + 1) ^ k ≤ n then r + 1 else r

/-- The first 32 bits of the fractional part of the `k`-th root of `p`. -/
def fraction (k p : ℕ) : Word := BitVec.ofNat 32 (root k 35 (p * 2 ^ (32 * k)))

/-- The first sixty-four primes. -/
def primes : List ℕ :=
  [2, 3, 5, 7, 11, 13, 17, 19, 23, 29, 31, 37, 41, 43, 47, 53,
   59, 61, 67, 71, 73, 79, 83, 89, 97, 101, 103, 107, 109, 113, 127, 131,
   137, 139, 149, 151, 157, 163, 167, 173, 179, 181, 191, 193, 197, 199, 211, 223,
   227, 229, 233, 239, 241, 251, 257, 263, 269, 271, 277, 281, 283, 293, 307, 311]

/-- The constant of round `t`. -/
def constant (t : ℕ) : Word := fraction 3 (primes.getD t 0)

/-- Eight words: a hash value, or the working variables. -/
structure Words where
  a : Word
  b : Word
  c : Word
  d : Word
  e : Word
  f : Word
  g : Word
  h : Word
  deriving DecidableEq

/-- The initial hash value. -/
def initial : Words :=
  ⟨fraction 2 2, fraction 2 3, fraction 2 5, fraction 2 7, fraction 2 11, fraction 2 13,
    fraction 2 17, fraction 2 19⟩

/-! ## Preprocessing -/

/-- The number of zero bytes of the padding. -/
def zeros (length : ℕ) : ℕ := (119 - length % 64) % 64

/-- The padded message: the bit 1, zeros, and the length in bits in the last eight bytes. -/
def pad (message : List UInt8) : List UInt8 :=
  message ++ 0x80 :: (List.replicate (zeros message.length) 0 ++ beBytes 8 (8 * message.length))

/-- The number of zeros is the smallest for which the padded message consists of blocks. -/
theorem zeros_smallest (length : ℕ) : (length + 1 + zeros length + 8) % 64 = 0 ∧
    ∀ z, (length + 1 + z + 8) % 64 = 0 → zeros length ≤ z := by
  unfold zeros
  constructor
  · omega
  · intro z hz
    omega

/-- The word with the given bytes, the most significant first. -/
def word (b0 b1 b2 b3 : UInt8) : Word :=
  b0.toBitVec ++ b1.toBitVec ++ b2.toBitVec ++ b3.toBitVec

/-- Word `t` of a block. -/
def blockWord (block : List UInt8) (t : ℕ) : Word :=
  word (block.getD (4 * t) 0) (block.getD (4 * t + 1) 0) (block.getD (4 * t + 2) 0)
    (block.getD (4 * t + 3) 0)

/-! ## Hash computation -/

/-- The message schedule. -/
def schedule (block : List UInt8) (t : ℕ) : Word :=
  if t < 16 then blockWord block t
  else smallSigma1 (schedule block (t - 2)) + schedule block (t - 7) +
    smallSigma0 (schedule block (t - 15)) + schedule block (t - 16)

/-- One round, with its constant and the word of the schedule. -/
def round (v : Words) (k w : Word) : Words :=
  let t1 := v.h + bigSigma1 v.e + ch v.e v.f v.g + k + w
  let t2 := bigSigma0 v.a + maj v.a v.b v.c
  ⟨t1 + t2, v.a, v.b, v.c, v.d + t1, v.e, v.f, v.g⟩

/-- The hash value after one more block. -/
def compress (hash : Words) (block : List UInt8) : Words :=
  let v := (List.range 64).foldl (fun v t => round v (constant t) (schedule block t)) hash
  ⟨v.a + hash.a, v.b + hash.b, v.c + hash.c, v.d + hash.d, v.e + hash.e, v.f + hash.f,
    v.g + hash.g, v.h + hash.h⟩

/-- The hash value after the blocks at the front of a message. -/
def hashBlocks (message : List UInt8) : Words := (blocks 64 message).foldl compress initial

/-- The bytes of a hash value. -/
def Words.bytes (v : Words) : List UInt8 :=
  [v.a, v.b, v.c, v.d, v.e, v.f, v.g, v.h].flatMap fun x => beBytes 4 x.toNat

/-- The message digest. -/
def sha256 (message : List UInt8) : List UInt8 := (hashBlocks (pad message)).bytes

/-- The words of a block. -/
theorem schedule_of_lt {block : List UInt8} {t : ℕ} (ht : t < 16) :
    schedule block t = blockWord block t := by
  rw [schedule, if_pos ht]

/-- The recurrence for the other words. -/
theorem schedule_of_le {block : List UInt8} {t : ℕ} (ht : 16 ≤ t) : schedule block t =
    smallSigma1 (schedule block (t - 2)) + schedule block (t - 7) +
      smallSigma0 (schedule block (t - 15)) + schedule block (t - 16) := by
  rw [schedule, if_neg (Nat.not_lt.2 ht)]

/-- The defining property of the root. -/
theorem root_spec {k bits n : ℕ} (hk : 0 < k) (hn : n < (2 ^ bits) ^ k) :
    root k bits n ^ k ≤ n ∧ n < (root k bits n + 1) ^ k := by
  induction bits generalizing n with
  | zero =>
      have hzero : n = 0 := by simpa using hn
      simp [root, hzero, Nat.zero_pow hk]
  | succ bits ih =>
      have hhalf : n / 2 ^ k < (2 ^ bits) ^ k := by
        rw [Nat.div_lt_iff_lt_mul (Nat.two_pow_pos k), ← Nat.mul_pow, ← Nat.pow_succ]
        exact hn
      obtain ⟨hle, hlt⟩ := ih hhalf
      -- doubling the root multiplies the power by `2 ^ k`
      have hlow : (2 * root k bits (n / 2 ^ k)) ^ k ≤ n := by
        rw [Nat.mul_pow, Nat.mul_comm]
        exact Nat.le_trans (Nat.mul_le_mul_right _ hle) (Nat.div_mul_le_self n _)
      have hhigh : n < (2 * root k bits (n / 2 ^ k) + 2) ^ k := by
        rw [Nat.div_lt_iff_lt_mul (Nat.two_pow_pos k), ← Nat.mul_pow] at hlt
        rwa [Nat.add_mul, Nat.one_mul, Nat.mul_comm] at hlt
      simp only [root]
      split
      · next hodd => exact ⟨hodd, hhigh⟩
      · next heven => exact ⟨hlow, Nat.not_le.1 heven⟩

/-- A constant has the bits below the 32nd of the root scaled by 2^32. -/
theorem fraction_spec {k p : ℕ} (hk : 0 < k) (hp : p < 8 ^ k) :
    ∃ r, fraction k p = BitVec.ofNat 32 r ∧ r ^ k ≤ p * 2 ^ (32 * k) ∧
      p * 2 ^ (32 * k) < (r + 1) ^ k := by
  have hbound : p * 2 ^ (32 * k) < (2 ^ 35) ^ k := by
    calc p * 2 ^ (32 * k) < 8 ^ k * 2 ^ (32 * k) :=
          Nat.mul_lt_mul_of_pos_right hp (Nat.two_pow_pos _)
      _ = (8 * 2 ^ 32) ^ k := by rw [Nat.pow_mul, ← Nat.mul_pow]
      _ = (2 ^ 35) ^ k := rfl
  exact ⟨_, rfl, root_spec hk hbound⟩

end Library.Fips180
