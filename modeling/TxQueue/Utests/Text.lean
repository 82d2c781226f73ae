import TxQueue.Utests.Checksum
import TxQueue.Utests.Digest

/-!
# The texts of the digests

`to_string` of both hashes writes its digest in hexadecimal digits: 64 of them for SHA-256, as many
as it takes for the checksum. Either text reads back as the digest.
-/

namespace TxQueue

open Library Library.Fips180

namespace Sha256

/-- The digest that a text of four words stands for. -/
def Digest.ofText (text : String) : Digest where
  a := UInt64.ofNat (hexValue (text.toList.take 16))
  b := UInt64.ofNat (hexValue ((text.toList.drop 16).take 16))
  c := UInt64.ofNat (hexValue ((text.toList.drop 32).take 16))
  d := UInt64.ofNat (hexValue ((text.toList.drop 48).take 16))

@[simp] theorem length_word (x : UInt64) : (paddedHex 16 x.toNat).length = 16 :=
  length_paddedHex (by decide) x.toNat_lt

/-- A word reads back from its digits, wherever the text goes on. -/
theorem ofNat_hexValue_word (x : UInt64) (rest : List Char) :
    UInt64.ofNat (hexValue ((paddedHex 16 x.toNat ++ rest).take 16)) = x := by
  rw [List.take_left' (length_word x), hexValue_paddedHex, UInt64.ofNat_toNat]

/-- The digits of a word are passed over with sixteen characters. -/
theorem drop_word (x : UInt64) (n : ℕ) (rest : List Char) :
    (paddedHex 16 x.toNat ++ rest).drop (16 + n) = rest.drop n := by
  rw [← List.drop_drop, List.drop_left' (length_word x)]

theorem ofText_toString (digest : Digest) : Digest.ofText (toString digest) = digest := by
  obtain ⟨a, b, c, d⟩ := digest
  have htext : (toString ⟨a, b, c, d⟩).toList = paddedHex 16 a.toNat ++ (paddedHex 16 b.toNat ++
      (paddedHex 16 c.toNat ++ (paddedHex 16 d.toNat ++ []))) := by
    simp [toString]
  rw [Digest.ofText, htext, Digest.mk.injEq]
  refine ⟨ofNat_hexValue_word a _, ?_, ?_, ?_⟩
  · rw [drop_word a 0]
    exact ofNat_hexValue_word b _
  · rw [drop_word a 16, drop_word b 0]
    exact ofNat_hexValue_word c _
  · rw [drop_word a 32, drop_word b 16, drop_word c 0]
    exact ofNat_hexValue_word d _

/-- Two digits for each byte of a word. -/
theorem word_eq_bytes (x : UInt64) : paddedHex 16 x.toNat = (beBytes 8 x.toNat).flatMap hexByte :=
  paddedHex_eq_bytes (n := 7) x.toNat_lt

theorem toString_eq_bytes (digest : Digest) :
    toString digest = String.ofList (digest.bytes.flatMap hexByte) := by
  simp only [toString, word_eq_bytes, Digest.bytes, List.flatMap_cons, List.flatMap_nil,
    List.flatMap_append, List.append_nil, List.append_assoc]

theorem length_toString (digest : Digest) : (toString digest).length = 64 := by
  simp [toString, String.length_ofList]

end Sha256

namespace Checksum

/-- The digest that a text of one word stands for. -/
def Digest.ofText (text : String) : Digest := ⟨UInt32.ofNat (hexValue text.toList)⟩

theorem ofText_toString (digest : Digest) : Digest.ofText (toString digest) = digest := by
  rw [Digest.ofText, toString, String.toList_ofList, hexValue_toDigits, UInt32.ofNat_toNat]

theorem length_toString_le (digest : Digest) : (toString digest).length ≤ 8 := by
  rw [toString, String.length_ofList, Nat.length_toDigits_le_iff (by decide) (by decide)]
  exact digest.checksum.toNat_lt

end Checksum

/-- For every digest of either hash, the text of `to_string` reads back as the digest. That of
SHA-256 has two digits for each byte of the digest, 64 in all, and that of the checksum has at most
eight. -/
theorem digest_text :
    (∀ digest : Sha256.Digest, Sha256.Digest.ofText (Sha256.toString digest) = digest ∧
      (Sha256.toString digest).length = 64 ∧
      Sha256.toString digest = String.ofList (digest.bytes.flatMap hexByte)) ∧
    ∀ digest : Checksum.Digest, Checksum.Digest.ofText (Checksum.toString digest) = digest ∧
      (Checksum.toString digest).length ≤ 8 :=
  ⟨fun digest => ⟨Sha256.ofText_toString digest, Sha256.length_toString digest,
    Sha256.toString_eq_bytes digest⟩,
  fun digest => ⟨Checksum.ofText_toString digest, Checksum.length_toString_le digest⟩⟩

end TxQueue
