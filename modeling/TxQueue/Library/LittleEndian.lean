import Mathlib.Algebra.Group.Nat.Defs
import Mathlib.Data.List.Basic
import Mathlib.Tactic.Common

/-!
# Little-endian words

The object representations of a 64-bit and of a 16-bit word on a little-endian machine, and their
inverses.
-/

namespace Library

/-- The eight bytes of a word, the least significant first. -/
def le64 (x : UInt64) : List UInt8 :=
  (List.range 8).map fun i => UInt8.ofNat (x.toNat / 256 ^ i)

/-- The word that some bytes represent. -/
def ofLe64 (bs : List UInt8) : UInt64 :=
  UInt64.ofNat (bs.foldr (fun b n => b.toNat + 256 * n) 0)

@[simp] theorem length_le64 (x : UInt64) : (le64 x).length = 8 := by simp [le64]

/-- The representation determines the word. -/
@[simp] theorem ofLe64_le64 (x : UInt64) : ofLe64 (le64 x) = x := by
  have hlt := x.toNat_lt
  apply UInt64.toNat_inj.1
  simp only [ofLe64, le64, List.range, List.range.loop, List.map_cons, List.map_nil,
    List.foldr_cons, List.foldr_nil, UInt8.toNat_ofNat', UInt64.toNat_ofNat']
  omega

/-- Eight bytes are the representation of the word they represent. -/
theorem le64_ofLe64 {bs : List UInt8} (h : bs.length = 8) : le64 (ofLe64 bs) = bs := by
  obtain ⟨b0, b1, b2, b3, b4, b5, b6, b7, rfl⟩ : ∃ b0 b1 b2 b3 b4 b5 b6 b7,
      bs = [b0, b1, b2, b3, b4, b5, b6, b7] := by
    match bs, h with
    | [b0, b1, b2, b3, b4, b5, b6, b7], _ => exact ⟨b0, b1, b2, b3, b4, b5, b6, b7, rfl⟩
  have h0 := b0.toNat_lt
  have h1 := b1.toNat_lt
  have h2 := b2.toNat_lt
  have h3 := b3.toNat_lt
  have h4 := b4.toNat_lt
  have h5 := b5.toNat_lt
  have h6 := b6.toNat_lt
  have h7 := b7.toNat_lt
  simp only [le64, ofLe64, List.range, List.range.loop, List.map_cons, List.map_nil,
    List.foldr_cons, List.foldr_nil, List.cons.injEq, and_true, ← UInt8.toNat_inj,
    UInt8.toNat_ofNat', UInt64.toNat_ofNat']
  omega

theorem le64_injective : Function.Injective le64 :=
  Function.LeftInverse.injective ofLe64_le64

/-- The two bytes of a 16-bit word. -/
def le16 (x : UInt16) : List UInt8 :=
  (List.range 2).map fun i => UInt8.ofNat (x.toNat / 256 ^ i)

/-- The 16-bit word that some bytes represent. -/
def ofLe16 (bs : List UInt8) : UInt16 :=
  UInt16.ofNat (bs.foldr (fun b n => b.toNat + 256 * n) 0)

@[simp] theorem length_le16 (x : UInt16) : (le16 x).length = 2 := by simp [le16]

@[simp] theorem ofLe16_le16 (x : UInt16) : ofLe16 (le16 x) = x := by
  have hlt := x.toNat_lt
  apply UInt16.toNat_inj.1
  simp only [ofLe16, le16, List.range, List.range.loop, List.map_cons, List.map_nil,
    List.foldr_cons, List.foldr_nil, UInt8.toNat_ofNat', UInt16.toNat_ofNat']
  omega

theorem le16_ofLe16 {bs : List UInt8} (h : bs.length = 2) : le16 (ofLe16 bs) = bs := by
  obtain ⟨b0, b1, rfl⟩ := List.length_eq_two.1 h
  have h0 := b0.toNat_lt
  have h1 := b1.toNat_lt
  simp only [le16, ofLe16, List.range, List.range.loop, List.map_cons, List.map_nil,
    List.foldr_cons, List.foldr_nil, List.cons.injEq, and_true, ← UInt8.toNat_inj,
    UInt8.toNat_ofNat', UInt16.toNat_ofNat']
  omega

theorem le16_injective : Function.Injective le16 :=
  Function.LeftInverse.injective ofLe16_le16

end Library
