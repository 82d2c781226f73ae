import Mathlib.Tactic.IntervalCases
import TxQueue.Library.BigEndian

/-!
# Hexadecimal text

A number in base sixteen with lower-case digits, as short as possible or with zeros in front up to a
width. Either text reads back as the number, and a text of two digits for each byte is the bytes,
the most significant first.
-/

namespace Library

/-! ## Reading -/

/-- The value of a lower-case digit. -/
def hexDigitValue (c : Char) : ℕ := if c.isDigit then c.toNat - 48 else c.toNat - 87

theorem hexDigitValue_digitChar {d : ℕ} (h : d < 16) : hexDigitValue d.digitChar = d := by
  interval_cases d <;> rfl

/-- The number that a text stands for. -/
def hexValue (text : List Char) : ℕ := text.foldl (fun n c => 16 * n + hexDigitValue c) 0

@[simp] theorem hexValue_concat (text : List Char) (c : Char) :
    hexValue (text ++ [c]) = 16 * hexValue text + hexDigitValue c := by
  simp [hexValue]

/-- Zeros in front do not count. -/
theorem hexValue_zeros_append (n : ℕ) (text : List Char) :
    hexValue (List.replicate n '0' ++ text) = hexValue text := by
  induction n with
  | zero => rfl
  | succ n ih =>
      rw [List.replicate_succ, List.cons_append, ← ih]
      rfl

/-! ## Writing -/

/-- The number with zeros in front up to a width. -/
def paddedHex (width x : ℕ) : List Char := (Nat.toDigits 16 x).leftpad width '0'

/-- The two digits of a byte. -/
def hexByte (b : UInt8) : List Char := [(b.toNat / 16).digitChar, (b.toNat % 16).digitChar]

/-- The digits of a number read back as the number. -/
theorem hexValue_toDigits (x : ℕ) : hexValue (Nat.toDigits 16 x) = x := by
  induction x using Nat.strong_induction_on with
  | _ x ih =>
      rw [Nat.toDigits_eq_if (by decide)]
      split
      · next hlt => simpa [hexValue] using hexDigitValue_digitChar hlt
      · next hle =>
          rw [hexValue_concat, ih (x / 16) (by omega),
            hexDigitValue_digitChar (Nat.mod_lt x (by decide))]
          omega

theorem hexValue_paddedHex (width x : ℕ) : hexValue (paddedHex width x) = x :=
  (hexValue_zeros_append _ _).trans (hexValue_toDigits x)

/-- A number that fits the width has exactly that many digits. -/
theorem length_paddedHex {width x : ℕ} (hpos : 0 < width) (hlt : x < 16 ^ width) :
    (paddedHex width x).length = width := by
  rw [paddedHex, List.length_leftpad]
  exact max_eq_left ((Nat.length_toDigits_le_iff (by decide) hpos).2 hlt)

theorem paddedHex_zero (width : ℕ) : paddedHex (width + 1) 0 = List.replicate (width + 1) '0' := by
  simp [paddedHex, List.leftpad, List.replicate_succ']

/-- The last digit of a number. -/
theorem paddedHex_succ (width x : ℕ) : paddedHex (width + 2) x =
    paddedHex (width + 1) (x / 16) ++ [(x % 16).digitChar] := by
  by_cases hlt : x < 16
  · rw [Nat.div_eq_of_lt hlt, paddedHex_zero, Nat.mod_eq_of_lt hlt, paddedHex,
      Nat.toDigits_of_lt_base hlt]
    rfl
  · rw [paddedHex, Nat.toDigits_of_base_le (by decide) (Nat.le_of_not_lt hlt)]
    simp [paddedHex, List.leftpad]

/-- A number of one digit. -/
theorem paddedHex_one {x : ℕ} (hlt : x < 16) : paddedHex 1 x = [x.digitChar] := by
  rw [paddedHex, Nat.toDigits_of_lt_base hlt]
  rfl

/-- The last byte of a number. -/
theorem beBytes_succ (n x : ℕ) : beBytes (n + 1) x = beBytes n (x / 256) ++ [UInt8.ofNat x] := by
  have hsplit := beBytes_add (m := n) (n := 1) (x := x / 256) (y := x % 256)
    (Nat.mod_lt x (by decide))
  rw [Nat.pow_one, Nat.div_add_mod'] at hsplit
  have hlast : beBytes 1 (x % 256) = [UInt8.ofNat x] := by
    rw [beBytes, List.range_one, List.map_singleton]
    congr 1
    exact UInt8.toNat_inj.1 (by simp)
  rw [hsplit, hlast]

/-- The digits of the last byte of a number. -/
theorem hexByte_ofNat (x : ℕ) :
    hexByte (UInt8.ofNat x) = [(x / 16 % 16).digitChar, (x % 16).digitChar] := by
  have hhigh : x % 2 ^ 8 / 16 = x / 16 % 16 := by omega
  have hlow : x % 2 ^ 8 % 16 = x % 16 := by omega
  rw [hexByte, UInt8.toNat_ofNat', hhigh, hlow]

/-- Two digits for each byte are the bytes, the most significant first. -/
theorem paddedHex_eq_bytes {n x : ℕ} (hlt : x < 256 ^ (n + 1)) :
    paddedHex (2 * (n + 1)) x = (beBytes (n + 1) x).flatMap hexByte := by
  induction n generalizing x with
  | zero =>
      have hlt : x < 256 := by simpa using hlt
      rw [show 2 * (0 + 1) = 0 + 2 from rfl, paddedHex_succ, paddedHex_one (by omega), beBytes_succ]
      have hmod : x / 16 % 16 = x / 16 := Nat.mod_eq_of_lt (by omega)
      rw [← hmod]
      simp [beBytes, hexByte_ofNat]
  | succ n ih =>
      rw [show 2 * (n + 1 + 1) = 2 * n + 2 + 2 by omega, paddedHex_succ, paddedHex_succ,
        Nat.div_div_eq_div_mul, beBytes_succ, List.flatMap_append]
      have hnext : x / (16 * 16) < 256 ^ (n + 1) := by
        rw [Nat.div_lt_iff_lt_mul (by decide)]
        rwa [Nat.pow_succ] at hlt
      have htail := ih hnext
      rw [show 2 * (n + 1) = 2 * n + 1 + 1 by omega] at htail
      rw [htail, List.append_assoc]
      simp [hexByte_ofNat]

end Library
