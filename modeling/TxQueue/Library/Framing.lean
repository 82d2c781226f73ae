import TxQueue.Library.LittleEndian

/-!
# Words of a prefix code, and length-prefixed messages

A code none of whose words starts another can be cut at the words: a list of words that starts a
longer list of words is a list of its first words. A message that follows its own length, as a
64-bit word, is such a code.
-/

namespace Library

variable {β γ : Type*}

/-- No word of the code is empty or starts the word of another message. -/
structure PrefixCode (word : γ → List β) (valid : γ → Prop) : Prop where
  ne_nil : ∀ a, valid a → word a ≠ []
  eq_of_isPrefix : ∀ a b, valid a → valid b → word a <+: word b → a = b

/-- Where one list of words starts another, so do the messages. -/
theorem PrefixCode.prefix_of_flatten {word : γ → List β} {valid : γ → Prop}
    (hcode : PrefixCode word valid) {as bs : List γ} (has : ∀ a ∈ as, valid a)
    (hbs : ∀ b ∈ bs, valid b) (h : (as.map word).flatten <+: (bs.map word).flatten) :
    as <+: bs := by
  induction as generalizing bs with
  | nil => exact List.nil_prefix
  | cons a as ih =>
      have ha := has a List.mem_cons_self
      cases bs with
      | nil =>
          have hnil := List.prefix_nil.1 h
          simp [hcode.ne_nil a ha] at hnil
      | cons b bs =>
          have hb := hbs b List.mem_cons_self
          simp only [List.map_cons, List.flatten_cons] at h
          obtain rfl : a = b := by
            have hword := (List.prefix_append _ _).trans h
            rcases List.prefix_or_prefix_of_prefix hword (List.prefix_append _ _) with hab | hba
            · exact hcode.eq_of_isPrefix a b ha hb hab
            · exact (hcode.eq_of_isPrefix b a hb ha hba).symm
          rw [List.prefix_append_right_inj] at h
          rw [List.cons_prefix_cons]
          exact ⟨rfl, ih (fun x hx => has x (List.mem_cons_of_mem _ hx))
            (fun x hx => hbs x (List.mem_cons_of_mem _ hx)) h⟩

/-- Words of one length are a prefix code if they tell the messages apart. -/
theorem PrefixCode.of_length {word : γ → List β} {n : ℕ} (hpos : 0 < n)
    (hlength : ∀ a, (word a).length = n) (hinjective : Function.Injective word) :
    PrefixCode word fun _ => True where
  ne_nil a _ h := by
    have hzero := congrArg List.length h
    rw [hlength, List.length_nil] at hzero
    omega
  eq_of_isPrefix a b _ _ h :=
    hinjective (h.eq_of_length ((hlength a).trans (hlength b).symm))

/-- The length of a message as a word. -/
def lengthWord (data : List UInt8) : UInt64 := UInt64.ofNat data.length

/-- A message that follows its length. -/
def frame (data : List UInt8) : List UInt8 := le64 (lengthWord data) ++ data

/-- The lengths that a word holds. -/
def FitsWord (data : List UInt8) : Prop := data.length < 2 ^ 64

theorem lengthWord_toNat {data : List UInt8} (h : FitsWord data) :
    (lengthWord data).toNat = data.length := UInt64.toNat_ofNat_of_lt' h

/-- The encoding of a word has a length that a word holds. -/
theorem fitsWord_le64 (n : UInt64) : FitsWord (le64 n) := by
  rw [FitsWord, length_le64]
  decide

section Length

variable {data : List UInt8} {n : UInt64}

/-- A message whose length is a word. -/
theorem fitsWord_of_length (h : data.length = n.toNat) : FitsWord data :=
  lt_of_eq_of_lt h n.toNat_lt

theorem lengthWord_eq (h : data.length = n.toNat) : lengthWord data = n := by
  rw [lengthWord, h, UInt64.ofNat_toNat]

theorem frame_eq (h : data.length = n.toNat) : frame data = le64 n ++ data := by
  rw [frame, lengthWord_eq h]

end Length

@[simp] theorem length_frame (data : List UInt8) : (frame data).length = 8 + data.length := by
  simp [frame]

/-- Messages with their lengths are a prefix code. -/
theorem frame_prefixCode : PrefixCode frame FitsWord where
  ne_nil data _ h := by simpa using congrArg List.length h
  eq_of_isPrefix a b ha hb h := by
    obtain ⟨later, hlater⟩ := h
    simp only [frame, List.append_assoc] at hlater
    obtain ⟨hword, hdata⟩ := List.append_inj hlater (by simp)
    have hlen := congrArg UInt64.toNat (le64_injective hword)
    rw [lengthWord_toNat ha, lengthWord_toNat hb] at hlen
    exact (List.append_inj (hdata.trans (List.append_nil b).symm) hlen).1

/-- Where one stream starts another, so do their first words. -/
theorem le64_append_isPrefix {m n : UInt64} {xs ys : List UInt8}
    (h : le64 m ++ xs <+: le64 n ++ ys) : m = n ∧ xs <+: ys := by
  obtain ⟨later, hlater⟩ := h
  rw [List.append_assoc] at hlater
  obtain ⟨hword, hrest⟩ := List.append_inj hlater (by simp)
  exact ⟨le64_injective hword, later, hrest⟩

/-- A word that goes on some messages in a list of messages is the length of the next one. -/
theorem exists_of_frames_append_word {as bs : List (List UInt8)} {n : UInt64}
    (has : ∀ a ∈ as, FitsWord a) (hbs : ∀ b ∈ bs, FitsWord b)
    (h : (as.map frame).flatten ++ le64 n <+: (bs.map frame).flatten) :
    ∃ data, as ++ [data] <+: bs ∧ data.length = n.toNat := by
  obtain ⟨rest, rfl⟩ :=
    frame_prefixCode.prefix_of_flatten has hbs ((List.prefix_append _ _).trans h)
  simp only [List.map_append, List.flatten_append, List.prefix_append_right_inj] at h
  cases rest with
  | nil =>
      have hnil := congrArg List.length (List.prefix_nil.1 h)
      simp at hnil
  | cons data rest =>
      refine ⟨data, by simp [List.prefix_append_right_inj], ?_⟩
      obtain ⟨later, hlater⟩ := h
      simp only [List.map_cons, List.flatten_cons, frame, List.append_assoc] at hlater
      have hword := le64_injective (List.append_inj hlater (by simp)).1
      rw [hword, lengthWord_toNat (hbs data (by simp))]

end Library
