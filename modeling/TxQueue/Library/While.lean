import Mathlib.Order.Basic
import Mathlib.Order.Nat
import Mathlib.Tactic.Common

/-!
# While loops

A loop is a guard and a body that may fault. `run` executes a number of iterations, so that it tells
a loop that has exited or faulted from one that still runs. The rule for total correctness asks for
an invariant and a measure that every iteration decreases; a loop whose guard an invariant keeps
true diverges.
-/

namespace Library

/-- `while (guard s) s = body s`, where the body faults with `none`. -/
structure Loop (σ : Type*) where
  guard : σ → Bool
  body : σ → Option σ

namespace Loop

/-- Where a loop is after some iterations. -/
inductive Outcome (σ : Type*) where
  | exited (s : σ)
  | running (s : σ)
  | faulted

variable {σ : Type*} (L : Loop σ)

/-- The loop from `s`, for the given number of tests of the guard. -/
def run : ℕ → σ → Outcome σ
  | 0, s => .running s
  | n + 1, s =>
      if L.guard s then
        match L.body s with
        | none => .faulted
        | some s' => run n s'
      else .exited s

/-- The loop exits from `s` in `t`, without a fault. -/
def Exits (s t : σ) : Prop := ∃ n, L.run n s = .exited t

/-- The state in which the loop exits within the given number of tests of the guard. -/
def exitWithin (n : ℕ) (s : σ) : Option σ :=
  match L.run n s with
  | .exited t => some t
  | _ => none

/-- The loop still runs after any number of iterations. -/
def Diverges (s : σ) : Prop := ∀ n, ∃ t, L.run n s = .running t

variable {L} {s s' t u : σ} {n : ℕ}

theorem exits_of_guard (h : L.guard s = false) : L.Exits s s :=
  ⟨1, by simp [run, h]⟩

/-- One iteration in front. -/
theorem Exits.step (hguard : L.guard s = true) (hbody : L.body s = some s') (h : L.Exits s' t) :
    L.Exits s t := by
  obtain ⟨n, hn⟩ := h
  exact ⟨n + 1, by simp [run, hguard, hbody, hn]⟩

/-- What a loop that exits does first. -/
theorem Exits.cases (h : L.Exits s t) :
    (L.guard s = false ∧ t = s) ∨
      (L.guard s = true ∧ ∃ s', L.body s = some s' ∧ L.Exits s' t) := by
  obtain ⟨n, hn⟩ := h
  cases n with
  | zero => simp [run] at hn
  | succ n =>
      unfold run at hn
      cases hguard : L.guard s with
      | false =>
          simp only [hguard, Bool.false_eq_true, if_false, Outcome.exited.injEq] at hn
          exact Or.inl ⟨rfl, hn.symm⟩
      | true =>
          simp only [hguard, if_true] at hn
          split at hn
          · cases hn
          · next s' hbody => exact Or.inr ⟨rfl, s', hbody, n, hn⟩

/-- A loop exits in one state only. -/
theorem Exits.unique (ht : L.Exits s t) (hu : L.Exits s u) : t = u := by
  obtain ⟨n, hn⟩ := ht
  induction n generalizing s with
  | zero => simp [run] at hn
  | succ n ih =>
      rcases hu.cases with ⟨hguard, rfl⟩ | ⟨hguard, s', hbody, hu'⟩
      · simpa [run, hguard, eq_comm] using hn
      · exact ih hu' (by simpa [run, hguard, hbody] using hn)

/-- A loop that diverges does not exit. -/
theorem Diverges.not_exits (h : L.Diverges s) : ¬ ∃ t, L.Exits s t := by
  rintro ⟨t, n, hn⟩
  obtain ⟨u, hu⟩ := h n
  rw [hu] at hn
  cases hn

theorem exits_of_exitWithin (h : L.exitWithin n s = some t) : L.Exits s t := by
  unfold exitWithin at h
  cases hrun : L.run n s with
  | exited u =>
      simp only [hrun, Option.some.injEq] at h
      exact ⟨n, h ▸ hrun⟩
  | _ => simp [hrun] at h

/-- Total correctness: with an invariant under which the body does not fault, and a measure that it
decreases, more tests of the guard than the measure are enough. -/
theorem exitWithin_of_measure {I : σ → Prop} (μ : σ → ℕ)
    (hstep : ∀ s, I s → L.guard s = true → ∃ s', L.body s = some s' ∧ I s' ∧ μ s' < μ s)
    (hs : I s) (hn : μ s < n) :
    ∃ t, L.exitWithin n s = some t ∧ I t ∧ L.guard t = false := by
  induction n generalizing s with
  | zero => exact absurd hn (Nat.not_lt_zero _)
  | succ n ih =>
      cases hguard : L.guard s with
      | false => exact ⟨s, by simp [exitWithin, run, hguard], hs, hguard⟩
      | true =>
          obtain ⟨s', hbody, hs', hlt⟩ := hstep s hs hguard
          obtain ⟨t, ht, hinv, hexit⟩ := ih hs' (by omega)
          refine ⟨t, ?_, hinv, hexit⟩
          simpa [exitWithin, run, hguard, hbody] using ht

/-- Total correctness, with any number of tests of the guard. -/
theorem exits_of_measure {I : σ → Prop} (μ : σ → ℕ)
    (hstep : ∀ s, I s → L.guard s = true → ∃ s', L.body s = some s' ∧ I s' ∧ μ s' < μ s)
    (hs : I s) : ∃ t, L.Exits s t ∧ I t ∧ L.guard t = false := by
  obtain ⟨t, ht, hinv, hexit⟩ := exitWithin_of_measure μ hstep hs (Nat.lt_succ_self _)
  exact ⟨t, exits_of_exitWithin ht, hinv, hexit⟩

/-- Divergence: an invariant under which the guard is true and the body does not fault. -/
theorem diverges_of_invariant {I : σ → Prop}
    (hstep : ∀ s, I s → L.guard s = true ∧ ∃ s', L.body s = some s' ∧ I s') (hs : I s) :
    L.Diverges s := by
  intro n
  induction n generalizing s with
  | zero => exact ⟨s, rfl⟩
  | succ n ih =>
      obtain ⟨hguard, s', hbody, hs'⟩ := hstep s hs
      obtain ⟨t, ht⟩ := ih hs'
      exact ⟨t, by simp [run, hguard, hbody, ht]⟩

end Loop

end Library
