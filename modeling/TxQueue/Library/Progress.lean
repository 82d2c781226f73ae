import TxQueue.Library.Transition

/-!
# Tasks that nobody can hold up

A task of one party of a system has a rank that the steps of the others leave alone and that each
own step lowers, unless it finishes the task. So the task is finished after as many own steps as its
rank says, whatever the others do in between, and until then an own step can be taken at any time.
-/

namespace Library

variable {σ ε : Type*}

/-- A task of the party whose events are `own`, under way where `rank` is positive. `finish` are the
events that finish it. -/
structure Task (A : Lts σ ε) where
  own : ε → Bool
  finish : ε → Prop
  rank : σ → ℕ
  enabled : ∀ s, 0 < rank s → ∃ e s', own e = true ∧ A.step s e s'
  of_own : ∀ s e s', 0 < rank s → A.step s e s' → own e = true →
    finish e ∨ 0 < rank s' ∧ rank s' < rank s
  of_other : ∀ s e s', 0 < rank s → A.step s e s' → own e = false → rank s' = rank s

namespace Task

variable {A : Lts σ ε} {start finish : σ} {ts : List (Transition σ ε)}

/-- The number of steps of the party in a run. -/
def ownSteps (task : Task A) (ts : List (Transition σ ε)) : ℕ :=
  ts.countP fun t => task.own t.event

/-- Along a run either the task is finished, or its rank is lower by the number of own steps. -/
theorem finish_or_rank_add_le (task : Task A) (hrank : 0 < task.rank start)
    (hrun : Run A start ts finish) :
    (∃ t ∈ ts, task.finish t.event) ∨
      0 < task.rank finish ∧ task.rank finish + task.ownSteps ts ≤ task.rank start := by
  induction hrun with
  | nil => exact .inr ⟨hrank, Nat.le_refl _⟩
  | @snoc ts s s' e hrun hstep ih =>
      rcases ih with ⟨t, ht, hfinish⟩ | ⟨hpos, hle⟩
      · exact .inl ⟨t, List.mem_append_left _ ht, hfinish⟩
      · cases hown : task.own e with
        | true =>
            rcases task.of_own s e s' hpos hstep hown with hfinish | ⟨hpos', hlt⟩
            · exact .inl ⟨⟨s, e, s'⟩, by simp, hfinish⟩
            · refine .inr ⟨hpos', ?_⟩
              simp only [ownSteps, List.countP_append, List.countP_singleton, hown, if_true]
                at hle ⊢
              omega
        | false =>
            have hsame := task.of_other s e s' hpos hstep hown
            refine .inr ⟨hsame ▸ hpos, ?_⟩
            simp only [ownSteps, List.countP_append, List.countP_singleton, hown,
              Bool.false_eq_true, if_false] at hle ⊢
            omega

/-- As many own steps as the rank says finish the task. -/
theorem finishes (task : Task A) (hrank : 0 < task.rank start) (hrun : Run A start ts finish)
    (hsteps : task.rank start ≤ task.ownSteps ts) : ∃ t ∈ ts, task.finish t.event := by
  rcases task.finish_or_rank_add_le hrank hrun with hfinish | ⟨hpos, hle⟩
  · exact hfinish
  · omega

end Task

end Library
