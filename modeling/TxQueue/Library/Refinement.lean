import TxQueue.Library.Transition

/-!
# Refinement

A system refines another one if each of its steps, seen through a function from its states, is the
step of the event that it shows, or no step at all. `Refinement.run` carries this to whole runs: the
other system has a run with exactly the shown events, in their order.
-/

namespace Library

variable {σ τ ε η : Type*}

/-- A step of `B` with the event that is shown, or no step if none is. -/
def Lts.Follows (B : Lts τ η) (t : τ) : Option η → τ → Prop
  | some e, t' => B.step t e t'
  | none, t' => t' = t

/-- Where the state is the same, nothing needs to be shown. -/
theorem Lts.Follows.silent {B : Lts τ η} {t t' : τ} (h : t' = t) : B.Follows t none t' :=
  h

/-- A log that is computed from the shown events goes along. -/
theorem Lts.Follows.observe {ω : Type*} {B : Lts τ η} {record : ω → η → ω} {empty l l' : ω}
    {t t' : τ} {shown : Option η} (h : B.Follows t shown t')
    (hlog : l' = (shown.map (record l)).getD l) :
    (B.observe record empty).Follows ⟨t, l⟩ shown ⟨t', l'⟩ := by
  subst hlog
  cases shown with
  | none => exact congrArg (Observed.mk · l) h
  | some e => exact ⟨h, rfl⟩

/-- The system `A` refines the system `B`. The steps need to be matched where the invariant holds
only, and it holds in every run. -/
structure Refinement (A : Lts σ ε) (B : Lts τ η) where
  invariant : σ → Prop
  abstract : σ → τ
  visible : ε → Option η
  of_initial : ∀ s, A.initial s → invariant s ∧ B.initial (abstract s)
  of_step : ∀ s e s', invariant s → A.step s e s' →
    invariant s' ∧ B.Follows (abstract s) (visible e) (abstract s')

namespace Refinement

variable {A : Lts σ ε} {B : Lts τ η} {start finish : σ} {ts : List (Transition σ ε)}

/-- The invariant goes from any state of a run to its end. -/
theorem invariant_of_run (r : Refinement A B) (hstart : r.invariant start)
    (hrun : Run A start ts finish) : r.invariant finish :=
  hrun.invariant hstart fun s e s' hi hstep => (r.of_step s e s' hi hstep).1

/-- What a run shows is a run of the other system. -/
theorem follow (r : Refinement A B) (hstart : r.invariant start) (hrun : Run A start ts finish) :
    ∃ us, Run B (r.abstract start) us (r.abstract finish) ∧
      us.map Transition.event = (ts.map Transition.event).filterMap r.visible := by
  induction hrun with
  | nil => exact ⟨[], .nil, rfl⟩
  | @snoc ts s s' e hrun hstep ih =>
      obtain ⟨us, hus, hevents⟩ := ih
      have hnext := (r.of_step s e s' (r.invariant_of_run hstart hrun) hstep).2
      cases hvisible : r.visible e with
      | none =>
          rw [hvisible] at hnext
          have hsame : r.abstract s' = r.abstract s := hnext
          rw [hsame]
          exact ⟨us, hus, by simp [hevents, hvisible]⟩
      | some e' =>
          rw [hvisible] at hnext
          exact ⟨_, hus.snoc hnext, by simp [hevents, hvisible]⟩

/-- Every run of `A` from the start is a run of `B` from the start. -/
theorem run (r : Refinement A B) (hstart : A.initial start) (hrun : Run A start ts finish) :
    ∃ us, B.initial (r.abstract start) ∧ Run B (r.abstract start) us (r.abstract finish) ∧
      us.map Transition.event = (ts.map Transition.event).filterMap r.visible := by
  obtain ⟨hinvariant, hinitial⟩ := r.of_initial start hstart
  obtain ⟨us, hus, hevents⟩ := r.follow hinvariant hrun
  exact ⟨us, hinitial, hus, hevents⟩

end Refinement

end Library
