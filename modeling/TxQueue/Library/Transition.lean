import Mathlib.Data.List.Induction
import Mathlib.Tactic.Common

/-!
# Labelled transition systems and their runs

A run is kept as the list of its transitions, each with its source, its event and its
target, so that a statement can speak about every step of a run as well as about the state
it ends in. `Run.invariant` is the induction every safety result uses, and `Lts.Leads` is what the
progress results compose. `Lts.observe` attaches to a system a log that is computed from the
events alone and that no step can read.
-/

namespace Library

/-- A labelled transition system. `step s e s'` says the system moves from `s` to `s'` with
the event `e`. -/
structure Lts (σ ε : Type*) where
  initial : σ → Prop
  step : σ → ε → σ → Prop

/-- One transition of a run. -/
structure Transition (σ ε : Type*) where
  source : σ
  event : ε
  target : σ

variable {σ ε η : Type*}

/-- `Run A start ts finish` says that the transitions `ts`, in order, lead from `start` to
`finish`. -/
inductive Run (A : Lts σ ε) (start : σ) : List (Transition σ ε) → σ → Prop where
  | nil : Run A start [] start
  | snoc {ts : List (Transition σ ε)} {s s' : σ} {e : ε} :
      Run A start ts s → A.step s e s' → Run A start (ts ++ [⟨s, e, s'⟩]) s'

namespace Run

variable {A : Lts σ ε} {start middle finish : σ} {ts us : List (Transition σ ε)}

/-- A predicate that every step with an event of the run preserves holds at the end of the run if
it holds at its start. -/
theorem invariant_of_events {I : σ → Prop} {P : ε → Prop} (hrun : Run A start ts finish)
    (hstart : I start) (hevents : ∀ t ∈ ts, P t.event)
    (hstep : ∀ s e s', P e → I s → A.step s e s' → I s') : I finish := by
  induction hrun with
  | nil => exact hstart
  | snoc _ h ih =>
      simp only [List.mem_append, List.mem_singleton] at hevents
      exact hstep _ _ _ (hevents _ (Or.inr rfl)) (ih fun t ht => hevents t (Or.inl ht)) h

/-- A predicate that every step preserves holds at the end of a run if it holds at its start. -/
theorem invariant {I : σ → Prop} (hrun : Run A start ts finish) (hstart : I start)
    (hstep : ∀ s e s', I s → A.step s e s' → I s') : I finish :=
  hrun.invariant_of_events (P := fun _ => True) hstart (fun _ _ => trivial)
    fun s e s' _ hs h => hstep s e s' hs h

/-- Every transition of a run is a step of the system, and an invariant holds at both its
ends. -/
theorem invariant_of_mem {I : σ → Prop} (hrun : Run A start ts finish) (hstart : I start)
    (hstep : ∀ s e s', I s → A.step s e s' → I s') :
    ∀ t ∈ ts, I t.source ∧ A.step t.source t.event t.target ∧ I t.target := by
  induction hrun with
  | nil => simp
  | @snoc ts s s' e hrun h ih =>
      intro t ht
      rcases List.mem_append.1 ht with ht | ht
      · exact ih t ht
      · obtain rfl := List.mem_singleton.1 ht
        have hs := hrun.invariant hstart hstep
        exact ⟨hs, h, hstep _ _ _ hs h⟩

/-- Two runs that meet join into one. -/
theorem append (hfirst : Run A start ts middle) (hsecond : Run A middle us finish) :
    Run A start (ts ++ us) finish := by
  induction hsecond with
  | nil => simpa using hfirst
  | snoc _ h ih => simpa [← List.append_assoc] using ih.snoc h

/-- The last transition of a run. -/
theorem of_snoc {t : Transition σ ε} (hrun : Run A start (ts ++ [t]) finish) :
    Run A start ts t.source ∧ A.step t.source t.event t.target ∧ t.target = finish := by
  generalize hvs : ts ++ [t] = vs at hrun
  cases hrun with
  | nil => simp at hvs
  | snoc hrun h =>
      obtain ⟨rfl, ht⟩ := List.append_inj' hvs rfl
      obtain rfl := List.singleton_inj.1 ht
      exact ⟨hrun, h, rfl⟩

/-- A run splits wherever its list of transitions does. -/
theorem split (hrun : Run A start (ts ++ us) finish) :
    ∃ middle, Run A start ts middle ∧ Run A middle us finish := by
  induction us using List.reverseRecOn generalizing finish with
  | nil => exact ⟨finish, by simpa using hrun, .nil⟩
  | append_singleton us u ih =>
      rw [← List.append_assoc] at hrun
      obtain ⟨hinit, hlast, rfl⟩ := hrun.of_snoc
      obtain ⟨middle, hfirst, hsecond⟩ := ih hinit
      exact ⟨middle, hfirst, hsecond.snoc hlast⟩

/-- A run splits around each of its transitions. -/
theorem split_at {t : Transition σ ε} (hrun : Run A start (ts ++ t :: us) finish) :
    Run A start ts t.source ∧ A.step t.source t.event t.target ∧ Run A t.target us finish := by
  rw [List.append_cons] at hrun
  obtain ⟨middle, hfirst, hsecond⟩ := hrun.split
  obtain ⟨hinit, hlast, rfl⟩ := hfirst.of_snoc
  exact ⟨hinit, hlast, hsecond⟩

/-- If every step that satisfies `P` can be followed by a step of `B` with the same event that
satisfies `Q`, then so can every run. -/
theorem simulate {τ : Type*} {B : Lts τ ε} {R : σ → τ → Prop} {P : Transition σ ε → Prop}
    {Q : Transition τ ε → Prop} {start' : τ} (hrun : Run A start ts finish) (hP : ∀ t ∈ ts, P t)
    (hstart : R start start')
    (hstep : ∀ t u, P t → R t.source u → A.step t.source t.event t.target →
      ∃ u', B.step u t.event u' ∧ Q ⟨u, t.event, u'⟩ ∧ R t.target u') :
    ∃ us finish', Run B start' us finish' ∧ (∀ u ∈ us, Q u) ∧
      us.map Transition.event = ts.map Transition.event ∧ R finish finish' := by
  induction hrun with
  | nil => exact ⟨[], start', .nil, by simp, rfl, hstart⟩
  | @snoc ts s s' e _ h ih =>
      simp only [List.mem_append, List.mem_singleton] at hP
      obtain ⟨us, u, hus, hQ, hevents, hR⟩ := ih fun t ht => hP t (Or.inl ht)
      obtain ⟨u', hu', hQ', hR'⟩ := hstep ⟨s, e, s'⟩ u (hP _ (Or.inr rfl)) hR h
      refine ⟨_, u', hus.snoc hu', ?_, by simp [hevents], hR'⟩
      intro v hv
      rcases List.mem_append.1 hv with hv | hv
      · exact hQ v hv
      · rwa [List.mem_singleton.1 hv]

/-- The empty run from where a run ends. -/
theorem rest (_ : Run A start ts finish) : Run A finish [] finish := .nil

/-- A single step is a run. -/
theorem single {s s' : σ} {e : ε} (h : A.step s e s') : Run A s [⟨s, e, s'⟩] s' :=
  Run.nil.snoc h

end Run

/-- Some run whose events all satisfy `P` leads from one state to the other. -/
def Lts.Leads (A : Lts σ ε) (P : ε → Prop) (s s' : σ) : Prop :=
  ∃ ts, Run A s ts s' ∧ ∀ t ∈ ts, P t.event

namespace Lts.Leads

variable {A : Lts σ ε} {P Q : ε → Prop} {s s' s'' : σ} {e : ε}

theorem refl (A : Lts σ ε) (P : ε → Prop) (s : σ) : A.Leads P s s :=
  ⟨[], .nil, by simp⟩

theorem trans (hfirst : A.Leads P s s') (hsecond : A.Leads P s' s'') : A.Leads P s s'' := by
  obtain ⟨ts, hts, hP⟩ := hfirst
  obtain ⟨us, hus, hP'⟩ := hsecond
  refine ⟨ts ++ us, hts.append hus, ?_⟩
  intro t ht
  rcases List.mem_append.1 ht with ht | ht
  · exact hP t ht
  · exact hP' t ht

/-- A single step. -/
theorem single (hstep : A.step s e s') (he : P e) : A.Leads P s s' :=
  ⟨_, Run.single hstep, fun t ht => by rwa [List.mem_singleton.1 ht]⟩

/-- One more step. -/
theorem step (hfirst : A.Leads P s s') (hstep : A.step s' e s'') (he : P e) : A.Leads P s s'' :=
  hfirst.trans (single hstep he)

theorem mono (h : A.Leads P s s') (hPQ : ∀ e, P e → Q e) : A.Leads Q s s' := by
  obtain ⟨ts, hts, hP⟩ := h
  exact ⟨ts, hts, fun t ht => hPQ _ (hP t ht)⟩

/-- To follow what leads from one state to another it is enough to follow each step. -/
theorem induct {I : σ → Prop} (h : A.Leads P s s') (hs : I s)
    (hstep : ∀ s e s', P e → I s → A.step s e s' → I s') : I s' := by
  obtain ⟨ts, hts, hP⟩ := h
  exact hts.invariant_of_events hs hP hstep

/-- What a system does leads another one on, if each of its steps is a step of the other. -/
theorem map {τ : Type*} {B : Lts τ η} {R : η → Prop} (f : σ → τ) (h : A.Leads P s s')
    (hstep : ∀ s e s', P e → A.step s e s' → ∃ e', B.step (f s) e' (f s') ∧ R e') :
    B.Leads R (f s) (f s') := by
  refine h.induct (I := fun s' => B.Leads R (f s) (f s')) (refl B R _) ?_
  intro s₁ e s₂ he hleads hnext
  obtain ⟨e', hnext', he'⟩ := hstep s₁ e s₂ he hnext
  exact hleads.step hnext' he'

end Lts.Leads

/-- A state together with the log of the events that led to it. -/
structure Observed (σ η : Type*) where
  state : σ
  log : η

/-- The system `A` with a log. `record` sees the events only, and the steps of `A` do not see
the log. -/
def Lts.observe (A : Lts σ ε) (record : η → ε → η) (empty : η) : Lts (Observed σ η) ε where
  initial w := A.initial w.state ∧ w.log = empty
  step w e w' := A.step w.state e w'.state ∧ w'.log = record w.log e

variable {A : Lts σ ε} {record : η → ε → η} {empty : η}

/-- An observed run goes on with any step from its last state. -/
theorem Run.andThen {start w : Observed σ η} {s' : σ} {e : ε}
    {ts : List (Transition (Observed σ η) ε)} (hrun : Run (A.observe record empty) start ts w)
    (hstep : A.step w.state e s') :
    Run (A.observe record empty) start (ts ++ [⟨w, e, ⟨s', record w.log e⟩⟩])
      ⟨s', record w.log e⟩ :=
  hrun.snoc ⟨hstep, rfl⟩

/-- What leads somewhere in an observed system leads on with any step. -/
theorem Lts.Leads.andThen {P : ε → Prop} {start w : Observed σ η} {s' : σ} {e : ε}
    (h : (A.observe record empty).Leads P start w) (hstep : A.step w.state e s') (he : P e) :
    (A.observe record empty).Leads P start ⟨s', record w.log e⟩ :=
  h.step ⟨hstep, rfl⟩ he

end Library
