import TxQueue.Library.Refinement
import Mathlib.Order.Lattice.Nat
import Mathlib.Tactic.Choose

/-!
# Fair executions

An execution never ends; a system that has come to rest stands still. Liveness is proved along an
execution with two rules. A bounded count of something that is never undone settles, and a party
that keeps taking steps, each of which lowers a rank until something is finished, finishes that
thing again and again. `exists_scheduled` gives executions in which two parties take turns, so that
hypotheses on the fairness of an execution can be met.
-/

namespace Library

variable {σ ε : Type*}

/-- An execution of a system: at each moment it takes a step or stands still. -/
structure Execution (A : Lts σ ε) where
  state : ℕ → σ
  event : ℕ → Option ε
  follows : ∀ n, A.Follows (state n) (event n) (state (n + 1))

namespace Execution

variable {A : Lts σ ε} {P Q : ε → Prop} {n m : ℕ} {e : ε}

/-- A moment with an event is a step. -/
theorem step (x : Execution A) (hevent : x.event n = some e) :
    A.step (x.state n) e (x.state (n + 1)) := by
  have hfollows := x.follows n
  rwa [hevent] at hfollows

/-- What holds at some moment and is kept by the steps after it holds from then on. -/
theorem induct (x : Execution A) {I : σ → Prop} (hstart : I (x.state n))
    (hstep : ∀ m e, n ≤ m → x.event m = some e → I (x.state m) → I (x.state (m + 1)))
    (hle : n ≤ m) : I (x.state m) := by
  induction m, hle using Nat.le_induction with
  | base => exact hstart
  | succ m hle ih =>
      cases hevent : x.event m with
      | none =>
          have hsame := x.follows m
          rw [hevent] at hsame
          rw [show x.state (m + 1) = x.state m from hsame]
          exact ih
      | some e => exact hstep m e hle hevent ih

/-- The states of an execution are reached in runs. -/
theorem run (x : Execution A) (n : ℕ) : ∃ ts, Run A (x.state 0) ts (x.state n) :=
  x.induct (I := fun s => ∃ ts, Run A (x.state 0) ts s) ⟨[], .nil⟩
    (fun _ _ _ hevent ⟨_, hrun⟩ => ⟨_, hrun.snoc (x.step hevent)⟩) n.zero_le

/-- A count that never goes down and stays below a bound settles. -/
theorem settles (x : Execution A) (count : σ → ℕ) (bound : ℕ)
    (hmono : ∀ n, count (x.state n) ≤ count (x.state (n + 1)))
    (hbound : ∀ n, count (x.state n) ≤ bound) :
    ∃ n, ∀ m, n ≤ m → count (x.state m) = count (x.state n) := by
  have hmono : Monotone fun n => count (x.state n) := monotone_nat_of_le_succ hmono
  have hbdd : BddAbove (Set.range fun n => count (x.state n)) := by
    refine ⟨bound, ?_⟩
    rintro _ ⟨n, rfl⟩
    exact hbound n
  obtain ⟨n, hn⟩ := Nat.sSup_mem (Set.range_nonempty fun n => count (x.state n)) hbdd
  refine ⟨n, fun m hle => le_antisymm ?_ (hmono hle)⟩
  calc count (x.state m) ≤ sSup (Set.range fun n => count (x.state n)) :=
        le_csSup hbdd (Set.mem_range_self m)
    _ = count (x.state n) := hn.symm

/-- Events of this kind come again and again. -/
def Often (x : Execution A) (P : ε → Prop) : Prop :=
  ∀ n, ∃ m, n ≤ m ∧ ∃ e, x.event m = some e ∧ P e

/-- No rank is lowered by each step of a party that takes steps again and again, and raised by no
other step. -/
theorem Often.not_descending {x : Execution A} {own : ε → Prop} (h : x.Often own) (rank : σ → ℕ)
    (hown : ∀ m e, n ≤ m → x.event m = some e → own e →
      rank (x.state (m + 1)) < rank (x.state m))
    (hother : ∀ m e, n ≤ m → x.event m = some e → ¬ own e →
      rank (x.state (m + 1)) ≤ rank (x.state m)) : False := by
  have hmono : ∀ k m, n ≤ k → k ≤ m → rank (x.state m) ≤ rank (x.state k) := by
    intro k m hk hle
    refine x.induct (I := fun s => rank s ≤ rank (x.state k)) le_rfl ?_ hle
    intro m e hm hevent hrank
    by_cases hself : own e
    · exact (hown m e (hk.trans hm) hevent hself).le.trans hrank
    · exact (hother m e (hk.trans hm) hevent hself).trans hrank
  -- the rank goes down for ever
  have hdown : ∀ r k, n ≤ k → rank (x.state k) ≠ r := by
    intro r
    induction r using Nat.strong_induction_on with
    | _ r ih =>
        intro k hk hrank
        obtain ⟨m, hle, e, hevent, hself⟩ := h k
        have hnext := hown m e (hk.trans hle) hevent hself
        exact ih _ (hrank ▸ hnext.trans_le (hmono k m hk hle)) (m + 1) (by omega) rfl
  exact hdown _ n le_rfl rfl

/-- A party that takes steps again and again finishes something, if from some moment on each of its
steps does so or lowers a rank that no other step raises. -/
theorem Often.finish {x : Execution A} {own finish : ε → Prop} (h : x.Often own) (rank : σ → ℕ)
    (hown : ∀ m e, n ≤ m → x.event m = some e → own e →
      finish e ∨ rank (x.state (m + 1)) < rank (x.state m))
    (hother : ∀ m e, n ≤ m → x.event m = some e → ¬ own e →
      rank (x.state (m + 1)) ≤ rank (x.state m)) :
    ∃ m, n ≤ m ∧ ∃ e, x.event m = some e ∧ finish e := by
  by_contra hnever
  refine h.not_descending rank (fun m e hle hevent hself => ?_) hother
  exact (hown m e hle hevent hself).resolve_left fun hdone => hnever ⟨m, hle, e, hevent, hdone⟩

/-- What holds after events that come again and again, and is kept by every step, holds at one of
these events. -/
theorem Often.holding {x : Execution A} (h : x.Often P) {I : σ → Prop}
    (hafter : ∀ m e, n ≤ m → x.event m = some e → P e → I (x.state (m + 1)))
    (hkeep : ∀ m e, n ≤ m → x.event m = some e → I (x.state m) → I (x.state (m + 1))) :
    ∃ m, n ≤ m ∧ ∃ e, x.event m = some e ∧ P e ∧ I (x.state m) := by
  obtain ⟨m₀, hm₀, e₀, hevent₀, he₀⟩ := h n
  obtain ⟨m, hm, e, hevent, he⟩ := h (m₀ + 1)
  refine ⟨m, by omega, e, hevent, he, ?_⟩
  exact x.induct (hafter m₀ e₀ hm₀ hevent₀ he₀)
    (fun k e hk hevent hI => hkeep k e (by omega) hevent hI) hm

/-- An execution of a system is one of any system that has its steps. -/
def mono {B : Lts σ ε} (x : Execution A) (h : ∀ s e s', A.step s e s' → B.step s e s') :
    Execution B where
  state := x.state
  event := x.event
  follows n := by
    have hfollows := x.follows n
    cases hevent : x.event n with
    | none => rwa [hevent] at hfollows
    | some e => exact h _ e _ (x.step hevent)

/-- The part of an execution from some moment on, seen through a function from its states, is an
execution of any system that has its steps. -/
def image {τ : Type*} {B : Lts τ ε} (x : Execution A) (f : σ → τ) (n : ℕ)
    (h : ∀ m e, n ≤ m → x.event m = some e → B.step (f (x.state m)) e (f (x.state (m + 1)))) :
    Execution B where
  state m := f (x.state (n + m))
  event m := x.event (n + m)
  follows m := by
    have hfollows := x.follows (n + m)
    cases hevent : x.event (n + m) with
    | none =>
        rw [hevent] at hfollows
        exact congrArg f hfollows
    | some e => exact h (n + m) e (Nat.le_add_right n m) hevent

/-- An execution after one more step before it. -/
def cons {s : σ} (x : Execution A) (hstep : A.step s e (x.state 0)) : Execution A where
  state
    | 0 => s
    | n + 1 => x.state n
  event
    | 0 => some e
    | n + 1 => x.event n
  follows
    | 0 => hstep
    | n + 1 => x.follows n

/-- An execution goes on behind a run to its start. -/
theorem exists_append {start finish : σ} {ts : List (Transition σ ε)}
    (hrun : Run A start ts finish) (x : Execution A) (hstart : x.state 0 = finish) :
    ∃ y : Execution A, y.state 0 = start ∧
      ∃ n, ∀ m, y.state (n + m) = x.state m ∧ y.event (n + m) = x.event m := by
  induction hrun generalizing x with
  | nil => exact ⟨x, hstart, 0, fun m => by rw [Nat.zero_add]; exact ⟨rfl, rfl⟩⟩
  | snoc _ hstep ih =>
      rw [← hstart] at hstep
      obtain ⟨y, hy, n, hn⟩ := ih (x.cons hstep) rfl
      refine ⟨y, hy, n + 1, fun m => ?_⟩
      rw [Nat.add_right_comm, Nat.add_assoc]
      exact hn (m + 1)

/-- A run can be followed by standing still. -/
theorem exists_of_run {start finish : σ} {ts : List (Transition σ ε)}
    (hrun : Run A start ts finish) :
    ∃ x : Execution A, x.state 0 = start ∧
      ∃ n, ∀ m, n ≤ m → x.state m = finish ∧ x.event m = none := by
  let still : Execution A := ⟨fun _ => finish, fun _ => none, fun _ => rfl⟩
  obtain ⟨x, hx, n, hn⟩ := exists_append hrun still rfl
  refine ⟨x, hx, n, fun m hle => ?_⟩
  obtain ⟨k, rfl⟩ := Nat.exists_eq_add_of_le hle
  exact hn k

/-- What a party does in its turn: a step of its own that satisfies `R`, or nothing if it is done. -/
def Turn (A : Lts σ ε) (R : σ → ε → σ → Prop) (own : ε → Prop) (done : σ → Prop) (s : σ) :
    Option ε → σ → Prop
  | some e, s' => own e ∧ A.step s e s' ∧ R s e s'
  | none, s' => done s ∧ s' = s

theorem Turn.follows {R : σ → ε → σ → Prop} {own : ε → Prop} {done : σ → Prop} {s s' : σ}
    {event : Option ε} (h : Turn A R own done s event s') : A.Follows s event s' := by
  cases event with
  | none => exact h.2
  | some e => exact h.2.1

/-- If every party can take its turn in every state that satisfies `K`, and that leads to such a
state again, then there is an execution in which they take their turns in any given order. -/
theorem exists_scheduled {ι : Type*} {K : σ → Prop} {R : σ → ε → σ → Prop} {own : ι → ε → Prop}
    {done : ι → σ → Prop} {start : σ} (turns : ℕ → ι) (hturns : ∀ i n, ∃ m, n ≤ m ∧ turns m = i)
    (hstart : K start)
    (hturn : ∀ i s, K s → ∃ event s', Turn A R (own i) (done i) s event s' ∧ K s') :
    ∃ x : Execution A, x.state 0 = start ∧ (∀ n, K (x.state n)) ∧
      (∀ n e, x.event n = some e → R (x.state n) e (x.state (n + 1))) ∧
      ∀ i n, ∃ m, n ≤ m ∧ (done i (x.state m) ∨ ∃ e, x.event m = some e ∧ own i e) := by
  have hnext : ∀ n (s : {s // K s}), ∃ event, ∃ s' : {s // K s},
      Turn A R (own (turns n)) (done (turns n)) s event s' := by
    rintro n ⟨s, hs⟩
    obtain ⟨event, s', hstep, hs'⟩ := hturn (turns n) s hs
    exact ⟨event, ⟨s', hs'⟩, hstep⟩
  choose event next hnext using hnext
  let state : ℕ → {s // K s} := fun n => n.rec ⟨start, hstart⟩ next
  refine ⟨⟨fun n => (state n).1, fun n => event n (state n), fun n => (hnext n _).follows⟩, rfl,
    fun n => (state n).2, ?_, ?_⟩
  · intro n e hevent
    have hstep := hnext n (state n)
    rw [show event n (state n) = some e from hevent] at hstep
    exact hstep.2.2
  · intro i n
    obtain ⟨m, hle, rfl⟩ := hturns i n
    have hstep := hnext m (state m)
    refine ⟨m, hle, ?_⟩
    cases hevent : event m (state m) with
    | none =>
        rw [hevent] at hstep
        exact .inl hstep.1
    | some e =>
        rw [hevent] at hstep
        exact .inr ⟨e, hevent, hstep.1⟩

end Execution

end Library
