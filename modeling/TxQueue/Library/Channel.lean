import TxQueue.Library.Stores

/-!
# A release/acquire channel between one writer and one reader

The writer makes plain data stores and, between them, release stores to one index. The channel
keeps the data stores in program order and the releases in modification order, each with the
number of data stores sequenced before it. The reader loads the index under per-location
coherence: a load returns any release from the newest it has already read up to the last.
`covered` is the number of data stores that are guaranteed to be visible to the reader. Under
`Visibility.acquireOnly` it comes from the last acquire load alone, so a relaxed load can be ahead
of the data; under `Visibility.everyLoad` each load brings the data below it along.
-/

namespace Library

/-- A release store: the value stored and the number of data stores sequenced before it. -/
structure Release (ι : Type*) where
  value : ι
  count : ℕ

/-- Which loads of the index guarantee the visibility of the data stored before the release they
read. -/
inductive Visibility where
  | everyLoad
  | acquireOnly

/-- The state of a channel. `observed` is the newest release the reader has loaded and `acquired`
the newest it has loaded with acquire order, both as places in the modification order. -/
structure Channel (α ι : Type*) where
  data : List α
  releases : List (Release ι)
  observed : ℕ
  acquired : ℕ
  acquired_le : acquired ≤ observed
  observed_lt : observed < releases.length
  count_le : ∀ r ∈ releases, r.count ≤ data.length
  count_mono : releases.Pairwise fun r r' => r.count ≤ r'.count

namespace Channel

variable {α ι κ β : Type*}

/-- A channel without data whose index has its initial value. -/
def init (v : ι) : Channel α ι where
  data := []
  releases := [⟨v, 0⟩]
  observed := 0
  acquired := 0
  acquired_le := le_rfl
  observed_lt := by simp
  count_le := by simp
  count_mono := by simp

/-- The writer makes some data stores. -/
def send (c : Channel α ι) (xs : List α) : Channel α ι where
  data := c.data ++ xs
  releases := c.releases
  observed := c.observed
  acquired := c.acquired
  acquired_le := c.acquired_le
  observed_lt := c.observed_lt
  count_le r hr := by
    have := c.count_le r hr
    simp
    omega
  count_mono := c.count_mono

/-- The writer stores a new value of the index with release order. -/
def release (c : Channel α ι) (v : ι) : Channel α ι where
  data := c.data
  releases := c.releases ++ [⟨v, c.data.length⟩]
  observed := c.observed
  acquired := c.acquired
  acquired_le := c.acquired_le
  observed_lt := by
    have := c.observed_lt
    simp
    omega
  count_le r hr := by
    rcases List.mem_append.1 hr with hr | hr
    · exact c.count_le r hr
    · simp [List.mem_singleton.1 hr]
  count_mono := by
    refine List.pairwise_append.2 ⟨c.count_mono, by simp, ?_⟩
    intro r hr r' hr'
    simpa [List.mem_singleton.1 hr'] using c.count_le r hr

/-- The reader loads the release at place `k` with relaxed order. -/
def loadRelaxed (c : Channel α ι) (k : ℕ) (hle : c.observed ≤ k) (hlt : k < c.releases.length) :
    Channel α ι :=
  { c with observed := k, acquired_le := c.acquired_le.trans hle, observed_lt := hlt }

/-- The reader loads the release at place `k` with acquire order if `b`, and does nothing
otherwise. -/
def acquireIf (c : Channel α ι) (b : Bool) (k : ℕ) (hlt : k < c.releases.length) :
    Channel α ι :=
  { c with
    observed := if b then k else c.observed
    acquired := if b then k else c.acquired
    acquired_le := by
      cases b
      · exact c.acquired_le
      · exact le_rfl
    observed_lt := by
      cases b
      · exact c.observed_lt
      · exact hlt }

/-- A value that the reader's next load of the index may return. -/
def MayLoad (c : Channel α ι) (v : ι) : Prop :=
  ∃ k, ∃ hk : k < c.releases.length, c.observed ≤ k ∧ v = c.releases[k].value

/-- The value of the last release: what the writer itself loads. -/
def latest (c : Channel α ι) : ι :=
  (c.releases.getLast (List.ne_nil_of_length_pos (Nat.zero_lt_of_lt c.observed_lt))).value

/-- The data stored since the last release. -/
def unreleased (c : Channel α ι) : List α :=
  c.data.drop
    (c.releases.getLast (List.ne_nil_of_length_pos (Nat.zero_lt_of_lt c.observed_lt))).count

/-- The place of the last release. -/
def last (c : Channel α ι) : ℕ := c.releases.length - 1

theorem last_lt (c : Channel α ι) : c.last < c.releases.length := by
  have := c.observed_lt
  unfold last
  omega

/-- The newest release whose data is guaranteed to be visible to the reader, as a place in the
modification order. -/
def place (c : Channel α ι) : Visibility → ℕ
  | .everyLoad => c.observed
  | .acquireOnly => c.acquired

theorem place_lt (c : Channel α ι) (vis : Visibility) : c.place vis < c.releases.length := by
  cases vis with
  | everyLoad => exact c.observed_lt
  | acquireOnly => exact c.acquired_le.trans_lt c.observed_lt

/-- The number of data stores that are guaranteed to be visible to the reader. -/
def covered (c : Channel α ι) (vis : Visibility) : ℕ :=
  have := c.place_lt vis
  c.releases[c.place vis].count

/-- A memory that the reader may see: every cell holds what the data stores up to some point left
there, the guaranteed ones included. The point may differ from cell to cell. -/
def Sees [DecidableEq κ] (base : κ → β) (c : Channel (κ × β) ι) (vis : Visibility)
    (m : κ → β) : Prop :=
  ∀ a, ∃ v, c.covered vis ≤ v ∧ v ≤ c.data.length ∧ m a = image base (c.data.take v) a

variable {c : Channel α ι} {v : ι} {xs : List α} {j k : ℕ}

@[simp] theorem send_data : (c.send xs).data = c.data ++ xs := rfl
@[simp] theorem send_releases : (c.send xs).releases = c.releases := rfl
@[simp] theorem send_observed : (c.send xs).observed = c.observed := rfl
@[simp] theorem send_acquired : (c.send xs).acquired = c.acquired := rfl
@[simp] theorem release_data : (c.release v).data = c.data := rfl
@[simp] theorem release_releases :
    (c.release v).releases = c.releases ++ [⟨v, c.data.length⟩] := rfl
@[simp] theorem release_observed : (c.release v).observed = c.observed := rfl
@[simp] theorem release_acquired : (c.release v).acquired = c.acquired := rfl

section Load

variable {hle : c.observed ≤ k} {hlt : k < c.releases.length}

@[simp] theorem loadRelaxed_data : (c.loadRelaxed k hle hlt).data = c.data := rfl
@[simp] theorem loadRelaxed_releases : (c.loadRelaxed k hle hlt).releases = c.releases := rfl
@[simp] theorem loadRelaxed_observed : (c.loadRelaxed k hle hlt).observed = k := rfl
@[simp] theorem loadRelaxed_acquired : (c.loadRelaxed k hle hlt).acquired = c.acquired := rfl
@[simp] theorem acquireIf_data (b : Bool) : (c.acquireIf b k hlt).data = c.data := rfl
@[simp] theorem acquireIf_releases (b : Bool) : (c.acquireIf b k hlt).releases = c.releases := rfl
@[simp] theorem acquireIf_observed (b : Bool) :
    (c.acquireIf b k hlt).observed = if b then k else c.observed := rfl
@[simp] theorem acquireIf_acquired (b : Bool) :
    (c.acquireIf b k hlt).acquired = if b then k else c.acquired := rfl
@[simp] theorem unreleased_loadRelaxed : (c.loadRelaxed k hle hlt).unreleased = c.unreleased := rfl
@[simp] theorem unreleased_acquireIf (b : Bool) :
    (c.acquireIf b k hlt).unreleased = c.unreleased := rfl

end Load

@[simp] theorem unreleased_init : (init v : Channel α ι).unreleased = [] := by
  simp [unreleased, init]

@[simp] theorem unreleased_send : (c.send xs).unreleased = c.unreleased ++ xs :=
  List.drop_append_of_le_length (c.count_le _ (List.getLast_mem _))

@[simp] theorem unreleased_release : (c.release v).unreleased = [] := by
  simp [unreleased]

/-- The last release, by its place. -/
theorem latest_eq (h : c.last < c.releases.length) : c.latest = c.releases[c.last].value := by
  simp [latest, last, List.getLast_eq_getElem]

/-- A load may return the last release. -/
theorem mayLoad_latest (c : Channel α ι) : c.MayLoad c.latest :=
  ⟨c.last, c.last_lt, Nat.le_sub_one_of_lt c.observed_lt, c.latest_eq c.last_lt⟩

/-- No more data is guaranteed to be visible than was stored. -/
theorem covered_le (c : Channel α ι) (vis : Visibility) : c.covered vis ≤ c.data.length :=
  c.count_le _ (List.getElem_mem _)

/-- The reader may see all the data. -/
theorem sees_image [DecidableEq κ] (base : κ → β) (c : Channel (κ × β) ι) (vis : Visibility) :
    c.Sees base vis (image base c.data) :=
  fun a => ⟨c.data.length, c.covered_le vis, le_rfl, by rw [List.take_length]⟩

/-- A cell settled below the guaranteed data holds its value in every memory the reader may see. -/
theorem Sees.eq_of_settled [DecidableEq κ] {base : κ → β} {c : Channel (κ × β) ι}
    {vis : Visibility} {m : κ → β} {n : ℕ} {a : κ} {b : β} (hsees : c.Sees base vis m)
    (hsettled : Settled base c.data n a b) (hn : n ≤ c.covered vis) : m a = b := by
  obtain ⟨v, hcov, hle, hm⟩ := hsees a
  exact hm.trans (hsettled v (hn.trans hcov) hle)

/-! ## Two readers of one channel -/

/-- `c'` has the same stores as `c`, and its reader has observed at least as much. -/
structure Behind (c c' : Channel α ι) : Prop where
  data : c'.data = c.data
  releases : c'.releases = c.releases
  observed : c.observed ≤ c'.observed

namespace Behind

variable {c c' : Channel α ι}

theorem refl (c : Channel α ι) : c.Behind c := ⟨rfl, rfl, le_rfl⟩

theorem last_eq (h : c.Behind c') : c'.last = c.last := by
  rw [last, last, h.releases]

theorem latest_eq (h : c.Behind c') : c'.latest = c.latest := by
  simp [latest, h.releases]

theorem send (h : c.Behind c') (xs : List α) : (c.send xs).Behind (c'.send xs) :=
  ⟨by rw [send_data, send_data, h.data], h.releases, h.observed⟩

theorem release (h : c.Behind c') (v : ι) : (c.release v).Behind (c'.release v) :=
  ⟨h.data, by rw [release_releases, release_releases, h.releases, h.data], h.observed⟩

/-- A release that is left out in both. -/
theorem releaseUnless (h : c.Behind c') (b : Bool) (v : ι) :
    (if b then c else c.release v).Behind (if b then c' else c'.release v) := by
  cases b with
  | true => exact h
  | false => exact h.release v

/-- A load of the last release is at least as new as any other. -/
theorem loadRelaxed_last (h : c.Behind c') (hle : c.observed ≤ k) (hlt : k < c.releases.length)
    (hle' : c'.observed ≤ c'.last) :
    (c.loadRelaxed k hle hlt).Behind (c'.loadRelaxed c'.last hle' c'.last_lt) := by
  refine ⟨h.data, h.releases, ?_⟩
  rw [loadRelaxed_observed, loadRelaxed_observed, h.last_eq]
  exact Nat.le_sub_one_of_lt hlt

/-- Nobody has observed more than the last release. -/
theorem acquireIf_last (h : c.Behind c') {b b' : Bool} (hb : b = true → b' = true)
    (hk : k < c.releases.length) :
    (c.acquireIf b k hk).Behind (c'.acquireIf b' c'.last c'.last_lt) := by
  refine ⟨h.data, h.releases, ?_⟩
  have hobserved := h.observed
  have hlast := h.last_eq
  have hlt := c'.observed_lt
  have hle : c'.observed ≤ c'.last := Nat.le_sub_one_of_lt hlt
  have hk' : k ≤ c.last := Nat.le_sub_one_of_lt hk
  rw [acquireIf_observed, acquireIf_observed]
  cases b with
  | true =>
      rw [hb rfl]
      simp only [if_true]
      omega
  | false =>
      cases b' with
      | true =>
          simp only [Bool.false_eq_true, if_false, if_true]
          omega
      | false => simpa using hobserved

/-- What the reader that has observed more may see, the other may see as well. -/
theorem sees [DecidableEq κ] {base : κ → β} {c c' : Channel (κ × β) ι} {m : κ → β}
    (h : c.Behind c') (hsees : c'.Sees base .everyLoad m) : c.Sees base .everyLoad m := by
  intro a
  obtain ⟨v, hcov, hle, hm⟩ := hsees a
  rw [h.data] at hle hm
  refine ⟨v, le_trans ?_ hcov, hle, hm⟩
  have hfirst := c.observed_lt
  have hlt := c'.observed_lt
  show c.releases[c.observed].count ≤ c'.releases[c'.observed].count
  simp only [h.releases] at hlt ⊢
  rcases h.observed.eq_or_lt with heq | hlt'
  · simp [heq]
  · exact List.pairwise_iff_getElem.1 c.count_mono _ _ c.observed_lt hlt hlt'

end Behind

end Channel

end Library
