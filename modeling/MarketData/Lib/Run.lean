import Mathlib.Data.List.Basic

/-!
# `Lib/Run.lean` — properties of every step of a run

A run of a deterministic machine is a fold of its step function over a list of inputs. Two
things are said about runs over and over: that a *state* property holds at the end, and that a
*step* property (about the state before, and the input) holds at every step. `Along` is the
second, and the two rules here reduce both to one step: an invariant that holds at the start,
and that every step allowed by the condition preserves, holds at the end and proves whatever
follows from it at every step.

## Steps, not states

Most promises about a program are about what a call does, and so are most conditions under which one
is kept: this message, met in that state. As a property of states alone a condition would have to
speak of the next input. `Along R` quantifies over the pairs that occur, and **a promise and its
condition then have the same shape**, so that a theorem may say the one holds along exactly those
runs along which the other does (`alongRuns_iff_of_invariant`, for which a step needs to be exact
only from states of the invariant).

A machine that can stop, in an error that leaves no state, has the same rules over `runs`; there a
property is asked of the run as far as it goes. Interleavings of several parties are runs whose
inputs name the party, and nothing more is needed for them.
-/

set_option autoImplicit false

namespace MarketData.Run

variable {σ ι : Type*} (step : σ → ι → σ)

/-- `R` holds of every state of the run together with the input taken there. -/
def Along (R : σ → ι → Prop) : σ → List ι → Prop
  | _, [] => True
  | s, i :: is => R s i ∧ Along R (step s i) is

instance decidableAlong (R : σ → ι → Prop) [∀ s i, Decidable (R s i)] :
    ∀ s is, Decidable (Along step R s is)
  | _, [] => .isTrue trivial
  | s, i :: is =>
    have := decidableAlong R (step s i) is
    inferInstanceAs (Decidable (_ ∧ _))

variable {step} {R C : σ → ι → Prop} {s : σ} {is : List ι}

/-- **The invariant rule.** Where every allowed step keeps the invariant, a run of allowed steps
ends in it. -/
theorem Along.invariant (Inv : σ → Prop) (hstep : ∀ s i, Inv s → C s i → Inv (step s i))
    (hs : Inv s) (hc : Along step C s is) : Inv (is.foldl step s) := by
  induction is generalizing s with
  | nil => exact hs
  | cons i is ih => exact ih (hstep s i hs hc.1) hc.2

/-- Where the invariant also gives `R` at every allowed step, `R` holds along the run. -/
theorem Along.of_invariant (Inv : σ → Prop)
    (hstep : ∀ s i, Inv s → C s i → Inv (step s i))
    (hR : ∀ s i, Inv s → C s i → R s i) (hs : Inv s) (hc : Along step C s is) :
    Along step R s is := by
  induction is generalizing s with
  | nil => trivial
  | cons i is ih => exact ⟨hR s i hs hc.1, ih (hstep s i hs hc.1) hc.2⟩

theorem along_of_forall (h : ∀ s, ∀ i ∈ is, R s i) : Along step R s is := by
  induction is generalizing s with
  | nil => trivial
  | cons i is ih =>
    exact ⟨h s i (by simp), ih fun s' i' hi' => h s' i' (List.mem_cons_of_mem _ hi')⟩

theorem Along.and (h : Along step R s is) (h' : Along step C s is) :
    Along step (fun s i => R s i ∧ C s i) s is := by
  induction is generalizing s with
  | nil => trivial
  | cons i is ih => exact ⟨⟨h.1, h'.1⟩, ih h.2 h'.2⟩

theorem along_congr (h : ∀ s i, R s i ↔ C s i) : Along step R s is ↔ Along step C s is := by
  induction is generalizing s with
  | nil => exact Iff.rfl
  | cons i is ih => exact and_congr (h s i) ih

/-- Two step properties that agree under an invariant of every step hold along the same runs. -/
theorem along_congr_of_invariant (Inv : σ → Prop) (hstep : ∀ s i, Inv s → Inv (step s i))
    (h : ∀ s i, Inv s → (R s i ↔ C s i)) (hs : Inv s) :
    Along step R s is ↔ Along step C s is := by
  induction is generalizing s with
  | nil => exact Iff.rfl
  | cons i is ih => exact and_congr (h s i hs) (ih (hstep s i hs))

theorem along_append {is js : List ι} :
    Along step R s (is ++ js) ↔ Along step R s is ∧ Along step R (is.foldl step s) js := by
  induction is generalizing s with
  | nil => exact ⟨fun h => ⟨trivial, h⟩, fun h => h.2⟩
  | cons i is ih =>
    constructor
    · intro h
      obtain ⟨h1, h2⟩ := ih.mp h.2
      exact ⟨⟨h.1, h1⟩, h2⟩
    · intro h
      exact ⟨h.1.1, ih.mpr ⟨h.1.2, h.2⟩⟩

/-! ## Machines that may stop -/

section Stopping

variable {ε : Type*} (next : σ → ι → Except ε σ)

/-- The state a run ends in, if no step of it fails. -/
def runs : σ → List ι → Except ε σ
  | s, [] => .ok s
  | s, i :: is =>
    match next s i with
    | .ok s' => runs s' is
    | .error e => .error e

/-- `R` holds of every state of the run together with the input taken there, as far as the run
goes. -/
def AlongRuns (R : σ → ι → Prop) : σ → List ι → Prop
  | _, [] => True
  | s, i :: is => R s i ∧
    match next s i with
    | .ok s' => AlongRuns R s' is
    | .error _ => True

instance decidableAlongRuns (R : σ → ι → Prop) [∀ s i, Decidable (R s i)] :
    ∀ s is, Decidable (AlongRuns next R s is)
  | _, [] => .isTrue trivial
  | s, i :: is =>
    have : Decidable (match next s i with
        | .ok s' => AlongRuns next R s' is
        | .error _ => True) :=
      match next s i with
      | .ok s' => decidableAlongRuns R s' is
      | .error _ => .isTrue trivial
    inferInstanceAs (Decidable (_ ∧ _))

variable {next}

theorem runs_cons {i : ι} {s' : σ} (h : next s i = .ok s') :
    runs next s (i :: is) = runs next s' is := by
  rw [runs, h]

theorem runs_append {is js : List ι} {s' : σ} (h : runs next s is = .ok s') :
    runs next s (is ++ js) = runs next s' js := by
  induction is generalizing s with
  | nil =>
    cases h
    rfl
  | cons i is ih =>
    rw [List.cons_append, runs]
    rw [runs] at h
    cases hi : next s i with
    | error e =>
      rw [hi] at h
      cases h
    | ok s₁ =>
      rw [hi] at h
      exact ih h

/-- **The invariant rule** for such a machine. -/
theorem AlongRuns.invariant (Inv : σ → Prop)
    (hnext : ∀ s i s', Inv s → C s i → next s i = .ok s' → Inv s') (hs : Inv s)
    (hc : AlongRuns next C s is) {s' : σ} (hrun : runs next s is = .ok s') : Inv s' := by
  induction is generalizing s with
  | nil =>
    cases hrun
    exact hs
  | cons i is ih =>
    unfold runs at hrun
    unfold AlongRuns at hc
    obtain ⟨hfirst, hrest⟩ := hc
    cases hi : next s i with
    | error e =>
      rw [hi] at hrun
      cases hrun
    | ok s₁ =>
      rw [hi] at hrun hrest
      exact ih (hnext s i s₁ hs hfirst hi) hrest hrun

theorem alongRuns_cons {i : ι} {s' : σ} (h : next s i = .ok s') :
    AlongRuns next C s (i :: is) ↔ C s i ∧ AlongRuns next C s' is := by
  rw [AlongRuns, h]

/-- Two step properties that agree at every allowed step of the invariant hold along the same
allowed runs. -/
theorem alongRuns_congr_of_invariant {R R' : σ → ι → Prop} (Inv : σ → Prop)
    (hnext : ∀ s i s', Inv s → C s i → next s i = .ok s' → Inv s')
    (h : ∀ s i, Inv s → C s i → (R s i ↔ R' s i)) (hs : Inv s) (hc : AlongRuns next C s is) :
    AlongRuns next R s is ↔ AlongRuns next R' s is := by
  induction is generalizing s with
  | nil => exact Iff.rfl
  | cons i is ih =>
    unfold AlongRuns at hc ⊢
    obtain ⟨hfirst, hrest⟩ := hc
    refine and_congr (h s i hs hfirst) ?_
    cases hi : next s i with
    | error e => exact Iff.rfl
    | ok s₁ =>
      rw [hi] at hrest
      exact ih (hnext s i s₁ hs hfirst hi) hrest

/-- **The exact rule.** Where, from a good state, a step of the invariant leads to a good state
just if its condition holds, every state that a run comes to is good just if the condition holds
along it. -/
theorem alongRuns_iff_of_invariant (Inv P : σ → Prop)
    (hnext : ∀ s i s', Inv s → next s i = .ok s' → Inv s')
    (hP : ∀ s i s', Inv s → P s → next s i = .ok s' → (P s' ↔ C s i)) (hs : Inv s) (hps : P s)
    {s' : σ} (hrun : runs next s is = .ok s') :
    (∀ before, before <+: is → ∀ s₁, runs next s before = .ok s₁ → P s₁) ↔
      AlongRuns next C s is := by
  induction is generalizing s with
  | nil =>
    refine iff_of_true (fun before hbefore s₁ h => ?_) trivial
    rw [List.prefix_nil.mp hbefore] at h
    cases h
    exact hps
  | cons i is ih =>
    cases hi : next s i with
    | error e =>
      rw [runs, hi] at hrun
      cases hrun
    | ok s₁ =>
      rw [runs_cons hi] at hrun
      rw [alongRuns_cons hi]
      have hstep := hP s i s₁ hs hps hi
      have hrest := fun hps₁ => ih (hnext s i s₁ hs hi) hps₁ hrun
      constructor
      · intro h
        have hps₁ : P s₁ := h [i] (by simp) s₁ (by rw [runs_cons hi, runs])
        refine ⟨hstep.mp hps₁, (hrest hps₁).mp fun before hbefore s₂ h₂ => ?_⟩
        refine h (i :: before) (List.cons_prefix_cons.mpr ⟨rfl, hbefore⟩) s₂ ?_
        rwa [runs_cons hi]
      · rintro ⟨hc, halong⟩ before hbefore s₂ h₂
        have hps₁ := hstep.mpr hc
        cases before with
        | nil =>
          cases h₂
          exact hps
        | cons j before =>
          obtain ⟨rfl, htail⟩ := List.cons_prefix_cons.mp hbefore
          rw [runs_cons hi] at h₂
          exact (hrest hps₁).mpr halong before htail s₂ h₂

end Stopping

end MarketData.Run
