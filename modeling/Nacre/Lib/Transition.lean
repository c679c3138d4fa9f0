/-
Labelled transition systems given by a partial step function, and the
rules every state-machine result of the development goes through.

A system is a function `step : σ → α → Option σ`: the action either is
not enabled in the state (`none`) or leads to one next state. What an
interleaving may contain is a second argument, `ok : σ → α → Prop`,
which says of a state and an action whether a run may take that action
there. A system with no restriction on its runs is `ok := anyStep`.

# The rules

- `Reachable.invariant`: a predicate that holds initially and is kept by
  every permitted step holds in every reachable state.
- `Reachable.invariant_on`: the same for a predicate that is kept only
  where another invariant of these runs holds.
- `Steps.invariant`: the same along one run from a given state, for
  results of the shape "from this moment on".

`runWithin` is the executable spine: it runs a list of actions and fails
on the first that is disabled or not permitted, so a concrete run can be
evaluated, and `runWithin_steps` turns the evaluation into a `Steps`.
-/
import Mathlib.Logic.Relation

namespace Transition

variable {σ α : Type*}

-- ============================================================ the relation

/-- No restriction on the run: every enabled action is permitted. -/
def anyStep (_ : σ) (_ : α) : Prop := True

instance (s : σ) (a : α) : Decidable (anyStep s a) :=
  inferInstanceAs (Decidable True)

/-- One permitted step, its action forgotten. -/
def Next (step : σ → α → Option σ) (ok : σ → α → Prop) (s s' : σ) : Prop :=
  ∃ a, ok s a ∧ step s a = some s'

/-- Any number of permitted steps. -/
def Steps (step : σ → α → Option σ) (ok : σ → α → Prop) : σ → σ → Prop :=
  Relation.ReflTransGen (Next step ok)

/-- Some initial state leads here by permitted steps. -/
def Reachable (step : σ → α → Option σ) (ok : σ → α → Prop)
    (init : σ → Prop) (s : σ) : Prop :=
  ∃ s₀, init s₀ ∧ Steps step ok s₀ s

variable {step : σ → α → Option σ} {ok : σ → α → Prop}

-- ============================================================== the rules

/-- An invariant of the step is an invariant of the run. -/
theorem Steps.invariant {I : σ → Prop} {s s' : σ}
    (hrun : Steps step ok s s') (hs : I s)
    (hstep : ∀ t a t', I t → ok t a → step t a = some t' → I t') :
    I s' := by
  induction hrun with
  | refl => exact hs
  | tail _ hnext ih =>
      obtain ⟨a, hok, ha⟩ := hnext
      exact hstep _ a _ ih hok ha

/-- What holds initially and is kept by every permitted step holds in
every reachable state. -/
theorem Reachable.invariant {init I : σ → Prop} {s : σ}
    (hs : Reachable step ok init s) (hinit : ∀ s₀, init s₀ → I s₀)
    (hstep : ∀ t a t', I t → ok t a → step t a = some t' → I t') :
    I s := by
  obtain ⟨s₀, h₀, hrun⟩ := hs
  exact hrun.invariant (hinit s₀ h₀) hstep

/-- An invariant kept where another, of the same runs, holds. -/
theorem Reachable.invariant_on {init I J : σ → Prop} {s : σ}
    (hs : Reachable step ok init s) (hbase : ∀ t, Reachable step ok init t → J t)
    (hinit : ∀ s₀, init s₀ → I s₀)
    (hstep : ∀ t a t', J t → I t → ok t a → step t a = some t' → I t') :
    I s := by
  obtain ⟨s₀, h₀, hrun⟩ := hs
  induction hrun with
  | refl => exact hinit s₀ h₀
  | tail hrun hnext ih =>
      obtain ⟨a, hok, ha⟩ := hnext
      exact hstep _ a _ (hbase _ ⟨s₀, h₀, hrun⟩) ih hok ha

/-- Every run is a run without restriction. -/
theorem Reachable.any {init : σ → Prop} {s : σ} (hs : Reachable step ok init s) :
    Reachable step anyStep init s := by
  obtain ⟨s₀, h₀, hrun⟩ := hs
  refine ⟨s₀, h₀, Relation.ReflTransGen.mono (fun t t' hnext => ?_) _ _ hrun⟩
  obtain ⟨a, -, ha⟩ := hnext
  exact ⟨a, trivial, ha⟩

-- ==================================================== the executable spine

/-- Run a list of actions, failing on the first that is disabled or not
permitted. -/
def runWithin (step : σ → α → Option σ) (ok : σ → α → Prop)
    [∀ s a, Decidable (ok s a)] : σ → List α → Option σ
  | s, [] => some s
  | s, a :: rest =>
      if ok s a then
        match step s a with
        | some s' => runWithin step ok s' rest
        | none => none
      else none

/-- A successful `runWithin` is a run. -/
theorem runWithin_steps [∀ s a, Decidable (ok s a)] :
    ∀ {acts : List α} {s s' : σ},
      runWithin step ok s acts = some s' → Steps step ok s s' := by
  intro acts
  induction acts with
  | nil =>
      intro s s' hrun
      simp only [runWithin, Option.some.injEq] at hrun
      exact hrun ▸ Relation.ReflTransGen.refl
  | cons a rest ih =>
      intro s s' hrun
      unfold runWithin at hrun
      split at hrun
      case isFalse => cases hrun
      case isTrue hok =>
        split at hrun
        next s₁ ha => exact Relation.ReflTransGen.head ⟨a, hok, ha⟩ (ih hrun)
        next => cases hrun

/-- A successful `runWithin` from an initial state ends in a reachable
one. -/
theorem runWithin_reachable [∀ s a, Decidable (ok s a)]
    {init : σ → Prop} {acts : List α} {s₀ s : σ} (h₀ : init s₀)
    (hrun : runWithin step ok s₀ acts = some s) :
    Reachable step ok init s :=
  ⟨s₀, h₀, runWithin_steps hrun⟩

/-- The state a run that goes through ends in, and its reachability. -/
theorem reachable_get [∀ s a, Decidable (ok s a)] {init : σ → Prop}
    {acts : List α} {s₀ : σ} (h₀ : init s₀)
    (hrun : (runWithin step ok s₀ acts).isSome = true) :
    Reachable step ok init ((runWithin step ok s₀ acts).get hrun) :=
  runWithin_reachable h₀ (Option.some_get hrun).symm

/-- A run that goes through to a state with a property that can be
evaluated. -/
theorem exists_reachable [∀ s a, Decidable (ok s a)] {init P : σ → Prop} [DecidablePred P]
    {acts : List α} {s₀ : σ} (h₀ : init s₀)
    (hrun : (runWithin step ok s₀ acts).any (fun s => decide (P s)) = true) :
    ∃ s, Reachable step ok init s ∧ P s := by
  obtain ⟨s, hs, hP⟩ := (Option.any_eq_true _ _).1 hrun
  exact ⟨s, runWithin_reachable h₀ hs, of_decide_eq_true hP⟩

/-- A run that goes through a state with one property to a state with
another, the second part under a restriction of its own. -/
theorem exists_then [∀ s a, Decidable (ok s a)] {ok' : σ → α → Prop}
    [∀ s a, Decidable (ok' s a)] {init P Q : σ → Prop} [DecidablePred P]
    [DecidablePred Q] {acts acts' : List α} {s₀ : σ} (h₀ : init s₀)
    (hrun : (runWithin step ok s₀ acts).any (fun s => decide (P s) &&
      (runWithin step ok' s acts').any fun s' => decide (Q s')) = true) :
    ∃ s s', Reachable step ok init s ∧ Steps step ok' s s' ∧ P s ∧ Q s' := by
  obtain ⟨s, hs, hboth⟩ := (Option.any_eq_true _ _).1 hrun
  obtain ⟨hP, hrest⟩ := Bool.and_eq_true_iff.mp hboth
  obtain ⟨s', hs', hQ⟩ := (Option.any_eq_true _ _).1 hrest
  exact ⟨s, s', runWithin_reachable h₀ hs, runWithin_steps hs', of_decide_eq_true hP,
    of_decide_eq_true hQ⟩

/-- The same for actions that are named by what the state holds. -/
def play (step : σ → α → Option σ) (ok : σ → α → Prop)
    [∀ s a, Decidable (ok s a)] : σ → List (σ → Option α) → Option σ
  | s, [] => some s
  | s, choose :: rest =>
      match choose s with
      | none => none
      | some a =>
          if ok s a then
            match step s a with
            | some s' => play step ok s' rest
            | none => none
          else none

theorem play_steps [∀ s a, Decidable (ok s a)] :
    ∀ {choices : List (σ → Option α)} {s s' : σ},
      play step ok s choices = some s' → Steps step ok s s' := by
  intro choices
  induction choices with
  | nil =>
      intro s s' hrun
      simp only [play, Option.some.injEq] at hrun
      exact hrun ▸ Relation.ReflTransGen.refl
  | cons choose rest ih =>
      intro s s' hrun
      unfold play at hrun
      split at hrun
      next => cases hrun
      next a _ =>
        split at hrun
        case isFalse => cases hrun
        case isTrue hok =>
          split at hrun
          next s₁ ha => exact Relation.ReflTransGen.head ⟨a, hok, ha⟩ (ih hrun)
          next => cases hrun

theorem exists_played [∀ s a, Decidable (ok s a)] {init P : σ → Prop} [DecidablePred P]
    {choices : List (σ → Option α)} {s₀ : σ} (h₀ : init s₀)
    (hrun : (play step ok s₀ choices).any (fun s => decide (P s)) = true) :
    ∃ s, Reachable step ok init s ∧ P s := by
  obtain ⟨s, hs, hP⟩ := (Option.any_eq_true _ _).1 hrun
  exact ⟨s, ⟨s₀, h₀, play_steps hs⟩, of_decide_eq_true hP⟩

end Transition
