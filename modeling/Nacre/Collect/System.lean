/-
The collector beside the requests and the passes: `collectOnce`
(worker/src/collect.ts) over the statements of worker/src/adapters.ts
`claimPurgeable`, `stillDeleted`, `purge` and `markPurged`, and the
bucket's `removeObject`.

The rows, the index and the bucket are `Nacre.Objects`, carried as the
field `store`.

# What is a step

A sweep takes its target with one statement and then works on it without
a lock: it reads whether the row is still deleted, removes the points,
removes the object if the target had one when it was claimed, and marks
the row. Each of these is a step. A target that is not deleted any more
is passed over, a call that fails is logged, and a worker dies: in each
case the sweep gives its target up where it is. Two sweeps have one
target when the first has outlived its lease.
-/
import Nacre.Objects.System

namespace Nacre.Collect

open Nacre.Store Nacre.Ingest

-- ================================================================= state

/-- What a sweep has done to its target. -/
inductive Stage where
  | claimed
  | checked
  | purged
  | removed
  deriving DecidableEq

/-- A target of `collectOnce`. -/
structure Sweep where
  docId : DocId
  /-- It came with an `objectKey`. -/
  object : Bool
  stage : Stage
  deriving DecidableEq

structure World (μ : Type) where
  store : Objects.World μ
  sweeps : List Sweep

structure Config extends Ingest.Config where
  graceSeconds : Nat
  sweepLeaseSeconds : Nat

variable {μ : Type} [DecidableEq μ]

def init (s : World μ) : Prop := ∃ store, Objects.init store ∧ s = ⟨store, []⟩

inductive Action (μ : Type) where
  | store (a : Objects.Action μ)
  | claimPurgeable (d : DocId)
  | stillDeleted (sw : Sweep)
  | purge (sw : Sweep)
  | removeObject (sw : Sweep)
  | markPurged (sw : Sweep)
  | giveUp (sw : Sweep)

-- ========================================================== small writes

def World.setBase (s : World μ) (base : Ingest.World μ) : World μ :=
  { s with store := { s.store with base } }

def World.advance (s : World μ) (sw : Sweep) (stage : Stage) : World μ :=
  { s with sweeps := { sw with stage } :: s.sweeps.erase sw }

def World.leave (s : World μ) (sw : Sweep) : World μ :=
  { s with sweeps := s.sweeps.erase sw }

def World.purged (s : World μ) (d : DocId) : World μ :=
  s.setBase { s.store.base with points := s.store.base.points.purge d }

def World.unstored (s : World μ) (d : DocId) : World μ :=
  { s with store := { s.store with bucket := Function.update s.store.bucket d none } }

/-- Whether all that is left of a target is its mark. -/
def Sweep.done (sw : Sweep) : Bool :=
  sw.stage = .removed || sw.stage = .purged && !sw.object

-- ================================================================== step

def step (cfg : Config) (s : World μ) : Action μ → Option (World μ)
  | .store a => (Objects.step cfg.toConfig s.store a).map fun store => { s with store }
  | .claimPurgeable d =>
      match s.store.base.unlocked d with
      | none => none
      | some row =>
          if purgeable cfg.graceSeconds cfg.sweepLeaseSeconds s.store.base.now row then
            some { s.setBase
                (s.store.base.setRow d (purgeClaimed s.store.base.now row)) with
              sweeps := ⟨d, row.sourceType = "s3", .claimed⟩ :: s.sweeps }
          else none
  | .stillDeleted sw =>
      if sw ∈ s.sweeps ∧ sw.stage = .claimed
          ∧ (s.store.base.docs sw.docId).all (·.deletedAt ≠ none) then
        some (s.advance sw .checked)
      else none
  | .purge sw =>
      if sw ∈ s.sweeps ∧ sw.stage = .checked then
        some ((s.purged sw.docId).advance sw .purged)
      else none
  | .removeObject sw =>
      if sw ∈ s.sweeps ∧ sw.stage = .purged ∧ sw.object = true then
        some ((s.unstored sw.docId).advance sw .removed)
      else none
  | .markPurged sw =>
      if sw ∈ s.sweeps ∧ sw.done = true ∧ s.store.base.lock sw.docId = none then
        match s.store.base.docs sw.docId with
        | none => some (s.leave sw)
        | some row =>
            some ((s.setBase
              (s.store.base.setRow sw.docId
                (markedPurged s.store.base.now row))).leave sw)
      else none
  | .giveUp sw => if sw ∈ s.sweeps then some (s.leave sw) else none

-- ================================================== what one step can do

/-- Every step, with what it found. -/
inductive Stepped (cfg : Config) (s : World μ) : Action μ → World μ → Prop where
  | store (a : Objects.Action μ) (store : Objects.World μ)
      (hstep : Objects.Stepped cfg.toConfig s.store a store) :
      Stepped cfg s (.store a) { s with store }
  | claimPurgeable (d : DocId) (row : Document μ) (hfree : s.store.base.lock d = none)
      (hrow : s.store.base.docs d = some row) (hpurgeable :
        purgeable cfg.graceSeconds cfg.sweepLeaseSeconds s.store.base.now row = true) :
      Stepped cfg s (.claimPurgeable d)
        { s.setBase (s.store.base.setRow d (purgeClaimed s.store.base.now row)) with
          sweeps := ⟨d, row.sourceType = "s3", .claimed⟩ :: s.sweeps }
  | stillDeleted (sw : Sweep) (hsw : sw ∈ s.sweeps) (hdeleted : ∀ row,
      s.store.base.docs sw.docId = some row → row.deletedAt ≠ none) :
      Stepped cfg s (.stillDeleted sw) (s.advance sw .checked)
  | purge (sw : Sweep) (hsw : sw ∈ s.sweeps) (hstage : sw.stage = .checked) :
      Stepped cfg s (.purge sw) ((s.purged sw.docId).advance sw .purged)
  | removeObject (sw : Sweep) (hsw : sw ∈ s.sweeps) (hstage : sw.stage = .purged) :
      Stepped cfg s (.removeObject sw) ((s.unstored sw.docId).advance sw .removed)
  | markNothing (sw : Sweep) (hsw : sw ∈ s.sweeps) :
      Stepped cfg s (.markPurged sw) (s.leave sw)
  | markPurged (sw : Sweep) (row : Document μ) (hsw : sw ∈ s.sweeps)
      (hstage : sw.stage = .purged ∨ sw.stage = .removed)
      (hfree : s.store.base.lock sw.docId = none)
      (hrow : s.store.base.docs sw.docId = some row) :
      Stepped cfg s (.markPurged sw)
        ((s.setBase (s.store.base.setRow sw.docId
          (markedPurged s.store.base.now row))).leave sw)
  | giveUp (sw : Sweep) (hsw : sw ∈ s.sweeps) : Stepped cfg s (.giveUp sw) (s.leave sw)

variable {cfg : Config} {s s' : World μ} {a : Action μ}

theorem stage_of_done {sw : Sweep} (h : sw.done = true) :
    sw.stage = .purged ∨ sw.stage = .removed := by
  simp only [Sweep.done, Bool.or_eq_true, Bool.and_eq_true, decide_eq_true_eq] at h
  rcases h with hremoved | ⟨hpurged, -⟩
  · exact .inr hremoved
  · exact .inl hpurged

theorem step_inv (h : step cfg s a = some s') : Stepped cfg s a s' := by
  cases a with
  | store a =>
      obtain ⟨store, hstep, rfl⟩ := Option.map_eq_some_iff.1 h
      exact .store a store (Objects.step_inv hstep)
  | claimPurgeable d =>
      simp only [step] at h
      split at h
      next => cases h
      next row hrow =>
        rw [Option.ite_none_right_eq_some] at h
        obtain ⟨hfree, hrow⟩ := unlocked_eq_some.1 hrow
        cases h.2
        exact .claimPurgeable d row hfree hrow h.1
  | stillDeleted sw =>
      simp only [step, Option.ite_none_right_eq_some] at h
      obtain ⟨⟨hsw, -, hdeleted⟩, h⟩ := h
      cases h
      refine .stillDeleted sw hsw fun row hrow => ?_
      rw [hrow] at hdeleted
      simpa using hdeleted
  | purge sw =>
      simp only [step, Option.ite_none_right_eq_some] at h
      obtain ⟨⟨hsw, hstage⟩, h⟩ := h
      cases h
      exact .purge sw hsw hstage
  | removeObject sw =>
      simp only [step, Option.ite_none_right_eq_some] at h
      obtain ⟨⟨hsw, hstage, -⟩, h⟩ := h
      cases h
      exact .removeObject sw hsw hstage
  | markPurged sw =>
      simp only [step, Option.ite_none_right_eq_some] at h
      obtain ⟨⟨hsw, hdone, hfree⟩, h⟩ := h
      split at h
      next =>
        cases h
        exact .markNothing sw hsw
      next row hrow =>
        cases h
        exact .markPurged sw row hsw (stage_of_done hdone) hfree hrow
  | giveUp sw =>
      simp only [step, Option.ite_none_right_eq_some] at h
      cases h.2
      exact .giveUp sw h.1

end Nacre.Collect
