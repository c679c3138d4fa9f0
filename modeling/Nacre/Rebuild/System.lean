/-
The rebuild of an organization's collection (core/rebuild.ts:
`rebuildOrganizationIndex`, `requeueForRebuild`; core/vector/search.ts:
`rebuildCollection`, `dropCollection`) while the API and the workers go on:
any number of commands, over the steps of Nacre.Ingest, and a vector store
that may lose the collection at any moment (`lose`).

# What is a step

A command asks whether the collection is there, drops it, creates it, and
then sends one `UPDATE`, which sees the documents that are live when it
starts (`see`) and has updated every one of them that still is when it
commits (`requeue`). It waits for whoever holds one of these rows, so at its
commit nobody does. A command may be given up at any moment (`abandon`): a
crash, a lost connection, a request the vector store refused.

A request to a collection that is not there fails: until it is created no
pass writes and no delete flags. A collection that is not there has no
points.

# Not in the model

What a command reads before it touches the collection, and its refusals
there: an organization there is none of, layers without a slot, a name that
another organization holds. Such a command takes no step.
-/
import Nacre.Ingest.System

namespace Nacre.Rebuild

open Nacre.Store Nacre.Ingest

variable {μ : Type}

abbrev RunId := Nat

-- ================================================================= state

/-- How far a command is. -/
inductive Stage where
  | starting
  /-- The collection is there, and is to be replaced. -/
  | found
  | absent
  | made
  /-- The `UPDATE` runs, over the documents it saw. -/
  | requeueing (seen : List DocId)
  | done
  /-- Refused, or given up. -/
  | gone
  deriving DecidableEq

structure World (μ : Type) where
  base : Ingest.World μ
  /-- The vector store has the collection. -/
  present : Bool
  /-- Every id a row was ever made for. -/
  known : List DocId
  stage : RunId → Stage

def World.fresh (base : Ingest.World μ) : World μ := ⟨base, true, [], fun _ => .starting⟩

def init (w : World μ) : Prop := ∃ base, Ingest.init base ∧ w = World.fresh base

structure Config where
  ingest : Ingest.Config
  /-- `--replace`. -/
  replace : RunId → Bool

-- =============================================================== actions

inductive Action (μ : Type) where
  | base (a : Ingest.Action μ)
  | lose
  | look (i : RunId)
  | drop (i : RunId)
  | make (i : RunId)
  | see (i : RunId)
  | requeue (i : RunId)
  | abandon (i : RunId)

/-- The actions that send the collection a request. -/
def requests : Ingest.Action μ → Bool
  | .updateMetadata _ _ | .writePoint _ | .sweep _ | .tombstone _ => true
  | _ => false

/-- The row an action may make. -/
def makes : Ingest.Action μ → List DocId
  | .queue d _ => [d]
  | _ => []

def World.put (w : World μ) (i : RunId) (stage : Stage) : World μ :=
  { w with stage := Function.update w.stage i stage }

def World.live (w : World μ) : List DocId :=
  w.known.filter fun d => (w.base.docs d).any fun row => row.deletedAt = none

/-- The row of a live document, put back in the queue. -/
def requeued (row : Document μ) : Document μ :=
  if row.deletedAt = none then
    { row with
      status := .pending, claimedAt := none, attempts := 0, error := none
      reindexedVector := none }
  else row

def requeuedDocs (seen : List DocId) (docs : DocId → Option (Document μ)) (d : DocId) :
    Option (Document μ) :=
  if d ∈ seen then (docs d).map requeued else docs d

/-- The points are gone, and the collection. -/
def World.without (w : World μ) : World μ :=
  { w with base := { w.base with points := [] }, present := false }

variable [DecidableEq μ]

def step (cfg : Config) (w : World μ) : Action μ → Option (World μ)
  | .base a =>
      if requests a && !w.present then none
      else
        (Ingest.step cfg.ingest w.base a).map fun base =>
          { w with base, known := makes a ++ w.known }
  | .lose => some w.without
  | .look i =>
      if w.stage i = .starting then
        if w.present then some (w.put i (if cfg.replace i then .found else .gone))
        else some (w.put i .absent)
      else none
  | .drop i => if w.stage i = .found then some (w.without.put i .absent) else none
  | .make i =>
      if w.stage i = .absent then
        -- what somebody else created in between is refused
        if w.present then some (w.put i .gone)
        else some { w.put i .made with present := true }
      else none
  | .see i => if w.stage i = .made then some (w.put i (.requeueing w.live)) else none
  | .requeue i =>
      match w.stage i with
      | .requeueing seen =>
          if ∀ d ∈ seen, w.base.lock d = none then
            some { w.put i .done with
              base := { w.base with docs := requeuedDocs seen w.base.docs } }
          else none
      | _ => none
  | .abandon i => some (w.put i .gone)

-- ================================================== what one step can do

/-- Before the `UPDATE`. -/
def Stage.early : Stage → Bool
  | .starting | .found | .absent | .made => true
  | .requeueing _ | .done | .gone => false

/-- A step of a command that is neither a loss nor a requeue: it changes
how far the command is, and whether there is a collection. -/
structure Aside (i : RunId) (w w' : World μ) : Prop where
  base : w'.base = w.base
  known : w'.known = w.known
  others : ∀ j, j ≠ i → w'.stage j = w.stage j
  own : w'.stage i = .gone ∨ (w.stage i).early = true
  sees : ∀ seen, w'.stage i = .requeueing seen → seen = w.live

inductive Stepped (cfg : Config) (w : World μ) : Action μ → World μ → Prop where
  | base (a : Ingest.Action μ) (b : Ingest.World μ)
      (hb : Ingest.Stepped cfg.ingest w.base a b) :
      Stepped cfg w (.base a) { w with base := b, known := makes a ++ w.known }
  | lose : Stepped cfg w .lose w.without
  | drop (i : RunId) (hstage : w.stage i = .found) :
      Stepped cfg w (.drop i) (w.without.put i .absent)
  | aside (i : RunId) (a : Action μ) (w' : World μ) (h : Aside i w w') : Stepped cfg w a w'
  | requeue (i : RunId) (seen : List DocId) (hstage : w.stage i = .requeueing seen)
      (hfree : ∀ d ∈ seen, w.base.lock d = none) :
      Stepped cfg w (.requeue i) { w.put i .done with
        base := { w.base with docs := requeuedDocs seen w.base.docs } }

variable {cfg : Config} {w w' : World μ} {a : Action μ} {i : RunId}

omit [DecidableEq μ] in
@[simp] theorem put_self (stage : Stage) : (w.put i stage).stage i = stage :=
  Function.update_self ..

omit [DecidableEq μ] in
theorem put_ne {j : RunId} (stage : Stage) (h : j ≠ i) : (w.put i stage).stage j = w.stage j :=
  Function.update_of_ne h ..

omit [DecidableEq μ] in
/-- From an early stage to one that is not the `UPDATE`'s. -/
theorem aside_put {stage : Stage} (hearly : (w.stage i).early = true)
    (hstage : ∀ seen, stage ≠ .requeueing seen) : Aside i w (w.put i stage) where
  base := rfl
  known := rfl
  others := fun _ hne => put_ne stage hne
  own := .inr hearly
  sees := fun seen h => absurd ((put_self stage).symm.trans h) (hstage seen)

theorem step_inv (h : step cfg w a = some w') : Stepped cfg w a w' := by
  cases a with
  | base a =>
      simp only [step] at h
      split at h
      next => cases h
      next =>
        obtain ⟨b, hb, rfl⟩ := Option.map_eq_some_iff.1 h
        exact .base a b (Ingest.step_inv hb)
  | lose =>
      cases h
      exact .lose
  | look i =>
      simp only [step] at h
      split at h
      next hstage =>
        have hearly : (w.stage i).early = true := by
          rw [hstage]
          rfl
        split at h
        next =>
          cases h
          refine .aside i _ _ (aside_put hearly fun seen heq => ?_)
          cases hreplace : cfg.replace i <;> rw [hreplace] at heq <;> cases heq
        next =>
          cases h
          exact .aside i _ _ (aside_put hearly fun seen heq => by cases heq)
      next => cases h
  | drop i =>
      simp only [step] at h
      split at h
      next hstage =>
        cases h
        exact .drop i hstage
      next => cases h
  | make i =>
      simp only [step] at h
      split at h
      next hstage =>
        have hearly : (w.stage i).early = true := by
          rw [hstage]
          rfl
        split at h
        next =>
          cases h
          exact .aside i _ _ (aside_put hearly fun seen heq => by cases heq)
        next =>
          cases h
          have hput : Aside i w (w.put i .made) := aside_put hearly fun seen heq => by cases heq
          exact .aside i _ _ ⟨hput.base, hput.known, hput.others, hput.own, hput.sees⟩
      next => cases h
  | see i =>
      simp only [step] at h
      split at h
      next hstage =>
        cases h
        refine .aside i _ _ ⟨rfl, rfl, fun _ hne => put_ne _ hne, .inr ?_, fun seen heq => ?_⟩
        · rw [hstage]
          rfl
        · rw [put_self] at heq
          cases heq
          rfl
      next => cases h
  | requeue i =>
      simp only [step] at h
      split at h
      next seen hstage =>
        split at h
        next hfree =>
          cases h
          exact .requeue i seen hstage hfree
        next => cases h
      next => cases h
  | abandon i =>
      cases h
      exact .aside i _ _ ⟨rfl, rfl, fun _ hne => put_ne _ hne, .inl (put_self _), fun seen heq => by
        rw [put_self] at heq
        cases heq⟩

end Nacre.Rebuild
