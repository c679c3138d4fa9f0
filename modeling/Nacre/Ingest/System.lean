/-
One organization with one collection: its documents, the requests and
the worker passes over them, and the lease that ties a pass to a row.

# What is a step

A request or a pass is cut where another party can come in between. A
pass claims (`claimNext`), works without touching anything, and then
runs one transaction: `fence` takes the row's lock and decides, points
are written one by one, the document's other points are swept, and the
transaction commits or rolls back. A rollback undoes the row and the
chunks and not the points. A delete locks, flags the points, and
commits. A retag holds the row's lock from its update to its commit and
every writer of a document's points holds it too, so it is one step.

Everything that updates a row waits for its lock; `claimNext` and
`claimStranded` skip it. A pass may be `abandon`ed at any moment: a
worker that dies, a document found unchanged, a claim found lost.

# Ghosts

`leases` records every `claimed_at` a row was given. `FreshClaims` is
the assumption under which runs are considered: a claim gets a value its
row never had. `minted` records the point ids `newId` returned; it never
returns one twice.
-/
import Mathlib.Logic.Function.Basic
import Nacre.Lib.Transition
import Nacre.Store.Index

namespace Nacre.Ingest

open Nacre.Store

-- ================================================================= state

/-- A pass of a worker, with what it read when it claimed. -/
structure Pass (μ : Type) where
  docId : DocId
  claim : Time
  metadata : μ
  /-- Its upsert rolled back; it has a failure left to record. -/
  rolledBack : Bool := false
  deriving DecidableEq

/-- Who holds a document's row, and how far they are. -/
inductive Holder (μ : Type) where
  /-- A pass past the fence: the ids it minted, those still to be
  written, and whether the sweep is done. -/
  | upsert (pass : Pass μ) (content : Content) (ids left : List PointId)
      (swept : Bool)
  /-- A delete, and whether the points are flagged. -/
  | remove (flagged : Bool)
  deriving DecidableEq

structure World (μ : Type) where
  now : Time
  docs : DocId → Option (Document μ)
  /-- The `point_id`s of a document's chunk rows. -/
  chunks : DocId → List PointId
  points : Points μ
  passes : List (Pass μ)
  lock : DocId → Option (Holder μ)
  leases : DocId → List Time
  minted : List PointId

def World.empty (μ : Type) (now : Time) : World μ where
  now := now
  docs _ := none
  chunks _ := []
  points := []
  passes := []
  lock _ := none
  leases _ := []
  minted := []

/-- A fresh organization. -/
def init {μ : Type} (s : World μ) : Prop := ∃ now, s = World.empty μ now

structure Config where
  leaseSeconds : Nat
  maxAttempts : Nat

-- =============================================================== actions

inductive Action (μ : Type) where
  | tick
  | queue (d : DocId) (req : IngestRequest μ)
  | updateMetadata (d : DocId) (metadata : μ)
  | retry (d : DocId)
  | claimNext (d : DocId)
  | fence (p : Pass μ) (content : Content) (ids : List PointId)
  | writePoint (d : DocId)
  | sweep (d : DocId)
  | commit (d : DocId)
  | rollback (d : DocId)
  | abandon (p : Pass μ)
  | recordFailure (p : Pass μ) (failure : Failure)
  | claimStranded (d : DocId)
  | lockForRemove (d : DocId)
  | tombstone (d : DocId)
  | commitRemove (d : DocId)
  | rollbackRemove (d : DocId)

variable {μ : Type} [DecidableEq μ]

/-- The row of a document nobody holds. -/
def World.unlocked (s : World μ) (d : DocId) : Option (Document μ) :=
  match s.lock d with
  | none => s.docs d
  | some _ => none

def World.setRow (s : World μ) (d : DocId) (row : Document μ) : World μ :=
  { s with docs := Function.update s.docs d (some row) }

def World.setLock (s : World μ) (d : DocId) (holder : Option (Holder μ)) :
    World μ :=
  { s with lock := Function.update s.lock d holder }

/-- The point a pass writes. -/
def Pass.point (p : Pass μ) (id : PointId) : Point μ where
  pointId := id
  docId := p.docId
  metadata := p.metadata

def step (cfg : Config) (s : World μ) : Action μ → Option (World μ)
  | .tick => some { s with now := s.now + 1 }
  | .queue d req =>
      match s.lock d, s.docs d with
      | some _, _ => none
      | none, none => some (s.setRow d (queued req s.now))
      | none, some row => some (s.setRow d (resent req s.now row))
  | .updateMetadata d metadata =>
      match s.unlocked d with
      | none => none
      | some row =>
          some { s.setRow d (retagged metadata s.now row) with
            points := s.points.setMetadata d metadata }
  | .retry d =>
      match s.unlocked d with
      | none => none
      | some row => (retried s.now row).map (s.setRow d)
  | .claimNext d =>
      match s.unlocked d with
      | none => none
      | some row =>
          if claimable s.now row then
            some { s.setRow d (claimed s.now row) with
              passes := ⟨d, s.now, row.metadata, false⟩ :: s.passes
              leases := Function.update s.leases d (s.now :: s.leases d) }
          else none
  | .fence p content ids =>
      match s.unlocked p.docId with
      | none => none
      | some row =>
          if p ∈ s.passes ∧ p.rolledBack = false
              ∧ ids.Nodup ∧ (∀ id ∈ ids, id ∉ s.minted)
              ∧ Store.fence p.claim row = true then
            some { s.setLock p.docId (some (.upsert p content ids ids false)) with
              passes := s.passes.erase p
              minted := ids ++ s.minted }
          else none
  | .writePoint d =>
      match s.lock d with
      | some (.upsert p content ids (id :: left) false) =>
          some { s.setLock d (some (.upsert p content ids left false)) with
            points := s.points.put (p.point id) }
      | _ => none
  | .sweep d =>
      match s.lock d with
      | some (.upsert p content ids [] false) =>
          some { s.setLock d (some (.upsert p content ids [] true)) with
            points := s.points.sweep d ids }
      | _ => none
  | .commit d =>
      match s.lock d, s.docs d with
      | some (.upsert _ content ids [] true), some row =>
          some { (s.setLock d none).setRow d
              (upserted content ids.length s.now row) with
            chunks := Function.update s.chunks d ids }
      | _, _ => none
  | .rollback d =>
      match s.lock d with
      | some (.upsert p _ _ _ _) =>
          some { s.setLock d none with
            passes := { p with rolledBack := true } :: s.passes }
      | _ => none
  | .abandon p =>
      if p ∈ s.passes then some { s with passes := s.passes.erase p } else none
  | .recordFailure p failure =>
      match s.unlocked p.docId with
      | none => none
      | some row =>
          if p ∈ s.passes then
            some { s.setRow p.docId
                (failed p.claim failure cfg.maxAttempts s.now row) with
              passes := s.passes.erase p }
          else none
  | .claimStranded d =>
      match s.unlocked d with
      | none => none
      | some row =>
          if expired cfg.leaseSeconds s.now row then
            some (s.setRow d (reaped cfg.maxAttempts s.now row))
          else none
  | .lockForRemove d =>
      match s.unlocked d with
      | none => none
      | some row =>
          if row.deletedAt = none then some (s.setLock d (some (.remove false)))
          else none
  | .tombstone d =>
      match s.lock d with
      | some (.remove false) =>
          some { s.setLock d (some (.remove true)) with
            points := s.points.tombstone d }
      | _ => none
  | .commitRemove d =>
      match s.lock d, s.docs d with
      | some (.remove true), some row =>
          some ((s.setLock d none).setRow d (tombstoned s.now row))
      | _, _ => none
  | .rollbackRemove d =>
      match s.lock d with
      | some (.remove _) => some (s.setLock d none)
      | _ => none

/-- The row an action claims, if it is a claim. -/
def Action.claims : Action μ → Option DocId
  | .claimNext d => some d
  | _ => none

/-- A claim of a row gets a `claimed_at` the row never had. -/
def FreshClaims (s : World μ) (a : Action μ) : Prop :=
  ∀ d ∈ a.claims, s.now ∉ s.leases d

instance (s : World μ) (a : Action μ) : Decidable (FreshClaims s a) :=
  inferInstanceAs (Decidable (∀ d ∈ a.claims, s.now ∉ s.leases d))

-- ================================================== what one step can do

/-- Every step, with what it found and what it left: the inversion of
`step`. -/
inductive Stepped (cfg : Config) (s : World μ) : Action μ → World μ → Prop where
  | tick : Stepped cfg s .tick { s with now := s.now + 1 }
  | queueNew (d : DocId) (req : IngestRequest μ) (hfree : s.lock d = none)
      (hrow : s.docs d = none) :
      Stepped cfg s (.queue d req) (s.setRow d (queued req s.now))
  | queueAgain (d : DocId) (req : IngestRequest μ) (row : Document μ)
      (hfree : s.lock d = none) (hrow : s.docs d = some row) :
      Stepped cfg s (.queue d req) (s.setRow d (resent req s.now row))
  | updateMetadata (d : DocId) (metadata : μ) (row : Document μ)
      (hfree : s.lock d = none) (hrow : s.docs d = some row) :
      Stepped cfg s (.updateMetadata d metadata)
        { s.setRow d (retagged metadata s.now row) with
          points := s.points.setMetadata d metadata }
  | retry (d : DocId) (row row' : Document μ) (hfree : s.lock d = none)
      (hrow : s.docs d = some row) (hretried : retried s.now row = some row') :
      Stepped cfg s (.retry d) (s.setRow d row')
  | claimNext (d : DocId) (row : Document μ) (hfree : s.lock d = none)
      (hrow : s.docs d = some row) (hclaim : claimable s.now row = true) :
      Stepped cfg s (.claimNext d)
        { s.setRow d (claimed s.now row) with
          passes := ⟨d, s.now, row.metadata, false⟩ :: s.passes
          leases := Function.update s.leases d (s.now :: s.leases d) }
  | fence (p : Pass μ) (content : Content) (ids : List PointId)
      (row : Document μ) (hfree : s.lock p.docId = none)
      (hrow : s.docs p.docId = some row) (hpass : p ∈ s.passes)
      (hnodup : ids.Nodup) (hnew : ∀ id ∈ ids, id ∉ s.minted)
      (hfence : Store.fence p.claim row = true) :
      Stepped cfg s (.fence p content ids)
        { s.setLock p.docId (some (.upsert p content ids ids false)) with
          passes := s.passes.erase p
          minted := ids ++ s.minted }
  | writePoint (d : DocId) (p : Pass μ) (content : Content)
      (ids left : List PointId) (id : PointId)
      (hlock : s.lock d = some (.upsert p content ids (id :: left) false)) :
      Stepped cfg s (.writePoint d)
        { s.setLock d (some (.upsert p content ids left false)) with
          points := s.points.put (p.point id) }
  | sweep (d : DocId) (p : Pass μ) (content : Content) (ids : List PointId)
      (hlock : s.lock d = some (.upsert p content ids [] false)) :
      Stepped cfg s (.sweep d)
        { s.setLock d (some (.upsert p content ids [] true)) with
          points := s.points.sweep d ids }
  | commit (d : DocId) (p : Pass μ) (content : Content) (ids : List PointId)
      (row : Document μ)
      (hlock : s.lock d = some (.upsert p content ids [] true))
      (hrow : s.docs d = some row) :
      Stepped cfg s (.commit d)
        { (s.setLock d none).setRow d (upserted content ids.length s.now row) with
          chunks := Function.update s.chunks d ids }
  | rollback (d : DocId) (p : Pass μ) (content : Content)
      (ids left : List PointId) (swept : Bool)
      (hlock : s.lock d = some (.upsert p content ids left swept)) :
      Stepped cfg s (.rollback d)
        { s.setLock d none with
          passes := { p with rolledBack := true } :: s.passes }
  | abandon (p : Pass μ) (hpass : p ∈ s.passes) :
      Stepped cfg s (.abandon p) { s with passes := s.passes.erase p }
  | recordFailure (p : Pass μ) (failure : Failure) (row : Document μ)
      (hfree : s.lock p.docId = none) (hrow : s.docs p.docId = some row)
      (hpass : p ∈ s.passes) :
      Stepped cfg s (.recordFailure p failure)
        { s.setRow p.docId
            (failed p.claim failure cfg.maxAttempts s.now row) with
          passes := s.passes.erase p }
  | claimStranded (d : DocId) (row : Document μ) (hfree : s.lock d = none)
      (hrow : s.docs d = some row)
      (hexpired : expired cfg.leaseSeconds s.now row = true) :
      Stepped cfg s (.claimStranded d)
        (s.setRow d (reaped cfg.maxAttempts s.now row))
  | lockForRemove (d : DocId) (row : Document μ) (hfree : s.lock d = none)
      (hrow : s.docs d = some row) (hlive : row.deletedAt = none) :
      Stepped cfg s (.lockForRemove d) (s.setLock d (some (.remove false)))
  | tombstone (d : DocId) (hlock : s.lock d = some (.remove false)) :
      Stepped cfg s (.tombstone d)
        { s.setLock d (some (.remove true)) with
          points := s.points.tombstone d }
  | commitRemove (d : DocId) (row : Document μ)
      (hlock : s.lock d = some (.remove true)) (hrow : s.docs d = some row) :
      Stepped cfg s (.commitRemove d)
        ((s.setLock d none).setRow d (tombstoned s.now row))
  | rollbackRemove (d : DocId) (flagged : Bool)
      (hlock : s.lock d = some (.remove flagged)) :
      Stepped cfg s (.rollbackRemove d) (s.setLock d none)

section Fields

omit [DecidableEq μ]

variable (s : World μ) (d : DocId) (row : Document μ) (holder : Option (Holder μ))

@[simp] theorem setRow_self : (s.setRow d row).docs d = some row :=
  Function.update_self ..

theorem setRow_ne {d' : DocId} (h : d' ≠ d) :
    (s.setRow d row).docs d' = s.docs d' :=
  Function.update_of_ne h ..

@[simp] theorem setLock_self : (s.setLock d holder).lock d = holder :=
  Function.update_self ..

theorem setLock_ne {d' : DocId} (h : d' ≠ d) :
    (s.setLock d holder).lock d' = s.lock d' :=
  Function.update_of_ne h ..

end Fields

omit [DecidableEq μ] in
theorem unlocked_eq_some {s : World μ} {d : DocId} {row : Document μ} :
    s.unlocked d = some row ↔ s.lock d = none ∧ s.docs d = some row := by
  unfold World.unlocked
  cases s.lock d with
  | none => simp
  | some holder => simp

theorem step_inv {cfg : Config} {s s' : World μ} {a : Action μ}
    (h : step cfg s a = some s') : Stepped cfg s a s' := by
  cases a with
  | tick =>
      cases h
      exact .tick
  | queue d req =>
      simp only [step] at h
      split at h
      next => cases h
      next hfree hrow =>
        cases h
        exact .queueNew d req hfree hrow
      next row hfree hrow =>
        cases h
        exact .queueAgain d req row hfree hrow
  | updateMetadata d metadata =>
      simp only [step] at h
      split at h
      next => cases h
      next row hrow =>
        cases h
        obtain ⟨hfree, hrow⟩ := unlocked_eq_some.1 hrow
        exact .updateMetadata d metadata row hfree hrow
  | retry d =>
      simp only [step] at h
      split at h
      next => cases h
      next row hrow =>
        obtain ⟨row', hretried, rfl⟩ := Option.map_eq_some_iff.1 h
        obtain ⟨hfree, hrow⟩ := unlocked_eq_some.1 hrow
        exact .retry d row row' hfree hrow hretried
  | claimNext d =>
      simp only [step] at h
      split at h
      next => cases h
      next row hrow =>
        split at h
        next hclaim =>
          cases h
          obtain ⟨hfree, hrow⟩ := unlocked_eq_some.1 hrow
          exact .claimNext d row hfree hrow hclaim
        next => cases h
  | fence p content ids =>
      simp only [step] at h
      split at h
      next => cases h
      next row hrow =>
        split at h
        next hguard =>
          cases h
          obtain ⟨hpass, -, hnodup, hnew, hfence⟩ := hguard
          obtain ⟨hfree, hrow⟩ := unlocked_eq_some.1 hrow
          exact .fence p content ids row hfree hrow hpass hnodup hnew hfence
        next => cases h
  | writePoint d =>
      simp only [step] at h
      split at h
      next p content ids id left hlock =>
        cases h
        exact .writePoint d p content ids left id hlock
      next => cases h
  | sweep d =>
      simp only [step] at h
      split at h
      next p content ids hlock =>
        cases h
        exact .sweep d p content ids hlock
      next => cases h
  | commit d =>
      simp only [step] at h
      split at h
      next p content ids row hlock hrow =>
        cases h
        exact .commit d p content ids row hlock hrow
      next => cases h
  | rollback d =>
      simp only [step] at h
      split at h
      next p content ids left swept hlock =>
        cases h
        exact .rollback d p content ids left swept hlock
      next => cases h
  | abandon p =>
      simp only [step] at h
      split at h
      next hpass =>
        cases h
        exact .abandon p hpass
      next => cases h
  | recordFailure p failure =>
      simp only [step] at h
      split at h
      next => cases h
      next row hrow =>
        split at h
        next hpass =>
          cases h
          obtain ⟨hfree, hrow⟩ := unlocked_eq_some.1 hrow
          exact .recordFailure p failure row hfree hrow hpass
        next => cases h
  | claimStranded d =>
      simp only [step] at h
      split at h
      next => cases h
      next row hrow =>
        split at h
        next hexpired =>
          cases h
          obtain ⟨hfree, hrow⟩ := unlocked_eq_some.1 hrow
          exact .claimStranded d row hfree hrow hexpired
        next => cases h
  | lockForRemove d =>
      simp only [step] at h
      split at h
      next => cases h
      next row hrow =>
        split at h
        next hlive =>
          cases h
          obtain ⟨hfree, hrow⟩ := unlocked_eq_some.1 hrow
          exact .lockForRemove d row hfree hrow hlive
        next => cases h
  | tombstone d =>
      simp only [step] at h
      split at h
      next hlock =>
        cases h
        exact .tombstone d hlock
      next => cases h
  | commitRemove d =>
      simp only [step] at h
      split at h
      next row hlock hrow =>
        cases h
        exact .commitRemove d row hlock hrow
      next => cases h
  | rollbackRemove d =>
      simp only [step] at h
      split at h
      next flagged hlock =>
        cases h
        exact .rollbackRemove d flagged hlock
      next => cases h

end Nacre.Ingest
