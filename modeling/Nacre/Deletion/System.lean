/-
Deleting a layer beside everything that writes documents and points:
`PostgresLayers.remove`, `NacreIngest.queue` with the layer it holds
(`writableLayer`), both in api/src/adapters.ts, and the collector
(worker/src/adapters.ts, collect.ts).

The documents, the collections, the passes and the copies are
`Nacre.Migration`, carried as the field `base`.

# The locks

An ingest request holds its layer's row `FOR SHARE` from the check to its
commit, a removal holds it `FOR UPDATE`. A removal then holds the rows of
the layer's live documents, and whatever has to lock one of these waits.

# What is a step

A request is the check and the row statement. A removal reads the
collection, locks the layer, locks the documents, flags the points, and
commits; it may be refused or fail at any of these, and what it flagged
stays flagged. A sweep is cut as in `Nacre.Collect`; the bucket is not
here.
-/
import Nacre.Collect.System
import Nacre.Migration.Sound

namespace Nacre.Deletion

open Nacre.Store
open Nacre.Collect (Stage)

-- ================================================================= state

/-- A call of `queue` that holds its layer. -/
structure Send (μ : Type) where
  docId : DocId
  req : IngestRequest μ
  stamp : Time
  deriving DecidableEq

/-- What a removal has done so far. -/
inductive Progress where
  | begun
  | locked
  | holding
  | flagged
  deriving DecidableEq

structure Removal where
  layerId : LayerId
  collection : String
  stamp : Time
  progress : Progress := .begun
  /-- The documents whose rows it holds. -/
  docs : List DocId := []
  deriving DecidableEq

/-- A target of `collectOnce`. -/
structure Sweep where
  docId : DocId
  collection : String
  stage : Stage := .claimed
  deriving DecidableEq

structure World (μ : Type) where
  base : Migration.World μ
  sends : List (Send μ)
  removals : List Removal
  sweeps : List Sweep

structure Config extends Migration.Config where
  graceSeconds : Nat
  sweepLeaseSeconds : Nat

variable {μ : Type} [DecidableEq μ]

def init (s : World μ) : Prop := ∃ base, Migration.init base ∧ s = ⟨base, [], [], []⟩

inductive Action (μ : Type) where
  | base (a : Migration.Action μ)
  | writableLayer (q : Send μ)
  | queue (q : Send μ)
  | abort (q : Send μ)
  | begin (l : LayerId)
  | lockLayer (r : Removal)
  | lockDocuments (r : Removal)
  | tombstoneLayer (r : Removal)
  | commit (r : Removal)
  | rollback (r : Removal)
  | claimPurgeable (d : DocId)
  | stillDeleted (sw : Sweep)
  | purge (sw : Sweep)
  | markPurged (sw : Sweep)
  | giveUp (sw : Sweep)

-- ================================================================== locks

/-- The layer's row says it is live. -/
def World.liveLayer (s : World μ) (l : LayerId) : Bool :=
  (s.base.schema.layer? l).any (·.live)

/-- Somebody holds the layer `FOR SHARE`. -/
def World.shared (s : World μ) (l : LayerId) : Bool :=
  s.sends.any (·.req.layerId = l)

/-- The removal holds the layer `FOR UPDATE`. -/
def Removal.locks (l : LayerId) (r : Removal) : Bool :=
  r.layerId = l && r.progress ≠ .begun

def World.excluded (s : World μ) (l : LayerId) : Bool := s.removals.any (·.locks l)

/-- A removal holds the document's row. -/
def World.held (s : World μ) (d : DocId) : Bool := s.removals.any (·.docs.contains d)

/-- The rows a step of `base` has to lock. -/
def World.rows (s : World μ) : Migration.Action μ → List DocId
  | .retry d _ => [d]
  | .claimNext d _ => [d]
  | .claimStranded d _ => [d]
  | .updateMetadata d _ _ _ => [d]
  | .lockForRemove d _ _ => [d]
  | .fence p _ _ _ => [p.docId]
  | .recordFailure p _ _ => [p.docId]
  | .markReindexed t => [t.docId]
  | .repairAfterCopy _ since _ =>
      s.base.ids.filter fun d => (s.base.docs d).any (requeuedSince since)
  | _ => []

/-- Whether a step of `base` is not the one that is split here, and waits
for no removal. -/
def World.permits (s : World μ) : Migration.Action μ → Bool
  | .queue .. => false
  | a => (s.rows a).all fun d => !s.held d

/-- The layer's live documents. -/
def World.liveIn (s : World μ) (l : LayerId) : List DocId :=
  s.base.ids.filter fun d =>
    (s.base.docs d).any fun row => row.layerId = l && row.deletedAt = none

-- ========================================================== small writes

def World.setRow (s : World μ) (d : DocId) (row : Document μ) : World μ :=
  { s with base := s.base.setRow d row }

/-- A removal goes on, or ends. -/
def World.replace (s : World μ) (r : Removal) (new : List Removal) : World μ :=
  { s with removals := new ++ s.removals.erase r }

def World.swap (s : World μ) (sw : Sweep) (new : List Sweep) : World μ :=
  { s with sweeps := new ++ s.sweeps.erase sw }

/-- A row of a layer that is removed. -/
def removedWith (l : LayerId) (stamp : Time) (row : Document μ) : Document μ :=
  if row.layerId = l ∧ row.deletedAt = none then tombstoned stamp row else row

-- ================================================================== step

def step (cfg : Config) (s : World μ) : Action μ → Option (World μ)
  | .base a =>
      if s.permits a then
        (Migration.step cfg.toConfig s.base a).map fun base => { s with base }
      else none
  -- ------------------------------------------------------------- requests
  | .writableLayer q =>
      if s.liveLayer q.req.layerId = true ∧ s.excluded q.req.layerId = false then
        some { s with sends := q :: s.sends }
      else none
  | .queue q =>
      if q ∈ s.sends ∧ s.base.lock q.docId = none ∧ s.held q.docId = false then
        match s.base.docs q.docId with
        | none =>
            some { s with
              base := { s.base.setRow q.docId (queued q.req q.stamp) with
                ids := q.docId :: s.base.ids }
              sends := s.sends.erase q }
        | some row =>
            if row.layerId = q.req.layerId then
              some { s.setRow q.docId (resent q.req q.stamp row) with
                sends := s.sends.erase q }
            else none
      else none
  | .abort q => if q ∈ s.sends then some { s with sends := s.sends.erase q } else none
  -- ------------------------------------------------------------- removals
  | .begin l =>
      some { s with
        removals := { layerId := l, collection := s.base.collection
                      stamp := s.base.schema.now } :: s.removals }
  | .lockLayer r =>
      if r ∈ s.removals ∧ r.progress = .begun ∧ s.liveLayer r.layerId = true
          ∧ s.shared r.layerId = false ∧ s.excluded r.layerId = false then
        some (s.replace r [{ r with progress := .locked }])
      else none
  | .lockDocuments r =>
      if r ∈ s.removals ∧ r.progress = .locked
          ∧ ∀ d ∈ s.liveIn r.layerId, s.base.lock d = none ∧ s.held d = false then
        some (s.replace r
          [{ r with progress := .holding, docs := s.liveIn r.layerId }])
      else none
  | .tombstoneLayer r =>
      if r ∈ s.removals ∧ r.progress = .holding then
        some { s.replace r [{ r with progress := .flagged }] with
          base := s.base.setPoints r.collection fun pts => pts.tombstoneLayer
            fun d => (s.base.docs d).any (·.layerId = r.layerId) }
      else none
  | .commit r =>
      if r ∈ s.removals ∧ r.progress = .flagged then
        (Layers.step cfg.layers s.base.schema (.remove r.layerId)).map fun schema =>
          { s.replace r [] with
            base := { s.base with
              schema
              docs := fun d => (s.base.docs d).map (removedWith r.layerId r.stamp) } }
      else none
  | .rollback r => if r ∈ s.removals then some (s.replace r []) else none
  -- ------------------------------------------------------------ collector
  | .claimPurgeable d =>
      match s.base.unlocked d with
      | none => none
      | some row =>
          if s.held d = false ∧ purgeable cfg.graceSeconds cfg.sweepLeaseSeconds
              s.base.schema.now row = true then
            some { s.setRow d (purgeClaimed s.base.schema.now row) with
              sweeps := { docId := d, collection := s.base.collection } :: s.sweeps }
          else none
  | .stillDeleted sw =>
      if sw ∈ s.sweeps ∧ sw.stage = .claimed
          ∧ (s.base.docs sw.docId).all (·.deletedAt ≠ none) then
        some (s.swap sw [{ sw with stage := .checked }])
      else none
  | .purge sw =>
      if sw ∈ s.sweeps ∧ sw.stage = .checked then
        some { s.swap sw [{ sw with stage := .purged }] with
          base := s.base.setPoints sw.collection fun pts => pts.purge sw.docId }
      else none
  | .markPurged sw =>
      if sw ∈ s.sweeps ∧ sw.stage = .purged ∧ s.held sw.docId = false then
        match s.base.unlocked sw.docId with
        | none => none
        | some row =>
            some ((s.swap sw []).setRow sw.docId
              (markedPurged s.base.schema.now row))
      else none
  | .giveUp sw => if sw ∈ s.sweeps then some (s.swap sw []) else none

-- ================================================== what one step can do

/-- Every step, with what it found. -/
inductive Stepped (cfg : Config) (s : World μ) : Action μ → World μ → Prop where
  | base (a : Migration.Action μ) (base : Migration.World μ)
      (hpermits : s.permits a = true)
      (hstep : Migration.Stepped cfg.toConfig s.base a base) :
      Stepped cfg s (.base a) { s with base }
  | writableLayer (q : Send μ) (hlive : s.liveLayer q.req.layerId = true)
      (hfree : s.excluded q.req.layerId = false) :
      Stepped cfg s (.writableLayer q) { s with sends := q :: s.sends }
  | queueNew (q : Send μ) (hq : q ∈ s.sends) (hrow : s.base.docs q.docId = none)
      (hfree : s.base.lock q.docId = none) :
      Stepped cfg s (.queue q)
        { s with
          base := { s.base.setRow q.docId (queued q.req q.stamp) with
            ids := q.docId :: s.base.ids }
          sends := s.sends.erase q }
  | queueAgain (q : Send μ) (row : Document μ) (hq : q ∈ s.sends)
      (hfree : s.base.lock q.docId = none) (hrow : s.base.docs q.docId = some row)
      (hlayer : row.layerId = q.req.layerId) :
      Stepped cfg s (.queue q)
        { s.setRow q.docId (resent q.req q.stamp row) with sends := s.sends.erase q }
  | abort (q : Send μ) :
      Stepped cfg s (.abort q) { s with sends := s.sends.erase q }
  | begin (l : LayerId) :
      Stepped cfg s (.begin l)
        { s with
          removals := { layerId := l, collection := s.base.collection
                        stamp := s.base.schema.now } :: s.removals }
  | lockLayer (r : Removal) (hr : r ∈ s.removals) (hprogress : r.progress = .begun)
      (hlive : s.liveLayer r.layerId = true) (hshared : s.shared r.layerId = false)
      (hfree : s.excluded r.layerId = false) :
      Stepped cfg s (.lockLayer r) (s.replace r [{ r with progress := .locked }])
  | lockDocuments (r : Removal) (hr : r ∈ s.removals) (hprogress : r.progress = .locked)
      (hfree : ∀ d ∈ s.liveIn r.layerId, s.base.lock d = none) :
      Stepped cfg s (.lockDocuments r)
        (s.replace r [{ r with progress := .holding, docs := s.liveIn r.layerId }])
  | tombstoneLayer (r : Removal) (hr : r ∈ s.removals)
      (hprogress : r.progress = .holding) :
      Stepped cfg s (.tombstoneLayer r)
        { s.replace r [{ r with progress := .flagged }] with
          base := s.base.setPoints r.collection fun pts => pts.tombstoneLayer
            fun d => (s.base.docs d).any (·.layerId = r.layerId) }
  | commit (r : Removal) (schema : Layers.World) (hr : r ∈ s.removals)
      (hprogress : r.progress = .flagged)
      (hstep : Layers.Stepped cfg.layers s.base.schema (.remove r.layerId) schema) :
      Stepped cfg s (.commit r)
        { s.replace r [] with
          base := { s.base with
            schema
            docs := fun d => (s.base.docs d).map (removedWith r.layerId r.stamp) } }
  | rollback (r : Removal) (hr : r ∈ s.removals) :
      Stepped cfg s (.rollback r) (s.replace r [])
  | claimPurgeable (d : DocId) (row : Document μ) (hfree : s.base.lock d = none)
      (hrow : s.base.docs d = some row) :
      Stepped cfg s (.claimPurgeable d)
        { s.setRow d (purgeClaimed s.base.schema.now row) with
          sweeps := { docId := d, collection := s.base.collection } :: s.sweeps }
  | stillDeleted (sw : Sweep) :
      Stepped cfg s (.stillDeleted sw) (s.swap sw [{ sw with stage := .checked }])
  | purge (sw : Sweep) :
      Stepped cfg s (.purge sw)
        { s.swap sw [{ sw with stage := .purged }] with
          base := s.base.setPoints sw.collection fun pts => pts.purge sw.docId }
  | markPurged (sw : Sweep) (row : Document μ) (hfree : s.base.lock sw.docId = none)
      (hrow : s.base.docs sw.docId = some row) :
      Stepped cfg s (.markPurged sw)
        ((s.swap sw []).setRow sw.docId (markedPurged s.base.schema.now row))
  | giveUp (sw : Sweep) : Stepped cfg s (.giveUp sw) (s.swap sw [])

theorem step_inv {cfg : Config} {s s' : World μ} {a : Action μ}
    (h : step cfg s a = some s') : Stepped cfg s a s' := by
  cases a with
  | base a =>
      simp only [step, Option.ite_none_right_eq_some] at h
      obtain ⟨hpermits, h⟩ := h
      obtain ⟨base, hstep, rfl⟩ := Option.map_eq_some_iff.1 h
      exact .base a base hpermits (Migration.step_inv hstep)
  | writableLayer q =>
      simp only [step, Option.ite_none_right_eq_some] at h
      obtain ⟨⟨hlive, hfree⟩, h⟩ := h
      cases h
      exact .writableLayer q hlive hfree
  | queue q =>
      simp only [step, Option.ite_none_right_eq_some] at h
      obtain ⟨⟨hq, hfree, -⟩, h⟩ := h
      split at h
      next hrow =>
        cases h
        exact .queueNew q hq hrow hfree
      next row hrow =>
        rw [Option.ite_none_right_eq_some] at h
        obtain ⟨hlayer, h⟩ := h
        cases h
        exact .queueAgain q row hq hfree hrow hlayer
  | abort q =>
      simp only [step, Option.ite_none_right_eq_some] at h
      cases h.2
      exact .abort q
  | begin l =>
      cases h
      exact .begin l
  | lockLayer r =>
      simp only [step, Option.ite_none_right_eq_some] at h
      obtain ⟨⟨hr, hprogress, hlive, hshared, hfree⟩, h⟩ := h
      cases h
      exact .lockLayer r hr hprogress hlive hshared hfree
  | lockDocuments r =>
      simp only [step, Option.ite_none_right_eq_some] at h
      obtain ⟨⟨hr, hprogress, hfree⟩, h⟩ := h
      cases h
      exact .lockDocuments r hr hprogress fun d hd => (hfree d hd).1
  | tombstoneLayer r =>
      simp only [step, Option.ite_none_right_eq_some] at h
      obtain ⟨⟨hr, hprogress⟩, h⟩ := h
      cases h
      exact .tombstoneLayer r hr hprogress
  | commit r =>
      simp only [step, Option.ite_none_right_eq_some] at h
      obtain ⟨⟨hr, hprogress⟩, h⟩ := h
      obtain ⟨schema, hstep, rfl⟩ := Option.map_eq_some_iff.1 h
      exact .commit r schema hr hprogress (Layers.step_inv hstep)
  | rollback r =>
      simp only [step, Option.ite_none_right_eq_some] at h
      cases h.2
      exact .rollback r h.1
  | claimPurgeable d =>
      simp only [step] at h
      split at h
      next => cases h
      next row hrow =>
        rw [Option.ite_none_right_eq_some] at h
        cases h.2
        obtain ⟨hfree, hrow⟩ := Migration.unlocked_eq_some.1 hrow
        exact .claimPurgeable d row hfree hrow
  | stillDeleted sw =>
      simp only [step, Option.ite_none_right_eq_some] at h
      cases h.2
      exact .stillDeleted sw
  | purge sw =>
      simp only [step, Option.ite_none_right_eq_some] at h
      cases h.2
      exact .purge sw
  | markPurged sw =>
      simp only [step, Option.ite_none_right_eq_some] at h
      obtain ⟨-, h⟩ := h
      split at h
      next => cases h
      next row hrow =>
        cases h
        obtain ⟨hfree, hrow⟩ := Migration.unlocked_eq_some.1 hrow
        exact .markPurged sw row hfree hrow
  | giveUp sw =>
      simp only [step, Option.ite_none_right_eq_some] at h
      cases h.2
      exact .giveUp sw

end Nacre.Deletion
