/-
One organization while its collections change: documents, the points of
every collection, the layers and their migrations, and everything in
flight between them (api/src/adapters.ts, worker/src/adapters.ts,
worker/src/claim.ts, worker/src/main.ts, worker/src/reindex.ts,
worker/src/retire.ts, core/vector/search.ts).

The layers are `Nacre.Layers`, carried as the field `schema`; the rows
and the collections are `Nacre.Store`.

# What is a step

A request or a pass is cut where another party can come in between, as
in `Nacre.Ingest`, and at every place where it acts on something it read
earlier: the collection a pass, a retag or a delete writes to is the one
`organizations.vector_collection` named when it read it. A copy scrolls
page by page, each page read in one step and upserted in another; after
`finishCopy` the same worker still has to repair. A statement that waits
for a row lock decides other tables by the snapshot it started with, so
`markReindexed`, `finishReindexIfDone` and the update of `finishCopy`
are each a snapshot and a write.

What is in flight is a `Flight`; any of them may be dropped at any
moment, which is a crash, a refusal or an error.

`now()` is the start of a transaction: a step that writes a row carries
its `stamp`, any time up to the present. A pass's upsert and a delete
keep the one they began with.

# What is not here

Layer deletion and the collector's physical removal of points. `owner`
is a ghost: the document each point id was minted for. `newId` never
returns an id twice.
-/
import Nacre.Layers.System
import Nacre.Store.Index

namespace Nacre.Migration

open Nacre.Store
open Nacre.Layers (Copier)

-- ================================================================= state

/-- A pass of a worker, with what it read when it claimed. -/
structure Pass (μ : Type) where
  docId : DocId
  layerId : LayerId
  claim : Time
  metadata : μ
  collection : String
  vectorName : String
  rolledBack : Bool := false
  deriving DecidableEq

/-- Who holds a document's row, and how far they are. -/
inductive Holder (μ : Type) where
  /-- A pass past the fence: its transaction's timestamp, the ids it
  minted, those still to be written, and whether the sweep is done. -/
  | upsert (pass : Pass μ) (content : Content) (stamp : Time)
      (ids left : List PointId) (swept : Bool)
  /-- A delete: the collection it read, its transaction's timestamp, and
  whether the points are flagged. -/
  | remove (collection : String) (stamp : Time) (flagged : Bool)
  deriving DecidableEq

/-- How far a copy is: the offset of its next page, the page read and not
yet upserted, whether there is more, and the layers the snapshot of
`finishCopy`'s update found waiting for documents. -/
structure Scroll (μ : Type) where
  offset : Option PointId := none
  page : Points μ := []
  more : Bool := true
  waiting : Option (List LayerId) := none
  deriving DecidableEq

/-- A document of `claimReindexable`, with its chunks as they were. -/
structure Target where
  docId : DocId
  layerId : LayerId
  collection : String
  shadow : String
  ids : List PointId
  deriving DecidableEq

inductive Flight (μ : Type) where
  | pass (p : Pass μ)
  | retag (d : DocId) (metadata : μ) (collection : String) (stamp : Time)
  | remove (d : DocId) (collection : String) (stamp : Time)
  | copy (c : Copier) (scroll : Scroll μ)
  /-- Past `finishCopy`: the tombstones to re-assert, once the rows are
  repaired. -/
  | repair (collection : String) (since : Time) (todo : Option (List DocId))
  /-- A target, and whether its vectors are written. -/
  | target (t : Target) (written : Bool)
  /-- A `markReindexed` whose snapshot found the target's chunks. -/
  | mark (t : Target)
  /-- A `finishReindexIfDone` whose snapshot found nothing outstanding. -/
  | switch (l : LayerId) (shadow before : String)
  /-- A slot `dueVectors` returned. -/
  | due (l : LayerId) (collection vector : String)
  deriving DecidableEq

/-- The copier whose copy it is. -/
def Flight.copier {μ : Type} : Flight μ → Option Copier
  | .copy c _ => some c
  | _ => none

structure World (μ : Type) where
  schema : Layers.World
  docs : DocId → Option (Document μ)
  /-- The ids that have a row. -/
  ids : List DocId
  /-- The `point_id`s of a document's chunk rows. -/
  chunks : DocId → List PointId
  points : String → Points μ
  lock : DocId → Option (Holder μ)
  flights : List (Flight μ)
  owner : PointId → Option DocId

/-- `organizations.vector_collection`. -/
abbrev World.collection {μ : Type} (s : World μ) : String := s.schema.collection

/-- A freshly provisioned organization. -/
def init {μ : Type} (s : World μ) : Prop :=
  ∃ schema, Layers.init schema
    ∧ s = { schema, docs := fun _ => none, ids := [], chunks := fun _ => []
            points := fun _ => [], lock := fun _ => none, flights := []
            owner := fun _ => none }

structure Config where
  leaseSeconds : Nat
  maxAttempts : Nat
  retentionSeconds : Nat
  copyLeaseSeconds : Nat

def Config.layers (cfg : Config) : Layers.Config := ⟨cfg.copyLeaseSeconds⟩

-- =============================================================== actions

inductive Action (μ : Type) where
  | schema (a : Layers.Action)
  | queue (d : DocId) (req : IngestRequest μ) (stamp : Time)
  | retry (d : DocId) (stamp : Time)
  | claimNext (d : DocId) (stamp : Time)
  | fence (p : Pass μ) (content : Content) (ids : List PointId) (stamp : Time)
  | writePoint (d : DocId)
  | sweep (d : DocId)
  | commit (d : DocId)
  | rollback (d : DocId)
  | recordFailure (p : Pass μ) (failure : Failure) (stamp : Time)
  | claimStranded (d : DocId) (stamp : Time)
  | beginRetag (d : DocId) (metadata : μ)
  | updateMetadata (d : DocId) (metadata : μ) (collection : String) (stamp : Time)
  | beginRemove (d : DocId)
  | lockForRemove (d : DocId) (collection : String) (stamp : Time)
  | tombstone (d : DocId)
  | commitRemove (d : DocId)
  | rollbackRemove (d : DocId)
  | claimCopyable (l : LayerId) (claim : Claim)
  | copyCollection (c : Copier) (scroll : Scroll μ)
  | scroll (c : Copier) (scroll : Scroll μ) (next : Option PointId)
  | upsertPage (c : Copier) (scroll : Scroll μ)
  | snapshotCopy (c : Copier) (scroll : Scroll μ)
  | finishCopy (c : Copier) (scroll : Scroll μ) (waiting : List LayerId)
  | repairAfterCopy (collection : String) (since stamp : Time)
  | retombstone (collection : String) (since : Time) (d : DocId)
      (rest : List DocId)
  /-- A re-tombstone that failed: logged and passed over. -/
  | skipTombstone (collection : String) (since : Time) (d : DocId)
      (rest : List DocId)
  | finishRepair (collection : String) (since : Time)
  | claimReindexable (d : DocId)
  | addVector (t : Target)
  | snapshotMark (t : Target)
  | markReindexed (t : Target)
  | snapshotSwitch (l : LayerId) (shadow : String)
  | finishReindexIfDone (l : LayerId) (shadow before : String)
  | dueVectors (l : LayerId)
  | dropLayerVector (l : LayerId) (collection vector : String)
  | drop (f : Flight μ)

variable {μ : Type} [DecidableEq μ]

-- ============================================================ small writes

/-- The row of a document nobody holds. -/
def World.unlocked (s : World μ) (d : DocId) : Option (Document μ) :=
  match s.lock d with
  | none => s.docs d
  | some _ => none

def World.setRow (s : World μ) (d : DocId) (row : Document μ) : World μ :=
  { s with docs := Function.update s.docs d (some row) }

def World.setLock (s : World μ) (d : DocId) (holder : Option (Holder μ)) :
    World μ :=
  { s with lock := Function.update s.lock d holder }

/-- A request to the vector store about one collection. -/
def World.setPoints (s : World μ) (collection : String)
    (set : Points μ → Points μ) : World μ :=
  { s with
    points := Function.update s.points collection (set (s.points collection)) }

/-- One flight becomes others. -/
def World.replace (s : World μ) (f : Flight μ) (new : List (Flight μ)) :
    World μ :=
  { s with flights := new ++ s.flights.erase f }

/-- The layers without a copier that stopped. -/
def dropCopier (schema : Layers.World) : Option Copier → Layers.World
  | none => schema
  | some c => { schema with copiers := schema.copiers.erase c }

/-- Whether a document of the layer holds its switch to the slot back. -/
def World.outstandingIn (s : World μ) (l : LayerId) (vector : String) : Bool :=
  s.ids.any fun d =>
    (s.docs d).any fun row => row.layerId = l && outstanding vector row

/-- The layers a copy's finish would find waiting for documents. -/
def World.waitingLayers (s : World μ) : List LayerId :=
  (s.schema.layers.filter fun row => row.reindexState.any fun st =>
    st.copying && s.outstandingIn row.id st.shadowVector).map (·.id)

/-- The point a pass writes. -/
def Pass.point (p : Pass μ) (id : PointId) : Point μ where
  pointId := id
  docId := p.docId
  metadata := p.metadata
  vectors := [p.vectorName]

def step (cfg : Config) (s : World μ) : Action μ → Option (World μ)
  | .schema a =>
      if a.pure then
        (Layers.step cfg.layers s.schema a).map fun schema => { s with schema }
      else none
  -- ------------------------------------------------------------- requests
  | .queue d req stamp =>
      if stamp ≤ s.schema.now
          ∧ s.schema.layers.any (fun row => row.id = req.layerId && row.live) then
        match s.lock d, s.docs d with
        | some _, _ => none
        | none, none =>
            some { s.setRow d (queued req stamp) with ids := d :: s.ids }
        | none, some row =>
            if row.layerId = req.layerId then
              some (s.setRow d (resent req stamp row))
            else none
      else none
  | .retry d stamp =>
      match s.unlocked d with
      | none => none
      | some row =>
          if stamp ≤ s.schema.now then (retried stamp row).map (s.setRow d)
          else none
  | .beginRetag d metadata =>
      if (s.docs d).any (fun row => row.deletedAt = none) then
        some { s with
          flights := .retag d metadata s.collection s.schema.now :: s.flights }
      else none
  | .updateMetadata d metadata collection stamp =>
      match s.unlocked d with
      | none => none
      | some row =>
          if .retag d metadata collection stamp ∈ s.flights then
            some (((s.replace (.retag d metadata collection stamp) []).setRow d
                (retagged metadata stamp row)).setPoints collection fun pts =>
              pts.setMetadata d metadata)
          else none
  | .beginRemove d =>
      if (s.docs d).any (fun row => row.deletedAt = none) then
        some { s with
          flights := .remove d s.collection s.schema.now :: s.flights }
      else none
  | .lockForRemove d collection stamp =>
      match s.unlocked d with
      | none => none
      | some row =>
          if .remove d collection stamp ∈ s.flights ∧ row.deletedAt = none then
            some ((s.replace (.remove d collection stamp) []).setLock d
              (some (.remove collection stamp false)))
          else none
  | .tombstone d =>
      match s.lock d with
      | some (.remove collection stamp false) =>
          some ((s.setLock d (some (.remove collection stamp true))).setPoints
            collection fun pts => pts.tombstone d)
      | _ => none
  | .commitRemove d =>
      match s.lock d, s.docs d with
      | some (.remove _ stamp true), some row =>
          some ((s.setLock d none).setRow d (tombstoned stamp row))
      | _, _ => none
  | .rollbackRemove d =>
      match s.lock d with
      | some (.remove ..) => some (s.setLock d none)
      | _ => none
  -- --------------------------------------------------------------- passes
  | .claimNext d stamp =>
      match s.unlocked d with
      | none => none
      | some row =>
          match s.schema.layer? row.layerId with
          | none => none
          | some layer =>
              if stamp ≤ s.schema.now ∧ claimable stamp row = true
                  ∧ s.schema.held = false then
                some { s.setRow d (claimed stamp row) with
                  flights := .pass
                    { docId := d, layerId := row.layerId, claim := stamp
                      metadata := row.metadata, collection := s.collection
                      vectorName := layer.vectorName } :: s.flights }
              else none
  | .fence p content ids stamp =>
      match s.unlocked p.docId with
      | none => none
      | some row =>
          if .pass p ∈ s.flights ∧ p.rolledBack = false ∧ stamp ≤ s.schema.now
              ∧ ids.Nodup ∧ (∀ id ∈ ids, s.owner id = none)
              ∧ Store.fence p.claim row = true then
            some { (s.replace (.pass p) []).setLock p.docId
                (some (.upsert p content stamp ids ids false)) with
              owner := fun id => if id ∈ ids then some p.docId else s.owner id }
          else none
  | .writePoint d =>
      match s.lock d with
      | some (.upsert p content stamp ids (id :: left) false) =>
          some ((s.setLock d (some (.upsert p content stamp ids left false))).setPoints
            p.collection fun pts => pts.put (p.point id))
      | _ => none
  | .sweep d =>
      match s.lock d with
      | some (.upsert p content stamp ids [] false) =>
          some ((s.setLock d (some (.upsert p content stamp ids [] true))).setPoints
            p.collection fun pts => pts.sweep d ids)
      | _ => none
  | .commit d =>
      match s.lock d, s.docs d with
      | some (.upsert _ content stamp ids [] true), some row =>
          some { (s.setLock d none).setRow d
              (upserted content ids.length stamp row) with
            chunks := Function.update s.chunks d ids }
      | _, _ => none
  | .rollback d =>
      match s.lock d with
      | some (.upsert p ..) =>
          some { s.setLock d none with
            flights := .pass { p with rolledBack := true } :: s.flights }
      | _ => none
  | .recordFailure p failure stamp =>
      match s.unlocked p.docId with
      | none => none
      | some row =>
          if .pass p ∈ s.flights ∧ stamp ≤ s.schema.now then
            some ((s.replace (.pass p) []).setRow p.docId
              (failed p.claim failure cfg.maxAttempts stamp row))
          else none
  | .claimStranded d stamp =>
      match s.unlocked d with
      | none => none
      | some row =>
          if stamp ≤ s.schema.now ∧ expired cfg.leaseSeconds stamp row = true then
            some (s.setRow d (reaped cfg.maxAttempts stamp row))
          else none
  -- ----------------------------------------------------------------- copy
  | .claimCopyable l claim =>
      match Layers.step cfg.layers s.schema (.claimCopyable l claim) with
      | none => none
      | some schema =>
          schema.copiers.head?.map fun c =>
            { s with schema, flights := .copy c {} :: s.flights }
  | .copyCollection c scroll =>
      if .copy c scroll ∈ s.flights then
        (Layers.step cfg.layers s.schema (.copyCollection c)).map fun schema =>
          { (s.replace (.copy c scroll) [.copy { c with built := true } {}]).setPoints
              c.to (fun _ => []) with
            schema }
      else none
  | .scroll c scroll next =>
      if .copy c scroll ∈ s.flights ∧ c.built = true ∧ scroll.more = true
          ∧ scroll.page = [] ∧ ∀ o ∈ scroll.offset, ∀ n ∈ next, o ≤ n then
        some (s.replace (.copy c scroll)
          [.copy c
            { scroll with
              offset := next, more := next.isSome
              page := (s.points c.collection).page scroll.offset next }])
      else none
  | .upsertPage c scroll =>
      if .copy c scroll ∈ s.flights then
        some ((s.replace (.copy c scroll) [.copy c { scroll with page := [] }]).setPoints
          c.to fun pts => pts.putAll scroll.page)
      else none
  | .snapshotCopy c scroll =>
      if .copy c scroll ∈ s.flights ∧ c.built = true ∧ scroll.more = false
          ∧ scroll.page = [] then
        some (s.replace (.copy c scroll)
          [.copy c { scroll with waiting := some s.waitingLayers }])
      else none
  | .finishCopy c scroll waiting =>
      if .copy c scroll ∈ s.flights ∧ scroll.waiting = some waiting then
        (Layers.step cfg.layers s.schema
            (.finishCopy c fun l _ => waiting.contains l)).map fun schema =>
          { s.replace (.copy c scroll) [.repair c.to c.startedAt none] with schema }
      else none
  | .repairAfterCopy collection since stamp =>
      if .repair collection since none ∈ s.flights ∧ stamp ≤ s.schema.now
          ∧ ∀ d ∈ s.ids, (s.docs d).any (requeuedSince since) = true →
              s.lock d = none then
        some { s.replace (.repair collection since none)
            [.repair collection since
              (some (s.ids.filter fun d => (s.docs d).any (retombstones since)))] with
          docs := fun d => (s.docs d).map (repaired since stamp) }
      else none
  | .retombstone collection since d rest =>
      if .repair collection since (some (d :: rest)) ∈ s.flights then
        some ((s.replace (.repair collection since (some (d :: rest)))
            [.repair collection since (some rest)]).setPoints collection
          fun pts => pts.tombstone d)
      else none
  | .skipTombstone collection since d rest =>
      if .repair collection since (some (d :: rest)) ∈ s.flights then
        some (s.replace (.repair collection since (some (d :: rest)))
          [.repair collection since (some rest)])
      else none
  | .finishRepair collection since =>
      if .repair collection since (some []) ∈ s.flights then
        some (s.replace (.repair collection since (some [])) [])
      else none
  -- -------------------------------------------------------------- reindex
  | .claimReindexable d =>
      match s.docs d with
      | none => none
      | some row =>
          match s.schema.layer? row.layerId with
          | none => none
          | some layer =>
              match layer.reindexState with
              | none => none
              | some st =>
                  if st.embedding = true ∧ layer.live = true
                      ∧ s.schema.held = false
                      ∧ outstanding st.shadowVector row = true
                      ∧ s.chunks d ≠ [] then
                    some { s with
                      flights := .target
                        { docId := d, layerId := row.layerId
                          collection := s.collection, shadow := st.shadowVector
                          ids := s.chunks d } false :: s.flights }
                  else none
  | .addVector t =>
      if .target t false ∈ s.flights then
        some ((s.replace (.target t false) [.target t true]).setPoints t.collection
          fun pts => pts.addVector t.ids t.shadow)
      else none
  | .snapshotMark t =>
      if .target t true ∈ s.flights ∧ (s.chunks t.docId).isPerm t.ids = true then
        some (s.replace (.target t true) [.mark t])
      else none
  | .markReindexed t =>
      match s.unlocked t.docId with
      | none => none
      | some row =>
          if .mark t ∈ s.flights then
            some ((s.replace (.mark t) []).setRow t.docId (marked t.shadow row))
          else none
  | .snapshotSwitch l shadow =>
      match s.schema.layer? l with
      | none => none
      | some layer =>
          if (l, shadow) ∈ s.schema.observed ∧ s.outstandingIn l shadow = false then
            some { s with
              flights := .switch l shadow layer.vectorName :: s.flights }
          else none
  | .finishReindexIfDone l shadow before =>
      if .switch l shadow before ∈ s.flights then
        (Layers.step cfg.layers s.schema
            (.finishReindexIfDone l shadow before false)).map fun schema =>
          { s.replace (.switch l shadow before) [] with schema }
      else none
  -- --------------------------------------------------------------- retire
  | .dueVectors l =>
      match s.schema.layer? l with
      | none => none
      | some layer =>
          match layer.reindexState with
          | none => none
          | some st =>
              match st.previousVector with
              | none => none
              | some vector =>
                  if layer.live = true ∧ st.status = .complete
                      ∧ vector ≠ layer.vectorName
                      ∧ st.finishedAt.any (fun finishedAt =>
                          finishedAt + cfg.retentionSeconds < s.schema.now) then
                    some { s with flights := .due l s.collection vector :: s.flights }
                  else none
  | .dropLayerVector l collection vector =>
      if .due l collection vector ∈ s.flights then
        some ((s.replace (.due l collection vector) []).setPoints collection
          fun pts => pts.dropVector
            (fun d => (s.docs d).any (·.layerId = l)) vector)
      else none
  -- ---------------------------------------------------------------- crash
  | .drop f =>
      if f ∈ s.flights then
        some { s.replace f [] with schema := dropCopier s.schema f.copier }
      else none

-- ================================================== what one step can do

/-- Every step, with what it found and what it left: the inversion of
`step`. -/
inductive Stepped (cfg : Config) (s : World μ) : Action μ → World μ → Prop where
  | schema (a : Layers.Action) (schema : Layers.World) (hpure : a.pure = true)
      (hstep : Layers.Stepped cfg.layers s.schema a schema) :
      Stepped cfg s (.schema a) { s with schema }
  | queueNew (d : DocId) (req : IngestRequest μ) (stamp : Time)
      (hfree : s.lock d = none) (hrow : s.docs d = none)
      (hlayer : (s.schema.layer? req.layerId).isSome = true) :
      Stepped cfg s (.queue d req stamp)
        { s.setRow d (queued req stamp) with ids := d :: s.ids }
  | queueAgain (d : DocId) (req : IngestRequest μ) (stamp : Time)
      (row : Document μ) (hfree : s.lock d = none) (hrow : s.docs d = some row) :
      Stepped cfg s (.queue d req stamp) (s.setRow d (resent req stamp row))
  | retry (d : DocId) (stamp : Time) (row row' : Document μ)
      (hfree : s.lock d = none) (hrow : s.docs d = some row)
      (hretried : retried stamp row = some row') :
      Stepped cfg s (.retry d stamp) (s.setRow d row')
  | beginRetag (d : DocId) (metadata : μ) :
      Stepped cfg s (.beginRetag d metadata)
        { s with
          flights := .retag d metadata s.collection s.schema.now :: s.flights }
  | updateMetadata (d : DocId) (metadata : μ) (collection : String)
      (stamp : Time) (row : Document μ) (hfree : s.lock d = none)
      (hrow : s.docs d = some row)
      (hflight : .retag d metadata collection stamp ∈ s.flights) :
      Stepped cfg s (.updateMetadata d metadata collection stamp)
        (((s.replace (.retag d metadata collection stamp) []).setRow d
            (retagged metadata stamp row)).setPoints collection fun pts =>
          pts.setMetadata d metadata)
  | beginRemove (d : DocId) :
      Stepped cfg s (.beginRemove d)
        { s with
          flights := .remove d s.collection s.schema.now :: s.flights }
  | lockForRemove (d : DocId) (collection : String) (stamp : Time)
      (row : Document μ) (hfree : s.lock d = none) (hrow : s.docs d = some row)
      (hflight : .remove d collection stamp ∈ s.flights)
      (hlive : row.deletedAt = none) :
      Stepped cfg s (.lockForRemove d collection stamp)
        ((s.replace (.remove d collection stamp) []).setLock d
          (some (.remove collection stamp false)))
  | tombstone (d : DocId) (collection : String) (stamp : Time)
      (hlock : s.lock d = some (.remove collection stamp false)) :
      Stepped cfg s (.tombstone d)
        ((s.setLock d (some (.remove collection stamp true))).setPoints
          collection fun pts => pts.tombstone d)
  | commitRemove (d : DocId) (collection : String) (stamp : Time)
      (row : Document μ)
      (hlock : s.lock d = some (.remove collection stamp true))
      (hrow : s.docs d = some row) :
      Stepped cfg s (.commitRemove d)
        ((s.setLock d none).setRow d (tombstoned stamp row))
  | rollbackRemove (d : DocId) (collection : String) (stamp : Time)
      (flagged : Bool)
      (hlock : s.lock d = some (.remove collection stamp flagged)) :
      Stepped cfg s (.rollbackRemove d) (s.setLock d none)
  | claimNext (d : DocId) (stamp : Time) (row : Document μ) (layer : Layer)
      (hfree : s.lock d = none) (hrow : s.docs d = some row)
      (hlayer : s.schema.layer? row.layerId = some layer)
      (hclaim : claimable stamp row = true) :
      Stepped cfg s (.claimNext d stamp)
        { s.setRow d (claimed stamp row) with
          flights := .pass
            { docId := d, layerId := row.layerId, claim := stamp
              metadata := row.metadata, collection := s.collection
              vectorName := layer.vectorName } :: s.flights }
  | fence (p : Pass μ) (content : Content) (ids : List PointId) (stamp : Time)
      (row : Document μ) (hfree : s.lock p.docId = none)
      (hrow : s.docs p.docId = some row) (hflight : .pass p ∈ s.flights)
      (hnew : ∀ id ∈ ids, s.owner id = none)
      (hfence : Store.fence p.claim row = true) :
      Stepped cfg s (.fence p content ids stamp)
        { (s.replace (.pass p) []).setLock p.docId
            (some (.upsert p content stamp ids ids false)) with
          owner := fun id => if id ∈ ids then some p.docId else s.owner id }
  | writePoint (d : DocId) (p : Pass μ) (content : Content) (stamp : Time)
      (ids left : List PointId) (id : PointId)
      (hlock : s.lock d = some (.upsert p content stamp ids (id :: left) false)) :
      Stepped cfg s (.writePoint d)
        ((s.setLock d (some (.upsert p content stamp ids left false))).setPoints
          p.collection fun pts => pts.put (p.point id))
  | sweep (d : DocId) (p : Pass μ) (content : Content) (stamp : Time)
      (ids : List PointId)
      (hlock : s.lock d = some (.upsert p content stamp ids [] false)) :
      Stepped cfg s (.sweep d)
        ((s.setLock d (some (.upsert p content stamp ids [] true))).setPoints
          p.collection fun pts => pts.sweep d ids)
  | commit (d : DocId) (p : Pass μ) (content : Content) (stamp : Time)
      (ids : List PointId) (row : Document μ)
      (hlock : s.lock d = some (.upsert p content stamp ids [] true))
      (hrow : s.docs d = some row) :
      Stepped cfg s (.commit d)
        { (s.setLock d none).setRow d
            (upserted content ids.length stamp row) with
          chunks := Function.update s.chunks d ids }
  | rollback (d : DocId) (p : Pass μ) (content : Content) (stamp : Time)
      (ids left : List PointId) (swept : Bool)
      (hlock : s.lock d = some (.upsert p content stamp ids left swept)) :
      Stepped cfg s (.rollback d)
        { s.setLock d none with
          flights := .pass { p with rolledBack := true } :: s.flights }
  | recordFailure (p : Pass μ) (failure : Failure) (stamp : Time)
      (row : Document μ) (hfree : s.lock p.docId = none)
      (hrow : s.docs p.docId = some row) (hflight : .pass p ∈ s.flights) :
      Stepped cfg s (.recordFailure p failure stamp)
        ((s.replace (.pass p) []).setRow p.docId
          (failed p.claim failure cfg.maxAttempts stamp row))
  | claimStranded (d : DocId) (stamp : Time) (row : Document μ)
      (hfree : s.lock d = none) (hrow : s.docs d = some row) :
      Stepped cfg s (.claimStranded d stamp)
        (s.setRow d (reaped cfg.maxAttempts stamp row))
  | claimCopyable (l : LayerId) (claim : Claim) (c : Copier)
      (schema : Layers.World) (hc : c.collection = s.collection)
      (hclaim : c.claim = claim)
      (hbuilt : c.built = false)
      (hstep : Layers.Stepped cfg.layers s.schema (.claimCopyable l claim) schema) :
      Stepped cfg s (.claimCopyable l claim)
        { s with schema, flights := .copy c {} :: s.flights }
  | copyCollection (c : Copier) (scroll : Scroll μ) (schema : Layers.World)
      (hflight : .copy c scroll ∈ s.flights)
      (hstep : Layers.Stepped cfg.layers s.schema (.copyCollection c) schema) :
      Stepped cfg s (.copyCollection c scroll)
        { (s.replace (.copy c scroll) [.copy { c with built := true } {}]).setPoints
            c.to (fun _ => []) with
          schema }
  | scroll (c : Copier) (scroll : Scroll μ) (next : Option PointId)
      (hflight : .copy c scroll ∈ s.flights) (hbuilt : c.built = true)
      (hmore : scroll.more = true) (hpage : scroll.page = [])
      (hforward : ∀ o ∈ scroll.offset, ∀ n ∈ next, o ≤ n) :
      Stepped cfg s (.scroll c scroll next)
        (s.replace (.copy c scroll)
          [.copy c
            { scroll with
              offset := next, more := next.isSome
              page := (s.points c.collection).page scroll.offset next }])
  | upsertPage (c : Copier) (scroll : Scroll μ)
      (hflight : .copy c scroll ∈ s.flights) :
      Stepped cfg s (.upsertPage c scroll)
        ((s.replace (.copy c scroll) [.copy c { scroll with page := [] }]).setPoints
          c.to fun pts => pts.putAll scroll.page)
  | snapshotCopy (c : Copier) (scroll : Scroll μ)
      (hflight : .copy c scroll ∈ s.flights) (hbuilt : c.built = true)
      (hmore : scroll.more = false) (hpage : scroll.page = []) :
      Stepped cfg s (.snapshotCopy c scroll)
        (s.replace (.copy c scroll)
          [.copy c { scroll with waiting := some s.waitingLayers }])
  | finishCopy (c : Copier) (scroll : Scroll μ) (waiting : List LayerId)
      (schema : Layers.World) (hflight : .copy c scroll ∈ s.flights)
      (hwaiting : scroll.waiting = some waiting)
      (hstep : Layers.Stepped cfg.layers s.schema
        (.finishCopy c fun l _ => waiting.contains l) schema) :
      Stepped cfg s (.finishCopy c scroll waiting)
        { s.replace (.copy c scroll) [.repair c.to c.startedAt none] with schema }
  | repairAfterCopy (collection : String) (since stamp : Time)
      (hflight : .repair collection since none ∈ s.flights)
      (hfree : ∀ d ∈ s.ids, (s.docs d).any (requeuedSince since) = true →
        s.lock d = none) :
      Stepped cfg s (.repairAfterCopy collection since stamp)
        { s.replace (.repair collection since none)
            [.repair collection since
              (some (s.ids.filter fun d => (s.docs d).any (retombstones since)))] with
          docs := fun d => (s.docs d).map (repaired since stamp) }
  | retombstone (collection : String) (since : Time) (d : DocId)
      (rest : List DocId)
      (hflight : .repair collection since (some (d :: rest)) ∈ s.flights) :
      Stepped cfg s (.retombstone collection since d rest)
        ((s.replace (.repair collection since (some (d :: rest)))
            [.repair collection since (some rest)]).setPoints collection
          fun pts => pts.tombstone d)
  | skipTombstone (collection : String) (since : Time) (d : DocId)
      (rest : List DocId)
      (hflight : .repair collection since (some (d :: rest)) ∈ s.flights) :
      Stepped cfg s (.skipTombstone collection since d rest)
        (s.replace (.repair collection since (some (d :: rest)))
          [.repair collection since (some rest)])
  | finishRepair (collection : String) (since : Time)
      (hflight : .repair collection since (some []) ∈ s.flights) :
      Stepped cfg s (.finishRepair collection since)
        (s.replace (.repair collection since (some [])) [])
  | claimReindexable (d : DocId) (row : Document μ) (layer : Layer)
      (st : ReindexState) (hrow : s.docs d = some row)
      (hlayer : s.schema.layer? row.layerId = some layer)
      (hheld : s.schema.held = false) :
      Stepped cfg s (.claimReindexable d)
        { s with
          flights := .target
            { docId := d, layerId := row.layerId
              collection := s.collection, shadow := st.shadowVector
              ids := s.chunks d } false :: s.flights }
  | addVector (t : Target) (hflight : .target t false ∈ s.flights) :
      Stepped cfg s (.addVector t)
        ((s.replace (.target t false) [.target t true]).setPoints t.collection
          fun pts => pts.addVector t.ids t.shadow)
  | snapshotMark (t : Target) (hflight : .target t true ∈ s.flights)
      (hchunks : (s.chunks t.docId).Perm t.ids) :
      Stepped cfg s (.snapshotMark t) (s.replace (.target t true) [.mark t])
  | markReindexed (t : Target) (row : Document μ)
      (hfree : s.lock t.docId = none) (hrow : s.docs t.docId = some row)
      (hflight : .mark t ∈ s.flights) :
      Stepped cfg s (.markReindexed t)
        ((s.replace (.mark t) []).setRow t.docId (marked t.shadow row))
  | snapshotSwitch (l : LayerId) (shadow : String) (layer : Layer)
      (hlayer : s.schema.layer? l = some layer)
      (hdone : s.outstandingIn l shadow = false) :
      Stepped cfg s (.snapshotSwitch l shadow)
        { s with flights := .switch l shadow layer.vectorName :: s.flights }
  | finishReindexIfDone (l : LayerId) (shadow before : String)
      (schema : Layers.World) (hflight : .switch l shadow before ∈ s.flights)
      (hstep : Layers.Stepped cfg.layers s.schema
        (.finishReindexIfDone l shadow before false) schema) :
      Stepped cfg s (.finishReindexIfDone l shadow before)
        { s.replace (.switch l shadow before) [] with schema }
  | dueVectors (l : LayerId) (layer : Layer) (vector : String)
      (hlayer : s.schema.layer? l = some layer)
      (hne : vector ≠ layer.vectorName) :
      Stepped cfg s (.dueVectors l)
        { s with flights := .due l s.collection vector :: s.flights }
  | dropLayerVector (l : LayerId) (collection vector : String)
      (hflight : .due l collection vector ∈ s.flights) :
      Stepped cfg s (.dropLayerVector l collection vector)
        ((s.replace (.due l collection vector) []).setPoints collection
          fun pts => pts.dropVector
            (fun d => (s.docs d).any (·.layerId = l)) vector)
  | drop (f : Flight μ) (hflight : f ∈ s.flights) :
      Stepped cfg s (.drop f)
        { s.replace f [] with schema := dropCopier s.schema f.copier }

omit [DecidableEq μ] in
theorem unlocked_eq_some {s : World μ} {d : DocId} {row : Document μ} :
    s.unlocked d = some row ↔ s.lock d = none ∧ s.docs d = some row := by
  unfold World.unlocked
  cases s.lock d with
  | none => simp
  | some holder => simp

theorem step_inv {cfg : Config} {s s' : World μ} {a : Action μ}
    (h : step cfg s a = some s') : Stepped cfg s a s' := by
  cases a with
  | schema a =>
      simp only [step] at h
      split at h
      next hpure =>
        obtain ⟨schema, hstep, rfl⟩ := Option.map_eq_some_iff.1 h
        exact .schema a schema hpure (Layers.step_inv hstep)
      next => cases h
  | queue d req stamp =>
      simp only [step] at h
      split at h
      next hguard =>
        have hlayer : (s.schema.layer? req.layerId).isSome = true := by
          obtain ⟨layer, hmem, hsel⟩ := List.any_eq_true.1 hguard.2
          rw [Bool.and_eq_true] at hsel
          unfold Layers.World.layer?
          rw [List.find?_isSome]
          exact ⟨layer, hmem, hsel.1⟩
        split at h
        next => cases h
        next hfree hrow =>
          cases h
          exact .queueNew d req stamp hfree hrow hlayer
        next row hfree hrow =>
          split at h
          next =>
            cases h
            exact .queueAgain d req stamp row hfree hrow
          next => cases h
      next => cases h
  | retry d stamp =>
      simp only [step] at h
      split at h
      next => cases h
      next row hrow =>
        split at h
        next =>
          obtain ⟨row', hretried, rfl⟩ := Option.map_eq_some_iff.1 h
          obtain ⟨hfree, hrow⟩ := unlocked_eq_some.1 hrow
          exact .retry d stamp row row' hfree hrow hretried
        next => cases h
  | beginRetag d metadata =>
      simp only [step] at h
      split at h
      next =>
        cases h
        exact .beginRetag d metadata
      next => cases h
  | updateMetadata d metadata collection stamp =>
      simp only [step] at h
      split at h
      next => cases h
      next row hrow =>
        split at h
        next hflight =>
          cases h
          obtain ⟨hfree, hrow⟩ := unlocked_eq_some.1 hrow
          exact .updateMetadata d metadata collection stamp row hfree hrow hflight
        next => cases h
  | beginRemove d =>
      simp only [step] at h
      split at h
      next =>
        cases h
        exact .beginRemove d
      next => cases h
  | lockForRemove d collection stamp =>
      simp only [step] at h
      split at h
      next => cases h
      next row hrow =>
        split at h
        next hguard =>
          cases h
          obtain ⟨hfree, hrow⟩ := unlocked_eq_some.1 hrow
          exact .lockForRemove d collection stamp row hfree hrow hguard.1 hguard.2
        next => cases h
  | tombstone d =>
      simp only [step] at h
      split at h
      next collection stamp hlock =>
        cases h
        exact .tombstone d collection stamp hlock
      next => cases h
  | commitRemove d =>
      simp only [step] at h
      split at h
      next collection stamp row hlock hrow =>
        cases h
        exact .commitRemove d collection stamp row hlock hrow
      next => cases h
  | rollbackRemove d =>
      simp only [step] at h
      split at h
      next collection stamp flagged hlock =>
        cases h
        exact .rollbackRemove d collection stamp flagged hlock
      next => cases h
  | claimNext d stamp =>
      simp only [step] at h
      split at h
      next => cases h
      next row hrow =>
        obtain ⟨hfree, hrow⟩ := unlocked_eq_some.1 hrow
        split at h
        next => cases h
        next layer hlayer =>
          split at h
          next hguard =>
            cases h
            exact .claimNext d stamp row layer hfree hrow hlayer hguard.2.1
          next => cases h
  | fence p content ids stamp =>
      simp only [step] at h
      split at h
      next => cases h
      next row hrow =>
        split at h
        next hguard =>
          cases h
          obtain ⟨hflight, -, -, -, hnew, hfence⟩ := hguard
          obtain ⟨hfree, hrow⟩ := unlocked_eq_some.1 hrow
          exact .fence p content ids stamp row hfree hrow hflight hnew hfence
        next => cases h
  | writePoint d =>
      simp only [step] at h
      split at h
      next p content stamp ids id left hlock =>
        cases h
        exact .writePoint d p content stamp ids left id hlock
      next => cases h
  | sweep d =>
      simp only [step] at h
      split at h
      next p content stamp ids hlock =>
        cases h
        exact .sweep d p content stamp ids hlock
      next => cases h
  | commit d =>
      simp only [step] at h
      split at h
      next p content stamp ids row hlock hrow =>
        cases h
        exact .commit d p content stamp ids row hlock hrow
      next => cases h
  | rollback d =>
      simp only [step] at h
      split at h
      next p content stamp ids left swept hlock =>
        cases h
        exact .rollback d p content stamp ids left swept hlock
      next => cases h
  | recordFailure p failure stamp =>
      simp only [step] at h
      split at h
      next => cases h
      next row hrow =>
        split at h
        next hguard =>
          cases h
          obtain ⟨hfree, hrow⟩ := unlocked_eq_some.1 hrow
          exact .recordFailure p failure stamp row hfree hrow hguard.1
        next => cases h
  | claimStranded d stamp =>
      simp only [step] at h
      split at h
      next => cases h
      next row hrow =>
        split at h
        next =>
          cases h
          obtain ⟨hfree, hrow⟩ := unlocked_eq_some.1 hrow
          exact .claimStranded d stamp row hfree hrow
        next => cases h
  | claimCopyable l claim =>
      simp only [step] at h
      split at h
      next => cases h
      next schema hstep =>
        obtain ⟨c, hc, rfl⟩ := Option.map_eq_some_iff.1 h
        have hinv := Layers.step_inv hstep
        obtain ⟨hfrom, hclaim, hbuilt⟩ : c.collection = s.collection
            ∧ c.claim = claim ∧ c.built = false := by
          cases hinv
          cases hc
          exact ⟨rfl, rfl, rfl⟩
        exact .claimCopyable l claim c schema hfrom hclaim hbuilt hinv
  | copyCollection c scroll =>
      simp only [step] at h
      split at h
      next hflight =>
        obtain ⟨schema, hstep, rfl⟩ := Option.map_eq_some_iff.1 h
        exact .copyCollection c scroll schema hflight (Layers.step_inv hstep)
      next => cases h
  | scroll c scroll next =>
      simp only [step] at h
      split at h
      next hguard =>
        cases h
        obtain ⟨hflight, hbuilt, hmore, hpage, hforward⟩ := hguard
        exact .scroll c scroll next hflight hbuilt hmore hpage hforward
      next => cases h
  | upsertPage c scroll =>
      simp only [step] at h
      split at h
      next hflight =>
        cases h
        exact .upsertPage c scroll hflight
      next => cases h
  | snapshotCopy c scroll =>
      simp only [step] at h
      split at h
      next hguard =>
        cases h
        obtain ⟨hflight, hbuilt, hmore, hpage⟩ := hguard
        exact .snapshotCopy c scroll hflight hbuilt hmore hpage
      next => cases h
  | finishCopy c scroll waiting =>
      simp only [step] at h
      split at h
      next hguard =>
        obtain ⟨schema, hstep, rfl⟩ := Option.map_eq_some_iff.1 h
        exact .finishCopy c scroll waiting schema hguard.1 hguard.2
          (Layers.step_inv hstep)
      next => cases h
  | repairAfterCopy collection since stamp =>
      simp only [step] at h
      split at h
      next hguard =>
        cases h
        exact .repairAfterCopy collection since stamp hguard.1 hguard.2.2
      next => cases h
  | retombstone collection since d rest =>
      simp only [step] at h
      split at h
      next hflight =>
        cases h
        exact .retombstone collection since d rest hflight
      next => cases h
  | skipTombstone collection since d rest =>
      simp only [step] at h
      split at h
      next hflight =>
        cases h
        exact .skipTombstone collection since d rest hflight
      next => cases h
  | finishRepair collection since =>
      simp only [step] at h
      split at h
      next hflight =>
        cases h
        exact .finishRepair collection since hflight
      next => cases h
  | claimReindexable d =>
      simp only [step] at h
      split at h
      next => cases h
      next row hrow =>
        split at h
        next => cases h
        next layer hlayer =>
          split at h
          next => cases h
          next st hst =>
            split at h
            next hguard =>
              cases h
              exact .claimReindexable d row layer st hrow hlayer hguard.2.2.1
            next => cases h
  | addVector t =>
      simp only [step] at h
      split at h
      next hflight =>
        cases h
        exact .addVector t hflight
      next => cases h
  | snapshotMark t =>
      simp only [step] at h
      split at h
      next hguard =>
        cases h
        exact .snapshotMark t hguard.1 (List.isPerm_iff.1 hguard.2)
      next => cases h
  | markReindexed t =>
      simp only [step] at h
      split at h
      next => cases h
      next row hrow =>
        split at h
        next hflight =>
          cases h
          obtain ⟨hfree, hrow⟩ := unlocked_eq_some.1 hrow
          exact .markReindexed t row hfree hrow hflight
        next => cases h
  | snapshotSwitch l shadow =>
      simp only [step] at h
      split at h
      next => cases h
      next layer hlayer =>
        split at h
        next hguard =>
          cases h
          exact .snapshotSwitch l shadow layer hlayer hguard.2
        next => cases h
  | finishReindexIfDone l shadow before =>
      simp only [step] at h
      split at h
      next hflight =>
        obtain ⟨schema, hstep, rfl⟩ := Option.map_eq_some_iff.1 h
        exact .finishReindexIfDone l shadow before schema hflight
          (Layers.step_inv hstep)
      next => cases h
  | dueVectors l =>
      simp only [step] at h
      split at h
      next => cases h
      next layer hlayer =>
        split at h
        next => cases h
        next st hst =>
          split at h
          next => cases h
          next vector hvector =>
            split at h
            next hguard =>
              cases h
              exact .dueVectors l layer vector hlayer hguard.2.2.1
            next => cases h
  | dropLayerVector l collection vector =>
      simp only [step] at h
      split at h
      next hflight =>
        cases h
        exact .dropLayerVector l collection vector hflight
      next => cases h
  | drop f =>
      simp only [step] at h
      split at h
      next hflight =>
        cases h
        exact .drop f hflight
      next => cases h

end Nacre.Migration
