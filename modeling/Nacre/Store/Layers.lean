/-
The `layers` and `embedding_providers` tables as a model migration
reads and writes them: one function for each statement that changes a
layer's row (api/src/adapters.ts, worker/src/adapters.ts), and the
predicates the statements select by.

A layer's slug, name and workspace take part in none of them and are
left out, as are the counters of `reindex_state` that only its status
report reads.
-/
import Nacre.Store.Rows
import Nacre.Vector.Query

namespace Nacre.Store

abbrev LayerId := String
abbrev ProviderId := String

/-- A `copy_claim`: a fresh uuid every time. -/
abbrev Claim := Nat

/-- A row of `embedding_providers` the organization can see: its own, or
one with `org_id NULL`. -/
structure Provider where
  id : ProviderId
  own : Bool
  model : String
  dimensions : Nat
  deriving DecidableEq

/-- The slot the provider's vectors go under. -/
def Provider.vector (p : Provider) : String :=
  Vector.vectorName p.model p.dimensions

inductive ReindexStatus where
  | running
  | complete
  | failed
  deriving DecidableEq, Repr

inductive Phase where
  | copying
  | embedding
  deriving DecidableEq, Repr

/-- `layers.reindex_state`. -/
structure ReindexState where
  status : ReindexStatus := .running
  phase : Phase
  shadowVector : String
  providerId : ProviderId
  startedAt : Time
  copyClaim : Option Claim := none
  copyClaimedAt : Option Time := none
  finishedAt : Option Time := none
  previousVector : Option String := none
  /-- `check ->> 'passed'`, once a recall check is recorded. -/
  checkPassed : Option Bool := none
  error : Option String := none
  deriving DecidableEq

structure Layer where
  id : LayerId
  providerId : ProviderId
  vectorName : String
  deletedAt : Option Time := none
  reindexState : Option ReindexState := none
  deriving DecidableEq

-- ========================================================== the predicates

def Layer.live (row : Layer) : Bool := row.deletedAt = none

def ReindexState.running (st : ReindexState) : Bool := st.status = .running

def ReindexState.copying (st : ReindexState) : Bool :=
  st.status = .running && st.phase = .copying

def ReindexState.embedding (st : ReindexState) : Bool :=
  st.status = .running && st.phase = .embedding

def Layer.running (row : Layer) : Bool := row.reindexState.any (·.running)

/-- `(running, copying)`: what `claimNext` and `claimReindexable` hold
the organization for. `deleted_at` is not asked. -/
def Layer.copying (row : Layer) : Bool := row.reindexState.any (·.copying)

def Layer.embedding (row : Layer) : Bool := row.reindexState.any (·.embedding)

/-- The lease of a copy claim has run out, or there is none. -/
def ReindexState.unclaimed (leaseSeconds : Nat) (now : Time)
    (st : ReindexState) : Bool :=
  st.copyClaimedAt.all fun claimedAt => claimedAt + leaseSeconds < now

/-- The row `claimCopyable` selects. -/
def Layer.copyable (leaseSeconds : Nat) (now : Time) (row : Layer) : Bool :=
  row.live && row.reindexState.any fun st =>
    st.copying && st.unclaimed leaseSeconds now

/-- The fence of `finishCopy` and `renewCopyClaim`: the layer is still
copying under this claim. A deleted layer passes it. -/
def Layer.holds (claim : Claim) (row : Layer) : Bool :=
  row.reindexState.any fun st => st.copying && st.copyClaim = some claim

-- ========================================================== the statements

/-- The row `PostgresLayers.create` inserts: waiting for a copy when the
collection has no slot for its model. -/
def created (id : LayerId) (provider : Provider) (present : Bool)
    (now : Time) : Layer where
  id
  providerId := provider.id
  vectorName := provider.vector
  reindexState :=
    if present then none
    else some
      { phase := .copying, shadowVector := provider.vector
        providerId := provider.id, startedAt := now }

/-- `PostgresReindex.start`. -/
def started (provider : Provider) (phase : Phase) (now : Time)
    (row : Layer) : Layer :=
  { row with
    reindexState := some
      { phase, shadowVector := provider.vector, providerId := provider.id
        startedAt := now } }

/-- The row half of `PostgresLayers.remove`: `reindex_state` stays. -/
def removed (now : Time) (row : Layer) : Layer :=
  { row with deletedAt := some now }

/-- `claimCopyable`'s update. -/
def copyClaimed (claim : Claim) (now : Time) (row : Layer) : Layer :=
  { row with
    reindexState := row.reindexState.map fun st =>
      { st with copyClaim := some claim, copyClaimedAt := some now } }

/-- `renewCopyClaim`'s update. -/
def copyRenewed (now : Time) (row : Layer) : Layer :=
  { row with
    reindexState := row.reindexState.map fun st =>
      { st with copyClaimedAt := some now } }

/-- `finishCopy`'s update of a layer in the copy phase: on to embedding,
or straight to complete when nothing waits. -/
def copyFinished (waiting : Bool) (now : Time) (row : Layer) : Layer :=
  match row.reindexState with
  | none => row
  | some st =>
      if waiting then
        { row with reindexState := some { st with phase := .embedding } }
      else
        { row with
          vectorName := st.shadowVector
          providerId := st.providerId
          reindexState := some
            { st with
              phase := .embedding, status := .complete
              finishedAt := some now } }

/-- `finishReindexIfDone`'s update; `before` is the name read ahead of
it. -/
def switched (before : String) (now : Time) (row : Layer) : Layer :=
  match row.reindexState with
  | none => row
  | some st =>
      { row with
        vectorName := st.shadowVector
        providerId := st.providerId
        reindexState := some
          { st with
            status := .complete, finishedAt := some now
            previousVector := some before } }

/-- `failReindex`'s update. -/
def reindexFailed (error : String) (row : Layer) : Layer :=
  { row with
    reindexState := row.reindexState.map fun st =>
      { st with status := .failed, error := some error } }

/-- `recordCheck`'s update. -/
def checkRecorded (passed : Bool) (row : Layer) : Layer :=
  { row with
    reindexState := row.reindexState.map fun st =>
      { st with checkPassed := some passed } }

/-- `forgetVector`'s update. -/
def vectorForgotten (row : Layer) : Layer :=
  { row with
    reindexState := row.reindexState.map fun st =>
      { st with previousVector := none } }

-- ================================================================ lemmas

variable {row : Layer}

theorem copying_iff :
    row.copying = true ↔ ∃ st, row.reindexState = some st
      ∧ st.status = .running ∧ st.phase = .copying := by
  simp [Layer.copying, ReindexState.copying, Option.any_eq_true]

theorem holds_iff {claim : Claim} :
    row.holds claim = true ↔ ∃ st, row.reindexState = some st
      ∧ st.status = .running ∧ st.phase = .copying
      ∧ st.copyClaim = some claim := by
  simp [Layer.holds, ReindexState.copying, Option.any_eq_true, and_assoc]

/-- An update that keeps the row's id and the name its documents are
under. -/
structure KeepsName (set : Layer → Layer) : Prop where
  id : ∀ row, (set row).id = row.id
  vectorName : ∀ row, (set row).vectorName = row.vectorName

theorem keepsName_started (p : Provider) (phase : Phase) (startedAt : Time) :
    KeepsName (started p phase startedAt) := ⟨fun _ => rfl, fun _ => rfl⟩

theorem keepsName_removed (now : Time) : KeepsName (removed now) :=
  ⟨fun _ => rfl, fun _ => rfl⟩

theorem keepsName_mapState (f : ReindexState → ReindexState) :
    KeepsName fun row => { row with reindexState := row.reindexState.map f } :=
  ⟨fun _ => rfl, fun _ => rfl⟩

theorem copyFinished_id {waiting : Bool} {now : Time} :
    (copyFinished waiting now row).id = row.id := by
  unfold copyFinished
  split
  next => rfl
  next =>
    split
    next => rfl
    next => rfl

theorem switched_id {before : String} {now : Time} :
    (switched before now row).id = row.id := by
  unfold switched
  split
  next => rfl
  next => rfl

/-- A finished copy leaves no layer in the phase. -/
@[simp] theorem copyFinished_copying {waiting : Bool} {now : Time} :
    (copyFinished waiting now row).copying = false := by
  unfold copyFinished
  cases hst : row.reindexState with
  | none =>
      show row.copying = false
      unfold Layer.copying
      rw [hst]
      rfl
  | some st =>
      cases waiting with
      | true => simp [Layer.copying, ReindexState.copying]
      | false => simp [Layer.copying, ReindexState.copying]

@[simp] theorem switched_copying {before : String} {now : Time} :
    (switched before now row).copying = false := by
  unfold switched
  cases hst : row.reindexState with
  | none =>
      show row.copying = false
      unfold Layer.copying
      rw [hst]
      rfl
  | some st => rfl

end Nacre.Store
