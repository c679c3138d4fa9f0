/-
The `documents` table, one function for each statement that writes a row
of it: the API's ingest upsert, retry, retag and delete
(api/src/adapters.ts), the worker's claim, fenced upsert, reaper and
failure record (worker/src/claim.ts, adapters.ts, retry.ts).

Metadata is a `jsonb` value compared by `jsonb` equality; its type stays
open. Every statement takes `now`, its transaction's timestamp.
-/
import Mathlib.Logic.Basic

namespace Nacre.Store

abbrev DocId := String
abbrev PointId := String
abbrev Time := Nat

inductive Status where
  | pending
  | parsing
  | indexing
  | indexed
  | failed
  deriving DecidableEq, Repr

/-- A row of `documents`. -/
structure Document (μ : Type) where
  layerId : String
  sourceType : String
  sourceRef : String
  title : Option String
  contentHash : String
  contentType : String
  metadata : μ
  status : Status := .pending
  attempts : Nat := 0
  error : Option String := none
  chunkCount : Nat := 0
  version : Nat := 1
  claimedAt : Option Time := none
  retryAfter : Option Time := none
  sweepClaimedAt : Option Time := none
  vectorsPurgedAt : Option Time := none
  deletedAt : Option Time := none
  reindexedVector : Option String := none
  updatedAt : Time
  deriving DecidableEq

/-- What an ingest request brings to its row. -/
structure IngestRequest (μ : Type) where
  layerId : String
  sourceType : String := "inline"
  sourceRef : String := ""
  title : Option String := none
  contentHash : String
  contentType : String := "text/plain"
  metadata : μ
  deriving DecidableEq

variable {μ : Type} [DecidableEq μ]

-- =============================================================== the API

/-- The row of a document seen for the first time. -/
def queued (req : IngestRequest μ) (now : Time) : Document μ where
  layerId := req.layerId
  sourceType := req.sourceType
  sourceRef := req.sourceRef
  title := req.title
  contentHash := req.contentHash
  contentType := req.contentType
  metadata := req.metadata
  updatedAt := now

/-- `REQUEUE`: whether a re-send puts the document back in the queue. -/
def requeues (req : IngestRequest μ) (row : Document μ) : Bool :=
  row.contentHash ≠ req.contentHash || row.metadata ≠ req.metadata
    || row.status = .failed || row.deletedAt ≠ none

/-- The row of a re-sent document: the conflict arm of the ingest
upsert. -/
def resent (req : IngestRequest μ) (now : Time) (row : Document μ) :
    Document μ :=
  let changed : Bool := row.contentHash ≠ req.contentHash
  let again := requeues req row
  { row with
    sourceRef := if changed then req.sourceRef else row.sourceRef
    sourceType := if changed then req.sourceType else row.sourceType
    title := req.title.or row.title
    contentHash := req.contentHash
    metadata := req.metadata
    contentType := req.contentType
    status := if again then .pending else row.status
    attempts := if again then 0 else row.attempts
    error := if again then none else row.error
    vectorsPurgedAt := if again then none else row.vectorsPurgedAt
    sweepClaimedAt := if again then none else row.sweepClaimedAt
    retryAfter := if again then none else row.retryAfter
    claimedAt := if again then none else row.claimedAt
    deletedAt := none
    updatedAt := now }

/-- A failed document put back in the queue; no other is. -/
def retried (now : Time) (row : Document μ) : Option (Document μ) :=
  if row.status = .failed then
    some { row with
      status := .pending, attempts := 0, error := none, retryAfter := none
      claimedAt := none, updatedAt := now }
  else none

/-- The row half of a retag. -/
def retagged (metadata : μ) (now : Time) (row : Document μ) : Document μ :=
  { row with metadata, updatedAt := now }

/-- The row half of a delete. -/
def tombstoned (now : Time) (row : Document μ) : Document μ :=
  { row with deletedAt := some now, updatedAt := now }

-- ============================================================ the worker

/-- What `claimNext` may claim, the copy hold aside. -/
def claimable (now : Time) (row : Document μ) : Bool :=
  row.status = .pending && row.deletedAt = none
    && match row.retryAfter with
      | none => true
      | some after => after ≤ now

def claimed (now : Time) (row : Document μ) : Document μ :=
  { row with
    status := .parsing, claimedAt := some now, attempts := row.attempts + 1
    updatedAt := now }

/-- The fence: the row is still this claim's, still being indexed and not
deleted. -/
def fence (claim : Time) (row : Document μ) : Bool :=
  row.claimedAt = some claim && row.status = .parsing && row.deletedAt = none

/-- What a pass learned of the document it parsed. -/
structure Content where
  contentHash : String
  title : Option String := none
  deriving DecidableEq

/-- The conflict arm of the worker's upsert. `metadata` is not among its
columns: the API owns it. -/
def upserted (content : Content) (chunkCount : Nat) (now : Time)
    (row : Document μ) : Document μ :=
  { row with
    contentHash := content.contentHash
    title := content.title.or row.title
    status := .indexed
    chunkCount
    version := row.version + 1
    claimedAt := none
    attempts := 0
    reindexedVector := none
    updatedAt := now }

/-- What `claimStranded` takes back: a claim older than the lease. A
deleted row is no exception. -/
def expired (leaseSeconds : Nat) (now : Time) (row : Document μ) : Bool :=
  (row.status = .parsing || row.status = .indexing)
    && match row.claimedAt with
      | none => false
      | some claim => claim + leaseSeconds < now

def abandonedError (maxAttempts : Nat) : String :=
  "Indexing was abandoned " ++ toString maxAttempts
    ++ " times without completing. The worker did not report a failure, "
    ++ "which means it stopped between claiming this document and finishing it."

def reaped (maxAttempts : Nat) (now : Time) (row : Document μ) : Document μ :=
  let exhausted : Bool := row.attempts + 1 ≥ maxAttempts
  { row with
    attempts := row.attempts + 1
    status := if exhausted then .failed else .pending
    claimedAt := none
    error := if exhausted then some (abandonedError maxAttempts) else row.error
    updatedAt := now }

/-- How a pass failed, as `recordFailure` reads it. -/
structure Failure where
  text : String
  retryable : Bool
  delaySeconds : Nat
  deriving DecidableEq

/-- `recordFailure`, behind the same fence. -/
def failed (claim : Time) (failure : Failure) (maxAttempts : Nat) (now : Time)
    (row : Document μ) : Document μ :=
  let again : Bool := failure.retryable && row.attempts < maxAttempts
  if fence claim row then
    { row with
      status := if again then .pending else .failed
      error := some failure.text
      claimedAt := none
      retryAfter := if again then some (now + failure.delaySeconds) else none
      updatedAt := now }
  else row

/-- Whether `repairAfterCopy` re-asserts the document's tombstone: it was
deleted, or its points removed, since the copy's migration began. -/
def retombstones (since : Time) (row : Document μ) : Bool :=
  row.deletedAt.any fun deletedAt =>
    since ≤ deletedAt || row.vectorsPurgedAt.any (since ≤ ·)

/-- Whether `repairAfterCopy` puts the document back in the queue. -/
def requeuedSince (since : Time) (row : Document μ) : Bool :=
  row.deletedAt = none && row.status = .indexed && since ≤ row.updatedAt

/-- Both updates of `repairAfterCopy`. -/
def repaired (since now : Time) (row : Document μ) : Document μ :=
  if requeuedSince since row then
    { row with status := .pending, attempts := 0, error := none, updatedAt := now }
  else if retombstones since row then
    { row with vectorsPurgedAt := none, sweepClaimedAt := none }
  else row

/-- What `claimPurgeable` takes: deleted longer ago than the grace, its
points not yet removed, and in no sweep's lease. -/
def purgeable (graceSeconds leaseSeconds : Nat) (now : Time) (row : Document μ) :
    Bool :=
  row.deletedAt.any (· + graceSeconds < now) && row.vectorsPurgedAt = none
    && row.sweepClaimedAt.all (· + leaseSeconds < now)

def purgeClaimed (now : Time) (row : Document μ) : Document μ :=
  { row with sweepClaimedAt := some now }

/-- `markPurged`'s update: once, and of a deleted row only. -/
def markedPurged (now : Time) (row : Document μ) : Document μ :=
  if row.vectorsPurgedAt = none ∧ row.deletedAt ≠ none then
    { row with vectorsPurgedAt := some now, sweepClaimedAt := none }
  else row

/-- What holds a layer's switch back: live, with chunks, and not marked
with the slot's name. -/
def outstanding (vector : String) (row : Document μ) : Bool :=
  row.deletedAt = none && 0 < row.chunkCount && row.reindexedVector ≠ some vector

/-- `markReindexed`'s update: `updated_at` stays. -/
def marked (vector : String) (row : Document μ) : Document μ :=
  { row with reindexedVector := some vector }

-- ================================================================ lemmas

variable {row : Document μ} {now : Time}

omit [DecidableEq μ] in
theorem fence_iff {claim : Time} :
    fence claim row = true ↔ row.claimedAt = some claim ∧ row.status = .parsing
      ∧ row.deletedAt = none := by
  simp [fence, and_assoc]

omit [DecidableEq μ] in
theorem pending_of_claimable :
    claimable now row = true → row.status = .pending ∧ row.deletedAt = none := by
  intro h
  simp only [claimable, Bool.and_eq_true, decide_eq_true_eq] at h
  exact h.1

omit [DecidableEq μ] in
theorem failed_indexed {claim : Time} {failure : Failure} {maxAttempts : Nat}
    (h : (failed claim failure maxAttempts now row).status = .indexed) :
    row.status = .indexed := by
  unfold failed at h
  dsimp only at h
  split at h
  next =>
    dsimp only at h
    split at h
    next => cases h
    next => cases h
  next => exact h

/-- A re-send that does not requeue changes no metadata, hash or claim,
and finds the document live. -/
theorem resent_of_not_requeues (now : Time) {req : IngestRequest μ}
    (h : requeues req row = false) :
    (resent req now row).metadata = row.metadata
      ∧ (resent req now row).status = row.status
      ∧ (resent req now row).claimedAt = row.claimedAt
      ∧ row.deletedAt = none := by
  have h' := h
  simp only [requeues, Bool.or_eq_false_iff, decide_eq_false_iff_not,
    ne_eq, not_not] at h'
  obtain ⟨⟨⟨-, hmeta⟩, -⟩, hdel⟩ := h'
  exact ⟨hmeta.symm, by simp [resent, h], by simp [resent, h], hdel⟩

/-- A re-send that requeues takes the claim away. -/
theorem resent_of_requeues (now : Time) {req : IngestRequest μ}
    (h : requeues req row = true) :
    (resent req now row).status = .pending
      ∧ (resent req now row).claimedAt = none := by
  simp [resent, h]

omit [DecidableEq μ] in
@[simp] theorem repaired_layerId (since : Time) :
    (repaired since now row).layerId = row.layerId := by
  unfold repaired
  split
  next => rfl
  next =>
    split
    next => rfl
    next => rfl

-- ========================================= writes that index nothing

/-- Live and indexed: the rows the index must have the points of. -/
def Document.served (row : Document μ) : Bool :=
  row.deletedAt = none && row.status = .indexed

/-- A write that stamps the row and neither puts a document into the
index nor deletes one: what is served after it was served before, with
the same points and mark. -/
structure Rewrites (stamp : Time) (row row' : Document μ) : Prop where
  layerId : row'.layerId = row.layerId
  updatedAt : row' = row ∨ row'.updatedAt = stamp
  served : row'.served = true → row.served = true
    ∧ row'.chunkCount = row.chunkCount
    ∧ row'.reindexedVector = row.reindexedVector
  deletedAt : ∀ t, row'.deletedAt = some t → row.deletedAt = some t

omit [DecidableEq μ] in
theorem served_iff :
    row.served = true ↔ row.deletedAt = none ∧ row.status = .indexed := by
  simp [Document.served]

omit [DecidableEq μ] in
/-- What a repair leaves served it did not touch. -/
theorem served_repaired {since : Time} (h : (repaired since now row).served = true) :
    row.served = true ∧ (repaired since now row).chunkCount = row.chunkCount
      ∧ (repaired since now row).reindexedVector = row.reindexedVector := by
  unfold repaired at h ⊢
  split at h
  next =>
    rw [served_iff] at h
    cases h.2
  next hstays =>
    rw [if_neg hstays]
    split at h
    next hagain =>
      rw [if_pos hagain]
      exact ⟨h, rfl, rfl⟩
    next hagain =>
      rw [if_neg hagain]
      exact ⟨h, rfl, rfl⟩

theorem rewrites_resent (req : IngestRequest μ) (stamp : Time) :
    Rewrites stamp row (resent req stamp row) where
  layerId := rfl
  updatedAt := Or.inr rfl
  served h := by
    cases hagain : requeues req row with
    | true =>
        have hpending := (resent_of_requeues stamp hagain).1
        rw [served_iff, hpending] at h
        cases h.2
    | false =>
        obtain ⟨-, hstatus, -, hlive⟩ := resent_of_not_requeues stamp hagain
        rw [served_iff, hstatus] at h
        exact ⟨served_iff.2 ⟨hlive, h.2⟩, rfl, rfl⟩
  deletedAt t h := by cases h

omit [DecidableEq μ] in
theorem rewrites_retried {row' : Document μ} {stamp : Time}
    (h : retried stamp row = some row') : Rewrites stamp row row' := by
  unfold retried at h
  split at h
  case isFalse => cases h
  case isTrue =>
    cases h
    exact
      { layerId := rfl
        updatedAt := Or.inr rfl
        served := fun hserved => by
          rw [served_iff] at hserved
          cases hserved.2
        deletedAt := fun _ hdel => hdel }

omit [DecidableEq μ] in
theorem rewrites_retagged (metadata : μ) (stamp : Time) :
    Rewrites stamp row (retagged metadata stamp row) where
  layerId := rfl
  updatedAt := Or.inr rfl
  served h := ⟨h, rfl, rfl⟩
  deletedAt _ h := h

omit [DecidableEq μ] in
theorem rewrites_claimed (stamp : Time) :
    Rewrites stamp row (claimed stamp row) where
  layerId := rfl
  updatedAt := Or.inr rfl
  served h := by
    rw [served_iff] at h
    cases h.2
  deletedAt _ h := h

omit [DecidableEq μ] in
theorem rewrites_reaped (maxAttempts : Nat) (stamp : Time) :
    Rewrites stamp row (reaped maxAttempts stamp row) where
  layerId := rfl
  updatedAt := Or.inr rfl
  served h := by
    have hstatus := (served_iff.1 h).2
    unfold reaped at hstatus
    dsimp only at hstatus
    split at hstatus
    next => cases hstatus
    next => cases hstatus
  deletedAt _ h := h

omit [DecidableEq μ] in
theorem rewrites_failed (claim : Time) (failure : Failure) (maxAttempts : Nat)
    (stamp : Time) :
    Rewrites stamp row (failed claim failure maxAttempts stamp row) := by
  unfold failed
  split
  case isFalse =>
    exact
      { layerId := rfl
        updatedAt := Or.inl rfl
        served := fun h => ⟨h, rfl, rfl⟩
        deletedAt := fun _ h => h }
  case isTrue =>
    exact
      { layerId := rfl
        updatedAt := Or.inr rfl
        served := fun h => by
          have hstatus := (served_iff.1 h).2
          dsimp only at hstatus
          split at hstatus
          next => cases hstatus
          next => cases hstatus
        deletedAt := fun _ h => h }

end Nacre.Store
