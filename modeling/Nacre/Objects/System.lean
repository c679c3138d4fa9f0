/-
The bucket beside the rows: an ingest request puts its bytes under the
document's key, then writes the row, and a pass gets the bytes after it
has claimed the row (api/src/adapters.ts `NacreIngest.queue`,
worker/src/claim.ts `claimNext`, worker/src/main.ts).

The rows, the passes and the index are `Nacre.Ingest`, carried as the
field `base`. A document is named by its key: one document, one object.

# What is a step

A call is in flight from its put to its row statement, which commits or
fails; one without bytes of its own is in flight too. A refusal comes
before the put and is no step. A pass of an `s3` document reads
`content_type` with its claim and the bytes later (`get`); until then it
is a `Read`.

# Ghosts

`accepted` is what accepted calls sent, `version` what the last of them
did.
-/
import Nacre.Ingest.Fence
import Nacre.Ingest.Source
import Nacre.Lib.Table

namespace Nacre.Objects

open Nacre.Store Nacre.Ingest

-- ================================================================= state

/-- A call of `queue`, past its checks. -/
structure Call (μ : Type) where
  docId : DocId
  req : Request μ
  deriving DecidableEq

variable {μ : Type} [DecidableEq μ]

/-- What the call puts. -/
def Call.object (c : Call μ) : Option Object := (prepare true c.docId c.req).bind (·.2)

/-- What the call writes to the row. -/
def Call.values (c : Call μ) : Option (IngestRequest μ) :=
  (prepare true c.docId c.req).map (·.1)

/-- A pass that has yet to get its bytes, with the type it will parse
them under. -/
structure Read (μ : Type) where
  pass : Pass μ
  contentType : String
  deriving DecidableEq

structure World (μ : Type) where
  base : Ingest.World μ
  bucket : DocId → Option Object
  calls : List (Call μ)
  reads : List (Read μ)
  version : DocId → Option Object
  accepted : DocId → List Object

def init (s : World μ) : Prop :=
  ∃ base, Ingest.init base ∧ s = { base, bucket := fun _ => none, calls := []
                                   reads := [], version := fun _ => none
                                   accepted := fun _ => [] }

inductive Action (μ : Type) where
  /-- Whatever touches no object. -/
  | base (a : Ingest.Action μ)
  | put (c : Call μ)
  | upsert (c : Call μ)
  | fail (c : Call μ)
  | claimNext (d : DocId)
  | get (r : Read μ)
  /-- The worker dies before it gets the bytes. -/
  | crash (r : Read μ)

/-- Whether a step of `base` is none of those that are split here, and no
pass writes before it has read. -/
def World.permits (s : World μ) : Ingest.Action μ → Bool
  | .queue .. => false
  | .claimNext _ => false
  | .fence p _ _ => s.reads.all (·.pass ≠ p)
  | _ => true

/-- The put of a call, if it has bytes. -/
def World.stored (s : World μ) (c : Call μ) : DocId → Option Object :=
  match c.object with
  | none => s.bucket
  | some object => Function.update s.bucket c.docId (some object)

def step (cfg : Config) (s : World μ) : Action μ → Option (World μ)
  | .base a =>
      if s.permits a then
        (Ingest.step cfg s.base a).map fun base => { s with base }
      else none
  | .put c => some { s with bucket := s.stored c, calls := c :: s.calls }
  | .upsert c =>
      match c.values with
      | none => none
      | some values =>
          if c ∈ s.calls then
            (Ingest.step cfg s.base (.queue c.docId values)).map fun base =>
              { s with
                base
                calls := s.calls.erase c
                version := Function.update s.version c.docId c.object
                accepted := Function.update s.accepted c.docId
                  (c.object.toList ++ s.accepted c.docId) }
          else none
  | .fail c =>
      if c ∈ s.calls then some { s with calls := s.calls.erase c } else none
  | .claimNext d =>
      match s.base.docs d with
      | none => none
      | some row =>
          (Ingest.step cfg s.base (.claimNext d)).map fun base =>
            { s with
              base
              reads :=
                if row.sourceType = "s3" then
                  ⟨⟨d, s.base.now, row.metadata, false⟩, row.contentType⟩ :: s.reads
                else s.reads }
  | .get r => if r ∈ s.reads then some { s with reads := s.reads.erase r } else none
  | .crash r => if r ∈ s.reads then some { s with reads := s.reads.erase r } else none

-- ================================================== what one step can do

/-- Every step, with what it found. -/
inductive Stepped (cfg : Config) (s : World μ) : Action μ → World μ → Prop where
  | base (a : Ingest.Action μ) (base : Ingest.World μ) (hpermits : s.permits a = true)
      (hstep : Ingest.Stepped cfg s.base a base) :
      Stepped cfg s (.base a) { s with base }
  | put (c : Call μ) :
      Stepped cfg s (.put c) { s with bucket := s.stored c, calls := c :: s.calls }
  | upsert (c : Call μ) (values : IngestRequest μ) (base : Ingest.World μ)
      (hvalues : c.values = some values) (hc : c ∈ s.calls)
      (hstep : Ingest.Stepped cfg s.base (.queue c.docId values) base) :
      Stepped cfg s (.upsert c)
        { s with
          base
          calls := s.calls.erase c
          version := Function.update s.version c.docId c.object
          accepted := Function.update s.accepted c.docId
            (c.object.toList ++ s.accepted c.docId) }
  | fail (c : Call μ) (hc : c ∈ s.calls) :
      Stepped cfg s (.fail c) { s with calls := s.calls.erase c }
  | claimNext (d : DocId) (row : Document μ) (base : Ingest.World μ)
      (hrow : s.base.docs d = some row)
      (hstep : Ingest.Stepped cfg s.base (.claimNext d) base) :
      Stepped cfg s (.claimNext d)
        { s with
          base
          reads :=
            if row.sourceType = "s3" then
              ⟨⟨d, s.base.now, row.metadata, false⟩, row.contentType⟩ :: s.reads
            else s.reads }
  | get (r : Read μ) (hr : r ∈ s.reads) :
      Stepped cfg s (.get r) { s with reads := s.reads.erase r }
  | crash (r : Read μ) (hr : r ∈ s.reads) :
      Stepped cfg s (.crash r) { s with reads := s.reads.erase r }

variable {cfg : Config} {s s' : World μ} {a : Action μ}

theorem step_inv (h : step cfg s a = some s') : Stepped cfg s a s' := by
  cases a with
  | base a =>
      simp only [step, Option.ite_none_right_eq_some] at h
      obtain ⟨hpermits, h⟩ := h
      obtain ⟨base, hstep, rfl⟩ := Option.map_eq_some_iff.1 h
      exact .base a base hpermits (Ingest.step_inv hstep)
  | put c =>
      cases h
      exact .put c
  | upsert c =>
      simp only [step] at h
      split at h
      next => cases h
      next values hvalues =>
        rw [Option.ite_none_right_eq_some] at h
        obtain ⟨hc, h⟩ := h
        obtain ⟨base, hstep, rfl⟩ := Option.map_eq_some_iff.1 h
        exact .upsert c values base hvalues hc (Ingest.step_inv hstep)
  | fail c =>
      simp only [step, Option.ite_none_right_eq_some] at h
      cases h.2
      exact .fail c h.1
  | claimNext d =>
      simp only [step] at h
      split at h
      next => cases h
      next row hrow =>
        obtain ⟨base, hstep, rfl⟩ := Option.map_eq_some_iff.1 h
        exact .claimNext d row base hrow (Ingest.step_inv hstep)
  | get r =>
      simp only [step, Option.ite_none_right_eq_some] at h
      cases h.2
      exact .get r h.1
  | crash r =>
      simp only [step, Option.ite_none_right_eq_some] at h
      cases h.2
      exact .crash r h.1

-- ======================================================= a call's values

omit [DecidableEq μ] in
/-- A call has an object and names it, or it names a URL. -/
theorem Call.values_cases {c : Call μ} {values : IngestRequest μ}
    (h : c.values = some values) :
    (∃ object, c.object = some object ∧ values.sourceType = "s3"
        ∧ values.contentType = object.contentType)
      ∨ c.object = none ∧ values.sourceType = "url" := by
  unfold Call.values Call.object at *
  unfold prepare at *
  dsimp only at *
  cases hsource : c.req.source with
  | content text =>
      rw [hsource] at h
      cases h
      exact .inl ⟨_, rfl, rfl, rfl⟩
  | url url =>
      rw [hsource] at h
      cases h
      exact .inr ⟨rfl, rfl⟩
  | binary bytes contentType =>
      rw [hsource] at h
      cases h
      exact .inl ⟨_, rfl, rfl, rfl⟩

-- ================================================= rows between two sends

/-- What every statement but the ingest upsert leaves of a row. -/
structure Descends (row row' : Document μ) : Prop where
  sourceType : row'.sourceType = row.sourceType
  contentType : row'.contentType = row.contentType
  vectorsPurgedAt : row'.vectorsPurgedAt = row.vectorsPurgedAt
  /-- A deleted row stays deleted. -/
  deletedAt : row.deletedAt ≠ none → row'.deletedAt ≠ none

section Rows

omit [DecidableEq μ]

variable {row row' : Document μ}

theorem Descends.refl (row : Document μ) : Descends row row :=
  ⟨rfl, rfl, rfl, id⟩

theorem descends_retried {now : Time} (h : retried now row = some row') :
    Descends row row' := by
  unfold retried at h
  rw [Option.ite_none_right_eq_some] at h
  cases h.2
  exact ⟨rfl, rfl, rfl, id⟩

theorem descends_failed {claim : Time} {failure : Store.Failure} {maxAttempts : Nat}
    {now : Time} : Descends row (failed claim failure maxAttempts now row) := by
  unfold failed
  dsimp only
  split
  next => exact ⟨rfl, rfl, rfl, id⟩
  next => exact .refl row

/-- A write of one row, seen from any. -/
theorem descends_setRow {w : Ingest.World μ} {d d' : DocId} {after : Document μ}
    (hrow : w.docs d = some row)
    (h : Function.update w.docs d (some row') d' = some after)
    (hkeeps : Descends row row') :
    ∃ before, w.docs d' = some before ∧ Descends before after := by
  exact Table.update_related .refl hrow hkeeps h

end Rows

theorem descends_step {w w' : Ingest.World μ} {b : Ingest.Action μ}
    (h : Ingest.Stepped cfg w b w') (hsend : ∀ d req, b ≠ .queue d req) {d : DocId}
    {after : Document μ} (hafter : w'.docs d = some after) :
    ∃ before, w.docs d = some before ∧ Descends before after := by
  cases h with
  | queueNew d req => exact absurd rfl (hsend d req)
  | queueAgain d req => exact absurd rfl (hsend d req)
  | updateMetadata d' metadata row hfree hrow =>
      exact descends_setRow hrow hafter ⟨rfl, rfl, rfl, id⟩
  | retry d' row row' hfree hrow hretried =>
      exact descends_setRow hrow hafter (descends_retried hretried)
  | claimNext d' row hfree hrow => exact descends_setRow hrow hafter ⟨rfl, rfl, rfl, id⟩
  | commit d' p content ids row hlock hrow =>
      exact descends_setRow hrow hafter ⟨rfl, rfl, rfl, id⟩
  | recordFailure p failure row hfree hrow =>
      exact descends_setRow hrow hafter descends_failed
  | claimStranded d' row hfree hrow =>
      exact descends_setRow hrow hafter ⟨rfl, rfl, rfl, id⟩
  | commitRemove d' row hlock hrow =>
      exact descends_setRow hrow hafter ⟨rfl, rfl, rfl, fun _ => nofun⟩
  | _ => exact ⟨after, hafter, .refl after⟩

theorem permits_not_queue {b : Ingest.Action μ} (h : s.permits b = true) (d : DocId)
    (req : IngestRequest μ) : b ≠ .queue d req := by
  intro heq
  subst heq
  cases h

/-- The row an ingest upsert leaves, and the others. -/
theorem queued_step {w w' : Ingest.World μ} {d : DocId} {values : IngestRequest μ}
    (h : Ingest.Stepped cfg w (.queue d values) w') {d' : DocId} {after : Document μ}
    (hafter : w'.docs d' = some after) :
    (d' ≠ d ∧ w.docs d' = some after)
      ∨ d' = d ∧ after.contentType = values.contentType ∧ after.deletedAt = none
        ∧ (after.sourceType = values.sourceType
          ∨ ∃ row, w.docs d = some row ∧ row.contentHash = values.contentHash
            ∧ after.sourceType = row.sourceType) := by
  cases h with
  | queueNew _ _ hfree hrow =>
      by_cases hd : d' = d
      · subst hd
        rw [setRow_self] at hafter
        cases hafter
        exact .inr ⟨rfl, rfl, rfl, .inl rfl⟩
      · rw [setRow_ne _ _ _ hd] at hafter
        exact .inl ⟨hd, hafter⟩
  | queueAgain _ _ row hfree hrow =>
      by_cases hd : d' = d
      · subst hd
        rw [setRow_self] at hafter
        cases hafter
        refine .inr ⟨rfl, rfl, rfl, ?_⟩
        by_cases hhash : row.contentHash = values.contentHash
        · exact .inr ⟨row, hrow, hhash, by simp [resent, hhash]⟩
        · exact .inl (by simp [resent, hhash])
      · rw [setRow_ne _ _ _ hd] at hafter
        exact .inl ⟨hd, hafter⟩

end Nacre.Objects
