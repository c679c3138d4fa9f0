/-
The pre-filter of a search (core/authz/filter.ts) and what it accepts.

`buildFilter` turns a queryable plan and the caller's narrowing into a
payload filter, or refuses with the source's message. A refusal stands
exactly where the filter would silently mean more than it says: a
narrowing to no layers, a metadata restriction to no values, a scoped
plan that reaches nothing.

`buildFilter_accepts` is the one spec the callers use: for a plan that
reaches something and a narrowing with no empty list, the filter exists
and accepts a point iff the tenant, the tombstone, the plan, the layers
and the metadata all do. The metadata half reads the point under
`meta.<key>` and nowhere else (`field_meta`): a caller's key never names
a permission field.
-/
import Mathlib.Data.Rat.Defs
import Nacre.Lib.PayloadFilter
import Nacre.Authz.Resolve

namespace Nacre.Authz

open PayloadFilter (Clause Filter accepts_iff shouldHolds)

-- ================================================================= types

/-- A payload value. Numbers are the finite JavaScript numbers a request
may carry, which are rationals. -/
inductive Scalar where
  | str (s : String)
  | num (q : ℚ)
  | bool (b : Bool)
  deriving DecidableEq

/-- A value a caller may narrow a search to. -/
inductive MetadataValue where
  | scalar (v : Scalar)
  | list (vs : List Scalar)
  deriving DecidableEq

abbrev Metadata := List (String × MetadataValue)

abbrev FilterClause := Clause String Scalar
abbrev VectorFilter := Filter String Scalar

/-- A restriction the caller asked for, on top of the permissions'. -/
structure Narrowing where
  layers : Option (List String) := none
  metadata : Option Metadata := none
  deriving DecidableEq

/-- Plans that can be turned into a query at all. -/
abbrev QueryablePlan := {plan : AccessPlan // plan ≠ .none}

def METADATA_PREFIX : String := "meta"

/-- Where a caller's metadata key lands in the payload. -/
def metadataField (key : String) : String := METADATA_PREFIX ++ "." ++ key

-- =============================================================== builder

def orgClause (orgId : String) : FilterClause := .value "org_id" (.str orgId)

def deletedClause : FilterClause := .value "deleted" (.bool false)

/-- `layer_id` is one of these. -/
def layersClause (layers : List String) : FilterClause :=
  .any "layer_id" (layers.map .str)

/-- `doc_id` is one of these. -/
def docsClause (docs : List String) : FilterClause :=
  .any "doc_id" (docs.map .str)

/-- The clause of the caller's layer narrowing, if there is one. -/
def narrowLayers (narrow : Narrowing) : Except String (List FilterClause) :=
  match narrow.layers with
  | none => .ok []
  | some [] =>
      .error ("refusing to build a filter narrowed to no layers — the caller must "
        ++ "return an empty result instead of querying")
  | some (l :: ls) => .ok [layersClause (l :: ls)]

/-- One metadata restriction. -/
def metadataClause (key : String) : MetadataValue → Except String FilterClause
  | .scalar v => .ok (.value (metadataField key) v)
  | .list [] =>
      .error ("refusing to build a filter narrowed to no values for " ++ key
        ++ " — the caller must return an empty result instead of querying")
  | .list (v :: vs) => .ok (.any (metadataField key) (v :: vs))

/-- Every metadata restriction, in entry order; the first refusal wins. -/
def metadataClauses : Metadata → Except String (List FilterClause)
  | [] => .ok []
  | (key, value) :: rest => do
      let clause ← metadataClause key value
      let clauses ← metadataClauses rest
      return clause :: clauses

/-- Build the pre-filter for a search. -/
def buildFilter (orgId : String) (plan : QueryablePlan)
    (narrow : Narrowing) : Except String VectorFilter := do
  let layers ← narrowLayers narrow
  let metadata ← metadataClauses (narrow.metadata.getD [])
  let must := [orgClause orgId, deletedClause] ++ layers ++ metadata
  match plan with
  | ⟨.none, h⟩ => absurd rfl h
  | ⟨.all, _⟩ => return { must }
  | ⟨.scoped layers extraDocs deniedDocs, _⟩ =>
      -- Only non-empty lists become clauses.
      let should :=
        (if layers.isEmpty then [] else [layersClause layers])
          ++ (if extraDocs.isEmpty then [] else [docsClause extraDocs])
      if should.isEmpty then
        throw ("refusing to build a filter from a scoped plan that reaches no layer and "
          ++ "no document — a plan like this must be kind: \"none\"")
      else
        return {
          must
          should := some should
          mustNot :=
            if deniedDocs.isEmpty then none else some [docsClause deniedDocs] }

-- =============================================================== payload

/-- The payload of an indexed point, as the worker writes it. -/
structure PointPayload where
  orgId : String
  layerId : String
  docId : String
  chunkId : String
  ordinal : Nat
  deleted : Bool
  metadata : Metadata
  deriving DecidableEq

/-- The values a metadata value stands for in a match. -/
def MetadataValue.values : MetadataValue → List Scalar
  | .scalar v => [v]
  | .list vs => vs

/-- The values a point holds under one of its metadata keys. -/
def PointPayload.meta (point : PointPayload) (key : String) : List Scalar :=
  match point.metadata.lookup key with
  | none => []
  | some value => value.values

/-- The values a point holds under a payload field. Stored metadata keys
have no dots, so `meta.<key>` is one step below `meta`. -/
def PointPayload.field (point : PointPayload) (key : String) : List Scalar :=
  match key.toList with
  | 'm' :: 'e' :: 't' :: 'a' :: '.' :: rest => point.meta (String.ofList rest)
  | _ =>
      if key = "org_id" then [.str point.orgId]
      else if key = "layer_id" then [.str point.layerId]
      else if key = "doc_id" then [.str point.docId]
      else if key = "chunk_id" then [.str point.chunkId]
      else if key = "ordinal" then [.num point.ordinal]
      else if key = "deleted" then [.bool point.deleted]
      else []

variable {point : PointPayload}

@[simp] theorem field_orgId : point.field "org_id" = [.str point.orgId] := rfl
@[simp] theorem field_layerId : point.field "layer_id" = [.str point.layerId] :=
  rfl
@[simp] theorem field_docId : point.field "doc_id" = [.str point.docId] := rfl
@[simp] theorem field_deleted : point.field "deleted" = [.bool point.deleted] :=
  rfl

/-- A caller's key is read under `meta` and nowhere else. -/
@[simp] theorem field_meta (key : String) :
    point.field (metadataField key) = point.meta key := by
  have hkey : (metadataField key).toList
      = 'm' :: 'e' :: 't' :: 'a' :: '.' :: key.toList := by
    simp [metadataField, METADATA_PREFIX]
  unfold PointPayload.field
  rw [hkey]
  simp

-- ============================================================== the spec

/-- A narrowing with no empty list. -/
def Narrowing.NonEmpty (narrow : Narrowing) : Prop :=
  narrow.layers ≠ some []
    ∧ ∀ entry ∈ narrow.metadata.getD [], entry.2 ≠ .list []

/-- The point's layer is one the caller asked for, when layers were. -/
def Narrowing.admitsLayer (narrow : Narrowing) (layer : String) : Prop :=
  ∀ layers, narrow.layers = some layers → layer ∈ layers

/-- The point matches every metadata restriction. -/
def matchesMetadata (restrictions : Metadata) (point : PointPayload) : Prop :=
  ∀ entry ∈ restrictions, ∃ v ∈ point.meta entry.1, v ∈ entry.2.values

/-- A plan that reaches a layer or a document. -/
def AccessPlan.Reaches : AccessPlan → Prop
  | .none => False
  | .all => True
  | .scoped layers extraDocs _ => layers ≠ [] ∨ extraDocs ≠ []

/-- `resolve` never produces a scoped plan that reaches nothing. -/
theorem resolve_reaches {input : ResolveInput} {p : Permission}
    (h : resolve input p ≠ .none) : (resolve input p).Reaches := by
  cases hc : input.outsideCeiling p with
  | true => exact absurd (by simp [resolve, hc]) h
  | false =>
      cases hr : input.role with
      | platformAdmin => exact absurd (by simp [resolve, hc, hr]) h
      | orgAdmin => simp [resolve, hc, hr, AccessPlan.Reaches]
      | member =>
          rw [resolve_member hc hr] at h ⊢
          split at h
          next => exact absurd rfl h
          next he =>
            rw [if_neg he]
            simp only [Bool.and_eq_true, List.isEmpty_iff, not_and_or] at he
            simpa [AccessPlan.Reaches] using he

@[simp] theorem layersClause_matches {layers : List String} :
    (layersClause layers).matches point.field = true
      ↔ point.layerId ∈ layers := by
  simp [layersClause]

@[simp] theorem docsClause_matches {docs : List String} :
    (docsClause docs).matches point.field = true ↔ point.docId ∈ docs := by
  simp [docsClause]

/-- A layer narrowing that is not empty becomes its clauses, and they
match the layers it names. -/
theorem narrowLayers_spec {narrow : Narrowing}
    (h : narrow.layers ≠ some []) :
    ∃ cs, narrowLayers narrow = .ok cs
      ∧ ∀ point : PointPayload, (∀ c ∈ cs, c.matches point.field = true)
          ↔ narrow.admitsLayer point.layerId := by
  unfold narrowLayers Narrowing.admitsLayer
  cases hl : narrow.layers with
  | none => exact ⟨[], rfl, by simp⟩
  | some ls =>
      cases ls with
      | nil => exact absurd hl h
      | cons l ls => exact ⟨[layersClause (l :: ls)], rfl, by simp⟩

/-- Metadata restrictions with no empty list become one clause each, and
together they match what `matchesMetadata` says. -/
theorem metadataClauses_spec {metadata : Metadata}
    (h : ∀ entry ∈ metadata, entry.2 ≠ .list []) :
    ∃ cs, metadataClauses metadata = .ok cs
      ∧ ∀ point : PointPayload, (∀ c ∈ cs, c.matches point.field = true)
          ↔ matchesMetadata metadata point := by
  induction metadata with
  | nil => exact ⟨[], rfl, by simp [matchesMetadata]⟩
  | cons entry rest ih =>
      obtain ⟨key, value⟩ := entry
      obtain ⟨cs, hcs, hiff⟩ := ih fun e he => h e (List.mem_cons_of_mem _ he)
      have hone : ∃ c, metadataClause key value = .ok c
          ∧ ∀ point : PointPayload, c.matches point.field = true
              ↔ ∃ v ∈ point.meta key, v ∈ value.values := by
        cases value with
        | scalar v =>
            exact ⟨_, rfl, by simp [MetadataValue.values]⟩
        | list vs =>
            cases vs with
            | nil => exact absurd rfl (h _ (List.mem_cons_self ..))
            | cons v vs =>
                refine ⟨.any (metadataField key) (v :: vs), rfl, ?_⟩
                simp [MetadataValue.values]
      obtain ⟨c, hc, hciff⟩ := hone
      refine ⟨c :: cs, by rw [metadataClauses, hc, hcs]; rfl, ?_⟩
      intro point
      have := hiff point
      simp only [List.forall_mem_cons, this, hciff point, matchesMetadata]

/-- Both halves of a plan's scope as the filter encodes them. -/
theorem should_mustNot_spec {layers extraDocs deniedDocs : List String}
    (h : layers ≠ [] ∨ extraDocs ≠ []) (point : PointPayload) :
    shouldHolds point.field
        (some ((if layers.isEmpty then [] else [layersClause layers])
          ++ (if extraDocs.isEmpty then [] else [docsClause extraDocs]))) = true
      ∧ (∀ c ∈ (if deniedDocs.isEmpty then none
            else some [docsClause deniedDocs]).getD [],
          c.matches point.field = false)
      ↔ (AccessPlan.scoped layers extraDocs deniedDocs).admits
          point.layerId point.docId = true := by
  have hshould : shouldHolds point.field
        (some ((if layers.isEmpty then [] else [layersClause layers])
          ++ (if extraDocs.isEmpty then [] else [docsClause extraDocs]))) = true
      ↔ point.layerId ∈ layers ∨ point.docId ∈ extraDocs := by
    cases layers with
    | nil =>
        cases extraDocs with
        | nil => simp at h
        | cons d ds => simp [shouldHolds]
    | cons l ls =>
        cases extraDocs with
        | nil => simp [shouldHolds]
        | cons d ds => simp [shouldHolds]
  have hdenied : (∀ c ∈ (if deniedDocs.isEmpty then none
            else some [docsClause deniedDocs]).getD [],
          c.matches point.field = false)
      ↔ point.docId ∉ deniedDocs := by
    cases deniedDocs with
    | nil => simp
    | cons d ds => simp [← Bool.not_eq_true]
  rw [hshould, hdenied]
  simp [AccessPlan.admits]

/-- The filter of a plan that reaches something, narrowed by no empty
list, exists and accepts exactly the points that every constraint
admits. -/
theorem buildFilter_accepts (orgId : String) (plan : QueryablePlan)
    (hplan : plan.1.Reaches) (narrow : Narrowing) (hnarrow : narrow.NonEmpty) :
    ∃ f, buildFilter orgId plan narrow = .ok f
      ∧ ∀ point : PointPayload, f.accepts point.field = true
          ↔ point.orgId = orgId ∧ point.deleted = false
            ∧ plan.1.admits point.layerId point.docId = true
            ∧ narrow.admitsLayer point.layerId
            ∧ matchesMetadata (narrow.metadata.getD []) point := by
  obtain ⟨ls, hls, hlsiff⟩ := narrowLayers_spec hnarrow.1
  obtain ⟨ms, hms, hmsiff⟩ := metadataClauses_spec hnarrow.2
  have hmust : ∀ point : PointPayload,
      (∀ c ∈ [orgClause orgId, deletedClause] ++ ls ++ ms,
          c.matches point.field = true)
        ↔ point.orgId = orgId ∧ point.deleted = false
          ∧ narrow.admitsLayer point.layerId
          ∧ matchesMetadata (narrow.metadata.getD []) point := by
    intro point
    rw [← hlsiff point, ← hmsiff point]
    have horg : (orgClause orgId).matches point.field = true
        ↔ point.orgId = orgId := by
      rw [orgClause, PayloadFilter.matches_value, field_orgId,
        List.mem_singleton, Scalar.str.injEq, eq_comm]
    have hdel : deletedClause.matches point.field = true
        ↔ point.deleted = false := by
      simp [deletedClause]
    simp only [List.forall_mem_append, List.forall_mem_cons, horg, hdel,
      List.not_mem_nil, false_imp_iff, implies_true, and_true, and_assoc]
  obtain ⟨plan, hne⟩ := plan
  rcases plan with - | - | ⟨layers, extraDocs, deniedDocs⟩
  · exact absurd rfl hne
  · refine ⟨{ must := [orgClause orgId, deletedClause] ++ ls ++ ms },
        by rw [buildFilter, hls, hms]; rfl, ?_⟩
    intro point
    rw [accepts_iff, hmust point]
    simp [shouldHolds, AccessPlan.admits]
  · have hno : ¬ ((if layers.isEmpty then [] else [layersClause layers])
        ++ (if extraDocs.isEmpty then [] else [docsClause extraDocs])).isEmpty
          = true := by
      simp only [AccessPlan.Reaches] at hplan
      rcases hplan with h | h <;> simp [h]
    refine ⟨{
        must := [orgClause orgId, deletedClause] ++ ls ++ ms
        should := some
          ((if layers.isEmpty then [] else [layersClause layers])
            ++ (if extraDocs.isEmpty then [] else [docsClause extraDocs]))
        mustNot :=
          if deniedDocs.isEmpty then none
          else some [docsClause deniedDocs] }, ?_, ?_⟩
    · rw [buildFilter, hls, hms]
      exact if_neg hno
    · intro point
      rw [accepts_iff, hmust point, should_mustNot_spec hplan point]
      tauto

end Nacre.Authz
