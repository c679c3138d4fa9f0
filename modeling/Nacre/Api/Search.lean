/-
A search request, up to the query it sends (api/src/adapters.ts,
`NacreSearchService.search` and `groupsInScope`).

The permitted set passes through five narrowings: the plan, the layers
the caller named, the delegation's layers, the grouping of layers by
embedding model, and the layers of each branch when there are several
models. Four of them can end the request with an empty answer and no
query. What comes after the query (hydration, reranking) reorders or
trims what the index already filtered and is not modelled.

Outside the repository, and so parameters of the request: the embedder,
URL parsing, the lexical encoder and the host's `toLowerCase`.

# The statement of purpose

`Finds` says which points of a live layer the caller should be able to
find, with the requested slugs compared as the column does, up to case.
`SearchSpec` is the contract: a point is eligible iff it is wanted, by
one dense branch, its own layer's; an empty answer means nothing was
wanted; a delegation finds no more than its person.
-/
import Nacre.Api.Auth

namespace Nacre.Api

open Nacre.Authz Nacre.Vector

-- ================================================================ inputs

/-- What a layer needs embedded with, and where. -/
structure EmbeddingProvider where
  id : String
  endpoint : String
  model : String
  dimensions : Nat
  operatorOrigins : List String
  deriving DecidableEq

structure SparseVector where
  indices : List Nat
  values : List ℚ
  deriving DecidableEq

/-- What the service is built with. -/
structure SearchDeps where
  case : Js.CaseMapping
  /-- The origin of a URL, when it parses. -/
  endpointOrigin : String → Option String
  /-- The first vector of `embed([query])`. -/
  embed : EmbeddingProvider → String → Option (List ℚ)
  encodeQuery : String → SparseVector
  /-- Whether a reranker is configured. -/
  reranker : Bool
  rerankCandidates : Option Nat

/-- Every embedder answers one vector for one text. -/
def SearchDeps.Embeds (deps : SearchDeps) : Prop :=
  ∀ provider query, deps.embed provider query ≠ none

structure SearchOptions where
  rerank : Option Bool := none
  layers : Option (List String) := none
  filters : Option Metadata := none

/-- How a request ends, short of an error: with an empty answer and no
query, or with this query sent to this collection. -/
inductive SearchOutcome where
  | empty
  | query (collection : String) (query : HybridQuery)
  deriving DecidableEq

-- ============================================================ narrowings

/-- The slugs a request is read as naming: trimmed, lower-cased, none
blank, no two equal, sixty-four at most. -/
def wantedSlugs (case : Js.CaseMapping) (slugs : List String) :
    List String :=
  ((slugs.map fun s => case.toLowerCase (Js.trim s)).filter
    fun s => s != "").eraseDups.take 64

/-- Layer slugs to ids, within one organization. The parameter is a
`text[]`, so the `citext` column is compared as text; deleted layers are
not left out. -/
def layerIds (deps : SearchDeps) (db : OrgDb) (slugs : List String) :
    List String :=
  let wanted := wantedSlugs deps.case slugs
  if wanted.isEmpty then []
  else (db.layers.filter fun l => wanted.contains l.slug).map LayerRow.id

/-- The named layers the plan reaches. Documents granted on their own may
sit in any layer, so a plan with some keeps every one. -/
def permittedLayers (plan : AccessPlan) (resolved : List String) :
    List String :=
  match plan with
  | .scoped layers [] _ => resolved.filter fun id => layers.contains id
  | _ => resolved

/-- The metadata half of the caller's restriction. -/
def metadataNarrowing (options : SearchOptions) : Narrowing :=
  match options.filters with
  | some (entry :: entries) => { metadata := some (entry :: entries) }
  | _ => {}

/-- The layers half; `none` is the early return. -/
def narrowToRequested (deps : SearchDeps) (db : OrgDb)
    (options : SearchOptions) (plan : AccessPlan) (narrow : Narrowing) :
    Option Narrowing :=
  match options.layers with
  | some (slug :: slugs) =>
      let permitted := permittedLayers plan (layerIds deps db (slug :: slugs))
      if permitted.isEmpty then none
      else some { narrow with layers := some permitted }
  | _ => some narrow

/-- The delegated layers among those narrowed to, when there are any. -/
def bothLayers (narrow : Narrowing) (delegated : List String) :
    List String :=
  match narrow.layers with
  | none => delegated
  | some layers => layers.filter fun id => delegated.contains id

/-- The delegation's own narrowing, last; `none` is the early return. -/
def narrowToDelegation (auth : AuthContext) (narrow : Narrowing) :
    Option Narrowing :=
  match delegatedLayers auth .read with
  | none => some narrow
  | some delegated =>
      let both := bothLayers narrow delegated
      if both.isEmpty then none else some { narrow with layers := some both }

/-- Both, over the metadata. -/
def narrowed (deps : SearchDeps) (db : OrgDb) (auth : AuthContext)
    (options : SearchOptions) (plan : AccessPlan) : Option Narrowing :=
  (narrowToRequested deps db options plan (metadataNarrowing options)).bind
    (narrowToDelegation auth)

-- ================================================================ groups

/-- One dense branch's worth of the organization: a model and the layers
on it. -/
structure ModelGroup where
  vectorName : String
  provider : EmbeddingProvider
  layerIds : List String

/-- A value of the map the groups are collected in. -/
structure GroupEntry where
  provider : EmbeddingProvider
  layerIds : List String

/-- Whether a layer can contribute to this search. -/
def inScope (plan : AccessPlan) (narrow : Narrowing) (l : LayerRow) : Bool :=
  if (narrow.layers.map fun layers => layers.contains l.id) = some false then
    false
  else
    match plan with
    | .none => false
    | .all => true
    | .scoped layers extraDocs _ => !extraDocs.isEmpty || layers.contains l.id

/-- The provider of a layer, as the embedder takes it. -/
def providerOf (deps : SearchDeps) (db : OrgDb) (l : LayerRow) :
    EmbeddingProvider where
  id := l.provider.id
  endpoint := l.provider.endpoint
  model := l.provider.model
  dimensions := l.provider.dimensions
  operatorOrigins := db.operatorEndpoints.filterMap deps.endpointOrigin

/-- Add one layer to its model's group. A layer whose vector is not its
provider's is an error, not a smaller answer. -/
def pushLayer (deps : SearchDeps) (db : OrgDb)
    (byVector : List (String × GroupEntry)) (l : LayerRow) :
    Except String (List (String × GroupEntry)) :=
  let expected := vectorName l.provider.model l.provider.dimensions
  if expected ≠ l.vectorName then
    .error ("layer " ++ l.id ++ " names vector " ++ l.vectorName
      ++ " but its provider is " ++ l.provider.model ++ "/"
      ++ toString l.provider.dimensions ++ ", which is " ++ expected
      ++ ". A reindex left the two out of step; the layer cannot be "
      ++ "searched until they agree.")
  else
    let group := (byVector.lookup l.vectorName).getD
      { provider := providerOf deps db l, layerIds := [] }
    .ok (Js.mapSet byVector l.vectorName
      { group with layerIds := group.layerIds ++ [l.id] })

/-- The layers in scope, grouped by the model they are indexed with. -/
def groupsInScope (deps : SearchDeps) (db : OrgDb) (plan : AccessPlan)
    (narrow : Narrowing) : Except String (List ModelGroup) := do
  let byVector ←
    (db.liveLayers.filter (inScope plan narrow)).foldlM (pushLayer deps db) []
  return byVector.map fun entry =>
    ⟨entry.1, entry.2.provider, entry.2.layerIds⟩

-- ================================================================ search

def SPARSE_VECTOR_NAME : String := "bm25"

/-- The dense branch of a group, confined to its layers when there are
several groups. -/
def denseBranch (deps : SearchDeps) (query : String) (several : Bool)
    (group : ModelGroup) : Except String Branch :=
  match deps.embed group.provider query with
  | none =>
      .error ("the embedder for " ++ group.provider.model
        ++ " returned no vector for the query")
  | some vector =>
      .ok {
        usingVector := group.vectorName
        vector := .dense vector
        onlyLayers := if several then some group.layerIds else none }

/-- The lexical branch, when the query has any term. -/
def lexicalBranches (deps : SearchDeps) (query : String) : List Branch :=
  let lexical := deps.encodeQuery query
  if lexical.indices.isEmpty then []
  else [⟨SPARSE_VECTOR_NAME, .sparse lexical.indices lexical.values, none⟩]

/-- `VectorStore.search`, up to the request it makes. -/
def vectorStoreSearch (orgId collection : String) (plan : QueryablePlan)
    (branches : List Branch) (topK : Nat) (narrow : Narrowing) :
    Except String SearchOutcome := do
  let filter ← buildFilter orgId plan narrow
  let query ← buildHybridQuery { branches, filter, limit := topK }
  return .query collection query

/-- How many results are asked of the index. -/
def resultLimit (deps : SearchDeps) (topK : Nat) (options : SearchOptions) :
    Nat :=
  if deps.reranker && options.rerank != some false then
    max topK (deps.rerankCandidates.getD 50)
  else topK

def search (deps : SearchDeps) (db : OrgDb) (auth : AuthContext)
    (query : String) (topK : Nat) (options : SearchOptions) :
    Except String SearchOutcome :=
  match db.vectorCollection with
  | none => .ok .empty
  | some collection =>
      let plan := resolve (contextFor db auth) .read
      if hplan : plan = .none then .ok .empty
      else
        match narrowed deps db auth options plan with
        | none => .ok .empty
        | some narrow => do
            let groups ← groupsInScope deps db plan narrow
            if groups.isEmpty then return .empty
            else
              let branches ←
                groups.mapM (denseBranch deps query (1 < groups.length))
              vectorStoreSearch auth.orgId collection ⟨plan, hplan⟩
                (branches ++ lexicalBranches deps query)
                (resultLimit deps topK options) narrow

-- ============================================================== contract

/-- The slugs the request names; an empty list names none, as no list
does. -/
def SearchOptions.slugs (options : SearchOptions) : List String :=
  options.layers.getD []

/-- The layer is one of the first sixty-four slugs requested, when any
were, comparing slugs up to case as the column does. -/
def NamedUpToCase (case : Js.CaseMapping) (options : SearchOptions)
    (l : LayerRow) : Prop :=
  options.slugs ≠ [] → case.toLowerCase l.slug ∈ wantedSlugs case options.slugs

/-- The same, comparing the stored slug as it is spelled. -/
def NamedAsSpelled (case : Js.CaseMapping) (options : SearchOptions)
    (l : LayerRow) : Prop :=
  options.slugs ≠ [] → l.slug ∈ wantedSlugs case options.slugs

/-- What makes a point of a live layer one the caller should find, with
the comparison of slugs left open. -/
structure Finds (db : OrgDb) (auth : AuthContext) (options : SearchOptions)
    (named : Prop) (l : LayerRow) (point : PointPayload) : Prop where
  live : point.deleted = false
  admitted : (resolve (contextFor db auth) .read).admits l.id point.docId = true
  delegated : ∀ admitted, delegatedLayers auth .read = some admitted →
    l.id ∈ admitted
  named : named
  metadata : matchesMetadata (options.filters.getD []) point

/-- A point of the caller's organization, in this layer. -/
def PointOf (auth : AuthContext) (l : LayerRow) (point : PointPayload) :
    Prop :=
  point.orgId = auth.orgId ∧ point.layerId = l.id

/-- The request sends a query and some prefetch of it accepts the
point. -/
def Eligible (deps : SearchDeps) (db : OrgDb) (auth : AuthContext)
    (query : String) (topK : Nat) (options : SearchOptions)
    (point : PointPayload) : Prop :=
  ∃ collection q, search deps db auth query topK options
      = .ok (.query collection q)
    ∧ ∃ clause ∈ q.prefetch, clause.filter.accepts point.field = true

/-- The contract of one request. -/
structure SearchSpec (deps : SearchDeps) (db : OrgDb) (auth : AuthContext)
    (query : String) (topK : Nat) (options : SearchOptions) : Prop where
  eligible_iff : ∀ l point, db.LiveLayer l → PointOf auth l point →
    (Eligible deps db auth query topK options point
      ↔ Finds db auth options (NamedUpToCase deps.case options l) l point)
  one_dense : ∀ l point, db.LiveLayer l → PointOf auth l point →
    Eligible deps db auth query topK options point →
    ∃ collection q clause,
      search deps db auth query topK options = .ok (.query collection q)
      ∧ (q.prefetch.filter fun c =>
          c.isDense && c.filter.accepts point.field) = [clause]
      ∧ clause.usingVector = l.vectorName
  empty_answer : search deps db auth query topK options = .ok .empty →
    ∀ l point, db.LiveLayer l → PointOf auth l point →
      ¬ Finds db auth options (NamedUpToCase deps.case options l) l point
  delegation : ∀ l point, db.LiveLayer l → PointOf auth l point →
    Eligible deps db auth query topK options point →
    Eligible deps db auth.undelegated query topK options point

end Nacre.Api
