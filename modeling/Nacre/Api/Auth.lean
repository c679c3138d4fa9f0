/-
Who is asking (api/src/auth.ts, api/src/skill-ceiling.ts) and the
permission context a request is resolved in (api/src/adapters.ts,
core/authz/store.ts).

An `AuthContext` may be a delegation: a person's own authority, lowered
by a permission ceiling and narrowed to layers that each may carry a
ceiling of their own. The ceiling goes into `resolve` through
`ceilingOf`; the narrowing is asked separately, one permission at a
time, through `delegatedLayers`.

`OrgDb` is what the transactions of one organization read. Its fields
carry what the schema and every writer keep: primary and foreign keys,
`uuid` columns, and a live layer's `vector_name` being the one its
provider's model derives.

# The context

`contextFor` places only the documents the caller's grants name.
`loadScopeTree_layerOf` says what that tree answers; `loadScopeTree_agrees`
is the side condition of the resolver, which holds for every set of
rows.
-/
import Nacre.Lib.Uuid
import Nacre.Vector.Query

namespace Nacre.Api

open Nacre.Authz

-- ============================================================ delegation

/-- What a ceiling may hold: a permission, or the right to edit a skill,
which is none. -/
inductive CeilingValue where
  | permission (p : Permission)
  | skill
  deriving DecidableEq, Repr

/-- A layer of a narrowing, with its own ceiling where one was set. -/
structure NarrowedLayer where
  id : String
  permissions : Option (List CeilingValue) := none
  deriving DecidableEq, Repr

structure Delegation where
  layers : Option (List NarrowedLayer) := none
  permissions : Option (List CeilingValue) := none
  deriving DecidableEq, Repr

structure AuthContext where
  orgId : String
  principal : Principal
  role : OrgRole
  delegation : Option Delegation := none
  deriving DecidableEq, Repr

/-- The same person, not acting through a delegation. -/
def AuthContext.undelegated (auth : AuthContext) : AuthContext :=
  { auth with delegation := none }

/-- A ceiling as `resolve` takes it: the permissions in it, and not
`skill`. -/
def permissionsOf (values : List CeilingValue) : List Permission :=
  values.filterMap fun v =>
    match v with
    | .permission p => some p
    | .skill => none

/-- The delegation's permission ceiling, as `ResolveInput` takes it. -/
def ceilingOf (auth : AuthContext) : Option (List Permission) :=
  match auth.delegation with
  | none => none
  | some delegation => delegation.permissions.map permissionsOf

/-- The layers this delegation admits for one permission, `none` for no
narrowing at all. -/
def delegatedLayers (auth : AuthContext) (permission : Permission) :
    Option (List String) :=
  match auth.delegation with
  | none => none
  | some delegation =>
      delegation.layers.map fun narrowing =>
        (narrowing.filter fun l =>
          match l.permissions with
          | none => true
          | some permissions => permissions.contains (.permission permission)).map
          NarrowedLayer.id

/-- Whether a layer is inside this request's delegation, if it has one. -/
def withinDelegation (auth : AuthContext) (layerId : String)
    (permission : Permission) : Bool :=
  match delegatedLayers auth permission with
  | none => true
  | some admitted => admitted.contains layerId

-- ================================================================== rows

/-- A row of `embedding_providers`. -/
structure ProviderRow where
  id : String
  endpoint : String
  model : String
  dimensions : Nat
  deriving DecidableEq

/-- A row of `layers`, joined with its provider's. -/
structure LayerRow where
  id : String
  workspaceId : String
  slug : String
  vectorName : String
  provider : ProviderRow
  deleted : Bool := false
  deriving DecidableEq

/-- A row of `documents`, in the columns the API reads back. -/
structure DocumentRow where
  id : String
  layerId : String
  externalId : Option String := none
  title : Option String := none
  status : String := "indexed"
  chunkCount : Nat := 0
  updatedAt : Nat := 0
  metadata : Metadata := []
  sourceType : String := "inline"
  sourceRef : Option String := none
  error : Option String := none
  deleted : Bool := false
  deriving DecidableEq

/-- What the transactions of one organization read. -/
structure OrgDb where
  /-- Absent when the organization is missing or deleted. -/
  vectorCollection : Option String
  layers : List LayerRow
  documents : List DocumentRow
  /-- The grant table; a row carries its own tenant. -/
  grants : List Grant
  /-- The endpoints of the installation's own providers. -/
  operatorEndpoints : List String := []
  /-- A principal and every group it is in, through the group graph. -/
  effectivePrincipals : Principal → List PrincipalRef
  layers_key : (layers.map LayerRow.id).Nodup
  documents_key : (documents.map DocumentRow.id).Nodup
  documents_layer : ∀ d ∈ documents, ∃ l ∈ layers, l.id = d.layerId
  /-- Creating a layer and ending a reindex both write the two sides of
  this together. -/
  layers_vector : ∀ l ∈ layers, l.deleted = false →
    Vector.vectorName l.provider.model l.provider.dimensions = l.vectorName
  /-- `scope_id` is a `uuid` column, read back in its canonical text. -/
  grants_uuid : ∀ g ∈ grants, Uuid.castUuid g.scope.id = some g.scope.id

variable {db : OrgDb}

/-- A layer that is not deleted, in an organization that is there. -/
def OrgDb.LiveLayer (db : OrgDb) (l : LayerRow) : Prop :=
  db.vectorCollection ≠ none ∧ l ∈ db.layers ∧ l.deleted = false

/-- A document that is not deleted, in an organization that is there. -/
def OrgDb.LiveDocument (db : OrgDb) (d : DocumentRow) : Prop :=
  db.vectorCollection ≠ none ∧ d ∈ db.documents ∧ d.deleted = false

/-- The primary key of `layers`. -/
theorem OrgDb.layer_eq {l l' : LayerRow} (hl : l ∈ db.layers)
    (hl' : l' ∈ db.layers) (hid : l.id = l'.id) : l = l' :=
  List.inj_on_of_nodup_map db.layers_key hl hl' hid

/-- The primary key of `documents`. -/
theorem OrgDb.document_eq {d d' : DocumentRow} (hd : d ∈ db.documents)
    (hd' : d' ∈ db.documents) (hid : d.id = d'.id) : d = d' :=
  List.inj_on_of_nodup_map db.documents_key hd hd' hid

def OrgDb.liveLayers (db : OrgDb) : List LayerRow :=
  db.layers.filter fun l => !l.deleted

-- =============================================================== context

/-- The grants that could bear on a request; not filtered by permission. -/
def loadGrants (db : OrgDb) (orgId : String) (principals : List PrincipalRef) :
    List Grant :=
  if principals.isEmpty then []
  else
    db.grants.filter fun g =>
      g.orgId == orgId && principals.contains (principalRef g.principal)

/-- `(layers[row.workspace_id] ??= []).push(row.id)`. -/
def placeLayer (layers : List (String × List String)) (row : LayerRow) :
    List (String × List String) :=
  Js.mapSet layers row.workspaceId
    ((layers.lookup row.workspaceId).getD [] ++ [row.id])

/-- `documents[row.id] = row.layer_id`. -/
def placeDocument (documents : List (String × String)) (row : DocumentRow) :
    List (String × String) :=
  Js.mapSet documents row.id row.layerId

/-- The scope tree the resolver needs: the live layers, and of the named
documents those that are live. -/
def loadScopeTree (db : OrgDb) (documentIds : List String) : ScopeTree :=
  MemoryScopeTree
    { layers := db.liveLayers.foldl placeLayer []
      documents :=
        (db.documents.filter fun d =>
          !d.deleted && documentIds.contains d.id).foldl placeDocument [] }

/-- The documents a grant list names. -/
def grantedDocuments (grants : List Grant) : List String :=
  (grants.filter fun g => g.scope.type == .document).map fun g => g.scope.id

/-- What every path resolves: the caller, their grants and a tree. -/
def resolveInput (db : OrgDb) (auth : AuthContext)
    (documentIds : List Grant → List String) : ResolveInput :=
  let principals := db.effectivePrincipals auth.principal
  let grants := loadGrants db auth.orgId principals
  { orgId := auth.orgId
    role := auth.role
    principals
    grants
    tree := loadScopeTree db (documentIds grants)
    ceiling := ceilingOf auth }

/-- The per-request permission context. -/
def contextFor (db : OrgDb) (auth : AuthContext) : ResolveInput :=
  resolveInput db auth grantedDocuments

-- ============================================================== the tree

/-- Layers placed one by one: a workspace ends with those of its rows, in
row order, after the ones it had. -/
theorem lookup_placeLayers (rows : List LayerRow) (w : String) :
    ∀ layers : List (String × List String),
      ((rows.foldl placeLayer layers).lookup w).getD []
        = (layers.lookup w).getD []
          ++ (rows.filter fun r => r.workspaceId == w).map LayerRow.id := by
  induction rows with
  | nil => intro layers; simp
  | cons row rows ih =>
      intro layers
      rw [List.foldl_cons, ih, placeLayer, Js.lookup_mapSet, List.filter_cons]
      by_cases hw : w = row.workspaceId
      · subst hw
        simp
      · have h₁ : (w == row.workspaceId) = false := by simpa using hw
        have h₂ : (row.workspaceId == w) = false := by
          simpa using fun h => hw h.symm
        simp [h₁, h₂]

/-- Placing layers keeps one entry for each workspace. -/
theorem nodup_keys_placeLayers (rows : List LayerRow) :
    ∀ {layers : List (String × List String)}, (layers.map Prod.fst).Nodup →
      ((rows.foldl placeLayer layers).map Prod.fst).Nodup := by
  induction rows with
  | nil => intro layers h; exact h
  | cons row rows ih =>
      intro layers h
      exact ih (Js.nodup_keys_mapSet h)

/-- What the tree lists under a workspace. -/
theorem mem_loadScopeTree_layersOf {ids : List String} {w l : String} :
    l ∈ (loadScopeTree db ids).layersOf w
      ↔ ∃ row ∈ db.layers, row.deleted = false ∧ row.workspaceId = w
          ∧ row.id = l := by
  have h : (loadScopeTree db ids).layersOf w
      = (db.liveLayers.filter fun r => r.workspaceId == w).map LayerRow.id :=
    lookup_placeLayers db.liveLayers w []
  simp only [h, OrgDb.liveLayers, List.mem_map, List.mem_filter,
    Bool.not_eq_true', beq_iff_eq]
  constructor
  · intro hex
    obtain ⟨row, ⟨⟨hrow, hdel⟩, hw⟩, hid⟩ := hex
    exact ⟨row, hrow, hdel, hw, hid⟩
  · intro hex
    obtain ⟨row, hrow, hdel, hw, hid⟩ := hex
    exact ⟨row, ⟨⟨hrow, hdel⟩, hw⟩, hid⟩

/-- The tree of any rows has agreeing lookups: a layer id is one row, and
a row names one workspace. -/
theorem loadScopeTree_agrees (db : OrgDb) (ids : List String) :
    (loadScopeTree db ids).Agrees := by
  have hkeys := nodup_keys_placeLayers db.liveLayers
    (show (([] : List (String × List String)).map Prod.fst).Nodup by simp)
  refine memoryScopeTree_agrees ⟨hkeys, ?_⟩
  have hrow : ∀ e ∈ db.liveLayers.foldl placeLayer [], ∀ l ∈ e.2,
      ∃ row ∈ db.layers, row.workspaceId = e.1 ∧ row.id = l := by
    intro e he l hl
    have hlook := (Js.lookup_eq_some_iff_mem hkeys).2
      (show (e.1, e.2) ∈ db.liveLayers.foldl placeLayer [] from he)
    have hmem : l ∈ (loadScopeTree db ids).layersOf e.1 := by
      simpa [loadScopeTree, MemoryScopeTree, hlook] using hl
    obtain ⟨row, hrow, -, hw, hid⟩ := mem_loadScopeTree_layersOf.1 hmem
    exact ⟨row, hrow, hw, hid⟩
  intro e he e' he' l hl hl'
  obtain ⟨row, hmem, hw, hid⟩ := hrow e he l hl
  obtain ⟨row', hmem', hw', hid'⟩ := hrow e' he' l hl'
  have hsame : row = row' := db.layer_eq hmem hmem' (hid.trans hid'.symm)
  have hfst : e.1 = e'.1 := by rw [← hw, ← hw', hsame]
  exact List.inj_on_of_nodup_map hkeys he he' hfst

/-- Documents placed one by one, under distinct ids: the rows themselves,
over what was there. -/
theorem lookup_placeDocuments (rows : List DocumentRow) :
    ∀ documents : List (String × String),
      (rows.map DocumentRow.id).Nodup → ∀ d l : String,
        ((rows.foldl placeDocument documents).lookup d = some l
          ↔ (∃ row ∈ rows, row.id = d ∧ row.layerId = l)
            ∨ (∀ row ∈ rows, row.id ≠ d) ∧ documents.lookup d = some l) := by
  induction rows with
  | nil => intro documents _ d l; simp
  | cons row rows ih =>
      intro documents hnd d l
      rw [List.map_cons, List.nodup_cons] at hnd
      rw [List.foldl_cons, ih _ hnd.2 d l, placeDocument, Js.lookup_mapSet]
      by_cases hd : d = row.id
      · have hno : ∀ r ∈ rows, r.id ≠ d := fun r hr h =>
          hnd.1 (List.mem_map.2 ⟨r, hr, h.trans hd⟩)
        subst hd
        simp only [BEq.rfl, if_true, Option.some.injEq, List.mem_cons,
          exists_eq_or_imp, true_and, forall_eq_or_imp, ne_eq,
          not_true_eq_false, false_and, or_false]
        constructor
        · intro hor
          rcases hor with ⟨r, hr, hid, -⟩ | ⟨-, hl⟩
          · exact absurd hid (hno r hr)
          · exact Or.inl hl
        · intro hor
          rcases hor with hl | ⟨r, hr, hid, -⟩
          · exact Or.inr ⟨hno, hl⟩
          · exact absurd hid (hno r hr)
      · have hbeq : (d == row.id) = false := by simpa using hd
        have hne : row.id ≠ d := fun h => hd h.symm
        simp [hbeq, hne]

/-- Where the tree places a document. -/
theorem loadScopeTree_layerOf {ids : List String} {d l : String} :
    (loadScopeTree db ids).layerOf d = some l
      ↔ d ∈ ids ∧ ∃ row ∈ db.documents, row.deleted = false ∧ row.id = d
          ∧ row.layerId = l := by
  have hnd : ((db.documents.filter fun d =>
      !d.deleted && ids.contains d.id).map DocumentRow.id).Nodup :=
    (List.filter_sublist.map _).nodup db.documents_key
  have h := lookup_placeDocuments _ [] hnd d l
  simp only [List.lookup_nil, reduceCtorEq, and_false, or_false,
    List.mem_filter, Bool.and_eq_true, Bool.not_eq_true',
    List.contains_iff_mem] at h
  rw [loadScopeTree, MemoryScopeTree, h]
  constructor
  · intro hex
    obtain ⟨row, ⟨hrow, hdel, hid⟩, rfl, rfl⟩ := hex
    exact ⟨hid, row, hrow, hdel, rfl, rfl⟩
  · intro hall
    obtain ⟨hid, row, hrow, hdel, rfl, rfl⟩ := hall
    exact ⟨row, ⟨hrow, hdel, hid⟩, rfl, rfl⟩

/-- What the request resolves is the same caller, whatever is placed. -/
@[simp] theorem resolveInput_grants (auth : AuthContext)
    (ids : List Grant → List String) :
    (resolveInput db auth ids).grants
      = loadGrants db auth.orgId (db.effectivePrincipals auth.principal) :=
  rfl

end Nacre.Api
