/-
The collections that are listed by keyset cursor: `PostgresLayers.list`,
`PostgresWorkspaces.list` and `PostgresAuditReader.read`
(api/src/adapters.ts), and `PostgresUsers.list` (api/src/principals.ts).

Each request reads one state of the database (`ListingDb`), resolves its
caller again, and cuts a page. Layers and users take `limit` rows that the
statement has filtered and go through `pageOf`; workspaces and events take
one more than asked for; workspaces are filtered after the cut, and their
cursor is that of the last row fetched. The log is read downwards.

# The argument

- `pageOf_cut` and `overfetch_cut` are the two ways a page is cut, each a
  `Keyset.Page` of the rows it was cut from.
- `layers_answer`, `users_answer`, `workspaces_answer` and `events_answer`
  put one request together: the cursor is read back as the key it was
  written from (`Seek.request_encode`), no cast fails, and what the page is
  a page of is what the caller may see. For layers and workspaces that is the
  reference on the whole scope tree, and the narrowing.
- `listings_followed` is the walk, over any states of the database, one for
  each request.
-/
import Nacre.Api.Documents
import Nacre.Api.Pagination
import Nacre.Lib.Json
import Nacre.Lib.Keyset

namespace Nacre.Api

open Nacre.Authz
open Nacre.Store (Time)
open Keyset (Past Page lastKey page_cut walk Walked Answers walk_spec)

-- ==================================================================== rows

/-- A row of `layers`, with the columns its listing reads. -/
structure LayerEntry extends LayerRow where
  name : String
  description : Option String := none
  createdAt : Time
  deriving DecidableEq

structure WorkspaceRow where
  id : String
  slug : String
  name : String
  createdAt : Time
  deleted : Bool := false
  deriving DecidableEq

structure UserRow where
  id : String
  email : String
  role : OrgRole
  createdAt : Time
  disabledAt : Option Time := none
  hasPassword : Bool := true
  shared : Bool := false
  externalId : Option String := none
  deriving DecidableEq

inductive AuditResult where
  | allow
  | deny
  | error
  deriving DecidableEq

/-- A row of `audit_events`; its id is a `bigserial`. -/
structure AuditRow where
  id : Nat
  occurredAt : Time
  actorType : String
  actorId : Option String
  actorLabel : String
  action : String
  surface : String
  client : Option String := none
  target : Json := .object []
  result : AuditResult := .allow
  detail : Json := .object []
  requestId : Option String := none

def LayerEntry.key (l : LayerEntry) : Time ×ₗ String := toLex (l.createdAt, l.id)

def WorkspaceRow.key (w : WorkspaceRow) : Time ×ₗ String := toLex (w.createdAt, w.id)

def UserRow.key (u : UserRow) : Time ×ₗ String := toLex (u.createdAt, u.id)

/-- Newest first. -/
def AuditRow.key (e : AuditRow) : (Time ×ₗ Nat)ᵒᵈ := OrderDual.toDual (toLex (e.occurredAt, e.id))

/-- What the listings of one organization read, with the keys of its tables. -/
structure ListingDb where
  org : OrgDb
  layers : List LayerEntry
  workspaces : List WorkspaceRow
  users : List UserRow
  events : List AuditRow
  layers_org : layers.map LayerEntry.toLayerRow = org.layers
  workspaces_key : (workspaces.map WorkspaceRow.id).Nodup
  users_key : (users.map UserRow.id).Nodup
  events_key : (events.map AuditRow.id).Nodup
  /-- A `uuid` column is read back in its canonical text. -/
  layers_uuid : ∀ l ∈ layers, Uuid.castUuid l.id = some l.id
  workspaces_uuid : ∀ w ∈ workspaces, Uuid.castUuid w.id = some w.id
  users_uuid : ∀ u ∈ users, Uuid.castUuid u.id = some u.id
  events_bigint : ∀ e ∈ events, e.id < 2 ^ 63

/-- An `AuthContext` as it is built from a token: the layers of a narrowing
are read from a `uuid` column. -/
structure Caller extends AuthContext where
  narrowed_uuid : ∀ d ∈ delegation, ∀ layers ∈ d.layers, ∀ l ∈ layers,
    Uuid.castUuid l.id = some l.id

-- =================================================================== items

/-- An item of a page, with the row it was mapped from. -/
structure Listed (ρ ν : Type) where
  row : ρ
  view : ν

structure LayerView where
  id : String
  slug : String
  name : String
  workspaceId : String
  description : String
  documentCount : Nat
  failedCount : Nat
  permissions : List Permission
  createdAt : String

structure WorkspaceView where
  id : String
  slug : String
  name : String
  layerCount : Nat
  createdAt : String
  permissions : List Permission

structure UserView where
  id : String
  email : String
  role : OrgRole
  createdAt : String
  disabledAt : Option String
  hasPassword : Bool
  shared : Bool
  externalId : Option String

structure AuditRecord where
  id : String
  occurredAt : String
  actorType : String
  actorId : Option String
  actorLabel : String
  action : String
  surface : String
  client : Option String
  target : Json
  result : AuditResult
  detail : Json
  requestId : Option String

/-- `$1::uuid[]`; an error is none. -/
def castUuids (ids : List String) : Option (List String) := ids.mapM Uuid.castUuid

-- ================================================================== layers

/-- The layers a listing is cut to, none for no cut at all. -/
def listedIds (auth : AuthContext) (plan : AccessPlan) : Option (List String) :=
  match delegatedLayers auth .read, plan with
  | none, .scoped layers _ _ => some layers
  | none, _ => none
  | some narrowing, .scoped layers _ _ => some (layers.filter narrowing.contains)
  | some narrowing, _ => some narrowing

/-- What the caller may do on a layer, each verb resolved and narrowed apart. -/
def holds (context : ResolveInput) (auth : AuthContext) (layerId : String) : List Permission :=
  [Permission.read, .write, .admin].filter fun p =>
    (resolve context p).reachesLayer layerId && withinDelegation auth layerId p

/-- The live documents of a layer, without the denied ones. -/
def countedDocuments (db : OrgDb) (denied : List String) (layerId : String) : List DocumentRow :=
  db.documents.filter fun d => d.layerId == layerId && !d.deleted && !denied.contains d.id

def layerView (dates : Dates) (db : ListingDb) (auth : AuthContext) (denied : List String)
    (l : LayerEntry) : LayerView where
  id := l.id
  slug := l.slug
  name := l.name
  workspaceId := l.workspaceId
  description := l.description.getD ""
  documentCount := (countedDocuments db.org denied l.id).length
  failedCount := ((countedDocuments db.org denied l.id).filter (·.status == "failed")).length
  permissions := holds (contextFor db.org auth) auth l.id
  createdAt := dates.iso l.createdAt

/-- The layers this caller may read. -/
def PostgresLayers.list (dates : Dates) (db : ListingDb) (auth : AuthContext) (limit : Nat)
    (after : Option Position) : Option (PageResult (Listed LayerEntry LayerView)) :=
  let plan := resolve (contextFor db.org auth) .read
  if plan = .none then some ⟨[], none⟩
  else
    let ids := listedIds auth plan
    if ids = some [] then some ⟨[], none⟩
    else do
      let bound ← uuidSeek.bound dates after
      let admitted ← ids.mapM castUuids
      let denied ← castUuids plan.deniedDocs
      let rows := (Keyset.seek LayerEntry.key bound (db.layers.filter fun l =>
        !l.deleted && admitted.all (·.contains l.id))).take limit
      let layers := rows.map fun l => (⟨l, layerView dates db auth denied l⟩ : Listed _ _)
      pure (pageOf layers limit fun l => ⟨dates.timestampText l.row.createdAt, l.view.id⟩)

-- =================================================================== users

def userView (dates : Dates) (u : UserRow) : UserView where
  id := u.id
  email := u.email
  role := u.role
  createdAt := dates.iso u.createdAt
  disabledAt := u.disabledAt.map dates.iso
  hasPassword := u.hasPassword
  shared := u.shared
  externalId := u.externalId

/-- Disabled ones are listed too. -/
def PostgresUsers.list (dates : Dates) (db : ListingDb) (limit : Nat) (after : Option Position) :
    Option (PageResult (Listed UserRow UserView)) := do
  let bound ← uuidSeek.bound dates after
  let rows := (Keyset.seek UserRow.key bound db.users).take limit
  let users := rows.map fun u => (⟨u, userView dates u⟩ : Listed _ _)
  pure (pageOf users limit fun u => ⟨dates.timestampText u.row.createdAt, u.view.id⟩)

-- ============================================================== workspaces

/-- The live layers of a workspace. -/
def workspaceLayerIds (db : ListingDb) (w : WorkspaceRow) : List String :=
  (db.layers.filter fun l => l.workspaceId == w.id && !l.deleted).map fun l => l.id

def visibleLayers (db : ListingDb) (auth : AuthContext) (w : WorkspaceRow) : List String :=
  (workspaceLayerIds db w).filter fun id => (delegatedLayers auth .read).all (·.contains id)

/-- Through a layer the plan reaches or, without a narrowing, through a grant
on the workspace itself. -/
def reachable (db : ListingDb) (auth : AuthContext) (w : WorkspaceRow) : Bool :=
  let context := contextFor db.org auth
  let plan := resolve context .read
  if (delegatedLayers auth .read).isSome then (visibleLayers db auth w).any plan.reachesLayer
  else if plan = .all then true
  else if (workspaceLayerIds db w).any plan.reachesLayer then true
  else referenceAllows context ⟨.workspace, w.id⟩ .read

def permissionsOn (db : ListingDb) (auth : AuthContext) (w : WorkspaceRow) : List Permission :=
  if (delegatedLayers auth .read).isSome then [.read]
  else
    [Permission.read, .write, .admin].filter fun p =>
      p == .read || referenceAllows (contextFor db.org auth) ⟨.workspace, w.id⟩ p

def workspaceView (dates : Dates) (db : ListingDb) (auth : AuthContext) (w : WorkspaceRow) :
    WorkspaceView where
  id := w.id
  slug := w.slug
  name := w.name
  layerCount := (visibleLayers db auth w).length
  createdAt := dates.iso w.createdAt
  permissions := permissionsOn db auth w

/-- The workspaces this caller can reach. One row more than asked for is
fetched, and the cursor is of the last row of the page, filtered or not. -/
def PostgresWorkspaces.list (dates : Dates) (db : ListingDb) (auth : AuthContext) (limit : Nat)
    (after : Option Position) : Option (PageResult (Listed WorkspaceRow WorkspaceView)) := do
  let bound ← uuidSeek.bound dates after
  let rows := (Keyset.seek WorkspaceRow.key bound (db.workspaces.filter fun w => !w.deleted)).take
    (limit + 1)
  let fetched := rows.take limit
  let items := (rows.filter (reachable db auth)).filter fun w => fetched.any fun f => f.id == w.id
  let nextCursor :=
    if limit < rows.length then
      fetched.getLast?.map fun last => encodeCursor ⟨dates.timestampText last.createdAt, last.id⟩
    else none
  pure ⟨items.map fun w => ⟨w, workspaceView dates db auth w⟩, nextCursor⟩

-- ================================================================= the log

structure AuditLayer where
  id : String
  slug : String

/-- The filters of a read of the log, in the texts they are bound as. -/
structure AuditQuery where
  fromTime : Option String := none
  toTime : Option String := none
  actorId : Option String := none
  action : Option String := none
  result : Option AuditResult := none
  layer : Option AuditLayer := none
  documentId : Option String := none
  client : Option String := none
  surface : Option String := none
  administrativeOnly : Bool := false

/-- The actions a platform administrator is never shown. -/
def DOCUMENT_ACCESS_ACTIONS : List String := ["get_document", "search"]

/-- `target->field`. -/
def targetField (target : Json) (field : String) : Option Json :=
  match target with
  | .object fields => fields.lookup (Json.units field)
  | _ => none

/-- `target->>field = text`; the text of a list or of an object is none that
is asked for. -/
def fieldIs (target : Json) (field text : String) : Bool :=
  match targetField target field with
  | some (.string units) => units == Json.units text
  | some (.number n) => n.text == Json.units text
  | some (.bool b) => toString b == text
  | _ => false

/-- `target->field ? text`: an element, a key, or the string itself. -/
def fieldHas (target : Json) (field text : String) : Bool :=
  match targetField target field with
  | some (.array items) => items.contains (.string (Json.units text))
  | some (.object fields) => (fields.lookup (Json.units text)).isSome
  | some (.string units) => units == Json.units text
  | _ => false

/-- What every read of the log shares beyond time, actor, action and result. -/
def AuditQuery.narrowing (query : AuditQuery) (e : AuditRow) : Bool :=
  query.layer.all (fun layer => fieldIs e.target "layer_id" layer.id
      || fieldIs e.target "layer" layer.slug || fieldHas e.target "layers" layer.slug)
    && query.documentId.all (fun id => fieldIs e.target "document_id" id
      || fieldHas e.target "returned_docs" id)
    && query.client.all (fun client => e.client == some client)
    && query.surface.all (fun surface => e.surface == surface)
    && (!query.administrativeOnly || !DOCUMENT_ACCESS_ACTIONS.contains e.action)

/-- The predicate of the statement; an error of a cast is none. -/
def AuditQuery.predicate (dates : Dates) (query : AuditQuery) : Option (AuditRow → Bool) := do
  let fromTime ← query.fromTime.mapM dates.timestamp
  let toTime ← query.toTime.mapM dates.timestamp
  let actorId ← query.actorId.mapM Uuid.castUuid
  pure fun e =>
    fromTime.all (fun t => t ≤ e.occurredAt) && toTime.all (fun t => e.occurredAt < t)
      && actorId.all (fun id => e.actorId == some id)
      && query.action.all (fun action => e.action == action)
      && query.result.all (fun result => e.result == result)
      && query.narrowing e

def auditRecord (dates : Dates) (e : AuditRow) : AuditRecord where
  id := e.id.repr
  occurredAt := dates.iso e.occurredAt
  actorType := e.actorType
  actorId := e.actorId
  actorLabel := e.actorLabel
  action := e.action
  surface := e.surface
  client := e.client
  target := e.target
  result := e.result
  detail := e.detail
  requestId := e.requestId

def PostgresAuditReader.read (dates : Dates) (db : ListingDb) (query : AuditQuery) (limit : Nat)
    (after : Option Position) : Option (PageResult (Listed AuditRow AuditRecord)) := do
  let predicate ← query.predicate dates
  let bound ← sequenceSeek.bound dates after
  let rows := (Keyset.seek AuditRow.key bound (db.events.filter predicate)).take (limit + 1)
  let items := (rows.take limit).map fun e => (⟨e, auditRecord dates e⟩ : Listed _ _)
  let nextCursor :=
    if limit < rows.length then
      items.getLast?.map fun last =>
        encodeCursor ⟨dates.timestampText last.row.occurredAt, last.view.id⟩
    else none
  pure ⟨items, nextCursor⟩

-- ================================================================ the cuts

section Cuts

variable {ρ ν κ : Type} [LinearOrder κ] {key : ρ → κ} {rows : List ρ} {limit : Nat}
  (seek : Seek κ) (dates : Dates) (after : Option κ)

/-- `LIMIT` rows, and the last of a full page. -/
theorem pageOf_cut (hkey : (rows.map key).Nodup) (hlimit : 0 < limit) (f : ρ → ν)
    (positionOf : ν → Position) (hposition : ∀ r, positionOf (f r) = seek.position dates (key r)) :
    ∃ next, pageOf (((Keyset.seek key after rows).take limit).map f) limit positionOf
        = ⟨((Keyset.seek key after rows).take limit).map f, next.map (seek.encode dates)⟩
      ∧ Page key (· ∈ rows.map key) (· ∈ rows) after ((Keyset.seek key after rows).take limit)
          next := by
  have hcut : Page key (· ∈ rows.map key) (fun r => r ∈ rows ∧ true = true) after
      (((Keyset.seek key after rows).take limit).filter fun _ => true)
      (if decide (limit ≤ (Keyset.seek key after rows).length) then
        lastKey key ((Keyset.seek key after rows).take limit) else none) :=
    page_cut hkey hlimit _ _ of_decide_eq_true fun h => le_of_not_ge (of_decide_eq_false h)
  rw [List.filter_true] at hcut
  refine ⟨_, ?_, hcut.congr (fun _ h => h) fun r => and_iff_left rfl⟩
  unfold pageOf
  rw [List.length_map, List.length_take]
  by_cases hfull : limit ≤ (Keyset.seek key after rows).length
  · rw [if_neg (by omega), if_pos (decide_eq_true hfull), List.getLast?_map, lastKey,
      Option.map_map, Option.map_map]
    congr 2
    funext r
    exact congrArg encodeCursor (hposition r)
  · rw [if_pos (by omega), if_neg (by simpa using hfull)]
    rfl

/-- One row more than `limit`, and a filter after the cut. -/
theorem overfetch_cut (hkey : (rows.map key).Nodup) (hlimit : 0 < limit) (shown : ρ → Bool) :
    ∃ next, (if limit < ((Keyset.seek key after rows).take (limit + 1)).length then
          (((Keyset.seek key after rows).take (limit + 1)).take limit).getLast?.map fun last =>
            seek.encode dates (key last)
        else none) = next.map (seek.encode dates)
      ∧ Page key (· ∈ rows.map key) (fun r => r ∈ rows ∧ shown r = true) after
          ((((Keyset.seek key after rows).take (limit + 1)).take limit).filter shown) next := by
  have hcut : Page key (· ∈ rows.map key) (fun r => r ∈ rows ∧ shown r = true) after
      (((Keyset.seek key after rows).take limit).filter shown)
      (if decide (limit < (Keyset.seek key after rows).length) then
        lastKey key ((Keyset.seek key after rows).take limit) else none) :=
    page_cut hkey hlimit _ _ (fun h => le_of_lt (of_decide_eq_true h))
      fun h => le_of_not_gt (of_decide_eq_false h)
  have htake : ((Keyset.seek key after rows).take (limit + 1)).take limit
      = (Keyset.seek key after rows).take limit := by
    rw [List.take_take, min_eq_left (Nat.le_succ limit)]
  rw [htake]
  refine ⟨_, ?_, hcut⟩
  rw [List.length_take]
  by_cases hmore : limit < (Keyset.seek key after rows).length
  · rw [if_pos (by omega), if_pos (decide_eq_true hmore), lastKey, Option.map_map]
    rfl
  · rw [if_neg (by omega), if_neg (by simpa using hmore)]
    rfl

/-- The rows of the page are told from the one fetched after them by id. -/
theorem filter_fetched {α : Type} [DecidableEq α] {id : ρ → α} {fetched : List ρ}
    (hid : (fetched.map id).Nodup) (shown : ρ → Bool) (n : Nat) :
    ((fetched.filter shown).filter fun r => (fetched.take n).any fun f => id f == id r)
      = (fetched.take n).filter shown := by
  rw [List.filter_filter]
  generalize hpage : fetched.take n = page
  have hsplit : fetched = page ++ fetched.drop n := by
    rw [← hpage, List.take_append_drop]
  rw [hsplit, List.map_append, List.nodup_append] at hid
  rw [hsplit, List.filter_append]
  have hin : (page.filter fun r => (page.any fun f => id f == id r) && shown r)
      = page.filter shown := by
    refine List.filter_congr fun r hr => ?_
    have hself : (page.any fun f => id f == id r) = true :=
      List.any_eq_true.2 ⟨r, hr, beq_self_eq_true _⟩
    rw [hself, Bool.true_and]
  have hout : ((fetched.drop n).filter fun r => (page.any fun f => id f == id r) && shown r)
      = [] := by
    refine List.filter_eq_nil_iff.2 fun r hr htrue => ?_
    obtain ⟨f, hf, heq⟩ := List.any_eq_true.1 (Bool.and_eq_true_iff.1 htrue).1
    exact hid.2.2 _ (List.mem_map_of_mem hf) _ (List.mem_map_of_mem hr) (beq_iff_eq.1 heq)
  rw [hin, hout, List.append_nil]

end Cuts

-- ========================================================= what is visible

/-- A live layer the caller reads, by the reference on the whole scope tree,
and inside the narrowing. -/
def LayerVisible (db : ListingDb) (auth : AuthContext) (l : LayerEntry) : Prop :=
  l ∈ db.layers ∧ l.deleted = false
    ∧ referenceAllows (fullContext db.org auth) ⟨.layer, l.id⟩ .read = true
    ∧ withinDelegation auth l.id .read = true

/-- A live workspace with a layer the caller sees, or one that is granted
itself where nothing is narrowed. -/
def WorkspaceVisible (db : ListingDb) (auth : AuthContext) (w : WorkspaceRow) : Prop :=
  w ∈ db.workspaces ∧ w.deleted = false
    ∧ ((∃ l, LayerVisible db auth l ∧ l.workspaceId = w.id)
      ∨ delegatedLayers auth .read = none
        ∧ referenceAllows (fullContext db.org auth) ⟨.workspace, w.id⟩ .read = true)

/-- A layer item: the row, and the view of it in the same state. -/
def LayerShown (dates : Dates) (auth : AuthContext) (db : ListingDb)
    (item : Listed LayerEntry LayerView) : Prop :=
  LayerVisible db auth item.row ∧ item.view
    = layerView dates db auth (resolve (contextFor db.org auth) .read).deniedDocs item.row

def WorkspaceShown (dates : Dates) (auth : AuthContext) (db : ListingDb)
    (item : Listed WorkspaceRow WorkspaceView) : Prop :=
  WorkspaceVisible db auth item.row ∧ item.view = workspaceView dates db auth item.row

def UserShown (dates : Dates) (db : ListingDb) (item : Listed UserRow UserView) : Prop :=
  item.row ∈ db.users ∧ item.view = userView dates item.row

def EventShown (dates : Dates) (predicate : AuditRow → Bool) (db : ListingDb)
    (item : Listed AuditRow AuditRecord) : Prop :=
  (item.row ∈ db.events ∧ predicate item.row = true) ∧ item.view = auditRecord dates item.row

/-- A page of rows is a page of items: each its row, and the view of it. -/
theorem page_listed {ρ ν κ : Type} [LinearOrder κ] {key : ρ → κ} {present : κ → Prop}
    {shown : ρ → Prop} {after next : Option κ} {rows : List ρ}
    (h : Page key present shown after rows next) (view : ρ → ν) :
    Page (fun item : Listed ρ ν => key item.row) present
      (fun item => shown item.row ∧ item.view = view item.row) after
      (rows.map fun r => (⟨r, view r⟩ : Listed ρ ν)) next := by
  refine (h.map (fun item : Listed ρ ν => key item.row) (fun r => ⟨r, view r⟩) fun _ => rfl).congr
    (fun _ hk => hk) fun item => ?_
  constructor
  · intro hitem
    obtain ⟨r, hr, rfl⟩ := hitem
    exact ⟨hr, rfl⟩
  · intro hitem
    refine ⟨item.row, hitem.1, ?_⟩
    rw [← hitem.2]

/-- A table with a primary key is a table whose keys are distinct. -/
theorem nodup_key {ρ α κ : Type} {rows : List ρ} {id : ρ → α} {key : ρ → κ}
    (hid : (rows.map id).Nodup) (hkey : ∀ r r', key r = key r' → id r = id r') :
    (rows.map key).Nodup := by
  rw [List.Nodup, List.pairwise_map] at hid ⊢
  exact hid.imp fun hne heq => hne (hkey _ _ heq)

-- ================================================================ the casts

theorem castUuids_own {ids : List String} (h : ∀ id ∈ ids, Uuid.castUuid id = some id) :
    castUuids ids = some ids := by
  unfold castUuids
  induction ids with
  | nil => rfl
  | cons id ids ih =>
      rw [List.mapM_cons, h id List.mem_cons_self, ih fun x hx => h x (List.mem_cons_of_mem _ hx)]
      rfl

variable {db : ListingDb} {auth : AuthContext} {caller : Caller} {dates : Dates} {limit : Nat}

/-- The parts of a plan that names its layers. -/
theorem resolve_scoped {input : ResolveInput} {p : Permission} {layers extra denied : List String}
    (h : resolve input p = .scoped layers extra denied) :
    layers = Js.sortStrings (planLayers input.tree (applicable input p))
      ∧ denied = Js.sortStrings (idsOf (applicable input p) .deny .document) := by
  unfold resolve at h
  split at h
  · cases h
  · split at h
    · cases h
    · cases h
    · dsimp only at h
      split at h
      · cases h
      · cases h
        exact ⟨rfl, rfl⟩

/-- A layer the plan names is granted by name, or lies in a workspace. -/
theorem planned_uuid {layers extra denied : List String} {id : String}
    (h : resolve (contextFor db.org auth) .read = .scoped layers extra denied) (hid : id ∈ layers) :
    Uuid.castUuid id = some id := by
  have hagree : (contextFor db.org auth).tree.Agrees := loadScopeTree_agrees db.org _
  rw [(resolve_scoped h).1, Js.mem_sortStrings, mem_planLayers hagree] at hid
  obtain ⟨⟨g, hg, hcovers⟩, -⟩ := hid
  rcases grantCovers_layer.1 hcovers with hscope | ⟨w, hw, -⟩
  · have huuid := db.org.grants_uuid g (mem_grants_of_applicable hg.1).2
    rwa [hscope] at huuid
  · obtain ⟨row, hrow, -, -, rfl⟩ := mem_loadScopeTree_layersOf.1 ((hagree id w).2 hw)
    rw [← db.layers_org] at hrow
    obtain ⟨l, hl, rfl⟩ := List.mem_map.1 hrow
    exact db.layers_uuid l hl

theorem denied_uuid {id : String}
    (hid : id ∈ (resolve (contextFor db.org auth) .read).deniedDocs) :
    Uuid.castUuid id = some id := by
  unfold AccessPlan.deniedDocs at hid
  split at hid
  next h =>
    rw [(resolve_scoped h).2, Js.mem_sortStrings, mem_idsOf] at hid
    obtain ⟨g, hg, hscope⟩ := hid
    have huuid := db.org.grants_uuid g (mem_grants_of_applicable hg.1).2
    rwa [hscope] at huuid
  next => cases hid

theorem delegated_uuid {narrowing : List String} {p : Permission} {id : String}
    (h : delegatedLayers caller.toAuthContext p = some narrowing) (hid : id ∈ narrowing) :
    Uuid.castUuid id = some id := by
  unfold delegatedLayers at h
  split at h
  · cases h
  next d hd =>
    obtain ⟨layers, hlayers, rfl⟩ := Option.map_eq_some_iff.1 h
    obtain ⟨l, hl, rfl⟩ := List.mem_map.1 hid
    exact caller.narrowed_uuid d hd layers hlayers l (List.mem_filter.1 hl).1

/-- No layer a listing is cut to fails the cast. -/
theorem listedIds_cast :
    (listedIds caller.toAuthContext (resolve (contextFor db.org caller.toAuthContext) .read)).mapM
        castUuids
      = some (listedIds caller.toAuthContext
          (resolve (contextFor db.org caller.toAuthContext) .read)) := by
  have hown : ∀ ids, (∀ id ∈ ids, Uuid.castUuid id = some id) →
      (some ids).mapM castUuids = some (some ids) := by
    intro ids h
    show (castUuids ids).map some = _
    rw [castUuids_own h]
    rfl
  unfold listedIds
  split
  next h => exact hown _ fun id hid => planned_uuid h hid
  next => rfl
  next h => exact hown _ fun id hid => planned_uuid h (List.mem_filter.1 hid).1
  next h _ => exact hown _ fun id hid => delegated_uuid h hid

/-- What the cut admits is what the plan reaches inside the narrowing. -/
theorem listedIds_admits {plan : AccessPlan} (hplan : plan ≠ .none) (id : String) :
    (listedIds auth plan).all (·.contains id)
      = (plan.reachesLayer id && withinDelegation auth id .read) := by
  unfold listedIds withinDelegation
  cases hd : delegatedLayers auth .read with
  | none =>
      rcases plan with _ | _ | ⟨layers, extra, denied⟩
      · exact absurd rfl hplan
      · rfl
      · dsimp only [AccessPlan.reachesLayer]
        rw [Option.all_some, Bool.and_true]
  | some narrowing =>
      rcases plan with _ | _ | ⟨layers, extra, denied⟩
      · exact absurd rfl hplan
      · dsimp only [AccessPlan.reachesLayer]
        rw [Option.all_some, Bool.true_and]
      · dsimp only [AccessPlan.reachesLayer]
        rw [Option.all_some, Bool.eq_iff_iff]
        simp only [List.contains_iff_mem, List.mem_filter, Bool.and_eq_true]

/-- The plan of a request reaches the layers the reference allows. -/
theorem reachesLayer_iff {p : Permission} {id : String} :
    (resolve (contextFor db.org auth) p).reachesLayer id = true
      ↔ referenceAllows (fullContext db.org auth) ⟨.layer, id⟩ p = true := by
  have hagree : (contextFor db.org auth).tree.Agrees := loadScopeTree_agrees db.org _
  have href : referenceAllows (fullContext db.org auth) ⟨.layer, id⟩ p
      = referenceAllows (contextFor db.org auth) ⟨.layer, id⟩ p := rfl
  rw [href, referenceAllows_iff]
  exact resolve_reachesLayer_iff_permitted hagree

-- ============================================================= one request

theorem layers_key (db : ListingDb) : (db.layers.map LayerEntry.key).Nodup := by
  have hid : (db.layers.map fun l => l.id).Nodup := by
    have hrows := db.org.layers_key
    rw [← db.layers_org, List.map_map] at hrows
    exact hrows
  exact nodup_key hid fun l l' h => congrArg (fun k => (ofLex k).2) h

theorem readable_of_mem {ρ : Type} {rows : List ρ} {key : ρ → Time ×ₗ String}
    (hdates : dates.Lawful)
    (huuid : ∀ r ∈ rows, Uuid.castUuid (ofLex (key r)).2 = some (ofLex (key r)).2)
    {k : Time ×ₗ String} (h : k ∈ rows.map key) : uuidSeek.Readable dates k := by
  obtain ⟨r, hr, rfl⟩ := List.mem_map.1 h
  exact uuidSeek_readable hdates (huuid r hr)

theorem layers_answer (hdates : dates.Lawful) (hlimit : 0 < limit) :
    Answers (fun item : Listed LayerEntry LayerView => item.row.key)
      (fun db k => k ∈ db.layers.map LayerEntry.key) (LayerShown dates caller.toAuthContext)
      (uuidSeek.encode dates) (uuidSeek.Readable dates)
      (fun db => uuidSeek.request dates
        (PostgresLayers.list dates db caller.toAuthContext limit)) db := by
  intro after hafter
  dsimp only
  rw [Seek.request_encode hafter]
  unfold PostgresLayers.list
  dsimp only
  generalize hplan : resolve (contextFor db.org caller.toAuthContext) .read = plan
  have hread : ∀ {l : LayerEntry}, LayerVisible db caller.toAuthContext l ↔ l ∈ db.layers
      ∧ l.deleted = false ∧ plan.reachesLayer l.id = true
      ∧ withinDelegation caller.toAuthContext l.id .read = true := by
    intro l
    unfold LayerVisible
    rw [← reachesLayer_iff, hplan]
  by_cases hnone : plan = .none
  · refine ⟨[], none, by rw [if_pos hnone]; rfl, Page.empty fun item hitem => ?_, nofun⟩
    have hreach := (hread.1 hitem.1).2.2.1
    rw [hnone] at hreach
    cases hreach
  have hcut : ∀ l : LayerEntry,
      (!l.deleted && (listedIds caller.toAuthContext plan).all (·.contains l.id)) = true
        ↔ l.deleted = false ∧ plan.reachesLayer l.id = true
          ∧ withinDelegation caller.toAuthContext l.id .read = true := by
    intro l
    rw [listedIds_admits hnone, Bool.and_eq_true, Bool.and_eq_true, Bool.not_eq_true']
  rw [if_neg hnone]
  by_cases hempty : listedIds caller.toAuthContext plan = some []
  · refine ⟨[], none, by rw [if_pos hempty]; rfl, Page.empty fun item hitem => ?_, nofun⟩
    have hin := (hcut item.row).2 (hread.1 hitem.1).2
    rw [hempty] at hin
    simp at hin
  rw [if_neg hempty, Seek.bound_position hafter, ← hplan, listedIds_cast,
    castUuids_own fun id hid => denied_uuid hid, hplan]
  have hsub := (db.layers.filter_sublist (p := fun l =>
    !l.deleted && (listedIds caller.toAuthContext plan).all (·.contains l.id))).map LayerEntry.key
  obtain ⟨next, hpage, hcutpage⟩ := pageOf_cut uuidSeek dates after
    ((layers_key db).sublist hsub) hlimit
    (fun l => (⟨l, layerView dates db caller.toAuthContext plan.deniedDocs l⟩ : Listed _ _))
    (fun l => ⟨dates.timestampText l.row.createdAt, l.view.id⟩) (fun _ => rfl)
  refine ⟨_, next, ?_, (page_listed hcutpage
      (layerView dates db caller.toAuthContext plan.deniedDocs)).congr
    (fun k hk => hsub.subset hk) fun item => ?_, fun n hn => ?_⟩
  · show (some (pageOf _ limit _)).map _ = _
    rw [hpage]
    rfl
  · rw [List.mem_filter, hcut, LayerShown, hread, hplan]
  · exact readable_of_mem hdates db.layers_uuid (hsub.subset (hcutpage.onward n hn).2)

theorem users_answer (hdates : dates.Lawful) (hlimit : 0 < limit) :
    Answers (fun item : Listed UserRow UserView => item.row.key)
      (fun db k => k ∈ db.users.map UserRow.key) (UserShown dates) (uuidSeek.encode dates)
      (uuidSeek.Readable dates)
      (fun db => uuidSeek.request dates (PostgresUsers.list dates db limit)) db := by
  intro after hafter
  dsimp only
  rw [Seek.request_encode hafter]
  unfold PostgresUsers.list
  rw [Seek.bound_position hafter]
  have hkey : (db.users.map UserRow.key).Nodup :=
    nodup_key db.users_key fun u u' h => congrArg (fun k => (ofLex k).2) h
  obtain ⟨next, hpage, hcut⟩ := pageOf_cut uuidSeek dates after hkey hlimit
    (fun u => (⟨u, userView dates u⟩ : Listed _ _))
    (fun u => ⟨dates.timestampText u.row.createdAt, u.view.id⟩) (fun _ => rfl)
  refine ⟨_, next, ?_, page_listed hcut (userView dates), fun n hn => ?_⟩
  · show (some (pageOf _ limit _)).map _ = _
    rw [hpage]
    rfl
  · exact readable_of_mem hdates db.users_uuid (hcut.onward n hn).2

/-- A workspace is reached iff it is one the caller sees. -/
theorem reachable_iff {w : WorkspaceRow} :
    reachable db auth w = true ↔ (∃ l, LayerVisible db auth l ∧ l.workspaceId = w.id)
      ∨ delegatedLayers auth .read = none
        ∧ referenceAllows (fullContext db.org auth) ⟨.workspace, w.id⟩ .read = true := by
  have hlayer : (∃ l, LayerVisible db auth l ∧ l.workspaceId = w.id)
      ↔ ∃ id ∈ workspaceLayerIds db w,
        (resolve (contextFor db.org auth) .read).reachesLayer id = true
          ∧ withinDelegation auth id .read = true := by
    simp only [workspaceLayerIds, LayerVisible, List.mem_map, List.mem_filter, Bool.and_eq_true,
      beq_iff_eq, Bool.not_eq_true', reachesLayer_iff]
    constructor
    · intro h
      obtain ⟨l, ⟨hl, hlive, href, hin⟩, hw⟩ := h
      exact ⟨l.id, ⟨l, ⟨hl, hw, hlive⟩, rfl⟩, href, hin⟩
    · intro h
      obtain ⟨id, ⟨l, ⟨hl, hw, hlive⟩, rfl⟩, href, hin⟩ := h
      exact ⟨l, ⟨hl, hlive, href, hin⟩, hw⟩
  rw [hlayer]
  unfold reachable visibleLayers withinDelegation
  cases hd : delegatedLayers auth .read with
  | some narrowing =>
      simp only [Option.isSome_some, if_true, Option.all_some, List.any_filter, List.any_eq_true,
        Bool.and_eq_true, reduceCtorEq, false_and, or_false]
      exact exists_congr fun id => and_congr_right fun _ => and_comm
  | none =>
      have hws : referenceAllows (fullContext db.org auth) ⟨.workspace, w.id⟩ .read
          = referenceAllows (contextFor db.org auth) ⟨.workspace, w.id⟩ .read := rfl
      simp only [Option.isSome_none, Bool.false_eq_true, if_false, and_true, true_and, hws]
      by_cases hall : resolve (contextFor db.org auth) .read = .all
      · -- a plan of everything is a role that is allowed everything
        have hplan : referenceAllows (contextFor db.org auth) ⟨.workspace, w.id⟩ .read = true := by
          unfold resolve at hall
          unfold referenceAllows
          split at hall
          · cases hall
          · rename_i hceiling
            rw [if_neg hceiling]
            split at hall
            · cases hall
            · rfl
            · dsimp only at hall
              split at hall
              · cases hall
              · cases hall
        simp [hall, hplan]
      · rw [if_neg hall]
        simp only [Bool.if_true_left, Bool.or_eq_true, decide_eq_true_eq, List.any_eq_true]

theorem workspaces_answer (hdates : dates.Lawful) (hlimit : 0 < limit) :
    Answers (fun item : Listed WorkspaceRow WorkspaceView => item.row.key)
      (fun db k => k ∈ db.workspaces.map WorkspaceRow.key) (WorkspaceShown dates auth)
      (uuidSeek.encode dates) (uuidSeek.Readable dates)
      (fun db => uuidSeek.request dates (PostgresWorkspaces.list dates db auth limit)) db := by
  intro after hafter
  dsimp only
  rw [Seek.request_encode hafter]
  unfold PostgresWorkspaces.list
  rw [Seek.bound_position hafter]
  have hlive : (db.workspaces.filter fun w => !w.deleted).Sublist db.workspaces :=
    List.filter_sublist
  have hids : ((db.workspaces.filter fun w => !w.deleted).map WorkspaceRow.id).Nodup :=
    db.workspaces_key.sublist (hlive.map _)
  have hkey : ((db.workspaces.filter fun w => !w.deleted).map WorkspaceRow.key).Nodup :=
    nodup_key hids fun w w' h => congrArg (fun k => (ofLex k).2) h
  obtain ⟨next, hnext, hcut⟩ := overfetch_cut uuidSeek dates after hkey hlimit
    (reachable db auth)
  have hfetched : (((Keyset.seek WorkspaceRow.key after
      (db.workspaces.filter fun w => !w.deleted)).take (limit + 1)).map WorkspaceRow.id).Nodup :=
    (Keyset.nodup_map_seek hids).sublist ((List.take_sublist _ _).map _)
  refine ⟨_, next, ?_, (page_listed hcut (workspaceView dates db auth)).congr
    (fun k hk => (hlive.map _).subset hk) fun item => ?_, fun n hn => ?_⟩
  · rw [← filter_fetched hfetched, ← hnext]
    rfl
  · simp only [WorkspaceShown, WorkspaceVisible, List.mem_filter, Bool.not_eq_true', reachable_iff,
      and_assoc]
  · exact readable_of_mem hdates db.workspaces_uuid ((hlive.map _).subset (hcut.onward n hn).2)

theorem events_answer (hdates : dates.Lawful) (hlimit : 0 < limit) {query : AuditQuery}
    {predicate : AuditRow → Bool} (hquery : query.predicate dates = some predicate) :
    Answers (fun item : Listed AuditRow AuditRecord => item.row.key)
      (fun db k => k ∈ db.events.map AuditRow.key) (EventShown dates predicate)
      (sequenceSeek.encode dates) (sequenceSeek.Readable dates)
      (fun db => sequenceSeek.request dates (PostgresAuditReader.read dates db query limit)) db := by
  intro after hafter
  dsimp only
  rw [Seek.request_encode hafter]
  unfold PostgresAuditReader.read
  rw [hquery, Seek.bound_position hafter]
  have hsub : (db.events.filter predicate).Sublist db.events := List.filter_sublist
  have hkey : ((db.events.filter predicate).map AuditRow.key).Nodup :=
    nodup_key (db.events_key.sublist (hsub.map _)) fun e e' h =>
      congrArg (fun k => (ofLex (OrderDual.ofDual k)).2) h
  obtain ⟨next, hnext, hcut⟩ := overfetch_cut sequenceSeek dates after hkey hlimit fun _ => true
  rw [List.filter_true] at hcut
  refine ⟨_, next, ?_, (page_listed hcut (auditRecord dates)).congr
    (fun k hk => (hsub.map _).subset hk) fun item => ?_, fun n hn => ?_⟩
  · rw [← hnext]
    simp only [Option.bind_eq_bind, Option.bind_some, Option.pure_def, Option.map_some,
      List.getLast?_map, Option.map_map]
    rfl
  · simp only [EventShown, List.mem_filter, and_true]
  · obtain ⟨e, he, rfl⟩ := List.mem_map.1 ((hsub.map _).subset (hcut.onward n hn).2)
    exact sequenceSeek_readable hdates (db.events_bigint e he)

-- ================================================================ the walk

/-- A row keeps its `created_at`: no statement writes it after the insert, and
no id is given twice. -/
def CreatedOnce {ρ α : Type} (rows : ListingDb → List ρ) (id : ρ → α) (createdAt : ρ → Time)
    (dbs : List ListingDb) : Prop :=
  ∀ db ∈ dbs, ∀ db' ∈ dbs, ∀ r ∈ rows db, ∀ r' ∈ rows db', id r = id r' →
    createdAt r = createdAt r'

/-- The states the requests of a walk read, one for each. -/
structure History where
  dbs : List ListingDb
  layers_created : CreatedOnce ListingDb.layers (fun l => l.id) LayerEntry.createdAt dbs
  workspaces_created : CreatedOnce ListingDb.workspaces WorkspaceRow.id WorkspaceRow.createdAt dbs
  users_created : CreatedOnce ListingDb.users UserRow.id UserRow.createdAt dbs
  events_created : CreatedOnce ListingDb.events AuditRow.id AuditRow.occurredAt dbs

/-- What following `next_cursor` returns, from the first page on: no request is
refused; the rows come in the order of their keys and none twice; a row that
was seen at every request is among them once the walk has ended; it goes on
only while it finds rows; and a request with no row after its cursor gets an
empty page and no cursor. -/
structure Followed {ι κ α : Type} [LinearOrder κ] (seek : Seek κ) (dates : Dates) (key : ι → κ)
    (id : ι → α) (present : ListingDb → κ → Prop) (shown : ListingDb → ι → Prop)
    (fetch : ListingDb → Option String → Option (List ι × Option String)) (dbs : List ListingDb) :
    Prop where
  walked : ∃ items ended, walk fetch none dbs = some (items, ended)
    ∧ Walked key present shown none dbs items ended ∧ (items.map id).Nodup
  ends : ∀ db ∈ dbs, ∀ after : Option κ, (∀ a ∈ after, seek.Readable dates a) →
    (∀ k, present db k → ¬ Past after k) →
    fetch db (after.map (seek.encode dates)) = some ([], none)

theorem followed {ι κ α : Type} [LinearOrder κ] {seek : Seek κ} {key : ι → κ} {id : ι → α}
    {present : ListingDb → κ → Prop} {shown : ListingDb → ι → Prop}
    {fetch : ListingDb → Option String → Option (List ι × Option String)} {dbs : List ListingDb}
    (hpage : ∀ db, Answers key present shown (seek.encode dates) (seek.Readable dates) fetch db)
    (hpresent : ∀ db item, shown db item → present db (key item))
    (hid : ∀ db ∈ dbs, ∀ db' ∈ dbs, ∀ i i', shown db i → shown db' i' → id i = id i' →
      key i = key i') :
    Followed seek dates key id present shown fetch dbs := by
  constructor
  · have hnone : ∀ a ∈ (none : Option κ), seek.Readable dates a := nofun
    obtain ⟨items, ended, hwalk, hwalked⟩ := walk_spec (fun db _ => hpage db) hnone
    exact ⟨items, ended, hwalk, hwalked, hwalked.nodup hid⟩
  · intro db _ after hafter hrest
    obtain ⟨items, next, hfetch, hpage, -⟩ := hpage db after hafter
    obtain ⟨hitems, hnext⟩ := hpage.exhausted (hpresent db) hrest
    rw [hfetch, hitems, hnext]
    rfl

/-- Every collection that is listed by keyset cursor. -/
structure ListingsFollowed (dates : Dates) (auth : AuthContext) (query : AuditQuery)
    (predicate : AuditRow → Bool) (limit : Nat) (dbs : List ListingDb) : Prop where
  layers : Followed uuidSeek dates (fun item => item.row.key) (fun item => item.row.id)
    (fun db k => k ∈ db.layers.map LayerEntry.key) (LayerShown dates auth)
    (fun db => uuidSeek.request dates (PostgresLayers.list dates db auth limit)) dbs
  users : Followed uuidSeek dates (fun item => item.row.key) (fun item => item.row.id)
    (fun db k => k ∈ db.users.map UserRow.key) (UserShown dates)
    (fun db => uuidSeek.request dates (PostgresUsers.list dates db limit)) dbs
  workspaces : Followed uuidSeek dates (fun item => item.row.key) (fun item => item.row.id)
    (fun db k => k ∈ db.workspaces.map WorkspaceRow.key) (WorkspaceShown dates auth)
    (fun db => uuidSeek.request dates (PostgresWorkspaces.list dates db auth limit)) dbs
  events : Followed sequenceSeek dates (fun item => item.row.key) (fun item => item.row.id)
    (fun db k => k ∈ db.events.map AuditRow.key) (EventShown dates predicate)
    (fun db => sequenceSeek.request dates (PostgresAuditReader.read dates db query limit)) dbs

/-- Microseconds of one second, as Postgres writes them. -/
def sampleDates : Dates where
  timestampText t := "2026-01-01 00:00:00." ++ t.repr ++ "+00"
  timestamp text := some (Nat.ofDigitChars 10 ((text.toList.drop 20).takeWhile Char.isDigit) 0)
  parses _ := true
  iso t := "2026-01-01T00:00:00." ++ (t / 1000).repr ++ "Z"
  lossy _ := ""

theorem sampleDates_lawful : sampleDates.Lawful := by
  refine ⟨fun t => ?_, fun _ => rfl⟩
  have htext : (("2026-01-01 00:00:00." ++ Nat.repr t ++ "+00").toList.drop 20).takeWhile
      Char.isDigit = Nat.toDigits 10 t := by
    rw [String.toList_append, String.toList_append, Nat.toList_repr, List.append_assoc]
    show ((Nat.toDigits 10 t ++ "+00".toList)).takeWhile Char.isDigit = _
    rw [List.takeWhile_append_of_pos fun c hc =>
      Nat.isDigit_of_mem_toDigits (by decide) (by decide) hc]
    exact List.append_nil _
  show some (Nat.ofDigitChars 10 ((("2026-01-01 00:00:00." ++ Nat.repr t ++ "+00").toList.drop
    20).takeWhile Char.isDigit) 0) = some t
  rw [htext, Nat.ofDigitChars_ten_toDigits]

/-- A layer, a workspace, a user, and two events of one microsecond. -/
def sampleListing : ListingDb where
  org := deniedDb
  layers := [⟨⟨deniedDocument.layerId, "w1", "hr", "v_m_2", ⟨"p1", "http://e", "m", 2⟩, false⟩,
    "HR", none, 100001⟩]
  workspaces := [⟨"33333333-3333-3333-3333-333333333333", "people", "People", 100000, false⟩]
  users := [⟨"44444444-4444-4444-4444-444444444444", "bob@example.com", .member, 100000, none,
    true, false, none⟩]
  events := [⟨7, 200000, "user", none, "bob", "search", "api", none, .object [], .allow,
      .object [], none⟩,
    ⟨8, 200000, "user", none, "bob", "ingest", "api", none, .object [], .allow, .object [], none⟩]
  layers_org := rfl
  workspaces_key := by decide
  users_key := by decide
  events_key := by decide
  layers_uuid l hl := by
    rw [List.mem_singleton.1 hl]
    decide
  workspaces_uuid w hw := by
    rw [List.mem_singleton.1 hw]
    decide
  users_uuid u hu := by
    rw [List.mem_singleton.1 hu]
    decide
  events_bigint e he := by
    simp only [List.mem_cons, List.not_mem_nil, or_false] at he
    rcases he with rfl | rfl <;> decide

/-- The same, with the earlier event swept. -/
def sampleSwept : ListingDb :=
  { sampleListing with
    events := sampleListing.events.drop 1
    events_key := by decide
    events_bigint := fun e he => sampleListing.events_bigint e (List.mem_of_mem_drop he) }

theorem createdOnce_of_eq {ρ α : Type} {rows : ListingDb → List ρ} {id : ρ → α}
    {createdAt : ρ → Time} {dbs : List ListingDb} (t : Time)
    (h : ∀ db ∈ dbs, ∀ r ∈ rows db, createdAt r = t) : CreatedOnce rows id createdAt dbs := by
  intro db hdb db' hdb' r hr r' hr' _
  rw [h db hdb r hr, h db' hdb' r' hr']

def sampleHistory : History where
  dbs := [sampleListing, sampleListing, sampleSwept]
  layers_created := createdOnce_of_eq 100001 (by simp [sampleListing, sampleSwept])
  workspaces_created := createdOnce_of_eq 100000 (by simp [sampleListing, sampleSwept])
  users_created := createdOnce_of_eq 100000 (by simp [sampleListing, sampleSwept])
  events_created := createdOnce_of_eq 200000 (by simp [sampleListing, sampleSwept])

end Nacre.Api
