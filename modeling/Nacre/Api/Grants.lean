/-
The grants of an organization, listed and revoked: `PostgresGrants.list` and
`PostgresGrants.revoke` (api/src/adapters.ts).

Both ask who may administer the scope of a row, of a tree that places only
the documents the caller's own grants name. The listing asks the plan first,
and returns nothing where it is `none`; the plan has the layers a caller
administers and no workspace, so a grant on an empty workspace is one its
administrator can revoke and is not shown (`empty_workspace_hidden`). And a
document under an administered layer is not placed when no grant of the
caller's names it, so neither shows nor revokes a grant on it.

# The argument

- `listed_iff` and `revoke_iff` say what each of the two answers for a row.
- `administers_iff` compares the two trees: they part at `OffTree` rows.
- `planned` says what a plan that is `none` leaves: `Unplanned` rows.
- `grants_listed_iff` puts them together over the walk; that it ends is
  `Walked.ended_of_length`.
-/
import Nacre.Api.Listings

namespace Nacre.Api

open Nacre.Authz
open Nacre.Store (Time)
open Keyset (Past Page page_cut walk Walked Answers walk_spec)

-- ==================================================================== rows

/-- A row of `grants`. -/
structure GrantRow extends Grant where
  id : String
  createdAt : Time
  source : String := "manual"
  deriving DecidableEq

def GrantRow.key (r : GrantRow) : Time ×ₗ String := toLex (r.createdAt, r.id)

/-- What the transactions on grants read. -/
structure GrantDb where
  org : OrgDb
  rows : List GrantRow
  rows_org : rows.map GrantRow.toGrant = org.grants
  rows_key : (rows.map GrantRow.id).Nodup
  rows_uuid : ∀ r ∈ rows, Uuid.castUuid r.id = some r.id

structure GrantRecord where
  id : String
  principal : Principal
  scope : Scope
  permission : Permission
  effect : Effect
  source : String
  deriving DecidableEq

def grantRecord (r : GrantRow) : GrantRecord :=
  ⟨r.id, r.principal, r.scope, r.permission, r.effect, r.source⟩

/-- What a listing may be cut to; each is a comparison of the statement. -/
structure GrantFilter where
  principalType : Option PrincipalType := none
  principalId : Option String := none
  scopeType : Option ScopeType := none
  scopeId : Option String := none

/-- The predicate of a filter; an error of a cast is none. -/
def GrantFilter.predicate (filter : GrantFilter) : Option (GrantRow → Bool) := do
  let principalId ← filter.principalId.mapM Uuid.castUuid
  let scopeId ← filter.scopeId.mapM Uuid.castUuid
  pure fun r =>
    filter.principalType.all (fun type => r.principal.type == type)
      && principalId.all (fun id => r.principal.id == id)
      && filter.scopeType.all (fun type => r.scope.type == type)
      && scopeId.all (fun id => r.scope.id == id)

-- ============================================================== operations

/-- Whether a delegation's narrowing admits a scope, of those the layers of
the documents were read for. A `scope_id` is the text of a uuid, so the cast
of the list is the list. -/
def narrowingAdmits (db : OrgDb) (auth : AuthContext) (scopes : List Scope) (p : Permission)
    (scope : Scope) : Bool :=
  match delegatedLayers auth p with
  | none => true
  | some admitted =>
      let documentIds := (scopes.filter fun s => s.type == .document).map Scope.id
      let layerOf := (db.documents.filter fun d => documentIds.contains d.id).foldl placeDocument []
      match scope.type with
      | .layer => admitted.contains scope.id
      | .document =>
          match layerOf.lookup scope.id with
          | none => false
          | some layer => admitted.contains layer
      | .workspace => false

/-- Rows are fetched by cursor and filtered afterwards; the cursor is of the
last row fetched. -/
def PostgresGrants.list (dates : Dates) (db : GrantDb) (auth : AuthContext) (filter : GrantFilter)
    (limit : Nat) (after : Option Position) : Option (PageResult (Listed GrantRow GrantRecord)) :=
  let context := contextFor db.org auth
  if resolve context .admin = .none then some ⟨[], none⟩
  else do
    let bound ← uuidSeek.bound dates after
    let narrowed ← filter.predicate
    let rows := (Keyset.seek GrantRow.key bound (db.rows.filter fun r =>
      r.orgId == auth.orgId && narrowed r)).take limit
    let visible := rows.filter fun r =>
      referenceAllows context r.scope .admin
        && narrowingAdmits db.org auth (rows.map fun r => r.scope) .admin r.scope
    let nextCursor :=
      if limit ≤ rows.length then
        rows.getLast?.map fun last => encodeCursor ⟨dates.timestampText last.createdAt, last.id⟩
      else none
    pure ⟨visible.map fun r => ⟨r, grantRecord r⟩, nextCursor⟩

/-- Whether a row was deleted, and the rows that are left. -/
def PostgresGrants.revoke (db : GrantDb) (auth : AuthContext) (grantId : String) :
    Except String (Bool × List GrantRow) :=
  if !Uuid.hasShape grantId then .ok (false, db.rows)
  else
    match Uuid.castUuid grantId with
    | none => .error (castError grantId)
    | some id =>
        match db.rows.find? fun r => r.orgId == auth.orgId && r.id == id with
        | none => .ok (false, db.rows)
        | some row =>
            if !referenceAllows (contextFor db.org auth) row.scope .admin then .ok (false, db.rows)
            else if !narrowingAdmits db.org auth [row.scope] .admin row.scope then
              .ok (false, db.rows)
            else
              let left := db.rows.filter fun r => !(r.orgId == auth.orgId && r.id == id)
              .ok (decide (left.length < db.rows.length), left)

-- ================================================================ contract

/-- The narrowing admits a scope: a layer by name, a document through its
layer, a workspace only where there is none. -/
def Admits (db : OrgDb) (auth : AuthContext) (p : Permission) (scope : Scope) : Prop :=
  ∀ admitted ∈ delegatedLayers auth p,
    scope.type = .layer ∧ scope.id ∈ admitted
      ∨ scope.type = .document ∧ ∃ d ∈ db.documents, d.id = scope.id ∧ d.layerId ∈ admitted

/-- The caller may administer a scope, on the whole scope tree. -/
def MayAdminister (db : OrgDb) (auth : AuthContext) (scope : Scope) : Prop :=
  referenceAllows (fullContext db auth) scope .admin = true ∧ Admits db auth .admin scope

/-- The grants of the caller's organization. -/
def GrantDb.Own (db : GrantDb) (auth : AuthContext) (r : GrantRow) : Prop :=
  r ∈ db.rows ∧ r.orgId = auth.orgId

/-- Following the cursor over rows that do not change, for as many requests as
there are rows and one more, returns the grants whose scope the caller may
administer, in order and once each; and these are the ones `revoke` deletes. -/
def GrantsListed (dates : Dates) (db : GrantDb) (auth : AuthContext) (limit : Nat) : Prop :=
  ∀ n, db.rows.length < n → ∃ items : List (Listed GrantRow GrantRecord),
    walk (fun db => uuidSeek.request dates (PostgresGrants.list dates db auth {} limit)) none
        (List.replicate n db) = some (items, true)
      ∧ items.Pairwise (fun a b => a.row.key < b.row.key)
      ∧ (∀ item ∈ items, db.Own auth item.row ∧ item.view = grantRecord item.row)
      ∧ ∀ r, db.Own auth r →
          (r ∈ items.map Listed.row ↔ MayAdminister db.org auth r.scope)
            ∧ (r ∈ items.map Listed.row ↔ PostgresGrants.revoke db auth r.id
                = .ok (true, db.rows.filter fun r' => !(r'.orgId == auth.orgId && r'.id == r.id)))

/-- A grant on a live document that no grant of the caller's names, in a layer
a member administers. -/
def OffTree (db : OrgDb) (auth : AuthContext) (scope : Scope) : Prop :=
  auth.role = .member ∧ ∃ d ∈ db.documents, d.deleted = false ∧ scope = ⟨.document, d.id⟩
    ∧ d.id ∉ grantedDocuments (loadGrants db auth.orgId (db.effectivePrincipals auth.principal))
    ∧ referenceAllows (contextFor db auth) ⟨.layer, d.layerId⟩ .admin = true
    ∧ withinDelegation auth d.layerId .admin = true

/-- A grant on a workspace, or on a document that is not live, which the caller
may administer under a plan that has nothing. -/
def Unplanned (db : OrgDb) (auth : AuthContext) (scope : Scope) : Prop :=
  resolve (contextFor db auth) .admin = .none
    ∧ (scope.type = .workspace
      ∨ scope.type = .document ∧ ∀ d ∈ db.documents, d.id = scope.id → d.deleted = true)
    ∧ referenceAllows (contextFor db auth) scope .admin = true ∧ Admits db auth .admin scope

variable {db : OrgDb} {auth : AuthContext} {scope : Scope}

-- ============================================================ the narrowing

theorem narrowingAdmits_iff {scopes : List Scope} {p : Permission} (h : scope ∈ scopes) :
    narrowingAdmits db auth scopes p scope = true ↔ Admits db auth p scope := by
  unfold narrowingAdmits Admits
  cases hd : delegatedLayers auth p with
  | none => simp
  | some admitted =>
      simp only [Option.mem_some_iff, forall_eq']
      obtain ⟨type, id⟩ := scope
      cases type with
      | workspace => simp
      | layer => simp
      | document =>
          -- the documents that were read are among the rows, under the same ids
          have hnd : ((db.documents.filter fun d => ((scopes.filter fun s =>
              s.type == .document).map Scope.id).contains d.id).map DocumentRow.id).Nodup :=
            (List.filter_sublist.map _).nodup db.documents_key
          have hread : id ∈ (scopes.filter fun s => s.type == .document).map Scope.id :=
            List.mem_map.2 ⟨_, List.mem_filter.2 ⟨h, rfl⟩, rfl⟩
          have hlook := lookup_placeDocuments _ [] hnd id
          simp only [List.lookup_nil, reduceCtorEq, and_false, or_false, List.mem_filter,
            List.contains_iff_mem, and_assoc] at hlook
          simp only [reduceCtorEq, false_and, true_and, false_or]
          constructor
          · intro hin
            split at hin
            · cases hin
            next layer hlayer =>
              obtain ⟨d, hmem, -, hid, rfl⟩ := (hlook _).1 hlayer
              exact ⟨d, hmem, hid, List.contains_iff_mem.1 hin⟩
          · intro hex
            obtain ⟨d, hmem, hid, hlayer⟩ := hex
            rw [(hlook d.layerId).2 ⟨d, hmem, hid ▸ hread, hid, rfl⟩]
            exact List.contains_iff_mem.2 hlayer

-- =============================================================== the trees

/-- The two contexts of a caller differ in where documents are placed. -/
theorem referenceAllows_congr {ids ids' : List Grant → List String} {p : Permission}
    (h : ancestry scope (resolveInput db auth ids).tree
      = ancestry scope (resolveInput db auth ids').tree) :
    referenceAllows (resolveInput db auth ids) scope p
      = referenceAllows (resolveInput db auth ids') scope p := by
  unfold referenceAllows
  rw [h]
  rfl

/-- A document that is not placed is its own whole ancestry: a member reaches
it by name only. -/
theorem not_allowed_unplaced {d : String} {p : Permission} (hrole : auth.role = .member)
    (hplaced : (contextFor db auth).tree.layerOf d = none)
    (hnamed : d ∉ grantedDocuments
      (loadGrants db auth.orgId (db.effectivePrincipals auth.principal))) :
    referenceAllows (contextFor db auth) ⟨.document, d⟩ p = false := by
  rw [Bool.eq_false_iff, Ne, referenceAllows_iff]
  intro hpermitted
  obtain ⟨-, hrole' | ⟨-, ⟨g, hg, hcovers⟩, -⟩⟩ := hpermitted
  · rw [show (contextFor db auth).role = auth.role from rfl, hrole] at hrole'
    cases hrole'
  · refine hnamed (List.mem_map.2 ⟨g, List.mem_filter.2 ⟨(mem_grants_of_applicable hg.1).1, ?_⟩, ?_⟩)
    · simp only [grantCovers, ancestry, hplaced, List.mem_singleton] at hcovers
      rw [hcovers]
      rfl
    · simp only [grantCovers, ancestry, hplaced, List.mem_singleton] at hcovers
      rw [hcovers]

/-- A placed document that no grant names is decided by its layer. -/
theorem allowed_unnamed_iff {ids : List Grant → List String} {d l : String} {p : Permission}
    (hplaced : (resolveInput db auth ids).tree.layerOf d = some l)
    (hnamed : d ∉ grantedDocuments
      (loadGrants db auth.orgId (db.effectivePrincipals auth.principal))) :
    referenceAllows (resolveInput db auth ids) ⟨.document, d⟩ p
      = referenceAllows (resolveInput db auth ids) ⟨.layer, l⟩ p := by
  have hcovers : ∀ effect, (⟨.document, d⟩ : Scope)
        ∈ DenyOverrides.covered (grantCovers (resolveInput db auth ids).tree)
          (rules (resolveInput db auth ids) p effect)
      ↔ (⟨.layer, l⟩ : Scope) ∈ DenyOverrides.covered (grantCovers (resolveInput db auth ids).tree)
          (rules (resolveInput db auth ids) p effect) := by
    intro effect
    refine exists_congr fun g => and_congr_right fun hg => ?_
    rw [grantCovers_document hplaced]
    refine or_iff_right fun hscope => hnamed ?_
    refine List.mem_map.2 ⟨g, List.mem_filter.2 ⟨(mem_grants_of_applicable hg.1).1, ?_⟩, ?_⟩
    · rw [hscope]
      rfl
    · rw [hscope]
  rw [Bool.eq_iff_iff, referenceAllows_iff, referenceAllows_iff]
  simp only [permitted, DenyOverrides.granted, Set.mem_ofPred_eq, hcovers]

/-- A role other than a member's reads no grant. -/
theorem referenceAllows_role {p : Permission} (hrole : auth.role ≠ .member)
    (ids ids' : List Grant → List String) :
    referenceAllows (resolveInput db auth ids) scope p
      = referenceAllows (resolveInput db auth ids') scope p := by
  unfold referenceAllows
  rw [show (resolveInput db auth ids).role = auth.role from rfl,
    show (resolveInput db auth ids').role = auth.role from rfl]
  cases hr : auth.role with
  | platformAdmin => rfl
  | orgAdmin => rfl
  | member => exact absurd hr hrole

theorem layerOf_eq_none {ids : List String} {d : String}
    (h : d ∉ ids ∨ ∀ row ∈ db.documents, row.id = d → row.deleted = true) :
    (loadScopeTree db ids).layerOf d = none := by
  refine Option.eq_none_iff_forall_ne_some.2 fun l hl => ?_
  obtain ⟨hin, row, hrow, hlive, hid, -⟩ := loadScopeTree_layerOf.1 hl
  rcases h with hout | hdeleted
  · exact hout hin
  · rw [hdeleted row hrow hid] at hlive
    cases hlive

theorem full_layerOf {d : DocumentRow} (hd : d ∈ db.documents) (hlive : d.deleted = false) :
    (fullContext db auth).tree.layerOf d.id = some d.layerId :=
  loadScopeTree_layerOf.2 ⟨List.mem_map_of_mem hd, d, hd, hlive, rfl, rfl⟩

/-- What a member is refused on the request's tree, and not on the whole. -/
theorem OffTree.parts (h : OffTree db auth scope) :
    MayAdminister db auth scope ∧ referenceAllows (contextFor db auth) scope .admin = false := by
  obtain ⟨hrole, d, hd, hlive, rfl, hnamed, hlayer, hin⟩ := h
  refine ⟨⟨?_, ?_⟩, not_allowed_unplaced hrole (layerOf_eq_none (.inl hnamed)) hnamed⟩
  · have hfull : (fullContext db auth).tree.layerOf d.id = some d.layerId := full_layerOf hd hlive
    exact (allowed_unnamed_iff hfull hnamed).trans hlayer
  · intro admitted hadmitted
    refine .inr ⟨rfl, d, hd, rfl, ?_⟩
    unfold withinDelegation at hin
    rw [hadmitted] at hin
    exact List.contains_iff_mem.1 hin

/-- Elsewhere the two trees give one answer, inside the narrowing. -/
theorem administers_iff (hadmits : Admits db auth .admin scope) (hon : ¬ OffTree db auth scope) :
    referenceAllows (contextFor db auth) scope .admin
      = referenceAllows (fullContext db auth) scope .admin := by
  obtain ⟨type, id⟩ := scope
  cases type with
  | workspace => exact referenceAllows_congr rfl
  | layer => exact referenceAllows_congr rfl
  | document =>
      by_cases hrole : auth.role = .member
      swap
      · exact referenceAllows_role hrole _ _
      by_cases hgone : ∀ row ∈ db.documents, row.id = id → row.deleted = true
      · have hcontext : (contextFor db auth).tree.layerOf id = none := layerOf_eq_none (.inr hgone)
        have hfull : (fullContext db auth).tree.layerOf id = none := layerOf_eq_none (.inr hgone)
        refine referenceAllows_congr ?_
        show ancestry _ (contextFor db auth).tree = ancestry _ (fullContext db auth).tree
        simp only [ancestry, hcontext, hfull]
      push Not at hgone
      obtain ⟨d, hd, rfl, hlive⟩ := hgone
      have hlive : d.deleted = false := Bool.eq_false_iff.2 hlive
      have hfull : (fullContext db auth).tree.layerOf d.id = some d.layerId := full_layerOf hd hlive
      by_cases hnamed : d.id ∈ grantedDocuments
          (loadGrants db auth.orgId (db.effectivePrincipals auth.principal))
      · have hcontext : (contextFor db auth).tree.layerOf d.id = some d.layerId :=
          loadScopeTree_layerOf.2 ⟨hnamed, d, hd, hlive, rfl, rfl⟩
        refine referenceAllows_congr ?_
        show ancestry _ (contextFor db auth).tree = ancestry _ (fullContext db auth).tree
        simp only [ancestry, hcontext, hfull]
        rfl
      · rw [not_allowed_unplaced hrole (layerOf_eq_none (.inl hnamed)) hnamed, eq_comm,
          Bool.eq_false_iff]
        intro hallowed
        refine hon ⟨hrole, d, hd, hlive, rfl, hnamed, ?_, ?_⟩
        · exact (allowed_unnamed_iff hfull hnamed).symm.trans hallowed
        · unfold withinDelegation
          cases hdel : delegatedLayers auth .admin with
          | none => rfl
          | some admitted =>
              rcases hadmits admitted hdel with ⟨htype, -⟩ | ⟨-, d', hd', hid, hlayer⟩
              · cases htype
              · rw [db.document_eq hd' hd hid] at hlayer
                exact List.contains_iff_mem.2 hlayer

/-- A plan that has nothing leaves what no plan names. -/
theorem unplanned_of_none (hplan : resolve (contextFor db auth) .admin = .none)
    (hallowed : referenceAllows (contextFor db auth) scope .admin = true)
    (hadmits : Admits db auth .admin scope) : Unplanned db auth scope := by
  refine ⟨hplan, ?_, hallowed, hadmits⟩
  have hagree : (contextFor db auth).tree.Agrees := loadScopeTree_agrees db _
  obtain ⟨type, id⟩ := scope
  cases type with
  | workspace => exact .inl rfl
  | layer =>
      have hreach := (resolve_reachesLayer_iff_permitted hagree).2
        ((referenceAllows_iff _ _ _).1 hallowed)
      rw [hplan] at hreach
      cases hreach
  | document =>
      refine .inr ⟨rfl, fun d hd hid => ?_⟩
      by_contra hlive
      have hlive : d.deleted = false := Bool.eq_false_iff.2 hlive
      dsimp only at hid
      subst hid
      by_cases hnamed : d.id ∈ grantedDocuments
          (loadGrants db auth.orgId (db.effectivePrincipals auth.principal))
      · have hplaced : (contextFor db auth).tree.layerOf d.id = some d.layerId :=
          loadScopeTree_layerOf.2 ⟨hnamed, d, hd, hlive, rfl, rfl⟩
        have hreach := (resolve_admits_iff_permitted hagree hplaced).2
          ((referenceAllows_iff _ _ _).1 hallowed)
        rw [hplan] at hreach
        cases hreach
      · by_cases hrole : auth.role = .member
        · rw [not_allowed_unplaced hrole (layerOf_eq_none (.inl hnamed)) hnamed] at hallowed
          cases hallowed
        · -- an administrator of the organization has a plan of everything
          unfold referenceAllows at hallowed
          unfold resolve at hplan
          rw [show (contextFor db auth).role = auth.role from rfl] at hallowed hplan
          split at hallowed
          · cases hallowed
          next hceiling =>
            rw [if_neg hceiling] at hplan
            cases hr : auth.role with
            | platformAdmin =>
                rw [hr] at hallowed
                cases hallowed
            | orgAdmin =>
                rw [hr] at hplan
                cases hplan
            | member => exact hrole hr

-- ========================================================== the operations

section Operations

variable {db : GrantDb} {dates : Dates} {limit : Nat}

/-- What `revoke` answers for a row. -/
theorem revoke_iff {r : GrantRow} (hr : db.Own auth r) :
    PostgresGrants.revoke db auth r.id
        = .ok (true, db.rows.filter fun r' => !(r'.orgId == auth.orgId && r'.id == r.id))
      ↔ referenceAllows (contextFor db.org auth) r.scope .admin = true
        ∧ Admits db.org auth .admin r.scope := by
  have huuid := db.rows_uuid r hr.1
  have hself : (r.orgId == auth.orgId && r.id == r.id) = true := by
    rw [hr.2, beq_self_eq_true, beq_self_eq_true]
    rfl
  have hfind : (db.rows.find? fun r' => r'.orgId == auth.orgId && r'.id == r.id) = some r := by
    cases hf : db.rows.find? fun r' => r'.orgId == auth.orgId && r'.id == r.id with
    | none => exact absurd hself (by simpa using List.find?_eq_none.1 hf r hr.1)
    | some r' =>
        have hmatch := List.find?_some hf
        rw [Bool.and_eq_true, beq_iff_eq, beq_iff_eq] at hmatch
        rw [List.inj_on_of_nodup_map db.rows_key (List.mem_of_find?_eq_some hf) hr.1 hmatch.2]
  have hleft : (db.rows.filter fun r' => !(r'.orgId == auth.orgId && r'.id == r.id)).length
      < db.rows.length := by
    refine List.length_filter_lt_length_iff_exists.2 ⟨r, hr.1, ?_⟩
    rw [hself]
    decide
  unfold PostgresGrants.revoke
  rw [Uuid.hasShape_of_castUuid huuid, huuid]
  simp only [Bool.not_true, Bool.false_eq_true, if_false, hfind, hleft, decide_true]
  rw [← narrowingAdmits_iff (List.mem_singleton_self r.scope)]
  cases href : referenceAllows (contextFor db.org auth) r.scope .admin with
  | false => simp
  | true => cases hin : narrowingAdmits db.org auth [r.scope] .admin r.scope with
    | false => simp
    | true => simp

/-- What the listing answers for a row. -/
def GrantShown (auth : AuthContext) (db : GrantDb) (item : Listed GrantRow GrantRecord) : Prop :=
  (db.Own auth item.row ∧ resolve (contextFor db.org auth) .admin ≠ .none
      ∧ referenceAllows (contextFor db.org auth) item.row.scope .admin = true
      ∧ Admits db.org auth .admin item.row.scope)
    ∧ item.view = grantRecord item.row

theorem grants_answer (hdates : dates.Lawful) (hlimit : 0 < limit) :
    Answers (fun item : Listed GrantRow GrantRecord => item.row.key)
      (fun db k => k ∈ db.rows.map GrantRow.key) (GrantShown auth) (uuidSeek.encode dates)
      (uuidSeek.Readable dates)
      (fun db => uuidSeek.request dates (PostgresGrants.list dates db auth {} limit)) db := by
  intro after hafter
  dsimp only
  rw [Seek.request_encode hafter]
  unfold PostgresGrants.list
  dsimp only
  by_cases hplan : resolve (contextFor db.org auth) .admin = .none
  · rw [if_pos hplan]
    exact ⟨[], none, rfl, Page.empty fun item hitem => hitem.1.2.1 hplan, nofun⟩
  have hfilter : GrantFilter.predicate {} = some fun _ => true := rfl
  rw [if_neg hplan, Seek.bound_position hafter, hfilter]
  simp only [Option.bind_eq_bind, Option.bind_some, Option.pure_def, Option.map_some]
  have hown : (db.rows.filter fun r => r.orgId == auth.orgId && true).Sublist db.rows :=
    List.filter_sublist
  have hkey : ((db.rows.filter fun r => r.orgId == auth.orgId && true).map GrantRow.key).Nodup :=
    nodup_key (db.rows_key.sublist (hown.map _)) fun r r' h => congrArg (fun k => (ofLex k).2) h
  generalize hrows : (db.rows.filter fun r => r.orgId == auth.orgId && true) = rows at hown hkey
  let shown : GrantRow → Bool := fun r => referenceAllows (contextFor db.org auth) r.scope .admin
    && narrowingAdmits db.org auth (rows.map fun r => r.scope) .admin r.scope
  have hcut : Page GrantRow.key (· ∈ rows.map GrantRow.key) (fun r => r ∈ rows ∧ shown r = true)
      after (((Keyset.seek GrantRow.key after rows).take limit).filter shown)
      (if decide (limit ≤ (Keyset.seek GrantRow.key after rows).length) then
        Keyset.lastKey GrantRow.key ((Keyset.seek GrantRow.key after rows).take limit) else none) :=
    page_cut hkey hlimit _ _ of_decide_eq_true fun h => le_of_not_ge (of_decide_eq_false h)
  refine ⟨_, _, ?_, (page_listed hcut grantRecord).congr (fun k hk => (hown.map _).subset hk)
    fun item => ?_, fun n hn => ?_⟩
  · -- the narrowing is read for the rows of the page, and asked of these
    have hfetched : ((Keyset.seek GrantRow.key after rows).take limit).filter (fun r =>
          referenceAllows (contextFor db.org auth) r.scope .admin
            && narrowingAdmits db.org auth (((Keyset.seek GrantRow.key after rows).take limit).map
              fun r => r.scope) .admin r.scope)
        = ((Keyset.seek GrantRow.key after rows).take limit).filter shown := by
      refine List.filter_congr fun r hr => ?_
      have hin : r ∈ rows := (Keyset.mem_seek.1 (List.mem_of_mem_take hr)).1
      show _ = (_ && _)
      rw [Bool.eq_iff_iff, Bool.and_eq_true, Bool.and_eq_true,
        narrowingAdmits_iff (List.mem_map_of_mem hr), narrowingAdmits_iff (List.mem_map_of_mem hin)]
    rw [hfetched]
    congr 2
    by_cases hfull : limit ≤ (Keyset.seek GrantRow.key after rows).length
    · have hlong : limit ≤ ((Keyset.seek GrantRow.key after rows).take limit).length := by
        rw [List.length_take]
        omega
      rw [if_pos hlong, if_pos (decide_eq_true hfull), Keyset.lastKey, Option.map_map]
      rfl
    · have hshort : ¬ limit ≤ ((Keyset.seek GrantRow.key after rows).take limit).length := by
        rw [List.length_take]
        omega
      rw [if_neg hshort, if_neg (by simpa using hfull)]
      rfl
  · unfold GrantShown GrantDb.Own
    rw [← hrows]
    simp only [List.mem_filter, Bool.and_true, beq_iff_eq]
    refine and_congr_left fun _ => ?_
    constructor
    · intro h
      obtain ⟨⟨hmem, horg⟩, hshown⟩ := h
      have hin : item.row.scope ∈ rows.map fun r => r.scope := by
        rw [← hrows]
        exact List.mem_map_of_mem (List.mem_filter.2 ⟨hmem, by simpa using horg⟩)
      obtain ⟨href, hadmits⟩ := Bool.and_eq_true_iff.1 hshown
      exact ⟨⟨hmem, horg⟩, hplan, href, (narrowingAdmits_iff hin).1 hadmits⟩
    · intro h
      obtain ⟨⟨hmem, horg⟩, -, href, hadmits⟩ := h
      have hin : item.row.scope ∈ rows.map fun r => r.scope := by
        rw [← hrows]
        exact List.mem_map_of_mem (List.mem_filter.2 ⟨hmem, by simpa using horg⟩)
      exact ⟨⟨hmem, horg⟩, Bool.and_eq_true_iff.2 ⟨href, (narrowingAdmits_iff hin).2 hadmits⟩⟩
  · exact readable_of_mem hdates db.rows_uuid ((hown.map _).subset (hcut.onward n hn).2)

/-- The walk over rows that do not change: it ends, with the rows the listing
shows. -/
theorem grants_walk (hdates : dates.Lawful) (hlimit : 0 < limit) {n : Nat}
    (hn : db.rows.length < n) : ∃ items : List (Listed GrantRow GrantRecord),
      walk (fun db => uuidSeek.request dates (PostgresGrants.list dates db auth {} limit)) none
          (List.replicate n db) = some (items, true)
        ∧ items.Pairwise (fun a b => a.row.key < b.row.key)
        ∧ (∀ item ∈ items, GrantShown auth db item)
        ∧ ∀ item, GrantShown auth db item → item ∈ items := by
  have hnone : ∀ a ∈ (none : Option (Time ×ₗ String)), uuidSeek.Readable dates a := nofun
  obtain ⟨items, ended, hwalk, hwalked⟩ := walk_spec
    (fun db' (_ : db' ∈ List.replicate n db) => grants_answer hdates hlimit) hnone
  have hended : ended = true := by
    refine hwalked.ended_of_length (fun db' hdb' k hk => ?_)
      (show (db.rows.map GrantRow.key).length < (List.replicate n db).length by simpa using hn)
    rw [List.eq_of_mem_replicate hdb'] at hk
    exact hk
  have hshown : ∀ item ∈ items, GrantShown auth db item := by
    intro item hitem
    obtain ⟨-, db', hdb', hshown⟩ := hwalked.sound item hitem
    rwa [List.eq_of_mem_replicate hdb'] at hshown
  refine ⟨items, hended ▸ hwalk, hwalked.sorted, hshown, fun item hitem => ?_⟩
  have hpresent := hwalked.complete hended item.row.key nofun fun db' hdb' =>
    ⟨item, by rw [List.eq_of_mem_replicate hdb']; exact hitem, rfl⟩
  obtain ⟨item', hitem', hkey⟩ := List.mem_map.1 hpresent
  have hrow : item'.row = item.row :=
    List.inj_on_of_nodup_map db.rows_key (hshown item' hitem').1.1.1 hitem.1.1.1
      (congrArg (fun k => (ofLex k).2) hkey)
  have hview : item'.view = item.view := by
    rw [(hshown item' hitem').2, hitem.2, hrow]
  have heq : item' = item := by
    cases item'
    cases item
    cases hrow
    cases hview
    rfl
  exact heq ▸ hitem'

end Operations

/-- The listing of an organization's grants is what its caller administers and
can revoke, exactly when no grant of it is hidden: none on a live document
that the caller's own grants do not name, under a layer the caller
administers, and, where the caller's plan has nothing, none on a workspace or
a document that is gone which the caller may administer. -/
theorem grants_listed_iff (dates : Dates) (hdates : dates.Lawful) (db : GrantDb)
    (auth : AuthContext) (limit : Nat) (hlimit : 1 ≤ limit) :
    GrantsListed dates db auth limit
      ↔ ∀ r, db.Own auth r → ¬ OffTree db.org auth r.scope ∧ ¬ Unplanned db.org auth r.scope := by
  constructor
  · intro hlisted r hr
    obtain ⟨items, hwalk, -, -, hspec⟩ := hlisted _ (Nat.lt_succ_self _)
    obtain ⟨items', hwalk', -, hsound, -⟩ := grants_walk hdates hlimit (Nat.lt_succ_self _)
    rw [hwalk] at hwalk'
    cases hwalk'
    obtain ⟨hmay, hrevoke⟩ := hspec r hr
    constructor
    · intro hoff
      obtain ⟨hadminister, hrefused⟩ := hoff.parts
      obtain ⟨item, hitem, rfl⟩ := List.mem_map.1 (hmay.2 hadminister)
      rw [(hsound item hitem).1.2.2.1] at hrefused
      cases hrefused
    · intro hunplanned
      obtain ⟨hplan, -, hallowed, hadmits⟩ := hunplanned
      have hin := hrevoke.2 ((revoke_iff hr).2 ⟨hallowed, hadmits⟩)
      obtain ⟨item, hitem, rfl⟩ := List.mem_map.1 hin
      exact (hsound item hitem).1.2.1 hplan
  · intro hhidden n hn
    obtain ⟨items, hwalk, hsorted, hsound, hcomplete⟩ := grants_walk hdates hlimit hn
    refine ⟨items, hwalk, hsorted, fun item hitem =>
      ⟨(hsound item hitem).1.1, (hsound item hitem).2⟩, fun r hr => ?_⟩
    obtain ⟨hoff, hunplanned⟩ := hhidden r hr
    have hlisted : r ∈ items.map Listed.row
        ↔ referenceAllows (contextFor db.org auth) r.scope .admin = true
          ∧ Admits db.org auth .admin r.scope := by
      constructor
      · intro hin
        obtain ⟨item, hitem, rfl⟩ := List.mem_map.1 hin
        exact (hsound item hitem).1.2.2
      · intro h
        have hplan : resolve (contextFor db.org auth) .admin ≠ .none := fun hplan =>
          hunplanned (unplanned_of_none hplan h.1 h.2)
        exact List.mem_map.2 ⟨⟨r, grantRecord r⟩, hcomplete _ ⟨⟨hr, hplan, h⟩, rfl⟩, rfl⟩
    refine ⟨hlisted.trans ?_, hlisted.trans (revoke_iff hr).symm⟩
    exact and_congr_left fun hadmits => by rw [administers_iff hadmits hoff]

-- ================================================================= the case

/-- Carol administers a workspace that has no layer yet; the grant on it is
the organization's only one. -/
def carolsGrant : GrantRow where
  orgId := "acme"
  principal := ⟨.user, "carol"⟩
  scope := ⟨.workspace, "33333333-3333-3333-3333-333333333333"⟩
  permission := .admin
  effect := .allow
  id := "55555555-5555-5555-5555-555555555555"
  createdAt := 100000

def carol : AuthContext := ⟨"acme", ⟨.user, "carol"⟩, .member, none⟩

def emptyWorkspaceDb : GrantDb where
  org :=
    { vectorCollection := some "org_acme"
      layers := []
      documents := []
      grants := [carolsGrant.toGrant]
      effectivePrincipals := fun p => [principalRef p]
      layers_key := by simp
      documents_key := by simp
      documents_layer := by simp
      layers_vector := by simp
      grants_uuid := by
        intro g hg
        rw [List.mem_singleton.1 hg]
        decide }
  rows := [carolsGrant]
  rows_org := rfl
  rows_key := by simp
  rows_uuid := by
    intro r hr
    rw [List.mem_singleton.1 hr]
    decide

/-- She is shown no grant, and revokes this one. -/
theorem empty_workspace_hidden :
    PostgresGrants.list sampleDates emptyWorkspaceDb carol {} 50 none = some ⟨[], none⟩
      ∧ PostgresGrants.revoke emptyWorkspaceDb carol carolsGrant.id = .ok (true, [])
      ∧ MayAdminister emptyWorkspaceDb.org carol carolsGrant.scope
      ∧ ¬ GrantsListed sampleDates emptyWorkspaceDb carol 50 := by
  have hlist : PostgresGrants.list sampleDates emptyWorkspaceDb carol {} 50 none
      = some ⟨[], none⟩ := rfl
  have hmay : MayAdminister emptyWorkspaceDb.org carol carolsGrant.scope :=
    ⟨by decide, nofun⟩
  refine ⟨hlist, rfl, hmay, fun hlisted => ?_⟩
  obtain ⟨items, hwalk, -, -, hspec⟩ := hlisted 2 (by decide)
  have hwalk' : walk (fun db => uuidSeek.request sampleDates
      (PostgresGrants.list sampleDates db carol {} 50)) none (List.replicate 2 emptyWorkspaceDb)
      = some ([], true) := rfl
  rw [hwalk'] at hwalk
  cases hwalk
  have hin := (hspec carolsGrant ⟨List.mem_singleton_self _, rfl⟩).1.2 hmay
  cases hin

/-- For an administrator of the organization nothing is hidden. -/
theorem grants_listed_iff_admin :
    GrantsListed sampleDates emptyWorkspaceDb { carol with role := .orgAdmin } 50 := by
  refine (grants_listed_iff sampleDates sampleDates_lawful emptyWorkspaceDb
    { carol with role := .orgAdmin } 50 (by decide)).2 fun r _ => ⟨fun hoff => ?_, fun hplan => ?_⟩
  · cases hoff.1
  · cases hplan.1

end Nacre.Api
