/-
The three operations that take a document by id (api/src/adapters.ts):
`PostgresDocuments.read`, `PostgresDocuments.updateMetadata` and
`NacreIngest.remove`.

Each checks the shape of the id, resolves the caller's plan, finds the
row by a `uuid` comparison in SQL, asks the delegation about the row's
layer, and then asks the plan about the document. The last question is
put with the id as the caller spelled it: `plan.deniedDocs` and
`plan.extraDocs` are compared as strings. What an operation then does is
a value: the view it returns, or the writes it makes in order.

`read` and `updateMetadata` place the documents their caller's grants
name, `remove` the one document it was given.

# The argument

- `admits_own_text`: asked under the row's own text, every one of these
  trees answers what the reference does on the whole tree.
- `admits_other_text`: a spelling that is not the row's own text is the
  text of no grant, so the plan answers for the layer instead.
- `decision_iff` puts the two together, and `documents_meet_spec_iff`
  reads the three operations off it.
-/
import Nacre.Api.Auth

namespace Nacre.Api

open Nacre.Authz

-- ================================================================ inputs

/-- What the document projection is built with. -/
structure DocumentPorts where
  /-- Host names taken out of an error text. -/
  withoutHosts : String → String
  /-- Minting a link to a stored object, when configured. -/
  presign : Option (String → String)

/-- A document as it is read back. -/
structure DocumentView where
  documentId : String
  externalId : Option String
  layer : String
  title : Option String
  status : String
  chunkCount : Nat
  updatedAt : Nat
  metadata : Metadata
  error : Option String
  sourceUrl : Option String
  deriving DecidableEq

/-- What a write path does to the two stores. -/
inductive Write where
  /-- `UPDATE documents SET metadata` on a row. -/
  | rowMetadata (id : String) (metadata : Metadata)
  /-- `setMetadata` on the points of a document, as spelled. -/
  | pointMetadata (collection documentId : String) (metadata : Metadata)
  /-- `tombstone` on the points of a document, as spelled. -/
  | tombstone (collection documentId : String)
  /-- `UPDATE documents SET deleted_at` on a row. -/
  | rowDeleted (id : String)
  deriving DecidableEq

/-- The error of a cast that fails. -/
def castError (s : String) : String :=
  "invalid input syntax for type uuid: \"" ++ s ++ "\""

/-- The live row a `uuid` value names. -/
def OrgDb.liveDocument (db : OrgDb) (id : String) : Option DocumentRow :=
  db.documents.find? fun d => d.id == id && !d.deleted

/-- The slug of a layer, deleted or not. -/
def OrgDb.slugOf (db : OrgDb) (layerId : String) : Option String :=
  (db.layers.find? fun l => l.id == layerId).map LayerRow.slug

/-- The plan's own refusal, asked with the id as it was spelled. -/
def planRefuses (plan : AccessPlan) (layerId documentId : String) : Bool :=
  match plan with
  | .scoped layers extraDocs deniedDocs =>
      deniedDocs.contains documentId
        || !(layers.contains layerId || extraDocs.contains documentId)
  | _ => false

-- ============================================================ operations

/-- The projection of a row a caller was found to hold `read` on. -/
def documentView (ports : DocumentPorts) (row : DocumentRow) (layer : String) :
    DocumentView where
  documentId := row.id
  externalId := row.externalId
  layer := layer
  title := row.title
  status := row.status
  chunkCount := row.chunkCount
  updatedAt := row.updatedAt
  metadata := row.metadata
  -- The column keeps the last error across a retry that succeeded.
  error := if row.status = "failed" then row.error.map ports.withoutHosts else none
  sourceUrl :=
    match ports.presign, row.sourceRef with
    | some url, some ref => if row.sourceType = "s3" then some (url ref) else none
    | _, _ => none

/-- `PostgresDocuments.read`. -/
def read (ports : DocumentPorts) (db : OrgDb) (auth : AuthContext)
    (documentId : String) : Except String (Option DocumentView) :=
  if !Uuid.hasShape documentId then .ok none
  else
    let plan := resolve (contextFor db auth) .read
    if plan = .none then .ok none
    else
      match Uuid.castUuid documentId with
      | none => .error (castError documentId)
      | some id =>
          match db.liveDocument id with
          | none => .ok none
          | some row =>
              match db.slugOf row.layerId with
              | none => .ok none
              | some slug =>
                  if !withinDelegation auth row.layerId .read then .ok none
                  else if planRefuses plan row.layerId documentId then .ok none
                  else .ok (some (documentView ports row slug))

/-- `PostgresDocuments.updateMetadata`: what it answers, and its writes. -/
def updateMetadata (db : OrgDb) (auth : AuthContext) (documentId : String)
    (metadata : Metadata) : Except String (Bool × List Write) :=
  if !Uuid.hasShape documentId then .ok (false, [])
  else
    match db.vectorCollection with
    | none => .ok (false, [])
    | some collection =>
        let plan := resolve (contextFor db auth) .write
        if plan = .none then .ok (false, [])
        else
          match Uuid.castUuid documentId with
          | none => .error (castError documentId)
          | some id =>
              match db.liveDocument id with
              | none => .ok (false, [])
              | some row =>
                  if !withinDelegation auth row.layerId .write then
                    .ok (false, [])
                  else if planRefuses plan row.layerId documentId then
                    .ok (false, [])
                  else
                    .ok (true, [.rowMetadata id metadata,
                      .pointMetadata collection documentId metadata])

/-- `NacreIngest.remove`. The tree places the one document, so the cast
comes before the plan; the index is written before the row. -/
def remove (db : OrgDb) (auth : AuthContext) (documentId : String) :
    Except String (Bool × List Write) :=
  if !Uuid.hasShape documentId then .ok (false, [])
  else
    match db.vectorCollection with
    | none => .ok (false, [])
    | some collection =>
        match Uuid.castUuid documentId with
        | none => .error (castError documentId)
        | some id =>
            let plan := resolve (resolveInput db auth fun _ => [id]) .write
            if plan = .none then .ok (false, [])
            else
              match db.liveDocument id with
              | none => .ok (false, [])
              | some row =>
                  if !withinDelegation auth row.layerId .write then
                    .ok (false, [])
                  else if planRefuses plan row.layerId documentId then
                    .ok (false, [])
                  else
                    .ok (true, [.tombstone collection documentId, .rowDeleted id])

-- ============================================================== contract

/-- The caller against the whole scope tree of the organization. -/
def fullContext (db : OrgDb) (auth : AuthContext) : ResolveInput :=
  resolveInput db auth fun _ => db.documents.map DocumentRow.id

/-- What decides an operation on a document: the reference on the whole
tree, under the ceiling, and the narrowing. -/
def May (db : OrgDb) (auth : AuthContext) (d : DocumentRow) (p : Permission) :
    Prop :=
  referenceAllows (fullContext db auth) ⟨.document, d.id⟩ p = true
    ∧ withinDelegation auth d.layerId p = true

/-- Each operation on this spelling of the document's id does its work
iff the caller may. -/
structure DocumentsSpec (ports : DocumentPorts) (db : OrgDb)
    (auth : AuthContext) (s : String) (d : DocumentRow) (metadata : Metadata) :
    Prop where
  read : (∃ view, read ports db auth s = .ok (some view)
      ∧ view.documentId = d.id) ↔ May db auth d .read
  updateMetadata : (∃ collection, updateMetadata db auth s metadata
      = .ok (true, [.rowMetadata d.id metadata,
          .pointMetadata collection s metadata])) ↔ May db auth d .write
  remove : (∃ collection, remove db auth s
      = .ok (true, [.tombstone collection s, .rowDeleted d.id]))
        ↔ May db auth d .write

/-- The spelling cannot matter: it is the row's own text, the narrowing
refuses the layer whatever the plan says, or the document and its layer
get one answer. -/
def SpellingHarmless (db : OrgDb) (auth : AuthContext) (s : String)
    (d : DocumentRow) (p : Permission) : Prop :=
  s = d.id ∨ withinDelegation auth d.layerId p = false
    ∨ (referenceAllows (fullContext db auth) ⟨.document, d.id⟩ p = true
      ↔ referenceAllows (fullContext db auth) ⟨.layer, d.layerId⟩ p = true)

variable {db : OrgDb} {auth : AuthContext} {d : DocumentRow} {s : String}
  {p : Permission}

-- ============================================================== the plan

/-- A plan that is not `none` refuses what it does not admit. -/
theorem planRefuses_eq {plan : AccessPlan} (h : plan ≠ .none)
    (layerId documentId : String) :
    planRefuses plan layerId documentId = !plan.admits layerId documentId := by
  rcases plan with - | - | ⟨layers, extraDocs, deniedDocs⟩
  · exact absurd rfl h
  · rfl
  · simp only [planRefuses, AccessPlan.admits, Bool.not_and, Bool.not_or,
      Bool.not_not]
    rw [Bool.or_comm]

/-- A grant that applies is one of the caller's rows. -/
theorem mem_grants_of_applicable {ids : List Grant → List String} {g : Grant}
    (hg : g ∈ applicable (resolveInput db auth ids) p) :
    g ∈ loadGrants db auth.orgId (db.effectivePrincipals auth.principal)
      ∧ g ∈ db.grants := by
  have hmem := (List.mem_filter.1 hg).1
  rw [resolveInput_grants] at hmem
  refine ⟨hmem, ?_⟩
  unfold loadGrants at hmem
  split at hmem
  · cases hmem
  · exact (List.mem_filter.1 hmem).1

/-- Asked under the row's own text, a tree that places the document
whenever a grant names it answers what the reference does on the whole
tree. -/
theorem admits_own_text (hd : db.LiveDocument d)
    {ids : List Grant → List String}
    (hids : ∀ g ∈ loadGrants db auth.orgId (db.effectivePrincipals auth.principal),
      g.scope = ⟨.document, d.id⟩ →
      d.id ∈ ids (loadGrants db auth.orgId
        (db.effectivePrincipals auth.principal))) :
    (resolve (resolveInput db auth ids) p).admits d.layerId d.id = true
      ↔ referenceAllows (fullContext db auth) ⟨.document, d.id⟩ p = true := by
  obtain ⟨-, hmem, hdel⟩ := hd
  have hfull : (fullContext db auth).tree.layerOf d.id = some d.layerId :=
    loadScopeTree_layerOf.2
      ⟨List.mem_map.2 ⟨d, hmem, rfl⟩, d, hmem, hdel, rfl, rfl⟩
  have hagree : (fullContext db auth).tree.Agrees := loadScopeTree_agrees db _
  rw [referenceAllows_iff, ← resolve_admits_iff_permitted hagree hfull]
  refine resolve_admits_congr (resolveInput db auth ids) (fullContext db auth)
    rfl rfl rfl rfl rfl (fun hnamed => ?_) d.layerId
  obtain ⟨g, hg, hs⟩ := mem_idsOf.1 hnamed
  have hplaced : (resolveInput db auth ids).tree.layerOf d.id = some d.layerId :=
    loadScopeTree_layerOf.2
      ⟨hids g (mem_grants_of_applicable hg.1).1 hs, d, hmem, hdel, rfl, rfl⟩
  rw [hplaced, hfull]

/-- Asked under a spelling that is not the row's own text, the plan
answers for the layer: the spelling is the text of no grant. -/
theorem admits_other_text (hcast : Uuid.castUuid s = some d.id) (hne : s ≠ d.id)
    (ids : List Grant → List String) :
    (resolve (resolveInput db auth ids) p).admits d.layerId s = true
      ↔ referenceAllows (fullContext db auth) ⟨.layer, d.layerId⟩ p = true := by
  have hnone : ∀ g ∈ applicable (resolveInput db auth ids) p,
      g.scope ≠ ⟨.document, s⟩ := by
    intro g hg hs
    have hown := db.grants_uuid g (mem_grants_of_applicable hg).2
    rw [hs, hcast] at hown
    exact hne (Option.some.inj hown).symm
  have hagree : (resolveInput db auth ids).tree.Agrees := loadScopeTree_agrees db _
  have href : referenceAllows (resolveInput db auth ids) ⟨.layer, d.layerId⟩ p
      = referenceAllows (fullContext db auth) ⟨.layer, d.layerId⟩ p := rfl
  rw [resolve_admits_unnamed hnone, ← href, referenceAllows_iff]
  exact resolve_reachesLayer_iff_permitted hagree

/-- The decision at a spelling of the document's id is the right one iff
the spelling cannot matter. -/
theorem decision_iff (auth : AuthContext) (p : Permission)
    (hd : db.LiveDocument d) (hcast : Uuid.castUuid s = some d.id)
    (ids : List Grant → List String)
    (hids : ∀ g ∈ loadGrants db auth.orgId (db.effectivePrincipals auth.principal),
      g.scope = ⟨.document, d.id⟩ →
      d.id ∈ ids (loadGrants db auth.orgId
        (db.effectivePrincipals auth.principal))) :
    ((resolve (resolveInput db auth ids) p).admits d.layerId s = true
        ∧ withinDelegation auth d.layerId p = true
      ↔ May db auth d p) ↔ SpellingHarmless db auth s d p := by
  unfold May SpellingHarmless
  by_cases hs : s = d.id
  · subst hs
    rw [admits_own_text hd hids]
    simp
  · rw [admits_other_text hcast hs ids]
    cases hw : withinDelegation auth d.layerId p with
    | false => simp
    | true =>
        simp only [hs, and_true, Bool.true_eq_false, false_or]
        exact iff_comm

-- ======================================================== the operations

/-- The live row a spelling names is the document's. -/
theorem liveDocument_eq (hd : db.LiveDocument d) :
    db.liveDocument d.id = some d := by
  obtain ⟨-, hmem, hdel⟩ := hd
  unfold OrgDb.liveDocument
  cases hf : db.documents.find? fun d' => d'.id == d.id && !d'.deleted with
  | none =>
      have := List.find?_eq_none.1 hf d hmem
      simp [hdel] at this
  | some d' =>
      have hd' := List.mem_of_find?_eq_some hf
      have hp := List.find?_some hf
      simp only [Bool.and_eq_true, beq_iff_eq] at hp
      rw [db.document_eq hd' hmem hp.1]

/-- A document's layer has a row. -/
theorem slugOf_ne_none (hd : db.LiveDocument d) : db.slugOf d.layerId ≠ none := by
  obtain ⟨l, hl, hid⟩ := db.documents_layer d hd.2.1
  intro hnone
  rw [OrgDb.slugOf, Option.map_eq_none_iff, List.find?_eq_none] at hnone
  exact hnone l hl (by simp [hid])

section Spelling

variable (hd : db.LiveDocument d) (hshape : Uuid.hasShape s = true)
  (hcast : Uuid.castUuid s = some d.id)

include hd hshape hcast

theorem read_iff (ports : DocumentPorts) :
    (∃ view, read ports db auth s = .ok (some view) ∧ view.documentId = d.id)
      ↔ (resolve (contextFor db auth) .read).admits d.layerId s = true
        ∧ withinDelegation auth d.layerId .read = true := by
  unfold read
  simp only [hshape, Bool.not_true, Bool.false_eq_true, if_false, hcast,
    liveDocument_eq hd]
  by_cases hplan : resolve (contextFor db auth) .read = .none
  · simp [hplan, AccessPlan.admits]
  · rw [if_neg hplan, planRefuses_eq hplan]
    cases hslug : db.slugOf d.layerId with
    | none => exact absurd hslug (slugOf_ne_none hd)
    | some slug =>
        cases withinDelegation auth d.layerId .read with
        | false => simp
        | true =>
            cases (resolve (contextFor db auth) .read).admits d.layerId s with
            | false => simp
            | true => simp [documentView]

theorem updateMetadata_iff (metadata : Metadata) :
    (∃ collection, updateMetadata db auth s metadata
        = .ok (true, [.rowMetadata d.id metadata,
            .pointMetadata collection s metadata]))
      ↔ (resolve (contextFor db auth) .write).admits d.layerId s = true
        ∧ withinDelegation auth d.layerId .write = true := by
  unfold updateMetadata
  simp only [hshape, Bool.not_true, Bool.false_eq_true, if_false, hcast,
    liveDocument_eq hd]
  cases hc : db.vectorCollection with
  | none => exact absurd hc hd.1
  | some collection =>
      simp only
      by_cases hplan : resolve (contextFor db auth) .write = .none
      · simp [hplan, AccessPlan.admits]
      · rw [if_neg hplan, planRefuses_eq hplan]
        cases withinDelegation auth d.layerId .write with
        | false => simp
        | true =>
            cases (resolve (contextFor db auth) .write).admits d.layerId s with
            | false => simp
            | true => simp

theorem remove_iff :
    (∃ collection, remove db auth s
        = .ok (true, [.tombstone collection s, .rowDeleted d.id]))
      ↔ (resolve (resolveInput db auth fun _ => [d.id]) .write).admits
            d.layerId s = true
        ∧ withinDelegation auth d.layerId .write = true := by
  unfold remove
  simp only [hshape, Bool.not_true, Bool.false_eq_true, if_false, hcast,
    liveDocument_eq hd]
  cases hc : db.vectorCollection with
  | none => exact absurd hc hd.1
  | some collection =>
      simp only
      by_cases hplan : resolve (resolveInput db auth fun _ => [d.id]) .write = .none
      · simp [hplan, AccessPlan.admits]
      · rw [if_neg hplan, planRefuses_eq hplan]
        cases withinDelegation auth d.layerId .write with
        | false => simp
        | true =>
            cases (resolve (resolveInput db auth fun _ => [d.id]) .write).admits
                d.layerId s with
            | false => simp
            | true => simp

end Spelling

/-- The operations on a document, under any spelling of its id that
passes the shape check and casts to it, decide as the reference does iff
the spelling cannot matter to either permission. -/
theorem documents_meet_spec_iff (ports : DocumentPorts) (db : OrgDb)
    (auth : AuthContext) (d : DocumentRow) (hd : db.LiveDocument d) (s : String)
    (hshape : Uuid.hasShape s = true) (hcast : Uuid.castUuid s = some d.id)
    (metadata : Metadata) :
    DocumentsSpec ports db auth s d metadata
      ↔ SpellingHarmless db auth s d .read
        ∧ SpellingHarmless db auth s d .write := by
  have hnamed : ∀ g ∈ loadGrants db auth.orgId
        (db.effectivePrincipals auth.principal),
      g.scope = ⟨.document, d.id⟩ →
      d.id ∈ grantedDocuments (loadGrants db auth.orgId
        (db.effectivePrincipals auth.principal)) := by
    intro g hg hs
    exact List.mem_map.2
      ⟨g, List.mem_filter.2 ⟨hg, by simp [hs]⟩, by rw [hs]⟩
  have hread := decision_iff auth .read hd hcast _ hnamed
  have hwrite := decision_iff auth .write hd hcast _ hnamed
  have hremove := decision_iff auth .write hd hcast
    (fun _ => [d.id]) (fun g hg hs => List.mem_singleton_self _)
  constructor
  · intro hall
    obtain ⟨hr, hu, -⟩ := hall
    rw [read_iff hd hshape hcast] at hr
    rw [updateMetadata_iff hd hshape hcast] at hu
    exact ⟨hread.1 hr, hwrite.1 hu⟩
  · intro hall
    obtain ⟨hr, hw⟩ := hall
    refine ⟨?_, ?_, ?_⟩
    · rw [read_iff hd hshape hcast]
      exact hread.2 hr
    · rw [updateMetadata_iff hd hshape hcast]
      exact hwrite.2 hw
    · rw [remove_iff hd hshape hcast]
      exact hremove.2 hw

def samplePorts : DocumentPorts := ⟨id, none⟩

def deniedDocument : DocumentRow where
  id := "0a1b2c3d-4e5f-6071-8293-a4b5c6d7e8f9"
  layerId := "11111111-1111-1111-1111-111111111111"

/-- The same id with its digits in upper case. -/
def deniedSpelling : String := "0A1B2C3D-4E5F-6071-8293-A4B5C6D7E8F9"

def bob : AuthContext := ⟨"acme", ⟨.user, "bob"⟩, .member, none⟩

/-- Bob administers a layer and is denied one document of it. -/
def deniedDb : OrgDb where
  vectorCollection := some "org_acme"
  layers := [⟨deniedDocument.layerId, "w1", "hr", "v_m_2",
    ⟨"p1", "http://e", "m", 2⟩, false⟩]
  documents := [deniedDocument]
  grants :=
    [ ⟨"acme", ⟨.user, "bob"⟩, ⟨.layer, deniedDocument.layerId⟩, .admin, .allow⟩,
      ⟨"acme", ⟨.user, "bob"⟩, ⟨.document, deniedDocument.id⟩, .admin, .deny⟩ ]
  effectivePrincipals p := [principalRef p]
  layers_key := by simp
  documents_key := by simp
  documents_layer := by simp
  layers_vector := by
    intro l hl _
    rw [List.mem_singleton.1 hl]
    decide
  grants_uuid := by
    intro g hg
    simp only [List.mem_cons, List.not_mem_nil, or_false] at hg
    rcases hg with rfl | rfl <;> decide

theorem deniedDocument_live : deniedDb.LiveDocument deniedDocument :=
  ⟨by simp [deniedDb], List.mem_singleton_self _, rfl⟩

/-- Spelled in upper case, the denied document is handed over, retagged
and deleted; the reference refuses both permissions on it. -/
theorem upper_case_bypasses_deny :
    Uuid.hasShape deniedSpelling = true
      ∧ Uuid.castUuid deniedSpelling = some deniedDocument.id
      ∧ read samplePorts deniedDb bob deniedSpelling
          = .ok (some (documentView samplePorts deniedDocument "hr"))
      ∧ updateMetadata deniedDb bob deniedSpelling []
          = .ok (true, [.rowMetadata deniedDocument.id [],
              .pointMetadata "org_acme" deniedSpelling []])
      ∧ remove deniedDb bob deniedSpelling
          = .ok (true, [.tombstone "org_acme" deniedSpelling,
              .rowDeleted deniedDocument.id])
      ∧ ¬ May deniedDb bob deniedDocument .read
      ∧ ¬ May deniedDb bob deniedDocument .write
      ∧ ¬ DocumentsSpec samplePorts deniedDb bob deniedSpelling
          deniedDocument [] := by
  have hread : read samplePorts deniedDb bob deniedSpelling
      = .ok (some (documentView samplePorts deniedDocument "hr")) := rfl
  have hmay : ¬ May deniedDb bob deniedDocument .read := fun h =>
    absurd h.1 (by decide)
  refine ⟨by decide, by decide, hread, rfl, rfl, hmay,
    fun h => absurd h.1 (by decide), fun hspec => ?_⟩
  exact hmay (hspec.read.1 ⟨_, hread, rfl⟩)

/-- Under its own text the same document is refused. -/
theorem documents_meet_spec_iff_own_text :
    DocumentsSpec samplePorts deniedDb bob deniedDocument.id deniedDocument []
      ∧ read samplePorts deniedDb bob deniedDocument.id = .ok none := by
  refine ⟨?_, rfl⟩
  exact (documents_meet_spec_iff samplePorts deniedDb bob deniedDocument
    deniedDocument_live deniedDocument.id (by decide) (by decide) []).2
    ⟨Or.inl rfl, Or.inl rfl⟩

end Nacre.Api
