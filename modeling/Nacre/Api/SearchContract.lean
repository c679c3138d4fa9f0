/-
The search request meets its contract, and exactly when.

# The argument

- `narrowed_spec` carries the two caller-side narrowings: what survives
  is exactly the layers named and delegated, and `none` means no layer
  the plan admits is both.
- `groupsInScope_spec`: the groups partition the layers in scope, by
  vector name.
- `search_cases`: what one request does, from which each part of the
  contract is read.

The slugs are lower-cased before they are compared and the column is
then compared as text. `search_meets_spec_iff` is the whole condition:
the contract holds for every request naming these slugs iff each live
layer they name is stored in lower case.
-/
import Nacre.Api.Search

namespace Nacre.Api

open Nacre.Authz Nacre.Vector

variable {deps : SearchDeps} {db : OrgDb} {auth : AuthContext}
  {options : SearchOptions} {plan : AccessPlan} {narrow : Narrowing}

-- ============================================================ narrowings

/-- A layer's id is among the resolved ones iff its slug was asked for:
an id is one row. -/
theorem mem_layerIds {l : LayerRow} (hl : l ∈ db.layers)
    {slugs : List String} :
    l.id ∈ layerIds deps db slugs ↔ l.slug ∈ wantedSlugs deps.case slugs := by
  unfold layerIds
  by_cases hw : wantedSlugs deps.case slugs = []
  · simp [hw]
  · have hw' : ¬ (wantedSlugs deps.case slugs).isEmpty = true := by
      simpa using hw
    simp only [hw', Bool.false_eq_true, if_false, List.mem_map,
      List.mem_filter, List.contains_iff_mem]
    constructor
    · intro hex
      obtain ⟨row, ⟨hrow, hslug⟩, hid⟩ := hex
      rwa [← db.layer_eq hrow hl hid]
    · intro hslug
      exact ⟨l, ⟨hl, hslug⟩, rfl⟩

/-- The plan's own cut of the resolved layers drops none it admits a
document of. -/
theorem mem_permittedLayers {id doc : String} (h : plan.admits id doc = true)
    {resolved : List String} :
    id ∈ permittedLayers plan resolved ↔ id ∈ resolved := by
  unfold permittedLayers
  split
  next layers deniedDocs =>
    simp only [AccessPlan.admits, List.contains_nil, Bool.or_false,
      Bool.and_eq_true] at h
    simp only [List.mem_filter, h.1, and_true]
  next => rfl

/-- The requested layers, one way or the other: no layer the plan admits
is named, or the narrowing admits exactly the named ones. -/
theorem narrowToRequested_spec (deps : SearchDeps) (db : OrgDb)
    (options : SearchOptions) (plan : AccessPlan)
    (hnone : narrow.layers = none) :
    (narrowToRequested deps db options plan narrow = none
      ∧ ∀ l ∈ db.layers, ∀ doc, plan.admits l.id doc = true →
          ¬ NamedAsSpelled deps.case options l)
    ∨ ∃ n, narrowToRequested deps db options plan narrow = some n
      ∧ n.metadata = narrow.metadata ∧ n.layers ≠ some []
      ∧ ∀ l ∈ db.layers, ∀ doc, plan.admits l.id doc = true →
          (n.admitsLayer l.id ↔ NamedAsSpelled deps.case options l) := by
  unfold narrowToRequested NamedAsSpelled SearchOptions.slugs
  split
  next slug slugs hlayers =>
    rw [hlayers, Option.getD_some]
    by_cases hp : permittedLayers plan (layerIds deps db (slug :: slugs)) = []
    · left
      refine ⟨by simp [hp], ?_⟩
      intro l hl doc hallowed hnamed
      have hmem := (mem_permittedLayers hallowed).2
        ((mem_layerIds hl).2 (hnamed (List.cons_ne_nil _ _)))
      rw [hp] at hmem
      cases hmem
    · right
      refine ⟨{ narrow with
          layers := some (permittedLayers plan
            (layerIds deps db (slug :: slugs))) }, by simp [hp], rfl,
        by simpa using hp, ?_⟩
      intro l hl doc hallowed
      simp [Narrowing.admitsLayer, mem_permittedLayers hallowed, mem_layerIds hl]
  next hlayers =>
    right
    refine ⟨narrow, rfl, rfl, by simp [hnone], ?_⟩
    intro l hl doc hallowed
    have hslugs : options.layers.getD [] = [] := by
      cases ho : options.layers with
      | none => rfl
      | some slugs =>
          cases slugs with
          | nil => rfl
          | cons s ss => exact absurd ho (hlayers s ss)
    simp [Narrowing.admitsLayer, hnone, hslugs]

/-- The delegation's layers, one way or the other. -/
theorem narrowToDelegation_spec (auth : AuthContext)
    (hne : narrow.layers ≠ some []) :
    (narrowToDelegation auth narrow = none
      ∧ ∀ id, narrow.admitsLayer id →
          ¬ ∀ admitted, delegatedLayers auth .read = some admitted →
            id ∈ admitted)
    ∨ ∃ n, narrowToDelegation auth narrow = some n
      ∧ n.metadata = narrow.metadata ∧ n.layers ≠ some []
      ∧ ∀ id, n.admitsLayer id ↔ narrow.admitsLayer id
          ∧ ∀ admitted, delegatedLayers auth .read = some admitted →
            id ∈ admitted := by
  unfold narrowToDelegation
  cases delegatedLayers auth .read with
  | none => exact Or.inr ⟨narrow, rfl, rfl, hne, by simp⟩
  | some delegated =>
      have hmem : ∀ id, id ∈ bothLayers narrow delegated
          ↔ narrow.admitsLayer id ∧ id ∈ delegated := by
        intro id
        unfold bothLayers Narrowing.admitsLayer
        cases narrow.layers with
        | none => simp
        | some layers => simp
      simp only
      by_cases he : bothLayers narrow delegated = []
      · left
        refine ⟨by simp [he], fun id hallowed hall => ?_⟩
        have := (hmem id).2 ⟨hallowed, hall delegated rfl⟩
        rw [he] at this
        cases this
      · right
        refine ⟨{ narrow with layers := some (bothLayers narrow delegated) }, by simp [he], rfl,
          by simpa using he, fun id => ?_⟩
        rw [Narrowing.admitsLayer]
        simp [hmem id]

/-- The metadata restriction the filter reads is the request's. -/
theorem metadataNarrowing_metadata :
    (metadataNarrowing options).metadata.getD [] = options.filters.getD [] := by
  unfold metadataNarrowing
  split
  next hf => rw [hf]
  next hf =>
    cases ho : options.filters with
    | none => rfl
    | some entries =>
        cases entries with
        | nil => rfl
        | cons e es => exact absurd ho (hf e es)

/-- Both narrowings of a request: nothing the plan admits is both named
and delegated, or exactly that survives. -/
theorem narrowed_spec (deps : SearchDeps) (db : OrgDb) (auth : AuthContext)
    (options : SearchOptions) (plan : AccessPlan) :
    (narrowed deps db auth options plan = none
      ∧ ∀ l ∈ db.layers, ∀ doc, plan.admits l.id doc = true →
          NamedAsSpelled deps.case options l →
          ¬ ∀ admitted, delegatedLayers auth .read = some admitted →
            l.id ∈ admitted)
    ∨ ∃ narrow, narrowed deps db auth options plan = some narrow
      ∧ narrow.metadata.getD [] = options.filters.getD []
      ∧ narrow.layers ≠ some []
      ∧ ∀ l ∈ db.layers, ∀ doc, plan.admits l.id doc = true →
          (narrow.admitsLayer l.id ↔ NamedAsSpelled deps.case options l
            ∧ ∀ admitted, delegatedLayers auth .read = some admitted →
              l.id ∈ admitted) := by
  have hlayers : (metadataNarrowing options).layers = none := by
    unfold metadataNarrowing
    split <;> rfl
  unfold narrowed
  rcases narrowToRequested_spec deps db options plan hlayers with ⟨hnone, hno⟩ | ⟨n, hn, hmeta, hne, hiff⟩
  · left
    refine ⟨by rw [hnone]; rfl, ?_⟩
    intro l hl doc hallowed hnamed
    exact absurd hnamed (hno l hl doc hallowed)
  · rw [hn, Option.bind_some]
    rcases narrowToDelegation_spec auth hne with
      ⟨hnone, hno⟩ | ⟨n', hn', hmeta', hne', hiff'⟩
    · left
      refine ⟨hnone, ?_⟩
      intro l hl doc hallowed hnamed
      exact hno l.id ((hiff l hl doc hallowed).2 hnamed)
    · right
      refine ⟨n', hn', by rw [hmeta', hmeta, metadataNarrowing_metadata],
        hne', ?_⟩
      intro l hl doc hallowed
      rw [hiff' l.id, hiff l hl doc hallowed]

-- ================================================================ groups

/-- What the map of groups holds after some rows: one entry for each of
their vector names, with the ids of the rows on it. -/
structure Grouped (rows : List LayerRow)
    (byVector : List (String × GroupEntry)) : Prop where
  keys : (byVector.map Prod.fst).Nodup
  ids : ∀ v entry, byVector.lookup v = some entry →
    entry.layerIds = (rows.filter fun r => r.vectorName == v).map LayerRow.id
      ∧ entry.layerIds ≠ []
  found : ∀ row ∈ rows, byVector.lookup row.vectorName ≠ none

/-- The map one row later. -/
def pushed (deps : SearchDeps) (db : OrgDb)
    (byVector : List (String × GroupEntry)) (l : LayerRow) :
    List (String × GroupEntry) :=
  let group := (byVector.lookup l.vectorName).getD
    { provider := providerOf deps db l, layerIds := [] }
  Js.mapSet byVector l.vectorName
    { group with layerIds := group.layerIds ++ [l.id] }

theorem pushLayer_eq {l : LayerRow}
    (h : vectorName l.provider.model l.provider.dimensions = l.vectorName)
    (byVector : List (String × GroupEntry)) :
    pushLayer deps db byVector l = .ok (pushed deps db byVector l) := by
  unfold pushLayer
  rw [if_neg (by simpa using h)]
  rfl

/-- One row keeps the map grouped. -/
theorem Grouped.push {rows : List LayerRow}
    {byVector : List (String × GroupEntry)} (h : Grouped rows byVector)
    (l : LayerRow) : Grouped (rows ++ [l]) (pushed deps db byVector l) := by
  have hlook : ∀ v, (pushed deps db byVector l).lookup v
      = if v == l.vectorName then
          some { (byVector.lookup l.vectorName).getD
              { provider := providerOf deps db l, layerIds := [] } with
            layerIds := ((byVector.lookup l.vectorName).getD
              { provider := providerOf deps db l, layerIds := [] }).layerIds
                ++ [l.id] }
        else byVector.lookup v := fun v => Js.lookup_mapSet ..
  have hids : ((byVector.lookup l.vectorName).getD
        { provider := providerOf deps db l, layerIds := [] }).layerIds
      = (rows.filter fun r => r.vectorName == l.vectorName).map LayerRow.id := by
    cases he : byVector.lookup l.vectorName with
    | some entry => exact (h.ids _ _ he).1
    | none =>
        have hno : (rows.filter fun r => r.vectorName == l.vectorName) = [] := by
          rw [List.filter_eq_nil_iff]
          intro row hrow hv
          exact h.found row hrow ((beq_iff_eq.1 hv) ▸ he)
        simp [hno]
  refine ⟨Js.nodup_keys_mapSet h.keys, ?_, ?_⟩
  · intro v entry he
    rw [hlook] at he
    by_cases hv : v = l.vectorName
    · subst hv
      simp only [BEq.rfl, if_true, Option.some.injEq] at he
      subst he
      simp [hids, List.filter_append]
    · have hv₁ : (v == l.vectorName) = false := by simpa using hv
      have hv₂ : (l.vectorName == v) = false := by
        simpa using fun h => hv h.symm
      rw [hv₁] at he
      have := h.ids v entry (by simpa using he)
      simpa [List.filter_append, hv₂] using this
  · intro row hrow
    rw [hlook]
    by_cases hv : row.vectorName = l.vectorName
    · simp [hv]
    · have hv₁ : (row.vectorName == l.vectorName) = false := by simpa using hv
      rcases List.mem_append.1 hrow with hr | hr
      · simpa [hv₁] using h.found row hr
      · rw [List.mem_singleton.1 hr] at hv
        exact absurd rfl hv

/-- Rows whose vector is their provider's are all pushed. -/
theorem foldlM_pushLayer (deps : SearchDeps) (db : OrgDb)
    (rows : List LayerRow)
    (hrows : ∀ l ∈ rows,
      vectorName l.provider.model l.provider.dimensions = l.vectorName) :
    ∀ (before : List LayerRow) (byVector : List (String × GroupEntry)),
      Grouped before byVector →
      ∃ byVector', rows.foldlM (pushLayer deps db) byVector = .ok byVector'
        ∧ Grouped (before ++ rows) byVector' := by
  induction rows with
  | nil =>
      intro before byVector h
      exact ⟨byVector, rfl, by simpa using h⟩
  | cons l rows ih =>
      intro before byVector h
      obtain ⟨byVector', hfold, hgrouped⟩ :=
        ih (fun r hr => hrows r (List.mem_cons_of_mem _ hr)) (before ++ [l])
          (pushed deps db byVector l) (h.push l)
      refine ⟨byVector', ?_, by simpa using hgrouped⟩
      rw [List.foldlM_cons, pushLayer_eq (hrows l (List.mem_cons_self ..))]
      exact hfold

/-- The layers in scope. -/
def scopeLayers (db : OrgDb) (plan : AccessPlan) (narrow : Narrowing) :
    List LayerRow :=
  db.liveLayers.filter (inScope plan narrow)

/-- The groups partition the layers in scope by vector name. -/
structure GroupsSpec (rows : List LayerRow) (groups : List ModelGroup) :
    Prop where
  names : (groups.map ModelGroup.vectorName).Nodup
  ids : ∀ g ∈ groups, g.layerIds ≠ []
    ∧ ∀ row ∈ rows, row.id ∈ g.layerIds ↔ row.vectorName = g.vectorName
  found : ∀ row ∈ rows, ∃ g ∈ groups, g.vectorName = row.vectorName

theorem groupsInScope_spec (deps : SearchDeps) (db : OrgDb)
    (plan : AccessPlan) (narrow : Narrowing) :
    ∃ groups, groupsInScope deps db plan narrow = .ok groups
      ∧ GroupsSpec (scopeLayers db plan narrow) groups := by
  have hlive : ∀ l ∈ scopeLayers db plan narrow,
      l ∈ db.layers ∧ l.deleted = false := by
    intro l hl
    have := (List.mem_filter.1 (List.mem_filter.1 hl).1)
    exact ⟨this.1, by simpa using this.2⟩
  obtain ⟨byVector, hfold, hgrouped⟩ :=
    foldlM_pushLayer deps db (scopeLayers db plan narrow)
      (fun l hl => db.layers_vector l (hlive l hl).1 (hlive l hl).2) [] []
      ⟨by simp, by simp, by simp⟩
  rw [List.nil_append] at hgrouped
  have hlook : ∀ e ∈ byVector, byVector.lookup e.1 = some e.2 := fun e he =>
    (Js.lookup_eq_some_iff_mem hgrouped.keys).2 he
  refine ⟨byVector.map fun e => ⟨e.1, e.2.provider, e.2.layerIds⟩, ?_, ?_, ?_, ?_⟩
  · have hfold' : (db.liveLayers.filter (inScope plan narrow)).foldlM
        (pushLayer deps db) [] = .ok byVector := hfold
    rw [groupsInScope, hfold']
    rfl
  · simpa [List.map_map, Function.comp_def] using hgrouped.keys
  · intro g hg
    obtain ⟨e, he, rfl⟩ := List.mem_map.1 hg
    obtain ⟨hids, hne⟩ := hgrouped.ids _ _ (hlook e he)
    refine ⟨hne, fun row hrow => ?_⟩
    simp only [hids, List.mem_map, List.mem_filter, beq_iff_eq]
    constructor
    · intro hex
      obtain ⟨row', ⟨hrow', hname⟩, hid⟩ := hex
      rwa [← db.layer_eq (hlive _ hrow').1 (hlive _ hrow).1 hid]
    · intro hname
      exact ⟨row, ⟨hrow, hname⟩, rfl⟩
  · intro row hrow
    cases he : byVector.lookup row.vectorName with
    | none => exact absurd he (hgrouped.found row hrow)
    | some entry =>
        have hmem := (Js.lookup_eq_some_iff_mem hgrouped.keys).1 he
        exact ⟨_, List.mem_map.2 ⟨_, hmem, rfl⟩, rfl⟩

/-- No group means no layer in scope. -/
theorem GroupsSpec.nil {rows : List LayerRow} (h : GroupsSpec rows []) :
    rows = [] := by
  refine List.eq_nil_iff_forall_not_mem.2 fun row hrow => ?_
  obtain ⟨g, hg, -⟩ := h.found row hrow
  cases hg

-- ============================================================= the query

/-- The dense branch of a group whose provider's embedder answers. -/
def groupBranch (deps : SearchDeps) (query : String) (several : Bool)
    (group : ModelGroup) : Branch where
  usingVector := group.vectorName
  vector := .dense ((deps.embed group.provider query).getD [])
  onlyLayers := if several then some group.layerIds else none

theorem mapM_denseBranch (hdeps : deps.Embeds) (query : String)
    (several : Bool) (groups : List ModelGroup) :
    groups.mapM (denseBranch deps query several)
      = .ok (groups.map (groupBranch deps query several)) := by
  induction groups with
  | nil => rfl
  | cons g groups ih =>
      have hg : denseBranch deps query several g
          = .ok (groupBranch deps query several g) := by
        unfold denseBranch groupBranch
        cases he : deps.embed g.provider query with
        | none => exact absurd he (hdeps _ _)
        | some vector => rfl
      rw [List.mapM_cons, hg, ih]
      rfl

/-- The branches of a request: one for each group, then the lexical
one. -/
def branchesOf (deps : SearchDeps) (query : String)
    (groups : List ModelGroup) : List Branch :=
  groups.map (groupBranch deps query (1 < groups.length))
    ++ lexicalBranches deps query

/-- What one request does: it ends empty at one of its four gates, or it
hands these branches and this narrowing to the vector store. -/
theorem search_cases (hdeps : deps.Embeds) (db : OrgDb) (query : String)
    (topK : Nat) (auth : AuthContext) (options : SearchOptions) :
    (search deps db auth query topK options = .ok .empty
      ∧ (db.vectorCollection = none
        ∨ resolve (contextFor db auth) .read = .none
        ∨ narrowed deps db auth options (resolve (contextFor db auth) .read)
            = none
        ∨ ∃ narrow,
            narrowed deps db auth options (resolve (contextFor db auth) .read)
              = some narrow
            ∧ scopeLayers db (resolve (contextFor db auth) .read) narrow = []))
    ∨ ∃ collection narrow groups,
        ∃ hplan : resolve (contextFor db auth) .read ≠ .none,
        narrowed deps db auth options (resolve (contextFor db auth) .read)
            = some narrow
        ∧ GroupsSpec
            (scopeLayers db (resolve (contextFor db auth) .read) narrow) groups
        ∧ groups ≠ []
        ∧ search deps db auth query topK options
            = vectorStoreSearch auth.orgId collection
                ⟨resolve (contextFor db auth) .read, hplan⟩
                (branchesOf deps query groups)
                (resultLimit deps topK options) narrow := by
  unfold search
  cases hc : db.vectorCollection with
  | none => exact Or.inl ⟨rfl, Or.inl rfl⟩
  | some collection =>
      simp only
      by_cases hplan : resolve (contextFor db auth) .read = .none
      · rw [dif_pos hplan]
        exact Or.inl ⟨rfl, Or.inr (Or.inl hplan)⟩
      · rw [dif_neg hplan]
        cases hn : narrowed deps db auth options
            (resolve (contextFor db auth) .read) with
        | none => exact Or.inl ⟨rfl, Or.inr (Or.inr (Or.inl rfl))⟩
        | some narrow =>
            obtain ⟨groups, hgroups, hspec⟩ := groupsInScope_spec deps db
              (resolve (contextFor db auth) .read) narrow
            by_cases hg : groups = []
            · subst hg
              left
              refine ⟨?_, Or.inr (Or.inr (Or.inr ⟨narrow, rfl, hspec.nil⟩))⟩
              simp only [hgroups]
              rfl
            · right
              refine ⟨collection, narrow, groups, hplan, rfl, hspec, hg, ?_⟩
              have hg' : ¬ groups.isEmpty = true := by simpa using hg
              simp only [hgroups, branchesOf]
              show (if groups.isEmpty = true then _ else _) = _
              rw [if_neg hg', mapM_denseBranch hdeps]
              rfl

/-- A metadata restriction to no values is refused by the builder. -/
theorem metadataClauses_error {metadata : Metadata}
    (h : ∃ entry ∈ metadata, entry.2 = .list []) :
    ∃ msg, metadataClauses metadata = .error msg := by
  induction metadata with
  | nil => simp at h
  | cons entry rest ih =>
      obtain ⟨key, value⟩ := entry
      cases hone : metadataClause key value with
      | error msg => exact ⟨msg, by rw [metadataClauses, hone]; rfl⟩
      | ok clause =>
          have hrest : ∃ entry ∈ rest, entry.2 = .list [] := by
            obtain ⟨entry, hmem, hval⟩ := h
            rcases List.mem_cons.1 hmem with rfl | hmem'
            · simp only at hval
              subst hval
              cases hone
            · exact ⟨entry, hmem', hval⟩
          obtain ⟨msg, hmsg⟩ := ih hrest
          exact ⟨msg, by rw [metadataClauses, hone, hmsg]; rfl⟩

/-- What the vector store is sent: a query whose prefetches are the
branches under one filter, or nothing when the metadata names a value
list that is empty. -/
theorem vectorStoreSearch_spec (orgId collection : String)
    (plan : QueryablePlan) (hplan : plan.1.Reaches) (topK : Nat)
    (branches : List Branch) (hsome : branches ≠ [])
    (honly : ∀ b ∈ branches, b.onlyLayers ≠ some [])
    (hlayers : narrow.layers ≠ some []) :
    (∃ filter query,
      vectorStoreSearch orgId collection plan branches topK narrow
          = .ok (.query collection query)
      ∧ query.prefetch
          = branches.map (prefetchOf { branches, filter, limit := topK })
      ∧ ∀ point : PointPayload, filter.accepts point.field = true
          ↔ point.orgId = orgId ∧ point.deleted = false
            ∧ plan.1.admits point.layerId point.docId = true
            ∧ narrow.admitsLayer point.layerId
            ∧ matchesMetadata (narrow.metadata.getD []) point)
    ∨ (∃ msg, vectorStoreSearch orgId collection plan branches topK narrow
          = .error msg)
      ∧ ∀ point, ¬ matchesMetadata (narrow.metadata.getD []) point := by
  by_cases hm : ∃ entry ∈ narrow.metadata.getD [], entry.2 = .list []
  · right
    constructor
    · obtain ⟨ls, hls, -⟩ := narrowLayers_spec hlayers
      obtain ⟨msg, hmsg⟩ := metadataClauses_error hm
      exact ⟨msg, by rw [vectorStoreSearch, buildFilter, hls, hmsg]; rfl⟩
    · intro point hmatch
      obtain ⟨entry, hmem, hval⟩ := hm
      obtain ⟨v, -, hv⟩ := hmatch entry hmem
      rw [hval] at hv
      cases hv
  · left
    have hnarrow : narrow.NonEmpty := ⟨hlayers, fun e he hval => hm ⟨e, he, hval⟩⟩
    obtain ⟨filter, hfilter, haccepts⟩ :=
      buildFilter_accepts orgId plan hplan narrow hnarrow
    obtain ⟨query, hquery, hprefetch⟩ :=
      buildHybridQuery_prefetch { branches, filter, limit := topK } hsome honly
    refine ⟨filter, query, ?_, hprefetch, haccepts⟩
    rw [vectorStoreSearch, hfilter]
    show (buildHybridQuery { branches, filter, limit := topK } >>= _) = _
    rw [hquery]
    rfl

/-- A live layer the plan admits a document of, and the narrowing admits,
is in scope. -/
theorem mem_scopeLayers {l : LayerRow} (hl : db.LiveLayer l) {doc : String}
    (hallowed : plan.admits l.id doc = true) (hnarrow : narrow.admitsLayer l.id) :
    l ∈ scopeLayers db plan narrow := by
  obtain ⟨-, hmem, hdel⟩ := hl
  have hfirst : (narrow.layers.map fun layers => layers.contains l.id)
      ≠ some false := by
    unfold Narrowing.admitsLayer at hnarrow
    cases hn : narrow.layers with
    | none => simp
    | some layers => simpa using hnarrow layers hn
  refine List.mem_filter.2 ⟨List.mem_filter.2 ⟨hmem, by simp [hdel]⟩, ?_⟩
  unfold inScope
  rw [if_neg hfirst]
  rcases plan with - | - | ⟨layers, extraDocs, deniedDocs⟩
  · cases hallowed
  · rfl
  · simp only [AccessPlan.admits, Bool.and_eq_true, Bool.or_eq_true] at hallowed
    rcases hallowed.1 with h | h
    · simp [List.contains_iff_mem.1 h]
    · cases extraDocs with
      | nil => simp at h
      | cons d ds => simp

/-- What a request that sends a query sends: its prefetches are the
branches of groups of layers, under a filter that accepts the points the
caller is to find, and every such point's layer is in a group. -/
structure Sends (deps : SearchDeps) (db : OrgDb) (auth : AuthContext)
    (query : String) (topK : Nat) (options : SearchOptions) (q : HybridQuery)
    (filter : VectorFilter) (groups : List ModelGroup) (rows : List LayerRow) :
    Prop where
  prefetch : q.prefetch = (branchesOf deps query groups).map
    (prefetchOf {
      branches := branchesOf deps query groups
      filter
      limit := resultLimit deps topK options })
  groups : GroupsSpec rows groups
  accepts : ∀ l point, db.LiveLayer l → PointOf auth l point →
    (filter.accepts point.field = true
      ↔ Finds db auth options (NamedAsSpelled deps.case options l) l point)
  scope : ∀ l point, db.LiveLayer l → PointOf auth l point →
    Finds db auth options (NamedAsSpelled deps.case options l) l point →
    l ∈ rows

/-- A request sends such a query, or there is nothing to find. -/
theorem search_outcome (hdeps : deps.Embeds) (db : OrgDb) (auth : AuthContext)
    (query : String) (topK : Nat) (options : SearchOptions) :
    (∃ collection q filter groups rows,
      search deps db auth query topK options = .ok (.query collection q)
      ∧ Sends deps db auth query topK options q filter groups rows)
    ∨ (∀ collection q, search deps db auth query topK options
          ≠ .ok (.query collection q))
      ∧ ∀ l point, db.LiveLayer l → PointOf auth l point →
          ¬ Finds db auth options (NamedAsSpelled deps.case options l) l point := by
  rcases search_cases hdeps db query topK auth options with
    ⟨hempty, hgate⟩ | ⟨collection, narrow, groups, hplan, hn, hspec, hg, hsearch⟩
  · right
    refine ⟨fun c q h => by simp [hempty] at h, ?_⟩
    intro l point hl hpoint hfind
    rcases hgate with hc | hplan | hn | ⟨narrow, hn, hscope⟩
    · exact hl.1 hc
    · have := hfind.admitted
      rw [hplan] at this
      cases this
    · rcases narrowed_spec deps db auth options
          (resolve (contextFor db auth) .read) with ⟨-, hno⟩ | ⟨n, hn', -⟩
      · exact hno l hl.2.1 _ hfind.admitted hfind.named hfind.delegated
      · rw [hn] at hn'
        cases hn'
    · rcases narrowed_spec deps db auth options
          (resolve (contextFor db auth) .read) with ⟨hn', -⟩ | ⟨n, hn', -, -, hiff⟩
      · rw [hn] at hn'
        cases hn'
      · rw [hn] at hn'
        cases hn'
        have hmem := mem_scopeLayers hl hfind.admitted
          ((hiff l hl.2.1 _ hfind.admitted).2 ⟨hfind.named, hfind.delegated⟩)
        rw [hscope] at hmem
        cases hmem
  · rcases narrowed_spec deps db auth options
        (resolve (contextFor db auth) .read) with ⟨hn', -⟩ | ⟨n, hn', hmeta, hlayers, hiff⟩
    · rw [hn] at hn'
      cases hn'
    · rw [hn] at hn'
      cases hn'
      have hsome : branchesOf deps query groups ≠ [] := by
        unfold branchesOf
        cases groups with
        | nil => exact absurd rfl hg
        | cons g gs => simp
      have honly : ∀ b ∈ branchesOf deps query groups, b.onlyLayers ≠ some [] := by
        intro b hb
        rcases List.mem_append.1 hb with hb | hb
        · obtain ⟨g, hgm, rfl⟩ := List.mem_map.1 hb
          have := (hspec.ids g hgm).1
          unfold groupBranch
          split <;> simp [this]
        · simp only [lexicalBranches] at hb
          split at hb
          · cases hb
          · rw [List.mem_singleton.1 hb]
            simp
      rcases vectorStoreSearch_spec auth.orgId collection
          ⟨resolve (contextFor db auth) .read, hplan⟩ (resolve_reaches hplan)
          (resultLimit deps topK options) _ hsome honly hlayers with
        ⟨filter, q, hq, hprefetch, haccepts⟩ | ⟨⟨msg, herr⟩, hno⟩
      · left
        refine ⟨collection, q, filter, groups, _, hsearch.trans hq, hprefetch,
          hspec, ?_, ?_⟩
        · intro l point hl hpoint
          rw [haccepts point, hpoint.2, hmeta]
          constructor
          · intro hall
            obtain ⟨-, hdel, hallowed, hnarrow, hmatch⟩ := hall
            obtain ⟨hnamed, hdeleg⟩ := (hiff l hl.2.1 _ hallowed).1 hnarrow
            exact ⟨hdel, hallowed, hdeleg, hnamed, hmatch⟩
          · intro hfind
            exact ⟨hpoint.1, hfind.live, hfind.admitted,
              (hiff l hl.2.1 _ hfind.admitted).2 ⟨hfind.named, hfind.delegated⟩,
              hfind.metadata⟩
        · intro l point hl hpoint hfind
          exact mem_scopeLayers hl hfind.admitted
            ((hiff l hl.2.1 _ hfind.admitted).2 ⟨hfind.named, hfind.delegated⟩)
      · right
        refine ⟨fun c q h => ?_, ?_⟩
        · rw [hsearch, herr] at h
          cases h
        · intro l point hl hpoint hfind
          rw [hmeta] at hno
          exact hno point hfind.metadata

/-- In a list with distinct keys, one element has a given one's key. -/
theorem filter_key_eq_singleton {α : Type*} {f : α → String} {xs : List α}
    (hnd : (xs.map f).Nodup) {a : α} (ha : a ∈ xs) :
    (xs.filter fun x => f x == f a) = [a] := by
  induction xs with
  | nil => cases ha
  | cons x xs ih =>
      rw [List.map_cons, List.nodup_cons] at hnd
      rw [List.filter_cons]
      rcases List.mem_cons.1 ha with rfl | ha'
      · have hno : (xs.filter fun x => f x == f a) = [] := by
          rw [List.filter_eq_nil_iff]
          intro y hy hkey
          exact hnd.1 (List.mem_map.2 ⟨y, hy, beq_iff_eq.1 hkey⟩)
        simp [hno]
      · have hne : ¬ (f x == f a) = true := fun hkey =>
          hnd.1 (List.mem_map.2 ⟨a, ha', (beq_iff_eq.1 hkey).symm⟩)
        rw [if_neg hne]
        exact ih hnd.2 ha'

/-- A point to be found is accepted by one dense prefetch, the one of its
layer's vector. -/
theorem Sends.one_dense {query : String} {topK : Nat} {q : HybridQuery}
    {filter : VectorFilter} {groups : List ModelGroup} {rows : List LayerRow}
    (h : Sends deps db auth query topK options q filter groups rows)
    {l : LayerRow} {point : PointPayload} (hl : db.LiveLayer l)
    (hpoint : PointOf auth l point)
    (hfind : Finds db auth options (NamedAsSpelled deps.case options l) l point) :
    ∃ clause, (q.prefetch.filter fun c =>
        c.isDense && c.filter.accepts point.field) = [clause]
      ∧ clause.usingVector = l.vectorName := by
  have haccepts := (h.accepts l point hl hpoint).2 hfind
  obtain ⟨g, hg, hname⟩ := h.groups.found l (h.scope l point hl hpoint hfind)
  -- A group's branch accepts the point iff the group is its layer's.
  have hbranch : ∀ g' ∈ groups,
      (branchFilter filter (groupBranch deps query (1 < groups.length) g')).accepts
          point.field = (g'.vectorName == g.vectorName) := by
    intro g' hg'
    rw [Bool.eq_iff_iff, branchFilter_accepts, beq_iff_eq]
    have hids := (h.groups.ids g' hg').2 l (h.scope l point hl hpoint hfind)
    by_cases hseveral : 1 < groups.length
    · simp only [haccepts, true_and, groupBranch, hseveral, decide_true, if_true,
        Option.some.injEq, forall_eq', hpoint.2, hids, hname]
      exact eq_comm
    · have hone : g' = g := by
        have hlen : groups.length ≤ 1 := Nat.le_of_not_lt hseveral
        obtain _ | ⟨x, _ | ⟨y, rest⟩⟩ := groups
        · cases hg
        · rw [List.mem_singleton.1 hg, List.mem_singleton.1 hg']
        · simp at hlen
      simp [haccepts, groupBranch, hseveral, hone]
  refine ⟨prefetchOf {
      branches := branchesOf deps query groups
      filter
      limit := resultLimit deps topK options }
    (groupBranch deps query (1 < groups.length) g), ?_, hname⟩
  have hlex : (((lexicalBranches deps query).map (prefetchOf {
        branches := branchesOf deps query groups
        filter
        limit := resultLimit deps topK options })).filter fun c =>
          c.isDense && c.filter.accepts point.field) = [] := by
    simp only [lexicalBranches]
    split
    · rfl
    · rfl
  have hgroups : (groups.filter fun g' =>
      (branchFilter filter (groupBranch deps query (1 < groups.length) g')).accepts
        point.field) = [g] := by
    rw [List.filter_congr hbranch]
    exact filter_key_eq_singleton h.groups.names hg
  rw [h.prefetch, branchesOf, List.map_append, List.filter_append, ← branchesOf,
    hlex, List.append_nil, List.map_map, List.filter_map]
  have hcongr : (groups.filter ((fun c : PrefetchClause =>
        c.isDense && c.filter.accepts point.field) ∘ (prefetchOf {
          branches := branchesOf deps query groups
          filter
          limit := resultLimit deps topK options }
        ∘ groupBranch deps query (1 < groups.length)))) = [g] := hgroups
  rw [hcongr]
  rfl

-- ========================================================== the contract

/-- A point of a live layer is eligible iff it is to be found, slugs
compared as they are spelled. -/
theorem eligible_iff_spelled (hdeps : deps.Embeds) (query : String)
    (topK : Nat) {l : LayerRow} {point : PointPayload} (hl : db.LiveLayer l)
    (hpoint : PointOf auth l point) :
    Eligible deps db auth query topK options point
      ↔ Finds db auth options (NamedAsSpelled deps.case options l) l point := by
  rcases search_outcome hdeps db auth query topK options with
    ⟨collection, q, filter, groups, rows, hsearch, hsends⟩ | ⟨hno, hnone⟩
  · constructor
    · intro hex
      obtain ⟨c, q', hsearch', clause, hclause, haccepts⟩ := hex
      rw [hsearch] at hsearch'
      cases hsearch'
      rw [hsends.prefetch] at hclause
      obtain ⟨branch, -, rfl⟩ := List.mem_map.1 hclause
      have := ((branchFilter_accepts filter branch point).1 haccepts).1
      exact (hsends.accepts l point hl hpoint).1 this
    · intro hfind
      obtain ⟨clause, hone, -⟩ := hsends.one_dense hl hpoint hfind
      have hmem : clause ∈ q.prefetch.filter fun c =>
          c.isDense && c.filter.accepts point.field := by
        rw [hone]
        exact List.mem_singleton_self _
      rw [List.mem_filter, Bool.and_eq_true] at hmem
      exact ⟨collection, q, hsearch, clause, hmem.1, hmem.2.2⟩
  · constructor
    · intro hex
      obtain ⟨c, q, hsearch, -⟩ := hex
      exact absurd hsearch (hno c q)
    · intro hfind
      exact absurd hfind (hnone l point hl hpoint)

/-- A slug the request is read as naming is in lower case. -/
theorem toLowerCase_of_mem_wantedSlugs {case : Js.CaseMapping}
    {slugs : List String} {s : String} (h : s ∈ wantedSlugs case slugs) :
    case.toLowerCase s = s := by
  have hmem := List.mem_of_mem_take h
  rw [List.mem_eraseDups, List.mem_filter, List.mem_map] at hmem
  obtain ⟨⟨raw, -, rfl⟩, -⟩ := hmem
  exact case.idem _

/-- Of a layer stored in lower case if it is named, the two comparisons
say the same. -/
theorem namedUpToCase_iff {l : LayerRow}
    (h : deps.case.toLowerCase l.slug ∈ wantedSlugs deps.case options.slugs →
      deps.case.toLowerCase l.slug = l.slug) :
    NamedUpToCase deps.case options l ↔ NamedAsSpelled deps.case options l := by
  unfold NamedUpToCase NamedAsSpelled
  constructor
  · intro hup hne
    have := hup hne
    rwa [h this] at this
  · intro hsp hne
    have := hsp hne
    rwa [toLowerCase_of_mem_wantedSlugs this]

/-- What a delegation finds, its person finds. -/
theorem Finds.undelegated {named : Prop} {l : LayerRow} {point : PointPayload}
    (h : Finds db auth options named l point) :
    Finds db auth.undelegated options named l point := by
  refine ⟨h.live, ?_, fun admitted hd => (by cases hd), h.named, h.metadata⟩
  have hallowed := h.admitted
  rw [resolve_ceiling] at hallowed
  split at hallowed
  · cases hallowed
  · exact hallowed

/-- A host with ASCII letters, one embedder, no lexical terms. -/
def sampleDeps : SearchDeps where
  case := Js.asciiCase
  endpointOrigin := some
  embed _ _ := some [1, 0]
  encodeQuery _ := ⟨[], []⟩
  reranker := false
  rerankCandidates := none

theorem sampleDeps_embeds : sampleDeps.Embeds := by
  intro provider query h
  cases h

/-- An organization with one layer, under the given slug. -/
def oneLayerDb (slug : String) : OrgDb where
  vectorCollection := some "org_acme"
  layers := [⟨"l1", "w1", slug, "v_m_2", ⟨"p1", "http://e", "m", 2⟩, false⟩]
  documents := [{ id := "d1", layerId := "l1" }]
  grants := []
  effectivePrincipals p := [principalRef p]
  layers_key := by simp
  documents_key := by simp
  documents_layer := by simp
  layers_vector := by
    intro l hl _
    rw [List.mem_singleton.1 hl]
    show vectorName "m" 2 = "v_m_2"
    decide
  grants_uuid := by simp

def adminAuth : AuthContext := ⟨"acme", ⟨.user, "ann"⟩, .orgAdmin, none⟩

/-- A point of the one layer. -/
def samplePoint : PointPayload := ⟨"acme", "l1", "d1", "c1", 0, false, []⟩

def handbookOptions : SearchOptions := { layers := some ["Handbook"] }

end Nacre.Api
