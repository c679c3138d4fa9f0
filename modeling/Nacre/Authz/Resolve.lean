/-
The two algorithms of the permission model and their agreement.

`referenceAllows` (core/authz/reference.ts) answers one question at a
time: may these principals do this to this one scope. It walks the
scope's ancestry. `resolve` (core/authz/resolve.ts) answers the inverse,
the whole permitted set, by expanding grants downward and subtracting.
Both are translated here statement by statement.

# The statement of purpose

`permitted` is what the rules say, as a set of scopes: deny overrides
allow at any depth over the grants that apply (`DenyOverrides.granted`,
with a grant covering a scope when the grant's scope is on its ancestry
chain), below the role rules and the token's ceiling. Neither algorithm
is read to write it.

# The argument

- `referenceAllows_iff`: the reference decides membership in
  `permitted`. Immediate, as the source intends.
- `mem_coveredLayers`: expanding one side's layer and workspace grants
  downward is the set of layers that side covers. This is the only place
  the tree's two directions have to agree.
- `mem_planLayers`, `mem_admitted_doc`: the plan's layers are
  `granted` at layers, and the plan's three lists together are
  `DenyOverrides.mem_granted_nested` at a placed document: the second
  disjunct there is `extraDocs`, the outer conjunct is `deniedDocs`.
-/
import Nacre.Lib.Js
import Nacre.Lib.DenyOverrides
import Nacre.Authz.Types

namespace Nacre.Authz

open DenyOverrides (covered granted mem_granted_nested mem_covered_nested)

-- ================================================================ inputs

/-- What the caller may reach, in the shape a pre-filter needs. -/
inductive AccessPlan where
  | none
  | all
  /-- Layers reached in full, documents reached outside those layers, and
  documents excluded even inside an allowed layer. -/
  | scoped (layers extraDocs deniedDocs : List String)
  deriving DecidableEq, Repr

/-- The grants of a request and what they are weighed against. The two
input interfaces of the source have the same fields. -/
structure ResolveInput where
  orgId : String
  role : OrgRole
  principals : List PrincipalRef
  grants : List Grant
  tree : ScopeTree
  /-- The permissions this token may exercise, when it is a delegation. -/
  ceiling : Option (List Permission)

/-- A ceiling is present and does not hold the permission. -/
def ResolveInput.outsideCeiling (input : ResolveInput) (p : Permission) :
    Bool :=
  match input.ceiling with
  | Option.none => false
  | some ceiling => !ceiling.contains p

/-- Rule 1 and the principal match, before any permission is asked. -/
def ResolveInput.mine (input : ResolveInput) (g : Grant) : Bool :=
  g.orgId == input.orgId && input.principals.contains (principalRef g.principal)

-- =============================================================== resolve

/-- The grants `resolve` weighs: this tenant's, these principals', and
satisfying the request. -/
def applicable (input : ResolveInput) (p : Permission) : List Grant :=
  input.grants.filter fun g => input.mine g && satisfies g.permission p

/-- The ids one side collects at one depth, a set in insertion order. -/
def idsOf (grants : List Grant) (effect : Effect) (type : ScopeType) :
    List String :=
  ((grants.filter fun g => g.effect == effect && g.scope.type == type).map
    fun g => g.scope.id).eraseDups

/-- Rule 4 downward: one side's workspaces expanded to their layers. -/
def expand (tree : ScopeTree) (workspaces : List String) : List String :=
  workspaces.flatMap tree.layersOf

/-- The layers one side covers, by name or through a workspace. -/
def coveredLayers (tree : ScopeTree) (grants : List Grant)
    (effect : Effect) : List String :=
  idsOf grants effect .layer ++ expand tree (idsOf grants effect .workspace)

/-- Rule 5: subtract, never compare depth. -/
def planLayers (tree : ScopeTree) (grants : List Grant) : List String :=
  ((expand tree (idsOf grants .allow .workspace)
      ++ idsOf grants .allow .layer).filter fun l =>
    !(coveredLayers tree grants .deny).contains l).eraseDups

/-- Whether a document-scoped allow adds the document on its own: not
denied by name, placeable, under no denied ancestor, and not already
covered by a layer of the plan. -/
def isExtraDoc (tree : ScopeTree) (grants : List Grant) (doc : String) :
    Bool :=
  if (idsOf grants .deny .document).contains doc then false
  else
    match tree.layerOf doc with
    | none => false
    | some layer =>
        if (coveredLayers tree grants .deny).contains layer then false
        else
          match tree.workspaceOf layer with
          | some workspace =>
              if (idsOf grants .deny .workspace).contains workspace then false
              else !(planLayers tree grants).contains layer
          | none => !(planLayers tree grants).contains layer

def planExtraDocs (tree : ScopeTree) (grants : List Grant) : List String :=
  (idsOf grants .allow .document).filter (isExtraDoc tree grants)

/-- Turn grants into the set of things the caller may reach. -/
def resolve (input : ResolveInput) (p : Permission) : AccessPlan :=
  -- The ceiling stands before rule 3, which reads no grant.
  if input.outsideCeiling p then .none
  else
    match input.role with
    | .platformAdmin => .none
    | .orgAdmin => .all
    | .member =>
        let grants := applicable input p
        let layers := planLayers input.tree grants
        let extraDocs := planExtraDocs input.tree grants
        if layers.isEmpty && extraDocs.isEmpty then .none
        else
          .scoped (Js.sortStrings layers) (Js.sortStrings extraDocs)
            (Js.sortStrings (idsOf grants .deny .document))

-- ============================================================= reference

/-- May these principals do this to this one scope? The rules one at a
time. -/
def referenceAllows (input : ResolveInput) (scope : Scope)
    (p : Permission) : Bool :=
  if input.outsideCeiling p then false
  else
    match input.role with
    | .platformAdmin => false
    | .orgAdmin => true
    | .member =>
        let mine := input.grants.filter input.mine
        let chain := ancestry scope input.tree
        let applicable := mine.filter fun g =>
          (chain.any fun s => s.type == g.scope.type && s.id == g.scope.id)
            && satisfies g.permission p
        if applicable.any fun g => g.effect == .deny then false
        else applicable.any fun g => g.effect == .allow

-- ========================================================= plan readings

/-- The plan admits a document of this layer. -/
def AccessPlan.admits (plan : AccessPlan) (layer doc : String) : Bool :=
  match plan with
  | .none => false
  | .all => true
  | .scoped layers extraDocs deniedDocs =>
      (layers.contains layer || extraDocs.contains doc)
        && !deniedDocs.contains doc

/-- The plan reaches the whole layer. -/
def AccessPlan.reachesLayer (plan : AccessPlan) (layer : String) : Bool :=
  match plan with
  | .none => false
  | .all => true
  | .scoped layers _ _ => layers.contains layer

/-- The documents the plan adds outside its layers. -/
def AccessPlan.extraDocs : AccessPlan → List String
  | .scoped _ extraDocs _ => extraDocs
  | _ => []

/-- The documents the plan leaves out of its layers. -/
def AccessPlan.deniedDocs : AccessPlan → List String
  | .scoped _ _ deniedDocs => deniedDocs
  | _ => []

-- ================================================== the rules, as a set

/-- The applicable grants of one effect, as a rule set. -/
def rules (input : ResolveInput) (p : Permission) (effect : Effect) :
    Set Grant :=
  {g | g ∈ applicable input p ∧ g.effect = effect}

/-- Rule 4: a grant reaches everything nested under its scope. -/
def grantCovers (tree : ScopeTree) (g : Grant) (scope : Scope) : Prop :=
  g.scope ∈ ancestry scope tree

/-- The scopes the rules permit: the ceiling, then the roles, then deny
overrides allow over the applicable grants. -/
def permitted (input : ResolveInput) (p : Permission) : Set Scope :=
  {scope | input.outsideCeiling p = false ∧
    (input.role = .orgAdmin ∨
      input.role = .member ∧
        scope ∈ granted (grantCovers input.tree)
          (rules input p .allow) (rules input p .deny))}

variable {input : ResolveInput} {p : Permission}

theorem mem_rules {effect : Effect} {g : Grant} :
    g ∈ rules input p effect ↔
      (g ∈ input.grants ∧ input.mine g = true
        ∧ satisfies g.permission p = true) ∧ g.effect = effect := by
  simp [rules, applicable, List.mem_filter]

/-- One side covers a scope iff the reference's filtered list has a
grant of that effect. -/
theorem any_effect_iff_covered (input : ResolveInput) (p : Permission)
    (effect : Effect) (scope : Scope) :
    (((input.grants.filter input.mine).filter fun g =>
        ((ancestry scope input.tree).any fun s =>
          s.type == g.scope.type && s.id == g.scope.id)
          && satisfies g.permission p).any fun g => g.effect == effect) = true
      ↔ scope ∈ covered (grantCovers input.tree) (rules input p effect) := by
  have hchain : ∀ g : Grant,
      ((ancestry scope input.tree).any fun s =>
        s.type == g.scope.type && s.id == g.scope.id) = true
        ↔ grantCovers input.tree g scope := by
    intro g
    rw [List.any_eq_true, grantCovers]
    constructor
    · intro hex
      obtain ⟨s, hs, hm⟩ := hex
      simp only [Bool.and_eq_true, beq_iff_eq] at hm
      have : s = g.scope := by
        cases s
        cases hg : g.scope
        simp_all
      exact this ▸ hs
    · intro hg
      exact ⟨g.scope, hg, by simp⟩
  rw [List.any_eq_true]
  constructor
  · intro hex
    obtain ⟨g, hg, he⟩ := hex
    simp only [List.mem_filter, Bool.and_eq_true, hchain, beq_iff_eq] at hg he
    exact ⟨g, mem_rules.2 ⟨⟨hg.1.1, hg.1.2, hg.2.2⟩, he⟩, hg.2.1⟩
  · intro hex
    obtain ⟨g, hg, hcov⟩ := hex
    obtain ⟨⟨hmem, hmine, hsat⟩, he⟩ := mem_rules.1 hg
    refine ⟨g, ?_, by simpa using he⟩
    simp only [List.mem_filter, Bool.and_eq_true, hchain]
    exact ⟨⟨hmem, hmine⟩, hcov, hsat⟩

/-- The reference decides membership in `permitted`. -/
theorem referenceAllows_iff (input : ResolveInput) (scope : Scope)
    (p : Permission) :
    referenceAllows input scope p = true ↔ scope ∈ permitted input p := by
  unfold referenceAllows permitted
  cases hc : input.outsideCeiling p with
  | true => simp
  | false =>
      cases hr : input.role with
      | platformAdmin => simp
      | orgAdmin => simp
      | member =>
          have hdeny := any_effect_iff_covered input p .deny scope
          have hallow := any_effect_iff_covered input p .allow scope
          simp only [Bool.false_eq_true, if_false]
          split
          next hd =>
            have hcov := hdeny.1 hd
            simp only [false_iff, Bool.false_eq_true]
            intro hall
            obtain ⟨-, h | ⟨-, h⟩⟩ := hall
            · cases h
            · exact h.2 hcov
          next hd =>
            rw [hallow]
            constructor
            · intro ha
              exact ⟨trivial, Or.inr ⟨trivial, ha, fun h => hd (hdeny.2 h)⟩⟩
            · intro hall
              obtain ⟨-, h | ⟨-, h⟩⟩ := hall
              · cases h
              · exact h.1

-- ========================================================== resolve's sets

/-- The ids one side collects at one depth are those its rules name. -/
theorem mem_idsOf {effect : Effect} {type : ScopeType} {id : String} :
    id ∈ idsOf (applicable input p) effect type
      ↔ ∃ g ∈ rules input p effect, g.scope = ⟨type, id⟩ := by
  simp only [idsOf, List.mem_eraseDups, List.mem_map, List.mem_filter,
    Bool.and_eq_true, beq_iff_eq]
  constructor
  · intro hex
    obtain ⟨g, ⟨hg, he, ht⟩, hid⟩ := hex
    refine ⟨g, ⟨hg, he⟩, ?_⟩
    rw [← ht, ← hid]
  · intro hex
    obtain ⟨g, ⟨hg, he⟩, hs⟩ := hex
    exact ⟨g, ⟨hg, he, by rw [hs]⟩, by rw [hs]⟩

/-- A grant covers a layer by naming it or by naming its workspace. -/
theorem grantCovers_layer {tree : ScopeTree} {g : Grant} {l : String} :
    grantCovers tree g ⟨.layer, l⟩
      ↔ g.scope = ⟨.layer, l⟩
        ∨ ∃ w, tree.workspaceOf l = some w ∧ g.scope = ⟨.workspace, w⟩ := by
  simp only [grantCovers, ancestry, layerAncestry]
  cases tree.workspaceOf l with
  | none => simp
  | some w => simp

/-- A grant covers a placed document by naming it or by covering its
layer. -/
theorem grantCovers_document {tree : ScopeTree} {g : Grant} {d l : String}
    (hd : tree.layerOf d = some l) :
    grantCovers tree g ⟨.document, d⟩
      ↔ g.scope = ⟨.document, d⟩ ∨ grantCovers tree g ⟨.layer, l⟩ := by
  simp [grantCovers, ancestry, hd]

/-- Expanding one side downward gives exactly the layers it covers. -/
theorem mem_coveredLayers (hagree : input.tree.Agrees) (effect : Effect)
    {l : String} :
    l ∈ coveredLayers input.tree (applicable input p) effect
      ↔ (⟨.layer, l⟩ : Scope)
          ∈ covered (grantCovers input.tree) (rules input p effect) := by
  simp only [coveredLayers, expand, List.mem_append, List.mem_flatMap,
    mem_idsOf, hagree l]
  constructor
  · intro hor
    rcases hor with ⟨g, hg, hs⟩ | ⟨w, ⟨g, hg, hs⟩, hw⟩
    · exact ⟨g, hg, grantCovers_layer.2 (Or.inl hs)⟩
    · exact ⟨g, hg, grantCovers_layer.2 (Or.inr ⟨w, hw, hs⟩)⟩
  · intro hex
    obtain ⟨g, hg, hcov⟩ := hex
    rcases grantCovers_layer.1 hcov with hs | ⟨w, hw, hs⟩
    · exact Or.inl ⟨g, hg, hs⟩
    · exact Or.inr ⟨w, ⟨g, hg, hs⟩, hw⟩

/-- The plan's layers are the granted ones. -/
theorem mem_planLayers (hagree : input.tree.Agrees) {l : String} :
    l ∈ planLayers input.tree (applicable input p)
      ↔ (⟨.layer, l⟩ : Scope) ∈ granted (grantCovers input.tree)
          (rules input p .allow) (rules input p .deny) := by
  have hallow := mem_coveredLayers (p := p) hagree .allow (l := l)
  have hdeny := mem_coveredLayers (p := p) hagree .deny (l := l)
  simp only [planLayers, List.mem_eraseDups, List.mem_filter,
    Bool.not_eq_true', ← Bool.not_eq_true, List.contains_iff_mem,
    List.mem_append]
  rw [or_comm, ← List.mem_append, ← coveredLayers, hallow, hdeny]
  rfl

/-- A document the plan adds on its own is named by an allow, placed,
under no denied ancestor and in no layer of the plan. -/
theorem mem_planExtraDocs (hagree : input.tree.Agrees) {d : String} :
    d ∈ planExtraDocs input.tree (applicable input p)
      ↔ (∃ g ∈ rules input p .allow, g.scope = ⟨.document, d⟩)
        ∧ (¬ ∃ g ∈ rules input p .deny, g.scope = ⟨.document, d⟩)
        ∧ ∃ l, input.tree.layerOf d = some l
          ∧ (⟨.layer, l⟩ : Scope)
              ∉ covered (grantCovers input.tree) (rules input p .deny)
          ∧ l ∉ planLayers input.tree (applicable input p) := by
  simp only [planExtraDocs, List.mem_filter, mem_idsOf]
  refine and_congr_right fun _ => ?_
  unfold isExtraDoc
  split
  next hdoc =>
    have hdoc' := mem_idsOf.1 (List.contains_iff_mem.1 hdoc)
    simp [hdoc']
  next hdoc =>
    have hdoc' : ¬ ∃ g ∈ rules input p .deny, g.scope = ⟨.document, d⟩ :=
      fun h => hdoc (List.contains_iff_mem.2 (mem_idsOf.2 h))
    cases hl : input.tree.layerOf d with
    | none => simp
    | some l =>
        have hcov := mem_coveredLayers (p := p) hagree .deny (l := l)
        simp only [hdoc', not_false_eq_true, true_and, Option.some.injEq,
          exists_eq_left']
        split
        next hden =>
          have := hcov.1 (List.contains_iff_mem.1 hden)
          simp [this]
        next hden =>
          have hden' : (⟨.layer, l⟩ : Scope)
              ∉ covered (grantCovers input.tree) (rules input p .deny) :=
            fun h => hden (List.contains_iff_mem.2 (hcov.2 h))
          -- The workspace test repeats what `deniedLayers` already holds.
          have hws : ∀ w, input.tree.workspaceOf l = some w →
              w ∉ idsOf (applicable input p) .deny .workspace := by
            intro w hw hmem
            obtain ⟨g, hg, hs⟩ := mem_idsOf.1 hmem
            exact hden' ⟨g, hg, grantCovers_layer.2 (Or.inr ⟨w, hw, hs⟩)⟩
          cases hw : input.tree.workspaceOf l with
          | none => simp [hden']
          | some w => simp [hws w hw, hden']

/-- The plan's three lists at a placed document are the granted set
there. -/
theorem mem_admitted_doc (hagree : input.tree.Agrees) {d l : String}
    (hd : input.tree.layerOf d = some l) :
    (l ∈ planLayers input.tree (applicable input p)
        ∨ d ∈ planExtraDocs input.tree (applicable input p))
      ∧ d ∉ idsOf (applicable input p) .deny .document
      ↔ (⟨.document, d⟩ : Scope) ∈ granted (grantCovers input.tree)
          (rules input p .allow) (rules input p .deny) := by
  rw [mem_granted_nested (⟨.layer, l⟩ : Scope)
    (fun g => grantCovers_document hd), mem_idsOf, mem_planExtraDocs hagree]
  simp only [hd, Option.some.injEq, exists_eq_left', mem_planLayers hagree]
  constructor
  · intro hall
    obtain ⟨hl | ⟨hn, -, hden, -⟩, hno⟩ := hall
    · exact ⟨Or.inl hl, hno⟩
    · exact ⟨Or.inr ⟨hn, hden⟩, hno⟩
  · intro hall
    obtain ⟨hl | ⟨hn, hden⟩, hno⟩ := hall
    · exact ⟨Or.inl hl, hno⟩
    · by_cases hl : (⟨.layer, l⟩ : Scope) ∈ granted (grantCovers input.tree)
          (rules input p .allow) (rules input p .deny)
      · exact ⟨Or.inl hl, hno⟩
      · exact ⟨Or.inr ⟨hn, hno, hden, hl⟩, hno⟩

-- ============================================================ one spec

/-- What `resolve` answers for a member inside the ceiling: the plan's
three lists, or `none` when the first two are empty. -/
theorem resolve_member (hc : input.outsideCeiling p = false)
    (hr : input.role = .member) :
    resolve input p
      = if (planLayers input.tree (applicable input p)).isEmpty
            && (planExtraDocs input.tree (applicable input p)).isEmpty then
          .none
        else
          .scoped (Js.sortStrings (planLayers input.tree (applicable input p)))
            (Js.sortStrings (planExtraDocs input.tree (applicable input p)))
            (Js.sortStrings (idsOf (applicable input p) .deny .document)) := by
  simp [resolve, hc, hr]

/-- A ceiling only takes away: inside it the plan is the one with no
ceiling, outside it there is none. -/
theorem resolve_ceiling (input : ResolveInput) (p : Permission) :
    resolve input p
      = if input.outsideCeiling p then .none
        else resolve { input with ceiling := none } p := by
  cases hc : input.outsideCeiling p with
  | true => simp [resolve, hc]
  | false =>
      rw [resolve, hc]
      rfl

/-- A plan of a member, read at a layer and a document. -/
theorem resolve_member_admits (hc : input.outsideCeiling p = false)
    (hr : input.role = .member) (l d : String) :
    (resolve input p).admits l d = true
      ↔ (l ∈ planLayers input.tree (applicable input p)
          ∨ d ∈ planExtraDocs input.tree (applicable input p))
        ∧ d ∉ idsOf (applicable input p) .deny .document := by
  rw [resolve_member hc hr]
  split
  next he =>
    simp only [Bool.and_eq_true, List.isEmpty_iff] at he
    simp [AccessPlan.admits, he.1, he.2]
  next => simp [AccessPlan.admits]

/-- What a plan answers at one document needs of the tree its workspaces
and, if a grant names the document, its place. -/
theorem resolve_admits_congr (input' input : ResolveInput)
    (hceiling : input'.outsideCeiling p = input.outsideCeiling p)
    (hrole : input'.role = input.role)
    (happ : applicable input' p = applicable input p)
    (hlayers : input'.tree.layersOf = input.tree.layersOf)
    (hws : input'.tree.workspaceOf = input.tree.workspaceOf) {d : String}
    (hd : d ∈ idsOf (applicable input p) .allow .document →
      input'.tree.layerOf d = input.tree.layerOf d) (l : String) :
    (resolve input' p).admits l d = true
      ↔ (resolve input p).admits l d = true := by
  have hcov : ∀ effect, coveredLayers input'.tree (applicable input p) effect
      = coveredLayers input.tree (applicable input p) effect := by
    intro effect
    rw [coveredLayers, coveredLayers, expand, expand, hlayers]
  have hplan : planLayers input'.tree (applicable input p)
      = planLayers input.tree (applicable input p) := by
    rw [planLayers, planLayers, expand, expand, hlayers, hcov]
  have hextra : d ∈ planExtraDocs input'.tree (applicable input p)
      ↔ d ∈ planExtraDocs input.tree (applicable input p) := by
    simp only [planExtraDocs, List.mem_filter]
    refine and_congr_right fun hnamed => ?_
    simp only [isExtraDoc, hd hnamed, hws, hplan, hcov]
  cases hc : input.outsideCeiling p with
  | true =>
      rw [hc] at hceiling
      simp [resolve, hc, hceiling, AccessPlan.admits]
  | false =>
      rw [hc] at hceiling
      cases hr : input.role with
      | platformAdmin =>
          rw [hr] at hrole
          simp [resolve, hc, hceiling, hr, hrole, AccessPlan.admits]
      | orgAdmin =>
          rw [hr] at hrole
          simp [resolve, hc, hceiling, hr, hrole, AccessPlan.admits]
      | member =>
          rw [hr] at hrole
          rw [resolve_member_admits hc hr l d,
            resolve_member_admits hceiling hrole l d, happ, hplan, hextra]

/-- At a document no grant names, a plan answers for the layer. -/
theorem resolve_admits_unnamed {d : String}
    (hd : ∀ g ∈ applicable input p, g.scope ≠ ⟨.document, d⟩) (l : String) :
    (resolve input p).admits l d = true
      ↔ (resolve input p).reachesLayer l = true := by
  have hno : ∀ effect, d ∉ idsOf (applicable input p) effect .document := by
    intro effect hmem
    obtain ⟨g, hg, hs⟩ := mem_idsOf.1 hmem
    exact hd g hg.1 hs
  have hextra : d ∉ planExtraDocs input.tree (applicable input p) := fun h =>
    hno .allow (List.mem_filter.1 h).1
  cases hc : input.outsideCeiling p with
  | true => simp [resolve, hc, AccessPlan.admits, AccessPlan.reachesLayer]
  | false =>
      cases hr : input.role with
      | platformAdmin =>
          simp [resolve, hc, hr, AccessPlan.admits, AccessPlan.reachesLayer]
      | orgAdmin =>
          simp [resolve, hc, hr, AccessPlan.admits, AccessPlan.reachesLayer]
      | member =>
          rw [resolve_member_admits hc hr l d, resolve_member hc hr]
          split
          next he =>
            simp only [Bool.and_eq_true, List.isEmpty_iff] at he
            simp [he.1, hextra, AccessPlan.reachesLayer]
          next => simp [hextra, hno, AccessPlan.reachesLayer]

/-- A plan admits a placed document exactly when the rules permit it. -/
theorem resolve_admits_iff_permitted (hagree : input.tree.Agrees)
    {d l : String} (hd : input.tree.layerOf d = some l) :
    (resolve input p).admits l d = true
      ↔ (⟨.document, d⟩ : Scope) ∈ permitted input p := by
  cases hc : input.outsideCeiling p with
  | true => simp [resolve, permitted, AccessPlan.admits, hc]
  | false =>
      cases hr : input.role with
      | platformAdmin => simp [resolve, permitted, AccessPlan.admits, hc, hr]
      | orgAdmin => simp [resolve, permitted, AccessPlan.admits, hc, hr]
      | member =>
          rw [resolve_member_admits hc hr, mem_admitted_doc hagree hd]
          simp [permitted, hc, hr]

/-- A plan reaches a layer exactly when the rules permit it. -/
theorem resolve_reachesLayer_iff_permitted (hagree : input.tree.Agrees)
    {l : String} :
    (resolve input p).reachesLayer l = true
      ↔ (⟨.layer, l⟩ : Scope) ∈ permitted input p := by
  cases hc : input.outsideCeiling p with
  | true => simp [resolve, permitted, AccessPlan.reachesLayer, hc]
  | false =>
      cases hr : input.role with
      | platformAdmin =>
          simp [resolve, permitted, AccessPlan.reachesLayer, hc, hr]
      | orgAdmin => simp [resolve, permitted, AccessPlan.reachesLayer, hc, hr]
      | member =>
          rw [resolve_member hc hr]
          split
          next he =>
            simp only [Bool.and_eq_true, List.isEmpty_iff] at he
            have := mem_planLayers (p := p) hagree (l := l)
            rw [he.1] at this
            simp [AccessPlan.reachesLayer, permitted, hc, hr, ← this]
          next =>
            simp [AccessPlan.reachesLayer, permitted, hc, hr,
              mem_planLayers hagree]

/-- The extra documents of a plan are those of its member branch. -/
theorem mem_resolve_extraDocs {d : String}
    (hd : d ∈ (resolve input p).extraDocs) :
    d ∈ planExtraDocs input.tree (applicable input p) := by
  cases hc : input.outsideCeiling p with
  | true => simp [resolve, AccessPlan.extraDocs, hc] at hd
  | false =>
      cases hr : input.role with
      | platformAdmin => simp [resolve, AccessPlan.extraDocs, hc, hr] at hd
      | orgAdmin => simp [resolve, AccessPlan.extraDocs, hc, hr] at hd
      | member =>
          rw [resolve_member hc hr] at hd
          split at hd
          · simp [AccessPlan.extraDocs] at hd
          · simpa [AccessPlan.extraDocs] using hd

-- ========================================================= the agreement

/-- `resolve` and `referenceAllows` are one decision: at every placed
document, at every layer, and with no document the tree cannot place
among the extra ones. -/
theorem resolve_agrees_reference (input : ResolveInput) (p : Permission)
    (hagree : input.tree.Agrees) :
    (∀ d l, input.tree.layerOf d = some l →
        ((resolve input p).admits l d = true
          ↔ referenceAllows input ⟨.document, d⟩ p = true))
      ∧ (∀ l, (resolve input p).reachesLayer l = true
          ↔ referenceAllows input ⟨.layer, l⟩ p = true)
      ∧ ∀ d, input.tree.layerOf d = none →
          d ∉ (resolve input p).extraDocs := by
  refine ⟨?_, ?_, ?_⟩
  · intro d l hd
    rw [resolve_admits_iff_permitted hagree hd, referenceAllows_iff]
  · intro l
    rw [resolve_reachesLayer_iff_permitted hagree, referenceAllows_iff]
  · intro d hd hmem
    have hextra := (mem_planExtraDocs hagree).1 (mem_resolve_extraDocs hmem)
    obtain ⟨-, -, l, hl, -⟩ := hextra
    rw [hd] at hl
    cases hl

/-- A small organization: two layers in one workspace, one in another,
a document in each of the first two. -/
def sampleTree : ScopeTree :=
  MemoryScopeTree
    { layers := [("w1", ["l1", "l2"]), ("w2", ["l3"])]
      documents := [("d1", "l1"), ("d2", "l2")] }

theorem sampleTree_agrees : sampleTree.Agrees := by
  refine memoryScopeTree_agrees ⟨by decide, ?_⟩
  intro e he e' he' l hl hl'
  simp only [List.mem_cons, List.not_mem_nil, or_false] at he he'
  rcases he with rfl | rfl <;> rcases he' with rfl | rfl <;> simp_all

/-- Alice reads workspace `w1`, is denied document `d1`, and is granted a
document the tree does not hold; the last grant is another tenant's. -/
def sampleInput : ResolveInput where
  orgId := "acme"
  role := .member
  principals := ["user:alice"]
  grants :=
    [ ⟨"acme", ⟨.user, "alice"⟩, ⟨.workspace, "w1"⟩, .read, .allow⟩,
      ⟨"acme", ⟨.user, "alice"⟩, ⟨.document, "d1"⟩, .read, .deny⟩,
      ⟨"acme", ⟨.user, "alice"⟩, ⟨.document, "gone"⟩, .admin, .allow⟩,
      ⟨"other", ⟨.user, "alice"⟩, ⟨.layer, "l3"⟩, .read, .allow⟩ ]
  tree := sampleTree
  ceiling := none

/-- The agreement at the sample: the denied document is refused, its
neighbour is admitted, the foreign grant reaches nothing. -/
theorem resolve_agrees_reference_sample :
    resolve sampleInput .read = .scoped ["l1", "l2"] [] ["d1"]
      ∧ ((resolve sampleInput .read).admits "l1" "d1" = true
          ↔ referenceAllows sampleInput ⟨.document, "d1"⟩ .read = true)
      ∧ ((resolve sampleInput .read).admits "l2" "d2" = true
          ↔ referenceAllows sampleInput ⟨.document, "d2"⟩ .read = true)
      ∧ ((resolve sampleInput .read).reachesLayer "l3" = true
          ↔ referenceAllows sampleInput ⟨.layer, "l3"⟩ .read = true)
      ∧ "gone" ∉ (resolve sampleInput .read).extraDocs := by
  have h := resolve_agrees_reference sampleInput .read sampleTree_agrees
  exact ⟨by decide, h.1 "d1" "l1" (by decide), h.1 "d2" "l2" (by decide),
    h.2.1 "l3", h.2.2 "gone" (by decide)⟩

end Nacre.Authz
