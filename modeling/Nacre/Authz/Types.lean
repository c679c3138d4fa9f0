/-
The vocabulary of the permission model (core/types.ts), which requests a
granted permission satisfies (core/authz/permissions.ts), and the scope
tree with its ancestry walk (core/authz/scope-tree.ts).

A `ScopeTree` is the read-only interface of the source: three lookups,
nothing enumerated. `ScopeTree.Agrees` is the one relation between two
of them the resolver depends on, and `MemoryScopeTree` is the in-memory
implementation, with the condition on its data under which its lookups
agree.
-/
import Nacre.Lib.Js

namespace Nacre.Authz

-- ============================================================ vocabulary

inductive PrincipalType where
  | user
  | group
  | serviceAccount
  deriving DecidableEq, Repr

structure Principal where
  type : PrincipalType
  id : String
  deriving DecidableEq, Repr

/-- The spelling of a principal type in a `PrincipalRef`. -/
def PrincipalType.tag : PrincipalType → String
  | .user => "user"
  | .group => "group"
  | .serviceAccount => "service_account"

/-- `user:8f1c…`: a principal wherever it appears as a string. -/
abbrev PrincipalRef := String

def principalRef (p : Principal) : PrincipalRef := p.type.tag ++ ":" ++ p.id

inductive ScopeType where
  | workspace
  | layer
  | document
  deriving DecidableEq, Repr

/-- A node of the tree workspace → layer → document. -/
structure Scope where
  type : ScopeType
  id : String
  deriving DecidableEq, Repr

inductive Permission where
  | read
  | write
  | admin
  deriving DecidableEq, Repr

inductive Effect where
  | allow
  | deny
  deriving DecidableEq, Repr

/-- One row of the grant table, its tenant carried on the row. -/
structure Grant where
  orgId : String
  principal : Principal
  scope : Scope
  permission : Permission
  effect : Effect
  deriving DecidableEq, Repr

inductive OrgRole where
  | platformAdmin
  | orgAdmin
  | member
  deriving DecidableEq, Repr

-- =========================================================== permissions

/-- The set of permissions a granted permission satisfies: `write` does
not imply `read` (rule 6), `admin` implies both (rule 7). -/
def implied : Permission → List Permission
  | .read => [.read]
  | .write => [.write]
  | .admin => [.read, .write, .admin]

/-- Does holding `granted` satisfy a request for `requested`? -/
def satisfies (granted requested : Permission) : Bool :=
  (implied granted).contains requested

/-- Holding a permission satisfies the same request, and beyond that
only `admin` satisfies anything. -/
theorem satisfies_iff (granted requested : Permission) :
    satisfies granted requested = true
      ↔ granted = requested ∨ granted = .admin := by
  cases granted <;> cases requested <;> decide

-- ============================================================ scope tree

/-- Layers of a workspace, the workspace of a layer, the layer of a
document; an unknown id answers with nothing. -/
structure ScopeTree where
  layersOf : String → List String
  workspaceOf : String → Option String
  layerOf : String → Option String

/-- The two directions of the workspace-layer edge agree. -/
def ScopeTree.Agrees (tree : ScopeTree) : Prop :=
  ∀ l w, l ∈ tree.layersOf w ↔ tree.workspaceOf l = some w

/-- The chain from a layer up to its workspace, the layer first. -/
def layerAncestry (tree : ScopeTree) (layer : String) : List Scope :=
  match tree.workspaceOf layer with
  | none => [⟨.layer, layer⟩]
  | some workspace => [⟨.layer, layer⟩, ⟨.workspace, workspace⟩]

/-- The chain from a scope up to the organization root, the scope itself
first. -/
def ancestry (scope : Scope) (tree : ScopeTree) : List Scope :=
  match scope.type with
  | .workspace => [scope]
  | .layer => layerAncestry tree scope.id
  | .document =>
      match tree.layerOf scope.id with
      | none => [scope]
      | some layer => scope :: layerAncestry tree layer

/-- What the in-memory tree is built from: workspace to layer ids, and
document to layer id. -/
structure ScopeTreeData where
  layers : List (String × List String)
  documents : List (String × String)

/-- The last workspace listing the layer: the constructor's loop sets
the reverse map once for every listing and the last write stays. -/
def ScopeTreeData.workspaceOf (data : ScopeTreeData) (layer : String) :
    Option String :=
  (data.layers.reverse.find? fun entry => entry.2.contains layer).map
    Prod.fst

/-- `new MemoryScopeTree(data)`. -/
def MemoryScopeTree (data : ScopeTreeData) : ScopeTree where
  layersOf workspace := (data.layers.lookup workspace).getD []
  workspaceOf := data.workspaceOf
  layerOf document := data.documents.lookup document

/-- Each workspace has one entry and each layer is listed under one
workspace: what grouping rows keyed by layer id produces. -/
structure ScopeTreeData.WellFormed (data : ScopeTreeData) : Prop where
  keys : (data.layers.map Prod.fst).Nodup
  owner : ∀ e ∈ data.layers, ∀ e' ∈ data.layers, ∀ l,
    l ∈ e.2 → l ∈ e'.2 → e = e'

/-- Over well-formed data the in-memory tree's lookups agree. -/
theorem memoryScopeTree_agrees {data : ScopeTreeData}
    (hwf : data.WellFormed) : (MemoryScopeTree data).Agrees := by
  intro l w
  simp only [MemoryScopeTree, ScopeTreeData.workspaceOf, Option.map_eq_some_iff]
  constructor
  · intro hl
    cases hlook : data.layers.lookup w with
    | none => simp [hlook] at hl
    | some ls =>
        rw [hlook, Option.getD_some] at hl
        have hmem := (Js.lookup_eq_some_iff_mem hwf.keys).1 hlook
        cases hfind : data.layers.reverse.find? fun e => e.2.contains l with
        | none =>
            have := List.find?_eq_none.1 hfind (w, ls) (by simpa using hmem)
            simp [hl] at this
        | some e =>
            have he := List.mem_of_find?_eq_some hfind
            have hle := List.find?_some hfind
            have : e = (w, ls) :=
              hwf.owner e (by simpa using he) _ hmem l (by simpa using hle) hl
            exact ⟨e, rfl, by rw [this]⟩
  · intro hex
    obtain ⟨e, hfind, rfl⟩ := hex
    have he : e ∈ data.layers := by
      simpa using List.mem_of_find?_eq_some hfind
    have hle := List.find?_some hfind
    rw [(Js.lookup_eq_some_iff_mem hwf.keys).2 (show (e.1, e.2) ∈ data.layers from he)]
    simpa using hle

end Nacre.Authz
