/-
The hybrid query (core/vector/query.ts): one prefetch per branch, the
shared filter in every one of them, a branch's own layers appended to
its `must`.

`buildHybridQuery_prefetch` is the spec of the builder: with at least
one branch and no branch narrowed to nothing it answers, and the i-th
prefetch is the i-th branch with the shared filter intersected with that
branch's layers. The two results that close the file put resolver,
filter and query together over every plan the resolver produces.
-/
import Nacre.Authz.Filter

namespace Nacre.Vector

open Nacre.Authz
open PayloadFilter (accepts_addMust)

-- ================================================================= types

/-- What makes a branch different: a dense vector under one named slot,
or the lexical vector. -/
inductive BranchVector where
  | dense (vector : List ℚ)
  | sparse (indices : List Nat) (values : List ℚ)
  deriving DecidableEq

structure Branch where
  /-- The named vector in the collection; `using` in the source. -/
  usingVector : String
  vector : BranchVector
  /-- Layers this branch is restricted to, on top of the shared filter. -/
  onlyLayers : Option (List String) := none
  deriving DecidableEq

structure HybridQueryOptions where
  branches : List Branch
  filter : VectorFilter
  prefetchLimit : Nat := 50
  limit : Nat
  withPayload : Bool := true

structure PrefetchClause where
  query : BranchVector
  usingVector : String
  filter : VectorFilter
  limit : Nat
  deriving DecidableEq

def PrefetchClause.isDense (clause : PrefetchClause) : Bool :=
  match clause.query with
  | .dense _ => true
  | .sparse _ _ => false

/-- The query document; fusion is always reciprocal rank fusion. -/
structure HybridQuery where
  prefetch : List PrefetchClause
  limit : Nat
  withPayload : Bool
  deriving DecidableEq

-- =============================================================== builder

/-- The shared filter, a branch's layers appended to its `must`. -/
def branchFilter (filter : VectorFilter) (branch : Branch) : VectorFilter :=
  match branch.onlyLayers with
  | none => filter
  | some layers => filter.addMust (layersClause layers)

def prefetchOf (options : HybridQueryOptions) (branch : Branch) :
    PrefetchClause where
  query := branch.vector
  usingVector := branch.usingVector
  filter := branchFilter options.filter branch
  limit := options.prefetchLimit

def buildHybridQuery (options : HybridQueryOptions) :
    Except String HybridQuery :=
  if options.branches.isEmpty then
    .error "a hybrid query needs at least one branch"
  else if options.branches.any fun b => b.onlyLayers == some [] then
    .error "refusing to build a branch narrowed to no layers"
  else
    .ok {
      prefetch := options.branches.map (prefetchOf options)
      limit := options.limit
      withPayload := options.withPayload }

/-- `v_{model}_{dim}`: the named vector of a model and dimension. Every
code unit of the model outside ASCII letters and digits becomes an
underscore. -/
def vectorName (model : String) (dimensions : Nat) : String :=
  "v_" ++ String.ofList (model.toList.flatMap fun c =>
      if c.isAlphanum then [c]
      else List.replicate (Js.charUnits c).length '_')
    ++ "_" ++ toString dimensions

-- ============================================================== the spec

/-- With a branch to send and none narrowed to nothing, every branch
becomes its prefetch. -/
theorem buildHybridQuery_prefetch (options : HybridQueryOptions)
    (hsome : options.branches ≠ [])
    (honly : ∀ b ∈ options.branches, b.onlyLayers ≠ some []) :
    ∃ query, buildHybridQuery options = .ok query
      ∧ query.prefetch = options.branches.map (prefetchOf options) := by
  have hany : ¬ (options.branches.any fun b => b.onlyLayers == some []) = true := by
    simp only [List.any_eq_true, beq_iff_eq, not_exists, not_and]
    exact honly
  refine ⟨{
      prefetch := options.branches.map (prefetchOf options)
      limit := options.limit
      withPayload := options.withPayload }, ?_, rfl⟩
  rw [buildHybridQuery, if_neg (by simpa using hsome), if_neg hany]

/-- A branch's filter accepts what the shared one does, inside the
branch's own layers. -/
theorem branchFilter_accepts (filter : VectorFilter) (branch : Branch)
    (point : PointPayload) :
    (branchFilter filter branch).accepts point.field = true
      ↔ filter.accepts point.field = true
        ∧ ∀ layers, branch.onlyLayers = some layers →
            point.layerId ∈ layers := by
  unfold branchFilter
  cases branch.onlyLayers with
  | none => simp
  | some layers => simp [accepts_addMust]

-- ======================================================== the composition

/-- Resolver, filter and query together: nothing throws, and the i-th
prefetch accepts exactly the points the tenant, the tombstone, the plan,
the narrowing, the i-th branch's layers and the metadata all admit.
Whatever the caller adds, an accepted point is one the bare plan's
filter accepts. -/
theorem hybridQuery_accepts_iff (orgId : String) (input : ResolveInput)
    (p : Permission) (hplan : resolve input p ≠ .none)
    (narrow : Narrowing) (hnarrow : narrow.NonEmpty)
    (branches : List Branch) (hsome : branches ≠ [])
    (honly : ∀ b ∈ branches, b.onlyLayers ≠ some [])
    (prefetchLimit limit : Nat) (withPayload : Bool) :
    ∃ filter query bare,
      buildFilter orgId ⟨resolve input p, hplan⟩ narrow = .ok filter
      ∧ buildHybridQuery { branches, filter, prefetchLimit, limit, withPayload }
          = .ok query
      ∧ buildFilter orgId ⟨resolve input p, hplan⟩ {} = .ok bare
      ∧ query.prefetch.length = branches.length
      ∧ ∀ (i : Nat) (branch : Branch) (clause : PrefetchClause),
          branches[i]? = some branch → query.prefetch[i]? = some clause →
          ∀ point : PointPayload,
            (clause.filter.accepts point.field = true
              ↔ point.orgId = orgId ∧ point.deleted = false
                ∧ (resolve input p).admits point.layerId point.docId = true
                ∧ (∀ layers, narrow.layers = some layers →
                    point.layerId ∈ layers)
                ∧ (∀ layers, branch.onlyLayers = some layers →
                    point.layerId ∈ layers)
                ∧ matchesMetadata (narrow.metadata.getD []) point)
            ∧ (clause.filter.accepts point.field = true →
                bare.accepts point.field = true) := by
  have hreach := resolve_reaches hplan
  obtain ⟨filter, hfilter, haccepts⟩ :=
    buildFilter_accepts orgId ⟨resolve input p, hplan⟩ hreach narrow hnarrow
  obtain ⟨bare, hbare, hbareaccepts⟩ :=
    buildFilter_accepts orgId ⟨resolve input p, hplan⟩ hreach {}
      ⟨by simp, by simp⟩
  obtain ⟨query, hquery, hprefetch⟩ := buildHybridQuery_prefetch
    { branches, filter, prefetchLimit, limit, withPayload } hsome honly
  refine ⟨filter, query, bare, hfilter, hquery, hbare, by simp [hprefetch], ?_⟩
  intro i branch clause hbranch hclause point
  have hclause' : clause.filter = branchFilter filter branch := by
    rw [hprefetch, List.getElem?_map, hbranch, Option.map_some,
      Option.some.injEq] at hclause
    rw [← hclause]
    rfl
  have hiff : clause.filter.accepts point.field = true
      ↔ point.orgId = orgId ∧ point.deleted = false
        ∧ (resolve input p).admits point.layerId point.docId = true
        ∧ (∀ layers, narrow.layers = some layers → point.layerId ∈ layers)
        ∧ (∀ layers, branch.onlyLayers = some layers → point.layerId ∈ layers)
        ∧ matchesMetadata (narrow.metadata.getD []) point := by
    rw [hclause', branchFilter_accepts, haccepts point, Narrowing.admitsLayer]
    tauto
  refine ⟨hiff, fun h => ?_⟩
  obtain ⟨horg, hdel, hadmit, -⟩ := hiff.1 h
  refine (hbareaccepts point).2 ⟨horg, hdel, hadmit, ?_, ?_⟩
  · intro layers hl
    cases hl
  · simp [matchesMetadata]

/-- A caller naming a metadata key `deleted` narrows `meta.deleted`: with
one dense branch confined to a layer, the tombstoned point of the sample
organization stays out whatever its metadata says. -/
theorem hybridQuery_accepts_iff_sample :
    ∃ filter query bare,
      buildFilter "acme" ⟨resolve sampleInput .read, by decide⟩
          { layers := some ["l1", "l2"],
            metadata := some [("deleted", .scalar (.bool true))] } = .ok filter
      ∧ buildHybridQuery
          { branches := [⟨"v_m_2", .dense [1, 2], some ["l2"]⟩], filter, limit := 5 }
          = .ok query
      ∧ buildFilter "acme" ⟨resolve sampleInput .read, by decide⟩ {} = .ok bare
      ∧ query.prefetch.length = 1
      ∧ ∀ clause, query.prefetch[0]? = some clause →
          clause.filter.accepts (PointPayload.field
            ⟨"acme", "l2", "d2", "c", 0, true, [("deleted", .scalar (.bool true))]⟩)
            ≠ true := by
  obtain ⟨filter, query, bare, hf, hq, hb, hlen, hall⟩ :=
    hybridQuery_accepts_iff "acme" sampleInput .read (by decide)
      { layers := some ["l1", "l2"],
        metadata := some [("deleted", .scalar (.bool true))] }
      ⟨by decide, by decide⟩
      [⟨"v_m_2", .dense [1, 2], some ["l2"]⟩] (by decide) (by decide) 50 5 true
  refine ⟨filter, query, bare, hf, hq, hb, hlen, ?_⟩
  intro clause hclause h
  exact absurd ((hall 0 _ clause rfl hclause _).1.1 h).2.1 (by decide)

end Nacre.Vector
