/-
Who a principal is taken for, over any membership graph
(core/authz/principals.ts).

A graph is the read-only interface of the source: one lookup, nothing
enumerated, and no promise that the memberships are acyclic. That it is
finite is a field of `GroupGraph`, and nothing the loop reads.
`memoryGroupGraph` is the in-memory implementation, and `postgresGroupGraph`
the one over the rows of `group_members`, whose answer is the
`effectivePrincipals` the rest of the permission model rests on
(`effectivePrincipals_rows`).
-/
import Nacre.Authz.Principals

namespace Nacre.Authz

-- =============================================================== the graph

/-- Group membership for one organization: `directGroups ref` are the groups
`ref` is a direct member of, and `groups` has every one of them. -/
structure GroupGraph where
  directGroups : PrincipalRef → List String
  groups : List String
  finite : ∀ ref, ∀ group ∈ directGroups ref, group ∈ groups

namespace GroupGraph

variable {graph graph' : GroupGraph}

/-- What one membership leads to. -/
def refs (graph : GroupGraph) (ref : PrincipalRef) : List PrincipalRef :=
  (graph.directGroups ref).map ("group:" ++ ·)

/-- `ref` is a direct member of the group `next` names. -/
def Member (graph : GroupGraph) (ref next : PrincipalRef) : Prop :=
  ∃ group ∈ graph.directGroups ref, next = "group:" ++ group

/-- One membership after another, at least one. -/
def Reaches (graph : GroupGraph) : PrincipalRef → PrincipalRef → Prop :=
  Relation.TransGen graph.Member

/-- The loop, for at most `fuel` turns: the principals seen, in the order they
are first seen. -/
def effectivePrincipals (fuel : Nat) (principal : Principal) (graph : GroupGraph) :
    Option (List PrincipalRef) :=
  Worklist.run graph.refs fuel [principalRef principal] [principalRef principal]

-- ============================================================ what it sees

theorem edge_iff {ref next : PrincipalRef} :
    Worklist.Edge graph.refs ref next ↔ graph.Member ref next := by
  show next ∈ (graph.directGroups ref).map ("group:" ++ ·) ↔ _
  rw [List.mem_map]
  constructor
  · rintro ⟨group, hgroup, rfl⟩
    exact ⟨group, hgroup, rfl⟩
  · rintro ⟨group, hgroup, rfl⟩
    exact ⟨group, hgroup, rfl⟩

theorem edge_eq : Worklist.Edge graph.refs = graph.Member := by
  funext ref next
  exact propext edge_iff

theorem reach_iff {ref next : PrincipalRef} :
    Worklist.Reach graph.refs ref next ↔ next = ref ∨ graph.Reaches ref next := by
  rw [Worklist.Reach, edge_eq, Relation.reflTransGen_iff_eq_or_transGen]
  rfl

/-- As many turns as there are groups, and one. -/
theorem effectivePrincipals_ends (principal : Principal) (graph : GroupGraph) {fuel : Nat}
    (hfuel : graph.groups.length + 1 ≤ fuel) :
    ∃ seen, effectivePrincipals fuel principal graph = some seen ∧ seen.Nodup ∧
      ∀ ref, ref ∈ seen ↔
        ref = principalRef principal ∨ graph.Reaches (principalRef principal) ref := by
  have hall : ∀ ref, ∀ next ∈ graph.refs ref, next ∈ graph.groups.map ("group:" ++ ·) := by
    intro ref next hnext
    obtain ⟨group, hgroup, rfl⟩ := List.mem_map.1 hnext
    exact List.mem_map_of_mem (graph.finite ref group hgroup)
  obtain ⟨seen, hrun, honce, hseen⟩ := Worklist.run_ends hall (principalRef principal)
    (show _ ≤ fuel by rwa [List.length_map])
  exact ⟨seen, hrun, honce, fun ref => (hseen ref).trans reach_iff⟩

/-- However it ends, it has seen what the memberships reach. -/
theorem mem_of_ended {principal : Principal} {fuel : Nat} {seen : List PrincipalRef}
    (h : effectivePrincipals fuel principal graph = some seen) {ref : PrincipalRef} :
    ref ∈ seen ↔ ref = principalRef principal ∨ graph.Reaches (principalRef principal) ref := by
  obtain ⟨seen', hrun, -, hseen⟩ := effectivePrincipals_ends principal graph
    (Nat.le_max_left (graph.groups.length + 1) fuel)
  have hmore := Worklist.run_more h (Nat.le_max_right (graph.groups.length + 1) fuel)
  obtain rfl : seen = seen' := Option.some.inj (hmore.symm.trans hrun)
  exact hseen ref

-- ============================================================ one edge more

/-- `graph` with `ref` a member of `group` too. -/
def add (graph : GroupGraph) (ref : PrincipalRef) (group : String) : GroupGraph where
  directGroups r := if r = ref then graph.directGroups r ++ [group] else graph.directGroups r
  groups := graph.groups ++ [group]
  finite := by
    intro r g hg
    split at hg
    · rcases List.mem_append.1 hg with hold | hnew
      · exact List.mem_append_left _ (graph.finite r g hold)
      · exact List.mem_append_right _ hnew
    · exact List.mem_append_left _ (graph.finite r g hg)

/-- `graph` with `ref` no member of `group`. -/
def remove (graph : GroupGraph) (ref : PrincipalRef) (group : String) : GroupGraph where
  directGroups r :=
    if r = ref then (graph.directGroups r).filter (· ≠ group) else graph.directGroups r
  groups := graph.groups
  finite := by
    intro r g hg
    split at hg
    · exact graph.finite r g (List.mem_of_mem_filter hg)
    · exact graph.finite r g hg

/-- Every membership of the one is one of the other. -/
def Within (graph graph' : GroupGraph) : Prop :=
  ∀ ref, ∀ group ∈ graph.directGroups ref, group ∈ graph'.directGroups ref

theorem within_add (graph : GroupGraph) (ref : PrincipalRef) (group : String) :
    graph.Within (graph.add ref group) := by
  intro r g hg
  show g ∈ if r = ref then graph.directGroups r ++ [group] else graph.directGroups r
  split
  · exact List.mem_append_left _ hg
  · exact hg

theorem remove_within (graph : GroupGraph) (ref : PrincipalRef) (group : String) :
    (graph.remove ref group).Within graph := by
  intro r g hg
  change g ∈ if r = ref then (graph.directGroups r).filter (· ≠ group)
    else graph.directGroups r at hg
  split at hg
  · exact List.mem_of_mem_filter hg
  · exact hg

/-- More memberships, no principal less. -/
theorem Within.sees {principal : Principal} {fuel fuel' : Nat} {seen seen' : List PrincipalRef}
    (hwithin : graph.Within graph')
    (h : effectivePrincipals fuel principal graph = some seen)
    (h' : effectivePrincipals fuel' principal graph' = some seen') : seen ⊆ seen' := by
  intro ref href
  have hmember : ∀ r next, graph.Member r next → graph'.Member r next :=
    fun r next ⟨group, hgroup, hnext⟩ => ⟨group, hwithin r group hgroup, hnext⟩
  rcases (mem_of_ended h).1 href with hself | hreach
  · exact (mem_of_ended h').2 (.inl hself)
  · exact (mem_of_ended h').2 (.inr (Relation.TransGen.mono hmember _ _ hreach))

/-- Over every graph, cyclic or not: the loop ends, and however many turns more
it is given it answers the same; what it answers is the principal and every
group one or more memberships reach, each once and nothing else; a membership
added loses nobody, and one removed adds nobody. -/
theorem effectivePrincipals_exact (principal : Principal) (graph : GroupGraph) :
    ∃ turns seen, (∀ fuel, turns ≤ fuel → effectivePrincipals fuel principal graph = some seen) ∧
      seen.Nodup ∧
      (∀ ref, ref ∈ seen ↔ ref = principalRef principal ∨
        graph.Reaches (principalRef principal) ref) ∧
      (∀ ref group fuel more,
        effectivePrincipals fuel principal (graph.add ref group) = some more → seen ⊆ more) ∧
      ∀ ref group fuel fewer,
        effectivePrincipals fuel principal (graph.remove ref group) = some fewer →
          fewer ⊆ seen := by
  obtain ⟨seen, hrun, honce, hseen⟩ := effectivePrincipals_ends principal graph (Nat.le_refl _)
  refine ⟨_, seen, fun fuel hfuel => Worklist.run_more hrun hfuel, honce, hseen, ?_, ?_⟩
  · intro ref group fuel more hmore
    exact (within_add graph ref group).sees hrun hmore
  · intro ref group fuel fewer hfewer
    exact (remove_within graph ref group).sees hfewer hrun

end GroupGraph

-- ===================================================== the implementations

/-- `MemoryGroupGraph`: each ref of the record with the groups it belongs to. -/
def memoryGroupGraph (membership : List (PrincipalRef × List String)) : GroupGraph where
  directGroups ref := (membership.lookup ref).getD []
  groups := membership.flatMap (·.2)
  finite := by
    intro ref group hgroup
    cases hfound : membership.lookup ref with
    | none =>
        rw [hfound] at hgroup
        cases hgroup
    | some groups =>
        rw [hfound] at hgroup
        obtain ⟨before, after, hsplit, -⟩ := List.lookup_eq_some_iff.1 hfound
        refine List.mem_flatMap.2 ⟨(ref, groups), ?_, hgroup⟩
        rw [hsplit]
        exact List.mem_append_right _ List.mem_cons_self

/-- A cycle is resolved. -/
example :
    GroupGraph.effectivePrincipals 4 ⟨.user, "u"⟩
        (memoryGroupGraph [("user:u", ["a"]), ("group:a", ["b"]), ("group:b", ["a"])])
      = some ["user:u", "group:a", "group:b"] := by
  decide

/-- `PostgresGroupGraph`: the rows, by member. -/
def postgresGroupGraph (rows : List MemberRow) : GroupGraph where
  directGroups := directGroups rows
  groups := rows.map (·.groupId)
  finite := by
    intro ref group hgroup
    obtain ⟨row, hrow, rfl⟩ := List.mem_map.1 hgroup
    exact List.mem_map_of_mem (List.mem_filter.1 hrow).1

/-- Over the rows the loop has ended, and with what the resolver reads. -/
theorem effectivePrincipals_rows (principal : Principal) (rows : List MemberRow) :
    GroupGraph.effectivePrincipals (rows.length + 1) principal (postgresGroupGraph rows)
      = some (effectivePrincipals principal rows) := by
  obtain ⟨seen, hrun, -⟩ := GroupGraph.effectivePrincipals_ends principal (postgresGroupGraph rows)
    (show _ ≤ rows.length + 1 by simp [postgresGroupGraph])
  rw [hrun]
  exact congrArg some (Worklist.visit_of_run hrun).symm

end Nacre.Authz
