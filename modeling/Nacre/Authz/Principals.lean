/-
Who a principal is taken for: itself and every group it belongs to, one
membership after another (core/authz/principals.ts), over the rows of
`group_members` as `PostgresGroupGraph` reads them (core/authz/store.ts).

The rows come in no order, and neither the order nor a cycle decides the
answer: `mem_effectivePrincipals` says it is what the memberships reach,
and `effectivePrincipals_perm` that any order of the rows gives it.
-/
import Mathlib.Data.List.Perm.Basic
import Nacre.Authz.Types
import Nacre.Lib.Js
import Nacre.Lib.Worklist

namespace Nacre.Authz

-- ============================================================== the caller

/-- Who calls, and in which organization: ids are uuids, and hold no
colon. -/
structure Caller where
  orgId : String
  principal : Principal
  plain : ':' ∉ orgId.toList ∧ ':' ∉ principal.id.toList
  deriving DecidableEq

theorem tag_plain (t : PrincipalType) : ':' ∉ t.tag.toList := by
  cases t <;> decide

theorem tag_inj {t u : PrincipalType} (h : t.tag = u.tag) : t = u := by
  cases t <;> cases u <;> first | rfl | exact absurd h (by decide)

-- ========================================================== the membership

/-- A row of `group_members`. -/
structure MemberRow where
  groupId : String
  memberUser : Option String
  memberGroup : Option String
  deriving DecidableEq

/-- A string is false when it is empty. -/
def truthy (s : Option String) : Option String := s.filter (· ≠ "")

/-- Whose membership the row is. -/
def MemberRow.member (row : MemberRow) : Option PrincipalRef :=
  match truthy row.memberUser with
  | some user => some ("user:" ++ user)
  | none => (truthy row.memberGroup).map ("group:" ++ ·)

/-- `PostgresGroupGraph.directGroups`. -/
def directGroups (rows : List MemberRow) (ref : PrincipalRef) : List String :=
  (rows.filter (·.member = some ref)).map (·.groupId)

def groupRefs (rows : List MemberRow) (ref : PrincipalRef) : List PrincipalRef :=
  (directGroups rows ref).map ("group:" ++ ·)

/-- The principal and its groups, in the order they are first seen. The
loop runs once for each of them. -/
def effectivePrincipals (principal : Principal) (rows : List MemberRow) : List PrincipalRef :=
  Worklist.visit (groupRefs rows) (rows.length + 1) [principalRef principal]
    [principalRef principal]

/-- What memberships lead to. -/
theorem mem_effectivePrincipals {principal : Principal} {rows : List MemberRow}
    {ref : PrincipalRef} :
    ref ∈ effectivePrincipals principal rows
      ↔ Worklist.Reach (groupRefs rows) (principalRef principal) ref := by
  have hall : ∀ x, ∀ y ∈ groupRefs rows x, y ∈ rows.map fun row => "group:" ++ row.groupId := by
    intro x y hy
    obtain ⟨group, hgroup, rfl⟩ := List.mem_map.1 hy
    obtain ⟨row, hrow, rfl⟩ := List.mem_map.1 hgroup
    exact List.mem_map_of_mem (List.mem_filter.1 hrow).1
  have hvisit : ref ∈ Worklist.visit (groupRefs rows)
        ((rows.map fun row => "group:" ++ row.groupId).length + 1) [principalRef principal]
        [principalRef principal]
      ↔ Worklist.Reach (groupRefs rows) (principalRef principal) ref := Worklist.mem_visit hall
  rwa [List.length_map] at hvisit

/-- The rows come in no order. -/
theorem effectivePrincipals_perm {principal : Principal} {rows rows' : List MemberRow}
    (h : rows.Perm rows') {ref : PrincipalRef} :
    ref ∈ effectivePrincipals principal rows ↔ ref ∈ effectivePrincipals principal rows' := by
  have hedge : Worklist.Edge (groupRefs rows) = Worklist.Edge (groupRefs rows') := by
    funext x y
    refine propext (List.Perm.mem_iff ?_)
    exact ((h.filter _).map _).map _
  rw [mem_effectivePrincipals, mem_effectivePrincipals, Worklist.Reach, Worklist.Reach, hedge]

end Nacre.Authz
