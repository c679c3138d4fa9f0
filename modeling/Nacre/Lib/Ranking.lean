/-
The best so many of a list, by a stable sort on a key.

What is taken is said by positions: `best` has each at most once, the ones
taken stand before the ones left, and a position stands before another
when its key is greater, or the same and it comes first.
-/
import Mathlib.Data.List.Basic
import Mathlib.Order.Lattice

namespace Ranking

variable {α κ : Type*} [LinearOrder κ]

/-- Greatest key first, ties as they came. -/
def sorted (key : α → κ) (l : List α) : List α :=
  l.mergeSort fun a b => decide (key b ≤ key a)

/-- The position `i` ranks before `j`. -/
def Before (key : α → κ) (l : List α) (i j : Nat) : Prop :=
  ∀ a b, l[i]? = some a → l[j]? = some b → key b < key a ∨ (key a = key b ∧ i < j)

/-- The list with its positions, in order. -/
def placed (key : α → κ) (l : List α) : List (α × Nat) :=
  l.zipIdx.mergeSort (List.zipIdxLE fun a b => decide (key b ≤ key a))

variable {key : α → κ} {l : List α}

theorem map_placed : (placed key l).map (·.1) = sorted key l := List.mergeSort_zipIdx

theorem mem_placed {a : α} {i : Nat} : (a, i) ∈ placed key l ↔ l[i]? = some a := by
  rw [placed, List.mem_mergeSort, List.mk_mem_zipIdx_iff_getElem?]

theorem positions_perm : ((placed key l).map (·.2)).Perm (List.range l.length) := by
  refine ((List.mergeSort_perm _ _).map _).trans ?_
  rw [List.zipIdx_map_snd, List.range_eq_range']

theorem placed_ordered :
    (placed key l).Pairwise fun a b => key b.1 < key a.1 ∨ (key a.1 = key b.1 ∧ a.2 ≤ b.2) := by
  refine (List.pairwise_mergeSort (List.zipIdxLE_trans ?_) (List.zipIdxLE_total ?_) _).imp ?_
  · intro a b c hab hbc
    exact decide_eq_true (le_trans (of_decide_eq_true hbc) (of_decide_eq_true hab))
  · intro a b
    rw [Bool.or_eq_true, decide_eq_true_eq, decide_eq_true_eq]
    exact le_total _ _
  · intro a b hle
    simp only [List.zipIdxLE, decide_eq_true_eq] at hle
    split at hle
    next hba =>
      split at hle
      next hab => exact .inr ⟨le_antisymm hab hba, of_decide_eq_true hle⟩
      next hab => exact .inl (lt_of_not_ge hab)
    next => cases hle

/-- What is taken, by position. -/
theorem best (key : α → κ) (l : List α) (k : Nat) :
    ∃ picks : List Nat, picks.Nodup ∧ picks.length = min k l.length ∧
      (∀ i ∈ picks, i < l.length) ∧
      ((sorted key l).take k).map some = picks.map (l[·]?) ∧
      picks.Pairwise (Before key l) ∧
      ∀ i ∈ picks, ∀ j < l.length, j ∉ picks → Before key l i j := by
  have hnodup : ((placed key l).map (·.2)).Nodup := positions_perm.nodup_iff.2 List.nodup_range
  have hat : ∀ p ∈ placed key l, l[p.2]? = some p.1 := fun p hp => mem_placed.1 hp
  -- distinct positions: an order that may be equal is strict
  have hstrict : (placed key l).Pairwise fun p q => Before key l p.2 q.2 := by
    have hboth := placed_ordered.and (List.pairwise_map.1 hnodup)
    refine hboth.imp_of_mem fun {p q} hp hq hpq a b ha hb => ?_
    obtain rfl : p.1 = a := Option.some.inj ((hat p hp).symm.trans ha)
    obtain rfl : q.1 = b := Option.some.inj ((hat q hq).symm.trans hb)
    rcases hpq.1 with hlt | ⟨heq, hle⟩
    · exact .inl hlt
    · exact .inr ⟨heq, Nat.lt_of_le_of_ne hle hpq.2⟩
  have hlength : (placed key l).length = l.length := by
    rw [placed, List.length_mergeSort, List.length_zipIdx]
  refine ⟨((placed key l).take k).map (·.2), ?_, ?_, ?_, ?_, ?_, ?_⟩
  · exact hnodup.sublist ((List.take_sublist k _).map _)
  · rw [List.length_map, List.length_take, hlength]
  · intro i hi
    obtain ⟨p, hp, rfl⟩ := List.mem_map.1 hi
    exact (List.getElem?_eq_some_iff.1 (hat p (List.mem_of_mem_take hp))).1
  · rw [← map_placed, ← List.map_take, List.map_map, List.map_map]
    refine List.map_congr_left fun p hp => ?_
    exact (hat p (List.mem_of_mem_take hp)).symm
  · exact List.pairwise_map.2 (hstrict.sublist (List.take_sublist k _))
  · intro i hi j hj hout
    obtain ⟨p, hp, rfl⟩ := List.mem_map.1 hi
    have hin : (l[j], j) ∈ placed key l := mem_placed.2 (List.getElem?_eq_getElem hj)
    rw [← List.take_append_drop k (placed key l), List.mem_append] at hin
    rcases hin with htake | hdrop
    · exact absurd (List.mem_map_of_mem htake) hout
    · have hall := hstrict
      rw [← List.take_append_drop k (placed key l), List.pairwise_append] at hall
      exact hall.2.2 p hp _ hdrop

end Ranking
