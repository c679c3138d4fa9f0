/-
Rectangles of a square grid, and how many of its cells they cover.

Rectangles that are apart two by two cover the sum of their areas
(`card_covered`): the check is of pairs of rectangles, not of cells.
-/
import Mathlib.Algebra.GroupWithZero.Nat
import Mathlib.Data.Finset.Card
import Mathlib.Data.Finset.Prod
import Mathlib.Order.Interval.Finset.Nat

/-- Columns `x` to `x + w` and rows `y` to `y + h`, the ends left out. -/
structure Rect where
  x : Nat
  y : Nat
  w : Nat
  h : Nat
deriving DecidableEq

namespace Rect

def has (r : Rect) (x y : Nat) : Bool :=
  r.x ≤ x && x < r.x + r.w && r.y ≤ y && y < r.y + r.h

def area (r : Rect) : Nat := r.w * r.h

/-- One is past the other, in a row or in a column. -/
def apart (r s : Rect) : Bool :=
  r.x + r.w ≤ s.x || s.x + s.w ≤ r.x || r.y + r.h ≤ s.y || s.y + s.h ≤ r.y

/-- Inside the grid. -/
def within (size : Nat) (r : Rect) : Bool := r.x + r.w ≤ size && r.y + r.h ≤ size

variable {r s : Rect} {rs : List Rect} {size x y : Nat}

theorem has_iff : r.has x y = true ↔ (r.x ≤ x ∧ x < r.x + r.w) ∧ r.y ≤ y ∧ y < r.y + r.h := by
  simp only [has, Bool.and_eq_true, decide_eq_true_eq, and_assoc]

theorem apart_not_has (h : r.apart s = true) (hr : r.has x y = true) : ¬ s.has x y = true := by
  rw [has_iff] at hr ⊢
  simp only [apart, Bool.or_eq_true, decide_eq_true_eq] at h
  omega

/-- The cells of the grid. -/
def cells (size : Nat) : Finset (Nat × Nat) := Finset.range size ×ˢ Finset.range size

theorem mem_cells {p : Nat × Nat} : p ∈ cells size ↔ p.1 < size ∧ p.2 < size := by
  rw [cells, Finset.mem_product, Finset.mem_range, Finset.mem_range]

theorem card_cells (size : Nat) : (cells size).card = size * size := by
  rw [cells, Finset.card_product, Finset.card_range]

theorem card_has (h : r.within size = true) :
    ((cells size).filter fun p => r.has p.1 p.2 = true).card = r.area := by
  have hsame : (cells size).filter (fun p => r.has p.1 p.2 = true)
      = Finset.Ico r.x (r.x + r.w) ×ˢ Finset.Ico r.y (r.y + r.h) := by
    simp only [within, Bool.and_eq_true, decide_eq_true_eq] at h
    ext p
    rw [Finset.mem_filter, mem_cells, has_iff, Finset.mem_product, Finset.mem_Ico, Finset.mem_Ico]
    omega
  rw [hsame, Finset.card_product, Nat.card_Ico, Nat.card_Ico, Nat.add_sub_cancel_left,
    Nat.add_sub_cancel_left, area]

/-- Rectangles that are apart cover the sum of their areas. -/
theorem card_covered (hwithin : ∀ r ∈ rs, r.within size = true)
    (hapart : rs.Pairwise fun r s => r.apart s = true) :
    ((cells size).filter fun p => rs.any (·.has p.1 p.2) = true).card = (rs.map area).sum := by
  induction rs with
  | nil => simp
  | cons r rs ih =>
    obtain ⟨hr, hrest⟩ := List.forall_mem_cons.1 hwithin
    obtain ⟨hfirst, hpairs⟩ := List.pairwise_cons.1 hapart
    have hdisjoint : Disjoint ((cells size).filter fun p => r.has p.1 p.2 = true)
        ((cells size).filter fun p => rs.any (·.has p.1 p.2) = true) := by
      rw [Finset.disjoint_filter]
      intro p _ hp hany
      obtain ⟨s, hs, hhas⟩ := List.any_eq_true.1 hany
      exact apart_not_has (hfirst s hs) hp hhas
    have hsplit : (cells size).filter (fun p => (r :: rs).any (·.has p.1 p.2) = true)
        = (cells size).filter (fun p => r.has p.1 p.2 = true)
          ∪ (cells size).filter fun p => rs.any (·.has p.1 p.2) = true := by
      rw [← Finset.filter_or]
      refine Finset.filter_congr fun p _ => ?_
      rw [List.any_cons, Bool.or_eq_true]
    rw [hsplit, Finset.card_union_of_disjoint hdisjoint, card_has hr, ih hrest hpairs,
      List.map_cons, List.sum_cons]

/-- The cells they leave. -/
theorem card_uncovered (hwithin : ∀ r ∈ rs, r.within size = true)
    (hapart : rs.Pairwise fun r s => r.apart s = true) :
    ((cells size).filter fun p => rs.any (·.has p.1 p.2) = false).card + (rs.map area).sum
      = size * size := by
  have hboth := Finset.card_filter_add_card_filter_not (s := cells size)
    (fun p => rs.any (·.has p.1 p.2) = true)
  rw [card_covered hwithin hapart, card_cells] at hboth
  have hnot : (cells size).filter (fun p => ¬ rs.any (·.has p.1 p.2) = true)
      = (cells size).filter fun p => rs.any (·.has p.1 p.2) = false :=
    Finset.filter_congr fun p _ => by rw [Bool.not_eq_true]
  rw [hnot] at hboth
  omega

end Rect
