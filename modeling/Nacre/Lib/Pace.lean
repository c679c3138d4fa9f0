/-
Times that are far enough apart: from the `k`-th on, each is `gap` or more
after all before it. A window of length `d` then holds at most
`k + d / gap` of them. The list is newest first.
-/
import Mathlib.Data.List.Count
import Mathlib.Order.Basic

namespace Pace

variable {k gap : Nat} {l : List Nat}

/-- Once there are `k`, the next is `gap` later than any before. -/
def Paced (k gap : Nat) : List Nat → Prop
  | [] => True
  | t :: earlier => (k ≤ earlier.length → ∀ u ∈ earlier, u + gap ≤ t) ∧ Paced k gap earlier

/-- What lies in a window. -/
def within (first d t : Nat) : Bool := first ≤ t && t ≤ first + d

theorem within_iff {first d t : Nat} : within first d t = true ↔ first ≤ t ∧ t ≤ first + d := by
  simp [within]

/-- The induction is on the list: if its newest is in the window and has `k`
before it, these are in a window that is shorter by the gap. -/
theorem Paced.countP_within_le (h : Paced k gap l) (hk : 0 < k) (hgap : 0 < gap) (first d : Nat) :
    l.countP (within first d) ≤ k + d / gap := by
  induction l generalizing d with
  | nil => exact Nat.zero_le _
  | cons t earlier ih =>
      rw [List.countP_cons]
      by_cases ht : within first d t = true
      · rw [if_pos ht]
        have hin := within_iff.1 ht
        by_cases hfew : earlier.length < k
        · have hle : earlier.countP (within first d) ≤ earlier.length := List.countP_le_length
          exact Nat.le_trans (show _ ≤ k by omega) (Nat.le_add_right k _)
        · have hapart := h.1 (Nat.le_of_not_lt hfew)
          by_cases hroom : first + gap ≤ t
          · have hshort : earlier.countP (within first d)
                ≤ earlier.countP (within first (t - gap - first)) := by
              refine List.countP_mono_left fun u hu hwithin => within_iff.2 ?_
              have hu' := within_iff.1 hwithin
              have hfar := hapart u hu
              omega
            have hless := ih h.2 (t - gap - first)
            have hdiv : (t - gap - first) / gap + 1 ≤ d / gap := by
              rw [← Nat.add_div_right _ hgap]
              refine Nat.div_le_div_right ?_
              omega
            omega
          · have hnone : earlier.countP (within first d) = 0 := by
              rw [List.countP_eq_zero]
              intro u hu hwithin
              have hu' := within_iff.1 hwithin
              have hfar := hapart u hu
              omega
            exact Nat.le_trans (show _ ≤ k by omega) (Nat.le_add_right k _)
      · rw [if_neg ht]
        exact ih h.2 d

end Pace
