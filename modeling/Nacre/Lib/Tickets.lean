/-
Numbers drawn from counters: each is the counter's value after it was
drawn, and a number that is given back takes the counter down by one.

The numbers that are out need not be distinct, since the one given back
need not be the last one drawn. But each is more than the numbers of its
counter that are out and were drawn before it (`Ranked`), whatever is
given back later, and so no more than `n` of those that are out can be
`n` or less (`Ranked.count_le`).
-/
import Mathlib.Algebra.Order.Ring.Rat
import Mathlib.Data.List.Perm.Subperm

namespace Tickets

variable {κ : Type*} [DecidableEq κ] {k : κ} {l l' : List (κ × Int)}

/-- The numbers that are out, the latest first: each is more than those
drawn before it. -/
def Ranked : List (κ × Int) → Prop
  | [] => True
  | t :: rest => (rest.countP (·.1 = t.1) : Int) < t.2 ∧ Ranked rest

theorem Ranked.sublist (h : Ranked l) (hsub : List.Sublist l' l) : Ranked l' := by
  induction hsub with
  | slnil => exact h
  | cons t hsub ih => exact ih h.2
  | cons_cons t hsub ih =>
      refine ⟨?_, ih h.2⟩
      have hfewer := hsub.countP_le (p := (·.1 = t.1))
      have hrank := h.1
      omega

theorem Ranked.count_le (h : Ranked l) {n : ℚ} (hn : 0 ≤ n)
    (hall : ∀ t ∈ l, t.1 = k → (t.2 : ℚ) ≤ n) : (l.countP (·.1 = k) : ℚ) ≤ n := by
  induction l with
  | nil => simpa using hn
  | cons t rest ih =>
      by_cases hk : t.1 = k
      · subst hk
        have hrank : ((rest.countP (·.1 = t.1) : Int) + 1 : Int) ≤ t.2 := h.1
        have hcast : ((rest.countP (·.1 = t.1) : ℚ) + 1) ≤ (t.2 : ℚ) := by
          exact_mod_cast hrank
        rw [List.countP_cons_of_pos (by simp)]
        push_cast
        exact hcast.trans (hall t List.mem_cons_self rfl)
      · rw [List.countP_cons_of_neg (by simpa using hk)]
        exact ih h.2 fun t' ht' => hall t' (List.mem_cons_of_mem _ ht')

/-- Some of those that are out, none above `n`. -/
theorem Ranked.subperm_count_le (h : Ranked l) (hsub : List.Subperm l' l) {n : ℚ} (hn : 0 ≤ n)
    (hall : ∀ t ∈ l', t.1 = k → (t.2 : ℚ) ≤ n) : (l'.countP (·.1 = k) : ℚ) ≤ n := by
  obtain ⟨m, hperm, hsublist⟩ := hsub
  rw [← hperm.countP_eq]
  exact (h.sublist hsublist).count_le hn fun t ht => hall t (hperm.mem_iff.1 ht)

end Tickets
