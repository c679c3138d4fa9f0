/-
A table as a partial function from keys to rows, and what is known of a
row that is found after one key was written.
-/
import Mathlib.Logic.Function.Basic

namespace Table

variable {κ ρ : Type*} [DecidableEq κ] {m : κ → Option ρ} {k k' : κ} {v v' w : ρ}

/-- After a write: the row written, or another that was there. -/
theorem update_cases (h : Function.update m k (some v) k' = some w) :
    (k' = k ∧ w = v) ∨ (k' ≠ k ∧ m k' = some w) := by
  by_cases hk : k' = k
  · subst hk
    rw [Function.update_self] at h
    exact .inl ⟨rfl, (Option.some.inj h).symm⟩
  · rw [Function.update_of_ne hk] at h
    exact .inr ⟨hk, h⟩

/-- After a deletion: another that was there. -/
theorem delete_cases (h : Function.update m k none k' = some w) :
    k' ≠ k ∧ m k' = some w := by
  by_cases hk : k' = k
  · subst hk
    rw [Function.update_self] at h
    cases h
  · rw [Function.update_of_ne hk] at h
    exact ⟨hk, h⟩

/-- A row that changes as `R` allows: every row that is found was there
before, as `R` allows. -/
theorem update_related {R : ρ → ρ → Prop} (hrefl : ∀ v, R v v) (hk : m k = some v)
    (hR : R v v') (h : Function.update m k (some v') k' = some w) :
    ∃ v₀, m k' = some v₀ ∧ R v₀ w := by
  rcases update_cases h with ⟨rfl, rfl⟩ | ⟨-, hold⟩
  · exact ⟨v, hk, hR⟩
  · exact ⟨w, hold, hrefl w⟩

end Table
