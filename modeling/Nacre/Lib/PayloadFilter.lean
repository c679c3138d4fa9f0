/-
Boolean payload filters of a vector store: `must`, `should` and
`must_not` lists of field clauses over a payload that gives each field a
list of values (none for an absent field, one for a scalar, the elements
for a list field).

The reading is the store's, not a search engine's: `should` is a
constraint when it is present and not empty, and an empty `should` is no
constraint at all. `accepts_iff` is that reading as one proposition, and
`accepts_addMust` is the algebra narrowing rests on: a clause appended
to `must` intersects.
-/
import Mathlib.Data.List.Basic

namespace PayloadFilter

variable {κ ν : Type*}

/-- A test on one field. -/
inductive Clause (κ ν : Type*) where
  | value (key : κ) (v : ν)
  | any (key : κ) (vs : List ν)
  deriving DecidableEq

/-- A filter; an absent list and an empty one are different values of
the type and mean the same. -/
structure Filter (κ ν : Type*) where
  must : List (Clause κ ν)
  should : Option (List (Clause κ ν)) := none
  mustNot : Option (List (Clause κ ν)) := none
  deriving DecidableEq

variable [DecidableEq ν]

/-- A clause matches when the field, or an element of a list field, is
the value or in the list. -/
def Clause.matches (field : κ → List ν) : Clause κ ν → Bool
  | .value key v => (field key).contains v
  | .any key vs => (field key).any fun v => vs.contains v

/-- A `should` list is a constraint only when there is one. -/
def shouldHolds (field : κ → List ν) : Option (List (Clause κ ν)) → Bool
  | none => true
  | some cs => cs.isEmpty || cs.any fun c => c.matches field

def Filter.accepts (f : Filter κ ν) (field : κ → List ν) : Bool :=
  (f.must.all fun c => c.matches field)
    && shouldHolds field f.should
    && !((f.mustNot.getD []).any fun c => c.matches field)

/-- One more clause every accepted point must match. -/
def Filter.addMust (f : Filter κ ν) (c : Clause κ ν) : Filter κ ν :=
  { f with must := f.must ++ [c] }

variable {field : κ → List ν}

@[simp] theorem matches_value {key : κ} {v : ν} :
    (Clause.value key v).matches field = true ↔ v ∈ field key := by
  simp [Clause.matches]

@[simp] theorem matches_any {key : κ} {vs : List ν} :
    (Clause.any key vs).matches field = true ↔ ∃ v ∈ field key, v ∈ vs := by
  simp [Clause.matches]

/-- The filter as a proposition: every `must`, one `should` when there
is one, no `must_not`. -/
theorem accepts_iff (f : Filter κ ν) :
    f.accepts field = true
      ↔ (∀ c ∈ f.must, c.matches field = true)
        ∧ shouldHolds field f.should = true
        ∧ ∀ c ∈ f.mustNot.getD [], c.matches field = false := by
  simp [Filter.accepts, and_assoc]

/-- Appending to `must` intersects. -/
theorem accepts_addMust (f : Filter κ ν) (c : Clause κ ν) :
    (f.addMust c).accepts field = true
      ↔ f.accepts field = true ∧ c.matches field = true := by
  simp only [accepts_iff, Filter.addMust, List.mem_append,
    List.mem_singleton]
  constructor
  · intro hall
    obtain ⟨hm, hrest⟩ := hall
    exact ⟨⟨fun x hx => hm x (Or.inl hx), hrest⟩, hm c (Or.inr rfl)⟩
  · intro hall
    obtain ⟨⟨hm, hrest⟩, hc⟩ := hall
    refine ⟨?_, hrest⟩
    intro x hor
    rcases hor with hx | rfl
    · exact hm x hx
    · exact hc

end PayloadFilter
