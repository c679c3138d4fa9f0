/-
What can be reached in a graph, by a list of what is seen and a stack of
what is still to be expanded.

The traversal has fuel. A node goes on the stack when it is first seen,
so the nodes not seen and the stack together bound the steps that are
left: `mem_visit` asks for that much fuel, and answers exactly what can be
reached. Cycles need no care: a node that is seen is not pushed again.
`run` is the same loop told apart from one that has used up its fuel, and
`run_ends` says that with so much fuel or more it has not.
-/
import Mathlib.Data.List.Basic
import Mathlib.Logic.Relation

namespace Worklist

variable {α : Type*} [DecidableEq α] {succ : α → List α}

/-- The neighbours that are new are seen, in order, and pushed. -/
def push : List α → List α × List α → List α × List α
  | [], state => state
  | x :: xs, (seen, stack) =>
      if x ∈ seen then push xs (seen, stack) else push xs (seen ++ [x], x :: stack)

/-- Expand what is on top of the stack until nothing is. -/
def visit (succ : α → List α) : Nat → List α → List α → List α
  | 0, seen, _ => seen
  | _ + 1, seen, [] => seen
  | fuel + 1, seen, x :: stack =>
      let next := push (succ x) (seen, stack)
      visit succ fuel next.1 next.2

/-- One edge. -/
def Edge (succ : α → List α) (x y : α) : Prop := y ∈ succ x

/-- Any number of edges. -/
def Reach (succ : α → List α) : α → α → Prop := Relation.ReflTransGen (Edge succ)

-- ================================================================= a push

theorem mem_push_seen {xs seen stack : List α} {y : α} :
    y ∈ (push xs (seen, stack)).1 ↔ y ∈ seen ∨ y ∈ xs := by
  induction xs generalizing seen stack with
  | nil => simp [push]
  | cons x xs ih =>
      rw [push]
      split
      next hseen =>
        rw [ih, List.mem_cons]
        constructor
        · rintro (h | h)
          · exact .inl h
          · exact .inr (.inr h)
        · rintro (h | rfl | h)
          · exact .inl h
          · exact .inl hseen
          · exact .inr h
      next =>
        rw [ih, List.mem_append, List.mem_singleton, List.mem_cons, or_assoc]

/-- What is new is on the stack, and what was on it stays. -/
theorem mem_push_stack {xs seen stack : List α} {y : α}
    (h : y ∈ (push xs (seen, stack)).1) (hnew : y ∉ seen ∨ y ∈ stack) :
    y ∈ (push xs (seen, stack)).2 := by
  induction xs generalizing seen stack with
  | nil =>
      rcases hnew with hnot | hstack
      · exact absurd h hnot
      · exact hstack
  | cons x xs ih =>
      rw [push] at h ⊢
      split at h
      next hseen =>
        rw [if_pos hseen]
        exact ih h hnew
      next hseen =>
        rw [if_neg hseen]
        refine ih h ?_
        by_cases hx : y = x
        · exact .inr (hx ▸ List.mem_cons_self)
        · rcases hnew with hnot | hstack
          · refine .inl fun hin => ?_
            rcases List.mem_append.1 hin with hin | hin
            · exact hnot hin
            · exact hx (List.mem_singleton.1 hin)
          · exact .inr (List.mem_cons_of_mem _ hstack)

theorem of_mem_push_stack {xs seen stack : List α} {y : α}
    (h : y ∈ (push xs (seen, stack)).2) : y ∈ stack ∨ y ∈ xs := by
  induction xs generalizing seen stack with
  | nil => exact .inl h
  | cons x xs ih =>
      rw [push] at h
      split at h
      next =>
        rcases ih h with hold | hnew
        · exact .inl hold
        · exact .inr (List.mem_cons_of_mem _ hnew)
      next =>
        rcases ih h with hold | hnew
        · rcases List.mem_cons.1 hold with rfl | hold
          · exact .inr List.mem_cons_self
          · exact .inl hold
        · exact .inr (List.mem_cons_of_mem _ hnew)

/-- The nodes that are not seen. -/
def unseen (all seen : List α) : List α := all.filter (· ∉ seen)

theorem unseen_lt {all seen : List α} {x : α} (hx : x ∈ all) (hseen : x ∉ seen) :
    (unseen all (seen ++ [x])).length < (unseen all seen).length := by
  have hmore : unseen all (seen ++ [x]) = (unseen all seen).filter (· ≠ x) := by
    unfold unseen
    rw [List.filter_filter]
    refine List.filter_congr fun y _ => ?_
    simp [and_comm]
  have hin : x ∈ unseen all seen := List.mem_filter.2 ⟨hx, by simpa using hseen⟩
  rw [hmore]
  exact List.length_filter_lt_length_iff_exists.2 ⟨x, hin, by simp⟩

theorem push_length {all xs : List α} (seen stack : List α) (hxs : ∀ x ∈ xs, x ∈ all) :
    (unseen all (push xs (seen, stack)).1).length + (push xs (seen, stack)).2.length
      ≤ (unseen all seen).length + stack.length := by
  induction xs generalizing seen stack with
  | nil => exact Nat.le_refl _
  | cons x xs ih =>
      have hrest : ∀ y ∈ xs, y ∈ all := fun y hy => hxs y (List.mem_cons_of_mem _ hy)
      rw [push]
      split
      next => exact ih seen stack hrest
      next hseen =>
        have hfewer := unseen_lt (hxs x List.mem_cons_self) hseen
        have hlater := ih (seen ++ [x]) (x :: stack) hrest
        simp only [List.length_cons] at hlater
        omega

-- ================================================================ a visit

/-- What is known of a traversal from `start`. -/
structure Going (succ : α → List α) (start : α) (seen stack : List α) : Prop where
  started : start ∈ seen
  onStack : ∀ x ∈ stack, x ∈ seen
  sound : ∀ x ∈ seen, Reach succ start x
  /-- What is seen and off the stack is expanded. -/
  expanded : ∀ x ∈ seen, x ∈ stack ∨ ∀ y ∈ succ x, y ∈ seen

theorem Going.next {start x : α} {seen stack : List α}
    (h : Going succ start seen (x :: stack)) :
    Going succ start (push (succ x) (seen, stack)).1 (push (succ x) (seen, stack)).2 := by
  have hx : x ∈ seen := h.onStack x List.mem_cons_self
  refine ⟨mem_push_seen.2 (.inl h.started), fun y hy => ?_, fun y hy => ?_, fun y hy => ?_⟩
  · rcases of_mem_push_stack hy with hold | hnew
    · exact mem_push_seen.2 (.inl (h.onStack y (List.mem_cons_of_mem _ hold)))
    · exact mem_push_seen.2 (.inr hnew)
  · rcases mem_push_seen.1 hy with hold | hnew
    · exact h.sound y hold
    · exact (h.sound x hx).tail hnew
  · by_cases hseen : y ∈ seen
    · rcases h.expanded y hseen with hstack | hdone
      · rcases List.mem_cons.1 hstack with rfl | hin
        · exact .inr fun z hz => mem_push_seen.2 (.inr hz)
        · exact .inl (mem_push_stack hy (.inr hin))
      · exact .inr fun z hz => mem_push_seen.2 (.inl (hdone z hz))
    · exact .inl (mem_push_stack hy (.inl hseen))

/-- Enough fuel: the traversal ends with an empty stack. -/
theorem Going.visit {all : List α} (hall : ∀ x, ∀ y ∈ succ x, y ∈ all) {start : α}
    {fuel : Nat} {seen stack : List α} (h : Going succ start seen stack)
    (hfuel : (unseen all seen).length + stack.length ≤ fuel) :
    Going succ start (visit succ fuel seen stack) [] := by
  induction fuel generalizing seen stack with
  | zero =>
      obtain rfl : stack = [] := List.length_eq_zero_iff.1 (by omega)
      exact h
  | succ fuel ih =>
      cases stack with
      | nil => exact h
      | cons x stack =>
          have hless := push_length seen stack (hall x)
          simp only [List.length_cons] at hfuel
          exact ih h.next (by omega)

omit [DecidableEq α] in
/-- Exactly what can be reached. -/
theorem Going.mem_iff {start y : α} {seen : List α} (h : Going succ start seen []) :
    y ∈ seen ↔ Reach succ start y := by
  refine ⟨h.sound y, fun hreach => ?_⟩
  induction hreach with
  | refl => exact h.started
  | tail _ hedge ih =>
      rcases h.expanded _ ih with hstack | hdone
      · cases hstack
      · exact hdone _ hedge

theorem mem_visit {all : List α} (hall : ∀ x, ∀ y ∈ succ x, y ∈ all) {start y : α} :
    y ∈ visit succ (all.length + 1) [start] [start] ↔ Reach succ start y := by
  have hstart : Going succ start [start] [start] := by
    refine ⟨List.mem_cons_self, fun x hx => hx, fun x hx => ?_, fun x hx => .inl hx⟩
    rw [List.mem_singleton.1 hx]
    exact Relation.ReflTransGen.refl
  refine (hstart.visit hall ?_).mem_iff
  have hfew : (unseen all [start]).length ≤ all.length := List.length_filter_le ..
  simp only [List.length_singleton]
  omega

-- =========================================================== the loop's end

/-- The loop, for at most `fuel` steps: nothing when a node is still on the
stack after them. -/
def run (succ : α → List α) : Nat → List α → List α → Option (List α)
  | _, seen, [] => some seen
  | 0, _, _ :: _ => none
  | fuel + 1, seen, x :: stack =>
      let next := push (succ x) (seen, stack)
      run succ fuel next.1 next.2

theorem push_nodup {xs seen stack : List α} (h : seen.Nodup) :
    (push xs (seen, stack)).1.Nodup := by
  induction xs generalizing seen stack with
  | nil => exact h
  | cons x xs ih =>
      rw [push]
      split
      next => exact ih h
      next hseen =>
        refine ih (List.nodup_append.2 ⟨h, List.pairwise_singleton .., fun y hy z hz => ?_⟩)
        rintro rfl
        exact hseen (List.mem_singleton.1 hz ▸ hy)

/-- What the loop has answered is what was visited. -/
theorem visit_of_run {fuel : Nat} {seen stack out : List α}
    (h : run succ fuel seen stack = some out) : visit succ fuel seen stack = out := by
  induction fuel generalizing seen stack with
  | zero =>
      cases stack with
      | nil => exact Option.some.inj h
      | cons x stack => cases h
  | succ fuel ih =>
      cases stack with
      | nil => exact Option.some.inj h
      | cons x stack =>
          rw [run] at h
          rw [visit]
          exact ih h

/-- Once it has ended, more fuel changes nothing. -/
theorem run_more {fuel more : Nat} {seen stack out : List α}
    (h : run succ fuel seen stack = some out) (hmore : fuel ≤ more) :
    run succ more seen stack = some out := by
  induction fuel generalizing seen stack more with
  | zero =>
      cases stack with
      | nil => rwa [run] at h ⊢
      | cons x stack => cases h
  | succ fuel ih =>
      cases stack with
      | nil => rwa [run] at h ⊢
      | cons x stack =>
          obtain ⟨more, rfl⟩ : ∃ m, more = m + 1 := ⟨more - 1, by omega⟩
          rw [run] at h ⊢
          exact ih h (by omega)

/-- Enough fuel: the loop ends, with no node seen twice. -/
theorem Going.run {all : List α} (hall : ∀ x, ∀ y ∈ succ x, y ∈ all) {start : α}
    {fuel : Nat} {seen stack : List α} (h : Going succ start seen stack) (honce : seen.Nodup)
    (hfuel : (unseen all seen).length + stack.length ≤ fuel) :
    ∃ out, run succ fuel seen stack = some out ∧ out.Nodup ∧ Going succ start out [] := by
  induction fuel generalizing seen stack with
  | zero =>
      obtain rfl : stack = [] := List.length_eq_zero_iff.1 (by omega)
      exact ⟨seen, by rw [Worklist.run], honce, h⟩
  | succ fuel ih =>
      cases stack with
      | nil => exact ⟨seen, by rw [Worklist.run], honce, h⟩
      | cons x stack =>
          have hless := push_length seen stack (hall x)
          simp only [List.length_cons] at hfuel
          exact ih h.next (push_nodup honce) (by omega)

/-- From one node, over finitely many: the loop ends, and has seen exactly
what can be reached, each once. -/
theorem run_ends {all : List α} (hall : ∀ x, ∀ y ∈ succ x, y ∈ all) (start : α) {fuel : Nat}
    (hfuel : all.length + 1 ≤ fuel) :
    ∃ out, run succ fuel [start] [start] = some out ∧ out.Nodup ∧
      ∀ y, y ∈ out ↔ Reach succ start y := by
  have hstart : Going succ start [start] [start] := by
    refine ⟨List.mem_cons_self, fun x hx => hx, fun x hx => ?_, fun x hx => .inl hx⟩
    rw [List.mem_singleton.1 hx]
    exact Relation.ReflTransGen.refl
  have hfew : (unseen all [start]).length ≤ all.length := List.length_filter_le ..
  obtain ⟨out, hrun, honce, hgoing⟩ := hstart.run hall (List.pairwise_singleton ..)
    (show _ ≤ fuel by simp only [List.length_singleton]; omega)
  exact ⟨out, hrun, honce, fun y => hgoing.mem_iff⟩

end Worklist
