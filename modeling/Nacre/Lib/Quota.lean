/-
A bound on the rows of a table, kept by counting before one inserts.

The rows have a key, and a transaction inserts a row only while it has
the lock of the row's key, having counted what it sees of that key: the
table, and what it inserted itself (`Book.shown`). What is bounded may be
more than what is counted for: every set `W i` of a family, where a count
for a new row covers the rows that any set with the new row in it has
(`Book.insert`). So the bound holds of windows that no count was of.
-/
import Mathlib.Logic.Function.Basic
import Mathlib.Data.List.Basic

namespace Quota

variable {κ τ ρ ι : Type*} [DecidableEq κ] [DecidableEq τ]

-- ================================================================ one insert

/-- A count that covers the set bounds it. -/
theorem countP_insert {rows : List ρ} {r : ρ} {W guard : ρ → Bool} {n : Nat}
    (hbound : rows.countP W ≤ n) (hguard : rows.countP guard < n)
    (hcover : W r = true → ∀ r' ∈ rows, W r' = true → guard r' = true) :
    (rows ++ [r]).countP W ≤ n := by
  rw [List.countP_append, List.countP_singleton]
  split
  next hr =>
    have hle : rows.countP W ≤ rows.countP guard :=
      List.countP_mono_left fun r' hr' hW => hcover hr r' hr' hW
    omega
  next => exact hbound

-- ================================================================== the book

/-- A table, what each transaction has inserted and not committed, and
who has the lock of each key. -/
structure Book (κ τ ρ : Type*) where
  table : List ρ
  pending : τ → List ρ
  lock : κ → Option τ

variable {b : Book κ τ ρ} {key : ρ → κ} {W : ι → ρ → Bool} {n : Nat} {t : τ} {k : κ}

/-- What the holder of a key's lock sees. -/
def Book.shown (b : Book κ τ ρ) (k : κ) : List ρ :=
  b.table ++ match b.lock k with
    | none => []
    | some t => b.pending t

/-- Who has inserted a row has the lock of its key. -/
def Book.Owned (key : ρ → κ) (b : Book κ τ ρ) : Prop :=
  ∀ t, ∀ r ∈ b.pending t, b.lock (key r) = some t

/-- No set of the family has more than `n` rows of one key. -/
def Book.Within (key : ρ → κ) (W : ι → ρ → Bool) (n : Nat) (b : Book κ τ ρ) : Prop :=
  ∀ k i, (b.shown k).countP (fun r => decide (key r = k) && W i r) ≤ n

theorem Book.shown_free (h : b.lock k = none) : b.shown k = b.table := by
  simp only [shown, h, List.append_nil]

theorem Book.shown_held (h : b.lock k = some t) : b.shown k = b.table ++ b.pending t := by
  simp only [shown, h]

/-- Rows of no transaction but the lock's holder are of the key. -/
theorem Book.countP_pending (hown : b.Owned key) (h : b.lock k ≠ some t) (i : ι) :
    (b.pending t).countP (fun r => decide (key r = k) && W i r) = 0 := by
  rw [List.countP_eq_zero]
  intro r hr hk
  simp only [Bool.and_eq_true, decide_eq_true_eq] at hk
  exact h (hk.1 ▸ hown t r hr)

/-- The table has no more than what is shown of it. -/
theorem Book.Within.table (h : b.Within key W n) (k : κ) (i : ι) :
    b.table.countP (fun r => decide (key r = k) && W i r) ≤ n := by
  refine Nat.le_trans ?_ (h k i)
  rw [shown, List.countP_append]
  exact Nat.le_add_right _ _

-- ================================================================= its moves

/-- A lock that nobody has is taken. -/
theorem Book.take (hown : b.Owned key) (h : b.Within key W n) (hfree : b.lock k = none) :
    Owned key { b with lock := Function.update b.lock k (some t) } ∧
      Within key W n { b with lock := Function.update b.lock k (some t) } := by
  constructor
  · intro t' r hr
    have hlock := hown t' r hr
    show Function.update b.lock k (some t) (key r) = some t'
    rw [Function.update_of_ne]
    · exact hlock
    · intro heq
      rw [heq, hfree] at hlock
      cases hlock
  · intro k' i
    by_cases hk : k' = k
    · subst hk
      have hshown : Book.shown { b with lock := Function.update b.lock k' (some t) } k' =
          b.table ++ b.pending t := shown_held (Function.update_self ..)
      rw [hshown, List.countP_append, countP_pending hown (by rw [hfree]; simp)]
      exact h.table k' i
    · have hsame : Function.update b.lock k (some t) k' = b.lock k' :=
        Function.update_of_ne hk _ _
      simp only [shown, hsame]
      exact h k' i

/-- The holder of the key's lock inserts a row, having counted fewer than
`n` by a measure that covers the sets the row is in. -/
theorem Book.insert {r : ρ} {guard : ρ → Bool} (hown : b.Owned key) (h : b.Within key W n)
    (hheld : b.lock (key r) = some t)
    (hguard : (b.table ++ b.pending t).countP
      (fun r' => decide (key r' = key r) && guard r') < n)
    (hcover : ∀ i r', W i r = true → W i r' = true → guard r' = true) :
    Owned key { b with pending := Function.update b.pending t (b.pending t ++ [r]) } ∧
      Within key W n { b with pending := Function.update b.pending t (b.pending t ++ [r]) } := by
  constructor
  · intro t' r' hr'
    by_cases ht : t' = t
    · subst ht
      have hr' : r' ∈ Function.update b.pending t' (b.pending t' ++ [r]) t' := hr'
      rw [Function.update_self] at hr'
      rcases List.mem_append.mp hr' with hr' | hr'
      · exact hown t' r' hr'
      · rw [List.mem_singleton.mp hr']
        exact hheld
    · have hr' : r' ∈ Function.update b.pending t (b.pending t ++ [r]) t' := hr'
      rw [Function.update_of_ne ht] at hr'
      exact hown t' r' hr'
  · intro k i
    rcases hk : b.lock k with _ | t'
    · have hshown : Book.shown
          { b with pending := Function.update b.pending t (b.pending t ++ [r]) } k = b.table :=
        shown_free hk
      rw [hshown]
      exact h.table k i
    · have hshown : Book.shown
          { b with pending := Function.update b.pending t (b.pending t ++ [r]) } k =
            b.table ++ Function.update b.pending t (b.pending t ++ [r]) t' := shown_held hk
      rw [hshown]
      by_cases ht : t' = t
      · subst ht
        have hbound := h k i
        rw [shown_held hk] at hbound
        rw [Function.update_self, ← List.append_assoc]
        by_cases hr : key r = k
        · subst hr
          refine countP_insert hbound hguard ?_
          intro hr r' _ hr'
          simp only [Bool.and_eq_true, decide_eq_true_eq] at hr hr' ⊢
          exact ⟨hr'.1, hcover i r' hr.2 hr'.2⟩
        · rw [List.countP_append, List.countP_singleton, decide_eq_false hr, Bool.false_and]
          exact hbound
      · rw [Function.update_of_ne ht, ← shown_held hk]
        exact h k i

/-- The locks of a transaction that has ended. -/
def released (lock : κ → Option τ) (t : τ) (k : κ) : Option τ :=
  if lock k = some t then none else lock k

theorem released_of_ne {lock : κ → Option τ} {t' : τ} (ht : t' ≠ t) (h : lock k = some t') :
    released lock t k = some t' := by
  rw [released, if_neg, h]
  rw [h]
  exact fun heq => ht (Option.some.inj heq)

/-- A transaction ends: what it inserted is in the table, or in none. -/
theorem Book.close {rows : List ρ} (hown : b.Owned key) (h : b.Within key W n)
    (hrows : rows = b.table ++ b.pending t ∨ rows = b.table) :
    Owned key ⟨rows, Function.update b.pending t [], released b.lock t⟩ ∧
      Within key W n ⟨rows, Function.update b.pending t [], released b.lock t⟩ := by
  constructor
  · intro t' r hr
    by_cases ht : t' = t
    · subst ht
      have hr : r ∈ Function.update b.pending t' [] t' := hr
      rw [Function.update_self] at hr
      cases hr
    · have hr : r ∈ Function.update b.pending t [] t' := hr
      rw [Function.update_of_ne ht] at hr
      exact released_of_ne ht (hown t' r hr)
  · intro k i
    have hbound := h k i
    rcases hk : b.lock k with _ | t'
    · have hfree : released b.lock t k = none := by
        rw [released, hk]
        exact ite_self _
      have hshown : (Book.mk rows (Function.update b.pending t []) (released b.lock t)).shown k =
          rows := shown_free hfree
      rw [hshown]
      rw [shown_free hk] at hbound
      rcases hrows with rfl | rfl
      · rw [List.countP_append, countP_pending hown (by rw [hk]; simp)]
        exact hbound
      · exact hbound
    · rw [shown_held hk] at hbound
      by_cases ht : t' = t
      · subst ht
        have hfree : released b.lock t' k = none := if_pos hk
        have hshown : (Book.mk rows (Function.update b.pending t' []) (released b.lock t')).shown k =
            rows := shown_free hfree
        rw [hshown]
        rcases hrows with rfl | rfl
        · exact hbound
        · exact h.table k i
      · have hshown : (Book.mk rows (Function.update b.pending t []) (released b.lock t)).shown k =
            rows ++ Function.update b.pending t [] t' := shown_held (released_of_ne ht hk)
        rw [hshown, Function.update_of_ne ht, List.countP_append]
        rw [List.countP_append] at hbound
        rcases hrows with rfl | rfl
        · have hne : b.lock k ≠ some t := by
            rw [hk]
            exact fun heq => ht (Option.some.inj heq)
          rw [List.countP_append, countP_pending hown hne]
          exact hbound
        · exact hbound

/-- The table changes so that no set has more of it. -/
theorem Book.change {rows : List ρ} (hown : b.Owned key) (h : b.Within key W n)
    (hrows : ∀ k i, rows.countP (fun r => decide (key r = k) && W i r) ≤
      b.table.countP (fun r => decide (key r = k) && W i r)) :
    Owned key { b with table := rows } ∧ Within key W n { b with table := rows } := by
  refine ⟨hown, fun k i => ?_⟩
  have hbound := h k i
  rw [shown, List.countP_append] at hbound ⊢
  exact Nat.le_trans (Nat.add_le_add_right (hrows k i) _) hbound

end Quota
