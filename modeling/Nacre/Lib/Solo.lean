/-
Lists in which at most one element is selected: the holders of a lock,
the one migration of an organization. The bound is a count, so it goes
through an erased or an added element by arithmetic.
-/
import Mathlib.Data.List.Count
import Mathlib.Data.List.Perm.Basic

namespace Solo

variable {α : Type*} {sel : α → Bool} {l : List α} {a b : α}

/-- One selected at most: two of them are the same. -/
theorem solo_eq (hsolo : l.countP sel ≤ 1) (ha : a ∈ l) (hb : b ∈ l)
    (hsa : sel a = true) (hsb : sel b = true) : a = b := by
  rw [List.countP_eq_length_filter] at hsolo
  have ha' := List.mem_filter.2 ⟨ha, hsa⟩
  have hb' := List.mem_filter.2 ⟨hb, hsb⟩
  match hfilter : l.filter sel with
  | [] =>
      rw [hfilter] at ha'
      cases ha'
  | [x] =>
      rw [hfilter, List.mem_singleton] at ha' hb'
      rw [ha', hb']
  | x :: y :: rest =>
      rw [hfilter] at hsolo
      simp only [List.length_cons] at hsolo
      omega

/-- And with it gone, none is left. -/
theorem solo_erase [DecidableEq α] (hsolo : l.countP sel ≤ 1) (ha : a ∈ l)
    (hsa : sel a = true) (hb : b ∈ l.erase a) : sel b = false := by
  rw [Bool.eq_false_iff]
  intro hsb
  have hcount := (List.perm_cons_erase ha).countP_eq sel
  rw [List.countP_cons_of_pos hsa] at hcount
  have hpos : 0 < (l.erase a).countP sel := List.countP_pos_iff.2 ⟨b, hb, hsb⟩
  omega

/-- One more, where none is. -/
theorem solo_cons (h : ∀ b ∈ l, sel b = false) : (a :: l).countP sel ≤ 1 := by
  have hnone : l.countP sel = 0 := by
    rw [List.countP_eq_zero]
    intro b hb
    rw [h b hb]
    exact Bool.false_ne_true
  rw [List.countP_cons, hnone, Nat.zero_add]
  split
  next => exact Nat.le_refl 1
  next => exact Nat.zero_le 1

/-- Some go. -/
theorem solo_sublist {l' : List α} (hsolo : l.countP sel ≤ 1) (h : List.Sublist l' l) :
    l'.countP sel ≤ 1 :=
  Nat.le_trans h.countP_le hsolo

/-- One takes the place of another that is selected if it is. -/
theorem solo_swap [DecidableEq α] (hsolo : l.countP sel ≤ 1) (ha : a ∈ l)
    (hb : sel b = true → sel a = true) : (b :: l.erase a).countP sel ≤ 1 := by
  cases hsb : sel b with
  | true => exact solo_cons fun c hc => solo_erase hsolo ha (hb hsb) hc
  | false =>
      rw [List.countP_cons_of_neg (by rw [hsb]; exact Bool.false_ne_true)]
      exact solo_sublist hsolo List.erase_sublist

end Solo
