/-
A global regular expression over a text: where it matches, from the left
and without overlap.

A pattern is tried at a place of the text and says, where it matches
there, what it captured and what of the text is left. `cut` walks the
text once and gives back the elements outside every match and the capture
of each match; all matches and a replacement are both read off it, so two
lemmas serve them: a match is cut out whole, and a stretch in which the
pattern matches nowhere passes through.
-/
import Mathlib.Data.List.Basic

namespace Scan

variable {α : Type*} {m : List α → Option (List α × List α)} {p rest c : List α}

/-- A pattern tried at the start of a text: the capture and the text
left. A match takes at least one element. -/
abbrev Pattern (α : Type*) := List α → Option (List α × List α)

/-- The text cut by a pattern, `skip` elements of the last match still to
pass. -/
def cut (m : Pattern α) : Nat → List α → List (α ⊕ List α)
  | _, [] => []
  | skip + 1, _ :: s => cut m skip s
  | 0, a :: s =>
    match m (a :: s) with
    | some (captured, left) => .inr captured :: cut m (s.length - left.length) s
    | none => .inl a :: cut m 0 s

/-- `[...text.matchAll(m)]`, the first group of each. -/
def matchAll (m : Pattern α) (s : List α) : List (List α) := (cut m 0 s).filterMap Sum.getRight?

/-- `text.replace(m, put)`, `none` where `put` throws. -/
def replace (m : Pattern α) (put : List α → Option (List α)) (s : List α) : Option (List α) :=
  ((cut m 0 s).mapM (Sum.elim (fun a => some [a]) put)).map List.flatten

/-- What follows `word` at the start of a text. -/
def expect [DecidableEq α] (word s : List α) : Option (List α) :=
  if word <+: s then some (s.drop word.length) else none

/-- A pattern that is a word, and captures nothing. -/
def literal [DecidableEq α] (word : List α) : Pattern α := fun s => (expect word s).map ([], ·)

section
variable [DecidableEq α] {word s : List α}

@[simp]
theorem expect_append (word s : List α) : expect word (word ++ s) = some s := by
  rw [expect, if_pos (List.prefix_append word s), List.drop_left]

theorem expect_eq_none (h : ¬ word <+: s) : expect word s = none := if_neg h

/-- Two words of which neither begins the other begin no common text. -/
theorem expect_other {other : List α} (h : ¬ word <+: other) (h' : ¬ other <+: word) (s : List α) :
    expect word (other ++ s) = none := by
  refine expect_eq_none fun hprefix => ?_
  rcases List.prefix_or_prefix_of_prefix hprefix (List.prefix_append other s) with hword | hother
  · exact h hword
  · exact h' hother

theorem expect_head {a b : α} (h : a ≠ b) (word s : List α) : expect (b :: word) (a :: s) = none :=
  expect_eq_none fun hprefix => h (List.cons_prefix_cons.1 hprefix).1.symm

end

-- ============================================================ cutting

theorem cut_skip (m : Pattern α) (p rest : List α) : cut m p.length (p ++ rest) = cut m 0 rest := by
  induction p with
  | nil => rfl
  | cons a p ih =>
    rw [List.length_cons, List.cons_append, cut]
    exact ih

/-- A match is cut out whole. -/
theorem cut_match (hp : p ≠ []) (h : m (p ++ rest) = some (c, rest)) :
    cut m 0 (p ++ rest) = .inr c :: cut m 0 rest := by
  obtain _ | ⟨a, p⟩ := p
  · exact absurd rfl hp
  rw [List.cons_append] at h ⊢
  rw [cut, h]
  dsimp only
  rw [List.length_append, Nat.add_sub_cancel, cut_skip]

/-- A stretch no place of which the pattern matches passes through. -/
theorem cut_pass (h : ∀ t, t ≠ [] → t <:+ p → m (t ++ rest) = none) :
    cut m 0 (p ++ rest) = p.map .inl ++ cut m 0 rest := by
  induction p with
  | nil => rfl
  | cons a p ih =>
    have hhead : m (a :: (p ++ rest)) = none := h (a :: p) (List.cons_ne_nil a p) List.suffix_rfl
    have htail := ih fun t ht hsuffix => h t ht (hsuffix.trans (List.suffix_cons a p))
    rw [List.cons_append, cut, hhead]
    simp only [List.map_cons, List.cons_append, htail]

/-- A pattern that begins with one element passes through a text without
it. -/
theorem cut_plain {mark : α} (hm : ∀ a s, a ≠ mark → m (a :: s) = none) (hp : mark ∉ p) :
    cut m 0 (p ++ rest) = p.map .inl ++ cut m 0 rest := by
  refine cut_pass fun t ht hsuffix => ?_
  obtain _ | ⟨a, t⟩ := t
  · exact absurd rfl ht
  · refine hm a _ fun heq => hp ?_
    exact hsuffix.subset (heq ▸ List.mem_cons_self)

/-- It passes through a text that holds it once, at its start, where it
does not match there. -/
theorem cut_marked {mark : α} (hm : ∀ a s, a ≠ mark → m (a :: s) = none) (hp : mark ∉ p)
    (hhead : m (mark :: (p ++ rest)) = none) :
    cut m 0 (mark :: p ++ rest) = (mark :: p).map .inl ++ cut m 0 rest := by
  rw [List.cons_append, cut, hhead]
  simp only [cut_plain hm hp, List.map_cons, List.cons_append]

-- ================================================== matches, replacements

theorem matchAll_of_cut {pieces : List (α ⊕ List α)} (h : cut m 0 (p ++ rest) = pieces ++ cut m 0 rest) :
    matchAll m (p ++ rest) = pieces.filterMap Sum.getRight? ++ matchAll m rest := by
  rw [matchAll, h, List.filterMap_append, matchAll]

theorem filterMap_inl (p : List α) :
    (p.map (Sum.inl (β := List α))).filterMap Sum.getRight? = [] := by
  simp [List.filterMap_map, Function.comp_def]

variable {put : List α → Option (List α)}

theorem replace_nil : replace m put [] = some [] := rfl

theorem replace_match {r out : List α} (hp : p ≠ []) (h : m (p ++ rest) = some (c, rest))
    (hput : put c = some r) (hrest : replace m put rest = some out) :
    replace m put (p ++ rest) = some (r ++ out) := by
  unfold replace at hrest ⊢
  obtain ⟨outs, houts, rfl⟩ := Option.map_eq_some_iff.1 hrest
  rw [cut_match hp h]
  simp [houts, hput]

theorem replace_pass {out : List α} (h : cut m 0 (p ++ rest) = p.map .inl ++ cut m 0 rest)
    (hrest : replace m put rest = some out) :
    replace m put (p ++ rest) = some (p ++ out) := by
  unfold replace at hrest ⊢
  obtain ⟨outs, houts, rfl⟩ := Option.map_eq_some_iff.1 hrest
  rw [h]
  clear h
  induction p with
  | nil => simp [houts]
  | cons a p ih =>
    obtain ⟨more, hmore, hflat⟩ := Option.map_eq_some_iff.1 ih
    simp [hmore, hflat]

end Scan
