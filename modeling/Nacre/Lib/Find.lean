/-
Searching a list for a run of its elements: the first occurrence, the
last one that starts no later than a bound, the list with every
occurrence of a pair replaced.

An occurrence is a position (`At`), and each search says which one it
finds and that it finds one where there is one.
-/
import Mathlib.Data.List.Infix

namespace Find

variable {α : Type*} {needle hay : List α} {i j limit start : Nat}

/-- The needle stands at this position. -/
def At (needle hay : List α) (i : Nat) : Prop := needle <+: hay.drop i

instance [DecidableEq α] : Decidable (At needle hay i) :=
  inferInstanceAs (Decidable (needle <+: hay.drop i))

theorem At.le (h : At needle hay i) (hne : needle ≠ []) : i + needle.length ≤ hay.length := by
  have hlen := h.length_le
  have hpos := List.length_pos_iff.mpr hne
  rw [List.length_drop] at hlen
  omega

theorem At.take (h : At needle hay i) : (hay.drop i).take needle.length = needle :=
  (List.prefix_iff_eq_take.mp h).symm

theorem At.split (h : At needle hay i) :
    hay = hay.take i ++ (needle ++ hay.drop (i + needle.length)) := by
  obtain ⟨rest, hrest⟩ := h
  have htail : hay.drop (i + needle.length) = rest := by
    rw [← List.drop_drop, ← hrest, List.drop_left]
  rw [htail, hrest, List.take_append_drop]

theorem at_zero : At needle hay 0 ↔ needle <+: hay := Iff.rfl

theorem at_succ {a : α} : At needle (a :: hay) (i + 1) ↔ At needle hay i := Iff.rfl

theorem at_drop : At needle (hay.drop start) i ↔ At needle hay (i + start) := by
  rw [At, At, List.drop_drop, Nat.add_comm]

variable [DecidableEq α]

-- ============================================================ the first

/-- `hay.indexOf(needle)`, `none` for `-1`. -/
def indexOf (needle : List α) : List α → Option Nat
  | [] => if needle = [] then some 0 else none
  | a :: hay =>
      if needle <+: a :: hay then some 0 else (indexOf needle hay).map (· + 1)

/-- `hay.indexOf(needle, start)`. -/
def indexFrom (needle hay : List α) (start : Nat) : Option Nat :=
  (indexOf needle (hay.drop start)).map (· + start)

theorem indexOf_some (h : indexOf needle hay = some i) :
    At needle hay i ∧ ∀ j < i, ¬ At needle hay j := by
  induction hay generalizing i with
  | nil =>
      unfold indexOf at h
      split at h
      next hnil =>
        cases h
        subst hnil
        exact ⟨List.prefix_refl _, fun j hj => absurd hj (Nat.not_lt_zero j)⟩
      next => cases h
  | cons a hay ih =>
      unfold indexOf at h
      split at h
      next hpre =>
        cases h
        exact ⟨hpre, fun j hj => absurd hj (Nat.not_lt_zero j)⟩
      next hpre =>
        obtain ⟨k, hk, rfl⟩ := Option.map_eq_some_iff.mp h
        obtain ⟨hat, hbefore⟩ := ih hk
        refine ⟨hat, fun j hj => ?_⟩
        cases j with
        | zero => exact hpre
        | succ j => exact hbefore j (Nat.lt_of_succ_lt_succ hj)

theorem indexOf_none (h : indexOf needle hay = none) (i : Nat) : ¬ At needle hay i := by
  induction hay generalizing i with
  | nil =>
      unfold indexOf at h
      split at h
      next => cases h
      next hne =>
        intro hat
        rw [At, List.drop_nil, List.prefix_nil] at hat
        exact hne hat
  | cons a hay ih =>
      unfold indexOf at h
      split at h
      next => cases h
      next hpre =>
        cases i with
        | zero => exact hpre
        | succ i => exact ih (Option.map_eq_none_iff.mp h) i

theorem indexOf_eq_some :
    indexOf needle hay = some i ↔ At needle hay i ∧ ∀ j < i, ¬ At needle hay j := by
  refine ⟨indexOf_some, fun ⟨hat, hbefore⟩ => ?_⟩
  cases hfound : indexOf needle hay with
  | none => exact absurd hat (indexOf_none hfound i)
  | some k =>
      obtain ⟨hk, hkbefore⟩ := indexOf_some hfound
      have hik : ¬ i < k := fun hlt => hkbefore i hlt hat
      have hki : ¬ k < i := fun hlt => hbefore k hlt hk
      rw [show k = i by omega]

theorem indexFrom_some (h : indexFrom needle hay start = some i) :
    start ≤ i ∧ At needle hay i ∧ ∀ j, start ≤ j → j < i → ¬ At needle hay j := by
  obtain ⟨k, hk, rfl⟩ := Option.map_eq_some_iff.mp h
  obtain ⟨hat, hbefore⟩ := indexOf_some hk
  refine ⟨by omega, at_drop.mp hat, fun j hj hlt hatj => ?_⟩
  refine hbefore (j - start) (by omega) (at_drop.mpr ?_)
  rwa [Nat.sub_add_cancel hj]

theorem indexFrom_none (h : indexFrom needle hay start = none) (hi : start ≤ i) :
    ¬ At needle hay i := by
  intro hat
  refine indexOf_none (Option.map_eq_none_iff.mp h) (i - start) (at_drop.mpr ?_)
  rwa [Nat.sub_add_cancel hi]

theorem indexFrom_eq_some (hi : start ≤ i) (hat : At needle hay i)
    (hbefore : ∀ j, start ≤ j → j < i → ¬ At needle hay j) :
    indexFrom needle hay start = some i := by
  refine Option.map_eq_some_iff.mpr ⟨i - start, indexOf_eq_some.mpr ⟨?_, ?_⟩, by omega⟩
  · rw [at_drop, Nat.sub_add_cancel hi]
    exact hat
  · intro j hj hatj
    exact hbefore (j + start) (by omega) (by omega) (at_drop.mp hatj)

-- ============================================================= the last

/-- `hay.lastIndexOf(needle, limit)`, `none` for `-1`. -/
def lastIndexOf (needle hay : List α) : Nat → Option Nat
  | 0 => if needle <+: hay then some 0 else none
  | limit + 1 =>
      if needle <+: hay.drop (limit + 1) then some (limit + 1) else lastIndexOf needle hay limit

theorem lastIndexOf_some (h : lastIndexOf needle hay limit = some i) :
    i ≤ limit ∧ At needle hay i ∧ ∀ j, i < j → j ≤ limit → ¬ At needle hay j := by
  induction limit with
  | zero =>
      unfold lastIndexOf at h
      split at h
      next hpre =>
        cases h
        exact ⟨le_refl _, hpre, fun j hj hle => by omega⟩
      next => cases h
  | succ limit ih =>
      unfold lastIndexOf at h
      split at h
      next hpre =>
        cases h
        exact ⟨le_refl _, hpre, fun j hj hle => by omega⟩
      next hpre =>
        obtain ⟨hle, hat, hafter⟩ := ih h
        refine ⟨Nat.le_succ_of_le hle, hat, fun j hj hjle => ?_⟩
        by_cases hlast : j = limit + 1
        · subst hlast
          exact hpre
        · exact hafter j hj (by omega)

theorem lastIndexOf_none (h : lastIndexOf needle hay limit = none) (hi : i ≤ limit) :
    ¬ At needle hay i := by
  induction limit with
  | zero =>
      unfold lastIndexOf at h
      split at h
      next => cases h
      next hpre =>
        rw [Nat.le_zero.mp hi]
        exact hpre
  | succ limit ih =>
      unfold lastIndexOf at h
      split at h
      next => cases h
      next hpre =>
        by_cases hlast : i = limit + 1
        · subst hlast
          exact hpre
        · exact ih h (by omega)

-- ============================================================== joined

/-- What is joined comes from a piece, or is the separator. -/
theorem mem_intercalate {s c : α} {ps : List (List α)} (h : c ∈ [s].intercalate ps) :
    c = s ∨ ∃ p ∈ ps, c ∈ p := by
  induction ps with
  | nil => cases h
  | cons p ps ih =>
      cases ps with
      | nil => exact .inr ⟨p, List.mem_cons_self, by simpa using h⟩
      | cons u ps =>
          rw [List.intercalate_cons_cons, List.append_assoc, List.mem_append] at h
          rcases h with h | h
          · exact .inr ⟨p, List.mem_cons_self, h⟩
          · rcases List.mem_cons.mp h with h | h
            · exact .inl h
            · rcases ih h with h | ⟨v, hv, hc⟩
              · exact .inl h
              · exact .inr ⟨v, List.mem_cons_of_mem _ hv, hc⟩

theorem map_intercalate {β : Type*} (f : α → β) (s : α) (ps : List (List α)) :
    ([s].intercalate ps).map f = [f s].intercalate (ps.map (List.map f)) := by
  induction ps with
  | nil => rfl
  | cons p ps ih =>
      cases ps with
      | nil => simp
      | cons q ps =>
          simp only [List.map_cons, List.intercalate_cons_cons, List.map_append] at ih ⊢
          rw [ih]
          rfl

-- ============================================================ replaced

/-- Every occurrence of a pair replaced, from the left. -/
def replacePair (a b : α) (by_ : List α) : List α → List α
  | [] => []
  | [x] => [x]
  | x :: y :: rest =>
      if x = a ∧ y = b then by_ ++ replacePair a b by_ rest
      else x :: replacePair a b by_ (y :: rest)

variable {a b x : α} {by_ s t : List α}

theorem replacePair_pair : replacePair a b by_ (a :: b :: s) = by_ ++ replacePair a b by_ s := by
  rw [replacePair, if_pos ⟨rfl, rfl⟩]

/-- An element that begins no occurrence stays. -/
theorem replacePair_cons (h : x = a → s.head? ≠ some b) :
    replacePair a b by_ (x :: s) = x :: replacePair a b by_ s := by
  cases s with
  | nil => rfl
  | cons y s =>
      rw [replacePair, if_neg]
      rintro ⟨hx, rfl⟩
      exact h hx rfl

theorem replacePair_append (h : a ∉ s) :
    replacePair a b by_ (s ++ t) = s ++ replacePair a b by_ t := by
  induction s with
  | nil => rfl
  | cons x s ih =>
      rw [List.mem_cons, not_or] at h
      rw [List.cons_append, replacePair_cons fun hx => absurd hx.symm h.1, ih h.2, List.cons_append]

theorem replacePair_eq_self (h : a ∉ s) : replacePair a b by_ s = s := by
  have happend : replacePair a b by_ (s ++ []) = s ++ replacePair a b by_ [] :=
    replacePair_append h
  rwa [replacePair, List.append_nil] at happend

/-- What is in no occurrence is kept. -/
theorem mem_replacePair (hx : x ∈ s) (ha : x ≠ a) (hb : x ≠ b) : x ∈ replacePair a b by_ s := by
  induction s using replacePair.induct a b with
  | case1 => cases hx
  | case2 y => exact hx
  | case3 y z rest hpair ih =>
      obtain ⟨rfl, rfl⟩ := hpair
      rw [replacePair_pair]
      rw [List.mem_cons, List.mem_cons] at hx
      exact List.mem_append_right _ (ih ((hx.resolve_left ha).resolve_left hb))
  | case4 y z rest hpair ih =>
      rw [replacePair, if_neg hpair]
      rcases List.mem_cons.mp hx with rfl | hx
      · exact List.mem_cons_self
      · exact List.mem_cons_of_mem _ (ih hx)

-- ================================================================= skipped

/-- A prefix without the separator ends before it. -/
theorem prefix_of_append_cons (h : s <+: t ++ x :: hay) (hx : x ∉ s) : s <+: t := by
  by_cases hle : s.length ≤ t.length
  · exact List.prefix_of_prefix_length_le h (List.prefix_append t _) hle
  · have hlonger : t ++ [x] <+: s := by
      refine List.prefix_of_prefix_length_le ⟨hay, by simp⟩ h ?_
      rw [List.length_append, List.length_singleton]
      omega
    exact absurd (hlonger.subset (by simp)) hx

/-- The first occurrence is not before its first element is. -/
theorem indexOf_append (h : a ∉ s) :
    indexOf (a :: needle) (s ++ t) = (indexOf (a :: needle) t).map (· + s.length) := by
  induction s with
  | nil => simp
  | cons x s ih =>
      rw [List.mem_cons, not_or] at h
      have hpre : ¬ a :: needle <+: x :: (s ++ t) := by
        intro hpre
        exact h.1 (List.cons_prefix_cons.mp hpre).1
      rw [List.cons_append, indexOf, if_neg hpre, ih h.2, Option.map_map]
      rfl

end Find
