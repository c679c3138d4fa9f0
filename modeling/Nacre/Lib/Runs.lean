/-
Runs of one kind of element joined by another: what the expression
`W+(?:J W+)*` matches, over and over, from left to right.

The scanner decides with one element of lookahead (`scan`). What it finds
can be said of each element and its two neighbours alone: an element
belongs to a match when it is of the first kind, or of the second with the
first on both sides (`isInner`), and the matches are the longest stretches
of such elements (`scan_eq`).
-/
import Mathlib.Data.List.Basic

namespace Runs

variable {α : Type*} {word joins : α → Bool} {before : Option α} {c : α} {acc cs : List α}

/-- The matches, from left to right; `acc` is the match being read. -/
def scan (word joins : α → Bool) : List α → List α → List (List α)
  | acc, [] => if acc.isEmpty then [] else [acc]
  | acc, c :: cs =>
      if word c || (joins c && !acc.isEmpty && cs.head?.any word) then
        scan word joins (acc ++ [c]) cs
      else if acc.isEmpty then scan word joins [] cs
      else acc :: scan word joins [] cs

/-- The element is a word's, or it joins two. -/
def isInner (word joins : α → Bool) (before : Option α) (c : α) (after : Option α) : Bool :=
  word c || (joins c && before.any word && after.any word)

/-- Each element, and whether it is part of a match. -/
def marked (word joins : α → Bool) : Option α → List α → List (α × Bool)
  | _, [] => []
  | before, c :: cs => (c, isInner word joins before c cs.head?) :: marked word joins (some c) cs

/-- The longest stretches of elements that are part of a match. -/
def stretches (word joins : α → Bool) (cs : List α) : List (List α) :=
  (((marked word joins none cs).splitOnP fun e => !e.2).map (List.map Prod.fst)).filter
    fun stretch => !stretch.isEmpty

-- ================================================================ the scanner

/-- What a match being read and the element before it say of each other. -/
structure Reading (word joins : α → Bool) (acc : List α) (before : Option α) (cs : List α) :
    Prop where
  idle : acc = [] → before.any word = false
  /-- A match ends in a word, or in an element with a word behind it. -/
  busy : acc ≠ [] → before.any word = true ∨ cs.head?.any word = true

/-- The rest of a scan: the match being read goes on to the first element
that is in no match. -/
theorem scan_acc (h : Reading word joins acc before cs) :
    scan word joins acc cs
      = ((((marked word joins before cs).splitOnP fun e => !e.2).map
          (List.map Prod.fst)).modifyHead (acc ++ ·)).filter fun stretch => !stretch.isEmpty := by
  induction cs generalizing acc before with
  | nil => cases acc <;> simp [scan, marked, List.splitOnP_nil]
  | cons c cs ih =>
      have hsame : (word c || (joins c && !acc.isEmpty && cs.head?.any word))
          = isInner word joins before c cs.head? := by
        rw [isInner]
        cases hacc : acc with
        | nil => simp [h.idle hacc]
        | cons a acc =>
            rcases h.busy (by simp [hacc]) with hbefore | hnext
            · simp [hbefore]
            · have hword : word c = true := hnext
              simp [hword]
      rw [scan, marked, List.splitOnP_cons_eq_if_modifyHead, hsame]
      cases hinner : isInner word joins before c cs.head? with
      | true =>
          have hreading : Reading word joins (acc ++ [c]) (some c) cs := by
            refine ⟨fun hnil => absurd hnil (by simp), fun _ => ?_⟩
            rw [isInner, Bool.or_eq_true, Bool.and_eq_true] at hinner
            exact hinner.imp id And.right
          rw [if_pos rfl, ih hreading]
          simp only [Bool.not_true, Bool.false_eq_true, if_false]
          cases hsplit : (marked word joins (some c) cs).splitOnP fun e => !e.2 with
          | nil => exact absurd hsplit (List.splitOnP_ne_nil _ _)
          | cons first rest => simp
      | false =>
          have hreading : Reading word joins [] (some c) cs := by
            refine ⟨fun _ => ?_, fun hne => absurd rfl hne⟩
            rw [isInner, Bool.or_eq_false_iff] at hinner
            exact hinner.1
          have hrest : List.modifyHead ([] ++ ·)
              (((marked word joins (some c) cs).splitOnP fun e => !e.2).map (List.map Prod.fst))
              = ((marked word joins (some c) cs).splitOnP fun e => !e.2).map (List.map Prod.fst) := by
            cases hsplit : (marked word joins (some c) cs).splitOnP fun e => !e.2 <;> simp
          simp only [Bool.not_false, if_true, Bool.false_eq_true, if_false]
          rw [ih hreading, hrest]
          cases acc <;> simp

/-- The matches are the longest stretches. -/
theorem scan_eq (word joins : α → Bool) (cs : List α) :
    scan word joins [] cs = stretches word joins cs := by
  have hreading : Reading word joins [] none cs := ⟨fun _ => rfl, fun hne => absurd rfl hne⟩
  rw [scan_acc hreading, stretches]
  cases hsplit : (marked word joins none cs).splitOnP fun e => !e.2 <;> simp

-- ================================================================ what is found

/-- What is being read is the start of a match. -/
theorem exists_scan (word joins : α → Bool) (hacc : acc ≠ []) (cs : List α) : ∃ right, acc ++ right ∈ scan word joins acc cs
    ∧ (cs.head?.any word = false → right = [] ∨ right.head?.any joins = true) := by
  induction cs generalizing acc with
  | nil => exact ⟨[], by simp [scan, hacc], fun _ => .inl rfl⟩
  | cons c cs ih =>
      rw [scan]
      split
      next hinner =>
        have hlonger : acc ++ [c] ≠ [] := by simp
        obtain ⟨right, hmem, -⟩ := ih hlonger
        refine ⟨c :: right, by simpa using hmem, fun hword => .inr ?_⟩
        have hnot : word c = false := hword
        rw [hnot, Bool.false_or, Bool.and_eq_true, Bool.and_eq_true] at hinner
        exact hinner.1.1
      next =>
        rw [if_neg (by simpa using hacc)]
        exact ⟨[], by simp, fun _ => .inl rfl⟩

/-- A word is read on. -/
theorem scan_word {run : List α} (hrun : ∀ c ∈ run, word c = true) :
    scan word joins acc (run ++ cs) = scan word joins (acc ++ run) cs := by
  induction run generalizing acc with
  | nil => simp
  | cons c run ih =>
      obtain ⟨hc, hrun⟩ := List.forall_mem_cons.mp hrun
      rw [List.cons_append, scan, hc, Bool.true_or, if_pos rfl, ih hrun, List.append_assoc]
      rfl

/-- Behind whatever does not end in a word, a word is read behind nothing or
behind a joining element. -/
theorem scan_behind {front : List α} (cs : List α)
    (hacc : front = [] → acc = [] ∨ acc.getLast?.any joins = true)
    (hfront : front.getLast?.any word = false) :
    ∃ left, (left = [] ∨ left.getLast?.any joins = true)
      ∧ ∀ found ∈ scan word joins left cs, found ∈ scan word joins acc (front ++ cs) := by
  induction front generalizing acc with
  | nil => exact ⟨acc, hacc rfl, fun _ h => h⟩
  | cons c front ih =>
      have hlast : front ≠ [] → front.getLast?.any word = false := by
        intro hne
        obtain ⟨d, rest, rfl⟩ := List.exists_cons_of_ne_nil hne
        rwa [List.getLast?_cons_cons] at hfront
      have hrest : front.getLast?.any word = false := by
        by_cases hne : front = []
        · rw [hne]
          rfl
        · exact hlast hne
      rw [List.cons_append, scan]
      split
      next hinner =>
        refine ih (fun hnil => .inr ?_) hrest
        -- the joining element is the last before the word
        subst hnil
        have hnot : word c = false := hfront
        rw [hnot, Bool.false_or, Bool.and_eq_true, Bool.and_eq_true] at hinner
        simpa using hinner.1.1
      next =>
        have hnone : front = [] → ([] : List α) = [] ∨ ([] : List α).getLast?.any joins = true :=
          fun _ => .inl rfl
        obtain ⟨left, hleft, hall⟩ := ih hnone hrest
        refine ⟨left, hleft, fun found hfound => ?_⟩
        split
        next => exact hall found hfound
        next => exact List.mem_cons_of_mem _ (hall found hfound)

/-- A longest run of one word's elements is in a match, between its ends
and joining elements. -/
theorem mem_stretches {front run back : List α} (hcs : cs = front ++ run ++ back) (hne : run ≠ [])
    (hrun : ∀ c ∈ run, word c = true) (hfront : front.getLast?.any word = false)
    (hback : back.head?.any word = false) :
    ∃ left right, left ++ run ++ right ∈ stretches word joins cs
      ∧ (left = [] ∨ left.getLast?.any joins = true)
      ∧ (right = [] ∨ right.head?.any joins = true) := by
  have hnone : front = [] → ([] : List α) = [] ∨ ([] : List α).getLast?.any joins = true :=
    fun _ => .inl rfl
  obtain ⟨left, hleft, hall⟩ := scan_behind (run ++ back) hnone hfront
  have hread : left ++ run ≠ [] := by simp [hne]
  obtain ⟨right, hmem, hright⟩ := exists_scan word joins hread back
  refine ⟨left, right, ?_, hleft, hright hback⟩
  rw [← scan_eq, hcs, List.append_assoc]
  refine hall _ ?_
  rw [scan_word hrun]
  exact hmem

theorem mem_of_mem_stretches {stretch : List α} (h : stretch ∈ stretches word joins cs)
    (hc : c ∈ stretch) : c ∈ cs := by
  rw [← scan_eq] at h
  have hall : ∀ acc cs : List α, stretch ∈ scan word joins acc cs → c ∈ acc ∨ c ∈ cs := by
    intro acc cs
    induction cs generalizing acc with
    | nil =>
        intro h
        rw [scan] at h
        split at h
        · cases h
        · exact .inl (List.mem_singleton.mp h ▸ hc)
    | cons d cs ih =>
        intro h
        rw [scan] at h
        split at h
        · have hin := ih _ h
          simp only [List.mem_append, List.mem_singleton] at hin
          simp only [List.mem_cons]
          tauto
        · split at h
          · exact (ih _ h).elim (fun h => absurd h List.not_mem_nil) fun h =>
              .inr (List.mem_cons_of_mem _ h)
          · rcases List.mem_cons.mp h with rfl | h
            · exact .inl hc
            · exact (ih _ h).elim (fun h => absurd h List.not_mem_nil) fun h =>
                .inr (List.mem_cons_of_mem _ h)
  exact (hall [] cs h).elim (fun h => absurd h List.not_mem_nil) id

end Runs
