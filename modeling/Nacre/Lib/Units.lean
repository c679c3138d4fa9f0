/-
Text as its UTF-16 code units, where a program cuts it: white space and
what `trim` leaves, code points, surrogate pairs.

A code point is one unit, or the two of a surrogate pair; `codePoints`
reads them from the left, as an iterator does. Cutting a text between two
units cuts its code points too, unless the units are a pair (`Splits`), and
a well-formed text stays well-formed on both sides exactly where the cut
splits none.
-/
import Mathlib.Data.List.DropRight
import Nacre.Lib.Find
import Nacre.Lib.Json

namespace Units

open Json (isHigh isLow)

variable {s t a b : List UInt16} {u v : UInt16}

-- ========================================================= white space

/-- ECMAScript white space and line terminators, one unit each. -/
def isSpace (u : UInt16) : Bool :=
  let n := u.toNat
  (0x9 ≤ n && n ≤ 0xD) || n = 0x20 || n = 0xA0 || n = 0x1680
    || (0x2000 ≤ n && n ≤ 0x200A) || n = 0x2028 || n = 0x2029
    || n = 0x202F || n = 0x205F || n = 0x3000 || n = 0xFEFF

/-- `s.trimStart()`. -/
def trimStart (s : List UInt16) : List UInt16 := s.dropWhile isSpace

/-- `s.trim()`. -/
def trim (s : List UInt16) : List UInt16 := (trimStart s).rdropWhile isSpace

/-- Nothing to trim at either end. -/
def Trimmed (s : List UInt16) : Prop :=
  (∀ u ∈ s.head?, isSpace u = false) ∧ ∀ u ∈ s.getLast?, isSpace u = false

/-- What is trimmed stands between white space. -/
theorem trim_split (s : List UInt16) :
    ∃ left right, s = left ++ (trim s ++ right) ∧
      (∀ u ∈ left, isSpace u = true) ∧ ∀ u ∈ right, isSpace u = true := by
  refine ⟨s.takeWhile isSpace, (trimStart s).rtakeWhile isSpace, ?_, ?_, ?_⟩
  · rw [trim, List.rdropWhile_append_rtakeWhile, trimStart, List.takeWhile_append_dropWhile]
  · exact fun u hu => List.mem_takeWhile_imp hu
  · exact fun u hu => List.mem_rtakeWhile_imp hu

theorem trimmed_trim (s : List UInt16) : Trimmed (trim s) := by
  constructor
  · intro u hu
    have hhead := List.head?_dropWhile_not isSpace s
    obtain ⟨rest, hrest⟩ := List.rdropWhile_prefix isSpace (trimStart s)
    rw [show s.dropWhile isSpace = trim s ++ rest from hrest.symm, List.head?_append, hu]
      at hhead
    simpa using hhead
  · intro u hu
    rw [Option.mem_def] at hu
    have hne : trim s ≠ [] := by
      intro hnil
      rw [hnil] at hu
      cases hu
    rw [List.getLast?_eq_some_getLast hne] at hu
    cases hu
    have hlast := List.rdropWhile_last_not isSpace (trimStart s) hne
    exact eq_false_of_ne_true hlast

theorem Trimmed.trim_eq (h : Trimmed s) : trim s = s := by
  have hstart : trimStart s = s := by
    rw [trimStart, List.dropWhile_eq_self_iff]
    intro hpos
    rw [h.1 s[0] (by simp [List.head?_eq_getElem?])]
    exact Bool.false_ne_true
  rw [trim, hstart, List.rdropWhile_eq_self_iff]
  intro hne
  rw [h.2 _ (by rw [List.getLast?_eq_some_getLast hne]; rfl)]
  exact Bool.false_ne_true

/-- A unit that is no white space is not trimmed. -/
theorem trim_covers {i : Nat} (hi : s[i]? = some u) (hu : isSpace u = false) :
    ∃ left right, s = left ++ (trim s ++ right) ∧ left.length ≤ i ∧
      i < left.length + (trim s).length := by
  obtain ⟨left, right, hs, hleft, hright⟩ := trim_split s
  refine ⟨left, right, hs, ?_, ?_⟩
  · by_contra hlt
    rw [hs, List.getElem?_append_left (by omega)] at hi
    have hspace := hleft u (List.mem_of_getElem? hi)
    rw [hu] at hspace
    cases hspace
  · by_contra hge
    rw [hs, List.getElem?_append_right (by omega), List.getElem?_append_right (by omega)] at hi
    have hspace := hright u (List.mem_of_getElem? hi)
    rw [hu] at hspace
    cases hspace

theorem trim_eq_nil_iff : trim s = [] ↔ ∀ u ∈ s, isSpace u = true := by
  constructor
  · intro hnil u hu
    obtain ⟨left, right, hs, hleft, hright⟩ := trim_split s
    rw [hnil, List.nil_append] at hs
    rw [hs, List.mem_append] at hu
    exact hu.elim (hleft u) (hright u)
  · intro hall
    rw [trim, trimStart, List.dropWhile_eq_nil_iff.mpr hall, List.rdropWhile_nil]

-- ========================================================= code points

def isPair (u v : UInt16) : Bool := isHigh u && isLow v

/-- The code points of a text, each as its units. -/
def codePoints : List UInt16 → List (List UInt16)
  | [] => []
  | [u] => [[u]]
  | u :: v :: rest =>
      if isPair u v then [u, v] :: codePoints rest else [u] :: codePoints (v :: rest)

/-- The two sides of a cut hold one half of a pair each. -/
def Splits (a b : List UInt16) : Prop :=
  ∃ u ∈ a.getLast?, ∃ v ∈ b.head?, isPair u v = true

instance : Decidable (Splits a b) := by
  unfold Splits
  infer_instance

theorem codePoints_pair (h : isPair u v = true) :
    codePoints (u :: v :: t) = [u, v] :: codePoints t := by
  rw [codePoints, if_pos h]

/-- A unit that does not go with the next one. -/
theorem codePoints_cons (h : ¬ Splits [u] t) : codePoints (u :: t) = [u] :: codePoints t := by
  cases t with
  | nil => rfl
  | cons v t =>
      rw [codePoints, if_neg]
      intro hpair
      exact h ⟨u, rfl, v, rfl, hpair⟩

theorem flatten_codePoints (s : List UInt16) : (codePoints s).flatten = s := by
  induction s using codePoints.induct with
  | case1 => rfl
  | case2 u => rfl
  | case3 u v rest hpair ih => rw [codePoints_pair hpair, List.flatten_cons, ih]; rfl
  | case4 u v rest hpair ih => rw [codePoints, if_neg hpair, List.flatten_cons, ih]; rfl

/-- A code point is one unit or a pair. -/
theorem codePoints_cases {c : List UInt16} (h : c ∈ codePoints s) :
    (∃ u, c = [u]) ∨ ∃ u v, c = [u, v] ∧ isPair u v = true := by
  induction s using codePoints.induct with
  | case1 => cases h
  | case2 u => exact .inl ⟨u, List.mem_singleton.mp h⟩
  | case3 u v rest hpair ih =>
      rw [codePoints_pair hpair] at h
      rcases List.mem_cons.mp h with rfl | h
      · exact .inr ⟨u, v, rfl, hpair⟩
      · exact ih h
  | case4 u v rest hpair ih =>
      rw [codePoints, if_neg hpair] at h
      rcases List.mem_cons.mp h with rfl | h
      · exact .inl ⟨u, rfl⟩
      · exact ih h

/-- The low half of a pair is no high half. -/
theorem isHigh_of_isLow (h : isLow u = true) : isHigh u = false := by
  simp only [isLow, isHigh, Bool.and_eq_true, decide_eq_true_eq, UInt16.le_iff_toNat_le,
    UInt16.lt_iff_toNat_lt, Bool.and_eq_false_iff, decide_eq_false_iff_not] at h ⊢
  exact .inr (Nat.not_lt.mpr h.1)

theorem isHigh_of_isSpace (h : isSpace u = true) : isHigh u = false ∧ isLow u = false := by
  simp only [isSpace, isHigh, isLow, Bool.or_eq_true, Bool.and_eq_true, decide_eq_true_eq,
    Bool.and_eq_false_iff, decide_eq_false_iff_not, UInt16.le_iff_toNat_le,
    UInt16.lt_iff_toNat_lt] at h ⊢
  have h1 : (0xD800 : UInt16).toNat = 0xD800 := rfl
  have h2 : (0xDC00 : UInt16).toNat = 0xDC00 := rfl
  have h3 : (0xE000 : UInt16).toNat = 0xE000 := rfl
  omega

theorem codePoints_append (h : ¬ Splits a b) :
    codePoints (a ++ b) = codePoints a ++ codePoints b := by
  induction a using codePoints.induct with
  | case1 => rfl
  | case2 u => exact codePoints_cons h
  | case3 u v rest hpair ih =>
      have hrest : ¬ Splits rest b := by
        rintro ⟨w, hw, x, hx, hwx⟩
        refine h ⟨w, ?_, x, hx, hwx⟩
        rw [Option.mem_def] at hw ⊢
        rw [List.getLast?_cons_cons, List.getLast?_cons, hw]
        rfl
      rw [List.cons_append, List.cons_append, codePoints_pair hpair, codePoints_pair hpair,
        ih hrest]
      rfl
  | case4 u v rest hpair ih =>
      have hrest : ¬ Splits (v :: rest) b := by
        rintro ⟨w, hw, x, hx, hwx⟩
        refine h ⟨w, ?_, x, hx, hwx⟩
        rw [List.getLast?_cons_cons]
        exact hw
      have hcons : ∀ t, codePoints (u :: v :: t) = [u] :: codePoints (v :: t) := by
        intro t
        rw [codePoints, if_neg hpair]
      rw [List.cons_append, List.cons_append, hcons, hcons, ← List.cons_append, ih hrest]
      rfl

theorem not_splits_nil_left : ¬ Splits [] b := by
  rintro ⟨u, hu, -⟩
  cases hu

theorem not_splits_nil_right : ¬ Splits a [] := by
  rintro ⟨u, -, v, hv, -⟩
  cases hv

/-- What ends in the low half of a pair splits nothing. -/
theorem not_splits_concat (h : isLow v = true) : ¬ Splits (a ++ [v]) b := by
  rintro ⟨u, hu, w, -, hpair⟩
  rw [List.getLast?_concat] at hu
  obtain rfl : v = u := Option.some.inj hu
  rw [isPair, isHigh_of_isLow h, Bool.false_and] at hpair
  cases hpair

theorem splits_cons (h : a ≠ []) : Splits (u :: a) b ↔ Splits a b := by
  obtain ⟨w, a, rfl⟩ := List.exists_cons_of_ne_nil h
  rw [Splits, Splits, List.getLast?_cons_cons]

/-- Some of the code points are those of a prefix, and the cut splits no
pair. -/
theorem codePoints_split {taken left : List (List UInt16)} (h : codePoints s = taken ++ left) :
    codePoints taken.flatten = taken ∧ ¬ Splits taken.flatten left.flatten := by
  induction s using codePoints.induct generalizing taken with
  | case1 =>
      obtain ⟨rfl, rfl⟩ := List.append_eq_nil_iff.mp h.symm
      exact ⟨rfl, not_splits_nil_left⟩
  | case2 u =>
      cases taken with
      | nil => exact ⟨rfl, not_splits_nil_left⟩
      | cons c taken =>
          obtain ⟨rfl, hrest⟩ := List.cons.inj h
          obtain ⟨rfl, rfl⟩ := List.append_eq_nil_iff.mp hrest.symm
          exact ⟨rfl, not_splits_nil_right⟩
  | case3 u v rest hpair ih =>
      rw [codePoints_pair hpair] at h
      cases taken with
      | nil => exact ⟨rfl, not_splits_nil_left⟩
      | cons c taken =>
          obtain ⟨rfl, hrest⟩ := List.cons.inj h
          obtain ⟨hpoints, hsplit⟩ := ih hrest
          refine ⟨?_, ?_⟩
          · show codePoints (u :: v :: taken.flatten) = _
            rw [codePoints_pair hpair, hpoints]
          · by_cases hnil : taken.flatten = []
            · rw [List.flatten_cons, hnil, List.append_nil]
              have hlow : isLow v = true := (Bool.and_eq_true_iff.mp hpair).2
              exact not_splits_concat (a := [u]) hlow
            · show ¬ Splits (u :: v :: taken.flatten) _
              rw [splits_cons (by simp), splits_cons hnil]
              exact hsplit
  | case4 u v rest hpair ih =>
      rw [codePoints, if_neg hpair] at h
      cases taken with
      | nil => exact ⟨rfl, not_splits_nil_left⟩
      | cons c taken =>
          obtain ⟨rfl, hrest⟩ := List.cons.inj h
          obtain ⟨hpoints, hsplit⟩ := ih hrest
          have hflat : taken.flatten ++ left.flatten = v :: rest := by
            rw [← List.flatten_append, ← show codePoints (v :: rest) = taken ++ left from hrest,
              flatten_codePoints]
          by_cases hnil : taken.flatten = []
          · rw [hnil, List.nil_append] at hflat
            rw [hnil] at hpoints
            rw [List.flatten_cons, hnil, hflat]
            refine ⟨by rw [← hpoints]; rfl, ?_⟩
            rintro ⟨w, hw, x, hx, hwx⟩
            obtain rfl : u = w := Option.some.inj hw
            obtain rfl : v = x := Option.some.inj hx
            exact hpair hwx
          · obtain ⟨w, t, ht⟩ := List.exists_cons_of_ne_nil hnil
            have hhead : w = v := by
              rw [ht, List.cons_append] at hflat
              exact (List.cons.inj hflat).1
            subst hhead
            refine ⟨?_, ?_⟩
            · show codePoints (u :: taken.flatten) = [u] :: taken
              rw [ht, codePoints, if_neg hpair, ← ht, hpoints]
            · show ¬ Splits (u :: taken.flatten) _
              rw [splits_cons hnil]
              exact hsplit

theorem not_splits_space_left (h : ∀ u ∈ a, isSpace u = true) : ¬ Splits a b := by
  rintro ⟨u, hu, v, -, hpair⟩
  have hhigh := (isHigh_of_isSpace (h u (List.mem_of_getLast? hu))).1
  rw [isPair, hhigh] at hpair
  cases hpair

theorem not_splits_space_right (h : ∀ u ∈ b, isSpace u = true) : ¬ Splits a b := by
  rintro ⟨u, -, v, hv, hpair⟩
  have hlow := (isHigh_of_isSpace (h v (List.mem_of_mem_head? hv))).2
  rw [isPair, hlow, Bool.and_false] at hpair
  cases hpair

-- ============================================================= weights

section Weight

variable {f : List UInt16 → Nat}

/-- What the code points of a text weigh. -/
def weight (f : List UInt16 → Nat) (s : List UInt16) : Nat := ((codePoints s).map f).sum

theorem weight_append (h : ¬ Splits a b) : weight f (a ++ b) = weight f a + weight f b := by
  rw [weight, codePoints_append h, List.map_append, List.sum_append]
  rfl

/-- Where half a pair weighs no more than the pair, a cut text weighs no
more. -/
theorem weight_take_le (hf : ∀ u v, isPair u v = true → f [u] ≤ f [u, v]) (s : List UInt16)
    (k : Nat) : weight f (s.take k) ≤ weight f s := by
  induction s using codePoints.induct generalizing k with
  | case1 => rw [List.take_nil]
  | case2 u =>
      cases k with
      | zero => exact Nat.zero_le _
      | succ k => rw [List.take_succ_cons, List.take_nil]
  | case3 u v rest hpair ih =>
      have hsame : ∀ t, weight f (u :: v :: t) = f [u, v] + weight f t := by
        intro t
        rw [weight, codePoints_pair hpair]
        rfl
      match k with
      | 0 => exact Nat.zero_le _
      | 1 =>
          rw [hsame]
          exact (hf u v hpair).trans (Nat.le_add_right _ _)
      | k + 2 =>
          rw [List.take_succ_cons, List.take_succ_cons, hsame, hsame]
          exact Nat.add_le_add_left (ih k) _
  | case4 u v rest hpair ih =>
      cases k with
      | zero => exact Nat.zero_le _
      | succ k =>
          have hsplit : ∀ m, ¬ Splits [u] ((v :: rest).take m) := by
            rintro m ⟨w, hw, x, hx, hwx⟩
            obtain rfl : u = w := Option.some.inj hw
            cases m with
            | zero => cases hx
            | succ m =>
                obtain rfl : v = x := Option.some.inj hx
                exact hpair hwx
          have hrest : ¬ Splits [u] (v :: rest) := by
            simpa using hsplit (v :: rest).length
          calc weight f ((u :: v :: rest).take (k + 1))
              = weight f [u] + weight f ((v :: rest).take k) := weight_append (hsplit k)
            _ ≤ weight f [u] + weight f (v :: rest) := Nat.add_le_add_left (ih k) _
            _ = weight f (u :: v :: rest) := (weight_append hrest).symm

/-- What is trimmed away weighs something, if anything. -/
theorem weight_trim_le (s : List UInt16) : weight f (trim s) ≤ weight f s := by
  obtain ⟨left, right, hs, hleft, hright⟩ := trim_split s
  have hl : ¬ Splits left (trim s ++ right) := not_splits_space_left hleft
  have hr : ¬ Splits (trim s) right := not_splits_space_right hright
  conv_rhs => rw [hs, weight_append hl, weight_append hr]
  omega

/-- The number of code points is a weight. -/
theorem length_codePoints (s : List UInt16) : (codePoints s).length = weight (fun _ => 1) s := by
  simp [weight]

end Weight

-- ========================================================= well-formed

/-- A unit that is no half of a pair. -/
def isLone (c : List UInt16) : Bool :=
  match c with
  | [u] => isHigh u || isLow u
  | _ => false

/-- `s.isWellFormed()`: no lone surrogate. -/
def isWellFormed (s : List UInt16) : Bool := (codePoints s).all fun c => !isLone c

theorem isWellFormed_append (h : ¬ Splits a b) :
    isWellFormed (a ++ b) = (isWellFormed a && isWellFormed b) := by
  rw [isWellFormed, codePoints_append h, List.all_append]
  rfl

theorem isWellFormed_of_space (h : ∀ u ∈ s, isSpace u = true) : isWellFormed s = true := by
  induction s with
  | nil => rfl
  | cons u s ih =>
      obtain ⟨hu, hs⟩ := List.forall_mem_cons.mp h
      have hsplit : ¬ Splits [u] s := not_splits_space_left (by simpa using hu)
      obtain ⟨hhigh, hlow⟩ := isHigh_of_isSpace hu
      rw [← List.singleton_append, isWellFormed_append hsplit, ih hs]
      simp [isWellFormed, codePoints, isLone, hhigh, hlow]

theorem isWellFormed_trim (s : List UInt16) : isWellFormed (trim s) = isWellFormed s := by
  obtain ⟨left, right, hs, hleft, hright⟩ := trim_split s
  have hl : ¬ Splits left (trim s ++ right) := not_splits_space_left hleft
  have hr : ¬ Splits (trim s) right := not_splits_space_right hright
  conv_rhs => rw [hs]
  rw [isWellFormed_append hl, isWellFormed_append hr, isWellFormed_of_space hleft,
    isWellFormed_of_space hright, Bool.true_and, Bool.and_true]

/-- Half a pair at the end is a lone surrogate, whatever precedes it. -/
theorem not_isWellFormed_concat (h : isHigh u = true) : isWellFormed (a ++ [u]) = false := by
  have hlow : isLow u = false := by
    cases hlow : isLow u with
    | false => rfl
    | true => exact absurd h (by rw [isHigh_of_isLow hlow]; exact Bool.false_ne_true)
  have hsplit : ¬ Splits a [u] := by
    rintro ⟨w, -, x, hx, hpair⟩
    cases hx
    rw [isPair, hlow, Bool.and_false] at hpair
    cases hpair
  rw [isWellFormed_append hsplit]
  simp [isWellFormed, codePoints, isLone, h]

/-- Half a pair at the start is a lone surrogate, whatever follows. -/
theorem not_isWellFormed_cons (h : isLow u = true) : isWellFormed (u :: b) = false := by
  have hsplit : ¬ Splits [u] b := by
    rintro ⟨w, hw, x, -, hpair⟩
    obtain rfl : u = w := Option.some.inj hw
    rw [isPair, isHigh_of_isLow h, Bool.false_and] at hpair
    cases hpair
  rw [← List.singleton_append, isWellFormed_append hsplit]
  simp [isWellFormed, codePoints, isLone, h]

/-- A text cut where no pair is split. -/
theorem isWellFormed_left (h : isWellFormed (a ++ b) = true) :
    isWellFormed a = true ↔ ¬ Splits a b := by
  constructor
  · rintro ha ⟨u, hu, v, -, hpair⟩
    rw [isPair, Bool.and_eq_true] at hpair
    obtain ⟨a', rfl⟩ := List.getLast?_eq_some_iff.mp hu
    rw [not_isWellFormed_concat hpair.1] at ha
    cases ha
  · intro hsplit
    rw [isWellFormed_append hsplit, Bool.and_eq_true] at h
    exact h.1

theorem isWellFormed_right (h : isWellFormed (a ++ b) = true) :
    isWellFormed b = true ↔ ¬ Splits a b := by
  constructor
  · rintro hb ⟨u, -, v, hv, hpair⟩
    rw [isPair, Bool.and_eq_true] at hpair
    obtain ⟨b', rfl⟩ := List.head?_eq_some_iff.mp hv
    rw [not_isWellFormed_cons hpair.2] at hb
    cases hb
  · intro hsplit
    rw [isWellFormed_append hsplit, Bool.and_eq_true] at h
    exact h.2

/-- The last unit of the left side is no high half. -/
theorem not_splits_of_last {u : UInt16} (hu : a.getLast? = some u) (hhigh : isHigh u = false) :
    ¬ Splits a b := by
  rintro ⟨w, hw, v, -, hpair⟩
  rw [hu] at hw
  obtain rfl : u = w := Option.some.inj hw
  rw [isPair, hhigh] at hpair
  cases hpair

/-- A unit that is no surrogate goes with nothing. -/
theorem isWellFormed_cons_plain (hu : isHigh u = false ∧ isLow u = false) (t : List UInt16) :
    isWellFormed (u :: t) = isWellFormed t := by
  have hsplit : ¬ Splits [u] t := not_splits_of_last (u := u) rfl hu.1
  rw [← List.singleton_append, isWellFormed_append hsplit]
  simp [isWellFormed, codePoints, isLone, hu.1, hu.2]

/-- Line breaks are written as one unit; no surrogate comes or goes. -/
theorem isWellFormed_replacePair (hu : isHigh u = false ∧ isLow u = false)
    (hv : isHigh v = false ∧ isLow v = false) (huv : v ≠ u) (s : List UInt16) :
    isWellFormed (Find.replacePair u v [v] s) = isWellFormed s := by
  induction s using codePoints.induct with
  | case1 => rfl
  | case2 x => rfl
  | case3 x y rest hpair ih =>
      obtain ⟨hx, hy⟩ := Bool.and_eq_true_iff.mp hpair
      have hxu : x ≠ u := by
        rintro rfl
        rw [hu.1] at hx
        cases hx
      have hyu : y ≠ u := by
        rintro rfl
        rw [hu.2] at hy
        cases hy
      have hkeep : Find.replacePair u v [v] (x :: y :: rest)
          = x :: y :: Find.replacePair u v [v] rest := by
        rw [Find.replacePair, if_neg fun h => hxu h.1]
        cases rest with
        | nil => rfl
        | cons z rest => rw [Find.replacePair, if_neg fun h => hyu h.1]
      rw [hkeep, isWellFormed, isWellFormed, codePoints_pair hpair, codePoints_pair hpair,
        List.all_cons, List.all_cons]
      exact congrArg _ ih
  | case4 x y rest hpair ih =>
      by_cases hbreak : x = u ∧ y = v
      · obtain ⟨rfl, rfl⟩ := hbreak
        have hkeep : Find.replacePair x y [y] (y :: rest) = y :: Find.replacePair x y [y] rest := by
          cases rest with
          | nil => rfl
          | cons z rest => rw [Find.replacePair, if_neg fun h => huv h.1]
        rw [Find.replacePair, if_pos ⟨rfl, rfl⟩, List.singleton_append, ← hkeep, ih,
          isWellFormed_cons_plain hu]
      · rw [Find.replacePair, if_neg hbreak]
        -- What comes after `x` is still no low half, if it was none.
        have hhead : ∀ w ∈ (Find.replacePair u v [v] (y :: rest)).head?, w = y ∨ w = v := by
          intro w hw
          cases rest with
          | nil => exact .inl (Option.some.inj hw).symm
          | cons z rest =>
              rw [Find.replacePair] at hw
              split at hw
              next => exact .inr (Option.some.inj hw).symm
              next => exact .inl (Option.some.inj hw).symm
        have hsplit : ¬ Splits [x] (y :: rest) := by
          rintro ⟨w, hw, z, hz, hwz⟩
          obtain rfl : x = w := Option.some.inj hw
          obtain rfl : y = z := Option.some.inj hz
          exact hpair hwz
        have hsplit' : ¬ Splits [x] (Find.replacePair u v [v] (y :: rest)) := by
          rintro ⟨w, hw, z, hz, hwz⟩
          obtain rfl : x = w := Option.some.inj hw
          obtain rfl | rfl := hhead z hz
          · exact hpair hwz
          · rw [isPair, hv.2, Bool.and_false] at hwz
            cases hwz
        rw [← List.singleton_append, isWellFormed_append hsplit', ih,
          ← isWellFormed_append hsplit]
        rfl

end Units
