/-
JSON values and the text `JSON.stringify` prints of them.

A string is its UTF-16 code units, so that a lone surrogate has a place.
A number is what is printed of it: `-0` is `0`, and one that is not
finite is printed as `null` and is `null` here. An object is its fields
in the order they are printed.

# The text says the value

`stringify_inj`: two values with one text are one value. The text of a
value ends where it ends whatever follows, except a number's, which goes
on as long as what follows could belong to it; `Ends` rules that out, and
a value inside an array or an object is always followed by a comma or a
bracket. The induction is `stringify_append_inj`, over the value.
-/
import Mathlib.Data.List.Basic
import Mathlib.Tactic.IntervalCases
import Mathlib.Tactic.NormNum

/-- A digit, a sign, a point, an exponent. -/
def isNumeric (c : UInt16) : Bool :=
  c.toNat ∈ [43, 45, 46, 48, 49, 50, 51, 52, 53, 54, 55, 56, 57, 101]

/-- A JSON number as it is printed. -/
structure JsonNumber where
  text : List UInt16
  nonempty : text ≠ []
  numeric : ∀ c ∈ text, isNumeric c = true
  deriving DecidableEq

inductive Json where
  | null
  | bool (b : Bool)
  | number (n : JsonNumber)
  | string (units : List UInt16)
  | array (items : List Json)
  | object (fields : List (List UInt16 × Json))

namespace Json

-- =============================================================== equality

mutual

def decEq : (a b : Json) → Decidable (a = b)
  | .null, b => match b with
      | .null => isTrue rfl
      | .bool _ | .number _ | .string _ | .array _ | .object _ => isFalse nofun
  | .bool x, b => match b with
      | .bool y => decidable_of_iff (x = y) (by simp)
      | .null | .number _ | .string _ | .array _ | .object _ => isFalse nofun
  | .number x, b => match b with
      | .number y => decidable_of_iff (x = y) (by simp)
      | .null | .bool _ | .string _ | .array _ | .object _ => isFalse nofun
  | .string x, b => match b with
      | .string y => decidable_of_iff (x = y) (by simp)
      | .null | .bool _ | .number _ | .array _ | .object _ => isFalse nofun
  | .array x, b => match b with
      | .array y =>
          have := decEqItems x y
          decidable_of_iff (x = y) (by simp)
      | .null | .bool _ | .number _ | .string _ | .object _ => isFalse nofun
  | .object x, b => match b with
      | .object y =>
          have := decEqFields x y
          decidable_of_iff (x = y) (by simp)
      | .null | .bool _ | .number _ | .string _ | .array _ => isFalse nofun

def decEqItems : (a b : List Json) → Decidable (a = b)
  | [], [] => isTrue rfl
  | [], _ :: _ => isFalse nofun
  | _ :: _, [] => isFalse nofun
  | x :: xs, y :: ys =>
      have := decEq x y
      have := decEqItems xs ys
      decidable_of_iff (x = y ∧ xs = ys) (by simp)

def decEqFields : (a b : List (List UInt16 × Json)) → Decidable (a = b)
  | [], [] => isTrue rfl
  | [], _ :: _ => isFalse nofun
  | _ :: _, [] => isFalse nofun
  | (k, x) :: xs, (l, y) :: ys =>
      have := decEq x y
      have := decEqFields xs ys
      decidable_of_iff (k = l ∧ x = y ∧ xs = ys) (by simp [and_assoc])

end

instance : DecidableEq Json := decEq

-- ================================================================ the text

/-- The code unit of an ASCII character. -/
def unit (c : Char) : UInt16 := UInt16.ofNat c.toNat

/-- The code units of ASCII text. -/
def units (s : String) : List UInt16 := s.toList.map unit

def hexDigit (n : Nat) : UInt16 := UInt16.ofNat (if n < 10 then 48 + n else 87 + n)

/-- `\uXXXX`. -/
def unicodeEscape (u : UInt16) : List UInt16 :=
  [92, 117, hexDigit (u.toNat / 4096), hexDigit (u.toNat / 256 % 16),
    hexDigit (u.toNat / 16 % 16), hexDigit (u.toNat % 16)]

/-- A code unit that is no surrogate. -/
def escape (u : UInt16) : List UInt16 :=
  if u = 34 then [92, 34]
  else if u = 92 then [92, 92]
  else if u = 8 then [92, 98]
  else if u = 12 then [92, 102]
  else if u = 10 then [92, 110]
  else if u = 13 then [92, 114]
  else if u = 9 then [92, 116]
  else if u < 32 then unicodeEscape u
  else [u]

def isHigh (u : UInt16) : Bool := 0xD800 ≤ u && u < 0xDC00
def isLow (u : UInt16) : Bool := 0xDC00 ≤ u && u < 0xE000

/-- The inside of a quoted string: a surrogate pair stands, a lone
surrogate is escaped. -/
def quoted : List UInt16 → List UInt16
  | [] => []
  | [u] => if isHigh u || isLow u then unicodeEscape u else escape u
  | u :: v :: rest =>
      if isHigh u && isLow v then u :: v :: quoted rest
      else if isHigh u || isLow u then unicodeEscape u ++ quoted (v :: rest)
      else escape u ++ quoted (v :: rest)

/-- A quoted string. -/
def quote (s : List UInt16) : List UInt16 := 34 :: quoted s ++ [34]

mutual

/-- `JSON.stringify`. -/
def stringify : Json → List UInt16
  | .null => units "null"
  | .bool true => units "true"
  | .bool false => units "false"
  | .number n => n.text
  | .string s => quote s
  | .array [] => [91, 93]
  | .array (x :: xs) => 91 :: stringify x ++ moreItems xs
  | .object [] => [123, 125]
  | .object ((k, x) :: fields) => 123 :: quote k ++ 58 :: stringify x ++ moreFields fields

/-- The items after the first, and the bracket. -/
def moreItems : List Json → List UInt16
  | [] => [93]
  | x :: xs => 44 :: stringify x ++ moreItems xs

/-- The fields after the first, and the brace. -/
def moreFields : List (List UInt16 × Json) → List UInt16
  | [] => [125]
  | (k, x) :: fields => 44 :: quote k ++ 58 :: stringify x ++ moreFields fields

end

-- ======================================================== reading a string

def hexValue (c : UInt16) : Nat := if c.toNat < 58 then c.toNat - 48 else c.toNat - 87

/-- What `\` and a letter stand for. -/
def unescape (c : UInt16) : UInt16 :=
  if c = 98 then 8
  else if c = 102 then 12
  else if c = 110 then 10
  else if c = 114 then 13
  else if c = 116 then 9
  else c

/-- The units up to the closing quote, and what is after it. -/
def unquote : List UInt16 → Option (List UInt16 × List UInt16)
  | [] => none
  | c :: rest =>
      if c = 34 then some ([], rest)
      else if c = 92 then
        match rest with
        | 117 :: w :: x :: y :: z :: rest =>
            (unquote rest).map fun r =>
              (UInt16.ofNat (((hexValue w * 16 + hexValue x) * 16 + hexValue y) * 16
                + hexValue z) :: r.1, r.2)
        | d :: rest => (unquote rest).map fun r => (unescape d :: r.1, r.2)
        | [] => none
      else (unquote rest).map fun r => (c :: r.1, r.2)

/-- Reading on with a unit in front. -/
def withUnit (u : UInt16) (r : List UInt16 × List UInt16) : List UInt16 × List UInt16 :=
  (u :: r.1, r.2)

theorem unquote_raw {u : UInt16} (hquote : u ≠ 34) (hslash : u ≠ 92) (rest : List UInt16) :
    unquote (u :: rest) = (unquote rest).map (withUnit u) := by
  rw [unquote.eq_def]
  simp only [if_neg hquote, if_neg hslash]
  rfl

theorem unquote_close (rest : List UInt16) : unquote (34 :: rest) = some ([], rest) := by
  rw [unquote.eq_def]
  simp only [if_pos]

theorem hexValue_hexDigit {n : Nat} (h : n < 16) : hexValue (hexDigit n) = n := by
  interval_cases n <;> rfl

theorem unquote_unicodeEscape (u : UInt16) (rest : List UInt16) :
    unquote (unicodeEscape u ++ rest) = (unquote rest).map (withUnit u) := by
  have hu : u.toNat < 65536 := u.toNat_lt
  have hvalue : UInt16.ofNat (((hexValue (hexDigit (u.toNat / 4096)) * 16
      + hexValue (hexDigit (u.toNat / 256 % 16))) * 16
      + hexValue (hexDigit (u.toNat / 16 % 16))) * 16
      + hexValue (hexDigit (u.toNat % 16))) = u := by
    rw [hexValue_hexDigit (by omega), hexValue_hexDigit (by omega),
      hexValue_hexDigit (by omega), hexValue_hexDigit (by omega)]
    have hsum : ((u.toNat / 4096 * 16 + u.toNat / 256 % 16) * 16 + u.toNat / 16 % 16) * 16
        + u.toNat % 16 = u.toNat := by omega
    rw [hsum]
    exact UInt16.ofNat_toNat
  show unquote (92 :: 117 :: _ :: _ :: _ :: _ :: rest) = _
  rw [unquote.eq_def]
  simp only [if_neg (by decide : ¬ (92 : UInt16) = 34), if_pos, hvalue]
  rfl

theorem unquote_short {c : UInt16} (hc : c ≠ 117) (rest : List UInt16) :
    unquote (92 :: c :: rest) = (unquote rest).map (withUnit (unescape c)) := by
  rw [unquote.eq_def]
  simp only [if_neg (by decide : ¬ (92 : UInt16) = 34), if_pos]
  split
  next heq => exact absurd (List.cons.inj heq).1 hc
  next heq =>
    obtain ⟨rfl, rfl⟩ := List.cons.inj heq
    rfl
  next heq => cases heq

theorem unquote_escape (u : UInt16) (rest : List UInt16) :
    unquote (escape u ++ rest) = (unquote rest).map (withUnit u) := by
  have hshort : ∀ c : UInt16, c ≠ 117 → u = unescape c →
      unquote ([92, c] ++ rest) = (unquote rest).map (withUnit u) := by
    intro c hc hu
    rw [hu]
    exact unquote_short hc rest
  unfold escape
  split_ifs with hquote hslash hb hf hn hr ht hcontrol
  · exact hshort 34 (by decide) hquote
  · exact hshort 92 (by decide) hslash
  · exact hshort 98 (by decide) hb
  · exact hshort 102 (by decide) hf
  · exact hshort 110 (by decide) hn
  · exact hshort 114 (by decide) hr
  · exact hshort 116 (by decide) ht
  · exact unquote_unicodeEscape u rest
  · exact unquote_raw hquote hslash rest

/-- A surrogate is no quote and no backslash. -/
theorem not_special {u : UInt16} (h : 0xD800 ≤ u) : u ≠ 34 ∧ u ≠ 92 := by
  constructor
  · intro heq
    subst heq
    exact absurd h (by decide)
  · intro heq
    subst heq
    exact absurd h (by decide)

/-- What is quoted is read back. -/
theorem unquote_quoted (s x : List UInt16) :
    unquote (quoted s ++ 34 :: x) = some (s, x) := by
  induction s using quoted.induct with
  | case1 => exact unquote_close x
  | case2 u hsurrogate =>
      rw [quoted, if_pos hsurrogate, unquote_unicodeEscape, unquote_close]
      rfl
  | case3 u hplain =>
      rw [quoted, if_neg hplain, unquote_escape, unquote_close]
      rfl
  | case4 u v rest hpair ih =>
      have hboth := Bool.and_eq_true_iff.1 hpair
      have hu := not_special (of_decide_eq_true (Bool.and_eq_true_iff.1 hboth.1).1)
      have hlow : (0xDC00 : UInt16) ≤ v := of_decide_eq_true (Bool.and_eq_true_iff.1 hboth.2).1
      have hv := not_special (UInt16.le_trans (by decide : (0xD800 : UInt16) ≤ 0xDC00) hlow)
      rw [quoted, if_pos hpair, List.cons_append, List.cons_append,
        unquote_raw hu.1 hu.2, unquote_raw hv.1 hv.2, ih]
      rfl
  | case5 u v rest hpair hsurrogate ih =>
      rw [quoted, if_neg hpair, if_pos hsurrogate, List.append_assoc, unquote_unicodeEscape, ih]
      rfl
  | case6 u v rest hpair hplain ih =>
      rw [quoted, if_neg hpair, if_neg hplain, List.append_assoc, unquote_escape, ih]
      rfl

theorem quote_append_inj {s t x y : List UInt16} (h : quote s ++ x = quote t ++ y) :
    s = t ∧ x = y := by
  have hinside : quoted s ++ 34 :: x = quoted t ++ 34 :: y := by
    simpa [quote] using h
  have hread := unquote_quoted s x
  rw [hinside, unquote_quoted] at hread
  simpa using hread.symm

-- ================================================== the text says the value

/-- Nothing that could belong to a number. -/
def Ends (x : List UInt16) : Prop := ∀ c ∈ x.head?, isNumeric c = false

theorem number_append_inj {n m : JsonNumber} {x y : List UInt16} (hx : Ends x) (hy : Ends y)
    (h : n.text ++ x = m.text ++ y) : n = m ∧ x = y := by
  have hspan : ∀ (n : JsonNumber) {x : List UInt16}, Ends x →
      (n.text ++ x).takeWhile isNumeric = n.text := by
    intro n x hx
    rw [List.takeWhile_append_of_pos n.numeric]
    cases x with
    | nil => exact List.append_nil _
    | cons c rest =>
        rw [List.takeWhile_cons_of_neg (Bool.eq_false_iff.1 (hx c rfl))]
        exact List.append_nil _
  have htext : n.text = m.text := by
    rw [← hspan n hx, h, hspan m hy]
  have hrest : x = y := by
    rw [htext] at h
    exact List.append_cancel_left h
  cases n
  cases m
  cases htext
  exact ⟨rfl, hrest⟩

/-- Which kind of value a text begins, if it does not end an array. -/
def kindOf (c : UInt16) : Nat :=
  if c = 93 then 7
  else if c = 110 then 0
  else if c = 116 then 1
  else if c = 102 then 2
  else if c = 34 then 4
  else if c = 91 then 5
  else if c = 123 then 6
  else 3

def kind : Json → Nat
  | .null => 0
  | .bool true => 1
  | .bool false => 2
  | .number _ => 3
  | .string _ => 4
  | .array _ => 5
  | .object _ => 6

theorem kindOf_numeric {c : UInt16} (h : isNumeric c = true) : kindOf c = 3 := by
  unfold kindOf
  split_ifs with h₇ h₀ h₁ h₂ h₃ h₄ h₅
  · exact absurd (h₇ ▸ h) (by decide)
  · exact absurd (h₀ ▸ h) (by decide)
  · exact absurd (h₁ ▸ h) (by decide)
  · exact absurd (h₂ ▸ h) (by decide)
  · exact absurd (h₃ ▸ h) (by decide)
  · exact absurd (h₄ ▸ h) (by decide)
  · exact absurd (h₅ ▸ h) (by decide)
  · rfl

theorem kind_stringify (a : Json) (x : List UInt16) :
    (stringify a ++ x).head?.map kindOf = some a.kind := by
  cases a with
  | null => rfl
  | bool b => cases b <;> rfl
  | number n =>
      obtain ⟨c, rest, htext⟩ := List.exists_cons_of_ne_nil n.nonempty
      rw [stringify, htext]
      refine congrArg some (kindOf_numeric (n.numeric c ?_))
      rw [htext]
      exact List.mem_cons_self
  | string s => rfl
  | array items => cases items <;> rfl
  | object fields =>
      cases fields with
      | nil => rfl
      | cons field fields => rfl

theorem kind_eq {a b : Json} {x y : List UInt16} (h : stringify a ++ x = stringify b ++ y) :
    a.kind = b.kind := by
  have hkind := kind_stringify a x
  rw [h, kind_stringify] at hkind
  exact (Option.some.inj hkind).symm

/-- No value begins with the bracket that ends an array. -/
theorem bracket_ne (a : Json) (x y : List UInt16) : 93 :: x ≠ stringify a ++ y := by
  intro h
  have hkind := kind_stringify a y
  rw [← h] at hkind
  cases a with
  | bool b => cases b <;> cases hkind
  | _ => cases hkind

theorem ends_moreItems (xs : List Json) (x : List UInt16) : Ends (moreItems xs ++ x) := by
  intro c hc
  cases xs with
  | nil =>
      cases hc
      rfl
  | cons y ys =>
      cases hc
      rfl

theorem ends_moreFields (fields : List (List UInt16 × Json)) (x : List UInt16) :
    Ends (moreFields fields ++ x) := by
  intro c hc
  cases fields with
  | nil =>
      cases hc
      rfl
  | cons field fields =>
      cases hc
      rfl

mutual

/-- Over the first value; the kinds of the two agree by their first
units. -/
theorem stringify_append_inj : ∀ (a b : Json) {x y : List UInt16}, Ends x → Ends y →
    stringify a ++ x = stringify b ++ y → a = b ∧ x = y
  | .null, b, x, y, hx, hy, h => by
      cases b with
      | null => exact ⟨rfl, List.append_cancel_left h⟩
      | bool b => cases b <;> cases kind_eq h
      | _ => cases kind_eq h
  | .bool b₁, b, x, y, hx, hy, h => by
      cases b with
      | bool b₂ =>
          cases b₁ <;> cases b₂
          · exact ⟨rfl, List.append_cancel_left h⟩
          · cases kind_eq h
          · cases kind_eq h
          · exact ⟨rfl, List.append_cancel_left h⟩
      | _ => cases b₁ <;> cases kind_eq h
  | .number n, b, x, y, hx, hy, h => by
      cases b with
      | number m =>
          obtain ⟨rfl, hrest⟩ := number_append_inj hx hy (by simpa [stringify] using h)
          exact ⟨rfl, hrest⟩
      | bool b => cases b <;> cases kind_eq h
      | _ => cases kind_eq h
  | .string s, b, x, y, hx, hy, h => by
      cases b with
      | string t =>
          obtain ⟨rfl, hrest⟩ := quote_append_inj (by simpa [stringify] using h)
          exact ⟨rfl, hrest⟩
      | bool b => cases b <;> cases kind_eq h
      | _ => cases kind_eq h
  | .array [], b, x, y, hx, hy, h => by
      cases b with
      | array vs =>
          cases vs with
          | nil => exact ⟨rfl, List.append_cancel_left h⟩
          | cons v vs => exact absurd (by simpa [stringify] using h) (bracket_ne v x _)
      | bool b => cases b <;> cases kind_eq h
      | _ => cases kind_eq h
  | .array (u :: us), b, x, y, hx, hy, h => by
      cases b with
      | array vs =>
          cases vs with
          | nil => exact absurd (by simpa [stringify] using h.symm) (bracket_ne u y _)
          | cons v vs =>
              have hinside : stringify u ++ (moreItems us ++ x)
                  = stringify v ++ (moreItems vs ++ y) := by
                simpa [stringify] using h
              obtain ⟨rfl, hmore⟩ := stringify_append_inj u v (ends_moreItems us x)
                (ends_moreItems vs y) hinside
              obtain ⟨rfl, hrest⟩ := moreItems_append_inj us vs hmore
              exact ⟨rfl, hrest⟩
      | bool b => cases b <;> cases kind_eq h
      | _ => cases kind_eq h
  | .object [], b, x, y, hx, hy, h => by
      cases b with
      | object gs =>
          cases gs with
          | nil => exact ⟨rfl, List.append_cancel_left h⟩
          | cons g gs =>
              -- the brace is no quote
              cases (List.cons.inj (List.cons.inj h).2).1
      | bool b => cases b <;> cases kind_eq h
      | _ => cases kind_eq h
  | .object ((k, u) :: fs), b, x, y, hx, hy, h => by
      cases b with
      | object gs =>
          cases gs with
          | nil => cases (List.cons.inj (List.cons.inj h).2).1
          | cons g gs =>
              obtain ⟨l, v⟩ := g
              have hinside : quote k ++ 58 :: (stringify u ++ (moreFields fs ++ x))
                  = quote l ++ 58 :: (stringify v ++ (moreFields gs ++ y)) := by
                simpa [stringify] using h
              obtain ⟨rfl, hvalue⟩ := quote_append_inj hinside
              obtain ⟨rfl, hmore⟩ := stringify_append_inj u v (ends_moreFields fs x)
                (ends_moreFields gs y) (List.cons.inj hvalue).2
              obtain ⟨rfl, hrest⟩ := moreFields_append_inj fs gs hmore
              exact ⟨rfl, hrest⟩
      | bool b => cases b <;> cases kind_eq h
      | _ => cases kind_eq h

theorem moreItems_append_inj : ∀ (us vs : List Json) {x y : List UInt16},
    moreItems us ++ x = moreItems vs ++ y → us = vs ∧ x = y
  | [], [], x, y, h => ⟨rfl, List.append_cancel_left h⟩
  | [], v :: vs, x, y, h => by cases h
  | u :: us, [], x, y, h => by cases h
  | u :: us, v :: vs, x, y, h => by
      have hinside : stringify u ++ (moreItems us ++ x) = stringify v ++ (moreItems vs ++ y) := by
        simpa [moreItems] using h
      obtain ⟨rfl, hmore⟩ := stringify_append_inj u v (ends_moreItems us x)
        (ends_moreItems vs y) hinside
      obtain ⟨rfl, hrest⟩ := moreItems_append_inj us vs hmore
      exact ⟨rfl, hrest⟩

theorem moreFields_append_inj : ∀ (fs gs : List (List UInt16 × Json)) {x y : List UInt16},
    moreFields fs ++ x = moreFields gs ++ y → fs = gs ∧ x = y
  | [], [], x, y, h => ⟨rfl, List.append_cancel_left h⟩
  | [], g :: gs, x, y, h => by cases h
  | f :: fs, [], x, y, h => by cases h
  | (k, u) :: fs, (l, v) :: gs, x, y, h => by
      have hinside : quote k ++ 58 :: (stringify u ++ (moreFields fs ++ x))
          = quote l ++ 58 :: (stringify v ++ (moreFields gs ++ y)) := by
        simpa [moreFields] using h
      obtain ⟨rfl, hvalue⟩ := quote_append_inj hinside
      obtain ⟨rfl, hmore⟩ := stringify_append_inj u v (ends_moreFields fs x)
        (ends_moreFields gs y) (List.cons.inj hvalue).2
      obtain ⟨rfl, hrest⟩ := moreFields_append_inj fs gs hmore
      exact ⟨rfl, hrest⟩

end

/-- Two values with one text are one value. -/
theorem stringify_inj {a b : Json} (h : stringify a = stringify b) : a = b := by
  have hnil : Ends [] := nofun
  refine (stringify_append_inj a b hnil hnil ?_).1
  rw [h]

-- ======================================================= an array of strings

/-- The strings after the first, up to the bracket. -/
def readMore : Nat → List UInt16 → Option (List (List UInt16))
  | _, [93] => some []
  | fuel + 1, 44 :: 34 :: text =>
      (unquote text).bind fun r => (readMore fuel r.2).map (r.1 :: ·)
  | _, _ => none

/-- `JSON.parse` of what is printed of an array of strings. -/
def parseStrings : List UInt16 → Option (List (List UInt16))
  | [91, 93] => some []
  | 91 :: 34 :: text => (unquote text).bind fun r => (readMore r.2.length r.2).map (r.1 :: ·)
  | _ => none

theorem readMore_moreItems (ss : List (List UInt16)) {fuel : Nat} (hfuel : ss.length ≤ fuel) :
    readMore fuel (moreItems (ss.map .string)) = some ss := by
  induction ss generalizing fuel with
  | nil => cases fuel <;> rfl
  | cons s ss ih =>
      cases fuel with
      | zero => cases hfuel
      | succ fuel =>
          have htext : moreItems ((s :: ss).map .string)
              = 44 :: 34 :: (quoted s ++ 34 :: moreItems (ss.map .string)) := by
            simp [moreItems, stringify, quote]
          rw [htext, readMore, unquote_quoted, Option.bind_some,
            ih (Nat.le_of_succ_le_succ hfuel)]
          rfl

theorem length_moreItems (ss : List (List UInt16)) :
    ss.length ≤ (moreItems (ss.map .string)).length := by
  induction ss with
  | nil => exact Nat.zero_le _
  | cons s ss ih =>
      simp only [List.map_cons, moreItems, List.length_append, List.length_cons]
      omega

theorem parseStrings_stringify (ss : List (List UInt16)) :
    parseStrings (stringify (.array (ss.map .string))) = some ss := by
  cases ss with
  | nil => rfl
  | cons s ss =>
      have htext : stringify (.array ((s :: ss).map .string))
          = 91 :: 34 :: (quoted s ++ 34 :: moreItems (ss.map .string)) := by
        simp [stringify, quote]
      rw [htext, parseStrings, unquote_quoted, Option.bind_some,
        readMore_moreItems ss (length_moreItems ss)]
      rfl

end Json
