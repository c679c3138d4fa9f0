/-
A key of a bucket's listing, unescaped.

`unescapeXml` undoes the references in seven replacements, one kind after
another. What a replacement writes stands before every later one, so a
key is read back only if no step reads the output of an earlier step. It
is: a replacement matches at an ampersand only, and no step but the last
writes one (`replace_step`). The text between two steps is `render`: the
pieces of the earlier kinds decoded, the others as the bucket wrote them.
-/
import Nacre.Lib.Buffer
import Nacre.Lib.Scan
import Mathlib.Data.List.Forall2

namespace Nacre.Objects

open Json (unit units)
open Scan (Pattern expect)

/-- A key or a token, as its characters. -/
abbrev Key := List Char

/-- The UTF-16 of a character. -/
def unitsOf (c : Char) : List UInt16 := Buffer.unitsOf c.toNat

/-- The UTF-16 of a key. -/
def Key.text (key : Key) : List UInt16 := key.flatMap unitsOf

-- ============================================================ the function

def amp : UInt16 := unit '&'

def isDecimal (u : UInt16) : Bool := 48 ≤ u.toNat && u.toNat ≤ 57

/-- `[0-9a-f]`, in either case. -/
def isHex (u : UInt16) : Bool :=
  isDecimal u || (97 ≤ u.toNat && u.toNat ≤ 102) || (65 ≤ u.toNat && u.toNat ≤ 70)

def digitValue (u : UInt16) : Nat :=
  if u.toNat < 58 then u.toNat - 48 else if u.toNat < 97 then u.toNat - 55 else u.toNat - 87

/-- `Number.parseInt(digits, base)`. Its rounding begins beyond every
code point. -/
def parseDigits (base : Nat) (digits : List UInt16) : Nat :=
  digits.foldl (fun n u => base * n + digitValue u) 0

/-- `String.fromCodePoint(n)`, `none` for its `RangeError`. -/
def fromCodePoint (n : Nat) : Option (List UInt16) :=
  if n ≤ 0x10FFFF then some (Buffer.unitsOf n) else none

/-- `(digit+);`, the digits captured. -/
def digitsThen (digit : UInt16 → Bool) : Pattern UInt16 := fun s =>
  let digits := s.takeWhile digit
  if digits = [] then none else (expect (units ";") (s.dropWhile digit)).map (digits, ·)

/-- `/&#x([0-9a-f]+);/iu` -/
def hexReference : Pattern UInt16 := fun s => do
  let s ← expect (units "&#") s
  let s ← expect (units "x") s <|> expect (units "X") s
  digitsThen isHex s

/-- `/&#(\d+);/u` -/
def decReference : Pattern UInt16 := fun s => do
  let s ← expect (units "&#") s
  digitsThen isDecimal s

/-- The five named references, in the order they are undone. -/
def names : List (List UInt16 × Char) :=
  [(units "&lt;", '<'), (units "&gt;", '>'), (units "&quot;", '"'), (units "&apos;", '\''),
    (units "&amp;", '&')]

/-- A pattern and what its matches are replaced by. -/
structure Step where
  pattern : Pattern UInt16
  put : List UInt16 → Option (List UInt16)

def steps : List Step :=
  ⟨hexReference, fun hex => fromCodePoint (parseDigits 16 hex)⟩
    :: ⟨decReference, fun dec => fromCodePoint (parseDigits 10 dec)⟩
    :: names.map fun entry => ⟨Scan.literal entry.1, fun _ => some (unitsOf entry.2)⟩

/-- `none` where it throws. -/
def unescapeXml (value : List UInt16) : Option (List UInt16) :=
  steps.foldlM (fun value step => Scan.replace step.pattern step.put value) value

-- =============================================================== the escaping

/-- How a bucket may write a character, and the replacement that undoes
it; `7` is none of the seven. An ampersand has one spelling. -/
inductive Spells : Nat → Char → List UInt16 → Prop
  | hex {c : Char} {digits : List UInt16} (hamp : c ≠ '&') (hne : digits ≠ [])
      (hdigits : ∀ u ∈ digits, isHex u = true) (hvalue : parseDigits 16 digits = c.toNat) :
      Spells 0 c (units "&#x" ++ digits ++ units ";")
  | dec {c : Char} {digits : List UInt16} (hamp : c ≠ '&') (hne : digits ≠ [])
      (hdigits : ∀ u ∈ digits, isDecimal u = true) (hvalue : parseDigits 10 digits = c.toNat) :
      Spells 1 c (units "&#" ++ digits ++ units ";")
  | named {k : Nat} {entry : List UInt16 × Char} (hk : names[k]? = some entry) :
      Spells (k + 2) entry.2 entry.1
  | literal {c : Char} (hamp : c ≠ '&') (hlt : c ≠ '<') : Spells 7 c (unitsOf c)

/-- The text is the key, each character of it in a spelling. -/
inductive Escapes : Key → List UInt16 → Prop
  | nil : Escapes [] []
  | cons {i : Nat} {c : Char} {key : Key} {text rest : List UInt16} (hc : Spells i c text)
      (hrest : Escapes key rest) : Escapes (c :: key) (text ++ rest)

variable {c : Char} {i k : Nat} {text rest digits : List UInt16}

-- ================================================================ characters

theorem toNat_lt (c : Char) : c.toNat < 0x110000 := by
  have h := c.valid
  simp only [UInt32.isValidChar, Nat.isValidChar] at h
  show c.val.toNat < _
  omega

theorem toNat_ofNat {n : Nat} (h : n < 0x10000) : (UInt16.ofNat n).toNat = n :=
  UInt16.toNat_ofNat_of_lt' h

theorem unitsOf_ascii {d : Char} (hd : d.toNat < 0xD800) (h : unit d ∈ unitsOf c) : c = d := by
  unfold unitsOf Buffer.unitsOf at h
  have hunit : (unit d).toNat = d.toNat := toNat_ofNat (by omega)
  have hc := toNat_lt c
  split at h
  · rename_i hsmall
    rw [List.mem_singleton] at h
    have hsame := congrArg UInt16.toNat h
    rw [hunit, toNat_ofNat (by omega)] at hsame
    exact Char.toNat_inj.1 hsame.symm
  · exfalso
    rcases List.mem_cons.1 h with h | h
    · have hsame := congrArg UInt16.toNat h
      rw [hunit, toNat_ofNat (by omega)] at hsame
      omega
    · have hsame := congrArg UInt16.toNat (List.mem_singleton.1 h)
      rw [hunit, toNat_ofNat (by omega)] at hsame
      omega

theorem amp_not_mem (h : c ≠ '&') : amp ∉ unitsOf c :=
  fun hmem => h (unitsOf_ascii (by decide) hmem)

theorem fromCodePoint_char (c : Char) : fromCodePoint c.toNat = some (unitsOf c) := by
  have hc := toNat_lt c
  exact if_pos (by omega)

theorem isHex_of_isDecimal {u : UInt16} (h : isDecimal u = true) : isHex u = true := by
  simp [isHex, h]

-- ============================================================== the patterns

theorem digitsThen_closed {digit : UInt16 → Bool} (hsemi : digit (unit ';') = false)
    (hne : digits ≠ []) (hdigits : ∀ u ∈ digits, digit u = true) (rest : List UInt16) :
    digitsThen digit (digits ++ units ";" ++ rest) = some (digits, rest) := by
  have htake : (digits ++ units ";" ++ rest).takeWhile digit = digits := by
    rw [List.append_assoc, List.takeWhile_append_of_pos hdigits]
    simp [units, hsemi]
  have hdrop : (digits ++ units ";" ++ rest).dropWhile digit = units ";" ++ rest := by
    rw [List.append_assoc, List.dropWhile_append_of_pos hdigits]
    simp [units, hsemi]
  unfold digitsThen
  rw [htake, hdrop, if_neg hne, Scan.expect_append]
  rfl

/-- A pattern undoes the spellings of the `i`-th kind, wherever one
stands, and sees no other reference. -/
structure Undoes (i : Nat) (step : Step) : Prop where
  mark : ∀ u s, u ≠ amp → step.pattern (u :: s) = none
  reads : ∀ {c text}, Spells i c text → ∃ captured,
    (∀ rest, step.pattern (text ++ rest) = some (captured, rest))
      ∧ step.put captured = some (unitsOf c)
  skips : ∀ {j c text}, Spells j c text → j ≠ i → j < 7 → ∀ rest,
    step.pattern (text ++ rest) = none

/-- No two of the words begin one another, nor does one begin a numeric
reference. -/
theorem names_apart : ∀ entry ∈ names, ∀ other ∈ names, entry.1 <+: other.1 → entry = other := by
  decide

theorem names_named : ∀ entry ∈ names, ¬ units "&#" <+: entry.1 ∧ ¬ entry.1 <+: units "&#" := by
  decide

theorem expect_named {entry : List UInt16 × Char} (h : entry ∈ names) (rest : List UInt16) :
    expect (units "&#") (entry.1 ++ rest) = none :=
  Scan.expect_other (names_named entry h).1 (names_named entry h).2 rest

theorem undoes_hex : Undoes 0 ⟨hexReference, fun hex => fromCodePoint (parseDigits 16 hex)⟩ where
  mark u s hu := by
    show hexReference (u :: s) = none
    rw [hexReference, show units "&#" = amp :: units "#" from rfl, Scan.expect_head hu]
    rfl
  reads := by
    rintro c _ (⟨hamp, hne, hdigits, hvalue⟩ | _)
    rename_i digits
    refine ⟨digits, fun rest => ?_, ?_⟩
    · have hx : units "&#x" = units "&#" ++ units "x" := rfl
      show hexReference _ = _
      rw [hexReference, hx, List.append_assoc, List.append_assoc, List.append_assoc,
        Scan.expect_append]
      have hclosed := digitsThen_closed (by decide) hne hdigits rest
      rw [List.append_assoc] at hclosed
      simp [hclosed]
    · exact (congrArg fromCodePoint hvalue).trans (fromCodePoint_char c)
  skips := by
    rintro j c _ hspells hj hlt rest
    show hexReference _ = none
    rcases hspells with - | ⟨hamp, hne, hdigits, hvalue⟩ | ⟨hk⟩ | -
    · exact absurd rfl hj
    · rename_i digits
      obtain _ | ⟨d, digits⟩ := digits
      · exact absurd rfl hne
      have hd : isDecimal d = true := hdigits d List.mem_cons_self
      have hx : d ≠ unit 'x' ∧ d ≠ unit 'X' :=
        ⟨fun h => by rw [h] at hd; exact absurd hd (by decide),
          fun h => by rw [h] at hd; exact absurd hd (by decide)⟩
      rw [hexReference, List.append_assoc, List.append_assoc, Scan.expect_append]
      simp only [Option.bind_eq_bind, Option.bind_some, List.cons_append]
      rw [show units "x" = [unit 'x'] from rfl, show units "X" = [unit 'X'] from rfl,
        Scan.expect_head hx.1, Scan.expect_head hx.2]
      rfl
    · rw [hexReference, expect_named (List.mem_of_getElem? hk)]
      rfl
    · omega

theorem undoes_dec : Undoes 1 ⟨decReference, fun dec => fromCodePoint (parseDigits 10 dec)⟩ where
  mark u s hu := by
    show decReference (u :: s) = none
    rw [decReference, show units "&#" = amp :: units "#" from rfl, Scan.expect_head hu]
    rfl
  reads := by
    rintro c _ (_ | ⟨hamp, hne, hdigits, hvalue⟩ | _)
    rename_i digits
    refine ⟨digits, fun rest => ?_, ?_⟩
    · have hclosed := digitsThen_closed (by decide) hne hdigits rest
      rw [List.append_assoc] at hclosed
      show decReference _ = _
      rw [decReference, List.append_assoc, List.append_assoc, Scan.expect_append]
      exact hclosed
    · exact (congrArg fromCodePoint hvalue).trans (fromCodePoint_char c)
  skips := by
    rintro j c _ hspells hj hlt rest
    show decReference _ = none
    rcases hspells with ⟨hamp, hne, hdigits, hvalue⟩ | - | ⟨hk⟩ | -
    · rw [decReference, show units "&#x" = units "&#" ++ units "x" from rfl, List.append_assoc,
        List.append_assoc, List.append_assoc, Scan.expect_append]
      rfl
    · exact absurd rfl hj
    · rw [decReference, expect_named (List.mem_of_getElem? hk)]
      rfl
    · omega

theorem undoes_named {entry : List UInt16 × Char} (hk : names[k]? = some entry) :
    Undoes (k + 2) ⟨Scan.literal entry.1, fun _ => some (unitsOf entry.2)⟩ where
  mark u s hu := by
    have hamp : ∀ e ∈ names, e.1.head? = some amp := by decide
    have hhead := hamp entry (List.mem_of_getElem? hk)
    have hword : entry.1 = amp :: entry.1.tail := (List.cons_head?_tail hhead).symm
    show Scan.literal _ (u :: s) = none
    rw [Scan.literal, hword, Scan.expect_head hu]
    rfl
  reads := by
    intro c text hspells
    generalize hi : k + 2 = i at hspells
    rcases hspells with - | - | ⟨hk'⟩ | -
    · omega
    · omega
    · obtain rfl : k = _ := Nat.add_right_cancel hi
      obtain rfl := Option.some.inj (hk.symm.trans hk')
      refine ⟨[], fun rest => ?_, rfl⟩
      show Scan.literal _ _ = _
      rw [Scan.literal, Scan.expect_append]
      rfl
    · have hlt : k < names.length := (List.getElem?_eq_some_iff.1 hk).1
      have hfive : names.length = 5 := rfl
      omega
  skips := by
    rintro j c _ hspells hj hlt rest
    show Scan.literal _ _ = none
    have hmem := List.mem_of_getElem? hk
    have hnumeric (s : List UInt16) : Scan.literal entry.1 (units "&#" ++ s) = none := by
      rw [Scan.literal, Scan.expect_other (names_named entry hmem).2 (names_named entry hmem).1]
      rfl
    rcases hspells with ⟨hamp, hne, hdigits, hvalue⟩ | ⟨hamp, hne, hdigits, hvalue⟩ | ⟨hk'⟩ | -
    · rw [show units "&#x" = units "&#" ++ units "x" from rfl]
      simp only [List.append_assoc, hnumeric]
    · simp only [List.append_assoc, hnumeric]
    · rename_i k' other
      have hother := List.mem_of_getElem? hk'
      have hnodup : names.Nodup := by decide
      have hdiff : entry ≠ other := fun heq => by
        have hlt := (List.getElem?_eq_some_iff.1 hk').1
        have hsame := (List.getElem?_inj hlt hnodup).1 (hk'.trans (heq ▸ hk.symm))
        exact hj (congrArg (· + 2) hsame)
      rw [Scan.literal, Scan.expect_other
        (fun h => hdiff (names_apart entry hmem other hother h))
        (fun h => hdiff (names_apart other hother entry hmem h).symm)]
      rfl
    · omega

theorem undoes_steps {step : Step} (h : steps[i]? = some step) : Undoes i step := by
  obtain _ | _ | k := i
  · obtain rfl := Option.some.inj h
    exact undoes_hex
  · obtain rfl := Option.some.inj h
    exact undoes_dec
  · obtain ⟨entry, hentry, rfl⟩ := Option.map_eq_some_iff.1 ((List.getElem?_map ..).symm.trans h)
    exact undoes_named hentry

-- ============================================================ the seven steps

theorem Spells.amp (h : Spells i c text) (hi : i ≠ 6) : c ≠ '&' := by
  rcases h with ⟨hamp, -, -, -⟩ | ⟨hamp, -, -, -⟩ | ⟨hk⟩ | ⟨hamp, -⟩
  · exact hamp
  · exact hamp
  · rename_i k entry
    have honly : ∀ k < 5, ∀ e ∈ names[k]?, k ≠ 4 → e.2 ≠ '&' := by decide
    have hlt : k < names.length := (List.getElem?_eq_some_iff.1 hk).1
    exact honly k hlt entry hk (by omega)
  · exact hamp

theorem Spells.literal_eq (h : Spells 7 c text) : c ≠ '&' ∧ text = unitsOf c := by
  refine ⟨h.amp (by decide), ?_⟩
  generalize hi : 7 = i at h
  rcases h with - | - | ⟨hk⟩ | -
  · omega
  · omega
  · have hlt := (List.getElem?_eq_some_iff.1 hk).1
    have hfive : names.length = 5 := rfl
    omega
  · rfl

theorem isHex_amp : isHex amp = false ∧ isDecimal amp = false := by decide

/-- A reference is an ampersand and text without one. -/
theorem Spells.reference (h : Spells i c text) (hi : i < 7) :
    ∃ body, text = Objects.amp :: body ∧ Objects.amp ∉ body := by
  have hbody {digit : UInt16 → Bool} (hdigit : digit Objects.amp = false) {intro digits : List UInt16}
      (hdigits : ∀ u ∈ digits, digit u = true) (hintro : Objects.amp ∉ intro) :
      Objects.amp ∉ intro ++ digits ++ units ";" := by
    simp only [List.mem_append, not_or]
    refine ⟨⟨hintro, fun hmem => ?_⟩, by decide⟩
    rw [hdigits _ hmem] at hdigit
    exact absurd hdigit (by decide)
  rcases h with ⟨hamp, hne, hdigits, hvalue⟩ | ⟨hamp, hne, hdigits, hvalue⟩ | ⟨hk⟩ | -
  · exact ⟨units "#x" ++ _ ++ units ";", rfl, hbody isHex_amp.1 hdigits (by decide)⟩
  · exact ⟨units "#" ++ _ ++ units ";", rfl, hbody isHex_amp.2 hdigits (by decide)⟩
  · rename_i k entry
    have hall : ∀ e ∈ names, e.1 = Objects.amp :: e.1.tail ∧ Objects.amp ∉ e.1.tail := by decide
    exact ⟨_, hall entry (List.mem_of_getElem? hk)⟩
  · omega

/-- A character, its spelling and the replacement that undoes it. -/
structure Piece where
  kind : Nat
  char : Char
  text : List UInt16
  spells : Spells kind char text

/-- The text of a piece before step `i`. -/
def Piece.at_ (i : Nat) (piece : Piece) : List UInt16 :=
  if piece.kind < i then unitsOf piece.char else piece.text

def render (i : Nat) (pieces : List Piece) : List UInt16 := pieces.flatMap (Piece.at_ i)

theorem Piece.kind_le (piece : Piece) : piece.kind ≤ 7 := by
  rcases piece with ⟨kind, char, text, - | - | ⟨hk⟩ | -⟩
  · exact Nat.zero_le 7
  · exact Nat.le_add_left 1 6
  · have hlt := (List.getElem?_eq_some_iff.1 hk).1
    have hfive : names.length = 5 := rfl
    show _ + 2 ≤ 7
    omega
  · exact le_rfl

/-- A step turns the text before it into the text before the next: the
pieces decoded so far hold no ampersand, those still to come do not match. -/
theorem replace_step {step : Step} (h : Undoes i step) (hi : i < 7) (pieces : List Piece) :
    Scan.replace step.pattern step.put (render i pieces) = some (render (i + 1) pieces) := by
  induction pieces with
  | nil => rfl
  | cons piece pieces ih =>
    obtain ⟨k, c, text, hspells⟩ := piece
    have hrender (j : Nat) : render j (⟨k, c, text, hspells⟩ :: pieces)
        = (if k < j then unitsOf c else text) ++ render j pieces := rfl
    rw [hrender, hrender]
    have hpass {s : List UInt16} (hs : amp ∉ s) :
        Scan.replace step.pattern step.put (s ++ render i pieces)
          = some (s ++ render (i + 1) pieces) :=
      Scan.replace_pass (Scan.cut_plain h.mark hs) ih
    rcases Nat.lt_trichotomy k i with hlt | rfl | hgt
    · rw [if_pos hlt, if_pos (by omega)]
      exact hpass (amp_not_mem (hspells.amp (by omega)))
    · rw [if_neg (by omega), if_pos (by omega)]
      obtain ⟨captured, hreads, hput⟩ := h.reads hspells
      obtain ⟨body, rfl, -⟩ := hspells.reference hi
      exact Scan.replace_match (List.cons_ne_nil amp body) (hreads _) hput ih
    · rw [if_neg (by omega), if_neg (by omega)]
      have hk : k ≤ 7 := Piece.kind_le ⟨k, c, text, hspells⟩
      rcases Nat.lt_or_ge k 7 with hseven | hseven
      · have hskips := h.skips hspells (by omega) hseven (render i pieces)
        obtain ⟨body, rfl, hbody⟩ := hspells.reference hseven
        exact Scan.replace_pass (Scan.cut_marked h.mark hbody hskips) ih
      · obtain rfl : k = 7 := by omega
        obtain ⟨hamp, rfl⟩ := hspells.literal_eq
        exact hpass (amp_not_mem hamp)

theorem replace_steps (pieces : List Piece) : ∀ (rest : List Step) (i : Nat),
    steps.drop i = rest →
    rest.foldlM (fun value step => Scan.replace step.pattern step.put value) (render i pieces)
      = some (render (i + rest.length) pieces)
  | [], i, _ => rfl
  | step :: rest, i, hdrop => by
    have hstep : steps[i]? = some step := by
      rw [← List.head?_drop, hdrop]
      rfl
    have hi : i < 7 := (List.getElem?_eq_some_iff.1 hstep).1
    have hrest : steps.drop (i + 1) = rest := by
      rw [← List.drop_drop, hdrop]
      rfl
    rw [List.foldlM_cons, replace_step (undoes_steps hstep) hi]
    have hmore := replace_steps pieces rest (i + 1) hrest
    rw [show i + (step :: rest).length = i + 1 + rest.length by rw [List.length_cons]; omega]
    exact hmore

theorem Escapes.pieces {key : Key} (h : Escapes key text) :
    ∃ pieces : List Piece, render 0 pieces = text ∧ pieces.map Piece.char = key := by
  induction h with
  | nil => exact ⟨[], rfl, rfl⟩
  | @cons i c key text rest hc hrest ih =>
    obtain ⟨pieces, rfl, rfl⟩ := ih
    exact ⟨⟨i, c, text, hc⟩ :: pieces, rfl, rfl⟩

theorem render_seven (pieces : List Piece) :
    render 7 pieces = Key.text (pieces.map Piece.char) := by
  unfold render Key.text
  rw [List.flatMap_map]
  refine List.flatMap_congr fun ⟨k, c, text, hspells⟩ _ => ?_
  show (if k < 7 then _ else _) = unitsOf c
  have hk : k ≤ 7 := Piece.kind_le ⟨k, c, text, hspells⟩
  rcases Nat.lt_or_ge k 7 with hlt | hge
  · exact if_pos hlt
  · obtain rfl : k = 7 := by omega
    rw [if_neg (by omega)]
    exact hspells.literal_eq.2

/-- Whatever the spelling, the key comes back. -/
theorem unescapeXml_escapes {key : Key} (h : Escapes key text) :
    unescapeXml text = some key.text := by
  obtain ⟨pieces, rfl, rfl⟩ := h.pieces
  rw [← render_seven]
  exact replace_steps pieces steps 0 rfl

/-- A key that looks like a reference is not read as one. -/
example : unescapeXml (units "&amp;lt;&amp;#38;&#39;") = some (units "&lt;&#38;'") := by decide

theorem lt_not_mem {key : Key} (h : Escapes key text) : unit '<' ∉ text := by
  induction h with
  | nil => exact List.not_mem_nil
  | @cons i c key text rest hc hrest ih =>
    rw [List.mem_append, not_or]
    refine ⟨fun hmem => ?_, ih⟩
    have hdigit : isHex (unit '<') = false ∧ isDecimal (unit '<') = false := by decide
    rcases hc with ⟨hamp, hne, hdigits, hvalue⟩ | ⟨hamp, hne, hdigits, hvalue⟩ | ⟨hk⟩ | ⟨hamp, hlt⟩
    · rcases List.mem_append.1 hmem with hmem | hmem
      · rcases List.mem_append.1 hmem with hmem | hmem
        · exact absurd hmem (by decide)
        · exact absurd ((hdigits _ hmem).symm.trans hdigit.1) (by decide)
      · exact absurd hmem (by decide)
    · rcases List.mem_append.1 hmem with hmem | hmem
      · rcases List.mem_append.1 hmem with hmem | hmem
        · exact absurd hmem (by decide)
        · exact absurd ((hdigits _ hmem).symm.trans hdigit.2) (by decide)
      · exact absurd hmem (by decide)
    · have hall : ∀ e ∈ names, unit '<' ∉ e.1 := by decide
      exact hall _ (List.mem_of_getElem? hk) hmem
    · exact hlt (unitsOf_ascii (by decide) hmem)

theorem unitsOf_ne_nil (c : Char) : unitsOf c ≠ [] := by
  unfold unitsOf Buffer.unitsOf
  split <;> exact List.cons_ne_nil _ _

theorem Spells.ne_nil (h : Spells i c text) : text ≠ [] := by
  rcases h with ⟨hamp, hne, hdigits, hvalue⟩ | ⟨hamp, hne, hdigits, hvalue⟩ | ⟨hk⟩ | ⟨hamp, hlt⟩
  · exact List.append_ne_nil_of_right_ne_nil _ (by decide)
  · exact List.append_ne_nil_of_right_ne_nil _ (by decide)
  · have hall : ∀ e ∈ names, e.1 ≠ [] := by decide
    exact hall _ (List.mem_of_getElem? hk)
  · exact unitsOf_ne_nil c

theorem Escapes.nil_iff {key : Key} (h : Escapes key text) : text = [] ↔ key = [] := by
  cases h with
  | nil => exact ⟨fun _ => rfl, fun _ => rfl⟩
  | cons hc hrest =>
    exact ⟨fun hnil => absurd (List.append_eq_nil_iff.1 hnil).1 hc.ne_nil, nofun⟩

end Nacre.Objects
