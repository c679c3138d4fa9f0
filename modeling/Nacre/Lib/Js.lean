/-
The fragment of the ECMAScript standard library the modelled code leans
on where Lean's own differs: default array sorting, which compares
UTF-16 code units and not code points, and `String.prototype.trim`,
whose white space is not Lean's.

A JavaScript `Set` spread back into an array keeps the first occurrence
of each element in insertion order, which is `List.eraseDups`. A `Map`,
and an object used as one, is an association list in insertion order;
`mapSet` is its one write, and two lemmas say what a later read and the
key list see of it.

Text that leaves the process goes through UTF-8 (`encode`, `decode`). A
string may hold lone surrogates and so is a list of code units there; one
that came back through bytes cannot, and is a `String`.

`toLowerCase` follows the Unicode tables, which are not repeated here: a
`CaseMapping` is any function with the one property of it that the
development uses.
-/
import Mathlib.Data.List.DropRight
import Mathlib.Data.List.Lex
import Mathlib.Data.List.Sort

namespace Js

-- ============================================================== UTF-16

/-- The UTF-16 code units of one code point: itself below the
supplementary planes, a surrogate pair above. -/
def charUnits (c : Char) : List Nat :=
  let n := c.toNat
  if n < 0x10000 then [n]
  else [0xD800 + (n - 0x10000) / 0x400, 0xDC00 + (n - 0x10000) % 0x400]

/-- The UTF-16 code units of a string. -/
def utf16 (s : String) : List Nat := s.toList.flatMap charUnits

theorem charUnits_lt {c : Char} {n : Nat} (h : n ∈ charUnits c) : n < 0x10000 := by
  have hc : c.toNat < 0x110000 := by
    rcases c.valid with hlow | hhigh
    · exact Nat.lt_trans hlow (by decide)
    · exact hhigh.2
  unfold charUnits at h
  dsimp only at h
  split at h
  next hsmall =>
    rw [List.mem_singleton] at h
    omega
  next =>
    rw [List.mem_pair] at h
    omega

/-- No code point's units begin another's. -/
theorem charUnits_append_inj {c d : Char} {x y : List Nat}
    (h : charUnits c ++ x = charUnits d ++ y) : c = d ∧ x = y := by
  have hrange : ∀ e : Char, e.toNat < 0xD800 ∨ 0xDFFF < e.toNat ∧ e.toNat < 0x110000 :=
    fun e => e.valid
  have hc := hrange c
  have hd := hrange d
  unfold charUnits at h
  dsimp only at h
  split at h
  next hcsmall =>
    split at h
    next hdsmall =>
      obtain ⟨hn, rfl⟩ := List.cons.inj h
      exact ⟨Char.toNat_inj.1 hn, rfl⟩
    next hdlarge =>
      have hn := (List.cons.inj h).1
      omega
  next hclarge =>
    split at h
    next hdsmall =>
      have hn := (List.cons.inj h).1
      omega
    next hdlarge =>
      obtain ⟨hhigh, htail⟩ := List.cons.inj h
      obtain ⟨hlow, rfl⟩ := List.cons.inj htail
      exact ⟨Char.toNat_inj.1 (by omega), rfl⟩

theorem utf16_inj {a b : String} (h : utf16 a = utf16 b) : a = b := by
  have hlists : ∀ cs ds : List Char, cs.flatMap charUnits = ds.flatMap charUnits → cs = ds := by
    intro cs
    induction cs with
    | nil =>
        intro ds hds
        cases ds with
        | nil => rfl
        | cons d ds =>
            rw [List.flatMap_cons, List.flatMap_nil] at hds
            have hnil := (List.append_eq_nil_iff.1 hds.symm).1
            unfold charUnits at hnil
            dsimp only at hnil
            split at hnil <;> cases hnil
    | cons c cs ih =>
        intro ds hds
        cases ds with
        | nil =>
            rw [List.flatMap_cons, List.flatMap_nil] at hds
            have hnil := (List.append_eq_nil_iff.1 hds).1
            unfold charUnits at hnil
            dsimp only at hnil
            split at hnil <;> cases hnil
        | cons d ds =>
            rw [List.flatMap_cons, List.flatMap_cons] at hds
            obtain ⟨rfl, hrest⟩ := charUnits_append_inj hds
            rw [ih ds hrest]
  exact String.toList_inj.1 (hlists _ _ h)

/-- The code units of a string, as they are. -/
def codeUnits (s : String) : List UInt16 := (utf16 s).map UInt16.ofNat

theorem codeUnits_inj {a b : String} (h : codeUnits a = codeUnits b) : a = b := by
  have hback : ∀ s : String, (codeUnits s).map UInt16.toNat = utf16 s := by
    intro s
    unfold codeUnits
    rw [List.map_map]
    refine (List.map_congr_left fun n hn => ?_).trans (List.map_id _)
    obtain ⟨c, -, hn⟩ := List.mem_flatMap.1 hn
    exact UInt16.toNat_ofNat_of_lt (charUnits_lt hn)
  refine utf16_inj ?_
  rw [← hback a, h, hback b]

/-- The default array order: UTF-16 code units, left to right. -/
def unitsLe (a b : String) : Prop := utf16 a ≤ utf16 b

instance : DecidableRel unitsLe := fun a b =>
  inferInstanceAs (Decidable (utf16 a ≤ utf16 b))

/-- `[...xs].sort()` on strings: ascending by UTF-16 code units. -/
def sortStrings (xs : List String) : List String :=
  xs.insertionSort unitsLe

@[simp] theorem mem_sortStrings {xs : List String} {x : String} :
    x ∈ sortStrings xs ↔ x ∈ xs :=
  (List.perm_insertionSort unitsLe xs).mem_iff

@[simp] theorem sortStrings_eq_nil {xs : List String} :
    sortStrings xs = [] ↔ xs = [] := by
  rw [← List.length_eq_zero_iff, ← List.length_eq_zero_iff, sortStrings,
    List.length_insertionSort]

-- ============================================================ joined text

/-- A part that holds no separator is read back from what it is joined
to. -/
theorem joined_inj {sep : Char} {x x' z z' : List Char} (hx : sep ∉ x) (hx' : sep ∉ x')
    (h : x ++ sep :: z = x' ++ sep :: z') : x = x' ∧ z = z' := by
  have hspan : ∀ {w v : List Char}, sep ∉ w → (w ++ sep :: v).takeWhile (· ≠ sep) = w := by
    intro w v hw
    have hall : ∀ c ∈ w, decide (c ≠ sep) = true :=
      fun c hc => decide_eq_true fun heq => hw (heq ▸ hc)
    rw [List.takeWhile_append_of_pos hall, List.takeWhile_cons_of_neg (by simp),
      List.append_nil]
  have hpart : x = x' := by
    rw [← hspan hx, h, hspan hx']
  subst hpart
  exact ⟨rfl, (List.cons.inj (List.append_cancel_left h)).2⟩

-- ================================================================ trim

/-- ECMAScript white space and line terminators, the characters `trim`
removes from both ends. -/
def isTrimmed (c : Char) : Bool :=
  let n := c.toNat
  (0x9 ≤ n && n ≤ 0xD) || n = 0x20 || n = 0xA0 || n = 0x1680
    || (0x2000 ≤ n && n ≤ 0x200A) || n = 0x2028 || n = 0x2029
    || n = 0x202F || n = 0x205F || n = 0x3000 || n = 0xFEFF

/-- `s.trim()`. -/
def trim (s : String) : String :=
  String.ofList
    ((s.toList.dropWhile isTrimmed).reverse.dropWhile isTrimmed).reverse

/-- Nothing to trim at either end. -/
def Trimmed (cs : List Char) : Prop :=
  (∀ c ∈ cs.head?, isTrimmed c = false) ∧ ∀ c ∈ cs.getLast?, isTrimmed c = false

theorem trim_ofList {cs : List Char} (h : Trimmed cs) :
    trim (String.ofList cs) = String.ofList cs := by
  unfold trim
  rw [String.toList_ofList]
  have hleft : cs.dropWhile isTrimmed = cs := by
    cases cs with
    | nil => rfl
    | cons c rest =>
        rw [List.dropWhile_cons_of_neg]
        rw [h.1 c rfl]
        exact Bool.false_ne_true
  have hright : cs.rdropWhile isTrimmed = cs := by
    rw [List.rdropWhile_eq_self_iff]
    intro hne
    rw [h.2 _ (List.getLast?_eq_some_getLast hne)]
    exact Bool.false_ne_true
  rw [hleft]
  exact congrArg String.ofList hright

theorem mem_of_mem_trim {s : String} {c : Char} (h : c ∈ (trim s).toList) :
    c ∈ s.toList := by
  unfold trim at h
  rw [String.toList_ofList, List.mem_reverse] at h
  have hmem := (List.dropWhile_sublist _).subset h
  rw [List.mem_reverse] at hmem
  exact (List.dropWhile_sublist _).subset hmem

theorem trimmed_trim (s : String) : Trimmed (trim s).toList := by
  unfold trim
  rw [String.toList_ofList]
  show Trimmed ((s.toList.dropWhile isTrimmed).rdropWhile isTrimmed)
  constructor
  · intro c hc
    have hhead := List.head?_dropWhile_not isTrimmed s.toList
    obtain ⟨rest, hrest⟩ := List.rdropWhile_prefix isTrimmed (s.toList.dropWhile isTrimmed)
    rw [← hrest, List.head?_append, hc] at hhead
    simpa using hhead
  · intro c hc
    rw [Option.mem_def] at hc
    have hne : (s.toList.dropWhile isTrimmed).rdropWhile isTrimmed ≠ [] := by
      intro hnil
      rw [hnil] at hc
      cases hc
    rw [List.getLast?_eq_some_getLast hne] at hc
    cases hc
    simpa using List.rdropWhile_last_not _ _ hne

-- ================================================================= case

/-- `toLowerCase`: a mapping that leaves its own results alone. -/
structure CaseMapping where
  toLowerCase : String → String
  idem : ∀ s, toLowerCase (toLowerCase s) = toLowerCase s

/-- A lower-cased ASCII letter is no upper-case one. -/
theorem toLower_idem (c : Char) : c.toLower.toLower = c.toLower := by
  by_cases h : c.val ≥ 'A'.val ∧ c.val ≤ 'Z'.val
  · have hval : c.toLower.val = c.val + 32 :=
      congrArg Char.val (dif_pos h : c.toLower = ⟨c.val + 32, _⟩)
    have hout : ¬ (c.toLower.val ≥ 'A'.val ∧ c.toLower.val ≤ 'Z'.val) := by
      simp only [hval, ge_iff_le, UInt32.le_iff_toNat_le, UInt32.toNat_add] at h ⊢
      simp at h ⊢
      omega
    exact dif_neg hout
  · have hc : c.toLower = c := dif_neg h
    rw [hc, hc]

/-- A lower-cased character is as it was, or a small letter. -/
theorem toLower_cases (c : Char) :
    c.toLower = c ∨ 'a' ≤ c.toLower ∧ c.toLower ≤ 'z' := by
  by_cases h : c.val ≥ 'A'.val ∧ c.val ≤ 'Z'.val
  · right
    have hval : c.toLower.val = c.val + 32 :=
      congrArg Char.val (dif_pos h : c.toLower = ⟨c.val + 32, _⟩)
    simp only [Char.le_def, hval, ge_iff_le, UInt32.le_iff_toNat_le,
      UInt32.toNat_add] at h ⊢
    simp at h ⊢
    omega
  · exact .inl (dif_neg h)

/-- A small letter is not trimmed. -/
theorem not_isTrimmed_of_letter {c : Char} (h : 'a' ≤ c ∧ c ≤ 'z') :
    isTrimmed c = false := by
  have hlow : 97 ≤ c.toNat := h.1
  have hhigh : c.toNat ≤ 122 := h.2
  simp only [isTrimmed, Bool.or_eq_false_iff, Bool.and_eq_false_iff,
    decide_eq_false_iff_not]
  omega

theorem trimmed_map_toLower {cs : List Char} (h : Trimmed cs) :
    Trimmed (cs.map Char.toLower) := by
  have hchar : ∀ c, isTrimmed c = false → isTrimmed c.toLower = false := by
    intro c hc
    rcases toLower_cases c with heq | hletter
    · rw [heq]
      exact hc
    · exact not_isTrimmed_of_letter hletter
  constructor
  · intro c hc
    rw [List.head?_map, Option.mem_map] at hc
    obtain ⟨c', hc', rfl⟩ := hc
    exact hchar c' (h.1 c' hc')
  · intro c hc
    rw [List.getLast?_map, Option.mem_map] at hc
    obtain ⟨c', hc', rfl⟩ := hc
    exact hchar c' (h.2 c' hc')

/-- The mapping of a host with no letters outside ASCII. -/
def asciiCase : CaseMapping where
  toLowerCase s := String.ofList (s.toList.map Char.toLower)
  idem s := by
    simp only [String.toList_ofList, List.map_map]
    refine congrArg String.ofList (List.map_congr_left fun c _ => ?_)
    exact toLower_idem c

-- =========================================================== text and bytes

/-- U+FFFD, what a lone surrogate is encoded as. -/
def replacement : Char := Char.ofNat 0xFFFD

/-- The scalar values of a string given by its UTF-16 code units. -/
def scalars : List UInt16 → List Char
  | [] => []
  | [u] =>
      [if 0xD800 ≤ u ∧ u < 0xE000 then replacement else Char.ofNat u.toNat]
  | u :: v :: rest =>
      if 0xD800 ≤ u ∧ u < 0xDC00 ∧ 0xDC00 ≤ v ∧ v < 0xE000 then
        Char.ofNat (0x10000 + (u.toNat - 0xD800) * 0x400 + (v.toNat - 0xDC00))
          :: scalars rest
      else if 0xD800 ≤ u ∧ u < 0xE000 then replacement :: scalars (v :: rest)
      else Char.ofNat u.toNat :: scalars (v :: rest)

/-- `s.toWellFormed()`: every lone surrogate replaced. -/
def toWellFormed (units : List UInt16) : String := String.ofList (scalars units)

theorem scalars_cons_plain {u : UInt16} (h : ¬ (0xD800 ≤ u ∧ u < 0xE000)) (rest : List UInt16) :
    scalars (u :: rest) = Char.ofNat u.toNat :: scalars rest := by
  cases rest with
  | nil => simp [scalars, h]
  | cons v rest =>
      have hpair : ¬ (0xD800 ≤ u ∧ u < 0xDC00 ∧ 0xDC00 ≤ v ∧ v < 0xE000) :=
        fun hp => h ⟨hp.1, UInt16.lt_trans hp.2.1 (by decide)⟩
      rw [scalars, if_neg hpair, if_neg h]

/-- A string comes back from its code units. -/
theorem scalars_charUnits (c : Char) (rest : List UInt16) :
    scalars ((charUnits c).map UInt16.ofNat ++ rest) = c :: scalars rest := by
  have hc : c.toNat < 0xD800 ∨ 0xDFFF < c.toNat ∧ c.toNat < 0x110000 := c.valid
  unfold charUnits
  dsimp only
  split
  next hsmall =>
    have hunit : (UInt16.ofNat c.toNat).toNat = c.toNat := UInt16.toNat_ofNat_of_lt hsmall
    have hplain : ¬ (0xD800 ≤ UInt16.ofNat c.toNat ∧ UInt16.ofNat c.toNat < 0xE000) := by
      rw [UInt16.le_iff_toNat_le, UInt16.lt_iff_toNat_lt, hunit]
      show ¬ (0xD800 ≤ c.toNat ∧ c.toNat < 0xE000)
      omega
    rw [List.map_singleton, List.singleton_append, scalars_cons_plain hplain, hunit,
      Char.ofNat_toNat]
  next hlarge =>
    have hhigh : (UInt16.ofNat (0xD800 + (c.toNat - 0x10000) / 0x400)).toNat
        = 0xD800 + (c.toNat - 0x10000) / 0x400 :=
      UInt16.toNat_ofNat_of_lt (show _ < 65536 by omega)
    have hlow : (UInt16.ofNat (0xDC00 + (c.toNat - 0x10000) % 0x400)).toNat
        = 0xDC00 + (c.toNat - 0x10000) % 0x400 :=
      UInt16.toNat_ofNat_of_lt (show _ < 65536 by omega)
    have hpair : 0xD800 ≤ UInt16.ofNat (0xD800 + (c.toNat - 0x10000) / 0x400)
        ∧ UInt16.ofNat (0xD800 + (c.toNat - 0x10000) / 0x400) < 0xDC00
        ∧ 0xDC00 ≤ UInt16.ofNat (0xDC00 + (c.toNat - 0x10000) % 0x400)
        ∧ UInt16.ofNat (0xDC00 + (c.toNat - 0x10000) % 0x400) < 0xE000 := by
      rw [UInt16.le_iff_toNat_le, UInt16.lt_iff_toNat_lt, UInt16.le_iff_toNat_le,
        UInt16.lt_iff_toNat_lt, hhigh, hlow]
      show 0xD800 ≤ _ ∧ _ < 0xDC00 ∧ 0xDC00 ≤ _ ∧ _ < 0xE000
      omega
    have hvalue : 0x10000 + (0xD800 + (c.toNat - 0x10000) / 0x400 - 0xD800) * 0x400
        + (0xDC00 + (c.toNat - 0x10000) % 0x400 - 0xDC00) = c.toNat := by omega
    show scalars (_ :: _ :: rest) = _
    rw [scalars, if_pos hpair, hhigh, hlow, hvalue, Char.ofNat_toNat]

theorem toWellFormed_codeUnits (s : String) : toWellFormed (codeUnits s) = s := by
  have hlists : ∀ cs : List Char, scalars ((cs.flatMap charUnits).map UInt16.ofNat) = cs := by
    intro cs
    induction cs with
    | nil => rfl
    | cons c cs ih =>
        rw [List.flatMap_cons, List.map_append, scalars_charUnits, ih]
  unfold toWellFormed codeUnits utf16
  rw [hlists, String.ofList_toList]

/-- The bytes of a string, as `TextEncoder`, a `Buffer` and a query
parameter have them. -/
def encode (units : List UInt16) : ByteArray := (toWellFormed units).toUTF8

/-- U+FEFF, the byte order mark. -/
def bom : Char := Char.ofNat 0xFEFF

/-- A leading byte order mark is not part of the text. -/
def dropBom (text : String) : String :=
  match text.toList with
  | [] => text
  | c :: rest => if c = bom then String.ofList rest else text

/-- `new TextDecoder('utf-8', { fatal: true }).decode(bytes)`. -/
def decode (bytes : ByteArray) : Option String := (String.fromUTF8? bytes).map dropBom

/-- What comes back of a string that went through bytes. -/
theorem decode_toUTF8 (text : String) : decode text.toUTF8 = some (dropBom text) := by
  have hvalid : text.toUTF8.IsValidUTF8 := text.isValidUTF8
  unfold decode String.fromUTF8?
  rw [dif_pos hvalid]
  rfl

theorem dropBom_of_head_ne {text : String} (h : text.toList.head? ≠ some bom) :
    dropBom text = text := by
  unfold dropBom
  split
  next => rfl
  next c rest heq =>
    rw [heq] at h
    rw [if_neg]
    intro heq
    subst heq
    exact h rfl

example : scalars [0x48, 0xD83D, 0xDE00, 0xD83D] = ['H', '😀', '\uFFFD'] := by decide

-- ================================================================== map

section Map

variable {κ ν : Type*} [BEq κ] [LawfulBEq κ]

/-- `map.set(k, v)`: in place when the key is present, at the end when it
is new. -/
def mapSet (m : List (κ × ν)) (k : κ) (v : ν) : List (κ × ν) :=
  match m with
  | [] => [(k, v)]
  | (k', v') :: rest =>
      if k' == k then (k', v) :: rest else (k', v') :: mapSet rest k v

/-- A read after a write: the written key answers the new value, every
other key what it answered before. -/
theorem lookup_mapSet (m : List (κ × ν)) (k : κ) (v : ν) (k' : κ) :
    (mapSet m k v).lookup k' = if k' == k then some v else m.lookup k' := by
  induction m with
  | nil =>
      rw [mapSet, List.lookup_cons, List.lookup_nil]
      cases k' == k <;> rfl
  | cons e rest ih =>
      obtain ⟨a, b⟩ := e
      unfold mapSet
      by_cases ha : a = k
      · subst ha
        simp only [BEq.rfl, if_true, List.lookup_cons]
        cases k' == a <;> rfl
      · have ha' : (a == k) = false := by simpa using ha
        simp only [ha', Bool.false_eq_true, if_false, List.lookup_cons, ih]
        by_cases hk : k' = a
        · subst hk
          simp [ha']
        · have hk' : (k' == a) = false := by simpa using hk
          simp [hk']

/-- The keys of a written map: those it had, and the written one. -/
theorem mem_keys_mapSet {m : List (κ × ν)} {k : κ} {v : ν} {k' : κ} :
    k' ∈ (mapSet m k v).map Prod.fst ↔ k' = k ∨ k' ∈ m.map Prod.fst := by
  induction m with
  | nil => simp [mapSet]
  | cons e rest ih =>
      obtain ⟨a, b⟩ := e
      unfold mapSet
      by_cases ha : a = k
      · subst ha
        simp
      · have ha' : (a == k) = false := by simpa using ha
        simp only [ha', Bool.false_eq_true, if_false, List.map_cons,
          List.mem_cons, ih]
        tauto

/-- A write keeps the keys distinct. -/
theorem nodup_keys_mapSet {m : List (κ × ν)} {k : κ} {v : ν}
    (h : (m.map Prod.fst).Nodup) : ((mapSet m k v).map Prod.fst).Nodup := by
  induction m with
  | nil => simp [mapSet]
  | cons e rest ih =>
      obtain ⟨a, b⟩ := e
      rw [List.map_cons, List.nodup_cons] at h
      unfold mapSet
      by_cases ha : a = k
      · subst ha
        simpa using h
      · have ha' : (a == k) = false := by simpa using ha
        simp only [ha', Bool.false_eq_true, if_false, List.map_cons,
          List.nodup_cons, mem_keys_mapSet]
        exact ⟨fun hor => hor.elim ha h.1, ih h.2⟩

/-- A read of a map with distinct keys finds exactly its entries. -/
theorem lookup_eq_some_iff_mem :
    ∀ {m : List (κ × ν)}, (m.map Prod.fst).Nodup → ∀ {k : κ} {v : ν},
      (m.lookup k = some v ↔ (k, v) ∈ m) := by
  intro m
  induction m with
  | nil => intro _ k v; simp
  | cons e m ih =>
      intro hnd k v
      obtain ⟨k', v'⟩ := e
      simp only [List.map_cons, List.nodup_cons] at hnd
      rw [List.lookup_cons]
      by_cases hk : k = k'
      · subst hk
        have hno : (k, v) ∉ m := fun h =>
          hnd.1 (List.mem_map.2 ⟨(k, v), h, rfl⟩)
        simp [hno, eq_comm]
      · have hbeq : (k == k') = false := by simpa using hk
        simp [hbeq, hk, ih hnd.2]

end Map

end Js
