/-
Metadata as a request brings it (core/metadata.ts): what a document may be
tagged with, and what a search may be narrowed by.

What is accepted is written into an ordinary object, `out[key] = value`.
Assigning to `__proto__` stores nothing: text, a number or a boolean is
dropped, and a list becomes what the object inherits from. The pattern of
the keys lets `__proto__` through, so a tag or a filter under it is lost
without an error. `inputs_kept` says that nothing else is.
-/
import Nacre.Authz.Filter
import Nacre.Lib.Value

namespace Nacre.Authz.MetadataInput

open Json (units)

abbrev Text := List UInt16

/-- Keys per document. -/
def MAX_METADATA_KEYS : Nat := 32
def MAX_METADATA_KEY_LENGTH : Nat := 64
/-- A string value, and every string inside a list value. -/
def MAX_METADATA_VALUE_LENGTH : Nat := 256
/-- Values in one list. -/
def MAX_METADATA_LIST : Nat := 32

-- ============================================================= what is kept

/-- A value that passes. -/
inductive Tag where
  | str (s : Text)
  | num (q : ℚ)
  | bool (b : Bool)
  deriving DecidableEq

inductive TagValue where
  | scalar (v : Tag)
  | list (vs : List Tag)
  deriving DecidableEq

/-- The object that is built: its own keys in order, and the list it inherits
from when one was assigned to `__proto__`. -/
structure Out where
  own : List (Text × TagValue)
  inherited : Option (List Tag)
  deriving DecidableEq

def Out.empty : Out := ⟨[], none⟩

/-- `out[key] = value`. -/
def assign (out : Out) (entry : Text × TagValue) : Out :=
  if entry.1 = units "__proto__" then
    match entry.2 with
    | .list vs => { out with inherited := some vs }
    | .scalar _ => out
  else { out with own := Js.mapSet out.own entry.1 entry.2 }

-- =============================================================== the checks

def isKeyStart (u : UInt16) : Bool := (97 ≤ u.toNat && u.toNat ≤ 122) || u.toNat = 95

def isKeyUnit (u : UInt16) : Bool := isKeyStart u || (48 ≤ u.toNat && u.toNat ≤ 57)

/-- `/^[a-z_][a-z0-9_]*$/`. -/
def isKey : Text → Bool
  | [] => false
  | u :: rest => isKeyStart u && rest.all isKeyUnit

def checkScalar (key : Text) : Value → Except Text Tag
  | .string s =>
      if MAX_METADATA_VALUE_LENGTH < s.length then
        .error (units "metadata value for '" ++ key ++ units "' is over 256 characters")
      else .ok (.str s)
  | .number (.finite q) => .ok (.num q)
  | .number _ => .error (units "metadata value for '" ++ key ++ units "' is not a finite number")
  | .bool b => .ok (.bool b)
  | _ =>
      .error (units "metadata value for '" ++ key
        ++ units ("' must be a string, number, boolean, or a list of those. "
          ++ "Nested objects are not accepted: the filter surface would have to grow a path "
          ++ "syntax, and a path is a way to reach a field the caller did not name."))

def checkItems (key : Text) : List Value → Except Text (List Tag)
  | [] => .ok []
  | v :: vs =>
      match checkScalar key v with
      | .error reason => .error reason
      | .ok tag => (checkItems key vs).map (tag :: ·)

def checkValue (key : Text) : Value → Except Text TagValue
  | .array items =>
      if MAX_METADATA_LIST < items.length then
        .error (units "metadata value for '" ++ key ++ units "' has more than 32 entries")
      else (checkItems key items).map .list
  | value => (checkScalar key value).map .scalar

/-- The loop of `parseMetadata`, over what is left of the entries. -/
def readEntries (out : Out) : List (Text × Value) → Except Text Out
  | [] => .ok out
  | (key, value) :: rest =>
      if MAX_METADATA_KEY_LENGTH < key.length then
        .error (units "metadata key '" ++ key.take 20 ++ units "…' is over 64 characters")
      else if !isKey key then
        .error (units "metadata key '" ++ key
          ++ units ("' must match /^[a-z_][a-z0-9_]*$/ — lower case letters, digits and "
            ++ "underscores, not starting with a digit"))
      else
        match checkValue key value with
        | .error reason => .error reason
        | .ok checked => readEntries (assign out (key, checked)) rest

/-- `parseMetadata`; a value that is not there is null here. -/
def parseMetadata (raw : Value) (what : String) : Except Text Out :=
  match raw with
  | .null => .ok .empty
  | .object entries =>
      if MAX_METADATA_KEYS < entries.length then
        .error (units ("'" ++ what ++ "' has more than 32 keys"))
      else readEntries .empty entries
  | _ => .error (units ("'" ++ what ++ "' must be an object"))

def parseFilters (raw : Value) : Except Text Out :=
  match parseMetadata raw "filters" with
  | .error reason => .error reason
  | .ok parsed =>
      match parsed.own.find? (·.2 = .list []) with
      | some (key, _) =>
          .error (units "filter on '" ++ key
            ++ units ("' has no values, so it can match nothing. Drop the key to "
              ++ "search without that restriction."))
      | none => .ok parsed

-- ============================================================ what fits

/-- The value a tag was read from. -/
def Tag.value : Tag → Value
  | .str s => .string s
  | .num q => .number (.finite q)
  | .bool b => .bool b

def TagValue.value : TagValue → Value
  | .scalar v => v.value
  | .list vs => .array (vs.map Tag.value)

def valueOf (entry : Text × TagValue) : Text × Value := (entry.1, entry.2.value)

def fitsScalar : Value → Bool
  | .string s => s.length ≤ MAX_METADATA_VALUE_LENGTH
  | .number (.finite _) => true
  | .bool _ => true
  | _ => false

def fitsValue : Value → Bool
  | .array items => items.length ≤ MAX_METADATA_LIST && items.all fitsScalar
  | value => fitsScalar value

def fitsEntry (entry : Text × Value) : Bool :=
  entry.1.length ≤ MAX_METADATA_KEY_LENGTH && isKey entry.1 && fitsValue entry.2

/-- The stated bounds, of all the entries. -/
def fits (entries : List (Text × Value)) : Bool :=
  entries.length ≤ MAX_METADATA_KEYS && entries.all fitsEntry

variable {key : Text} {value : Value} {entries : List (Text × Value)} {out out' : Out}

theorem checkScalar_value {tag : Tag} (h : checkScalar key value = .ok tag) :
    tag.value = value := by
  unfold checkScalar at h
  split at h
  · split at h
    · cases h
    · cases h
      rfl
  · cases h
    rfl
  · cases h
  · cases h
    rfl
  · cases h

theorem checkScalar_ok : (∃ tag, checkScalar key value = .ok tag) ↔ fitsScalar value = true := by
  unfold checkScalar fitsScalar
  split
  · split
    next h => simp [Nat.not_le.2 h]
    next h => simp [Nat.not_lt.1 h]
  · simp
  · split <;> simp_all
  · simp
  · split <;> simp_all

theorem checkItems_value {items : List Value} {tags : List Tag}
    (h : checkItems key items = .ok tags) : tags.map Tag.value = items := by
  induction items generalizing tags with
  | nil =>
      cases h
      rfl
  | cons v vs ih =>
      unfold checkItems at h
      split at h
      next => cases h
      next tag htag =>
        cases hrest : checkItems key vs with
        | error reason => simp [hrest, Except.map] at h
        | ok rest =>
            simp only [hrest, Except.map, Except.ok.injEq] at h
            rw [← h, List.map_cons, checkScalar_value htag, ih hrest]

theorem checkItems_ok {items : List Value} :
    (∃ tags, checkItems key items = .ok tags) ↔ items.all fitsScalar = true := by
  induction items with
  | nil => simp [checkItems]
  | cons v vs ih =>
      rw [List.all_cons, Bool.and_eq_true, ← ih, ← @checkScalar_ok key]
      rw [checkItems]
      cases checkScalar key v with
      | error reason => simp
      | ok tag => cases checkItems key vs <;> simp [Except.map]

theorem checkValue_value {v : TagValue} (h : checkValue key value = .ok v) : v.value = value := by
  unfold checkValue at h
  split at h
  next items =>
    split at h
    next => cases h
    next =>
      cases hitems : checkItems key items with
      | error reason => simp [hitems, Except.map] at h
      | ok tags =>
          simp only [hitems, Except.map, Except.ok.injEq] at h
          rw [← h, TagValue.value, checkItems_value hitems]
  next =>
    cases hscalar : checkScalar key value with
    | error reason => simp [hscalar, Except.map] at h
    | ok tag =>
        simp only [hscalar, Except.map, Except.ok.injEq] at h
        rw [← h, TagValue.value, checkScalar_value hscalar]

theorem checkValue_ok : (∃ v, checkValue key value = .ok v) ↔ fitsValue value = true := by
  unfold checkValue fitsValue
  split
  next items =>
    rw [Bool.and_eq_true, ← @checkItems_ok key, decide_eq_true_eq]
    split
    next h => simp [Nat.not_le.2 h]
    next h => cases checkItems key items <;> simp [Except.map, Nat.not_lt.1 h]
  next hne =>
    rw [← @checkScalar_ok key]
    cases checkScalar key value <;> simp [Except.map]

-- ============================================================== the entries

/-- What is read of the entries, when each of them fits, is written one after
another; and it is read only when each of them fits. -/
theorem readEntries_ok_iff :
    readEntries out entries = .ok out'
      ↔ entries.all fitsEntry = true ∧
        ∃ tags : List (Text × TagValue), tags.map valueOf = entries ∧
          (∀ tag ∈ tags, checkValue tag.1 tag.2.value = .ok tag.2) ∧
          tags.foldl assign out = out' := by
  induction entries generalizing out with
  | nil =>
      constructor
      · intro h
        cases h
        exact ⟨rfl, [], rfl, nofun, rfl⟩
      · rintro ⟨-, tags, htags, -, rfl⟩
        rw [List.map_eq_nil_iff.1 htags]
        rfl
  | cons entry entries ih =>
      obtain ⟨key, value⟩ := entry
      rw [readEntries, List.all_cons, Bool.and_eq_true]
      by_cases hlength : MAX_METADATA_KEY_LENGTH < key.length
      · rw [if_pos hlength]
        simp [fitsEntry, Nat.not_le.2 hlength]
      rw [if_neg hlength]
      by_cases hkey : isKey key = true
      · rw [if_neg (by simp [hkey])]
        cases hvalue : checkValue key value with
        | error reason =>
            have hunfit : fitsValue value = false := by
              by_contra h
              obtain ⟨v, hv⟩ := (@checkValue_ok key value).2 (by simpa using h)
              rw [hvalue] at hv
              cases hv
            simp [fitsEntry, hunfit]
        | ok checked =>
            have hfits : fitsEntry (key, value) = true := by
              simp [fitsEntry, Nat.not_lt.1 hlength, hkey, checkValue_ok.1 ⟨checked, hvalue⟩]
            have hread := checkValue_value hvalue
            simp only [ih, hfits, true_and]
            refine and_congr_right fun _ => ?_
            constructor
            · rintro ⟨tags, htags, hchecked, hout⟩
              refine ⟨(key, checked) :: tags, ?_, ?_, hout⟩
              · rw [List.map_cons, htags, valueOf, hread]
              · rintro tag htag
                rcases List.mem_cons.1 htag with rfl | htag
                · rwa [hread]
                · exact hchecked tag htag
            · rintro ⟨tags, htags, hchecked, hout⟩
              cases tags with
              | nil => cases htags
              | cons tag tags =>
                  rw [List.map_cons] at htags
                  obtain ⟨hhead, htail⟩ := List.cons.inj htags
                  refine ⟨tags, htail, fun t ht => hchecked t (List.mem_cons_of_mem _ ht), ?_⟩
                  have hsame := hchecked tag List.mem_cons_self
                  obtain ⟨k, v⟩ := tag
                  obtain ⟨rfl, hv⟩ := Prod.mk.inj hhead
                  simp only at hsame hv
                  rw [hv, hvalue] at hsame
                  cases hsame
                  exact hout
      · rw [if_pos (by simp [hkey])]
        simp [fitsEntry, hkey]

theorem readEntries_fits (h : entries.all fitsEntry = true) :
    ∃ out', readEntries out entries = .ok out' := by
  induction entries generalizing out with
  | nil => exact ⟨out, rfl⟩
  | cons entry entries ih =>
      obtain ⟨key, value⟩ := entry
      rw [List.all_cons, Bool.and_eq_true] at h
      obtain ⟨hentry, hrest⟩ := h
      simp only [fitsEntry, Bool.and_eq_true, decide_eq_true_eq] at hentry
      obtain ⟨⟨hlength, hkey⟩, hfits⟩ := hentry
      obtain ⟨checked, hchecked⟩ := (@checkValue_ok key value).2 hfits
      rw [readEntries, if_neg (Nat.not_lt.2 hlength), if_neg (by simp [hkey]), hchecked]
      exact ih hrest

-- ========================================================== the assignments

/-- An own key is written at the end, when it is new. -/
theorem mapSet_new {fields : List (Text × TagValue)} {v : TagValue}
    (h : key ∉ fields.map Prod.fst) : Js.mapSet fields key v = fields ++ [(key, v)] := by
  induction fields with
  | nil => rfl
  | cons field fields ih =>
      rw [List.map_cons, List.mem_cons, not_or] at h
      have hne : (field.1 == key) = false := by simpa using Ne.symm h.1
      rw [Js.mapSet, hne, ih h.2]
      rfl

/-- Entries with a key each: all are stored but the one under `__proto__`. -/
theorem foldl_own {tags : List (Text × TagValue)} (hdistinct : (tags.map Prod.fst).Nodup)
    (hnew : ∀ k ∈ tags.map Prod.fst, k ∉ out.own.map Prod.fst) :
    (tags.foldl assign out).own = out.own ++ tags.filter (·.1 ≠ units "__proto__") := by
  induction tags generalizing out with
  | nil => rw [List.foldl_nil, List.filter_nil, List.append_nil]
  | cons tag tags ih =>
      rw [List.map_cons, List.nodup_cons] at hdistinct
      rw [List.foldl_cons]
      by_cases hproto : tag.1 = units "__proto__"
      · have hsame : (assign out tag).own = out.own := by
          rw [assign, if_pos hproto]
          split <;> rfl
        rw [ih hdistinct.2 (by rw [hsame]; exact fun k hk => hnew k (List.mem_cons_of_mem _ hk)),
          hsame, List.filter_cons_of_neg (by simp [hproto])]
      · have hmore : (assign out tag).own = out.own ++ [tag] := by
          rw [assign, if_neg hproto, mapSet_new (hnew _ List.mem_cons_self)]
        have hrest : ∀ k ∈ tags.map Prod.fst, k ∉ (assign out tag).own.map Prod.fst := by
          intro k hk hin
          rw [hmore, List.map_append, List.mem_append] at hin
          rcases hin with hin | hin
          · exact hnew k (List.mem_cons_of_mem _ hk) hin
          · rw [List.map_cons, List.map_nil, List.mem_singleton] at hin
            exact hdistinct.1 (hin ▸ hk)
        rw [ih hdistinct.2 hrest, hmore, List.filter_cons_of_pos (by simpa using hproto),
          List.append_assoc, List.singleton_append]

theorem foldl_inherited {tags : List (Text × TagValue)}
    (h : units "__proto__" ∉ tags.map Prod.fst) :
    (tags.foldl assign out).inherited = out.inherited := by
  induction tags generalizing out with
  | nil => rfl
  | cons tag tags ih =>
      rw [List.map_cons, List.mem_cons, not_or] at h
      rw [List.foldl_cons, ih h.2, assign, if_neg (Ne.symm h.1)]

theorem map_fst_valueOf (tags : List (Text × TagValue)) :
    (tags.map valueOf).map Prod.fst = tags.map Prod.fst := by
  rw [List.map_map]
  rfl

-- ================================================================== an object

/-- The entries of an object: no key twice. -/
structure Entries where
  entries : List (Text × Value)
  distinct : (entries.map Prod.fst).Nodup

/-- The same keys and values, nothing inherited. -/
def Out.Same (out : Out) (entries : List (Text × Value)) : Prop :=
  out.own.map valueOf = entries ∧ out.inherited = none

/-- `__proto__` is one of the keys. -/
def naming (entries : List (Text × Value)) : Bool := (entries.map Prod.fst).contains (units "__proto__")

theorem parseMetadata_ok_iff {what : String} :
    parseMetadata (.object entries) what = .ok out
      ↔ entries.length ≤ MAX_METADATA_KEYS ∧ readEntries .empty entries = .ok out := by
  unfold parseMetadata
  dsimp only
  split
  next h => simp [Nat.not_le.2 h]
  next h => simp [Nat.not_lt.1 h]

/-- What is accepted fits. -/
theorem fits_of_ok {what : String} (h : parseMetadata (.object entries) what = .ok out) :
    fits entries = true := by
  obtain ⟨hlength, hread⟩ := parseMetadata_ok_iff.1 h
  simp [fits, hlength, (readEntries_ok_iff.1 hread).1]

theorem ok_of_fits (what : String) (h : fits entries = true) :
    ∃ out, parseMetadata (.object entries) what = .ok out := by
  simp only [fits, Bool.and_eq_true, decide_eq_true_eq] at h
  obtain ⟨out, hout⟩ := (readEntries_fits h.2 : ∃ out, readEntries .empty entries = .ok out)
  exact ⟨out, parseMetadata_ok_iff.2 ⟨h.1, hout⟩⟩

/-- What is accepted has the entries but the one under `__proto__`. -/
theorem own_eq {raw : Entries} {what : String}
    (h : parseMetadata (.object raw.entries) what = .ok out) :
    out.own.map valueOf = raw.entries.filter (·.1 ≠ units "__proto__") := by
  obtain ⟨-, hread⟩ := parseMetadata_ok_iff.1 h
  obtain ⟨-, tags, htags, -, rfl⟩ := readEntries_ok_iff.1 hread
  have hdistinct := raw.distinct
  rw [← htags, map_fst_valueOf] at hdistinct
  rw [foldl_own hdistinct fun _ _ => by simp [Out.empty], ← htags, List.filter_map]
  rfl

theorem naming_iff {raw : List (Text × Value)} :
    naming raw = false ↔ ∀ entry ∈ raw, entry.1 ≠ units "__proto__" := by
  unfold naming
  rw [List.contains_eq_mem, decide_eq_false_iff_not, List.mem_map]
  constructor
  · exact fun h entry hentry heq => h ⟨entry, hentry, heq⟩
  · rintro h ⟨entry, hentry, heq⟩
    exact h entry hentry heq

/-- What is accepted is the same object exactly when `__proto__` is no key. -/
theorem same_iff {raw : Entries} {what : String}
    (h : parseMetadata (.object raw.entries) what = .ok out) :
    out.Same raw.entries ↔ naming raw.entries = false := by
  rw [naming_iff, Out.Same, own_eq h, List.filter_eq_self]
  refine ⟨fun hsame entry hentry => by simpa using hsame.1 entry hentry, fun hnone => ⟨?_, ?_⟩⟩
  · exact fun entry hentry => by simpa using hnone entry hentry
  · obtain ⟨-, hread⟩ := parseMetadata_ok_iff.1 h
    obtain ⟨-, tags, htags, -, rfl⟩ := readEntries_ok_iff.1 hread
    refine foldl_inherited ?_
    rw [← map_fst_valueOf, htags, List.mem_map]
    rintro ⟨entry, hentry, heq⟩
    exact hnone entry hentry heq

-- ================================================================ the filters

/-- An entry that asks for one of nothing. -/
def asksNothing (entry : Text × Value) : Bool :=
  match entry.2 with
  | .array [] => true
  | _ => false

theorem asksNothing_valueOf (tag : Text × TagValue) :
    asksNothing (valueOf tag) = true ↔ tag.2 = .list [] := by
  obtain ⟨key, value⟩ := tag
  cases value with
  | scalar v => cases v <;> simp [asksNothing, valueOf, TagValue.value, Tag.value]
  | list vs => cases vs <;> simp [asksNothing, valueOf, TagValue.value]

theorem parseFilters_ok_iff :
    parseFilters value = .ok out
      ↔ parseMetadata value "filters" = .ok out ∧ ∀ tag ∈ out.own, tag.2 ≠ .list [] := by
  unfold parseFilters
  cases parseMetadata value "filters" with
  | error reason => simp
  | ok parsed =>
      dsimp only
      cases hfind : parsed.own.find? (·.2 = .list []) with
      | none =>
          have hnone := List.find?_eq_none.1 hfind
          constructor
          · intro h
            cases h
            exact ⟨rfl, fun tag htag => by simpa using hnone tag htag⟩
          · rintro ⟨h, -⟩
            exact h
      | some tag =>
          have hin := List.mem_of_find?_eq_some hfind
          have hempty : tag.2 = .list [] := by simpa using List.find?_some hfind
          constructor
          · exact fun h => nomatch h
          · rintro ⟨h, hall⟩
            cases h
            exact absurd hempty (hall tag hin)

/-- A search filter is accepted when it fits and asks no list of nothing, the
one under `__proto__` apart. -/
theorem parseFilters_accepts {raw : Entries} :
    (∃ out, parseFilters (.object raw.entries) = .ok out)
      ↔ fits raw.entries = true ∧
        ∀ entry ∈ raw.entries, entry.1 ≠ units "__proto__" → asksNothing entry = false := by
  have hasks : ∀ out, parseMetadata (.object raw.entries) "filters" = .ok out →
      ((∀ tag ∈ out.own, tag.2 ≠ .list [])
        ↔ ∀ entry ∈ raw.entries, entry.1 ≠ units "__proto__" → asksNothing entry = false) := by
    intro out hout
    have hown := own_eq hout
    constructor
    · intro hall entry hentry hproto
      have hin : entry ∈ out.own.map valueOf := by
        rw [hown, List.mem_filter]
        exact ⟨hentry, by simpa using hproto⟩
      obtain ⟨tag, htag, rfl⟩ := List.mem_map.1 hin
      rw [← Bool.not_eq_true, asksNothing_valueOf]
      exact hall tag htag
    · intro hall tag htag
      have hin : valueOf tag ∈ out.own.map valueOf := List.mem_map_of_mem htag
      rw [hown, List.mem_filter] at hin
      rw [ne_eq, ← asksNothing_valueOf, Bool.not_eq_true]
      exact hall _ hin.1 (by simpa using hin.2)
  constructor
  · rintro ⟨out, hout⟩
    obtain ⟨hparsed, hall⟩ := parseFilters_ok_iff.1 hout
    exact ⟨fits_of_ok hparsed, (hasks out hparsed).1 hall⟩
  · rintro ⟨hfits, hall⟩
    obtain ⟨out, hparsed⟩ := ok_of_fits "filters" hfits
    exact ⟨out, parseFilters_ok_iff.2 ⟨hparsed, (hasks out hparsed).2 hall⟩⟩

-- ====================================================== the vector store's filter

/-- A value in a payload. -/
def Tag.scalar : Tag → Scalar
  | .str s => .str (Js.toWellFormed s)
  | .num q => .num q
  | .bool b => .bool b

def TagValue.metadata : TagValue → MetadataValue
  | .scalar v => .scalar v.scalar
  | .list vs => .list (vs.map Tag.scalar)

/-- What is handed to `buildFilter`: the own entries. -/
def Out.metadata (out : Out) : Metadata :=
  out.own.map fun tag => (Js.toWellFormed tag.1, tag.2.metadata)

/-- `meta.<key>` is the value, or one of the list. -/
def restriction (tag : Text × TagValue) : FilterClause :=
  match tag.2 with
  | .scalar v => .value (metadataField (Js.toWellFormed tag.1)) v.scalar
  | .list vs => .any (metadataField (Js.toWellFormed tag.1)) (vs.map Tag.scalar)

theorem metadataClauses_eq {tags : List (Text × TagValue)} {clauses : List FilterClause}
    (h : metadataClauses (tags.map fun tag => (Js.toWellFormed tag.1, tag.2.metadata))
      = .ok clauses) : clauses = tags.map restriction := by
  induction tags generalizing clauses with
  | nil =>
      cases h
      rfl
  | cons tag tags ih =>
      obtain ⟨key, value⟩ := tag
      rw [List.map_cons, metadataClauses] at h
      cases hrest : metadataClauses (tags.map fun tag =>
          (Js.toWellFormed tag.1, tag.2.metadata)) with
      | error reason =>
          rw [hrest] at h
          cases hclause : metadataClause (Js.toWellFormed key) value.metadata with
          | error _ =>
              rw [hclause] at h
              cases h
          | ok clause =>
              rw [hclause] at h
              cases h
      | ok rest =>
          rw [hrest] at h
          rw [List.map_cons, ← ih hrest]
          cases value with
          | scalar v =>
              cases h
              rfl
          | list vs =>
              cases vs with
              | nil => cases h
              | cons v vs =>
                  cases h
                  rfl

/-- Every metadata restriction is a `must` of the filter. -/
theorem restriction_mem {orgId : String} {plan : QueryablePlan} {layers : Option (List String)}
    {filter : VectorFilter} (h : buildFilter orgId plan ⟨layers, some out.metadata⟩ = .ok filter)
    {tag : Text × TagValue} (htag : tag ∈ out.own) : restriction tag ∈ filter.must := by
  unfold buildFilter at h
  cases hlayers : narrowLayers ⟨layers, some out.metadata⟩ with
  | error reason =>
      rw [hlayers] at h
      cases h
  | ok ls =>
      cases hclauses : metadataClauses out.metadata with
      | error reason =>
          rw [hlayers] at h
          simp only [Option.getD_some, hclauses] at h
          cases h
      | ok ms =>
          rw [hlayers] at h
          simp only [Option.getD_some, hclauses] at h
          have hms : restriction tag ∈ ms := by
            rw [metadataClauses_eq hclauses]
            exact List.mem_map_of_mem htag
          obtain ⟨plan, hplan⟩ := plan
          rcases plan with - | - | ⟨reach, extraDocs, deniedDocs⟩
          · exact absurd rfl hplan
          · cases h
            exact List.mem_append_right _ hms
          · change (if ((if reach.isEmpty = true then [] else [layersClause reach])
                ++ (if extraDocs.isEmpty = true then [] else [docsClause extraDocs])).isEmpty = true
              then _ else _) = _ at h
            generalize (if reach.isEmpty = true then [] else [layersClause reach])
              ++ (if extraDocs.isEmpty = true then [] else [docsClause extraDocs]) = should at h
            cases hshould : should.isEmpty with
            | true =>
                rw [hshould, if_pos rfl] at h
                cases h
            | false =>
                rw [hshould, if_neg (by decide)] at h
                cases h
                exact List.mem_append_right _ hms

-- ================================================================= the promise

/-- Accepted tags are the object's, within the bounds. -/
def TagsKept (raw : Entries) (what : String) : Prop :=
  ∀ out, parseMetadata (.object raw.entries) what = .ok out →
    out.Same raw.entries ∧ fits raw.entries = true

/-- Accepted filters are the object's, within the bounds, none of them a list
of nothing, and each restricts `meta.<key>` in every filter built of them. -/
def FiltersKept (raw : Entries) : Prop :=
  ∀ out, parseFilters (.object raw.entries) = .ok out →
    out.Same raw.entries ∧ fits raw.entries = true ∧ (∀ tag ∈ out.own, tag.2 ≠ .list []) ∧
      ∀ orgId plan layers filter,
        buildFilter orgId plan ⟨layers, some out.metadata⟩ = .ok filter →
          ∀ entry ∈ raw.entries, ∃ tag, valueOf tag = entry ∧ restriction tag ∈ filter.must

theorem tagsKept_iff {raw : Entries} {what : String} :
    TagsKept raw what ↔ (fits raw.entries && naming raw.entries) = false := by
  constructor
  · intro h
    by_contra hboth
    rw [Bool.not_eq_false, Bool.and_eq_true] at hboth
    obtain ⟨out, hout⟩ := ok_of_fits what hboth.1
    rw [(same_iff hout).1 (h out hout).1] at hboth
    exact absurd hboth.2 (by decide)
  · intro h out hout
    have hfits := fits_of_ok hout
    rw [hfits, Bool.true_and] at h
    exact ⟨(same_iff hout).2 h, hfits⟩

/-- What makes a search filter lose an entry. -/
def losesFilter (entries : List (Text × Value)) : Bool :=
  fits entries && naming entries
    && entries.all fun entry => entry.1 = units "__proto__" || !asksNothing entry

theorem filtersKept_iff {raw : Entries} :
    FiltersKept raw ↔ losesFilter raw.entries = false := by
  constructor
  · intro h
    by_contra hboth
    rw [Bool.not_eq_false, losesFilter, Bool.and_eq_true, Bool.and_eq_true,
      List.all_eq_true] at hboth
    obtain ⟨⟨hfits, hnaming⟩, hall⟩ := hboth
    obtain ⟨out, hout⟩ := parseFilters_accepts.2 ⟨hfits, fun entry hentry hproto => by
      simpa [hproto] using hall entry hentry⟩
    rw [(same_iff (parseFilters_ok_iff.1 hout).1).1 (h out hout).1] at hnaming
    cases hnaming
  · intro h out hout
    obtain ⟨hfits, hasks⟩ := parseFilters_accepts.1 ⟨out, hout⟩
    obtain ⟨hparsed, hall⟩ := parseFilters_ok_iff.1 hout
    have hnaming : naming raw.entries = false := by
      by_contra hnaming
      rw [Bool.not_eq_false] at hnaming
      rw [losesFilter, hfits, hnaming, Bool.true_and, Bool.true_and, ← Bool.not_eq_true,
        List.all_eq_true] at h
      refine h fun entry hentry => ?_
      by_cases hproto : entry.1 = units "__proto__"
      · simp [hproto]
      · simp [hasks entry hentry hproto]
    have hsame := (same_iff hparsed).2 hnaming
    refine ⟨hsame, hfits, hall, fun orgId plan layers filter hfilter entry hentry => ?_⟩
    rw [← hsame.1] at hentry
    obtain ⟨tag, htag, rfl⟩ := List.mem_map.1 hentry
    exact ⟨tag, rfl, restriction_mem hfilter htag⟩

/-- Tags and filters are kept exactly where no accepted object has the key
`__proto__`. -/
theorem inputs_kept (raw : Entries) (what : String) :
    (TagsKept raw what ↔ (fits raw.entries && naming raw.entries) = false) ∧
      (FiltersKept raw ↔ losesFilter raw.entries = false) :=
  ⟨tagsKept_iff, filtersKept_iff⟩

/-- A search narrowed by one key, `__proto__`. -/
def protoFilter : Entries where
  entries := [(units "__proto__", .string (units "team-a"))]
  distinct := by decide

/-- It is accepted, and narrows nothing. -/
theorem protoFilter_lost : ¬ ∀ raw what, TagsKept raw what ∧ FiltersKept raw := by
  intro h
  have hout : parseFilters (.object protoFilter.entries) = .ok ⟨[], none⟩ := by rfl
  have hsame := ((h protoFilter "filters").2 _ hout).1.1
  cases hsame

end Nacre.Authz.MetadataInput
