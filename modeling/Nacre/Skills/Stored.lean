/-
A skill that is accepted, and the row it becomes (api/skills.ts: `insertIn`;
migrations/0036_skills.sql: `skill_versions`).

The check counts UTF-8 bytes of the contents; the table counts the bytes of
the whole map as jsonb prints it, escapes, paths and punctuation included.
What that is can be said of the files alone (`octets_jsonbText`): a byte
for each quote, backslash and line break more, five for any other control
character, eight a file.

So an accepted skill becomes a row unless it is printed in more than
1310720 bytes, or one of its strings has a lone surrogate, which jsonb does
not hold. And the row has all files unless one is at `__proto__`.
-/
import Nacre.Skills.Identity

namespace Nacre.Skills

open Json (unit units)
open Units (isWellFormed)

variable {files : List File} {skill : Skill} {text : List UInt16} {c : Char} {cs ds : List Char}

-- ================================================================= jsonb

/-- A string jsonb holds: no NUL, no lone surrogate. -/
def isStorable (text : List UInt16) : Bool := isWellFormed text && !text.contains 0

/-- A field of the map, as jsonb has it. -/
def castField (field : List UInt16 × Json) : Option (String × String) :=
  match field.2 with
  | .string text =>
      if isStorable field.1 && isStorable text then some (said field.1, said text) else none
  | _ => none

/-- `JSON.stringify(files)::jsonb`, for a map of strings; `none` for the
error the cast raises. -/
def castJsonb : Json → Option (List (String × String))
  | .object fields => fields.mapM castField
  | _ => none

def hexChar (n : Nat) : Char := Char.ofNat (if n < 10 then 48 + n else 87 + n)

/-- A character in jsonb's text. -/
def escapeChar (c : Char) : List Char :=
  if c = '\x08' then ['\\', 'b']
  else if c = '\x0c' then ['\\', 'f']
  else if c = '\n' then ['\\', 'n']
  else if c = '\r' then ['\\', 'r']
  else if c = '\t' then ['\\', 't']
  else if c = '"' then ['\\', '"']
  else if c = '\\' then ['\\', '\\']
  else if c.toNat < 0x20 then ['\\', 'u', '0', '0', hexChar (c.toNat / 16), hexChar (c.toNat % 16)]
  else [c]

def jsonbString (s : String) : List Char := '"' :: (s.toList.flatMap escapeChar ++ ['"'])

def jsonbField (field : String × String) : List Char :=
  jsonbString field.1 ++ ':' :: ' ' :: jsonbString field.2

/-- `files::text` -/
def jsonbText (fields : List (String × String)) : List Char :=
  '\x7b' :: ([',', ' '].intercalate (fields.map jsonbField) ++ ['\x7d'])

/-- `octet_length`, in UTF-8. -/
def octets (cs : List Char) : Nat := (cs.map Char.utf8Size).sum

-- =================================================================== the row

/-- The columns of `skill_versions` that are the skill's. -/
structure SkillRow where
  version : Nat
  files : List (String × String)
  name : String
  description : String
  hasScripts : Bool

/-- The row the insert sends, where the cast raises nothing. -/
def rowOf (basedOn : Nat) (skill : Skill) : Option SkillRow :=
  (castJsonb skill.files).map fun files =>
    ⟨basedOn + 1, files, skill.name, skill.description, skill.hasScripts⟩

/-- `name ~ '^[a-z0-9]+(-[a-z0-9]+)*$'` -/
def nameMatches (name : String) : Bool :=
  (name.toList.splitOn '-').all fun part => part ≠ [] &&
    part.all fun c => ('a' ≤ c && c ≤ 'z') || ('0' ≤ c && c ≤ '9')

/-- The constraints of the table. -/
structure SkillRow.Valid (row : SkillRow) : Prop where
  version : 1 ≤ row.version
  size : octets (jsonbText row.files) ≤ 1310720
  named : nameMatches row.name = true ∧ row.name.length ≤ 64
  described : 1 ≤ row.description.length ∧ row.description.length ≤ 1024
  written : row.files ≠ []

-- ============================================================== what is added

/-- What a character adds to its own bytes. -/
def extra (c : Char) : Nat :=
  if c.toNat ∈ [8, 9, 10, 12, 13, 34, 92] then 1 else if c.toNat < 0x20 then 5 else 0

@[simp] theorem octets_append (cs ds : List Char) : octets (cs ++ ds) = octets cs + octets ds := by
  rw [octets, List.map_append, List.sum_append]
  rfl

@[simp] theorem octets_cons (c : Char) (cs : List Char) : octets (c :: cs) = c.utf8Size + octets cs := rfl

theorem octets_escapeChar (c : Char) : octets (escapeChar c) = c.utf8Size + extra c := by
  have hascii : ∀ n < 128, octets (escapeChar (Char.ofNat n))
      = (Char.ofNat n).utf8Size + extra (Char.ofNat n) := by
    decide +kernel
  by_cases hlow : c.toNat < 128
  · have h := hascii c.toNat hlow
    rwa [Char.ofNat_toNat] at h
  · have hne : ∀ d : Char, d.toNat < 128 → c ≠ d := by
      rintro d hd rfl
      exact hlow hd
    have hextra : extra c = 0 := by
      rw [extra, if_neg, if_neg (by omega)]
      simp only [List.mem_cons, List.not_mem_nil, or_false]
      omega
    rw [escapeChar, if_neg (hne _ (by decide)), if_neg (hne _ (by decide)),
      if_neg (hne _ (by decide)), if_neg (hne _ (by decide)), if_neg (hne _ (by decide)),
      if_neg (hne _ (by decide)), if_neg (hne _ (by decide)), if_neg (by omega), hextra]
    rfl

/-- What a unit adds to the bytes of its text. -/
def extraUnit (u : UInt16) : Nat :=
  if u.toNat ∈ [8, 9, 10, 12, 13, 34, 92] then 1 else if u.toNat < 0x20 then 5 else 0

/-- The bytes of a text as jsonb prints it, without the quotes. -/
def printedSize (text : List UInt16) : Nat := byteLength text + (text.map extraUnit).sum

theorem extra_high {c : Char} (h : 128 ≤ c.toNat) : extra c = 0 := by
  rw [extra, if_neg, if_neg (by omega)]
  simp only [List.mem_cons, List.not_mem_nil, or_false]
  omega

theorem extraUnit_high {u : UInt16} (h : 128 ≤ u.toNat) : extraUnit u = 0 := by
  rw [extraUnit, if_neg, if_neg (by omega)]
  simp only [List.mem_cons, List.not_mem_nil, or_false]
  omega

theorem extra_unit {u : UInt16} (h : ¬ (0xD800 ≤ u ∧ u < 0xE000)) :
    extra (Char.ofNat u.toNat) = extraUnit u := by
  have hvalid : u.toNat.isValidChar := by
    have hlt : u.toNat < 65536 := u.toNat_lt
    rw [UInt16.le_iff_toNat_le, UInt16.lt_iff_toNat_lt] at h
    by_cases hlow : u.toNat < 0xD800
    · exact .inl hlow
    · refine .inr ⟨?_, by omega⟩
      have hge : ¬ u.toNat < 0xE000 := fun hlt => h ⟨Nat.le_of_not_lt hlow, hlt⟩
      omega
  have hnat : (Char.ofNat u.toNat).toNat = u.toNat := by
    rw [Char.ofNat, dif_pos hvalid]
    rfl
  rw [extra, extraUnit, hnat]

theorem sum_extra (text : List UInt16) :
    ((Js.scalars text).map extra).sum = (text.map extraUnit).sum := by
  have hreplacement : extra Js.replacement = 0 := by decide
  have hlone : ∀ u : UInt16, 0xD800 ≤ u → extraUnit u = 0 := by
    intro u hu
    refine extraUnit_high ?_
    rw [UInt16.le_iff_toNat_le] at hu
    exact le_trans (by decide) hu
  induction text using Js.scalars.induct with
  | case1 => rfl
  | case2 u =>
      by_cases hu : 0xD800 ≤ u ∧ u < 0xE000
      · simp [Js.scalars, hu, hreplacement, hlone u hu.1]
      · simp [Js.scalars, hu, extra_unit hu]
  | case3 u v rest hpair ih =>
      have hchar : extra (Char.ofNat (0x10000 + (u.toNat - 0xD800) * 0x400 + (v.toNat - 0xDC00))) = 0 := by
        have hnat : 0xD800 ≤ u.toNat ∧ u.toNat < 0xDC00 ∧ 0xDC00 ≤ v.toNat ∧ v.toNat < 0xE000 :=
          hpair
        refine extra_high ?_
        rw [Char.ofNat, dif_pos (Or.inr ⟨by omega, by omega⟩)]
        show 128 ≤ 0x10000 + (u.toNat - 0xD800) * 0x400 + (v.toNat - 0xDC00)
        omega
      rw [Js.scalars, if_pos hpair, List.map_cons, List.sum_cons, hchar, ih, List.map_cons,
        List.map_cons, List.sum_cons, List.sum_cons, hlone u hpair.1,
        hlone v (UInt16.le_trans (by decide) hpair.2.2.1)]
      simp
  | case4 u v rest hpair hu ih =>
      rw [Js.scalars, if_neg hpair, if_pos hu, List.map_cons, List.sum_cons, hreplacement, ih]
      show _ = extraUnit u + ((v :: rest).map extraUnit).sum
      rw [hlone u hu.1]
  | case5 u v rest hpair hu ih =>
      rw [Js.scalars, if_neg hpair, if_neg hu, List.map_cons, List.sum_cons, extra_unit hu, ih]
      rfl

/-- A string as jsonb prints it: its bytes, the escapes, two quotes. -/
theorem octets_jsonbString (text : List UInt16) :
    octets (jsonbString (said text)) = printedSize text + 2 := by
  have hescaped : ∀ cs : List Char, octets (cs.flatMap escapeChar)
      = (cs.map Char.utf8Size).sum + (cs.map extra).sum := by
    intro cs
    induction cs with
    | nil => rfl
    | cons c cs ih =>
        rw [List.flatMap_cons, octets_append, octets_escapeChar, ih]
        simp only [List.map_cons, List.sum_cons]
        omega
  have hbytes : byteLength text = ((Js.scalars text).map Char.utf8Size).sum := by
    have hlen := length_dataBytes (([], text) : File)
    rw [dataBytes, Utf8.bytesOf_eq] at hlen
    rw [← hlen, List.length_flatMap]
    simp only [String.length_utf8EncodeChar]
  have hlist : (said text).toList = Js.scalars text := by
    rw [said, Js.toWellFormed, String.toList_ofList]
  rw [jsonbString, octets_cons, octets_append, hlist, hescaped, sum_extra, ← hbytes, printedSize]
  have hquote : Char.utf8Size '"' = 1 := by decide
  simp only [octets_cons, hquote]
  show 1 + (byteLength text + (text.map extraUnit).sum + (1 + 0)) = _
  omega

/-- A map as jsonb prints it. -/
def mapSize (files : List File) : Nat :=
  (files.map fun f => printedSize f.1 + printedSize f.2 + 8).sum

/-- The fields a map of texts is stored as. -/
def fieldsOf (files : List File) : List (String × String) :=
  files.map fun f => (said f.1, said f.2)

theorem octets_jsonbText (hne : files ≠ []) : octets (jsonbText (fieldsOf files)) = mapSize files := by
  have hfield : ∀ f : File, octets (jsonbField (said f.1, said f.2))
      = printedSize f.1 + printedSize f.2 + 6 := by
    intro f
    have hcolon : Char.utf8Size ':' = 1 := by decide
    have hspace : Char.utf8Size ' ' = 1 := by decide
    rw [jsonbField, octets_append, octets_cons, octets_cons, octets_jsonbString,
      octets_jsonbString, hcolon, hspace]
    omega
  have hjoined : octets ([',', ' '].intercalate ((fieldsOf files).map jsonbField)) + 2
      = mapSize files := by
    induction files with
    | nil => exact absurd rfl hne
    | cons f files ih =>
        cases files with
        | nil =>
            simp only [fieldsOf, List.map_cons, List.map_nil, List.intercalate_singleton, mapSize,
              List.sum_cons, List.sum_nil, hfield]
            rfl
        | cons g files =>
            have hrest := ih (List.cons_ne_nil _ _)
            have hcomma : octets [',', ' '] = 2 := by decide
            simp only [fieldsOf, List.map_cons, List.intercalate_cons_cons, octets_append, hfield,
              hcomma, mapSize, List.sum_cons] at hrest ⊢
            omega
  have hopen : Char.utf8Size '\x7b' = 1 := by decide
  have hclose : octets ['\x7d'] = 1 := by decide
  rw [jsonbText, octets_cons, octets_append, hopen, hclose]
  omega

-- ============================================================ what is accepted

theorem castJsonb_files (h : ∀ f ∈ files, isStorable f.1 = true ∧ isStorable f.2 = true) :
    castJsonb (filesJson files) = some (fieldsOf files) := by
  show (files.map entryOf).mapM castField = some (fieldsOf files)
  induction files with
  | nil => rfl
  | cons f files ih =>
      obtain ⟨⟨hpath, htext⟩, hfiles⟩ := List.forall_mem_cons.mp h
      have hfield : castField (entryOf f) = some (said f.1, said f.2) := by
        simp [castField, entryOf, hpath, htext]
      rw [List.map_cons, List.mapM_cons, hfield, ih hfiles]
      rfl

theorem storable_of_cast {fields : List (String × String)}
    (h : castJsonb (filesJson files) = some fields) :
    ∀ f ∈ files, isStorable f.1 = true ∧ isStorable f.2 = true := by
  change (files.map entryOf).mapM castField = some fields at h
  induction files generalizing fields with
  | nil => exact nofun
  | cons f files ih =>
      rw [List.map_cons, List.mapM_cons] at h
      obtain ⟨field, hfield, h⟩ := Option.bind_eq_some_iff.mp h
      obtain ⟨rest, hrest, -⟩ := Option.bind_eq_some_iff.mp h
      intro g hg
      rcases List.mem_cons.mp hg with rfl | hg
      · by_contra hnot
        rw [← Bool.and_eq_true] at hnot
        simp [castField, entryOf, eq_false_of_ne_true hnot] at hfield
      · exact ih hrest g hg

theorem checkFields_inv {fields : List (List UInt16 × List UInt16)}
    (h : checkFields fields files = .skill skill) :
    ∃ name description, skill.name = said name ∧ skill.description = said description
      ∧ isName name = true ∧ name.length ≤ SKILL_LIMITS.nameLength
      ∧ description ≠ [] ∧ description.length ≤ SKILL_LIMITS.descriptionLength := by
  unfold checkFields at h
  simp only at h
  split at h
  next => cases h
  next =>
    split at h
    next => cases h
    next hlen =>
      split at h
      next => cases h
      next hname =>
        split at h
        next => cases h
        next =>
          split at h
          next => cases h
          next hdescription =>
            split at h
            next => cases h
            next hlong =>
              split at h
              next => cases h
              next =>
                cases h
                refine ⟨_, _, rfl, rfl, ?_, Nat.le_of_not_lt hlen, hdescription,
                  Nat.le_of_not_lt hlong⟩
                simpa using hname

theorem checkMain_fields {count : Nat} (h : checkMain count files = .skill skill) :
    ∃ fields, checkFields fields files = .skill skill := by
  unfold checkMain at h
  split at h
  next => cases h
  next =>
    split at h
    next => cases h
    next read _ =>
      split at h
      next => split at h <;> cases h
      next => exact ⟨read.fields, h⟩

theorem scalars_length (text : List UInt16) : (Js.scalars text).length ≤ text.length
    ∧ (text ≠ [] → 1 ≤ (Js.scalars text).length) := by
  induction text using Js.scalars.induct with
  | case1 => exact ⟨le_refl _, fun h => absurd rfl h⟩
  | case2 u => exact ⟨le_refl _, fun _ => le_refl _⟩
  | case3 u v rest hpair ih =>
      rw [Js.scalars, if_pos hpair]
      simp only [List.length_cons]
      exact ⟨by omega, fun _ => by omega⟩
  | case4 u v rest hpair hu ih =>
      rw [Js.scalars, if_neg hpair, if_pos hu]
      simp only [List.length_cons] at ih ⊢
      exact ⟨by omega, fun _ => by omega⟩
  | case5 u v rest hpair hu ih =>
      rw [Js.scalars, if_neg hpair, if_neg hu]
      simp only [List.length_cons] at ih ⊢
      exact ⟨by omega, fun _ => by omega⟩

/-- A unit that is no surrogate, as a character. -/
def charOf (u : UInt16) : Char := Char.ofNat u.toNat

theorem scalars_plain (h : ∀ u ∈ text, Utf8.Plain u) : Js.scalars text = text.map charOf := by
  induction text with
  | nil => rfl
  | cons u text ih =>
      obtain ⟨hu, htext⟩ := List.forall_mem_cons.mp h
      rw [Js.scalars_cons_plain (Utf8.plain_iff.mp hu), ih htext]
      rfl

/-- The same pattern, on the characters. -/
theorem nameMatches_said {name : List UInt16} (h : isName name = true) :
    nameMatches (said name) = true := by
  have hplain := (folder_of_name h).plain
  have hunit : ∀ n < 128, isNameUnit (UInt16.ofNat n) = true →
      ((('a' ≤ Char.ofNat n && Char.ofNat n ≤ 'z') || ('0' ≤ Char.ofNat n && Char.ofNat n ≤ '9'))
        = true ∧ Char.ofNat n ≠ '-') := by
    decide +kernel
  have hchar : ∀ u, isNameUnit u = true →
      (('a' ≤ charOf u && charOf u ≤ 'z') || ('0' ≤ charOf u && charOf u ≤ '9')) = true
        ∧ charOf u ≠ '-' := by
    intro u hu
    have hlow : u.toNat < 128 := by
      simp only [isNameUnit, Bool.or_eq_true, Bool.and_eq_true, decide_eq_true_eq,
        UInt16.le_iff_toNat_le] at hu
      have hz : (unit 'z').toNat = 122 := rfl
      have h9 : (unit '9').toNat = 57 := rfl
      omega
    have hof := hunit u.toNat hlow
    rw [UInt16.ofNat_toNat] at hof
    exact hof hu
  rw [isName, List.all_eq_true] at h
  have hparts : ∀ part ∈ name.splitOn (unit '-'), part ≠ [] ∧ ∀ u ∈ part, isNameUnit u = true := by
    intro part hpart
    have hall := h part hpart
    rw [Bool.and_eq_true, List.all_eq_true, decide_eq_true_eq] at hall
    exact hall
  have hlist : (said name).toList
      = ['-'].intercalate ((name.splitOn (unit '-')).map (List.map charOf)) := by
    rw [said, Js.toWellFormed, String.toList_ofList, scalars_plain hplain]
    conv_lhs => rw [← (List.intercalate_splitOn (unit '-') :
      [unit '-'].intercalate (name.splitOn (unit '-')) = name)]
    exact Find.map_intercalate charOf (unit '-') _
  rw [nameMatches, hlist, List.splitOn_intercalate]
  · rw [List.all_eq_true]
    intro chars hchars
    obtain ⟨part, hpart, rfl⟩ := List.mem_map.mp hchars
    obtain ⟨hne, hall⟩ := hparts part hpart
    rw [Bool.and_eq_true, List.all_eq_true, decide_eq_true_eq]
    refine ⟨by simpa using hne, fun c hc => ?_⟩
    obtain ⟨u, hu, rfl⟩ := List.mem_map.mp hc
    exact (hchar u (hall u hu)).1
  · intro chars hchars hmem
    obtain ⟨part, hpart, rfl⟩ := List.mem_map.mp hchars
    obtain ⟨u, hu, heq⟩ := List.mem_map.mp hmem
    exact (hchar u ((hparts part hpart).2 u hu)).2 heq
  · simp

theorem length_said (text : List UInt16) : (said text).length = (Js.scalars text).length := by
  rw [said, Js.toWellFormed, String.length_ofList]

-- ============================================================== the guarantee

/-- An accepted folder becomes a row with all its files, one that every
constraint of the table admits. -/
def StoredWhole (basedOn : Nat) (files : List File) (skill : Skill) : Prop :=
  skill.files = filesJson files ∧ ∃ row, rowOf basedOn skill = some row ∧ row.Valid

theorem no_nul_in_path {path : List UInt16} (h : skillPathError path = none) : (0 : UInt16) ∉ path := by
  unfold skillPathError at h
  split at h
  next => cases h
  next =>
    split at h
    next => cases h
    next =>
      split at h
      next => cases h
      next =>
        split at h
        next => cases h
        next =>
          split at h
          next => cases h
          next hcontrol =>
            intro hmem
            exact hcontrol (List.any_eq_true.mpr ⟨0, hmem, by decide⟩)

theorem isStorable_iff (h : (0 : UInt16) ∉ text) : isStorable text = isWellFormed text := by
  rw [isStorable, List.contains_eq_mem, decide_eq_false h]
  exact Bool.and_true _

theorem stored_files {entries : List File} {skill : Skill} (hdistinct : (entries.map (·.1)).Nodup)
    (hskill : checkSkill (filesJson entries) = .skill skill) :
    skill.files = filesJson entries ↔ ∀ f ∈ entries, f.1 ≠ units "__proto__" := by
  have hkeys : (entries.map entryOf).map (·.1) = entries.map (·.1) := by
    rw [List.map_map]
    rfl
  let input : Files := ⟨entries.map entryOf, by rw [hkeys]; exact hdistinct⟩
  have hfiles : skill.files = input.json ↔ units "__proto__" ∉ input.entries.map (·.1) :=
    checkSkill_files hskill
  rw [show filesJson entries = input.json from rfl, hfiles]
  show units "__proto__" ∉ (entries.map entryOf).map (·.1) ↔ _
  rw [hkeys, List.mem_map, not_exists]
  exact ⟨fun h f hf hname => h f ⟨hf, hname⟩, fun h f hf => h f hf.1 hf.2⟩

theorem storable_passed {entries : List File} {skill : Skill}
    (hskill : checkSkill (filesJson entries) = .skill skill) :
    ∀ f ∈ entries, isStorable f.1 = isWellFormed f.1 ∧ isStorable f.2 = isWellFormed f.2 := by
  obtain ⟨fields, copied, total, hentries, -, -, hread, -⟩ := checkSkill_inv hskill
  cases hentries
  intro f hf
  have hpasses := (readFiles_passed hread).1 f hf
  exact ⟨isStorable_iff (no_nul_in_path hpasses.path), isStorable_iff hpasses.text⟩

theorem skill_shape {entries : List File} {skill : Skill}
    (hskill : checkSkill (filesJson entries) = .skill skill) :
    entries ≠ [] ∧ nameMatches skill.name = true ∧ skill.name.length ≤ 64
      ∧ 1 ≤ skill.description.length ∧ skill.description.length ≤ 1024 := by
  obtain ⟨fields, copied, total, hentries, -, -, hread, hmain⟩ := checkSkill_inv hskill
  cases hentries
  have hne : entries ≠ [] := by
    rintro rfl
    cases hskill
  obtain ⟨read, hfields⟩ := checkMain_fields hmain
  obtain ⟨name, description, hname, hdescription, hmatches, hlen, hnonempty, hlong⟩ :=
    checkFields_inv hfields
  have hlimits : SKILL_LIMITS.nameLength = 64 ∧ SKILL_LIMITS.descriptionLength = 1024 := ⟨rfl, rfl⟩
  obtain ⟨hshorter, -⟩ := scalars_length name
  obtain ⟨hfewer, hpos⟩ := scalars_length description
  have hone := hpos hnonempty
  rw [hname, hdescription, length_said, length_said]
  exact ⟨hne, nameMatches_said hmatches, by omega, hone, by omega⟩

/-- Whole, where nothing is lost on the way, everything can be stored and
what is printed is small enough; and nowhere else. -/
theorem stored_iff (basedOn : Nat) {files : List File} {skill : Skill}
    (hdistinct : (files.map (·.1)).Nodup) (hskill : checkSkill (filesJson files) = .skill skill) :
    StoredWhole basedOn files skill ↔
      (∀ f ∈ files, f.1 ≠ units "__proto__")
        ∧ (∀ f ∈ files, isWellFormed f.1 = true ∧ isWellFormed f.2 = true)
        ∧ mapSize files ≤ 1310720 := by
  have hstorable := storable_passed hskill
  obtain ⟨hne, hname, hlen, hone, hlong⟩ := skill_shape hskill
  rw [StoredWhole, stored_files hdistinct hskill]
  refine and_congr_right fun hproto => ?_
  have hfiles := (stored_files hdistinct hskill).mpr hproto
  constructor
  · rintro ⟨row, hrow, hvalid⟩
    obtain ⟨fields, hcast, rfl⟩ := Option.map_eq_some_iff.mp hrow
    rw [hfiles] at hcast
    have hall := storable_of_cast hcast
    rw [castJsonb_files hall] at hcast
    cases hcast
    refine ⟨fun f hf => ?_, ?_⟩
    · obtain ⟨hpath, htext⟩ := hall f hf
      rw [← (hstorable f hf).1, ← (hstorable f hf).2]
      exact ⟨hpath, htext⟩
    · rw [← octets_jsonbText hne]
      exact hvalid.size
  · rintro ⟨hwell, hsize⟩
    have hall : ∀ f ∈ files, isStorable f.1 = true ∧ isStorable f.2 = true := by
      intro f hf
      rw [(hstorable f hf).1, (hstorable f hf).2]
      exact hwell f hf
    refine ⟨⟨basedOn + 1, fieldsOf files, skill.name, skill.description, skill.hasScripts⟩, ?_, ?_⟩
    · rw [rowOf, hfiles, castJsonb_files hall]
      rfl
    · refine ⟨Nat.le_add_left _ _, ?_, ⟨hname, hlen⟩, ⟨hone, hlong⟩, ?_⟩
      · rw [octets_jsonbText hne]
        exact hsize
      · simpa [fieldsOf] using hne

theorem stored_plain : StoredWhole 0 plainFiles plainSkill ↔
    (∀ f ∈ plainFiles, f.1 ≠ units "__proto__")
      ∧ (∀ f ∈ plainFiles, isWellFormed f.1 = true ∧ isWellFormed f.2 = true)
      ∧ mapSize plainFiles ≤ 1310720 :=
  stored_iff 0 (by decide)
    (show checkSkill (filesJson plainFiles) = .skill plainSkill by decide +kernel)

/-- A small skill with half of a pair in a note. -/
def loneFiles : List File := plainFiles ++ [(units "n", [0xD800])]

def loneSkill : Skill := ⟨"a", "b", false, filesJson loneFiles⟩

/-- It is accepted, and the insert raises. -/
theorem stored_lone : (loneFiles.map (·.1)).Nodup
    ∧ checkSkill (filesJson loneFiles) = .skill loneSkill ∧ rowOf 0 loneSkill = none
    ∧ ¬ StoredWhole 0 loneFiles loneSkill := by
  have hnone : rowOf 0 loneSkill = none := by
    have hcast : castJsonb loneSkill.files = none := by
      by_contra hsome
      obtain ⟨fields, hfields⟩ := Option.ne_none_iff_exists'.mp hsome
      have htext := (storable_of_cast hfields (units "n", [0xD800]) (by decide)).2
      exact absurd htext (by decide)
    rw [rowOf, hcast]
    rfl
  refine ⟨by decide, by decide +kernel, hnone, ?_⟩
  rintro ⟨-, row, hrow, -⟩
  rw [hnone] at hrow
  cases hrow

end Nacre.Skills
