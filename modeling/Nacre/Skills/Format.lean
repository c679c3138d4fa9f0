/-
What is a skill (core/skill.ts: `checkSkill`, `readFrontmatter`).

A folder is an object of path to text. The loop checks each file and
copies it; `SKILL.md` opens with frontmatter, of which `name` and
`description` are read.

# What is copied

The copy is written by assignment, `files[path] = content`. Assigning to
`__proto__` sets the prototype and stores nothing, so a file at that path
passes every check and is not in the skill. `checkSkill_files`: nothing
else is lost. What was copied is a skill again, the same one
(`checkSkill_again`).
-/
import Nacre.Lib.Find
import Nacre.Lib.Js
import Nacre.Lib.Units
import Nacre.Skills.Versions

namespace Nacre.Skills

open Json (unit units)

def SKILL_FILE : String := "SKILL.md"

namespace SKILL_LIMITS

def files : Nat := 64
def fileBytes : Nat := 256 * 1024
def totalBytes : Nat := 1024 * 1024
def pathLength : Nat := 256
def nameLength : Nat := 64
def descriptionLength : Nat := 1024

end SKILL_LIMITS

/-- A path, or a text, inside a message. -/
def said (text : List UInt16) : String := Js.toWellFormed text

/-- `Buffer.byteLength(content, 'utf8')`. -/
def byteLength (content : List UInt16) : Nat := (Js.encode content).size

-- =============================================================== a path

def isControl (u : UInt16) : Bool := u < 0x20 || u = 0x7F

def segmentError (path : List UInt16) : List (List UInt16) → Option String
  | [] => none
  | segment :: rest =>
      if segment = [] then some s!"{said path}: a path has an empty segment"
      else if segment = units "." ∨ segment = units ".." then
        some s!"{said path}: a path may not contain \"{said segment}\""
      else segmentError path rest

def skillPathError (path : List UInt16) : Option String :=
  if path.length = 0 then some "a file has an empty path"
  else if path.length > SKILL_LIMITS.pathLength then
    some s!"{said (path.take 40)}…: a path is at most {SKILL_LIMITS.pathLength} characters"
  else if units "/" <+: path then some s!"{said path}: paths are relative to the skill's folder"
  else if unit '\\' ∈ path then some s!"{said path}: paths use forward slashes"
  else if path.any isControl then some s!"{said path}: a path carries a control character"
  else segmentError path (path.splitOn (unit '/'))

-- ========================================================== frontmatter

def startsBlock (value : List UInt16) : Bool :=
  value = units "|" || value = units ">" || value = units "|-" || value = units ">-"

/-- A line that goes on a block: indented, or empty. -/
def inBlock (line : List UInt16) : Bool := line.head?.all Units.isSpace

def startsAndEnds (quote : UInt16) (value : List UInt16) : Bool :=
  value.head? = some quote && value.getLast? = some quote && 2 ≤ value.length

/-- `value.slice(1, -1)`. -/
def inner (value : List UInt16) : List UInt16 := (value.drop 1).dropLast

/-- The value of a block, given its lines. -/
def blockValue (value : List UInt16) (lines : List (List UInt16)) : List UInt16 :=
  let block := lines.map Units.trim
  if units "|" <+: value then Units.trim ((units "\n").intercalate block)
  else Units.trim ((units " ").intercalate (block.filter (· ≠ [])))

/-- The value of one line. -/
def lineValue (value : List UInt16) : List UInt16 :=
  if startsAndEnds (unit '"') value then
    let value := Find.replacePair (unit '\\') (unit '"') (units "\"") (inner value)
    let value := Find.replacePair (unit '\\') (unit 'n') (units "\n") value
    Find.replacePair (unit '\\') (unit '\\') (units "\\") value
  else if startsAndEnds (unit '\'') value then
    Find.replacePair (unit '\'') (unit '\'') (units "'") (inner value)
  else value

/-- An object used as a map: `__proto__` is not a key of it. -/
def assign {β : Type} (fields : List (List UInt16 × β)) (key : List UInt16) (value : β) :
    List (List UInt16 × β) :=
  if key = units "__proto__" then fields else Js.mapSet fields key value

def field {β : Type} (fields : List (List UInt16 × β)) (key : String) : Option β :=
  (fields.find? (·.1 = units key)).map (·.2)

/-- The lines from the `i`-th on, `skip` of them in a block already read. -/
def readLines (i skip : Nat) (fields : List (List UInt16 × List UInt16)) :
    List (List UInt16) → Except String (List (List UInt16 × List UInt16))
  | [] => .ok fields
  | line :: rest =>
      if 0 < skip then readLines (i + 1) (skip - 1) fields rest
      else if Units.trim line = [] ∨ units "#" <+: Units.trimStart line then
        readLines (i + 1) 0 fields rest
      else if line.head?.any Units.isSpace then readLines (i + 1) 0 fields rest
      else
        match Find.indexOf (units ":") line with
        | none | some 0 => .error s!"SKILL.md frontmatter line {i + 2} is not \"key: value\""
        | some colon =>
            let key := Units.trim (line.take colon)
            let value := Units.trim (line.drop (colon + 1))
            if startsBlock value then
              let block := rest.takeWhile inBlock
              readLines (i + 1) block.length (assign fields key (blockValue value block)) rest
            else readLines (i + 1) 0 (assign fields key (lineValue value)) rest

structure Frontmatter where
  fields : List (List UInt16 × List UInt16)
  body : List UInt16
  deriving DecidableEq

def readFrontmatter (text : List UInt16) : Except String Frontmatter :=
  let text := if text.head? = some 0xFEFF then text.drop 1 else text
  let normalized := Find.replacePair (unit '\r') (unit '\n') (units "\n") text
  if ¬ units "---\n" <+: normalized then
    .error "SKILL.md must open with frontmatter: a line of \"---\", name and description, and \"---\""
  else
    match Find.indexFrom (units "\n---") normalized 4 with
    | none => .error "SKILL.md opens frontmatter and never closes it with \"---\""
    | some end_ =>
        let body := match Find.indexFrom (units "\n") normalized (end_ + 4) with
          | none => []
          | some afterClose => normalized.drop (afterClose + 1)
        match readLines 0 0 [] (((normalized.take end_).drop 4).splitOn (unit '\n')) with
        | .error reason => .error reason
        | .ok fields => .ok ⟨fields, body⟩

-- ============================================================== a skill

def isNameUnit (u : UInt16) : Bool :=
  (unit 'a' ≤ u && u ≤ unit 'z') || (unit '0' ≤ u && u ≤ unit '9')

/-- `/^[a-z0-9]+(-[a-z0-9]+)*$/`. -/
def isName (name : List UInt16) : Bool :=
  (name.splitOn (unit '-')).all fun part => part ≠ [] && part.all isNameUnit

/-- `/anthropic|claude/`. -/
def isReserved (name : List UInt16) : Bool :=
  (Find.indexOf (units "anthropic") name).isSome || (Find.indexOf (units "claude") name).isSome

def isLetter (u : UInt16) : Bool :=
  (unit 'A' ≤ u && u ≤ unit 'Z') || (unit 'a' ≤ u && u ≤ unit 'z')

/-- `/<\/?[A-Za-z][^>]*>/`. -/
def hasXmlTag : List UInt16 → Bool
  | [] => false
  | u :: rest =>
      let name := if rest.head? = some (unit '/') then rest.drop 1 else rest
      (u = unit '<' && name.head?.any isLetter && name.contains (unit '>')) || hasXmlTag rest

/-- The loop over the entries. -/
def readFiles : List (List UInt16 × Json) → List (List UInt16 × List UInt16) → Nat →
    Except String (List (List UInt16 × List UInt16) × Nat)
  | [], files, total => .ok (files, total)
  | (path, content) :: rest, files, total =>
      match skillPathError path with
      | some pathError => .error pathError
      | none =>
          match content with
          | .string content =>
              if 0 ∈ content then
                .error s!"{said path}: binary files are not accepted, only text"
              else if byteLength content > SKILL_LIMITS.fileBytes then
                .error s!"{said path}: a file is at most {SKILL_LIMITS.fileBytes / 1024} KiB, and this is {(byteLength content + 1023) / 1024} KiB"
              else readFiles rest (assign files path content) (total + byteLength content)
          | _ => .error s!"{said path}: a file's content must be text"

/-- A file as a field of an object. -/
def entryOf (file : List UInt16 × List UInt16) : List UInt16 × Json := (file.1, .string file.2)

def filesJson (files : List (List UInt16 × List UInt16)) : Json := .object (files.map entryOf)

/-- The name and the description, and the skill they make. -/
def checkFields (fields : List (List UInt16 × List UInt16))
    (files : List (List UInt16 × List UInt16)) : SkillCheck :=
  let name := (field fields "name").getD []
  let description := (field fields "description").getD []
  if name = [] then .refused s!"{SKILL_FILE} frontmatter has no name"
  else if name.length > SKILL_LIMITS.nameLength then
    .refused s!"name is at most {SKILL_LIMITS.nameLength} characters"
  else if !isName name then
    .refused "name is lower case letters, digits and single hyphens, like \"handbook-layer\""
  else if isReserved name then
    .refused "name may not contain \"anthropic\" or \"claude\" — Claude refuses such a skill"
  else if description = [] then
    .refused s!"{SKILL_FILE} frontmatter has no description, and it is what an agent reads to decide to use the skill"
  else if description.length > SKILL_LIMITS.descriptionLength then
    .refused s!"description is at most {SKILL_LIMITS.descriptionLength} characters"
  else if hasXmlTag description then
    .refused "description may not contain XML tags — Claude refuses such a skill"
  else
    .skill ⟨said name, said description, files.any fun f => units "scripts/" <+: f.1,
      filesJson files⟩

/-- What is asked of `SKILL.md`, in a folder of `count` entries. -/
def checkMain (count : Nat) (files : List (List UInt16 × List UInt16)) : SkillCheck :=
  match field files SKILL_FILE with
  | none => .refused s!"a skill needs {SKILL_FILE} at the top of its folder"
  | some main =>
      match readFrontmatter main with
      | .error reason => .refused reason
      | .ok read =>
          if Units.trim read.body = [] then
            if count = 1 then .cleared
            else
              .refused s!"{SKILL_FILE} has no body, but the folder has other files; an empty skill is cleared by sending no files"
          else checkFields read.fields files

def checkSkill : Json → SkillCheck
  | .object entries =>
      if entries.length = 0 then .cleared
      else if entries.length > SKILL_LIMITS.files then
        .refused s!"a skill has at most {SKILL_LIMITS.files} files, and this has {entries.length}"
      else
        match readFiles entries [] 0 with
        | .error reason => .refused reason
        | .ok (files, total) =>
            if total > SKILL_LIMITS.totalBytes then
              .refused s!"a skill is at most {SKILL_LIMITS.totalBytes / 1024} KiB in all, and this is {(total + 1023) / 1024} KiB"
            else checkMain entries.length files
  | _ => .refused "files must be an object of path to text"

-- ============================================================= the copy

section Copy

variable {files files' rest : List (List UInt16 × List UInt16)}
  {entries : List (List UInt16 × Json)} {path content : List UInt16} {total total' : Nat}

/-- A file the loop lets pass. -/
structure Passes (file : List UInt16 × List UInt16) : Prop where
  path : skillPathError file.1 = none
  text : 0 ∉ file.2
  size : byteLength file.2 ≤ SKILL_LIMITS.fileBytes

def sizeOf_ (files : List (List UInt16 × List UInt16)) : Nat :=
  (files.map fun f => byteLength f.2).sum

/-- What the loop has copied. -/
structure Copied (files : List (List UInt16 × List UInt16)) (count total : Nat) : Prop where
  distinct : (files.map (·.1)).Nodup
  named : ∀ f ∈ files, f.1 ≠ units "__proto__"
  passes : ∀ f ∈ files, Passes f
  count : files.length ≤ count
  total : sizeOf_ files ≤ total

theorem mapSet_mem {f : List UInt16 × List UInt16} (h : f ∈ Js.mapSet files path content) :
    f = (path, content) ∨ f ∈ files := by
  induction files with
  | nil => exact .inl (List.mem_singleton.mp h)
  | cons g rest ih =>
      unfold Js.mapSet at h
      split at h
      next hkey =>
        rcases List.mem_cons.mp h with rfl | h
        · left
          rw [eq_of_beq hkey]
        · exact .inr (List.mem_cons_of_mem _ h)
      next =>
        rcases List.mem_cons.mp h with rfl | h
        · exact .inr List.mem_cons_self
        · exact (ih h).imp id (List.mem_cons_of_mem _)

theorem mapSet_length : (Js.mapSet files path content).length ≤ files.length + 1 := by
  induction files with
  | nil => exact le_refl _
  | cons g rest ih =>
      unfold Js.mapSet
      split
      next => exact Nat.le_succ _
      next => exact Nat.succ_le_succ ih

theorem mapSet_size :
    sizeOf_ (Js.mapSet files path content) ≤ sizeOf_ files + byteLength content := by
  induction files with
  | nil => simp [Js.mapSet, sizeOf_]
  | cons g rest ih =>
      unfold Js.mapSet
      split
      next =>
        show byteLength content + sizeOf_ rest
          ≤ byteLength g.2 + sizeOf_ rest + byteLength content
        omega
      next =>
        show byteLength g.2 + sizeOf_ (Js.mapSet rest path content)
          ≤ byteLength g.2 + sizeOf_ rest + byteLength content
        omega

theorem mapSet_new (h : path ∉ files.map (·.1)) :
    Js.mapSet files path content = files ++ [(path, content)] := by
  induction files with
  | nil => rfl
  | cons g rest ih =>
      rw [List.map_cons, List.mem_cons, not_or] at h
      have hkey : ¬ (g.1 == path) = true := fun hkey => h.1 (eq_of_beq hkey).symm
      unfold Js.mapSet
      rw [if_neg hkey, ih h.2]
      rfl

theorem Copied.assign {count : Nat} (h : Copied files count total) (hp : Passes (path, content)) :
    Copied (assign files path content) (count + 1) (total + byteLength content) := by
  unfold Skills.assign
  split
  next =>
    exact ⟨h.distinct, h.named, h.passes, Nat.le_succ_of_le h.count,
      h.total.trans (Nat.le_add_right _ _)⟩
  next hname =>
    constructor
    · exact Js.nodup_keys_mapSet h.distinct
    · intro f hf
      rcases mapSet_mem hf with rfl | hf
      · exact hname
      · exact h.named f hf
    · intro f hf
      rcases mapSet_mem hf with rfl | hf
      · exact hp
      · exact h.passes f hf
    · exact mapSet_length.trans (Nat.succ_le_succ h.count)
    · exact mapSet_size.trans (Nat.add_le_add_right h.total _)

/-- One turn of the loop. -/
theorem readFiles_cons {value : Json}
    (h : readFiles ((path, value) :: entries) files total = .ok (files', total')) :
    ∃ content, value = .string content ∧ Passes (path, content) ∧
      readFiles entries (assign files path content) (total + byteLength content)
        = .ok (files', total') := by
  unfold readFiles at h
  split at h
  next => cases h
  next hpath =>
    split at h
    next content =>
      split at h
      next => cases h
      next htext =>
        split at h
        next => cases h
        next hsize => exact ⟨content, rfl, ⟨hpath, htext, Nat.le_of_not_lt hsize⟩, h⟩
    next => cases h

theorem readFiles_passes (hp : Passes (path, content)) :
    readFiles ((path, .string content) :: entries) files total
      = readFiles entries (assign files path content) (total + byteLength content) := by
  rw [readFiles]
  simp only [hp.path, if_neg hp.text, if_neg (Nat.not_lt.mpr hp.size)]

theorem readFiles_copied {count : Nat} (h : readFiles entries files total = .ok (files', total'))
    (hfiles : Copied files count total) : Copied files' (count + entries.length) total' := by
  induction entries generalizing files total count with
  | nil =>
      cases h
      exact hfiles
  | cons e entries ih =>
      obtain ⟨content, -, hpasses, h⟩ := readFiles_cons h
      have hcopied := ih h (hfiles.assign hpasses)
      rwa [Nat.add_right_comm, Nat.add_assoc] at hcopied

/-- What was copied is copied again. -/
theorem readFiles_again (hrest : ∀ f ∈ rest, Passes f ∧ f.1 ≠ units "__proto__")
    (hdistinct : ((files ++ rest).map (·.1)).Nodup) :
    readFiles (rest.map entryOf) files total = .ok (files ++ rest, total + sizeOf_ rest) := by
  induction rest generalizing files total with
  | nil => simp [readFiles, sizeOf_]
  | cons f rest ih =>
      obtain ⟨hpasses, hname⟩ := hrest f List.mem_cons_self
      have hnew : f.1 ∉ files.map (·.1) := by
        rw [List.map_append, List.nodup_append] at hdistinct
        intro hmem
        exact hdistinct.2.2 f.1 hmem f.1 (by simp) rfl
      rw [List.map_cons, entryOf, readFiles_passes hpasses, assign, if_neg hname, mapSet_new hnew,
        ih (fun g hg => hrest g (List.mem_cons_of_mem _ hg)) (by simpa using hdistinct)]
      simp [sizeOf_, Nat.add_assoc]

/-- Everything is copied, in order, but a file at `__proto__`. -/
theorem readFiles_all (h : readFiles entries files total = .ok (files', total'))
    (hdistinct : (files.map (·.1) ++ entries.map (·.1)).Nodup)
    (hname : units "__proto__" ∉ entries.map (·.1)) :
    files'.map entryOf = files.map entryOf ++ entries := by
  induction entries generalizing files total with
  | nil =>
      cases h
      rw [List.append_nil]
  | cons e entries ih =>
      obtain ⟨path, value⟩ := e
      obtain ⟨content, rfl, -, h⟩ := readFiles_cons h
      rw [List.map_cons, List.mem_cons, not_or] at hname
      have hnew : path ∉ files.map (·.1) := by
        rw [List.nodup_append] at hdistinct
        intro hmem
        exact hdistinct.2.2 path hmem path (by simp) rfl
      rw [assign, if_neg (Ne.symm hname.1), mapSet_new hnew] at h
      rw [ih h (by simpa using hdistinct) hname.2]
      simp [entryOf]

end Copy

-- ============================================================ the check

section Check

variable {files : List (List UInt16 × List UInt16)} {entries : List (List UInt16 × Json)}
  {input : Json} {skill : Skill} {count : Nat}

theorem checkFields_files {fields : List (List UInt16 × List UInt16)}
    (h : checkFields fields files = .skill skill) : skill.files = filesJson files := by
  unfold checkFields at h
  simp only at h
  repeat' split at h
  all_goals cases h
  rfl

/-- Where there is a skill, the number of files does not matter. -/
theorem checkMain_skill (h : checkMain count files = .skill skill) :
    files ≠ [] ∧ skill.files = filesJson files ∧
      ∀ count', checkMain count' files = .skill skill := by
  unfold checkMain at h
  split at h
  next => cases h
  next main hmain =>
    have hne : files ≠ [] := by
      rintro rfl
      cases hmain
    split at h
    next => cases h
    next read hread =>
      split at h
      next => split at h <;> cases h
      next hbody =>
        refine ⟨hne, checkFields_files h, fun count' => ?_⟩
        rw [checkMain, hmain]
        simp only [hread, if_neg hbody, h]

theorem checkSkill_inv (h : checkSkill input = .skill skill) :
    ∃ entries copied total, input = .object entries ∧
      entries.length ≤ SKILL_LIMITS.files ∧ total ≤ SKILL_LIMITS.totalBytes ∧
      readFiles entries [] 0 = .ok (copied, total) ∧
      checkMain entries.length copied = .skill skill := by
  unfold checkSkill at h
  split at h
  next entries =>
    split at h
    next => cases h
    next =>
      split at h
      next => cases h
      next hcount =>
        split at h
        next => cases h
        next copied total hread =>
          split at h
          next => cases h
          next htotal =>
            exact ⟨entries, copied, total, rfl, Nat.le_of_not_lt hcount, Nat.le_of_not_lt htotal,
              hread, h⟩
  next => cases h

theorem copied_nil : Copied [] 0 0 := by
  constructor <;> simp [sizeOf_]

/-- What a skill holds is a skill, the same one. -/
theorem checkSkill_again (h : checkSkill input = .skill skill) :
    checkSkill skill.files = .skill skill := by
  obtain ⟨entries, copied, total, -, hcount, htotal, hread, hmain⟩ := checkSkill_inv h
  have hcopied : Copied copied (0 + entries.length) total := readFiles_copied hread copied_nil
  obtain ⟨hne, hfiles, hmain⟩ := checkMain_skill hmain
  have hagain : readFiles (copied.map entryOf) [] 0 = .ok (copied, sizeOf_ copied) := by
    have hpass : ∀ f ∈ copied, Passes f ∧ f.1 ≠ units "__proto__" :=
      fun f hf => ⟨hcopied.passes f hf, hcopied.named f hf⟩
    have hdistinct : ((([] : List (List UInt16 × List UInt16)) ++ copied).map (·.1)).Nodup :=
      hcopied.distinct
    rw [readFiles_again hpass hdistinct, List.nil_append, Nat.zero_add]
  have hlen : copied.length ≤ entries.length := by
    have hle := hcopied.count
    omega
  have hsize : sizeOf_ copied ≤ total := hcopied.total
  rw [hfiles, filesJson, checkSkill]
  simp only [hagain, List.length_map]
  rw [if_neg (fun hnil => hne (List.length_eq_zero_iff.mp hnil)), if_neg (by omega),
    if_neg (by omega)]
  exact hmain _

/-- An object's own files: the keys are distinct. -/
structure Files where
  entries : List (List UInt16 × Json)
  distinct : (entries.map (·.1)).Nodup

def Files.json (files : Files) : Json := .object files.entries

/-- The skill has the files as they were sent, unless one is at
`__proto__`. -/
theorem checkSkill_files {files : Files} (h : checkSkill files.json = .skill skill) :
    skill.files = files.json ↔ units "__proto__" ∉ files.entries.map (·.1) := by
  obtain ⟨entries, copied, total, hentries, -, -, hread, hmain⟩ := checkSkill_inv h
  cases hentries
  obtain ⟨-, hfiles, -⟩ := checkMain_skill hmain
  rw [hfiles, filesJson, Files.json]
  constructor
  · intro hsame hmem
    have hcopied : Copied copied _ total := readFiles_copied hread copied_nil
    rw [← Json.object.inj hsame, List.map_map] at hmem
    obtain ⟨f, hf, hname⟩ := List.mem_map.mp hmem
    exact hcopied.named f hf hname
  · intro hname
    rw [readFiles_all hread (by simpa using files.distinct) hname]
    rfl

theorem checkSkill_empty : checkSkill (.object []) = .cleared := rfl

end Check

end Nacre.Skills
