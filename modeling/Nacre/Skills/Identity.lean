/-
A skill exported and read back.

What comes back of an archive is decided file by file, under the folder's
name (`rawOf`), and then the folder is taken off again (`unwrap_written`).
Four things happen to a file on the way:

- a path or a text with a lone surrogate is another one after UTF-8,
- a byte order mark at the start of a text is the decoder's,
- a file named `.DS_Store` is taken for something a Mac added,
- a file at `__proto__` is assigned to nothing.

A file they do not concern is `Portable`, and an export is the identity
exactly where every file is (`export_identity`).
-/
import Nacre.Skills.Exported

namespace Nacre.Skills

open Json (unit units)
open Units (isWellFormed)

variable {folder path : List UInt16} {f : File} {fs files raw : List File}

-- ================================================================== a folder

/-- A folder's name, of lower case letters, digits and hyphens. -/
structure Folder (folder : List UInt16) : Prop where
  plain : ∀ u ∈ folder, Utf8.Plain u
  flat : unit '/' ∉ folder
  own : folder ≠ units "__MACOSX"

theorem folder_of_name (h : isName folder = true) : Folder folder := by
  have hunit : ∀ u ∈ folder, isNameUnit u = true ∨ u = unit '-' := by
    intro u hu
    rw [← (List.intercalate_splitOn (unit '-') : [unit '-'].intercalate (folder.splitOn (unit '-'))
      = folder)] at hu
    rw [isName, List.all_eq_true] at h
    rcases Find.mem_intercalate hu with hu | ⟨part, hpart, hu⟩
    · exact .inr hu
    · have hall := h part hpart
      rw [Bool.and_eq_true, List.all_eq_true] at hall
      exact .inl (hall.2 u hu)
  have hlow : ∀ u, isNameUnit u = true → u.toNat < 0xD800 := by
    intro u hu
    simp only [isNameUnit, Bool.or_eq_true, Bool.and_eq_true, decide_eq_true_eq,
      UInt16.le_iff_toNat_le] at hu
    have hz : (unit 'z').toNat = 122 := rfl
    have h9 : (unit '9').toNat = 57 := rfl
    omega
  refine ⟨fun u hu => ?_, fun hslash => ?_, fun hmac => ?_⟩
  · rw [Utf8.plain_iff, UInt16.le_iff_toNat_le]
    rintro ⟨hge, -⟩
    rcases hunit u hu with hname | rfl
    · exact absurd (hlow u hname) (Nat.not_lt.mpr hge)
    · exact absurd hge (by decide)
  · exact absurd (hunit _ hslash) (by decide)
  · have hmem : unit '_' ∈ folder := by
      rw [hmac]
      decide
    exact absurd (hunit _ hmem) (by decide)

-- ================================================================== one file

/-- A file that comes back as it was. -/
structure Portable (f : File) : Prop where
  path : isWellFormed f.1 = true
  text : isWellFormed f.2 = true
  /-- It does not begin with a byte order mark. -/
  mark : f.2.head? ≠ some 0xFEFF
  /-- It is not assigned to nothing. -/
  named : f.1 ≠ units "__proto__"
  /-- It is not taken for something a Mac added. -/
  kept : lastSegment f.1 ≠ units ".DS_Store"

theorem nameBack_eq (hfolder : Folder folder) (f : File) :
    nameBack folder f = folder ++ unit '/' :: Utf8.repaired f.1 := by
  rw [nameBack, entryName, Utf8.repaired_append_plain hfolder.plain,
    Utf8.repaired_plain ⟨by decide, by decide⟩]

theorem lastSegment_append (hfolder : Folder folder) (path : List UInt16) :
    lastSegment (folder ++ unit '/' :: path) = lastSegment path := by
  rw [lastSegment, List.splitOn_append_cons_self_of_not_mem hfolder.flat]
  rw [lastSegment]
  cases hsplit : path.splitOn (unit '/') with
  | nil => exact absurd hsplit (List.splitOn_ne_nil _ _)
  | cons a as => rw [List.getLast?_cons_cons]

theorem topOf_append (hfolder : Folder folder) (path : List UInt16) :
    topOf (folder ++ unit '/' :: path) = folder := by
  rw [topOf, List.splitOn_append_cons_self_of_not_mem hfolder.flat]
  rfl

theorem textBack_wellFormed (f : File) : isWellFormed (textBack f) = true := by
  rw [textBack, Utf8.isWellFormed_iff, Utf8.repaired, Js.toWellFormed_codeUnits]

/-- A well-formed text comes back, unless it begins with a mark. -/
theorem textBack_eq (h : isWellFormed f.2 = true) :
    textBack f = f.2 ↔ f.2.head? ≠ some 0xFEFF := by
  have hsame : Js.codeUnits (Js.toWellFormed f.2) = f.2 := Utf8.isWellFormed_iff.mp h
  constructor
  · intro hback hmark
    obtain ⟨rest, hrest⟩ := List.head?_eq_some_iff.mp hmark
    have hplain : Utf8.Plain 0xFEFF := ⟨by decide, by decide⟩
    have hwell : Utf8.repaired rest = rest := by
      rw [← Utf8.isWellFormed_iff, ← Units.isWellFormed_cons_plain hplain, ← hrest]
      exact h
    have hdrop : textBack f = Utf8.repaired rest := by
      rw [textBack, hrest, Js.toWellFormed,
        Js.scalars_cons_plain (Utf8.plain_iff.mp hplain), Js.dropBom, String.toList_ofList]
      rfl
    rw [hdrop, hwell, hrest] at hback
    exact absurd (congrArg List.length hback) (by simp)
  · intro hmark
    have hhead : (Js.toWellFormed f.2).toList.head? ≠ some Js.bom := by
      intro hbom
      obtain ⟨cs, hcs⟩ := List.head?_eq_some_iff.mp hbom
      rw [← hsame, Js.codeUnits, Js.utf16, hcs] at hmark
      exact hmark rfl
    rw [textBack, Js.dropBom_of_head_ne hhead, hsame]

-- ================================================================ the folder off

/-- Files assigned under names of their own. -/
theorem foldl_assign_distinct (k v : File → List UInt16) (fs acc : List File)
    (hdistinct : (acc.map (·.1) ++ fs.map k).Nodup) (hproto : ∀ f ∈ fs, k f ≠ units "__proto__") :
    fs.foldl (fun acc f => assign acc (k f) (v f)) acc = acc ++ fs.map fun f => (k f, v f) := by
  induction fs generalizing acc with
  | nil => rw [List.foldl_nil, List.map_nil, List.append_nil]
  | cons f fs ih =>
      have hnew : k f ∉ acc.map (·.1) := by
        intro hmem
        rw [List.nodup_append] at hdistinct
        exact hdistinct.2.2 _ hmem _ (by simp) rfl
      rw [List.foldl_cons, assign, if_neg (hproto f List.mem_cons_self), mapSet_new hnew,
        ih _ (by simpa using hdistinct) fun g hg => hproto g (List.mem_cons_of_mem _ hg)]
      simp

/-- Where all names are under one folder, it is taken off. -/
theorem unwrap_written (hfolder : Folder folder)
    (hraw : ∀ g ∈ raw, ∃ path, g.1 = folder ++ unit '/' :: path) :
    unwrap raw = raw.foldl (fun acc g => assign acc (g.1.drop (folder.length + 1)) g.2) [] := by
  cases raw with
  | nil =>
      rw [unwrap]
      simp
  | cons g raw =>
      have htops : ((g :: raw).map (·.1)).map topOf = List.replicate (raw.length + 1) folder := by
        rw [List.eq_replicate_iff]
        refine ⟨by simp, fun top htop => ?_⟩
        obtain ⟨name, hname, rfl⟩ := List.mem_map.mp htop
        obtain ⟨x, hx, rfl⟩ := List.mem_map.mp hname
        obtain ⟨path, hpath⟩ := hraw x hx
        rw [hpath, topOf_append hfolder]
      have hslash : ((g :: raw).map (·.1)).all (fun name => name.contains (unit '/')) = true := by
        rw [List.all_eq_true]
        intro name hname
        obtain ⟨x, hx, rfl⟩ := List.mem_map.mp hname
        obtain ⟨path, hpath⟩ := hraw x hx
        rw [hpath]
        simp
      have hmain : units SKILL_FILE ∉ (g :: raw).map (·.1) := by
        intro hmem
        obtain ⟨x, hx, hname⟩ := List.mem_map.mp hmem
        obtain ⟨path, hpath⟩ := hraw x hx
        have hin : unit '/' ∈ units SKILL_FILE := by
          rw [← hname, hpath]
          simp
        exact absurd hin (by decide)
      rw [unwrap]
      simp only [htops, List.replicate_dedup (Nat.succ_ne_zero _)]
      rw [if_pos ⟨by simp, hmain, rfl, hslash⟩]
      simp only [List.headD_cons, List.length_append, List.length_singleton]

theorem mem_rawOf {g : File} (h : g ∈ rawOf folder fs raw) :
    g ∈ raw ∨ ∃ f ∈ fs, g = (nameBack folder f, textBack f)
      ∧ isSkipped (nameBack folder f) = false := by
  induction fs generalizing raw with
  | nil => exact .inl h
  | cons f fs ih =>
      rw [rawOf, List.foldl_cons] at h
      rcases ih h with h | ⟨f', hf', hg⟩
      · split at h
        next => exact .inl h
        next hskip =>
          rcases assign_cases h with ⟨rfl, -⟩ | h
          · exact .inr ⟨f, List.mem_cons_self, rfl, eq_false_of_ne_true hskip⟩
          · exact .inl h
      · exact .inr ⟨f', List.mem_cons_of_mem _ hf', hg⟩

/-- A file that came back, and the one it was. -/
theorem mem_unwrapped (hfolder : Folder folder) (h : f ∈ unwrap (rawOf folder fs [])) :
    f.1 ≠ units "__proto__" ∧ ∃ g ∈ fs, f.1 = Utf8.repaired g.1 ∧ f.2 = textBack g
      ∧ lastSegment f.1 ≠ units ".DS_Store" := by
  have hraw : ∀ g ∈ rawOf folder fs [], ∃ path, g.1 = folder ++ unit '/' :: path := by
    intro g hg
    rcases mem_rawOf hg with hg | ⟨x, -, rfl, -⟩
    · cases hg
    · exact ⟨_, nameBack_eq hfolder x⟩
  rw [unwrap_written hfolder hraw] at h
  obtain ⟨-, -, hmem⟩ := foldl_assign (fun path => path.drop (folder.length + 1))
    (rawOf folder fs []) []
  rcases hmem f h with h | ⟨x, hx, rfl, hproto⟩
  · cases h
  · rcases mem_rawOf hx with hx | ⟨g, hg, rfl, hskip⟩
    · cases hx
    · refine ⟨hproto, g, hg, ?_⟩
      simp only [nameBack_eq hfolder] at hskip ⊢
      have hoff : (folder ++ unit '/' :: Utf8.repaired g.1).drop (folder.length + 1)
          = Utf8.repaired g.1 := by
        rw [← List.drop_drop, List.drop_left]
        rfl
      rw [hoff]
      refine ⟨rfl, trivial, fun hlast => ?_⟩
      rw [isSkipped, Bool.or_eq_false_iff, decide_eq_false_iff_not, lastSegment_append hfolder]
        at hskip
      exact hskip.2 hlast

-- ============================================================== what is checked

theorem segmentError_none {segments : List (List UInt16)} (h : segmentError path segments = none) :
    ∀ segment ∈ segments, segment ≠ [] := by
  induction segments with
  | nil => exact nofun
  | cons segment rest ih =>
      unfold segmentError at h
      split at h
      next => cases h
      next hne =>
        split at h
        next => cases h
        next =>
          intro x hx
          rcases List.mem_cons.mp hx with rfl | hx
          · exact hne
          · exact ih h x hx

theorem skillPathError_none (h : skillPathError path = none) :
    path ≠ [] ∧ path.length ≤ SKILL_LIMITS.pathLength ∧ path.getLast? ≠ some (unit '/') := by
  unfold skillPathError at h
  split at h
  next => cases h
  next hne =>
    split at h
    next => cases h
    next hlen =>
      split at h
      next => cases h
      next =>
        split at h
        next => cases h
        next =>
          split at h
          next => cases h
          next =>
            refine ⟨fun hnil => hne (by rw [hnil]; rfl), Nat.le_of_not_lt hlen, fun hlast => ?_⟩
            obtain ⟨start, rfl⟩ := List.getLast?_eq_some_iff.mp hlast
            have hempty : [] ∈ (start ++ [unit '/']).splitOn (unit '/') := by
              rw [List.splitOn_append_cons_self]
              exact List.mem_append_right _ (by simp)
            exact segmentError_none h [] hempty rfl

/-- A file that is checked and portable is no directory and nothing of a Mac. -/
theorem isSkipped_written (hfolder : Folder folder) (hpath : skillPathError path = none)
    (hkept : lastSegment path ≠ units ".DS_Store") :
    isSkipped (folder ++ unit '/' :: path) = false := by
  obtain ⟨hne, -, hlast⟩ := skillPathError_none hpath
  rw [isSkipped, Bool.or_eq_false_iff, Bool.or_eq_false_iff, decide_eq_false_iff_not,
    decide_eq_false_iff_not, decide_eq_false_iff_not, lastSegment_append hfolder]
  refine ⟨⟨fun hend => hlast ?_, fun hmac => ?_⟩, hkept⟩
  · obtain ⟨u, rest, rfl⟩ := List.exists_cons_of_ne_nil hne
    rw [List.getLast?_append_of_ne_nil _ (List.cons_ne_nil _ _), List.getLast?_cons_cons] at hend
    exact hend
  · obtain ⟨rest, hrest⟩ := hmac
    have htop : topOf (folder ++ unit '/' :: path) = units "__MACOSX" := by
      rw [← hrest, show units "__MACOSX/" = units "__MACOSX" ++ [unit '/'] from rfl,
        List.append_assoc, topOf]
      rw [show [unit '/'] ++ rest = unit '/' :: rest from rfl,
        List.splitOn_append_cons_self_of_not_mem (by decide)]
      rfl
    rw [topOf_append hfolder] at htop
    exact hfolder.own htop

theorem readFiles_passed {entries acc copied : List File} {total total' : Nat}
    (h : readFiles (entries.map entryOf) acc total = .ok (copied, total')) :
    (∀ f ∈ entries, Passes f) ∧ total' = total + sizeOf_ entries := by
  induction entries generalizing acc total with
  | nil =>
      cases h
      exact ⟨nofun, rfl⟩
  | cons f entries ih =>
      rw [List.map_cons, entryOf] at h
      obtain ⟨content, hcontent, hpasses, h⟩ := readFiles_cons h
      cases hcontent
      obtain ⟨hrest, htotal⟩ := ih h
      refine ⟨fun g hg => ?_, ?_⟩
      · rcases List.mem_cons.mp hg with rfl | hg
        · exact hpasses
        · exact hrest g hg
      · rw [htotal, Nat.add_assoc]
        rfl

theorem length_dataBytes (f : File) : (dataBytes f).length = byteLength f.2 := by
  rw [dataBytes, Utf8.bytesOf, byteLength, ByteArray.size, Array.length_toList]

/-- A folder that is a skill is within the limits of an archive. -/
theorem fits_of_skill {skill : Skill} (hlen : folder.length ≤ SKILL_LIMITS.nameLength)
    (h : checkSkill (filesJson files) = .skill skill) :
    Fits folder files ∧ ∀ f ∈ files, Passes f := by
  obtain ⟨entries, copied, total, hentries, hcount, htotal, hread, -⟩ := checkSkill_inv h
  cases hentries
  obtain ⟨hpasses, rfl⟩ := readFiles_passed hread
  rw [List.length_map] at hcount
  rw [Nat.zero_add] at htotal
  have hlimits : SKILL_LIMITS.files = 64 ∧ SKILL_LIMITS.nameLength = 64
      ∧ SKILL_LIMITS.pathLength = 256 ∧ SKILL_LIMITS.fileBytes = 262144 := ⟨rfl, rfl, rfl, rfl⟩
  refine ⟨⟨fun f hf => ?_, ?_, ?_⟩, hpasses⟩
  · obtain ⟨hpath, -, hsize⟩ := hpasses f hf
    obtain ⟨-, hpathlen, -⟩ := skillPathError_none hpath
    have hname := Utf8.length_bytesOf_le (entryName folder f.1)
    rw [entryName, List.length_append, List.length_cons] at hname
    rw [length_dataBytes]
    refine ⟨⟨?_, ?_⟩, hsize⟩
    · show (Utf8.bytesOf (folder ++ unit '/' :: f.1)).length < 65536
      omega
    · rw [length_dataBytes]
      omega
  · simp only [length_dataBytes]
    exact htotal
  · omega

-- ============================================================== the guarantee

theorem lastSegment_ne_of_portable (h : Portable f) (hfolder : Folder folder)
    (hpath : skillPathError f.1 = none) : isSkipped (nameBack folder f) = false := by
  rw [nameBack_eq hfolder, Utf8.isWellFormed_iff.mp h.path]
  exact isSkipped_written hfolder hpath h.kept

/-- Portable files come back as they were. -/
theorem unwrap_portable (hfolder : Folder folder) (hdistinct : (fs.map (·.1)).Nodup)
    (hpasses : ∀ f ∈ fs, Passes f) (h : ∀ f ∈ fs, Portable f) :
    unwrap (rawOf folder fs []) = fs := by
  have hname : ∀ f ∈ fs, nameBack folder f = folder ++ unit '/' :: f.1 := by
    intro f hf
    rw [nameBack_eq hfolder, Utf8.isWellFormed_iff.mp (h f hf).path]
  have hnames : fs.map (nameBack folder) = (fs.map (·.1)).map fun path => folder ++ unit '/' :: path := by
    rw [List.map_map]
    exact List.map_congr_left hname
  have hraw : rawOf folder fs [] = fs.map fun f => (nameBack folder f, f.2) := by
    have hkeep : rawOf folder fs []
        = fs.foldl (fun raw f => assign raw (nameBack folder f) f.2) [] := by
      refine List.foldl_ext _ _ _ fun raw f hf => ?_
      have hskip := lastSegment_ne_of_portable (h f hf) hfolder (hpasses f hf).path
      rw [if_neg (by rw [hskip]; exact Bool.false_ne_true), (textBack_eq (h f hf).text).mpr (h f hf).mark]
    rw [hkeep, foldl_assign_distinct (nameBack folder) (·.2), List.nil_append]
    · rw [List.map_nil, List.nil_append, hnames]
      exact hdistinct.map fun a b hab => by simpa using hab
    · intro f hf hproto
      have hslash : unit '/' ∈ units "__proto__" := by
        rw [← hproto, hname f hf]
        simp
      exact absurd hslash (by decide)
  have hunder : ∀ g ∈ rawOf folder fs [], ∃ path, g.1 = folder ++ unit '/' :: path := by
    intro g hg
    rcases mem_rawOf hg with hg | ⟨x, -, rfl, -⟩
    · cases hg
    · exact ⟨_, nameBack_eq hfolder x⟩
  have hoff : ∀ f ∈ fs, (nameBack folder f).drop (folder.length + 1) = f.1 := by
    intro f hf
    rw [hname f hf, ← List.drop_drop, List.drop_left]
    rfl
  rw [unwrap_written hfolder hunder, hraw, List.foldl_map]
  rw [foldl_assign_distinct (fun f => (nameBack folder f).drop (folder.length + 1)) (·.2),
    List.nil_append]
  · conv_rhs => rw [← List.map_id fs]
    exact List.map_congr_left fun f hf => Prod.ext (hoff f hf) rfl
  · rw [List.map_nil, List.nil_append, List.map_congr_left hoff]
    exact hdistinct
  · intro f hf
    rw [hoff f hf]
    exact (h f hf).named

/-- What comes back whole was portable. -/
theorem portable_of_back (hfolder : Folder folder) (hdistinct : (fs.map (·.1)).Nodup)
    (h : ∀ f ∈ fs, f ∈ unwrap (rawOf folder fs [])) : ∀ f ∈ fs, Portable f := by
  have hback : ∀ f ∈ fs, isWellFormed f.1 = true := by
    intro f hf
    obtain ⟨-, g, -, hpath, -⟩ := mem_unwrapped hfolder (h f hf)
    rw [hpath]
    exact Utf8.isWellFormed_repaired g.1
  intro f hf
  obtain ⟨hproto, g, hg, hpath, htext, hkept⟩ := mem_unwrapped hfolder (h f hf)
  rw [Utf8.isWellFormed_iff.mp (hback g hg)] at hpath
  -- the path names one file, so the text is its own
  obtain rfl : f = g := List.inj_on_of_nodup_map hdistinct hf hg hpath
  have hwell : isWellFormed f.2 = true := by
    rw [htext]
    exact textBack_wellFormed f
  exact ⟨hback f hf, hwell, (textBack_eq hwell).mp htext.symm, hproto, hkept⟩

/-- The export, uploaded, has the same paths and the same texts. -/
def ComesBack (crc32 : Bytes → UInt32) (inflate : Bytes → Nat → Option Bytes)
    (name : List UInt16) (files : List File) : Prop :=
  ∃ zip out, writeSkillZip crc32 name files = some zip
    ∧ (readSkillZip crc32 inflate zip).result = .ok out ∧ out.Perm files

section

variable {crc32 : Bytes → UInt32} {inflate : Bytes → Nat → Option Bytes} {name : List UInt16}
  {skill : Skill}

theorem portable_of_comesBack (hname : isName name = true)
    (hlen : name.length ≤ SKILL_LIMITS.nameLength) (hdistinct : (files.map (·.1)).Nodup)
    (hskill : checkSkill (filesJson files) = .skill skill)
    (h : ComesBack crc32 inflate name files) : ∀ f ∈ files, Portable f := by
  obtain ⟨hfits, -⟩ := fits_of_skill hlen hskill
  have hperm := sortFiles_perm files
  have hsorted : ((sortFiles files).map (·.1)).Nodup := (hperm.map _).nodup_iff.mpr hdistinct
  obtain ⟨zip, hzip, hread⟩ := readSkillZip_written crc32 inflate hfits
  obtain ⟨zip', out, hzip', hout, hsame⟩ := h
  rw [hzip] at hzip'
  cases hzip'
  rw [hread] at hout
  cases hout
  intro f hf
  refine portable_of_back (folder_of_name hname) hsorted (fun g hg => ?_) f (hperm.mem_iff.mpr hf)
  exact hsame.mem_iff.mpr (hperm.mem_iff.mp hg)

theorem comesBack_of_portable (hname : isName name = true)
    (hlen : name.length ≤ SKILL_LIMITS.nameLength) (hdistinct : (files.map (·.1)).Nodup)
    (hskill : checkSkill (filesJson files) = .skill skill) (h : ∀ f ∈ files, Portable f) :
    ComesBack crc32 inflate name files := by
  obtain ⟨hfits, hpasses⟩ := fits_of_skill hlen hskill
  have hperm := sortFiles_perm files
  have hsorted : ((sortFiles files).map (·.1)).Nodup := (hperm.map _).nodup_iff.mpr hdistinct
  obtain ⟨zip, hzip, hread⟩ := readSkillZip_written crc32 inflate hfits
  refine ⟨zip, sortFiles files, hzip, ?_, hperm⟩
  rw [hread, unwrap_portable (folder_of_name hname) hsorted
    (fun f hf => hpasses f (hperm.mem_iff.mp hf)) fun f hf => h f (hperm.mem_iff.mp hf)]

end

/-- Exporting a skill and uploading the export is the identity exactly where
every file is portable. -/
theorem export_identity (crc32 : Bytes → UInt32) (inflate : Bytes → Nat → Option Bytes)
    {name : List UInt16} {files : List File} {skill : Skill} (hname : isName name = true)
    (hlen : name.length ≤ SKILL_LIMITS.nameLength) (hdistinct : (files.map (·.1)).Nodup)
    (hskill : checkSkill (filesJson files) = .skill skill) :
    ComesBack crc32 inflate name files ↔ ∀ f ∈ files, Portable f :=
  ⟨portable_of_comesBack hname hlen hdistinct hskill,
    comesBack_of_portable hname hlen hdistinct hskill⟩

/-- A small skill's `SKILL.md`. -/
def plainMain : List UInt16 := units "---\nname: a\ndescription: b\n---\nc"

def plainFiles : List File := [(units "SKILL.md", plainMain), (units "x/y", units "z")]

def plainSkill : Skill := ⟨"a", "b", false, filesJson plainFiles⟩

theorem export_identity_plain : ComesBack (fun _ => 0) (fun _ _ => none) (units "a") plainFiles
    ↔ ∀ f ∈ plainFiles, Portable f :=
  export_identity (fun _ => 0) (fun _ _ => none) (by decide) (by decide) (by decide)
    (show checkSkill (filesJson plainFiles) = .skill plainSkill by decide +kernel)

/-- The same, and a note that begins with a byte order mark. -/
def markedFiles : List File := plainFiles ++ [(units "n", 0xFEFF :: units "z")]

def markedSkill : Skill := ⟨"a", "b", false, filesJson markedFiles⟩

theorem export_marked : (checkSkill (filesJson markedFiles) = .skill markedSkill)
    ∧ ¬ ComesBack (fun _ => 0) (fun _ _ => none) (units "a") markedFiles := by
  have hskill : checkSkill (filesJson markedFiles) = .skill markedSkill := by decide +kernel
  refine ⟨hskill, fun h => ?_⟩
  have hportable := portable_of_comesBack (by decide) (by decide) (by decide) hskill h
  exact (hportable (units "n", 0xFEFF :: units "z") (by decide)).mark rfl

-- ============================================================= many entries

/-- Sixty-five empty files, of one character each. -/
def manyFiles : List File := (List.range 65).map fun i => ([UInt16.ofNat (0x100 + i)], [])

/-- An archive of more files than a skill may have is read. -/
theorem readSkillZip_many : ∃ zip files,
    (readSkillZip (fun _ => 0) (fun _ _ => none) zip).result = .ok files
      ∧ files.length > SKILL_LIMITS.files := by
  have hshape : ∀ f ∈ manyFiles, f.1.length = 1 ∧ f.2 = [] := by decide
  have hfits : Fits (units "a") manyFiles := by
    refine ⟨fun f hf => ?_, ?_, by decide⟩
    · obtain ⟨hpath, htext⟩ := hshape f hf
      have hname := Utf8.length_bytesOf_le (entryName (units "a") f.1)
      rw [entryName, List.length_append, List.length_cons, hpath] at hname
      have hone : (units "a").length = 1 := rfl
      have hempty : (dataBytes f).length = 0 := by
        rw [dataBytes, htext]
        rfl
      rw [hempty]
      refine ⟨⟨?_, by omega⟩, Nat.zero_le _⟩
      show (Utf8.bytesOf (units "a" ++ unit '/' :: f.1)).length < 65536
      omega
    · have hzero : (manyFiles.map fun f => (dataBytes f).length) = manyFiles.map fun _ => 0 := by
        refine List.map_congr_left fun f hf => ?_
        rw [dataBytes, (hshape f hf).2]
        rfl
      rw [hzero]
      decide
  have hperm := sortFiles_perm manyFiles
  have hfolder : Folder (units "a") := folder_of_name (by decide)
  have hpasses : ∀ f ∈ manyFiles, Passes f := by
    intro f hf
    have hpath : ∀ g ∈ manyFiles, skillPathError g.1 = none := by decide
    rw [show f = (f.1, f.2) from rfl, (hshape f hf).2]
    exact ⟨hpath f hf, List.not_mem_nil, show byteLength [] ≤ SKILL_LIMITS.fileBytes by decide⟩
  have hportable : ∀ f ∈ manyFiles, Portable f := by
    intro f hf
    have hall : ∀ g ∈ manyFiles, isWellFormed g.1 = true ∧ g.1 ≠ units "__proto__"
        ∧ lastSegment g.1 ≠ units ".DS_Store" := by decide
    obtain ⟨hwell, hnamed, hkept⟩ := hall f hf
    refine ⟨hwell, ?_, ?_, hnamed, hkept⟩
    · rw [(hshape f hf).2]
      rfl
    · rw [(hshape f hf).2]
      intro h
      cases h
  obtain ⟨zip, -, hread⟩ := readSkillZip_written (fun _ => 0) (fun _ _ => none) hfits
  rw [unwrap_portable hfolder ((hperm.map _).nodup_iff.mpr (by decide))
    (fun f hf => hpasses f (hperm.mem_iff.mp hf)) fun f hf => hportable f (hperm.mem_iff.mp hf)] at hread
  exact ⟨zip, sortFiles manyFiles, hread, by rw [hperm.length_eq]; decide⟩

end Nacre.Skills
