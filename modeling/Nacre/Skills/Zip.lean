/-
A skill as a zip (core/skill.ts: `writeSkillZip`, `readSkillZip`).

The writer stores: a local header, a name and the content for each file,
then the directory, then the end record. The reader finds the end record,
walks the directory, and for each entry looks at the local header it
points to. Writing a number that does not fit its field throws, and so does
reading past the end; both are results of the model (`none`, `.thrown`).

What the checksum is and how an entry is inflated belong to the runtime:
`crc32` and `inflate` are parameters. What the reader asks of `inflate` is
kept with the result (`Walk.asked`).
-/
import Mathlib.Data.List.Dedup
import Nacre.Lib.Endian
import Nacre.Lib.Utf8
import Nacre.Skills.Format

namespace Nacre.Skills

open Endian (readLE Record)
open Json (unit units)

abbrev Bytes := List UInt8

/-- A path and a text. -/
abbrev File := List UInt16 × List UInt16

def LOCAL : Nat := 0x04034b50
def CENTRAL : Nat := 0x02014b50
def END : Nat := 0x06054b50

-- ============================================================== the writer

/-- 1980-01-01: reproducible bytes for the same skill. -/
def zipDate : Nat := 33

/-- The thirty bytes before an entry's name. -/
def localHeader (crc size nameLength : Nat) : Record :=
  [(4, LOCAL), (2, 20), (2, 0x0800), (2, 0), (2, 0), (2, zipDate), (4, crc), (4, size), (4, size),
   (2, nameLength), (2, 0)]

/-- The forty-six bytes before its name in the directory. -/
def centralHeader (crc size nameLength offset : Nat) : Record :=
  [(4, CENTRAL), (2, 20), (2, 20), (2, 0x0800), (2, 0), (2, 0), (2, zipDate), (4, crc), (4, size),
   (4, size), (2, nameLength), (2, 0), (2, 0), (2, 0), (2, 0), (4, 0), (4, offset)]

def endRecord (count dirSize dirOffset : Nat) : Record :=
  [(4, END), (2, 0), (2, 0), (2, count), (2, count), (4, dirSize), (4, dirOffset), (2, 0)]

/-- What the writer's loop has so far. -/
structure Written where
  locals : Bytes
  centrals : Bytes
  offset : Nat

/-- The name of an entry: its path under the folder. -/
def entryName (folder path : List UInt16) : List UInt16 := folder ++ unit '/' :: path

def writeEntries (crc32 : Bytes → UInt32) (folder : List UInt16) :
    List File → Written → Option Written
  | [], w => some w
  | (path, content) :: rest, w => do
      let name := Utf8.bytesOf (entryName folder path)
      let data := Utf8.bytesOf content
      let crc := (crc32 data).toNat
      let header ← Record.write (localHeader crc data.length name.length)
      let central ← Record.write (centralHeader crc data.length name.length w.offset)
      writeEntries crc32 folder rest
        ⟨w.locals ++ (header ++ name ++ data), w.centrals ++ (central ++ name),
          w.offset + (header.length + name.length + data.length)⟩

/-- The entries by path, code unit by code unit. -/
def sortFiles (files : List File) : List File := files.mergeSort fun a b => !decide (b.1 < a.1)

/-- A folder as a zip, entries under `folder/` and stored uncompressed;
`none` where a number does not fit. -/
def writeSkillZip (crc32 : Bytes → UInt32) (folder : List UInt16) (files : List File) :
    Option Bytes := do
  let w ← writeEntries crc32 folder (sortFiles files) ⟨[], [], 0⟩
  let last ← Record.write (endRecord files.length w.centrals.length w.offset)
  some (w.locals ++ w.centrals ++ last)

-- ============================================================== the reader

/-- Why the reader stopped: a read past the end, or a refusal. -/
inductive Stop
  | thrown
  | failed (error : String)
  deriving DecidableEq, Repr

/-- The fields of a directory entry. -/
structure Central where
  flags : Nat
  method : Nat
  crc : Nat
  compressed : Nat
  size : Nat
  nameLength : Nat
  extraLength : Nat
  commentLength : Nat
  localOffset : Nat

/-- What the reader's loop has so far. -/
structure Walk where
  at_ : Nat
  total : Nat
  totalCompressed : Nat
  usedRanges : List (Nat × Nat)
  raw : List File
  /-- The `maxOutputLength` of each call of the decompressor. -/
  asked : List Nat

/-- An entry whose data is at hand. -/
structure Entry where
  name : List UInt16
  method : Nat
  size : Nat
  crc : Nat
  stored : Bytes

/-- Whether the end record is here. -/
def endHere (buf : Bytes) (i : Nat) : Except Stop Bool :=
  match readLE 4 buf i with
  | none => .error .thrown
  | some signature => .ok (signature = END)

/-- From the last place the end record can be, back to the first one. -/
def findEnd (buf : Bytes) (first : Nat) : Nat → Except Stop (Option Nat)
  | 0 => (endHere buf 0).map fun found => if found then some 0 else none
  | i + 1 =>
      match endHere buf (i + 1) with
      | .error stop => .error stop
      | .ok true => .ok (some (i + 1))
      | .ok false => if i < first then .ok none else findEnd buf first i

def readCentral (buf : Bytes) (at_ : Nat) : Option Central := do
  let flags ← readLE 2 buf (at_ + 8)
  let method ← readLE 2 buf (at_ + 10)
  let crc ← readLE 4 buf (at_ + 16)
  let compressed ← readLE 4 buf (at_ + 20)
  let size ← readLE 4 buf (at_ + 24)
  let nameLength ← readLE 2 buf (at_ + 28)
  let extraLength ← readLE 2 buf (at_ + 30)
  let commentLength ← readLE 2 buf (at_ + 32)
  let localOffset ← readLE 4 buf (at_ + 42)
  some ⟨flags, method, crc, compressed, size, nameLength, extraLength, commentLength, localOffset⟩

/-- The last segment of a name. -/
def lastSegment (name : List UInt16) : List UInt16 := (name.splitOn (unit '/')).getLast?.getD []

/-- A directory, or what a Mac adds to a zip. -/
def isSkipped (name : List UInt16) : Bool :=
  name.getLast? = some (unit '/') || units "__MACOSX/" <+: name
    || lastSegment name = units ".DS_Store"

def kib (n : Nat) : String := toString (n / 1024)

/-- What the directory declares, against the limits. -/
def admitEntry (w : Walk) (c : Central) (name : List UInt16) : Except Stop Walk :=
  if c.flags % 2 ≠ 0 then .error (.failed s!"{said name}: encrypted entries are not accepted")
  else if c.method ≠ 0 ∧ c.method ≠ 8 then
    .error (.failed s!"{said name}: compression method {c.method} is not supported; use stored or deflate")
  else if c.size > SKILL_LIMITS.fileBytes then
    .error (.failed s!"{said name}: a file is at most {kib SKILL_LIMITS.fileBytes} KiB")
  else if w.total + c.size > SKILL_LIMITS.totalBytes then
    .error (.failed s!"a skill is at most {kib SKILL_LIMITS.totalBytes} KiB in all")
  else if w.totalCompressed + c.compressed > SKILL_LIMITS.totalBytes then
    .error (.failed s!"a skill's compressed data is at most {kib SKILL_LIMITS.totalBytes} KiB in all")
  else
    .ok { w with total := w.total + c.size, totalCompressed := w.totalCompressed + c.compressed }

def overlaps (start stop : Nat) (used : Nat × Nat) : Bool := start < used.2 && used.1 < stop

/-- The entry's data, in a range no other entry has. -/
def locateEntry (buf : Bytes) (w : Walk) (c : Central) (name : List UInt16) :
    Except Stop (Walk × Bytes) :=
  if c.localOffset + 30 > buf.length then
    .error (.failed s!"{said name}: entry header is damaged")
  else
    match readLE 4 buf c.localOffset with
    | none => .error .thrown
    | some signature =>
        if signature ≠ LOCAL then .error (.failed s!"{said name}: entry header is damaged")
        else
          match readLE 2 buf (c.localOffset + 26), readLE 2 buf (c.localOffset + 28) with
          | some nameLength, some extraLength =>
              let dataStart := c.localOffset + 30 + nameLength + extraLength
              let dataEnd := dataStart + c.compressed
              let stored := (buf.drop dataStart).take c.compressed
              if dataEnd > buf.length then
                .error (.failed s!"{said name}: entry runs past the end of the archive")
              else if c.compressed > 0 then
                if w.usedRanges.any (overlaps dataStart dataEnd) then
                  .error (.failed s!"{said name}: entry's compressed data overlaps another entry's")
                else
                  .ok ({ w with usedRanges := w.usedRanges ++ [(dataStart, dataEnd)] }, stored)
              else .ok (w, stored)
          | _, _ => .error .thrown

/-- The next entry of the directory: nothing of a skill, or its data. -/
def openEntry (buf : Bytes) (w : Walk) : Except Stop (Walk × Option Entry) :=
  if w.at_ + 46 > buf.length then .error (.failed "the archive directory is damaged")
  else
    match readLE 4 buf w.at_ with
    | none => .error .thrown
    | some signature =>
        if signature ≠ CENTRAL then .error (.failed "the archive directory is damaged")
        else
          match readCentral buf w.at_ with
          | none => .error .thrown
          | some c =>
              let name := Buffer.decode ((buf.drop (w.at_ + 46)).take c.nameLength)
              let w := { w with
                at_ := w.at_ + (46 + c.nameLength + c.extraLength + c.commentLength) }
              if isSkipped name then .ok (w, none)
              else
                match admitEntry w c name with
                | .error stop => .error stop
                | .ok w =>
                    match locateEntry buf w c name with
                    | .error stop => .error stop
                    | .ok (w, stored) => .ok (w, some ⟨name, c.method, c.size, c.crc, stored⟩)

section

variable (crc32 : Bytes → UInt32) (inflate : Bytes → Nat → Option Bytes)

/-- The text of an entry. -/
def readData (e : Entry) : Except Stop (List UInt16) :=
  -- One byte over the declared size, so an entry lying about its size is caught
  match if e.method = 0 then some e.stored else inflate e.stored (e.size + 1) with
  | none =>
      .error (.failed s!"{said e.name}: entry does not decompress, or is larger than it declares")
  | some data =>
      if data.length ≠ e.size then
        .error (.failed s!"{said e.name}: entry is not the size it declares")
      else if (crc32 data).toNat ≠ e.crc then
        .error (.failed s!"{said e.name}: entry is damaged (checksum mismatch)")
      else
        match Js.decode data.toByteArray with
        | none =>
            .error (.failed s!"{said e.name}: binary files are not accepted, only UTF-8 text")
        | some text => .ok (Js.codeUnits text)

/-- One turn of the loop, and whether it goes on. -/
def readEntry (buf : Bytes) (w : Walk) : Option Stop × Walk :=
  match openEntry buf w with
  | .error stop => (some stop, w)
  | .ok (w, none) => (none, w)
  | .ok (w, some e) =>
      let w := { w with asked := w.asked ++ if e.method = 0 then [] else [e.size + 1] }
      match readData crc32 inflate e with
      | .error stop => (some stop, w)
      | .ok text => (none, { w with raw := assign w.raw e.name text })

def readEntries (buf : Bytes) : Nat → Walk → Option Stop × Walk
  | 0, w => (none, w)
  | count + 1, w =>
      match readEntry crc32 inflate buf w with
      | (some stop, w) => (some stop, w)
      | (none, w) => readEntries buf count w

/-- The first segment of a name. -/
def topOf (name : List UInt16) : List UInt16 := (name.splitOn (unit '/')).headD []

/-- One top folder holding `SKILL.md`, and nothing at the root: unwrap it. -/
def unwrap (raw : List File) : List File :=
  let names := raw.map (·.1)
  let tops := (names.map topOf).dedup
  if names ≠ [] ∧ units SKILL_FILE ∉ names ∧ tops.length = 1
      ∧ names.all (fun name => name.contains (unit '/')) then
    let top := tops.headD [] ++ [unit '/']
    raw.foldl (fun unwrapped f => assign unwrapped (f.1.drop top.length) f.2) []
  else raw

/-- What came of an archive: its files or why not, what was asked of the
decompressor, and the ranges taken as data. -/
structure Unzipped where
  result : Except Stop (List File)
  asked : List Nat
  ranges : List (Nat × Nat)

def readSkillZip (buf : Bytes) : Unzipped :=
  let notZip : Unzipped := ⟨.error (.failed "not a zip archive"), [], []⟩
  if buf.length < 22 then notZip
  else
    match findEnd buf (buf.length - 22 - 0xffff) (buf.length - 22) with
    | .error stop => ⟨.error stop, [], []⟩
    | .ok none => notZip
    | .ok (some endAt) =>
        match readLE 2 buf (endAt + 10), readLE 4 buf (endAt + 12), readLE 4 buf (endAt + 16) with
        | some count, some dirSize, some dirOffset =>
            if count = 0xffff ∨ dirOffset = 0xffffffff then
              ⟨.error (.failed "ZIP64 archives are not accepted"), [], []⟩
            else if dirOffset + dirSize > endAt then
              ⟨.error (.failed "the archive directory points outside the file"), [], []⟩
            else if count > SKILL_LIMITS.files * 4 then
              ⟨.error (.failed s!"the archive has {count} entries; a skill has at most {SKILL_LIMITS.files} files"), [], []⟩
            else
              match readEntries crc32 inflate buf count ⟨dirOffset, 0, 0, [], [], []⟩ with
              | (some stop, w) => ⟨.error stop, w.asked, w.usedRanges⟩
              | (none, w) => ⟨.ok (unwrap w.raw), w.asked, w.usedRanges⟩
        | _, _, _ => ⟨.error .thrown, [], []⟩

end

end Nacre.Skills
