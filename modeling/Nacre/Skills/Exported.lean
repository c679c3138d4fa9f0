/-
A skill's archive, read by the one who wrote it.

Reader and writer meet at the bytes: `localsOf` and `centralsOf` are what
the writer's loop leaves, and the reader's loop is followed over them with
one invariant, where it stands in the directory and which local header the
next entry points to (`readEntries_written`). It needs nothing of the files
but that they are within the limits, and so says what comes back of every
folder (`readSkillZip_written`), also of one that comes back changed.
-/
import Nacre.Skills.Unzipped

namespace Nacre.Skills

open Endian (readLE Record)
open Json (unit units)
open Units (isWellFormed)

variable {crc32 : Bytes → UInt32} {inflate : Bytes → Nat → Option Bytes} {folder : List UInt16}
  {buf tailC tailL : Bytes} {w : Walk} {f : File} {fs files : List File} {offset : Nat}

-- ============================================================== the bytes

def nameBytes (folder : List UInt16) (f : File) : Bytes := Utf8.bytesOf (entryName folder f.1)

def dataBytes (f : File) : Bytes := Utf8.bytesOf f.2

def localFields (crc32 : Bytes → UInt32) (folder : List UInt16) (f : File) : Record :=
  localHeader (crc32 (dataBytes f)).toNat (dataBytes f).length (nameBytes folder f).length

def centralFields (crc32 : Bytes → UInt32) (folder : List UInt16) (offset : Nat) (f : File) :
    Record :=
  centralHeader (crc32 (dataBytes f)).toNat (dataBytes f).length (nameBytes folder f).length offset

def localBytes (crc32 : Bytes → UInt32) (folder : List UInt16) (f : File) : Bytes :=
  Record.bytes (localFields crc32 folder f) ++ nameBytes folder f ++ dataBytes f

def centralBytes (crc32 : Bytes → UInt32) (folder : List UInt16) (offset : Nat) (f : File) :
    Bytes :=
  Record.bytes (centralFields crc32 folder offset f) ++ nameBytes folder f

def localsOf (crc32 : Bytes → UInt32) (folder : List UInt16) (fs : List File) : Bytes :=
  fs.flatMap (localBytes crc32 folder)

def centralsOf (crc32 : Bytes → UInt32) (folder : List UInt16) : Nat → List File → Bytes
  | _, [] => []
  | offset, f :: fs =>
      centralBytes crc32 folder offset f
        ++ centralsOf crc32 folder (offset + (localBytes crc32 folder f).length) fs

/-- The numbers of an entry fit their fields. -/
structure FileFits (folder : List UInt16) (f : File) : Prop where
  name : (nameBytes folder f).length < 65536
  data : (dataBytes f).length < 2 ^ 32

def localWidths : List Nat := [4, 2, 2, 2, 2, 2, 4, 4, 4, 2, 2]

def centralWidths : List Nat := [4, 2, 2, 2, 2, 2, 2, 4, 4, 4, 2, 2, 2, 2, 2, 4, 4]

theorem widths_local : (localFields crc32 folder f).map (·.1) = localWidths := rfl

theorem widths_central : (centralFields crc32 folder offset f).map (·.1) = centralWidths := rfl

variable (crc32 folder f) in
theorem length_localHeader : (Record.bytes (localFields crc32 folder f)).length = 30 := by
  rw [Record.length_bytes, widths_local]
  decide

variable (crc32 folder f offset) in
theorem length_centralHeader : (Record.bytes (centralFields crc32 folder offset f)).length = 46 := by
  rw [Record.length_bytes, widths_central]
  decide

variable (crc32 folder f) in
theorem length_localBytes : (localBytes crc32 folder f).length
    = 30 + (nameBytes folder f).length + (dataBytes f).length := by
  rw [localBytes, List.length_append, List.length_append, length_localHeader]

variable (crc32) in
theorem fits_local (h : FileFits folder f) : Record.Fits (localFields crc32 folder f) := by
  have hcrc : (crc32 (dataBytes f)).toNat < 2 ^ 32 := (crc32 (dataBytes f)).toNat_lt
  have hname := h.name
  have hdata := h.data
  simp only [Record.Fits, localFields, localHeader, List.forall_mem_cons, List.not_mem_nil,
    false_imp_iff, implies_true, and_true, LOCAL, zipDate]
  omega

variable (crc32) in
theorem fits_central (h : FileFits folder f) (ho : offset < 2 ^ 32) :
    Record.Fits (centralFields crc32 folder offset f) := by
  have hcrc : (crc32 (dataBytes f)).toNat < 2 ^ 32 := (crc32 (dataBytes f)).toNat_lt
  have hname := h.name
  have hdata := h.data
  simp only [Record.Fits, centralFields, centralHeader, List.forall_mem_cons, List.not_mem_nil,
    false_imp_iff, implies_true, and_true, CENTRAL, zipDate]
  omega

theorem writeEntries_cons (w : Written) : writeEntries crc32 folder (f :: fs) w =
    (Record.write (localFields crc32 folder f)).bind fun header =>
      (Record.write (centralFields crc32 folder w.offset f)).bind fun central =>
        writeEntries crc32 folder fs ⟨w.locals ++ (header ++ nameBytes folder f ++ dataBytes f),
          w.centrals ++ (central ++ nameBytes folder f),
          w.offset + (header.length + (nameBytes folder f).length + (dataBytes f).length)⟩ := rfl

variable (crc32) in
/-- What the writer's loop leaves. -/
theorem writeEntries_eq (w : Written) (hfits : ∀ f ∈ fs, FileFits folder f)
    (hoffset : w.offset + (localsOf crc32 folder fs).length < 2 ^ 32) :
    writeEntries crc32 folder fs w = some ⟨w.locals ++ localsOf crc32 folder fs,
      w.centrals ++ centralsOf crc32 folder w.offset fs,
      w.offset + (localsOf crc32 folder fs).length⟩ := by
  induction fs generalizing w with
  | nil => simp [writeEntries, localsOf, centralsOf]
  | cons f fs ih =>
      obtain ⟨hf, hfs⟩ := List.forall_mem_cons.mp hfits
      have hcons : localsOf crc32 folder (f :: fs)
          = localBytes crc32 folder f ++ localsOf crc32 folder fs := List.flatMap_cons
      have hheader := length_localHeader crc32 folder f
      have hlen := length_localBytes crc32 folder f
      rw [hcons, List.length_append] at hoffset ⊢
      rw [writeEntries_cons, Record.write_fits (fits_local crc32 hf), Option.bind_some,
        Record.write_fits (fits_central crc32 hf (by omega)), Option.bind_some,
        ih _ hfs (by simp only; omega), hheader, ← hlen, Nat.add_assoc, centralsOf]
      simp only [localBytes, centralBytes, List.append_assoc]

-- ============================================================== one entry read

/-- What a name is once it went through bytes. -/
def nameBack (folder : List UInt16) (f : File) : List UInt16 := Utf8.repaired (entryName folder f.1)

/-- What a text is once it went through bytes and a decoder. -/
def textBack (f : File) : List UInt16 := Js.codeUnits (Js.dropBom (Js.toWellFormed f.2))

theorem readCentral_written (h : buf.drop w.at_ = centralBytes crc32 folder offset f ++ tailC)
    (hf : FileFits folder f) (ho : offset < 2 ^ 32) :
    readLE 4 buf w.at_ = some CENTRAL
      ∧ readCentral buf w.at_ = some ⟨0x0800, 0, (crc32 (dataBytes f)).toNat, (dataBytes f).length,
          (dataBytes f).length, (nameBytes folder f).length, 0, 0, offset⟩ := by
  have hfits := fits_central crc32 hf ho
  rw [centralBytes, List.append_assoc] at h
  have hsignature : readLE 4 buf (w.at_ + 0) = some CENTRAL :=
    Record.readAt widths_central h hfits (i := 0) rfl (by decide) (by decide)
  have hflags : readLE 2 buf (w.at_ + 8) = some 0x0800 :=
    Record.readAt widths_central h hfits (i := 3) rfl (by decide) (by decide)
  have hmethod : readLE 2 buf (w.at_ + 10) = some 0 :=
    Record.readAt widths_central h hfits (i := 4) rfl (by decide) (by decide)
  have hcrc : readLE 4 buf (w.at_ + 16) = some (crc32 (dataBytes f)).toNat :=
    Record.readAt widths_central h hfits (i := 7) rfl (by decide) (by decide)
  have hcompressed : readLE 4 buf (w.at_ + 20) = some (dataBytes f).length :=
    Record.readAt widths_central h hfits (i := 8) rfl (by decide) (by decide)
  have hsize : readLE 4 buf (w.at_ + 24) = some (dataBytes f).length :=
    Record.readAt widths_central h hfits (i := 9) rfl (by decide) (by decide)
  have hname : readLE 2 buf (w.at_ + 28) = some (nameBytes folder f).length :=
    Record.readAt widths_central h hfits (i := 10) rfl (by decide) (by decide)
  have hextra : readLE 2 buf (w.at_ + 30) = some 0 :=
    Record.readAt widths_central h hfits (i := 11) rfl (by decide) (by decide)
  have hcomment : readLE 2 buf (w.at_ + 32) = some 0 :=
    Record.readAt widths_central h hfits (i := 12) rfl (by decide) (by decide)
  have hlocal : readLE 4 buf (w.at_ + 42) = some offset :=
    Record.readAt widths_central h hfits (i := 16) rfl (by decide) (by decide)
  refine ⟨hsignature, ?_⟩
  simp only [readCentral, hflags, hmethod, hcrc, hcompressed, hsize, hname, hextra, hcomment,
    hlocal, Option.bind_eq_bind, Option.bind_some]

theorem locateEntry_written {c : Central} (name : List UInt16)
    (h : buf.drop offset = localBytes crc32 folder f ++ tailL) (hf : FileFits folder f)
    (hoffset : c.localOffset = offset) (hcompressed : c.compressed = (dataBytes f).length)
    (hfresh : ∀ used ∈ w.usedRanges, used.2 ≤ offset) :
    ∃ ranges, locateEntry buf w c name = .ok ({ w with usedRanges := ranges }, dataBytes f)
      ∧ ∀ used ∈ ranges, used.2 ≤ offset + (localBytes crc32 folder f).length := by
  have hlen := length_localBytes crc32 folder f
  have hbuf := congrArg List.length h
  rw [List.length_drop, List.length_append, hlen] at hbuf
  have hfits := fits_local crc32 hf
  rw [localBytes, List.append_assoc, List.append_assoc] at h
  have hsignature : readLE 4 buf (offset + 0) = some LOCAL :=
    Record.readAt widths_local h hfits (i := 0) rfl (by decide) (by decide)
  have hname : readLE 2 buf (offset + 26) = some (nameBytes folder f).length :=
    Record.readAt widths_local h hfits (i := 9) rfl (by decide) (by decide)
  have hextra : readLE 2 buf (offset + 28) = some 0 :=
    Record.readAt widths_local h hfits (i := 10) rfl (by decide) (by decide)
  have hstored : (buf.drop (offset + 30 + (nameBytes folder f).length + 0)).take (dataBytes f).length
      = dataBytes f := by
    rw [Nat.add_zero, ← List.drop_drop, ← List.drop_drop, h,
      List.drop_left' (length_localHeader crc32 folder f), List.drop_left, List.take_left]
  rw [Nat.add_zero] at hsignature
  rw [locateEntry, hoffset, if_neg (by omega), hsignature]
  simp only
  rw [if_neg (by decide), hname, hextra]
  simp only
  rw [hcompressed, hstored, if_neg (by omega)]
  split
  next hpos =>
    have hnone : ¬ (w.usedRanges.any (overlaps (offset + 30 + (nameBytes folder f).length + 0)
        (offset + 30 + (nameBytes folder f).length + 0 + (dataBytes f).length))) = true := by
      intro hany
      obtain ⟨used, hused, hover⟩ := List.any_eq_true.mp hany
      have hle := hfresh used hused
      rw [overlaps, Bool.and_eq_true, decide_eq_true_eq, decide_eq_true_eq] at hover
      omega
    rw [if_neg hnone]
    refine ⟨_, rfl, fun used hused => ?_⟩
    rcases List.mem_append.mp hused with hused | hused
    · exact (hfresh used hused).trans (by omega)
    · rw [List.mem_singleton.mp hused]
      show offset + 30 + (nameBytes folder f).length + 0 + (dataBytes f).length ≤ _
      omega
  next => exact ⟨w.usedRanges, rfl, fun used hused => (hfresh used hused).trans (by omega)⟩

theorem bytes_again (text : List UInt16) : (Utf8.bytesOf text).toByteArray = Js.encode text := by
  rw [Utf8.bytesOf]
  exact ByteArray.ext (by simp)

/-- Where the walk stands before the next entry, and what it can still take. -/
structure Stands (buf : Bytes) (w : Walk) (offset size : Nat) : Prop where
  total : w.total + size ≤ SKILL_LIMITS.totalBytes
  compressed : w.totalCompressed + size ≤ SKILL_LIMITS.totalBytes
  fresh : ∀ used ∈ w.usedRanges, used.2 ≤ offset

variable (inflate) in
/-- One entry of the writer's, read. -/
theorem readEntry_written {rest : Nat} (hs : Stands buf w offset ((dataBytes f).length + rest))
    (hC : buf.drop w.at_ = centralBytes crc32 folder offset f ++ tailC)
    (hL : buf.drop offset = localBytes crc32 folder f ++ tailL)
    (hf : FileFits folder f) (hsize : (dataBytes f).length ≤ SKILL_LIMITS.fileBytes)
    (ho : offset < 2 ^ 32) :
    ∃ w', readEntry crc32 inflate buf w = (none, w')
      ∧ w'.at_ = w.at_ + (centralBytes crc32 folder offset f).length
      ∧ Stands buf w' (offset + (localBytes crc32 folder f).length) rest
      ∧ w'.raw = if isSkipped (nameBack folder f) then w.raw
          else assign w.raw (nameBack folder f) (textBack f) := by
  obtain ⟨hsignature, hcentral⟩ := readCentral_written hC hf ho
  have hlen : (centralBytes crc32 folder offset f).length = 46 + (nameBytes folder f).length := by
    rw [centralBytes, List.length_append, length_centralHeader]
  have hbuf := congrArg List.length hC
  rw [List.length_drop, List.length_append, hlen] at hbuf
  have hname : Buffer.decode ((buf.drop (w.at_ + 46)).take (nameBytes folder f).length)
      = nameBack folder f := by
    rw [← List.drop_drop, hC, centralBytes, List.append_assoc,
      List.drop_left' (length_centralHeader crc32 folder f offset), List.take_left, nameBytes,
      Utf8.decode_bytesOf, nameBack]
  have hlonger : offset ≤ offset + (localBytes crc32 folder f).length := Nat.le_add_right _ _
  have htotal := hs.total
  have hcompressed := hs.compressed
  by_cases hskip : isSkipped (nameBack folder f) = true
  · refine ⟨{ w with at_ := w.at_ + (46 + (nameBytes folder f).length + 0 + 0) }, ?_, ?_, ?_, ?_⟩
    · rw [readEntry, openEntry, if_neg (by omega), hsignature]
      simp only [ne_eq, not_true_eq_false, if_false, hcentral, hname, hskip, if_true]
    · rw [hlen]
      rfl
    · exact ⟨show w.total + rest ≤ _ by omega, show w.totalCompressed + rest ≤ _ by omega,
        fun used hused => (hs.fresh used hused).trans hlonger⟩
    · rw [if_pos hskip]
  · let w1 : Walk := { w with
      at_ := w.at_ + (46 + (nameBytes folder f).length + 0 + 0)
      total := w.total + (dataBytes f).length
      totalCompressed := w.totalCompressed + (dataBytes f).length }
    let c : Central := ⟨0x0800, 0, (crc32 (dataBytes f)).toNat, (dataBytes f).length,
      (dataBytes f).length, (nameBytes folder f).length, 0, 0, offset⟩
    obtain ⟨ranges, hlocate, hfresh⟩ := locateEntry_written (w := w1) (c := c)
      (nameBack folder f) hL hf rfl rfl hs.fresh
    have hadmit : admitEntry
        { w with at_ := w.at_ + (46 + (nameBytes folder f).length + 0 + 0) } c (nameBack folder f)
        = .ok w1 := by
      rw [admitEntry, if_neg (by simp [c]), if_neg (by simp [c]), if_neg (Nat.not_lt.mpr hsize),
        if_neg (show ¬ w.total + (dataBytes f).length > _ by omega),
        if_neg (show ¬ w.totalCompressed + (dataBytes f).length > _ by omega)]
    have hdata : readData crc32 inflate
        ⟨nameBack folder f, 0, (dataBytes f).length, (crc32 (dataBytes f)).toNat, dataBytes f⟩
        = .ok (textBack f) := by
      rw [readData]
      simp only [if_true, ne_eq, not_true_eq_false, if_false]
      rw [dataBytes, bytes_again, Js.encode, Js.decode_toUTF8]
      rfl
    refine ⟨{ w1 with usedRanges := ranges, asked := w.asked ++ [],
                      raw := assign w.raw (nameBack folder f) (textBack f) }, ?_, ?_, ?_, ?_⟩
    · rw [readEntry, openEntry, if_neg (by omega), hsignature]
      simp only [ne_eq, not_true_eq_false, if_false, hcentral, hname, hskip, hadmit, hlocate,
        if_true, hdata, c, w1, Bool.false_eq_true]
    · rw [hlen]
      rfl
    · exact ⟨show w.total + (dataBytes f).length + rest ≤ _ by omega,
        show w.totalCompressed + (dataBytes f).length + rest ≤ _ by omega, hfresh⟩
    · rw [if_neg hskip]

-- ============================================================ the whole archive

/-- What the reader keeps of the entries. -/
def rawOf (folder : List UInt16) (fs : List File) (raw : List File) : List File :=
  fs.foldl (fun raw f => if isSkipped (nameBack folder f) then raw
    else assign raw (nameBack folder f) (textBack f)) raw

/-- The limits a folder has to keep to be read back. -/
structure Fits (folder : List UInt16) (fs : List File) : Prop where
  files : ∀ f ∈ fs, FileFits folder f ∧ (dataBytes f).length ≤ SKILL_LIMITS.fileBytes
  total : (fs.map fun f => (dataBytes f).length).sum ≤ SKILL_LIMITS.totalBytes
  count : fs.length ≤ SKILL_LIMITS.files * 4

variable (inflate) in
/-- The walk over what the writer left. -/
theorem readEntries_written (hs : Stands buf w offset (fs.map fun f => (dataBytes f).length).sum)
    (hC : buf.drop w.at_ = centralsOf crc32 folder offset fs ++ tailC)
    (hL : buf.drop offset = localsOf crc32 folder fs ++ tailL)
    (hf : ∀ f ∈ fs, FileFits folder f ∧ (dataBytes f).length ≤ SKILL_LIMITS.fileBytes)
    (ho : offset + (localsOf crc32 folder fs).length < 2 ^ 32) :
    ∃ w', readEntries crc32 inflate buf fs.length w = (none, w')
      ∧ w'.raw = rawOf folder fs w.raw := by
  induction fs generalizing w offset with
  | nil => exact ⟨w, rfl, rfl⟩
  | cons f fs ih =>
      obtain ⟨⟨hfits, hsize⟩, hfs⟩ := List.forall_mem_cons.mp hf
      have hcons : localsOf crc32 folder (f :: fs)
          = localBytes crc32 folder f ++ localsOf crc32 folder fs := List.flatMap_cons
      rw [hcons, List.append_assoc] at hL
      rw [hcons, List.length_append] at ho
      rw [centralsOf, List.append_assoc] at hC
      rw [List.map_cons, List.sum_cons] at hs
      obtain ⟨w1, hturn, hat, hstands, hraw⟩ :=
        readEntry_written inflate hs hC hL hfits hsize (by omega)
      have hC' : buf.drop w1.at_
          = centralsOf crc32 folder (offset + (localBytes crc32 folder f).length) fs ++ tailC := by
        rw [hat, ← List.drop_drop, hC, List.drop_left]
      have hL' : buf.drop (offset + (localBytes crc32 folder f).length)
          = localsOf crc32 folder fs ++ tailL := by
        rw [← List.drop_drop, hL, List.drop_left]
      obtain ⟨w2, hrun, hraw2⟩ := ih hstands hC' hL' hfs (by omega)
      refine ⟨w2, ?_, ?_⟩
      · rw [List.length_cons, readEntries, hturn]
        exact hrun
      · rw [hraw2, hraw]
        rfl

theorem sortFiles_perm (files : List File) : (sortFiles files).Perm files :=
  List.mergeSort_perm files _

theorem Fits.sorted (h : Fits folder files) : Fits folder (sortFiles files) := by
  have hperm := sortFiles_perm files
  refine ⟨fun f hf => h.files f (hperm.mem_iff.mp hf), ?_, ?_⟩
  · rw [(hperm.map _).sum_eq]
    exact h.total
  · rw [hperm.length_eq]
    exact h.count

variable (crc32) in
theorem length_localsOf (hf : ∀ f ∈ fs, FileFits folder f) : (localsOf crc32 folder fs).length
    ≤ fs.length * 65566 + (fs.map fun f => (dataBytes f).length).sum := by
  induction fs with
  | nil => exact le_refl _
  | cons f fs ih =>
      obtain ⟨hfits, hfs⟩ := List.forall_mem_cons.mp hf
      have hname := hfits.name
      have hrest := ih hfs
      have hlen := length_localBytes crc32 folder f
      have hcons : localsOf crc32 folder (f :: fs)
          = localBytes crc32 folder f ++ localsOf crc32 folder fs := List.flatMap_cons
      rw [hcons, List.length_append, List.length_cons, List.map_cons, List.sum_cons]
      omega

variable (crc32) in
theorem length_centralsOf (offset : Nat) (hf : ∀ f ∈ fs, FileFits folder f) :
    (centralsOf crc32 folder offset fs).length ≤ fs.length * 65582 := by
  induction fs generalizing offset with
  | nil => exact le_refl _
  | cons f fs ih =>
      obtain ⟨hfits, hfs⟩ := List.forall_mem_cons.mp hf
      have hname := hfits.name
      have hrest := ih (offset + (localBytes crc32 folder f).length) hfs
      rw [centralsOf, List.length_append, centralBytes, List.length_append, length_centralHeader,
        List.length_cons]
      omega

def endWidths : List Nat := [4, 2, 2, 2, 2, 4, 4, 2]

theorem findEnd_here {first i : Nat} (h : readLE 4 buf i = some END) :
    findEnd buf first i = .ok (some i) := by
  have hhere : endHere buf i = .ok true := by
    rw [endHere, h]
    rfl
  cases i with
  | zero =>
      rw [findEnd, hhere]
      rfl
  | succ i => rw [findEnd, hhere]

variable (crc32 inflate) in
/-- A folder within the limits is written, and what comes back of it. -/
theorem readSkillZip_written (h : Fits folder files) :
    ∃ zip, writeSkillZip crc32 folder files = some zip
      ∧ (readSkillZip crc32 inflate zip).result
        = .ok (unwrap (rawOf folder (sortFiles files) [])) := by
  have hsorted := h.sorted
  have hfits : ∀ f ∈ sortFiles files, FileFits folder f := fun f hf => (hsorted.files f hf).1
  have hcount := hsorted.count
  have htotal := hsorted.total
  have hlocals := length_localsOf crc32 hfits
  have hcentrals := length_centralsOf crc32 0 hfits
  have hlimits : SKILL_LIMITS.files * 4 = 256 ∧ SKILL_LIMITS.totalBytes = 1048576 :=
    ⟨rfl, rfl⟩
  rw [hlimits.1] at hcount
  rw [hlimits.2] at htotal
  have hwritten := writeEntries_eq crc32 ⟨[], [], 0⟩ hfits (by simp only; omega)
  simp only [List.nil_append, Nat.zero_add] at hwritten
  have hlength : files.length = (sortFiles files).length := (sortFiles_perm files).length_eq.symm
  generalize hL : localsOf crc32 folder (sortFiles files) = locals at *
  generalize hC : centralsOf crc32 folder 0 (sortFiles files) = centrals at *
  have hend : Record.Fits (endRecord files.length centrals.length locals.length) := by
    simp only [Record.Fits, endRecord, List.forall_mem_cons, List.not_mem_nil, false_imp_iff,
      implies_true, and_true, END]
    omega
  have hwidths : (endRecord files.length centrals.length locals.length).map (·.1) = endWidths := rfl
  have hlast : (Record.bytes (endRecord files.length centrals.length locals.length)).length = 22 := by
    rw [Record.length_bytes, hwidths]
    decide
  refine ⟨locals ++ centrals
    ++ Record.bytes (endRecord files.length centrals.length locals.length), ?_, ?_⟩
  · rw [writeSkillZip, hwritten]
    simp only [Option.bind_eq_bind, Option.bind_some, Record.write_fits hend]
  · generalize hbuf : locals ++ centrals
      ++ Record.bytes (endRecord files.length centrals.length locals.length) = buf
    have hlen : buf.length = locals.length + centrals.length + 22 := by
      rw [← hbuf, List.length_append, List.length_append, hlast]
    have hdrop : buf.drop (buf.length - 22)
        = Record.bytes (endRecord files.length centrals.length locals.length) ++ [] := by
      rw [hlen, Nat.add_sub_cancel, ← hbuf, List.append_nil]
      exact List.drop_left' (List.length_append)
    have hsignature : readLE 4 buf (buf.length - 22 + 0) = some END :=
      Record.readAt hwidths hdrop hend (i := 0) rfl (by decide) (by decide)
    have hcountAt : readLE 2 buf (buf.length - 22 + 10) = some files.length :=
      Record.readAt hwidths hdrop hend (i := 4) rfl (by decide) (by decide)
    have hsizeAt : readLE 4 buf (buf.length - 22 + 12) = some centrals.length :=
      Record.readAt hwidths hdrop hend (i := 5) rfl (by decide) (by decide)
    have hoffsetAt : readLE 4 buf (buf.length - 22 + 16) = some locals.length :=
      Record.readAt hwidths hdrop hend (i := 6) rfl (by decide) (by decide)
    have hstands : Stands buf ⟨locals.length, 0, 0, [], [], []⟩ 0
        ((sortFiles files).map fun f => (dataBytes f).length).sum :=
      ⟨by simpa using hsorted.total, by simpa using hsorted.total, List.forall_mem_nil _⟩
    have hdirectory : buf.drop locals.length = centralsOf crc32 folder 0 (sortFiles files)
        ++ Record.bytes (endRecord files.length centrals.length locals.length) := by
      rw [hC, ← hbuf, List.append_assoc]
      exact List.drop_left
    have hentries : buf.drop 0 = localsOf crc32 folder (sortFiles files)
        ++ (centrals ++ Record.bytes (endRecord files.length centrals.length locals.length)) := by
      rw [hL, ← hbuf, List.append_assoc]
      rfl
    obtain ⟨w, hrun, hraw⟩ := readEntries_written inflate hstands hdirectory hentries
      hsorted.files (by rw [hL]; omega)
    rw [Nat.add_zero] at hsignature
    rw [readSkillZip, if_neg (by omega), findEnd_here hsignature]
    simp only [hcountAt, hsizeAt, hoffsetAt]
    rw [if_neg (by omega), if_neg (by omega), if_neg (by rw [hlimits.1]; omega), hlength, hrun]
    simp only [hraw]

end Nacre.Skills
