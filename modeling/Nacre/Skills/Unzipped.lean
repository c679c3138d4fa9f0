/-
What any byte string can make the zip reader do.

Every offset in an archive is the sender's. No read goes past the end,
because each record is measured before its fields are read
(`readCentral_some`, `locateEntry_ok`); the budget is spent before the
decompressor is called, so whatever the directory claims, what is asked of
it is within the limits and one byte an entry over (`Within`). The walk
keeps that entry by entry (`readEntry_within`), an archive by induction.

The number of entries is bounded at four times the number of files a skill
may have, since directories and what a Mac adds are entries too: an
archive of sixty-five files is read.
-/
import Nacre.Skills.Zip

namespace Nacre.Skills

open Endian (readLE)
open Json (unit units)

variable {buf : Bytes} {w w' : Walk} {c : Central} {e : Entry} {name text : List UInt16}
  {files : List File}

-- ============================================================== within range

theorem readLE_some {width i : Nat} (h : i + width ≤ buf.length) :
    ∃ n, readLE width buf i = some n := Option.isSome_iff_exists.mp (Endian.readLE_isSome.mpr h)

theorem readCentral_some (h : w.at_ + 46 ≤ buf.length) : ∃ c, readCentral buf w.at_ = some c := by
  obtain ⟨flags, hflags⟩ := readLE_some (show w.at_ + 8 + 2 ≤ buf.length by omega)
  obtain ⟨method, hmethod⟩ := readLE_some (show w.at_ + 10 + 2 ≤ buf.length by omega)
  obtain ⟨crc, hcrc⟩ := readLE_some (show w.at_ + 16 + 4 ≤ buf.length by omega)
  obtain ⟨compressed, hcompressed⟩ := readLE_some (show w.at_ + 20 + 4 ≤ buf.length by omega)
  obtain ⟨size, hsize⟩ := readLE_some (show w.at_ + 24 + 4 ≤ buf.length by omega)
  obtain ⟨nameLength, hname⟩ := readLE_some (show w.at_ + 28 + 2 ≤ buf.length by omega)
  obtain ⟨extraLength, hextra⟩ := readLE_some (show w.at_ + 30 + 2 ≤ buf.length by omega)
  obtain ⟨commentLength, hcomment⟩ := readLE_some (show w.at_ + 32 + 2 ≤ buf.length by omega)
  obtain ⟨localOffset, hlocal⟩ := readLE_some (show w.at_ + 42 + 4 ≤ buf.length by omega)
  rw [readCentral, hflags, hmethod, hcrc, hcompressed, hsize, hname, hextra, hcomment, hlocal]
  exact ⟨_, rfl⟩

theorem endHere_ok {i : Nat} (h : i + 4 ≤ buf.length) : ∃ found, endHere buf i = .ok found := by
  obtain ⟨signature, hread⟩ := readLE_some h
  rw [endHere, hread]
  exact ⟨_, rfl⟩

theorem findEnd_ok (first : Nat) {i : Nat} (h : i + 4 ≤ buf.length) :
    ∃ found, findEnd buf first i = .ok found ∧ ∀ endAt ∈ found, endAt ≤ i := by
  induction i with
  | zero =>
      obtain ⟨found, hfound⟩ := endHere_ok h
      rw [findEnd, hfound]
      refine ⟨_, rfl, fun endAt hend => ?_⟩
      cases found with
      | false => cases hend
      | true =>
          cases hend
          exact le_refl _
  | succ i ih =>
      obtain ⟨found, hfound⟩ := endHere_ok h
      rw [findEnd, hfound]
      cases found with
      | true =>
          refine ⟨_, rfl, fun endAt hend => ?_⟩
          cases hend
          exact le_refl _
      | false =>
          simp only
          split
          next => exact ⟨_, rfl, nofun⟩
          next =>
            obtain ⟨found, hfound, hle⟩ := ih (by omega)
            exact ⟨found, hfound, fun endAt hend => Nat.le_succ_of_le (hle endAt hend)⟩

theorem admitEntry_ok (h : admitEntry w c name = .ok w') :
    c.size ≤ SKILL_LIMITS.fileBytes ∧ w.total + c.size ≤ SKILL_LIMITS.totalBytes
      ∧ w.totalCompressed + c.compressed ≤ SKILL_LIMITS.totalBytes
      ∧ w' = { w with total := w.total + c.size,
                      totalCompressed := w.totalCompressed + c.compressed } := by
  unfold admitEntry at h
  split at h
  next => cases h
  next =>
    split at h
    next => cases h
    next =>
      split at h
      next => cases h
      next hsize =>
        split at h
        next => cases h
        next htotal =>
          split at h
          next => cases h
          next hcompressed =>
            cases h
            exact ⟨Nat.le_of_not_lt hsize, Nat.le_of_not_lt htotal, Nat.le_of_not_lt hcompressed,
              rfl⟩

theorem admitEntry_ne_thrown : admitEntry w c name ≠ .error .thrown := by
  unfold admitEntry
  repeat' split
  all_goals exact nofun

/-- The range an entry's data takes, none where there is no data. -/
def taken (start compressed : Nat) : List (Nat × Nat) :=
  if compressed > 0 then [(start, start + compressed)] else []

theorem locateEntry_ok {stored : Bytes} (h : locateEntry buf w c name = .ok (w', stored)) :
    ∃ start, start + c.compressed ≤ buf.length
      ∧ w' = { w with usedRanges := w.usedRanges ++ taken start c.compressed }
      ∧ ∀ r ∈ taken start c.compressed, ∀ used ∈ w.usedRanges, overlaps r.1 r.2 used = false := by
  unfold locateEntry at h
  split at h
  next => cases h
  next =>
    split at h
    next => cases h
    next =>
      split at h
      next => cases h
      next =>
        split at h
        next nameLength extraLength _ _ =>
          simp only at h
          split at h
          next => cases h
          next hend =>
            refine ⟨c.localOffset + 30 + nameLength + extraLength, Nat.le_of_not_lt hend, ?_⟩
            split at h
            next hpos =>
              split at h
              next => cases h
              next hany =>
                cases h
                rw [taken, if_pos hpos]
                refine ⟨rfl, fun r hr used hused => ?_⟩
                rw [List.mem_singleton.mp hr]
                exact eq_false_of_ne_true fun hover => hany (List.any_eq_true.mpr ⟨used, hused, hover⟩)
            next hzero =>
              cases h
              rw [taken, if_neg hzero, List.append_nil]
              exact ⟨rfl, nofun⟩
        next => cases h

theorem locateEntry_ne_thrown : locateEntry buf w c name ≠ .error .thrown := by
  unfold locateEntry
  split
  next => exact nofun
  next hlen =>
    obtain ⟨signature, hsignature⟩ := readLE_some (show c.localOffset + 4 ≤ buf.length by omega)
    obtain ⟨nameLength, hname⟩ := readLE_some (show c.localOffset + 26 + 2 ≤ buf.length by omega)
    obtain ⟨extraLength, hextra⟩ := readLE_some (show c.localOffset + 28 + 2 ≤ buf.length by omega)
    rw [hsignature, hname, hextra]
    simp only
    repeat' split
    all_goals exact nofun

theorem openEntry_ne_thrown : openEntry buf w ≠ .error .thrown := by
  unfold openEntry
  split
  next => exact nofun
  next hlen =>
    obtain ⟨signature, hsignature⟩ := readLE_some (show w.at_ + 4 ≤ buf.length by omega)
    obtain ⟨c, hc⟩ := readCentral_some (Nat.le_of_not_lt hlen)
    rw [hsignature, hc]
    simp only
    split
    next => exact nofun
    next =>
      split
      next => exact nofun
      next =>
        split
        next stop hadmit =>
          rintro hthrown
          cases hthrown
          exact admitEntry_ne_thrown hadmit
        next =>
          split
          next stop hlocate =>
            rintro hthrown
            cases hthrown
            exact locateEntry_ne_thrown hlocate
          next => exact nofun

/-- What a directory entry does to the walk. -/
inductive Opened (buf : Bytes) (w : Walk) : Walk → Option Entry → Prop
  | skipped (at_ : Nat) : Opened buf w { w with at_ } none
  | data (e : Entry) (at_ compressed start : Nat)
      (hsize : e.size ≤ SKILL_LIMITS.fileBytes)
      (htotal : w.total + e.size ≤ SKILL_LIMITS.totalBytes)
      (hcompressed : w.totalCompressed + compressed ≤ SKILL_LIMITS.totalBytes)
      (hrange : start + compressed ≤ buf.length)
      (hfresh : ∀ r ∈ taken start compressed, ∀ used ∈ w.usedRanges,
        overlaps r.1 r.2 used = false) :
      Opened buf w { w with
        at_, total := w.total + e.size, totalCompressed := w.totalCompressed + compressed
        usedRanges := w.usedRanges ++ taken start compressed } (some e)

theorem openEntry_ok {found : Option Entry} (h : openEntry buf w = .ok (w', found)) :
    Opened buf w w' found := by
  unfold openEntry at h
  split at h
  next => cases h
  next =>
    split at h
    next => cases h
    next =>
      split at h
      next => cases h
      next =>
        split at h
        next => cases h
        next c hc =>
          simp only at h
          split at h
          next =>
            cases h
            exact .skipped _
          next =>
            split at h
            next => cases h
            next w1 hadmit =>
              split at h
              next => cases h
              next w2 stored hlocate =>
                cases h
                obtain ⟨hsize, htotal, hcompressed, rfl⟩ := admitEntry_ok hadmit
                obtain ⟨start, hrange, rfl, hfresh⟩ := locateEntry_ok hlocate
                exact .data ⟨_, c.method, c.size, c.crc, stored⟩ _ c.compressed start hsize htotal
                  hcompressed hrange hfresh

-- =================================================================== a text

/-- A text out of so many bytes is no longer than they are. -/
theorem byteLength_decode {bytes : ByteArray} {decoded : String}
    (h : Js.decode bytes = some decoded) : byteLength (Js.codeUnits decoded) ≤ bytes.size := by
  unfold Js.decode String.fromUTF8? at h
  split at h
  next hvalid =>
    cases h
    generalize hs : String.fromUTF8 bytes hvalid = s
    have hbytes : bytes = s.toByteArray := by
      rw [← hs]
      rfl
    rw [byteLength, Js.encode, Js.toWellFormed_codeUnits, hbytes]
    unfold Js.dropBom
    split
    next => exact le_refl _
    next first rest hlist =>
      split
      next =>
        have hs' : s = String.ofList (first :: rest) := by rw [← hlist, String.ofList_toList]
        have hsize : ∀ cs, (String.ofList cs).toByteArray.size
            = (cs.flatMap String.utf8EncodeChar).length := fun _ => List.size_toByteArray
        rw [hs', hsize, List.flatMap_cons, List.length_append]
        show (String.ofList rest).toByteArray.size ≤ _
        rw [hsize]
        exact Nat.le_add_left _ _
      next => exact le_refl _
  next => cases h

variable {crc32 : Bytes → UInt32} {inflate : Bytes → Nat → Option Bytes}

theorem readData_ok (h : readData crc32 inflate e = .ok text) : byteLength text ≤ e.size := by
  unfold readData at h
  split at h
  next => cases h
  next data _ =>
    split at h
    next => cases h
    next hsize =>
      split at h
      next => cases h
      next =>
        split at h
        next => cases h
        next decoded hdecoded =>
          cases h
          rw [not_not] at hsize
          rw [← hsize]
          have hle := byteLength_decode hdecoded
          rwa [List.size_toByteArray] at hle

theorem readData_ne_thrown : readData crc32 inflate e ≠ .error .thrown := by
  unfold readData
  repeat' split
  all_goals exact nofun

-- ================================================================ assignment

theorem assign_cases {f : File} {path content : List UInt16} (h : f ∈ assign files path content) :
    (f = (path, content) ∧ path ≠ units "__proto__") ∨ f ∈ files := by
  unfold assign at h
  split at h
  next => exact .inr h
  next hname => exact (mapSet_mem h).imp_left fun heq => ⟨heq, hname⟩

theorem assign_length (files : List File) (path content : List UInt16) :
    (assign files path content).length ≤ files.length + 1 := by
  unfold assign
  split
  next => exact Nat.le_succ _
  next => exact mapSet_length

theorem assign_size (files : List File) (path content : List UInt16) :
    sizeOf_ (assign files path content) ≤ sizeOf_ files + byteLength content := by
  unfold assign
  split
  next => exact Nat.le_add_right _ _
  next => exact mapSet_size

/-- Files copied under other names: no more of them, and no larger. -/
theorem foldl_assign (k : List UInt16 → List UInt16) (raw files : List File) :
    (raw.foldl (fun unwrapped f => assign unwrapped (k f.1) f.2) files).length
        ≤ files.length + raw.length
      ∧ sizeOf_ (raw.foldl (fun unwrapped f => assign unwrapped (k f.1) f.2) files)
        ≤ sizeOf_ files + sizeOf_ raw
      ∧ ∀ f ∈ raw.foldl (fun unwrapped f => assign unwrapped (k f.1) f.2) files,
        f ∈ files ∨ ∃ g ∈ raw, f = (k g.1, g.2) ∧ f.1 ≠ units "__proto__" := by
  induction raw generalizing files with
  | nil => exact ⟨le_refl _, le_refl _, fun f hf => .inl hf⟩
  | cons g raw ih =>
      obtain ⟨hlength, hsize, hmem⟩ := ih (assign files (k g.1) g.2)
      have hlength' := assign_length files (k g.1) g.2
      have hsize' := assign_size files (k g.1) g.2
      refine ⟨?_, ?_, fun f hf => ?_⟩
      · rw [List.foldl_cons, List.length_cons]
        omega
      · rw [List.foldl_cons]
        have hcons : sizeOf_ (g :: raw) = byteLength g.2 + sizeOf_ raw := rfl
        omega
      · rcases hmem f hf with hf | ⟨g', hg', hfg⟩
        · rcases assign_cases hf with ⟨rfl, hname⟩ | hf
          · exact .inr ⟨g, List.mem_cons_self, rfl, hname⟩
          · exact .inl hf
        · exact .inr ⟨g', List.mem_cons_of_mem _ hg', hfg⟩

/-- Unwrapping adds nothing. -/
theorem unwrap_bounds (raw : List File) : (unwrap raw).length ≤ raw.length
    ∧ sizeOf_ (unwrap raw) ≤ sizeOf_ raw ∧ ∀ f ∈ unwrap raw, ∃ g ∈ raw, f.2 = g.2 := by
  unfold unwrap
  simp only
  split
  next =>
    obtain ⟨hlength, hsize, hmem⟩ := foldl_assign
      (fun path => path.drop (((raw.map (·.1)).map topOf).dedup.headD [] ++ [unit '/']).length) raw []
    refine ⟨by simpa using hlength, by simpa [sizeOf_] using hsize, fun f hf => ?_⟩
    rcases hmem f hf with hf | ⟨g, hg, hfg, -⟩
    · cases hf
    · exact ⟨g, hg, by rw [hfg]⟩
  next => exact ⟨le_refl _, le_refl _, fun f hf => ⟨f, hf, rfl⟩⟩

-- ================================================================= the walk

/-- Two ranges have nothing in common. -/
def Apart (r s : Nat × Nat) : Prop := r.2 ≤ s.1 ∨ s.2 ≤ r.1

/-- The walk is within the limits after so many entries. -/
structure Within (buf : Bytes) (w : Walk) (done : Nat) : Prop where
  total : w.total ≤ SKILL_LIMITS.totalBytes
  compressed : w.totalCompressed ≤ SKILL_LIMITS.totalBytes
  calls : w.asked.length ≤ done
  asked : w.asked.sum ≤ w.total + w.asked.length
  count : w.raw.length ≤ done
  sizes : ∀ f ∈ w.raw, byteLength f.2 ≤ SKILL_LIMITS.fileBytes
  size : sizeOf_ w.raw ≤ w.total
  inside : ∀ r ∈ w.usedRanges, r.2 ≤ buf.length
  apart : w.usedRanges.Pairwise Apart
  spent : (w.usedRanges.map fun r => r.2 - r.1).sum ≤ w.totalCompressed

theorem within_start (at_ : Nat) : Within buf ⟨at_, 0, 0, [], [], []⟩ 0 where
  total := Nat.zero_le _
  compressed := Nat.zero_le _
  calls := le_refl _
  asked := le_refl _
  count := le_refl _
  sizes := nofun
  size := le_refl _
  inside := nofun
  apart := .nil
  spent := le_refl _

theorem mem_taken {start compressed : Nat} {r : Nat × Nat} (h : r ∈ taken start compressed) :
    0 < compressed ∧ r = (start, start + compressed) := by
  unfold taken at h
  split at h
  next hpos => exact ⟨hpos, List.mem_singleton.mp h⟩
  next => cases h

theorem sum_taken (start compressed : Nat) :
    ((taken start compressed).map fun r => r.2 - r.1).sum ≤ compressed := by
  unfold taken
  split
  next => simp
  next => exact Nat.zero_le _

variable {done : Nat}

theorem Within.mono (h : Within buf w done) : Within buf w (done + 1) :=
  { h with calls := Nat.le_succ_of_le h.calls, count := Nat.le_succ_of_le h.count }

/-- The budget is spent when the entry is opened. -/
theorem Within.opened {found : Option Entry} (h : Within buf w done) (ho : Opened buf w w' found) :
    Within buf w' done ∧ w'.raw = w.raw ∧ w'.asked = w.asked
      ∧ ∀ e ∈ found, e.size ≤ SKILL_LIMITS.fileBytes ∧ w'.total = w.total + e.size := by
  cases ho with
  | skipped at_ => exact ⟨{ h with }, rfl, rfl, nofun⟩
  | data e at_ compressed start hsize htotal hcompressed hrange hfresh =>
      refine ⟨?_, rfl, rfl, fun e' he => ?_⟩
      · refine { h with total := htotal, compressed := hcompressed, asked := ?_, size := ?_,
                        inside := ?_, apart := ?_, spent := ?_ }
        · have hasked := h.asked
          show w.asked.sum ≤ w.total + e.size + w.asked.length
          omega
        · exact h.size.trans (Nat.le_add_right _ _)
        · intro r hr
          rcases List.mem_append.mp hr with hr | hr
          · exact h.inside r hr
          · rw [(mem_taken hr).2]
            exact hrange
        · refine List.pairwise_append.mpr ⟨h.apart, ?_, fun used hused r hr => ?_⟩
          · unfold taken
            split <;> simp
          · have hfalse := hfresh r hr used hused
            rw [overlaps, Bool.and_eq_false_iff, decide_eq_false_iff_not, decide_eq_false_iff_not]
              at hfalse
            exact hfalse.imp Nat.le_of_not_lt Nat.le_of_not_lt
        · have hsum := sum_taken start compressed
          have htaken := h.spent
          show ((w.usedRanges ++ taken start compressed).map fun r => r.2 - r.1).sum
            ≤ w.totalCompressed + compressed
          rw [List.map_append, List.sum_append]
          omega
      · cases he
        exact ⟨hsize, rfl⟩

/-- One entry, whatever it says. -/
theorem readEntry_within (h : Within buf w done) :
    Within buf (readEntry crc32 inflate buf w).2 (done + 1) := by
  unfold readEntry
  split
  next => exact h.mono
  next w' hopen => exact (h.opened (openEntry_ok hopen)).1.mono
  next w' e hopen =>
    obtain ⟨hw', hraw, hasked, hentry⟩ := h.opened (openEntry_ok hopen)
    obtain ⟨hsize, htotal⟩ := hentry e rfl
    have hcalled : Within buf { w' with
        asked := w'.asked ++ if e.method = 0 then [] else [e.size + 1] } (done + 1) := by
      refine { hw'.mono with calls := ?_, asked := ?_ }
      · have hcalls := hw'.calls
        simp only [List.length_append]
        split
        · simp only [List.length_nil]
          omega
        · simp only [List.length_singleton]
          omega
      · have hsum := h.asked
        simp only [List.sum_append, List.length_append, hasked, htotal]
        split
        · simp only [List.sum_nil, List.length_nil]
          omega
        · simp only [List.sum_singleton, List.length_singleton]
          omega
    simp only
    split
    next => exact hcalled
    next text hdata =>
      have hle := readData_ok hdata
      refine { hcalled with count := ?_, sizes := ?_, size := ?_ }
      · have hlength := assign_length w'.raw e.name text
        have hcount := hw'.count
        simp only
        omega
      · intro f hf
        rcases assign_cases hf with ⟨rfl, -⟩ | hf
        · exact hle.trans hsize
        · exact hw'.sizes f hf
      · have hassign := assign_size w'.raw e.name text
        have hbefore := h.size
        simp only [htotal]
        rw [hraw] at hassign ⊢
        omega

theorem readEntry_ne_thrown : (readEntry crc32 inflate buf w).1 ≠ some .thrown := by
  unfold readEntry
  split
  next stop hopen =>
    intro hthrown
    cases hthrown
    exact openEntry_ne_thrown hopen
  next => exact nofun
  next =>
    simp only
    split
    next stop hdata =>
      intro hthrown
      cases hthrown
      exact readData_ne_thrown hdata
    next => exact nofun

/-- The whole directory. -/
theorem readEntries_within (crc32 : Bytes → UInt32) (inflate : Bytes → Nat → Option Bytes)
    (count : Nat) (h : Within buf w done) :
    Within buf (readEntries crc32 inflate buf count w).2 (done + count)
      ∧ (readEntries crc32 inflate buf count w).1 ≠ some .thrown := by
  induction count generalizing w done with
  | zero => exact ⟨h, nofun⟩
  | succ count ih =>
      have hstep : Within buf (readEntry crc32 inflate buf w).2 (done + 1) := readEntry_within h
      have hthrown : (readEntry crc32 inflate buf w).1 ≠ some .thrown := readEntry_ne_thrown
      rw [readEntries]
      cases hturn : readEntry crc32 inflate buf w with
      | mk stop w' =>
          rw [hturn] at hstep hthrown
          cases stop with
          | some stop =>
              refine ⟨?_, hthrown⟩
              have hcalls : w'.asked.length ≤ done + 1 := hstep.calls
              have hcount : w'.raw.length ≤ done + 1 := hstep.count
              exact { hstep with
                calls := show w'.asked.length ≤ _ by omega
                count := show w'.raw.length ≤ _ by omega }
          | none =>
              obtain ⟨hwithin, hrest⟩ := ih hstep
              refine ⟨?_, hrest⟩
              rwa [Nat.add_assoc, Nat.add_comm 1 count] at hwithin

-- ============================================================== the guarantee

/-- What holds of an outcome, whatever the bytes were. -/
structure Unzipped.Bounded (buf : Bytes) (out : Unzipped) : Prop where
  total : out.result ≠ .error .thrown
  asked : out.asked.sum ≤ SKILL_LIMITS.totalBytes + SKILL_LIMITS.files * 4
  calls : out.asked.length ≤ SKILL_LIMITS.files * 4
  inside : ∀ r ∈ out.ranges, r.2 ≤ buf.length
  apart : out.ranges.Pairwise Apart
  spent : (out.ranges.map fun r => r.2 - r.1).sum ≤ SKILL_LIMITS.totalBytes
  files : ∀ files, out.result = .ok files →
    files.length ≤ SKILL_LIMITS.files * 4
      ∧ (∀ f ∈ files, byteLength f.2 ≤ SKILL_LIMITS.fileBytes)
      ∧ sizeOf_ files ≤ SKILL_LIMITS.totalBytes

theorem bounded_refused (error : String) : Unzipped.Bounded buf ⟨.error (.failed error), [], []⟩ where
  total := nofun
  asked := Nat.zero_le _
  calls := Nat.zero_le _
  inside := nofun
  apart := .nil
  spent := Nat.zero_le _
  files := nofun

/-- For every byte string: no read out of range, no more asked of the
decompressor than the limits and a byte an entry, files within the limits. -/
theorem readSkillZip_bounded (crc32 : Bytes → UInt32) (inflate : Bytes → Nat → Option Bytes)
    (buf : Bytes) : (readSkillZip crc32 inflate buf).Bounded buf := by
  unfold readSkillZip
  simp only
  split
  next => exact bounded_refused _
  next hlen =>
    obtain ⟨found, hfound, hle⟩ :=
      findEnd_ok (buf.length - 22 - 0xffff) (show buf.length - 22 + 4 ≤ buf.length by omega)
    rw [hfound]
    cases found with
    | none => exact bounded_refused _
    | some endAt =>
        have hend : endAt ≤ buf.length - 22 := hle endAt rfl
        obtain ⟨count, hcount⟩ := readLE_some (show endAt + 10 + 2 ≤ buf.length by omega)
        obtain ⟨dirSize, hsize⟩ := readLE_some (show endAt + 12 + 4 ≤ buf.length by omega)
        obtain ⟨dirOffset, hoffset⟩ := readLE_some (show endAt + 16 + 4 ≤ buf.length by omega)
        simp only [hcount, hsize, hoffset]
        split
        next => exact bounded_refused _
        next =>
          split
          next => exact bounded_refused _
          next =>
            split
            next => exact bounded_refused _
            next hfew =>
              obtain ⟨hwithin, hthrown⟩ := readEntries_within crc32 inflate count
                (within_start dirOffset : Within buf _ 0)
              rw [Nat.zero_add] at hwithin
              have hasked := hwithin.asked
              have htotal := hwithin.total
              have hcalls := hwithin.calls
              have hfiles := hwithin.count
              have htaken := hwithin.spent.trans hwithin.compressed
              split
              next stop w hrun =>
                rw [hrun] at hwithin hthrown hasked htotal hcalls htaken
                simp only at hasked htotal hcalls
                have hsum : w.asked.sum ≤ SKILL_LIMITS.totalBytes + SKILL_LIMITS.files * 4 := by
                  omega
                have hlength : w.asked.length ≤ SKILL_LIMITS.files * 4 := by omega
                exact ⟨fun h => hthrown (by cases h; rfl), hsum, hlength, hwithin.inside,
                  hwithin.apart, htaken, nofun⟩
              next w hrun =>
                rw [hrun] at hwithin hasked htotal hcalls hfiles htaken
                simp only at hasked htotal hcalls hfiles
                have hsum : w.asked.sum ≤ SKILL_LIMITS.totalBytes + SKILL_LIMITS.files * 4 := by
                  omega
                have hlength : w.asked.length ≤ SKILL_LIMITS.files * 4 := by omega
                refine ⟨nofun, hsum, hlength, hwithin.inside, hwithin.apart, htaken,
                  fun files hok => ?_⟩
                cases hok
                obtain ⟨hfewer, hsmaller, hmem⟩ := unwrap_bounds w.raw
                refine ⟨by omega, fun f hf => ?_, hsmaller.trans (hwithin.size.trans htotal)⟩
                obtain ⟨g, hg, hfg⟩ := hmem f hf
                rw [hfg]
                exact hwithin.sizes g hg

end Nacre.Skills
