/-
The reader of `multipart/form-data` (core/multipart.ts: `parameter`,
`parseMultipart`; api/src/server.ts: `multipartBody`).

Everything is found by searching: the delimiter, the end of a part's
headers, the delimiter again. What the search comes to is said without it
(`Reads`, `Framed`): a part is its header block, its content and a gap
before the next delimiter, of which the content has none.

# What the text is read by

Header text is UTF-16 code units. `lower` is for ASCII only: no other
character of one unit lowers to a letter of the names it is compared with,
and `/i` folds none into ASCII.
-/
import Nacre.Lib.Find
import Nacre.Lib.Units
import Nacre.Lib.Utf8

namespace Nacre.Multipart

open Json (units)

abbrev Text := List UInt16
abbrev Bytes := List UInt8

structure Part where
  name : Text
  filename : Option Text := none
  contentType : Option Text := none
  bytes : Bytes
  deriving DecidableEq

-- =============================================================== constants

def MAX_PARTS : Nat := 16
def MAX_PART_HEADER_BYTES : Nat := 8 * 1024

def CRLF : Bytes := [0x0D, 0x0A]
def DOUBLE_CRLF : Bytes := [0x0D, 0x0A, 0x0D, 0x0A]
/-- `--`, after the last delimiter. -/
def DASHES : Bytes := [0x2D, 0x2D]

def CR : UInt16 := 0x0D
def LF : UInt16 := 0x0A
def QUOTE : UInt16 := 0x22
def COLON : UInt16 := 0x3A
def SEMICOLON : UInt16 := 0x3B
def EQUALS : UInt16 := 0x3D

-- ============================================================== parameters

def lower (u : UInt16) : UInt16 := if 0x41 ≤ u ∧ u ≤ 0x5A then u + 0x20 else u

/-- `("([^"]*)"|[^;]*)`: the second group where it took part, or else the
first. -/
def captured : Text → Text
  | [] => []
  | u :: s =>
      if u = QUOTE ∧ QUOTE ∈ s then s.takeWhile fun v => v ≠ QUOTE
      else (u :: s).takeWhile fun v => v ≠ SEMICOLON

/-- `=\s*` and the value. -/
def valueAt : Text → Option Text
  | [] => none
  | u :: s => if u = EQUALS then some (captured (Units.trimStart s)) else none

/-- `\s*key\s*` and the rest, where the text starts so. -/
def parameterAt (key s : Text) : Option Text :=
  if ((Units.trimStart s).take key.length).map lower = key then
    valueAt (Units.trimStart ((Units.trimStart s).drop key.length))
  else none

/-- The first `;` the parameter comes after. -/
def afterSemicolon (key : Text) : Text → Option Text
  | [] => none
  | u :: s =>
      if u = SEMICOLON then
        match parameterAt key s with
        | some value => some value
        | none => afterSemicolon key s
      else afterSemicolon key s

def parameter (header key : Text) : Option Text :=
  (match parameterAt key header with
    | some value => some value
    | none => afterSemicolon key header).map Units.trim

-- ================================================================= headers

/-- `text.split('\r\n')`. -/
def splitLines : Text → List Text
  | [] => [[]]
  | [u] => [[u]]
  | u :: v :: s =>
      if u = CR ∧ v = LF then [] :: splitLines s
      else
        match splitLines (v :: s) with
        | [] => [[u]]
        | line :: lines => (u :: line) :: lines

structure Head where
  disposition : Option Text := none
  contentType : Option Text := none
  deriving DecidableEq

/-- One turn of the loop over the lines, with the line's name and value. -/
def field (head : Head) (key value : Text) : Except Text Head :=
  if key = units "content-disposition" then .ok { head with disposition := some value }
  else if key = units "content-type" then .ok { head with contentType := some value }
  else if key = units "content-transfer-encoding" ∧ value.map lower ≠ units "binary" then
    .error (units "content-transfer-encoding " ++ value ++ units " is not supported")
  else .ok head

def headerLine (head : Head) (line : Text) : Except Text Head :=
  match Find.indexOf [COLON] line with
  | none => .ok head
  | some colon =>
      field head ((Units.trim (line.take colon)).map lower) (Units.trim (line.drop (colon + 1)))

def readLines : Head → List Text → Except Text Head
  | head, [] => .ok head
  | head, line :: lines =>
      match headerLine head line with
      | .error e => .error e
      | .ok head => readLines head lines

/-- A part from its headers and its content. -/
def partOf (headers : Text) (bytes : Bytes) : Except Text Part :=
  match readLines {} (splitLines headers) with
  | .error e => .error e
  | .ok head =>
      match head.disposition with
      | none => .error (units "a multipart part has no content-disposition")
      | some disposition =>
          match parameter disposition (units "name") with
          | none | some [] => .error (units "a multipart part has no name")
          | some (u :: name) =>
              .ok {
                name := u :: name
                filename := (parameter disposition (units "filename")).filter fun f => f ≠ []
                contentType := head.contentType
                bytes }

-- =================================================================== parts

/-- The CRLF immediately before the next delimiter belongs to the
delimiter. -/
def contentEnd (body : Bytes) (next : Nat) : Nat :=
  if 2 ≤ next ∧ (body.take next).drop (next - 2) = CRLF then next - 2 else next

/-- A part whose headers begin here, and where the next delimiter is. -/
def readPart (body delimiter : Bytes) (start : Nat) : Except Text (Part × Nat) :=
  match Find.indexFrom DOUBLE_CRLF body start with
  | none => .error (units "a multipart part has no header block")
  | some headerEnd =>
      if MAX_PART_HEADER_BYTES < headerEnd - start then
        .error (units "a multipart part has an implausibly large header block")
      else
        match Find.indexFrom delimiter body (headerEnd + DOUBLE_CRLF.length) with
        | none => .error (units "a multipart part is not terminated")
        | some next =>
            match partOf (Buffer.decode ((body.take headerEnd).drop start))
                ((body.take (contentEnd body next)).drop (headerEnd + DOUBLE_CRLF.length)) with
            | .error e => .error e
            | .ok p => .ok (p, next)

/-- The loop, with how many parts more it may come back for. -/
def readParts (body delimiter : Bytes) : Nat → Nat → List Part → Except Text (List Part)
  | left, cursor, parts =>
      if (body.drop (cursor + delimiter.length)).take 2 = DASHES then .ok parts
      else if (body.drop (cursor + delimiter.length)).take 2 ≠ CRLF then
        .error (units "a multipart boundary is not followed by CRLF")
      else
        match readPart body delimiter (cursor + delimiter.length + 2) with
        | .error e => .error e
        | .ok found =>
            match left with
            | 0 => .error (units "a multipart body may carry at most 16 parts")
            | left + 1 => readParts body delimiter left found.2 (parts ++ [found.1])

def delimiterOf (boundary : Text) : Bytes := Utf8.bytesOf (units "--" ++ boundary)

/-- The last check. -/
def carrying : Except Text (List Part) → Except Text (List Part)
  | .ok [] => .error (units "the multipart body carries no parts")
  | read => read

def parseMultipart (body : Bytes) (boundary : Text) : Except Text (List Part) :=
  match Find.indexOf (delimiterOf boundary) body with
  | none => .error (units "the body contains no multipart boundary")
  | some cursor => carrying (readParts body (delimiterOf boundary) MAX_PARTS cursor [])

-- ============================================================= the grammar

/-- A part's header block, its content, the gap before the next delimiter,
and what is from there on. -/
structure Reads (delimiter headers content gap rest : Bytes) (p : Part) : Prop where
  short : headers.length ≤ MAX_PART_HEADER_BYTES
  block : ∀ i < headers.length, ¬ Find.At DOUBLE_CRLF (headers ++ DOUBLE_CRLF) i
  next : delimiter <+: rest
  clear : ∀ i < content.length + gap.length, ¬ Find.At delimiter (content ++ (gap ++ rest)) i
  gap : gap = CRLF ∨ gap = [] ∧ ¬ CRLF <:+ content
  part : partOf (Buffer.decode headers) content = .ok p

/-- From a delimiter to the end of the body. -/
inductive Framed (delimiter : Bytes) : Bytes → List Part → Prop where
  | close (epilogue : Bytes) : Framed delimiter (delimiter ++ (DASHES ++ epilogue)) []
  | part {headers content gap rest : Bytes} {p : Part} {ps : List Part}
      (hp : Reads delimiter headers content gap rest p) (hrest : Framed delimiter rest ps) :
      Framed delimiter (delimiter ++ (CRLF ++ (headers ++ (DOUBLE_CRLF ++
        (content ++ (gap ++ rest)))))) (p :: ps)

variable {delimiter headers content gap rest s before body : Bytes} {p : Part} {n : Nat}

theorem indexFrom_before (before s needle : Bytes) (k : Nat) :
    Find.indexFrom needle (before ++ s) (before.length + k) =
      (Find.indexOf needle (s.drop k)).map (· + (before.length + k)) := by
  rw [Find.indexFrom, List.drop_length_add_append]

theorem slice_before (m k : Nat) :
    ((before ++ s).take (before.length + k)).drop (before.length + m) = (s.take k).drop m := by
  rw [List.take_length_add_append, List.drop_length_add_append]

/-- An occurrence that begins in the first part and fits into both is in
both. -/
theorem at_append_left {needle a b c : Bytes} {i : Nat} (hi : i + needle.length ≤ (a ++ b).length) :
    Find.At needle (a ++ (b ++ c)) i ↔ Find.At needle (a ++ b) i := by
  rw [← List.append_assoc]
  unfold Find.At
  rw [List.drop_append_of_le_length (by omega)]
  constructor
  · intro h
    refine List.prefix_of_prefix_length_le h (List.prefix_append _ _) ?_
    rw [List.length_drop]
    omega
  · exact fun h => h.trans (List.prefix_append _ _)

-- ====================================================== one part, by pieces

/-- What stands before a delimiter, without the CRLF that is the
delimiter's. -/
def contentOf (region : Bytes) : Bytes :=
  if CRLF <:+ region then region.take (region.length - 2) else region

/-- After a CRLF, a region too short to end in one does not. -/
theorem crlf_suffix {left region : Bytes} (hleft : DOUBLE_CRLF <:+ left) (hne : region ≠ []) :
    CRLF <:+ left ++ region ↔ CRLF <:+ region := by
  refine ⟨fun h => ?_, fun h => h.trans (List.suffix_append _ _)⟩
  obtain ⟨front, hfront⟩ := hleft
  rcases hregion : region.reverse with _ | ⟨x, _ | ⟨y, rest⟩⟩
  · exact absurd (List.reverse_eq_nil_iff.mp hregion) hne
  · have hone : region = [x] := by
      rw [← List.reverse_reverse region, hregion]
      rfl
    rw [hone, ← hfront] at h
    have h := List.reverse_prefix.mpr h
    simp [CRLF, DOUBLE_CRLF] at h
  · have h := List.reverse_prefix.mpr h
    rw [← List.reverse_prefix, hregion]
    rw [List.reverse_append, hregion] at h
    exact List.prefix_of_prefix_length_le h (List.prefix_append _ _)
      (by simp [CRLF])

/-- The content of a part, cut where `contentEnd` says. -/
theorem contentEnd_eq {left : Bytes} (hleft : DOUBLE_CRLF <:+ left) (region rest : Bytes) :
    ((left ++ (region ++ rest)).take (contentEnd (left ++ (region ++ rest))
      (left ++ region).length)).drop left.length = contentOf region := by
  have htake : (left ++ (region ++ rest)).take (left ++ region).length = left ++ region := by
    rw [← List.append_assoc, List.take_left]
  have hcond : (2 ≤ (left ++ region).length ∧
      ((left ++ (region ++ rest)).take (left ++ region).length).drop
        ((left ++ region).length - 2) = CRLF) ↔ CRLF <:+ left ++ region := by
    rw [htake]
    constructor
    · rintro ⟨-, heq⟩
      exact heq ▸ List.drop_suffix _ _
    · intro h
      exact ⟨h.length_le, (List.suffix_iff_eq_drop.mp h).symm⟩
  rw [contentEnd, contentOf]
  by_cases hnil : region = []
  · subst hnil
    have hdouble : CRLF <:+ left ++ [] := by
      rw [List.append_nil]
      exact List.IsSuffix.trans (by decide) hleft
    rw [if_pos (hcond.mpr hdouble)]
    rw [List.append_nil, List.nil_append, List.drop_eq_nil_of_le]
    · rfl
    · rw [List.length_take]
      omega
  · rw [crlf_suffix hleft hnil] at hcond
    by_cases hsuffix : CRLF <:+ region
    · rw [if_pos (hcond.mpr hsuffix), if_pos hsuffix]
      have hlength : 2 ≤ region.length := hsuffix.length_le
      rw [List.length_append, Nat.add_sub_assoc hlength, List.take_length_add_append, List.drop_left,
        List.take_append_of_le_length (Nat.sub_le _ _)]
    · rw [if_neg (fun h => hsuffix (hcond.mp h)), if_neg hsuffix, htake, List.drop_left]

/-- A part read from what follows its delimiter. -/
def readFrom (delimiter s : Bytes) : Except Text (Part × Nat) :=
  match Find.indexOf DOUBLE_CRLF s with
  | none => .error (units "a multipart part has no header block")
  | some e =>
      if MAX_PART_HEADER_BYTES < e then
        .error (units "a multipart part has an implausibly large header block")
      else
        match Find.indexOf delimiter (s.drop (e + 4)) with
        | none => .error (units "a multipart part is not terminated")
        | some n =>
            match partOf (Buffer.decode (s.take e)) (contentOf ((s.drop (e + 4)).take n)) with
            | .error why => .error why
            | .ok p => .ok (p, e + 4 + n)

theorem readPart_eq (before s : Bytes) (hne : delimiter ≠ []) :
    readPart (before ++ s) delimiter before.length =
      (readFrom delimiter s).map fun r => (r.1, before.length + r.2) := by
  unfold readPart readFrom
  have hfirst := indexFrom_before before s DOUBLE_CRLF 0
  rw [Nat.add_zero, List.drop_zero] at hfirst
  rw [hfirst]
  cases he : Find.indexOf DOUBLE_CRLF s with
  | none => rfl
  | some e =>
      simp only [Option.map_some, Nat.add_sub_cancel]
      by_cases hlarge : MAX_PART_HEADER_BYTES < e
      · rw [if_pos hlarge, if_pos hlarge]
        rfl
      · rw [if_neg hlarge, if_neg hlarge]
        have hsplit := (Find.indexOf_some he).1.split
        have hnext := indexFrom_before before s delimiter (e + 4)
        rw [show before.length + (e + 4) = e + before.length + DOUBLE_CRLF.length by
          show _ = e + before.length + 4; omega] at hnext
        rw [hnext]
        cases hn : Find.indexOf delimiter (s.drop (e + 4)) with
        | none => rfl
        | some n =>
            simp only [Option.map_some]
            have hheaders : ((before ++ s).take (e + before.length)).drop before.length = s.take e := by
              rw [Nat.add_comm, List.take_length_add_append, List.drop_left]
            have hle := (Find.indexOf_some he).1.le (by decide)
            have hle' := (Find.indexOf_some hn).1.le hne
            rw [List.length_drop] at hle'
            have hleft : (before ++ (s.take e ++ DOUBLE_CRLF)).length = e + before.length + 4 := by
              have hlength : (s.take e).length = e := List.length_take_of_le (by omega)
              rw [List.length_append, List.length_append, hlength]
              show before.length + (e + 4) = _
              omega
            have hregion : ((s.drop (e + 4)).take n).length = n :=
              List.length_take_of_le (by rw [List.length_drop]; omega)
            have hbody : before ++ s = (before ++ (s.take e ++ DOUBLE_CRLF)) ++
                ((s.drop (e + 4)).take n ++ (s.drop (e + 4)).drop n) := by
              rw [List.take_append_drop, List.append_assoc, List.append_assoc]
              exact congrArg (before ++ ·) hsplit
            have hdouble : DOUBLE_CRLF <:+ before ++ (s.take e ++ DOUBLE_CRLF) :=
              (List.suffix_append _ _).trans (List.suffix_append _ _)
            have hcontent := contentEnd_eq hdouble ((s.drop (e + 4)).take n) ((s.drop (e + 4)).drop n)
            have hnextAt : (before ++ (s.take e ++ DOUBLE_CRLF) ++ (s.drop (e + 4)).take n).length =
                e + before.length + 4 + n := by
              rw [List.length_append, hleft, hregion]
            rw [← hbody, hnextAt, hleft] at hcontent
            rw [hheaders, show DOUBLE_CRLF.length = 4 from rfl,
              show n + (e + before.length + 4) = e + before.length + 4 + n by omega, hcontent]
            cases partOf (Buffer.decode (s.take e)) (contentOf ((s.drop (e + 4)).take n)) with
            | error => rfl
            | ok p =>
                show Except.ok (p, _) = Except.ok (p, _)
                rw [show e + before.length + 4 + n = before.length + (e + 4 + n) by omega]

/-- What is read is one of the grammar's parts. -/
theorem readFrom_sound (hne : delimiter ≠ []) (h : readFrom delimiter s = .ok (p, n)) :
    ∃ headers content gap rest, s = headers ++ (DOUBLE_CRLF ++ (content ++ (gap ++ rest))) ∧
      s.drop n = rest ∧ Reads delimiter headers content gap rest p := by
  unfold readFrom at h
  split at h
  next => cases h
  next e he =>
    split at h
    next => cases h
    next hlarge =>
      split at h
      next => cases h
      next k hk =>
        split at h
        next => cases h
        next q hpart =>
          obtain ⟨rfl, rfl⟩ := Prod.mk.inj (Except.ok.inj h)
          obtain ⟨hat, hbefore⟩ := Find.indexOf_some he
          obtain ⟨hat', hbefore'⟩ := Find.indexOf_some hk
          have hle : e + 4 ≤ s.length := hat.le (by decide)
          have hheaders : (s.take e).length = e := List.length_take_of_le (by omega)
          obtain ⟨content, gap, hregion, hcontent, hgap⟩ : ∃ content gap,
              (s.drop (e + 4)).take k = content ++ gap ∧
              contentOf ((s.drop (e + 4)).take k) = content ∧
              (gap = CRLF ∨ gap = [] ∧ ¬ CRLF <:+ content) := by
            unfold contentOf
            split
            next hsuffix =>
              refine ⟨_, CRLF, ?_, rfl, .inl rfl⟩
              have hlast : ((s.drop (e + 4)).take k).drop (((s.drop (e + 4)).take k).length - 2) =
                  CRLF := (List.suffix_iff_eq_drop.mp hsuffix).symm
              conv_rhs => rw [← hlast]
              rw [List.take_append_drop]
            next hsuffix => exact ⟨_, [], (List.append_nil _).symm, rfl, .inr ⟨rfl, hsuffix⟩⟩
          have hlength : content.length + gap.length = k := by
            rw [← List.length_append, ← hregion]
            have := hat'.le hne
            exact List.length_take_of_le (by omega)
          have hdrop : s.drop (e + 4 + k) = (s.drop (e + 4)).drop k := List.drop_drop.symm
          have hs : s = s.take e ++ (DOUBLE_CRLF ++ (content ++ (gap ++ s.drop (e + 4 + k)))) := by
            rw [← List.append_assoc content, ← hregion, hdrop, List.take_append_drop]
            exact hat.split
          refine ⟨s.take e, content, gap, s.drop (e + 4 + k), hs, rfl, ?_, ?_, ?_, ?_, hgap, ?_⟩
          · rw [hheaders]
            omega
          · intro i hi hati
            rw [hheaders] at hi
            refine hbefore i hi ?_
            rw [hs]
            refine (at_append_left ?_).mpr hati
            rw [List.length_append, hheaders]
            show i + 4 ≤ e + 4
            omega
          · rw [hdrop]
            exact hat'
          · intro i hi
            rw [hlength] at hi
            have := hbefore' i hi
            rw [← List.append_assoc, ← hregion, hdrop, List.take_append_drop]
            exact this
          · rw [← hcontent]
            exact hpart

/-- And every part of the grammar is read. -/
theorem readFrom_complete (h : Reads delimiter headers content gap rest p) :
    readFrom delimiter (headers ++ (DOUBLE_CRLF ++ (content ++ (gap ++ rest)))) =
      .ok (p, headers.length + 4 + (content.length + gap.length)) := by
  have hend : Find.indexOf DOUBLE_CRLF (headers ++ (DOUBLE_CRLF ++ (content ++ (gap ++ rest)))) =
      some headers.length := by
    refine Find.indexOf_eq_some.mpr ⟨?_, fun i hi hat => h.block i hi ?_⟩
    · rw [Find.At, List.drop_left]
      exact List.prefix_append _ _
    · refine (at_append_left ?_).mp hat
      rw [List.length_append]
      show i + 4 ≤ headers.length + 4
      omega
  have htail : (headers ++ (DOUBLE_CRLF ++ (content ++ (gap ++ rest)))).drop (headers.length + 4) =
      content ++ (gap ++ rest) := by
    rw [List.drop_length_add_append]
    rfl
  have hnext : Find.indexOf delimiter (content ++ (gap ++ rest)) =
      some (content.length + gap.length) := by
    refine Find.indexOf_eq_some.mpr ⟨?_, h.clear⟩
    rw [Find.At, List.drop_length_add_append, List.drop_left]
    exact h.next
  have hregion : (content ++ (gap ++ rest)).take (content.length + gap.length) = content ++ gap := by
    rw [← List.append_assoc, ← List.length_append, List.take_left]
  have hcontent : contentOf (content ++ gap) = content := by
    unfold contentOf
    rcases h.gap with hgap | ⟨hgap, hsuffix⟩
    · rw [hgap, if_pos (List.suffix_append _ _), List.length_append]
      show (content ++ CRLF).take (content.length + 2 - 2) = content
      rw [Nat.add_sub_cancel, List.take_left]
    · rw [hgap, List.append_nil, if_neg hsuffix]
  unfold readFrom
  rw [hend]
  simp only []
  rw [if_neg (Nat.not_lt.mpr h.short), htail, hnext]
  simp only []
  rw [List.take_left, hregion, hcontent, h.part]

-- ================================================================ the body

theorem framed_cases {ps : List Part} (h : Framed delimiter s ps) :
    (∃ epilogue, s = delimiter ++ (DASHES ++ epilogue) ∧ ps = []) ∨
      ∃ headers content gap rest p ps', s = delimiter ++ (CRLF ++ (headers ++ (DOUBLE_CRLF ++
        (content ++ (gap ++ rest))))) ∧ ps = p :: ps' ∧
        Reads delimiter headers content gap rest p ∧ Framed delimiter rest ps' := by
  cases h with
  | close epilogue => exact .inl ⟨epilogue, rfl, rfl⟩
  | part hp hrest => exact .inr ⟨_, _, _, _, _, _, rfl, rfl, hp, hrest⟩

/-- What the first two bytes after a delimiter say. -/
theorem framed_head {t : Bytes} {ps : List Part} (h : Framed delimiter (delimiter ++ t) ps) :
    (t.take 2 = DASHES ∧ ps = []) ∨ t.take 2 = CRLF := by
  rcases framed_cases h with ⟨epilogue, heq, hps⟩ | ⟨_, _, _, _, _, _, heq, -⟩
  · rw [List.append_cancel_left heq]
    exact .inl ⟨rfl, hps⟩
  · rw [List.append_cancel_left heq]
    exact .inr rfl

/-- The loop at a delimiter that a part follows. -/
theorem readParts_part {u : Bytes} (hne : delimiter ≠ []) (left : Nat) (parts : List Part) :
    readParts (before ++ (delimiter ++ (CRLF ++ u))) delimiter left before.length parts =
      match readFrom delimiter u with
      | .error e => .error e
      | .ok found =>
          match left with
          | 0 => .error (units "a multipart body may carry at most 16 parts")
          | left + 1 => readParts (before ++ (delimiter ++ (CRLF ++ u))) delimiter left
              (before.length + delimiter.length + 2 + found.2) (parts ++ [found.1]) := by
  have htwo : ((before ++ (delimiter ++ (CRLF ++ u))).drop
      (before.length + delimiter.length)).take 2 = CRLF := by
    rw [List.drop_length_add_append, List.drop_left]
    rfl
  have hpart : readPart (before ++ (delimiter ++ (CRLF ++ u))) delimiter
      (before.length + delimiter.length + 2) =
        (readFrom delimiter u).map fun r => (r.1, before.length + delimiter.length + 2 + r.2) := by
    have hstart := readPart_eq (before ++ (delimiter ++ CRLF)) u hne
    rw [show (before ++ (delimiter ++ CRLF)).length = before.length + delimiter.length + 2 by
      rw [List.length_append, List.length_append, Nat.add_assoc]; rfl] at hstart
    rw [← hstart, List.append_assoc, List.append_assoc]
  cases left with
  | zero =>
      rw [readParts, htwo, hpart, if_neg (by decide), if_neg (by decide)]
      cases readFrom delimiter u <;> rfl
  | succ left =>
      rw [readParts, htwo, hpart, if_neg (by decide), if_neg (by decide)]
      cases readFrom delimiter u <;> rfl

/-- The loop at the last delimiter. -/
theorem readParts_close {epilogue : Bytes} (left : Nat) (parts : List Part) :
    readParts (before ++ (delimiter ++ (DASHES ++ epilogue))) delimiter left before.length parts =
      .ok parts := by
  have htwo : ((before ++ (delimiter ++ (DASHES ++ epilogue))).drop
      (before.length + delimiter.length)).take 2 = DASHES := by
    rw [List.drop_length_add_append, List.drop_left]
    rfl
  cases left <;> rw [readParts, htwo, if_pos rfl]

/-- The loop goes on at the next delimiter. -/
theorem readParts_next {u : Bytes} {found : Part × Nat} (hne : delimiter ≠ []) (left : Nat)
    (parts : List Part) (hfound : readFrom delimiter u = .ok found) :
    readParts (before ++ (delimiter ++ (CRLF ++ u))) delimiter (left + 1) before.length parts =
      readParts ((before ++ (delimiter ++ (CRLF ++ u.take found.2))) ++ u.drop found.2) delimiter left
        (before ++ (delimiter ++ (CRLF ++ u.take found.2))).length (parts ++ [found.1]) := by
  have hle : found.2 ≤ u.length := by
    obtain ⟨_, _, _, rest, -, hdrop, hreads⟩ := readFrom_sound hne hfound
    by_contra hlt
    rw [List.drop_eq_nil_of_le (by omega)] at hdrop
    have hnext := hreads.next
    rw [← hdrop] at hnext
    exact hne (List.prefix_nil.mp hnext)
  rw [readParts_part hne, hfound]
  simp only []
  congr 1
  · simp only [List.append_assoc, List.take_append_drop]
  · simp only [List.length_append, List.length_take_of_le hle]
    show _ = before.length + (delimiter.length + (2 + found.2))
    omega

/-- The loop at a delimiter that nothing of the kind follows. -/
theorem readParts_other {t : Bytes} (hdashes : t.take 2 ≠ DASHES) (hcrlf : t.take 2 ≠ CRLF)
    (left : Nat) (parts : List Part) :
    readParts (before ++ (delimiter ++ t)) delimiter left before.length parts =
      .error (units "a multipart boundary is not followed by CRLF") := by
  have htwo : ((before ++ (delimiter ++ t)).drop (before.length + delimiter.length)).take 2 =
      t.take 2 := by
    rw [List.drop_length_add_append, List.drop_left]
  cases left <;> rw [readParts, htwo, if_neg hdashes, if_pos hcrlf]

/-- The rest of the loop, where no part follows. -/
theorem readParts_iff_end {t : Bytes} (hcrlf : t.take 2 ≠ CRLF) (left : Nat) (before : Bytes)
    (parts out : List Part) :
    readParts (before ++ (delimiter ++ t)) delimiter left before.length parts = .ok out ↔
      ∃ ps, out = parts ++ ps ∧ ps.length ≤ left ∧ Framed delimiter (delimiter ++ t) ps := by
  by_cases hdashes : t.take 2 = DASHES
  · have ht : t = DASHES ++ t.drop 2 := by rw [← hdashes, List.take_append_drop]
    constructor
    · intro h
      rw [ht, readParts_close] at h
      refine ⟨[], by rw [List.append_nil, Except.ok.inj h], Nat.zero_le _, ?_⟩
      rw [ht]
      exact .close _
    · rintro ⟨ps, rfl, -, hframed⟩
      have hnil := (framed_head hframed).resolve_right hcrlf
      rw [hnil.2, List.append_nil, ht, readParts_close]
  · rw [readParts_other hdashes hcrlf]
    constructor
    · intro h
      cases h
    · rintro ⟨ps, -, -, hframed⟩
      rcases framed_head hframed with ⟨h, -⟩ | h
      · exact absurd h hdashes
      · exact absurd h hcrlf

/-- A part follows. -/
theorem framed_part {u : Bytes} {ps : List Part}
    (h : Framed delimiter (delimiter ++ (CRLF ++ u)) ps) :
    ∃ headers content gap rest p ps', u = headers ++ (DOUBLE_CRLF ++ (content ++ (gap ++ rest))) ∧
      ps = p :: ps' ∧ Reads delimiter headers content gap rest p ∧ Framed delimiter rest ps' := by
  rcases framed_cases h with ⟨epilogue, heq, -⟩ | ⟨headers, content, gap, rest, p, ps', heq, hrest⟩
  · have htwo := congrArg (List.take 2) (List.append_cancel_left heq)
    exact absurd htwo (by simp [CRLF, DASHES])
  · exact ⟨headers, content, gap, rest, p, ps',
      List.append_cancel_left (List.append_cancel_left heq), hrest⟩

/-- The rest of the loop, from a delimiter on. -/
theorem readParts_iff (hne : delimiter ≠ []) : ∀ (left : Nat) (before s : Bytes)
    (parts out : List Part), delimiter <+: s →
    (readParts (before ++ s) delimiter left before.length parts = .ok out ↔
      ∃ ps, out = parts ++ ps ∧ ps.length ≤ left ∧ Framed delimiter s ps) := by
  intro left
  induction left with
  | zero =>
      rintro before s parts out ⟨t, rfl⟩
      by_cases hcrlf : t.take 2 = CRLF
      · obtain ⟨u, rfl⟩ : ∃ u, t = CRLF ++ u := ⟨t.drop 2, by rw [← hcrlf, List.take_append_drop]⟩
        rw [readParts_part hne]
        constructor
        · intro h
          split at h
          next => cases h
          next => cases h
        · rintro ⟨ps, -, hlength, hframed⟩
          obtain ⟨_, _, _, _, p, ps', -, rfl, -⟩ := framed_part hframed
          exact absurd hlength (Nat.not_succ_le_zero _)
      · exact readParts_iff_end hcrlf 0 before parts out
  | succ left ih =>
      rintro before s parts out ⟨t, rfl⟩
      by_cases hcrlf : t.take 2 = CRLF
      · obtain ⟨u, rfl⟩ : ∃ u, t = CRLF ++ u := ⟨t.drop 2, by rw [← hcrlf, List.take_append_drop]⟩
        constructor
        · intro h
          cases hfound : readFrom delimiter u with
          | error e =>
              rw [readParts_part hne, hfound] at h
              cases h
          | ok found =>
              obtain ⟨headers, content, gap, rest, hu, hdrop, hreads⟩ := readFrom_sound hne hfound
              rw [readParts_next hne left parts hfound, hdrop, ih _ _ _ _ hreads.next] at h
              obtain ⟨ps, rfl, hlength, hframed⟩ := h
              refine ⟨found.1 :: ps, by rw [List.append_assoc]; rfl, Nat.succ_le_succ hlength, ?_⟩
              rw [hu]
              exact .part hreads hframed
        · rintro ⟨ps, rfl, hlength, hframed⟩
          obtain ⟨headers, content, gap, rest, p, ps', rfl, rfl, hreads, hrest⟩ :=
            framed_part hframed
          rw [readParts_next hne left parts (readFrom_complete hreads)]
          have hdrop : (headers ++ (DOUBLE_CRLF ++ (content ++ (gap ++ rest)))).drop
              (headers.length + 4 + (content.length + gap.length)) = rest := by
            rw [← List.drop_drop, List.drop_length_add_append]
            show (content ++ (gap ++ rest)).drop _ = rest
            rw [List.drop_length_add_append, List.drop_left]
          simp only [hdrop]
          rw [ih _ _ _ _ hreads.next]
          exact ⟨ps', by rw [List.append_assoc]; rfl, Nat.le_of_succ_le_succ hlength, hrest⟩
      · exact readParts_iff_end hcrlf (left + 1) before parts out

theorem units_plain (text : String) (h : (units text).all fun u => decide (u < 0x80)) :
    ∀ u ∈ units text, Utf8.Plain u := by
  intro u hu
  have hlt := of_decide_eq_true (List.all_eq_true.mp h u hu)
  rw [Utf8.plain_iff]
  rintro ⟨hlow, -⟩
  have h₁ := UInt16.lt_iff_toNat_lt.mp hlt
  have h₂ := UInt16.le_iff_toNat_le.mp hlow
  simp at h₁ h₂
  omega

theorem delimiterOf_ne (boundary : Text) : delimiterOf boundary ≠ [] := by
  intro hnil
  have hback := Utf8.decode_bytesOf (units "--" ++ boundary)
  rw [show Utf8.bytesOf (units "--" ++ boundary) = [] from hnil,
    Utf8.repaired_append_plain (units_plain "--" (by decide))] at hback
  cases hback

theorem framed_begins {ps : List Part} (h : Framed delimiter s ps) : delimiter <+: s := by
  rcases framed_cases h with ⟨_, rfl, -⟩ | ⟨_, _, _, _, _, _, rfl, -⟩
  · exact List.prefix_append _ _
  · exact List.prefix_append _ _

theorem carrying_iff {read : Except Text (List Part)} {out : List Part} :
    carrying read = .ok out ↔ out ≠ [] ∧ read = .ok out := by
  unfold carrying
  split
  next =>
    constructor
    · intro h
      cases h
    · rintro ⟨hne, h⟩
      exact absurd (Except.ok.inj h).symm hne
  next hnot =>
    constructor
    · rintro rfl
      refine ⟨?_, rfl⟩
      rintro rfl
      exact hnot rfl
    · exact fun h => h.2

/-- Parts that are framed are read. -/
theorem parseMultipart_complete {boundary : Text} {parts : List Part} (hne : parts ≠ [])
    (hlength : parts.length ≤ 16) (hnone : ∀ i < before.length,
      ¬ Find.At (delimiterOf boundary) (before ++ rest) i)
    (hframed : Framed (delimiterOf boundary) rest parts) :
    parseMultipart (before ++ rest) boundary = .ok parts := by
  have hhere : Find.At (delimiterOf boundary) (before ++ rest) before.length := by
    rw [Find.At, List.drop_left]
    exact framed_begins hframed
  rw [parseMultipart, Find.indexOf_eq_some.mpr ⟨hhere, hnone⟩]
  simp only []
  rw [carrying_iff]
  refine ⟨hne, ?_⟩
  rw [readParts_iff (delimiterOf_ne boundary) MAX_PARTS before rest [] parts (framed_begins hframed)]
  exact ⟨parts, rfl, hlength, hframed⟩

/-- What is read is framed. -/
theorem parseMultipart_sound {boundary : Text} {parts : List Part}
    (h : parseMultipart body boundary = .ok parts) :
    parts ≠ [] ∧ parts.length ≤ 16 ∧ ∃ preamble rest, body = preamble ++ rest ∧
      (∀ i < preamble.length, ¬ Find.At (delimiterOf boundary) body i) ∧
      Framed (delimiterOf boundary) rest parts := by
  unfold parseMultipart at h
  cases hcursor : Find.indexOf (delimiterOf boundary) body with
  | none =>
      rw [hcursor] at h
      cases h
  | some cursor =>
      obtain ⟨hfirst, hbefore⟩ := Find.indexOf_some hcursor
      have hlength : (body.take cursor).length = cursor := by
        have := hfirst.le (delimiterOf_ne boundary)
        exact List.length_take_of_le (by omega)
      have hparts := readParts_iff (delimiterOf_ne boundary) MAX_PARTS (body.take cursor)
        (body.drop cursor) [] parts hfirst
      rw [List.take_append_drop, hlength] at hparts
      rw [hcursor] at h
      obtain ⟨hne, hread⟩ := carrying_iff.mp h
      obtain ⟨ps, rfl, hbound, hframed⟩ := hparts.mp hread
      exact ⟨hne, hbound, body.take cursor, body.drop cursor, (List.take_append_drop _ _).symm,
        by rw [hlength]; exact hbefore, hframed⟩

end Nacre.Multipart
