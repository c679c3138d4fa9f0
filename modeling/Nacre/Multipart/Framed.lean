/-
A form through the wire: what a client writes of its parts (`frame`), and
what the reader makes of it.

# Where a part comes back

A part comes back as it was where nothing of it is mistaken for something
else (`Framable`): its content has no delimiter in it, with or without a
line end before it; its name and file name are free of quotes and line
ends, and have nothing around them that `trim` takes; and its name has no
`; filename=` in it, which is searched for inside the quotes too.
-/
import Nacre.Multipart.Parse

namespace Nacre.Multipart

open Json (units)
open Units (Trimmed isWellFormed)

-- =============================================================== the client

def quoted (text : Text) : Text := QUOTE :: (text ++ [QUOTE])

/-- `; filename="…"`, where there is one. -/
def filenameOf : Option Text → Text
  | none => []
  | some f => units "; filename=" ++ quoted f

def dispositionOf (p : Part) : Text :=
  units "form-data; name=" ++ (quoted p.name ++ filenameOf p.filename)

/-- The line of the content type, where there is one. -/
def typeLineOf : Option Text → Text
  | none => []
  | some t => [CR, LF] ++ (units "Content-Type: " ++ t)

def headersOf (p : Part) : Text :=
  units "Content-Disposition: " ++ (dispositionOf p ++ typeLineOf p.contentType)

/-- The parts, one after the other, and the last delimiter. -/
def frame (boundary : Text) : List Part → Bytes
  | [] => delimiterOf boundary ++ (DASHES ++ CRLF)
  | p :: ps => delimiterOf boundary ++ (CRLF ++ (Utf8.bytesOf (headersOf p) ++ (DOUBLE_CRLF ++
      (p.bytes ++ (CRLF ++ frame boundary ps)))))

-- ============================================================ what comes back

/-- Text between quotes, on one line. -/
structure Quotable (text : Text) : Prop where
  quote : QUOTE ∉ text
  cr : CR ∉ text
  lf : LF ∉ text
  wellFormed : isWellFormed text = true
  trimmed : Trimmed text
  ne : text ≠ []

structure Framable (boundary : Text) (p : Part) : Prop where
  name : Quotable p.name
  /-- No `; filename=` in the name. -/
  quiet : ∀ t, SEMICOLON :: t <:+ p.name → parameterAt (units "filename") t = none
  filename : ∀ f, p.filename = some f → Quotable f
  contentType : ∀ t, p.contentType = some t → CR ∉ t ∧ LF ∉ t ∧ isWellFormed t = true ∧ Trimmed t
  short : (Utf8.bytesOf (headersOf p)).length ≤ MAX_PART_HEADER_BYTES
  clear : ¬ delimiterOf boundary <:+: p.bytes

/-- A boundary on one line. -/
structure Boundary (boundary : Text) : Prop where
  cr : CR ∉ boundary
  lf : LF ∉ boundary
  wellFormed : isWellFormed boundary = true

variable {boundary : Text} {p : Part} {a b : Text}

-- =============================================================== the headers

theorem splitLines_line (h : CR ∉ a) : splitLines a = [a] := by
  induction a with
  | nil => rfl
  | cons u a ih =>
      rw [List.mem_cons, not_or] at h
      cases a with
      | nil => rfl
      | cons v a =>
          rw [splitLines, if_neg (fun heq => h.1 heq.1.symm), ih h.2]

theorem splitLines_cons (h : CR ∉ a) : splitLines (a ++ (CR :: LF :: b)) = a :: splitLines b := by
  induction a with
  | nil => rw [List.nil_append, splitLines, if_pos ⟨rfl, rfl⟩]
  | cons u a ih =>
      rw [List.mem_cons, not_or] at h
      have hne : ¬ (u = CR) := fun heq => h.1 heq.symm
      cases a with
      | nil =>
          show splitLines (u :: CR :: LF :: b) = _
          rw [splitLines, if_neg (fun heq => hne heq.1)]
          rw [show splitLines (CR :: LF :: b) = [] :: splitLines b from ih h.2]
      | cons v a =>
          show splitLines (u :: v :: (a ++ (CR :: LF :: b))) = _
          rw [splitLines, if_neg (fun heq => hne heq.1)]
          rw [show splitLines (v :: (a ++ (CR :: LF :: b))) = (v :: a) :: splitLines b from ih h.2]

theorem trim_space (h : Trimmed a) : Units.trim (0x20 :: a) = a := by
  have hspace : Units.trimStart (0x20 :: a) = Units.trimStart a := by
    rw [Units.trimStart, Units.trimStart, List.dropWhile_cons_of_pos (by decide)]
  rw [Units.trim, hspace]
  exact h.trim_eq

/-- A line with a name and a value. -/
theorem headerLine_eq (head : Head) {key : Text} (hkey : COLON ∉ key) (htrim : Trimmed a) :
    headerLine head (key ++ (COLON :: 0x20 :: a)) =
      field head ((Units.trim key).map lower) a := by
  have hcolon : Find.indexOf [COLON] (key ++ (COLON :: 0x20 :: a)) = some key.length := by
    rw [Find.indexOf_append hkey, Find.indexOf, if_pos (show [COLON] <+: COLON :: 0x20 :: a from ⟨_, rfl⟩),
      Option.map_some, Nat.zero_add]
  rw [headerLine, hcolon]
  simp only []
  rw [List.take_left, List.drop_length_add_append]
  show field head _ (Units.trim (0x20 :: a)) = _
  rw [trim_space htrim]

-- ============================================================ the parameters

variable {key t s : Text}

/-- A quote ends what `\s*` takes. -/
theorem trimStart_quote (t s : Text) :
    Units.trimStart (t ++ QUOTE :: s) = Units.trimStart t ++ QUOTE :: s := by
  rw [Units.trimStart, Units.trimStart, List.dropWhile_append]
  split
  next hempty =>
    rw [List.isEmpty_iff.mp hempty, List.nil_append]
    exact List.dropWhile_cons_of_neg (by decide)
  next => rfl

theorem not_mem_trimStart (h : QUOTE ∉ t) : QUOTE ∉ Units.trimStart t :=
  fun hmem => h ((List.dropWhile_sublist _).subset hmem)

/-- What is no parameter is none with a quote after it. -/
theorem parameterAt_quote (hkey : QUOTE ∉ key) (hquote : QUOTE ∉ t)
    (h : parameterAt key t = none) (s : Text) : parameterAt key (t ++ QUOTE :: s) = none := by
  unfold parameterAt at h ⊢
  rw [trimStart_quote]
  split
  next hmatch =>
    by_cases hle : key.length ≤ (Units.trimStart t).length
    · rw [List.take_append_of_le_length hle] at hmatch
      rw [if_pos hmatch] at h
      rw [List.drop_append_of_le_length hle, trimStart_quote]
      cases hrest : Units.trimStart ((Units.trimStart t).drop key.length) with
      | nil => rfl
      | cons u rest =>
          rw [hrest] at h
          have hu : u ≠ EQUALS := by
            rintro rfl
            rw [valueAt, if_pos rfl] at h
            cases h
          show valueAt (u :: (rest ++ QUOTE :: s)) = none
          rw [valueAt, if_neg hu]
    · refine absurd ?_ hkey
      have hlt : (Units.trimStart t).length < key.length := by omega
      have hmem : QUOTE ∈ (Units.trimStart t ++ QUOTE :: s).take key.length := by
        rw [List.take_append, List.take_of_length_le (by omega)]
        refine List.mem_append_right _ ?_
        rw [show key.length - (Units.trimStart t).length =
          (key.length - (Units.trimStart t).length - 1) + 1 by omega, List.take_succ_cons]
        exact List.mem_cons_self
      rw [← hmatch]
      exact List.mem_map.mpr ⟨QUOTE, hmem, by decide⟩
  next => rfl

theorem afterSemicolon_skip (h : SEMICOLON ∉ a) (s : Text) :
    afterSemicolon key (a ++ s) = afterSemicolon key s := by
  induction a with
  | nil => rfl
  | cons u a ih =>
      rw [List.mem_cons, not_or] at h
      rw [List.cons_append, afterSemicolon, if_neg (fun heq => h.1 heq.symm), ih h.2]

/-- A name without a parameter in it is passed over. -/
theorem afterSemicolon_quiet (hkey : QUOTE ∉ key) (hquote : QUOTE ∉ a)
    (hquiet : ∀ t, SEMICOLON :: t <:+ a → parameterAt key t = none) (s : Text) :
    afterSemicolon key (a ++ QUOTE :: s) = afterSemicolon key (QUOTE :: s) := by
  induction a with
  | nil => rfl
  | cons u a ih =>
      rw [List.mem_cons, not_or] at hquote
      have hrest := ih hquote.2 fun t ht => hquiet t (ht.trans (List.suffix_cons u a))
      rw [List.cons_append, afterSemicolon]
      split
      next hu =>
        subst hu
        rw [parameterAt_quote hkey hquote.2 (hquiet a (List.suffix_refl _))]
        exact hrest
      next => exact hrest

/-- A quoted value. -/
theorem captured_quoted (h : QUOTE ∉ a) (s : Text) : captured (QUOTE :: (a ++ QUOTE :: s)) = a := by
  rw [captured, if_pos ⟨rfl, List.mem_append_right _ List.mem_cons_self⟩,
    List.takeWhile_append_of_pos]
  · rw [List.takeWhile_cons_of_neg (by simp), List.append_nil]
  · intro u hu
    simp only [ne_eq, decide_not, Bool.not_eq_eq_eq_not, Bool.not_true, decide_eq_false_iff_not]
    rintro rfl
    exact h hu

/-- A parameter of the header, after its semicolon. -/
theorem parameterAt_quoted (hkey : Units.trimStart key = key) (hlower : key.map lower = key)
    (hne : key ≠ []) (h : QUOTE ∉ a) (s : Text) :
    parameterAt key (0x20 :: (key ++ (EQUALS :: QUOTE :: (a ++ QUOTE :: s)))) = some a := by
  have hstart : Units.trimStart (0x20 :: (key ++ (EQUALS :: QUOTE :: (a ++ QUOTE :: s)))) =
      key ++ (EQUALS :: QUOTE :: (a ++ QUOTE :: s)) := by
    obtain ⟨u, rest, rfl⟩ := List.exists_cons_of_ne_nil hne
    have hu : Units.isSpace u = false := by
      by_contra hspace
      rw [Bool.not_eq_false] at hspace
      rw [Units.trimStart, List.dropWhile_cons_of_pos hspace] at hkey
      have := congrArg List.length hkey
      have hle := (List.dropWhile_sublist (l := rest) Units.isSpace).length_le
      rw [List.length_cons] at this
      omega
    rw [Units.trimStart, List.dropWhile_cons_of_pos (by decide), List.cons_append,
      List.dropWhile_cons_of_neg (by rw [hu]; exact Bool.false_ne_true)]
  unfold parameterAt
  rw [hstart, List.take_left, if_pos hlower, List.drop_left]
  have hequals : Units.trimStart (EQUALS :: QUOTE :: (a ++ QUOTE :: s)) =
      EQUALS :: QUOTE :: (a ++ QUOTE :: s) := List.dropWhile_cons_of_neg (by decide)
  have hquote : Units.trimStart (QUOTE :: (a ++ QUOTE :: s)) = QUOTE :: (a ++ QUOTE :: s) :=
    List.dropWhile_cons_of_neg (by decide)
  rw [hequals, valueAt, if_pos rfl, hquote, captured_quoted h]

-- ================================================================== one part

theorem parameter_name (h : Quotable p.name) :
    parameter (dispositionOf p) (units "name") = some p.name := by
  have hdisposition : dispositionOf p = units "form-data" ++ SEMICOLON ::
      (0x20 :: (units "name" ++ (EQUALS :: QUOTE :: (p.name ++ QUOTE :: filenameOf p.filename)))) := by
    rw [dispositionOf, quoted, List.cons_append, List.append_assoc]
    rfl
  have hnone : parameterAt (units "name") (dispositionOf p) = none := by
    rw [hdisposition]
    rfl
  have hfound : afterSemicolon (units "name") (dispositionOf p) = some p.name := by
    rw [hdisposition, afterSemicolon_skip (by decide), afterSemicolon, if_pos rfl,
      parameterAt_quoted (by decide) (by decide) (by decide) h.quote]
  rw [parameter, hnone]
  simp only []
  rw [hfound, Option.map_some, h.trimmed.trim_eq]

theorem parameter_filename (hname : Quotable p.name)
    (hquiet : ∀ t, SEMICOLON :: t <:+ p.name → parameterAt (units "filename") t = none)
    (hfilename : ∀ f, p.filename = some f → Quotable f) :
    parameter (dispositionOf p) (units "filename") = p.filename := by
  have hdisposition : dispositionOf p = units "form-data" ++ SEMICOLON :: (units " name=\"" ++
      (p.name ++ QUOTE :: filenameOf p.filename)) := by
    rw [dispositionOf, quoted, List.cons_append, List.append_assoc]
    rfl
  have hnone : parameterAt (units "filename") (dispositionOf p) = none := by
    rw [hdisposition]
    rfl
  have hother : parameterAt (units "filename")
      (units " name=\"" ++ (p.name ++ QUOTE :: filenameOf p.filename)) = none := by
    unfold parameterAt
    rw [if_neg]
    intro heq
    have hhead := congrArg List.head? heq
    cases hhead
  have hrest : afterSemicolon (units "filename") (dispositionOf p) =
      afterSemicolon (units "filename") (QUOTE :: filenameOf p.filename) := by
    rw [hdisposition, afterSemicolon_skip (by decide), afterSemicolon, if_pos rfl, hother]
    simp only []
    rw [afterSemicolon_skip (by decide), afterSemicolon_quiet (by decide) hname.quote hquiet]
  rw [parameter, hnone]
  simp only []
  rw [hrest]
  cases hf : p.filename with
  | none => rfl
  | some f =>
      have hq := hfilename f hf
      have hafter : QUOTE :: filenameOf (some f) = [QUOTE] ++ SEMICOLON ::
          (0x20 :: (units "filename" ++ (EQUALS :: QUOTE :: (f ++ QUOTE :: [])))) := rfl
      rw [hafter, afterSemicolon_skip (by decide), afterSemicolon, if_pos rfl,
        parameterAt_quoted (by decide) (by decide) (by decide) hq.quote]
      simp only [Option.map_some]
      rw [hq.trimmed.trim_eq]

theorem getLast_quoted (text : Text) : (quoted text).getLast? = some QUOTE := by
  rw [quoted, ← List.cons_append, List.getLast?_concat]

theorem trimmed_disposition : Trimmed (dispositionOf p) := by
  constructor
  · intro u hu
    obtain rfl : Json.unit 'f' = u := Option.some.inj hu
    decide
  · intro u hu
    have hlast : (dispositionOf p).getLast? = some QUOTE := by
      rw [dispositionOf]
      cases p.filename with
      | none =>
          rw [filenameOf, List.append_nil, List.getLast?_append, getLast_quoted]
          rfl
      | some f =>
          rw [filenameOf, List.getLast?_append, List.getLast?_append, List.getLast?_append,
            getLast_quoted]
          rfl
    rw [hlast] at hu
    obtain rfl := Option.some.inj hu
    decide

theorem mem_quoted {text : Text} {u : UInt16} (hquote : u ≠ QUOTE) (h : u ∉ text) :
    u ∉ quoted text := by
  simp [quoted, hquote, h]

/-- Neither a CR nor a LF in the first line. -/
theorem mem_disposition {u : UInt16} (hu : u = CR ∨ u = LF) (h : Framable boundary p) :
    u ∉ dispositionOf p := by
  have hquote : u ≠ QUOTE := by
    rcases hu with rfl | rfl <;> decide
  have hname : u ∉ p.name := by
    rcases hu with rfl | rfl
    · exact h.name.cr
    · exact h.name.lf
  have hfilename : u ∉ filenameOf p.filename := by
    cases hf : p.filename with
    | none => exact List.not_mem_nil
    | some f =>
        have hq := h.filename f hf
        have hmem : u ∉ f := by
          rcases hu with rfl | rfl
          · exact hq.cr
          · exact hq.lf
        rw [filenameOf, List.mem_append, not_or]
        refine ⟨?_, mem_quoted hquote hmem⟩
        rcases hu with rfl | rfl <;> decide
  rw [dispositionOf, List.mem_append, List.mem_append, not_or, not_or]
  refine ⟨?_, mem_quoted hquote hname, hfilename⟩
  rcases hu with rfl | rfl <;> decide

/-- The headers of a part say the part. -/
theorem partOf_headers (h : Framable boundary p) : partOf (headersOf p) p.bytes = .ok p := by
  have hline : units "Content-Disposition: " ++ dispositionOf p =
      units "Content-Disposition" ++ (COLON :: 0x20 :: dispositionOf p) := rfl
  have hfirst : headerLine {} (units "Content-Disposition: " ++ dispositionOf p) =
      .ok { disposition := some (dispositionOf p) } := by
    rw [hline, headerLine_eq {} (by decide) trimmed_disposition]
    exact if_pos (by decide)
  have hcr : CR ∉ units "Content-Disposition: " ++ dispositionOf p := by
    rw [List.mem_append, not_or]
    exact ⟨by decide, mem_disposition (.inl rfl) h⟩
  have hlines : readLines {} (splitLines (headersOf p)) =
      .ok { disposition := some (dispositionOf p), contentType := p.contentType } := by
    rw [headersOf, ← List.append_assoc]
    cases htype : p.contentType with
    | none =>
        rw [typeLineOf, List.append_nil, splitLines_line hcr, readLines, hfirst]
        rfl
    | some t =>
        obtain ⟨htcr, -, -, htrim⟩ := h.contentType t htype
        have hsecond : headerLine { disposition := some (dispositionOf p) }
            (units "Content-Type: " ++ t) =
              .ok { disposition := some (dispositionOf p), contentType := some t } := by
          show headerLine _ (units "Content-Type" ++ (COLON :: 0x20 :: t)) = _
          rw [headerLine_eq _ (by decide) htrim]
          exact (if_neg (by decide)).trans (if_pos (by decide))
        have htline : CR ∉ units "Content-Type: " ++ t := by
          rw [List.mem_append, not_or]
          exact ⟨by decide, htcr⟩
        show readLines {} (splitLines ((units "Content-Disposition: " ++ dispositionOf p) ++
          (CR :: LF :: (units "Content-Type: " ++ t)))) = _
        rw [splitLines_cons hcr, splitLines_line htline, readLines, hfirst]
        simp only []
        rw [readLines, hsecond]
        rfl
  rw [partOf, hlines]
  simp only []
  rw [parameter_name h.name, parameter_filename h.name h.quiet h.filename]
  obtain ⟨u, name, hname⟩ := List.exists_cons_of_ne_nil h.name.ne
  rw [hname]
  simp only []
  have hfilter : p.filename.filter (fun f => decide (f ≠ [])) = p.filename := by
    cases hf : p.filename with
    | none => rfl
    | some f => exact Option.filter_some_pos (decide_eq_true (h.filename f hf).ne)
  rw [hfilter, ← hname]

-- ================================================================= the bytes

/-- A line of the headers. -/
structure Line (line : Text) : Prop where
  cr : CR ∉ line
  lf : LF ∉ line
  wellFormed : isWellFormed line = true

theorem Line.append (ha : Line a) (hb : Line b) : Line (a ++ b) where
  cr := fun h => (List.mem_append.mp h).elim ha.cr hb.cr
  lf := fun h => (List.mem_append.mp h).elim ha.lf hb.lf
  wellFormed := Utf8.isWellFormed_append ha.wellFormed hb.wellFormed

theorem line_units (text : String) (hcr : CR ∉ units text) (hlf : LF ∉ units text)
    (h : (units text).all fun u => decide (u < 0x80)) : Line (units text) where
  cr := hcr
  lf := hlf
  wellFormed := Utf8.isWellFormed_plain (units_plain text h)

theorem Quotable.line (h : Quotable a) : Line (quoted a) where
  cr := mem_quoted (by decide) h.cr
  lf := mem_quoted (by decide) h.lf
  wellFormed := by
    have hquote : isWellFormed [QUOTE] = true := by decide
    exact Utf8.isWellFormed_append hquote (Utf8.isWellFormed_append h.wellFormed hquote)

theorem line_disposition (h : Framable boundary p) :
    Line (units "Content-Disposition: " ++ dispositionOf p) := by
  refine (line_units _ (by decide) (by decide) (by decide)).append
    ((line_units "form-data; name=" (by decide) (by decide) (by decide)).append
      (h.name.line.append ?_))
  cases hf : p.filename with
  | none => exact line_units "" List.not_mem_nil List.not_mem_nil rfl
  | some f =>
      exact (line_units _ (by decide) (by decide) (by decide)).append (h.filename f hf).line

theorem line_type (h : Framable boundary p) (ht : p.contentType = some t) :
    Line (units "Content-Type: " ++ t) := by
  obtain ⟨hcr, hlf, hwellFormed, -⟩ := h.contentType t ht
  exact (line_units _ (by decide) (by decide) (by decide)).append ⟨hcr, hlf, hwellFormed⟩

/-- Its bytes have no byte of a line end. -/
theorem Line.bytes (h : Line a) : (0x0D : UInt8) ∉ Utf8.bytesOf a ∧ (0x0A : UInt8) ∉ Utf8.bytesOf a :=
  ⟨fun hmem => h.cr (Utf8.mem_of_bytesOf (by decide) h.wellFormed hmem),
    fun hmem => h.lf (Utf8.mem_of_bytesOf (by decide) h.wellFormed hmem)⟩

theorem headersOf_wellFormed (h : Framable boundary p) : isWellFormed (headersOf p) = true := by
  rw [headersOf, ← List.append_assoc]
  refine Utf8.isWellFormed_append (line_disposition h).wellFormed ?_
  cases ht : p.contentType with
  | none => rfl
  | some t => exact Utf8.isWellFormed_append (by decide) (line_type h ht).wellFormed

/-- Their bytes: one line, or two with a line end between them of which the
second begins with a letter. -/
theorem headersOf_bytes (h : Framable boundary p) :
    (Utf8.bytesOf (headersOf p) = Utf8.bytesOf (units "Content-Disposition: " ++ dispositionOf p)) ∨
      ∃ second : Bytes, second.head? = some 0x43 ∧ (0x0D : UInt8) ∉ second ∧
        Utf8.bytesOf (headersOf p) =
          Utf8.bytesOf (units "Content-Disposition: " ++ dispositionOf p) ++ (CRLF ++ second) := by
  have hsplit : headersOf p =
      (units "Content-Disposition: " ++ dispositionOf p) ++ typeLineOf p.contentType := by
    rw [headersOf, List.append_assoc]
  cases ht : p.contentType with
  | none =>
      left
      rw [hsplit, ht, typeLineOf, List.append_nil]
  | some t =>
      refine .inr ⟨Utf8.bytesOf (units "Content-Type: " ++ t), ?_, (line_type h ht).bytes.1, ?_⟩
      · rw [Utf8.bytesOf_append (Utf8.isWellFormed_plain (units_plain _ (by decide)))]
        rfl
      · rw [hsplit, ht, Utf8.bytesOf_append (line_disposition h).wellFormed, typeLineOf,
          Utf8.bytesOf_append (show isWellFormed [CR, LF] = true by decide)]
        rfl

-- ============================================================ the delimiters

/-- What stands at a position, by its elements. -/
theorem at_get {needle hay : Bytes} {i j : Nat} (h : Find.At needle hay i) (hj : j < needle.length) :
    hay[i + j]? = needle[j]? := by
  obtain ⟨rest, hrest⟩ := h
  rw [← List.getElem?_drop, ← hrest, List.getElem?_append_left hj]

/-- The headers end where the first empty line is. -/
theorem block_headers (h : Framable boundary p) : ∀ i < (Utf8.bytesOf (headersOf p)).length,
    ¬ Find.At DOUBLE_CRLF (Utf8.bytesOf (headersOf p) ++ DOUBLE_CRLF) i := by
  intro i hi hat
  have hfirst := at_get (j := 0) hat (by decide)
  rw [Nat.add_zero, List.getElem?_append_left hi] at hfirst
  have hcr := (line_disposition h).bytes.1
  have hmem := List.mem_of_getElem? hfirst
  rcases headersOf_bytes h with hbytes | ⟨second, hhead, hsecond, hbytes⟩
  · rw [hbytes] at hmem
    exact hcr hmem
  · have hthird := at_get (j := 2) hat (by decide)
    rw [hbytes] at hfirst hthird hi
    -- a CR is the one between the lines, and two bytes on a letter stands
    by_cases hleft : i < (Utf8.bytesOf (units "Content-Disposition: " ++ dispositionOf p)).length
    · rw [List.getElem?_append_left hleft] at hfirst
      exact hcr (List.mem_of_getElem? hfirst)
    · obtain ⟨k, rfl⟩ := Nat.exists_eq_add_of_le (Nat.le_of_not_lt hleft)
      rw [List.getElem?_append_right (Nat.le_add_right _ _), Nat.add_sub_cancel_left] at hfirst
      rw [List.append_assoc, Nat.add_assoc, List.getElem?_append_right (Nat.le_add_right _ _),
        Nat.add_sub_cancel_left] at hthird
      cases k with
      | zero =>
          obtain ⟨u, second, rfl⟩ : ∃ u rest, second = u :: rest := by
            cases second with
            | nil => cases hhead
            | cons u rest => exact ⟨u, rest, rfl⟩
          obtain rfl := Option.some.inj hhead
          cases hthird
      | succ k =>
          cases k with
          | zero => cases hfirst
          | succ k => exact hsecond (List.mem_of_getElem? (show second[k]? = some _ from hfirst))

theorem Boundary.line (h : Boundary boundary) : Line (units "--" ++ boundary) :=
  (line_units _ (by decide) (by decide) (by decide)).append ⟨h.cr, h.lf, h.wellFormed⟩

/-- No delimiter begins in a content that has none, nor in the line end
after it. -/
theorem clear_content (hboundary : Boundary boundary) (content rest : Bytes)
    (h : ¬ delimiterOf boundary <:+: content) : ∀ i < content.length + CRLF.length,
    ¬ Find.At (delimiterOf boundary) (content ++ (CRLF ++ rest)) i := by
  intro i hi hat
  have hline := hboundary.line.bytes
  have hlength := List.length_pos_iff.mpr (delimiterOf_ne boundary)
  by_cases hinside : i + (delimiterOf boundary).length ≤ content.length
  · refine h ?_
    have hbegins : delimiterOf boundary <+: content.drop i := by
      rw [Find.At, List.drop_append_of_le_length (by omega)] at hat
      refine List.prefix_of_prefix_length_le hat (List.prefix_append _ _) ?_
      rw [List.length_drop]
      omega
    exact hbegins.isInfix.trans (List.drop_suffix i content).isInfix
  · by_cases hover : i ≤ content.length
    · have hget := at_get (j := content.length - i) hat (by omega)
      rw [Nat.add_sub_cancel' hover, List.getElem?_append_right (Nat.le_refl _), Nat.sub_self] at hget
      exact hline.1 (List.mem_of_getElem? hget.symm)
    · have hlast : i = content.length + 1 := by
        have : CRLF.length = 2 := rfl
        omega
      have hget := at_get (j := 0) hat hlength
      rw [hlast, Nat.add_zero, List.getElem?_append_right (Nat.le_add_right _ _),
        Nat.add_sub_cancel_left] at hget
      exact hline.2 (List.mem_of_getElem? hget.symm)

-- ============================================================= the round trip

theorem frame_begins (boundary : Text) (parts : List Part) :
    delimiterOf boundary <+: frame boundary parts := by
  cases parts with
  | nil => exact List.prefix_append _ _
  | cons p ps => exact List.prefix_append _ _

theorem framed_frame (hboundary : Boundary boundary) {parts : List Part}
    (h : ∀ p ∈ parts, Framable boundary p) :
    Framed (delimiterOf boundary) (frame boundary parts) parts := by
  induction parts with
  | nil => exact .close CRLF
  | cons p ps ih =>
      have hp := h p List.mem_cons_self
      refine .part {
        short := hp.short
        block := block_headers hp
        next := frame_begins boundary ps
        clear := clear_content hboundary p.bytes _ hp.clear
        gap := .inl rfl
        part := ?_ } (ih fun q hq => h q (List.mem_cons_of_mem p hq))
      rw [Utf8.decode_bytesOf, Utf8.isWellFormed_iff.mp (headersOf_wellFormed hp)]
      exact partOf_headers hp

/-- What is framed is read as it was. -/
theorem parseMultipart_frame (hboundary : Boundary boundary) {parts : List Part}
    (h : ∀ p ∈ parts, Framable boundary p) (hne : parts ≠ []) (hlength : parts.length ≤ MAX_PARTS) :
    parseMultipart (frame boundary parts) boundary = .ok parts := by
  show parseMultipart ([] ++ frame boundary parts) boundary = .ok parts
  exact parseMultipart_complete hne hlength (fun _ hi => absurd hi (Nat.not_lt_zero _))
    (framed_frame hboundary h)

end Nacre.Multipart
