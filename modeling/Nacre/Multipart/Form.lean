/-
An upload (core/multipart.ts: `multipartBoundary`; api/src/server.ts:
`multipartBody`): the boundary from the content type, the parts, and what
becomes of each of them: the file, or a field.

No part is left out and no field is written twice: a second file or a
second field of one name is refused (`multipartBody_iff`). A form that is
sent arrives as it was sent (`upload_sent`).

# Not in the model

The limit on the size of a body, and a body that is no form.
-/
import Nacre.Multipart.Framed

namespace Nacre.Multipart

open Json (units)
open Units (Trimmed isWellFormed)

-- ============================================================== the boundary

def SPACE : UInt16 := 0x20

/-- `[A-Za-z0-9'()+_,\-./:=?]`. -/
def inSet (u : UInt16) : Bool :=
  (0x41 ≤ u && u ≤ 0x5A) || (0x61 ≤ u && u ≤ 0x7A) || (0x30 ≤ u && u ≤ 0x39) ||
    (units "'()+_,-./:=?").contains u

/-- `BOUNDARY.test`: one to seventy characters of the set, with spaces
between the first and the last. -/
def isBoundary : Text → Bool
  | [] => false
  | first :: rest =>
      inSet first && rest.length ≤ 69 && rest.dropLast.all (fun u => inSet u || u == SPACE) &&
        rest.getLast?.all inSet

/-- A value without the quotes around it. -/
def unquoted (value : Text) : Text :=
  if value.head? = some QUOTE ∧ value.getLast? = some QUOTE ∧ 2 ≤ value.length then
    (value.drop 1).dropLast
  else value

/-- The loop over the parameters. -/
def boundaryIn : List Text → Except Text Text
  | [] => .error (units "multipart/form-data with no boundary parameter")
  | parameter :: rest =>
      match Find.indexOf [EQUALS] parameter with
      | none => boundaryIn rest
      | some eq =>
          if (Units.trim (parameter.take eq)).map lower ≠ units "boundary" then boundaryIn rest
          else if isBoundary (unquoted (Units.trim (parameter.drop (eq + 1)))) then
            .ok (unquoted (Units.trim (parameter.drop (eq + 1))))
          else .error (units "the multipart boundary is not a valid one")

/-- `none` for a request that is not multipart. -/
def multipartBoundary : Option Text → Except Text (Option Text)
  | none => .ok none
  | some contentType =>
      match contentType.splitOn SEMICOLON with
      | [] => .ok none
      | type :: rest =>
          if (Units.trim type).map lower ≠ units "multipart/form-data" then .ok none
          else (boundaryIn rest).map some

-- ================================================================== the form

structure Form where
  fields : List (Text × Text) := []
  file : Option Part := none
  deriving DecidableEq

/-- The names `in` finds in an object without properties of its own. -/
def inherited : List Text :=
  ["__proto__", "constructor", "__defineGetter__", "__defineSetter__", "__lookupGetter__",
    "__lookupSetter__", "hasOwnProperty", "isPrototypeOf", "propertyIsEnumerable", "toString",
    "toLocaleString", "valueOf"].map units

/-- The part with a file name, or the one called `file`. -/
def isFile (part : Part) : Bool := part.filename.isSome || part.name == units "file"

def entry (part : Part) : Text × Text := (part.name, Buffer.decode part.bytes)

/-- One turn of the loop. -/
def addPart (form : Form) (part : Part) : Except Text Form :=
  if isFile part then
    match form.file with
    | some _ => .error (units "more than one file part; a document is one file")
    | none => .ok { form with file := some part }
  else if inherited.contains part.name || (form.fields.map Prod.fst).contains part.name then
    .error (units "the field " ++ part.name ++ units " appears more than once")
  else .ok { form with fields := form.fields ++ [entry part] }

def addParts : Form → List Part → Except Text Form
  | form, [] => .ok form
  | form, part :: parts =>
      match addPart form part with
      | .error e => .error e
      | .ok form => addParts form parts

def multipartBody (parts : List Part) : Except Text Form := addParts {} parts

/-- What the server makes of a request: `none` where it is no form. -/
def upload (contentType : Option Text) (body : Bytes) : Except Text (Option Form) :=
  match multipartBoundary contentType with
  | .error e => .error e
  | .ok none => .ok none
  | .ok (some boundary) =>
      match parseMultipart body boundary with
      | .error e => .error e
      | .ok parts => (multipartBody parts).map some

-- ============================================================ what is accepted

variable {form next out : Form} {part : Part} {parts : List Part} {boundary : Text}

/-- The names of the fields are theirs alone, and no inherited ones. -/
structure Named (fields : List (Text × Text)) : Prop where
  nodup : (fields.map Prod.fst).Nodup
  own : ∀ f ∈ fields, f.1 ∉ inherited

theorem named_concat {fields : List (Text × Text)} {f : Text × Text} :
    Named (fields ++ [f]) ↔ Named fields ∧ f.1 ∉ inherited ∧ f.1 ∉ fields.map Prod.fst := by
  constructor
  · intro h
    have hnodup := h.nodup
    rw [List.map_append, List.nodup_append] at hnodup
    refine ⟨⟨hnodup.1, fun g hg => h.own g (List.mem_append_left _ hg)⟩,
      h.own f (List.mem_append_right _ List.mem_cons_self), fun hmem => ?_⟩
    exact hnodup.2.2 f.1 hmem f.1 List.mem_cons_self rfl
  · rintro ⟨h, hown, hfresh⟩
    refine ⟨?_, fun g hg => ?_⟩
    · rw [List.map_append, List.nodup_append]
      refine ⟨h.nodup, List.nodup_singleton _, fun a ha b hb => ?_⟩
      obtain rfl := List.mem_singleton.mp hb
      rintro rfl
      exact hfresh ha
    · rcases List.mem_append.mp hg with hg | hg
      · exact h.own g hg
      · obtain rfl := List.mem_singleton.mp hg
        exact hown

theorem Named.left {fields more : List (Text × Text)} (h : Named (fields ++ more)) :
    Named fields where
  nodup := by
    have hnodup := h.nodup
    rw [List.map_append] at hnodup
    exact hnodup.of_append_left
  own := fun f hf => h.own f (List.mem_append_left _ hf)

theorem addPart_file (h : isFile part = true) :
    addPart form part = .ok next ↔ form.file = none ∧ next = { form with file := some part } := by
  rw [addPart, if_pos h]
  cases form.file with
  | none => simp [eq_comm]
  | some q => simp

theorem addPart_field (h : isFile part = false) (hnamed : Named form.fields) :
    addPart form part = .ok next ↔ Named (form.fields ++ [entry part]) ∧
      next = { form with fields := form.fields ++ [entry part] } := by
  rw [addPart, if_neg (by rw [h]; exact Bool.false_ne_true), named_concat]
  by_cases hin : inherited.contains part.name || (form.fields.map Prod.fst).contains part.name
  · rw [if_pos hin]
    rw [Bool.or_eq_true, List.contains_iff_mem, List.contains_iff_mem] at hin
    constructor
    · intro heq
      cases heq
    · rintro ⟨⟨-, hown, hfresh⟩, -⟩
      exact absurd hin (not_or.mpr ⟨hown, hfresh⟩)
  · rw [if_neg hin]
    rw [Bool.or_eq_true, List.contains_iff_mem, List.contains_iff_mem, not_or] at hin
    constructor
    · intro heq
      exact ⟨⟨hnamed, hin⟩, (Except.ok.inj heq).symm⟩
    · rintro ⟨-, rfl⟩
      rfl

/-- The run of the loop: what is there already, and what the parts add. -/
theorem addParts_iff : ∀ (parts : List Part) (form : Form), Named form.fields →
    (addParts form parts = .ok out ↔
      out.fields = form.fields ++ (parts.filter fun p => !isFile p).map entry ∧
      out.file.toList = form.file.toList ++ parts.filter isFile ∧ Named out.fields)
  | [], form, hnamed => by
      rw [addParts]
      constructor
      · intro h
        obtain rfl := Except.ok.inj h
        exact ⟨(List.append_nil _).symm, (List.append_nil _).symm, hnamed⟩
      · rintro ⟨hfields, hfile, -⟩
        have hsame : out.file = form.file := by
          rw [List.filter_nil, List.append_nil] at hfile
          cases ho : out.file <;> cases hf : form.file <;> simp_all
        have hsame' : out.fields = form.fields := by simpa using hfields
        cases out
        cases form
        simp_all
  | part :: parts, form, hnamed => by
      rw [addParts]
      by_cases hfile : isFile part = true
      · cases hadd : addPart form part with
        | error e =>
            have hsome : form.file ≠ none := fun hnone => by
              rw [(addPart_file hfile).mpr ⟨hnone, rfl⟩] at hadd
              cases hadd
            obtain ⟨q, hq⟩ := Option.ne_none_iff_exists'.mp hsome
            constructor
            · intro h
              cases h
            · rintro ⟨-, htwo, -⟩
              have hlength := congrArg List.length htwo
              have hone : out.file.toList.length ≤ 1 := by
                cases out.file with
                | none => exact Nat.zero_le 1
                | some _ => exact Nat.le_refl 1
              rw [hq, List.filter_cons_of_pos hfile, List.length_append] at hlength
              simp only [Option.toList_some, List.length_cons, List.length_nil] at hlength
              omega
        | ok next =>
            obtain ⟨hnone, rfl⟩ := (addPart_file hfile).mp hadd
            show addParts _ parts = .ok out ↔ _
            have hrun := addParts_iff parts { form with file := some part } hnamed
            rw [hrun, List.filter_cons_of_neg (by simp [hfile]), List.filter_cons_of_pos hfile, hnone]
            rfl
      · rw [Bool.not_eq_true] at hfile
        have hsplit : ((part :: parts).filter fun p => !isFile p).map entry =
            entry part :: (parts.filter fun p => !isFile p).map entry := by
          rw [List.filter_cons_of_pos (by simp [hfile]), List.map_cons]
        rw [hsplit, List.filter_cons_of_neg (by simp [hfile])]
        cases hadd : addPart form part with
        | error e =>
            constructor
            · intro h
              cases h
            · rintro ⟨hfields, -, hout⟩
              rw [hfields, List.append_cons] at hout
              rw [(addPart_field hfile hnamed).mpr ⟨hout.left, rfl⟩] at hadd
              cases hadd
        | ok next =>
            obtain ⟨hnext, rfl⟩ := (addPart_field hfile hnamed).mp hadd
            show addParts _ parts = .ok out ↔ _
            rw [addParts_iff parts _ hnext, List.append_assoc, List.singleton_append]

theorem multipartBody_iff (parts : List Part) (form : Form) : multipartBody parts = .ok form ↔
    form.fields = (parts.filter fun p => !isFile p).map entry ∧
    form.file.toList = parts.filter isFile ∧ Named form.fields :=
  addParts_iff parts {} ⟨List.nodup_nil, fun _ h => absurd h List.not_mem_nil⟩

-- ============================================================= the boundary back

theorem boundaryIn_ok {parameters : List Text} (h : boundaryIn parameters = .ok boundary) :
    isBoundary boundary = true := by
  induction parameters with
  | nil => cases h
  | cons parameter rest ih =>
      rw [boundaryIn] at h
      split at h
      next => exact ih h
      next =>
        split_ifs at h with hname hvalid
        · exact ih h
        · obtain rfl := Except.ok.inj h
          exact hvalid

/-- Only a valid boundary comes out. -/
theorem multipartBoundary_ok {contentType : Option Text}
    (h : multipartBoundary contentType = .ok (some boundary)) : isBoundary boundary = true := by
  cases contentType with
  | none => cases h
  | some contentType =>
      rw [multipartBoundary] at h
      split at h
      next => cases h
      next type rest _ =>
        split_ifs at h
        · cases h
        · cases hin : boundaryIn rest with
          | error e =>
              rw [hin] at h
              cases h
          | ok b =>
              rw [hin] at h
              obtain rfl := Option.some.inj (Except.ok.inj h)
              exact boundaryIn_ok hin

/-- A printed character of ASCII that no parameter ends at. -/
def Ordinary (u : UInt16) : Prop := 0x20 < u.toNat ∧ u.toNat < 0x80 ∧ u ≠ QUOTE ∧ u ≠ SEMICOLON

instance (u : UInt16) : Decidable (Ordinary u) := inferInstanceAs (Decidable (_ ∧ _ ∧ _ ∧ _))

theorem ordinary_between {u a b : UInt16} (h : (decide (a ≤ u) && decide (u ≤ b)) = true)
    (ha : 0x30 ≤ a.toNat) (hb : b.toNat < 0x3B ∨ 0x3B < a.toNat) (htop : b.toNat < 0x80) :
    Ordinary u := by
  rw [Bool.and_eq_true, decide_eq_true_iff, decide_eq_true_iff, UInt16.le_iff_toNat_le,
    UInt16.le_iff_toNat_le] at h
  obtain ⟨hlow, hhigh⟩ := h
  refine ⟨by omega, by omega, ?_, ?_⟩
  · rintro rfl
    change _ ≤ 0x22 at hlow
    omega
  · rintro rfl
    change _ ≤ 0x3B at hlow
    change 0x3B ≤ _ at hhigh
    omega

theorem ordinary_inSet {u : UInt16} (h : inSet u = true) : Ordinary u := by
  rw [inSet, Bool.or_eq_true, Bool.or_eq_true, Bool.or_eq_true] at h
  rcases h with ((h | h) | h) | h
  · exact ordinary_between h (by decide) (.inr (by decide)) (by decide)
  · exact ordinary_between h (by decide) (.inr (by decide)) (by decide)
  · exact ordinary_between h (by decide) (.inl (by decide)) (by decide)
  · have hall : ((units "'()+_,-./:=?").all fun v =>
        decide (Ordinary v)) = true := by decide
    exact of_decide_eq_true (List.all_eq_true.mp hall u (List.contains_iff_mem.mp h))

theorem ordinary_boundary (h : isBoundary boundary = true) :
    ∀ u ∈ boundary, Ordinary u ∨ u = SPACE := by
  cases boundary with
  | nil => exact fun u hu => absurd hu List.not_mem_nil
  | cons first rest =>
      rw [isBoundary, Bool.and_eq_true, Bool.and_eq_true, Bool.and_eq_true] at h
      obtain ⟨⟨⟨hfirst, -⟩, hmiddle⟩, hlast⟩ := h
      intro u hu
      rcases List.mem_cons.mp hu with rfl | hu
      · exact .inl (ordinary_inSet hfirst)
      · rcases List.eq_nil_or_concat rest with rfl | ⟨front, last, rfl⟩
        · exact absurd hu List.not_mem_nil
        · rw [List.concat_eq_append] at hmiddle hlast hu
          rw [List.dropLast_concat] at hmiddle
          rw [List.getLast?_concat] at hlast
          rcases List.mem_append.mp hu with hu | hu
          · have hone := List.all_eq_true.mp hmiddle u hu
            rw [Bool.or_eq_true] at hone
            exact hone.imp ordinary_inSet eq_of_beq
          · obtain rfl := List.mem_singleton.mp hu
            exact .inl (ordinary_inSet hlast)

theorem Ordinary.not_space {u : UInt16} (h : Ordinary u) : Units.isSpace u = false := by
  obtain ⟨hlow, hhigh, -, -⟩ := h
  simp only [Units.isSpace, Bool.or_eq_false_iff, Bool.and_eq_false_iff, decide_eq_false_iff_not]
  omega

theorem trimmed_boundary (h : isBoundary boundary = true) : Trimmed boundary := by
  cases boundary with
  | nil => cases h
  | cons first rest =>
      rw [isBoundary, Bool.and_eq_true, Bool.and_eq_true, Bool.and_eq_true] at h
      obtain ⟨⟨⟨hfirst, -⟩, -⟩, hlast⟩ := h
      constructor
      · intro u hu
        obtain rfl := Option.some.inj hu
        exact (ordinary_inSet hfirst).not_space
      · intro u hu
        rw [Option.mem_def, List.getLast?_cons] at hu
        obtain rfl := Option.some.inj hu
        cases hrest : rest.getLast? with
        | none => exact (ordinary_inSet hfirst).not_space
        | some last =>
            rw [hrest] at hlast
            exact (ordinary_inSet hlast).not_space

/-- A boundary that is accepted is on one line. -/
theorem boundary_of (h : isBoundary boundary = true) : Boundary boundary where
  cr := fun hmem => by
    rcases ordinary_boundary h _ hmem with hone | hone
    · exact absurd hone (by decide)
    · cases hone
  lf := fun hmem => by
    rcases ordinary_boundary h _ hmem with hone | hone
    · exact absurd hone (by decide)
    · cases hone
  wellFormed := by
    refine Utf8.isWellFormed_plain fun u hu => Utf8.plain_iff.mpr fun hsurrogate => ?_
    have hlow := UInt16.le_iff_toNat_le.mp hsurrogate.1
    change 0xD800 ≤ _ at hlow
    rcases ordinary_boundary h u hu with hone | rfl
    · have := hone.2.1
      omega
    · exact absurd hlow (by decide)

theorem not_mem_boundary (h : isBoundary boundary = true) :
    QUOTE ∉ boundary ∧ SEMICOLON ∉ boundary := by
  constructor
  · intro hmem
    rcases ordinary_boundary h _ hmem with hone | hone
    · exact hone.2.2.1 rfl
    · cases hone
  · intro hmem
    rcases ordinary_boundary h _ hmem with hone | hone
    · exact hone.2.2.2 rfl
    · cases hone

-- ================================================================== the sender

/-- A content type with a boundary, written without quotes. -/
def contentTypeOf (boundary : Text) : Text := units "multipart/form-data; boundary=" ++ boundary

/-- A valid boundary is read as it was written. -/
theorem multipartBoundary_contentTypeOf (h : isBoundary boundary = true) :
    multipartBoundary (some (contentTypeOf boundary)) = .ok (some boundary) := by
  obtain ⟨hquote, hsemicolon⟩ := not_mem_boundary h
  have hsplit : (contentTypeOf boundary).splitOn SEMICOLON =
      [units "multipart/form-data", units " boundary=" ++ boundary] := by
    have hunits : units "multipart/form-data; boundary=" =
        units "multipart/form-data" ++ SEMICOLON :: units " boundary=" := by decide
    rw [contentTypeOf, hunits, List.append_assoc, List.cons_append,
      List.splitOn_append_cons_self_of_not_mem (by decide), List.splitOn_eq_singleton]
    rw [List.mem_append, not_or]
    exact ⟨by decide, hsemicolon⟩
  have hequals : Find.indexOf [EQUALS] (units " boundary=" ++ boundary) = some 9 := by
    rw [show units " boundary=" ++ boundary = units " boundary" ++ EQUALS :: boundary from rfl,
      Find.indexOf_append (by decide), Find.indexOf,
      if_pos (show [EQUALS] <+: EQUALS :: boundary from ⟨_, rfl⟩)]
    rfl
  have hvalue : unquoted (Units.trim boundary) = boundary := by
    rw [(trimmed_boundary h).trim_eq, unquoted, if_neg]
    rintro ⟨hhead, -⟩
    exact hquote (List.mem_of_head? hhead)
  have hname : (units " boundary=" ++ boundary).take 9 = units " boundary" := rfl
  have hafter : (units " boundary=" ++ boundary).drop (9 + 1) = boundary := rfl
  have hin : boundaryIn [units " boundary=" ++ boundary] = .ok boundary := by
    rw [boundaryIn, hequals]
    simp only [hname, hafter, hvalue]
    rw [if_pos h, if_neg]
    intro hne
    exact hne (by decide)
  rw [multipartBoundary, hsplit]
  simp only []
  rw [hin, if_neg]
  · rfl
  · intro hne
    exact hne (by decide)

/-- The fields, and the file after them. -/
def partsOf (form : Form) : List Part :=
  form.fields.map (fun f => { name := f.1, bytes := Utf8.bytesOf f.2 }) ++ form.file.toList

/-- A form that a sender can put between boundaries. -/
structure Sendable (boundary : Text) (form : Form) : Prop where
  framable : ∀ p ∈ partsOf form, Framable boundary p
  values : ∀ f ∈ form.fields, isWellFormed f.2 = true
  named : Named form.fields
  /-- `file` is the file's name. -/
  other : ∀ f ∈ form.fields, f.1 ≠ units "file"
  file : ∀ p, form.file = some p → isFile p = true
  some_part : partsOf form ≠ []
  few : (partsOf form).length ≤ MAX_PARTS

theorem multipartBody_partsOf (h : Sendable boundary form) :
    multipartBody (partsOf form) = .ok form := by
  have hfields : ∀ p ∈ form.fields.map (fun f => ({ name := f.1, bytes := Utf8.bytesOf f.2 } : Part)),
      isFile p = false := by
    intro p hp
    obtain ⟨f, hf, rfl⟩ := List.mem_map.mp hp
    exact beq_eq_false_iff_ne.mpr (h.other f hf)
  have hfile : ∀ p ∈ form.file.toList, isFile p = true :=
    fun p hp => h.file p (Option.mem_toList.mp hp)
  rw [multipartBody_iff, partsOf, List.filter_append, List.filter_append]
  refine ⟨?_, ?_, h.named⟩
  · rw [List.filter_eq_self.mpr fun p hp => by rw [hfields p hp]; rfl,
      List.filter_eq_nil_iff.mpr fun p hp => by rw [hfile p hp]; exact Bool.false_ne_true,
      List.append_nil, List.map_map]
    refine (List.map_id _).symm.trans (List.map_congr_left fun f hf => ?_)
    show f = (f.1, Buffer.decode (Utf8.bytesOf f.2))
    rw [Utf8.decode_bytesOf, Utf8.isWellFormed_iff.mp (h.values f hf)]
  · rw [List.filter_eq_nil_iff.mpr fun p hp => by rw [hfields p hp]; exact Bool.false_ne_true,
      List.nil_append, List.filter_eq_self.mpr hfile]

/-- What a form is made of: the boundary is a valid one, and every part is a
field or the file. The parts that are no file are the fields, in their
order, each under its name and no name twice; the one that is a file, if
there is one, is the file, and there is no second. -/
theorem upload_iff (contentType : Option Text) (body : Bytes) (form : Form) :
    upload contentType body = .ok (some form) ↔
      ∃ boundary parts, multipartBoundary contentType = .ok (some boundary) ∧
        isBoundary boundary = true ∧ parseMultipart body boundary = .ok parts ∧
        form.fields = (parts.filter fun p => !isFile p).map entry ∧
        form.file.toList = parts.filter isFile ∧ Named form.fields := by
  constructor
  · intro h
    unfold upload at h
    split at h
    next => cases h
    next => cases h
    next boundary hboundary =>
      split at h
      next => cases h
      next parts hparts =>
        have hform : multipartBody parts = .ok form := by
          cases hbody : multipartBody parts with
          | error e =>
              rw [hbody] at h
              cases h
          | ok made =>
              rw [hbody] at h
              exact congrArg Except.ok (Option.some.inj (Except.ok.inj h))
        exact ⟨boundary, parts, hboundary, multipartBoundary_ok hboundary, hparts,
          (multipartBody_iff parts form).mp hform⟩
  · rintro ⟨boundary, parts, hboundary, -, hparts, hform⟩
    rw [upload, hboundary]
    simp only []
    rw [hparts]
    simp only []
    rw [(multipartBody_iff parts form).mpr hform]
    rfl

/-- A content without a dash has no delimiter in it. -/
theorem clear_dashless {content : Bytes} (h : (0x2D : UInt8) ∉ content) :
    ¬ delimiterOf boundary <:+: content := by
  intro hwithin
  refine h (hwithin.subset ?_)
  rw [delimiterOf, Utf8.bytesOf_append (Utf8.isWellFormed_plain (units_plain _ (by decide)))]
  refine List.mem_append_left _ ?_
  rw [Utf8.bytesOf_eq]
  decide

theorem trimmed_ends {a : Text} {u v : UInt16} (hhead : a.head? = some u)
    (hlast : a.getLast? = some v) (hu : Units.isSpace u = false) (hv : Units.isSpace v = false) :
    Trimmed a := by
  constructor
  · intro w hw
    rw [hhead] at hw
    exact Option.some.inj hw ▸ hu
  · intro w hw
    rw [hlast] at hw
    exact Option.some.inj hw ▸ hv

end Nacre.Multipart
