/-
What `readFrontmatter` makes of a description that was written with care.

A description is written as a double-quoted scalar, a backslash before each
backslash and each quote. The reader undoes three pairs one after another:
`\"`, then `\n`, then `\\`. The first leaves the backslashes doubled
(`unquote_escape`), the last halves them again (`halve_doubled`), and the
one in the middle takes the second half of a doubled backslash for the
start of a line break wherever an `n` follows.

`readFrontmatter_lines` is the reader on a file given by its lines: the
closing fence is the first line break followed by three hyphens.
-/
import Nacre.Skills.Format

namespace Nacre.Skills

open Json (unit units)

variable {l d s rest : List UInt16} {ls : List (List UInt16)}

-- ================================================================ the lines

/-- Lines with a break between each two. -/
def joined (ls : List (List UInt16)) : List UInt16 := [unit '\n'].intercalate ls

theorem joined_cons_cons (a b : List UInt16) (ls : List (List UInt16)) :
    joined (a :: b :: ls) = a ++ unit '\n' :: joined (b :: ls) := by
  simp only [joined, List.intercalate_cons_cons]
  rw [List.append_assoc]
  rfl

/-- What follows a line break in a text of lines begins with a line. -/
theorem fence_of_joined (m : List UInt16) (ls : List (List UInt16))
    (h : units "---" <+: joined (m :: ls) ++ (units "\n---" ++ rest)) : units "---" <+: m := by
  have hbreak : unit '\n' ∉ units "---" := by decide
  cases ls with
  | nil =>
      rw [show joined [m] = m by simp [joined]] at h
      exact Find.prefix_of_append_cons h hbreak
  | cons k ls =>
      rw [joined_cons_cons, List.append_assoc, List.cons_append] at h
      exact Find.prefix_of_append_cons h hbreak

/-- The closing fence is the first line that begins with one. -/
theorem fence_found (hbreak : ∀ x ∈ l :: ls, unit '\n' ∉ x)
    (hfence : ∀ x ∈ ls, ¬ units "---" <+: x) :
    Find.indexOf (units "\n---") (joined (l :: ls) ++ (units "\n---" ++ rest))
      = some (joined (l :: ls)).length := by
  have hneedle : units "\n---" = unit '\n' :: units "---" := rfl
  induction ls generalizing l with
  | nil =>
      have hl : unit '\n' ∉ l := hbreak l List.mem_cons_self
      have hjoined : joined [l] = l := by simp [joined]
      have hhere : unit '\n' :: units "---" <+: unit '\n' :: (units "---" ++ rest) :=
        List.prefix_append (unit '\n' :: units "---") rest
      rw [hjoined, hneedle, Find.indexOf_append hl, List.cons_append, Find.indexOf, if_pos hhere]
      simp
  | cons m ls ih =>
      have hl : unit '\n' ∉ l := hbreak l List.mem_cons_self
      have hrest := ih (fun x hx => hbreak x (List.mem_cons_of_mem _ hx))
        fun x hx => hfence x (List.mem_cons_of_mem _ hx)
      have hnot : ¬ unit '\n' :: units "---"
          <+: unit '\n' :: (joined (m :: ls) ++ (units "\n---" ++ rest)) := by
        intro hpre
        exact hfence m List.mem_cons_self (fence_of_joined m ls (List.cons_prefix_cons.mp hpre).2)
      rw [hneedle] at hrest hnot
      rw [joined_cons_cons, List.append_assoc, List.cons_append, hneedle,
        Find.indexOf_append hl, Find.indexOf, if_neg hnot, hrest]
      simp only [Option.map_some, List.length_append, List.length_cons]
      exact congrArg some (by omega)

/-- What stands after the line of the closing fence. -/
def bodyAfter (rest : List UInt16) : List UInt16 :=
  match Find.indexOf (units "\n") rest with
  | none => []
  | some k => rest.drop (k + 1)

/-- Line ends as the reader has them. -/
def normalizeEnds (text : List UInt16) : List UInt16 :=
  Find.replacePair (unit '\r') (unit '\n') (units "\n") text

/-- A file read by its lines. -/
theorem readFrontmatter_lines (hbreak : ∀ x ∈ l :: ls, unit '\n' ∉ x ∧ unit '\r' ∉ x)
    (hfence : ∀ x ∈ ls, ¬ units "---" <+: x) :
    readFrontmatter (units "---\n" ++ (joined (l :: ls) ++ (units "\n---" ++ rest)))
      = (readLines 0 0 [] (l :: ls)).map fun fields =>
          ⟨fields, bodyAfter (normalizeEnds rest)⟩ := by
  have hcr : unit '\r' ∉ units "---\n" ++ (joined (l :: ls) ++ units "\n---") := by
    intro hmem
    rcases List.mem_append.mp hmem with hmem | hmem
    · exact absurd hmem (by decide)
    · rcases List.mem_append.mp hmem with hmem | hmem
      · rcases Find.mem_intercalate hmem with hmem | ⟨x, hx, hmem⟩
        · exact absurd hmem (by decide)
        · exact (hbreak x hx).2 hmem
      · exact absurd hmem (by decide)
  have htext : units "---\n" ++ (joined (l :: ls) ++ (units "\n---" ++ rest))
      = (units "---\n" ++ (joined (l :: ls) ++ units "\n---")) ++ rest := by
    simp only [List.append_assoc]
  have hnormal : normalizeEnds (units "---\n" ++ (joined (l :: ls) ++ (units "\n---" ++ rest)))
      = units "---\n" ++ (joined (l :: ls) ++ (units "\n---" ++ normalizeEnds rest)) := by
    rw [htext, normalizeEnds, Find.replacePair_append hcr]
    simp only [List.append_assoc, normalizeEnds]
  have hdrop : (units "---\n" ++ (joined (l :: ls) ++ (units "\n---" ++ normalizeEnds rest))).drop 4
      = joined (l :: ls) ++ (units "\n---" ++ normalizeEnds rest) := rfl
  have hclose : Find.indexFrom (units "\n---")
      (units "---\n" ++ (joined (l :: ls) ++ (units "\n---" ++ normalizeEnds rest))) 4
      = some ((joined (l :: ls)).length + 4) := by
    rw [Find.indexFrom, hdrop, fence_found (fun x hx => (hbreak x hx).1) hfence]
    rfl
  have hlines : (((units "---\n" ++ (joined (l :: ls) ++ (units "\n---" ++ normalizeEnds rest))).take
      ((joined (l :: ls)).length + 4)).drop 4).splitOn (unit '\n') = l :: ls := by
    rw [List.drop_take, hdrop, Nat.add_sub_cancel, List.take_left]
    exact List.splitOn_intercalate _ (fun x hx => (hbreak x hx).1) (List.cons_ne_nil _ _)
  have hafter : (units "---\n" ++ (joined (l :: ls) ++ (units "\n---" ++ normalizeEnds rest))).drop
      ((joined (l :: ls)).length + 4 + 4) = normalizeEnds rest := by
    rw [show (joined (l :: ls)).length + 4 + 4 = 4 + ((joined (l :: ls)).length + 4) by omega,
      ← List.drop_drop, hdrop, ← List.drop_drop, List.drop_left]
    rfl
  have hindex : Find.indexFrom (units "\n")
      (units "---\n" ++ (joined (l :: ls) ++ (units "\n---" ++ normalizeEnds rest)))
      ((joined (l :: ls)).length + 4 + 4) = (Find.indexOf (units "\n") (normalizeEnds rest)).map
        (· + ((joined (l :: ls)).length + 4 + 4)) := by
    rw [Find.indexFrom, hafter]
  have hmark : (units "---\n" ++ (joined (l :: ls) ++ (units "\n---" ++ rest))).head?
      ≠ some 0xFEFF := by
    rw [show units "---\n" = unit '-' :: units "--\n" from rfl, List.cons_append, List.head?_cons]
    decide
  have hopen : units "---\n" <+: units "---\n" ++ (joined (l :: ls)
      ++ (units "\n---" ++ normalizeEnds rest)) := List.prefix_append _ _
  rw [readFrontmatter]
  simp only [if_neg hmark]
  rw [← normalizeEnds, hnormal, if_neg (not_not.mpr hopen), hclose]
  simp only
  rw [hlines, hindex]
  cases readLines 0 0 [] (l :: ls) with
  | error reason => rfl
  | ok fields =>
      rw [bodyAfter]
      cases Find.indexOf (units "\n") (normalizeEnds rest) with
      | none => rfl
      | some k =>
          have hbody : (units "---\n" ++ (joined (l :: ls)
              ++ (units "\n---" ++ normalizeEnds rest))).drop
              (k + ((joined (l :: ls)).length + 4 + 4) + 1) = (normalizeEnds rest).drop (k + 1) := by
            rw [show k + ((joined (l :: ls)).length + 4 + 4) + 1
              = (joined (l :: ls)).length + 4 + 4 + (k + 1) by omega, ← List.drop_drop, hafter]
          simp only [Option.map_some, hbody]
          rfl

-- ================================================================ one line

section Line

variable {fields : List (List UInt16 × List UInt16)} {key value : List UInt16} {i : Nat}

/-- A key that begins a line: no colon in it, not blank, no comment. -/
structure Key (key : List UInt16) : Prop where
  colon : unit ':' ∉ key
  starts : ∃ u ∈ key.head?, Units.isSpace u = false ∧ u ≠ unit '#'

/-- A line of its own, its value on it. -/
theorem readLines_line (hkey : Key key) (hblock : startsBlock (Units.trim value) = false) :
    readLines i 0 fields ((key ++ unit ':' :: value) :: ls)
      = readLines (i + 1) 0 (assign fields (Units.trim key) (lineValue (Units.trim value))) ls := by
  obtain ⟨u, hu, hspace, hcomment⟩ := hkey.starts
  obtain ⟨k, rfl⟩ := List.head?_eq_some_iff.mp hu
  have hindex : Find.indexOf (units ":") (u :: k ++ unit ':' :: value) = some (k.length + 1) := by
    rw [show units ":" = [unit ':'] from rfl, Find.indexOf_append hkey.colon, Find.indexOf,
      if_pos (List.cons_prefix_cons.mpr ⟨rfl, List.nil_prefix⟩)]
    simp
  have hstart : Units.trimStart (u :: k ++ unit ':' :: value) = u :: k ++ unit ':' :: value := by
    rw [Units.trimStart, List.cons_append, List.dropWhile_cons, if_neg (by rw [hspace]; decide)]
  have htrim : Units.trim (u :: k ++ unit ':' :: value) ≠ [] := by
    intro hnil
    have hall := Units.trim_eq_nil_iff.mp hnil u (by simp)
    rw [hspace] at hall
    cases hall
  have hhash : ¬ units "#" <+: u :: k ++ unit ':' :: value := by
    intro hpre
    exact hcomment (List.cons_prefix_cons.mp hpre).1.symm
  have htake : (u :: k ++ unit ':' :: value).take (k.length + 1) = u :: k :=
    List.take_left' (List.length_cons)
  have hdrop : (u :: k ++ unit ':' :: value).drop (k.length + 1 + 1) = value := by
    rw [← List.drop_drop, List.drop_left' (List.length_cons)]
    rfl
  rw [readLines, if_neg (lt_irrefl 0), hstart, if_neg (not_or.mpr ⟨htrim, hhash⟩), List.cons_append,
    List.head?_cons, if_neg (by simp [hspace]), ← List.cons_append, hindex]
  simp only [htake, hdrop]
  rw [if_neg (by rw [hblock]; exact Bool.false_ne_true)]

theorem field_mapSet (k : String) :
    field (Js.mapSet fields key value) k
      = if key = units k then some value else field fields k := by
  induction fields with
  | nil =>
      unfold Js.mapSet field
      by_cases hk : key = units k
      · simp [hk]
      · simp [hk]
  | cons f fields ih =>
      unfold Js.mapSet
      by_cases hf : (f.1 == key) = true
      · rw [if_pos hf]
        have hkey := eq_of_beq hf
        unfold field
        subst hkey
        by_cases hk : f.1 = units k
        · simp [hk]
        · simp [hk]
      · rw [if_neg hf]
        have hkey : ¬ f.1 = key := fun heq => hf (beq_iff_eq.mpr heq)
        unfold field at ih ⊢
        by_cases hfk : f.1 = units k
        · have hk : ¬ key = units k := fun hk => hkey (hfk.trans hk.symm)
          simp [hfk, hk]
        · simpa [hfk] using ih

theorem field_assign {k : String} (hk : units k ≠ units "__proto__") :
    field (assign fields key value) k = if key = units k then some value else field fields k := by
  unfold assign
  split
  next hproto =>
    rw [if_neg]
    rintro rfl
    exact hk hproto
  next => exact field_mapSet k

/-- A line of another key, its value on it. -/
structure OtherLine (line : List UInt16) : Prop where
  value : ∃ key value, line = key ++ unit ':' :: value ∧ Key key
    ∧ Units.trim key ≠ units "description" ∧ startsBlock (Units.trim value) = false
  flat : unit '\n' ∉ line ∧ unit '\r' ∉ line
  fence : ¬ units "---" <+: line

theorem readLines_others (i : Nat) (fields : List (List UInt16 × List UInt16))
    (h : ∀ l ∈ ls, OtherLine l) (more : List (List UInt16)) :
    ∃ fields', readLines i 0 fields (ls ++ more) = readLines (i + ls.length) 0 fields' more
      ∧ field fields' "description" = field fields "description" := by
  induction ls generalizing i fields with
  | nil => exact ⟨fields, rfl, rfl⟩
  | cons l ls ih =>
      obtain ⟨hl, hls⟩ := List.forall_mem_cons.mp h
      obtain ⟨key, value, rfl, hkey, hother, hblock⟩ := hl.value
      have hrest : ∃ fields', readLines (i + 1) 0
          (assign fields (Units.trim key) (lineValue (Units.trim value))) (ls ++ more)
            = readLines (i + 1 + ls.length) 0 fields' more
          ∧ field fields' "description"
            = field (assign fields (Units.trim key) (lineValue (Units.trim value))) "description" :=
        ih _ _ hls
      obtain ⟨fields', hread, hfield⟩ := hrest
      refine ⟨fields', ?_, ?_⟩
      · rw [List.cons_append, readLines_line hkey hblock, hread, List.length_cons,
          Nat.add_right_comm, Nat.add_assoc]
      · rw [hfield, field_assign (by decide), if_neg hother]

end Line

-- ============================================================ the quoted value

/-- Backslash and double quote escaped by a backslash. -/
def escaped (d : List UInt16) : List UInt16 :=
  d.flatMap fun u => if u = unit '\\' ∨ u = unit '"' then [unit '\\', u] else [u]

/-- Only the backslashes escaped. -/
def doubled (d : List UInt16) : List UInt16 :=
  d.flatMap fun u => if u = unit '\\' then [unit '\\', u] else [u]

theorem head_escaped (d : List UInt16) : (escaped d).head? ≠ some (unit '"') := by
  cases d with
  | nil => exact nofun
  | cons u d =>
      rw [escaped, List.flatMap_cons]
      split
      next => exact fun h => absurd (Option.some.inj h) (by decide)
      next hu => exact fun h => hu (.inr (Option.some.inj h))

/-- The first pair undone. -/
theorem unquote_escape (d : List UInt16) :
    Find.replacePair (unit '\\') (unit '"') (units "\"") (escaped d) = doubled d := by
  induction d with
  | nil => rfl
  | cons u d ih =>
      rw [escaped, List.flatMap_cons, ← escaped, doubled, List.flatMap_cons, ← doubled, ← ih]
      by_cases hslash : u = unit '\\'
      · rw [if_pos (.inl hslash), if_pos hslash, hslash]
        simp only [List.cons_append, List.nil_append]
        rw [Find.replacePair_cons fun _ => by rw [List.head?_cons]; decide, Find.replacePair_cons fun _ => head_escaped d]
      · by_cases hquote : u = unit '"'
        · rw [if_pos (.inr hquote), if_neg hslash, hquote]
          exact Find.replacePair_pair
        · rw [if_neg (not_or.mpr ⟨hslash, hquote⟩), if_neg hslash]
          exact Find.replacePair_cons fun hu => absurd hu hslash

theorem head_doubled {u : UInt16} (hu : u ≠ unit '\\') (d : List UInt16) :
    (doubled d).head? = some u ↔ d.head? = some u := by
  cases d with
  | nil => exact Iff.rfl
  | cons v d =>
      rw [doubled, List.flatMap_cons]
      split
      next hv =>
        subst hv
        simp [hu.symm]
      next => simp

/-- A line break read where an `n` follows a backslash. -/
def EscapesBreak (d : List UInt16) : Prop := [unit '\\', unit 'n'] <:+: d

/-- The pair in the middle, where there is none. -/
theorem no_break {d : List UInt16} (h : ¬ EscapesBreak d) :
    Find.replacePair (unit '\\') (unit 'n') (units "\n") (doubled d) = doubled d := by
  induction d with
  | nil => rfl
  | cons u d ih =>
      rw [EscapesBreak, List.infix_cons_iff, not_or] at h
      rw [doubled, List.flatMap_cons, ← doubled]
      by_cases hslash : u = unit '\\'
      · rw [if_pos hslash, hslash]
        simp only [List.cons_append, List.nil_append]
        have hnext : (doubled d).head? ≠ some (unit 'n') := by
          rw [Ne, head_doubled (by decide)]
          intro hhead
          obtain ⟨rest, rfl⟩ := List.head?_eq_some_iff.mp hhead
          exact h.1 ⟨rest, by rw [hslash]; rfl⟩
        rw [Find.replacePair_cons fun _ => by rw [List.head?_cons]; decide, Find.replacePair_cons fun _ => hnext, ih h.2]
      · rw [if_neg hslash]
        rw [List.singleton_append, Find.replacePair_cons fun hu => absurd hu hslash, ih h.2]

theorem mem_break {d : List UInt16} (h : EscapesBreak d) :
    unit '\n' ∈ Find.replacePair (unit '\\') (unit 'n') (units "\n") (doubled d) := by
  induction d with
  | nil => exact absurd (List.infix_nil.mp h) (List.cons_ne_nil _ _)
  | cons u d ih =>
      rw [EscapesBreak, List.infix_cons_iff] at h
      rw [doubled, List.flatMap_cons, ← doubled]
      by_cases hslash : u = unit '\\'
      · rw [if_pos hslash, hslash]
        simp only [List.cons_append, List.nil_append]
        rw [Find.replacePair_cons fun _ => by rw [List.head?_cons]; decide]
        by_cases hnext : (doubled d).head? = some (unit 'n')
        · obtain ⟨rest, hrest⟩ := List.head?_eq_some_iff.mp hnext
          rw [hrest, Find.replacePair_pair]
          exact List.mem_cons_of_mem _ List.mem_cons_self
        · rw [Find.replacePair_cons fun _ => hnext]
          have hd : EscapesBreak d := by
            refine h.resolve_left fun hpre => hnext ((head_doubled (by decide) d).mpr ?_)
            obtain ⟨rest, hrest⟩ := (List.cons_prefix_cons.mp hpre).2
            rw [← hrest]
            rfl
          exact List.mem_cons_of_mem _ (List.mem_cons_of_mem _ (ih hd))
      · rw [if_neg hslash]
        have hd : EscapesBreak d :=
          h.resolve_left fun hpre => hslash (List.cons_prefix_cons.mp hpre).1.symm
        have hstep : Find.replacePair (unit '\\') (unit 'n') (units "\n") ([u] ++ doubled d)
            = u :: Find.replacePair (unit '\\') (unit 'n') (units "\n") (doubled d) :=
          Find.replacePair_cons fun hu => absurd hu hslash
        rw [hstep]
        exact List.mem_cons_of_mem _ (ih hd)

/-- The last pair undone. -/
theorem halve_doubled (d : List UInt16) :
    Find.replacePair (unit '\\') (unit '\\') (units "\\") (doubled d) = d := by
  induction d with
  | nil => rfl
  | cons u d ih =>
      rw [doubled, List.flatMap_cons, ← doubled]
      by_cases hslash : u = unit '\\'
      · rw [if_pos hslash, hslash]
        simp only [List.cons_append, List.nil_append]
        rw [Find.replacePair_pair, ih]
        rfl
      · rw [if_neg hslash]
        rw [List.singleton_append, Find.replacePair_cons fun hu => absurd hu hslash, ih]

/-- The scalar: the escaped text between quotes. -/
def quotedScalar (d : List UInt16) : List UInt16 := unit '"' :: (escaped d ++ [unit '"'])

/-- A quoted text is read back where no line break is seen in it. -/
theorem lineValue_quoted (hflat : unit '\n' ∉ d) :
    lineValue (quotedScalar d) = d ↔ ¬ EscapesBreak d := by
  have hquoted : startsAndEnds (unit '"') (quotedScalar d) = true := by
    have hlast : (quotedScalar d).getLast? = some (unit '"') := by
      rw [quotedScalar, ← List.cons_append, List.getLast?_concat]
    rw [startsAndEnds, hlast]
    simp [quotedScalar]
  have hinner : inner (quotedScalar d) = escaped d := by
    rw [inner, quotedScalar, List.drop_one, List.tail_cons, List.dropLast_concat]
  have hvalue : lineValue (quotedScalar d)
      = Find.replacePair (unit '\\') (unit '\\') (units "\\")
          (Find.replacePair (unit '\\') (unit 'n') (units "\n") (doubled d)) := by
    rw [lineValue, if_pos hquoted, hinner]
    simp only [unquote_escape]
  rw [hvalue]
  constructor
  · intro hsame hbreak
    refine hflat ?_
    rw [← hsame]
    exact Find.mem_replacePair (mem_break hbreak) (by decide) (by decide)
  · intro hbreak
    rw [no_break hbreak, halve_doubled]

-- ============================================================== the guarantee

/-- The line of a description. -/
def descriptionLine (d : List UInt16) : List UInt16 :=
  units "description" ++ unit ':' :: unit ' ' :: quotedScalar d

/-- A `SKILL.md` with a quoted description among other lines. -/
def described (before : List (List UInt16)) (d : List UInt16) (after : List (List UInt16))
    (body : List UInt16) : List UInt16 :=
  units "---\n" ++ (joined (before ++ descriptionLine d :: after) ++ (units "\n---" ++ body))

theorem trim_quotedScalar (d : List UInt16) :
    Units.trim (unit ' ' :: quotedScalar d) = quotedScalar d := by
  have hspace : Units.trim (unit ' ' :: quotedScalar d) = Units.trim (quotedScalar d) := by
    rw [Units.trim, Units.trimStart, List.dropWhile_cons, if_pos (by decide)]
    rfl
  have htrimmed : Units.Trimmed (quotedScalar d) := by
    constructor
    · intro u hu
      rw [quotedScalar, List.head?_cons] at hu
      cases hu
      decide
    · intro u hu
      rw [quotedScalar, ← List.cons_append, List.getLast?_concat] at hu
      cases hu
      decide
  rw [hspace, htrimmed.trim_eq]

theorem flat_descriptionLine (hbreak : unit '\n' ∉ d ∧ unit '\r' ∉ d) :
    unit '\n' ∉ descriptionLine d ∧ unit '\r' ∉ descriptionLine d := by
  have hescaped : ∀ u ∈ escaped d, u ∈ d ∨ u = unit '\\' := by
    intro u hu
    obtain ⟨v, hv, hu⟩ := List.mem_flatMap.mp hu
    split at hu
    next =>
      rcases List.mem_cons.mp hu with hu | hu
      · exact .inr hu
      · rw [List.mem_singleton.mp hu]
        exact .inl hv
    next =>
      rw [List.mem_singleton.mp hu]
      exact .inl hv
  have hall : ∀ u, u ∉ units "description: \"\\" → u ∉ d → u ∉ descriptionLine d := by
    intro u hu hd hmem
    have hcases : u ∈ units "description: \"\\" ∨ u ∈ d := by
      simp only [descriptionLine, quotedScalar, List.mem_append, List.mem_cons, List.not_mem_nil,
        or_false] at hmem
      rcases hmem with hmem | hmem | hmem | hmem | hmem | hmem
      · exact .inl (List.mem_append_left (units ": \"\\") hmem)
      · exact .inl (by rw [hmem]; decide)
      · exact .inl (by rw [hmem]; decide)
      · exact .inl (by rw [hmem]; decide)
      · rcases hescaped u hmem with hmem | hmem
        · exact .inr hmem
        · exact .inl (by rw [hmem]; decide)
      · exact .inl (by rw [hmem]; decide)
    exact hcases.elim hu hd
  exact ⟨hall _ (by decide) hbreak.1, hall _ (by decide) hbreak.2⟩

/-- The description a reader is given. -/
theorem read_described {before after : List (List UInt16)} (body : List UInt16)
    (hbefore : ∀ l ∈ before, OtherLine l) (hafter : ∀ l ∈ after, OtherLine l)
    (hbreak : unit '\n' ∉ d ∧ unit '\r' ∉ d) :
    ∃ read, readFrontmatter (described before d after body) = .ok read
      ∧ field read.fields "description" = some (lineValue (quotedScalar d)) := by
  have hflat : ∀ x ∈ before ++ descriptionLine d :: after, unit '\n' ∉ x ∧ unit '\r' ∉ x := by
    intro x hx
    rcases List.mem_append.mp hx with hx | hx
    · exact (hbefore x hx).flat
    · rcases List.mem_cons.mp hx with rfl | hx
      · exact flat_descriptionLine hbreak
      · exact (hafter x hx).flat
  have hfence : ∀ x ∈ before ++ descriptionLine d :: after, ¬ units "---" <+: x := by
    intro x hx
    rcases List.mem_append.mp hx with hx | hx
    · exact (hbefore x hx).fence
    · rcases List.mem_cons.mp hx with rfl | hx
      · exact fun h => absurd (List.cons_prefix_cons.mp h).1 (by decide)
      · exact (hafter x hx).fence
  have hread : ∃ fields, readLines 0 0 [] (before ++ descriptionLine d :: after) = .ok fields
      ∧ field fields "description" = some (lineValue (quotedScalar d)) := by
    obtain ⟨fields, hfirst, -⟩ := readLines_others 0 [] hbefore (descriptionLine d :: after)
    have hkey : Key (units "description") := ⟨by decide, ⟨unit 'd', by decide, by decide, by decide⟩⟩
    have hname : Units.trim (units "description") = units "description" := by decide
    have hscalar : startsBlock (Units.trim (unit ' ' :: quotedScalar d)) = false := by
      rw [trim_quotedScalar]
      cases hblock : startsBlock (quotedScalar d) with
      | false => rfl
      | true =>
          simp only [startsBlock, Bool.or_eq_true, decide_eq_true_eq] at hblock
          rcases hblock with ((h | h) | h) | h <;> exact absurd (List.cons.inj h).1 (by decide)
    obtain ⟨fields', hlast, hfield⟩ := readLines_others (0 + before.length + 1)
      (assign fields (units "description") (lineValue (quotedScalar d))) hafter []
    refine ⟨fields', ?_, ?_⟩
    · rw [hfirst, descriptionLine, readLines_line hkey hscalar, hname, trim_quotedScalar]
      rw [List.append_nil] at hlast
      rw [hlast, readLines]
    · rw [hfield, field_assign (by decide), if_pos rfl]
  obtain ⟨fields, hfields, hfield⟩ := hread
  obtain ⟨l, ls, hlines⟩ : ∃ l ls, before ++ descriptionLine d :: after = l :: ls :=
    List.exists_cons_of_ne_nil (by simp)
  rw [described]
  rw [hlines] at hflat hfence hfields ⊢
  rw [readFrontmatter_lines hflat fun x hx => hfence x (List.mem_cons_of_mem _ hx), hfields]
  exact ⟨_, rfl, hfield⟩

/-- A description without line breaks is read back as it was written
exactly where no `n` follows a backslash in it. -/
theorem description_roundTrip {d : List UInt16} {before after : List (List UInt16)}
    (body : List UInt16) (hbreak : unit '\n' ∉ d ∧ unit '\r' ∉ d)
    (hbefore : ∀ l ∈ before, OtherLine l) (hafter : ∀ l ∈ after, OtherLine l) :
    (∃ read, readFrontmatter (described before d after body) = .ok read
      ∧ field read.fields "description" = some d) ↔ ¬ EscapesBreak d := by
  obtain ⟨read, hread, hfield⟩ := read_described body hbefore hafter hbreak
  rw [hread, ← lineValue_quoted hbreak.1]
  constructor
  · rintro ⟨read', hread', hfield'⟩
    cases hread'
    rw [hfield] at hfield'
    exact Option.some.inj hfield'
  · intro hsame
    exact ⟨read, rfl, by rw [hfield, hsame]⟩

theorem otherLine_name : OtherLine (units "name: a") where
  value := ⟨units "name", units " a", rfl, ⟨by decide, ⟨unit 'n', by decide, by decide, by decide⟩⟩,
    by decide, by decide⟩
  flat := by decide
  fence := by decide

theorem description_roundTrip_path : (∃ read, readFrontmatter
      (described [units "name: a"] (units "say \"C:\\temp\"") [] (units "\nbody")) = .ok read
      ∧ field read.fields "description" = some (units "say \"C:\\temp\""))
    ↔ ¬ EscapesBreak (units "say \"C:\\temp\"") :=
  description_roundTrip (units "\nbody") (by decide)
    (fun l hl => by rw [List.mem_singleton.mp hl]; exact otherLine_name) nofun

/-- `C:\new` comes back with a line break in it. -/
theorem description_new : ¬ ∃ read,
    readFrontmatter (described [] (units "C:\\new") [] (units "\nbody")) = .ok read
      ∧ field read.fields "description" = some (units "C:\\new") := by
  have hflat : unit '\n' ∉ units "C:\\new" ∧ unit '\r' ∉ units "C:\\new" := by decide
  have hnone : ∀ l ∈ ([] : List (List UInt16)), OtherLine l := nofun
  obtain ⟨read, hread, hfield⟩ := read_described (units "\nbody") hnone hnone hflat
  rw [hread]
  rintro ⟨read', hread', hfield'⟩
  cases hread'
  rw [hfield] at hfield'
  exact absurd (Option.some.inj hfield') (by decide)

end Nacre.Skills
