/-
Comma-separated values, as RFC 4180 has them: a reader, and a cell as a
writer puts it.

The reader takes any unit but a quote, a comma or a line break as text. A
cell that holds one of these is between quotes, where a quote is two; a
record ends with a carriage return and a line feed, and nowhere else.
`readCsv` is strict: what the grammar has no place for is no table.

`read_line` is the law of one record: whatever its cells hold, it is read
back as it is, and the reading goes on after it.
-/
import Mathlib.Data.List.Basic

namespace Csv

abbrev Cell := List UInt16
abbrev Row := List Cell

def quoteUnit : UInt16 := 34
def comma : UInt16 := 44
def cr : UInt16 := 13
def lf : UInt16 := 10

-- =============================================================== the reader

/-- Where the reader is: before a record, before a further cell, in a cell
without quotes or with, after a quote that may have closed it, after a
carriage return. -/
inductive Mode where
  | row
  | cell
  | plain
  | quoted
  | closed
  | ending
  deriving DecidableEq

/-- The records of a text, from where the reader is: `cell` is what it has of
the cell, `row` the cells before it. -/
def read : Mode → Cell → Row → List UInt16 → Option (List Row)
  | .row, _, _, [] => some []
  | .quoted, _, _, [] => none
  | .ending, _, _, [] => none
  | .cell, cell, row, [] => some [row ++ [cell]]
  | .plain, cell, row, [] => some [row ++ [cell]]
  | .closed, cell, row, [] => some [row ++ [cell]]
  | .quoted, cell, row, c :: rest =>
      if c = quoteUnit then read .closed cell row rest else read .quoted (cell ++ [c]) row rest
  | .ending, _, row, c :: rest =>
      if c = lf then (read .row [] [] rest).map (row :: ·) else none
  | mode, cell, row, c :: rest =>
      if c = comma then read .cell [] (row ++ [cell]) rest
      else if c = cr then read .ending [] (row ++ [cell]) rest
      else if c = quoteUnit then
        match mode with
        | .row | .cell => read .quoted [] row rest
        | .closed => read .quoted (cell ++ [c]) row rest
        | _ => none
      else if c = lf ∨ mode = .closed then none
      else read .plain (cell ++ [c]) row rest

def readCsv (text : List UInt16) : Option (List Row) := read .row [] [] text

-- ================================================================== a cell

/-- A unit a cell without quotes cannot have. -/
def isSpecial (c : UInt16) : Bool := c = quoteUnit || c = comma || c = cr || c = lf

/-- Every quote twice. -/
def doubled (cell : Cell) : List UInt16 :=
  cell.flatMap fun c => if c = quoteUnit then [quoteUnit, quoteUnit] else [c]

/-- A cell between quotes when it has to be. -/
def written (cell : Cell) : List UInt16 :=
  if cell.any isSpecial then quoteUnit :: doubled cell ++ [quoteUnit] else cell

/-- The cells of a record, and its end. -/
def line (row : Row) : List UInt16 :=
  List.intercalate [comma] (row.map written) ++ [cr, lf]

/-- The modes a cell may end in. -/
def Ends (mode : Mode) : Prop := mode ≠ .quoted ∧ mode ≠ .ending

variable {mode : Mode} {cell : Cell} {row : Row} {rest : List UInt16}

theorem read_comma (h : Ends mode) :
    read mode cell row (comma :: rest) = read .cell [] (row ++ [cell]) rest := by
  cases mode with
  | quoted => exact absurd rfl h.1
  | ending => exact absurd rfl h.2
  | _ =>
      rw [read, if_pos rfl] <;> nofun

theorem read_cr (h : Ends mode) :
    read mode cell row (cr :: rest) = read .ending [] (row ++ [cell]) rest := by
  cases mode with
  | quoted => exact absurd rfl h.1
  | ending => exact absurd rfl h.2
  | _ =>
      rw [read, if_neg (by decide), if_pos rfl] <;> nofun

theorem read_crlf (h : Ends mode) :
    read mode cell row (cr :: lf :: rest)
      = (read .row [] [] rest).map ((row ++ [cell]) :: ·) := by
  rw [read_cr h, read, if_pos rfl]

/-- Text that has no special unit, after some that has none. -/
theorem read_plain (cell : Cell) (more : List UInt16) (h : ∀ c ∈ more, isSpecial c = false) :
    read .plain cell row (more ++ rest) = read .plain (cell ++ more) row rest := by
  induction more generalizing cell with
  | nil => rw [List.nil_append, List.append_nil]
  | cons c more ih =>
      have hc := h c List.mem_cons_self
      simp only [isSpecial, Bool.or_eq_false_iff, decide_eq_false_iff_not] at hc
      obtain ⟨⟨⟨hquote, hcomma⟩, hcr⟩, hlf⟩ := hc
      rw [List.cons_append, read, if_neg hcomma, if_neg hcr, if_neg hquote,
        if_neg (by simp [hlf]), ih _ fun d hd => h d (List.mem_cons_of_mem _ hd),
        List.append_assoc, List.singleton_append]
      all_goals nofun

/-- Between the quotes, and the one that closes. -/
theorem read_doubled (cell : Cell) (more : List UInt16) :
    read .quoted cell row (doubled more ++ quoteUnit :: rest)
      = read .closed (cell ++ more) row rest := by
  induction more generalizing cell with
  | nil =>
      rw [List.append_nil]
      show read .quoted cell row (quoteUnit :: rest) = _
      rw [read, if_pos rfl]
  | cons c more ih =>
      by_cases hc : c = quoteUnit
      · have htext : doubled (c :: more) ++ quoteUnit :: rest
            = quoteUnit :: quoteUnit :: (doubled more ++ quoteUnit :: rest) := by
          simp [doubled, hc]
        rw [htext, read, if_pos rfl, read, if_neg (by decide), if_neg (by decide), if_pos rfl,
          ih, List.append_assoc, List.singleton_append, hc]
      · have htext : doubled (c :: more) ++ quoteUnit :: rest
            = c :: (doubled more ++ quoteUnit :: rest) := by
          simp [doubled, hc]
        rw [htext, read, if_neg hc, ih, List.append_assoc, List.singleton_append]

/-- One cell, whatever it holds. -/
theorem read_written (hmode : mode = .row ∨ mode = .cell) (cell : Cell) (row : Row)
    (rest : List UInt16) :
    ∃ mode', Ends mode' ∧ read mode [] row (written cell ++ rest) = read mode' cell row rest := by
  unfold written
  split
  next hspecial =>
    refine ⟨.closed, ⟨nofun, nofun⟩, ?_⟩
    have hopen : ∀ text, read mode [] row (quoteUnit :: text) = read .quoted [] row text := by
      intro text
      rcases hmode with rfl | rfl
      · rw [read, if_neg (by decide), if_neg (by decide), if_pos rfl]
      · rw [read, if_neg (by decide), if_neg (by decide), if_pos rfl]
    rw [List.cons_append, List.cons_append, List.append_assoc, List.singleton_append, hopen,
      read_doubled, List.nil_append]
  next hplain =>
    cases cell with
    | nil =>
        refine ⟨mode, ?_, rfl⟩
        rcases hmode with rfl | rfl <;> exact ⟨nofun, nofun⟩
    | cons c more =>
        refine ⟨.plain, ⟨nofun, nofun⟩, ?_⟩
        have hall : ∀ d ∈ c :: more, isSpecial d = false := by
          intro d hd
          by_contra hspecial
          exact hplain (List.any_eq_true.2 ⟨d, hd, by simpa using hspecial⟩)
        have hfirst : ∀ text, read mode [] row (c :: text) = read .plain [c] row text := by
          intro text
          have hc := hall c List.mem_cons_self
          simp only [isSpecial, Bool.or_eq_false_iff, decide_eq_false_iff_not] at hc
          obtain ⟨⟨⟨hquote, hcomma⟩, hcr⟩, hlf⟩ := hc
          rcases hmode with rfl | rfl
          · rw [read, if_neg hcomma, if_neg hcr, if_neg hquote, if_neg (by simp [hlf])]
            rfl
          · rw [read, if_neg hcomma, if_neg hcr, if_neg hquote, if_neg (by simp [hlf])]
            rfl
        rw [List.cons_append, hfirst,
          read_plain [c] more fun d hd => hall d (List.mem_cons_of_mem _ hd)]
        rfl

-- ================================================================ a record

/-- Further cells, and the end of the record. -/
theorem read_more (cells : List Cell) {mode : Mode} {cell : Cell} (h : Ends mode) (row : Row) :
    read mode cell row (cells.flatMap (fun c => comma :: written c) ++ cr :: lf :: rest)
      = (read .row [] [] rest).map ((row ++ cell :: cells) :: ·) := by
  induction cells generalizing mode cell row with
  | nil => exact read_crlf h
  | cons c cells ih =>
      rw [List.flatMap_cons, List.cons_append, List.cons_append, read_comma h, List.append_assoc]
      obtain ⟨mode', hends, hread⟩ := read_written (.inr rfl) c (row ++ [cell])
        (cells.flatMap (fun c => comma :: written c) ++ cr :: lf :: rest)
      rw [hread, ih hends, List.append_assoc, List.singleton_append]

theorem line_cons (cell : Cell) (cells : List Cell) :
    line (cell :: cells)
      = written cell ++ (cells.flatMap (fun c => comma :: written c) ++ [cr, lf]) := by
  induction cells generalizing cell with
  | nil => simp [line]
  | cons c cells ih =>
      have hrest := ih c
      unfold line at hrest ⊢
      rw [List.map_cons, List.map_cons, List.intercalate_cons_cons, List.append_assoc,
        List.append_assoc, ← List.map_cons, hrest]
      simp

/-- A record is read as it is, and the reading goes on after it. -/
theorem read_line {row : Row} (hrow : row ≠ []) (rest : List UInt16) :
    readCsv (line row ++ rest) = (readCsv rest).map (row :: ·) := by
  obtain ⟨cell, cells, rfl⟩ := List.exists_cons_of_ne_nil hrow
  rw [line_cons, List.append_assoc, List.append_assoc]
  obtain ⟨mode, hends, hread⟩ := read_written (.inl rfl) cell []
    (cells.flatMap (fun c => comma :: written c) ++ ([cr, lf] ++ rest))
  rw [readCsv, hread]
  exact read_more cells hends []

/-- So is any number of them. -/
theorem read_lines {rows : List Row} (h : ∀ row ∈ rows, row ≠ []) :
    readCsv (rows.flatMap line) = some rows := by
  induction rows with
  | nil => rfl
  | cons row rows ih =>
      rw [List.flatMap_cons, read_line (h row List.mem_cons_self),
        ih fun r hr => h r (List.mem_cons_of_mem _ hr)]
      rfl

end Csv
