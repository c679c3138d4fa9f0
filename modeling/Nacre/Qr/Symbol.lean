/-
The symbol of a QR code: function patterns, the codewords along the
zigzag, the masks and their penalty, the format.

A grid is read and set by column and row. The function patterns are the
calls of `set` in their order (`patternWrites`): the last one on a module
says its colour, and any at all reserves it.
-/
import Nacre.Lib.Utf8
import Nacre.Qr.Codewords

namespace Nacre.Qr

-- =================================================================== the grid

/-- `modules[y][x]`, the column first. -/
abbrev Grid := Nat → Nat → Bool

def Grid.set (grid : Grid) (x y : Nat) (dark : Bool) : Grid :=
  fun x' y' => if x' = x ∧ y' = y then dark else grid x' y'

/-- A call of `set(x, y, dark)`. -/
structure Write where
  x : Nat
  y : Nat
  dark : Bool

def writeAll (grid : Grid) (writes : List Write) : Grid :=
  writes.foldl (fun grid w => grid.set w.x w.y w.dark) grid

-- ====================================================== the function patterns

/-- From `-n` to `n`. -/
def offsets (n : Nat) : List Int := (List.range (2 * n + 1)).map fun (i : Nat) => (i : Int) - n

def distance (dx dy : Int) : Nat := max dx.natAbs dy.natAbs

def timingWrites (size : Nat) : List Write :=
  (List.range size).flatMap fun i => [⟨6, i, i % 2 = 0⟩, ⟨i, 6, i % 2 = 0⟩]

/-- A finder pattern with its separator, clipped. -/
def finderWrites (size : Nat) (cx cy : Int) : List Write :=
  (offsets 4).flatMap fun dy => (offsets 4).filterMap fun dx =>
    let x := cx + dx
    let y := cy + dy
    if x < 0 ∨ x ≥ size ∨ y < 0 ∨ y ≥ size then none
    else some ⟨x.toNat, y.toNat, distance dx dy ≠ 2 ∧ distance dx dy ≠ 4⟩

/-- The spacing of the alignment patterns, `count` of them on an axis. -/
def alignmentStep (version count : Nat) : Nat :=
  if version = 32 then 26 else (version * 4 + 4 + (count * 2 - 2) - 1) / (count * 2 - 2) * 2

/-- `n` positions from `pos` down, each put before the ones so far. -/
def alignmentFrom (step : Nat) : Nat → Nat → List Nat → List Nat
  | 0, _, result => result
  | n + 1, pos, result => alignmentFrom step n (pos - step) (pos :: result)

/-- Where the alignment patterns go, in both axes. -/
def alignmentPositions (version : Nat) : List Nat :=
  if version = 1 then []
  else
    let count := version / 7 + 2
    6 :: alignmentFrom (alignmentStep version count) (count - 1) (sizeOf version - 7) []

/-- The corners of the crossings, which are finder patterns. -/
def isCorner (last i j : Nat) : Bool :=
  (i = 0 && j = 0) || (i = 0 && j = last) || (i = last && j = 0)

def alignmentWrites (positions : List Nat) : List Write :=
  (List.range positions.length).flatMap fun i => (List.range positions.length).flatMap fun j =>
    if isCorner (positions.length - 1) i j then []
    else
      (offsets 2).flatMap fun dy => (offsets 2).map fun dx =>
        ⟨Int.toNat (↑(positions.getD j 0) + dx), Int.toNat (↑(positions.getD i 0) + dy),
          distance dx dy ≠ 1⟩

/-- The version and the remainder of its code. -/
def versionWord (version : Nat) : Nat :=
  let bits := (List.range 12).foldl (fun bits _ => (bits <<< 1) ^^^ ((bits >>> 11) * 0x1f25)) version
  (version <<< 12) ||| bits

def versionWrites (version : Nat) : List Write :=
  if version ≥ 7 then
    (List.range 18).flatMap fun i =>
      let dark := (versionWord version).testBit i
      let a := sizeOf version - 11 + i % 3
      let b := i / 3
      [⟨a, b, dark⟩, ⟨b, a, dark⟩]
  else []

/-- Where each of the fifteen format bits goes, in both copies. -/
def formatPositions (size : Nat) : List (Nat × Nat) × List (Nat × Nat) :=
  ((List.range 6).map (fun i => (8, i)) ++ [(8, 7), (8, 8), (7, 8)]
      ++ (List.range 6).map (fun k => (14 - (k + 9), 8)),
    (List.range 8).map (fun i => (size - 1 - i, 8))
      ++ (List.range 7).map fun k => (8, size - 15 + (k + 8)))

/-- The strip is reserved rather than written. -/
def formatWrites (size : Nat) : List Write :=
  ((formatPositions size).1 ++ (formatPositions size).2).map fun p => ⟨p.1, p.2, false⟩

def patternWrites (version : Nat) : List Write :=
  let size := sizeOf version
  timingWrites size ++ finderWrites size 3 3 ++ finderWrites size (size - 4) 3
    ++ finderWrites size 3 (size - 4) ++ alignmentWrites (alignmentPositions version)
    ++ versionWrites version ++ formatWrites size ++ [⟨8, size - 8, true⟩]

structure Patterns where
  modules : Grid
  reserved : Grid

/-- The function patterns, and which modules they own. -/
def functionPatterns (version : Nat) : Patterns :=
  ⟨writeAll (fun _ _ => false) (patternWrites version),
    writeAll (fun _ _ => false) ((patternWrites version).map fun w => { w with dark := true })⟩

-- =============================================================== the codewords

/-- The right column of each pair, from `right` on, the vertical timing
line skipped. -/
def rightsFrom (right : Nat) : List Nat :=
  if right < 1 then []
  else
    let right' := if right = 6 then 5 else right
    right' :: rightsFrom (right' - 2)
termination_by right
decreasing_by
  split <;> omega

/-- The walk over the whole symbol, bottom-right to top-left. -/
def walk (size : Nat) : List (Nat × Nat) :=
  (rightsFrom (size - 1)).flatMap fun right => (List.range size).flatMap fun vertical =>
    (List.range 2).map fun column =>
      -- upwards or downwards
      (right - column, if (right + 1) &&& 2 = 0 then size - 1 - vertical else vertical)

def bitAt (codewords : List Nat) (bit : Nat) : Bool :=
  ((codewords.getD (bit >>> 3) 0) >>> (7 - (bit &&& 7))) &&& 1 ≠ 0

/-- One module of the walk: the next bit, and the grid. -/
def placeStep (reserved : Grid) (codewords : List Nat) (state : Nat × Grid) (p : Nat × Nat) :
    Nat × Grid :=
  if reserved p.1 p.2 then state
  else if state.1 < codewords.length * 8 then
    (state.1 + 1, state.2.set p.1 p.2 (bitAt codewords state.1))
  else state

/-- Lay the interleaved codewords out. -/
def placeCodewords (size : Nat) (modules reserved : Grid) (codewords : List Nat) : Grid :=
  ((walk size).foldl (placeStep reserved codewords) (0, modules)).2

-- =================================================================== the masks

/-- The eight mask patterns, by number. -/
def masks (mask x y : Nat) : Bool :=
  match mask with
  | 0 => (x + y) % 2 = 0
  | 1 => y % 2 = 0
  | 2 => x % 3 = 0
  | 3 => (x + y) % 3 = 0
  | 4 => (x / 3 + y / 2) % 2 = 0
  | 5 => (x * y) % 2 + (x * y) % 3 = 0
  | 6 => ((x * y) % 2 + (x * y) % 3) % 2 = 0
  | _ => ((x + y) % 2 + (x * y) % 3) % 2 = 0

/-- Flip the modules a mask selects, leaving the function patterns
alone. -/
def applyMask (size : Nat) (modules reserved : Grid) (mask : Nat) : Grid := fun x y =>
  if x < size ∧ y < size ∧ reserved x y = false ∧ masks mask x y then !modules x y else modules x y

/-- The level and the mask, with the remainder of their code. -/
def formatWord (mask : Nat) : Nat :=
  let data := (0 <<< 3) ||| mask
  let rem := (List.range 10).foldl (fun rem _ => (rem <<< 1) ^^^ ((rem >>> 9) * 0x537)) data
  ((data <<< 10) ||| rem) ^^^ 0x5412

def placeCopy (modules : Grid) (word : Nat) (copy : List (Nat × Nat)) : Grid :=
  writeAll modules (copy.zipIdx.map fun (p, i) => ⟨p.1, p.2, word.testBit i⟩)

/-- Write the format information, which says the level and the mask. -/
def placeFormat (size : Nat) (modules : Grid) (mask : Nat) : Grid :=
  placeCopy (placeCopy modules (formatWord mask) (formatPositions size).1) (formatWord mask)
    (formatPositions size).2

-- ================================================================= the penalty

/-- The runs of a line so far, the last one first. -/
abbrev History := List Nat

def countFinders (history : History) : Nat :=
  let at_ (i : Nat) := history.getD i 0
  let n := at_ 1
  let core := n > 0 ∧ at_ 2 = n ∧ at_ 3 = n * 3 ∧ at_ 4 = n ∧ at_ 5 = n
  (if core ∧ at_ 0 ≥ n * 4 ∧ at_ 6 ≥ n then 1 else 0)
    + if core ∧ at_ 6 ≥ n * 4 ∧ at_ 0 ≥ n then 1 else 0

/-- The quiet zone outside the symbol counts as light. -/
def addRun (size length : Nat) (history : History) : History :=
  (if history.getD 0 0 = 0 then length + size else length) :: history.dropLast

def finish (size : Nat) (dark : Bool) (length : Nat) (history : History) : Nat :=
  if dark then countFinders (addRun size (0 + size) (addRun size length history))
  else countFinders (addRun size (length + size) history)

structure Line where
  score : Nat
  dark : Bool
  run : Nat
  history : History

def lineStep (size : Nat) (line : Line) (module : Bool) : Line :=
  if module = line.dark then
    let run := line.run + 1
    { line with
      run := run
      score := line.score + if run = 5 then 3 else if run > 5 then 1 else 0 }
  else
    let history := addRun size line.run line.history
    { score := line.score + if line.dark then 0 else countFinders history * 40
      dark := module
      run := 1
      history := history }

def lineScore (size : Nat) (modules : List Bool) : Nat :=
  let line := modules.foldl (lineStep size) ⟨0, false, 0, List.replicate 7 0⟩
  line.score + finish size line.dark line.run line.history * 40

/-- The blocks of two by two in one colour. -/
def squares (size : Nat) (modules : Grid) : Nat :=
  ((List.range (size - 1)).flatMap fun y => (List.range (size - 1)).filter fun x =>
    modules x y = modules (x + 1) y ∧ modules x y = modules x (y + 1)
      ∧ modules x y = modules (x + 1) (y + 1)).length

/-- The specification's penalty score. -/
def penalty (size : Nat) (modules : Grid) : Int :=
  let rows := (List.range size).map fun a => lineScore size ((List.range size).map (modules · a))
  let columns := (List.range size).map fun a => lineScore size ((List.range size).map (modules a ·))
  let dark := ((List.range size).flatMap fun y => (List.range size).filter (modules · y)).length
  let total := size * size
  let off := ((dark * 20 : Int) - total * 10).natAbs
  rows.sum + columns.sum + squares size modules * 3 + (((off + total - 1) / total : Nat) - 1) * 10

-- ==================================================================== the symbol

/-- The masks tried one after another: the grid, and the best with its
score. -/
structure Trial where
  modules : Grid
  best : Nat
  score : Option Int

/-- Every mask is applied, scored and undone. -/
def tryMask (size : Nat) (reserved : Grid) (trial : Trial) (mask : Nat) : Trial :=
  let modules := placeFormat size (applyMask size trial.modules reserved mask) mask
  let score := penalty size modules
  let better : Bool := trial.score.all fun best => score < best
  { modules := applyMask size modules reserved mask
    best := if better then mask else trial.best
    score := if better then some score else trial.score }

def rows (size : Nat) (modules : Grid) : List (List Bool) :=
  (List.range size).map fun y => (List.range size).map fun x => modules x y

/-- The symbol of a version, its codewords given. -/
def draw (version : Nat) (codewords : List Nat) : List (List Bool) :=
  let size := sizeOf version
  let patterns := functionPatterns version
  let modules := placeCodewords size patterns.modules patterns.reserved codewords
  let trial := (List.range 8).foldl (tryMask size patterns.reserved) ⟨modules, 0, none⟩
  rows size (placeFormat size (applyMask size trial.modules patterns.reserved trial.best) trial.best)

/-- The module grid for a string, `true` where a module is dark; `none`
where it does not fit. -/
def qrMatrix (text : List UInt16) : Option (List (List Bool)) :=
  let bytes := (Utf8.bytesOf text).map UInt8.toNat
  (versionFor bytes.length).map fun version =>
    draw version (withErrorCorrection (encodeData bytes version) version)

end Nacre.Qr
