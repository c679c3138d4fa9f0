/-
Reading a QR code of level M, as the specification has it.

Nothing here is the encoder's: the function patterns are regions of the
symbol and a table of alignment positions, the zigzag is pairs of columns
taken upwards and downwards in turn, the blocks are taken apart from the
number of their codewords. A reading keeps what was read on the way, the
blocks with their error correction too.
-/
import Nacre.Lib.Buffer
import Nacre.Lib.Rects
import Nacre.Qr.Codewords

namespace Nacre.Qr

-- ======================================================== the function patterns

/-- The positions of the alignment patterns, by version. -/
def alignmentTable : List (List Nat) :=
  [[], [], [6, 18], [6, 22], [6, 26], [6, 30], [6, 34], [6, 22, 38], [6, 24, 42], [6, 26, 46],
    [6, 28, 50], [6, 30, 54], [6, 32, 58], [6, 34, 62], [6, 26, 46, 66], [6, 26, 48, 70],
    [6, 26, 50, 74], [6, 30, 54, 78], [6, 30, 56, 82], [6, 30, 58, 86], [6, 34, 62, 90],
    [6, 28, 50, 72, 94], [6, 26, 50, 74, 98], [6, 30, 54, 78, 102], [6, 28, 54, 80, 106],
    [6, 32, 58, 84, 110], [6, 30, 58, 86, 114], [6, 34, 62, 90, 118], [6, 26, 50, 74, 98, 122],
    [6, 30, 54, 78, 102, 126], [6, 26, 52, 78, 104, 130], [6, 30, 56, 82, 108, 134],
    [6, 34, 60, 86, 112, 138], [6, 30, 58, 86, 114, 142], [6, 34, 62, 90, 118, 146],
    [6, 30, 54, 78, 102, 126, 150], [6, 24, 50, 76, 102, 128, 154], [6, 28, 54, 80, 106, 132, 158],
    [6, 32, 58, 84, 110, 136, 162], [6, 26, 54, 82, 110, 138, 166], [6, 30, 58, 86, 114, 142, 170]]

/-- The centres of a version's alignment patterns: every crossing but the
three at the finder patterns. -/
def centres (version : Nat) : List (Nat × Nat) :=
  let positions := alignmentTable.getD version []
  let last := sizeOf version - 7
  (positions.flatMap fun x => positions.map fun y => (x, y)).filter fun p =>
    p ∉ [(6, 6), (last, 6), (6, last)]

/-- The regions of a version that hold no data: the finder patterns with
their separators and the format strips, the timing lines, the alignment
patterns, the version blocks. -/
def regions (version : Nat) : List Rect :=
  let size := sizeOf version
  [⟨0, 0, 9, 9⟩, ⟨size - 8, 0, 8, 9⟩, ⟨0, size - 8, 9, 8⟩, ⟨0, 6, size, 1⟩, ⟨6, 0, 1, size⟩]
    ++ (centres version).map (fun c => ⟨c.1 - 2, c.2 - 2, 5, 5⟩)
    ++ if version ≥ 7 then [⟨size - 11, 0, 3, 6⟩, ⟨0, size - 11, 6, 3⟩] else []

def isFunction (version x y : Nat) : Bool := (regions version).any (·.has x y)

-- =================================================================== the walk

/-- The right column of each pair, from the right edge, the vertical timing
line left out. -/
def rightColumns (size : Nat) : List Nat :=
  ((List.range ((size - 7) / 2)).map fun k => size - 1 - 2 * k) ++ [5, 3, 1]

/-- Pairs of columns from right to left, upwards and downwards in turn. -/
def zigzag (size : Nat) : List (Nat × Nat) :=
  (rightColumns size).zipIdx.flatMap fun (right, k) => (List.range size).flatMap fun step =>
    let y := if k % 2 = 0 then size - 1 - step else step
    [(right, y), (right - 1, y)]

/-- The modules that hold data, in the order they hold it. -/
def dataPath (version : Nat) : List (Nat × Nat) :=
  (zigzag (sizeOf version)).filter fun p => !isFunction version p.1 p.2

-- ================================================================= the reading

/-- The mask patterns, by row and column. -/
def maskBit (mask i j : Nat) : Bool :=
  match mask with
  | 0 => (i + j) % 2 = 0
  | 1 => i % 2 = 0
  | 2 => j % 3 = 0
  | 3 => (i + j) % 3 = 0
  | 4 => (i / 2 + j / 3) % 2 = 0
  | 5 => (i * j) % 2 + (i * j) % 3 = 0
  | 6 => ((i * j) % 2 + (i * j) % 3) % 2 = 0
  | _ => ((i + j) % 2 + (i * j) % 3) % 2 = 0

inductive Copy where
  /-- Around the finder pattern at the top left. -/
  | first
  /-- Split between the two others. -/
  | second

/-- The modules of the format information, the least significant bit
first. -/
def Copy.modules (size : Nat) : Copy → List (Nat × Nat)
  | .first => [(8, 0), (8, 1), (8, 2), (8, 3), (8, 4), (8, 5), (8, 7), (8, 8), (7, 8), (5, 8), (4, 8),
      (3, 8), (2, 8), (1, 8), (0, 8)]
  | .second => [(size - 1, 8), (size - 2, 8), (size - 3, 8), (size - 4, 8), (size - 5, 8),
      (size - 6, 8), (size - 7, 8), (size - 8, 8), (8, size - 7), (8, size - 6), (8, size - 5),
      (8, size - 4), (8, size - 3), (8, size - 2), (8, size - 1)]

def moduleAt (rows : List (List Bool)) (x y : Nat) : Bool := (rows.getD y []).getD x false

/-- The mask of a symbol of level M, from one copy of the format. -/
def readMask (rows : List (List Bool)) (copy : Copy) : Option Nat :=
  let bits := (copy.modules rows.length).map fun p => moduleAt rows p.1 p.2
  let data := (Bits.toNat bits.reverse ^^^ 0x5412) >>> 10
  if data / 8 = 0 then some (data % 8) else none

/-- The codewords along the zigzag, the mask undone. -/
def readStream (rows : List (List Bool)) (version mask : Nat) : List Nat :=
  Bits.octets ((dataPath version).map fun p => moduleAt rows p.1 p.2 ^^ maskBit mask p.2 p.1)

structure Block where
  data : List Nat
  ecc : List Nat

/-- The `j`-th block of a stream: a codeword of each round, and of the
last round of data only where the block is one of the longer ones. -/
def readBlock (stream : List Nat) (version j : Nat) : Block :=
  let count := blockCount version
  let longer := stream.length % count
  let rounds := stream.length / count - eccLength version
  { data := (List.range rounds).map (fun i => stream.getD (i * count + j) 0)
      ++ if j < count - longer then [] else [stream.getD (rounds * count + (j - (count - longer))) 0]
    ecc := (List.range (eccLength version)).map fun i =>
      stream.getD (rounds * count + longer + (i * count + j)) 0 }

/-- The bytes of a segment in byte mode. -/
def parseBytes (bits : List Bool) (version : Nat) : Option (List Nat) :=
  let width := if version ≤ 9 then 8 else 16
  let count := Bits.toNat ((bits.drop 4).take width)
  let payload := bits.drop (4 + width)
  if Bits.toNat (bits.take 4) = 4 ∧ count * 8 ≤ payload.length then
    some (Bits.octets (payload.take (count * 8)))
  else none

structure Reading where
  version : Nat
  mask : Nat
  blocks : List Block
  text : List UInt16

/-- What a symbol says, the mask taken from one copy of its format. -/
def read (rows : List (List Bool)) (copy : Copy) : Option Reading := do
  let version := (rows.length - 17) / 4
  let mask ← readMask rows copy
  let stream := readStream rows version mask
  let blocks := (List.range (blockCount version)).map (readBlock stream version)
  let bytes ← parseBytes ((blocks.flatMap Block.data).flatMap (Bits.ofNat 8)) version
  some ⟨version, mask, blocks, Buffer.decode (bytes.map UInt8.ofNat)⟩

end Nacre.Qr
