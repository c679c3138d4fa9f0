/-
A `Buffer` where a program reads it: its bytes, cut and searched at
offsets that are JavaScript numbers, and decoded as UTF-8.

An offset is truncated. `subarray` and `indexOf` count a negative one from
the end, `toString` takes it for the start, and an index that is no
integer in range has no byte. Decoding never fails: what is no UTF-8
becomes U+FFFD, one for the longest part that could have begun a
character.
-/
import Nacre.Lib.Number

namespace Buffer

variable {bytes : List UInt8}

/-- `buffer.constants.MAX_LENGTH`: no buffer is longer. -/
def maxLength : Nat := 2 ^ 53 - 1

-- ================================================================ offsets

/-- `buffer.subarray(begin)`. -/
def subarray (bytes : List UInt8) (start : Number) : List UInt8 :=
  bytes.drop (start.clampFromEnd bytes.length)

/-- `buffer.indexOf(needle, start)`, `none` for `-1`. -/
def indexOf (bytes needle : List UInt8) (start : Number) : Option Nat :=
  Find.indexFrom needle bytes (start.clampFromEnd bytes.length)

/-- `buffer[i]`. -/
def byteAt (bytes : List UInt8) : Number → Option UInt8
  | .finite q => if q.den = 1 ∧ 0 ≤ q.num then bytes[q.num.toNat]? else none
  | _ => none

-- =================================================================== UTF-8

/-- A character that more bytes continue: how many, the bounds of the
next, and the bits so far. -/
structure Open where
  needed : Nat
  lower : Nat
  upper : Nat
  bits : Nat

/-- A scalar value in UTF-16. -/
def unitsOf (c : Nat) : List UInt16 :=
  if c < 0x10000 then [UInt16.ofNat c]
  else
    [UInt16.ofNat (0xD800 + (c - 0x10000) / 0x400), UInt16.ofNat (0xDC00 + (c - 0x10000) % 0x400)]

/-- A first byte: what it writes, or what it opens. -/
def first (b : Nat) : List UInt16 × Option Open :=
  if b < 0x80 then ([UInt16.ofNat b], none)
  else if 0xC2 ≤ b ∧ b ≤ 0xDF then ([], some ⟨1, 0x80, 0xBF, b - 0xC0⟩)
  else if b = 0xE0 then ([], some ⟨2, 0xA0, 0xBF, 0⟩)
  else if b = 0xED then ([], some ⟨2, 0x80, 0x9F, 0xD⟩)
  else if 0xE1 ≤ b ∧ b ≤ 0xEF then ([], some ⟨2, 0x80, 0xBF, b - 0xE0⟩)
  else if b = 0xF0 then ([], some ⟨3, 0x90, 0xBF, 0⟩)
  else if b = 0xF4 then ([], some ⟨3, 0x80, 0x8F, 4⟩)
  else if 0xF1 ≤ b ∧ b ≤ 0xF3 then ([], some ⟨3, 0x80, 0xBF, b - 0xF0⟩)
  else ([0xFFFD], none)

/-- The rest of the bytes, within a character or not. -/
def decodeFrom : Option Open → List UInt8 → List UInt16
  | none, [] => []
  | some _, [] => [0xFFFD]
  | none, b :: rest =>
      let r := first b.toNat
      r.1 ++ decodeFrom r.2 rest
  | some c, b :: rest =>
      if c.lower ≤ b.toNat ∧ b.toNat ≤ c.upper then
        let bits := c.bits * 64 + b.toNat % 64
        if c.needed = 1 then unitsOf bits ++ decodeFrom none rest
        else decodeFrom (some ⟨c.needed - 1, 0x80, 0xBF, bits⟩) rest
      else
        -- the byte may begin one of its own
        let r := first b.toNat
        0xFFFD :: r.1 ++ decodeFrom r.2 rest

/-- `bytes.toString('utf8')`. -/
def decode (bytes : List UInt8) : List UInt16 := decodeFrom none bytes

/-- `buffer.toString('utf8', start, end)`. -/
def toString (bytes : List UInt8) (start stop : Number) : List UInt16 :=
  decode ((bytes.take (stop.clamp bytes.length)).drop (start.clamp bytes.length))

-- ================================================================== ASCII

/-- What is ASCII is as many units. -/
theorem decode_ascii (h : ∀ b ∈ bytes, b.toNat < 0x80) :
    decode bytes = bytes.map fun b => UInt16.ofNat b.toNat := by
  unfold decode
  induction bytes with
  | nil => rfl
  | cons b rest ih =>
      obtain ⟨hb, hrest⟩ := List.forall_mem_cons.mp h
      rw [decodeFrom, first, if_pos hb]
      exact congrArg _ (ih hrest)

example : decode [0x61, 0xE2, 0x82, 0x41, 0xF0, 0x9F, 0x98, 0x80] = [0x61, 0xFFFD, 0x41, 0xD83D, 0xDE00] := by
  decide

-- ======================================================= natural offsets

theorem clamp_ofNat (len n : Nat) : (Number.ofNat n).clamp len = min n len := by
  simp [Number.ofNat, Number.clamp, Number.trunc]

theorem clampFromEnd_ofNat (len n : Nat) : (Number.ofNat n).clampFromEnd len = min n len := by
  simp [Number.ofNat, Number.clampFromEnd, Number.trunc]

theorem subarray_ofNat (bytes : List UInt8) (n : Nat) :
    subarray bytes (.ofNat n) = bytes.drop n := by
  rw [subarray, clampFromEnd_ofNat]
  rcases le_total n bytes.length with h | h
  · rw [min_eq_left h]
  · rw [min_eq_right h, List.drop_length, List.drop_eq_nil_of_le h]

theorem indexOf_ofNat (bytes needle : List UInt8) {n : Nat} (h : n ≤ bytes.length) :
    indexOf bytes needle (.ofNat n) = Find.indexFrom needle bytes n := by
  rw [indexOf, clampFromEnd_ofNat, min_eq_left h]

theorem byteAt_ofNat (bytes : List UInt8) (n : Nat) : byteAt bytes (.ofNat n) = bytes[n]? := by
  simp [byteAt, Number.ofNat]

theorem toString_ofNat (bytes : List UInt8) {m n : Nat} (hm : m ≤ bytes.length)
    (hn : n ≤ bytes.length) :
    toString bytes (.ofNat m) (.ofNat n) = decode ((bytes.take n).drop m) := by
  rw [toString, clamp_ofNat, clamp_ofNat, min_eq_left hm, min_eq_left hn]

end Buffer
