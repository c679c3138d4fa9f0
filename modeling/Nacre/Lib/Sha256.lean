/-
SHA-256 (FIPS 180-4), as far as `createHash('sha256')` of a whole message
and its hexadecimal digest.

Nothing is proved of it beyond its test vectors: what is proved of the
code holds for any function from bytes to text. It is here so that an
equation between two hashes is about the hashes the code computes.
-/
import Mathlib.Logic.Basic

namespace Sha256

-- ============================================================= the words

def rotr (x n : UInt32) : UInt32 := (x >>> n) ||| (x <<< (32 - n))

/-- Four bytes, the first the most significant. -/
def word (a b c d : UInt8) : UInt32 :=
  (a.toUInt32 <<< 24) ||| (b.toUInt32 <<< 16) ||| (c.toUInt32 <<< 8) ||| d.toUInt32

def words : List UInt8 → List UInt32
  | a :: b :: c :: d :: rest => word a b c d :: words rest
  | _ => []

/-- The eight bytes of a length, the first the most significant. -/
def lengthBytes (n : Nat) : List UInt8 :=
  (List.range 8).map fun i => (n >>> (8 * (7 - i))).toUInt8

/-- The message, one bit, zeros, and the message's length in bits: whole
blocks of 64 bytes. -/
def pad (message : List UInt8) : List UInt8 :=
  message ++ 0x80 :: List.replicate ((119 - message.length % 64) % 64) 0
    ++ lengthBytes (8 * message.length)

-- ========================================================== one block

def constants : List UInt32 :=
  [0x428a2f98, 0x71374491, 0xb5c0fbcf, 0xe9b5dba5, 0x3956c25b, 0x59f111f1,
    0x923f82a4, 0xab1c5ed5, 0xd807aa98, 0x12835b01, 0x243185be, 0x550c7dc3,
    0x72be5d74, 0x80deb1fe, 0x9bdc06a7, 0xc19bf174, 0xe49b69c1, 0xefbe4786,
    0x0fc19dc6, 0x240ca1cc, 0x2de92c6f, 0x4a7484aa, 0x5cb0a9dc, 0x76f988da,
    0x983e5152, 0xa831c66d, 0xb00327c8, 0xbf597fc7, 0xc6e00bf3, 0xd5a79147,
    0x06ca6351, 0x14292967, 0x27b70a85, 0x2e1b2138, 0x4d2c6dfc, 0x53380d13,
    0x650a7354, 0x766a0abb, 0x81c2c92e, 0x92722c85, 0xa2bfe8a1, 0xa81a664b,
    0xc24b8b70, 0xc76c51a3, 0xd192e819, 0xd6990624, 0xf40e3585, 0x106aa070,
    0x19a4c116, 0x1e376c08, 0x2748774c, 0x34b0bcb5, 0x391c0cb3, 0x4ed8aa4a,
    0x5b9cca4f, 0x682e6ff3, 0x748f82ee, 0x78a5636f, 0x84c87814, 0x8cc70208,
    0x90befffa, 0xa4506ceb, 0xbef9a3f7, 0xc67178f2]

structure State where
  a : UInt32
  b : UInt32
  c : UInt32
  d : UInt32
  e : UInt32
  f : UInt32
  g : UInt32
  h : UInt32
  deriving DecidableEq

def State.start : State :=
  ⟨0x6a09e667, 0xbb67ae85, 0x3c6ef372, 0xa54ff53a, 0x510e527f, 0x9b05688c,
    0x1f83d9ab, 0x5be0cd19⟩

/-- The word after the sixteen before it, the latest of them first. -/
def next : List UInt32 → UInt32
  | [_, w₂, _, _, _, _, w₇, _, _, _, _, _, _, _, w₁₅, w₁₆] =>
      w₁₆ + (rotr w₁₅ 7 ^^^ rotr w₁₅ 18 ^^^ (w₁₅ >>> 3)) + w₇
        + (rotr w₂ 17 ^^^ rotr w₂ 19 ^^^ (w₂ >>> 10))
  | _ => 0

/-- One round, with its constant and its word. -/
def round (s : State) (k w : UInt32) : State :=
  let t₁ := s.h + (rotr s.e 6 ^^^ rotr s.e 11 ^^^ rotr s.e 25)
    + ((s.e &&& s.f) ^^^ (~~~s.e &&& s.g)) + k + w
  let t₂ := (rotr s.a 2 ^^^ rotr s.a 13 ^^^ rotr s.a 22)
    + ((s.a &&& s.b) ^^^ (s.a &&& s.c) ^^^ (s.b &&& s.c))
  ⟨t₁ + t₂, s.a, s.b, s.c, s.d + t₁, s.e, s.f, s.g⟩

/-- The rounds, over a window of the sixteen words before the next, the
latest first. -/
def rounds : List UInt32 → List UInt32 → State → State
  | [], _, s => s
  | k :: ks, window, s =>
      rounds ks (next window :: window.take 15) (round s k (window.getLastD 0))

/-- One block: its sixteen words are the first window. -/
def compress (s : State) (block : List UInt32) : State :=
  let r := rounds constants block.reverse s
  ⟨s.a + r.a, s.b + r.b, s.c + r.c, s.d + r.d, s.e + r.e, s.f + r.f, s.g + r.g,
    s.h + r.h⟩

def blocks : Nat → List UInt32 → State → State
  | 0, _, s => s
  | n + 1, ws, s => blocks n (ws.drop 16) (compress s (ws.take 16))

-- ============================================================ the digest

/-- Eight hexadecimal digits. -/
def hexWord (w : UInt32) : List Char :=
  (List.range 8).map fun i => Nat.digitChar ((w.toNat >>> (4 * (7 - i))) % 16)

def State.hex (s : State) : String :=
  String.ofList ([s.a, s.b, s.c, s.d, s.e, s.f, s.g, s.h].flatMap hexWord)

/-- `createHash('sha256').update(message).digest('hex')`. -/
@[irreducible]
def hex (message : List UInt8) : String :=
  let ws := words (pad message)
  (blocks (ws.length / 16) ws State.start).hex

/-- The digits of a digest. -/
theorem mem_hex {message : List UInt8} {c : Char} (h : c ∈ (hex message).toList) :
    c ∈ "0123456789abcdef".toList := by
  rw [hex, State.hex, String.toList_ofList] at h
  obtain ⟨w, -, hw⟩ := List.mem_flatMap.mp h
  obtain ⟨i, -, rfl⟩ := List.mem_map.mp hw
  have hall : ∀ d < 16, Nat.digitChar d ∈ "0123456789abcdef".toList := by decide
  exact hall _ (Nat.mod_lt _ (by decide))

/-- The four bytes of a word, the first the most significant. -/
def wordBytes (w : UInt32) : List UInt8 :=
  [(w >>> 24).toUInt8, (w >>> 16).toUInt8, (w >>> 8).toUInt8, w.toUInt8]

/-- `createHash('sha256').update(message).digest()`. -/
@[irreducible]
def bytes (message : List UInt8) : List UInt8 :=
  let ws := words (pad message)
  let s := blocks (ws.length / 16) ws State.start
  [s.a, s.b, s.c, s.d, s.e, s.f, s.g, s.h].flatMap wordBytes

example : hex [0x61, 0x62, 0x63]
    = "ba7816bf8f01cfea414140de5dae2223b00361a396177a9cb410ff61f20015ad" := by
  decide +kernel

example : hex (List.replicate 64 0x61)
    = "ffe054fe7ae0cb6dc65c3af9b61d5209f439851db43d0ba5997337df154668eb" := by
  decide +kernel

end Sha256
