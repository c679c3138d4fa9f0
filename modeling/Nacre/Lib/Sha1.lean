/-
SHA-1 (FIPS 180-4) and HMAC over it (RFC 2104), as far as
`createHmac('sha1', key).update(message).digest()`.

As with SHA-256, nothing is proved of it beyond its test vectors: it is
here so that a code is the code an authenticator shows. The padding and
the words are those of SHA-256.
-/
import Nacre.Lib.Sha256

namespace Sha1

def rotl (x n : UInt32) : UInt32 := (x <<< n) ||| (x >>> (32 - n))

structure State where
  a : UInt32
  b : UInt32
  c : UInt32
  d : UInt32
  e : UInt32
  deriving DecidableEq

def State.start : State :=
  ⟨0x67452301, 0xefcdab89, 0x98badcfe, 0x10325476, 0xc3d2e1f0⟩

/-- The word after the sixteen before it, the latest of them first. -/
def next : List UInt32 → UInt32
  | [_, _, w₃, _, _, _, _, w₈, _, _, _, _, _, w₁₄, _, w₁₆] => rotl (w₃ ^^^ w₈ ^^^ w₁₄ ^^^ w₁₆) 1
  | _ => 0

/-- The function and the constant of a round, twenty rounds each. -/
def mix (t : Nat) (s : State) : UInt32 :=
  if t < 20 then ((s.b &&& s.c) ^^^ (~~~s.b &&& s.d)) + 0x5a827999
  else if t < 40 then (s.b ^^^ s.c ^^^ s.d) + 0x6ed9eba1
  else if t < 60 then ((s.b &&& s.c) ^^^ (s.b &&& s.d) ^^^ (s.c &&& s.d)) + 0x8f1bbcdc
  else (s.b ^^^ s.c ^^^ s.d) + 0xca62c1d6

def round (t : Nat) (s : State) (w : UInt32) : State :=
  ⟨rotl s.a 5 + mix t s + s.e + w, s.a, rotl s.b 30, s.c, s.d⟩

/-- The rounds from `t` on, over a window of the sixteen words before the
next, the latest first. -/
def rounds : Nat → Nat → List UInt32 → State → State
  | 0, _, _, s => s
  | n + 1, t, window, s =>
      rounds n (t + 1) (next window :: window.take 15) (round t s (window.getLastD 0))

def compress (s : State) (block : List UInt32) : State :=
  let r := rounds 80 0 block.reverse s
  ⟨s.a + r.a, s.b + r.b, s.c + r.c, s.d + r.d, s.e + r.e⟩

def blocks : Nat → List UInt32 → State → State
  | 0, _, s => s
  | n + 1, ws, s => blocks n (ws.drop 16) (compress s (ws.take 16))

/-- `createHash('sha1').update(message).digest()`. -/
def bytes (message : List UInt8) : List UInt8 :=
  let ws := Sha256.words (Sha256.pad message)
  let s := blocks (ws.length / 16) ws State.start
  [s.a, s.b, s.c, s.d, s.e].flatMap Sha256.wordBytes

/-- The key as one block: a longer one is hashed first. -/
def block (key : List UInt8) : List UInt8 :=
  let short := if 64 < key.length then bytes key else key
  short ++ List.replicate (64 - short.length) 0

/-- `createHmac('sha1', key).update(message).digest()`. -/
@[irreducible]
def hmac (key message : List UInt8) : List UInt8 :=
  bytes ((block key).map (· ^^^ 0x5c) ++ bytes ((block key).map (· ^^^ 0x36) ++ message))

/-- The second test case of RFC 2202: "what do ya want for nothing?" under
the key "Jefe". -/
example : hmac [0x4a, 0x65, 0x66, 0x65] "what do ya want for nothing?".toUTF8.toList
    = [0xef, 0xfc, 0xdf, 0x6a, 0xe5, 0xeb, 0x2f, 0xa2, 0xd2, 0x74, 0x16, 0xd5, 0xf1, 0x84,
      0xdf, 0x9c, 0x25, 0x9a, 0x7c, 0x79] := by
  decide +kernel

end Sha1
