/-
base64url without padding (RFC 4648), as `toString('base64url')` writes
it, and as `Buffer.from` reads it: either alphabet, up to a padding
character, and whatever is in neither is skipped.
-/
import Mathlib.Data.List.TakeWhile

namespace Base64

/-- The character of six bits. -/
def char (n : Nat) : Char :=
  if n < 26 then Char.ofNat (65 + n)
  else if n < 52 then Char.ofNat (71 + n)
  else if n < 62 then Char.ofNat (n - 4)
  else if n = 62 then '-'
  else '_'

/-- Three bytes are four characters; one or two left over are two or
three. -/
def encode : List UInt8 → List Char
  | [] => []
  | [a] => [char (a.toNat / 4), char (a.toNat % 4 * 16)]
  | [a, b] =>
      [char (a.toNat / 4), char (a.toNat % 4 * 16 + b.toNat / 16), char (b.toNat % 16 * 4)]
  | a :: b :: c :: rest =>
      char (a.toNat / 4) :: char (a.toNat % 4 * 16 + b.toNat / 16)
        :: char (b.toNat % 16 * 4 + c.toNat / 64) :: char (c.toNat % 64) :: encode rest

example : String.ofList (encode [0xfb, 0xff, 0x6e, 0x61]) = "-_9uYQ" := by decide

/-- The six bits of a character, of either alphabet. -/
def value (c : Char) : Option Nat :=
  if 'A' ≤ c ∧ c ≤ 'Z' then some (c.toNat - 65)
  else if 'a' ≤ c ∧ c ≤ 'z' then some (c.toNat - 71)
  else if '0' ≤ c ∧ c ≤ '9' then some (c.toNat + 4)
  else if c = '-' ∨ c = '+' then some 62
  else if c = '_' ∨ c = '/' then some 63
  else none

/-- Four times six bits are three bytes; two or three left over are one or
two. -/
def bytes : List Nat → List UInt8
  | a :: b :: c :: d :: rest =>
      UInt8.ofNat (a * 4 + b / 16) :: UInt8.ofNat (b % 16 * 16 + c / 4)
        :: UInt8.ofNat (c % 4 * 64 + d) :: bytes rest
  | [a, b, c] => [UInt8.ofNat (a * 4 + b / 16), UInt8.ofNat (b % 16 * 16 + c / 4)]
  | [a, b] => [UInt8.ofNat (a * 4 + b / 16)]
  | _ => []

/-- `Buffer.from(text, 'base64url')`. -/
def decode (text : List Char) : List UInt8 :=
  bytes ((text.takeWhile (· ≠ '=')).filterMap value)

theorem value_char {n : Nat} (h : n < 64) : value (char n) = some n := by
  have hall : ∀ m < 64, value (char m) = some m := by decide
  exact hall n h

theorem char_ne_pad (n : Nat) : char n ≠ '=' := by
  by_cases h : n < 64
  · intro heq
    have hvalue := value_char h
    rw [heq] at hvalue
    cases hvalue
  · have hlast : char n = '_' := by
      unfold char
      rw [if_neg (by omega), if_neg (by omega), if_neg (by omega), if_neg (by omega)]
    rw [hlast]
    decide

theorem pad_not_mem_encode (message : List UInt8) : ∀ c ∈ encode message, c ≠ '=' := by
  induction message using encode.induct with
  | case1 => exact nofun
  | case2 a =>
      intro c hc
      simp only [encode, List.mem_cons, List.not_mem_nil, or_false] at hc
      rcases hc with rfl | rfl <;> exact char_ne_pad _
  | case3 a b =>
      intro c hc
      simp only [encode, List.mem_cons, List.not_mem_nil, or_false] at hc
      rcases hc with rfl | rfl | rfl <;> exact char_ne_pad _
  | case4 a b c rest ih =>
      intro d hd
      simp only [encode, List.mem_cons] at hd
      rcases hd with rfl | rfl | rfl | rfl | hrest
      · exact char_ne_pad _
      · exact char_ne_pad _
      · exact char_ne_pad _
      · exact char_ne_pad _
      · exact ih d hrest

theorem ofNat_of_eq {byte : UInt8} {n : Nat} (h : n = byte.toNat) : UInt8.ofNat n = byte := by
  rw [h, UInt8.ofNat_toNat]

theorem bytes_encode (message : List UInt8) :
    bytes ((encode message).filterMap value) = message := by
  induction message using encode.induct with
  | case1 => rfl
  | case2 a =>
      have ha := a.toNat_lt
      simp only [encode, List.filterMap_cons, List.filterMap_nil,
        value_char (show a.toNat / 4 < 64 by omega),
        value_char (show a.toNat % 4 * 16 < 64 by omega), bytes]
      rw [ofNat_of_eq (show _ = a.toNat by omega)]
  | case3 a b =>
      have ha := a.toNat_lt
      have hb := b.toNat_lt
      simp only [encode, List.filterMap_cons, List.filterMap_nil,
        value_char (show a.toNat / 4 < 64 by omega),
        value_char (show a.toNat % 4 * 16 + b.toNat / 16 < 64 by omega),
        value_char (show b.toNat % 16 * 4 < 64 by omega), bytes]
      rw [ofNat_of_eq (show _ = a.toNat by omega), ofNat_of_eq (show _ = b.toNat by omega)]
  | case4 a b c rest ih =>
      have ha := a.toNat_lt
      have hb := b.toNat_lt
      have hc := c.toNat_lt
      simp only [encode, List.filterMap_cons,
        value_char (show a.toNat / 4 < 64 by omega),
        value_char (show a.toNat % 4 * 16 + b.toNat / 16 < 64 by omega),
        value_char (show b.toNat % 16 * 4 + c.toNat / 64 < 64 by omega),
        value_char (show c.toNat % 64 < 64 by omega), bytes, ih]
      rw [ofNat_of_eq (show _ = a.toNat by omega), ofNat_of_eq (show _ = b.toNat by omega),
        ofNat_of_eq (show _ = c.toNat by omega)]

/-- What was written is read back. -/
theorem decode_encode (message : List UInt8) : decode (encode message) = message := by
  unfold decode
  rw [List.takeWhile_eq_self_iff.2 fun c hc => decide_eq_true (pad_not_mem_encode message c hc)]
  exact bytes_encode message

end Base64
