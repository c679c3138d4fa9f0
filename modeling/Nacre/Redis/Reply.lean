/-
One RESP2 value from a buffer (core/redis.ts: `parse`).

The positions are JavaScript numbers, because a length is what `Number`
makes of whatever stands in the header, and the next position is computed
from it. So the recursion has no measure: an array may read its own header
again. `parse` is given how many calls it may go through, and gives none
if they did not do.

`undefined`, for a value that is not there whole, is the inner `none`.
-/
import Nacre.Lib.Buffer
import Nacre.Lib.Js

namespace Nacre.Redis

/-- `Reply`. -/
inductive Reply where
  | text (s : List UInt16)
  | number (n : Number)
  | null
  | array (items : List Reply)

structure Parsed where
  value : Reply
  next : Number
  error : Option (List UInt16)

def crlf : List UInt8 := [0x0D, 0x0A]

/-- The line a value begins with. -/
structure Header where
  /-- `buffer[at]`, as a character. -/
  kind : UInt8
  body : List UInt16
  after : Number

def header (buffer : List UInt8) (at_ : Number) : Option Header :=
  if at_.ge (.ofNat buffer.length) then none
  else
    match Buffer.indexOf buffer crlf at_ with
    | none => none
    | some stop => some {
        -- `String.fromCharCode(undefined)` is the character 0
        kind := (Buffer.byteAt buffer at_).getD 0
        body := Buffer.toString buffer (at_.add (.ofNat 1)) (.ofNat stop)
        after := (Number.ofNat stop).add (.ofNat 2) }

/-- A bulk string. -/
def bulk (buffer : List UInt8) (h : Header) : Option Parsed :=
  let length := Number.number h.body
  if length = .finite (-1) then some ⟨.null, h.after, none⟩
  else
    let stop := h.after.add length
    if (Number.ofNat buffer.length).lt (stop.add (.ofNat 2)) then none
    else some ⟨.text (Buffer.toString buffer h.after stop), stop.add (.ofNat 2), none⟩

def unrecognised (kind : UInt8) : List UInt16 :=
  Js.codeUnits "unrecognised reply type " ++ [UInt16.ofNat kind.toNat]

/-- A value that is no array. -/
def flat (buffer : List UInt8) (h : Header) : Option Parsed :=
  if h.kind = 0x2B then some ⟨.text h.body, h.after, none⟩
  else if h.kind = 0x2D then some ⟨.null, h.after, some h.body⟩
  else if h.kind = 0x3A then some ⟨.number (.number h.body), h.after, none⟩
  else if h.kind = 0x24 then bulk buffer h
  else some ⟨.null, h.after, some (unrecognised h.kind)⟩

/-- An error inside an array becomes a null. -/
def Parsed.item (p : Parsed) : Reply :=
  match p.error with
  | none => p.value
  | some _ => .null

mutual

/-- `parse(buffer, at)`, in so many calls. -/
def parse : Nat → List UInt8 → Number → Option (Option Parsed)
  | 0, _, _ => none
  | fuel + 1, buffer, at_ =>
      match header buffer at_ with
      | none => some none
      | some h =>
          if h.kind = 0x2A then
            let count := Number.number h.body
            if count = .finite (-1) then some (some ⟨.null, h.after, none⟩)
            else readItems fuel buffer count 0 h.after []
          else some (flat buffer h)

/-- The items from the `i`th on. -/
def readItems : Nat → List UInt8 → Number → Nat → Number → List Reply → Option (Option Parsed)
  | 0, _, _, _, _, _ => none
  | fuel + 1, buffer, count, i, cursor, items =>
      if (Number.ofNat i).lt count then
        match parse fuel buffer cursor with
        | none => none
        | some none => some none
        | some (some item) =>
            readItems fuel buffer count (i + 1) item.next (items ++ [item.item])
      else some (some ⟨.array items, cursor, none⟩)

end

-- ==================================================================== calls

/-- More calls change nothing. -/
theorem parse_add (fuel : Nat) :
    (∀ {buffer at_ r}, parse fuel buffer at_ = some r → parse (fuel + 1) buffer at_ = some r) ∧
      ∀ {buffer count i cursor items r}, readItems fuel buffer count i cursor items = some r →
        readItems (fuel + 1) buffer count i cursor items = some r := by
  induction fuel with
  | zero => exact ⟨nofun, nofun⟩
  | succ fuel ih =>
      constructor
      · intro buffer at_ r h
        rw [parse] at h ⊢
        split at h
        next => exact h
        next hd heq =>
          split at h
          next hkind =>
            simp only at h ⊢
            rw [if_pos hkind]
            split at h
            next hnull => rw [if_pos hnull]; exact h
            next hnull => rw [if_neg hnull]; exact ih.2 h
          next hkind => simp only; rw [if_neg hkind]; exact h
      · intro buffer count i cursor items r h
        rw [readItems] at h ⊢
        split at h
        next hlt =>
          rw [if_pos hlt]
          split at h
          next => cases h
          next heq => rw [ih.1 heq]; exact h
          next item heq => rw [ih.1 heq]; exact ih.2 h
        next hlt => rw [if_neg hlt]; exact h

theorem parse_mono {fuel fuel' : Nat} {buffer : List UInt8} {at_ : Number} {r : Option Parsed}
    (h : parse fuel buffer at_ = some r) (hle : fuel ≤ fuel') :
    parse fuel' buffer at_ = some r := by
  induction hle with
  | refl => exact h
  | step _ ih => exact (parse_add _).1 ih

theorem readItems_mono {fuel fuel' : Nat} {buffer : List UInt8} {count cursor : Number} {i : Nat}
    {items : List Reply} {r : Option Parsed}
    (h : readItems fuel buffer count i cursor items = some r) (hle : fuel ≤ fuel') :
    readItems fuel' buffer count i cursor items = some r := by
  induction hle with
  | refl => exact h
  | step _ ih => exact (parse_add _).2 ih

/-- What is parsed does not depend on the calls. -/
theorem parse_unique {fuel fuel' : Nat} {buffer : List UInt8} {at_ : Number} {r r' : Option Parsed}
    (h : parse fuel buffer at_ = some r) (h' : parse fuel' buffer at_ = some r') : r = r' := by
  have hmax := parse_mono h (le_max_left fuel fuel')
  rw [parse_mono h' (le_max_right fuel fuel')] at hmax
  exact (Option.some.inj hmax).symm

end Nacre.Redis
