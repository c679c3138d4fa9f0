/-
Cursor pagination: api/src/pagination.ts.

A cursor is the text of a row's `created_at`, as Postgres writes it, and of
its id, in base64url. What is taken from outside is the text of a timestamp
and its reading (`Dates`); `Dates.Lawful` is what the cursor relies on:
Postgres reads back what it wrote, to the microsecond, and `Date.parse`
takes it for a date.

# The bound

Each listing casts the two halves of a cursor to the types it seeks on
(`Seek`): a timestamp and a uuid, or a timestamp and a bigint compared the
other way. `Seek.request_encode` is the way of a position out and back in:
the cursor of a row that a listing can read is taken, and its bound is the
row's own key.
-/
import Nacre.Lib.Base64
import Nacre.Lib.Uuid
import Nacre.Store.Rows
import Mathlib.Data.Prod.Lex
import Mathlib.Data.String.Basic
import Mathlib.Order.OrderDual

namespace Nacre.Api

open Nacre.Store (Time)

structure Dates where
  /-- `created_at::text`. -/
  timestampText : Time → String
  /-- `$1::timestamptz`; an error is none. -/
  timestamp : String → Option Time
  /-- `!Number.isNaN(Date.parse(text))`. -/
  parses : String → Bool
  /-- `toISOString()` of the `Date` a timestamp is read as: to the millisecond. -/
  iso : Time → String
  /-- `toString('utf8')` of bytes that are not UTF-8. -/
  lossy : List UInt8 → String

structure Dates.Lawful (dates : Dates) : Prop where
  exact : ∀ t, dates.timestamp (dates.timestampText t) = some t
  parsed : ∀ t, dates.parses (dates.timestampText t) = true

/-- The sort key of the last item on the previous page. -/
structure Position where
  createdAt : String
  id : String
  deriving DecidableEq

-- =============================================================== the cursor

def utf8 (text : String) : List UInt8 := text.toUTF8.data.toList

/-- `buffer.toString('utf8')`. -/
def Dates.utf8Text (dates : Dates) (bytes : List UInt8) : String :=
  (String.fromUTF8? ⟨bytes.toArray⟩).getD (dates.lossy bytes)

def encodeCursor (position : Position) : String :=
  String.ofList (Base64.encode (utf8 (position.createdAt ++ "|" ++ position.id)))

inductive CursorIdShape where
  | uuid
  | sequence
  deriving DecidableEq

/-- `/^[0-9a-f-]{36}$/i` or `/^\d{1,19}$/`. -/
def CursorIdShape.admits (shape : CursorIdShape) (id : String) : Bool :=
  match shape with
  | .uuid => Uuid.hasShape id
  | .sequence =>
      1 ≤ id.toList.length && id.toList.length ≤ 19 && id.toList.all Char.isDigit

/-- The text before the last bar, and after it. -/
def splitLast (text : String) : Option (String × String) :=
  let reversed := text.toList.reverse
  match reversed.dropWhile (· ≠ '|') with
  | [] => none
  | _ :: before =>
      some (String.ofList before.reverse,
        String.ofList (reversed.takeWhile (· ≠ '|')).reverse)

def decodeCursor (dates : Dates) (cursor : String) (shape : CursorIdShape) : Option Position :=
  match splitLast (dates.utf8Text (Base64.decode cursor.toList)) with
  | none => none
  | some (createdAt, id) =>
      if !dates.parses createdAt then none
      else if !shape.admits id then none
      else some ⟨createdAt, id⟩

theorem utf8Text_utf8 (dates : Dates) (text : String) : dates.utf8Text (utf8 text) = text := by
  have hbytes : (⟨(utf8 text).toArray⟩ : ByteArray) = text.toUTF8 := by
    unfold utf8
    rw [Array.toArray_toList]
  have hvalid : text.toUTF8.IsValidUTF8 := text.isValidUTF8
  unfold Dates.utf8Text String.fromUTF8?
  rw [hbytes, dif_pos hvalid]
  rfl

theorem splitLast_append {before after : String} (h : '|' ∉ after.toList) :
    splitLast (before ++ "|" ++ after) = some (before, after) := by
  have hreversed : (before ++ "|" ++ after).toList.reverse
      = after.toList.reverse ++ '|' :: before.toList.reverse := by
    simp
  have hafter : ∀ c ∈ after.toList.reverse, (decide (c ≠ '|')) = true := by
    intro c hc
    refine decide_eq_true fun heq => h ?_
    rw [← heq]
    exact List.mem_reverse.1 hc
  have hstop : ¬ (decide ('|' ≠ '|')) = true := by decide
  have hdrop : (after.toList.reverse ++ '|' :: before.toList.reverse).dropWhile (· ≠ '|')
      = '|' :: before.toList.reverse := by
    rw [List.dropWhile_append_of_pos hafter]
    exact List.dropWhile_cons_of_neg hstop
  have htake : (after.toList.reverse ++ '|' :: before.toList.reverse).takeWhile (· ≠ '|')
      = after.toList.reverse := by
    rw [List.takeWhile_append_of_pos hafter, List.takeWhile_cons, if_neg hstop, List.append_nil]
  unfold splitLast
  dsimp only
  rw [hreversed, hdrop, htake]
  simp

/-- A cursor this API issued for the collection is read back. -/
theorem decodeCursor_encodeCursor {dates : Dates} {position : Position} {shape : CursorIdShape}
    (hdate : dates.parses position.createdAt = true) (hshape : shape.admits position.id = true)
    (hbar : '|' ∉ position.id.toList) :
    decodeCursor dates (encodeCursor position) shape = some position := by
  unfold decodeCursor encodeCursor
  rw [String.toList_ofList, Base64.decode_encode, utf8Text_utf8, splitLast_append hbar]
  dsimp only
  rw [hdate, hshape]
  rfl

-- ================================================================= the page

structure PageResult (ρ : Type) where
  items : List ρ
  nextCursor : Option String

/-- Rows that are filtered already: a short page is the last. -/
def pageOf {ρ : Type} (rows : List ρ) (limit : Nat) (positionOf : ρ → Position) : PageResult ρ :=
  if rows.length < limit then ⟨rows, none⟩
  else ⟨rows, rows.getLast?.map fun last => encodeCursor (positionOf last)⟩

-- ================================================================ the bound

/-- How a listing seeks: the position a key is written as, and the casts it
is read back with. -/
structure Seek (κ : Type) where
  shape : CursorIdShape
  position : Dates → κ → Position
  /-- An error is none. -/
  cast : Dates → Position → Option κ

/-- `(created_at, id) > ($1::timestamptz, $2::uuid)`. A uuid is compared by
its bytes, which is the order of the canonical texts. -/
def uuidSeek : Seek (Time ×ₗ String) where
  shape := .uuid
  position dates key := ⟨dates.timestampText (ofLex key).1, (ofLex key).2⟩
  cast dates position := do
    let createdAt ← dates.timestamp position.createdAt
    let id ← Uuid.castUuid position.id
    pure (toLex (createdAt, id))

/-- `$1::bigint` of a run of digits. -/
def castBigint (text : String) : Option Nat :=
  let id := Nat.ofDigitChars 10 text.toList 0
  if id < 2 ^ 63 then some id else none

/-- `(occurred_at, id) < ($1::timestamptz, $2::bigint)`. -/
def sequenceSeek : Seek (Time ×ₗ Nat)ᵒᵈ where
  shape := .sequence
  position dates key :=
    ⟨dates.timestampText (ofLex (OrderDual.ofDual key)).1, (ofLex (OrderDual.ofDual key)).2.repr⟩
  cast dates position := do
    let occurredAt ← dates.timestamp position.createdAt
    let id ← castBigint position.id
    pure (OrderDual.toDual (toLex (occurredAt, id)))

namespace Seek

variable {κ ι : Type} (seek : Seek κ) (dates : Dates)

def encode (key : κ) : String := encodeCursor (seek.position dates key)

/-- The bound of a page, if it has one. -/
def bound : Option Position → Option (Option κ)
  | none => some none
  | some position => (seek.cast dates position).map some

/-- `readPage`, in the cursor, and the listing it is for; a refusal is none. -/
def request (list : Option Position → Option (PageResult ι)) (cursor : Option String) :
    Option (List ι × Option String) :=
  let position :=
    match cursor with
    | none => some none
    | some cursor => (decodeCursor dates cursor seek.shape).map some
  (position.bind list).map fun page => (page.items, page.nextCursor)

/-- A key whose position is read back. -/
structure Readable (key : κ) : Prop where
  cast : seek.cast dates (seek.position dates key) = some key
  parses : dates.parses (seek.position dates key).createdAt = true
  shape : seek.shape.admits (seek.position dates key).id = true
  bar : '|' ∉ (seek.position dates key).id.toList

variable {seek dates}

theorem request_encode {after : Option κ} (h : ∀ key ∈ after, seek.Readable dates key)
    (list : Option Position → Option (PageResult ι)) :
    seek.request dates list (after.map (seek.encode dates))
      = (list (after.map (seek.position dates))).map fun page => (page.items, page.nextCursor) := by
  cases after with
  | none => rfl
  | some key =>
      have hkey := h key rfl
      have hdecode : decodeCursor dates (seek.encode dates key) seek.shape
          = some (seek.position dates key) :=
        decodeCursor_encodeCursor hkey.parses hkey.shape hkey.bar
      unfold request
      dsimp only [Option.map_some]
      rw [hdecode]
      rfl

theorem bound_position {after : Option κ} (h : ∀ key ∈ after, seek.Readable dates key) :
    seek.bound dates (after.map (seek.position dates)) = some after := by
  cases after with
  | none => rfl
  | some key =>
      show (seek.cast dates (seek.position dates key)).map some = some (some key)
      rw [(h key rfl).cast]
      rfl

end Seek

theorem uuidSeek_readable {dates : Dates} (hdates : dates.Lawful) {key : Time ×ₗ String}
    (h : Uuid.castUuid (ofLex key).2 = some (ofLex key).2) : uuidSeek.Readable dates key := by
  have hshape : Uuid.hasShape (ofLex key).2 = true := Uuid.hasShape_of_castUuid h
  refine ⟨?_, hdates.parsed _, hshape, Uuid.not_mem_of_hasShape hshape⟩
  simp only [uuidSeek, hdates.exact, h]
  rfl

theorem sequenceSeek_readable {dates : Dates} (hdates : dates.Lawful) {key : (Time ×ₗ Nat)ᵒᵈ}
    (h : (ofLex (OrderDual.ofDual key)).2 < 2 ^ 63) : sequenceSeek.Readable dates key := by
  generalize hid : (ofLex (OrderDual.ofDual key)).2 = id at h
  have hdigits : ∀ c ∈ id.repr.toList, c.isDigit = true := by
    intro c hc
    rw [Nat.toList_repr] at hc
    exact Nat.isDigit_of_mem_toDigits (by decide) (by decide) hc
  refine ⟨?_, hdates.parsed _, ?_, ?_⟩
  · have hbigint : castBigint id.repr = some id := by
      unfold castBigint
      dsimp only
      rw [Nat.toList_repr, Nat.ofDigitChars_ten_toDigits, if_pos h]
    simp only [sequenceSeek, hdates.exact, hid, hbigint]
    rw [← hid]
    rfl
  · show CursorIdShape.sequence.admits (ofLex (OrderDual.ofDual key)).2.repr = true
    rw [hid]
    have hlength : id.repr.toList.length ≤ 19 := by
      rw [Nat.toList_repr, Nat.length_toDigits_le_iff (by decide) (by decide)]
      omega
    have hpos : 1 ≤ id.repr.toList.length := by
      rw [Nat.toList_repr]
      exact Nat.length_toDigits_pos
    simp only [CursorIdShape.admits, Bool.and_eq_true, decide_eq_true_eq, List.all_eq_true]
    exact ⟨⟨hpos, hlength⟩, hdigits⟩
  · show '|' ∉ (ofLex (OrderDual.ofDual key)).2.repr.toList
    rw [hid]
    intro hmem
    exact absurd (hdigits _ hmem) (by decide)

end Nacre.Api
