/-
Which cursors a listing can seek on (api/src/pagination.ts: `encodeCursor`,
`decodeCursor`).

The decoder checks the shape of a cursor's two halves, and the listing casts
them. The casts are narrower than the shapes: a text of thirty-six dashes
has the shape of a uuid and is none, a number of nineteen digits need not
fit a bigint, and what is a date to `Date.parse` need not be one to
PostgreSQL. `guards_iff` says for which cursors that makes no difference.
-/
import Nacre.Api.Pagination

namespace Nacre.Api

variable {dates : Dates} {shape : CursorIdShape} {position : Position} {cursor createdAt id : String}

/-- A position whose halves the listing's casts take. -/
def Castable (dates : Dates) (shape : CursorIdShape) (position : Position) : Prop :=
  (dates.timestamp position.createdAt).isSome = true ∧
    match shape with
    | .uuid => (Uuid.castUuid position.id).isSome = true
    | .sequence => (castBigint position.id).isSome = true

/-- Of an id that has the shape: four dashes behind whole groups of four
digits, or a number that fits. -/
def Proper (shape : CursorIdShape) (id : String) : Prop :=
  match shape with
  | .uuid => id.toList.count '-' = 4 ∧ Uuid.Grouped id.toList
  | .sequence => Nat.ofDigitChars 10 id.toList 0 < 2 ^ 63

theorem castable_iff (h : shape.admits id = true) : Castable dates shape ⟨createdAt, id⟩
    ↔ (dates.timestamp createdAt).isSome = true ∧ Proper shape id := by
  refine and_congr_right fun _ => ?_
  match shape, h with
  | .uuid, h => exact Uuid.castUuid_iff h
  | .sequence, _ =>
      show (castBigint id).isSome = true ↔ Nat.ofDigitChars 10 id.toList 0 < 2 ^ 63
      rw [castBigint]
      split
      next hfits => exact iff_of_true rfl hfits
      next hover => exact iff_of_false Bool.false_ne_true hover

theorem bar_of_admits (h : shape.admits id = true) : '|' ∉ id.toList := by
  match shape, h with
  | .uuid, h => exact Uuid.not_mem_of_hasShape h
  | .sequence, h =>
      rw [CursorIdShape.admits, Bool.and_eq_true, List.all_eq_true] at h
      exact fun hmem => absurd (h.2 _ hmem) (by decide)

theorem decodeCursor_eq_some : decodeCursor dates cursor shape = some position ↔
    splitLast (dates.utf8Text (Base64.decode cursor.toList)) = some (position.createdAt, position.id)
      ∧ dates.parses position.createdAt = true ∧ shape.admits position.id = true := by
  rw [decodeCursor]
  cases hsplit : splitLast (dates.utf8Text (Base64.decode cursor.toList)) with
  | none => simp
  | some halves =>
      obtain ⟨createdAt, id⟩ := halves
      simp only [Option.some.injEq, Prod.mk.injEq]
      constructor
      · intro h
        split at h
        next => cases h
        next hparses =>
          split at h
          next => cases h
          next hadmits =>
            cases h
            exact ⟨⟨rfl, rfl⟩, by simpa using hparses, by simpa using hadmits⟩
      · rintro ⟨⟨rfl, rfl⟩, hparses, hadmits⟩
        rw [hparses, hadmits]
        rfl

/-- A position comes back, and what a cursor is decoded to is cast. -/
structure Guards (dates : Dates) (shape : CursorIdShape) (position : Position) (cursor : String) :
    Prop where
  returned : decodeCursor dates (encodeCursor position) shape = some position
  cast : ∀ decoded, decodeCursor dates cursor shape = some decoded → Castable dates shape decoded

/-- The halves of a cursor are refused by the shape checks, or taken by the
casts. -/
def Sendable (dates : Dates) (shape : CursorIdShape) (cursor : String) : Prop :=
  ∀ createdAt id, splitLast (dates.utf8Text (Base64.decode cursor.toList)) = some (createdAt, id) →
    dates.parses createdAt = true → shape.admits id = true →
      (dates.timestamp createdAt).isSome = true ∧ Proper shape id

theorem returned_iff : decodeCursor dates (encodeCursor position) shape = some position
    ↔ dates.parses position.createdAt = true ∧ shape.admits position.id = true := by
  constructor
  · exact fun h => (decodeCursor_eq_some.mp h).2
  · exact fun h => decodeCursor_encodeCursor h.1 h.2 (bar_of_admits h.2)

theorem sendable_iff : (∀ decoded, decodeCursor dates cursor shape = some decoded →
    Castable dates shape decoded) ↔ Sendable dates shape cursor := by
  constructor
  · intro h createdAt id hsplit hparses hadmits
    rw [← castable_iff hadmits]
    exact h ⟨createdAt, id⟩ (decodeCursor_eq_some.mpr ⟨hsplit, hparses, hadmits⟩)
  · intro h decoded hdecoded
    obtain ⟨hsplit, hparses, hadmits⟩ := decodeCursor_eq_some.mp hdecoded
    exact (castable_iff hadmits).mpr (h _ _ hsplit hparses hadmits)

/-- For every position and every cursor. -/
theorem guards_iff (dates : Dates) (shape : CursorIdShape) (position : Position) (cursor : String) :
    Guards dates shape position cursor ↔
      (dates.parses position.createdAt = true ∧ shape.admits position.id = true)
        ∧ Sendable dates shape cursor := by
  rw [← returned_iff, ← sendable_iff]
  exact ⟨fun h => ⟨h.returned, h.cast⟩, fun h => ⟨h.1, h.2⟩⟩

/-- One day, and nothing else. -/
def oneDay : Dates where
  timestampText _ := "2024-01-01"
  timestamp text := if text = "2024-01-01" then some 0 else none
  parses text := text == "2024-01-01"
  iso _ := "2024-01-01T00:00:00.000Z"
  lossy _ := ""

/-- The position of a row, and a cursor of dashes. -/
theorem guards_dashes : ¬ Guards oneDay .uuid
    ⟨"2024-01-01", "00000000-0000-0000-0000-000000000000"⟩
    (encodeCursor ⟨"2024-01-01", "------------------------------------"⟩) := by
  intro h
  have hdecoded : decodeCursor oneDay
      (encodeCursor ⟨"2024-01-01", "------------------------------------"⟩) .uuid
      = some ⟨"2024-01-01", "------------------------------------"⟩ :=
    decodeCursor_encodeCursor (by decide) (by decide) (by decide)
  exact absurd (h.cast _ hdecoded).2 (by decide)

end Nacre.Api
