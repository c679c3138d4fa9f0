/-
The column `layers.reindex_state` as it is written and read
(core/reindex.ts): `toStateJson` and `fromStateJson`, with the recall
check's verdict inside.

Every field is read back as it was written but one: an `unresolved` list
that is there and empty is written, and read as a list that is not there.
The reader asks the length of the list before it drops what is no string,
so it can itself give a state with such a list. `fromStateJson_toStateJson`
and `fromStateJson_settles` say exactly when each happens.
-/
import Nacre.Lib.Value
import Nacre.Store.Layers

namespace Nacre.Store.StateJson

open Value (string? number? bool? array? field isObject isArray)

abbrev Text := List UInt16

-- ============================================================ an object's keys

/-- `key: value` in an object literal. -/
def entry (key : String) (v : Value) : Text × Value := (Json.units key, v)

/-- `...(value === undefined ? {} : { key: value })`. -/
def entry? (key : String) (v : Option Value) : List (Text × Value) := (v.map (entry key)).toList

-- ================================================================ the state

structure Score where
  queryId : Text
  «recall» : Number
  deriving DecidableEq

/-- `ReindexCheck`. -/
structure Check where
  «recall» : Number
  floor : Number
  passed : Bool
  queries : Number
  scores : List Score
  unresolved : Option (List Text)
  deriving DecidableEq

/-- `ReindexState`. -/
structure State where
  status : ReindexStatus
  phase : Phase
  shadowVector : Text
  providerId : Text
  startedAt : Text
  finishedAt : Option Text
  total : Number
  done : Number
  failed : Number
  error : Option Text
  check : Option Check
  deriving DecidableEq

def statusText : ReindexStatus → Text
  | .running => Json.units "running"
  | .complete => Json.units "complete"
  | .failed => Json.units "failed"

def phaseText : Phase → Text
  | .copying => Json.units "copying"
  | .embedding => Json.units "embedding"

-- ============================================================== the writers

def toScoreJson (s : Score) : Value :=
  .object [entry "query_id" (.string s.queryId), entry "recall" (.number s.recall)]

def toCheckJson (check : Check) : Value :=
  .object
    ([entry "recall" (.number check.recall),
      entry "floor" (.number check.floor),
      entry "passed" (.bool check.passed),
      entry "queries" (.number check.queries),
      entry "scores" (.array (check.scores.map toScoreJson))]
      ++ entry? "unresolved" (check.unresolved.map fun us => .array (us.map .string)))

def toStateJson (state : State) : Value :=
  .object
    ([entry "status" (.string (statusText state.status)),
      entry "phase" (.string (phaseText state.phase)),
      entry "shadow_vector" (.string state.shadowVector),
      entry "provider_id" (.string state.providerId),
      entry "started_at" (.string state.startedAt)]
      ++ entry? "finished_at" (state.finishedAt.map .string)
      ++ [entry "total" (.number state.total),
        entry "done" (.number state.done),
        entry "failed" (.number state.failed)]
      ++ entry? "error" (state.error.map .string)
      ++ entry? "check" (state.check.map toCheckJson))

-- ============================================================== the readers

def fromScoreJson (s : Value) : Option Score :=
  match string? (field s "query_id"), number? (field s "recall") with
  | some queryId, some score => some ⟨queryId, score⟩
  | _, _ => none

/-- The list of unresolved ids, when it has anything in it. -/
def fromUnresolved (v : Option Value) : Option (List Text) :=
  match array? v with
  | some items =>
      if 0 < items.length then some (items.filterMap fun u => string? (some u)) else none
  | none => none

def fromCheckJson (raw : Option Value) : Option Check :=
  match raw with
  | some o =>
      if isObject o && !isArray o then
        match number? (field o "recall"), bool? (field o "passed") with
        | some score, some passed =>
            let scores := (array? (field o "scores")).getD []
            some
              { «recall» := score
                floor := (number? (field o "floor")).getD (Number.ofNat 0)
                passed
                queries := (number? (field o "queries")).getD (Number.ofNat scores.length)
                scores := scores.filterMap fromScoreJson
                unresolved := fromUnresolved (field o "unresolved") }
        | _, _ => none
      else none
  | none => none

def fromStatus (v : Option Value) : Option ReindexStatus :=
  match string? v with
  | some s =>
      if s = Json.units "running" then some .running
      else if s = Json.units "complete" then some .complete
      else if s = Json.units "failed" then some .failed
      else none
  | none => none

def fromPhase (v : Option Value) : Phase :=
  match string? v with
  | some s => if s = Json.units "copying" then .copying else .embedding
  | none => .embedding

def fromStateJson (raw : Value) : Option State :=
  if isObject raw then
    match fromStatus (field raw "status"), string? (field raw "shadow_vector") with
    | some status, some shadowVector =>
        some
          { status
            phase := fromPhase (field raw "phase")
            shadowVector
            providerId := (string? (field raw "provider_id")).getD []
            startedAt := (string? (field raw "started_at")).getD []
            finishedAt := string? (field raw "finished_at")
            total := (number? (field raw "total")).getD (Number.ofNat 0)
            done := (number? (field raw "done")).getD (Number.ofNat 0)
            failed := (number? (field raw "failed")).getD (Number.ofNat 0)
            error := string? (field raw "error")
            check := fromCheckJson (field raw "check") }
    | _, _ => none
  else none

-- ============================================================ the verdict

theorem fromScoreJson_toScoreJson (s : Score) : fromScoreJson (toScoreJson s) = some s := rfl

theorem filterMap_scores (scores : List Score) :
    (scores.map toScoreJson).filterMap fromScoreJson = scores := by
  rw [List.filterMap_map]
  exact List.filterMap_some

theorem filterMap_strings (us : List Text) :
    (us.map Value.string).filterMap (fun u => string? (some u)) = us := by
  rw [List.filterMap_map]
  exact List.filterMap_some

/-- The list that is there and empty is read as none. -/
def heldOf (unresolved : Option (List Text)) : Option (List Text) :=
  unresolved.filter (· ≠ [])

theorem fromUnresolved_written (us : List Text) :
    fromUnresolved (some (.array (us.map .string))) = heldOf (some us) := by
  cases us with
  | nil => rfl
  | cons u us =>
      show (if 0 < ((u :: us).map Value.string).length then
        some (((u :: us).map Value.string).filterMap fun u => string? (some u)) else none) = _
      rw [filterMap_strings, if_pos (by simp)]
      rfl

def Check.held (check : Check) : Check := { check with unresolved := heldOf check.unresolved }

theorem fromCheckJson_toCheckJson (check : Check) :
    fromCheckJson (some (toCheckJson check)) = some check.held := by
  obtain ⟨score, floor, passed, queries, scores, unresolved⟩ := check
  have hscores := filterMap_scores scores
  cases unresolved with
  | none =>
      show some (Check.mk score floor passed queries
        ((scores.map toScoreJson).filterMap fromScoreJson) none) = _
      rw [hscores]
      rfl
  | some us =>
      show some (Check.mk score floor passed queries
        ((scores.map toScoreJson).filterMap fromScoreJson) (fromUnresolved (some (.array (us.map .string))))) = _
      rw [hscores, fromUnresolved_written]
      rfl

-- ============================================================== the state

theorem fromStatus_statusText (status : ReindexStatus) :
    fromStatus (some (.string (statusText status))) = some status := by
  cases status <;> rfl

theorem fromPhase_phaseText (phase : Phase) :
    fromPhase (some (.string (phaseText phase))) = phase := by
  cases phase <;> rfl

/-- Every field of a state is read as it was written, and the verdict's list
of unresolved ids when it is not empty. -/
theorem fromStateJson_written (state : State) :
    fromStateJson (toStateJson state) = some { state with check := state.check.map Check.held } := by
  obtain ⟨status, phase, shadowVector, providerId, startedAt, finishedAt, total, done, failed,
    error, check⟩ := state
  have hread : fromStateJson (toStateJson ⟨status, phase, shadowVector, providerId, startedAt,
        finishedAt, total, done, failed, error, check⟩)
      = (fromStatus (some (.string (statusText status)))).map fun status =>
          ⟨status, fromPhase (some (.string (phaseText phase))), shadowVector, providerId,
            startedAt, finishedAt, total, done, failed, error,
            fromCheckJson (check.map toCheckJson)⟩ := by
    cases status <;> cases finishedAt <;> cases error <;> cases check <;> rfl
  rw [hread, fromStatus_statusText, Option.map_some, fromPhase_phaseText]
  cases check with
  | none => rfl
  | some check =>
      rw [Option.map_some, fromCheckJson_toCheckJson]
      rfl

theorem held_eq_iff {check : Check} : check.held = check ↔ check.unresolved ≠ some [] := by
  obtain ⟨score, floor, passed, queries, scores, unresolved⟩ := check
  cases unresolved with
  | none => exact ⟨fun _ => nofun, fun _ => rfl⟩
  | some us =>
      cases us with
      | nil =>
          constructor
          · intro h
            cases (Check.mk.inj h).2.2.2.2.2
          · exact fun h => absurd rfl h
      | cons u us => exact ⟨fun _ => nofun, fun _ => rfl⟩

theorem fromStateJson_toStateJson {state : State} :
    fromStateJson (toStateJson state) = some state
      ↔ ∀ check ∈ state.check, check.unresolved ≠ some [] := by
  rw [fromStateJson_written]
  obtain ⟨status, phase, shadowVector, providerId, startedAt, finishedAt, total, done, failed,
    error, check⟩ := state
  cases check with
  | none => exact ⟨(fun _ _ hc => nomatch hc), fun _ => rfl⟩
  | some check =>
      constructor
      · intro h c hc
        obtain rfl : check = c := Option.some.inj hc
        have hsame := (State.mk.inj (Option.some.inj h)).2.2.2.2.2.2.2.2.2.2
        exact held_eq_iff.1 (Option.some.inj hsame)
      · intro h
        have hheld : check.held = check := held_eq_iff.2 (h check rfl)
        show some (State.mk _ _ _ _ _ _ _ _ _ _ (some check.held)) = _
        rw [hheld]

-- ========================================================== what it may read

/-- A list with something in it, and no string. -/
def stringless (v : Option Value) : Bool :=
  match array? v with
  | some items => 0 < items.length && items.all fun u => (string? (some u)).isNone
  | none => false

/-- A verdict that is usable. -/
def usableCheck (check : Value) : Bool :=
  isObject check && !isArray check && (number? (field check "recall")).isSome
    && (bool? (field check "passed")).isSome

/-- A usable state, with a usable verdict whose list of unresolved ids has
something in it and no string. -/
def hollow (raw : Value) : Bool :=
  isObject raw && (fromStatus (field raw "status")).isSome
    && (string? (field raw "shadow_vector")).isSome
    && (field raw "check").any fun check => usableCheck check && stringless (field check "unresolved")

theorem fromUnresolved_eq_nil {v : Option Value} :
    fromUnresolved v = some [] ↔ stringless v = true := by
  unfold fromUnresolved stringless
  cases array? v with
  | none => simp
  | some items =>
      by_cases hpos : 0 < items.length
      · simp [hpos, List.filterMap_eq_nil_iff]
      · simp [hpos]

theorem fromCheckJson_eq {check : Value} :
    (∃ read, fromCheckJson (some check) = some read ∧ read.unresolved = some [])
      ↔ (usableCheck check && stringless (field check "unresolved")) = true := by
  rw [Bool.and_eq_true, ← fromUnresolved_eq_nil]
  unfold fromCheckJson usableCheck
  dsimp only
  cases hobject : isObject check && !isArray check with
  | false => simp
  | true =>
      rw [if_pos rfl]
      cases number? (field check "recall") with
      | none => simp
      | some score =>
          cases bool? (field check "passed") with
          | none => simp
          | some passed => simp

theorem fromStateJson_settles {raw : Value} :
    (∀ state, fromStateJson raw = some state → fromStateJson (toStateJson state) = some state)
      ↔ hollow raw = false := by
  rw [← Bool.not_eq_true, hollow, ← not_iff_not, not_not]
  simp only [fromStateJson_toStateJson]
  unfold fromStateJson
  cases hobject : isObject raw with
  | false => simp
  | true =>
      rw [if_pos rfl]
      cases fromStatus (field raw "status") with
      | none => simp
      | some status =>
          cases string? (field raw "shadow_vector") with
          | none => simp
          | some shadowVector =>
              cases hcheck : field raw "check" with
              | none => simp [fromCheckJson]
              | some check =>
                  have heq := @fromCheckJson_eq check
                  simp only [Option.any_some, Option.isSome_some, Bool.true_and, ← heq]
                  simp

/-- A state is read back as it was exactly when its verdict, if it has one,
holds no empty list of unresolved ids; and what is read of a value is read
back as it was exactly when it is no usable state with a usable verdict
whose list has something in it and no string. -/
theorem stateJson_roundTrip (state : State) (raw : Value) :
    (fromStateJson (toStateJson state) = some state
        ↔ ∀ check ∈ state.check, check.unresolved ≠ some []) ∧
      ((∀ read, fromStateJson raw = some read → fromStateJson (toStateJson read) = some read)
        ↔ hollow raw = false) :=
  ⟨fromStateJson_toStateJson, fromStateJson_settles⟩

/-- A verdict that passed, with the empty list, in a state that is complete. -/
def emptyList : State where
  status := .complete
  phase := .embedding
  shadowVector := Json.units "v"
  providerId := Json.units "p"
  startedAt := Json.units "2026-08-01"
  finishedAt := none
  total := Number.ofNat 1
  done := Number.ofNat 1
  failed := Number.ofNat 0
  error := none
  check := some ⟨Number.ofNat 1, Number.ofNat 0, true, Number.ofNat 0, [], some []⟩

theorem emptyList_lost : ¬ ∀ state, fromStateJson (toStateJson state) = some state := by
  intro h
  have hlost : fromStateJson (toStateJson emptyList) ≠ some emptyList := by decide
  exact hlost (h emptyList)

end Nacre.Store.StateJson
