/-
The migration runner (core/db/migrate.ts): any number of runs of
`migrate` on one database and one ledger, each with the files of its own
build, each of them given up at any moment.

A run reads the ledger once and believes that reading to its end. What
keeps two runs apart is the ledger's primary key alone: a row that an
open transaction has inserted is in the way of every other transaction
that inserts the name, and a row that is committed refuses it.

# What is a step

Each statement a run sends. The text of a migration, its row and the
`COMMIT` are three steps inside one transaction, and any of them may fail
with any code (`fail`); a connection or a process that is lost (`die`)
ends the run with its transaction rolled back, or, right after `commit`,
with the migration applied and the run none the wiser.

# What is not here

What the text of a migration does to the schema: `ran` is a ghost, the
texts whose transaction committed, in that order. A run that records in
another table (`ledgerTable`) has a ledger of its own and shares no step
with these.
-/
import Nacre.Lib.Sha256
import Nacre.Lib.Table
import Nacre.Lib.Transition

namespace Nacre.Schema

-- ============================================================== vocabulary

structure Migration where
  name : String
  sql : String
  deriving DecidableEq

def checksum (sql : String) : String := Sha256.hex sql.toUTF8.data.toList

/-- What a `SELECT name, checksum` returns, as the map it is read into; a
row of an older runner has no checksum. -/
abbrev Ledger := String → Option (Option String)

/-- The row of `pg_roles` for the role that is connected. -/
structure Role where
  superuser : Bool
  bypassrls : Bool

/-- What a caller passes to `migrate`, and the role it connects as. -/
structure Plan where
  migrations : List Migration
  requirePrivileges : Bool := true
  role : Option Role := none

inductive Failure where
  | privileges
  | modified (name : String)
  | lockTimeout (name : String)
  | failed (name : String)
  /-- What the driver throws, or nothing, where the process is gone. -/
  | lost
  deriving DecidableEq

-- =================================================================== texts

def LOCK_TIMEOUT : String := "10s"

def privilegesText : String :=
  "the role running migrations can neither bypass row-level security nor is a "
    ++ "superuser, and several migrations read tenant tables. Every one of those "
    ++ "tables has FORCE ROW LEVEL SECURITY, which applies the policy to the owner "
    ++ "too, and the policy reads app.current_org — unset during a migration. The "
    ++ "migration would fail partway through with \"unrecognized configuration "
    ++ "parameter \\\"app.current_org\\\"\", which names none of this.\n\n"
    ++ "Run this once as a superuser:\n\n"
    ++ "  ALTER ROLE <the role in NACRE_PG_URL> BYPASSRLS;\n"
    ++ "  CREATE ROLE nacre_worker NOLOGIN BYPASSRLS;  -- if it does not exist\n"
    ++ "  GRANT nacre_worker TO <the role in NACRE_PG_URL> WITH ADMIN OPTION;\n\n"
    ++ "WITH ADMIN OPTION is required and plain membership is not: migration 0008 "
    ++ "grants nacre_worker onward to nacre_app, and only a member holding ADMIN "
    ++ "may do that.\n\n"
    ++ "This role is the one that owns the tables and runs migrations. It is not "
    ++ "the role the application connects as — that one must not bypass row-level "
    ++ "security and must not be able to create tables."

/-- The message of the error a run throws. -/
def Failure.message : Failure → Option String
  | .privileges => some privilegesText
  | .modified name => some ("migration " ++ name ++ " was modified after it was applied "
      ++ "(checksum mismatch). Migrations are forward-only: add a new one "
      ++ "rather than editing this file, or the databases that already ran "
      ++ "the old text will never receive the change.")
  | .lockTimeout name => some ("migration " ++ name ++ " gave up waiting for a lock after "
      ++ LOCK_TIMEOUT
      ++ " and was rolled back. Something else is holding the table — a long query, an "
      ++ "idle-in-transaction session, another migration — so this is not a problem with "
      ++ "the migration itself and re-running it once the holder is gone will work. "
      ++ "The wait is capped deliberately: an ALTER queued behind one slow query blocks "
      ++ "every statement that arrives after it, which takes the application down.")
  | .failed name => some ("migration " ++ name ++ " failed and was rolled back")
  | .lost => none

-- =================================================================== state

/-- How far a run is with the migration its loop is at. -/
inductive Turn where
  /-- Not looked at yet. -/
  | between
  /-- `BEGIN`, and the bound on waiting. -/
  | begun
  /-- The text went through. -/
  | executed
  /-- The row is inserted. -/
  | recorded
  deriving DecidableEq

/-- The loop over the migrations; `past` is what it has been through. -/
structure Loop where
  ledger : Ledger
  past : List Migration
  rest : List Migration
  turn : Turn
  applied : List String
  skipped : List String

inductive Phase where
  | starting
  | going (l : Loop)
  | returned (applied skipped : List String)
  | threw (why : Failure)

/-- The `MigrateResult` of a run that has one: applied, and skipped. -/
def Phase.result : Phase → Option (List String × List String)
  | .returned applied skipped => some (applied, skipped)
  | _ => none

theorem Phase.result_eq {p : Phase} {applied skipped : List String} :
    p.result = some (applied, skipped) ↔ p = .returned applied skipped := by
  cases p <;> simp [Phase.result]

abbrev RunId := Nat

structure World where
  ledger : Ledger
  /-- The rows that open transactions have inserted. -/
  inserted : String → Option RunId
  phase : RunId → Phase
  ran : List Migration

/-- A database before the runs, with what its ledger holds. -/
def World.new (before : Ledger) : World :=
  ⟨before, fun _ => none, fun _ => .starting, []⟩

def init (before : Ledger) (s : World) : Prop := s = World.new before

-- ================================================================= actions

inductive Action where
  /-- The ledger is made if it is not there, and read. -/
  | read (i : RunId)
  /-- The next migration is compared with the reading. -/
  | look (i : RunId)
  | execute (i : RunId)
  | insert (i : RunId)
  | commit (i : RunId)
  /-- A statement of the transaction is refused. -/
  | fail (i : RunId) (code : Option String)
  | die (i : RunId)
  deriving DecidableEq

def Action.run : Action → RunId
  | .read i | .look i | .execute i | .insert i | .commit i | .fail i _ | .die i => i

/-- `requireMigrationPrivileges`. -/
def privileged : Option Role → Bool
  | none => true
  | some r => r.superuser || r.bypassrls

/-- Some migration of the plan is not in the ledger. -/
def Plan.behind (p : Plan) (ledger : Ledger) : Bool :=
  p.migrations.any fun m => (ledger m.name).isNone

def World.put (s : World) (i : RunId) (p : Phase) : World :=
  { s with phase := Function.update s.phase i p }

/-- The transaction of the run is rolled back. -/
def World.rollback (s : World) (i : RunId) : World :=
  { s with inserted := fun n => if s.inserted n = some i then none else s.inserted n }

/-- On to the next migration, this one having been applied before. -/
def Loop.skip (l : Loop) (m : Migration) (rest : List Migration) : Loop :=
  { l with past := l.past ++ [m], rest := rest, skipped := l.skipped ++ [m.name] }

/-- On to the next migration, this one applied. -/
def Loop.apply (l : Loop) (m : Migration) (rest : List Migration) : Loop :=
  { l with
    past := l.past ++ [m]
    rest := rest
    turn := .between
    applied := l.applied ++ [m.name] }

-- ==================================================================== step

variable (plan : RunId → Plan)

def read (s : World) (i : RunId) : Option World :=
  match s.phase i with
  | .starting =>
      if (plan i).requirePrivileges && (plan i).behind s.ledger && !privileged (plan i).role then
        some (s.put i (.threw .privileges))
      else some (s.put i (.going ⟨s.ledger, [], (plan i).migrations, .between, [], []⟩))
  | _ => none

/-- The head of the loop, up to its `BEGIN`. -/
def look (s : World) (i : RunId) : Option World :=
  match s.phase i with
  | .going l =>
      match l.turn, l.rest with
      | .between, [] => some (s.put i (.returned l.applied l.skipped))
      | .between, m :: rest =>
          match l.ledger m.name with
          | none => some (s.put i (.going { l with turn := .begun }))
          | some none =>
              -- The row is there, as it was when it was read.
              some { s.put i (.going (l.skip m rest)) with
                ledger := Function.update s.ledger m.name
                  ((s.ledger m.name).map fun _ => some (checksum m.sql)) }
          | some (some recorded) =>
              if recorded ≠ checksum m.sql then some (s.put i (.threw (.modified m.name)))
              else some (s.put i (.going (l.skip m rest)))
      | _, _ => none
  | _ => none

def execute (s : World) (i : RunId) : Option World :=
  match s.phase i with
  | .going l =>
      if l.turn = .begun then some (s.put i (.going { l with turn := .executed })) else none
  | _ => none

/-- A row that is committed is a duplicate, which is `fail`; one that is
inserted only is waited for. -/
def insert (s : World) (i : RunId) : Option World :=
  match s.phase i with
  | .going l =>
      match l.turn, l.rest with
      | .executed, m :: _ =>
          if s.ledger m.name = none ∧ s.inserted m.name = none then
            some { s.put i (.going { l with turn := .recorded }) with
              inserted := Function.update s.inserted m.name (some i) }
          else none
      | _, _ => none
  | _ => none

def commit (s : World) (i : RunId) : Option World :=
  match s.phase i with
  | .going l =>
      match l.turn, l.rest with
      | .recorded, m :: rest =>
          some { (s.rollback i).put i (.going (l.apply m rest)) with
            ledger := Function.update s.ledger m.name (some (some (checksum m.sql)))
            ran := s.ran ++ [m] }
      | _, _ => none
  | _ => none

/-- The `catch`: 55P03 is `lock_not_available`. -/
def fail (s : World) (i : RunId) (code : Option String) : Option World :=
  match s.phase i with
  | .going l =>
      match l.turn, l.rest with
      | .between, _ => none
      | _, m :: _ =>
          some ((s.rollback i).put i (.threw
            (if code = some "55P03" then .lockTimeout m.name else .failed m.name)))
      | _, [] => none
  | _ => none

def die (s : World) (i : RunId) : Option World :=
  match s.phase i with
  | .starting | .going _ => some ((s.rollback i).put i (.threw .lost))
  | _ => none

def step (s : World) : Action → Option World
  | .read i => read plan s i
  | .look i => look s i
  | .execute i => execute s i
  | .insert i => insert s i
  | .commit i => commit s i
  | .fail i code => fail s i code
  | .die i => die s i

/-- `pendingMigrations`, which the readiness check asks: what this build
ships and the database lacks. -/
def pendingMigrations (shipped : List String) (ledger : Ledger) : List String :=
  shipped.filter fun name => (ledger name).isNone

-- ======================================================= what a step can do

/-- Every step, with what it found. -/
inductive Moves (s : World) : World → Prop where
  | refuse (i : RunId) (hphase : s.phase i = .starting)
      (hbehind : (plan i).behind s.ledger = true) :
      Moves s (s.put i (.threw .privileges))
  | read (i : RunId) (hphase : s.phase i = .starting) :
      Moves s (s.put i (.going ⟨s.ledger, [], (plan i).migrations, .between, [], []⟩))
  | finish (i : RunId) (l : Loop) (hphase : s.phase i = .going l) (hturn : l.turn = .between)
      (hrest : l.rest = []) : Moves s (s.put i (.returned l.applied l.skipped))
  | begin (i : RunId) (l : Loop) (m : Migration) (rest : List Migration)
      (hphase : s.phase i = .going l) (hturn : l.turn = .between) (hrest : l.rest = m :: rest)
      (hnone : l.ledger m.name = none) : Moves s (s.put i (.going { l with turn := .begun }))
  | fill (i : RunId) (l : Loop) (m : Migration) (rest : List Migration)
      (hphase : s.phase i = .going l) (hturn : l.turn = .between) (hrest : l.rest = m :: rest)
      (hnull : l.ledger m.name = some none) :
      Moves s { s.put i (.going (l.skip m rest)) with
        ledger := Function.update s.ledger m.name
          ((s.ledger m.name).map fun _ => some (checksum m.sql)) }
  | modified (i : RunId) (l : Loop) (m : Migration) (rest : List Migration) (recorded : String)
      (hphase : s.phase i = .going l) (hturn : l.turn = .between) (hrest : l.rest = m :: rest)
      (hrecorded : l.ledger m.name = some (some recorded)) (hother : recorded ≠ checksum m.sql) :
      Moves s (s.put i (.threw (.modified m.name)))
  | skip (i : RunId) (l : Loop) (m : Migration) (rest : List Migration)
      (hphase : s.phase i = .going l) (hturn : l.turn = .between) (hrest : l.rest = m :: rest)
      (hsame : l.ledger m.name = some (some (checksum m.sql))) :
      Moves s (s.put i (.going (l.skip m rest)))
  | execute (i : RunId) (l : Loop) (hphase : s.phase i = .going l) (hturn : l.turn = .begun) :
      Moves s (s.put i (.going { l with turn := .executed }))
  | insert (i : RunId) (l : Loop) (m : Migration) (rest : List Migration)
      (hphase : s.phase i = .going l) (hturn : l.turn = .executed) (hrest : l.rest = m :: rest)
      (hledger : s.ledger m.name = none) (hfree : s.inserted m.name = none) :
      Moves s { s.put i (.going { l with turn := .recorded }) with
        inserted := Function.update s.inserted m.name (some i) }
  | commit (i : RunId) (l : Loop) (m : Migration) (rest : List Migration)
      (hphase : s.phase i = .going l) (hturn : l.turn = .recorded) (hrest : l.rest = m :: rest) :
      Moves s { (s.rollback i).put i (.going (l.apply m rest)) with
        ledger := Function.update s.ledger m.name (some (some (checksum m.sql)))
        ran := s.ran ++ [m] }
  | stop (i : RunId) (why : Failure) :
      Moves s ((s.rollback i).put i (.threw why))

theorem step_moves {s s' : World} {a : Action} (h : step plan s a = some s') :
    Moves plan s s' := by
  cases a with
  | read i =>
      simp only [step, read] at h
      split at h
      next hphase =>
        split at h
        next hrefused =>
          simp only [Bool.and_eq_true] at hrefused
          exact Option.some.inj h ▸ .refuse i hphase hrefused.1.2
        next => exact Option.some.inj h ▸ .read i hphase
      next => cases h
  | look i =>
      simp only [step, look] at h
      split at h
      next l hphase =>
        split at h
        next hturn hrest => exact Option.some.inj h ▸ .finish i l hphase hturn hrest
        next m rest hturn hrest =>
          split at h
          next hnone => exact Option.some.inj h ▸ .begin i l m rest hphase hturn hrest hnone
          next hnull => exact Option.some.inj h ▸ .fill i l m rest hphase hturn hrest hnull
          next recorded hrecorded =>
            split at h
            next hother =>
              exact Option.some.inj h ▸
                .modified i l m rest recorded hphase hturn hrest hrecorded hother
            next hsame =>
              have hsame := Decidable.not_not.mp hsame
              exact Option.some.inj h ▸ .skip i l m rest hphase hturn hrest (hsame ▸ hrecorded)
        next => cases h
      next => cases h
  | execute i =>
      simp only [step, execute] at h
      split at h
      next l hphase =>
        split at h
        next hturn => exact Option.some.inj h ▸ .execute i l hphase hturn
        next => cases h
      next => cases h
  | insert i =>
      simp only [step, insert] at h
      split at h
      next l hphase =>
        split at h
        next m rest hturn hrest =>
          split at h
          next hfree =>
            exact Option.some.inj h ▸ .insert i l m rest hphase hturn hrest hfree.1 hfree.2
          next => cases h
        next => cases h
      next => cases h
  | commit i =>
      simp only [step, commit] at h
      split at h
      next l hphase =>
        split at h
        next m rest hturn hrest => exact Option.some.inj h ▸ .commit i l m rest hphase hturn hrest
        next => cases h
      next => cases h
  | fail i code =>
      simp only [step, fail] at h
      split at h
      next l hphase =>
        split at h
        next => cases h
        next => exact Option.some.inj h ▸ .stop i _
        next => cases h
      next => cases h
  | die i =>
      simp only [step, die] at h
      split at h
      next => exact Option.some.inj h ▸ .stop i _
      next => exact Option.some.inj h ▸ .stop i _
      next => cases h

end Nacre.Schema
