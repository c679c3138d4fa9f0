/-
The versions of a skill (api/src/skills.ts: `write`, `restore`, `insertIn`;
core/migrations/0036_skills.sql).

# What is a step

One statement of one transaction. A call passes the gate, a restore reads the
version it copies, the newest version is read and compared with the one the
call names, the next one is inserted behind a savepoint. Each statement sees
what is committed when it runs. The gate is asked of whatever the database is
then (`OrgDb`).

The unique key: an insertion waits for a transaction that inserted the same
version of the same level (`claimed` is who), and fails when that version is
committed. The call then rolls back to its savepoint, reads the newest version
again and answers a conflict. Any transaction may fail instead.

`checkSkill` is any function here: what a skill is does not matter to which
versions there are. `created_at` is left out.

# The invariant

`Linear`: the versions of a level are 1 to n in the order they were stored. A
row that is inserted and not committed is the next one, and nobody else has
inserted it: who inserts `k + 1` read that `k` was newest, and nothing between
1 and n is free.

`VersionRow.call` and `log` are ghosts: the call that stored a version, and
the calls that were answered.
-/
import Mathlib.Data.List.Infix
import Mathlib.Logic.Function.Basic
import Nacre.Lib.Json
import Nacre.Lib.Transition
import Nacre.Skills.Access

namespace Nacre.Skills

open Nacre.Authz Nacre.Api Transition

-- ============================================================== the rows

structure Skill where
  name : String
  description : String
  hasScripts : Bool
  files : Json
  deriving DecidableEq

inductive SkillCheck where
  | skill (skill : Skill)
  | cleared
  | refused (reason : String)
  deriving DecidableEq

/-- A row of `skill_versions` or `installation_skill_versions`, but for the
columns that say of which level it is. -/
structure VersionRow where
  version : Nat
  files : Json
  name : Option String
  description : Option String
  hasScripts : Bool
  principal : String
  surface : SkillSurface
  connectionId : Option String
  restoredFrom : Option Nat
  /-- Ghost: the call that stored it. -/
  call : Nat
  deriving DecidableEq

/-- A row of `skill_versions`. -/
structure SkillVersion where
  orgId : String
  /-- `NULL` for the organization's own skill. -/
  layerId : Option String
  row : VersionRow
  deriving DecidableEq

/-- Whose versions: the installation's, an organization's, a layer's. -/
inductive Place where
  | installation
  | tenant (orgId : String) (layerId : Option String)
  deriving DecidableEq

def placeOf (orgId : String) : SkillLevel → Place
  | .installation => .installation
  | .organization => .tenant orgId none
  | .layer layerId => .tenant orgId (some layerId)

-- ============================================================= the calls

inductive Operation where
  | write (files : Json)
  | restore (n : Nat)
  deriving DecidableEq

structure Call where
  auth : AuthContext
  /-- `auth.delegation?.id`. -/
  connectionId : Option String
  level : SkillLevel
  operation : Operation
  basedOn : Nat
  surface : SkillSurface
  deriving DecidableEq

def Call.place (call : Call) : Place := placeOf call.auth.orgId call.level

inductive SkillWrite where
  | written (version : VersionRow) (cleared : Bool)
  | notFound
  | forbidden
  /-- With the version there was instead (a ghost). -/
  | conflict (current : Nat) (against : Nat)
  | refused (reason : String)
  deriving DecidableEq

inductive Stage where
  | begun (stored : Option Skill)
  /-- A restore that is past the gate. -/
  | passed
  | fetched (skill : Option Skill) (restoredFrom : Option Nat)
  /-- The version it names is the newest. -/
  | current (skill : Option Skill) (restoredFrom : Option Nat)
  | inserted (row : VersionRow) (cleared : Bool)
  /-- Rolled back to the savepoint. -/
  | clashed
  | answered (outcome : SkillWrite)
  deriving DecidableEq

structure Tx where
  call : Call
  stage : Stage
  deriving DecidableEq

/-- A call that was answered. -/
structure Answered where
  no : Nat
  call : Call
  outcome : SkillWrite
  deriving DecidableEq

structure World where
  installation : List VersionRow
  tenants : List SkillVersion
  txs : Nat → Option Tx
  /-- The transaction whose insertion of this version is not committed. -/
  claimed : Place × Nat → Option Nat
  /-- The calls that have begun. -/
  calls : List Nat
  log : List Answered

def World.empty : World where
  installation := []
  tenants := []
  txs _ := none
  claimed _ := none
  calls := []
  log := []

def init (w : World) : Prop := w = World.empty

/-- The versions of a level, `layer_id IS NOT DISTINCT FROM $2`. -/
def World.stored (w : World) : Place → List VersionRow
  | .installation => w.installation
  | .tenant orgId layerId =>
      (w.tenants.filter fun v => v.orgId = orgId ∧ v.layerId = layerId).map (·.row)

/-- `(await this.latest(…))?.version ?? 0`. -/
def World.latest (w : World) (place : Place) : Nat :=
  ((w.stored place).map (·.version)).foldl max 0

def World.append (w : World) (place : Place) (row : VersionRow) : World :=
  match place with
  | .installation => { w with installation := w.installation ++ [row] }
  | .tenant orgId layerId => { w with tenants := w.tenants ++ [⟨orgId, layerId, row⟩] }

-- ============================================================ statements

/-- `${auth.principal.type}:${auth.principal.id}`. -/
def actor (auth : AuthContext) : String := principalRef auth.principal

/-- The row `insertIn` inserts. -/
def rowFor (no : Nat) (call : Call) (skill : Option Skill) (restoredFrom : Option Nat) :
    VersionRow where
  version := call.basedOn + 1
  files := (skill.map (·.files)).getD (.object [])
  name := skill.map (·.name)
  description := skill.map (·.description)
  hasScripts := (skill.map (·.hasScripts)).getD false
  principal := actor call.auth
  surface := call.surface
  -- The installation's table has no such column.
  connectionId := match call.level with
    | .installation => none
    | _ => call.connectionId
  restoredFrom
  call := no

/-- What `restore` inserts for a stored version: as written, where the
format refuses it now. -/
def restored (check : Json → SkillCheck) (row : VersionRow) : Option Skill :=
  match check row.files with
  | .skill skill => some skill
  | .cleared => none
  | .refused _ =>
      match row.name with
      | none => none
      | some name =>
          some { name, description := row.description.getD "", hasScripts := row.hasScripts,
                 files := row.files }

def Refusal.outcome : Refusal → SkillWrite
  | .notFound => .notFound
  | .forbidden => .forbidden

/-- The largest `int`. -/
def INT_MAX : Nat := 2147483647

def World.goto (w : World) (n : Nat) (call : Call) (stage : Stage) : World :=
  { w with txs := Function.update w.txs n (some ⟨call, stage⟩) }

/-- The call is over; what it inserted is nobody's claim. -/
def World.release (w : World) (n : Nat) (tx : Tx) : World :=
  { w with
    txs := Function.update w.txs n none
    claimed := match tx.stage with
      | .inserted row _ => Function.update w.claimed (tx.call.place, row.version) none
      | _ => w.claimed }

def World.answer (w : World) (n : Nat) (call : Call) (outcome : SkillWrite) : World :=
  { w with log := ⟨n, call, outcome⟩ :: w.log }

inductive Action where
  | start (n : Nat) (call : Call)
  | gate (n : Nat) (db : OrgDb)
  | fetch (n : Nat)
  | look (n : Nat)
  | insert (n : Nat)
  | lookAgain (n : Nat)
  | commit (n : Nat)
  | fail (n : Nat)

/-- `write` checks the files before there is a transaction. -/
def World.start (check : Json → SkillCheck) (w : World) (n : Nat) (call : Call) : World :=
  let w := { w with calls := n :: w.calls }
  match call.operation with
  | .restore _ => w.goto n call (.begun none)
  | .write files =>
      match check files with
      | .refused reason => w.goto n call (.answered (.refused reason))
      | .cleared => w.goto n call (.begun none)
      | .skill skill => w.goto n call (.begun (some skill))

def World.gate (w : World) (n : Nat) (call : Call) (stored : Option Skill) (db : OrgDb) : World :=
  match Skills.gate db call.auth call.level call.surface with
  | some refusal => w.goto n call (.answered refusal.outcome)
  | none =>
      match call.operation with
      | .write _ => w.goto n call (.fetched stored none)
      | .restore _ => w.goto n call .passed

def World.fetch (check : Json → SkillCheck) (w : World) (n : Nat) (call : Call) : Option World :=
  match call.operation with
  | .write _ => none
  | .restore version =>
      match (w.stored call.place).find? (·.version = version) with
      | none => some (w.goto n call (.answered .notFound))
      | some row => some (w.goto n call (.fetched (restored check row) (some version)))

def World.look (w : World) (n : Nat) (call : Call) (skill : Option Skill)
    (restoredFrom : Option Nat) : World :=
  let current := w.latest call.place
  if call.basedOn ≠ current then w.goto n call (.answered (.conflict current current))
  else w.goto n call (.current skill restoredFrom)

/-- The insertion: it fails on a committed version, and waits for one that
is not. -/
def World.insert (w : World) (n : Nat) (call : Call) (skill : Option Skill)
    (restoredFrom : Option Nat) : Option World :=
  let row := rowFor n call skill restoredFrom
  if row.version ∈ (w.stored call.place).map (·.version) then some (w.goto n call .clashed)
  else if w.claimed (call.place, row.version) ≠ none ∨ INT_MAX < row.version then none
  else
    some { w.goto n call (.inserted row skill.isNone) with
      claimed := Function.update w.claimed (call.place, row.version) (some n) }

def World.lookAgain (w : World) (n : Nat) (call : Call) : World :=
  w.goto n call (.answered (.conflict (w.latest call.place) (call.basedOn + 1)))

def World.commit (w : World) (n : Nat) (tx : Tx) : Option World :=
  match tx.stage with
  | .inserted row cleared =>
      some (((w.append tx.call.place row).release n tx).answer n tx.call (.written row cleared))
  | .answered outcome => some ((w.release n tx).answer n tx.call outcome)
  | _ => none

def step (check : Json → SkillCheck) (w : World) : Action → Option World
  | .start n call => if n ∈ w.calls then none else some (w.start check n call)
  | .gate n db =>
      match w.txs n with
      | some ⟨call, .begun stored⟩ => some (w.gate n call stored db)
      | _ => none
  | .fetch n =>
      match w.txs n with
      | some ⟨call, .passed⟩ => w.fetch check n call
      | _ => none
  | .look n =>
      match w.txs n with
      | some ⟨call, .fetched skill restoredFrom⟩ => some (w.look n call skill restoredFrom)
      | _ => none
  | .insert n =>
      match w.txs n with
      | some ⟨call, .current skill restoredFrom⟩ => w.insert n call skill restoredFrom
      | _ => none
  | .lookAgain n =>
      match w.txs n with
      | some ⟨call, .clashed⟩ => some (w.lookAgain n call)
      | _ => none
  | .commit n =>
      match w.txs n with
      | some tx => w.commit n tx
      | none => none
  | .fail n =>
      match w.txs n with
      | some tx => some (w.release n tx)
      | none => none

variable {check : Json → SkillCheck} {w w' : World} {n m : Nat} {call : Call} {place : Place}

-- ================================================== what one step can do

/-- Where a call may go without storing or claiming anything. -/
inductive Leads (w : World) (call : Call) : Stage → Stage → Prop where
  | refused (stored : Option Skill) (refusal : Refusal) :
      Leads w call (.begun stored) (.answered refusal.outcome)
  | written (stored : Option Skill) : Leads w call (.begun stored) (.fetched stored none)
  | passed (stored : Option Skill) : Leads w call (.begun stored) .passed
  | missing : Leads w call .passed (.answered .notFound)
  | fetched (skill : Option Skill) (restoredFrom : Option Nat) :
      Leads w call .passed (.fetched skill restoredFrom)
  | stale (skill : Option Skill) (restoredFrom : Option Nat)
      (h : call.basedOn ≠ w.latest call.place) :
      Leads w call (.fetched skill restoredFrom)
        (.answered (.conflict (w.latest call.place) (w.latest call.place)))
  | current (skill : Option Skill) (restoredFrom : Option Nat)
      (h : call.basedOn = w.latest call.place) :
      Leads w call (.fetched skill restoredFrom) (.current skill restoredFrom)
  | clashed (skill : Option Skill) (restoredFrom : Option Nat)
      (h : call.basedOn + 1 ∈ (w.stored call.place).map (·.version)) :
      Leads w call (.current skill restoredFrom) .clashed
  | again : Leads w call .clashed
      (.answered (.conflict (w.latest call.place) (call.basedOn + 1)))

/-- The stages a call may begin in. -/
inductive Early : Stage → Prop where
  | begun (stored : Option Skill) : Early (.begun stored)
  | refused (reason : String) : Early (.answered (.refused reason))

/-- Every step, with what it found. -/
inductive Moved (w : World) : World → Prop where
  | start (n : Nat) (call : Call) (stage : Stage) (hn : n ∉ w.calls) (hstage : Early stage) :
      Moved w ({ w with calls := n :: w.calls }.goto n call stage)
  | goto (n : Nat) (call : Call) (stage stage' : Stage) (hn : w.txs n = some ⟨call, stage⟩)
      (hleads : Leads w call stage stage') : Moved w (w.goto n call stage')
  | insert (n : Nat) (call : Call) (skill : Option Skill) (restoredFrom : Option Nat)
      (hn : w.txs n = some ⟨call, .current skill restoredFrom⟩)
      (hnew : call.basedOn + 1 ∉ (w.stored call.place).map (·.version))
      (hfree : w.claimed (call.place, call.basedOn + 1) = none) :
      Moved w { w.goto n call (.inserted (rowFor n call skill restoredFrom) skill.isNone) with
        claimed := Function.update w.claimed (call.place, call.basedOn + 1) (some n) }
  | store (n : Nat) (call : Call) (row : VersionRow) (cleared : Bool)
      (hn : w.txs n = some ⟨call, .inserted row cleared⟩) :
      Moved w (((w.append call.place row).release n ⟨call, .inserted row cleared⟩).answer n call
        (.written row cleared))
  | answer (n : Nat) (call : Call) (outcome : SkillWrite)
      (hn : w.txs n = some ⟨call, .answered outcome⟩) :
      Moved w ((w.release n ⟨call, .answered outcome⟩).answer n call outcome)
  | fail (n : Nat) (tx : Tx) (hn : w.txs n = some tx) : Moved w (w.release n tx)

/-- Where a call begins. -/
inductive Begins (check : Json → SkillCheck) (call : Call) : Stage → Prop where
  | restore (version : Nat) (hop : call.operation = .restore version) :
      Begins check call (.begun none)
  | refused (files : Json) (reason : String) (hop : call.operation = .write files)
      (hcheck : check files = .refused reason) : Begins check call (.answered (.refused reason))
  | cleared (files : Json) (hop : call.operation = .write files)
      (hcheck : check files = .cleared) : Begins check call (.begun none)
  | skill (files : Json) (skill : Skill) (hop : call.operation = .write files)
      (hcheck : check files = .skill skill) : Begins check call (.begun (some skill))

/-- Where an action leads a call, and on what. -/
inductive Turns (check : Json → SkillCheck) (w : World) (n : Nat) (call : Call) :
    Action → Stage → Stage → Prop where
  | refused (stored : Option Skill) (db : OrgDb) (refusal : Refusal)
      (hgate : Skills.gate db call.auth call.level call.surface = some refusal) :
      Turns check w n call (.gate n db) (.begun stored) (.answered refusal.outcome)
  | written (stored : Option Skill) (db : OrgDb) (files : Json)
      (hop : call.operation = .write files) :
      Turns check w n call (.gate n db) (.begun stored) (.fetched stored none)
  | passed (stored : Option Skill) (db : OrgDb) (version : Nat)
      (hop : call.operation = .restore version) :
      Turns check w n call (.gate n db) (.begun stored) .passed
  | missing (version : Nat) (hop : call.operation = .restore version)
      (hfind : (w.stored call.place).find? (·.version = version) = none) :
      Turns check w n call (.fetch n) .passed (.answered .notFound)
  | fetched (version : Nat) (row : VersionRow) (hop : call.operation = .restore version)
      (hfind : (w.stored call.place).find? (·.version = version) = some row) :
      Turns check w n call (.fetch n) .passed (.fetched (restored check row) (some version))
  | stale (skill : Option Skill) (restoredFrom : Option Nat)
      (h : call.basedOn ≠ w.latest call.place) :
      Turns check w n call (.look n) (.fetched skill restoredFrom)
        (.answered (.conflict (w.latest call.place) (w.latest call.place)))
  | current (skill : Option Skill) (restoredFrom : Option Nat)
      (h : call.basedOn = w.latest call.place) :
      Turns check w n call (.look n) (.fetched skill restoredFrom) (.current skill restoredFrom)
  | clashed (skill : Option Skill) (restoredFrom : Option Nat)
      (h : call.basedOn + 1 ∈ (w.stored call.place).map (·.version)) :
      Turns check w n call (.insert n) (.current skill restoredFrom) .clashed
  | again : Turns check w n call (.lookAgain n) .clashed
      (.answered (.conflict (w.latest call.place) (call.basedOn + 1)))

/-- What each action does. -/
inductive Does (check : Json → SkillCheck) (w : World) : Action → World → Prop where
  | start (n : Nat) (call : Call) (stage : Stage) (hn : n ∉ w.calls)
      (hstage : Begins check call stage) :
      Does check w (.start n call) ({ w with calls := n :: w.calls }.goto n call stage)
  | turn (a : Action) (n : Nat) (call : Call) (stage stage' : Stage)
      (hn : w.txs n = some ⟨call, stage⟩) (hturn : Turns check w n call a stage stage') :
      Does check w a (w.goto n call stage')
  | insert (n : Nat) (call : Call) (skill : Option Skill) (restoredFrom : Option Nat)
      (hn : w.txs n = some ⟨call, .current skill restoredFrom⟩)
      (hnew : call.basedOn + 1 ∉ (w.stored call.place).map (·.version))
      (hfree : w.claimed (call.place, call.basedOn + 1) = none) :
      Does check w (.insert n)
        { w.goto n call (.inserted (rowFor n call skill restoredFrom) skill.isNone) with
          claimed := Function.update w.claimed (call.place, call.basedOn + 1) (some n) }
  | store (n : Nat) (call : Call) (row : VersionRow) (cleared : Bool)
      (hn : w.txs n = some ⟨call, .inserted row cleared⟩) :
      Does check w (.commit n)
        (((w.append call.place row).release n ⟨call, .inserted row cleared⟩).answer n call
          (.written row cleared))
  | answer (n : Nat) (call : Call) (outcome : SkillWrite)
      (hn : w.txs n = some ⟨call, .answered outcome⟩) :
      Does check w (.commit n) ((w.release n ⟨call, .answered outcome⟩).answer n call outcome)
  | fail (n : Nat) (tx : Tx) (hn : w.txs n = some tx) : Does check w (.fail n) (w.release n tx)

theorem start_does (hn : n ∉ w.calls) : Does check w (.start n call) (w.start check n call) := by
  unfold World.start
  simp only
  split
  next version hop => exact .start n call _ hn (.restore version hop)
  next files hop =>
    split
    next reason hcheck => exact .start n call _ hn (.refused files reason hop hcheck)
    next hcheck => exact .start n call _ hn (.cleared files hop hcheck)
    next skill hcheck => exact .start n call _ hn (.skill files skill hop hcheck)

theorem gate_does {stored : Option Skill} {db : OrgDb} (hn : w.txs n = some ⟨call, .begun stored⟩) :
    Does check w (.gate n db) (w.gate n call stored db) := by
  unfold World.gate
  split
  next refusal hgate => exact .turn _ n call _ _ hn (.refused stored db refusal hgate)
  next =>
    split
    next files hop => exact .turn _ n call _ _ hn (.written stored db files hop)
    next version hop => exact .turn _ n call _ _ hn (.passed stored db version hop)

theorem fetch_does (hn : w.txs n = some ⟨call, .passed⟩) (h : w.fetch check n call = some w') :
    Does check w (.fetch n) w' := by
  unfold World.fetch at h
  split at h
  next => cases h
  next version hop =>
    split at h
    next hfind =>
      cases h
      exact .turn _ n call _ _ hn (.missing version hop hfind)
    next row hfind =>
      cases h
      exact .turn _ n call _ _ hn (.fetched version row hop hfind)

theorem look_does {skill : Option Skill} {restoredFrom : Option Nat}
    (hn : w.txs n = some ⟨call, .fetched skill restoredFrom⟩) :
    Does check w (.look n) (w.look n call skill restoredFrom) := by
  unfold World.look
  simp only
  split
  next hstale => exact .turn _ n call _ _ hn (.stale skill restoredFrom hstale)
  next hcurrent =>
    exact .turn _ n call _ _ hn (.current skill restoredFrom (by simpa using hcurrent))

theorem insert_does {skill : Option Skill} {restoredFrom : Option Nat}
    (hn : w.txs n = some ⟨call, .current skill restoredFrom⟩)
    (h : w.insert n call skill restoredFrom = some w') : Does check w (.insert n) w' := by
  unfold World.insert at h
  simp only at h
  split at h
  next hthere =>
    cases h
    exact .turn _ n call _ _ hn (.clashed skill restoredFrom hthere)
  next hnew =>
    split at h
    next => cases h
    next hfree =>
      cases h
      have hfree : w.claimed (call.place, call.basedOn + 1) = none := by
        simpa [rowFor] using (not_or.mp hfree).1
      exact .insert n call skill restoredFrom hn hnew hfree

theorem commit_does {tx : Tx} (hn : w.txs n = some tx) (h : w.commit n tx = some w') :
    Does check w (.commit n) w' := by
  obtain ⟨call, stage⟩ := tx
  unfold World.commit at h
  split at h
  next row cleared hstage =>
    cases h
    cases hstage
    exact .store n call row cleared hn
  next outcome hstage =>
    cases h
    cases hstage
    exact .answer n call outcome hn
  next => cases h

theorem step_does {act : Action} (h : step check w act = some w') : Does check w act w' := by
  cases act with
  | start n call =>
      simp only [step] at h
      split at h
      next => cases h
      next hn =>
        cases h
        exact start_does hn
  | gate n db =>
      simp only [step] at h
      split at h
      next call stored hn =>
        cases h
        exact gate_does hn
      next => cases h
  | fetch n =>
      simp only [step] at h
      split at h
      next call hn => exact fetch_does hn h
      next => cases h
  | look n =>
      simp only [step] at h
      split at h
      next call skill restoredFrom hn =>
        cases h
        exact look_does hn
      next => cases h
  | insert n =>
      simp only [step] at h
      split at h
      next call skill restoredFrom hn => exact insert_does hn h
      next => cases h
  | lookAgain n =>
      simp only [step] at h
      split at h
      next call hn =>
        cases h
        exact .turn _ n call _ _ hn .again
      next => cases h
  | commit n =>
      simp only [step] at h
      split at h
      next tx hn => exact commit_does hn h
      next => cases h
  | fail n =>
      simp only [step] at h
      split at h
      next tx hn =>
        cases h
        exact .fail n tx hn
      next => cases h

theorem Begins.early {stage : Stage} (h : Begins check call stage) : Early stage := by
  cases h with
  | restore version hop => exact .begun none
  | refused files reason hop hcheck => exact .refused reason
  | cleared files hop hcheck => exact .begun none
  | skill files skill hop hcheck => exact .begun (some skill)

theorem Turns.leads {a : Action} {stage stage' : Stage} (h : Turns check w n call a stage stage') :
    Leads w call stage stage' := by
  cases h with
  | refused stored db refusal hgate => exact .refused stored refusal
  | written stored db files hop => exact .written stored
  | passed stored db version hop => exact .passed stored
  | missing version hop hfind => exact .missing
  | fetched version row hop hfind => exact .fetched _ _
  | stale skill restoredFrom h => exact .stale skill restoredFrom h
  | current skill restoredFrom h => exact .current skill restoredFrom h
  | clashed skill restoredFrom h => exact .clashed skill restoredFrom h
  | again => exact .again

theorem step_moved {act : Action} (h : step check w act = some w') : Moved w w' := by
  cases step_does h with
  | start n call stage hn hstage => exact .start n call stage hn hstage.early
  | turn _ n call stage stage' hn hturn => exact .goto n call stage stage' hn hturn.leads
  | insert n call skill restoredFrom hn hnew hfree =>
      exact .insert n call skill restoredFrom hn hnew hfree
  | store n call row cleared hn => exact .store n call row cleared hn
  | answer n call outcome hn => exact .answer n call outcome hn
  | fail n tx hn => exact .fail n tx hn

-- =========================================================== the versions

theorem stored_append_self (w : World) (place : Place) (row : VersionRow) :
    (w.append place row).stored place = w.stored place ++ [row] := by
  cases place with
  | installation => rfl
  | tenant orgId layerId => simp [World.append, World.stored]

theorem stored_append_other (w : World) {place place' : Place} (row : VersionRow)
    (h : place' ≠ place) : (w.append place row).stored place' = w.stored place' := by
  cases place with
  | installation =>
      cases place' with
      | installation => exact absurd rfl h
      | tenant orgId layerId => rfl
  | tenant orgId layerId =>
      cases place' with
      | installation => rfl
      | tenant orgId' layerId' =>
          have hne : ¬ (orgId = orgId' ∧ layerId = layerId') := by
            rintro ⟨rfl, rfl⟩
            exact h rfl
          simp [World.append, World.stored, hne]

@[simp] theorem append_txs (w : World) (place : Place) (row : VersionRow) :
    (w.append place row).txs = w.txs := by
  cases place <;> rfl

@[simp] theorem append_claimed (w : World) (place : Place) (row : VersionRow) :
    (w.append place row).claimed = w.claimed := by
  cases place <;> rfl

@[simp] theorem append_calls (w : World) (place : Place) (row : VersionRow) :
    (w.append place row).calls = w.calls := by
  cases place <;> rfl

@[simp] theorem append_log (w : World) (place : Place) (row : VersionRow) :
    (w.append place row).log = w.log := by
  cases place <;> rfl

theorem stored_release (w : World) (n : Nat) (tx : Tx) (place : Place) :
    (w.release n tx).stored place = w.stored place := by
  cases place <;> rfl

/-- The end of a call is in neither table. -/
theorem stored_answer (w : World) (n : Nat) (tx : Tx) (call : Call) (outcome : SkillWrite)
    (place : Place) : ((w.release n tx).answer n call outcome).stored place = w.stored place := by
  cases place <;> rfl

theorem foldl_max_range (n : Nat) : (List.range' 1 n).foldl max 0 = n := by
  induction n with
  | zero => rfl
  | succ n ih =>
      rw [List.range'_concat, List.foldl_append, ih]
      simp only [List.foldl_cons, List.foldl_nil]
      omega

-- ========================================================== the invariant

/-- A conflict names a version there is, and not an older one than it
conflicted with. -/
def SkillWrite.Fair (w : World) (call : Call) : SkillWrite → Prop
  | .conflict current against =>
      against ≤ current ∧ against ≠ call.basedOn ∧ current ≤ (w.stored call.place).length
  | _ => True

/-- What holds of a call at its stage. -/
def Stage.Sound (w : World) (n : Nat) (call : Call) : Stage → Prop
  | .current _ _ => call.basedOn ≤ (w.stored call.place).length
  | .inserted row _ =>
      row.version = call.basedOn + 1 ∧ call.basedOn = (w.stored call.place).length ∧
        row.call = n ∧ w.claimed (call.place, row.version) = some n
  | .clashed => call.basedOn < (w.stored call.place).length
  | .answered outcome =>
      outcome.Fair w call ∧ ∀ row cleared, outcome ≠ .written row cleared
  | _ => True

/-- What holds of a call that was answered. -/
def Answered.Sound (w : World) (e : Answered) : Prop :=
  e.outcome.Fair w e.call ∧
    ∀ row cleared, e.outcome = .written row cleared →
      row ∈ w.stored e.call.place ∧ row.version = e.call.basedOn + 1 ∧ row.call = e.no

structure Linear (w : World) : Prop where
  /-- The versions of a level are 1 to n. -/
  linear : ∀ place, (w.stored place).map (·.version) = List.range' 1 (w.stored place).length
  staged : ∀ {n tx}, w.txs n = some tx → tx.stage.Sound w n tx.call
  open_ : ∀ {n tx}, w.txs n = some tx → n ∈ w.calls ∧ ∀ e ∈ w.log, e.no ≠ n
  logged : ∀ {e}, e ∈ w.log → e.no ∈ w.calls
  /-- A call is answered once. -/
  once : (w.log.map (·.no)).Nodup
  entered : ∀ {e}, e ∈ w.log → e.Sound w
  authored : ∀ {place row}, row ∈ w.stored place →
    ∃ e ∈ w.log, e.no = row.call ∧ e.call.place = place ∧
      ∃ cleared, e.outcome = .written row cleared

theorem Linear.latest (h : Linear w) (place : Place) :
    w.latest place = (w.stored place).length := by
  rw [World.latest, h.linear, foldl_max_range]

theorem Linear.mem_versions (h : Linear w) {k : Nat} :
    k + 1 ∈ (w.stored place).map (·.version) ↔ k < (w.stored place).length := by
  rw [h.linear, List.mem_range'_1]
  omega

/-- The versions grow, and nothing of them changes. -/
theorem moved_grows (h : Moved w w') (place : Place) : w.stored place <+: w'.stored place := by
  cases h with
  | store n call row cleared hn =>
      rw [stored_answer]
      by_cases hp : place = call.place
      · subst hp
        rw [stored_append_self]
        exact List.prefix_append _ _
      · rw [stored_append_other w row hp]
  | start n call stage hn hstage => cases place <;> exact List.prefix_refl _
  | goto n call stage stage' hn hleads => cases place <;> exact List.prefix_refl _
  | insert n call skill restoredFrom hn hnew hfree => cases place <;> exact List.prefix_refl _
  | answer n call outcome hn => cases place <;> exact List.prefix_refl _
  | fail n tx hn => cases place <;> exact List.prefix_refl _

theorem Fair_mono {outcome : SkillWrite} (hlen : ∀ place,
    (w.stored place).length ≤ (w'.stored place).length) (h : outcome.Fair w call) :
    outcome.Fair w' call := by
  cases outcome with
  | conflict current against => exact ⟨h.1, h.2.1, h.2.2.trans (hlen _)⟩
  | _ => trivial

/-- Another call stays what it was: what it claims is still the next
version. -/
theorem Sound_mono {stage : Stage} (hlen : ∀ place,
    (w.stored place).length ≤ (w'.stored place).length)
    (hinserted : ∀ row cleared, stage = .inserted row cleared →
      (w'.stored call.place).length = (w.stored call.place).length ∧
        w'.claimed (call.place, row.version) = w.claimed (call.place, row.version))
    (h : stage.Sound w n call) : stage.Sound w' n call := by
  cases stage with
  | current skill restoredFrom => exact Nat.le_trans h (hlen _)
  | inserted row cleared =>
      obtain ⟨hlength, hclaimed⟩ := hinserted row cleared rfl
      exact ⟨h.1, h.2.1.trans hlength.symm, h.2.2.1, hclaimed.trans h.2.2.2⟩
  | clashed => exact Nat.lt_of_lt_of_le h (hlen _)
  | answered outcome => exact ⟨Fair_mono hlen h.1, h.2⟩
  | begun | passed | fetched => trivial

theorem Answered_mono {e : Answered} (hpre : ∀ place, w.stored place <+: w'.stored place)
    (h : e.Sound w) : e.Sound w' := by
  refine ⟨Fair_mono (fun place => (hpre place).length_le) h.1, ?_⟩
  intro row cleared hwritten
  obtain ⟨hmem, hrest⟩ := h.2 row cleared hwritten
  exact ⟨(hpre _).subset hmem, hrest⟩

-- ============================================================== the steps

/-- A step that stores nothing and answers nothing, and moves one call. -/
theorem Linear.quiet (h : Linear w) {tx : Tx} (hstored : w'.stored = w.stored)
    (hlog : w'.log = w.log) (hcalls : ∀ k ∈ w.calls, k ∈ w'.calls)
    (htxs : w'.txs = Function.update w.txs n (some tx))
    (hclaimed : ∀ k v, k ≠ n → w.claimed v = some k → w'.claimed v = some k)
    (hsound : tx.stage.Sound w' n tx.call) (hn : n ∈ w'.calls ∧ ∀ e ∈ w.log, e.no ≠ n) :
    Linear w' := by
  constructor
  · rw [hstored]
    exact h.linear
  · intro k t hk
    rw [htxs] at hk
    by_cases hkn : k = n
    · subst hkn
      rw [Function.update_self] at hk
      cases hk
      exact hsound
    · rw [Function.update_of_ne hkn] at hk
      have hstage := h.staged hk
      refine Sound_mono (w := w) (by simp [hstored]) ?_ hstage
      intro row cleared hins
      rw [hins] at hstage
      have hheld := hstage.2.2.2
      exact ⟨by rw [hstored], by rw [hheld]; exact hclaimed k _ hkn hheld⟩
  · intro k t hk
    rw [htxs] at hk
    rw [hlog]
    by_cases hkn : k = n
    · subst hkn
      exact hn
    · rw [Function.update_of_ne hkn] at hk
      exact ⟨hcalls _ (h.open_ hk).1, (h.open_ hk).2⟩
  · intro e he
    rw [hlog] at he
    exact hcalls _ (h.logged he)
  · rw [hlog]
    exact h.once
  · intro e he
    rw [hlog] at he
    refine Answered_mono (w := w) (fun place => ?_) (h.entered he)
    rw [hstored]
  · rw [hstored, hlog]
    exact h.authored

/-- Where a call goes, what holds there holds. -/
theorem Leads.sound (h : Linear w) {stage stage' : Stage} (hleads : Leads w call stage stage')
    (hstage : stage.Sound w n call) : stage'.Sound w n call := by
  cases hleads with
  | refused stored refusal => cases refusal <;> exact ⟨trivial, fun _ _ h => nomatch h⟩
  | written stored => trivial
  | passed stored => trivial
  | missing => exact ⟨trivial, fun _ _ h => nomatch h⟩
  | fetched skill restoredFrom => trivial
  | stale skill restoredFrom hne =>
      refine ⟨⟨le_refl _, hne.symm, ?_⟩, fun _ _ h => nomatch h⟩
      rw [h.latest]
  | current skill restoredFrom heq =>
      rw [h.latest] at heq
      exact heq.le
  | clashed skill restoredFrom hthere => exact h.mem_versions.mp hthere
  | again =>
      refine ⟨⟨?_, by omega, ?_⟩, fun _ _ h => nomatch h⟩
      · rw [h.latest]
        exact hstage
      · rw [h.latest]

/-- A call is over, with an answer or without. -/
theorem Linear.finish (h : Linear w) {tx : Tx} (entry : Option Answered)
    (hn : w.txs n = some tx) (hpre : ∀ place, w.stored place <+: w'.stored place)
    (hlinear : ∀ place, (w'.stored place).map (·.version)
      = List.range' 1 (w'.stored place).length)
    (htxs : w'.txs = Function.update w.txs n none) (hcalls : w'.calls = w.calls)
    (hlog : w'.log = entry.toList ++ w.log)
    (hentry : ∀ e, entry = some e → e.no = n ∧ e.Sound w')
    (hinserted : ∀ k t row cleared, k ≠ n → w.txs k = some t → t.stage = .inserted row cleared →
      (w'.stored t.call.place).length = (w.stored t.call.place).length ∧
        w'.claimed (t.call.place, row.version) = w.claimed (t.call.place, row.version))
    (hauthored : ∀ place row, row ∈ w'.stored place → row ∈ w.stored place ∨
      ∃ e, entry = some e ∧ e.no = row.call ∧ e.call.place = place ∧
        ∃ cleared, e.outcome = .written row cleared) : Linear w' := by
  obtain ⟨hncalls, hfresh⟩ := h.open_ hn
  have hother : ∀ {k t}, w'.txs k = some t → k ≠ n ∧ w.txs k = some t := by
    intro k t hk
    rw [htxs] at hk
    by_cases hkn : k = n
    · subst hkn
      simp at hk
    · rw [Function.update_of_ne hkn] at hk
      exact ⟨hkn, hk⟩
  have hmem : ∀ {e}, e ∈ w'.log ↔ entry = some e ∨ e ∈ w.log := by
    intro e
    rw [hlog, List.mem_append, Option.mem_toList]
  constructor
  · exact hlinear
  · intro k t hk
    obtain ⟨hkn, hk⟩ := hother hk
    refine Sound_mono (fun place => (hpre place).length_le) ?_ (h.staged hk)
    exact fun row cleared hins => hinserted k t row cleared hkn hk hins
  · intro k t hk
    obtain ⟨hkn, hk⟩ := hother hk
    obtain ⟨hkcalls, hkfresh⟩ := h.open_ hk
    refine ⟨hcalls ▸ hkcalls, fun e he => ?_⟩
    obtain he | he := hmem.mp he
    · rw [(hentry e he).1]
      exact hkn.symm
    · exact hkfresh e he
  · intro e he
    rw [hcalls]
    obtain he | he := hmem.mp he
    · rw [(hentry e he).1]
      exact hncalls
    · exact h.logged he
  · rw [hlog]
    cases entry with
    | none => exact h.once
    | some e =>
        refine List.nodup_cons.mpr ⟨?_, h.once⟩
        show e.no ∉ w.log.map (·.no)
        rw [(hentry e rfl).1]
        intro hin
        obtain ⟨e', he', hno⟩ := List.mem_map.mp hin
        exact hfresh e' he' hno
  · intro e he
    obtain he | he := hmem.mp he
    · exact (hentry e he).2
    · exact Answered_mono hpre (h.entered he)
  · intro place row hrow
    obtain hrow | ⟨e, he, hauthor⟩ := hauthored place row hrow
    · obtain ⟨e, he, hauthor⟩ := h.authored hrow
      exact ⟨e, hmem.mpr (.inr he), hauthor⟩
    · exact ⟨e, hmem.mpr (.inl he), hauthor⟩

/-- What a call that is over claimed is nobody's; what others claimed is
still theirs. -/
theorem release_claimed (h : Linear w) {k : Nat} {tx t : Tx} {row : VersionRow} {cleared : Bool}
    (hn : w.txs n = some tx) (hkn : k ≠ n) (hk : w.txs k = some t)
    (hins : t.stage = .inserted row cleared) :
    (w.release n tx).claimed (t.call.place, row.version)
      = w.claimed (t.call.place, row.version) := by
  have hheld := h.staged hk
  rw [hins] at hheld
  have hclaim := hheld.2.2.2
  unfold World.release
  cases hstage : tx.stage with
  | inserted row' cleared' =>
      have hmine := h.staged hn
      rw [hstage] at hmine
      have hkey : (t.call.place, row.version) ≠ (tx.call.place, row'.version) := by
        intro hkey
        rw [hkey, hmine.2.2.2] at hclaim
        cases hclaim
        exact hkn rfl
      simp [Function.update_of_ne hkey]
  | _ => rfl

/-- The call whose insertion is stored leaves the next version to others. -/
theorem Linear.store (h : Linear w) {row : VersionRow} {cleared : Bool}
    (hn : w.txs n = some ⟨call, .inserted row cleared⟩) :
    Linear (((w.append call.place row).release n ⟨call, .inserted row cleared⟩).answer n call
      (.written row cleared)) := by
  have hpre := moved_grows (Moved.store n call row cleared hn)
  obtain ⟨hversion, hbase, hauthor, hclaim⟩ := h.staged hn
  have hself := stored_append_self w call.place row
  refine h.finish (some ⟨n, call, .written row cleared⟩) hn hpre ?_ ?_ ?_ ?_ ?_ ?_ ?_
  · intro place
    rw [stored_answer]
    by_cases hp : place = call.place
    · subst hp
      rw [hself, List.map_append, h.linear, List.length_append, List.length_singleton,
        List.range'_concat, List.map_singleton, hversion, hbase]
      simp only [Nat.one_mul]
      congr 2
      omega
    · rw [stored_append_other w row hp]
      exact h.linear place
  · simp [World.answer, World.release]
  · simp [World.answer, World.release]
  · simp [World.answer, World.release]
  · rintro e ⟨⟩
    refine ⟨rfl, trivial, ?_⟩
    rintro _ _ ⟨⟩
    refine ⟨?_, hversion, hauthor⟩
    rw [stored_answer, hself]
    simp
  · intro k t row' cleared' hkn hk hins
    have hheld := h.staged hk
    rw [hins] at hheld
    obtain ⟨hversion', hbase', -, hclaim'⟩ := hheld
    -- Nobody else inserted the next version of this level.
    have hplace : t.call.place ≠ call.place := by
      intro hplace
      rw [hplace] at hbase' hclaim'
      rw [hversion', hbase', ← hbase, ← hversion, hclaim] at hclaim'
      cases hclaim'
      exact hkn rfl
    refine ⟨by rw [stored_answer, stored_append_other w row hplace], ?_⟩
    have hkey : (t.call.place, row'.version) ≠ (call.place, row.version) :=
      fun hkey => hplace (congrArg Prod.fst hkey)
    simp [World.answer, World.release, Function.update_of_ne hkey]
  · intro place row' hrow'
    rw [stored_answer] at hrow'
    by_cases hp : place = call.place
    · subst hp
      rw [hself, List.mem_append, List.mem_singleton] at hrow'
      obtain hrow' | rfl := hrow'
      · exact .inl hrow'
      · exact .inr ⟨_, rfl, hauthor.symm, rfl, cleared, rfl⟩
    · rw [stored_append_other w row hp] at hrow'
      exact .inl hrow'

theorem linear_step (h : Linear w) (hmoved : Moved w w') : Linear w' := by
  cases hmoved with
  | start n call stage hn hstage =>
      refine h.quiet rfl rfl (fun _ hk => List.mem_cons_of_mem _ hk) rfl (fun _ _ _ hv => hv) ?_ ?_
      · cases hstage with
        | begun stored => trivial
        | refused reason => exact ⟨trivial, fun _ _ h => nomatch h⟩
      · refine ⟨List.mem_cons_self, fun e he hno => hn ?_⟩
        rw [← hno]
        exact h.logged he
  | goto n call stage stage' hn hleads =>
      refine h.quiet rfl rfl (fun _ hk => hk) rfl (fun _ _ _ hv => hv) ?_ (h.open_ hn)
      have hsound : stage'.Sound w n call := hleads.sound h (h.staged hn)
      exact Sound_mono (fun _ => le_refl _) (fun _ _ _ => ⟨rfl, rfl⟩) hsound
  | insert n call skill restoredFrom hn hnew hfree =>
      refine h.quiet rfl rfl (fun _ hk => hk) rfl ?_ ?_ (h.open_ hn)
      · intro k v _ hv
        have hne : v ≠ (call.place, call.basedOn + 1) := by
          rintro rfl
          rw [hfree] at hv
          cases hv
        exact (Function.update_of_ne hne _ _).trans hv
      · have hle : call.basedOn ≤ (w.stored call.place).length := h.staged hn
        have hge : ¬ call.basedOn < (w.stored call.place).length := fun hlt =>
          hnew (h.mem_versions.mpr hlt)
        exact ⟨rfl, by show call.basedOn = (w.stored call.place).length; omega, rfl,
          Function.update_self _ _ _⟩
  | store n call row cleared hn => exact h.store hn
  | answer n call outcome hn =>
      obtain ⟨hfair, hnot⟩ := h.staged hn
      have hsame := fun place => stored_answer w n ⟨call, .answered outcome⟩ call outcome place
      refine h.finish (some ⟨n, call, outcome⟩) hn (fun place => ?_) (fun place => ?_)
        rfl rfl rfl ?_ ?_ ?_
      · rw [hsame]
      · rw [hsame]
        exact h.linear place
      · rintro e ⟨⟩
        exact ⟨rfl, Fair_mono (fun place => by rw [hsame]) hfair,
          fun row cleared hwritten => absurd hwritten (hnot row cleared)⟩
      · intro k t row cleared hkn hk hins
        exact ⟨by rw [hsame], rfl⟩
      · intro place row hrow
        rw [hsame] at hrow
        exact .inl hrow
  | fail n tx hn =>
      refine h.finish none hn (fun place => ?_) (fun place => ?_) rfl rfl rfl
        (fun e he => by cases he) ?_ ?_
      · rw [stored_release]
      · rw [stored_release]
        exact h.linear place
      · intro k t row cleared hkn hk hins
        exact ⟨by rw [stored_release], release_claimed h hn hkn hk hins⟩
      · intro place row hrow
        rw [stored_release] at hrow
        exact .inl hrow

-- ============================================================== every run

theorem linear_empty : Linear World.empty := by
  refine ⟨fun place => ?_, nofun, nofun, nofun, List.nodup_nil, nofun, fun {place} _ hrow => ?_⟩
  · cases place <;> rfl
  · cases place <;> cases hrow

theorem linear_reachable (hw : Reachable (step check) anyStep init w) : Linear w := by
  refine hw.invariant ?_ fun t a t' ht _ hstep => linear_step ht (step_moved hstep)
  rintro _ rfl
  exact linear_empty

/-- What holds of the versions of every level, and of every call that was
answered. -/
structure Versioned (w : World) : Prop where
  /-- 1 to n, no gap and none twice. -/
  exactly : ∀ place, (w.stored place).map (·.version) = List.range' 1 (w.stored place).length
  /-- A call is answered once. -/
  once : (w.log.map (·.no)).Nodup
  /-- Who stored `k + 1` named `k`. -/
  based : ∀ e ∈ w.log, ∀ row cleared, e.outcome = .written row cleared →
    row ∈ w.stored e.call.place ∧ row.version = e.call.basedOn + 1
  /-- Of the calls that name one base of one level, one succeeds. -/
  single : ∀ e ∈ w.log, ∀ e' ∈ w.log, ∀ row cleared row' cleared',
    e.outcome = .written row cleared → e'.outcome = .written row' cleared' →
    e.call.place = e'.call.place → e.call.basedOn = e'.call.basedOn → e = e'
  /-- A call with another answer stored nothing anywhere. -/
  unchanged : ∀ e ∈ w.log, (∀ row cleared, e.outcome ≠ .written row cleared) →
    ∀ place, ∀ row ∈ w.stored place, row.call ≠ e.no
  /-- A conflict reports a version there is, no older than the one it met. -/
  reported : ∀ e ∈ w.log, ∀ current against, e.outcome = .conflict current against →
    against ≤ current ∧ against ≠ e.call.basedOn ∧ current ≤ (w.stored e.call.place).length

/-- A call is one entry of the log. -/
theorem Linear.entry_eq (h : Linear w) {e e' : Answered} (he : e ∈ w.log) (he' : e' ∈ w.log)
    (hno : e.no = e'.no) : e = e' :=
  List.inj_on_of_nodup_map h.once he he' hno

/-- A version is one row of its level. -/
theorem Linear.row_eq (h : Linear w) {row row' : VersionRow} (hrow : row ∈ w.stored place)
    (hrow' : row' ∈ w.stored place) (hversion : row.version = row'.version) : row = row' := by
  have hnodup : ((w.stored place).map (·.version)).Nodup := by
    rw [h.linear]
    exact List.nodup_range'
  exact List.inj_on_of_nodup_map hnodup hrow hrow' hversion

theorem Linear.single (h : Linear w) {e e' : Answered} (he : e ∈ w.log) (he' : e' ∈ w.log)
    {row row' : VersionRow} {cleared cleared' : Bool} (hout : e.outcome = .written row cleared)
    (hout' : e'.outcome = .written row' cleared') (hplace : e.call.place = e'.call.place)
    (hbase : e.call.basedOn = e'.call.basedOn) : e = e' := by
  obtain ⟨hrow, hversion, hauthor⟩ := (h.entered he).2 row cleared hout
  obtain ⟨hrow', hversion', hauthor'⟩ := (h.entered he').2 row' cleared' hout'
  have hsame : row = row' := by
    refine h.row_eq hrow (hplace ▸ hrow') ?_
    rw [hversion, hversion', hbase]
  exact h.entry_eq he he' (by rw [← hauthor, ← hauthor', hsame])

theorem Linear.unchanged (h : Linear w) {e : Answered} (he : e ∈ w.log)
    (hnot : ∀ row cleared, e.outcome ≠ .written row cleared) {row : VersionRow}
    (hrow : row ∈ w.stored place) : row.call ≠ e.no := by
  intro hcall
  obtain ⟨e', he', hno, -, cleared, hout⟩ := h.authored hrow
  have hsame : e' = e := h.entry_eq he' he (hno.trans hcall)
  exact hnot row cleared (hsame ▸ hout)

theorem steps_grow (hsteps : Steps (step check) anyStep w w') (place : Place) :
    w.stored place <+: w'.stored place := by
  refine hsteps.invariant (I := fun t => w.stored place <+: t.stored place) (List.prefix_refl _) ?_
  intro t a t' ht _ hstep
  exact ht.trans (moved_grows (step_moved hstep) place)

/-- In every run, the versions of every level are 1 to n, none is ever
rewritten, and every call that was answered was answered truly. -/
theorem skill_versions_linear (check : Json → SkillCheck)
    (hw : Reachable (step check) anyStep init w) :
    Versioned w ∧ ∀ w', Steps (step check) anyStep w w' →
      ∀ place, w.stored place <+: w'.stored place := by
  have h := linear_reachable hw
  refine ⟨?_, fun w' hsteps => steps_grow hsteps⟩
  constructor
  · exact h.linear
  · exact h.once
  · intro e he row cleared hout
    obtain ⟨hrow, hversion, -⟩ := (h.entered he).2 row cleared hout
    exact ⟨hrow, hversion⟩
  · intro e he e' he' row cleared row' cleared' hout hout' hplace hbase
    exact h.single he he' hout hout' hplace hbase
  · intro e he hnot place row hrow
    exact h.unchanged he hnot hrow
  · intro e he current against hout
    have hfair := (h.entered he).1
    rw [hout] at hfair
    exact hfair

-- ================================================================= a race

/-- Every object but the empty one is a skill. -/
def anySkill : Json → SkillCheck
  | .object [] => .cleared
  | files => .skill ⟨"s", "d", false, files⟩

def fay : AuthContext := ⟨"acme", ⟨.user, "fay"⟩, .orgAdmin, none⟩

def writing (text : String) (basedOn : Nat) : Call :=
  ⟨fay, none, .organization, .write (.object [(Js.codeUnits "SKILL.md", .string (Js.codeUnits text))]),
    basedOn, .rest⟩

def restoring (version basedOn : Nat) : Call :=
  ⟨fay, none, .organization, .restore version, basedOn, .rest⟩

/-- Two write from nothing; the second meets the first's version, and
restores it. -/
def raceActions : List Action :=
  [.start 0 (writing "a" 0), .start 1 (writing "b" 0), .gate 0 shutOutDb, .gate 1 shutOutDb,
   .look 0, .look 1, .insert 0, .commit 0, .insert 1, .lookAgain 1, .commit 1,
   .start 2 (restoring 1 1), .gate 2 shutOutDb, .fetch 2, .look 2, .insert 2, .commit 2]

theorem run_race : (runWithin (step anySkill) anyStep World.empty raceActions).any
    (fun w => decide (w.latest (.tenant "acme" none) = 2 ∧
      (w.log.map fun e => match e.outcome with
        | .conflict current against => some (current, against)
        | _ => none) = [none, some (1, 1), none])) = true := by
  decide +kernel

theorem skill_versions_linear_race :
    ∃ w, w.latest (.tenant "acme" none) = 2 ∧ Versioned w := by
  have hstart : init World.empty := rfl
  obtain ⟨w, hw, hlatest, -⟩ := exists_reachable hstart run_race
  exact ⟨w, hlatest, (skill_versions_linear anySkill hw).1⟩

end Nacre.Skills
