/-
Skills proposed on the administrative surface (api/src/admin-writes.ts:
`write_skill`, `restore_skill`, `clear_skill`).

`propose` reads the level and writes what a person reads; `apply` hands the
change to the port, with the version it was based on.

# Two readings of one level

`propose` bases itself on `current`: the newest version where the connection
may read the level and the version is no cleared one, and 0 otherwise. The
port compares with the newest stored row, whatever it is. On a level whose
newest version is a cleared one every proposal is based on 0, and every
apply is a conflict; so it is where the proposing connection does not read
the level. `skill_proposals_apply`: nowhere else, and elsewhere what is
stored is what was proposed, but for a file at `__proto__`.

The folder of `write_skill` is what was sent as files or read out of the
zip.
-/
import Mathlib.Data.List.Sort
import Nacre.Skills.Format

namespace Nacre.Skills

open Nacre.Authz Nacre.Api Transition
open Json (unit units)

-- ============================================================= reading

/-- `ORDER BY version DESC LIMIT 1`. -/
def World.newest (w : World) (place : Place) : Option VersionRow :=
  (w.stored place).find? (·.version = w.latest place)

def live (row : VersionRow) : Bool := row.name.isSome

def World.current (w : World) (db : OrgDb) (auth : AuthContext) (level : SkillLevel) :
    Option VersionRow :=
  if !mayReadLevel db auth level then none
  else (w.newest (placeOf auth.orgId level)).filter live

def World.currentVersion (w : World) (db : OrgDb) (auth : AuthContext) (level : SkillLevel) : Nat :=
  ((w.current db auth level).map (·.version)).getD 0

def World.version (w : World) (db : OrgDb) (auth : AuthContext) (level : SkillLevel) (n : Nat) :
    Option VersionRow :=
  if !mayWriteLevel db auth level then none
  else (w.stored (placeOf auth.orgId level)).find? (·.version = n)

def byAgent (row : VersionRow) : Bool :=
  row.surface ≠ .rest || row.connectionId.isSome || "service_account:".isPrefixOf row.principal

-- ============================================================ the review

def SKILL_REVIEW_CHARS : Nat := 40000

structure Detail where
  label : String
  value : String
  deriving DecidableEq

/-- The paths of a folder, and their texts. -/
def texts : Json → List (List UInt16 × List UInt16)
  | .object fields => fields.filterMap fun f => match f.2 with
      | .string text => some (f.1, text)
      | _ => none
  | _ => []

/-- `SKILL.md` first, then the rest by path. -/
def ReviewLe (a b : List UInt16 × List UInt16) : Prop :=
  a.1 = units SKILL_FILE ∨ b.1 ≠ units SKILL_FILE ∧ a.1 ≤ b.1

instance : DecidableRel ReviewLe := fun a b =>
  inferInstanceAs (Decidable (a.1 = units SKILL_FILE ∨ b.1 ≠ units SKILL_FILE ∧ a.1 ≤ b.1))

def skillReview (files : Json) : Option (List Detail) :=
  let texts := (texts files).insertionSort ReviewLe
  if (texts.map (·.2.length)).sum > SKILL_REVIEW_CHARS then none
  else some (texts.map fun f => ⟨said f.1, said f.2⟩)

def tooLongToReview (what : String) : String :=
  s!"{what} is longer than the 40,000 characters a proposal shows whole, and a skill is not applied from a part of it. Write it on the console's Skills screen or in the skill panel instead."

-- =========================================================== a proposal

/-- The level a skill tool names. -/
inductive Target where
  | organization
  | layer (id slug : String)
  deriving DecidableEq

def Target.level : Target → SkillLevel
  | .organization => .organization
  | .layer id _ => .layer id

def Target.where_ : Target → String
  | .organization => "the organization's skill"
  | .layer _ slug => s!"the layer {slug}'s skill"

/-- A tool, with its arguments. -/
inductive Tool where
  | writeSkill (files : Files)
  | restoreSkill (version : Nat)
  | clearSkill

structure Proposal where
  summary : String
  details : List Detail
  -- `input`.
  level : SkillLevel
  operation : Operation
  basedOn : Nat

/-- The sentence a person reads, for the version it makes. -/
def Tool.summary (tool : Tool) (target : Target) (reviewed : Bool) (made : Nat) : String :=
  match tool with
  | .writeSkill files =>
      let paths := files.entries.map (·.1)
      let plural := if paths.length = 1 then "" else "s"
      let scripts := if paths.any (units "scripts/" <+: ·) then ", including scripts" else ""
      s!"Write {target.where_} as version {made}: {paths.length} file{plural}{scripts}. Read every file below before applying it — every later agent there follows it."
  | .restoreSkill version =>
      let read := if reviewed then " Read every file below before applying it." else ""
      s!"Bring back version {version} of {target.where_} as version {made}.{read}"
  | .clearSkill => s!"Clear {target.where_}. The history stays, and any version can be restored."

/-- The line that shows which version is made of which. -/
def Tool.versionDetail (tool : Tool) (based : Nat) : Detail :=
  match tool with
  | .clearSkill => ⟨"version", s!"{based} → {based + 1} (empty)"⟩
  | _ => ⟨"version", s!"{based} → {based + 1}"⟩

def scriptsDetail (paths : List (List UInt16)) : List Detail :=
  let scripts := (paths.filter (units "scripts/" <+: ·)).length
  let plural := if scripts = 1 then "" else "s"
  if scripts > 0 then
    [⟨"scripts", s!"{scripts} file{plural} under scripts/, which an agent would run on its side with the person's approval."⟩]
  else []

def proposeWrite (w : World) (db : OrgDb) (auth : AuthContext) (target : Target) (files : Files) :
    Except String Proposal :=
  if files.entries.any fun f => !(match f.2 with | .string _ => true | _ => false) then
    .error "'files' maps each path to its text."
  else
    match checkSkill files.json with
    | .refused reason => .error s!"Not a skill: {reason}."
    | .cleared => .error "An empty skill clears it; propose clear_skill for that."
    | .skill _ =>
        match skillReview files.json with
        | none => .error (tooLongToReview "This skill")
        | some review =>
            let based := w.currentVersion db auth target.level
            let tool := Tool.writeSkill files
            .ok {
              summary := tool.summary target true (based + 1)
              details := [⟨"skill", target.where_⟩, tool.versionDetail based,
                  ⟨"note", "Written by an agent, and marked as such in the history."⟩]
                ++ scriptsDetail (files.entries.map (·.1)) ++ review
              level := target.level
              operation := .write files.json
              basedOn := based }

def proposeRestore (w : World) (db : OrgDb) (auth : AuthContext) (target : Target) (n : Nat) :
    Except String Proposal :=
  if n < 1 then .error "'version' is a version number from the skill's history."
  else
    match w.version db auth target.level n with
    | none => .error s!"{target.where_} has no version {n}."
    | some old =>
        match skillReview old.files with
        | none => .error (tooLongToReview s!"Version {n} of {target.where_}")
        | some review =>
            let based := w.currentVersion db auth target.level
            let tool := Tool.restoreSkill n
            let named := match old.name with
              | none => " (empty)"
              | some name => s!" — {name}"
            let who := if byAgent old then "an agent" else "a person"
            let scripts :=
              if old.hasScripts then ", with scripts an agent would run on its side" else ""
            .ok {
              summary := tool.summary target (!review.isEmpty) (based + 1)
              details := [⟨"skill", target.where_⟩, ⟨"restoring", s!"version {n}{named}"⟩,
                  tool.versionDetail based, ⟨"written", s!"by {who}{scripts}"⟩] ++ review
              level := target.level
              operation := .restore n
              basedOn := based }

def proposeClear (w : World) (db : OrgDb) (auth : AuthContext) (target : Target) :
    Except String Proposal :=
  let based := w.currentVersion db auth target.level
  let tool := Tool.clearSkill
  if based = 0 then .error s!"{target.where_} is not set."
  else
    .ok {
      summary := tool.summary target false (based + 1)
      details := [⟨"skill", target.where_⟩, tool.versionDetail based]
      level := target.level
      operation := .write (.object [])
      basedOn := based }

def propose (w : World) (db : OrgDb) (auth : AuthContext) (target : Target) :
    Tool → Except String Proposal
  | .writeSkill files => proposeWrite w db auth target files
  | .restoreSkill n => proposeRestore w db auth target n
  | .clearSkill => proposeClear w db auth target

/-- `apply`: what the port is called with, for who decides. -/
def Proposal.call (proposal : Proposal) (decider : AuthContext) (connectionId : Option String) :
    Call where
  auth := decider
  connectionId
  level := proposal.level
  operation := proposal.operation
  basedOn := proposal.basedOn
  surface := .mcpAdmin

-- ======================================================== what is asked

/-- The files proposed. -/
def Tool.files (w : World) (place : Place) : Tool → Option Json
  | .writeSkill files => some files.json
  | .restoreSkill n => ((w.stored place).find? (·.version = n)).map (·.files)
  | .clearSkill => some (.object [])

/-- What the reviewer was shown says this version is made. -/
def Shows (proposal : Proposal) (tool : Tool) (target : Target) (based : Nat) : Prop :=
  (∃ reviewed, proposal.summary = tool.summary target reviewed (based + 1)) ∧
    tool.versionDetail based ∈ proposal.details

/-- The transaction's insertion of a version of this level is not
committed. -/
def Storing (w : World) (m : Nat) (place : Place) : Prop :=
  match w.txs m with
  | some ⟨call, .inserted _ _⟩ => call.place = place
  | _ => False

instance (w : World) (m : Nat) (place : Place) : Decidable (Storing w m place) := by
  unfold Storing
  split <;> infer_instance

/-- `n` is the call that applies; no other write to its level commits, and
who decides may write it. -/
def Undisturbed (n : Nat) (call : Call) (w : World) : Action → Prop
  | .start m c => m = n → c = call
  | .gate m db => m = n → gate db call.auth call.level call.surface = none
  | .commit m => m = n ∨ ¬ Storing w m call.place
  | _ => True

instance (n : Nat) (call : Call) (w : World) (a : Action) :
    Decidable (Undisturbed n call w a) := by
  cases a <;> unfold Undisturbed <;> infer_instance

/-- The newest version, if there is one, is no cleared one, and the
proposing connection may read the level. -/
def Readable (w : World) (db : OrgDb) (auth : AuthContext) (level : SkillLevel) : Prop :=
  ∀ row, w.newest (placeOf auth.orgId level) = some row →
    mayReadLevel db auth level = true ∧ live row = true

/-- No file is at `__proto__`. -/
def Tool.Plain : Tool → Prop
  | .writeSkill files => units "__proto__" ∉ files.entries.map (·.1)
  | _ => True

/-- Applied as it was proposed: the next version is stored, the one the
reviewer was shown, with the files proposed. -/
def AsProposed (w w' : World) (place : Place) (proposal : Proposal) (tool : Tool)
    (target : Target) (outcome : SkillWrite) : Prop :=
  ∃ row cleared, outcome = .written row cleared ∧ row ∈ w'.stored place ∧
    row.version = w.latest place + 1 ∧ Shows proposal tool target (w.latest place) ∧
    tool.files w place = some row.files

variable {w w' : World} {n : Nat} {call : Call} {place : Place} {db : OrgDb} {auth : AuthContext}
  {level : SkillLevel}

-- ========================================================== two readings

theorem newest_some {row : VersionRow} (h : Linear w) (hrow : w.newest place = some row) :
    row.version = (w.stored place).length ∧ 0 < (w.stored place).length := by
  have hversion : row.version = w.latest place := by
    simpa using List.find?_some hrow
  refine ⟨hversion.trans (h.latest place), ?_⟩
  exact List.length_pos_of_mem (List.mem_of_find?_eq_some hrow)

theorem newest_none (h : Linear w) (hrow : w.newest place = none) :
    (w.stored place).length = 0 := by
  by_contra hpos
  -- The last version is stored, so it is found.
  have hlast : (w.stored place).length - 1 + 1 ∈ (w.stored place).map (·.version) :=
    h.mem_versions.mpr (by omega)
  obtain ⟨row, hmem, hversion⟩ := List.mem_map.mp hlast
  have hnot := List.find?_eq_none.mp hrow row hmem
  rw [h.latest] at hnot
  exact hnot (decide_eq_true (by omega))

/-- The two agree on a level that is readable, and on no other. -/
theorem currentVersion_iff (h : Linear w) :
    w.currentVersion db auth level = (w.stored (placeOf auth.orgId level)).length ↔
      Readable w db auth level := by
  unfold World.currentVersion World.current Readable
  cases hrow : w.newest (placeOf auth.orgId level) with
  | none =>
      rw [newest_none h hrow]
      simp
  | some row =>
      obtain ⟨hversion, hpos⟩ := newest_some h hrow
      cases hread : mayReadLevel db auth level with
      | false =>
          have hne : ¬ 0 = (w.stored (placeOf auth.orgId level)).length := by omega
          simp [hne]
      | true =>
          cases hlive : live row with
          | false =>
              have hne : ¬ 0 = (w.stored (placeOf auth.orgId level)).length := by omega
              simp [Option.filter, hlive, hne]
          | true => simp [Option.filter, hlive, hversion]

-- ========================================================= what is asked

/-- What an operation inserts, given the versions there are. -/
def aim (stored : List VersionRow) : Operation → Option (Option Skill × Option Nat)
  | .write files =>
      match checkSkill files with
      | .skill skill => some (some skill, none)
      | .cleared => some (none, none)
      | .refused _ => none
  | .restore n =>
      (stored.find? (·.version = n)).map fun row => (restored checkSkill row, some n)

/-- What an accepted proposal holds. -/
structure Accepted (w : World) (db : OrgDb) (auth : AuthContext) (target : Target) (tool : Tool)
    (proposal : Proposal) : Prop where
  level : proposal.level = target.level
  based : proposal.basedOn = w.currentVersion db auth target.level
  shows_ : Shows proposal tool target proposal.basedOn
  asked : match tool with
    | .writeSkill files =>
        proposal.operation = .write files.json ∧ ∃ skill, checkSkill files.json = .skill skill
    | .restoreSkill n =>
        proposal.operation = .restore n ∧
          ∃ row, (w.stored (placeOf auth.orgId target.level)).find? (·.version = n) = some row
    | .clearSkill => proposal.operation = .write (.object [])

theorem propose_accepted {target : Target} {tool : Tool} {proposal : Proposal}
    (h : propose w db auth target tool = .ok proposal) :
    Accepted w db auth target tool proposal := by
  cases tool with
  | writeSkill files =>
      simp only [propose, proposeWrite] at h
      split at h
      next => cases h
      next =>
        split at h
        next => cases h
        next => cases h
        next skill hskill =>
          split at h
          next => cases h
          next review _ =>
            cases h
            exact ⟨rfl, rfl, ⟨⟨true, rfl⟩, by simp⟩, rfl, skill, hskill⟩
  | restoreSkill n =>
      simp only [propose, proposeRestore] at h
      split at h
      next => cases h
      next =>
        split at h
        next => cases h
        next old hold =>
          have hfind : (w.stored (placeOf auth.orgId target.level)).find? (·.version = n)
              = some old := by
            unfold World.version at hold
            split at hold
            next => cases hold
            next => exact hold
          split at h
          next => cases h
          next review _ =>
            cases h
            exact ⟨rfl, rfl, ⟨⟨_, rfl⟩, by simp⟩, rfl, old, hfind⟩
  | clearSkill =>
      simp only [propose, proposeClear] at h
      split at h
      next => cases h
      next =>
        cases h
        exact ⟨rfl, rfl, ⟨⟨false, rfl⟩, by simp⟩, rfl⟩

-- ====================================================== what is stored

/-- A row whose files are a skill's, the one they are checked to be, or
nothing. -/
def VersionRow.Kept (row : VersionRow) : Prop :=
  row.files = .object [] ∨ ∃ skill, checkSkill row.files = .skill skill ∧ skill.files = row.files

/-- A skill that is what its files are checked to be. -/
def SkillKept (skill : Option Skill) : Prop :=
  ∀ s, skill = some s → checkSkill s.files = .skill s

def Stage.Kept : Stage → Prop
  | .begun stored => SkillKept stored
  | .fetched skill _ => SkillKept skill
  | .current skill _ => SkillKept skill
  | .inserted row _ => row.Kept
  | _ => True

structure Kept (w : World) : Prop where
  rows : ∀ {place row}, row ∈ w.stored place → row.Kept
  stages : ∀ {n tx}, w.txs n = some tx → tx.stage.Kept

theorem skillKept_none : SkillKept none := nofun

theorem skillKept_checked {input : Json} {skill : Skill} (h : checkSkill input = .skill skill) :
    SkillKept (some skill) := by
  rintro _ ⟨⟩
  exact checkSkill_again h

/-- A version is restored with the files it has. -/
theorem restored_files {row : VersionRow} (h : row.Kept) :
    ((restored checkSkill row).map (·.files)).getD (.object []) = row.files ∧
      SkillKept (restored checkSkill row) := by
  obtain hempty | ⟨skill, hskill, hfiles⟩ := h
  · have hnone : restored checkSkill row = none := by
      rw [restored, hempty, checkSkill_empty]
    rw [hnone, hempty]
    exact ⟨rfl, skillKept_none⟩
  · have hsome : restored checkSkill row = some skill := by
      rw [restored, hskill]
    rw [hsome]
    exact ⟨hfiles, skillKept_checked hskill⟩

theorem rowFor_kept {skill : Option Skill} (restoredFrom : Option Nat) (h : SkillKept skill) :
    (rowFor n call skill restoredFrom).Kept := by
  cases skill with
  | none => exact .inl rfl
  | some s => exact .inr ⟨s, h s rfl, rfl⟩

theorem Begins.kept {stage : Stage} (h : Begins checkSkill call stage) : stage.Kept := by
  cases h with
  | restore version hop => exact skillKept_none
  | refused files reason hop hcheck => trivial
  | cleared files hop hcheck => exact skillKept_none
  | skill files skill hop hcheck => exact skillKept_checked hcheck

theorem Turns.kept {a : Action} {stage stage' : Stage} (hw : Kept w)
    (h : Turns checkSkill w n call a stage stage') (hstage : stage.Kept) : stage'.Kept := by
  cases h with
  | written stored db files hop => exact hstage
  | fetched version row hop hfind =>
      exact (restored_files (hw.rows (List.mem_of_find?_eq_some hfind))).2
  | current skill restoredFrom h => exact hstage
  | refused | passed | missing | stale | clashed | again => trivial

/-- One call moves, and no version is stored. -/
theorem Kept.turn (h : Kept w) {tx : Tx} (hstored : w'.stored = w.stored)
    (htxs : w'.txs = Function.update w.txs n (some tx)) (hstage : tx.stage.Kept) : Kept w' := by
  constructor
  · intro place row hrow
    rw [hstored] at hrow
    exact h.rows hrow
  · intro k t hk
    rw [htxs] at hk
    by_cases hkn : k = n
    · subst hkn
      rw [Function.update_self] at hk
      cases hk
      exact hstage
    · rw [Function.update_of_ne hkn] at hk
      exact h.stages hk

/-- One call is over. -/
theorem Kept.over (h : Kept w) (hstored : ∀ {place row}, row ∈ w'.stored place → row.Kept)
    (htxs : w'.txs = Function.update w.txs n none) : Kept w' := by
  refine ⟨hstored, fun {k t} hk => ?_⟩
  rw [htxs] at hk
  by_cases hkn : k = n
  · subst hkn
    rw [Function.update_self] at hk
    cases hk
  · rw [Function.update_of_ne hkn] at hk
    exact h.stages hk

theorem kept_step {a : Action} (h : Kept w) (hdoes : Does checkSkill w a w') : Kept w' := by
  cases hdoes with
  | start n call stage hn hstage => exact h.turn rfl rfl hstage.kept
  | turn _ n call stage stage' hn hturn =>
      exact h.turn rfl rfl (hturn.kept h (h.stages hn))
  | insert n call skill restoredFrom hn hnew hfree =>
      exact h.turn rfl rfl (rowFor_kept restoredFrom (h.stages hn))
  | store n call row cleared hn =>
      refine h.over (n := n) (fun {place row'} hrow' => ?_) (by simp [World.answer, World.release])
      rw [stored_answer] at hrow'
      by_cases hp : place = call.place
      · subst hp
        rw [stored_append_self, List.mem_append, List.mem_singleton] at hrow'
        obtain hrow' | rfl := hrow'
        · exact h.rows hrow'
        · exact h.stages hn
      · rw [stored_append_other w row hp] at hrow'
        exact h.rows hrow'
  | answer n call outcome hn =>
      refine h.over (fun {place row'} hrow' => ?_) rfl
      rw [stored_answer] at hrow'
      exact h.rows hrow'
  | fail n tx hn =>
      refine h.over (fun {place row'} hrow' => ?_) rfl
      rw [stored_release] at hrow'
      exact h.rows hrow'

theorem kept_empty : Kept World.empty := by
  refine ⟨fun {place row} hrow => ?_, nofun⟩
  cases place <;> cases hrow

theorem kept_reachable (hw : Reachable (step checkSkill) anyStep init w) : Kept w := by
  refine hw.invariant ?_ fun t a t' ht _ hstep => kept_step ht (step_does hstep)
  rintro _ rfl
  exact kept_empty

-- ========================================================== the apply

/-- Where the call that applies is. The level had `stored` when it was
proposed; `skill` is what it inserts. -/
def Stage.Toward (n : Nat) (call : Call) (stored : List VersionRow) (skill : Option Skill)
    (restoredFrom : Option Nat) : Stage → Prop
  | .begun s => ∀ files, call.operation = .write files → s = skill ∧ restoredFrom = none
  | .passed => True
  | .fetched s r => s = skill ∧ r = restoredFrom
  | .current s r => s = skill ∧ r = restoredFrom ∧ call.basedOn = stored.length
  | .inserted row cleared =>
      row = rowFor n call skill restoredFrom ∧ cleared = skill.isNone ∧
        call.basedOn = stored.length
  | .clashed => False
  | .answered outcome =>
      call.basedOn ≠ stored.length ∧ ∀ row cleared, outcome ≠ .written row cleared

structure Applying (n : Nat) (call : Call) (stored : List VersionRow) (skill : Option Skill)
    (restoredFrom : Option Nat) (w : World) : Prop where
  /-- The level is as it was until the call is answered. -/
  still : (∀ e ∈ w.log, e.no ≠ n) → w.stored call.place = stored
  toward : ∀ tx, w.txs n = some tx →
    tx.call = call ∧ tx.stage.Toward n call stored skill restoredFrom
  answered : ∀ e ∈ w.log, e.no = n → e.call = call ∧
    ((e.outcome = .written (rowFor n call skill restoredFrom) skill.isNone ∧
        call.basedOn = stored.length) ∨
      call.basedOn ≠ stored.length ∧ ∀ row cleared, e.outcome ≠ .written row cleared)

section Apply

variable {stored : List VersionRow} {skill : Option Skill} {restoredFrom : Option Nat}

/-- Another call's step, which stores nothing here. -/
theorem Applying.other (h : Applying n call stored skill restoredFrom w)
    (hstill : w'.stored call.place = w.stored call.place) (htxs : w'.txs n = w.txs n)
    (hlog : ∀ e ∈ w'.log, e.no = n → e ∈ w.log) (hkept : ∀ e ∈ w.log, e ∈ w'.log) :
    Applying n call stored skill restoredFrom w' := by
  constructor
  · intro hnone
    rw [hstill]
    exact h.still fun e he => hnone e (hkept e he)
  · intro tx htx
    rw [htxs] at htx
    exact h.toward tx htx
  · intro e he hno
    exact h.answered e (hlog e he hno) hno

/-- The call itself moves. -/
theorem Applying.self (h : Applying n call stored skill restoredFrom w) {stage : Stage}
    (hstored : w'.stored = w.stored) (htxs : w'.txs n = some ⟨call, stage⟩)
    (hlog : w'.log = w.log) (hstage : stage.Toward n call stored skill restoredFrom) :
    Applying n call stored skill restoredFrom w' := by
  constructor
  · intro hnone
    rw [hlog] at hnone
    rw [hstored]
    exact h.still hnone
  · intro tx htx
    rw [htxs] at htx
    cases htx
    exact ⟨rfl, hstage⟩
  · intro e he hno
    rw [hlog] at he
    exact h.answered e he hno

theorem Begins.toward {stage : Stage}
    (haim : aim stored call.operation = some (skill, restoredFrom))
    (h : Begins checkSkill call stage) : stage.Toward n call stored skill restoredFrom := by
  cases h with
  | restore version hop =>
      intro files hfiles
      rw [hop] at hfiles
      cases hfiles
  | refused files reason hop hcheck =>
      rw [hop, aim, hcheck] at haim
      cases haim
  | cleared files hop hcheck =>
      rw [hop, aim, hcheck] at haim
      cases haim
      exact fun _ _ => ⟨rfl, rfl⟩
  | skill files skill hop hcheck =>
      rw [hop, aim, hcheck] at haim
      cases haim
      exact fun _ _ => ⟨rfl, rfl⟩

/-- A turn of the call, on a level that is as it was. -/
theorem Turns.toward {a : Action} {stage stage' : Stage} (hlinear : Linear w)
    (haim : aim stored call.operation = some (skill, restoredFrom))
    (hstored : w.stored call.place = stored) (hok : Undisturbed n call w a)
    (h : Turns checkSkill w n call a stage stage')
    (hstage : stage.Toward n call stored skill restoredFrom) :
    stage'.Toward n call stored skill restoredFrom := by
  have hlatest : w.latest call.place = stored.length := by
    rw [hlinear.latest, hstored]
  cases h with
  | refused s db refusal hgate =>
      rw [hok rfl] at hgate
      cases hgate
  | written s db files hop =>
      obtain ⟨hskill, hfrom⟩ := hstage files hop
      exact ⟨hskill, hfrom.symm⟩
  | passed s db version hop => trivial
  | missing version hop hfind =>
      rw [hstored] at hfind
      rw [hop, aim, hfind] at haim
      cases haim
  | fetched version row hop hfind =>
      rw [hstored] at hfind
      rw [hop, aim, hfind] at haim
      cases haim
      exact ⟨rfl, rfl⟩
  | stale s r hne =>
      rw [hlatest] at hne
      exact ⟨hne, fun _ _ h => nomatch h⟩
  | current s r heq =>
      rw [hlatest] at heq
      exact ⟨hstage.1, hstage.2, heq⟩
  | clashed s r hthere =>
      have hlt := hlinear.mem_versions.mp hthere
      rw [hstored] at hlt
      have heq := hstage.2.2
      omega
  | again => exact False.elim hstage

/-- What the insertion of another call is stored in. -/
theorem stored_store_other (w : World) {m : Nat} {c : Call} {row : VersionRow} {cleared : Bool}
    (hplace : c.place ≠ place) :
    (((w.append c.place row).release m ⟨c, .inserted row cleared⟩).answer m c
      (.written row cleared)).stored place = w.stored place := by
  rw [stored_answer, stored_append_other w row (Ne.symm hplace)]

/-- The call is answered. -/
theorem applying_over {outcome : SkillWrite}
    (hlog : w'.log = ⟨n, call, outcome⟩ :: w.log) (htxs : w'.txs n = none)
    (hfresh : ∀ e ∈ w.log, e.no ≠ n)
    (houtcome : (outcome = .written (rowFor n call skill restoredFrom) skill.isNone ∧
        call.basedOn = stored.length) ∨
      call.basedOn ≠ stored.length ∧ ∀ row cleared, outcome ≠ .written row cleared) :
    Applying n call stored skill restoredFrom w' := by
  constructor
  · intro hnone
    refine absurd rfl (hnone ⟨n, call, outcome⟩ ?_)
    rw [hlog]
    exact List.mem_cons_self
  · intro tx htx
    rw [htxs] at htx
    cases htx
  · intro e he hno
    rw [hlog] at he
    rcases List.mem_cons.mp he with rfl | he
    · exact ⟨rfl, houtcome⟩
    · exact absurd hno (hfresh e he)

theorem applying_step {a : Action} (hlinear : Linear w)
    (haim : aim stored call.operation = some (skill, restoredFrom))
    (h : Applying n call stored skill restoredFrom w) (hok : Undisturbed n call w a)
    (hdoes : Does checkSkill w a w') : Applying n call stored skill restoredFrom w' := by
  cases hdoes with
  | start m c stage hm hstage =>
      by_cases hmn : m = n
      · subst hmn
        obtain rfl : c = call := hok rfl
        exact h.self rfl (Function.update_self _ _ _) rfl (hstage.toward haim)
      · exact h.other rfl (Function.update_of_ne (Ne.symm hmn) _ _) (fun e he _ => he)
          (fun e he => he)
  | turn _ m c stage stage' hm hturn =>
      by_cases hmn : m = n
      · subst hmn
        obtain ⟨rfl, hstage⟩ := h.toward _ hm
        have hstored := h.still (hlinear.open_ hm).2
        exact h.self rfl (Function.update_self _ _ _) rfl
          (hturn.toward hlinear haim hstored hok hstage)
      · exact h.other rfl (Function.update_of_ne (Ne.symm hmn) _ _) (fun e he _ => he)
          (fun e he => he)
  | insert m c s r hm hnew hfree =>
      by_cases hmn : m = n
      · subst hmn
        obtain ⟨rfl, rfl, rfl, heq⟩ := h.toward _ hm
        exact h.self rfl (Function.update_self _ _ _) rfl ⟨rfl, rfl, heq⟩
      · exact h.other rfl (Function.update_of_ne (Ne.symm hmn) _ _) (fun e he _ => he)
          (fun e he => he)
  | store m c row cleared hm =>
      by_cases hmn : m = n
      · subst hmn
        obtain ⟨hcall, hrow, hcleared, heq⟩ := h.toward _ hm
        obtain rfl : c = call := hcall
        subst hrow hcleared
        refine applying_over ?_ ?_ (hlinear.open_ hm).2 (.inl ⟨rfl, heq⟩)
        · simp [World.answer, World.release]
        · simp [World.answer, World.release]
      · have hplace : c.place ≠ call.place := by
          intro hplace
          have hnot := hok.resolve_left hmn
          rw [Storing, hm] at hnot
          exact hnot hplace
        refine h.other (stored_store_other w hplace) ?_ ?_ ?_
        · simp [World.answer, World.release, Function.update_of_ne (Ne.symm hmn)]
        · intro e he hno
          simp only [World.answer, World.release, append_log, List.mem_cons] at he
          rcases he with rfl | he
          · exact absurd hno hmn
          · exact he
        · intro e he
          simp [World.answer, World.release, he]
  | answer m c outcome hm =>
      by_cases hmn : m = n
      · subst hmn
        obtain ⟨rfl, houtcome⟩ := h.toward _ hm
        exact applying_over rfl (Function.update_self _ _ _) (hlinear.open_ hm).2 (.inr houtcome)
      · refine h.other (stored_answer w m ⟨c, .answered outcome⟩ c outcome call.place)
          (Function.update_of_ne (Ne.symm hmn) _ _) ?_ ?_
        · intro e he hno
          rcases List.mem_cons.mp he with rfl | he
          · exact absurd hno hmn
          · exact he
        · exact fun e he => List.mem_cons_of_mem _ he
  | fail m tx hm =>
      by_cases hmn : m = n
      · subst hmn
        refine ⟨fun hnone => ?_, fun tx' htx => ?_, h.answered⟩
        · rw [stored_release]
          exact h.still hnone
        · rw [show (w.release m tx).txs m = none from Function.update_self _ _ _] at htx
          cases htx
      · exact h.other (stored_release w m tx call.place) (Function.update_of_ne (Ne.symm hmn) _ _)
          (fun e he _ => he) (fun e he => he)

theorem applying_start (hlinear : Linear w) (hn : n ∉ w.calls) :
    Applying n call (w.stored call.place) skill restoredFrom w := by
  refine ⟨fun _ => rfl, fun tx htx => ?_, fun e he hno => ?_⟩
  · exact absurd (hlinear.open_ htx).1 hn
  · exact absurd (hno ▸ hlinear.logged he) hn

theorem applying_steps (hlinear : Linear w)
    (haim : aim (w.stored call.place) call.operation = some (skill, restoredFrom))
    (hn : n ∉ w.calls) (hsteps : Steps (step checkSkill) (Undisturbed n call) w w') :
    Linear w' ∧ Applying n call (w.stored call.place) skill restoredFrom w' := by
  refine hsteps.invariant
    (I := fun t => Linear t ∧ Applying n call (w.stored call.place) skill restoredFrom t)
    ⟨hlinear, applying_start hlinear hn⟩ ?_
  intro t a t' ht hok hstep
  exact ⟨linear_step ht.1 (step_moved hstep), applying_step ht.1 haim ht.2 hok (step_does hstep)⟩

end Apply

-- ============================================================ every run

/-- What an accepted proposal inserts, and whether that is what it said. -/
theorem Accepted.aim {target : Target} {tool : Tool} {proposal : Proposal} (hkept : Kept w)
    (h : Accepted w db auth target tool proposal)
    (hplace : place = placeOf auth.orgId target.level) :
    ∃ skill restoredFrom, aim (w.stored place) proposal.operation = some (skill, restoredFrom) ∧
      ∀ n call, tool.files w place = some (rowFor n call skill restoredFrom).files ↔
        tool.Plain := by
  subst hplace
  have hasked := h.asked
  cases tool with
  | writeSkill files =>
      obtain ⟨hop, skill, hskill⟩ := hasked
      refine ⟨some skill, none, by rw [hop, Skills.aim, hskill], fun n call => ?_⟩
      have hfiles := checkSkill_files hskill
      simp only [Tool.files, rowFor, Tool.Plain, Option.map_some, Option.getD_some,
        Option.some.injEq]
      rw [← hfiles]
      exact eq_comm
  | restoreSkill version =>
      obtain ⟨hop, row, hrow⟩ := hasked
      refine ⟨restored checkSkill row, some version, by rw [hop, Skills.aim, hrow]; rfl,
        fun n call => ?_⟩
      have hfiles := (restored_files (hkept.rows (List.mem_of_find?_eq_some hrow))).1
      simp [Tool.files, rowFor, Tool.Plain, hrow, hfiles]
  | clearSkill =>
      refine ⟨none, none, by rw [show proposal.operation = _ from hasked]; rfl, fun n call => ?_⟩
      simp [Tool.files, rowFor, Tool.Plain]

/-- A proposal that was accepted is applied as it was proposed, exactly
where the newest version was no cleared one and the connection that
proposed could read the level, and no file is at `__proto__`. -/
theorem skill_proposals_apply {target : Target} {tool : Tool} {proposal : Proposal}
    {decider : AuthContext} {connectionId : Option String} {e : Answered}
    (hw : Reachable (step checkSkill) anyStep init w)
    (hpropose : propose w db auth target tool = .ok proposal) (horg : decider.orgId = auth.orgId)
    (hn : n ∉ w.calls)
    (hsteps : Steps (step checkSkill) (Undisturbed n (proposal.call decider connectionId)) w w')
    (he : e ∈ w'.log) (hno : e.no = n) :
    AsProposed w w' (placeOf auth.orgId target.level) proposal tool target e.outcome ↔
      Readable w db auth target.level ∧ tool.Plain := by
  have hlinear := linear_reachable hw
  have hacc := propose_accepted hpropose
  have hplace : (proposal.call decider connectionId).place = placeOf auth.orgId target.level := by
    show placeOf decider.orgId proposal.level = _
    rw [horg, hacc.level]
  obtain ⟨skill, restoredFrom, haim, hfiles⟩ := hacc.aim (kept_reachable hw) hplace
  obtain ⟨hlinear', happly⟩ := applying_steps hlinear haim hn hsteps
  have hreads : w.currentVersion db auth target.level
      = (w.stored (placeOf auth.orgId target.level)).length ↔ Readable w db auth target.level :=
    currentVersion_iff hlinear
  obtain ⟨hcall, ⟨houtcome, hbased⟩ | ⟨hbased, hnot⟩⟩ := happly.answered e he hno
  · have hbased : proposal.basedOn = w.latest (placeOf auth.orgId target.level) := by
      rw [hlinear.latest, ← hplace]
      exact hbased
    have hreadable : Readable w db auth target.level := by
      rw [← hreads, ← hacc.based, hbased, hlinear.latest]
    obtain ⟨hmem, -, -⟩ := (hlinear'.entered he).2 _ _ houtcome
    rw [hcall, hplace] at hmem
    rw [hplace] at hfiles
    constructor
    · rintro ⟨row, cleared, hrow, -, -, -, hsame⟩
      rw [houtcome] at hrow
      cases hrow
      exact ⟨hreadable, (hfiles _ _).mp hsame⟩
    · rintro ⟨-, hplain⟩
      refine ⟨_, _, houtcome, hmem, ?_, ?_, (hfiles _ _).mpr hplain⟩
      · rw [← hbased]
        rfl
      · rw [← hbased]
        exact hacc.shows_
  · constructor
    · rintro ⟨row, cleared, hrow, -⟩
      exact absurd hrow (hnot row cleared)
    · rintro ⟨hreadable, -⟩
      refine absurd ?_ hbased
      show proposal.basedOn = _
      rw [hacc.based, hreads.mpr hreadable, hplace]

-- ===================================================== a cleared skill

/-- The folder of a small skill. -/
def smallFiles : Files where
  entries := [(units SKILL_FILE, .string (units "---\nname: s\ndescription: d\n---\nx"))]
  distinct := List.nodup_singleton _

/-- Fay writes the organization's skill in the console. -/
def writeActions : List Action :=
  [.start 0 ⟨fay, none, .organization, .write smallFiles.json, 0, .rest⟩, .gate 0 shutOutDb,
   .look 0, .insert 0, .commit 0]

/-- And clears it. -/
def clearActions : List Action :=
  [.start 1 ⟨fay, none, .organization, .write (.object []), 1, .rest⟩, .gate 1 shutOutDb,
   .look 1, .insert 1, .commit 1]

/-- Nothing else happens, and the proposal is applied. -/
def applyActions (call : Call) : List Action :=
  [.start 2 call, .gate 2 shutOutDb, .look 2, .insert 2, .commit 2]

/-- What is proposed on a cleared skill. -/
def proposedCall (basedOn : Nat) : Call :=
  ⟨fay, none, .organization, .write smallFiles.json, basedOn, .mcpAdmin⟩

/-- What the second call was answered. -/
def outcomeOf (w : World) (n : Nat) : Option SkillWrite :=
  (w.log.find? (·.no = n)).map (·.outcome)

/-- The call of what is proposed now. -/
def proposes (w : World) (tool : Tool) : Option Call :=
  (propose w shutOutDb fay .organization tool).toOption.map (·.call fay none)

theorem run_cleared :
    (runWithin (step checkSkill) anyStep World.empty (writeActions ++ clearActions)).any (fun w =>
      decide (proposes w (.writeSkill smallFiles) = some (proposedCall 0) ∧ 2 ∉ w.calls) &&
        (runWithin (step checkSkill) (Undisturbed 2 (proposedCall 0)) w
          ((applyActions (proposedCall 0)).eraseIdx 3)).any fun w' =>
            decide (outcomeOf w' 2 = some (.conflict 2 2))) = true := by
  decide +kernel

theorem proposes_ok {tool : Tool} (h : proposes w tool = some call) :
    ∃ proposal, propose w shutOutDb fay .organization tool = .ok proposal ∧
      proposal.call fay none = call := by
  unfold proposes at h
  obtain ⟨proposal, hsome, hcall⟩ := Option.map_eq_some_iff.mp h
  cases hp : propose w shutOutDb fay .organization tool with
  | error reason =>
      rw [hp] at hsome
      cases hsome
  | ok accepted =>
      rw [hp] at hsome
      cases hsome
      exact ⟨_, rfl, hcall⟩

theorem outcomeOf_some {outcome : SkillWrite} (h : outcomeOf w n = some outcome) :
    ∃ e ∈ w.log, e.no = n ∧ e.outcome = outcome := by
  obtain ⟨e, he, houtcome⟩ := Option.map_eq_some_iff.mp h
  exact ⟨e, List.mem_of_find?_eq_some he, by simpa using List.find?_some he, houtcome⟩

/-- A skill is written and cleared. A new one is proposed and accepted,
nothing else happens, and its apply is a conflict. -/
theorem cleared_skill_conflicts :
    ∃ w w' proposal e, Reachable (step checkSkill) anyStep init w ∧
      propose w shutOutDb fay .organization (.writeSkill smallFiles) = .ok proposal ∧
      2 ∉ w.calls ∧ Steps (step checkSkill) (Undisturbed 2 (proposal.call fay none)) w w' ∧
      e ∈ w'.log ∧ e.no = 2 ∧ e.outcome = .conflict 2 2 := by
  have hstart : init World.empty := rfl
  obtain ⟨w, w', hw, hsteps, ⟨hproposes, hn⟩, houtcome⟩ := exists_then hstart run_cleared
  obtain ⟨proposal, hpropose, hcall⟩ := proposes_ok hproposes
  obtain ⟨e, he, hno, houtcome⟩ := outcomeOf_some houtcome
  rw [← hcall] at hsteps
  exact ⟨w, w', proposal, e, hw, hpropose, hn, hsteps, he, hno, houtcome⟩

theorem run_written :
    (runWithin (step checkSkill) anyStep World.empty writeActions).any (fun w =>
      decide (proposes w (.writeSkill smallFiles) = some (proposedCall 1) ∧ 2 ∉ w.calls) &&
        (runWithin (step checkSkill) (Undisturbed 2 (proposedCall 1)) w
          (applyActions (proposedCall 1))).any fun w' =>
            decide ((outcomeOf w' 2).isSome = true)) = true := by
  decide +kernel

/-- A second version proposed on the first is applied as it was
proposed exactly where it is readable. -/
theorem skill_proposals_apply_written :
    ∃ w w' proposal e, e ∈ w'.log ∧
      (AsProposed w w' (.tenant "acme" none) proposal (.writeSkill smallFiles) .organization
          e.outcome ↔
        Readable w shutOutDb fay .organization ∧ (Tool.writeSkill smallFiles).Plain) := by
  have hstart : init World.empty := rfl
  obtain ⟨w, w', hw, hsteps, ⟨hproposes, hn⟩, houtcome⟩ := exists_then hstart run_written
  obtain ⟨proposal, hpropose, hcall⟩ := proposes_ok hproposes
  rw [← hcall] at hsteps
  obtain ⟨outcome, houtcome⟩ := Option.isSome_iff_exists.mp houtcome
  obtain ⟨e, he, hno, -⟩ := outcomeOf_some houtcome
  exact ⟨w, w', proposal, e, he, skill_proposals_apply hw hpropose rfl hn hsteps he hno⟩

end Nacre.Skills
