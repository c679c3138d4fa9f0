/-
The proposals of one organization's administrative connections:
`create`, `claim`, `settle`, `cancel` and `applyProposal`
(api/src/proposals.ts), the worker's `expireProposals` and
`prune_admin_proposals`, and the revocation and the re-approval of the
connection a proposal was made on (api/src/oauth-store.ts).

# What is a step

One statement that writes rows, with what its transaction read before it.
`create` is two: its transaction begins, counts what is waiting, and
commits later, with the row dated from its beginning; nobody sees the row
before. A revocation writes the connection and the proposals in one
transaction: a claim that comes between its statements finds the
connection standing and the row open, and comes before it; a row that is
inserted between them is not in the last one's snapshot, and comes after.

`applyProposal` claims, invokes `tool.apply`, and settles. What `apply`
answers is whatever it likes. A settlement may be tried again (an error
while recording the first one), and anything in flight may be dropped.

# Ghosts

`claims`: every successful claim, with the row it found. `applications`:
every invocation of `apply`. `madeOn`: the connection a proposal was made
on, whatever became of its row. `outlived`: the proposals of a connection
that was revoked after they were made.
-/
import Mathlib.Logic.Function.Basic
import Nacre.Lib.Js
import Nacre.Lib.Sha256
import Nacre.Lib.Transition
import Nacre.OAuth.System

namespace Nacre.Proposals

open Nacre.OAuth (ActsAs Consent ConsentId)
open Nacre.Store (Time)

abbrev ProposalId := String
abbrev PersonId := String

-- ================================================================ the rows

inductive Status where
  | open
  | applying
  | applied
  | failed
  | cancelled
  | expired
  deriving DecidableEq

/-- A decided proposal. -/
def Status.terminal : Status → Bool
  | .open => false
  | .applying => false
  | _ => true

inductive Through where
  | panel
  | console
  deriving DecidableEq

/-- A row of `admin_proposals`. -/
structure Proposal where
  consentId : ConsentId
  proposedBy : PersonId
  tool : String
  module : Option String
  input : String
  panelKeyHash : String
  status : Status := .open
  expiresAt : Time
  decidedAt : Option Time := none
  decidedThrough : Option Through := none
  error : Option String := none

/-- Who is deciding. -/
inductive Decider where
  | panel (consentId : ConsentId) (key : String)
  | console (personId : PersonId)
  deriving DecidableEq

def Decider.through : Decider → Through
  | .panel .. => .panel
  | .console _ => .console

/-- The panel key as stored. -/
def keyHash (key : String) : String := Sha256.hex key.toUTF8.data.toList

/-- The decider's half of the statements' conditions. -/
def permits (row : Proposal) : Decider → Bool
  | .panel consentId key =>
      key ≠ "" && row.consentId = consentId && row.panelKeyHash = keyHash key
  | .console personId => row.proposedBy = personId

/-- `status = 'open' AND expires_at > now()`. -/
def Proposal.waiting (now : Time) (row : Proposal) : Bool :=
  row.status = .open && now < row.expiresAt

def PROPOSAL_TTL : Time := 10 * 60

def OPEN_PER_CONNECTION : Nat := 25

/-- How long an apply may take before it counts as interrupted. -/
def APPLYING_SECONDS : Time := 15 * 60

/-- `expireProposals`' condition. -/
def Proposal.due (now : Time) (row : Proposal) : Bool :=
  (row.status = .open && row.expiresAt < now)
    || (row.status = .applying && row.decidedAt.any (· + APPLYING_SECONDS < now))

-- ============================================================== statements

def claimed (now : Time) (by' : Decider) (row : Proposal) : Proposal :=
  { row with status := .applying, decidedAt := some now, decidedThrough := some by'.through }

def cancelled (now : Time) (by' : Decider) (row : Proposal) : Proposal :=
  { row with status := .cancelled, decidedAt := some now, decidedThrough := some by'.through }

/-- `settle`: none for an apply that went through, else its error. -/
def settled (outcome : Option (List UInt16)) (row : Proposal) : Proposal :=
  if row.status = .applying then
    { row with
      status := if outcome = none then .applied else .failed
      error := outcome.map fun text => Js.toWellFormed (text.take 1000) }
  else row

def ended (now : Time) (row : Proposal) : Proposal :=
  { row with
    status := if row.status = .open then .expired else .failed
    decidedAt := row.decidedAt.or (some now)
    error := if row.status = .applying then some "interrupted while being applied"
      else row.error }

/-- What a revocation leaves of a proposal of its connection. -/
def endedByRevocation (now : Time) (row : Proposal) : Proposal :=
  if row.status = .open then
    { row with
      status := .cancelled, decidedAt := some now, error := some "the connection was revoked" }
  else row

def notOffered (tool : String) : List UInt16 :=
  Js.codeUnits (tool ++ " is no longer offered here, so this proposal cannot be applied.")

/-- What a claim returns. -/
structure Taken where
  tool : String
  module : Option String
  input : String
  consentId : ConsentId
  deriving DecidableEq

def Proposal.taken (row : Proposal) : Taken :=
  ⟨row.tool, row.module, row.input, row.consentId⟩

-- ================================================================= state

inductive Flight where
  /-- Claimed; `apply` is to be invoked. -/
  | claimed (p : ProposalId) (taken : Taken)
  /-- `apply` was invoked, or the tool is not offered; it is to be settled. -/
  | running (p : ProposalId)
  deriving DecidableEq

/-- It has still to invoke `apply` on the proposal. -/
def Flight.awaits (p : ProposalId) : Flight → Bool
  | .claimed p' _ => p' = p
  | .running _ => false

/-- It has still to invoke `apply` on a proposal of the connection. -/
def Flight.awaitsOn (id : ConsentId) : Flight → Bool
  | .claimed _ taken => taken.consentId = id
  | .running _ => false

/-- A successful claim. -/
structure Claim where
  id : ProposalId
  decider : Decider
  time : Time
  row : Proposal

structure World where
  now : Time
  consents : ConsentId → Option Consent
  proposals : ProposalId → Option Proposal
  /-- Rows of transactions that have not committed. -/
  creating : ProposalId → Option Proposal
  /-- The ids there ever were. -/
  ids : List ProposalId
  flights : List Flight
  madeOn : ProposalId → Option ConsentId
  claims : List Claim
  applications : List ProposalId
  outlived : List ProposalId

def World.empty (now : Time) : World where
  now := now
  consents _ := none
  proposals _ := none
  creating _ := none
  ids := []
  flights := []
  madeOn _ := none
  claims := []
  applications := []
  outlived := []

def init (s : World) : Prop := ∃ now, s = World.empty now

/-- Which tools are offered, by name and module. -/
structure Config where
  offered : String → Option String → Bool

inductive Action where
  | tick
  /-- The connection is approved, or approved again. -/
  | record (id : ConsentId)
  | beginCreate (p : ProposalId) (id : ConsentId) (person : PersonId) (tool : String)
      (module : Option String) (input key : String)
  | commitCreate (p : ProposalId)
  | rollbackCreate (p : ProposalId)
  | claim (p : ProposalId) (decider : Decider)
  | apply (p : ProposalId) (taken : Taken)
  /-- The tool is no longer offered. -/
  | withdraw (p : ProposalId) (taken : Taken)
  | settle (p : ProposalId) (outcome : Option (List UInt16))
  | cancel (p : ProposalId) (decider : Decider)
  | expireProposals (ps : List ProposalId)
  | revoke (id : ConsentId)
  | prune (days : Nat) (ps : List ProposalId)
  | drop (g : Flight)

-- ========================================================== small writes

def World.waitingOn (s : World) (id : ConsentId) : Nat :=
  (s.ids.filter fun p =>
    (s.proposals p).any fun row => row.consentId = id && row.waiting s.now).length

/-- `EXISTS (SELECT 1 FROM oauth_consents … AND revoked_at IS NULL)`. -/
def World.stands (s : World) (id : ConsentId) : Bool :=
  (s.consents id).any (·.revokedAt = none)

def World.setRow (s : World) (p : ProposalId) (row : Proposal) : World :=
  { s with proposals := Function.update s.proposals p (some row) }

/-- A statement over every row it selects. -/
def World.alter (s : World) (sel : ProposalId → Proposal → Bool)
    (write : Proposal → Proposal) : World :=
  { s with proposals := fun p =>
      (s.proposals p).map fun row => if sel p row then write row else row }

def World.replace (s : World) (g : Flight) (new : List Flight) : World :=
  { s with flights := new ++ s.flights.erase g }

/-- The proposals of a connection, with those still being made. -/
def World.made (s : World) (id : ConsentId) : List ProposalId :=
  s.ids.filter fun p => s.madeOn p = some id

-- ================================================================== step

def step (cfg : Config) (s : World) : Action → Option World
  | .tick => some { s with now := s.now + 1 }
  | .record id =>
      some { s with
        consents := Function.update s.consents id
          (some { actsAs := ((s.consents id).map (·.actsAs)).getD .user }) }
  -- --------------------------------------------------------------- create
  | .beginCreate p id person tool module input key =>
      if p ∉ s.ids ∧ (s.consents id).isSome ∧ s.waitingOn id < OPEN_PER_CONNECTION then
        some { s with
          creating := Function.update s.creating p (some
            { consentId := id, proposedBy := person, tool, module, input
              panelKeyHash := keyHash key, expiresAt := s.now + PROPOSAL_TTL })
          ids := p :: s.ids
          madeOn := Function.update s.madeOn p (some id) }
      else none
  | .commitCreate p =>
      match s.creating p with
      | none => none
      | some row =>
          some { s.setRow p row with creating := Function.update s.creating p none }
  | .rollbackCreate p => some { s with creating := Function.update s.creating p none }
  -- ---------------------------------------------------------------- apply
  | .claim p decider =>
      match s.proposals p with
      | none => none
      | some row =>
          if row.waiting s.now = true ∧ permits row decider = true
              ∧ s.stands row.consentId = true then
            some { s.setRow p (claimed s.now decider row) with
              flights := .claimed p row.taken :: s.flights
              claims := ⟨p, decider, s.now, row⟩ :: s.claims }
          else none
  | .apply p taken =>
      if .claimed p taken ∈ s.flights ∧ cfg.offered taken.tool taken.module = true then
        some { s.replace (.claimed p taken) [.running p] with
          applications := p :: s.applications }
      else none
  | .withdraw p taken =>
      if .claimed p taken ∈ s.flights ∧ cfg.offered taken.tool taken.module = false then
        some ((s.replace (.claimed p taken) [.running p]).alter (fun p' _ => p' = p)
          (settled (some (notOffered taken.tool))))
      else none
  | .settle p outcome =>
      if .running p ∈ s.flights then
        some (s.alter (fun p' _ => p' = p) (settled outcome))
      else none
  -- --------------------------------------------------------------- decline
  | .cancel p decider =>
      match s.proposals p with
      | none => none
      | some row =>
          if row.waiting s.now = true ∧ permits row decider = true then
            some (s.setRow p (cancelled s.now decider row))
          else none
  | .expireProposals ps =>
      some (s.alter (fun p row => p ∈ ps && row.due s.now) (ended s.now))
  | .revoke id =>
      match s.consents id with
      | none => none
      | some c =>
          if c.revokedAt = none then
            some { s.alter (fun _ row => row.consentId = id) (endedByRevocation s.now) with
              consents := Function.update s.consents id
                (some { c with revokedAt := some s.now })
              outlived := s.made id ++ s.outlived }
          else none
  | .prune days ps =>
      if 30 ≤ days then
        some { s with proposals := fun p =>
          if p ∈ ps ∧ (s.proposals p).any (fun row => row.status.terminal
              && row.decidedAt.any (· + days * 86400 < s.now)) = true then none
          else s.proposals p }
      else none
  | .drop g => if g ∈ s.flights then some (s.replace g []) else none

-- ================================================== what one step can do

/-- Every step, with what it found. -/
inductive Stepped (cfg : Config) (s : World) : Action → World → Prop where
  | tick : Stepped cfg s .tick { s with now := s.now + 1 }
  | record (id : ConsentId) (c : Consent) :
      Stepped cfg s (.record id)
        { s with consents := Function.update s.consents id (some c) }
  | beginCreate (p : ProposalId) (id : ConsentId) (person : PersonId) (tool : String)
      (module : Option String) (input key : String) (row : Proposal) (hid : p ∉ s.ids)
      (hconsent : row.consentId = id) (hopen : row.status = .open) :
      Stepped cfg s (.beginCreate p id person tool module input key)
        { s with
          creating := Function.update s.creating p (some row)
          ids := p :: s.ids
          madeOn := Function.update s.madeOn p (some id) }
  | commitCreate (p : ProposalId) (row : Proposal) (hrow : s.creating p = some row) :
      Stepped cfg s (.commitCreate p)
        { s.setRow p row with creating := Function.update s.creating p none }
  | rollbackCreate (p : ProposalId) :
      Stepped cfg s (.rollbackCreate p)
        { s with creating := Function.update s.creating p none }
  | claim (p : ProposalId) (decider : Decider) (row : Proposal)
      (hrow : s.proposals p = some row) (hwaiting : row.waiting s.now = true)
      (hpermits : permits row decider = true) :
      Stepped cfg s (.claim p decider)
        { s.setRow p (claimed s.now decider row) with
          flights := .claimed p row.taken :: s.flights
          claims := ⟨p, decider, s.now, row⟩ :: s.claims }
  | apply (p : ProposalId) (taken : Taken) (hflight : .claimed p taken ∈ s.flights) :
      Stepped cfg s (.apply p taken)
        { s.replace (.claimed p taken) [.running p] with
          applications := p :: s.applications }
  | withdraw (p : ProposalId) (taken : Taken) (hflight : .claimed p taken ∈ s.flights) :
      Stepped cfg s (.withdraw p taken)
        ((s.replace (.claimed p taken) [.running p]).alter (fun p' _ => p' = p)
          (settled (some (notOffered taken.tool))))
  | settle (p : ProposalId) (outcome : Option (List UInt16)) :
      Stepped cfg s (.settle p outcome)
        (s.alter (fun p' _ => p' = p) (settled outcome))
  | cancel (p : ProposalId) (decider : Decider) (row : Proposal)
      (hrow : s.proposals p = some row) (hwaiting : row.waiting s.now = true) :
      Stepped cfg s (.cancel p decider) (s.setRow p (cancelled s.now decider row))
  | expireProposals (ps : List ProposalId) :
      Stepped cfg s (.expireProposals ps)
        (s.alter (fun p row => p ∈ ps && row.due s.now) (ended s.now))
  | revoke (id : ConsentId) (c : Consent) :
      Stepped cfg s (.revoke id)
        { s.alter (fun _ row => row.consentId = id) (endedByRevocation s.now) with
          consents := Function.update s.consents id (some c)
          outlived := s.made id ++ s.outlived }
  | prune (days : Nat) (ps : List ProposalId) (gone : ProposalId → Bool) :
      Stepped cfg s (.prune days ps)
        { s with proposals := fun p => if gone p then none else s.proposals p }
  | drop (g : Flight) (hflight : g ∈ s.flights) : Stepped cfg s (.drop g) (s.replace g [])

theorem step_inv {cfg : Config} {s s' : World} {a : Action} (h : step cfg s a = some s') :
    Stepped cfg s a s' := by
  cases a with
  | tick =>
      cases h
      exact .tick
  | record id =>
      cases h
      exact .record id _
  | beginCreate p id person tool module input key =>
      simp only [step, Option.ite_none_right_eq_some] at h
      cases h.2
      exact .beginCreate p id person tool module input key _ h.1.1 rfl rfl
  | commitCreate p =>
      simp only [step] at h
      split at h
      next => cases h
      next row hrow =>
        cases h
        exact .commitCreate p row hrow
  | rollbackCreate p =>
      cases h
      exact .rollbackCreate p
  | claim p decider =>
      simp only [step] at h
      split at h
      next => cases h
      next row hrow =>
        rw [Option.ite_none_right_eq_some] at h
        obtain ⟨⟨hwaiting, hpermits, -⟩, h⟩ := h
        cases h
        exact .claim p decider row hrow hwaiting hpermits
  | apply p taken =>
      simp only [step, Option.ite_none_right_eq_some] at h
      cases h.2
      exact .apply p taken h.1.1
  | withdraw p taken =>
      simp only [step, Option.ite_none_right_eq_some] at h
      cases h.2
      exact .withdraw p taken h.1.1
  | settle p outcome =>
      simp only [step, Option.ite_none_right_eq_some] at h
      cases h.2
      exact .settle p outcome
  | cancel p decider =>
      simp only [step] at h
      split at h
      next => cases h
      next row hrow =>
        rw [Option.ite_none_right_eq_some] at h
        cases h.2
        exact .cancel p decider row hrow h.1.1
  | expireProposals ps =>
      cases h
      exact .expireProposals ps
  | revoke id =>
      simp only [step] at h
      split at h
      next => cases h
      next c hc =>
        rw [Option.ite_none_right_eq_some] at h
        cases h.2
        exact .revoke id _
  | prune days ps =>
      simp only [step, Option.ite_none_right_eq_some] at h
      obtain ⟨-, h⟩ := h
      cases h
      have hsame : (fun p => if p ∈ ps ∧ (s.proposals p).any (fun row => row.status.terminal
            && row.decidedAt.any (· + days * 86400 < s.now)) = true then none
          else s.proposals p)
          = fun p => if decide (p ∈ ps ∧ (s.proposals p).any (fun row => row.status.terminal
            && row.decidedAt.any (· + days * 86400 < s.now)) = true) then none
          else s.proposals p := by
        funext p
        simp only [decide_eq_true_eq]
      rw [hsame]
      exact .prune days ps _
  | drop g =>
      simp only [step, Option.ite_none_right_eq_some] at h
      cases h.2
      exact .drop g h.1

end Nacre.Proposals
