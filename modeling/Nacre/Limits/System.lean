/-
The rate limiter: `check`, `release` and `admitRequest`
(api/src/limits.ts), over the keys they keep in Redis.

# What is a step

A process reads the clock, or Redis executes one command of it: `check`
reads the clock and sends `INCR`, `PEXPIRE` and `GET` of the window before
in one write, and on a refusal `DECR` and the note that it was refused;
`release` reads the clock again and sends `DECR`. The commands of one
write are executed in order, and those of others in between. `admitRequest`
is a list of checks, and after a refusal the releases of those that
passed; a check on its own is a list of one. The clock goes forward by any
amount.

Redis answers. The estimate is exact: what the code computes in doubles is
compared here in ℚ. What a decision tells the client besides (what
remains, when to come back) is in `Limits/Reset`.

# Ghosts

`held`: what `INCR` answered, by key, for every increment that its own
process has not given back. `allowed`: those of them that were allowed and
not released. `released`: what a release was for, and the key it took it
from.
-/
import Mathlib.Algebra.Order.Ring.Rat
import Mathlib.Logic.Function.Basic
import Nacre.Lib.Transition

namespace Nacre.Limits

-- ================================================================ policies

inductive Resource where
  | requests
  | orgRequests
  | search
  | ingest
  | login
  | loginSource
  | clientRegistration
  deriving DecidableEq

/-- What is counted against. -/
inductive Subject where
  | principal (orgId type id : String)
  | organization (orgId : String)
  /-- An address, or a client. -/
  | source (text : String)
  deriving DecidableEq

def Subject.orgId : Subject → Option String
  | .principal orgId _ _ => some orgId
  | .organization orgId => some orgId
  | .source _ => none

structure LimitPolicy where
  limit : ℚ
  windowSeconds : Nat
  nonneg : 0 ≤ limit
  positive : 0 < windowSeconds

/-- The installation's policies, and the limits a module holds an
organization to. -/
structure Config where
  policies : Resource → LimitPolicy
  organizationLimits : String → Resource → Option {limit : ℚ // 0 ≤ limit}

def isOrganizationLimit : Resource → Bool
  | .requests | .orgRequests | .search | .ingest => true
  | _ => false

/-- The limit a subject is held to. -/
def Config.limitOf (cfg : Config) (resource : Resource) (subject : Subject) :
    {limit : ℚ // 0 ≤ limit} :=
  let base := cfg.policies resource
  ((if isOrganizationLimit resource then
      subject.orgId.bind (cfg.organizationLimits · resource)
    else none).getD ⟨base.limit, base.nonneg⟩)

/-- A limit of zero is not counted. -/
def Config.counts (cfg : Config) (resource : Resource) (subject : Subject) : Bool :=
  0 < (cfg.limitOf resource subject).1

def Config.windowMs (cfg : Config) (resource : Resource) : Nat :=
  (cfg.policies resource).windowSeconds * 1000

-- ================================================================= state

/-- A key in Redis: the window is in its name. -/
structure Key where
  resource : Resource
  subject : Subject
  windowStart : Int
  deriving DecidableEq

/-- What is under it, until when. -/
structure Entry where
  count : Int
  expiresAt : Option Nat
  deriving DecidableEq

structure Target where
  resource : Resource
  subject : Subject
  deriving DecidableEq

/-- What a process does next. -/
inductive Stage where
  /-- `check` reads the clock, if there is one left. -/
  | idle
  | incr (k : Key) (elapsed : Nat)
  | pexpire (k : Key) (elapsed : Nat) (count : Int)
  | get (k : Key) (elapsed : Nat) (count : Int)
  /-- Refused. -/
  | decr (k : Key) (count : Int)
  | note (k : Key)
  /-- `release` reads the clock, if there is one left. -/
  | releasing
  | undo (k : Key)
  deriving DecidableEq

structure Flight where
  stage : Stage
  todo : List Target
  /-- What has passed, with the key it was counted under and the count. -/
  passed : List (Key × Int)
  deriving DecidableEq

structure World where
  now : Nat
  keys : Key → Option Entry
  noted : Key → Option Nat
  flights : List Flight
  held : List (Key × Int)
  allowed : List (Key × Int)
  released : List ((Key × Int) × Key)

def World.empty (now : Nat) : World where
  now := now
  keys _ := none
  noted _ := none
  flights := []
  held := []
  allowed := []
  released := []

def init (s : World) : Prop := ∃ now, s = World.empty now

inductive Action where
  | tick (ms : Nat)
  | check (resource : Resource) (subject : Subject)
  | admitRequest (orgId type id : String) (operation : Option Resource)
  | run (g : Flight)

-- ================================================================ commands

/-- The key of the window the clock is in. -/
def keyAt (cfg : Config) (now : Nat) (t : Target) : Key where
  resource := t.resource
  subject := t.subject
  windowStart := (now / cfg.windowMs t.resource * cfg.windowMs t.resource : Nat)

def previousKey (cfg : Config) (k : Key) : Key :=
  { k with windowStart := k.windowStart - cfg.windowMs k.resource }

/-- What a command finds under a key. -/
def World.get (s : World) (k : Key) : Option Entry :=
  (s.keys k).filter fun e => e.expiresAt.all (s.now < ·)

def World.countOf (s : World) (k : Key) : Int := ((s.get k).map (·.count)).getD 0

/-- `INCR` and `DECR`: a key that is not there is 0, and has no expiry. -/
def World.add (s : World) (k : Key) (n : Int) : World :=
  { s with
    keys := Function.update s.keys k
      (some ⟨s.countOf k + n, (s.get k).bind (·.expiresAt)⟩) }

/-- `PEXPIRE`, of a key that is there. -/
def World.pexpire (s : World) (k : Key) (ms : Nat) : World :=
  match s.get k with
  | none => s
  | some e =>
      { s with keys := Function.update s.keys k (some ⟨e.count, some (s.now + ms)⟩) }

/-- `SET … NX PX`. -/
def World.note (s : World) (k : Key) (ms : Nat) : World :=
  if (s.noted k).any (s.now < ·) then s
  else { s with noted := Function.update s.noted k (some (s.now + ms)) }

def World.replace (s : World) (g : Flight) (new : List Flight) : World :=
  { s with flights := new ++ s.flights.erase g }

-- ================================================================== step

/-- The weighted sum of the two windows. -/
def estimate (cfg : Config) (resource : Resource) (previous : Int) (elapsed : Nat)
    (count : Int) : ℚ :=
  previous * (1 - elapsed / cfg.windowMs resource) + count

/-- What a request is counted against, in order. -/
def steps (cfg : Config) (orgId type id : String) (operation : Option Resource) : List Target :=
  let all : List Target :=
    [⟨.requests, .principal orgId type id⟩, ⟨.orgRequests, .organization orgId⟩]
      ++ operation.toList.map fun r => ⟨r, .organization orgId⟩
  all.filter fun t => cfg.counts t.resource t.subject

/-- How long a window's key is kept. -/
def ttl (cfg : Config) (resource : Resource) : Nat := 2 * cfg.windowMs resource + 1000

/-- One step of a process. -/
def runFlight (cfg : Config) (s : World) (g : Flight) : World :=
  match g.stage with
  | .idle =>
      match g.todo with
      | [] => s.replace g []
      | t :: _ =>
          let k := keyAt cfg s.now t
          s.replace g [{ g with stage := .incr k (s.now % cfg.windowMs t.resource) }]
  | .incr k elapsed =>
      let s' := s.add k 1
      { s'.replace g [{ g with stage := .pexpire k elapsed (s.countOf k + 1) }] with
        held := (k, s.countOf k + 1) :: s.held }
  | .pexpire k elapsed count =>
      (s.pexpire k (ttl cfg k.resource)).replace g [{ g with stage := .get k elapsed count }]
  | .get k elapsed count =>
      let previous := s.countOf (previousKey cfg k)
      if estimate cfg k.resource previous elapsed count
          ≤ (cfg.limitOf k.resource k.subject).1 then
        { s.replace g [⟨.idle, g.todo.tail, g.passed ++ [(k, count)]⟩] with
          allowed := (k, count) :: s.allowed }
      else s.replace g [{ g with stage := .decr k count }]
  | .decr k count =>
      { (s.add k (-1)).replace g [{ g with stage := .note k }] with
        held := s.held.erase (k, count) }
  | .note k =>
      (s.note k (cfg.windowMs k.resource + 1000)).replace g [{ g with stage := .releasing }]
  | .releasing =>
      match g.passed with
      | [] => s.replace g []
      | u :: _ =>
          s.replace g [{ g with stage := .undo (keyAt cfg s.now ⟨u.1.resource, u.1.subject⟩) }]
  | .undo k =>
      match g.passed with
      | [] => s.replace g []
      | u :: rest =>
          { (s.add k (-1)).replace g [⟨.releasing, g.todo, rest⟩] with
            held := s.held.erase u
            allowed := s.allowed.erase u
            released := (u, k) :: s.released }

def step (cfg : Config) (s : World) : Action → Option World
  | .tick ms => some { s with now := s.now + ms }
  | .check resource subject =>
      some { s with flights := ⟨.idle, [⟨resource, subject⟩], []⟩ :: s.flights }
  | .admitRequest orgId type id operation =>
      some { s with flights := ⟨.idle, steps cfg orgId type id operation, []⟩ :: s.flights }
  | .run g => if g ∈ s.flights then some (runFlight cfg s g) else none

end Nacre.Limits
