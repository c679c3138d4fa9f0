/-
The names of the collections, across organizations: provisioning
(core/provision.ts), the copy of a reindex (worker/src/main.ts,
worker/src/adapters.ts, core/vector/search.ts), the reclaiming of what a copy
left behind (worker/src/retire.ts), and the rollback an operator runs by hand
(docs/operations/rollback-layer-reindex.md, D2).

A name is a string that is put together: `collectionName` of a slug, and for
a copy the name copied from with the new vector's after it. Nothing keeps two
organizations from deriving one name; what keeps them apart is a question
asked before acting on one (`assertCollectionUnclaimed`), and a unique index
on `organizations.vector_collection`.

# What is a step

A request or a pass is cut wherever another party can come in between: the
two statements of `assertCollectionUnclaimed`, each call to Qdrant, each
transaction. What is in flight is a `Flight`; it may be given up at any
moment, which is a crash, a refusal or an error. A worker whose claim moved
goes on until it next looks, so a copy is fenced at its end only.

`stamp` is the `now()` of a transaction: any time up to the present.

# What is not here

Points, and everything a reindex does besides its copy. `past` and `left` are
ghosts: the names an organization has pointed at, and when a pointer last
moved off a name.
-/
import Nacre.Lib.Transition
import Nacre.Store.Rows
import Nacre.Vector.Query

namespace Nacre.Collections

open Nacre.Store (Time)

-- =================================================================== names

/-- `/^[a-z0-9][a-z0-9-]{0,38}[a-z0-9]$/`. -/
def slugAccepted (slug : String) : Bool :=
  let inner := fun c : Char => c.isLower || c.isDigit
  2 ≤ slug.toList.length && slug.toList.length ≤ 40
    && slug.toList.head?.all inner && slug.toList.getLast?.all inner
    && slug.toList.all fun c => inner c || c == '-'

/-- The initial name of an organization's collection. -/
def collectionName (orgSlug : String) : String :=
  "org_" ++ String.ofList (orgSlug.toList.map fun c => if c == '-' then '_' else c)

/-- The target of a copy. -/
def copyTarget (collection shadowVector : String) : String := collection ++ "_" ++ shadowVector

-- =================================================================== state

abbrev OrgId := Nat
abbrev LayerId := Nat

structure Org where
  id : OrgId
  slug : String
  collection : String
  deriving DecidableEq

/-- A row of `retired_collections`. -/
structure Retired where
  org : OrgId
  name : String
  retiredAt : Time
  deriving DecidableEq

/-- A layer in the copy phase of its reindex, with the claim on the copy. -/
structure Copying where
  org : OrgId
  layer : LayerId
  shadowVector : String
  claim : Option Nat := none
  deriving DecidableEq

/-- How far a caller of `assertCollectionUnclaimed` is. -/
inductive Asked where
  | no
  /-- No other organization has the name. -/
  | owners
  /-- And none has retired it. -/
  | retirees
  deriving DecidableEq

inductive Flight where
  /-- The row is committed; `absent` once Qdrant was found without the name. -/
  | provision (org : OrgId) (name : String) (asked : Asked) (absent : Bool)
  | copy (org : OrgId) (layer : LayerId) (claim : Nat) (target : String) (asked : Asked)
      (cleared created : Bool)
  /-- A row `dueCollections` returned, and whether the name was found in use
  by nobody. -/
  | retire (org : OrgId) (name : String) (unused : Bool)
  /-- A row that is to go. -/
  | forget (org : OrgId) (name : String)
  deriving DecidableEq

structure World where
  now : Time
  orgs : List Org
  retired : List Retired
  copying : List Copying
  /-- The collections Qdrant has. -/
  qdrant : List String
  flights : List Flight
  tokens : Nat
  past : List (OrgId × String)
  left : String → Option Time

/-- An installation before its first organization. -/
def World.new (now : Time) : World :=
  ⟨now, [], [], [], [], [], 0, [], fun _ => none⟩

def init (s : World) : Prop := ∃ now, s = World.new now

structure Config where
  /-- `NACRE_COLLECTION_RETENTION_DAYS`. -/
  retention : Nat

-- ================================================================= actions

inductive Action where
  | wait (d : Nat)
  /-- `provisionInPostgres`, with the id a new row would get. -/
  | provision (slug : String) (id : OrgId)
  /-- A reindex that needs a slot its collection has not. -/
  | reindex (org : OrgId) (layer : LayerId) (model : String) (dimensions : Nat)
  /-- `claimCopyable` takes this layer. -/
  | claimCopy (org : OrgId) (layer : LayerId)
  /-- The first statement of `assertCollectionUnclaimed`. -/
  | askOwners (f : Flight)
  | askRetirees (f : Flight)
  /-- `ensureCollection` lists the collections, and adopts the one it finds. -/
  | look (f : Flight)
  | create (f : Flight)
  /-- `copyCollection` deletes its target, creates it, and fills it. -/
  | clear (f : Flight)
  | recreate (f : Flight)
  | upsert (f : Flight)
  | finishCopy (f : Flight) (stamp : Time)
  | failReindex (f : Flight)
  | due (row : Retired)
  | isLive (f : Flight)
  | drop (f : Flight)
  | forget (f : Flight)
  | crash (f : Flight)
  /-- An operator moves the pointer back, and clears a layer's reindex. -/
  | rollback (org : OrgId) (name : String) (layer : LayerId) (stamp : Time)
  deriving DecidableEq

def World.swap (s : World) (f : Flight) (g : List Flight) : World :=
  { s with flights := g ++ s.flights.erase f }

/-- Another organization has the name. -/
def World.owned (s : World) (org : OrgId) (name : String) : Bool :=
  s.orgs.any fun g => g.id != org && g.collection == name

/-- Another organization has retired the name. -/
def World.retiredBy (s : World) (org : OrgId) (name : String) : Bool :=
  s.retired.any fun r => r.org != org && r.name == name

/-- `UPDATE organizations SET vector_collection`; the index refuses a name
another row has. -/
def World.point (s : World) (org : OrgId) (name : String) (stamp : Time) : Option World :=
  match s.orgs.find? fun g => g.id == org with
  | none => none
  | some g =>
      if s.owned org name then none
      else some { s with
        orgs := s.orgs.map fun g => if g.id = org then { g with collection := name } else g
        past := (org, g.collection) :: s.past
        left := if g.collection = name then s.left
          else Function.update s.left g.collection (some stamp) }

/-- `ON CONFLICT (org_id, name) DO NOTHING`. -/
def retire (retired : List Retired) (row : Retired) : List Retired :=
  if retired.any fun r => r.org == row.org && r.name == row.name then retired
  else row :: retired

-- ==================================================================== step

/-- Organizations and layers, until something is in flight. -/
def provision (s : World) (slug : String) (id : OrgId) : Option World :=
  if !slugAccepted slug then none
  else
    let name := collectionName slug
    match s.orgs.find? fun g => g.slug == slug with
    | some g => some { s with flights := .provision g.id name .no false :: s.flights }
    | none =>
        if s.orgs.any fun g => g.id == id then none
        else if s.orgs.any fun g => g.collection == name then none
        else some { s with
          orgs := ⟨id, slug, name⟩ :: s.orgs
          flights := .provision id name .no false :: s.flights }

def claimCopy (s : World) (org : OrgId) (layer : LayerId) : Option World :=
  match s.orgs.find? fun g => g.id == org,
      s.copying.find? fun c => c.org == org && c.layer == layer with
  | some g, some c =>
      some { s with
        copying := s.copying.map fun c' =>
          if c'.org = org ∧ c'.layer = layer then { c' with claim := some s.tokens } else c'
        flights := .copy org layer s.tokens (copyTarget g.collection c.shadowVector) .no false false
          :: s.flights
        tokens := s.tokens + 1 }
  | _, _ => none

/-- The two questions of `assertCollectionUnclaimed`; a refusal ends the
caller. -/
def askOwners (s : World) : Flight → Option World
  | f@(.provision org name .no false) =>
      some (if s.owned org name then s.swap f [] else s.swap f [.provision org name .owners false])
  | f@(.copy org layer claim target .no false false) =>
      some (if s.owned org target then s.swap f []
        else s.swap f [.copy org layer claim target .owners false false])
  | _ => none

def askRetirees (s : World) : Flight → Option World
  | f@(.provision org name .owners false) =>
      some (if s.retiredBy org name then s.swap f []
        else s.swap f [.provision org name .retirees false])
  | f@(.copy org layer claim target .owners false false) =>
      some (if s.retiredBy org target then s.swap f []
        else s.swap f [.copy org layer claim target .retirees false false])
  | _ => none

/-- `ensureCollection`. -/
def look (s : World) : Flight → Option World
  | f@(.provision org name .retirees false) =>
      some (if s.qdrant.contains name then s.swap f []
        else s.swap f [.provision org name .retirees true])
  | _ => none

def create (s : World) : Flight → Option World
  | f@(.provision _ name .retirees true) =>
      some (if s.qdrant.contains name then s.swap f []
        else { s.swap f [] with qdrant := name :: s.qdrant })
  | _ => none

/-- `copyCollection`. -/
def clear (s : World) : Flight → Option World
  | f@(.copy org layer claim target .retirees false false) =>
      some { s.swap f [.copy org layer claim target .retirees true false] with
        qdrant := s.qdrant.filter fun n => n != target }
  | _ => none

def recreate (s : World) : Flight → Option World
  | f@(.copy org layer claim target .retirees true false) =>
      some (if s.qdrant.contains target then s.swap f []
        else { s.swap f [.copy org layer claim target .retirees true true] with
          qdrant := target :: s.qdrant })
  | _ => none

/-- A page written; the world does not hold the points. -/
def upsert (s : World) : Flight → Option World
  | f@(.copy _ _ _ target .retirees true true) =>
      some (if s.qdrant.contains target then s else s.swap f [])
  | _ => none

/-- The fence, the pointer, the retired row and the phases, in one
transaction; an error of the index rolls all of it back. -/
def finishCopy (s : World) (stamp : Time) : Flight → Option World
  | f@(.copy org layer claim target .retirees true true) =>
      if s.now < stamp then none
      else if s.copying.any fun c => c.org == org && c.layer == layer && c.claim == some claim then
        match s.orgs.find? fun g => g.id == org with
        | none => none
        | some g =>
            match s.point org target stamp with
            | none => some (s.swap f [])
            | some s' =>
                some { s'.swap f [] with
                  retired := if g.collection = target then s.retired
                    else retire s.retired ⟨org, g.collection, stamp⟩
                  copying := s.copying.filter fun c => c.org != org }
      else some (s.swap f [])
  | _ => none

/-- A worker that still holds its claim marks the reindex failed. -/
def failReindex (s : World) : Flight → Option World
  | f@(.copy org layer claim _ _ _ _) =>
      some { s.swap f [] with
        copying := s.copying.filter fun c =>
          !(c.org == org && c.layer == layer && c.claim == some claim) }
  | _ => none

/-- `retireOnce`, a row at a time. -/
def isLive (s : World) : Flight → Option World
  | f@(.retire org name false) =>
      some (if s.orgs.any fun g => g.collection == name then s.swap f [.forget org name]
        else s.swap f [.retire org name true])
  | _ => none

def drop (s : World) : Flight → Option World
  | f@(.retire org name true) =>
      some { s.swap f [.forget org name] with qdrant := s.qdrant.filter fun n => n != name }
  | _ => none

def forget (s : World) : Flight → Option World
  | f@(.forget org name) =>
      some { s.swap f [] with
        retired := s.retired.filter fun r => !(r.org == org && r.name == name) }
  | _ => none

/-- What moves a flight on. -/
def Action.flight : Action → Option Flight
  | .askOwners f | .askRetirees f | .look f | .create f | .clear f | .recreate f | .upsert f => some f
  | .finishCopy f _ | .failReindex f | .isLive f | .drop f | .forget f | .crash f => some f
  | _ => none

def step (cfg : Config) (s : World) (a : Action) : Option World :=
  if a.flight.any fun f => !s.flights.contains f then none
  else
    match a with
    | .wait d => some { s with now := s.now + d }
    | .provision slug id => provision s slug id
    | .reindex org layer model dimensions =>
        if s.copying.any fun c => c.org == org && c.layer == layer then none
        else some { s with
          copying := ⟨org, layer, Vector.vectorName model dimensions, none⟩ :: s.copying }
    | .claimCopy org layer => claimCopy s org layer
    | .askOwners f => askOwners s f
    | .askRetirees f => askRetirees s f
    | .look f => look s f
    | .create f => create s f
    | .clear f => clear s f
    | .recreate f => recreate s f
    | .upsert f => upsert s f
    | .finishCopy f stamp => finishCopy s stamp f
    | .failReindex f => failReindex s f
    | .due row =>
        if s.retired.contains row && decide (row.retiredAt + cfg.retention < s.now) then
          some { s with flights := .retire row.org row.name false :: s.flights }
        else none
    | .isLive f => isLive s f
    | .drop f => drop s f
    | .forget f => forget s f
    | .crash f => some (s.swap f [])
    | .rollback org name layer stamp =>
        if s.now < stamp then none
        else if s.past.contains (org, name) && s.qdrant.contains name then
          (s.point org name stamp).map fun s' =>
            { s' with copying := s'.copying.filter fun c => !(c.org == org && c.layer == layer) }
        else none

end Nacre.Collections
