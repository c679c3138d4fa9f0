/-
The standing connections as the database keeps them
(api/src/oauth-store.ts): `PostgresOAuthConsents.record` and `revoke`,
`PostgresDelegations.resolve`, and the delegated half of `authenticate`
(api/src/auth.ts).

# What is a step

One statement of one transaction. What a transaction wrote is its own until
it commits; `resolve` is one statement and reads what is committed. `record`
is three statements and a commit: the upsert, the deletion of the
connection's layers, the insertion of the new ones. Any transaction may be
rolled back instead.

The upsert waits for whoever wrote the same key: two insertions meet in the
unique index, an insertion and an update at the row. `locked` is who holds
a key, from its first write to its end; a revocation holds the key of its
row. Each statement has a snapshot of its own: the deletion sees the rows
committed when it runs, not those committed when its transaction began.

`last_refreshed_at`, and the tokens a revocation deletes, are elsewhere.

# Constraints

A row's key is unique, for a person's connection and an agent's alike. A
layer of a connection is there once, is a layer of the organization, and has
a ceiling that is not empty; the id of a connection is never given twice.
Layers are renamed and deleted by an update: their rows stay.

`approved` is a ghost: the approvals that committed, the last one first.
-/
import Mathlib.Logic.Function.Basic
import Nacre.Delegations.Consent
import Nacre.Lib.Transition

namespace Nacre.Delegations

open Nacre.Authz Nacre.Api

-- ============================================================== the rows

/-- What a connection is one of: an application and the agent or the person
it acts as. -/
inductive ConsentKey where
  | agent (orgId clientId serviceAccountId : String)
  | person (orgId clientId approvedBy : String) (surface : Surface)
  deriving DecidableEq

/-- A row of `oauth_consents`. -/
structure ConsentRow where
  orgId : String
  clientId : String
  subject : ConsentSubject
  approvedBy : String
  permissions : Option (List CeilingValue)
  surface : Surface
  revoked : Bool := false
  deriving DecidableEq

/-- The key of the unique index the row is in. -/
def ConsentRow.key (row : ConsentRow) : ConsentKey :=
  match row.subject with
  | .serviceAccount account => .agent row.orgId row.clientId account
  | .user _ => .person row.orgId row.clientId row.approvedBy row.surface

/-- A row of `oauth_consent_layers`. -/
structure ConsentLayerRow where
  orgId : String
  consentId : String
  layerId : String
  permissions : Option (List CeilingValue)
  deriving DecidableEq

/-- A row of `users`. -/
structure UserRow where
  role : OrgRole
  disabled : Bool
  deriving DecidableEq

/-- A row of `layers`. -/
structure LayerName where
  slug : String
  deleted : Bool := false
  deriving DecidableEq

-- ========================================================== transactions

/-- An approval the handler accepted. -/
structure Approval where
  found : Found
  auth : AuthContext
  body : Json
  call : RecordCall
  accepted : consent found auth body = .record call

/-- The connection it is an approval of. -/
def RecordCall.key (call : RecordCall) : ConsentKey :=
  match call.subject with
  | .serviceAccount account => .agent call.orgId call.clientId account
  | .user userId => .person call.orgId call.clientId userId call.surface

/-- A transaction that has begun, with what it wrote. -/
inductive Tx where
  | begun (a : Approval)
  | upserted (a : Approval) (id : String) (row : ConsentRow)
  | cleared (a : Approval) (id : String) (row : ConsentRow) (deleted : List ConsentLayerRow)
  | filled (a : Approval) (id : String) (row : ConsentRow)
      (deleted inserted : List ConsentLayerRow)
  | revoking (id : String) (row : ConsentRow)

/-- The row of `oauth_consents` it wrote. -/
def Tx.wrote : Tx → Option (String × ConsentRow)
  | .begun _ => none
  | .upserted _ id row => some (id, row)
  | .cleared _ id row _ => some (id, row)
  | .filled _ id row _ _ => some (id, row)
  | .revoking id row => some (id, row)

structure World where
  /-- By organization and id. -/
  users : String × String → Option UserRow
  layers : String × String → Option LayerName
  consents : String → Option ConsentRow
  /-- The unique index: the connection of a key. -/
  index : ConsentKey → Option String
  consentLayers : List ConsentLayerRow
  txs : Nat → Option Tx
  /-- The transaction that has written a row of this key. -/
  locked : ConsentKey → Option Nat
  /-- The ids `gen_random_uuid` has given. -/
  given : List String
  approved : List Approval

def World.empty : World where
  users _ := none
  layers _ := none
  consents _ := none
  index _ := none
  consentLayers := []
  txs _ := none
  locked _ := none
  given := []
  approved := []

def init (w : World) : Prop := w = World.empty

-- ================================================================= record

/-- `permissions === undefined || permissions.length === 0 ? null : …`. -/
def storedCeiling (permissions : Option (List CeilingValue)) : Option (List CeilingValue) :=
  match permissions with
  | none => none
  | some values => if values = [] then none else some values

/-- The row the upsert leaves, over the one of its key if there is one. -/
def upserted (call : RecordCall) (old : Option ConsentRow) : ConsentRow :=
  match call.subject with
  | .serviceAccount _ =>
      match old with
      | none =>
          { orgId := call.orgId, clientId := call.clientId, subject := call.subject,
            approvedBy := call.approver, permissions := none, surface := .default }
      | some row => { row with revoked := false, approvedBy := call.approver }
  | .user userId =>
      match old with
      | none =>
          { orgId := call.orgId, clientId := call.clientId, subject := call.subject,
            approvedBy := userId, permissions := storedCeiling call.permissions,
            surface := call.surface }
      | some row => { row with revoked := false, permissions := storedCeiling call.permissions }

/-- The layers of a connection. -/
def World.layersOf (w : World) (orgId id : String) : List ConsentLayerRow :=
  w.consentLayers.filter fun r => r.orgId = orgId ∧ r.consentId = id

/-- The row of one entry: the id is cast, the layer is one of the
organization, the ceiling is not empty. -/
def World.layerRow (w : World) (orgId id : String) (e : NarrowedLayer) : Option ConsentLayerRow :=
  match Uuid.castUuid e.id with
  | none => none
  | some layerId =>
      if w.layers (orgId, layerId) ≠ none ∧ e.permissions ≠ some [] then
        some { orgId, consentId := id, layerId, permissions := e.permissions }
      else none

/-- The primary key, over what is there once `deleted` is gone. -/
def World.unique (w : World) (deleted inserted : List ConsentLayerRow) : Prop :=
  ((w.consentLayers.filter (· ∉ deleted) ++ inserted).map fun r => (r.consentId, r.layerId)).Nodup

instance (w : World) (deleted inserted : List ConsentLayerRow) :
    Decidable (w.unique deleted inserted) :=
  inferInstanceAs (Decidable (List.Nodup _))

def World.write (w : World) (n : Nat) (tx : Tx) : World :=
  { w with txs := Function.update w.txs n (some tx) }

/-- The first write of a key: the transaction holds it. -/
def World.take (w : World) (n : Nat) (key : ConsentKey) (tx : Tx) : World :=
  { w.write n tx with locked := Function.update w.locked key (some n) }

/-- The transaction is over, and what it held is free. -/
def World.finish (w : World) (n : Nat) (tx : Tx) : World :=
  { w with
    txs := Function.update w.txs n none
    locked := match tx.wrote with
      | none => w.locked
      | some (_, row) => Function.update w.locked row.key none }

/-- A written row becomes the row. -/
def World.store (w : World) (id : String) (row : ConsentRow) : World :=
  { w with
    consents := Function.update w.consents id (some row)
    index := Function.update w.index row.key (some id) }

/-- The approval a transaction is for, once all its statements ran, with
what it wrote. -/
def Tx.done : Tx → Option (Approval × String × ConsentRow × List ConsentLayerRow ×
    List ConsentLayerRow)
  | .upserted a id row =>
      match a.call.subject with
      | .serviceAccount _ => some (a, id, row, [], [])
      | .user _ => none
  | .cleared a id row deleted =>
      if a.call.layers = [] then some (a, id, row, deleted, []) else none
  | .filled a id row deleted inserted => some (a, id, row, deleted, inserted)
  | _ => none

def World.approve (w : World) (n : Nat) (tx : Tx) (a : Approval) (id : String) (row : ConsentRow)
    (deleted inserted : List ConsentLayerRow) : World :=
  { (w.store id row).finish n tx with
    consentLayers := w.consentLayers.filter (· ∉ deleted) ++ inserted
    approved := a :: w.approved }

def World.commit (w : World) (n : Nat) (tx : Tx) : Option World :=
  match tx.done with
  | some (a, id, row, deleted, inserted) => some (w.approve n tx a id row deleted inserted)
  | none =>
      match tx with
      | .revoking id row => some ((w.store id row).finish n tx)
      | _ => none

-- ================================================================ resolve

/-- `narrowingOf`, of the rows of the join. -/
def narrowingOf (rows : List ConsentLayerRow) : List NarrowedLayer :=
  rows.map fun r => { id := r.layerId, permissions := r.permissions }

/-- What `resolve` returns. -/
structure Resolved where
  userId : String
  role : OrgRole
  surface : Surface
  layers : Option (List NarrowedLayer)
  permissions : Option (List CeilingValue)
  deriving DecidableEq

/-- `PostgresDelegations.resolve`: every refusal is no row. -/
def World.resolve (w : World) (orgId id : String) : Option Resolved :=
  match w.consents id with
  | none => none
  | some c =>
      match c.subject, w.users (orgId, c.approvedBy) with
      | .user _, some u =>
          if c.orgId = orgId ∧ c.revoked = false ∧ u.disabled = false ∧ u.role ≠ .platformAdmin then
            some
              { userId := c.approvedBy
                role := u.role
                surface := c.surface
                -- `JSON_AGG` over no rows is null: no narrowing.
                layers :=
                  if w.layersOf orgId id = [] then none
                  else some (narrowingOf (w.layersOf orgId id))
                permissions := c.permissions }
          else none
      | _, _ => none

/-- A token that names a connection. -/
structure DelegatedToken where
  org : String
  sub : String
  type : PrincipalType
  del : String
  deriving DecidableEq

/-- `authenticate`, from the verified claims of a delegated token. -/
def World.authenticate (w : World) (surface : Surface) (token : DelegatedToken) :
    Option AuthContext :=
  match w.resolve token.org token.del with
  | none => none
  | some d =>
      if d.userId ≠ token.sub ∨ token.type ≠ .user then none
      else if d.surface ≠ surface then none
      else if d.surface = .admin ∧ d.role ≠ .orgAdmin then none
      else
        some
          { orgId := token.org
            principal := ⟨.user, d.userId⟩
            role := d.role
            delegation := some { layers := d.layers, permissions := d.permissions } }

-- =================================================================== step

inductive Action where
  | setUser (orgId id : String) (user : UserRow)
  | createLayer (orgId id slug : String)
  | renameLayer (orgId id slug : String)
  | deleteLayer (orgId id : String)
  /-- The handler accepted: `record` begins. -/
  | begin (n : Nat) (a : Approval)
  /-- With the id a new row gets. -/
  | upsert (n : Nat) (fresh : String)
  | clear (n : Nat)
  | fill (n : Nat)
  | revoke (n : Nat) (orgId id : String)
  | commit (n : Nat)
  | rollback (n : Nat)

def World.upsert (w : World) (n : Nat) (a : Approval) (fresh : String) : Option World :=
  if w.locked a.call.key ≠ none then none
  else
    match w.index a.call.key with
    | some id =>
        let row := Delegations.upserted a.call (w.consents id)
        some (w.take n a.call.key (.upserted a id row))
    | none =>
        if fresh ∈ w.given then none
        else
          let row := Delegations.upserted a.call none
          some { w.take n a.call.key (.upserted a fresh row) with given := fresh :: w.given }

def World.revoke (w : World) (n : Nat) (orgId id : String) : Option World :=
  match w.consents id with
  | none => none
  | some c =>
      if c.orgId = orgId ∧ c.revoked = false ∧ w.locked c.key = none ∧ w.txs n = none then
        some (w.take n c.key (.revoking id { c with revoked := true }))
      else none

def World.setLayer (w : World) (orgId id : String) (f : LayerName → LayerName) : Option World :=
  match w.layers (orgId, id) with
  | none => none
  | some l => some { w with layers := Function.update w.layers (orgId, id) (some (f l)) }

def step (w : World) : Action → Option World
  | .setUser orgId id user =>
      some { w with users := Function.update w.users (orgId, id) (some user) }
  | .createLayer orgId id slug =>
      if w.layers (orgId, id) = none ∧ Uuid.castUuid id = some id then
        some { w with layers := Function.update w.layers (orgId, id) (some { slug }) }
      else none
  | .renameLayer orgId id slug => w.setLayer orgId id fun l => { l with slug }
  | .deleteLayer orgId id => w.setLayer orgId id fun l => { l with deleted := true }
  | .begin n a =>
      if w.txs n = none ∧ ∀ l ∈ a.found.readable, w.layers (a.auth.orgId, l) ≠ none then
        some (w.write n (.begun a))
      else none
  | .upsert n fresh =>
      match w.txs n with
      | some (.begun a) => w.upsert n a fresh
      | _ => none
  | .clear n =>
      match w.txs n with
      | some (.upserted a id row) =>
          match a.call.subject with
          | .user _ => some (w.write n (.cleared a id row (w.layersOf a.call.orgId id)))
          | .serviceAccount _ => none
      | _ => none
  | .fill n =>
      match w.txs n with
      | some (.cleared a id row deleted) =>
          match a.call.layers.mapM (w.layerRow a.call.orgId id) with
          | none => none
          | some inserted =>
              if a.call.layers ≠ [] ∧ w.unique deleted inserted then
                some (w.write n (.filled a id row deleted inserted))
              else none
      | _ => none
  | .revoke n orgId id => w.revoke n orgId id
  | .commit n =>
      match w.txs n with
      | some tx => w.commit n tx
      | none => none
  | .rollback n =>
      match w.txs n with
      | some tx => some (w.finish n tx)
      | none => none

-- ================================================== what one step can do

/-- Every step, with what it found. -/
inductive Stepped (w : World) : Action → World → Prop where
  | setUser (orgId id : String) (user : UserRow) :
      Stepped w (.setUser orgId id user)
        { w with users := Function.update w.users (orgId, id) (some user) }
  | createLayer (orgId id slug : String) (hcast : Uuid.castUuid id = some id) :
      Stepped w (.createLayer orgId id slug)
        { w with layers := Function.update w.layers (orgId, id) (some { slug }) }
  /-- A layer's row is another, under the same id. -/
  | relabel (act : Action) (orgId id : String) (l l' : LayerName)
      (hl : w.layers (orgId, id) = some l) :
      Stepped w act { w with layers := Function.update w.layers (orgId, id) (some l') }
  | begin (n : Nat) (a : Approval) (hn : w.txs n = none)
      (hreadable : ∀ l ∈ a.found.readable, w.layers (a.auth.orgId, l) ≠ none) :
      Stepped w (.begin n a) (w.write n (.begun a))
  | reuse (n : Nat) (fresh : String) (a : Approval) (id : String)
      (hn : w.txs n = some (.begun a)) (hfree : w.locked a.call.key = none)
      (hid : w.index a.call.key = some id) :
      Stepped w (.upsert n fresh)
        (w.take n a.call.key (.upserted a id (upserted a.call (w.consents id))))
  | insert (n : Nat) (fresh : String) (a : Approval) (hn : w.txs n = some (.begun a))
      (hfree : w.locked a.call.key = none) (hid : w.index a.call.key = none)
      (hfresh : fresh ∉ w.given) :
      Stepped w (.upsert n fresh)
        { w.take n a.call.key (.upserted a fresh (upserted a.call none)) with
          given := fresh :: w.given }
  | clear (n : Nat) (a : Approval) (id : String) (row : ConsentRow)
      (hn : w.txs n = some (.upserted a id row)) :
      Stepped w (.clear n) (w.write n (.cleared a id row (w.layersOf a.call.orgId id)))
  | fill (n : Nat) (a : Approval) (id : String) (row : ConsentRow)
      (deleted inserted : List ConsentLayerRow)
      (hn : w.txs n = some (.cleared a id row deleted))
      (hrows : a.call.layers.mapM (w.layerRow a.call.orgId id) = some inserted) :
      Stepped w (.fill n) (w.write n (.filled a id row deleted inserted))
  | revoke (n : Nat) (orgId id : String) (c : ConsentRow) (hc : w.consents id = some c)
      (hfree : w.locked c.key = none) (hn : w.txs n = none) :
      Stepped w (.revoke n orgId id) (w.take n c.key (.revoking id { c with revoked := true }))
  | approved (n : Nat) (tx : Tx) (a : Approval) (id : String) (row : ConsentRow)
      (deleted inserted : List ConsentLayerRow) (hn : w.txs n = some tx)
      (hdone : tx.done = some (a, id, row, deleted, inserted)) :
      Stepped w (.commit n) (w.approve n tx a id row deleted inserted)
  | revoked (n : Nat) (id : String) (row : ConsentRow) (hn : w.txs n = some (.revoking id row)) :
      Stepped w (.commit n) ((w.store id row).finish n (.revoking id row))
  | rollback (n : Nat) (tx : Tx) (hn : w.txs n = some tx) :
      Stepped w (.rollback n) (w.finish n tx)

theorem setLayer_stepped {w w' : World} {orgId id : String} {f : LayerName → LayerName}
    (act : Action) (h : w.setLayer orgId id f = some w') : Stepped w act w' := by
  unfold World.setLayer at h
  split at h
  next => cases h
  next l hl =>
    cases h
    exact .relabel act orgId id l (f l) hl

theorem upsert_stepped {w w' : World} {n : Nat} {a : Approval} {fresh : String}
    (hn : w.txs n = some (.begun a)) (h : w.upsert n a fresh = some w') :
    Stepped w (.upsert n fresh) w' := by
  unfold World.upsert at h
  split at h
  next => cases h
  next hfree =>
    have hfree : w.locked a.call.key = none := by simpa using hfree
    split at h
    next id hid =>
      cases h
      exact .reuse n fresh a id hn hfree hid
    next hid =>
      split at h
      next => cases h
      next hfresh =>
        cases h
        exact .insert n fresh a hn hfree hid hfresh

theorem commit_stepped {w w' : World} {n : Nat} {tx : Tx} (hn : w.txs n = some tx)
    (h : w.commit n tx = some w') : Stepped w (.commit n) w' := by
  unfold World.commit at h
  split at h
  next a id row deleted inserted hdone =>
    cases h
    exact .approved n tx a id row deleted inserted hn hdone
  next =>
    split at h
    next id row _ =>
      cases h
      exact .revoked n id row hn
    next => cases h

theorem step_stepped {w w' : World} {act : Action} (h : step w act = some w') :
    Stepped w act w' := by
  cases act with
  | setUser orgId id user =>
      cases h
      exact .setUser orgId id user
  | createLayer orgId id slug =>
      simp only [step] at h
      split at h
      next hnew =>
        cases h
        exact .createLayer orgId id slug hnew.2
      next => cases h
  | renameLayer orgId id slug => exact setLayer_stepped _ h
  | deleteLayer orgId id => exact setLayer_stepped _ h
  | «begin» n a =>
      simp only [step] at h
      split at h
      next hnew =>
        cases h
        exact .begin n a hnew.1 hnew.2
      next => cases h
  | upsert n fresh =>
      simp only [step] at h
      split at h
      next a hn => exact upsert_stepped hn h
      next => cases h
  | clear n =>
      simp only [step] at h
      split at h
      next a id row hn =>
        split at h
        next =>
          cases h
          exact .clear n a id row hn
        next => cases h
      next => cases h
  | fill n =>
      simp only [step] at h
      split at h
      next a id row deleted hn =>
        split at h
        next => cases h
        next inserted hrows =>
          split at h
          next =>
            cases h
            exact .fill n a id row deleted inserted hn hrows
          next => cases h
      next => cases h
  | revoke n orgId id =>
      simp only [step, World.revoke] at h
      split at h
      next => cases h
      next c hc =>
        split at h
        next hstands =>
          cases h
          exact .revoke n orgId id c hc hstands.2.2.1 hstands.2.2.2
        next => cases h
  | commit n =>
      simp only [step] at h
      split at h
      next tx hn => exact commit_stepped hn h
      next => cases h
  | rollback n =>
      simp only [step] at h
      split at h
      next tx hn =>
        cases h
        exact .rollback n tx hn
      next => cases h

end Nacre.Delegations
