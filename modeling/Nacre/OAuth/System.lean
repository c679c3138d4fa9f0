/-
The connections of one organization: what api/src/oauth-store.ts keeps of
authorization codes, consents and refresh tokens, and what the token
endpoint (api/src/server.ts) does with them.

# What is a step

One transaction. `rotate` locks the token's row and writes the consent's
before it commits, `revoke` writes the consent's first, and both wait for
the rows they delete: two of them that meet are in one order or the other,
or one is rolled back. A row that `issue` inserts while somebody deletes
its family or its connection's tokens is not in that statement's snapshot:
the insertion comes after.

The token endpoint is two transactions for either grant: `rotate` or
`redeem`, and then `issue`. What stands between them is a `Grant`. It may
be dropped: a verifier that does not match, an error, a crash.

Ids, families and codes are never given twice. Who may revoke what is
decided before the step. A revoked service account and a person disabled
or demoted come and go as they like.

# Ghosts

`detected`: the families a replay was detected of. `endedTokens` and
`endedCodes`: those that were there, or whose exchange had begun, when
their connection was revoked; `Grant.overtaken` is how the second is
known.
-/
import Mathlib.Logic.Function.Basic
import Nacre.Lib.Transition
import Nacre.Store.Rows

namespace Nacre.OAuth

open Nacre.Store (Time)

abbrev CodeId := String
abbrev ConsentId := String
abbrev TokenId := String
abbrev FamilyId := String

-- ================================================================ the rows

inductive ActsAs where
  | serviceAccount
  | user
  deriving DecidableEq

/-- A row of `oauth_consents`. -/
structure Consent where
  actsAs : ActsAs
  revokedAt : Option Time := none
  deriving DecidableEq

/-- A row of `oauth_authorizations`; one from before there were consents
has none. -/
structure Code where
  consentId : Option ConsentId
  expiresAt : Time
  consumedAt : Option Time := none
  deriving DecidableEq

/-- A row of `oauth_refresh_tokens`. -/
structure Token where
  consentId : ConsentId
  familyId : FamilyId
  expiresAt : Time
  usedAt : Option Time := none
  deriving DecidableEq

/-- A request of the token endpoint that is to issue. -/
structure Grant where
  consentId : ConsentId
  /-- None in exchange for a code. -/
  family : Option FamilyId
  /-- The connection was revoked since it began. -/
  overtaken : Bool := false
  deriving DecidableEq

structure World where
  now : Time
  consents : ConsentId → Option Consent
  /-- Its service account is revoked. -/
  accountRevoked : ConsentId → Bool
  /-- Its person is disabled, gone, or no longer who may. -/
  personBarred : ConsentId → Bool
  codes : CodeId → Option Code
  codeIds : List CodeId
  tokens : TokenId → Option Token
  tokenIds : List TokenId
  families : List FamilyId
  grants : List Grant
  detected : List FamilyId
  endedTokens : List TokenId
  endedCodes : List CodeId

def World.empty (now : Time) : World where
  now := now
  consents _ := none
  accountRevoked _ := false
  personBarred _ := false
  codes _ := none
  codeIds := []
  tokens _ := none
  tokenIds := []
  families := []
  grants := []
  detected := []
  endedTokens := []
  endedCodes := []

def init (s : World) : Prop := ∃ now, s = World.empty now

-- ================================================================= rotate

inductive Rotated where
  | replay (f : FamilyId)
  /-- Expired, or the connection is revoked. -/
  | refused
  /-- Not now; the token is kept. -/
  | suspended
  | spent (row : Token)
  deriving DecidableEq

def World.revoked (s : World) (id : ConsentId) (c : Consent) : Bool :=
  c.revokedAt ≠ none || (c.actsAs = .serviceAccount && s.accountRevoked id)

def World.suspended (s : World) (id : ConsentId) (c : Consent) : Bool :=
  c.actsAs = .user && s.personBarred id

/-- What `rotate` decides on a token. -/
def World.rotate (s : World) (t : TokenId) : Option Rotated :=
  match s.tokens t with
  | none => none
  | some row =>
      match s.consents row.consentId with
      | none => none
      | some c =>
          if row.usedAt ≠ none then some (.replay row.familyId)
          else if row.expiresAt ≤ s.now ∨ s.revoked row.consentId c = true then some .refused
          else if s.suspended row.consentId c = true then some .suspended
          else some (.spent row)

/-- The token would be exchanged for another. -/
def World.redeemable (s : World) (t : TokenId) : Bool :=
  match s.rotate t with
  | some (.spent _) => true
  | _ => false

/-- `consumed_at IS NULL AND expires_at > now()`. -/
def Code.outstanding (now : Time) (code : Code) : Bool :=
  code.consumedAt = none && now < code.expiresAt

def World.redeemableCode (s : World) (k : CodeId) : Bool := (s.codes k).any (·.outstanding s.now)

-- ========================================================== small writes

def World.spend (s : World) (t : TokenId) (row : Token) : World :=
  { s with
    tokens := Function.update s.tokens t (some { row with usedAt := some s.now })
    grants := { consentId := row.consentId, family := some row.familyId } :: s.grants }

/-- `DELETE FROM oauth_refresh_tokens WHERE …` -/
def World.delete (s : World) (sel : Token → Bool) : World :=
  { s with tokens := fun t => if (s.tokens t).any sel then none else s.tokens t }

def World.consume (s : World) (k : CodeId) (code : Code) : World :=
  { s with
    codes := Function.update s.codes k (some { code with consumedAt := some s.now })
    grants := match code.consentId with
      | none => s.grants
      | some c => { consentId := c, family := none } :: s.grants }

def World.issue (s : World) (g : Grant) (t : TokenId) (f : FamilyId) (expiresAt : Time) :
    World :=
  { s with
    tokens := Function.update s.tokens t
      (some { consentId := g.consentId, familyId := f, expiresAt })
    tokenIds := t :: s.tokenIds
    families := f :: s.families
    grants := s.grants.erase g
    endedTokens := if g.overtaken then t :: s.endedTokens else s.endedTokens }

/-- What is to end with the connection: its codes, its tokens, and what
the exchanges that have begun will issue. -/
def World.overtake (s : World) (id : ConsentId) : World :=
  { s with
    grants := s.grants.map fun g =>
      if g.consentId = id then { g with overtaken := true } else g
    endedTokens := s.tokenIds.filter (fun t => (s.tokens t).any (·.consentId = id))
      ++ s.endedTokens
    endedCodes := s.codeIds.filter (fun k => (s.codes k).any (·.consentId = some id))
      ++ s.endedCodes }

-- ================================================================== step

inductive Action where
  | tick
  /-- `record`. -/
  | record (id : ConsentId) (actsAs : ActsAs)
  | setAccount (id : ConsentId) (revoked : Bool)
  | setPerson (id : ConsentId) (barred : Bool)
  /-- The code that points at a connection. -/
  | approve (k : CodeId) (id : Option ConsentId) (expiresAt : Time)
  | redeem (k : CodeId)
  | rotate (t : TokenId)
  /-- With the family `gen_random_uuid` gives if there is none. -/
  | issue (g : Grant) (t : TokenId) (f : FamilyId) (expiresAt : Time)
  | drop (g : Grant)
  | revoke (id : ConsentId)

def step (s : World) : Action → Option World
  | .tick => some { s with now := s.now + 1 }
  | .record id actsAs =>
      match s.consents id with
      | none => some { s with consents := Function.update s.consents id (some { actsAs }) }
      | some c =>
          some { s with
            consents := Function.update s.consents id (some { c with revokedAt := none }) }
  | .setAccount id revoked =>
      some { s with accountRevoked := Function.update s.accountRevoked id revoked }
  | .setPerson id barred =>
      some { s with personBarred := Function.update s.personBarred id barred }
  | .approve k id expiresAt =>
      if k ∉ s.codeIds then
        some { s with
          codes := Function.update s.codes k (some { consentId := id, expiresAt })
          codeIds := k :: s.codeIds }
      else none
  | .redeem k =>
      match s.codes k with
      | none => none
      | some code => if code.outstanding s.now then some (s.consume k code) else none
  | .rotate t =>
      match s.rotate t with
      | none => none
      | some (.replay f) =>
          some { s.delete (·.familyId = f) with detected := f :: s.detected }
      | some .refused => some s
      | some .suspended => some s
      | some (.spent row) => some (s.spend t row)
  | .issue g t f expiresAt =>
      if g ∈ s.grants ∧ t ∉ s.tokenIds ∧ (g.family = some f ∨ g.family = none ∧ f ∉ s.families)
      then some (s.issue g t f expiresAt)
      else none
  | .drop g => if g ∈ s.grants then some { s with grants := s.grants.erase g } else none
  | .revoke id =>
      match s.consents id with
      | none => none
      | some c =>
          if c.revokedAt = none then
            some { (s.overtake id).delete (·.consentId = id) with
              consents := Function.update s.consents id
                (some { c with revokedAt := some s.now }) }
          else none

-- ================================================== what one step can do

/-- Every step, with what it found. -/
inductive Stepped (s : World) : Action → World → Prop where
  | tick : Stepped s .tick { s with now := s.now + 1 }
  | record (id : ConsentId) (actsAs : ActsAs) (c : Consent) :
      Stepped s (.record id actsAs)
        { s with consents := Function.update s.consents id (some c) }
  | setAccount (id : ConsentId) (revoked : Bool) :
      Stepped s (.setAccount id revoked)
        { s with accountRevoked := Function.update s.accountRevoked id revoked }
  | setPerson (id : ConsentId) (barred : Bool) :
      Stepped s (.setPerson id barred)
        { s with personBarred := Function.update s.personBarred id barred }
  | approve (k : CodeId) (id : Option ConsentId) (expiresAt : Time) (hid : k ∉ s.codeIds) :
      Stepped s (.approve k id expiresAt)
        { s with
          codes := Function.update s.codes k (some { consentId := id, expiresAt })
          codeIds := k :: s.codeIds }
  | redeem (k : CodeId) (code : Code) (hcode : s.codes k = some code)
      (houtstanding : code.outstanding s.now = true) : Stepped s (.redeem k) (s.consume k code)
  | replay (t : TokenId) (row : Token) (hrow : s.tokens t = some row)
      (hused : row.usedAt ≠ none) :
      Stepped s (.rotate t)
        { s.delete (·.familyId = row.familyId) with detected := row.familyId :: s.detected }
  | refused (t : TokenId) : Stepped s (.rotate t) s
  | spent (t : TokenId) (row : Token) (hrow : s.tokens t = some row) :
      Stepped s (.rotate t) (s.spend t row)
  | issue (g : Grant) (t : TokenId) (f : FamilyId) (expiresAt : Time) (hg : g ∈ s.grants)
      (hid : t ∉ s.tokenIds)
      (hfamily : g.family = some f ∨ g.family = none ∧ f ∉ s.families) :
      Stepped s (.issue g t f expiresAt) (s.issue g t f expiresAt)
  | drop (g : Grant) (hg : g ∈ s.grants) :
      Stepped s (.drop g) { s with grants := s.grants.erase g }
  | revoke (id : ConsentId) (c : Consent) (hc : s.consents id = some c)
      (hstands : c.revokedAt = none) :
      Stepped s (.revoke id)
        { (s.overtake id).delete (·.consentId = id) with
          consents := Function.update s.consents id
            (some { c with revokedAt := some s.now }) }

/-- What `rotate` decided, and on which row. -/
theorem rotate_inv {s : World} {t : TokenId} {r : Rotated} (h : s.rotate t = some r) :
    ∃ row, s.tokens t = some row ∧
      ((r = .replay row.familyId ∧ row.usedAt ≠ none) ∨ r = .refused ∨ r = .suspended
        ∨ r = .spent row) := by
  unfold World.rotate at h
  split at h
  next => cases h
  next row hrow =>
    refine ⟨row, hrow, ?_⟩
    split at h
    next => cases h
    next c hc =>
      split at h
      next hused =>
        cases h
        exact .inl ⟨rfl, hused⟩
      next =>
        split at h
        next =>
          cases h
          exact .inr (.inl rfl)
        next =>
          split at h
          next =>
            cases h
            exact .inr (.inr (.inl rfl))
          next =>
            cases h
            exact .inr (.inr (.inr rfl))

theorem step_inv {s s' : World} {a : Action} (h : step s a = some s') :
    Stepped s a s' := by
  cases a with
  | tick =>
      cases h
      exact .tick
  | record id actsAs =>
      simp only [step] at h
      split at h
      next =>
        cases h
        exact .record id actsAs _
      next =>
        cases h
        exact .record id actsAs _
  | setAccount id revoked =>
      cases h
      exact .setAccount id revoked
  | setPerson id barred =>
      cases h
      exact .setPerson id barred
  | approve k id expiresAt =>
      simp only [step, Option.ite_none_right_eq_some] at h
      cases h.2
      exact .approve k id expiresAt h.1
  | redeem k =>
      simp only [step] at h
      split at h
      next => cases h
      next code hcode =>
        rw [Option.ite_none_right_eq_some] at h
        cases h.2
        exact .redeem k code hcode h.1
  | rotate t =>
      simp only [step] at h
      split at h
      next => cases h
      next f hrotate =>
        cases h
        obtain ⟨row, hrow, ⟨heq, hused⟩ | heq | heq | heq⟩ := rotate_inv hrotate
        · cases heq
          exact .replay t row hrow hused
        · cases heq
        · cases heq
        · cases heq
      next =>
        cases h
        exact .refused t
      next =>
        cases h
        exact .refused t
      next row' hrotate =>
        cases h
        obtain ⟨row, hrow, ⟨heq, -⟩ | heq | heq | heq⟩ := rotate_inv hrotate
        · cases heq
        · cases heq
        · cases heq
        · cases heq
          exact .spent t row' hrow
  | issue g t f expiresAt =>
      simp only [step, Option.ite_none_right_eq_some] at h
      obtain ⟨⟨hg, hid, hfamily⟩, h⟩ := h
      cases h
      exact .issue g t f expiresAt hg hid hfamily
  | drop g =>
      simp only [step, Option.ite_none_right_eq_some] at h
      cases h.2
      exact .drop g h.1
  | revoke id =>
      simp only [step] at h
      split at h
      next => cases h
      next c hc =>
        rw [Option.ite_none_right_eq_some] at h
        cases h.2
        exact .revoke id c hc h.1

end Nacre.OAuth
