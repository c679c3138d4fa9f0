/-
The refresh tokens of one organization: sign-in, `refresh`, `logout` and
`revokeFamily` (api/src/login.ts), the three operations that set a
password and end the sessions there are (`changePassword`,
api/src/principals.ts `resetPassword`, api/src/recovery.ts `redeem`), and
the worker's `pruneExpiredTokens`.

# What is a step

`tokens` is what is committed. A refresh reads its row, opens a
transaction, waits for the family's advisory lock, claims the token, and
commits with its successor, or without one when a gate refuses or the
person is disabled; nothing of it is seen before. A lost claim ends the
transaction, and revoking the family is another one.

An `UPDATE` over many rows is two steps: its snapshot fixes the rows it
sees, and then it waits for each of them that somebody has claimed. A
transaction that claimed a token keeps its row until it ends.

`newId`s and `gen_random_uuid`s are never given twice. A gate's answer is
whatever it likes. The pair `changePassword` hands out starts a family of
its own: it is a sign-in. Anything in flight may be dropped, which is a
crash or an error, and rolls its transaction back.

# Ghosts

`detected`: the families a replay was detected of. `ended`: those whose
revocation has committed. `closed`: those a password operation found when
its statement began, once it has committed.
-/
import Mathlib.Logic.Function.Basic
import Nacre.Lib.Transition
import Nacre.Store.Rows

namespace Nacre.Sessions

open Nacre.Store (Time)

abbrev TokenId := String
abbrev FamilyId := String
abbrev UserId := String

-- ================================================================ the rows

/-- A row of `refresh_tokens`. -/
structure Token where
  userId : UserId
  familyId : FamilyId
  expiresAt : Time
  usedAt : Option Time := none
  revokedAt : Option Time := none
  deriving DecidableEq

/-- What a claim takes. -/
def Token.unspent (row : Token) : Bool := row.usedAt = none && row.revokedAt = none

/-- What `refresh` would still redeem. -/
def Token.live (now : Time) (row : Token) : Bool := row.unspent && now < row.expiresAt

def spent (now : Time) (row : Token) : Token := { row with usedAt := some now }

/-- `SET revoked_at = now() WHERE revoked_at IS NULL`. -/
def revoked (now : Time) (row : Token) : Token :=
  if row.revokedAt = none then { row with revokedAt := some now } else row

-- ================================================================= state

inductive Flight where
  /-- A refresh, with the row it read. -/
  | refresh (t : TokenId) (row : Token)
  /-- It holds the family. -/
  | locked (t : TokenId) (row : Token)
  /-- And the token. -/
  | claimed (t : TokenId) (row : Token)
  /-- `revokeFamily` is to come. -/
  | ending (f : FamilyId)
  /-- It holds the family; what its statement sees. -/
  | revoking (f : FamilyId) (seen : Option (List TokenId))
  /-- A password operation, with what its statement sees and the sessions
  there were. -/
  | password (u : UserId) (seen : List TokenId) (before : List FamilyId)
  deriving DecidableEq

/-- It holds the family's advisory lock. -/
def Flight.holds (f : FamilyId) : Flight → Bool
  | .locked _ row => row.familyId = f
  | .claimed _ row => row.familyId = f
  | .revoking f' _ => f' = f
  | _ => false

/-- It holds the token's row. -/
def Flight.claims (t : TokenId) : Flight → Bool
  | .claimed t' _ => t' = t
  | _ => false

structure World where
  now : Time
  tokens : TokenId → Option Token
  /-- The ids there ever were. -/
  ids : List TokenId
  families : List FamilyId
  flights : List Flight
  detected : List FamilyId
  ended : List FamilyId
  closed : List FamilyId

def World.empty (now : Time) : World where
  now := now
  tokens _ := none
  ids := []
  families := []
  flights := []
  detected := []
  ended := []
  closed := []

def init (s : World) : Prop := ∃ now, s = World.empty now

inductive Action where
  | tick
  | login (u : UserId) (t : TokenId) (f : FamilyId) (expiresAt : Time)
  | refresh (t : TokenId)
  | lockFamily (t : TokenId) (row : Token)
  | claim (t : TokenId) (row : Token)
  | issue (t : TokenId) (row : Token) (next : TokenId) (expiresAt : Time)
  /-- A gate refuses. -/
  | refuse (t : TokenId) (row : Token)
  /-- The person is disabled, or not there. -/
  | gone (t : TokenId) (row : Token)
  | logout (t : TokenId)
  | lockEnding (f : FamilyId)
  | seeFamily (f : FamilyId)
  | revokeFamily (f : FamilyId) (seen : List TokenId)
  | seeSessions (u : UserId)
  | setPassword (u : UserId) (seen : List TokenId) (before : List FamilyId)
  | pruneExpired (t : TokenId)
  | drop (g : Flight)

-- ========================================================== small writes

def World.held (s : World) (f : FamilyId) : Bool := s.flights.any (·.holds f)

def World.busy (s : World) (t : TokenId) : Bool := s.flights.any (·.claims t)

/-- What an `UPDATE … AND revoked_at IS NULL` sees. -/
def World.visible (s : World) (sel : Token → Bool) : List TokenId :=
  s.ids.filter fun t => (s.tokens t).any fun row => sel row && row.revokedAt = none

/-- The sessions of a user. -/
def World.sessions (s : World) (u : UserId) : List FamilyId :=
  (s.ids.filterMap s.tokens).filterMap fun row =>
    if row.userId = u then some row.familyId else none

def World.replace (s : World) (g : Flight) (new : List Flight) : World :=
  { s with flights := new ++ s.flights.erase g }

/-- A row of a family is inserted. -/
def World.insert (s : World) (t : TokenId) (row : Token) : World :=
  { s with
    tokens := Function.update s.tokens t (some row)
    ids := t :: s.ids
    families := row.familyId :: s.families }

def World.spend (s : World) (t : TokenId) : World :=
  { s with tokens := Function.update s.tokens t ((s.tokens t).map (spent s.now)) }

def World.revoke (s : World) (seen : List TokenId) : World :=
  { s with tokens := fun t =>
      if t ∈ seen then (s.tokens t).map (revoked s.now) else s.tokens t }

-- ================================================================== step

def step (s : World) : Action → Option World
  | .tick => some { s with now := s.now + 1 }
  | .login u t f expiresAt =>
      if t ∉ s.ids ∧ f ∉ s.families then
        some (s.insert t { userId := u, familyId := f, expiresAt })
      else none
  -- -------------------------------------------------------------- refresh
  | .refresh t =>
      match s.tokens t with
      | none => none
      | some row =>
          if row.revokedAt = none ∧ s.now < row.expiresAt then
            some { s with flights := .refresh t row :: s.flights }
          else none
  | .lockFamily t row =>
      if .refresh t row ∈ s.flights ∧ s.held row.familyId = false then
        some (s.replace (.refresh t row) [.locked t row])
      else none
  | .claim t row =>
      if .locked t row ∈ s.flights then
        if (s.tokens t).any (·.unspent) then
          some (s.replace (.locked t row) [.claimed t row])
        else
          some { s.replace (.locked t row) [.ending row.familyId] with
            detected := row.familyId :: s.detected }
      else none
  | .issue t row next expiresAt =>
      if .claimed t row ∈ s.flights ∧ next ∉ s.ids then
        some (((s.spend t).insert next
          { userId := row.userId, familyId := row.familyId, expiresAt }).replace
            (.claimed t row) [])
      else none
  | .refuse t row =>
      if .claimed t row ∈ s.flights then
        some ((s.spend t).replace (.claimed t row) [])
      else none
  | .gone t row =>
      if .claimed t row ∈ s.flights then
        some ((s.spend t).replace (.claimed t row) [.ending row.familyId])
      else none
  -- --------------------------------------------------------------- logout
  | .logout t =>
      match s.tokens t with
      | none => none
      | some row =>
          if row.revokedAt = none then
            some { s with flights := .ending row.familyId :: s.flights }
          else none
  | .lockEnding f =>
      if .ending f ∈ s.flights ∧ s.held f = false then
        some (s.replace (.ending f) [.revoking f none])
      else none
  | .seeFamily f =>
      if .revoking f none ∈ s.flights then
        some (s.replace (.revoking f none)
          [.revoking f (some (s.visible (·.familyId = f)))])
      else none
  | .revokeFamily f seen =>
      if .revoking f (some seen) ∈ s.flights ∧ ∀ t ∈ seen, s.busy t = false then
        some { (s.revoke seen).replace (.revoking f (some seen)) [] with
          ended := f :: s.ended }
      else none
  -- ------------------------------------------------------------- password
  | .seeSessions u =>
      some { s with
        flights := .password u (s.visible (·.userId = u)) (s.sessions u) :: s.flights }
  | .setPassword u seen before =>
      if .password u seen before ∈ s.flights ∧ ∀ t ∈ seen, s.busy t = false then
        some { (s.revoke seen).replace (.password u seen before) [] with
          closed := before ++ s.closed }
      else none
  -- ---------------------------------------------------------------- sweep
  | .pruneExpired t =>
      match s.tokens t with
      | none => none
      | some row =>
          if row.expiresAt < s.now ∧ s.busy t = false then
            some { s with tokens := Function.update s.tokens t none }
          else none
  | .drop g => if g ∈ s.flights then some (s.replace g []) else none

/-- The family of the token a step redeems: its claim commits. -/
def Action.redeems : Action → Option FamilyId
  | .issue _ row _ _ => some row.familyId
  | .refuse _ row => some row.familyId
  | .gone _ row => some row.familyId
  | _ => none

-- ================================================== what one step can do

/-- Every step, with what it found. -/
inductive Stepped (s : World) : Action → World → Prop where
  | tick : Stepped s .tick { s with now := s.now + 1 }
  | login (u : UserId) (t : TokenId) (f : FamilyId) (expiresAt : Time)
      (hid : t ∉ s.ids) (hfamily : f ∉ s.families) :
      Stepped s (.login u t f expiresAt)
        (s.insert t { userId := u, familyId := f, expiresAt })
  | refresh (t : TokenId) (row : Token) (hrow : s.tokens t = some row) :
      Stepped s (.refresh t) { s with flights := .refresh t row :: s.flights }
  | lockFamily (t : TokenId) (row : Token) (hflight : .refresh t row ∈ s.flights)
      (hfree : s.held row.familyId = false) :
      Stepped s (.lockFamily t row) (s.replace (.refresh t row) [.locked t row])
  | claim (t : TokenId) (row now : Token) (hflight : .locked t row ∈ s.flights)
      (hrow : s.tokens t = some now) (hunspent : now.unspent = true) :
      Stepped s (.claim t row) (s.replace (.locked t row) [.claimed t row])
  | lost (t : TokenId) (row : Token) (hflight : .locked t row ∈ s.flights) :
      Stepped s (.claim t row)
        { s.replace (.locked t row) [.ending row.familyId] with
          detected := row.familyId :: s.detected }
  | issue (t : TokenId) (row : Token) (next : TokenId) (expiresAt : Time)
      (hflight : .claimed t row ∈ s.flights) (hid : next ∉ s.ids) :
      Stepped s (.issue t row next expiresAt)
        (((s.spend t).insert next
          { userId := row.userId, familyId := row.familyId, expiresAt }).replace
            (.claimed t row) [])
  | refuse (t : TokenId) (row : Token) (hflight : .claimed t row ∈ s.flights) :
      Stepped s (.refuse t row) ((s.spend t).replace (.claimed t row) [])
  | gone (t : TokenId) (row : Token) (hflight : .claimed t row ∈ s.flights) :
      Stepped s (.gone t row)
        ((s.spend t).replace (.claimed t row) [.ending row.familyId])
  | logout (t : TokenId) (row : Token) (hrow : s.tokens t = some row) :
      Stepped s (.logout t) { s with flights := .ending row.familyId :: s.flights }
  | lockEnding (f : FamilyId) (hflight : .ending f ∈ s.flights)
      (hfree : s.held f = false) :
      Stepped s (.lockEnding f) (s.replace (.ending f) [.revoking f none])
  | seeFamily (f : FamilyId) (hflight : .revoking f none ∈ s.flights) :
      Stepped s (.seeFamily f)
        (s.replace (.revoking f none)
          [.revoking f (some (s.visible (·.familyId = f)))])
  | revokeFamily (f : FamilyId) (seen : List TokenId)
      (hflight : .revoking f (some seen) ∈ s.flights)
      (hfree : ∀ t ∈ seen, s.busy t = false) :
      Stepped s (.revokeFamily f seen)
        { (s.revoke seen).replace (.revoking f (some seen)) [] with
          ended := f :: s.ended }
  | seeSessions (u : UserId) :
      Stepped s (.seeSessions u)
        { s with
          flights := .password u (s.visible (·.userId = u)) (s.sessions u)
            :: s.flights }
  | setPassword (u : UserId) (seen : List TokenId) (before : List FamilyId)
      (hflight : .password u seen before ∈ s.flights)
      (hfree : ∀ t ∈ seen, s.busy t = false) :
      Stepped s (.setPassword u seen before)
        { (s.revoke seen).replace (.password u seen before) [] with
          closed := before ++ s.closed }
  | pruneExpired (t : TokenId) (hfree : s.busy t = false) :
      Stepped s (.pruneExpired t)
        { s with tokens := Function.update s.tokens t none }
  | drop (g : Flight) (hflight : g ∈ s.flights) : Stepped s (.drop g) (s.replace g [])

theorem step_inv {s s' : World} {a : Action} (h : step s a = some s') :
    Stepped s a s' := by
  cases a with
  | tick =>
      cases h
      exact .tick
  | login u t f expiresAt =>
      simp only [step, Option.ite_none_right_eq_some] at h
      obtain ⟨⟨hid, hfamily⟩, h⟩ := h
      cases h
      exact .login u t f expiresAt hid hfamily
  | refresh t =>
      simp only [step] at h
      split at h
      next => cases h
      next row hrow =>
        rw [Option.ite_none_right_eq_some] at h
        cases h.2
        exact .refresh t row hrow
  | lockFamily t row =>
      simp only [step, Option.ite_none_right_eq_some] at h
      obtain ⟨⟨hflight, hfree⟩, h⟩ := h
      cases h
      exact .lockFamily t row hflight hfree
  | claim t row =>
      simp only [step, Option.ite_none_right_eq_some] at h
      obtain ⟨hflight, h⟩ := h
      split at h
      next hany =>
        cases h
        obtain ⟨now, hrow, hunspent⟩ := (Option.any_eq_true _ _).1 hany
        exact .claim t row now hflight hrow hunspent
      next =>
        cases h
        exact .lost t row hflight
  | issue t row next expiresAt =>
      simp only [step, Option.ite_none_right_eq_some] at h
      obtain ⟨⟨hflight, hid⟩, h⟩ := h
      cases h
      exact .issue t row next expiresAt hflight hid
  | refuse t row =>
      simp only [step, Option.ite_none_right_eq_some] at h
      cases h.2
      exact .refuse t row h.1
  | gone t row =>
      simp only [step, Option.ite_none_right_eq_some] at h
      cases h.2
      exact .gone t row h.1
  | logout t =>
      simp only [step] at h
      split at h
      next => cases h
      next row hrow =>
        rw [Option.ite_none_right_eq_some] at h
        cases h.2
        exact .logout t row hrow
  | lockEnding f =>
      simp only [step, Option.ite_none_right_eq_some] at h
      obtain ⟨⟨hflight, hfree⟩, h⟩ := h
      cases h
      exact .lockEnding f hflight hfree
  | seeFamily f =>
      simp only [step, Option.ite_none_right_eq_some] at h
      cases h.2
      exact .seeFamily f h.1
  | revokeFamily f seen =>
      simp only [step, Option.ite_none_right_eq_some] at h
      obtain ⟨⟨hflight, hfree⟩, h⟩ := h
      cases h
      exact .revokeFamily f seen hflight hfree
  | seeSessions u =>
      cases h
      exact .seeSessions u
  | setPassword u seen before =>
      simp only [step, Option.ite_none_right_eq_some] at h
      obtain ⟨⟨hflight, hfree⟩, h⟩ := h
      cases h
      exact .setPassword u seen before hflight hfree
  | pruneExpired t =>
      simp only [step] at h
      split at h
      next => cases h
      next row hrow =>
        rw [Option.ite_none_right_eq_some] at h
        obtain ⟨⟨-, hfree⟩, h⟩ := h
        cases h
        exact .pruneExpired t hfree
  | drop g =>
      simp only [step, Option.ite_none_right_eq_some] at h
      cases h.2
      exact .drop g h.1

end Nacre.Sessions
