/-
Recovering a password by a link (api/src/recovery.ts: `request` and
`redeem`).

# What is a step

One statement, or one row of a statement that waits. A request draws its
secret for the person it found, and then, in one transaction, spends the
links that person holds (`retire`, row by row) and inserts the new one. Its
UPDATE sees the links committed when it began, `known`, and each of their
rows once nobody else has written it.

A redemption looks for the link, hashes the password, and then, in one
transaction, spends the link by the UPDATE that finds it, reads the account,
and writes the password. `now()` is when that transaction began.

`locked` and `accountLocked` are who has written a row and not committed.
Whoever disables an account, or marks it shared, waits for that.

`findUser` scans the organizations for an address; two matches are silence,
so all it does is to make fewer requests: here the person it found is given,
and is at that moment one it may find. The mails, and the sessions a reset
ends, are elsewhere.

# Ghosts

`resets`: the passwords that were set, each with the account as it was then
and with the person's other links there were.
-/
import Mathlib.Logic.Function.Basic
import Nacre.Lib.Js
import Nacre.Lib.Transition
import Nacre.Lib.Uuid
import Nacre.Store.Rows

namespace Nacre.Recovery

open Nacre.Store (Time)

/-- `token_hash`, which is unique. -/
abbrev LinkId := String

/-- By organization and id. -/
abbrev UserId := String × String

/-- A row of `users`. -/
structure Account where
  disabled : Bool := false
  isShared : Bool := false
  passwordHash : Option String := none
  deriving DecidableEq

/-- A row of `password_reset_tokens`. -/
structure Link where
  user : UserId
  expiresAt : Time
  usedAt : Option Time := none
  deriving DecidableEq

-- ================================================================ a token

def RESET_TTL_SECONDS : Nat := 3600
def MIN_PASSWORD_LENGTH : Nat := 12

/-- `/^[0-9a-f]{8}-…-[0-9a-f]{12}$/iu`. -/
def isUuid (s : String) : Bool :=
  let parts := s.toList.splitOn '-'
  parts.map List.length == [8, 4, 4, 4, 12]
    && parts.all fun part => part.all fun c => (Uuid.hexValue c).isSome

/-- The organization a token names: `<org_id>.<secret>`. -/
def organizationOf (token : String) : Option String :=
  match token.toList.splitOn '.' with
  | org :: _ :: _ =>
      if isUuid (String.ofList org) then Uuid.castUuid (String.ofList org) else none
  | _ => none

-- ============================================================ transactions

inductive Tx where
  /-- `request` found the person and drew a secret. -/
  | found (u : UserId) (link : LinkId) (expiresAt : Time)
  /-- Its UPDATE: the links it sees, those it has still to reach, those it
  wrote. -/
  | retiring (u : UserId) (link : LinkId) (expiresAt at_ : Time) (known left mine : List LinkId)
  | issued (u : UserId) (link : LinkId) (expiresAt at_ : Time) (known mine : List LinkId)
  /-- `redeem` saw the link live. -/
  | hashing (org : String) (link : LinkId)
  | began (org : String) (link : LinkId) (hash : String) (at_ : Time)
  | spent (u : UserId) (link : LinkId) (hash : String) (at_ : Time)
  /-- The account is neither disabled nor shared. -/
  | allowed (u : UserId) (link : LinkId) (hash : String) (at_ : Time)
  | written (u : UserId) (link : LinkId) (hash : String) (at_ : Time)
  /-- The account is: the link is spent and nothing else. -/
  | barred (u : UserId) (link : LinkId) (at_ : Time)
  deriving DecidableEq

/-- The links whose rows it has written. -/
def Tx.links : Tx → List LinkId
  | .retiring _ _ _ _ _ _ mine => mine
  | .issued _ _ _ _ _ mine => mine
  | .spent _ link _ _ => [link]
  | .allowed _ link _ _ => [link]
  | .written _ link _ _ => [link]
  | .barred _ link _ => [link]
  | _ => []

/-- Whose links they are. -/
def Tx.user : Tx → Option UserId
  | .found u _ _ => some u
  | .retiring u _ _ _ _ _ _ => some u
  | .issued u _ _ _ _ _ => some u
  | .spent u _ _ _ => some u
  | .allowed u _ _ _ => some u
  | .written u _ _ _ => some u
  | .barred u _ _ => some u
  | _ => none

/-- A password that was set by a link. -/
structure Reset where
  user : UserId
  link : LinkId
  /-- The account, as it was when the password was set. -/
  account : Account
  /-- The person's other links there were then. -/
  before : List LinkId
  deriving DecidableEq

structure World where
  now : Time
  accounts : UserId → Option Account
  links : LinkId → Option Link
  linkIds : List LinkId
  locked : LinkId → Option Nat
  accountLocked : UserId → Option Nat
  txs : Nat → Option Tx
  /-- The numbers of the calls there were. -/
  calls : List Nat
  resets : List Reset

def World.new (now : Time) : World where
  now := now
  accounts _ := none
  links _ := none
  linkIds := []
  locked _ := none
  accountLocked _ := none
  txs _ := none
  calls := []
  resets := []

def init (w : World) : Prop := ∃ now, w = World.new now

-- ============================================================= statements

/-- The links of a person. -/
def World.linksOf (w : World) (u : UserId) : List LinkId :=
  w.linkIds.filter fun l => (w.links l).any (·.user = u)

/-- `used_at IS NULL AND expires_at > now()`, of a transaction's `now()`. -/
def Link.live (link : Link) (now : Time) : Bool := link.usedAt.isNone && now < link.expiresAt

def World.unspent (w : World) (l : LinkId) : Bool := (w.links l).any (·.usedAt.isNone)

/-- `disabled_at IS NULL AND password_hash IS NOT NULL AND NOT shared`. -/
def Account.mayAsk (account : Account) : Bool :=
  !account.disabled && account.passwordHash.isSome && !account.isShared

def World.write (w : World) (n : Nat) (tx : Tx) : World :=
  { w with txs := Function.update w.txs n (some tx) }

def World.lock (w : World) (n : Nat) (l : LinkId) : World :=
  { w with locked := Function.update w.locked l (some n) }

/-- The transaction is over, and what it wrote is free. -/
def World.finish (w : World) (n : Nat) : World :=
  { w with
    txs := Function.update w.txs n none
    locked := fun l => if w.locked l = some n then none else w.locked l
    accountLocked := fun u => if w.accountLocked u = some n then none else w.accountLocked u }

/-- The links a transaction wrote are spent. -/
def World.spend (w : World) (ls : List LinkId) (at_ : Time) : World :=
  { w with
    links := fun l =>
      if l ∈ ls then (w.links l).map fun link => { link with usedAt := some at_ }
      else w.links l }

/-- A commit: what the transaction wrote of links is spent. -/
def World.settle (w : World) (n : Nat) (ls : List LinkId) (at_ : Time) : World :=
  (w.spend ls at_).finish n

def World.store (w : World) (l : LinkId) (u : UserId) (expiresAt : Time) : World :=
  { w with
    links := Function.update w.links l (some { user := u, expiresAt })
    linkIds := w.linkIds ++ [l] }

def World.setPassword (w : World) (u : UserId) (l : LinkId) (account : Account) (hash : String) :
    World :=
  { w with
    accounts := Function.update w.accounts u (some { account with passwordHash := some hash })
    resets := { user := u, link := l, account,
                before := (w.linksOf u).filter (· ≠ l) } :: w.resets }

inductive Action where
  | tick
  /-- Whoever administers the account. -/
  | account (u : UserId) (account : Account)
  /-- With the hash of the secret, and when the link expires by the
  process's clock. -/
  | request (n : Nat) (u : UserId) (link : LinkId) (expiresAt : Time)
  | retire (n : Nat)
  | retireRow (n : Nat)
  | issue (n : Nat)
  | redeem (n : Nat) (token password : String)
  /-- With what `hashPassword` gives. -/
  | begin (n : Nat) (hash : String)
  | spend (n : Nat)
  | read (n : Nat)
  | write (n : Nat)
  | commit (n : Nat)
  | fail (n : Nat)
  deriving DecidableEq

/-- The UPDATE reaches its next row: it waits for who has written it, and
passes over one that is spent by now. -/
def World.retireRow (w : World) (n : Nat) (u : UserId) (link : LinkId) (expiresAt at_ : Time)
    (known mine : List LinkId) (l : LinkId) (left : List LinkId) : Option World :=
  if w.locked l ≠ none then none
  else if w.unspent l then
    some ((w.lock n l).write n (.retiring u link expiresAt at_ known left (l :: mine)))
  else some (w.write n (.retiring u link expiresAt at_ known left mine))

/-- `redeem`, up to the first read: too short, malformed and unknown are
refused. -/
def World.redeem (digest : String → LinkId) (w : World) (n : Nat) (token password : String) :
    Option World :=
  if (Js.utf16 password).length < MIN_PASSWORD_LENGTH then none
  else
    match organizationOf token with
    | none => none
    | some org =>
        if (w.links (digest token)).any fun link => link.user.1 = org ∧ link.live w.now then
          some { w.write n (.hashing org (digest token)) with calls := n :: w.calls }
        else none

/-- The UPDATE that finds the link: it waits for who has written it. -/
def World.spendLink (w : World) (n : Nat) (org : String) (link : LinkId) (hash : String)
    (at_ : Time) : Option World :=
  if w.locked link ≠ none then none
  else
    match w.links link with
    | none => some (w.finish n)
    | some row =>
        if row.user.1 = org ∧ row.live at_ then
          some ((w.lock n link).write n (.spent row.user link hash at_))
        else some (w.finish n)

def World.readAccount (w : World) (n : Nat) (u : UserId) (link : LinkId) (hash : String)
    (at_ : Time) : World :=
  match w.accounts u with
  | none => w.write n (.barred u link at_)
  | some account =>
      if account.disabled || account.isShared then w.write n (.barred u link at_)
      else w.write n (.allowed u link hash at_)

def World.commit (w : World) (n : Nat) : Tx → Option World
  -- The hash is unique.
  | .issued u link expiresAt at_ _ mine =>
      if w.links link = none then some ((w.settle n mine at_).store link u expiresAt) else none
  | .written u link hash at_ =>
      match w.accounts u with
      | none => none
      | some account => some ((w.settle n [link] at_).setPassword u link account hash)
  | .barred _ link at_ => some (w.settle n [link] at_)
  | _ => none

def step (digest : String → LinkId) (w : World) : Action → Option World
  | .tick => some { w with now := w.now + 1 }
  | .account u account =>
      if w.accountLocked u = none then
        some { w with accounts := Function.update w.accounts u (some account) }
      else none
  | .request n u link expiresAt =>
      if w.txs n = none ∧ (w.accounts u).any Account.mayAsk then
        some { w.write n (.found u link expiresAt) with calls := n :: w.calls }
      else none
  | .retire n =>
      match w.txs n with
      | some (.found u link expiresAt) =>
          some (w.write n (.retiring u link expiresAt w.now (w.linksOf u)
            ((w.linksOf u).filter w.unspent) []))
      | _ => none
  | .retireRow n =>
      match w.txs n with
      | some (.retiring u link expiresAt at_ known (l :: left) mine) =>
          w.retireRow n u link expiresAt at_ known mine l left
      | _ => none
  | .issue n =>
      match w.txs n with
      | some (.retiring u link expiresAt at_ known [] mine) =>
          some (w.write n (.issued u link expiresAt at_ known mine))
      | _ => none
  | .redeem n token password =>
      if w.txs n = none then w.redeem digest n token password else none
  | .begin n hash =>
      match w.txs n with
      | some (.hashing org link) => some (w.write n (.began org link hash w.now))
      | _ => none
  | .spend n =>
      match w.txs n with
      | some (.began org link hash at_) => w.spendLink n org link hash at_
      | _ => none
  | .read n =>
      match w.txs n with
      | some (.spent u link hash at_) => some (w.readAccount n u link hash at_)
      | _ => none
  | .write n =>
      match w.txs n with
      | some (.allowed u link hash at_) =>
          if w.accountLocked u = none then
            some { w.write n (.written u link hash at_) with
              accountLocked := Function.update w.accountLocked u (some n) }
          else none
      | _ => none
  | .commit n =>
      match w.txs n with
      | some tx => w.commit n tx
      | none => none
  | .fail n =>
      match w.txs n with
      | some _ => some (w.finish n)
      | none => none

-- ================================================== what one step can do

/-- Every step, with what it found. -/
inductive Moved (w : World) : Action → World → Prop where
  | tick : Moved w .tick { w with now := w.now + 1 }
  | account (u : UserId) (account : Account) (hfree : w.accountLocked u = none) :
      Moved w (.account u account)
        { w with accounts := Function.update w.accounts u (some account) }
  /-- A call begins. -/
  | start (act : Action) (n : Nat) (tx : Tx) (hn : w.txs n = none) (hlinks : tx.links = [])
      (hfound : ∀ u link hash at_, tx ≠ .allowed u link hash at_ ∧ tx ≠ .written u link hash at_)
      (hknown : ∀ u link expiresAt at_ known left mine,
        tx ≠ .retiring u link expiresAt at_ known left mine ∧
          tx ≠ .issued u link expiresAt at_ known mine) :
      Moved w act { w.write n tx with calls := n :: w.calls }
  | retire (n : Nat) (u : UserId) (link : LinkId) (expiresAt : Time)
      (hn : w.txs n = some (.found u link expiresAt)) :
      Moved w (.retire n) (w.write n (.retiring u link expiresAt w.now (w.linksOf u)
        ((w.linksOf u).filter w.unspent) []))
  | lockRow (n : Nat) (u : UserId) (link : LinkId) (expiresAt at_ : Time)
      (known left mine : List LinkId) (l : LinkId)
      (hn : w.txs n = some (.retiring u link expiresAt at_ known (l :: left) mine))
      (hfree : w.locked l = none) (hunspent : w.unspent l = true) :
      Moved w (.retireRow n)
        ((w.lock n l).write n (.retiring u link expiresAt at_ known left (l :: mine)))
  | skipRow (n : Nat) (u : UserId) (link : LinkId) (expiresAt at_ : Time)
      (known left mine : List LinkId) (l : LinkId)
      (hn : w.txs n = some (.retiring u link expiresAt at_ known (l :: left) mine))
      (hspent : w.unspent l = false) :
      Moved w (.retireRow n) (w.write n (.retiring u link expiresAt at_ known left mine))
  | issue (n : Nat) (u : UserId) (link : LinkId) (expiresAt at_ : Time) (known mine : List LinkId)
      (hn : w.txs n = some (.retiring u link expiresAt at_ known [] mine)) :
      Moved w (.issue n) (w.write n (.issued u link expiresAt at_ known mine))
  | begin (n : Nat) (org : String) (link : LinkId) (hash : String)
      (hn : w.txs n = some (.hashing org link)) :
      Moved w (.begin n hash) (w.write n (.began org link hash w.now))
  | spend (n : Nat) (org : String) (link : LinkId) (hash : String) (at_ : Time) (row : Link)
      (hn : w.txs n = some (.began org link hash at_)) (hfree : w.locked link = none)
      (hrow : w.links link = some row) (hlive : row.usedAt = none) :
      Moved w (.spend n) ((w.lock n link).write n (.spent row.user link hash at_))
  | bar (n : Nat) (u : UserId) (link : LinkId) (hash : String) (at_ : Time)
      (hn : w.txs n = some (.spent u link hash at_)) :
      Moved w (.read n) (w.write n (.barred u link at_))
  | allow (n : Nat) (u : UserId) (link : LinkId) (hash : String) (at_ : Time) (account : Account)
      (hn : w.txs n = some (.spent u link hash at_)) (haccount : w.accounts u = some account)
      (hopen : account.disabled = false ∧ account.isShared = false) :
      Moved w (.read n) (w.write n (.allowed u link hash at_))
  | write (n : Nat) (u : UserId) (link : LinkId) (hash : String) (at_ : Time)
      (hn : w.txs n = some (.allowed u link hash at_)) (hfree : w.accountLocked u = none) :
      Moved w (.write n)
        { w.write n (.written u link hash at_) with
          accountLocked := Function.update w.accountLocked u (some n) }
  | stored (n : Nat) (u : UserId) (link : LinkId) (expiresAt at_ : Time)
      (known mine : List LinkId) (hn : w.txs n = some (.issued u link expiresAt at_ known mine))
      (hnew : w.links link = none) :
      Moved w (.commit n) ((w.settle n mine at_).store link u expiresAt)
  | reset (n : Nat) (u : UserId) (link : LinkId) (hash : String) (at_ : Time) (account : Account)
      (hn : w.txs n = some (.written u link hash at_)) (haccount : w.accounts u = some account) :
      Moved w (.commit n) ((w.settle n [link] at_).setPassword u link account hash)
  | barred (n : Nat) (u : UserId) (link : LinkId) (at_ : Time)
      (hn : w.txs n = some (.barred u link at_)) :
      Moved w (.commit n) (w.settle n [link] at_)
  | finish (act : Action) (n : Nat) (tx : Tx) (hn : w.txs n = some tx) :
      Moved w act (w.finish n)

variable {digest : String → LinkId} {w w' : World} {n : Nat}

theorem redeem_moved {token password : String} (hn : w.txs n = none)
    (h : w.redeem digest n token password = some w') :
    Moved w (.redeem n token password) w' := by
  unfold World.redeem at h
  split at h
  next => cases h
  next =>
    split at h
    next => cases h
    next org _ =>
      split at h
      next =>
        cases h
        exact .start _ n (.hashing org (digest token)) hn rfl (fun _ _ _ _ => ⟨nofun, nofun⟩)
          (fun _ _ _ _ _ _ _ => ⟨nofun, nofun⟩)
      next => cases h

theorem spendLink_moved {org hash : String} {link : LinkId} {at_ : Time}
    (hn : w.txs n = some (.began org link hash at_))
    (h : w.spendLink n org link hash at_ = some w') : Moved w (.spend n) w' := by
  unfold World.spendLink at h
  split at h
  next => cases h
  next hfree =>
    have hfree : w.locked link = none := by simpa using hfree
    split at h
    next =>
      cases h
      exact .finish _ n _ hn
    next row hrow =>
      split at h
      next hlive =>
        cases h
        have hunused : row.usedAt = none := by
          have := hlive.2
          simp only [Link.live, Bool.and_eq_true, Option.isNone_iff_eq_none] at this
          exact this.1
        exact .spend n org link hash at_ row hn hfree hrow hunused
      next =>
        cases h
        exact .finish _ n _ hn

theorem readAccount_moved {u : UserId} {link : LinkId} {hash : String} {at_ : Time}
    (hn : w.txs n = some (.spent u link hash at_)) :
    Moved w (.read n) (w.readAccount n u link hash at_) := by
  unfold World.readAccount
  split
  next => exact .bar n u link hash at_ hn
  next account haccount =>
    split
    next => exact .bar n u link hash at_ hn
    next hopen =>
      have hopen : account.disabled = false ∧ account.isShared = false := by simpa using hopen
      exact .allow n u link hash at_ account hn haccount hopen

theorem commit_moved {tx : Tx} (hn : w.txs n = some tx) (h : w.commit n tx = some w') :
    Moved w (.commit n) w' := by
  cases tx with
  | issued u link expiresAt at_ known mine =>
      simp only [World.commit] at h
      split at h
      next hnew =>
        cases h
        exact .stored n u link expiresAt at_ known mine hn hnew
      next => cases h
  | written u link hash at_ =>
      simp only [World.commit] at h
      split at h
      next => cases h
      next account haccount =>
        cases h
        exact .reset n u link hash at_ account hn haccount
  | barred u link at_ =>
      cases h
      exact .barred n u link at_ hn
  | _ => cases h

theorem step_moved {act : Action} (h : step digest w act = some w') : Moved w act w' := by
  cases act with
  | tick =>
      cases h
      exact .tick
  | account u account =>
      simp only [step] at h
      split at h
      next hfree =>
        cases h
        exact .account u account hfree
      next => cases h
  | request n u link expiresAt =>
      simp only [step] at h
      split at h
      next hnew =>
        cases h
        exact .start _ n (.found u link expiresAt) hnew.1 rfl (fun _ _ _ _ => ⟨nofun, nofun⟩)
          (fun _ _ _ _ _ _ _ => ⟨nofun, nofun⟩)
      next => cases h
  | retire n =>
      simp only [step] at h
      split at h
      next u link expiresAt hn =>
        cases h
        exact .retire n u link expiresAt hn
      next => cases h
  | retireRow n =>
      simp only [step] at h
      split at h
      next u link expiresAt at_ known l left mine hn =>
        unfold World.retireRow at h
        split at h
        next => cases h
        next hfree =>
          split at h
          next hunspent =>
            cases h
            exact .lockRow n u link expiresAt at_ known left mine l hn (by simpa using hfree)
              hunspent
          next hspent =>
            cases h
            exact .skipRow n u link expiresAt at_ known left mine l hn (by simpa using hspent)
      next => cases h
  | issue n =>
      simp only [step] at h
      split at h
      next u link expiresAt at_ known mine hn =>
        cases h
        exact .issue n u link expiresAt at_ known mine hn
      next => cases h
  | redeem n token password =>
      simp only [step] at h
      split at h
      next hn => exact redeem_moved hn h
      next => cases h
  | «begin» n hash =>
      simp only [step] at h
      split at h
      next org link hn =>
        cases h
        exact .begin n org link hash hn
      next => cases h
  | spend n =>
      simp only [step] at h
      split at h
      next org link hash at_ hn => exact spendLink_moved hn h
      next => cases h
  | read n =>
      simp only [step] at h
      split at h
      next u link hash at_ hn =>
        cases h
        exact readAccount_moved hn
      next => cases h
  | write n =>
      simp only [step] at h
      split at h
      next u link hash at_ hn =>
        split at h
        next hfree =>
          cases h
          exact .write n u link hash at_ hn hfree
        next => cases h
      next => cases h
  | commit n =>
      simp only [step] at h
      split at h
      next tx hn => exact commit_moved hn h
      next => cases h
  | fail n =>
      simp only [step] at h
      split at h
      next tx hn =>
        cases h
        exact .finish _ n tx hn
      next => cases h

end Nacre.Recovery
