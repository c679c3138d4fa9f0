/-
The outbox of notifications (worker/src/notify.ts: `address`, `finish`,
`sendNotifications`, `expireNotifications`).

# What is a step

A pass of `sendNotifications` claims, in one transaction, notifications that
are queued and due: the UPDATE locks their rows, skipping what others have
locked, and `address` then reads, for one after the other and in a statement
of its own, who a notification goes to and where it came from. After the
commit the pass takes them in turn, sends to one person after the other, and
writes what became of each in a second transaction, `finish`. A pass can stop
anywhere: what it had not committed is as it was.

`finish` and `expireNotifications` write rows that nobody has locked, and a
line of the log that nobody reads: each is one step. `at_` is `now()`, when
the transaction began. Which due rows a limited statement takes is the
database's choice, here the list it is given.

The mailer delivers when `send` returns, and not when it throws.

# Ghosts

`messages`: what was delivered. `addressed`: what `address` read, with the
accounts there were at that moment. `ids`: the notifications there ever were.
-/
import Mathlib.Algebra.Group.Nat.Defs
import Mathlib.Data.List.Sort
import Mathlib.Logic.Function.Basic
import Nacre.Lib.Transition
import Nacre.Store.Rows

namespace Nacre.Notify

open Nacre.Store (Time)

abbrev OrgId := String
abbrev UserId := String
abbrev ConsentId := String
abbrev RuleId := String
abbrev NotificationId := String

def MINUTE : Nat := 60
def DAY : Nat := 86400

/-- Attempts at a relay before a message is given up on. -/
def SEND_ATTEMPTS : Nat := 3

/-- `left(s, n)`. -/
def left (n : Nat) (s : String) : String := String.ofList (s.toList.take n)

-- =============================================================== the rows

/-- A row of `users`. -/
structure User where
  org : OrgId
  email : String
  orgAdmin : Bool := false
  disabled : Bool := false
  deriving DecidableEq

/-- A row of `oauth_consents`, with its client's name. -/
structure Consent where
  org : OrgId
  clientName : String
  deriving DecidableEq

/-- A row of `alert_rules`, with what `ruleSentence` says it watches. -/
structure Rule where
  org : OrgId
  createdBy : UserId
  sentence : String
  removed : Bool := false
  deriving DecidableEq

/-- What sent it: an agent's is applied by a person through a connection. -/
inductive Source where
  | agent (sentBy : UserId) (consent : ConsentId)
  | rule (rule : RuleId)
  deriving DecidableEq

inductive Status where
  | queued
  | sending
  | sent
  | failed
  | dropped
  deriving DecidableEq

def Status.terminal : Status → Bool
  | .sent | .failed | .dropped => true
  | .queued | .sending => false

/-- A row of `notifications`. -/
structure Notification where
  org : OrgId
  recipients : List UserId
  toOrgAdmins : Bool
  subject : String
  body : String
  source : Source
  status : Status := .queued
  attempts : Nat := 0
  notBefore : Time
  createdAt : Time
  claimedAt : Option Time := none
  finishedAt : Option Time := none
  delivered : Option Nat := none
  error : Option String := none
  deriving DecidableEq

/-- Where a notification came from, for the message's last line. -/
inductive NotificationOrigin where
  | agent (appliedBy application : String)
  | rule (when_ : String) (ruleBy : Option String)
  deriving DecidableEq

structure Person where
  id : UserId
  email : String
  deriving DecidableEq

/-- A claimed notification, and what `address` says of it. -/
structure Item where
  id : NotificationId
  n : Notification
  people : List Person
  origin : Option NotificationOrigin
  deriving DecidableEq

inductive Outcome where
  | sent (to_ : List UserId) (missed : Nat) (error : Option String)
  | dropped (error : String)
  | retry (error : String)
  | failed (error : String)
  deriving DecidableEq

/-- A `notification.sent` of the log. -/
structure Event where
  org : OrgId
  notification : NotificationId
  source : Source
  outcome : Status
  recipients : List UserId := []
  undelivered : Nat := 0
  error : Option String := none
  deriving DecidableEq

-- =============================================================== a pass

/-- A pass of `sendNotifications`. -/
inductive Pass where
  /-- The transaction of the claim: the rows still to address. -/
  | claiming (at_ : Time) (todo : List NotificationId) (out : List Item)
  /-- The claim is committed; between two notifications. -/
  | sending (rest : List Item)
  /-- In the loop over the people of one. -/
  | mailing (item : Item) (left : List Person) (to_ : List UserId) (lastError : String)
      (rest : List Item)
  | finishing (item : Item) (outcome : Outcome) (rest : List Item)
  deriving DecidableEq

/-- The rows it has claimed and not addressed. -/
def Pass.todo : Pass → List NotificationId
  | .claiming _ todo _ => todo
  | _ => []

/-- The notifications it has addressed and not finished. -/
def Pass.items : Pass → List Item
  | .claiming _ _ out => out
  | .sending rest => rest
  | .mailing item _ _ _ rest => item :: rest
  | .finishing item _ rest => item :: rest

/-- The notifications that are this pass's to finish. -/
def Pass.ids (pass : Pass) : List NotificationId := pass.todo ++ pass.items.map (·.id)

/-- The claim is not committed. -/
def Pass.uncommitted : Pass → Bool
  | .claiming .. => true
  | _ => false

/-- A message that was delivered. -/
structure Message where
  notification : NotificationId
  n : Notification
  to_ : Person
  origin : NotificationOrigin
  deriving DecidableEq

/-- What `address` read, and the accounts there were. -/
structure Addressed where
  id : NotificationId
  n : Notification
  users : UserId → Option User

structure World where
  now : Time
  users : UserId → Option User
  userIds : List UserId
  consents : ConsentId → Option Consent
  rules : RuleId → Option Rule
  rows : NotificationId → Option Notification
  /-- Every notification there ever was. -/
  ids : List NotificationId
  locked : NotificationId → Option Nat
  passes : Nat → Option Pass
  audit : List Event
  messages : List Message
  addressed : List Addressed

def World.new (now : Time) : World where
  now := now
  users _ := none
  userIds := []
  consents _ := none
  rules _ := none
  rows _ := none
  ids := []
  locked _ := none
  passes _ := none
  audit := []
  messages := []
  addressed := []

def init (w : World) : Prop := ∃ now, w = World.new now

-- ================================================================ address

/-- Active, in the notification's own organization, and named by it. -/
def User.reached (user : User) (n : Notification) (u : UserId) : Bool :=
  user.org = n.org && !user.disabled && (u ∈ n.recipients || n.toOrgAdmins && user.orgAdmin)

def World.person (w : World) (n : Notification) (u : UserId) : Option Person :=
  match w.users u with
  | some user => if user.reached n u then some { id := u, email := user.email } else none
  | none => none

/-- Who it goes to, now, in the order of the database's collation. -/
def World.people (collate : String → String → Bool) (w : World) (n : Notification) :
    List Person :=
  (w.userIds.filterMap (w.person n)).insertionSort fun p q => collate p.email q.email = true

/-- Where it came from, unless the connection, the person who applied it, or
the rule is gone. -/
def World.origin (w : World) (n : Notification) : Option NotificationOrigin :=
  match n.source with
  | .agent sentBy consent =>
      match w.users sentBy, w.consents consent with
      | some user, some row =>
          if user.org = n.org ∧ row.org = n.org then some (.agent user.email row.clientName)
          else none
      | _, _ => none
  | .rule rule =>
      match w.rules rule with
      | some row =>
          if row.org = n.org ∧ row.removed = false then
            some (.rule row.sentence
              (((w.users row.createdBy).filter (·.org = n.org)).map (·.email)))
          else none
      | none => none

-- ============================================================= statements

/-- `status = 'queued' AND not_before <= now()`. -/
def Notification.due (n : Notification) (at_ : Time) : Bool :=
  n.status = .queued && n.notBefore ≤ at_

def Notification.claim (n : Notification) (at_ : Time) : Notification :=
  { n with status := .sending, claimedAt := some at_, attempts := n.attempts + 1 }

/-- The row's end: nothing asks whose claim it is. -/
def Notification.finish (n : Notification) (at_ : Time) : Outcome → Notification
  | .retry error =>
      { n with status := .queued, claimedAt := none, error := some (left 500 error),
               notBefore := at_ + 2 ^ n.attempts * MINUTE }
  | .sent to_ _ error =>
      { n with status := .sent, finishedAt := some at_, delivered := some to_.length,
               error := error.map (left 500) }
  | .dropped error =>
      { n with status := .dropped, finishedAt := some at_, delivered := some 0,
               error := some (left 500 error) }
  | .failed error =>
      { n with status := .failed, finishedAt := some at_, delivered := some 0,
               error := some (left 500 error) }

/-- The log's line about it; a retry has none. -/
def Outcome.event (item : Item) : Outcome → Option Event
  | .retry _ => none
  | .sent to_ missed error =>
      some { org := item.n.org, notification := item.id, source := item.n.source,
             outcome := .sent, recipients := to_, undelivered := missed,
             error := error.map (left 200) }
  | .dropped error =>
      some { org := item.n.org, notification := item.id, source := item.n.source,
             outcome := .dropped, error := some (left 200 error) }
  | .failed error =>
      some { org := item.n.org, notification := item.id, source := item.n.source,
             outcome := .failed, error := some (left 200 error) }

/-- Queued for a day, or half-sent for fifteen minutes. -/
def Notification.expired (n : Notification) (at_ : Time) : Bool :=
  n.status = .queued && n.createdAt + DAY < at_
    || n.status = .sending && n.claimedAt.any (· + 15 * MINUTE < at_)

def Notification.expire (n : Notification) (at_ : Time) : Notification :=
  { n with
    status := if n.status = .queued then .dropped else .failed
    finishedAt := some at_
    delivered := some 0
    error := some (if n.status = .queued then "not sent within a day"
      else "interrupted while sending; not sent again, so nobody gets it twice") }

/-- The log's line about a row that was expired. -/
def Notification.expiry (n : Notification) (id : NotificationId) : Event :=
  { org := n.org, notification := id, source := n.source, outcome := n.status, error := n.error }

/-- What the loop over the people comes to. -/
def Item.outcome (item : Item) (to_ : List UserId) (lastError : String) : Outcome :=
  if to_ ≠ [] then
    .sent to_ (item.people.length - to_.length) (if lastError = "" then none else some lastError)
  else if item.n.attempts < SEND_ATTEMPTS then .retry lastError
  else .failed lastError

/-- What is not sent at all. -/
def Item.refusal (item : Item) : Option String :=
  match item.origin with
  | none =>
      match item.n.source with
      | .rule _ => some "the rule was removed"
      | .agent .. => some "the connection or the person who applied it is gone"
  | some _ =>
      if item.people = [] then
        some "nobody it was addressed to is an active person in the organization any more"
      else none

-- ================================================================== steps

def World.put (w : World) (p : Nat) (pass : Pass) : World :=
  { w with passes := Function.update w.passes p (some pass) }

/-- The claim's UPDATE: the rows are locked, and written at the commit. -/
def World.claim (w : World) (p : Nat) (at_ : Time) (ids : List NotificationId) : World :=
  { w.put p (.claiming at_ ids []) with
    locked := fun id => if id ∈ ids then some p else w.locked id }

def World.unlock (w : World) (p : Nat) : World :=
  { w with locked := fun id => if w.locked id = some p then none else w.locked id }

def World.address (collate : String → String → Bool) (w : World) (p : Nat) (at_ : Time)
    (id : NotificationId) (todo : List NotificationId) (out : List Item) (row : Notification) :
    World :=
  let n := row.claim at_
  { w.put p (.claiming at_ todo
      (out ++ [{ id, n, people := w.people collate n, origin := w.origin n }])) with
    addressed := { id, n, users := w.users } :: w.addressed }

/-- The claim's commit. -/
def World.commit (w : World) (p : Nat) (out : List Item) : World :=
  { (w.put p (.sending out)).unlock p with
    rows := fun id =>
      match out.find? (·.id = id) with
      | some item => some item.n
      | none => w.rows id }

def World.deliver (w : World) (p : Nat) (item : Item) (origin : NotificationOrigin)
    (person : Person) (left : List Person) (to_ : List UserId) (lastError : String)
    (rest : List Item) : World :=
  { w.put p (.mailing item left (to_ ++ [person.id]) lastError rest) with
    messages := { notification := item.id, n := item.n, to_ := person, origin } :: w.messages }

/-- `WHERE org_id = $1 AND id = $2`, and the line of the log. -/
def World.finish (w : World) (p : Nat) (at_ : Time) (item : Item) (outcome : Outcome)
    (rest : List Item) : World :=
  { w.put p (.sending rest) with
    rows := Function.update w.rows item.id
      ((w.rows item.id).map fun row =>
        if row.org = item.n.org then row.finish at_ outcome else row)
    audit := (outcome.event item).toList ++ w.audit }

/-- The pass is over, or stops where it is. -/
def World.stop (w : World) (p : Nat) : World :=
  { w.unlock p with passes := Function.update w.passes p none }

def World.expire (w : World) (at_ : Time) (ids : List NotificationId) : World :=
  { w with
    rows := fun id => if id ∈ ids then (w.rows id).map (·.expire at_) else w.rows id
    audit := (ids.filterMap fun id => (w.rows id).map fun row => (row.expire at_).expiry id)
      ++ w.audit }

def World.prune (w : World) (ids : List NotificationId) : World :=
  { w with rows := fun id => if id ∈ ids then none else w.rows id }

inductive Action where
  | tick
  /-- Whoever administers people, connections and rules. -/
  | user (u : UserId) (user : Option User)
  | consent (c : ConsentId) (consent : Option Consent)
  | rule (r : RuleId) (rule : Option Rule)
  /-- A notification is put into the outbox. -/
  | queue (id : NotificationId) (n : Notification)
  /-- A pass begins, with the rows its UPDATE takes. -/
  | claim (p : Nat) (at_ : Time) (limit : Nat) (ids : List NotificationId)
  | address (p : Nat)
  | commit (p : Nat)
  /-- The pass comes to its next notification. -/
  | next (p : Nat)
  | deliver (p : Nat)
  /-- `send` throws. -/
  | refuse (p : Nat) (error : String)
  /-- The loop over the people is through. -/
  | conclude (p : Nat)
  | finish (p : Nat) (at_ : Time)
  | stop (p : Nat)
  | expire (at_ : Time) (ids : List NotificationId)
  | prune (at_ : Time) (retentionDays : Nat) (ids : List NotificationId)
  deriving DecidableEq

def step (collate : String → String → Bool) (w : World) : Action → Option World
  | .tick => some { w with now := w.now + 1 }
  | .user u user =>
      some { w with users := Function.update w.users u user
                    userIds := if u ∈ w.userIds then w.userIds else u :: w.userIds }
  | .consent c consent => some { w with consents := Function.update w.consents c consent }
  | .rule r rule => some { w with rules := Function.update w.rules r rule }
  | .queue id n =>
      if id ∉ w.ids ∧ n.status = .queued ∧ n.finishedAt = none then
        some { w with rows := Function.update w.rows id (some n), ids := id :: w.ids }
      else none
  | .claim p at_ limit ids =>
      if w.passes p = none ∧ at_ ≤ w.now ∧ ids.Nodup ∧ ids.length ≤ limit
          ∧ ∀ id ∈ ids, w.locked id = none ∧ (w.rows id).any (·.due at_) then
        some (w.claim p at_ ids)
      else none
  | .address p =>
      match w.passes p with
      | some (.claiming at_ (id :: todo) out) =>
          match w.rows id with
          | some row => some (w.address collate p at_ id todo out row)
          | none => none
      | _ => none
  | .commit p =>
      match w.passes p with
      | some (.claiming _ [] out) => some (w.commit p out)
      | _ => none
  | .next p =>
      match w.passes p with
      | some (.sending (item :: rest)) =>
          match item.refusal with
          | some error => some (w.put p (.finishing item (.dropped error) rest))
          | none => some (w.put p (.mailing item item.people [] "" rest))
      | _ => none
  | .deliver p =>
      match w.passes p with
      | some (.mailing item (person :: left) to_ lastError rest) =>
          match item.origin with
          | some origin => some (w.deliver p item origin person left to_ lastError rest)
          | none => none
      | _ => none
  | .refuse p error =>
      match w.passes p with
      | some (.mailing item (_ :: left) to_ _ rest) =>
          some (w.put p (.mailing item left to_ error rest))
      | _ => none
  | .conclude p =>
      match w.passes p with
      | some (.mailing item [] to_ lastError rest) =>
          some (w.put p (.finishing item (item.outcome to_ lastError) rest))
      | _ => none
  | .finish p at_ =>
      match w.passes p with
      | some (.finishing item outcome rest) =>
          if at_ ≤ w.now ∧ w.locked item.id = none then some (w.finish p at_ item outcome rest)
          else none
      | _ => none
  | .stop p =>
      match w.passes p with
      | some _ => some (w.stop p)
      | none => none
  | .expire at_ ids =>
      if at_ ≤ w.now ∧ ids.Nodup ∧ ids.length ≤ 200
          ∧ ∀ id ∈ ids, w.locked id = none ∧ (w.rows id).any (·.expired at_) then
        some (w.expire at_ ids)
      else none
  | .prune at_ retentionDays ids =>
      if at_ ≤ w.now ∧ ids.Nodup ∧ ids.length ≤ 2000
          ∧ ∀ id ∈ ids, w.locked id = none
            ∧ (w.rows id).any fun row => row.finishedAt.any (· + retentionDays * DAY < at_) then
        some (w.prune ids)
      else none

-- ================================================== what one step can do

/-- Every step, with what it found. -/
inductive Moved (collate : String → String → Bool) (w : World) : Action → World → Prop where
  | elsewhere (act : Action) (w' : World) (hrows : w'.rows = w.rows) (hids : w'.ids = w.ids)
      (hlocked : w'.locked = w.locked) (hpasses : w'.passes = w.passes)
      (haudit : w'.audit = w.audit) (hmessages : w'.messages = w.messages)
      (haddressed : w'.addressed = w.addressed)
      (husers : w.userIds.Nodup → w'.userIds.Nodup) : Moved collate w act w'
  | queue (id : NotificationId) (n : Notification) (hnew : id ∉ w.ids)
      (hqueued : n.status = .queued) (hunfinished : n.finishedAt = none) :
      Moved collate w (.queue id n)
        { w with rows := Function.update w.rows id (some n), ids := id :: w.ids }
  | claim (p : Nat) (at_ : Time) (limit : Nat) (ids : List NotificationId)
      (hp : w.passes p = none) (hnodup : ids.Nodup) (hfree : ∀ id ∈ ids, w.locked id = none)
      (hdue : ∀ id ∈ ids, ∃ row, w.rows id = some row ∧ row.status = .queued) :
      Moved collate w (.claim p at_ limit ids) (w.claim p at_ ids)
  | address (p : Nat) (at_ : Time) (id : NotificationId) (todo : List NotificationId)
      (out : List Item) (row : Notification)
      (hp : w.passes p = some (.claiming at_ (id :: todo) out)) (hrow : w.rows id = some row) :
      Moved collate w (.address p) (w.address collate p at_ id todo out row)
  | commit (p : Nat) (at_ : Time) (out : List Item)
      (hp : w.passes p = some (.claiming at_ [] out)) :
      Moved collate w (.commit p) (w.commit p out)
  | drop (p : Nat) (item : Item) (rest : List Item) (error : String)
      (hp : w.passes p = some (.sending (item :: rest))) :
      Moved collate w (.next p) (w.put p (.finishing item (.dropped error) rest))
  | mail (p : Nat) (item : Item) (rest : List Item)
      (hp : w.passes p = some (.sending (item :: rest))) :
      Moved collate w (.next p) (w.put p (.mailing item item.people [] "" rest))
  | deliver (p : Nat) (item : Item) (origin : NotificationOrigin) (person : Person)
      (left : List Person) (to_ : List UserId) (lastError : String) (rest : List Item)
      (hp : w.passes p = some (.mailing item (person :: left) to_ lastError rest)) :
      Moved collate w (.deliver p) (w.deliver p item origin person left to_ lastError rest)
  | refuse (p : Nat) (error : String) (item : Item) (person : Person) (left : List Person)
      (to_ : List UserId) (lastError : String) (rest : List Item)
      (hp : w.passes p = some (.mailing item (person :: left) to_ lastError rest)) :
      Moved collate w (.refuse p error) (w.put p (.mailing item left to_ error rest))
  | conclude (p : Nat) (item : Item) (to_ : List UserId) (lastError : String) (rest : List Item)
      (hp : w.passes p = some (.mailing item [] to_ lastError rest)) :
      Moved collate w (.conclude p)
        (w.put p (.finishing item (item.outcome to_ lastError) rest))
  | finish (p : Nat) (at_ : Time) (item : Item) (outcome : Outcome) (rest : List Item)
      (hp : w.passes p = some (.finishing item outcome rest)) :
      Moved collate w (.finish p at_) (w.finish p at_ item outcome rest)
  | stop (p : Nat) (pass : Pass) (hp : w.passes p = some pass) :
      Moved collate w (.stop p) (w.stop p)
  | expire (at_ : Time) (ids : List NotificationId) (hnodup : ids.Nodup)
      (hfree : ∀ id ∈ ids, w.locked id = none)
      (hdue : ∀ id ∈ ids, ∃ row, w.rows id = some row ∧ row.status.terminal = false) :
      Moved collate w (.expire at_ ids) (w.expire at_ ids)
  | prune (at_ : Time) (retentionDays : Nat) (ids : List NotificationId)
      (hfree : ∀ id ∈ ids, w.locked id = none)
      (hdone : ∀ id ∈ ids, ∃ row, w.rows id = some row ∧ row.finishedAt ≠ none) :
      Moved collate w (.prune at_ retentionDays ids) (w.prune ids)

variable {collate : String → String → Bool} {w w' : World}

theorem Notification.due_queued {n : Notification} {at_ : Time} (h : n.due at_ = true) :
    n.status = .queued := by
  unfold Notification.due at h
  simp only [Bool.and_eq_true, decide_eq_true_eq] at h
  exact h.1

theorem Notification.expired_open {n : Notification} {at_ : Time} (h : n.expired at_ = true) :
    n.status.terminal = false := by
  unfold Notification.expired at h
  simp only [Bool.or_eq_true, Bool.and_eq_true, decide_eq_true_eq] at h
  obtain ⟨hstatus, -⟩ | ⟨hstatus, -⟩ := h <;> rw [hstatus] <;> rfl

theorem step_moved {act : Action} (h : step collate w act = some w') : Moved collate w act w' := by
  cases act with
  | tick =>
      cases h
      exact .elsewhere _ _ rfl rfl rfl rfl rfl rfl rfl id
  | user u user =>
      cases h
      refine .elsewhere _ _ rfl rfl rfl rfl rfl rfl rfl fun hnodup => ?_
      show (if u ∈ w.userIds then w.userIds else u :: w.userIds).Nodup
      split
      next => exact hnodup
      next hnew => exact List.nodup_cons.mpr ⟨hnew, hnodup⟩
  | consent c consent =>
      cases h
      exact .elsewhere _ _ rfl rfl rfl rfl rfl rfl rfl id
  | rule r rule =>
      cases h
      exact .elsewhere _ _ rfl rfl rfl rfl rfl rfl rfl id
  | queue id n =>
      simp only [step, Option.ite_none_right_eq_some, Option.some.injEq] at h
      obtain ⟨⟨hnew, hqueued, hunfinished⟩, rfl⟩ := h
      exact .queue id n hnew hqueued hunfinished
  | claim p at_ limit ids =>
      simp only [step, Option.ite_none_right_eq_some, Option.some.injEq] at h
      obtain ⟨⟨hp, -, hnodup, -, hall⟩, rfl⟩ := h
      refine .claim p at_ limit ids hp hnodup (fun id hid => (hall id hid).1) fun id hid => ?_
      obtain ⟨row, hrow, hdue⟩ := (Option.any_eq_true _ _).mp (hall id hid).2
      exact ⟨row, hrow, Notification.due_queued hdue⟩
  | address p =>
      simp only [step] at h
      split at h
      next at_ id todo out hp =>
        split at h
        next row hrow =>
          cases h
          exact .address p at_ id todo out row hp hrow
        next => cases h
      next => cases h
  | commit p =>
      simp only [step] at h
      split at h
      next at_ out hp =>
        cases h
        exact .commit p at_ out hp
      next => cases h
  | next p =>
      simp only [step] at h
      split at h
      next item rest hp =>
        split at h
        next error _ =>
          cases h
          exact .drop p item rest error hp
        next =>
          cases h
          exact .mail p item rest hp
      next => cases h
  | deliver p =>
      simp only [step] at h
      split at h
      next item person left to_ lastError rest hp =>
        split at h
        next origin _ =>
          cases h
          exact .deliver p item origin person left to_ lastError rest hp
        next => cases h
      next => cases h
  | refuse p error =>
      simp only [step] at h
      split at h
      next item person left to_ lastError rest hp =>
        cases h
        exact .refuse p error item person left to_ lastError rest hp
      next => cases h
  | conclude p =>
      simp only [step] at h
      split at h
      next item to_ lastError rest hp =>
        cases h
        exact .conclude p item to_ lastError rest hp
      next => cases h
  | finish p at_ =>
      simp only [step] at h
      split at h
      next item outcome rest hp =>
        simp only [Option.ite_none_right_eq_some, Option.some.injEq] at h
        obtain ⟨-, rfl⟩ := h
        exact .finish p at_ item outcome rest hp
      next => cases h
  | stop p =>
      simp only [step] at h
      split at h
      next pass hp =>
        cases h
        exact .stop p pass hp
      next => cases h
  | expire at_ ids =>
      simp only [step, Option.ite_none_right_eq_some, Option.some.injEq] at h
      obtain ⟨⟨-, hnodup, -, hall⟩, rfl⟩ := h
      refine .expire at_ ids hnodup (fun id hid => (hall id hid).1) fun id hid => ?_
      obtain ⟨row, hrow, hexpired⟩ := (Option.any_eq_true _ _).mp (hall id hid).2
      exact ⟨row, hrow, Notification.expired_open hexpired⟩
  | prune at_ retentionDays ids =>
      simp only [step, Option.ite_none_right_eq_some, Option.some.injEq] at h
      obtain ⟨⟨-, -, -, hall⟩, rfl⟩ := h
      refine .prune at_ retentionDays ids (fun id hid => (hall id hid).1) fun id hid => ?_
      obtain ⟨row, hrow, hdone⟩ := (Option.any_eq_true _ _).mp (hall id hid).2
      refine ⟨row, hrow, fun hnone => ?_⟩
      rw [hnone] at hdone
      cases hdone

end Nacre.Notify
