/-
What puts rows into `notifications` and `alert_rules`
(api/src/notifications.ts: `enqueue`, `createRule`, `removeRule`;
worker/src/notify.ts: `queue`, `evaluateAlertRules`), and how the bounds
on both are kept: by counting before the insert, under a lock of the
organization's.

# What is a step

A request or a pass is one transaction, and each of its statements is a
step. The transactions read what is committed when the statement begins
(READ COMMITTED) and what they wrote themselves; the advisory locks and
the rows they lock are theirs until they end. A statement that waits is
not enabled. Any transaction may be rolled back at any moment: a check of
the table's, a deadlock, a connection that is lost.

`now()` is when the transaction began, which is what a row is dated: any
time up to its first statement, `stamp`. So rows come in in another order
than their dates.

# What is not here

What a pass finds (`find`) is given. Which due rules a limited statement
takes is the database's choice, here the list it is given. A row's way
through the outbox is `Notify.Outbox`; here it may be deleted at any
moment.
-/
import Nacre.Lib.Quota
import Nacre.Lib.Transition
import Nacre.Notify.Outbox

namespace Nacre.Alerts

open Nacre.Notify (OrgId UserId ConsentId RuleId Source left)
open Nacre.Store (Time)

abbrev LayerId := String

-- =============================================================== constants

-- The ticks of a second: a million, in `timestamptz`.
variable (second : Nat)

def HOUR : Nat := 3600 * second
def SETTLE : Nat := 15 * second

def NOTIFY_PER_HOUR : Nat := 30
def MAX_ALERT_RULES : Nat := 50
def RULE_BATCH : Nat := 100

-- =================================================================== rows

inductive AlertKind where
  | skillByAgent
  | skillScripts
  | adminConnection
  | denialSpike
  | documentsFailed
  deriving DecidableEq

structure NewAlertRule where
  kind : AlertKind
  layerId : Option LayerId
  threshold : Option Nat
  windowMinutes : Option Nat
  recipients : List UserId
  toOrgAdmins : Bool
  deriving DecidableEq

/-- A row of `alert_rules`. -/
structure AlertRule extends NewAlertRule where
  id : RuleId
  org : OrgId
  createdBy : UserId
  createdAt : Time
  checkedUntil : Time
  lastFiredAt : Option Time := none
  removedAt : Option Time := none
  deriving DecidableEq

/-- What an insert into `notifications` gives. -/
structure Message where
  org : OrgId
  recipients : List UserId
  toOrgAdmins : Bool
  subject : String
  body : String
  source : Source
  deriving DecidableEq

/-- A row of `notifications`, of which `created_at` is `now()`. -/
structure Row extends Message where
  createdAt : Time
  deriving DecidableEq

structure Finding where
  subject : String
  body : String
  deriving DecidableEq

-- ============================================================== statements

inductive Key where
  /-- `nacre.notify:` and the organization. -/
  | notify (org : OrgId)
  /-- `nacre.alert-rules:` and the organization. -/
  | alertRules (org : OrgId)
  /-- A row of `alert_rules`. -/
  | rule (id : RuleId)
  deriving DecidableEq

inductive Statement where
  | lock (k : Key)
  | insert (m : Message)
  /-- `queue`, and the rule's mark where it inserted. -/
  | queue (rule : RuleId) (m : Message)
  | mark (rule : RuleId)
  | insertRule (org : OrgId) (createdBy : UserId) (id : RuleId) (r : NewAlertRule)
  | removeRule (org : OrgId) (id : RuleId)
  deriving DecidableEq

/-- What a transaction is for. -/
inductive Job where
  | enqueue (org : OrgId) (recipients : List UserId) (toOrgAdmins : Bool) (subject body : String)
      (sentBy : UserId) (consentId : ConsentId)
  | createRule (org : OrgId) (createdBy : UserId) (id : RuleId) (r : NewAlertRule)
  | removeRule (org : OrgId) (id : RuleId)
  /-- The rules a pass took, and what it found of each. -/
  | evaluate (found : List (AlertRule × Option Finding))
  deriving DecidableEq

/-- What a finding becomes. -/
def messageOf (rule : AlertRule) (finding : Finding) : Message :=
  { org := rule.org
    recipients := rule.recipients
    toOrgAdmins := rule.toOrgAdmins
    subject := left 200 finding.subject
    body := left 4000 finding.body
    source := .rule rule.id }

/-- One turn of the loop over the rules. -/
def evaluateOne (rule : AlertRule) : Option Finding → List Statement
  | none => [.mark rule.id]
  | some finding => [.lock (.notify rule.org), .queue rule.id (messageOf rule finding)]

def Job.statements : Job → List Statement
  | .enqueue org recipients toOrgAdmins subject body sentBy consentId =>
      [.lock (.notify org), .insert ⟨org, recipients, toOrgAdmins, subject, body,
        .agent sentBy consentId⟩]
  | .createRule org createdBy id r => [.lock (.alertRules org), .insertRule org createdBy id r]
  | .removeRule org id => [.removeRule org id]
  | .evaluate found => found.flatMap fun e => evaluateOne e.1 e.2

-- ================================================================== state

inductive Update where
  | removed
  | looked (fired : Bool)
  deriving DecidableEq

abbrev TxId := Nat

structure Tx where
  /-- `now()`. -/
  stamp : Time
  todo : List Statement
  sent : List Row := []
  made : List AlertRule := []
  updates : List (RuleId × Update) := []
  /-- What its inserts and its removal answered. -/
  answers : List Bool := []
  /-- A ghost: the rules whose message the bound refused. -/
  held : List RuleId := []
  deriving DecidableEq

structure World where
  now : Time
  notifications : List Row
  rules : List AlertRule
  tx : TxId → Option Tx
  locks : Key → Option TxId
  begun : Nat

def World.new (now : Time) : World := ⟨now, [], [], fun _ => none, fun _ => none, 0⟩

def init (w : World) : Prop := ∃ now, w = World.new now

inductive Action where
  | wait (d : Nat)
  | begin (job : Job) (stamp : Time)
  | run (t : TxId)
  | commit (t : TxId)
  | rollback (t : TxId)
  /-- The last statement of `expireNotifications`. -/
  | prune (r : Row)
  deriving DecidableEq

-- ==================================================================== step

def AlertRule.update (stamp : Time) (r : AlertRule) : Update → AlertRule
  | .removed => { r with removedAt := some stamp }
  | .looked fired =>
      { r with
        checkedUntil := stamp - SETTLE second
        lastFiredAt := if fired then some stamp else r.lastFiredAt }

/-- The rule as the transaction leaves it. -/
def Tx.updated (x : Tx) (r : AlertRule) : AlertRule :=
  match x.updates.find? fun u => u.1 = r.id with
  | some u => r.update second x.stamp u.2
  | none => r

def AlertRule.active (r : AlertRule) : Bool := r.removedAt.isNone

/-- `removed_at IS NULL AND checked_until < now() - SETTLE - interval '45 seconds'`. -/
def AlertRule.due (stamp : Time) (r : AlertRule) : Bool :=
  r.active && decide (r.checkedUntil + SETTLE second + 45 * second < stamp)

/-- `created_at > now() - interval '1 hour'`. -/
def Row.recent (stamp : Time) (r : Row) : Bool := decide (stamp < r.createdAt + HOUR second)

/-- The `WHERE` of both inserts into `notifications`. -/
def World.admits (w : World) (x : Tx) (org : OrgId) : Bool :=
  decide ((w.notifications ++ x.sent).countP (fun r => decide (r.org = org) && r.recent second x.stamp) <
    NOTIFY_PER_HOUR)

def World.admitsRule (w : World) (x : Tx) (org : OrgId) : Bool :=
  decide ((w.rules ++ x.made).countP (fun r => decide (r.org = org) && r.active) < MAX_ALERT_RULES)

def World.put (w : World) (t : TxId) (x : Tx) : World :=
  { w with tx := Function.update w.tx t (some x) }

/-- The locks it has go with the transaction. -/
def World.close (w : World) (t : TxId) : World :=
  { w with tx := Function.update w.tx t none, locks := Quota.released w.locks t }

def Tx.send (x : Tx) (m : Message) (rest : List Statement) : Tx :=
  { x with todo := rest, sent := x.sent ++ [⟨m, x.stamp⟩], answers := x.answers ++ [true] }

def Tx.refuse (x : Tx) (rest : List Statement) : Tx :=
  { x with todo := rest, answers := x.answers ++ [false] }

def newRule (stamp : Time) (org : OrgId) (createdBy : UserId) (id : RuleId) (r : NewAlertRule) :
    AlertRule :=
  { r with id, org, createdBy, createdAt := stamp, checkedUntil := stamp }

/-- The next statement of a transaction. -/
def runOne (w : World) (t : TxId) (x : Tx) : Statement → List Statement → Option World
  | .lock k, rest =>
      if w.locks k = none then
        some { w.put t { x with todo := rest } with
          locks := Function.update w.locks k (some t) }
      else if w.locks k = some t then some (w.put t { x with todo := rest })
      else none
  | .insert m, rest =>
      some (w.put t (if w.admits second x m.org then x.send m rest else x.refuse rest))
  | .queue rule m, rest =>
      some (w.put t (if w.admits second x m.org then
          { x.send m rest with updates := x.updates ++ [(rule, .looked true)] }
        else { x.refuse rest with held := x.held ++ [rule] }))
  | .mark rule, rest =>
      some (w.put t { x with todo := rest, updates := x.updates ++ [(rule, .looked false)] })
  | .insertRule org createdBy id r, rest =>
      if w.rules.any fun r => r.id = id then none
      else
        some (w.put t (if w.admitsRule x org then
            { x with
              todo := rest
              made := x.made ++ [newRule x.stamp org createdBy id r]
              answers := x.answers ++ [true] }
          else x.refuse rest))
  | .removeRule org id, rest =>
      if w.rules.any fun r => r.org = org && r.id = id && r.active then
        -- An `UPDATE` waits for who has the row.
        if w.locks (.rule id) = none then
          some { w.put t { x with
              todo := rest
              updates := x.updates ++ [(id, .removed)]
              answers := x.answers ++ [true] } with
            locks := Function.update w.locks (.rule id) (some t) }
        else none
      else some (w.put t (x.refuse rest))

/-- `FOR UPDATE SKIP LOCKED`: rules of the table that are due and that
nobody has. -/
def World.takes (w : World) (stamp : Time) (found : List (AlertRule × Option Finding)) : Bool :=
  decide (found.length ≤ RULE_BATCH) && decide ((found.map fun e => e.1.id).Nodup) &&
    found.all fun e =>
      decide (e.1 ∈ w.rules) && e.1.due second stamp && decide (w.locks (.rule e.1.id) = none)

def Job.takes : Job → List (AlertRule × Option Finding)
  | .evaluate found => found
  | _ => []

def lockRules (locks : Key → Option TxId) (t : TxId) (ids : List RuleId) : Key → Option TxId :=
  fun k => if k ∈ ids.map Key.rule then some t else locks k

def step (w : World) : Action → Option World
  | .wait d => some { w with now := w.now + d }
  | .begin job stamp =>
      if decide (stamp ≤ w.now) && w.takes second stamp job.takes then
        some { w.put w.begun { stamp, todo := job.statements } with
          locks := lockRules w.locks w.begun (job.takes.map fun e => e.1.id)
          begun := w.begun + 1 }
      else none
  | .run t =>
      match w.tx t with
      | none => none
      | some x =>
          match x.todo with
          | [] => none
          | s :: rest => runOne second w t x s rest
  | .commit t =>
      match w.tx t with
      | none => none
      | some x =>
          match x.todo with
          | [] => some { w.close t with
              notifications := w.notifications ++ x.sent
              rules := w.rules.map (x.updated second) ++ x.made }
          | _ :: _ => none
  | .rollback t =>
      match w.tx t with
      | none => none
      | some _ => some (w.close t)
  | .prune r =>
      if r ∈ w.notifications then some { w with notifications := w.notifications.erase r } else none

end Nacre.Alerts
