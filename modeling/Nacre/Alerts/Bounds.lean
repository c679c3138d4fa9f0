/-
At most thirty notifications of an organization in any hour, and at most
fifty active rules, whatever requests and passes interleave.

# The argument

Every insert stands behind the lock of its organization (`Guarded`), so
both tables are books of `Quota`. A rule is counted for as it is bounded.
A message is counted for over the hour that ends where its transaction
began, and on: any hour that has the message in it has no row from before
that (`recent_covers`), so the last of its rows to come in counted the
others, also those that are dated later than itself.
-/
import Nacre.Alerts.System

namespace Nacre.Alerts

open Nacre.Notify (OrgId RuleId)
open Nacre.Store (Time)
open Transition Quota

variable {second : Nat} {w w' : World} {t : TxId} {x : Tx}

-- =============================================================== vocabulary

/-- The hour after `a`, to its end. -/
def inHour (second : Nat) (a : Time) (r : Row) : Bool :=
  decide (a < r.createdAt) && decide (r.createdAt ≤ a + HOUR second)

def World.messages (w : World) : Book OrgId TxId Row :=
  ⟨w.notifications, fun t => ((w.tx t).map (·.sent)).getD [], fun org => w.locks (.notify org)⟩

def World.alertRules (w : World) : Book OrgId TxId AlertRule :=
  ⟨w.rules, fun t => ((w.tx t).map (·.made)).getD [], fun org => w.locks (.alertRules org)⟩

/-- What a statement may only run under. -/
def Statement.needs : Statement → List Key
  | .insert m | .queue _ m => [.notify m.org]
  | .insertRule org _ _ _ => [.alertRules org]
  | .lock _ | .mark _ | .removeRule _ _ => []

/-- Every statement has its lock when it comes to it. -/
def Guarded : (Key → Prop) → List Statement → Prop
  | _, [] => True
  | held, .lock k :: rest => Guarded (fun k' => held k' ∨ k' = k) rest
  | held, s :: rest => (∀ k ∈ s.needs, held k) ∧ Guarded held rest

structure Kept (second : Nat) (w : World) : Prop where
  fresh : ∀ t, w.begun ≤ t → w.tx t = none
  guarded : ∀ t x, w.tx t = some x → Guarded (fun k => w.locks k = some t) x.todo
  owned : w.messages.Owned (·.org)
  hour : w.messages.Within (·.org) (inHour second) NOTIFY_PER_HOUR
  ownedRules : w.alertRules.Owned (·.org)
  active : w.alertRules.Within (·.org) (fun (_ : Unit) r => r.active) MAX_ALERT_RULES

-- ============================================================== the programs

theorem Guarded.mono {held held' : Key → Prop} (hle : ∀ k, held k → held' k) :
    ∀ {todo : List Statement}, Guarded held todo → Guarded held' todo := by
  intro todo
  induction todo generalizing held held' with
  | nil => exact fun _ => trivial
  | cons s rest ih =>
      intro h
      cases s with
      | lock k =>
          refine ih (fun k' hk' => ?_) h
          rcases hk' with hk' | hk'
          · exact .inl (hle k' hk')
          · exact .inr hk'
      | _ => exact ⟨fun k hk => hle k (h.1 k hk), ih hle h.2⟩

theorem guarded_append {held : Key → Prop} : ∀ {todo todo' : List Statement},
    Guarded held todo → Guarded held todo' → Guarded held (todo ++ todo') := by
  intro todo
  induction todo generalizing held with
  | nil => exact fun _ h' => h'
  | cons s rest ih =>
      intro todo' h h'
      cases s with
      | lock k => exact ih h (h'.mono fun _ hk => .inl hk)
      | _ => exact ⟨h.1, ih h.2 h'⟩

/-- No transaction comes to an insert without the lock. -/
theorem Job.guarded (job : Job) (held : Key → Prop) : Guarded held job.statements := by
  cases job with
  | enqueue => exact ⟨fun k hk => .inr (List.mem_singleton.mp hk), trivial⟩
  | createRule => exact ⟨fun k hk => .inr (List.mem_singleton.mp hk), trivial⟩
  | removeRule => exact ⟨fun k hk => absurd hk List.not_mem_nil, trivial⟩
  | evaluate found =>
      show Guarded held (found.flatMap _)
      induction found with
      | nil => trivial
      | cons e found ih =>
          rw [List.flatMap_cons]
          refine guarded_append ?_ ih
          cases e.2 with
          | none => exact ⟨fun k hk => absurd hk List.not_mem_nil, trivial⟩
          | some => exact ⟨fun k hk => .inr (List.mem_singleton.mp hk), trivial⟩

/-- An hour with the new row in it has only rows that were counted. -/
theorem recent_covers {stamp : Time} {m : Message} (a : Time) (r : Row)
    (hnew : inHour second a ⟨m, stamp⟩ = true) (hr : inHour second a r = true) : r.recent second stamp = true := by
  simp only [inHour, Bool.and_eq_true, decide_eq_true_eq] at hnew hr
  simp only [Row.recent, decide_eq_true_eq]
  exact Nat.lt_of_le_of_lt hnew.2 (Nat.add_lt_add_right hr.1 _)

-- ================================================================ the books

theorem messages_put (h : w.tx t = some x) (y : Tx) :
    (w.put t y).messages =
      { w.messages with pending := Function.update w.messages.pending t y.sent } := by
  refine congrArg (fun p => Book.mk w.notifications p fun org => w.locks (.notify org)) ?_
  funext t'
  by_cases ht : t' = t
  · subst ht
    simp only [World.put, Function.update_self, Option.map_some, Option.getD_some]
  · simp only [World.put, Function.update_of_ne ht, World.messages]

theorem messages_pending (h : w.tx t = some x) : w.messages.pending t = x.sent := by
  simp only [World.messages, h, Option.map_some, Option.getD_some]

theorem alertRules_put (h : w.tx t = some x) (y : Tx) :
    (w.put t y).alertRules =
      { w.alertRules with pending := Function.update w.alertRules.pending t y.made } := by
  refine congrArg (fun p => Book.mk w.rules p fun org => w.locks (.alertRules org)) ?_
  funext t'
  by_cases ht : t' = t
  · subst ht
    simp only [World.put, Function.update_self, Option.map_some, Option.getD_some]
  · simp only [World.put, Function.update_of_ne ht, World.alertRules]

theorem alertRules_pending (h : w.tx t = some x) : w.alertRules.pending t = x.made := by
  simp only [World.alertRules, h, Option.map_some, Option.getD_some]

/-- Nothing of the books moves. -/
theorem Kept.still (h : Kept second w) (hmessages : w'.messages = w.messages)
    (hrules : w'.alertRules = w.alertRules) (hfresh : ∀ t, w'.begun ≤ t → w'.tx t = none)
    (hguarded : ∀ t x, w'.tx t = some x → Guarded (fun k => w'.locks k = some t) x.todo) :
    Kept second w' where
  fresh := hfresh
  guarded := hguarded
  owned := by rw [hmessages]; exact h.owned
  hour := by rw [hmessages]; exact h.hour
  ownedRules := by rw [hrules]; exact h.ownedRules
  active := by rw [hrules]; exact h.active

/-- The transactions after one of them went on under the same locks. -/
theorem Kept.guarded_put (h : Kept second w) (hx : w.tx t = some x) {y : Tx}
    (hy : Guarded (fun k => w.locks k = some t) y.todo) (u : TxId) (z : Tx)
    (hz : (w.put t y).tx u = some z) : Guarded (fun k => w.locks k = some u) z.todo := by
  by_cases hu : u = t
  · subst hu
    have hz : Function.update w.tx u (some y) u = some z := hz
    rw [Function.update_self] at hz
    exact Option.some.inj hz ▸ hy
  · have hz : Function.update w.tx t (some y) u = some z := hz
    rw [Function.update_of_ne hu] at hz
    exact h.guarded u z hz

theorem Kept.fresh_put (h : Kept second w) (hx : w.tx t = some x) {y : Tx} (u : TxId)
    (hu : w.begun ≤ u) : (w.put t y).tx u = none := by
  have hne : u ≠ t := by
    intro heq
    rw [heq] at hu
    rw [h.fresh t hu] at hx
    cases hx
  show Function.update w.tx t (some y) u = none
  rw [Function.update_of_ne hne]
  exact h.fresh u hu

/-- A lock that nobody has is taken, and one of what it guards is next. -/
theorem guarded_take {k : Key} {u : TxId} {todo : List Statement} (hfree : w.locks k = none)
    (h : Guarded (fun k' => w.locks k' = some u) todo) :
    Guarded (fun k' => Function.update w.locks k (some t) k' = some u) todo := by
  refine h.mono fun k' hk' => ?_
  rw [Function.update_of_ne]
  · exact hk'
  · intro heq
    rw [heq, hfree] at hk'
    cases hk'

/-- The books after a lock is taken. -/
theorem Kept.books_take (h : Kept second w) {k : Key} (hfree : w.locks k = none) :
    let w' := { w with locks := Function.update w.locks k (some t) }
    (w'.messages.Owned (·.org) ∧ w'.messages.Within (·.org) (inHour second) NOTIFY_PER_HOUR) ∧
      w'.alertRules.Owned (·.org) ∧
      w'.alertRules.Within (·.org) (fun (_ : Unit) r => r.active) MAX_ALERT_RULES := by
  intro w'
  have hother : ∀ {k' : Key}, k' ≠ k → w'.locks k' = w.locks k' := fun hne =>
    Function.update_of_ne hne _ _
  cases k with
  | notify org =>
      have hmessages : w'.messages =
          { w.messages with lock := Function.update w.messages.lock org (some t) } := by
        refine congrArg (fun p => Book.mk w.notifications _ p) ?_
        funext org'
        by_cases horg : org' = org
        · subst horg
          rw [Function.update_self]
          exact Function.update_self ..
        · rw [Function.update_of_ne horg]
          exact hother fun heq => horg (Key.notify.inj heq)
      have hrules : w'.alertRules = w.alertRules := by
        refine congrArg (fun p => Book.mk w.rules _ p) ?_
        funext org'
        exact hother Key.noConfusion
      rw [hmessages, hrules]
      exact ⟨Book.take h.owned h.hour hfree, h.ownedRules, h.active⟩
  | alertRules org =>
      have hmessages : w'.messages = w.messages := by
        refine congrArg (fun p => Book.mk w.notifications _ p) ?_
        funext org'
        exact hother Key.noConfusion
      have hrules : w'.alertRules =
          { w.alertRules with lock := Function.update w.alertRules.lock org (some t) } := by
        refine congrArg (fun p => Book.mk w.rules _ p) ?_
        funext org'
        by_cases horg : org' = org
        · subst horg
          rw [Function.update_self]
          exact Function.update_self ..
        · rw [Function.update_of_ne horg]
          exact hother fun heq => horg (Key.alertRules.inj heq)
      rw [hmessages, hrules]
      exact ⟨⟨h.owned, h.hour⟩, Book.take h.ownedRules h.active hfree⟩
  | rule id =>
      have hmessages : w'.messages = w.messages := by
        refine congrArg (fun p => Book.mk w.notifications _ p) ?_
        funext org'
        exact hother Key.noConfusion
      have hrules : w'.alertRules = w.alertRules := by
        refine congrArg (fun p => Book.mk w.rules _ p) ?_
        funext org'
        exact hother Key.noConfusion
      rw [hmessages, hrules]
      exact ⟨⟨h.owned, h.hour⟩, h.ownedRules, h.active⟩

/-- A lock is taken. -/
theorem Kept.take (h : Kept second w) {k : Key} (hfree : w.locks k = none) :
    Kept second { w with locks := Function.update w.locks k (some t) } := by
  obtain ⟨⟨howned, hhour⟩, hownedRules, hactive⟩ := h.books_take (t := t) hfree
  exact ⟨h.fresh, fun u z hz => guarded_take hfree (h.guarded u z hz), howned, hhour, hownedRules,
    hactive⟩

/-- A transaction goes on, its inserts as they were. -/
theorem Kept.put (h : Kept second w) (hx : w.tx t = some x) {y : Tx} (hsent : y.sent = x.sent)
    (hmade : y.made = x.made) (hy : Guarded (fun k => w.locks k = some t) y.todo) :
    Kept second (w.put t y) := by
  refine h.still ?_ ?_ (fun u hu => h.fresh_put hx u hu) fun u z hz => h.guarded_put hx hy u z hz
  · rw [messages_put hx, hsent, ← messages_pending hx, Function.update_eq_self]
  · rw [alertRules_put hx, hmade, ← alertRules_pending hx, Function.update_eq_self]

/-- A message is inserted. -/
theorem Kept.send (h : Kept second w) (hx : w.tx t = some x) {m : Message} {rest : List Statement} {y : Tx}
    (hadmits : w.admits second x m.org = true) (hheld : w.locks (.notify m.org) = some t)
    (hsent : y.sent = x.sent ++ [⟨m, x.stamp⟩]) (hmade : y.made = x.made) (htodo : y.todo = rest)
    (hrest : Guarded (fun k => w.locks k = some t) rest) : Kept second (w.put t y) := by
  have hguard := of_decide_eq_true hadmits
  have hcount : (w.messages.table ++ w.messages.pending t).countP
      (fun r => decide (r.org = m.org) && r.recent second x.stamp) < NOTIFY_PER_HOUR := by
    rw [messages_pending hx]
    exact hguard
  have hlock : w.messages.lock (Row.mk m x.stamp).org = some t := hheld
  have hbook := Book.insert h.owned h.hour hlock hcount
    fun a r hnew hr => recent_covers a r hnew hr
  have hmessages : (w.put t y).messages = { w.messages with
      pending := Function.update w.messages.pending t
        (w.messages.pending t ++ [⟨m, x.stamp⟩]) } := by
    rw [messages_put hx, hsent, messages_pending hx]
  have hrules : (w.put t y).alertRules = w.alertRules := by
    rw [alertRules_put hx, hmade, ← alertRules_pending hx, Function.update_eq_self]
  refine ⟨fun u hu => h.fresh_put hx u hu,
    fun u z hz => h.guarded_put hx (htodo ▸ hrest) u z hz, ?_, ?_, ?_, ?_⟩
  · rw [hmessages]; exact hbook.1
  · rw [hmessages]; exact hbook.2
  · rw [hrules]; exact h.ownedRules
  · rw [hrules]; exact h.active

/-- A rule is inserted. -/
theorem Kept.make (h : Kept second w) (hx : w.tx t = some x) {r : AlertRule} {rest : List Statement}
    {y : Tx} (hadmits : w.admitsRule x r.org = true)
    (hheld : w.locks (.alertRules r.org) = some t) (hsent : y.sent = x.sent)
    (hmade : y.made = x.made ++ [r]) (htodo : y.todo = rest)
    (hrest : Guarded (fun k => w.locks k = some t) rest) : Kept second (w.put t y) := by
  have hguard := of_decide_eq_true hadmits
  have hcount : (w.alertRules.table ++ w.alertRules.pending t).countP
      (fun r' => decide (r'.org = r.org) && r'.active) < MAX_ALERT_RULES := by
    rw [alertRules_pending hx]
    exact hguard
  have hlock : w.alertRules.lock r.org = some t := hheld
  have hbook := Book.insert h.ownedRules h.active hlock hcount fun _ _ _ hr => hr
  have hmessages : (w.put t y).messages = w.messages := by
    rw [messages_put hx, hsent, ← messages_pending hx, Function.update_eq_self]
  have hrules : (w.put t y).alertRules = { w.alertRules with
      pending := Function.update w.alertRules.pending t (w.alertRules.pending t ++ [r]) } := by
    rw [alertRules_put hx, hmade, alertRules_pending hx]
  refine ⟨fun u hu => h.fresh_put hx u hu,
    fun u z hz => h.guarded_put hx (htodo ▸ hrest) u z hz, ?_, ?_, ?_, ?_⟩
  · rw [hmessages]; exact h.owned
  · rw [hmessages]; exact h.hour
  · rw [hrules]; exact hbook.1
  · rw [hrules]; exact hbook.2

/-- What a transaction does to a rule does not make it active. -/
theorem Tx.updated_active (second : Nat) (x : Tx) (r : AlertRule) :
    (x.updated second r).org = r.org ∧ ((x.updated second r).active = true → r.active = true) := by
  unfold Tx.updated
  split
  next u _ =>
    cases u.2 with
    | removed => exact ⟨rfl, fun hactive => absurd hactive Bool.false_ne_true⟩
    | looked fired => exact ⟨rfl, fun hactive => hactive⟩
  next => exact ⟨rfl, fun h => h⟩

theorem countP_updated (second : Nat) (x : Tx) (org : OrgId) (rules : List AlertRule) :
    (rules.map (x.updated second)).countP (fun r => decide (r.org = org) && r.active) ≤
      rules.countP (fun r => decide (r.org = org) && r.active) := by
  rw [List.countP_map]
  refine List.countP_mono_left fun r _ hr => ?_
  obtain ⟨horg, hactive⟩ := x.updated_active second r
  simp only [Function.comp_apply, Bool.and_eq_true, decide_eq_true_eq] at hr ⊢
  exact ⟨horg ▸ hr.1, hactive hr.2⟩

theorem pending_close {ρ : Type} (f : Tx → List ρ) (u : TxId) :
    ((Function.update w.tx t none u).map f).getD [] =
      Function.update (fun u => ((w.tx u).map f).getD []) t [] u := by
  by_cases hu : u = t
  · subst hu
    rw [Function.update_self, Function.update_self]
    rfl
  · rw [Function.update_of_ne hu, Function.update_of_ne hu]

/-- A transaction ends, with the tables it leaves. -/
theorem Kept.close (h : Kept second w) (hx : w.tx t = some x) {notifications : List Row}
    {rules : List AlertRule}
    (hnotifications : notifications = w.notifications ++ x.sent ∨ notifications = w.notifications)
    (hrules : rules = w.rules.map (x.updated second) ++ x.made ∨ rules = w.rules) :
    Kept second { w.close t with notifications := notifications, rules := rules } := by
  have hmessages : World.messages { w.close t with notifications, rules } =
      ⟨notifications, Function.update w.messages.pending t [], released w.messages.lock t⟩ :=
    congrArg (fun p => Book.mk notifications p _) (funext fun u => pending_close _ u)
  have hbook : World.alertRules { w.close t with notifications, rules } =
      ⟨rules, Function.update w.alertRules.pending t [], released w.alertRules.lock t⟩ :=
    congrArg (fun p => Book.mk rules p _) (funext fun u => pending_close _ u)
  have hclosed : (Book.mk notifications (Function.update w.messages.pending t [])
        (released w.messages.lock t)).Owned (·.org) ∧
      (Book.mk notifications (Function.update w.messages.pending t [])
        (released w.messages.lock t)).Within (·.org) (inHour second) NOTIFY_PER_HOUR := by
    refine Book.close h.owned h.hour ?_
    rw [messages_pending hx]
    exact hnotifications
  have hclosedRules : (Book.mk rules (Function.update w.alertRules.pending t [])
        (released w.alertRules.lock t)).Owned (·.org) ∧
      (Book.mk rules (Function.update w.alertRules.pending t [])
        (released w.alertRules.lock t)).Within (·.org) (fun (_ : Unit) r => r.active)
        MAX_ALERT_RULES := by
    rcases hrules with rfl | rfl
    · obtain ⟨hown, hwithin⟩ := Book.change h.ownedRules h.active
        fun org _ => countP_updated second x org w.rules
      refine Book.close (b := { w.alertRules with table := w.rules.map (x.updated second) }) hown hwithin
        (.inl ?_)
      rw [← alertRules_pending hx]
    · exact Book.close h.ownedRules h.active (.inr rfl)
  refine ⟨?_, ?_, ?_, ?_, ?_, ?_⟩
  · intro u hu
    show Function.update w.tx t none u = none
    by_cases ht : u = t
    · rw [ht, Function.update_self]
    · rw [Function.update_of_ne ht]
      exact h.fresh u hu
  · intro u z hz
    have hz : Function.update w.tx t none u = some z := hz
    by_cases ht : u = t
    · rw [ht, Function.update_self] at hz
      cases hz
    · rw [Function.update_of_ne ht] at hz
      exact (h.guarded u z hz).mono fun k hk => released_of_ne ht hk
  · rw [hmessages]; exact hclosed.1
  · rw [hmessages]; exact hclosed.2
  · rw [hbook]; exact hclosedRules.1
  · rw [hbook]; exact hclosedRules.2

-- ================================================================ the steps

theorem Kept.runOne (h : Kept second w) (hx : w.tx t = some x) {s : Statement}
    {rest : List Statement} (htodo : x.todo = s :: rest)
    (hrun : runOne second w t x s rest = some w') : Kept second w' := by
  have hguard := h.guarded t x hx
  rw [htodo] at hguard
  cases s with
  | lock k =>
      have hguard : Guarded (fun k' => w.locks k' = some t ∨ k' = k) rest := hguard
      simp only [Alerts.runOne] at hrun
      split at hrun
      next hfree =>
        rw [← Option.some.inj hrun]
        refine (h.take (t := t) hfree).put (x := x) hx rfl rfl (hguard.mono fun k' hk' => ?_)
        show Function.update w.locks k (some t) k' = some t
        by_cases hk : k' = k
        · rw [hk, Function.update_self]
        · rw [Function.update_of_ne hk]
          exact hk'.resolve_right hk
      next =>
        split at hrun
        next hmine =>
          rw [← Option.some.inj hrun]
          refine h.put hx rfl rfl (hguard.mono fun k' hk' => ?_)
          rcases hk' with hk' | rfl
          · exact hk'
          · exact hmine
        next => cases hrun
  | insert m =>
      have hheld := hguard.1 _ (List.mem_singleton_self _)
      simp only [Alerts.runOne] at hrun
      rw [← Option.some.inj hrun]
      by_cases hadmits : w.admits second x m.org = true
      · rw [if_pos hadmits]
        exact h.send hx hadmits hheld rfl rfl rfl hguard.2
      · rw [if_neg hadmits]
        exact h.put hx rfl rfl hguard.2
  | queue rule m =>
      have hheld := hguard.1 _ (List.mem_singleton_self _)
      simp only [Alerts.runOne] at hrun
      rw [← Option.some.inj hrun]
      by_cases hadmits : w.admits second x m.org = true
      · rw [if_pos hadmits]
        exact h.send hx hadmits hheld rfl rfl rfl hguard.2
      · rw [if_neg hadmits]
        exact h.put hx rfl rfl hguard.2
  | mark rule =>
      simp only [Alerts.runOne] at hrun
      rw [← Option.some.inj hrun]
      exact h.put hx rfl rfl hguard.2
  | insertRule org createdBy id r =>
      have hheld := hguard.1 _ (List.mem_singleton_self _)
      simp only [Alerts.runOne] at hrun
      split at hrun
      next => cases hrun
      next =>
        rw [← Option.some.inj hrun]
        by_cases hadmits : w.admitsRule x org = true
        · rw [if_pos hadmits]
          exact h.make (r := newRule x.stamp org createdBy id r) hx hadmits hheld rfl rfl rfl
            hguard.2
        · rw [if_neg hadmits]
          exact h.put hx rfl rfl hguard.2
  | removeRule org id =>
      simp only [Alerts.runOne] at hrun
      split at hrun
      next =>
        split at hrun
        next hfree =>
          rw [← Option.some.inj hrun]
          exact (h.take (t := t) hfree).put (x := x) hx rfl rfl (guarded_take hfree hguard.2)
        next => cases hrun
      next =>
        rw [← Option.some.inj hrun]
        exact h.put hx rfl rfl hguard.2

/-- The rows a pass takes are no lock of an insert's. -/
theorem lockRules_other {k : Key} {ids : List RuleId} (hk : ∀ id, k ≠ .rule id) :
    lockRules w.locks t ids k = w.locks k := by
  rw [lockRules, if_neg]
  intro hmem
  obtain ⟨id, -, heq⟩ := List.mem_map.mp hmem
  exact hk id heq.symm

theorem Kept.begin (h : Kept second w) {stamp : Time} (job : Job)
    (htakes : w.takes second stamp job.takes = true) :
    Kept second { w.put w.begun { stamp, todo := job.statements } with
      locks := lockRules w.locks w.begun (job.takes.map fun e => e.1.id)
      begun := w.begun + 1 } := by
  have hnone : w.tx w.begun = none := h.fresh _ (Nat.le_refl _)
  have hfree : ∀ k ∈ (job.takes.map fun e => e.1.id).map Key.rule, w.locks k = none := by
    intro k hk
    obtain ⟨id, hid, rfl⟩ := List.mem_map.mp hk
    obtain ⟨e, he, rfl⟩ := List.mem_map.mp hid
    simp only [World.takes, Bool.and_eq_true, List.all_eq_true, decide_eq_true_eq] at htakes
    exact (htakes.2 e he).2
  have hpending : ∀ {ρ : Type} (f : Tx → List ρ), f { stamp, todo := job.statements } = [] →
      (fun u => ((Function.update w.tx w.begun (some { stamp, todo := job.statements }) u).map
        f).getD []) = fun u => ((w.tx u).map f).getD [] := by
    intro ρ f hf
    funext u
    by_cases hu : u = w.begun
    · rw [hu, Function.update_self, hnone]
      exact hf
    · rw [Function.update_of_ne hu]
  refine h.still ?_ ?_ ?_ ?_
  · show Book.mk _ _ _ = Book.mk _ _ _
    congr 1
    · exact hpending (·.sent) rfl
    · funext org
      exact lockRules_other fun _ => Key.noConfusion
  · show Book.mk _ _ _ = Book.mk _ _ _
    congr 1
    · exact hpending (·.made) rfl
    · funext org
      exact lockRules_other fun _ => Key.noConfusion
  · intro u hu
    have hlt : w.begun < u := hu
    show Function.update w.tx w.begun _ u = none
    rw [Function.update_of_ne (Nat.ne_of_gt hlt)]
    exact h.fresh u (Nat.le_of_lt hlt)
  · intro u z hz
    have hz : Function.update w.tx w.begun (some { stamp, todo := job.statements }) u = some z := hz
    by_cases hu : u = w.begun
    · rw [hu, Function.update_self] at hz
      rw [← Option.some.inj hz]
      exact job.guarded _
    · rw [Function.update_of_ne hu] at hz
      refine (h.guarded u z hz).mono fun k hk => ?_
      show lockRules w.locks w.begun _ k = some u
      rw [lockRules, if_neg]
      · exact hk
      · intro hmem
        rw [hfree k hmem] at hk
        cases hk

theorem Kept.step {a : Action} (h : Kept second w) (ha : step second w a = some w') :
    Kept second w' := by
  cases a with
  | wait d =>
      simp only [Alerts.step, Option.some.injEq] at ha
      exact ha ▸ h.still rfl rfl h.fresh h.guarded
  | begin job stamp =>
      simp only [Alerts.step] at ha
      split at ha
      next hbegin =>
        simp only [Bool.and_eq_true] at hbegin
        exact Option.some.inj ha ▸ h.begin job hbegin.2
      next => cases ha
  | run t =>
      simp only [Alerts.step] at ha
      split at ha
      next => cases ha
      next x hx =>
        split at ha
        next => cases ha
        next s rest htodo => exact h.runOne hx htodo ha
  | commit t =>
      simp only [Alerts.step] at ha
      split at ha
      next => cases ha
      next x hx =>
        split at ha
        next => exact Option.some.inj ha ▸ h.close hx (.inl rfl) (.inl rfl)
        next => cases ha
  | rollback t =>
      simp only [Alerts.step] at ha
      split at ha
      next => cases ha
      next x hx => exact Option.some.inj ha ▸ h.close hx (.inr rfl) (.inr rfl)
  | prune r =>
      simp only [Alerts.step] at ha
      split at ha
      next =>
        have hwithin : Book.Within (·.org) (inHour second) NOTIFY_PER_HOUR
            { w.messages with table := w.notifications.erase r } :=
          (Book.change h.owned h.hour fun _ _ => List.erase_sublist.countP_le).2
        rw [← Option.some.inj ha]
        exact ⟨h.fresh, h.guarded, h.owned, hwithin, h.ownedRules, h.active⟩
      next => cases ha

theorem kept (hw : Reachable (step second) anyStep init w) : Kept second w := by
  refine hw.invariant ?_ fun _ _ _ h _ ha => h.step ha
  rintro w₀ ⟨now, rfl⟩
  refine ⟨fun _ _ => rfl, fun t x hx => ?_, fun t r hr => ?_, fun org a => ?_, fun t r hr => ?_,
    fun org _ => ?_⟩
  · cases hx
  · cases hr
  · exact Nat.zero_le _
  · cases hr
  · exact Nat.zero_le _

-- ================================================================= a refusal

/-- The rules a statement is about. -/
def Statement.about : Statement → List RuleId
  | .queue id _ | .mark id | .removeRule _ id => [id]
  | .lock _ | .insert _ | .insertRule _ _ _ _ => []

/-- A rule is dealt with once, and what answers no writes nothing. -/
structure Told (x : Tx) : Prop where
  once : (x.held ++ (x.updates.map (·.1) ++ x.todo.flatMap Statement.about)).Nodup
  silent : true ∉ x.answers → x.sent = [] ∧ x.made = [] ∧ ∀ u ∈ x.updates, u.2 = .looked false

theorem about_evaluate (found : List (AlertRule × Option Finding)) :
    (Job.evaluate found).statements.flatMap Statement.about = found.map fun e => e.1.id := by
  show (found.flatMap fun e => evaluateOne e.1 e.2).flatMap Statement.about = _
  rw [List.flatMap_assoc]
  induction found with
  | nil => rfl
  | cons e found ih =>
      rw [List.flatMap_cons, ih]
      cases e.2 <;> rfl

theorem Job.told {stamp : Time} (job : Job) (htakes : (job.takes.map fun e => e.1.id).Nodup) :
    Told { stamp, todo := job.statements } := by
  refine ⟨?_, fun _ => ⟨rfl, rfl, fun u hu => absurd hu List.not_mem_nil⟩⟩
  show (job.statements.flatMap Statement.about).Nodup
  cases job with
  | evaluate found =>
      rw [about_evaluate]
      exact htakes
  | removeRule => exact List.nodup_singleton _
  | _ => exact List.nodup_nil

theorem not_mem_told {answers : List Bool} {b : Bool} (h : true ∉ answers ++ [b]) :
    true ∉ answers ∧ b = false := by
  simp only [List.mem_append, List.mem_singleton, not_or, Bool.true_eq, Bool.not_eq_true] at h
  exact h

/-- One statement more, of which the transaction wrote nothing. -/
theorem Told.pass (h : Told x) {s : Statement} {rest : List Statement} (htodo : x.todo = s :: rest) :
    (x.held ++ (x.updates.map (·.1) ++ rest.flatMap Statement.about)).Nodup := by
  have hold := h.once
  rw [htodo, List.flatMap_cons] at hold
  exact hold.sublist (List.Sublist.append_left (List.Sublist.append_left
    (List.sublist_append_right _ _) _) _)

theorem Told.runOne (h : Told x) {s : Statement} {rest : List Statement}
    (htodo : x.todo = s :: rest) (hrun : runOne second w t x s rest = some w') :
    ∃ y, w'.tx = Function.update w.tx t (some y) ∧ Told y := by
  have hpass := h.pass htodo
  have hold := h.once
  rw [htodo, List.flatMap_cons] at hold
  have hlater : ∀ {id : RuleId} (u : Update), s.about = [id] →
      (x.held ++ ((x.updates ++ [(id, u)]).map (·.1) ++ rest.flatMap Statement.about)).Nodup := by
    intro id u hs
    rw [hs] at hold
    rw [List.map_append, List.append_assoc]
    exact hold
  cases s with
  | lock k =>
      simp only [Alerts.runOne] at hrun
      split at hrun
      next =>
        obtain rfl := Option.some.inj hrun
        exact ⟨{ x with todo := rest }, rfl, hpass, h.silent⟩
      next =>
        split at hrun
        next =>
          obtain rfl := Option.some.inj hrun
          exact ⟨{ x with todo := rest }, rfl, hpass, h.silent⟩
        next => cases hrun
  | insert m =>
      simp only [Alerts.runOne] at hrun
      obtain rfl := Option.some.inj hrun
      refine ⟨_, rfl, ?_⟩
      split
      next => exact ⟨hpass, fun htrue => Bool.noConfusion (not_mem_told htrue).2⟩
      next => exact ⟨hpass, fun htrue => h.silent (not_mem_told htrue).1⟩
  | queue rule m =>
      simp only [Alerts.runOne] at hrun
      obtain rfl := Option.some.inj hrun
      refine ⟨_, rfl, ?_⟩
      split
      next =>
        exact ⟨hlater _ rfl, fun htrue => Bool.noConfusion (not_mem_told htrue).2⟩
      next =>
        refine ⟨?_, fun htrue => h.silent (not_mem_told htrue).1⟩
        show ((x.held ++ [rule]) ++ (x.updates.map (·.1) ++ rest.flatMap Statement.about)).Nodup
        refine (List.Perm.nodup_iff ?_).mp hold
        rw [List.append_assoc]
        exact (List.perm_middle (a := rule)).append_left x.held
  | mark rule =>
      simp only [Alerts.runOne] at hrun
      obtain rfl := Option.some.inj hrun
      refine ⟨_, rfl, hlater _ rfl, fun htrue => ?_⟩
      obtain ⟨hsent, hmade, hupdates⟩ := h.silent htrue
      refine ⟨hsent, hmade, fun u hu => ?_⟩
      rcases List.mem_append.mp hu with hu | hu
      · exact hupdates u hu
      · rw [List.mem_singleton.mp hu]
  | insertRule org createdBy id r =>
      simp only [Alerts.runOne] at hrun
      split at hrun
      next => cases hrun
      next =>
        obtain rfl := Option.some.inj hrun
        refine ⟨_, rfl, ?_⟩
        split
        next => exact ⟨hpass, fun htrue => Bool.noConfusion (not_mem_told htrue).2⟩
        next => exact ⟨hpass, fun htrue => h.silent (not_mem_told htrue).1⟩
  | removeRule org id =>
      simp only [Alerts.runOne] at hrun
      split at hrun
      next =>
        split at hrun
        next =>
          obtain rfl := Option.some.inj hrun
          exact ⟨_, rfl, hlater _ rfl,
            fun htrue => Bool.noConfusion (not_mem_told htrue).2⟩
        next => cases hrun
      next =>
        obtain rfl := Option.some.inj hrun
        exact ⟨_, rfl, hpass, fun htrue => h.silent (not_mem_told htrue).1⟩

theorem told_step {a : Action} (h : ∀ t x, w.tx t = some x → Told x)
    (ha : step second w a = some w') : ∀ t x, w'.tx t = some x → Told x := by
  have hput : ∀ {f : TxId → Option Tx} {t : TxId} {y : Tx}, f = Function.update w.tx t (some y) →
      Told y → ∀ u z, f u = some z → Told z := by
    intro f t y hf hy u z hz
    rw [hf] at hz
    by_cases hu : u = t
    · rw [hu, Function.update_self] at hz
      exact Option.some.inj hz ▸ hy
    · rw [Function.update_of_ne hu] at hz
      exact h u z hz
  have hclose : ∀ (t : TxId) (u : TxId) (z : Tx),
      Function.update w.tx t none u = some z → Told z := by
    intro t u z hz
    by_cases hu : u = t
    · rw [hu, Function.update_self] at hz
      cases hz
    · rw [Function.update_of_ne hu] at hz
      exact h u z hz
  cases a with
  | wait d =>
      simp only [step, Option.some.injEq] at ha
      exact ha ▸ h
  | begin job stamp =>
      simp only [step] at ha
      split at ha
      next hbegin =>
        simp only [Bool.and_eq_true, World.takes, decide_eq_true_eq] at hbegin
        exact Option.some.inj ha ▸ hput rfl (job.told hbegin.2.1.2)
      next => cases ha
  | run t =>
      simp only [step] at ha
      split at ha
      next => cases ha
      next x hx =>
        split at ha
        next => cases ha
        next s rest htodo =>
          obtain ⟨y, hy, htold⟩ := (h t x hx).runOne htodo ha
          exact hput hy htold
  | commit t =>
      simp only [step] at ha
      split at ha
      next => cases ha
      next =>
        split at ha
        next => exact Option.some.inj ha ▸ hclose t
        next => cases ha
  | rollback t =>
      simp only [step] at ha
      split at ha
      next => cases ha
      next => exact Option.some.inj ha ▸ hclose t
  | prune r =>
      simp only [step] at ha
      split at ha
      next => exact Option.some.inj ha ▸ h
      next => cases ha

/-- A rule that the transaction has no update of is as it was. -/
theorem Told.held_kept (h : Told x) {r : AlertRule} (hr : r.id ∈ x.held) :
    x.updated second r = r := by
  have hnot : x.updates.find? (fun u => decide (u.1 = r.id)) = none := by
    rw [List.find?_eq_none]
    intro u hu heq
    rw [decide_eq_true_eq] at heq
    have hdisjoint := (List.nodup_append.mp h.once).2.2 r.id hr r.id
    exact hdisjoint (List.mem_append_left _ (List.mem_map.mpr ⟨u, hu, heq⟩)) rfl
  simp only [Tx.updated, hnot]

/-- Whatever requests and passes interleave: no organization has more
than thirty notifications in any hour of their dates, nor more than fifty
active rules; what is refused inserts nothing and fires nothing; and a
rule whose message was refused stays as it was, its mark too, while the
rest of its pass goes on. -/
theorem bounds_hold (hw : Reachable (step second) anyStep init w) :
    (∀ org a, w.notifications.countP (fun r => decide (r.org = org) && inHour second a r) ≤ 30) ∧
      (∀ org, w.rules.countP (fun r => decide (r.org = org) && r.active) ≤ 50) ∧
      ∀ t x, w.tx t = some x →
        (true ∉ x.answers → x.sent = [] ∧ x.made = [] ∧ ∀ u ∈ x.updates, u.2 = .looked false) ∧
        ∀ r, r.id ∈ x.held → x.updated second r = r := by
  have h := kept hw
  have htold : ∀ t x, w.tx t = some x → Told x := by
    refine hw.invariant (I := fun w => ∀ t x, w.tx t = some x → Told x) ?_
      fun _ _ _ h _ ha => told_step h ha
    rintro w₀ ⟨now, rfl⟩ t x hx
    cases hx
  refine ⟨fun org a => h.hour.table org a, fun org => h.active.table org (), fun t x hx => ?_⟩
  exact ⟨(htold t x hx).silent, fun r hr => (htold t x hx).held_kept hr⟩

/-- Two messages, the second of a transaction that began before the
first's and waited for it. -/
def late : List Action :=
  [.begin (.enqueue "acme" ["ann"] false "One" "First." "ann" "consent") 5,
    .begin (.enqueue "acme" ["ann"] false "Two" "Second." "ann" "consent") 3,
    .run 0, .run 0, .commit 0, .run 1, .run 1, .commit 1]

theorem run_late : (runWithin (step 1000000) anyStep (World.new 10) late).any
    (fun w => decide (w.notifications.map (·.createdAt) = [5, 3])) = true := by
  decide +kernel

theorem late_reached : ∃ w, Reachable (step 1000000) anyStep init w ∧
    w.notifications.map (·.createdAt) = [5, 3] :=
  exists_reachable ⟨10, rfl⟩ run_late

theorem bounds_hold_late : ∃ w : World, w.notifications.map (·.createdAt) = [5, 3] ∧
    ∀ a, w.notifications.countP (fun r => decide (r.org = "acme") && inHour 1000000 a r) ≤ 30 := by
  obtain ⟨w, hw, hdates⟩ := late_reached
  exact ⟨w, hdates, fun a => (bounds_hold hw).1 "acme" a⟩

end Nacre.Alerts
