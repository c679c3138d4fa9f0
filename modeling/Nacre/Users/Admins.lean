/-
The administrators of an organization: `onTargetUser` and `update`
(api/src/principals.ts), any number of them at once.

# What is a step

One statement of a transaction, under READ COMMITTED: it reads what is
committed when it runs, and what the transaction wrote is committed at its
end. The first statement takes the organization's advisory lock, which is
held to the end of the transaction and is waited for; then the target is
selected, the other administrators are counted if this change gives one
up, and the row is written. An error ends the transaction with nothing
written.

# Why the count holds

It is taken under the lock, and everyone who could make it wrong waits for
the lock (`Guarded.solo`). So what a transaction has read of the
organization is so until it ends (`Tx.Checked`), and two administrators who
demote each other are counted one after the other.
-/
import Mathlib.Logic.Function.Basic
import Nacre.Lib.Solo
import Nacre.Lib.Table
import Nacre.Lib.Transition
import Nacre.Store.Rows

namespace Nacre.Users

open Transition
open Nacre.Store (Time)

abbrev OrgId := String
abbrev UserId := String

-- ================================================================ the rows

inductive Role where
  | platformAdmin
  | orgAdmin
  | workspaceAdmin
  | member
  deriving DecidableEq

/-- A row of `users`, as far as an update reads or writes it. -/
structure User where
  role : Role
  disabledAt : Option Time
  externalId : Option String
  deriving DecidableEq

/-- An active administrator of the organization. -/
def User.active (user : User) : Bool := user.role = .orgAdmin && user.disabledAt = none

/-- The roles this surface sets. -/
inductive Settable where
  | orgAdmin
  | member
  deriving DecidableEq

def Settable.role : Settable → Role
  | .orgAdmin => .orgAdmin
  | .member => .member

/-- What is to be changed; the subject may be set to nothing. -/
structure Change where
  role : Option Settable
  disabled : Option Bool
  externalId : Option (Option String)
  deriving DecidableEq

/-- `change.role ?? current.role`. -/
def Change.roleOf (change : Change) (current : User) : Role :=
  (change.role.map Settable.role).getD current.role

/-- `change.disabled ?? current.disabledAt !== null`. -/
def Change.disables (change : Change) (current : User) : Bool :=
  change.disabled.getD (current.disabledAt ≠ none)

/-- The change gives an administrator up. -/
def Change.demotes (change : Change) (current : User) : Bool :=
  current.active && !(change.roleOf current = .orgAdmin && !change.disables current)

/-- The row the `UPDATE` leaves, with what was decided of the row that was
selected. -/
def Change.write (change : Change) (current row : User) (now : Time) : User where
  role := change.roleOf current
  disabledAt := if change.disables current then row.disabledAt.or (some now) else none
  externalId := change.externalId.getD row.externalId

-- ================================================================= state

inductive Outcome where
  | updated
  | lastAdmin
  | platformAdmin
  | noUser
  | subjectTaken
  deriving DecidableEq

/-- What a transaction has done. -/
inductive Stage where
  | begun
  | locked
  | selected (current : User)
  | counted (current : User)
  /-- It has an answer, and the row it wrote, if any, is to be committed. -/
  | done (outcome : Outcome) (pending : Option User)
  deriving DecidableEq

structure Tx where
  org : OrgId
  target : UserId
  change : Change
  began : Time
  stage : Stage
  deriving DecidableEq

/-- It holds the organization's lock. -/
def Tx.holds (org : OrgId) (t : Tx) : Bool := t.org = org && t.stage ≠ .begun

structure World where
  now : Time
  users : OrgId → UserId → Option User
  /-- The ids there are. -/
  ids : List UserId
  txs : List Tx
  ended : List (Tx × Outcome)

/-- Nobody has begun. -/
def init (s : World) : Prop :=
  s.txs = [] ∧ s.ended = [] ∧ ∀ org id row, s.users org id = some row → id ∈ s.ids

inductive Action where
  | tick
  | update (org : OrgId) (target : UserId) (change : Change)
  | run (t : Tx)
  | abort (t : Tx)

-- =============================================================== statements

def World.activeAt (s : World) (org : OrgId) (id : UserId) : Bool :=
  (s.users org id).any User.active

/-- `SELECT count(*) …`: the other active administrators. -/
def World.others (s : World) (org : OrgId) (target : UserId) : Nat :=
  s.ids.countP fun id => id ≠ target && s.activeAt org id

/-- The subject is another's. -/
def World.taken (s : World) (org : OrgId) (target : UserId) (externalId : Option String) : Bool :=
  externalId ≠ none && s.ids.any fun id =>
    id ≠ target && (s.users org id).any (·.externalId = externalId)

def World.advance (s : World) (t : Tx) (stage : Stage) : World :=
  { s with txs := { t with stage := stage } :: s.txs.erase t }

/-- The next statement of a transaction. -/
def runTx (s : World) (t : Tx) : Option World :=
  match t.stage with
  | .begun =>
      -- the lock is waited for
      if s.txs.any (·.holds t.org) then none else some (s.advance t .locked)
  | .locked =>
      match s.users t.org t.target with
      | none => some (s.advance t (.done .noUser none))
      | some current =>
          if current.role = .platformAdmin then
            some (s.advance t (.done .platformAdmin none))
          else some (s.advance t (.selected current))
  | .selected current =>
      if t.change.demotes current && s.others t.org t.target = 0 then
        some (s.advance t (.done .lastAdmin none))
      else some (s.advance t (.counted current))
  | .counted current =>
      match s.users t.org t.target with
      | none => some (s.advance t (.done .noUser none))
      | some row =>
          let new := t.change.write current row t.began
          if s.taken t.org t.target new.externalId then
            some (s.advance t (.done .subjectTaken none))
          else some (s.advance t (.done .updated (some new)))
  | .done outcome pending =>
      some { s with
        users := match pending with
          | none => s.users
          | some new =>
              Function.update s.users t.org
                (Function.update (s.users t.org) t.target (some new))
        txs := s.txs.erase t
        ended := (t, outcome) :: s.ended }

def step (s : World) : Action → Option World
  | .tick => some { s with now := s.now + 1 }
  | .update org target change =>
      some { s with txs := ⟨org, target, change, s.now, .begun⟩ :: s.txs }
  | .run t => if t ∈ s.txs then runTx s t else none
  | .abort t => if t ∈ s.txs then some { s with txs := s.txs.erase t } else none

-- ============================================================ what it means

def World.hasAdmin (s : World) (org : OrgId) : Prop := ∃ id, s.activeAt org id = true

/-- Since `s₀`. -/
structure Governed (s₀ s : World) : Prop where
  admins : ∀ org, s₀.hasAdmin org → s.hasAdmin org
  /-- Rows change only where an update ends with `updated`. -/
  refused : ∀ a s', step s a = some s' → s'.users ≠ s.users →
    ∃ t pending, a = .run t ∧ t.stage = .done .updated pending
  platform : ∀ org id row s', s.users org id = some row → row.role = .platformAdmin →
    Steps step anyStep s s' → s'.users org id = some row

-- =============================================================== the guard

variable {s s' : World} {a : Action} {t : Tx} {P : OrgId → Prop}

/-- What a transaction has found out, and what holds of it until its end. -/
def Stage.Checked (s : World) (org : OrgId) (target : UserId) (change : Change) : Stage → Prop
  | .begun => True
  | .locked => True
  | .selected current =>
      s.users org target = some current ∧ current.role ≠ .platformAdmin
  | .counted current =>
      (s.users org target = some current ∧ current.role ≠ .platformAdmin)
        ∧ (change.demotes current = true → ∃ id, id ≠ target ∧ s.activeAt org id = true)
  | .done _ none => True
  | .done outcome (some new) =>
      outcome = .updated ∧ (∃ current, s.users org target = some current
        ∧ current.role ≠ .platformAdmin
        ∧ (current.active = true → new.active = true
          ∨ ∃ id, id ≠ target ∧ s.activeAt org id = true))

/-- It reads its own organization only. -/
theorem Stage.Checked.of_eq {org : OrgId} {target : UserId} {change : Change} {stage : Stage}
    (hsame : s'.users org = s.users org) (h : stage.Checked s org target change) :
    stage.Checked s' org target change := by
  have hactive : s'.activeAt org = s.activeAt org := by
    funext id
    unfold World.activeAt
    rw [hsame]
  cases stage with
  | begun => trivial
  | locked => trivial
  | selected current => simpa only [Stage.Checked, hsame] using h
  | counted current => simpa only [Stage.Checked, hsame, hactive] using h
  | done outcome pending =>
      cases pending with
      | none => trivial
      | some new => simpa only [Stage.Checked, hsame, hactive] using h

structure Guarded (P : OrgId → Prop) (s : World) : Prop where
  ids : ∀ org id row, s.users org id = some row → id ∈ s.ids
  solo : ∀ org, s.txs.countP (·.holds org) ≤ 1
  checked : ∀ t ∈ s.txs, t.stage.Checked s t.org t.target t.change
  admins : ∀ org, P org → s.hasAdmin org

/-- A transaction goes on: the rows stay, and so does what the others have
found out. -/
theorem Guarded.advance (h : Guarded P s) (ht : t ∈ s.txs) {stage : Stage}
    (hlock : stage ≠ .begun → t.stage ≠ .begun ∨ s.txs.any (·.holds t.org) = false)
    (hchecked : stage.Checked s t.org t.target t.change) : Guarded P (s.advance t stage) := by
  refine ⟨h.ids, fun org => ?_, fun t' ht' => ?_, h.admins⟩
  · show (Tx.mk t.org t.target t.change t.began stage :: s.txs.erase t).countP (·.holds org) ≤ 1
    by_cases hfree : s.txs.any (·.holds t.org) = false
    · by_cases horg : t.org = org
      · subst horg
        refine Solo.solo_cons fun t' ht' => ?_
        rw [List.any_eq_false] at hfree
        exact Bool.eq_false_iff.2 (hfree t' (List.mem_of_mem_erase ht'))
      · have hother : ¬ (Tx.mk t.org t.target t.change t.began stage).holds org = true := by
          intro hholds
          exact horg (of_decide_eq_true (Bool.and_eq_true_iff.1 hholds).1)
        rw [List.countP_cons_of_neg hother]
        exact Solo.solo_sublist (h.solo org) List.erase_sublist
    · refine Solo.solo_swap (h.solo org) ht fun hholds => ?_
      obtain ⟨horg, hbegun⟩ := Bool.and_eq_true_iff.1 hholds
      refine Bool.and_eq_true_iff.2 ⟨horg, ?_⟩
      rcases hlock (of_decide_eq_true hbegun) with hheld | hnone
      · exact decide_eq_true hheld
      · exact absurd hnone hfree
  · rcases List.mem_cons.1 ht' with rfl | hin
    · exact hchecked
    · exact h.checked t' (List.mem_of_mem_erase hin)

theorem Guarded.erase (h : Guarded P s) (t : Tx) : Guarded P { s with txs := s.txs.erase t } :=
  ⟨h.ids, fun org => Solo.solo_sublist (h.solo org) List.erase_sublist,
    fun t' ht' => h.checked t' (List.mem_of_mem_erase ht'), h.admins⟩

/-- There is another who counts. -/
theorem exists_other {org : OrgId} {target : UserId}
    (hothers : s.others org target ≠ 0) : ∃ id, id ≠ target ∧ s.activeAt org id = true := by
  obtain ⟨id, -, hsel⟩ := List.countP_pos_iff.1 (Nat.pos_of_ne_zero hothers)
  obtain ⟨hne, hactive⟩ := Bool.and_eq_true_iff.1 hsel
  exact ⟨id, of_decide_eq_true hne, hactive⟩

/-- A change that gives nobody up leaves an administrator one. -/
theorem write_active {change : Change} {current : User} {now : Time}
    (hactive : current.active = true) (hkeeps : change.demotes current = false) :
    (change.write current current now).active = true := by
  unfold Change.demotes at hkeeps
  rw [hactive, Bool.true_and, Bool.not_eq_false', Bool.and_eq_true, Bool.not_eq_true',
    decide_eq_true_eq] at hkeeps
  unfold Change.write User.active
  rw [hkeeps.1, hkeeps.2]
  rfl

/-- The end of an update: its row is committed. -/
theorem Guarded.commit (h : Guarded P s) (ht : t ∈ s.txs) {outcome : Outcome} {new : User}
    (hstage : t.stage = .done outcome (some new)) :
    Guarded P { s with
      users := Function.update s.users t.org
        (Function.update (s.users t.org) t.target (some new))
      txs := s.txs.erase t
      ended := (t, outcome) :: s.ended } := by
  have hchecked := h.checked t ht
  rw [hstage] at hchecked
  obtain ⟨-, current, hcurrent, -, hstill⟩ := hchecked
  -- an administrator other than the target stays
  have hkept : ∀ {org : OrgId} {id : UserId}, (org ≠ t.org ∨ id ≠ t.target) →
      Function.update s.users t.org (Function.update (s.users t.org) t.target (some new)) org id
        = s.users org id := by
    intro org id hother
    by_cases horg : org = t.org
    · subst horg
      rw [Function.update_self]
      rcases hother with hne | hne
      · exact absurd rfl hne
      · exact Function.update_of_ne hne ..
    · rw [Function.update_of_ne horg]
  refine ⟨fun org id row hrow => ?_,
    fun org => Solo.solo_sublist (h.solo org) List.erase_sublist, fun t' ht' => ?_,
    fun org hP => ?_⟩
  · by_cases hhere : org = t.org ∧ id = t.target
    · obtain ⟨rfl, rfl⟩ := hhere
      exact h.ids _ _ current hcurrent
    · refine h.ids org id row ?_
      rw [← hkept (by tauto)]
      exact hrow
  · -- the others of this organization have not got the lock
    have hin := List.mem_of_mem_erase ht'
    have hmine : t.holds t.org = true := by
      refine Bool.and_eq_true_iff.2 ⟨decide_eq_true rfl, decide_eq_true ?_⟩
      rw [hstage]
      exact nofun
    by_cases horg : t'.org = t.org
    · have hnot := Solo.solo_erase (h.solo t.org) ht hmine ht'
      have hbegun : t'.stage = .begun := by
        by_contra hne
        rw [Tx.holds, decide_eq_true horg, decide_eq_true hne] at hnot
        cases hnot
      rw [hbegun]
      trivial
    · exact (h.checked t' hin).of_eq (Function.update_of_ne horg ..)
  · obtain ⟨id, hid⟩ := h.admins org hP
    by_cases hhere : org = t.org ∧ id = t.target
    · obtain ⟨rfl, rfl⟩ := hhere
      unfold World.activeAt at hid
      rw [hcurrent] at hid
      rcases hstill hid with hnew | ⟨other, hne, hother⟩
      · refine ⟨t.target, ?_⟩
        unfold World.activeAt
        dsimp only
        rw [Function.update_self, Function.update_self]
        exact hnew
      · refine ⟨other, ?_⟩
        unfold World.activeAt
        dsimp only
        rw [hkept (.inr hne)]
        exact hother
    · refine ⟨id, ?_⟩
      unfold World.activeAt
      dsimp only
      rw [hkept (by tauto)]
      exact hid

theorem Guarded.run (h : Guarded P s) (ht : t ∈ s.txs) (hs : runTx s t = some s') :
    Guarded P s' := by
  have hchecked := h.checked t ht
  cases hstage : t.stage with
  | begun =>
      simp only [runTx, hstage] at hs
      split at hs
      next => cases hs
      next hfree =>
        cases hs
        exact h.advance ht (fun _ => .inr (Bool.eq_false_iff.2 hfree)) trivial
  | locked =>
      have hheld : t.stage ≠ .begun := by
        rw [hstage]
        exact nofun
      simp only [runTx, hstage] at hs
      split at hs
      next =>
        cases hs
        exact h.advance ht (fun _ => .inl hheld) trivial
      next current hcurrent =>
        split at hs
        next =>
          cases hs
          exact h.advance ht (fun _ => .inl hheld) trivial
        next hrole =>
          cases hs
          exact h.advance ht (fun _ => .inl hheld) ⟨hcurrent, hrole⟩
  | selected current =>
      have hheld : t.stage ≠ .begun := by
        rw [hstage]
        exact nofun
      rw [hstage] at hchecked
      simp only [runTx, hstage] at hs
      split at hs
      next =>
        cases hs
        exact h.advance ht (fun _ => .inl hheld) trivial
      next hcount =>
        cases hs
        refine h.advance ht (fun _ => .inl hheld) ⟨hchecked, fun hdemotes => ?_⟩
        refine exists_other fun hnone => hcount ?_
        rw [hdemotes, hnone]
        rfl
  | counted current =>
      have hheld : t.stage ≠ .begun := by
        rw [hstage]
        exact nofun
      rw [hstage] at hchecked
      obtain ⟨⟨hcurrent, hrole⟩, hothers⟩ := hchecked
      simp only [runTx, hstage, hcurrent] at hs
      split at hs
      next =>
        cases hs
        exact h.advance ht (fun _ => .inl hheld) trivial
      next =>
        cases hs
        refine h.advance ht (fun _ => .inl hheld)
          ⟨rfl, current, hcurrent, hrole, fun hactive => ?_⟩
        cases hdemotes : t.change.demotes current with
        | true => exact .inr (hothers hdemotes)
        | false => exact .inl (write_active hactive hdemotes)
  | done outcome pending =>
      simp only [runTx, hstage] at hs
      cases hs
      cases pending with
      | none =>
          have hgone := h.erase t
          exact ⟨hgone.ids, hgone.solo, hgone.checked, hgone.admins⟩
      | some new => exact h.commit ht hstage

theorem Guarded.step (h : Guarded P s) (hs : step s a = some s') : Guarded P s' := by
  cases a with
  | tick =>
      cases hs
      exact ⟨h.ids, h.solo, fun t ht => (h.checked t ht).of_eq rfl, h.admins⟩
  | update org target change =>
      cases hs
      refine ⟨h.ids, fun org' => ?_, fun t ht => ?_, h.admins⟩
      · have hnot : ¬ (Tx.mk org target change s.now .begun).holds org' = true := by
          simp [Tx.holds]
        show (_ :: s.txs).countP (·.holds org') ≤ 1
        rw [List.countP_cons_of_neg hnot]
        exact h.solo org'
      · rcases List.mem_cons.1 ht with rfl | hin
        · trivial
        · exact h.checked t hin
  | run t =>
      simp only [Users.step, Option.ite_none_right_eq_some] at hs
      exact h.run hs.1 hs.2
  | abort t =>
      simp only [Users.step, Option.ite_none_right_eq_some] at hs
      cases hs.2
      exact h.erase t

theorem guarded_init (hs : init s) : Guarded s.hasAdmin s := by
  obtain ⟨htxs, -, hids⟩ := hs
  refine ⟨hids, fun org => ?_, ?_, fun org h => h⟩
  · rw [htxs]
    exact Nat.zero_le 1
  · rw [htxs]
    exact fun t ht => absurd ht List.not_mem_nil

/-- Rows change only at the end of an update that went through. -/
theorem users_step (h : Guarded P s) (hs : step s a = some s') (hne : s'.users ≠ s.users) :
    ∃ t ∈ s.txs, ∃ new, a = .run t ∧ t.stage = .done .updated (some new)
      ∧ s'.users = Function.update s.users t.org
          (Function.update (s.users t.org) t.target (some new)) := by
  cases a with
  | tick =>
      cases hs
      exact absurd rfl hne
  | update org target change =>
      cases hs
      exact absurd rfl hne
  | abort t =>
      simp only [Users.step, Option.ite_none_right_eq_some] at hs
      cases hs.2
      exact absurd rfl hne
  | run t =>
      simp only [Users.step, Option.ite_none_right_eq_some] at hs
      obtain ⟨ht, hs⟩ := hs
      have hchecked := h.checked t ht
      have hadvance : ∀ stage, s' ≠ s.advance t stage := by
        rintro stage rfl
        exact hne rfl
      cases hstage : t.stage with
      | done outcome pending =>
          rw [hstage] at hchecked
          simp only [runTx, hstage] at hs
          cases hs
          cases pending with
          | none => exact absurd rfl hne
          | some new =>
              obtain ⟨rfl, -⟩ := hchecked
              exact ⟨t, ht, new, rfl, hstage, rfl⟩
      | begun =>
          simp only [runTx, hstage] at hs
          split at hs
          · cases hs
          · exact absurd (Option.some.inj hs).symm (hadvance _)
      | locked =>
          simp only [runTx, hstage] at hs
          split at hs
          · exact absurd (Option.some.inj hs).symm (hadvance _)
          · split at hs <;> exact absurd (Option.some.inj hs).symm (hadvance _)
      | selected current =>
          simp only [runTx, hstage] at hs
          split at hs <;> exact absurd (Option.some.inj hs).symm (hadvance _)
      | counted current =>
          simp only [runTx, hstage] at hs
          split at hs
          · exact absurd (Option.some.inj hs).symm (hadvance _)
          · split at hs <;> exact absurd (Option.some.inj hs).symm (hadvance _)

/-- A platform administrator's row stays as it is. -/
theorem platform_step (h : Guarded P s) (hs : step s a = some s') {org : OrgId} {id : UserId}
    {row : User} (hrow : s.users org id = some row) (hrole : row.role = .platformAdmin) :
    s'.users org id = some row := by
  by_cases hne : s'.users = s.users
  · rw [hne]
    exact hrow
  · obtain ⟨t, ht, new, -, hstage, husers⟩ := users_step h hs hne
    have hchecked := h.checked t ht
    rw [hstage] at hchecked
    obtain ⟨-, current, hcurrent, hnot, -⟩ := hchecked
    rw [husers]
    by_cases horg : org = t.org
    · subst horg
      rw [Function.update_self]
      by_cases hid : id = t.target
      · subst hid
        rw [hcurrent] at hrow
        cases hrow
        exact absurd hrole hnot
      · rw [Function.update_of_ne hid]
        exact hrow
    · rw [Function.update_of_ne horg]
      exact hrow

/-- An organization that has an active administrator keeps one, whoever
updates whom; what is refused changes nothing, and nothing changes a
platform administrator. -/
theorem admins_remain {s₀ : World} (h₀ : init s₀) (hrun : Steps step anyStep s₀ s) :
    Governed s₀ s := by
  have hguarded : Guarded s₀.hasAdmin s :=
    hrun.invariant (guarded_init h₀) fun _ _ _ h _ hs => h.step hs
  refine ⟨hguarded.admins, fun a s' hs hne => ?_, fun org id row s' hrow hrole hsteps => ?_⟩
  · obtain ⟨t, -, new, ha, hstage, -⟩ := users_step hguarded hs hne
    exact ⟨t, some new, ha, hstage⟩
  · have hkept := hsteps.invariant
      (I := fun t => Guarded s₀.hasAdmin t ∧ t.users org id = some row) ⟨hguarded, hrow⟩
      fun _ _ _ h _ hs => ⟨h.1.step hs, platform_step h.1 hs h.2 hrole⟩
    exact hkept.2

/-- Two administrators, and one of the platform. -/
def World.pair : World where
  now := 0
  users org id :=
    if org = "o" ∧ id ∈ ["ann", "bob"] then some ⟨.orgAdmin, none, none⟩
    else if org = "o" ∧ id = "root" then some ⟨.platformAdmin, none, none⟩
    else none
  ids := ["ann", "bob", "root"]
  txs := []
  ended := []

/-- An update of one of them, at a stage. -/
def demotion (target : UserId) (stage : Stage) : Tx :=
  ⟨"o", target, ⟨some .member, none, none⟩, 0, stage⟩

/-- The two demote each other at once: the second is refused. -/
def mutualActs : List Action :=
  let admin : User := ⟨.orgAdmin, none, none⟩
  [.update "o" "ann" ⟨some .member, none, none⟩, .update "o" "bob" ⟨some .member, none, none⟩,
    .run (demotion "ann" .begun), .run (demotion "ann" .locked),
    .run (demotion "ann" (.selected admin)), .run (demotion "ann" (.counted admin)),
    .run (demotion "ann" (.done .updated (some ⟨.member, none, none⟩))),
    .run (demotion "bob" .begun), .run (demotion "bob" .locked),
    .run (demotion "bob" (.selected admin)), .run (demotion "bob" (.done .lastAdmin none))]

def mutualWorld : World := (runWithin step anyStep World.pair mutualActs).get (by decide +kernel)

theorem pair_init : init World.pair := by
  refine ⟨rfl, rfl, fun org id row hrow => ?_⟩
  unfold World.pair at hrow ⊢
  dsimp only at hrow ⊢
  split_ifs at hrow with hadmin hroot
  · rcases List.mem_cons.1 hadmin.2 with rfl | hin
    · decide
    · rw [List.mem_singleton.1 hin]
      decide
  · rw [hroot.2]
    decide

theorem admins_remain_mutual :
    mutualWorld.ended.map (·.2) = [.lastAdmin, .updated] ∧ Governed World.pair mutualWorld :=
  ⟨by decide +kernel, admins_remain pair_init (runWithin_steps (Option.some_get _).symm)⟩

end Nacre.Users
