/-
A notification is one pass's at a time.

# The argument

A pass makes a notification its own by claiming it, from `queued`; and only
the pass whose it is puts it back there, in the step that gives it up
(`Owned`). So however late a pass is, nobody else has claimed what it holds:
expiring a claim does not let another begin.

A pass puts a notification back only when it delivered it to nobody. So a
notification that is queued was delivered to nobody (`Single`), and of a
pass's people each is sent it once. And a pass sends to whom `address` found
while the notification was being claimed (`Answered`).

All of this holds of every run.
-/
import Nacre.Lib.Table
import Nacre.Notify.Outbox

namespace Nacre.Notify

open Nacre.Store (Time)
open Transition

variable {collate : String → String → Bool} {w w' : World} {p : Nat} {pass : Pass}
  {id : NotificationId}

-- =========================================================== whose they are

structure Owned (w : World) : Prop where
  nodup : ∀ {p pass}, w.passes p = some pass → pass.ids.Nodup
  sole : ∀ {p q pass pass' id}, w.passes p = some pass → w.passes q = some pass' →
    id ∈ pass.ids → id ∈ pass'.ids → p = q
  locks : ∀ {p pass id}, w.passes p = some pass → pass.uncommitted = true → id ∈ pass.ids →
    w.locked id = some p
  queued : ∀ {p pass id}, w.passes p = some pass → pass.uncommitted = true → id ∈ pass.ids →
    ∃ row, w.rows id = some row ∧ row.status = .queued
  claimed : ∀ {p pass id}, w.passes p = some pass → pass.uncommitted = false → id ∈ pass.ids →
    ∀ row, w.rows id = some row → row.status ≠ .queued
  listed : ∀ {id row}, w.rows id = some row → id ∈ w.ids
  known : ∀ {p pass id}, w.passes p = some pass → id ∈ pass.ids → id ∈ w.ids

/-- What somebody has locked is not free for another. -/
theorem Owned.not_free (h : Owned w) (hp : w.passes p = some pass)
    (hpass : pass.uncommitted = true) (hid : id ∈ pass.ids) : w.locked id ≠ none := by
  rw [h.locks hp hpass hid]
  nofun

/-- A pass goes on, with no more than it had. -/
theorem Owned.turn (h : Owned w) {old : Pass} (hp : w.passes p = some old)
    (hpasses : w'.passes = Function.update w.passes p (some pass)) (hrows : w'.rows = w.rows)
    (hids : w'.ids = w.ids) (hlocked : w'.locked = w.locked)
    (hkind : pass.uncommitted = old.uncommitted) (hsub : pass.ids.Subperm old.ids) :
    Owned w' := by
  have hback : ∀ {q t}, w'.passes q = some t → ∃ t', w.passes q = some t' ∧
      t.uncommitted = t'.uncommitted ∧ t.ids.Subperm t'.ids := by
    intro q t hq
    rw [hpasses] at hq
    obtain ⟨rfl, rfl⟩ | ⟨-, hq⟩ := Table.update_cases hq
    · exact ⟨old, hp, hkind, hsub⟩
    · exact ⟨t, hq, rfl, List.Subperm.refl _⟩
  constructor
  · intro q t hq
    obtain ⟨t', hq', -, l, hperm, hl⟩ := hback hq
    exact hperm.nodup_iff.mp ((h.nodup hq').sublist hl)
  · intro q r t u k hq hr ht hu
    obtain ⟨t', hq', -, hsub'⟩ := hback hq
    obtain ⟨u', hr', -, hsub''⟩ := hback hr
    exact h.sole hq' hr' (hsub'.subset ht) (hsub''.subset hu)
  · intro q t k hq ht hk
    obtain ⟨t', hq', hsame, hsub'⟩ := hback hq
    rw [hlocked]
    exact h.locks hq' (hsame ▸ ht) (hsub'.subset hk)
  · intro q t k hq ht hk
    obtain ⟨t', hq', hsame, hsub'⟩ := hback hq
    rw [hrows]
    exact h.queued hq' (hsame ▸ ht) (hsub'.subset hk)
  · intro q t k hq ht hk
    obtain ⟨t', hq', hsame, hsub'⟩ := hback hq
    rw [hrows]
    exact h.claimed hq' (hsame ▸ ht) (hsub'.subset hk)
  · rw [hrows, hids]
    exact h.listed
  · intro q t k hq hk
    obtain ⟨t', hq', -, hsub'⟩ := hback hq
    rw [hids]
    exact h.known hq' (hsub'.subset hk)

/-- Rows that nobody has locked are written: none of them becomes queued. -/
theorem Owned.rewrite (h : Owned w) (hpasses : w'.passes = w.passes) (hids : w'.ids = w.ids)
    (hlocked : w'.locked = w.locked)
    (hkept : ∀ k, w.locked k ≠ none → w'.rows k = w.rows k)
    (hrows : ∀ k row', w'.rows k = some row' →
      ∃ row, w.rows k = some row ∧ (row'.status = .queued → row.status = .queued)) :
    Owned w' := by
  constructor
  · rw [hpasses]
    exact h.nodup
  · rw [hpasses]
    exact h.sole
  · rw [hpasses, hlocked]
    exact h.locks
  · intro q t k hq ht hk
    rw [hpasses] at hq
    rw [hkept k (h.not_free hq ht hk)]
    exact h.queued hq ht hk
  · intro q t k hq ht hk row' hrow' hqueued
    rw [hpasses] at hq
    obtain ⟨row, hrow, hback⟩ := hrows k row' hrow'
    exact h.claimed hq ht hk row hrow (hback hqueued)
  · intro k row' hrow'
    obtain ⟨row, hrow, -⟩ := hrows k row' hrow'
    rw [hids]
    exact h.listed hrow
  · rw [hpasses, hids]
    exact h.known

/-- A row that is addressed is still this pass's. -/
theorem ids_address (at_ : Time) (id : NotificationId) (todo : List NotificationId)
    (out : List Item) (item : Item) (hid : item.id = id) :
    (Pass.claiming at_ todo (out ++ [item])).ids.Perm (Pass.claiming at_ (id :: todo) out).ids := by
  simp only [Pass.ids, Pass.todo, Pass.items, List.map_append, List.map_cons, List.map_nil, hid]
  rw [← List.append_assoc]
  exact List.perm_append_singleton id _

theorem mem_ids_items {item : Item} (h : item ∈ pass.items) : item.id ∈ pass.ids :=
  List.mem_append_right _ (List.mem_map_of_mem h)

/-- The rows after a commit. -/
theorem rows_commit {out : List Item} {row : Notification}
    (h : (w.commit p out).rows id = some row) :
    (∃ item ∈ out, item.id = id ∧ row = item.n) ∨
      (id ∉ out.map (·.id) ∧ w.rows id = some row) := by
  simp only [World.commit] at h
  split at h
  next item hfind =>
    cases h
    have hid : item.id = id := by simpa using List.find?_some hfind
    exact .inl ⟨item, List.mem_of_find?_eq_some hfind, hid, rfl⟩
  next hnone =>
    refine .inr ⟨fun hmem => ?_, h⟩
    obtain ⟨item, hitem, hid⟩ := List.mem_map.mp hmem
    exact absurd (decide_eq_true hid) (by simpa using List.find?_eq_none.mp hnone item hitem)

/-- The rows after a finish. -/
theorem rows_finish {at_ : Time} {item : Item} {outcome : Outcome} {rest : List Item}
    {row' : Notification} (h : (w.finish p at_ item outcome rest).rows id = some row') :
    ∃ row, w.rows id = some row ∧ (row' = row ∨ id = item.id ∧ row' = row.finish at_ outcome) := by
  simp only [World.finish] at h
  by_cases hid : id = item.id
  · subst hid
    rw [Function.update_self, Option.map_eq_some_iff] at h
    obtain ⟨row, hrow, rfl⟩ := h
    refine ⟨row, hrow, ?_⟩
    split
    · exact .inr ⟨rfl, rfl⟩
    · exact .inl rfl
  · rw [Function.update_of_ne hid] at h
    exact ⟨row', h, .inl rfl⟩

theorem rows_expire {at_ : Time} {ids : List NotificationId} {row' : Notification}
    (h : (w.expire at_ ids).rows id = some row') :
    ∃ row, w.rows id = some row ∧ (id ∈ ids ∧ row' = row.expire at_ ∨ id ∉ ids ∧ row' = row) := by
  simp only [World.expire] at h
  split at h
  next hid =>
    rw [Option.map_eq_some_iff] at h
    obtain ⟨row, hrow, rfl⟩ := h
    exact ⟨row, hrow, .inl ⟨hid, rfl⟩⟩
  next hid => exact ⟨row', h, .inr ⟨hid, rfl⟩⟩

theorem rows_prune {ids : List NotificationId} {row' : Notification}
    (h : (w.prune ids).rows id = some row') : id ∉ ids ∧ w.rows id = some row' := by
  simp only [World.prune] at h
  split at h
  next => cases h
  next hid => exact ⟨hid, h⟩

/-- An expired row is over. -/
theorem Notification.expire_terminal (n : Notification) (at_ : Time) :
    (n.expire at_).status.terminal = true := by
  unfold Notification.expire
  dsimp only
  split <;> rfl

theorem Owned.claim (h : Owned w) {at_ : Time} {ids : List NotificationId}
    (hp : w.passes p = none) (hnodup : ids.Nodup) (hfree : ∀ k ∈ ids, w.locked k = none)
    (hdue : ∀ k ∈ ids, ∃ row, w.rows k = some row ∧ row.status = .queued) :
    Owned (w.claim p at_ ids) := by
  have hids : (Pass.claiming at_ ids []).ids = ids := List.append_nil ids
  -- What another pass holds is not due: it is locked, or claimed.
  have hother : ∀ {q t k}, w.passes q = some t → k ∈ t.ids → k ∉ ids := by
    intro q t k hq hk hin
    cases ht : t.uncommitted with
    | true => exact h.not_free hq ht hk (hfree k hin)
    | false =>
        obtain ⟨row, hrow, hqueued⟩ := hdue k hin
        exact h.claimed hq ht hk row hrow hqueued
  constructor
  · intro q t hq
    obtain ⟨-, rfl⟩ | ⟨-, hq⟩ := Table.update_cases hq
    · rw [hids]
      exact hnodup
    · exact h.nodup hq
  · intro q r t u k hq hr ht hu
    obtain ⟨hqp, rfl⟩ | ⟨-, hq'⟩ := Table.update_cases hq <;>
      obtain ⟨hrp, rfl⟩ | ⟨-, hr'⟩ := Table.update_cases hr
    · rw [hqp, hrp]
    · rw [hids] at ht
      exact absurd ht (hother hr' hu)
    · rw [hids] at hu
      exact absurd hu (hother hq' ht)
    · exact h.sole hq' hr' ht hu
  · intro q t k hq ht hk
    show (if k ∈ ids then some p else w.locked k) = some q
    obtain ⟨rfl, rfl⟩ | ⟨-, hq⟩ := Table.update_cases hq
    · rw [hids] at hk
      rw [if_pos hk]
    · rw [if_neg (hother hq hk)]
      exact h.locks hq ht hk
  · intro q t k hq ht hk
    obtain ⟨-, rfl⟩ | ⟨-, hq⟩ := Table.update_cases hq
    · rw [hids] at hk
      exact hdue k hk
    · exact h.queued hq ht hk
  · intro q t k hq ht hk
    obtain ⟨-, rfl⟩ | ⟨-, hq⟩ := Table.update_cases hq
    · cases ht
    · exact h.claimed hq ht hk
  · exact h.listed
  · intro q t k hq hk
    obtain ⟨-, rfl⟩ | ⟨-, hq⟩ := Table.update_cases hq
    · rw [hids] at hk
      obtain ⟨row, hrow, -⟩ := hdue k hk
      exact h.listed hrow
    · exact h.known hq hk

/-- A pass stops: what it had locked is free. -/
theorem Owned.stop (h : Owned w) : Owned (w.stop p) := by
  constructor
  · intro q t hq
    exact h.nodup (Table.delete_cases hq).2
  · intro q r t u k hq hr
    exact h.sole (Table.delete_cases hq).2 (Table.delete_cases hr).2
  · intro q t k hq ht hk
    obtain ⟨hqp, hq⟩ := Table.delete_cases hq
    have hlocked : w.locked k = some q := h.locks hq ht hk
    show (if w.locked k = some p then none else w.locked k) = some q
    rw [hlocked, if_neg (by simpa using hqp)]
  · intro q t k hq
    exact h.queued (Table.delete_cases hq).2
  · intro q t k hq
    exact h.claimed (Table.delete_cases hq).2
  · exact h.listed
  · intro q t k hq
    exact h.known (Table.delete_cases hq).2

/-- A claim is committed: what it wrote says so. -/
theorem Owned.commit (h : Owned w) {at_ : Time} {out : List Item}
    (hp : w.passes p = some (.claiming at_ [] out))
    (hclaimed : ∀ item ∈ out, item.n.status = .sending) : Owned (w.commit p out) := by
  have hids : (Pass.claiming at_ [] out).ids = out.map (·.id) := rfl
  have hids' : (Pass.sending out).ids = out.map (·.id) := rfl
  -- Of the rows it wrote, none is another pass's.
  have hrows : ∀ {q t k}, q ≠ p → w.passes q = some t → k ∈ t.ids → ∀ row,
      (w.commit p out).rows k = some row → w.rows k = some row := by
    intro q t k hqp hq hk row hrow
    obtain ⟨item, hitem, rfl, -⟩ | ⟨-, hrow⟩ := rows_commit hrow
    · exact absurd (h.sole hq hp hk (hids ▸ List.mem_map_of_mem hitem)) hqp
    · exact hrow
  constructor
  · intro q t hq
    obtain ⟨-, rfl⟩ | ⟨-, hq⟩ := Table.update_cases hq
    · rw [hids', ← hids]
      exact h.nodup hp
    · exact h.nodup hq
  · intro q r t u k hq hr ht hu
    obtain ⟨hqp, rfl⟩ | ⟨-, hq'⟩ := Table.update_cases hq <;>
      obtain ⟨hrp, rfl⟩ | ⟨-, hr'⟩ := Table.update_cases hr
    · rw [hqp, hrp]
    · rw [hids', ← hids] at ht
      rw [hqp]
      exact h.sole hp hr' ht hu
    · rw [hids', ← hids] at hu
      rw [hrp]
      exact h.sole hq' hp ht hu
    · exact h.sole hq' hr' ht hu
  · intro q t k hq ht hk
    obtain ⟨-, rfl⟩ | ⟨hqp, hq⟩ := Table.update_cases hq
    · cases ht
    · have hlocked : w.locked k = some q := h.locks hq ht hk
      show (if w.locked k = some p then none else w.locked k) = some q
      rw [hlocked, if_neg (by simpa using hqp)]
  · intro q t k hq ht hk
    obtain ⟨-, rfl⟩ | ⟨hqp, hq⟩ := Table.update_cases hq
    · cases ht
    · obtain ⟨row, hrow, hqueued⟩ := h.queued hq ht hk
      refine ⟨row, ?_, hqueued⟩
      have hnot : out.find? (fun item => decide (item.id = k)) = none := by
        rw [List.find?_eq_none]
        intro item hitem hid
        have hid : item.id = k := of_decide_eq_true hid
        subst hid
        exact hqp (h.sole hq hp hk (hids ▸ List.mem_map_of_mem hitem))
      simp only [World.commit, hnot, hrow]
  · intro q t k hq ht hk row hrow
    obtain ⟨-, rfl⟩ | ⟨hqp, hq⟩ := Table.update_cases hq
    · obtain ⟨item, hitem, -, rfl⟩ | ⟨hnot, -⟩ := rows_commit hrow
      · rw [hclaimed item hitem]
        nofun
      · exact absurd (hids' ▸ hk) hnot
    · exact h.claimed hq ht hk row (hrows hqp hq hk row hrow)
  · intro k row hrow
    obtain ⟨item, hitem, rfl, -⟩ | ⟨-, hrow⟩ := rows_commit hrow
    · exact h.known hp (hids ▸ List.mem_map_of_mem hitem)
    · exact h.listed hrow
  · intro q t k hq hk
    obtain ⟨-, rfl⟩ | ⟨-, hq⟩ := Table.update_cases hq
    · exact h.known hp (hids ▸ (hids' ▸ hk))
    · exact h.known hq hk

/-- A finish gives the notification up, whatever it makes of the row. -/
theorem Owned.finish (h : Owned w) {at_ : Time} {item : Item} {outcome : Outcome}
    {rest : List Item} (hp : w.passes p = some (.finishing item outcome rest)) :
    Owned (w.finish p at_ item outcome rest) := by
  have hids : (Pass.finishing item outcome rest).ids = item.id :: rest.map (·.id) := rfl
  have hids' : (Pass.sending rest).ids = rest.map (·.id) := rfl
  have hnodup : (item.id :: rest.map (·.id)).Nodup := hids ▸ h.nodup hp
  -- Nobody else holds it.
  have hgone : ∀ {q t}, (w.finish p at_ item outcome rest).passes q = some t →
      item.id ∉ t.ids := by
    intro q t hq hid
    obtain ⟨-, rfl⟩ | ⟨hqp, hq⟩ := Table.update_cases hq
    · exact (List.nodup_cons.mp hnodup).1 (hids' ▸ hid)
    · exact hqp (h.sole hq hp hid (hids ▸ List.mem_cons_self))
  have hback : ∀ {q t}, (w.finish p at_ item outcome rest).passes q = some t →
      ∃ t', w.passes q = some t' ∧ t.uncommitted = t'.uncommitted ∧ t.ids.Sublist t'.ids := by
    intro q t hq
    obtain ⟨rfl, rfl⟩ | ⟨-, hq⟩ := Table.update_cases hq
    · exact ⟨_, hp, rfl, List.sublist_cons_self _ _⟩
    · exact ⟨t, hq, rfl, List.Sublist.refl _⟩
  have hrows : ∀ {k}, k ≠ item.id →
      (w.finish p at_ item outcome rest).rows k = w.rows k := by
    intro k hk
    exact Function.update_of_ne hk _ _
  constructor
  · intro q t hq
    obtain ⟨t', hq', -, hsub⟩ := hback hq
    exact (h.nodup hq').sublist hsub
  · intro q r t u k hq hr ht hu
    obtain ⟨t', hq', -, hsub⟩ := hback hq
    obtain ⟨u', hr', -, hsub'⟩ := hback hr
    exact h.sole hq' hr' (hsub.subset ht) (hsub'.subset hu)
  · intro q t k hq ht hk
    obtain ⟨t', hq', hsame, hsub⟩ := hback hq
    exact h.locks hq' (hsame ▸ ht) (hsub.subset hk)
  · intro q t k hq ht hk
    have hk' : k ≠ item.id := by
      rintro rfl
      exact hgone hq hk
    obtain ⟨t', hq', hsame, hsub⟩ := hback hq
    rw [hrows hk']
    exact h.queued hq' (hsame ▸ ht) (hsub.subset hk)
  · intro q t k hq ht hk
    have hk' : k ≠ item.id := by
      rintro rfl
      exact hgone hq hk
    obtain ⟨t', hq', hsame, hsub⟩ := hback hq
    rw [hrows hk']
    exact h.claimed hq' (hsame ▸ ht) (hsub.subset hk)
  · intro k row' hrow'
    obtain ⟨row, hrow, -⟩ := rows_finish hrow'
    exact h.listed hrow
  · intro q t k hq hk
    obtain ⟨t', hq', -, hsub⟩ := hback hq
    exact h.known hq' (hsub.subset hk)

/-- A notification that is new is nobody's. -/
theorem Owned.queue (h : Owned w) {n : Notification} (hnew : id ∉ w.ids) :
    Owned { w with rows := Function.update w.rows id (some n), ids := id :: w.ids } := by
  have hne : ∀ {q t k}, w.passes q = some t → k ∈ t.ids → k ≠ id := by
    rintro q t k hq hk rfl
    exact hnew (h.known hq hk)
  constructor
  · exact h.nodup
  · exact h.sole
  · exact h.locks
  · intro q t k hq ht hk
    show ∃ row, Function.update w.rows id (some n) k = some row ∧ _
    rw [Function.update_of_ne (hne hq hk)]
    exact h.queued hq ht hk
  · intro q t k hq ht hk row hrow
    obtain ⟨hkid, -⟩ | ⟨-, hrow⟩ := Table.update_cases hrow
    · exact absurd hkid (hne hq hk)
    · exact h.claimed hq ht hk row hrow
  · intro k row hrow
    obtain ⟨rfl, -⟩ | ⟨-, hrow⟩ := Table.update_cases hrow
    · exact List.mem_cons_self
    · exact List.mem_cons_of_mem _ (h.listed hrow)
  · intro q t k hq hk
    exact List.mem_cons_of_mem _ (h.known hq hk)

-- =========================================================== what was found

/-- Active in the notification's own organization, and named by it, when
this was read. -/
def Addressed.Reached (a : Addressed) (person : Person) : Prop :=
  ∃ user, a.users person.id = some user ∧ user.reached a.n person.id = true ∧
    person.email = user.email

structure Answered (w : World) : Prop where
  userIds : w.userIds.Nodup
  /-- What is claimed and not committed is the row, claimed. -/
  claims : ∀ {p pass item}, w.passes p = some pass → pass.uncommitted = true →
    item ∈ pass.items → ∃ row at_, w.rows item.id = some row ∧ item.n = row.claim at_
  people : ∀ {p pass item}, w.passes p = some pass → item ∈ pass.items →
    (item.people.map (·.id)).Nodup ∧ ∃ a ∈ w.addressed, a.id = item.id ∧ a.n = item.n ∧
      ∀ person ∈ item.people, a.Reached person
  left : ∀ {p item left to_ lastError rest},
    w.passes p = some (.mailing item left to_ lastError rest) →
      ∀ person ∈ left, person ∈ item.people
  messages : ∀ m ∈ w.messages, ∃ a ∈ w.addressed, a.id = m.notification ∧ a.n = m.n ∧
    a.Reached m.to_
  /-- A notification keeps its organization. -/
  kept : ∀ a ∈ w.addressed, a.id ∈ w.ids ∧ ∀ row, w.rows a.id = some row → row.org = a.n.org

theorem mem_person {n : Notification} {u : UserId} {person : Person}
    (h : w.person n u = some person) :
    person.id = u ∧ ∃ user, w.users u = some user ∧ user.reached n u = true ∧
      person.email = user.email := by
  unfold World.person at h
  split at h
  next user huser =>
    split at h
    next hreached =>
      cases h
      exact ⟨rfl, user, huser, hreached, rfl⟩
    next => cases h
  next => cases h

theorem mem_people {n : Notification} {person : Person} (h : person ∈ w.people collate n) :
    ∃ user, w.users person.id = some user ∧ user.reached n person.id = true ∧
      person.email = user.email := by
  unfold World.people at h
  rw [List.mem_insertionSort, List.mem_filterMap] at h
  obtain ⟨u, -, hu⟩ := h
  obtain ⟨rfl, huser⟩ := mem_person hu
  exact huser

/-- Nobody is addressed twice. -/
theorem nodup_people {n : Notification} (h : w.userIds.Nodup) :
    ((w.people collate n).map (·.id)).Nodup := by
  have hperm : (w.people collate n).Perm (w.userIds.filterMap (w.person n)) :=
    List.perm_insertionSort _ _
  rw [(hperm.map _).nodup_iff, List.map_filterMap]
  refine h.filterMap ?_
  intro u u' b hb hb'
  obtain ⟨person, hperson, rfl⟩ := Option.map_eq_some_iff.mp hb
  obtain ⟨person', hperson', hsame⟩ := Option.map_eq_some_iff.mp hb'
  rw [← (mem_person hperson).1, ← (mem_person hperson').1, hsame]

/-- Passes go on with what they had; rows keep their organization, and those
that a claim has locked are not written. -/
theorem Answered.carry (h : Answered w) (husers : w.userIds.Nodup → w'.userIds.Nodup)
    (haddressed : w'.addressed = w.addressed) (hids : ∀ k ∈ w.ids, k ∈ w'.ids)
    (hpasses : ∀ {q t}, w'.passes q = some t → ∀ item ∈ t.items, ∃ t', w.passes q = some t' ∧
      item ∈ t'.items ∧ (t.uncommitted = true →
        t'.uncommitted = true ∧ w'.rows item.id = w.rows item.id))
    (hleft : ∀ {q item left to_ lastError rest},
      w'.passes q = some (.mailing item left to_ lastError rest) →
        ∀ person ∈ left, person ∈ item.people)
    (hrows : ∀ k row', w'.rows k = some row' → k ∈ w.ids →
      ∃ row, w.rows k = some row ∧ row'.org = row.org)
    (hmessages : ∀ m ∈ w'.messages, m ∈ w.messages ∨ ∃ a ∈ w.addressed, a.id = m.notification ∧
      a.n = m.n ∧ a.Reached m.to_) : Answered w' := by
  constructor
  · exact husers h.userIds
  · intro q t item hq ht hitem
    obtain ⟨t', hq', hitem', hrest⟩ := hpasses hq item hitem
    obtain ⟨ht', hsame⟩ := hrest ht
    rw [hsame]
    exact h.claims hq' ht' hitem'
  · intro q t item hq hitem
    obtain ⟨t', hq', hitem', -⟩ := hpasses hq item hitem
    rw [haddressed]
    exact h.people hq' hitem'
  · exact hleft
  · intro m hm
    rw [haddressed]
    obtain hm | hfound := hmessages m hm
    · exact h.messages m hm
    · exact hfound
  · intro a ha
    rw [haddressed] at ha
    obtain ⟨hid, horg⟩ := h.kept a ha
    refine ⟨hids _ hid, fun row' hrow' => ?_⟩
    obtain ⟨row, hrow, hsame⟩ := hrows _ _ hrow' hid
    exact hsame.trans (horg row hrow)

/-- A pass that has committed its claim goes on. -/
theorem Answered.turn (h : Answered w) {old : Pass} (hp : w.passes p = some old)
    (hpass : pass.uncommitted = false) (hitems : ∀ item ∈ pass.items, item ∈ old.items)
    (hleft : ∀ {item left to_ lastError rest}, pass = .mailing item left to_ lastError rest →
      ∀ person ∈ left, person ∈ item.people) : Answered (w.put p pass) := by
  refine h.carry id rfl (fun _ hk => hk) ?_ ?_ (fun _ row' hrow' _ => ⟨row', hrow', rfl⟩)
    fun m hm => .inl hm
  · intro q t hq item hitem
    obtain ⟨rfl, rfl⟩ | ⟨-, hq⟩ := Table.update_cases hq
    · refine ⟨old, hp, hitems item hitem, fun ht => ?_⟩
      rw [hpass] at ht
      cases ht
    · exact ⟨t, hq, hitem, fun ht => ⟨ht, rfl⟩⟩
  · intro q item left to_ lastError rest hq
    obtain ⟨-, hsame⟩ | ⟨-, hq⟩ := Table.update_cases hq
    · exact hleft hsame.symm
    · exact h.left hq

/-- Rows that nobody has locked are written. -/
theorem Answered.rewrite (h : Answered w) (howned : Owned w)
    (hsame : w' = { w with rows := w'.rows, audit := w'.audit })
    (hkept : ∀ k, w.locked k ≠ none → w'.rows k = w.rows k)
    (hrows : ∀ k row', w'.rows k = some row' → ∃ row, w.rows k = some row ∧ row'.org = row.org) :
    Answered w' := by
  have hpasses : w'.passes = w.passes := by rw [hsame]
  refine h.carry (by rw [hsame]; exact id) (by rw [hsame])
    (by rw [hsame]; exact fun _ hk => hk) ?_ ?_ (fun k row' hrow' _ => hrows k row' hrow')
    (by rw [hsame]; exact fun _ hm => .inl hm)
  · intro q t hq item hitem
    rw [hpasses] at hq
    exact ⟨t, hq, hitem, fun ht =>
      ⟨ht, hkept _ (howned.not_free hq ht (mem_ids_items hitem))⟩⟩
  · intro q item left to_ lastError rest hq
    rw [hpasses] at hq
    exact h.left hq

theorem Answered.address (h : Answered w) (howned : Owned w) {at_ : Time}
    {todo : List NotificationId} {out : List Item} {row : Notification}
    (hp : w.passes p = some (.claiming at_ (id :: todo) out)) (hrow : w.rows id = some row) :
    Answered (w.address collate p at_ id todo out row) := by
  have hmem : ∀ {item : Item} {item' : Item}, item ∈ out ++ [item'] → item ∈ out ∨ item = item' := by
    intro item item' hitem
    simpa using hitem
  constructor
  · exact h.userIds
  · intro q t item hq ht hitem
    obtain ⟨rfl, rfl⟩ | ⟨-, hq⟩ := Table.update_cases hq
    · obtain hitem | rfl := hmem hitem
      · exact h.claims hp rfl hitem
      · exact ⟨row, at_, hrow, rfl⟩
    · exact h.claims hq ht hitem
  · intro q t item hq hitem
    have hmore : ∀ {item : Item}, (∃ a ∈ w.addressed, a.id = item.id ∧ a.n = item.n ∧
        ∀ person ∈ item.people, a.Reached person) →
        ∃ a ∈ (w.address collate p at_ id todo out row).addressed, a.id = item.id ∧
          a.n = item.n ∧ ∀ person ∈ item.people, a.Reached person := by
      rintro item ⟨a, ha, hrest⟩
      exact ⟨a, List.mem_cons_of_mem _ ha, hrest⟩
    obtain ⟨rfl, rfl⟩ | ⟨-, hq⟩ := Table.update_cases hq
    · obtain hitem | rfl := hmem hitem
      · exact (h.people hp hitem).imp_right hmore
      · exact ⟨nodup_people h.userIds, _, List.mem_cons_self, rfl, rfl,
          fun person hperson => mem_people hperson⟩
    · exact (h.people hq hitem).imp_right hmore
  · intro q item left to_ lastError rest hq
    obtain ⟨-, hsame⟩ | ⟨-, hq⟩ := Table.update_cases hq
    · cases hsame
    · exact h.left hq
  · intro m hm
    obtain ⟨a, ha, hrest⟩ := h.messages m hm
    exact ⟨a, List.mem_cons_of_mem _ ha, hrest⟩
  · intro a ha
    obtain rfl | ha := List.mem_cons.mp ha
    · refine ⟨howned.listed hrow, fun row' hrow' => ?_⟩
      have hrow' : w.rows id = some row' := hrow'
      rw [hrow] at hrow'
      cases hrow'
      rfl
    · exact h.kept a ha

-- =========================================================== who has had it

/-- Those a notification was delivered to. -/
def World.got (w : World) (id : NotificationId) : List UserId :=
  (w.messages.filter (·.notification = id)).map (·.to_.id)

/-- The notifications of a committed claim that were not begun. -/
def Pass.waiting : Pass → List NotificationId
  | .claiming .. => []
  | .sending rest => rest.map (·.id)
  | .mailing _ _ _ _ rest => rest.map (·.id)
  | .finishing _ _ rest => rest.map (·.id)

structure Single (w : World) : Prop where
  nodup : ∀ id, (w.got id).Nodup
  queued : ∀ {id row}, w.rows id = some row → row.status = .queued → w.got id = []
  fresh : ∀ {id}, id ∉ w.ids → w.got id = []
  waiting : ∀ {p pass id}, w.passes p = some pass → id ∈ pass.waiting → w.got id = []
  mailing : ∀ {p item left to_ lastError rest},
    w.passes p = some (.mailing item left to_ lastError rest) →
      (∀ u ∈ w.got item.id, u ∈ to_) ∧ (to_ ++ left.map (·.id)).Nodup
  retry : ∀ {p item error rest}, w.passes p = some (.finishing item (.retry error) rest) →
    w.got item.id = []

theorem waiting_ids (h : id ∈ pass.waiting) : id ∈ pass.ids := by
  cases pass with
  | claiming at_ todo out => cases h
  | sending rest => exact h
  | mailing item left to_ lastError rest => exact List.mem_cons_of_mem _ h
  | finishing item outcome rest => exact List.mem_cons_of_mem _ h

/-- Nothing is delivered, and one pass goes on. -/
theorem Single.turn (h : Single w) (hmessages : w'.messages = w.messages)
    (hpasses : w'.passes = Function.update w.passes p (some pass))
    (hids : ∀ k ∈ w.ids, k ∈ w'.ids)
    (hqueued : ∀ k row', w'.rows k = some row' → row'.status = .queued → w.got k = [])
    (hwaiting : ∀ k ∈ pass.waiting, w.got k = [])
    (hmailing : ∀ {item left to_ lastError rest}, pass = .mailing item left to_ lastError rest →
      (∀ u ∈ w.got item.id, u ∈ to_) ∧ (to_ ++ left.map (·.id)).Nodup)
    (hretry : ∀ {item error rest}, pass = .finishing item (.retry error) rest →
      w.got item.id = []) : Single w' := by
  have hgot : w'.got = w.got := by
    unfold World.got
    rw [hmessages]
  constructor
  · rw [hgot]
    exact h.nodup
  · rw [hgot]
    exact @hqueued
  · intro k hk
    rw [hgot]
    exact h.fresh fun hin => hk (hids k hin)
  · intro q t k hq hk
    rw [hpasses] at hq
    rw [hgot]
    obtain ⟨-, rfl⟩ | ⟨-, hq⟩ := Table.update_cases hq
    · exact hwaiting k hk
    · exact h.waiting hq hk
  · intro q item left to_ lastError rest hq
    rw [hpasses] at hq
    rw [hgot]
    obtain ⟨-, hsame⟩ | ⟨-, hq⟩ := Table.update_cases hq
    · exact hmailing hsame.symm
    · exact h.mailing hq
  · intro q item error rest hq
    rw [hpasses] at hq
    rw [hgot]
    obtain ⟨-, hsame⟩ | ⟨-, hq⟩ := Table.update_cases hq
    · exact hretry hsame.symm
    · exact h.retry hq

/-- Nothing is delivered, and no pass goes on. -/
theorem Single.quiet (h : Single w) (hmessages : w'.messages = w.messages)
    (hpasses : ∀ {q t}, w'.passes q = some t → w.passes q = some t)
    (hids : ∀ k ∈ w.ids, k ∈ w'.ids)
    (hqueued : ∀ k row', w'.rows k = some row' → row'.status = .queued → w.got k = []) :
    Single w' := by
  have hgot : w'.got = w.got := by
    unfold World.got
    rw [hmessages]
  constructor
  · rw [hgot]
    exact h.nodup
  · rw [hgot]
    exact @hqueued
  · intro k hk
    rw [hgot]
    exact h.fresh fun hin => hk (hids k hin)
  · intro q t k hq hk
    rw [hgot]
    exact h.waiting (hpasses hq) hk
  · intro q item left to_ lastError rest hq
    rw [hgot]
    exact h.mailing (hpasses hq)
  · intro q item error rest hq
    rw [hgot]
    exact h.retry (hpasses hq)

section deliver

variable {item : Item} {origin : NotificationOrigin} {person : Person} {left : List Person}
  {to_ : List UserId} {lastError : String} {rest : List Item}

theorem got_deliver (id : NotificationId) :
    (w.deliver p item origin person left to_ lastError rest).got id
      = if item.id = id then person.id :: w.got id else w.got id := by
  simp only [World.got, World.deliver, List.filter_cons, decide_eq_true_eq]
  split <;> rfl

/-- The next of its people is sent it: nobody else is, by this or another
pass. -/
theorem Single.deliver (h : Single w) (howned : Owned w)
    (hp : w.passes p = some (.mailing item (person :: left) to_ lastError rest)) :
    Single (w.deliver p item origin person left to_ lastError rest) := by
  have hids : item.id ∈ (Pass.mailing item (person :: left) to_ lastError rest).ids :=
    mem_ids_items List.mem_cons_self
  obtain ⟨hto, hnodup⟩ := h.mailing hp
  have hmiddle : (person.id :: (to_ ++ left.map (·.id))).Nodup :=
    List.perm_middle.nodup_iff.mp hnodup
  have hother : ∀ {k}, k ≠ item.id →
      (w.deliver p item origin person left to_ lastError rest).got k = w.got k := by
    intro k hk
    rw [got_deliver, if_neg (Ne.symm hk)]
  -- A notification of another pass, or one that waits, is another one.
  have hapart : ∀ {q t k}, (w.deliver p item origin person left to_ lastError rest).passes q
      = some t → k ∈ t.waiting → k ≠ item.id := by
    rintro q t k hq hk rfl
    obtain ⟨-, rfl⟩ | ⟨hqp, hq⟩ := Table.update_cases hq
    · exact (List.nodup_cons.mp (howned.nodup hp)).1 hk
    · exact hqp (howned.sole hq hp (waiting_ids hk) hids)
  constructor
  · intro k
    rw [got_deliver]
    split
    next hk =>
      subst hk
      refine List.nodup_cons.mpr ⟨fun hmem => ?_, h.nodup _⟩
      exact (List.nodup_cons.mp hmiddle).1 (List.mem_append_left _ (hto _ hmem))
    next => exact h.nodup k
  · intro k row hrow hqueued
    have hk : k ≠ item.id := by
      rintro rfl
      exact howned.claimed hp rfl hids row hrow hqueued
    rw [hother hk]
    exact h.queued hrow hqueued
  · intro k hk
    have hk' : k ≠ item.id := by
      rintro rfl
      exact hk (howned.known hp hids)
    rw [hother hk']
    exact h.fresh hk
  · intro q t k hq hk
    rw [hother (hapart hq hk)]
    obtain ⟨-, rfl⟩ | ⟨-, hq⟩ := Table.update_cases hq
    · exact h.waiting hp hk
    · exact h.waiting hq hk
  · intro q item' left' to' lastError' rest' hq
    obtain ⟨-, hsame⟩ | ⟨hqp, hq⟩ := Table.update_cases hq
    · cases hsame
      refine ⟨fun u hu => ?_, ?_⟩
      · rw [got_deliver, if_pos rfl] at hu
        obtain rfl | hu := List.mem_cons.mp hu
        · exact List.mem_append_right _ List.mem_cons_self
        · exact List.mem_append_left _ (hto u hu)
      · rw [List.append_assoc]
        exact hnodup
    · have hne : item'.id ≠ item.id := fun hid =>
        hqp (howned.sole hq hp (hid ▸ mem_ids_items List.mem_cons_self) hids)
      rw [hother hne]
      exact h.mailing hq
  · intro q item' error rest' hq
    obtain ⟨-, hsame⟩ | ⟨hqp, hq⟩ := Table.update_cases hq
    · cases hsame
    · have hne : item'.id ≠ item.id := fun hid =>
        hqp (howned.sole hq hp (hid ▸ mem_ids_items List.mem_cons_self) hids)
      rw [hother hne]
      exact h.retry hq

end deliver

-- ============================================================== every step

structure Sound (w : World) : Prop where
  owned : Owned w
  answered : Answered w
  single : Single w

theorem sound_new (now : Time) : Sound (World.new now) := by
  have hidle : ∀ {p pass}, ¬ (World.new now).passes p = some pass := by
    intro p pass h
    cases h
  have hempty : ∀ {id row}, ¬ (World.new now).rows id = some row := by
    intro id row h
    cases h
  constructor
  · exact ⟨fun h => absurd h hidle, fun h => absurd h hidle, fun h => absurd h hidle,
      fun h => absurd h hidle, fun h => absurd h hidle, fun h => absurd h hempty,
      fun h => absurd h hidle⟩
  · exact ⟨List.nodup_nil, fun h => absurd h hidle, fun h => absurd h hidle,
      fun h => absurd h hidle, fun m hm => absurd hm List.not_mem_nil,
      fun a ha => absurd ha List.not_mem_nil⟩
  · exact ⟨fun _ => List.nodup_nil, fun h => absurd h hempty, fun _ => rfl,
      fun h => absurd h hidle, fun h => absurd h hidle, fun h => absurd h hidle⟩

theorem Notification.finish_org (n : Notification) (at_ : Time) (outcome : Outcome) :
    (n.finish at_ outcome).org = n.org := by
  cases outcome <;> rfl

/-- Only a retry puts a row back. -/
theorem Notification.finish_queued {n : Notification} {at_ : Time} {outcome : Outcome}
    (h : (n.finish at_ outcome).status = .queued) : ∃ error, outcome = .retry error := by
  cases outcome with
  | retry error => exact ⟨error, rfl⟩
  | sent to_ missed error => cases h
  | dropped error => cases h
  | failed error => cases h

/-- A pass goes round again only when it delivered nothing. -/
theorem Item.outcome_retry {item : Item} {to_ : List UserId} {lastError error : String}
    (h : item.outcome to_ lastError = .retry error) : to_ = [] := by
  unfold Item.outcome at h
  split at h
  next => cases h
  next hto => simpa using hto

theorem sublist_ids_cons (item : Item) (rest : List Item) :
    (rest.map (·.id)).Sublist ((item :: rest).map (·.id)) :=
  List.sublist_cons_self _ _

theorem owned_step {act : Action} (h : Owned w) (hanswered : Answered w)
    (hmoved : Moved collate w act w') : Owned w' := by
  cases hmoved with
  | elsewhere act w' hrows hids hlocked hpasses =>
      exact h.rewrite hpasses hids hlocked (fun k _ => by rw [hrows]) fun k row' hrow' =>
        ⟨row', by rw [← hrows]; exact hrow', id⟩
  | queue id n hnew => exact h.queue hnew
  | claim p at_ limit ids hp hnodup hfree hdue => exact h.claim hp hnodup hfree hdue
  | address p at_ id todo out row hp =>
      exact h.turn hp rfl rfl rfl rfl rfl (ids_address at_ id todo out _ rfl).subperm
  | commit p at_ out hp =>
      refine h.commit hp fun item hitem => ?_
      obtain ⟨row, at', -, hn⟩ := hanswered.claims hp rfl hitem
      rw [hn]
      rfl
  | drop p item rest error hp => exact h.turn hp rfl rfl rfl rfl rfl (List.Subperm.refl _)
  | mail p item rest hp => exact h.turn hp rfl rfl rfl rfl rfl (List.Subperm.refl _)
  | deliver p item origin person left to_ lastError rest hp =>
      exact h.turn hp rfl rfl rfl rfl rfl (List.Subperm.refl _)
  | refuse p error item person left to_ lastError rest hp =>
      exact h.turn hp rfl rfl rfl rfl rfl (List.Subperm.refl _)
  | conclude p item to_ lastError rest hp =>
      exact h.turn hp rfl rfl rfl rfl rfl (List.Subperm.refl _)
  | finish p at_ item outcome rest hp => exact h.finish hp
  | stop p pass hp => exact h.stop
  | expire at_ ids hnodup hfree hdue =>
      refine h.rewrite rfl rfl rfl (fun k hk => if_neg fun hin => hk (hfree k hin)) ?_
      intro k row' hrow'
      obtain ⟨row, hrow, ⟨-, rfl⟩ | ⟨-, rfl⟩⟩ := rows_expire hrow'
      · refine ⟨row, hrow, fun hqueued => ?_⟩
        have hover : (row.expire at_).status.terminal = true := row.expire_terminal at_
        rw [hqueued] at hover
        cases hover
      · exact ⟨_, hrow, id⟩
  | prune at_ retentionDays ids hfree =>
      refine h.rewrite rfl rfl rfl (fun k hk => if_neg fun hin => hk (hfree k hin)) ?_
      intro k row' hrow'
      exact ⟨row', (rows_prune hrow').2, id⟩

theorem answered_step {act : Action} (howned : Owned w) (h : Answered w)
    (hmoved : Moved collate w act w') : Answered w' := by
  cases hmoved with
  | elsewhere act w' hrows hids hlocked hpasses haudit hmessages haddressed husers =>
      refine h.carry husers haddressed (fun k hk => by rw [hids]; exact hk) ?_ ?_ ?_ ?_
      · intro q t hq item hitem
        rw [hpasses] at hq
        exact ⟨t, hq, hitem, fun ht => ⟨ht, by rw [hrows]⟩⟩
      · intro q item left to_ lastError rest hq
        rw [hpasses] at hq
        exact h.left hq
      · intro k row' hrow' _
        rw [hrows] at hrow'
        exact ⟨row', hrow', rfl⟩
      · intro m hm
        rw [hmessages] at hm
        exact .inl hm
  | queue id n hnew =>
      refine h.carry (fun hnodup => hnodup) rfl (fun k hk => List.mem_cons_of_mem _ hk) ?_
        (fun hq => h.left hq) ?_ fun m hm => .inl hm
      · intro q t hq item hitem
        refine ⟨t, hq, hitem, fun ht => ⟨ht, Function.update_of_ne ?_ _ _⟩⟩
        rintro rfl
        exact hnew (howned.known hq (mem_ids_items hitem))
      · intro k row' hrow' hk
        obtain ⟨rfl, -⟩ | ⟨-, hrow'⟩ := Table.update_cases hrow'
        · exact absurd hk hnew
        · exact ⟨row', hrow', rfl⟩
  | claim p at_ limit ids hp =>
      refine h.carry (fun hnodup => hnodup) rfl (fun k hk => hk) ?_ ?_
        (fun k row' hrow' _ => ⟨row', hrow', rfl⟩) fun m hm => .inl hm
      · intro q t hq item hitem
        obtain ⟨-, rfl⟩ | ⟨-, hq⟩ := Table.update_cases hq
        · cases hitem
        · exact ⟨t, hq, hitem, fun ht => ⟨ht, rfl⟩⟩
      · intro q item left to_ lastError rest hq
        obtain ⟨-, hsame⟩ | ⟨-, hq⟩ := Table.update_cases hq
        · cases hsame
        · exact h.left hq
  | address p at_ id todo out row hp hrow => exact h.address howned hp hrow
  | commit p at_ out hp =>
      have hmem : ∀ {item}, item ∈ out → item.id ∈ (Pass.claiming at_ [] out).ids :=
        fun hitem => List.mem_map_of_mem hitem
      refine h.carry (fun hnodup => hnodup) rfl (fun k hk => hk) ?_ ?_ ?_ fun m hm => .inl hm
      · intro q t hq item hitem
        obtain ⟨rfl, rfl⟩ | ⟨hqp, hq⟩ := Table.update_cases hq
        · exact ⟨_, hp, hitem, nofun⟩
        · refine ⟨t, hq, hitem, fun ht => ⟨ht, ?_⟩⟩
          have hnone : out.find? (fun item' => decide (item'.id = item.id)) = none := by
            rw [List.find?_eq_none]
            intro item' hitem' hid
            have hid : item'.id = item.id := of_decide_eq_true hid
            exact hqp (howned.sole hq hp (mem_ids_items hitem) (hid ▸ hmem hitem'))
          simp only [World.commit, hnone]
      · intro q item left to_ lastError rest hq
        obtain ⟨-, hsame⟩ | ⟨-, hq⟩ := Table.update_cases hq
        · cases hsame
        · exact h.left hq
      · intro k row' hrow' _
        obtain ⟨item, hitem, rfl, rfl⟩ | ⟨-, hrow'⟩ := rows_commit hrow'
        · obtain ⟨row, at', hrow, hn⟩ := h.claims hp rfl hitem
          exact ⟨row, hrow, by rw [hn]; rfl⟩
        · exact ⟨row', hrow', rfl⟩
  | drop p item rest error hp => exact h.turn hp rfl (fun _ hitem => hitem) nofun
  | mail p item rest hp =>
      refine h.turn hp rfl (fun _ hitem => hitem) ?_
      rintro _ _ _ _ _ ⟨⟩ person hperson
      exact hperson
  | deliver p item origin person left to_ lastError rest hp =>
      have hturn : Answered (w.put p (.mailing item left (to_ ++ [person.id]) lastError rest)) := by
        refine h.turn hp rfl (fun _ hitem => hitem) ?_
        rintro _ _ _ _ _ ⟨⟩ other hother
        exact h.left hp other (List.mem_cons_of_mem _ hother)
      refine hturn.carry (fun hnodup => hnodup) rfl (fun k hk => hk) ?_ (fun hq => hturn.left hq)
        (fun k row' hrow' _ => ⟨row', hrow', rfl⟩) ?_
      · intro q t hq item' hitem'
        exact ⟨t, hq, hitem', fun ht => ⟨ht, rfl⟩⟩
      · intro m hm
        obtain rfl | hm := List.mem_cons.mp hm
        · obtain ⟨-, a, ha, hid, hn, hreached⟩ := h.people hp List.mem_cons_self
          exact .inr ⟨a, ha, hid, hn, hreached person (h.left hp person List.mem_cons_self)⟩
        · exact .inl hm
  | refuse p error item person left to_ lastError rest hp =>
      refine h.turn hp rfl (fun _ hitem => hitem) ?_
      rintro _ _ _ _ _ ⟨⟩ other hother
      exact h.left hp other (List.mem_cons_of_mem _ hother)
  | conclude p item to_ lastError rest hp => exact h.turn hp rfl (fun _ hitem => hitem) nofun
  | finish p at_ item outcome rest hp =>
      have hturn : Answered (w.put p (.sending rest)) :=
        h.turn hp rfl (fun _ hitem => List.mem_cons_of_mem _ hitem) nofun
      refine hturn.carry (fun hnodup => hnodup) rfl (fun k hk => hk) ?_ (fun hq => hturn.left hq)
        ?_ fun m hm => .inl hm
      · intro q t hq item' hitem'
        refine ⟨t, hq, hitem', fun ht => ⟨ht, Function.update_of_ne ?_ _ _⟩⟩
        intro hid
        obtain ⟨-, rfl⟩ | ⟨hqp, hq⟩ := Table.update_cases hq
        · cases ht
        · exact hqp (howned.sole hq hp (mem_ids_items hitem')
            (hid ▸ mem_ids_items List.mem_cons_self))
      · intro k row' hrow' _
        obtain ⟨row, hrow, rfl | ⟨-, rfl⟩⟩ := rows_finish hrow'
        · exact ⟨_, hrow, rfl⟩
        · exact ⟨row, hrow, row.finish_org at_ outcome⟩
  | stop p pass hp =>
      refine h.carry (fun hnodup => hnodup) rfl (fun k hk => hk) ?_
        (fun hq => h.left (Table.delete_cases hq).2) (fun k row' hrow' _ => ⟨row', hrow', rfl⟩)
        fun m hm => .inl hm
      intro q t hq item hitem
      exact ⟨t, (Table.delete_cases hq).2, hitem, fun ht => ⟨ht, rfl⟩⟩
  | expire at_ ids hnodup hfree hdue =>
      refine h.rewrite howned rfl (fun k hk => if_neg fun hin => hk (hfree k hin)) ?_
      intro k row' hrow'
      obtain ⟨row, hrow, ⟨-, rfl⟩ | ⟨-, rfl⟩⟩ := rows_expire hrow'
      · exact ⟨row, hrow, rfl⟩
      · exact ⟨_, hrow, rfl⟩
  | prune at_ retentionDays ids hfree =>
      refine h.rewrite howned rfl (fun k hk => if_neg fun hin => hk (hfree k hin)) ?_
      intro k row' hrow'
      exact ⟨row', (rows_prune hrow').2, rfl⟩

theorem single_step {act : Action} (howned : Owned w) (hanswered : Answered w) (h : Single w)
    (hmoved : Moved collate w act w') : Single w' := by
  cases hmoved with
  | elsewhere act w' hrows hids hlocked hpasses haudit hmessages =>
      refine h.quiet hmessages (fun hq => by rw [← hpasses]; exact hq)
        (fun k hk => by rw [hids]; exact hk) fun k row' hrow' hqueued => ?_
      rw [hrows] at hrow'
      exact h.queued hrow' hqueued
  | queue id n hnew =>
      refine h.quiet rfl (fun hq => hq) (fun k hk => List.mem_cons_of_mem _ hk) ?_
      intro k row' hrow' hqueued
      obtain ⟨rfl, -⟩ | ⟨-, hrow'⟩ := Table.update_cases hrow'
      · exact h.fresh hnew
      · exact h.queued hrow' hqueued
  | claim p at_ limit ids hp =>
      exact h.turn rfl rfl (fun k hk => hk) (fun k row' hrow' hqueued => h.queued hrow' hqueued)
        nofun nofun nofun
  | address p at_ id todo out row hp hrow =>
      exact h.turn rfl rfl (fun k hk => hk) (fun k row' hrow' hqueued => h.queued hrow' hqueued)
        nofun nofun nofun
  | commit p at_ out hp =>
      refine h.turn rfl rfl (fun k hk => hk) ?_ ?_ nofun nofun
      · intro k row' hrow' hqueued
        obtain ⟨item, hitem, rfl, rfl⟩ | ⟨-, hrow'⟩ := rows_commit hrow'
        · obtain ⟨row, at', -, hn⟩ := hanswered.claims hp rfl hitem
          rw [hn] at hqueued
          cases hqueued
        · exact h.queued hrow' hqueued
      · intro k hk
        obtain ⟨row, hrow, hqueued⟩ := howned.queued hp rfl hk
        exact h.queued hrow hqueued
  | drop p item rest error hp =>
      refine h.turn rfl rfl (fun k hk => hk) (fun k row' hrow' hqueued => h.queued hrow' hqueued)
        (fun k hk => h.waiting hp (List.mem_cons_of_mem _ hk)) nofun nofun
  | mail p item rest hp =>
      refine h.turn rfl rfl (fun k hk => hk) (fun k row' hrow' hqueued => h.queued hrow' hqueued)
        (fun k hk => h.waiting hp (List.mem_cons_of_mem _ hk)) ?_ nofun
      rintro _ _ _ _ _ ⟨⟩
      have hnone : w.got item.id = [] := h.waiting hp List.mem_cons_self
      rw [hnone]
      exact ⟨nofun, (hanswered.people hp List.mem_cons_self).1⟩
  | deliver p item origin person left to_ lastError rest hp => exact h.deliver howned hp
  | refuse p error item person left to_ lastError rest hp =>
      refine h.turn rfl rfl (fun k hk => hk) (fun k row' hrow' hqueued => h.queued hrow' hqueued)
        (fun k hk => h.waiting hp hk) ?_ nofun
      rintro _ _ _ _ _ ⟨⟩
      obtain ⟨hto, hnodup⟩ := h.mailing hp
      exact ⟨hto, (List.perm_middle.nodup_iff.mp hnodup).of_cons⟩
  | conclude p item to_ lastError rest hp =>
      refine h.turn rfl rfl (fun k hk => hk) (fun k row' hrow' hqueued => h.queued hrow' hqueued)
        (fun k hk => h.waiting hp hk) nofun ?_
      intro item' error rest' hsame
      simp only [Pass.finishing.injEq] at hsame
      obtain ⟨rfl, hretry, rfl⟩ := hsame
      obtain ⟨hto, -⟩ := h.mailing hp
      rw [item.outcome_retry hretry] at hto
      exact List.eq_nil_iff_forall_not_mem.mpr fun u hu => nomatch hto u hu
  | finish p at_ item outcome rest hp =>
      refine h.turn rfl rfl (fun k hk => hk) ?_ (fun k hk => h.waiting hp hk) nofun nofun
      intro k row' hrow' hqueued
      obtain ⟨row, hrow, rfl | ⟨rfl, rfl⟩⟩ := rows_finish hrow'
      · exact h.queued hrow hqueued
      · obtain ⟨error, rfl⟩ := Notification.finish_queued hqueued
        exact h.retry hp
  | stop p pass hp =>
      exact h.quiet rfl (fun hq => (Table.delete_cases hq).2) (fun k hk => hk)
        fun k row' hrow' hqueued => h.queued hrow' hqueued
  | expire at_ ids hnodup hfree hdue =>
      refine h.quiet rfl (fun hq => hq) (fun k hk => hk) ?_
      intro k row' hrow' hqueued
      obtain ⟨row, hrow, ⟨-, rfl⟩ | ⟨-, rfl⟩⟩ := rows_expire hrow'
      · have hover : (row.expire at_).status.terminal = true := row.expire_terminal at_
        rw [hqueued] at hover
        cases hover
      · exact h.queued hrow hqueued
  | prune at_ retentionDays ids hfree =>
      exact h.quiet rfl (fun hq => hq) (fun k hk => hk)
        fun k row' hrow' hqueued => h.queued (rows_prune hrow').2 hqueued

theorem sound_step {act : Action} (h : Sound w) (hmoved : Moved collate w act w') : Sound w' :=
  ⟨owned_step h.owned h.answered hmoved, answered_step h.owned h.answered hmoved,
    single_step h.owned h.answered h.single hmoved⟩

theorem sound_reachable {ok : World → Action → Prop}
    (hw : Reachable (step collate) ok init w) : Sound w := by
  refine hw.invariant ?_ fun t a t' ht _ hstep => sound_step ht (step_moved hstep)
  rintro _ ⟨now, rfl⟩
  exact sound_new now

end Nacre.Notify
