/-
A notification ends once.

# What can go wrong

`expireNotifications` ends what was claimed fifteen minutes ago and has no
end: it takes the pass for dead. `finish` does not ask whether its claim
still stands. So of a pass that is merely slow the notification is ended
twice: it is `failed`, and then `sent`, or queued again; and the log has two
lines about it.

# The condition

`Orderly`: what a pass comes to finish is still `sending`. Where the row is
gone, a retry does nothing.

That nobody is sent a notification twice, and that only who was active when
it was claimed is sent it, needs no condition: see `Claims`.
-/
import Nacre.Notify.Claims

namespace Nacre.Notify

open Nacre.Store (Time)
open Transition

variable {collate : String → String → Bool} {w w' : World} {p : Nat} {id : NotificationId}

-- =========================================================== the property

/-- What the log says of a notification. -/
def World.outcomes (w : World) (id : NotificationId) : List Event :=
  w.audit.filter (·.notification = id)

/-- What the outbox promises in every state. -/
structure Promised (w : World) : Prop where
  /-- Nobody is sent a notification twice. -/
  once : ∀ id, (w.got id).Nodup
  /-- What is over has one line in the log, which says how. -/
  recorded : ∀ id row, w.rows id = some row → row.status.terminal = true →
    ∃ e, w.outcomes id = [e] ∧ e.outcome = row.status
  /-- Whoever was sent it was active in its organization when it was claimed. -/
  active : ∀ m ∈ w.messages, ∃ a ∈ w.addressed, a.id = m.notification ∧
    (∀ row, w.rows m.notification = some row → row.org = a.n.org) ∧
    ∃ user, a.users m.to_.id = some user ∧ user.org = a.n.org ∧ user.disabled = false

-- ========================================================== the condition

def Outcome.retries : Outcome → Bool
  | .retry _ => true
  | _ => false

/-- The notification is as the claim left it. -/
def World.stillClaimed (w : World) (item : Item) (outcome : Outcome) : Bool :=
  match w.rows item.id with
  | some row => row.status = .sending
  | none => outcome.retries

/-- No notification is finished that was ended meanwhile. -/
def Orderly (w : World) : Action → Prop
  | .finish p _ =>
      match w.passes p with
      | some (.finishing item outcome _) => w.stillClaimed item outcome = true
      | _ => True
  | _ => True

instance (w : World) (a : Action) : Decidable (Orderly w a) :=
  match a with
  | .finish p _ =>
      match h : w.passes p with
      | some (.finishing item outcome _) =>
          decidable_of_iff (w.stillClaimed item outcome = true) (by simp [Orderly, h])
      | some (.claiming ..) | some (.sending _) | some (.mailing ..) | none =>
          isTrue (by simp [Orderly, h])
  | .tick | .user .. | .consent .. | .rule .. | .queue .. | .claim .. | .address _ | .commit _
  | .next _ | .deliver _ | .refuse .. | .conclude _ | .stop _ | .expire .. | .prune .. =>
      inferInstanceAs (Decidable True)

-- =============================================================== the log

structure Recorded (w : World) : Prop where
  unfinished : ∀ {id row}, w.rows id = some row → row.status.terminal = false →
    w.outcomes id = [] ∧ row.finishedAt = none
  ended : ∀ {id row}, w.rows id = some row → row.status.terminal = true →
    ∃ e, w.outcomes id = [e] ∧ e.outcome = row.status
  fresh : ∀ {id}, id ∉ w.ids → w.outcomes id = []

theorem outcomes_append (events : List Event) (h : w'.audit = events ++ w.audit) :
    w'.outcomes id = events.filter (·.notification = id) ++ w.outcomes id := by
  unfold World.outcomes
  rw [h, List.filter_append]

/-- No line is written, and each row is one that was there, or is new. -/
theorem Recorded.carry (h : Recorded w) (haudit : w'.audit = w.audit)
    (hids : ∀ k ∈ w.ids, k ∈ w'.ids)
    (hrows : ∀ k row', w'.rows k = some row' →
      w.rows k = some row' ∨ row'.status.terminal = false ∧ row'.finishedAt = none ∧
        w.outcomes k = []) : Recorded w' := by
  have hsame : w'.outcomes = w.outcomes := by
    unfold World.outcomes
    rw [haudit]
  constructor
  · intro k row' hrow' hopen
    rw [hsame]
    obtain hrow | ⟨-, hunfinished, hnone⟩ := hrows k row' hrow'
    · exact h.unfinished hrow hopen
    · exact ⟨hnone, hunfinished⟩
  · intro k row' hrow' hover
    rw [hsame]
    obtain hrow | ⟨hopen, -⟩ := hrows k row' hrow'
    · exact h.ended hrow hover
    · rw [hopen] at hover
      cases hover
  · intro k hk
    rw [hsame]
    exact h.fresh fun hin => hk (hids k hin)

/-- The lines a finish writes are about what it finishes. -/
theorem event_filter (item : Item) (outcome : Outcome) :
    (outcome.event item).toList.filter (·.notification = id)
      = if item.id = id then (outcome.event item).toList else [] := by
  cases outcome with
  | retry error => simp [Outcome.event]
  | sent to_ missed error => simp [Outcome.event, List.filter_cons]
  | dropped error => simp [Outcome.event, List.filter_cons]
  | failed error => simp [Outcome.event, List.filter_cons]

/-- The end of a row and the line about it say the same. -/
theorem finish_event (n : Notification) (at_ : Time) (item : Item) (outcome : Outcome) :
    (∃ error, outcome = .retry error ∧ outcome.event item = none ∧
        (n.finish at_ outcome).status = .queued ∧
        (n.finish at_ outcome).finishedAt = n.finishedAt) ∨
      ∃ e, outcome.event item = some e ∧ e.outcome = (n.finish at_ outcome).status ∧
        (n.finish at_ outcome).status.terminal = true := by
  cases outcome with
  | retry error => exact .inl ⟨error, rfl, rfl, rfl, rfl⟩
  | sent to_ missed error => exact .inr ⟨_, rfl, rfl, rfl⟩
  | dropped error => exact .inr ⟨_, rfl, rfl, rfl⟩
  | failed error => exact .inr ⟨_, rfl, rfl, rfl⟩

/-- What an item's pass finds of its row is of the item's organization. -/
theorem item_org (hanswered : Answered w) {pass : Pass} {item : Item} {row : Notification}
    (hp : w.passes p = some pass) (hitem : item ∈ pass.items) (hrow : w.rows item.id = some row) :
    row.org = item.n.org := by
  obtain ⟨-, a, ha, hid, hn, -⟩ := hanswered.people hp hitem
  rw [← hid] at hrow
  rw [← hn]
  exact (hanswered.kept a ha).2 row hrow

section finish

variable {at_ : Time} {item : Item} {outcome : Outcome} {rest : List Item}

theorem rows_finish_self (hanswered : Answered w) {row : Notification}
    (hp : w.passes p = some (.finishing item outcome rest)) (hrow : w.rows item.id = some row) :
    (w.finish p at_ item outcome rest).rows item.id = some (row.finish at_ outcome) := by
  have horg : row.org = item.n.org := item_org hanswered hp List.mem_cons_self hrow
  simp [World.finish, hrow, horg]

theorem outcomes_finish (id : NotificationId) :
    (w.finish p at_ item outcome rest).outcomes id
      = (if item.id = id then (outcome.event item).toList else []) ++ w.outcomes id := by
  rw [outcomes_append (outcome.event item).toList rfl, event_filter]

theorem Recorded.finish (h : Recorded w) (howned : Owned w) (hanswered : Answered w)
    (hp : w.passes p = some (.finishing item outcome rest))
    (hstill : w.stillClaimed item outcome = true) :
    Recorded (w.finish p at_ item outcome rest) := by
  have hother : ∀ {k}, k ≠ item.id → (w.finish p at_ item outcome rest).rows k = w.rows k ∧
      (w.finish p at_ item outcome rest).outcomes k = w.outcomes k := by
    intro k hk
    rw [outcomes_finish, if_neg (Ne.symm hk)]
    exact ⟨Function.update_of_ne hk _ _, rfl⟩
  unfold World.stillClaimed at hstill
  cases hrow : w.rows item.id with
  | none =>
      rw [hrow] at hstill
      have hgone : (w.finish p at_ item outcome rest).rows item.id = none := by
        simp [World.finish, hrow]
      have hback : ∀ {k row'}, (w.finish p at_ item outcome rest).rows k = some row' →
          k ≠ item.id := by
        rintro k row' hrow' rfl
        rw [hgone] at hrow'
        cases hrow'
      constructor
      · intro k row' hrow' hopen
        obtain ⟨hsame, hlines⟩ := hother (hback hrow')
        rw [hlines]
        exact h.unfinished (hsame ▸ hrow') hopen
      · intro k row' hrow' hover
        obtain ⟨hsame, hlines⟩ := hother (hback hrow')
        rw [hlines]
        exact h.ended (hsame ▸ hrow') hover
      · intro k hk
        have hne : k ≠ item.id := by
          rintro rfl
          exact hk (howned.known hp (mem_ids_items List.mem_cons_self))
        rw [(hother hne).2]
        exact h.fresh hk
  | some row =>
      rw [hrow] at hstill
      have hsending : row.status = .sending := of_decide_eq_true hstill
      obtain ⟨hlines, hunfinished⟩ := h.unfinished hrow (by rw [hsending]; rfl)
      have hself : (w.finish p at_ item outcome rest).rows item.id = some (row.finish at_ outcome) :=
        rows_finish_self hanswered hp hrow
      have hlog : (w.finish p at_ item outcome rest).outcomes item.id
          = (outcome.event item).toList := by
        rw [outcomes_finish, if_pos rfl, hlines, List.append_nil]
      constructor
      · intro k row' hrow' hopen
        by_cases hk : k = item.id
        · subst hk
          rw [hself] at hrow'
          cases hrow'
          rw [hlog]
          obtain ⟨error, -, hnone, -, hfin⟩ | ⟨e, -, -, hover⟩ :=
            finish_event row at_ item outcome
          · rw [hnone, hfin]
            exact ⟨rfl, hunfinished⟩
          · rw [hover] at hopen
            cases hopen
        · obtain ⟨hsame, hlines'⟩ := hother hk
          rw [hlines']
          exact h.unfinished (hsame ▸ hrow') hopen
      · intro k row' hrow' hover
        by_cases hk : k = item.id
        · subst hk
          rw [hself] at hrow'
          cases hrow'
          rw [hlog]
          obtain ⟨error, -, -, hqueued, -⟩ | ⟨e, he, hsays, -⟩ :=
            finish_event row at_ item outcome
          · rw [hqueued] at hover
            cases hover
          · rw [he]
            exact ⟨e, rfl, hsays⟩
        · obtain ⟨hsame, hlines'⟩ := hother hk
          rw [hlines']
          exact h.ended (hsame ▸ hrow') hover
      · intro k hk
        have hne : k ≠ item.id := by
          rintro rfl
          exact hk (howned.listed hrow)
        rw [(hother hne).2]
        exact h.fresh hk

end finish

/-- An expiry writes one line about each row it ends. -/
theorem expiry_filter (rows : NotificationId → Option Notification) (at_ : Time)
    (id : NotificationId) : ∀ ids : List NotificationId, ids.Nodup →
      (ids.filterMap fun k => (rows k).map fun row => (row.expire at_).expiry k).filter
          (·.notification = id)
        = if id ∈ ids then ((rows id).map fun row => (row.expire at_).expiry id).toList else [] := by
  intro ids
  induction ids with
  | nil => intro _; rfl
  | cons k ids ih =>
      intro hnodup
      obtain ⟨hk, hrest⟩ := List.nodup_cons.mp hnodup
      have ih := ih hrest
      cases hrow : rows k with
      | none =>
          rw [List.filterMap_cons_none (by rw [hrow]; rfl), ih]
          by_cases hid : id = k
          · subst hid
            rw [if_neg hk, if_pos List.mem_cons_self, hrow]
            rfl
          · simp [hid]
      | some row =>
          rw [List.filterMap_cons_some (by rw [hrow]; rfl), List.filter_cons, ih]
          by_cases hid : id = k
          · subst hid
            simp [hk, hrow, Notification.expiry]
          · have hne : ((row.expire at_).expiry k).notification ≠ id := fun h => hid h.symm
            simp [hid, hne]

theorem outcomes_expire {at_ : Time} {ids : List NotificationId} (hnodup : ids.Nodup)
    (id : NotificationId) :
    (w.expire at_ ids).outcomes id
      = (if id ∈ ids then ((w.rows id).map fun row => (row.expire at_).expiry id).toList else [])
        ++ w.outcomes id := by
  rw [outcomes_append _ rfl, expiry_filter w.rows at_ id ids hnodup]

theorem Recorded.expire (h : Recorded w) (howned : Owned w) {at_ : Time}
    {ids : List NotificationId} (hnodup : ids.Nodup)
    (hdue : ∀ k ∈ ids, ∃ row, w.rows k = some row ∧ row.status.terminal = false) :
    Recorded (w.expire at_ ids) := by
  have hother : ∀ {k}, k ∉ ids → (w.expire at_ ids).outcomes k = w.outcomes k := by
    intro k hk
    rw [outcomes_expire hnodup, if_neg hk]
    rfl
  constructor
  · intro k row' hrow' hopen
    obtain ⟨row, hrow, ⟨-, rfl⟩ | ⟨hk, rfl⟩⟩ := rows_expire hrow'
    · rw [row.expire_terminal at_] at hopen
      cases hopen
    · rw [hother hk]
      exact h.unfinished hrow hopen
  · intro k row' hrow' hover
    obtain ⟨row, hrow, ⟨hk, rfl⟩ | ⟨hk, rfl⟩⟩ := rows_expire hrow'
    · obtain ⟨row₀, hrow₀, hopen⟩ := hdue k hk
      rw [hrow] at hrow₀
      cases hrow₀
      rw [outcomes_expire hnodup, if_pos hk, hrow, (h.unfinished hrow hopen).1]
      exact ⟨_, rfl, rfl⟩
    · rw [hother hk]
      exact h.ended hrow hover
  · intro k hk
    have hne : k ∉ ids := by
      intro hin
      obtain ⟨row, hrow, -⟩ := hdue k hin
      exact hk (howned.listed hrow)
    rw [hother hne]
    exact h.fresh hk

theorem recorded_step {act : Action} (hsound : Sound w) (h : Recorded w) (hok : Orderly w act)
    (hmoved : Moved collate w act w') : Recorded w' := by
  cases hmoved with
  | elsewhere act w' hrows hids hlocked hpasses haudit =>
      exact h.carry haudit (fun k hk => by rw [hids]; exact hk)
        fun k row' hrow' => .inl (by rw [← hrows]; exact hrow')
  | queue id n hnew hqueued hunfinished =>
      refine h.carry rfl (fun k hk => List.mem_cons_of_mem _ hk) ?_
      intro k row' hrow'
      obtain ⟨rfl, rfl⟩ | ⟨-, hrow'⟩ := Table.update_cases hrow'
      · exact .inr ⟨by rw [hqueued]; rfl, hunfinished, h.fresh hnew⟩
      · exact .inl hrow'
  | commit p at_ out hp =>
      refine h.carry rfl (fun k hk => hk) ?_
      intro k row' hrow'
      obtain ⟨item, hitem, rfl, rfl⟩ | ⟨-, hrow'⟩ := rows_commit hrow'
      · obtain ⟨row, at', hrow, hn⟩ := hsound.answered.claims hp rfl hitem
        obtain ⟨row₀, hrow₀, hqueued⟩ := hsound.owned.queued hp rfl (mem_ids_items hitem)
        rw [hrow] at hrow₀
        cases hrow₀
        obtain ⟨hnone, hunfinished⟩ := h.unfinished hrow (by rw [hqueued]; rfl)
        rw [hn]
        exact .inr ⟨rfl, hunfinished, hnone⟩
      · exact .inl hrow'
  | finish p at_ item outcome rest hp =>
      have hstill : w.stillClaimed item outcome = true := by simpa [Orderly, hp] using hok
      exact h.finish hsound.owned hsound.answered hp hstill
  | expire at_ ids hnodup hfree hdue => exact h.expire hsound.owned hnodup hdue
  | prune at_ retentionDays ids hfree hdone =>
      exact h.carry rfl (fun k hk => hk) fun k row' hrow' => .inl (rows_prune hrow').2
  | _ => exact h.carry rfl (fun k hk => hk) fun k row' hrow' => .inl hrow'

-- ============================================================ what is over

/-- A notification that was over: it is as it was, or forgotten, and the log
says of it what it said. -/
structure Over (id : NotificationId) (row : Notification) (lines : List Event) (w : World) :
    Prop where
  listed : id ∈ w.ids
  ended : row.status.terminal = true
  stays : w.rows id = none ∨ w.rows id = some row
  lines_eq : w.outcomes id = lines

variable {row : Notification} {lines : List Event}

theorem Over.carry (h : Over id row lines w) (haudit : w'.audit = w.audit)
    (hids : ∀ k ∈ w.ids, k ∈ w'.ids)
    (hrows : w'.rows id = w.rows id ∨ w'.rows id = none) : Over id row lines w' := by
  refine ⟨hids id h.listed, h.ended, ?_, ?_⟩
  · obtain hsame | hgone := hrows
    · rw [hsame]
      exact h.stays
    · exact .inl hgone
  · rw [← h.lines_eq]
    unfold World.outcomes
    rw [haudit]

theorem over_step {act : Action} (hsound : Sound w) (h : Over id row lines w)
    (hok : Orderly w act) (hmoved : Moved collate w act w') : Over id row lines w' := by
  -- What is over is neither queued nor sending.
  have hclosed : ∀ {row'}, w.rows id = some row' → row'.status.terminal = true := by
    intro row' hrow'
    obtain hgone | hsame := h.stays
    · rw [hgone] at hrow'
      cases hrow'
    · rw [hsame] at hrow'
      cases hrow'
      exact h.ended
  cases hmoved with
  | elsewhere act w' hrows hids hlocked hpasses haudit =>
      exact h.carry haudit (fun k hk => by rw [hids]; exact hk) (.inl (by rw [hrows]))
  | queue k n hnew =>
      refine h.carry rfl (fun k hk => List.mem_cons_of_mem _ hk) (.inl ?_)
      refine Function.update_of_ne ?_ _ _
      rintro rfl
      exact hnew h.listed
  | commit p at_ out hp =>
      refine h.carry rfl (fun k hk => hk) (.inl ?_)
      have hnone : out.find? (fun item => decide (item.id = id)) = none := by
        rw [List.find?_eq_none]
        intro item hitem hid
        have hid : item.id = id := of_decide_eq_true hid
        have hids : item.id ∈ (Pass.claiming at_ [] out).ids := mem_ids_items hitem
        obtain ⟨row', hrow', hqueued⟩ := hsound.owned.queued hp rfl (hid ▸ hids)
        have hover := hclosed hrow'
        rw [hqueued] at hover
        cases hover
      simp only [World.commit, hnone]
  | finish p at_ item outcome rest hp =>
      have hstill : w.stillClaimed item outcome = true := by simpa [Orderly, hp] using hok
      unfold World.stillClaimed at hstill
      by_cases hid : item.id = id
      · subst hid
        cases hrow : w.rows item.id with
        | none =>
            rw [hrow] at hstill
            cases outcome with
            | retry error => exact h.carry rfl (fun k hk => hk) (.inr (by simp [World.finish, hrow]))
            | _ => cases hstill
        | some row' =>
            rw [hrow] at hstill
            have hover := hclosed hrow
            rw [of_decide_eq_true hstill] at hover
            cases hover
      · refine ⟨h.listed, h.ended, ?_, ?_⟩
        · rw [show (w.finish p at_ item outcome rest).rows id = w.rows id from
            Function.update_of_ne (Ne.symm hid) _ _]
          exact h.stays
        · rw [outcomes_finish, if_neg hid]
          exact h.lines_eq
  | expire at_ ids hnodup hfree hdue =>
      have hnot : id ∉ ids := by
        intro hin
        obtain ⟨row', hrow', hopen⟩ := hdue id hin
        rw [hclosed hrow'] at hopen
        cases hopen
      refine ⟨h.listed, h.ended, ?_, ?_⟩
      · rw [show (w.expire at_ ids).rows id = w.rows id from if_neg hnot]
        exact h.stays
      · rw [outcomes_expire hnodup, if_neg hnot]
        exact h.lines_eq
  | prune at_ retentionDays ids hfree hdone =>
      refine h.carry rfl (fun k hk => hk) ?_
      by_cases hin : id ∈ ids
      · exact .inr (if_pos hin)
      · exact .inl (if_neg hin)
  | _ => exact h.carry rfl (fun k hk => hk) (.inl rfl)

-- ============================================================== every run

theorem recorded_reachable (hw : Reachable (step collate) Orderly init w) : Recorded w := by
  refine hw.invariant_on (fun t ht => sound_reachable ht) ?_ fun t a t' hsound ht hok hstep =>
    recorded_step hsound ht hok (step_moved hstep)
  rintro _ ⟨now, rfl⟩
  exact ⟨nofun, nofun, fun _ => rfl⟩

/-- Nobody is sent a notification twice, whatever a pass is overtaken by. -/
theorem got_nodup {ok : World → Action → Prop} (hw : Reachable (step collate) ok init w)
    (id : NotificationId) : (w.got id).Nodup :=
  (sound_reachable hw).single.nodup id

/-- Whoever was sent it was active in its organization when it was claimed. -/
theorem messages_active (hanswered : Answered w) {m : Message} (hm : m ∈ w.messages) :
    ∃ a ∈ w.addressed, a.id = m.notification ∧
      (∀ row, w.rows m.notification = some row → row.org = a.n.org) ∧
      ∃ user, a.users m.to_.id = some user ∧ user.org = a.n.org ∧ user.disabled = false := by
  obtain ⟨a, ha, hid, -, user, huser, hreached, -⟩ := hanswered.messages m hm
  refine ⟨a, ha, hid, ?_, user, huser, ?_⟩
  · rw [← hid]
    exact (hanswered.kept a ha).2
  · simp only [User.reached, Bool.and_eq_true, decide_eq_true_eq, Bool.not_eq_true'] at hreached
    exact hreached.1

/-- In every orderly run the outbox keeps what it promises, and what is over
stays as it is, or is forgotten, and in the log. -/
theorem notifications_end_once (collate : String → String → Bool)
    (hw : Reachable (step collate) Orderly init w) :
    Promised w ∧ ∀ w', Steps (step collate) Orderly w w' → ∀ id row, w.rows id = some row →
      row.status.terminal = true →
        (w'.rows id = none ∨ w'.rows id = some row) ∧ w'.outcomes id = w.outcomes id := by
  have hsound : Sound w := sound_reachable hw
  have hrecorded : Recorded w := recorded_reachable hw
  refine ⟨⟨got_nodup hw, fun id row hrow hover => hrecorded.ended hrow hover,
    fun m hm => messages_active hsound.answered hm⟩, ?_⟩
  intro w' hrun id row hrow hover
  have hstart : Sound w ∧ Over id row (w.outcomes id) w :=
    ⟨hsound, hsound.owned.listed hrow, hover, .inr hrow, rfl⟩
  have hend : Sound w' ∧ Over id row (w.outcomes id) w' := by
    refine hrun.invariant (I := fun t => Sound t ∧ Over id row (w.outcomes id) t) hstart ?_
    intro t a t' ht hok hstep
    have hmoved := step_moved hstep
    exact ⟨sound_step ht.1 hmoved, over_step ht.1 ht.2 hok hmoved⟩
  exact ⟨hend.2.stays, hend.2.lines_eq⟩

-- ============================================================ the slow pass

/-- One person, and a notification of a rule to them. -/
def ada : User := { org := "acme", email := "ada@acme.test" }

def notice : Notification where
  org := "acme"
  recipients := ["ada"]
  toOrgAdmins := false
  subject := "3 documents failed to index"
  body := "- handbook: 3"
  source := .rule "r"
  notBefore := 0
  createdAt := 0

/-- A pass claims it, and sends it. -/
def sendActions : List Action :=
  [.user "ada" (some ada),
   .rule "r" (some { org := "acme", createdBy := "ada", sentence := "documents fail" }),
   .queue "n" notice, .claim 0 0 50 ["n"], .address 0, .commit 0, .next 0, .deliver 0]

/-- A quarter of an hour later another worker takes the claim for dead. -/
def expireActions : List Action :=
  sendActions ++ List.replicate 901 .tick ++ [.expire 901 ["n"]]

/-- The relay answers, and the pass writes what became of it. -/
def finishActions (at_ : Time) : List Action := [.conclude 0, .finish 0 at_]

theorem run_slow : (runWithin (step fun _ _ => true) anyStep (World.new 0) expireActions).any
    (fun w => decide ((w.rows "n").map (·.status) = some .failed) &&
      (runWithin (step fun _ _ => true) anyStep w (finishActions 901)).any
        fun w' => decide ((w'.rows "n").map (·.status) = some .sent ∧
          (w'.outcomes "n").map (·.outcome) = [.sent, .failed])) = true := by
  decide +kernel

/-- A notification that failed is sent, and the log says both. -/
theorem ended_twice :
    ∃ w w', Reachable (step fun _ _ => true) anyStep init w ∧
      Steps (step fun _ _ => true) anyStep w w' ∧
      (w.rows "n").map (·.status) = some .failed ∧ (w'.rows "n").map (·.status) = some .sent ∧
      (w'.outcomes "n").map (·.outcome) = [.sent, .failed] ∧ ¬ Promised w' := by
  have hstart : init (World.new 0) := ⟨0, rfl⟩
  obtain ⟨w, w', hw, hrun, hfailed, hsent, hlines⟩ := exists_then hstart run_slow
  refine ⟨w, w', hw, hrun, hfailed, hsent, hlines, fun hpromised => ?_⟩
  obtain ⟨row, hrow, hstatus⟩ := Option.map_eq_some_iff.mp hsent
  obtain ⟨e, hone, -⟩ := hpromised.recorded "n" row hrow (by rw [hstatus]; rfl)
  rw [hone] at hlines
  simp at hlines

theorem run_prompt : (runWithin (step fun _ _ => true) Orderly (World.new 0)
    (sendActions ++ finishActions 0)).any (fun w => decide ((w.rows "n").map (·.status) = some .sent ∧
      w.got "n" = ["ada"])) = true := by
  decide +kernel

/-- A pass that is done in time. -/
theorem notifications_end_once_prompt :
    ∃ w, (w.rows "n").map (·.status) = some .sent ∧ w.got "n" = ["ada"] ∧ Promised w := by
  have hstart : init (World.new 0) := ⟨0, rfl⟩
  obtain ⟨w, hw, hsent, hgot⟩ := exists_reachable hstart run_prompt
  exact ⟨w, hsent, hgot, (notifications_end_once _ hw).1⟩

end Nacre.Notify
