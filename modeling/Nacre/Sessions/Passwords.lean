/-
What the three operations that set a password leave of the sessions they
find: `changePassword`, `resetPassword` and recovery's `redeem` run the
same `UPDATE refresh_tokens … WHERE user_id = … AND revoked_at IS NULL`.

# What can go wrong

The statement revokes the rows of its snapshot and takes no family's
lock. A refresh that has claimed a token when the snapshot is taken, or
claims one before the statement reaches it, makes the statement wait and
commits first, with a successor the snapshot does not have. The statement
then revokes the spent token, and the successor is redeemed for as long
as the session lasts (`redeemed_after_password`).

# The condition

`Settled`: no refresh commits a successor in a session that a password
operation has found and not yet closed.
-/
import Nacre.Sessions.Families

namespace Nacre.Sessions

open Nacre.Store (Time)
open Transition

variable {s s' : World} {a : Action}

-- ============================================================ the property

/-- Nothing of a session that was closed can be redeemed. -/
def Shut (s : World) : Prop :=
  ∀ f ∈ s.closed, ∀ t row, s.tokens t = some row → row.familyId = f →
    row.live s.now = false

/-- A password operation has found the session. -/
def Flight.found (f : FamilyId) : Flight → Bool
  | .password _ _ before => f ∈ before
  | _ => false

/-- No refresh commits a successor in a session that a password operation
has found and not yet closed. -/
def Settled (s : World) : Action → Prop
  | .issue _ row _ _ => s.flights.any (·.found row.familyId) = false
  | _ => True

instance (s : World) (a : Action) : Decidable (Settled s a) := by
  apply Action.casesOn (motive := fun a => Decidable (Settled s a)) a
  case issue => exact fun _ _ _ _ => inferInstanceAs (Decidable (_ = false))
  all_goals intros; exact inferInstanceAs (Decidable True)

-- =========================================================== the invariant

/-- A row, or what a refresh has read, says the session is the user's. -/
def Bears (s : World) (f : FamilyId) (u : UserId) : Prop :=
  ∃ row : Token, row.familyId = f ∧ row.userId = u
    ∧ ((∃ t, s.tokens t = some row) ∨ ∃ g ∈ s.flights, ∃ t, g.reads = some (t, row))

/-- What is not revoked of a session is among these. -/
def Covered (s : World) (seen : List TokenId) (f : FamilyId) : Prop :=
  ∀ t row, s.tokens t = some row → row.familyId = f → row.revokedAt = none → t ∈ seen

structure Closing (s : World) : Prop where
  owned : ∀ f u u', Bears s f u → Bears s f u' → u = u'
  /-- The statement sees what is left of every session it found. -/
  pending : ∀ u seen before, .password u seen before ∈ s.flights → ∀ f ∈ before,
    f ∈ s.families ∧ Covered s seen f
  closed : ∀ f ∈ s.closed, f ∈ s.families ∧ Covered s [] f

theorem bears_token {t : TokenId} {row : Token} (h : s.tokens t = some row) :
    Bears s row.familyId row.userId :=
  ⟨row, rfl, rfl, .inl ⟨t, h⟩⟩

theorem bears_flight {g : Flight} {t : TokenId} {row : Token} (hg : g ∈ s.flights)
    (h : g.reads = some (t, row)) : Bears s row.familyId row.userId :=
  ⟨row, rfl, rfl, .inr ⟨g, hg, t, h⟩⟩

/-- A session there is a trace of is a session there was. -/
theorem Rotating.bears (h : Rotating s) {f : FamilyId} {u : UserId} (hbears : Bears s f u) :
    f ∈ s.families := by
  obtain ⟨row, rfl, -, hrow | ⟨g, hg, t, hreads⟩⟩ := hbears
  · obtain ⟨t, hrow⟩ := hrow
    exact (h.known t row hrow).2
  · refine h.families g hg row.familyId ?_
    cases g with
    | refresh t' row' => cases hreads; rfl
    | locked t' row' => cases hreads; rfl
    | claimed t' row' => cases hreads; rfl
    | _ => cases hreads

theorem Covered.ages {seen : List TokenId} {f : FamilyId} (h : Covered s seen f)
    (hrows : ∀ t after, s'.tokens t = some after →
      ∃ before, s.tokens t = some before ∧ Ages before after) : Covered s' seen f := by
  intro t after hafter hfamily hnone
  obtain ⟨before, hbefore, hages⟩ := hrows t after hafter
  rw [hages.familyId] at hfamily
  exact h t before hbefore hfamily (hages.revokedAt hnone)

/-- What a revocation covers, it revokes. -/
theorem Covered.revoke {seen : List TokenId} {f : FamilyId} (h : Covered s seen f) :
    Covered (s.revoke seen) [] f := by
  intro t after hafter hfamily hnone
  obtain ⟨before, hbefore, hages⟩ := ages_revoke hafter
  rw [hages.familyId] at hfamily
  have hnone' := hages.revokedAt hnone
  have hself := (if_pos (h t before hbefore hfamily hnone')).symm.trans hafter
  rw [hbefore, Option.map_some, revoked, if_pos hnone'] at hself
  cases hself
  cases hnone

-- ==================================================== one kind of write each

theorem Closing.withGhosts (h : Closing s) (now : Time) (detected ended : List FamilyId) :
    Closing { s with now, detected, ended } :=
  ⟨h.owned, h.pending, h.closed⟩

/-- Rows age or go. -/
theorem Closing.withTokens (h : Closing s) {tokens : TokenId → Option Token}
    (hrows : ∀ t after, tokens t = some after →
      ∃ before, s.tokens t = some before ∧ Ages before after) :
    Closing { s with tokens } := by
  have hback : ∀ {f u}, Bears { s with tokens } f u → Bears s f u := by
    intro f u hbears
    obtain ⟨after, rfl, rfl, ⟨t, hafter⟩ | hflight⟩ := hbears
    · obtain ⟨before, hbefore, hages⟩ := hrows t after hafter
      rw [hages.familyId, hages.userId]
      exact bears_token hbefore
    · exact ⟨after, rfl, rfl, .inr hflight⟩
  refine ⟨fun f u u' hu hu' => h.owned f u u' (hback hu) (hback hu'), ?_, ?_⟩
  · intro u seen before hg f hf
    exact (h.pending u seen before hg f hf).imp id fun hcovered => hcovered.ages hrows
  · intro f hf
    exact (h.closed f hf).imp id fun hcovered => hcovered.ages hrows

/-- Flights come and go. -/
theorem Closing.withFlights (h : Closing s) {flights : List Flight}
    (hnew : ∀ g ∈ flights, g ∈ s.flights
      ∨ (∀ t row, g.reads = some (t, row) → Bears s row.familyId row.userId)
        ∧ ∀ u seen before, g = .password u seen before → ∀ f ∈ before,
          f ∈ s.families ∧ Covered s seen f) :
    Closing { s with flights } := by
  have hback : ∀ {f u}, Bears { s with flights } f u → Bears s f u := by
    intro f u hbears
    obtain ⟨row, rfl, rfl, htoken | ⟨g, hg, t, hreads⟩⟩ := hbears
    · exact ⟨row, rfl, rfl, .inl htoken⟩
    · rcases hnew g hg with hold | ⟨hbears, -⟩
      · exact bears_flight hold hreads
      · exact hbears t row hreads
  refine ⟨fun f u u' hu hu' => h.owned f u u' (hback hu) (hback hu'), ?_, h.closed⟩
  intro u seen before hg
  rcases hnew _ hg with hold | ⟨-, hpending⟩
  · exact h.pending u seen before hold
  · exact hpending u seen before rfl

theorem Closing.drop (h : Closing s) (g : Flight) : Closing (s.replace g []) :=
  h.withFlights fun _ hg => .inl (List.mem_of_mem_erase hg)

/-- A flight begins that finds no sessions. -/
theorem Closing.launch (h : Closing s) {g : Flight}
    (hreads : ∀ t row, g.reads = some (t, row) → Bears s row.familyId row.userId)
    (hnot : ∀ f, g.found f = false) : Closing { s with flights := g :: s.flights } := by
  refine h.withFlights fun g' hg' => ?_
  rcases List.mem_cons.1 hg' with rfl | hold
  · refine .inr ⟨hreads, fun u seen before heq f hf => ?_⟩
    subst heq
    exact absurd hf (of_decide_eq_false (p := f ∈ before) (hnot f))
  · exact .inl hold

/-- A flight goes on that finds no sessions. -/
theorem Closing.advance (h : Closing s) {g new : Flight}
    (hreads : ∀ t row, new.reads = some (t, row) → Bears s row.familyId row.userId)
    (hnot : ∀ f, new.found f = false) : Closing (s.replace g [new]) := by
  refine (h.launch hreads hnot).withFlights fun g' hg' => .inl ?_
  exact (List.cons_subset_cons new List.erase_subset) hg'

/-- A token is added to a session that nobody closes or has closed. -/
theorem Closing.insert (h : Closing s) {t : TokenId} {row : Token}
    (howned : ∀ u, Bears s row.familyId u → u = row.userId)
    (hfound : ∀ u seen before, .password u seen before ∈ s.flights → row.familyId ∉ before)
    (hclosed : row.familyId ∉ s.closed) : Closing (s.insert t row) := by
  have hcases : ∀ {t' row'}, (s.insert t row).tokens t' = some row' →
      (t' = t ∧ row' = row) ∨ t' ≠ t ∧ s.tokens t' = some row' := Table.update_cases
  have hback : ∀ {f u}, Bears (s.insert t row) f u →
      (f = row.familyId ∧ u = row.userId) ∨ Bears s f u := by
    intro f u hbears
    obtain ⟨row', rfl, rfl, ⟨t', hrow'⟩ | hflight⟩ := hbears
    · rcases hcases hrow' with ⟨-, rfl⟩ | ⟨-, hold⟩
      · exact .inl ⟨rfl, rfl⟩
      · exact .inr (bears_token hold)
    · exact .inr ⟨row', rfl, rfl, .inr hflight⟩
  have hcovered : ∀ {seen f}, row.familyId ≠ f → Covered s seen f →
      Covered (s.insert t row) seen f := by
    intro seen f hne hcovered t' row' hrow' hfamily
    rcases hcases hrow' with ⟨-, rfl⟩ | ⟨-, hold⟩
    · exact absurd hfamily hne
    · exact hcovered t' row' hold hfamily
  refine ⟨fun f u u' hu hu' => ?_, fun u seen before hg f hf => ?_, fun f hf => ?_⟩
  · rcases hback hu with ⟨rfl, rfl⟩ | hold
    · rcases hback hu' with ⟨-, rfl⟩ | hold'
      · rfl
      · exact (howned u' hold').symm
    · rcases hback hu' with ⟨rfl, rfl⟩ | hold'
      · exact howned u hold
      · exact h.owned f u u' hold hold'
  · obtain ⟨hfamily, hseen⟩ := h.pending u seen before hg f hf
    refine ⟨List.mem_cons_of_mem _ hfamily, hcovered (fun heq => ?_) hseen⟩
    subst heq
    exact hfound u seen before hg hf
  · obtain ⟨hfamily, hnone⟩ := h.closed f hf
    refine ⟨List.mem_cons_of_mem _ hfamily, hcovered (fun heq => ?_) hnone⟩
    subst heq
    exact hclosed hf

-- ================================================================ the step

/-- A claimed token is of a session that is not closed. -/
theorem Closing.claimed (h : Closing s) (hr : Rotating s) {t : TokenId} {row : Token}
    (hg : .claimed t row ∈ s.flights) : row.familyId ∉ s.closed := by
  intro hclosed
  obtain ⟨now, hnow, hunspent⟩ := hr.claimed t row hg
  have hfamily := (hr.kin _ hg t row rfl).2 now hnow
  have hmem := (h.closed _ hclosed).2 t now hnow hfamily (unspent_iff.1 hunspent).2
  cases hmem

theorem mem_sessions {u : UserId} {f : FamilyId} (h : f ∈ s.sessions u) :
    ∃ t row, s.tokens t = some row ∧ row.userId = u ∧ row.familyId = f := by
  obtain ⟨row, hrow, hsome⟩ := List.mem_filterMap.1 h
  obtain ⟨t, -, htoken⟩ := List.mem_filterMap.1 hrow
  rw [Option.ite_none_right_eq_some] at hsome
  obtain ⟨huser, hfamily⟩ := hsome
  cases hfamily
  exact ⟨t, row, htoken, huser, rfl⟩

theorem Closing.step (h : Closing s) (hr : Rotating s) (hok : Settled s a)
    (hs : Stepped s a s') : Closing s' := by
  cases hs with
  | tick => exact h.withGhosts _ _ _
  | login u t f expiresAt hid hfamily =>
      refine h.insert (fun u' hbears => ?_) (fun u' seen before hg hf => ?_) fun hclosed => ?_
      · exact absurd (hr.bears hbears) hfamily
      · exact hfamily (h.pending u' seen before hg f hf).1
      · exact hfamily (h.closed f hclosed).1
  | refresh t row hrow =>
      refine h.launch (fun t' row' hreads => ?_) fun _ => rfl
      cases hreads
      exact bears_token hrow
  | lockFamily t row hg hfree =>
      refine h.advance (fun t' row' hreads => ?_) fun _ => rfl
      exact bears_flight hg hreads
  | claim t row now hg hrow hunspent =>
      refine h.advance (fun t' row' hreads => ?_) fun _ => rfl
      exact bears_flight hg hreads
  | lost t row hg =>
      have hnext : Closing (s.replace (.locked t row) [.ending row.familyId]) :=
        h.advance (fun _ _ hreads => by cases hreads) fun _ => rfl
      exact hnext.withGhosts _ _ _
  | issue t row next expiresAt hg hid =>
      have hspent : Closing (s.spend t) := h.withTokens fun _ _ => ages_spend
      have hlive := h.claimed hr hg
      have howner : Bears (s.spend t) row.familyId row.userId := bears_flight (t := t) hg rfl
      have hinserted : Closing ((s.spend t).insert next
          { userId := row.userId, familyId := row.familyId, expiresAt }) := by
        refine hspent.insert (fun u hu => ?_) (fun u seen before hg' hf => ?_) hlive
        · exact hspent.owned _ u _ hu howner
        · exact List.any_eq_false.1 hok _ hg' (decide_eq_true hf)
      exact hinserted.drop (.claimed t row)
  | refuse t row hg => exact (h.withTokens fun _ _ => ages_spend).drop _
  | gone t row hg =>
      refine (h.withTokens fun _ _ => ages_spend).advance (fun _ _ hreads => ?_) fun _ => rfl
      cases hreads
  | logout t row hrow =>
      refine h.launch (fun _ _ hreads => ?_) fun _ => rfl
      cases hreads
  | lockEnding f hg hfree =>
      refine h.advance (fun _ _ hreads => ?_) fun _ => rfl
      cases hreads
  | seeFamily f hg =>
      refine h.advance (fun _ _ hreads => ?_) fun _ => rfl
      cases hreads
  | revokeFamily f seen hg hfree =>
      exact ((h.withTokens fun _ _ => ages_revoke).drop _).withGhosts _ _ _
  | seeSessions u =>
      refine h.withFlights fun g' hg' => ?_
      rcases List.mem_cons.1 hg' with rfl | hold
      · refine .inr ⟨(fun _ _ h => nomatch h), fun u' seen before heq f hf => ?_⟩
        cases heq
        obtain ⟨t, row, hrow, huser, rfl⟩ := mem_sessions hf
        refine ⟨(hr.known t row hrow).2, fun t' row' hrow' hfamily hnone => ?_⟩
        have hbears : Bears s row.familyId row'.userId := hfamily ▸ bears_token hrow'
        have hsame := h.owned _ _ _ hbears (bears_token hrow)
        exact mem_visible (hr.known t' row' hrow').1 hrow'
          (decide_eq_true (hsame.trans huser)) hnone
      · exact .inl hold
  | setPassword u seen before hg hfree =>
      have hrevoked : Closing (s.revoke seen) := h.withTokens fun _ _ => ages_revoke
      have hdropped := hrevoked.drop (.password u seen before)
      refine ⟨hdropped.owned, hdropped.pending, fun f hf => ?_⟩
      rcases List.mem_append.1 hf with hnew | hold
      · obtain ⟨hfamily, hcovered⟩ := h.pending u seen before hg f hnew
        exact ⟨hfamily, hcovered.revoke⟩
      · exact hdropped.closed f hold
  | pruneExpired t hfree => exact h.withTokens fun _ _ => ages_prune
  | drop g hg => exact h.drop g

theorem closing_init (hs : init s) : Closing s := by
  obtain ⟨now, rfl⟩ := hs
  refine ⟨?_, ?_, ?_⟩
  · intro f u u' hu
    obtain ⟨row, -, -, ⟨t, hrow⟩ | ⟨g, hg, -⟩⟩ := hu
    · cases hrow
    · cases hg
  · intro u seen before hg
    cases hg
  · intro f hf
    cases hf

theorem closing_reachable (hrun : Reachable step Settled init s) : Closing s := by
  refine hrun.invariant_on (fun _ => rotating_reachable) (fun _ => closing_init) ?_
  intro t a t' hr h hok hs
  exact h.step hr hok (step_inv hs)

theorem Closing.shut (h : Closing s) : Shut s := by
  intro f hf t row hrow hfamily
  rw [Bool.eq_false_iff]
  intro hlive
  have hunspent := (Bool.and_eq_true_iff.1 hlive).1
  have hmem := (h.closed f hf).2 t row hrow hfamily (unspent_iff.1 hunspent).2
  cases hmem

/-- Once a password operation has committed, nothing of a session it
found can be redeemed or is, in every run in which no refresh commits a
successor while the operation is at it. -/
theorem sessions_shut (hrun : Reachable step Settled init s) :
    Shut s ∧ ∀ a s', step s a = some s' → ∀ f ∈ a.redeems, f ∉ s.closed := by
  have h := closing_reachable hrun
  refine ⟨h.shut, fun a s' hs f hf => ?_⟩
  obtain ⟨t, row, hg, rfl⟩ := claimed_of_redeems (step_inv hs) hf
  exact h.claimed (rotating_reachable hrun) hg

/-- A refresh goes through, and then the password is set. -/
def shutActs : List Action :=
  let t₀ : Token := { userId := "ada", familyId := "f", expiresAt := 100 }
  [.login "ada" "t0" "f" 100, .refresh "t0", .lockFamily "t0" t₀, .claim "t0" t₀,
    .issue "t0" t₀ "t1" 100, .seeSessions "ada", .setPassword "ada" ["t1", "t0"] ["f", "f"]]

def shutWorld : World :=
  (runWithin step Settled (World.empty 0) shutActs).get (by decide)

theorem sessions_shut_set :
    "f" ∈ shutWorld.closed ∧ Shut shutWorld
      ∧ ∀ a s', step shutWorld a = some s' → ∀ f ∈ a.redeems, f ∉ shutWorld.closed :=
  ⟨by decide, sessions_shut (reachable_get ⟨0, rfl⟩ _)⟩

/-- The statement begins while the refresh is at it, and waits for it; the
successor is redeemed after. -/
def escapedActs : List Action :=
  let t₀ : Token := { userId := "ada", familyId := "f", expiresAt := 100 }
  let t₁ : Token := { userId := "ada", familyId := "f", expiresAt := 100 }
  [.login "ada" "t0" "f" 100, .refresh "t0", .lockFamily "t0" t₀, .claim "t0" t₀,
    .seeSessions "ada", .issue "t0" t₀ "t1" 100, .setPassword "ada" ["t0"] ["f"],
    .refresh "t1", .lockFamily "t1" t₁, .claim "t1" t₁]

def escapedWorld : World :=
  (runWithin step anyStep (World.empty 0) escapedActs).get (by decide)

theorem redeemed_after_password :
    ∃ s a s' f, Reachable step anyStep init s ∧ f ∈ s.closed ∧ ¬ Shut s
      ∧ step s a = some s' ∧ f ∈ a.redeems := by
  let t₁ : Token := { userId := "ada", familyId := "f", expiresAt := 100 }
  let a : Action := .issue "t1" t₁ "t2" 100
  have hstep : (step escapedWorld a).isSome = true := by decide
  refine ⟨escapedWorld, a, _, "f", reachable_get ⟨0, rfl⟩ _, by decide, ?_,
    (Option.some_get hstep).symm, rfl⟩
  intro hshut
  have hlive : t₁.live escapedWorld.now = true := by decide
  rw [hshut "f" (by decide) "t1" t₁ (by decide) rfl] at hlive
  cases hlive

end Nacre.Sessions
