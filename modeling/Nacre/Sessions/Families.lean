/-
What a family of refresh tokens is worth, and when it stops being worth
anything.

# What holds in every run

The family's lock is taken by everything that adds a token to a family
and by what revokes it. So a family has one unspent token at most, and a
revocation sees every token there is: once it has committed, none is
redeemed again (`Rotating`).

# What can go wrong

Detecting a replay and revoking its family are two transactions. Between
them another refresh of the family takes the lock and redeems its token
(`redeemed_after_replay`), and a crash between them leaves the family as
it was.

# The condition

`Prompt`: no refresh with a token still unspent takes the lock of a
family between a replay of it and its revocation.
-/
import Nacre.Lib.Solo
import Nacre.Lib.Table
import Nacre.Sessions.System

namespace Nacre.Sessions

open Nacre.Store (Time)
open Transition

variable {s s' : World} {a : Action}

-- ============================================================ the property

/-- A family has one token at most that can be redeemed. -/
def Single (s : World) : Prop :=
  ∀ t t' row row', s.tokens t = some row → s.tokens t' = some row' →
    row.familyId = row'.familyId → row.live s.now = true → row'.live s.now = true → t = t'

/-- No refresh with a token still unspent takes the lock of a family
between a replay of it and its revocation. -/
def Prompt (s : World) : Action → Prop
  | .lockFamily t row => row.familyId ∈ s.detected →
      (s.tokens t).any (·.unspent) = true → row.familyId ∈ s.ended
  | _ => True

instance (s : World) (a : Action) : Decidable (Prompt s a) := by
  cases a with
  | lockFamily t row => exact inferInstanceAs (Decidable (_ → _))
  | _ => exact inferInstanceAs (Decidable True)

-- =========================================================== the invariant

/-- The row a refresh has read. -/
def Flight.reads : Flight → Option (TokenId × Token)
  | .refresh t row => some (t, row)
  | .locked t row => some (t, row)
  | .claimed t row => some (t, row)
  | _ => none

def Flight.family : Flight → Option FamilyId
  | .refresh _ row => some row.familyId
  | .locked _ row => some row.familyId
  | .claimed _ row => some row.familyId
  | .ending f => some f
  | .revoking f _ => some f
  | .password .. => none

/-- What a statement leaves of a row. -/
structure Ages (before after : Token) : Prop where
  userId : after.userId = before.userId
  familyId : after.familyId = before.familyId
  usedAt : after.usedAt = none → before.usedAt = none
  revokedAt : after.revokedAt = none → before.revokedAt = none

structure Rotating (s : World) : Prop where
  known : ∀ t row, s.tokens t = some row → t ∈ s.ids ∧ row.familyId ∈ s.families
  sole : ∀ t t' row row', s.tokens t = some row → s.tokens t' = some row' →
    row.familyId = row'.familyId → row.unspent = true → row'.unspent = true → t = t'
  /-- A family's lock has one holder. -/
  solo : ∀ f, s.flights.countP (·.holds f) ≤ 1
  families : ∀ g ∈ s.flights, ∀ f, g.family = some f → f ∈ s.families
  kin : ∀ g ∈ s.flights, ∀ t row, g.reads = some (t, row) → t ∈ s.ids
    ∧ ∀ now, s.tokens t = some now → now.familyId = row.familyId
  claimed : ∀ t row, .claimed t row ∈ s.flights →
    ∃ now, s.tokens t = some now ∧ now.unspent = true
  /-- A revocation that holds the family sees all there is to revoke. -/
  seen : ∀ f seen, .revoking f (some seen) ∈ s.flights → ∀ t row,
    s.tokens t = some row → row.familyId = f → row.revokedAt = none → t ∈ seen
  ended : ∀ f ∈ s.ended, f ∈ s.families ∧ ∀ t row, s.tokens t = some row →
    row.familyId = f → row.revokedAt ≠ none

theorem unspent_iff {row : Token} :
    row.unspent = true ↔ row.usedAt = none ∧ row.revokedAt = none := by
  simp [Token.unspent]

theorem Ages.refl (row : Token) : Ages row row := ⟨rfl, rfl, id, id⟩

theorem Ages.unspent {before after : Token} (h : Ages before after)
    (hafter : after.unspent = true) : before.unspent = true := by
  rw [unspent_iff] at hafter ⊢
  exact ⟨h.usedAt hafter.1, h.revokedAt hafter.2⟩

theorem ages_spent (now : Time) (row : Token) : Ages row (spent now row) :=
  ⟨rfl, rfl, nofun, id⟩

theorem ages_revoked (now : Time) (row : Token) : Ages row (revoked now row) := by
  unfold revoked
  split
  next hnone => exact ⟨rfl, rfl, id, fun _ => hnone⟩
  next => exact .refl row


-- ==================================================== one kind of write each

theorem Rotating.withGhosts (h : Rotating s) (now : Time) (detected closed : List FamilyId) :
    Rotating { s with now, detected, closed } :=
  ⟨h.known, h.sole, h.solo, h.families, h.kin, h.claimed, h.seen, h.ended⟩

/-- Rows age or go, and nobody's claimed token is touched. -/
theorem Rotating.withTokens (h : Rotating s) {tokens : TokenId → Option Token}
    (hrows : ∀ t after, tokens t = some after →
      ∃ before, s.tokens t = some before ∧ Ages before after)
    (hclaimed : ∀ t row, .claimed t row ∈ s.flights → tokens t = s.tokens t) :
    Rotating { s with tokens } where
  known t after hafter := by
    obtain ⟨before, hbefore, hages⟩ := hrows t after hafter
    rw [hages.familyId]
    exact h.known t before hbefore
  sole t t' after after' hafter hafter' hfamily hunspent hunspent' := by
    obtain ⟨before, hbefore, hages⟩ := hrows t after hafter
    obtain ⟨before', hbefore', hages'⟩ := hrows t' after' hafter'
    rw [hages.familyId, hages'.familyId] at hfamily
    exact h.sole t t' before before' hbefore hbefore' hfamily (hages.unspent hunspent)
      (hages'.unspent hunspent')
  solo := h.solo
  families := h.families
  kin g hg t row hreads := by
    obtain ⟨hid, hkin⟩ := h.kin g hg t row hreads
    refine ⟨hid, fun after hafter => ?_⟩
    obtain ⟨before, hbefore, hages⟩ := hrows t after hafter
    rw [hages.familyId]
    exact hkin before hbefore
  claimed t row hg := by
    show ∃ now, tokens t = some now ∧ now.unspent = true
    rw [hclaimed t row hg]
    exact h.claimed t row hg
  seen f seen hg t after hafter hfamily hnone := by
    obtain ⟨before, hbefore, hages⟩ := hrows t after hafter
    rw [hages.familyId] at hfamily
    exact h.seen f seen hg t before hbefore hfamily (hages.revokedAt hnone)
  ended f hf := by
    refine ⟨(h.ended f hf).1, fun t after hafter hfamily hnone => ?_⟩
    obtain ⟨before, hbefore, hages⟩ := hrows t after hafter
    rw [hages.familyId] at hfamily
    exact (h.ended f hf).2 t before hbefore hfamily (hages.revokedAt hnone)

/-- Flights come and go. -/
theorem Rotating.withFlights (h : Rotating s) {flights : List Flight}
    (hsolo : ∀ f, flights.countP (·.holds f) ≤ 1)
    (hnew : ∀ g ∈ flights, g ∈ s.flights
      ∨ (∀ f, g.family = some f → f ∈ s.families)
        ∧ (∀ t row, g.reads = some (t, row) → t ∈ s.ids
          ∧ ∀ now, s.tokens t = some now → now.familyId = row.familyId)
        ∧ (∀ t row, g = .claimed t row →
          ∃ now, s.tokens t = some now ∧ now.unspent = true)
        ∧ ∀ f seen, g = .revoking f (some seen) → ∀ t row, s.tokens t = some row →
          row.familyId = f → row.revokedAt = none → t ∈ seen) :
    Rotating { s with flights } where
  known := h.known
  sole := h.sole
  solo := hsolo
  families g hg := by
    rcases hnew g hg with hold | ⟨hfamily, -⟩
    · exact h.families g hold
    · exact hfamily
  kin g hg := by
    rcases hnew g hg with hold | ⟨-, hkin, -⟩
    · exact h.kin g hold
    · exact hkin
  claimed t row hg := by
    rcases hnew _ hg with hold | ⟨-, -, hclaimed, -⟩
    · exact h.claimed t row hold
    · exact hclaimed t row rfl
  seen f seen hg := by
    rcases hnew _ hg with hold | ⟨-, -, -, hseen⟩
    · exact h.seen f seen hold
    · exact hseen f seen rfl
  ended := h.ended

/-- A flight ends. -/
theorem Rotating.drop (h : Rotating s) (g : Flight) : Rotating (s.replace g []) :=
  h.withFlights (fun f => Solo.solo_sublist (h.solo f) List.erase_sublist)
    fun _ hg' => .inl (List.mem_of_mem_erase hg')

/-- A flight begins that holds nothing. -/
theorem Rotating.launch (h : Rotating s) {g : Flight} (hholds : ∀ f, g.holds f = false)
    (hfamily : ∀ f, g.family = some f → f ∈ s.families)
    (hkin : ∀ t row, g.reads = some (t, row) → t ∈ s.ids
      ∧ ∀ now, s.tokens t = some now → now.familyId = row.familyId) :
    Rotating { s with flights := g :: s.flights } := by
  refine h.withFlights (fun f => ?_) fun g' hg' => ?_
  · rw [List.countP_cons_of_neg (by rw [hholds f]; exact Bool.false_ne_true)]
    exact h.solo f
  · rcases List.mem_cons.1 hg' with rfl | hold
    · refine .inr ⟨hfamily, hkin, fun t row heq => ?_, fun f seen heq => ?_⟩
      · subst heq
        have hnot := hholds row.familyId
        simp [Flight.holds] at hnot
      · subst heq
        have hnot := hholds f
        simp [Flight.holds] at hnot
    · exact .inl hold

/-- A flight goes on. -/
theorem Rotating.advance (h : Rotating s) {g g' : Flight} (hg : g ∈ s.flights)
    (hholds : ∀ f, g'.holds f = true → g.holds f = true ∨ s.held f = false)
    (hfamily : g'.family = g.family)
    (hreads : ∀ t row, g'.reads = some (t, row) → g.reads = some (t, row))
    (hclaimed : ∀ t row, g' = .claimed t row →
      ∃ now, s.tokens t = some now ∧ now.unspent = true)
    (hseen : ∀ f seen, g' = .revoking f (some seen) → ∀ t row, s.tokens t = some row →
      row.familyId = f → row.revokedAt = none → t ∈ seen) :
    Rotating (s.replace g [g']) := by
  refine h.withFlights (fun f => ?_) fun g'' hg'' => ?_
  · show (g' :: s.flights.erase g).countP (·.holds f) ≤ 1
    cases hnew : g'.holds f with
    | false =>
        rw [List.countP_cons_of_neg (by rw [hnew]; exact Bool.false_ne_true)]
        exact Solo.solo_sublist (h.solo f) List.erase_sublist
    | true =>
        rcases hholds f hnew with hold | hfree
        · exact Solo.solo_swap (h.solo f) hg fun _ => hold
        · refine Solo.solo_cons fun g'' hg'' => ?_
          exact Bool.eq_false_iff.2
            (List.any_eq_false.1 hfree g'' (List.mem_of_mem_erase hg''))
  · rcases List.mem_append.1 hg'' with hnew | hold
    · cases List.mem_singleton.1 hnew
      refine .inr ⟨fun f hf => ?_, fun t row hr => ?_, hclaimed, hseen⟩
      · rw [hfamily] at hf
        exact h.families g hg f hf
      · exact h.kin g hg t row (hreads t row hr)
    · exact .inl (List.mem_of_mem_erase hold)

/-- A token is added to a family that has none to redeem and that nobody
is revoking. -/
theorem Rotating.insert (h : Rotating s) {t : TokenId} {row : Token} (hid : t ∉ s.ids)
    (hspent : ∀ t' row', s.tokens t' = some row' → row'.familyId = row.familyId →
      row'.unspent = false)
    (hfree : ∀ seen, .revoking row.familyId seen ∉ s.flights)
    (hlive : row.familyId ∉ s.ended) : Rotating (s.insert t row) := by
  have hcases : ∀ {t' row'}, (s.insert t row).tokens t' = some row' →
      (t' = t ∧ row' = row) ∨ t' ≠ t ∧ s.tokens t' = some row' := Table.update_cases
  refine ⟨?_, ?_, h.solo, ?_, ?_, ?_, ?_, ?_⟩
  · intro t' row' hrow'
    rcases hcases hrow' with ⟨rfl, rfl⟩ | ⟨-, hold⟩
    · exact ⟨List.mem_cons_self, List.mem_cons_self⟩
    · exact (h.known t' row' hold).imp (List.mem_cons_of_mem _) (List.mem_cons_of_mem _)
  · intro t₁ t₂ row₁ row₂ h₁ h₂ hfamily hunspent₁ hunspent₂
    rcases hcases h₁ with ⟨rfl, rfl⟩ | ⟨-, hold₁⟩
    · rcases hcases h₂ with ⟨rfl, -⟩ | ⟨-, hold₂⟩
      · rfl
      · rw [hspent t₂ row₂ hold₂ hfamily.symm] at hunspent₂
        cases hunspent₂
    · rcases hcases h₂ with ⟨rfl, rfl⟩ | ⟨-, hold₂⟩
      · rw [hspent t₁ row₁ hold₁ hfamily] at hunspent₁
        cases hunspent₁
      · exact h.sole t₁ t₂ row₁ row₂ hold₁ hold₂ hfamily hunspent₁ hunspent₂
  · intro g hg f hf
    exact List.mem_cons_of_mem _ (h.families g hg f hf)
  · intro g hg t' row' hreads
    obtain ⟨hid', hkin⟩ := h.kin g hg t' row' hreads
    refine ⟨List.mem_cons_of_mem _ hid', fun now hnow => ?_⟩
    rcases hcases hnow with ⟨rfl, -⟩ | ⟨-, hold⟩
    · exact absurd hid' hid
    · exact hkin now hold
  · intro t' row' hg
    obtain ⟨now, hnow, hunspent⟩ := h.claimed t' row' hg
    have hne : t' ≠ t := by
      intro heq
      rw [heq] at hnow
      exact hid (h.known t now hnow).1
    exact ⟨now, (Function.update_of_ne hne ..).trans hnow, hunspent⟩
  · intro f seen hg t' row' hrow' hfamily hnone
    rcases hcases hrow' with ⟨rfl, rfl⟩ | ⟨-, hold⟩
    · rw [← hfamily] at hg
      exact absurd hg (hfree _)
    · exact h.seen f seen hg t' row' hold hfamily hnone
  · intro f hf
    refine ⟨List.mem_cons_of_mem _ (h.ended f hf).1, fun t' row' hrow' hfamily => ?_⟩
    rcases hcases hrow' with ⟨rfl, rfl⟩ | ⟨-, hold⟩
    · rw [← hfamily] at hf
      exact absurd hf hlive
    · exact (h.ended f hf).2 t' row' hold hfamily

-- ============================================================== statements

theorem busy_of_claimed {t : TokenId} {row : Token} (h : .claimed t row ∈ s.flights) :
    s.busy t = true :=
  List.any_eq_true.2 ⟨_, h, decide_eq_true rfl⟩

theorem ages_spend {t t' : TokenId} {after : Token}
    (h : (s.spend t).tokens t' = some after) :
    ∃ before, s.tokens t' = some before ∧ Ages before after := by
  by_cases ht : t' = t
  · subst ht
    have hself := (Function.update_self ..).symm.trans h
    obtain ⟨before, hbefore, rfl⟩ := Option.map_eq_some_iff.1 hself
    exact ⟨before, hbefore, ages_spent s.now before⟩
  · exact ⟨after, (Function.update_of_ne ht ..).symm.trans h, .refl after⟩

theorem ages_revoke {seen : List TokenId} {t : TokenId} {after : Token}
    (h : (s.revoke seen).tokens t = some after) :
    ∃ before, s.tokens t = some before ∧ Ages before after := by
  change (if t ∈ seen then (s.tokens t).map (revoked s.now) else s.tokens t)
    = some after at h
  split at h
  next =>
    obtain ⟨before, hbefore, rfl⟩ := Option.map_eq_some_iff.1 h
    exact ⟨before, hbefore, ages_revoked s.now before⟩
  next => exact ⟨after, h, .refl after⟩

theorem ages_prune {t t' : TokenId} {after : Token}
    (h : Function.update s.tokens t none t' = some after) :
    ∃ before, s.tokens t' = some before ∧ Ages before after := by
  exact ⟨after, (Table.delete_cases h).2, .refl after⟩

/-- A revocation waits for what is claimed. -/
theorem Rotating.revoke (h : Rotating s) {seen : List TokenId}
    (hfree : ∀ t ∈ seen, s.busy t = false) : Rotating (s.revoke seen) := by
  refine h.withTokens (fun t after => ages_revoke) fun t row hg => ?_
  refine if_neg fun hmem => ?_
  have hbusy := hfree t hmem
  rw [busy_of_claimed hg] at hbusy
  cases hbusy

/-- A claim commits: the token is spent, and with it the family has none
left. -/
theorem Rotating.redeem (h : Rotating s) {t : TokenId} {row : Token}
    (hg : .claimed t row ∈ s.flights) :
    Rotating ((s.replace (.claimed t row) []).spend t)
      ∧ (∀ t' row', (s.spend t).tokens t' = some row' → row'.familyId = row.familyId →
        row'.unspent = false)
      ∧ (∀ seen, .revoking row.familyId seen ∉ s.flights.erase (.claimed t row))
      ∧ row.familyId ∉ s.ended := by
  obtain ⟨now, hnow, hunspent⟩ := h.claimed t row hg
  have hfamily := (h.kin _ hg t row rfl).2 now hnow
  have hholds : (Flight.claimed t row).holds row.familyId = true := decide_eq_true rfl
  have halone : ∀ g ∈ s.flights.erase (.claimed t row), g.holds row.familyId = false :=
    fun g => Solo.solo_erase (h.solo row.familyId) hg hholds
  refine ⟨?_, ?_, ?_, ?_⟩
  · refine (h.drop _).withTokens (fun t' after => ages_spend) fun t' row' hg' => ?_
    refine Function.update_of_ne (fun ht => ?_) ..
    subst ht
    have hkin := (h.kin _ (List.mem_of_mem_erase hg') t' row' rfl).2 now hnow
    have hnot := of_decide_eq_false (p := row'.familyId = row.familyId) (halone _ hg')
    exact hnot (hkin.symm.trans hfamily)
  · intro t' after hafter hsame
    rw [Bool.eq_false_iff]
    intro hafter'
    obtain ⟨before, hbefore, hages⟩ := ages_spend hafter
    have heq := h.sole t' t before now hbefore hnow
      (by rw [hfamily, ← hages.familyId, hsame]) (hages.unspent hafter') hunspent
    subst heq
    have hself := (Function.update_self ..).symm.trans hafter
    obtain ⟨old, -, rfl⟩ := Option.map_eq_some_iff.1 hself
    cases (unspent_iff.1 hafter').1
  · intro seen hmem
    exact of_decide_eq_false (p := row.familyId = row.familyId) (halone _ hmem) rfl
  · intro hended
    exact (h.ended _ hended).2 t now hnow hfamily (unspent_iff.1 hunspent).2

-- ================================================================ the step

theorem mem_visible {sel : Token → Bool} {t : TokenId} {row : Token} (hid : t ∈ s.ids)
    (hrow : s.tokens t = some row) (hsel : sel row = true) (hnone : row.revokedAt = none) :
    t ∈ s.visible sel := by
  refine List.mem_filter.2 ⟨hid, ?_⟩
  rw [hrow]
  simp [hsel, hnone]

theorem Rotating.step (h : Rotating s) (hs : Stepped s a s') : Rotating s' := by
  cases hs with
  | tick => exact h.withGhosts _ _ _
  | login u t f expiresAt hid hfamily =>
      refine h.insert hid (fun t' row' hrow' hsame => ?_) (fun seen hg => ?_) fun hended => ?_
      · rw [← show row'.familyId = f from hsame] at hfamily
        exact absurd (h.known t' row' hrow').2 hfamily
      · exact hfamily (h.families _ hg f rfl)
      · exact hfamily (h.ended f hended).1
  | refresh t row hrow =>
      refine h.launch (fun _ => rfl) (fun f hf => ?_) fun t' row' hreads => ?_
      · cases hf
        exact (h.known t row hrow).2
      · cases hreads
        refine ⟨(h.known t row hrow).1, fun now hnow => ?_⟩
        rw [hrow] at hnow
        cases hnow
        rfl
  | lockFamily t row hg hfree =>
      refine h.advance hg (fun f hf => ?_) rfl (fun _ _ => id) nofun nofun
      rw [← show row.familyId = f from of_decide_eq_true hf]
      exact .inr hfree
  | claim t row now hg hrow hunspent =>
      refine h.advance hg (fun f hf => .inl hf) rfl (fun _ _ => id) ?_ nofun
      intro t' row' heq
      cases heq
      exact ⟨now, hrow, hunspent⟩
  | lost t row hg =>
      have hnext : Rotating (s.replace (.locked t row) [.ending row.familyId]) := by
        refine h.advance hg (fun f hf => ?_) rfl (fun _ _ hreads => ?_) nofun nofun
        · cases hf
        · cases hreads
      exact hnext.withGhosts _ _ _
  | issue t row next expiresAt hg hid =>
      obtain ⟨hspent, hnone, hfree, hlive⟩ := h.redeem hg
      exact hspent.insert hid hnone hfree hlive
  | refuse t row hg => exact (h.redeem hg).1
  | gone t row hg =>
      refine (h.redeem hg).1.launch (fun _ => rfl) (fun f hf => ?_) fun _ _ hreads => ?_
      · cases hf
        exact h.families _ hg row.familyId rfl
      · cases hreads
  | logout t row hrow =>
      refine h.launch (fun _ => rfl) (fun f hf => ?_) fun _ _ hreads => ?_
      · cases hf
        exact (h.known t row hrow).2
      · cases hreads
  | lockEnding f hg hfree =>
      refine h.advance hg (fun f' hf => ?_) rfl (fun _ _ => id) nofun nofun
      rw [← show f = f' from of_decide_eq_true hf]
      exact .inr hfree
  | seeFamily f hg =>
      refine h.advance hg (fun f hf => .inl hf) rfl (fun _ _ => id) nofun ?_
      intro f' seen heq t row hrow hfamily hnone
      cases heq
      exact mem_visible (h.known t row hrow).1 hrow (decide_eq_true hfamily) hnone
  | revokeFamily f seen hg hfree =>
      have hrevoked := (h.revoke hfree).drop (.revoking f (some seen))
      refine ⟨hrevoked.known, hrevoked.sole, hrevoked.solo, hrevoked.families, hrevoked.kin,
        hrevoked.claimed, hrevoked.seen, fun f' hf' => ?_⟩
      rcases List.mem_cons.1 hf' with rfl | hold
      · refine ⟨h.families _ hg f' rfl, fun t after hafter hfamily hnone => ?_⟩
        obtain ⟨before, hbefore, hages⟩ := ages_revoke hafter
        rw [hages.familyId] at hfamily
        have hmem := h.seen f' seen hg t before hbefore hfamily (hages.revokedAt hnone)
        have hself := (if_pos hmem).symm.trans hafter
        rw [hbefore] at hself
        cases hself
        unfold revoked at hnone
        rw [if_pos (hages.revokedAt (by unfold revoked; exact hnone))] at hnone
        cases hnone
      · exact hrevoked.ended f' hold
  | seeSessions u =>
      exact h.launch (fun _ => rfl) (fun _ hf => by cases hf) fun _ _ hreads => by cases hreads
  | setPassword u seen before hg hfree =>
      exact ((h.revoke hfree).drop _).withGhosts _ _ _
  | pruneExpired t hfree =>
      refine h.withTokens (fun t' after => ages_prune) fun t' row hg => ?_
      refine Function.update_of_ne (fun ht => ?_) ..
      subst ht
      rw [busy_of_claimed hg] at hfree
      cases hfree
  | drop g hg => exact h.drop g

theorem rotating_init (hs : init s) : Rotating s := by
  obtain ⟨now, rfl⟩ := hs
  refine ⟨?_, ?_, fun f => Nat.zero_le 1, ?_, ?_, ?_, ?_, ?_⟩
  · intro t row hrow
    cases hrow
  · intro t t' row row' hrow
    cases hrow
  · intro g hg
    cases hg
  · intro g hg
    cases hg
  · intro t row hg
    cases hg
  · intro f seen hg
    cases hg
  · intro f hf
    cases hf

theorem rotating_reachable {ok : World → Action → Prop}
    (hrun : Reachable step ok init s) : Rotating s :=
  hrun.invariant (fun _ => rotating_init) fun _ _ _ h _ hs => h.step (step_inv hs)

theorem Rotating.single (h : Rotating s) : Single s := by
  intro t t' row row' hrow hrow' hfamily hlive hlive'
  exact h.sole t t' row row' hrow hrow' hfamily (Bool.and_eq_true_iff.1 hlive).1
    (Bool.and_eq_true_iff.1 hlive').1

/-- What a step redeems is claimed. -/
theorem claimed_of_redeems {f : FamilyId} (hs : Stepped s a s') (hf : f ∈ a.redeems) :
    ∃ t row, .claimed t row ∈ s.flights ∧ row.familyId = f := by
  cases hs with
  | issue t row next expiresAt hg hid =>
      cases hf
      exact ⟨t, row, hg, rfl⟩
  | refuse t row hg =>
      cases hf
      exact ⟨t, row, hg, rfl⟩
  | gone t row hg =>
      cases hf
      exact ⟨t, row, hg, rfl⟩
  | _ => cases hf

theorem Rotating.not_ended (h : Rotating s) (hs : Stepped s a s') :
    ∀ f ∈ a.redeems, f ∉ s.ended := by
  intro f hf
  obtain ⟨t, row, hg, rfl⟩ := claimed_of_redeems hs hf
  exact (h.redeem hg).2.2.2

-- ================================================================= replays

/-- Between a replay and the revocation no refresh has claimed a token of
the family, and one that holds it presents a token that is spent. -/
structure Quiet (s : World) : Prop where
  claimed : ∀ f ∈ s.detected, f ∉ s.ended → ∀ t row, .claimed t row ∈ s.flights →
    row.familyId ≠ f
  locked : ∀ f ∈ s.detected, f ∉ s.ended → ∀ t row, .locked t row ∈ s.flights →
    row.familyId = f → (s.tokens t).any (·.unspent) = false

/-- A refresh that holds its family. -/
def Flight.rotates : Flight → Bool
  | .locked .. => true
  | .claimed .. => true
  | _ => false

/-- Nobody new holds a family, no replay is detected, and no token that
there was becomes unspent. -/
theorem Quiet.keep (h : Quiet s) (hr : Rotating s) (hdetected : s'.detected = s.detected)
    (hended : s.ended ⊆ s'.ended)
    (hflights : ∀ g ∈ s'.flights, g.rotates = true → g ∈ s.flights)
    (htokens : ∀ t ∈ s.ids, (s'.tokens t).any (·.unspent) = true →
      (s.tokens t).any (·.unspent) = true) : Quiet s' := by
  refine ⟨fun f hf hnot t row hg => ?_, fun f hf hnot t row hg hfamily => ?_⟩
  · rw [hdetected] at hf
    exact h.claimed f hf (fun hold => hnot (hended hold)) t row (hflights _ hg rfl)
  · rw [hdetected] at hf
    have hg₀ := hflights _ hg rfl
    have hspent := h.locked f hf (fun hold => hnot (hended hold)) t row hg₀ hfamily
    rw [Bool.eq_false_iff]
    intro hunspent
    rw [htokens t (hr.kin _ hg₀ t row rfl).1 hunspent] at hspent
    cases hspent

theorem mem_of_launch {g g' : Flight} (hnot : g.rotates = false)
    (hg' : g' ∈ g :: s.flights) (h : g'.rotates = true) : g' ∈ s.flights := by
  rcases List.mem_cons.1 hg' with rfl | hold
  · rw [hnot] at h
    cases h
  · exact hold

theorem mem_of_replace {g new g' : Flight} (hnot : new.rotates = false)
    (hg' : g' ∈ (s.replace g [new]).flights) (h : g'.rotates = true) : g' ∈ s.flights := by
  rcases List.mem_cons.1 hg' with rfl | hold
  · rw [hnot] at h
    cases h
  · exact List.mem_of_mem_erase hold

theorem unspent_of_ages {t : TokenId} {row : Option Token}
    (hages : ∀ after, row = some after → ∃ before, s.tokens t = some before ∧ Ages before after)
    (h : row.any (·.unspent) = true) : (s.tokens t).any (·.unspent) = true := by
  obtain ⟨after, hafter, hunspent⟩ := (Option.any_eq_true _ _).1 h
  obtain ⟨before, hbefore, hage⟩ := hages after hafter
  exact (Option.any_eq_true _ _).2 ⟨before, hbefore, hage.unspent hunspent⟩

theorem unspent_of_insert {t t' : TokenId} {row : Token} (hid : t ∉ s.ids) (hid' : t' ∈ s.ids)
    (h : ((s.insert t row).tokens t').any (·.unspent) = true) :
    (s.tokens t').any (·.unspent) = true := by
  have hne : t' ≠ t := fun heq => hid (heq ▸ hid')
  rw [show (s.insert t row).tokens t' = s.tokens t' from Function.update_of_ne hne ..] at h
  exact h

theorem Quiet.step (h : Quiet s) (hr : Rotating s) (hok : Prompt s a)
    (hs : Stepped s a s') : Quiet s' := by
  cases hs with
  | tick => exact ⟨h.claimed, h.locked⟩
  | login u t f expiresAt hid hfamily =>
      exact h.keep hr rfl (fun _ => id) (fun _ hg _ => hg) fun _ => unspent_of_insert hid
  | refresh t row hrow =>
      exact h.keep hr rfl (fun _ => id) (fun _ => mem_of_launch rfl) fun _ _ => id
  | lockFamily t row hg hfree =>
      refine ⟨fun f hf hnot t' row' hg' => ?_, fun f hf hnot t' row' hg' hfamily => ?_⟩
      · rcases List.mem_cons.1 hg' with heq | hold
        · cases heq
        · exact h.claimed f hf hnot t' row' (List.mem_of_mem_erase hold)
      · rcases List.mem_cons.1 hg' with heq | hold
        · cases heq
          subst hfamily
          rw [Bool.eq_false_iff]
          exact fun hunspent => hnot (hok hf hunspent)
        · exact h.locked f hf hnot t' row' (List.mem_of_mem_erase hold) hfamily
  | claim t row now hg hrow hunspent =>
      refine ⟨fun f hf hnot t' row' hg' => ?_, fun f hf hnot t' row' hg' hfamily => ?_⟩
      · rcases List.mem_cons.1 hg' with heq | hold
        · cases heq
          intro hfamily
          have hspent := h.locked f hf hnot t row hg hfamily
          rw [hrow, Option.any_some, hunspent] at hspent
          cases hspent
        · exact h.claimed f hf hnot t' row' (List.mem_of_mem_erase hold)
      · rcases List.mem_cons.1 hg' with heq | hold
        · cases heq
        · exact h.locked f hf hnot t' row' (List.mem_of_mem_erase hold) hfamily
  | lost t row hg =>
      -- The one that lost was the holder: nobody else is.
      have hholds : (Flight.locked t row).holds row.familyId = true := decide_eq_true rfl
      have halone : ∀ g ∈ s.flights.erase (.locked t row), g.holds row.familyId = false :=
        fun g => Solo.solo_erase (hr.solo row.familyId) hg hholds
      refine ⟨fun f hf hnot t' row' hg' => ?_, fun f hf hnot t' row' hg' hfamily => ?_⟩
      · rcases List.mem_cons.1 hg' with heq | hold
        · cases heq
        · rcases List.mem_cons.1 hf with rfl | hf
          · exact of_decide_eq_false (p := row'.familyId = row.familyId) (halone _ hold)
          · exact h.claimed f hf hnot t' row' (List.mem_of_mem_erase hold)
      · rcases List.mem_cons.1 hg' with heq | hold
        · cases heq
        · rcases List.mem_cons.1 hf with rfl | hf
          · exact absurd hfamily
              (of_decide_eq_false (p := row'.familyId = row.familyId) (halone _ hold))
          · exact h.locked f hf hnot t' row' (List.mem_of_mem_erase hold) hfamily
  | issue t row next expiresAt hg hid =>
      refine h.keep hr rfl (fun _ => id) (fun _ hg' _ => List.mem_of_mem_erase hg') ?_
      intro t' hid' hunspent
      exact unspent_of_ages (fun _ => ages_spend) (unspent_of_insert hid hid' hunspent)
  | refuse t row hg =>
      refine h.keep hr rfl (fun _ => id) (fun _ hg' _ => List.mem_of_mem_erase hg') ?_
      exact fun _ _ => unspent_of_ages fun _ => ages_spend
  | gone t row hg =>
      refine h.keep hr rfl (fun _ => id) (fun _ => mem_of_replace rfl) ?_
      exact fun _ _ => unspent_of_ages fun _ => ages_spend
  | logout t row hrow =>
      exact h.keep hr rfl (fun _ => id) (fun _ => mem_of_launch rfl) fun _ _ => id
  | lockEnding f hg hfree =>
      exact h.keep hr rfl (fun _ => id) (fun _ => mem_of_replace rfl) fun _ _ => id
  | seeFamily f hg =>
      exact h.keep hr rfl (fun _ => id) (fun _ => mem_of_replace rfl) fun _ _ => id
  | revokeFamily f seen hg hfree =>
      refine h.keep hr rfl (fun _ => List.mem_cons_of_mem _)
        (fun _ hg' _ => List.mem_of_mem_erase hg') ?_
      exact fun _ _ => unspent_of_ages fun _ => ages_revoke
  | seeSessions u =>
      exact h.keep hr rfl (fun _ => id) (fun _ => mem_of_launch rfl) fun _ _ => id
  | setPassword u seen before hg hfree =>
      refine h.keep hr rfl (fun _ => id) (fun _ hg' _ => List.mem_of_mem_erase hg') ?_
      exact fun _ _ => unspent_of_ages fun _ => ages_revoke
  | pruneExpired t hfree =>
      refine h.keep hr rfl (fun _ => id) (fun _ hg' _ => hg') ?_
      exact fun _ _ => unspent_of_ages fun _ => ages_prune
  | drop g hg =>
      exact h.keep hr rfl (fun _ => id) (fun _ hg' _ => List.mem_of_mem_erase hg') fun _ _ => id

theorem quiet_init (hs : init s) : Quiet s := by
  obtain ⟨now, rfl⟩ := hs
  refine ⟨?_, ?_⟩
  · intro f hf
    cases hf
  · intro f hf
    cases hf

theorem quiet_reachable (hrun : Reachable step Prompt init s) : Quiet s := by
  refine hrun.invariant_on (fun _ => rotating_reachable) (fun _ => quiet_init) ?_
  intro t a t' hr h hok hs
  exact h.step hr hok (step_inv hs)

theorem Quiet.not_detected (h : Quiet s) (hr : Rotating s) (hs : Stepped s a s') :
    ∀ f ∈ a.redeems, f ∉ s.detected := by
  intro f hf hdetected
  obtain ⟨t, row, hg, rfl⟩ := claimed_of_redeems hs hf
  exact h.claimed _ hdetected (hr.not_ended hs _ hf) t row hg rfl

/-- In every run a family has one token at most to redeem and none once
its revocation has committed; and none once a replay of it was detected,
in every run that lets no unspent token in between the two. -/
theorem families_end (s : World) :
    (Reachable step anyStep init s → Single s
      ∧ ∀ a s', step s a = some s' → ∀ f ∈ a.redeems, f ∉ s.ended)
    ∧ (Reachable step Prompt init s →
        ∀ a s', step s a = some s' → ∀ f ∈ a.redeems, f ∉ s.detected) := by
  refine ⟨fun hrun => ?_, fun hrun a s' hs => ?_⟩
  · have hr := rotating_reachable hrun
    exact ⟨hr.single, fun a s' hs => hr.not_ended (step_inv hs)⟩
  · exact (quiet_reachable hrun).not_detected (rotating_reachable hrun) (step_inv hs)

/-- A sign-in, a refresh, and the first token once more. -/
def replayActs : List Action :=
  let t₀ : Token := { userId := "ada", familyId := "f", expiresAt := 100 }
  [.login "ada" "t0" "f" 100, .refresh "t0", .refresh "t0",
    .lockFamily "t0" t₀, .claim "t0" t₀, .issue "t0" t₀ "t1" 100,
    .lockFamily "t0" t₀, .claim "t0" t₀]

/-- The replay ends the family. -/
def endedActs : List Action :=
  replayActs ++ [.lockEnding "f", .seeFamily "f", .revokeFamily "f" ["t1", "t0"]]

def endedWorld : World :=
  (runWithin step Prompt (World.empty 0) endedActs).get (by decide)

theorem families_end_ended :
    "f" ∈ endedWorld.detected ∧ "f" ∈ endedWorld.ended
      ∧ (Single endedWorld ∧ ∀ a s', step endedWorld a = some s' →
        ∀ f ∈ a.redeems, f ∉ endedWorld.ended)
      ∧ ∀ a s', step endedWorld a = some s' → ∀ f ∈ a.redeems, f ∉ endedWorld.detected := by
  have hrun : Reachable step Prompt init endedWorld :=
    reachable_get ⟨0, rfl⟩ _
  exact ⟨by decide, by decide, (families_end _).1 hrun.any, (families_end _).2 hrun⟩

/-- The replay of the first token is detected; before its family is
revoked, the second is redeemed. -/
def replayedActs : List Action :=
  let t₁ : Token := { userId := "ada", familyId := "f", expiresAt := 100 }
  replayActs ++ [.refresh "t1", .lockFamily "t1" t₁, .claim "t1" t₁]

def replayedWorld : World :=
  (runWithin step anyStep (World.empty 0) replayedActs).get (by decide)

theorem redeemed_after_replay :
    ∃ s a s' f, Reachable step anyStep init s ∧ step s a = some s' ∧ f ∈ a.redeems
      ∧ f ∈ s.detected := by
  let a : Action :=
    .issue "t1" { userId := "ada", familyId := "f", expiresAt := 100 } "t2" 100
  have hstep : (step replayedWorld a).isSome = true := by decide
  exact ⟨replayedWorld, a, _, "f", reachable_get ⟨0, rfl⟩ _, (Option.some_get hstep).symm,
    rfl, by decide⟩

end Nacre.Sessions
