/-
What is left of a connection that was ended, and of a family of refresh
tokens that was replayed.

# What can go wrong

Both are ended by deleting rows, which ends the rows there are:

- a grant between `rotate` and `issue` inserts its token after the family
  or the connection's tokens have been deleted, and after a `revoke` the
  token is as good as new once the connection is approved again;
- a code is not touched by `revoke`, and `redeem` does not ask whether its
  connection stands.

`redeemable_after_end` is a run of each.

# The condition

`Clear`: a replay is met only while no grant of its family has still to
issue, and a connection is revoked only while no grant of it has, and no
code of it could be redeemed.
-/
import Nacre.Lib.Table
import Nacre.OAuth.System

namespace Nacre.OAuth

open Nacre.Store (Time)
open Transition

variable {s s' : World} {a : Action}

-- ============================================================ the property

/-- Nothing that has ended can be redeemed. -/
structure Ended (s : World) : Prop where
  tokens : ∀ t ∈ s.endedTokens, s.redeemable t = false
  codes : ∀ k ∈ s.endedCodes, s.redeemableCode k = false
  families : ∀ t row, s.tokens t = some row → row.familyId ∈ s.detected →
    s.redeemable t = false

/-- A replay is met only while no grant of its family has still to issue,
and a connection is revoked only while no grant of it has, and no code of
it could be redeemed. -/
def Clear (s : World) : Action → Prop
  | .rotate t => ∀ row ∈ s.tokens t, row.usedAt ≠ none →
      ∀ g ∈ s.grants, g.family ≠ some row.familyId
  | .revoke id => (∀ g ∈ s.grants, g.consentId ≠ id)
      ∧ ∀ k ∈ s.codeIds, (s.codes k).any (·.consentId = some id) = true →
        s.redeemableCode k = false
  | _ => True

instance (s : World) (a : Action) : Decidable (Clear s a) := by
  cases a with
  | rotate t => exact inferInstanceAs (Decidable (∀ row ∈ s.tokens t, _))
  | revoke id => exact inferInstanceAs (Decidable (_ ∧ _))
  | _ => exact inferInstanceAs (Decidable True)

-- =========================================================== the invariant

structure Cleared (s : World) : Prop where
  tokens : ∀ t row, s.tokens t = some row → t ∈ s.tokenIds ∧ row.familyId ∈ s.families
  codes : ∀ k code, s.codes k = some code → k ∈ s.codeIds
  grants : ∀ g ∈ s.grants, g.overtaken = false ∧ ∀ f, g.family = some f → f ∈ s.families
  /-- A family that was replayed has no token and nobody to issue one. -/
  detected : ∀ f ∈ s.detected, f ∈ s.families
    ∧ (∀ t row, s.tokens t = some row → row.familyId ≠ f) ∧ ∀ g ∈ s.grants, g.family ≠ some f
  endedTokens : ∀ t ∈ s.endedTokens, t ∈ s.tokenIds ∧ s.tokens t = none
  endedCodes : ∀ k ∈ s.endedCodes, k ∈ s.codeIds ∧ s.redeemableCode k = false

theorem outstanding_iff {now : Time} {code : Code} :
    code.outstanding now = true ↔ code.consumedAt = none ∧ now < code.expiresAt := by
  simp [Code.outstanding]

/-- A code that cannot be redeemed cannot later. -/
theorem redeemableCode_tick {k : CodeId} (h : s.redeemableCode k = false) :
    World.redeemableCode { s with now := s.now + 1 } k = false := by
  rw [Bool.eq_false_iff] at h ⊢
  intro hany
  obtain ⟨code, hcode, houtstanding⟩ := (Option.any_eq_true _ _).1 hany
  rw [outstanding_iff] at houtstanding
  refine h ((Option.any_eq_true _ _).2 ⟨code, hcode, outstanding_iff.2 ⟨houtstanding.1, ?_⟩⟩)
  exact Nat.lt_of_succ_lt houtstanding.2

theorem mem_delete {sel : Token → Bool} {t : TokenId} {row : Token}
    (h : (s.delete sel).tokens t = some row) : s.tokens t = some row ∧ sel row = false := by
  change (if (s.tokens t).any sel then none else s.tokens t) = some row at h
  split at h
  next => cases h
  next hnot =>
    refine ⟨h, ?_⟩
    rw [h, Option.any_some] at hnot
    exact Bool.eq_false_iff.2 hnot

theorem delete_none {sel : Token → Bool} {t : TokenId} (h : s.tokens t = none) :
    (s.delete sel).tokens t = none := by
  change (if (s.tokens t).any sel then none else s.tokens t) = none
  rw [h]
  rfl

-- ==================================================== one kind of write each

theorem Cleared.tick (h : Cleared s) : Cleared { s with now := s.now + 1 } := by
  refine ⟨h.tokens, h.codes, h.grants, h.detected, h.endedTokens, fun k hk => ?_⟩
  exact (h.endedCodes k hk).imp id redeemableCode_tick

/-- Rows are deleted. -/
theorem Cleared.delete (h : Cleared s) (sel : Token → Bool) : Cleared (s.delete sel) := by
  refine ⟨fun t row hrow => ?_, h.codes, h.grants, fun f hf => ?_, fun t ht => ?_,
    h.endedCodes⟩
  · exact h.tokens t row (mem_delete hrow).1
  · obtain ⟨hfamily, hnone, hgrants⟩ := h.detected f hf
    exact ⟨hfamily, fun t row hrow => hnone t row (mem_delete hrow).1, hgrants⟩
  · exact (h.endedTokens t ht).imp id delete_none

/-- A replay ends its family. -/
theorem Cleared.replay (h : Cleared s) {t : TokenId} {row : Token}
    (hrow : s.tokens t = some row) (hclear : ∀ g ∈ s.grants, g.family ≠ some row.familyId) :
    Cleared { s.delete (·.familyId = row.familyId) with
      detected := row.familyId :: s.detected } := by
  have hdeleted := h.delete (·.familyId = row.familyId)
  refine ⟨hdeleted.tokens, hdeleted.codes, hdeleted.grants, fun f hf => ?_,
    hdeleted.endedTokens, hdeleted.endedCodes⟩
  rcases List.mem_cons.1 hf with rfl | hold
  · refine ⟨(h.tokens t row hrow).2, fun t' row' hrow' => ?_, hclear⟩
    exact of_decide_eq_false (p := row'.familyId = row.familyId) (mem_delete hrow').2
  · exact hdeleted.detected f hold

/-- A grant begins. -/
theorem Cleared.begin (h : Cleared s) {g : Grant} (hnew : g.overtaken = false)
    (hfamily : ∀ f, g.family = some f → f ∈ s.families ∧ f ∉ s.detected) :
    Cleared { s with grants := g :: s.grants } := by
  refine ⟨h.tokens, h.codes, fun g' hg' => ?_, fun f hf => ?_, h.endedTokens, h.endedCodes⟩
  · rcases List.mem_cons.1 hg' with rfl | hold
    · exact ⟨hnew, fun f hf => (hfamily f hf).1⟩
    · exact h.grants g' hold
  · obtain ⟨hin, hnone, hgrants⟩ := h.detected f hf
    refine ⟨hin, hnone, fun g' hg' heq => ?_⟩
    rcases List.mem_cons.1 hg' with rfl | hold
    · exact (hfamily f heq).2 hf
    · exact hgrants g' hold heq

theorem Cleared.drop (h : Cleared s) (g : Grant) :
    Cleared { s with grants := s.grants.erase g } := by
  refine ⟨h.tokens, h.codes, fun g' hg' => h.grants g' (List.mem_of_mem_erase hg'),
    fun f hf => ?_, h.endedTokens, h.endedCodes⟩
  obtain ⟨hin, hnone, hgrants⟩ := h.detected f hf
  exact ⟨hin, hnone, fun g' hg' => hgrants g' (List.mem_of_mem_erase hg')⟩

/-- A token that is there is written, and stays in its family. -/
theorem Cleared.withToken (h : Cleared s) {t : TokenId} {before after : Token}
    (hbefore : s.tokens t = some before) (hfamily : after.familyId = before.familyId) :
    Cleared { s with tokens := Function.update s.tokens t (some after) } := by
  have hcases : ∀ {t' row'}, Function.update s.tokens t (some after) t' = some row' →
      ∃ row, s.tokens t' = some row ∧ row'.familyId = row.familyId :=
    Table.update_related (R := fun row row' => row'.familyId = row.familyId)
      (fun _ => rfl) hbefore hfamily
  refine ⟨fun t' row' hrow' => ?_, h.codes, h.grants, fun f hf => ?_, fun t' ht' => ?_,
    h.endedCodes⟩
  · obtain ⟨row, hrow, heq⟩ := hcases hrow'
    rw [heq]
    exact h.tokens t' row hrow
  · obtain ⟨hin, hnone, hgrants⟩ := h.detected f hf
    refine ⟨hin, fun t' row' hrow' => ?_, hgrants⟩
    obtain ⟨row, hrow, heq⟩ := hcases hrow'
    rw [heq]
    exact hnone t' row hrow
  · obtain ⟨hid, hnone⟩ := h.endedTokens t' ht'
    have hne : t' ≠ t := by
      intro heq
      rw [heq, hbefore] at hnone
      cases hnone
    exact ⟨hid, (Function.update_of_ne hne ..).trans hnone⟩

theorem Cleared.spend (h : Cleared s) {t : TokenId} {row : Token}
    (hrow : s.tokens t = some row) : Cleared (s.spend t row) := by
  have hspent : Cleared { s with
      tokens := Function.update s.tokens t (some { row with usedAt := some s.now }) } :=
    h.withToken hrow rfl
  refine hspent.begin rfl fun f hf => ?_
  cases hf
  exact ⟨(h.tokens t row hrow).2, fun hdetected => (h.detected _ hdetected).2.1 t row hrow rfl⟩

/-- A code is written that can be redeemed no more than before, or is
new. -/
theorem Cleared.withCode (h : Cleared s) {k : CodeId} {code : Code} {codeIds : List CodeId}
    (hmem : k ∈ codeIds) (hids : s.codeIds ⊆ codeIds)
    (hclosed : k ∈ s.codeIds → code.outstanding s.now = false) :
    Cleared { s with codes := Function.update s.codes k (some code), codeIds } := by
  refine ⟨h.tokens, fun k' code' hcode' => ?_, h.grants, h.detected, h.endedTokens,
    fun k' hk' => ?_⟩
  · by_cases hk : k' = k
    · exact hk ▸ hmem
    · have hold := (Function.update_of_ne hk ..).symm.trans hcode'
      exact hids (h.codes k' code' hold)
  · obtain ⟨hid, hnot⟩ := h.endedCodes k' hk'
    refine ⟨hids hid, ?_⟩
    show (Function.update s.codes k (some code) k').any (·.outstanding s.now) = false
    by_cases hk : k' = k
    · subst hk
      rw [Function.update_self, Option.any_some]
      exact hclosed hid
    · rw [Function.update_of_ne hk]
      exact hnot

theorem Cleared.consume (h : Cleared s) {k : CodeId} {code : Code}
    (hcode : s.codes k = some code) : Cleared (s.consume k code) := by
  have hconsumed : Cleared { s with
      codes := Function.update s.codes k (some { code with consumedAt := some s.now }) } := by
    refine h.withCode (h.codes k code hcode) (fun _ => id) fun _ => ?_
    rw [Bool.eq_false_iff]
    intro houtstanding
    cases (outstanding_iff.1 houtstanding).1
  unfold World.consume
  split
  next => exact hconsumed
  next c hc => exact hconsumed.begin rfl nofun

/-- A grant issues. -/
theorem Cleared.issue (h : Cleared s) {g : Grant} {t : TokenId} {f : FamilyId}
    (expiresAt : Time) (hg : g ∈ s.grants) (hid : t ∉ s.tokenIds)
    (hfamily : g.family = some f ∨ g.family = none ∧ f ∉ s.families) :
    Cleared (s.issue g t f expiresAt) := by
  have hlive : f ∉ s.detected := by
    intro hdetected
    obtain ⟨hin, -, hgrants⟩ := h.detected f hdetected
    rcases hfamily with heq | ⟨-, hfresh⟩
    · exact hgrants g hg heq
    · exact hfresh hin
  have hended : (s.issue g t f expiresAt).endedTokens = s.endedTokens :=
    if_neg (by rw [(h.grants g hg).1]; exact Bool.false_ne_true)
  have hcases : ∀ {t' row'}, (s.issue g t f expiresAt).tokens t' = some row' →
      (t' = t ∧ row' = { consentId := g.consentId, familyId := f, expiresAt })
        ∨ t' ≠ t ∧ s.tokens t' = some row' := Table.update_cases
  refine ⟨fun t' row' hrow' => ?_, h.codes, fun g' hg' => ?_, fun f' hf' => ?_,
    fun t' ht' => ?_, h.endedCodes⟩
  · rcases hcases hrow' with ⟨rfl, rfl⟩ | ⟨-, hold⟩
    · exact ⟨List.mem_cons_self, List.mem_cons_self⟩
    · exact (h.tokens t' row' hold).imp (List.mem_cons_of_mem _) (List.mem_cons_of_mem _)
  · refine (h.grants g' (List.mem_of_mem_erase hg')).imp id fun hin f' hf' => ?_
    exact List.mem_cons_of_mem _ (hin f' hf')
  · obtain ⟨hin, hnone, hgrants⟩ := h.detected f' hf'
    refine ⟨List.mem_cons_of_mem _ hin, fun t' row' hrow' => ?_,
      fun g' hg' => hgrants g' (List.mem_of_mem_erase hg')⟩
    rcases hcases hrow' with ⟨-, rfl⟩ | ⟨-, hold⟩
    · intro heq
      rw [← show f = f' from heq] at hf'
      exact hlive hf'
    · exact hnone t' row' hold
  · rw [hended] at ht'
    obtain ⟨hid', hnone⟩ := h.endedTokens t' ht'
    have hne : t' ≠ t := fun heq => hid (heq ▸ hid')
    exact ⟨List.mem_cons_of_mem _ hid', (Function.update_of_ne hne ..).trans hnone⟩

/-- Nothing of a connection is under way when it is revoked. -/
theorem Cleared.revoke (h : Cleared s) {id : ConsentId} (hok : Clear s (.revoke id)) :
    Cleared ((s.overtake id).delete (·.consentId = id)) := by
  have hgrants : (s.overtake id).grants = s.grants := by
    have hkept : ∀ g ∈ s.grants,
        (if g.consentId = id then { g with overtaken := true } else g) = g :=
      fun g hg => if_neg (hok.1 g hg)
    exact (List.map_congr_left hkept).trans (List.map_id' s.grants)
  refine ⟨fun t row hrow => ?_, h.codes, fun g hg => ?_, fun f hf => ?_, fun t ht => ?_,
    fun k hk => ?_⟩
  · exact h.tokens t row (mem_delete hrow).1
  · change g ∈ (s.overtake id).grants at hg
    rw [hgrants] at hg
    exact h.grants g hg
  · obtain ⟨hin, hnone, hfamily⟩ := h.detected f hf
    refine ⟨hin, fun t row hrow => hnone t row (mem_delete hrow).1, fun g hg => ?_⟩
    change g ∈ (s.overtake id).grants at hg
    rw [hgrants] at hg
    exact hfamily g hg
  · rcases List.mem_append.1 ht with hnew | hold
    · obtain ⟨hid, hany⟩ := List.mem_filter.1 hnew
      exact ⟨hid, if_pos hany⟩
    · exact (h.endedTokens t hold).imp (fun hid => hid) delete_none
  · rcases List.mem_append.1 hk with hnew | hold
    · obtain ⟨hid, hany⟩ := List.mem_filter.1 hnew
      exact ⟨hid, hok.2 k hid hany⟩
    · exact h.endedCodes k hold

-- ================================================================ the step

theorem Cleared.step (h : Cleared s) (hok : Clear s a) (hs : Stepped s a s') : Cleared s' := by
  cases hs with
  | tick => exact h.tick
  | record id actsAs c =>
      exact ⟨h.tokens, h.codes, h.grants, h.detected, h.endedTokens, h.endedCodes⟩
  | setAccount id revoked =>
      exact ⟨h.tokens, h.codes, h.grants, h.detected, h.endedTokens, h.endedCodes⟩
  | setPerson id barred =>
      exact ⟨h.tokens, h.codes, h.grants, h.detected, h.endedTokens, h.endedCodes⟩
  | approve k id expiresAt hid =>
      refine h.withCode List.mem_cons_self (fun _ => List.mem_cons_of_mem _) fun hold => ?_
      exact absurd hold hid
  | redeem k code hcode houtstanding => exact h.consume hcode
  | replay t row hrow hused => exact h.replay hrow (hok row hrow hused)
  | refused t => exact h
  | spent t row hrow => exact h.spend hrow
  | issue g t f expiresAt hg hid hfamily => exact h.issue expiresAt hg hid hfamily
  | drop g hg => exact h.drop g
  | revoke id c hc hstands =>
      have hrevoked := h.revoke hok
      exact ⟨hrevoked.tokens, hrevoked.codes, hrevoked.grants, hrevoked.detected,
        hrevoked.endedTokens, hrevoked.endedCodes⟩

theorem cleared_init (hs : init s) : Cleared s := by
  obtain ⟨now, rfl⟩ := hs
  refine ⟨?_, ?_, ?_, ?_, ?_, ?_⟩
  · intro t row hrow
    cases hrow
  · intro k code hcode
    cases hcode
  · intro g hg
    cases hg
  · intro f hf
    cases hf
  · intro t ht
    cases ht
  · intro k hk
    cases hk

/-- What can be redeemed is there. -/
theorem redeemable_inv {t : TokenId} (h : s.redeemable t = true) :
    ∃ row, s.tokens t = some row := by
  unfold World.redeemable at h
  split at h
  next row hrotate =>
    obtain ⟨row, hrow, -⟩ := rotate_inv hrotate
    exact ⟨row, hrow⟩
  next => cases h

theorem Cleared.ended (h : Cleared s) : Ended s := by
  refine ⟨fun t ht => ?_, fun k hk => (h.endedCodes k hk).2, fun t row hrow hdetected => ?_⟩
  · rw [Bool.eq_false_iff]
    intro hredeemable
    obtain ⟨row, hrow⟩ := redeemable_inv hredeemable
    rw [(h.endedTokens t ht).2] at hrow
    cases hrow
  · exact absurd rfl ((h.detected _ hdetected).2.1 t row hrow)

/-- Nothing of a connection that was ended, and nothing of a family that
was replayed, can be redeemed again, in every run that ends them while
nothing of theirs is under way. -/
theorem connections_end (hrun : Reachable step Clear init s) : Ended s :=
  Cleared.ended <| hrun.invariant (fun _ => cleared_init)
    fun _ _ _ h hok hs => h.step hok (step_inv hs)

/-- A connection is used, revoked, and approved again; its old tokens and
its code are presented. -/
def endedActs : List Action :=
  [.record "c" .user, .approve "k" (some "c") 10, .redeem "k",
    .issue { consentId := "c", family := none } "t0" "f" 100,
    .rotate "t0", .issue { consentId := "c", family := some "f" } "t1" "f" 100,
    .revoke "c", .record "c" .user]

def endedWorld : World :=
  (runWithin step Clear (World.empty 0) endedActs).get (by decide)

theorem connections_end_ended :
    "t1" ∈ endedWorld.endedTokens ∧ "k" ∈ endedWorld.endedCodes ∧ Ended endedWorld :=
  ⟨by decide, by decide, connections_end (reachable_get ⟨0, rfl⟩ _)⟩

-- ============================================================ what remains

/-- The first token is presented again while its exchange has still to
issue. -/
def replayedActs : List Action :=
  [.record "c" .user, .approve "k" (some "c") 10, .redeem "k",
    .issue { consentId := "c", family := none } "t0" "f" 100, .rotate "t0", .rotate "t0",
    .issue { consentId := "c", family := some "f" } "t1" "f" 100]

def replayedWorld : World :=
  (runWithin step anyStep (World.empty 0) replayedActs).get (by decide)

/-- The connection is revoked while an exchange has still to issue, and a
code of it is out; then it is approved again. -/
def revokedActs : List Action :=
  [.record "c" .user, .approve "k" (some "c") 10, .redeem "k",
    .issue { consentId := "c", family := none } "t0" "f" 100, .approve "k2" (some "c") 10,
    .rotate "t0", .revoke "c",
    .issue { consentId := "c", family := some "f", overtaken := true } "t1" "f" 100,
    .record "c" .user]

def revokedWorld : World :=
  (runWithin step anyStep (World.empty 0) revokedActs).get (by decide)

/-- A token issued after its family was replayed; a token and a code of a
connection that was revoked. -/
theorem redeemable_after_end :
    (∃ s t row, Reachable step anyStep init s ∧ s.tokens t = some row
      ∧ row.familyId ∈ s.detected ∧ s.redeemable t = true)
    ∧ ∃ s t k, Reachable step anyStep init s ∧ t ∈ s.endedTokens ∧ s.redeemable t = true
        ∧ k ∈ s.endedCodes ∧ s.redeemableCode k = true := by
  refine ⟨⟨replayedWorld, "t1", { consentId := "c", familyId := "f", expiresAt := 100 },
    reachable_get ⟨0, rfl⟩ _, by decide, by decide, by decide⟩, ?_⟩
  exact ⟨revokedWorld, "t1", "k2", reachable_get ⟨0, rfl⟩ _, by decide, by decide, by decide,
    by decide⟩

end Nacre.OAuth
