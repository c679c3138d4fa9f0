/-
A collection is dropped when its window is over.

The window is that of the row: `retired_at`, which the insert keeps when the
organization has a row for the name. A pointer that comes back to a name
leaves the row where it is, until a sweep finds the name in use; moved off
again before that, the name has the date of the first time
(`dropped_within_window`). And the sweep looks at the pointers, and then
drops: a pointer that comes back in between is not seen.

`Orderly` is the condition: no pointer comes to a name a sweep has found in
use by nobody, and none moves off a name that still has a row, or that a sweep
has in hand.

# The invariant

`Kept`: a row has the date the pointer last moved off its name; a row a sweep
has in hand has been over its window since it was taken up; a name found in
use by nobody still is.
-/
import Nacre.Collections.Moves

namespace Nacre.Collections

open Transition
open Nacre.Store (Time)

-- ================================================================ contract

/-- When the collection of a name may go: nobody points at it, and the window
since a pointer last moved off it is over. -/
def MayDrop (cfg : Config) (s : World) (name : String) : Prop :=
  (∀ g ∈ s.orgs, g.collection ≠ name) ∧ ∀ t ∈ s.left name, t + cfg.retention ≤ s.now

instance (cfg : Config) (s : World) (name : String) : Decidable (MayDrop cfg s name) :=
  inferInstanceAs (Decidable (_ ∧ _))

/-- No sweep is about to drop the name. -/
def MayTake (s : World) (name : String) : Prop :=
  ∀ f ∈ s.flights, ∀ seen ∈ View.unused.of f, seen.2 ≠ name

/-- Neither a row nor a sweep has the name. -/
def MayLeave (s : World) (name : String) : Prop :=
  (∀ r ∈ s.retired, r.name ≠ name) ∧ ∀ f ∈ s.flights, ∀ seen ∈ View.retires.of f, seen.2 ≠ name

instance (s : World) (name : String) : Decidable (MayTake s name) :=
  inferInstanceAs (Decidable (∀ f ∈ s.flights, ∀ seen ∈ View.unused.of f, seen.2 ≠ name))

instance (s : World) (name : String) : Decidable (MayLeave s name) :=
  inferInstanceAs (Decidable (_ ∧ _))

/-- The pointer of an organization may move. -/
def MayMove (s : World) (org : OrgId) (name : String) : Prop :=
  MayTake s name ∧ ∀ g ∈ s.orgs, g.id = org → g.collection ≠ name → MayLeave s g.collection

instance (s : World) (org : OrgId) (name : String) : Decidable (MayMove s org name) :=
  inferInstanceAs (Decidable (_ ∧ _))

/-- Pointers move while no sweep is at either name. -/
def Orderly (s : World) : Action → Prop
  | .provision slug _ => (∃ g ∈ s.orgs, g.slug = slug) ∨ MayTake s (collectionName slug)
  | .finishCopy (.copy org _ _ target _ _ _) _ => MayMove s org target
  | .rollback org name _ _ => MayMove s org name
  | _ => True

instance (s : World) (a : Action) : Decidable (Orderly s a) := by
  apply Action.casesOn (motive := fun a => Decidable (Orderly s a)) a
  case provision => exact fun _ _ => inferInstanceAs (Decidable (_ ∨ _))
  case finishCopy =>
    intro f _
    apply Flight.casesOn (motive := fun f => Decidable (Orderly s (.finishCopy f _))) f
    case copy => intros; exact inferInstanceAs (Decidable (MayMove _ _ _))
    all_goals intros; exact inferInstanceAs (Decidable True)
  case rollback => exact fun _ _ _ _ => inferInstanceAs (Decidable (MayMove _ _ _))
  all_goals intros; exact inferInstanceAs (Decidable True)

-- =============================================================== invariant

structure Kept (cfg : Config) (s : World) : Prop where
  row : ∀ r ∈ s.retired, s.left r.name = some r.retiredAt
  due : ∀ {o n}, s.Shows .retires o n → ∃ t, s.left n = some t ∧ t + cfg.retention < s.now
  unused : ∀ {o n}, s.Shows .unused o n → ∀ g ∈ s.orgs, g.collection ≠ n

variable {cfg : Config} {s s' : World} {a : Action} {o : OrgId} {n : String}

theorem Kept.quiet (h : Kept cfg s) (hquiet : Quiet s s') : Kept cfg s' where
  row r hr := by
    rw [hquiet.left]
    exact h.row r (hquiet.retired r hr)
  due hshows := by
    obtain ⟨t, ht, hover⟩ := h.due (hquiet.calmer _ _ _ hshows)
    exact ⟨t, hquiet.left ▸ ht, Nat.lt_of_lt_of_le hover hquiet.now⟩
  unused hshows := hquiet.orgs ▸ h.unused (hquiet.calmer _ _ _ hshows)

/-- A flight is seen in one more way: a row in hand is over its window, a name
found in use by nobody is. -/
theorem Kept.gains {kind : View} (h : Kept cfg s) (horgs : s'.orgs = s.orgs)
    (hleft : s'.left = s.left) (hnow : s'.now = s.now) (hretired : s'.retired = s.retired)
    (hgains : Gains s s' kind o n)
    (hdue : kind = .retires → ∃ t, s.left n = some t ∧ t + cfg.retention < s.now)
    (hunused : kind = .unused → ∀ g ∈ s.orgs, g.collection ≠ n) : Kept cfg s' where
  row r hr := by
    rw [hleft]
    exact h.row r (hretired ▸ hr)
  due hshows := by
    rw [hleft, hnow]
    rcases hgains _ _ _ hshows with hold | ⟨hkind, rfl, rfl⟩
    · exact h.due hold
    · exact hdue hkind.symm
  unused hshows := by
    rw [horgs]
    rcases hgains _ _ _ hshows with hold | ⟨hkind, rfl, rfl⟩
    · exact h.unused hold
    · exact hunused hkind.symm

/-- A pointer moves off a name that nothing dates, to one nobody is about to
drop; the row it leaves is dated now. -/
theorem Kept.pointed {stamp : Time} {g : Org} (h : Kept cfg s)
    (hpointed : Pointed s s' o n stamp g) (hok : MayMove s o n) : Kept cfg s' := by
  have hleave : g.collection ≠ n → MayLeave s g.collection :=
    hok.2 g hpointed.row hpointed.id
  have hkeep : ∀ name, (g.collection ≠ n → name ≠ g.collection) → s'.left name = s.left name := by
    intro name hne
    rw [hpointed.left]
    split
    · rfl
    next hsame => exact Function.update_of_ne (hne hsame) _ _
  refine ⟨fun r hr => ?_, fun hshows => ?_, fun hshows g' hg' => ?_⟩
  · have hold : ∀ r ∈ s.retired, s'.left r.name = some r.retiredAt := by
      intro r hr
      rw [hkeep r.name fun hne => (hleave hne).1 r hr]
      exact h.row r hr
    rcases hpointed.retired with hsame | ⟨hne, hretire⟩
    · exact hold r (hsame ▸ hr)
    · rw [hretire] at hr
      unfold retire at hr
      split at hr
      · exact hold r hr
      · rcases List.mem_cons.1 hr with rfl | hr
        · rw [hpointed.left, if_neg hne]
          exact Function.update_self _ _ _
        · exact hold r hr
  · obtain ⟨f, hf, hview⟩ := hpointed.calmer _ _ _ hshows
    obtain ⟨t, ht, hover⟩ := h.due ⟨f, hf, hview⟩
    rw [hpointed.now]
    refine ⟨t, ?_, hover⟩
    rw [hkeep _ fun hne => (hleave hne).2 f hf _ hview]
    exact ht
  · obtain ⟨f, hf, hview⟩ := hpointed.calmer _ _ _ hshows
    rw [hpointed.orgs] at hg'
    rcases mem_repoint hg' with ⟨-, hname⟩ | ⟨hmem, -⟩
    · rw [hname]
      exact (hok.1 f hf _ hview).symm
    · exact h.unused ⟨f, hf, hview⟩ g' hmem

theorem kept_step (h : Kept cfg s) (hok : Orderly s a) (hstep : step cfg s a = some s') :
    Kept cfg s' := by
  cases step_moved hstep with
  | quiet hquiet => exact h.quiet hquiet
  | @inserted slug id _ hslug hid hname horgs hleft hnow hretired hcalm =>
      have htake : MayTake s (collectionName slug) := by
        rcases hok with ⟨g, hg, hs⟩ | htake
        · exact absurd hs (hslug g hg)
        · exact htake
      refine ⟨fun r hr => ?_, fun hshows => ?_, fun hshows g hg => ?_⟩
      · rw [hleft]
        exact h.row r (hretired ▸ hr)
      · rw [hleft, hnow]
        exact h.due (hcalm _ _ _ hshows)
      · obtain ⟨f, hf, hview⟩ := hcalm _ _ _ hshows
        rw [horgs] at hg
        rcases List.mem_cons.1 hg with rfl | hold
        · exact (htake f hf _ hview).symm
        · exact h.unused ⟨f, hf, hview⟩ g hold
  | unowned hkind hfree horgs hleft hnow hretired hgains =>
      rcases hkind with ⟨rfl, -⟩ | ⟨rfl, -⟩
      · exact h.gains horgs hleft hnow hretired hgains nofun nofun
      · exact h.gains horgs hleft hnow hretired hgains nofun nofun
  | unretired hf hfree horgs hleft hnow hretired hgains =>
      exact h.gains horgs hleft hnow hretired hgains nofun nofun
  | finished hf hshows hpointed =>
      subst hf
      exact h.pointed hpointed hok
  | rolledBack hpointed => exact h.pointed hpointed hok
  | @due row _ hrow hdue horgs hleft hnow hretired hgains =>
      exact h.gains horgs hleft hnow hretired hgains (fun _ => ⟨_, h.row row hrow, hdue⟩) nofun
  | unused hlive horgs hleft hnow hretired hgains =>
      exact h.gains horgs hleft hnow hretired hgains nofun fun _ => hlive

theorem kept_init (h : init s) : Kept cfg s := by
  obtain ⟨now, rfl⟩ := h
  have hnone : ∀ {view : View} {o n}, ¬ (World.new now).Shows view o n := by
    intro view o n hshows
    obtain ⟨f, hf, -⟩ := hshows
    cases hf
  exact ⟨nofun, fun hshows => absurd hshows hnone, fun hshows => absurd hshows hnone⟩

-- ================================================================= the runs

/-- Where pointers move while no sweep is at either name, what a sweep drops
nobody points at, and its window is over. -/
theorem collections_kept (hs : Reachable (step cfg) Orderly init s) {org : OrgId} {name : String}
    {s' : World} (hdrop : step cfg s (.drop (.retire org name true)) = some s') :
    MayDrop cfg s name := by
  have hkept : Kept cfg s :=
    hs.invariant (fun _ => kept_init) fun _ _ _ h hok => kept_step h hok
  have hunused : s.Shows .unused org name := ⟨_, step_flight hdrop rfl, rfl⟩
  refine ⟨hkept.unused hunused, fun t ht => ?_⟩
  obtain ⟨t', ht', hover⟩ := hkept.due (unused_retires hunused)
  rw [ht'] at ht
  cases ht
  exact Nat.le_of_lt hover

/-- An organization, and a copy onto another model on the day `day`. -/
def provisionActions : List Action :=
  [.provision "acme" 0, .askOwners (.provision 0 "org_acme" .no false),
    .askRetirees (.provision 0 "org_acme" .owners false),
    .look (.provision 0 "org_acme" .retirees false),
    .create (.provision 0 "org_acme" .retirees true)]

def migrateActions (claim : Nat) (day : Time) : List Action :=
  let target := "org_acme_v_bge_m3_1024"
  [.reindex 0 7 "bge-m3" 1024, .claimCopy 0 7, .askOwners (.copy 0 7 claim target .no false false),
    .askRetirees (.copy 0 7 claim target .owners false false),
    .clear (.copy 0 7 claim target .retirees false false),
    .recreate (.copy 0 7 claim target .retirees true false),
    .finishCopy (.copy 0 7 claim target .retirees true true) day]

def sweepActions : List Action :=
  [.due ⟨0, "org_acme", 0⟩, .isLive (.retire 0 "org_acme" false)]

/-- Migrated on day 0, rolled back on day 5, migrated again on day 6, and
swept on day 8. -/
def rolledBackActions : List Action :=
  provisionActions ++ migrateActions 0 0
    ++ [.wait 5, .rollback 0 "org_acme" 7 5, .wait 1] ++ migrateActions 1 6
    ++ [.wait 2] ++ sweepActions

theorem run_rolledBack : (runWithin (step ⟨7⟩) anyStep (World.new 0) rolledBackActions).any
    (fun s => decide ((step ⟨7⟩ s (.drop (.retire 0 "org_acme" true))).isSome ∧ s.now = 8
      ∧ s.left "org_acme" = some 6 ∧ ¬ MayDrop ⟨7⟩ s "org_acme")) = true := by
  decide +kernel

/-- Two days after the second migration the collection is dropped that seven
days are kept for. -/
theorem dropped_within_window :
    ∃ s, Reachable (step ⟨7⟩) anyStep init s
      ∧ (step ⟨7⟩ s (.drop (.retire 0 "org_acme" true))).isSome ∧ s.now = 8
      ∧ s.left "org_acme" = some 6 ∧ ¬ MayDrop ⟨7⟩ s "org_acme" :=
  exists_reachable ⟨0, rfl⟩ run_rolledBack

/-- Migrated once, and swept on day 8. -/
def migratedActions : List Action :=
  provisionActions ++ migrateActions 0 0 ++ [.wait 8] ++ sweepActions

theorem run_migrated : (runWithin (step ⟨7⟩) Orderly (World.new 0) migratedActions).any
    (fun s => decide ((step ⟨7⟩ s (.drop (.retire 0 "org_acme" true))).isSome)) = true := by
  decide +kernel

theorem collections_kept_once :
    ∃ s, (step ⟨7⟩ s (.drop (.retire 0 "org_acme" true))).isSome ∧ MayDrop ⟨7⟩ s "org_acme" := by
  have hstart : init (World.new 0) := ⟨0, rfl⟩
  obtain ⟨s, hs, hsome⟩ := exists_reachable hstart run_migrated
  obtain ⟨s', hdrop⟩ := Option.isSome_iff_exists.1 hsome
  exact ⟨s, hsome, collections_kept hs hdrop⟩

end Nacre.Collections
