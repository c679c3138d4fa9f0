/-
What a step can do to the names: who points at one, who has retired one, and
which flights are seen on one.

A flight is seen on a name in as many ways as somebody has to mind it
(`View`). Most steps only take flights on: `Quiet`. The others are the ones
`Moved` lists, each with what it found and what it wrote.
-/
import Nacre.Collections.System

namespace Nacre.Collections

open Nacre.Store (Time)

-- =================================================================== views

inductive View where
  /-- A copy that has asked for the owners of its target. -/
  | copies
  /-- A copy past `assertCollectionUnclaimed`: its target is being copied into. -/
  | copied
  /-- A provisioning that has asked for the owners of its name. -/
  | provisions
  /-- A row a sweep has in hand. -/
  | retires
  /-- One whose name was found in use by nobody. -/
  | unused
  deriving DecidableEq

def View.of : View → Flight → Option (OrgId × String)
  | .copies, .copy _ _ _ _ .no _ _ => none
  | .copies, .copy org _ _ target _ _ _ => some (org, target)
  | .copied, .copy org _ _ target .retirees _ _ => some (org, target)
  | .provisions, .provision _ _ .no _ => none
  | .provisions, .provision org name _ _ => some (org, name)
  | .retires, .retire org name _ => some (org, name)
  | .unused, .retire org name true => some (org, name)
  | _, _ => none

/-- Some flight is seen on this name for this organization. -/
def World.Shows (s : World) (view : View) (org : OrgId) (name : String) : Prop :=
  ∃ f ∈ s.flights, view.of f = some (org, name)

variable {cfg : Config} {s s' : World} {a : Action} {f g : Flight} {o : OrgId} {n : String}
  {view : View}

theorem copied_copies (h : s.Shows .copied o n) : s.Shows .copies o n := by
  obtain ⟨f, hf, hview⟩ := h
  refine ⟨f, hf, ?_⟩
  cases f with
  | copy org layer claim target asked cleared created =>
      cases asked with
      | no => cases hview
      | owners => cases hview
      | retirees => exact hview
  | provision | retire | forget => cases hview

theorem unused_retires (h : s.Shows .unused o n) : s.Shows .retires o n := by
  obtain ⟨f, hf, hview⟩ := h
  refine ⟨f, hf, ?_⟩
  cases f with
  | retire org name unused =>
      cases unused with
      | false => cases hview
      | true => exact hview
  | provision | copy | forget => cases hview

/-- Nothing is seen that was not. -/
def Calmer (s s' : World) : Prop := ∀ view o n, s'.Shows view o n → s.Shows view o n

/-- One thing is seen that was not. -/
def Gains (s s' : World) (kind : View) (o : OrgId) (n : String) : Prop :=
  ∀ view o' n', s'.Shows view o' n' → s.Shows view o' n' ∨ view = kind ∧ o' = o ∧ n' = n

theorem calmer_of_flights (h : ∀ f ∈ s'.flights, f ∈ s.flights) : Calmer s s' := by
  intro view o n hshows
  obtain ⟨f, hf, hview⟩ := hshows
  exact ⟨f, h f hf, hview⟩

theorem calmer_gone : Calmer s (s.swap f []) :=
  calmer_of_flights fun _ hg => List.mem_of_mem_erase hg

/-- A flight that is seen no better than the one it takes the place of. -/
theorem calmer_swap (hf : f ∈ s.flights)
    (hviews : ∀ view : View, view.of g = none ∨ view.of g = view.of f) :
    Calmer s (s.swap f [g]) := by
  intro view o n hshows
  obtain ⟨g', hg', hview⟩ := hshows
  rcases List.mem_append.1 hg' with hnew | hold
  · rw [List.mem_singleton.1 hnew] at hview
    rcases hviews view with hnone | hsame
    · rw [hnone] at hview
      cases hview
    · exact ⟨f, hf, hsame ▸ hview⟩
  · exact ⟨g', List.mem_of_mem_erase hold, hview⟩

/-- A flight that is seen in one more way. -/
theorem gains_swap {kind : View} (hf : f ∈ s.flights) (hkind : kind.of g = some (o, n))
    (hviews : ∀ view : View, view ≠ kind → view.of g = none ∨ view.of g = view.of f) :
    Gains s (s.swap f [g]) kind o n := by
  intro view o' n' hshows
  obtain ⟨g', hg', hview⟩ := hshows
  rcases List.mem_append.1 hg' with hnew | hold
  · rw [List.mem_singleton.1 hnew] at hview
    by_cases hsame : view = kind
    · subst hsame
      rw [hkind] at hview
      cases hview
      exact .inr ⟨rfl, rfl, rfl⟩
    · rcases hviews view hsame with hnone | hold
      · rw [hnone] at hview
        cases hview
      · exact .inl ⟨f, hf, hold ▸ hview⟩
  · exact .inl ⟨g', List.mem_of_mem_erase hold, hview⟩

theorem gains_put {kind : View} (hflights : s'.flights = g :: s.flights)
    (hkind : kind.of g = some (o, n)) (hviews : ∀ view : View, view ≠ kind → view.of g = none) :
    Gains s s' kind o n := by
  intro view o' n' hshows
  obtain ⟨g', hg', hview⟩ := hshows
  rw [hflights] at hg'
  rcases List.mem_cons.1 hg' with rfl | hold
  · by_cases hsame : view = kind
    · subst hsame
      rw [hkind] at hview
      cases hview
      exact .inr ⟨rfl, rfl, rfl⟩
    · rw [hviews view hsame] at hview
      cases hview
  · exact .inl ⟨g', hold, hview⟩

/-- A flight put in that is not seen yet. -/
theorem calmer_put (hflights : s'.flights = g :: s.flights) (hviews : ∀ view : View, view.of g = none) :
    Calmer s s' := by
  intro view o n hshows
  obtain ⟨f, hf, hview⟩ := hshows
  rw [hflights] at hf
  rcases List.mem_cons.1 hf with rfl | hold
  · rw [hviews view] at hview
    cases hview
  · exact ⟨f, hold, hview⟩

-- ============================================================ the pointers

theorem not_owned (h : s.owned o n = false) {g : Org} (hg : g ∈ s.orgs) (hname : g.collection = n) :
    g.id = o := by
  by_contra hne
  have htrue : s.owned o n = true :=
    List.any_eq_true.2 ⟨g, hg, by simp [hne, hname]⟩
  rw [h] at htrue
  cases htrue

theorem not_retiredBy (h : s.retiredBy o n = false) {r : Retired} (hr : r ∈ s.retired)
    (hname : r.name = n) : r.org = o := by
  by_contra hne
  have htrue : s.retiredBy o n = true :=
    List.any_eq_true.2 ⟨r, hr, by simp [hne, hname]⟩
  rw [h] at htrue
  cases htrue

def repoint (orgs : List Org) (o : OrgId) (n : String) : List Org :=
  orgs.map fun g => if g.id = o then { g with collection := n } else g

theorem mem_repoint {orgs : List Org} {g : Org} (h : g ∈ repoint orgs o n) :
    g.id = o ∧ g.collection = n ∨ g ∈ orgs ∧ g.id ≠ o := by
  obtain ⟨g', hg', rfl⟩ := List.mem_map.1 h
  by_cases hid : g'.id = o
  · rw [if_pos hid]
    exact .inl ⟨hid, rfl⟩
  · rw [if_neg hid]
    exact .inr ⟨hg', hid⟩

theorem ids_repoint (orgs : List Org) (o : OrgId) (n : String) :
    (repoint orgs o n).map Org.id = orgs.map Org.id := by
  unfold repoint
  rw [List.map_map]
  refine List.map_congr_left fun g _ => ?_
  show (if g.id = o then { g with collection := n } else g).id = g.id
  split <;> rfl

/-- The pointer of an organization moves: off the name its row `g` had. -/
structure Pointed (s s' : World) (o : OrgId) (n : String) (stamp : Time) (g : Org) : Prop where
  row : g ∈ s.orgs
  id : g.id = o
  free : s.owned o n = false
  orgs : s'.orgs = repoint s.orgs o n
  left : s'.left = if g.collection = n then s.left
    else Function.update s.left g.collection (some stamp)
  now : s'.now = s.now
  /-- The row of the name it moved off, unless the organization has one. -/
  retired : s'.retired = s.retired
    ∨ g.collection ≠ n ∧ s'.retired = retire s.retired ⟨o, g.collection, stamp⟩
  calmer : Calmer s s'

theorem point_pointed {stamp : Time} (h : s.point o n stamp = some s') :
    ∃ g, (s.orgs.find? fun g => g.id == o) = some g ∧ Pointed s s' o n stamp g
      ∧ s'.flights = s.flights ∧ s'.retired = s.retired := by
  unfold World.point at h
  split at h
  · cases h
  next g hg =>
    split at h
    · cases h
    next hfree =>
      cases h
      exact ⟨g, hg, ⟨List.mem_of_find?_eq_some hg, by simpa using List.find?_some hg,
        by simpa using hfree, rfl, rfl, rfl, .inl rfl, calmer_of_flights fun _ hf => hf⟩, rfl, rfl⟩

-- =============================================================== inversion

/-- Flights are taken on, given up or begun; rows go. -/
structure Quiet (s s' : World) : Prop where
  orgs : s'.orgs = s.orgs
  left : s'.left = s.left
  now : s.now ≤ s'.now
  retired : ∀ r ∈ s'.retired, r ∈ s.retired
  calmer : Calmer s s'

inductive Moved (cfg : Config) (s : World) : Action → World → Prop where
  | quiet {a : Action} {s' : World} (h : Quiet s s') : Moved cfg s a s'
  /-- A new organization's row. -/
  | inserted {slug : String} {id : OrgId} {s' : World} (hslug : ∀ g ∈ s.orgs, g.slug ≠ slug) (hid : ∀ g ∈ s.orgs, g.id ≠ id)
      (hname : ∀ g ∈ s.orgs, g.collection ≠ collectionName slug)
      (horgs : s'.orgs = ⟨id, slug, collectionName slug⟩ :: s.orgs) (hleft : s'.left = s.left)
      (hnow : s'.now = s.now) (hretired : s'.retired = s.retired) (hcalm : Calmer s s') :
      Moved cfg s (.provision slug id) s'
  /-- No other organization has the name that is asked about. -/
  | unowned {f : Flight} {kind : View} {o : OrgId} {n : String} {s' : World}
      (hkind : kind = View.copies ∧ (∃ layer claim asked cleared created,
          f = .copy o layer claim n asked cleared created)
        ∨ kind = .provisions ∧ ∃ asked absent, f = .provision o n asked absent)
      (hfree : s.owned o n = false) (horgs : s'.orgs = s.orgs) (hleft : s'.left = s.left)
      (hnow : s'.now = s.now) (hretired : s'.retired = s.retired) (hgains : Gains s s' kind o n) :
      Moved cfg s (.askOwners f) s'
  /-- Nor has it retired the target of a copy. -/
  | unretired {f : Flight} {o : OrgId} {layer : LayerId} {claim : Nat} {n : String} {asked : Asked}
      {cleared created : Bool} {s' : World}
      (hf : f = .copy o layer claim n asked cleared created)
      (hfree : s.retiredBy o n = false) (horgs : s'.orgs = s.orgs) (hleft : s'.left = s.left)
      (hnow : s'.now = s.now) (hretired : s'.retired = s.retired)
      (hgains : Gains s s' .copied o n) : Moved cfg s (.askRetirees f) s'
  /-- A copy is finished. -/
  | finished {f : Flight} {o : OrgId} {layer : LayerId} {claim : Nat} {n : String} {asked : Asked}
      {cleared created : Bool} {stamp : Time} {g : Org} {s' : World}
      (hf : f = .copy o layer claim n asked cleared created) (hshows : s.Shows .copied o n)
      (hpointed : Pointed s s' o n stamp g) : Moved cfg s (.finishCopy f stamp) s'
  | rolledBack {o : OrgId} {n : String} {layer : LayerId} {stamp : Time} {g : Org} {s' : World}
      (hpointed : Pointed s s' o n stamp g) :
      Moved cfg s (.rollback o n layer stamp) s'
  /-- A sweep takes up a row whose window is over. -/
  | due {row : Retired} {s' : World} (hrow : row ∈ s.retired) (hdue : row.retiredAt + cfg.retention < s.now)
      (horgs : s'.orgs = s.orgs) (hleft : s'.left = s.left) (hnow : s'.now = s.now)
      (hretired : s'.retired = s.retired) (hgains : Gains s s' .retires row.org row.name) :
      Moved cfg s (.due row) s'
  /-- It finds the name in use by nobody. -/
  | unused {f : Flight} {o : OrgId} {n : String} {s' : World} (hlive : ∀ g ∈ s.orgs, g.collection ≠ n) (horgs : s'.orgs = s.orgs)
      (hleft : s'.left = s.left) (hnow : s'.now = s.now) (hretired : s'.retired = s.retired)
      (hgains : Gains s s' .unused o n) : Moved cfg s (.isLive f) s'

theorem quiet_gone : Quiet s (s.swap f []) :=
  ⟨rfl, rfl, le_rfl, fun _ hr => hr, calmer_gone⟩

theorem quiet_swap (hf : f ∈ s.flights)
    (hviews : ∀ view : View, view.of g = none ∨ view.of g = view.of f) : Quiet s (s.swap f [g]) :=
  ⟨rfl, rfl, le_rfl, fun _ hr => hr, calmer_swap hf hviews⟩

/-- Other fields than the ones that are minded. -/
theorem Quiet.congr {s₁ : World} (h : Quiet s s₁) (horgs : s'.orgs = s₁.orgs)
    (hleft : s'.left = s₁.left) (hnow : s'.now = s₁.now) (hretired : ∀ r ∈ s'.retired, r ∈ s₁.retired)
    (hflights : s'.flights = s₁.flights) : Quiet s s' :=
  ⟨horgs.trans h.orgs, hleft.trans h.left, hnow ▸ h.now, fun r hr => h.retired r (hretired r hr),
    fun view o n hshows => h.calmer view o n (by
      unfold World.Shows at hshows ⊢
      rwa [hflights] at hshows)⟩

theorem step_flight (h : step cfg s a = some s') (hf : a.flight = some f) : f ∈ s.flights := by
  unfold step at h
  split at h
  · cases h
  next hin =>
    rw [hf] at hin
    simpa using hin

theorem provision_moved {slug : String} {id : OrgId} (h : provision s slug id = some s') :
    Moved cfg s (.provision slug id) s' := by
  unfold provision at h
  split at h
  · cases h
  · dsimp only at h
    split at h
    · cases h
      refine .quiet ⟨rfl, rfl, le_rfl, fun _ hr => hr, calmer_put rfl fun view => ?_⟩
      cases view <;> rfl
    next hnew =>
      split at h
      · cases h
      next hid =>
        split at h
        · cases h
        next hname =>
          cases h
          refine .inserted (by simpa using List.find?_eq_none.1 hnew) (by simpa using hid)
            (by simpa using hname) rfl rfl rfl rfl (calmer_put rfl fun view => ?_)
          cases view <;> rfl

theorem askOwners_moved (hf : f ∈ s.flights) (h : askOwners s f = some s') :
    Moved cfg s (.askOwners f) s' := by
  unfold askOwners at h
  split at h
  next org name =>
    obtain rfl := Option.some.inj h
    split
    · exact .quiet quiet_gone
    next hfree =>
      refine .unowned (.inr ⟨rfl, _, _, rfl⟩) (Bool.eq_false_iff.2 hfree) rfl rfl rfl rfl
        (gains_swap hf rfl fun view hview => ?_)
      cases view <;> first | exact .inl rfl | exact absurd rfl hview
  next org layer claim target =>
    obtain rfl := Option.some.inj h
    split
    · exact .quiet quiet_gone
    next hfree =>
      refine .unowned (.inl ⟨rfl, _, _, _, _, _, rfl⟩) (Bool.eq_false_iff.2 hfree) rfl rfl rfl rfl
        (gains_swap hf rfl fun view hview => ?_)
      cases view <;> first | exact .inl rfl | exact absurd rfl hview
  next => cases h

theorem askRetirees_moved (hf : f ∈ s.flights) (h : askRetirees s f = some s') :
    Moved cfg s (.askRetirees f) s' := by
  unfold askRetirees at h
  split at h
  next org name =>
    obtain rfl := Option.some.inj h
    split
    · exact .quiet quiet_gone
    · refine .quiet (quiet_swap hf fun view => ?_)
      cases view <;> first | exact .inl rfl | exact .inr rfl
  next org layer claim target =>
    obtain rfl := Option.some.inj h
    split
    · exact .quiet quiet_gone
    next hfree =>
      refine .unretired rfl (Bool.eq_false_iff.2 hfree) rfl rfl rfl rfl
        (gains_swap hf rfl fun view hview => ?_)
      cases view <;> first | exact .inl rfl | exact .inr rfl | exact absurd rfl hview
  next => cases h

theorem look_moved (hf : f ∈ s.flights) (h : look s f = some s') : Quiet s s' := by
  unfold look at h
  split at h
  · obtain rfl := Option.some.inj h
    split
    · exact quiet_gone
    · refine quiet_swap hf fun view => ?_
      cases view <;> first | exact .inl rfl | exact .inr rfl
  · cases h

theorem create_moved (h : create s f = some s') : Quiet s s' := by
  unfold create at h
  split at h
  · obtain rfl := Option.some.inj h
    split
    · exact quiet_gone
    · exact quiet_gone.congr rfl rfl rfl (fun _ hr => hr) rfl
  · cases h

theorem clear_moved (hf : f ∈ s.flights) (h : clear s f = some s') : Quiet s s' := by
  unfold clear at h
  split at h
  next org layer claim target =>
    obtain rfl := Option.some.inj h
    have hswap : Quiet s (s.swap (.copy org layer claim target .retirees false false)
        [.copy org layer claim target .retirees true false]) := by
      refine quiet_swap hf fun view => ?_
      cases view <;> first | exact .inl rfl | exact .inr rfl
    exact hswap.congr rfl rfl rfl (fun _ hr => hr) rfl
  · cases h

theorem recreate_moved (hf : f ∈ s.flights) (h : recreate s f = some s') : Quiet s s' := by
  unfold recreate at h
  split at h
  next org layer claim target =>
    obtain rfl := Option.some.inj h
    split
    · exact quiet_gone
    · have hswap : Quiet s (s.swap (.copy org layer claim target .retirees true false)
          [.copy org layer claim target .retirees true true]) := by
        refine quiet_swap hf fun view => ?_
        cases view <;> first | exact .inl rfl | exact .inr rfl
      exact hswap.congr rfl rfl rfl (fun _ hr => hr) rfl
  · cases h

theorem upsert_moved (h : upsert s f = some s') : Quiet s s' := by
  unfold upsert at h
  split at h
  · obtain rfl := Option.some.inj h
    split
    · exact ⟨rfl, rfl, le_rfl, fun _ hr => hr, fun _ _ _ hshows => hshows⟩
    · exact quiet_gone
  · cases h

theorem failReindex_moved (h : failReindex s f = some s') : Quiet s s' := by
  unfold failReindex at h
  split at h
  · obtain rfl := Option.some.inj h
    exact quiet_gone.congr rfl rfl rfl (fun _ hr => hr) rfl
  · cases h

theorem isLive_moved (hf : f ∈ s.flights) (h : isLive s f = some s') :
    Moved cfg s (.isLive f) s' := by
  unfold isLive at h
  split at h
  next org name =>
    obtain rfl := Option.some.inj h
    split
    · refine .quiet (quiet_swap hf fun view => ?_)
      cases view <;> exact .inl rfl
    next hlive =>
      refine .unused (by simpa using hlive) rfl rfl rfl rfl (gains_swap hf rfl fun view hview => ?_)
      cases view <;> first | exact .inl rfl | exact .inr rfl | exact absurd rfl hview
  next => cases h

theorem drop_moved (hf : f ∈ s.flights) (h : drop s f = some s') : Quiet s s' := by
  unfold drop at h
  split at h
  next org name =>
    obtain rfl := Option.some.inj h
    have hswap : Quiet s (s.swap (.retire org name true) [.forget org name]) := by
      refine quiet_swap hf fun view => ?_
      cases view <;> exact .inl rfl
    exact hswap.congr rfl rfl rfl (fun _ hr => hr) rfl
  · cases h

theorem forget_moved (h : forget s f = some s') : Quiet s s' := by
  unfold forget at h
  split at h
  · obtain rfl := Option.some.inj h
    exact quiet_gone.congr rfl rfl rfl (fun _ hr => (List.mem_filter.1 hr).1) rfl
  · cases h

theorem finishCopy_moved {stamp : Time} (hf : f ∈ s.flights)
    (h : finishCopy s stamp f = some s') : Moved cfg s (.finishCopy f stamp) s' := by
  unfold finishCopy at h
  split at h
  next org layer claim target =>
    split at h
    · cases h
    · split at h
      · split at h
        · cases h
        next g hg =>
          split at h
          · cases h
            exact .quiet quiet_gone
          next s₁ hpoint =>
            cases h
            obtain ⟨g', hfind, hpointed, hflights, hretired⟩ := point_pointed hpoint
            rw [hg] at hfind
            cases hfind
            refine .finished rfl ⟨_, hf, rfl⟩ ⟨hpointed.row, hpointed.id, hpointed.free,
              hpointed.orgs, hpointed.left, hpointed.now, ?_, calmer_of_flights fun f hf => ?_⟩
            · by_cases hsame : g.collection = target
              · exact .inl (if_pos hsame)
              · exact .inr ⟨hsame, if_neg hsame⟩
            · rw [← hflights]
              exact List.mem_of_mem_erase hf
      · cases h
        exact .quiet quiet_gone
  next => cases h

/-- What a step can do. -/
theorem step_moved (hstep : step cfg s a = some s') : Moved cfg s a s' := by
  have hin : ∀ {f}, a.flight = some f → f ∈ s.flights := step_flight hstep
  unfold step at hstep
  split at hstep
  · cases hstep
  cases a with
  | wait d =>
      cases hstep
      exact .quiet ⟨rfl, rfl, Nat.le_add_right _ _, fun _ hr => hr, fun _ _ _ h => h⟩
  | provision slug id => exact provision_moved hstep
  | reindex org layer model dimensions =>
      dsimp only at hstep
      split at hstep
      · cases hstep
      · cases hstep
        exact .quiet ⟨rfl, rfl, le_rfl, fun _ hr => hr, fun _ _ _ h => h⟩
  | claimCopy org layer =>
      dsimp only [claimCopy] at hstep
      split at hstep
      · cases hstep
        refine .quiet ⟨rfl, rfl, le_rfl, fun _ hr => hr, calmer_put rfl fun view => ?_⟩
        cases view <;> rfl
      · cases hstep
  | askOwners f => exact askOwners_moved (hin rfl) hstep
  | askRetirees f => exact askRetirees_moved (hin rfl) hstep
  | look f => exact .quiet (look_moved (hin rfl) hstep)
  | create f => exact .quiet (create_moved hstep)
  | clear f => exact .quiet (clear_moved (hin rfl) hstep)
  | recreate f => exact .quiet (recreate_moved (hin rfl) hstep)
  | upsert f => exact .quiet (upsert_moved hstep)
  | finishCopy f stamp => exact finishCopy_moved (hin rfl) hstep
  | failReindex f => exact .quiet (failReindex_moved hstep)
  | due row =>
      dsimp only at hstep
      split at hstep
      next hdue =>
        cases hstep
        rw [Bool.and_eq_true, List.contains_iff_mem, decide_eq_true_eq] at hdue
        refine .due hdue.1 hdue.2 rfl rfl rfl rfl (gains_put rfl rfl fun view hview => ?_)
        cases view <;> first | rfl | exact absurd rfl hview
      · cases hstep
  | isLive f => exact isLive_moved (hin rfl) hstep
  | drop f => exact .quiet (drop_moved (hin rfl) hstep)
  | forget f => exact .quiet (forget_moved hstep)
  | crash f =>
      cases hstep
      exact .quiet quiet_gone
  | rollback org name layer stamp =>
      dsimp only at hstep
      split at hstep
      · cases hstep
      · split at hstep
        · obtain ⟨s₁, hpoint, rfl⟩ := Option.map_eq_some_iff.1 hstep
          obtain ⟨g, -, hpointed, hflights, hretired⟩ := point_pointed hpoint
          exact .rolledBack ⟨hpointed.row, hpointed.id, hpointed.free, hpointed.orgs, hpointed.left,
            hpointed.now, .inl hretired, calmer_of_flights fun f hf => hflights ▸ hf⟩
        · cases hstep

end Nacre.Collections
