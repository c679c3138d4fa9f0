/-
One organization's collections are not another's.

`assertCollectionUnclaimed` looks for the name in what is recorded: the
pointers and the retired rows. The target of a copy is recorded nowhere until
the copy is finished, and neither is the name of a provisioning that has
moved on, or that of a row a sweep has in hand. So a name that another
organization comes to between the question and what it was asked for is not
seen: a slug such as `acme-v-bge-m3-1024` is provisioned while `acme` copies
onto `bge-m3` at 1024 (`provisioned_into_copy`).

`Apart` is the condition: nobody takes up a name that somebody else, having
asked, is about to act on. It is asked where a name is taken up: at the insert
of a row, at a rollback, and at the two questions themselves.

# The invariant

`Held` has, for each kind of flight that has asked, what the question found:
no other pointer, no other retired row, no other flight on the name. What the
index gives, that no two rows have one name, holds in every run (`Distinct`).
-/
import Nacre.Collections.Moves

namespace Nacre.Collections

open Transition

-- ================================================================ contract

/-- What an action does to a collection, and for whom: a deletion, a write or
an adoption. -/
def touches (s : World) : Action → Option (OrgId × String)
  | .look (.provision org name .retirees false) =>
      if s.qdrant.contains name then some (org, name) else none
  | .create (.provision org name .retirees true) =>
      if s.qdrant.contains name then none else some (org, name)
  | .clear (.copy org _ _ target .retirees false false) => some (org, target)
  | .recreate (.copy org _ _ target .retirees true false) => some (org, target)
  | .upsert (.copy org _ _ target .retirees true true) => some (org, target)
  | .drop (.retire org name true) => some (org, name)
  | _ => none

/-- The name is another organization's: its row has it, or it is being copied
into. -/
def Elsewhere (s : World) (org : OrgId) (name : String) : Prop :=
  (∃ g ∈ s.orgs, g.id ≠ org ∧ g.collection = name)
    ∨ ∃ f ∈ s.flights, ∃ seen ∈ View.copied.of f, seen.1 ≠ org ∧ seen.2 = name

instance (s : World) (org : OrgId) (name : String) : Decidable (Elsewhere s org name) :=
  inferInstanceAs (Decidable (_ ∨ _))

/-- No two rows have one name. -/
structure Distinct (s : World) : Prop where
  ids : (s.orgs.map Org.id).Nodup
  names : ∀ g ∈ s.orgs, ∀ g' ∈ s.orgs, g.collection = g'.collection → g.id = g'.id

/-- Nobody else is seen on this name. -/
def World.Clear (s : World) (view : View) (org : OrgId) (name : String) : Prop :=
  ∀ f ∈ s.flights, ∀ seen ∈ view.of f, seen.2 = name → seen.1 = org

instance (s : World) (view : View) (org : OrgId) (name : String) :
    Decidable (s.Clear view org name) :=
  inferInstanceAs (Decidable (∀ f ∈ s.flights, ∀ seen ∈ view.of f, seen.2 = name → seen.1 = org))

/-- Nobody else has asked about the name and not acted yet. -/
def Untaken (s : World) (org : OrgId) (name : String) : Prop :=
  s.Clear .copies org name ∧ s.Clear .provisions org name ∧ s.Clear .unused org name

/-- A name is taken up only where nobody else is about to act on it. -/
def Apart (s : World) : Action → Prop
  | .provision slug id => (∃ g ∈ s.orgs, g.slug = slug) ∨ Untaken s id (collectionName slug)
  | .rollback org name _ _ => Untaken s org name
  | .askOwners (.copy org _ _ target _ _ _) =>
      s.Clear .copies org target ∧ s.Clear .provisions org target
  | .askOwners (.provision org name _ _) => s.Clear .copies org name
  | .askRetirees (.copy org _ _ target _ _ _) => s.Clear .retires org target
  | _ => True

instance (s : World) (org : OrgId) (name : String) : Decidable (Untaken s org name) :=
  inferInstanceAs (Decidable (_ ∧ _ ∧ _))

instance (s : World) (a : Action) : Decidable (Apart s a) := by
  unfold Apart
  split <;> infer_instance

-- =============================================================== invariant

structure Held (s : World) : Prop extends Distinct s where
  copy_owner : ∀ {o n}, s.Shows .copies o n → ∀ g ∈ s.orgs, g.collection = n → g.id = o
  copy_copy : ∀ {o o' n}, s.Shows .copies o n → s.Shows .copies o' n → o' = o
  copy_provision : ∀ {o o' n}, s.Shows .copies o n → s.Shows .provisions o' n → o' = o
  copied_retired : ∀ {o n}, s.Shows .copied o n → ∀ r ∈ s.retired, r.name = n → r.org = o
  copied_due : ∀ {o o' n}, s.Shows .copied o n → s.Shows .retires o' n → o' = o
  provision_owner : ∀ {o n}, s.Shows .provisions o n → ∀ g ∈ s.orgs, g.collection = n → g.id = o
  unused_owner : ∀ {o n}, s.Shows .unused o n → ∀ g ∈ s.orgs, g.collection = n → g.id = o

variable {cfg : Config} {s s' : World} {a : Action} {f : Flight} {o o' : OrgId} {n : String}
  {view kind : View}

theorem World.Clear.eq (h : s.Clear view o n) (hshows : s.Shows view o' n) : o' = o := by
  obtain ⟨f, hf, hview⟩ := hshows
  exact h f hf _ hview rfl

/-- What was found on a name, for what is seen on it from now on. -/
def Found (s : World) (o : OrgId) (n : String) : View → Prop
  | .copies => (∀ g ∈ s.orgs, g.collection = n → g.id = o)
      ∧ s.Clear .copies o n ∧ s.Clear .provisions o n
  | .copied => (∀ r ∈ s.retired, r.name = n → r.org = o) ∧ s.Clear .retires o n
  | .provisions => (∀ g ∈ s.orgs, g.collection = n → g.id = o) ∧ s.Clear .copies o n
  | .retires => s.Clear .copied o n
  | .unused => ∀ g ∈ s.orgs, g.collection = n → g.id = o

/-- One flight is seen in one more way, after what was found. -/
theorem Held.gains (h : Held s) (horgs : s'.orgs = s.orgs) (hretired : s'.retired = s.retired)
    (hgains : Gains s s' kind o n) (hfound : Found s o n kind) : Held s' where
  ids := horgs ▸ h.ids
  names := horgs ▸ h.names
  copy_owner hc g hg hname := by
    rw [horgs] at hg
    rcases hgains _ _ _ hc with hold | ⟨rfl, rfl, rfl⟩
    · exact h.copy_owner hold g hg hname
    · exact hfound.1 g hg hname
  copy_copy hc hc' := by
    rcases hgains _ _ _ hc with hold | ⟨rfl, rfl, rfl⟩ <;>
      rcases hgains _ _ _ hc' with hold' | ⟨hkind, rfl, hname⟩
    · exact h.copy_copy hold hold'
    · subst hkind
      subst hname
      exact (hfound.2.1.eq hold).symm
    · exact hfound.2.1.eq hold'
    · rfl
  copy_provision hc hp := by
    rcases hgains _ _ _ hc with hold | ⟨rfl, rfl, rfl⟩ <;>
      rcases hgains _ _ _ hp with hold' | ⟨hkind, rfl, hname⟩
    · exact h.copy_provision hold hold'
    · subst hkind
      subst hname
      exact (hfound.2.eq hold).symm
    · exact hfound.2.2.eq hold'
    · cases hkind
  copied_retired hc r hr hname := by
    rw [hretired] at hr
    rcases hgains _ _ _ hc with hold | ⟨rfl, rfl, rfl⟩
    · exact h.copied_retired hold r hr hname
    · exact hfound.1 r hr hname
  copied_due hc hr := by
    rcases hgains _ _ _ hc with hold | ⟨rfl, rfl, rfl⟩ <;>
      rcases hgains _ _ _ hr with hold' | ⟨hkind, rfl, hname⟩
    · exact h.copied_due hold hold'
    · subst hkind
      subst hname
      exact (World.Clear.eq (s := s) hfound hold).symm
    · exact hfound.2.eq hold'
    · cases hkind
  provision_owner hp g hg hname := by
    rw [horgs] at hg
    rcases hgains _ _ _ hp with hold | ⟨rfl, rfl, rfl⟩
    · exact h.provision_owner hold g hg hname
    · exact hfound.1 g hg hname
  unused_owner hu g hg hname := by
    rw [horgs] at hg
    rcases hgains _ _ _ hu with hold | ⟨rfl, rfl, rfl⟩
    · exact h.unused_owner hold g hg hname
    · exact hfound g hg hname

/-- The pointers change by one, which comes to a name that nobody else has
asked about; the row that may be written is of the name it moved off. -/
theorem Held.points (h : Held s) (hdistinct : Distinct s') (huntaken : Untaken s o n)
    (horgs : ∀ g ∈ s'.orgs, g ∈ s.orgs ∨ g.id = o ∧ g.collection = n)
    (hretired : ∀ r ∈ s'.retired, r ∈ s.retired
      ∨ ∃ g ∈ s.orgs, g.id = r.org ∧ g.collection = r.name)
    (hcalm : Calmer s s') : Held s' where
  toDistinct := hdistinct
  copy_owner hc g hg hname := by
    rcases horgs g hg with hold | ⟨hid, rfl⟩
    · exact h.copy_owner (hcalm _ _ _ hc) g hold hname
    · subst hname
      exact hid.trans (huntaken.1.eq (hcalm _ _ _ hc)).symm
  copy_copy hc hc' := h.copy_copy (hcalm _ _ _ hc) (hcalm _ _ _ hc')
  copy_provision hc hp := h.copy_provision (hcalm _ _ _ hc) (hcalm _ _ _ hp)
  copied_retired hc r hr hname := by
    rcases hretired r hr with hold | ⟨g, hg, hid, hcollection⟩
    · exact h.copied_retired (hcalm _ _ _ hc) r hold hname
    · rw [← hid]
      exact h.copy_owner (copied_copies (hcalm _ _ _ hc)) g hg (hcollection.trans hname)
  copied_due hc hr := h.copied_due (hcalm _ _ _ hc) (hcalm _ _ _ hr)
  provision_owner hp g hg hname := by
    rcases horgs g hg with hold | ⟨hid, rfl⟩
    · exact h.provision_owner (hcalm _ _ _ hp) g hold hname
    · subst hname
      exact hid.trans (huntaken.2.1.eq (hcalm _ _ _ hp)).symm
  unused_owner hu g hg hname := by
    rcases horgs g hg with hold | ⟨hid, rfl⟩
    · exact h.unused_owner (hcalm _ _ _ hu) g hold hname
    · subst hname
      exact hid.trans (huntaken.2.2.eq (hcalm _ _ _ hu)).symm

theorem Held.quiet (h : Held s) (hquiet : Quiet s s') : Held s' where
  ids := hquiet.orgs ▸ h.ids
  names := hquiet.orgs ▸ h.names
  copy_owner hc := hquiet.orgs ▸ h.copy_owner (hquiet.calmer _ _ _ hc)
  copy_copy hc hc' := h.copy_copy (hquiet.calmer _ _ _ hc) (hquiet.calmer _ _ _ hc')
  copy_provision hc hp := h.copy_provision (hquiet.calmer _ _ _ hc) (hquiet.calmer _ _ _ hp)
  copied_retired hc r hr := h.copied_retired (hquiet.calmer _ _ _ hc) r (hquiet.retired r hr)
  copied_due hc hr := h.copied_due (hquiet.calmer _ _ _ hc) (hquiet.calmer _ _ _ hr)
  provision_owner hp := hquiet.orgs ▸ h.provision_owner (hquiet.calmer _ _ _ hp)
  unused_owner hu := hquiet.orgs ▸ h.unused_owner (hquiet.calmer _ _ _ hu)

/-- The index keeps the names apart. -/
theorem Distinct.repoint (h : Distinct s) (hfree : s.owned o n = false)
    (horgs : s'.orgs = repoint s.orgs o n) : Distinct s' where
  ids := by
    rw [horgs, ids_repoint]
    exact h.ids
  names g hg g' hg' heq := by
    rw [horgs] at hg hg'
    rcases mem_repoint hg with ⟨hid, hname⟩ | ⟨hmem, hid⟩ <;>
      rcases mem_repoint hg' with ⟨hid', hname'⟩ | ⟨hmem', hid'⟩
    · rw [hid, hid']
    · exact absurd (not_owned hfree hmem' (heq ▸ hname)) hid'
    · exact absurd (not_owned hfree hmem (heq.trans hname')) hid
    · exact h.names g hmem g' hmem' heq

theorem Held.pointed {stamp : Store.Time} {g : Org} (h : Held s)
    (hpointed : Pointed s s' o n stamp g) (huntaken : Untaken s o n) : Held s' := by
  refine h.points (h.toDistinct.repoint hpointed.free hpointed.orgs) huntaken (fun g' hg' => ?_)
    (fun r hr => ?_) hpointed.calmer
  · rw [hpointed.orgs] at hg'
    rcases mem_repoint hg' with hnew | hold
    · exact .inr hnew
    · exact .inl hold.1
  · rcases hpointed.retired with hsame | ⟨-, hretire⟩
    · exact .inl (hsame ▸ hr)
    · rw [hretire] at hr
      unfold retire at hr
      split at hr
      · exact .inl hr
      · rcases List.mem_cons.1 hr with rfl | hold
        · exact .inr ⟨g, hpointed.row, hpointed.id, rfl⟩
        · exact .inl hold

/-- A copy that finishes has found nobody else on its target. -/
theorem Held.untaken (h : Held s) (hshows : s.Shows .copied o n) : Untaken s o n := by
  refine ⟨fun f hf seen hseen hname => ?_, fun f hf seen hseen hname => ?_,
    fun f hf seen hseen hname => ?_⟩ <;> subst hname
  · exact h.copy_copy (copied_copies hshows) ⟨f, hf, hseen⟩
  · exact h.copy_provision (copied_copies hshows) ⟨f, hf, hseen⟩
  · exact h.copied_due hshows (unused_retires ⟨f, hf, hseen⟩)

theorem held_step (h : Held s) (hok : Apart s a) (hstep : step cfg s a = some s') : Held s' := by
  cases step_moved hstep with
  | quiet hquiet => exact h.quiet hquiet
  | @inserted slug id _ hslug hid hname horgs hleft hnow hretired hcalm =>
      have huntaken : Untaken s id (collectionName slug) := by
        rcases hok with ⟨g, hg, hs⟩ | huntaken
        · exact absurd hs (hslug g hg)
        · exact huntaken
      refine h.points ⟨?_, fun g hg g' hg' heq => ?_⟩ huntaken (fun g hg => ?_)
        (fun r hr => .inl (hretired ▸ hr)) hcalm
      · rw [horgs, List.map_cons, List.nodup_cons]
        refine ⟨fun hin => ?_, h.ids⟩
        obtain ⟨g, hg, hgid⟩ := List.mem_map.1 hin
        exact hid g hg hgid
      · rw [horgs] at hg hg'
        rcases List.mem_cons.1 hg with rfl | hold <;> rcases List.mem_cons.1 hg' with rfl | hold'
        · rfl
        · exact absurd heq.symm (hname g' hold')
        · exact absurd heq (hname g hold)
        · exact h.names g hold g' hold' heq
      · rw [horgs] at hg
        rcases List.mem_cons.1 hg with rfl | hold
        · exact .inr ⟨rfl, rfl⟩
        · exact .inl hold
  | unowned hkind hfree horgs hleft hnow hretired hgains =>
      rcases hkind with ⟨rfl, layer, claim, asked, cleared, created, rfl⟩ | ⟨rfl, asked, absent, rfl⟩
      · exact h.gains horgs hretired hgains ⟨fun g hg hn => not_owned hfree hg hn, hok.1, hok.2⟩
      · exact h.gains horgs hretired hgains ⟨fun g hg hn => not_owned hfree hg hn, hok⟩
  | unretired hf hfree horgs hleft hnow hretired hgains =>
      subst hf
      exact h.gains horgs hretired hgains ⟨fun r hr hn => not_retiredBy hfree hr hn, hok⟩
  | finished hf hshows hpointed => exact h.pointed hpointed (h.untaken hshows)
  | rolledBack hpointed => exact h.pointed hpointed hok
  | @due row _ hrow hdue horgs hleft hnow hretired hgains =>
      refine h.gains horgs hretired hgains fun f hf seen hseen hname => ?_
      exact (h.copied_retired ⟨f, hf, hseen⟩ row hrow hname.symm).symm
  | unused hlive horgs hleft hnow hretired hgains =>
      exact h.gains horgs hretired hgains fun g hg hn => absurd hn (hlive g hg)

theorem held_init (h : init s) : Held s := by
  obtain ⟨now, rfl⟩ := h
  have hnone : ∀ {view : View} {o n}, ¬ (World.new now).Shows view o n := by
    intro view o n hshows
    obtain ⟨f, hf, -⟩ := hshows
    cases hf
  exact ⟨⟨.nil, nofun⟩, fun hc => absurd hc hnone, fun hc => absurd hc hnone,
    fun hc => absurd hc hnone, fun hc => absurd hc hnone, fun hc => absurd hc hnone,
    fun hc => absurd hc hnone, fun hc => absurd hc hnone⟩

-- ================================================================= the runs

/-- An action on a collection finds the name nobody else's. -/
theorem touched_own (h : Held s) (hstep : step cfg s a = some s') {org : OrgId} {name : String}
    (htouch : touches s a = some (org, name)) : ¬ Elsewhere s org name := by
  have hin : ∀ {f}, a.flight = some f → f ∈ s.flights := step_flight hstep
  have hcopy : s.Shows .copied org name → ¬ Elsewhere s org name := by
    intro hc helse
    rcases helse with ⟨g, hg, hid, hname⟩ | ⟨f, hf, seen, hseen, hid, hname⟩
    · exact hid (h.copy_owner (copied_copies hc) g hg hname)
    · subst hname
      exact hid (h.copy_copy (copied_copies hc) (copied_copies ⟨f, hf, hseen⟩))
  have hprovision : s.Shows .provisions org name → ¬ Elsewhere s org name := by
    intro hp helse
    rcases helse with ⟨g, hg, hid, hname⟩ | ⟨f, hf, seen, hseen, hid, hname⟩
    · exact hid (h.provision_owner hp g hg hname)
    · subst hname
      exact hid (h.copy_provision (copied_copies ⟨f, hf, hseen⟩) hp).symm
  have hunused : s.Shows .unused org name → ¬ Elsewhere s org name := by
    intro hu helse
    rcases helse with ⟨g, hg, hid, hname⟩ | ⟨f, hf, seen, hseen, hid, hname⟩
    · exact hid (h.unused_owner hu g hg hname)
    · subst hname
      exact hid (h.copied_due ⟨f, hf, hseen⟩ (unused_retires hu)).symm
  unfold touches at htouch
  split at htouch
  · split at htouch
    · cases htouch
      exact hprovision ⟨_, hin rfl, rfl⟩
    · cases htouch
  · split at htouch
    · cases htouch
    · cases htouch
      exact hprovision ⟨_, hin rfl, rfl⟩
  · cases htouch
    exact hcopy ⟨_, hin rfl, rfl⟩
  · cases htouch
    exact hcopy ⟨_, hin rfl, rfl⟩
  · cases htouch
    exact hcopy ⟨_, hin rfl, rfl⟩
  · cases htouch
    exact hunused ⟨_, hin rfl, rfl⟩
  · cases htouch

/-- Where names are taken up apart, no collection is deleted, written into or
adopted for one organization while it is another's, and no two organizations
have one. -/
theorem collections_held (hs : Reachable (step cfg) Apart init s) :
    Distinct s ∧ ∀ a s' org name, Apart s a → step cfg s a = some s' →
      touches s a = some (org, name) → ¬ Elsewhere s org name := by
  have hheld : Held s := hs.invariant (fun _ => held_init) fun _ _ _ h hok => held_step h hok
  exact ⟨hheld.toDistinct, fun a s' org name _ hstep htouch => touched_own hheld hstep htouch⟩

/-- `acme` is provisioned, and starts to copy onto `bge-m3` at 1024. -/
def copyingActions : List Action :=
  let name := "org_acme"
  let target := "org_acme_v_bge_m3_1024"
  [.provision "acme" 0, .askOwners (.provision 0 name .no false),
    .askRetirees (.provision 0 name .owners false), .look (.provision 0 name .retirees false),
    .create (.provision 0 name .retirees true), .reindex 0 7 "bge-m3" 1024, .claimCopy 0 7,
    .askOwners (.copy 0 7 0 target .no false false),
    .askRetirees (.copy 0 7 0 target .owners false false)]

def collidingActions : List Action :=
  copyingActions ++ [.provision "acme-v-bge-m3-1024" 1]

theorem run_colliding : (runWithin (step ⟨7⟩) anyStep (World.new 0) collidingActions).any (fun s =>
    decide (touches s (.clear (.copy 0 7 0 "org_acme_v_bge_m3_1024" .retirees false false))
        = some (0, "org_acme_v_bge_m3_1024")
      ∧ (step ⟨7⟩ s (.clear (.copy 0 7 0 "org_acme_v_bge_m3_1024" .retirees false false))).isSome
      ∧ Elsewhere s 0 "org_acme_v_bge_m3_1024")) = true := by
  decide +kernel

/-- An organization is provisioned under the name another has begun to copy
into, after that one asked: the copy deletes and fills its collection. -/
theorem provisioned_into_copy :
    ∃ s, Reachable (step ⟨7⟩) anyStep init s
      ∧ touches s (.clear (.copy 0 7 0 "org_acme_v_bge_m3_1024" .retirees false false))
          = some (0, "org_acme_v_bge_m3_1024")
      ∧ (step ⟨7⟩ s (.clear (.copy 0 7 0 "org_acme_v_bge_m3_1024" .retirees false false))).isSome
      ∧ Elsewhere s 0 "org_acme_v_bge_m3_1024" :=
  exists_reachable ⟨0, rfl⟩ run_colliding

theorem run_copying : (runWithin (step ⟨7⟩) Apart (World.new 0) copyingActions).any (fun s =>
    decide (touches s (.clear (.copy 0 7 0 "org_acme_v_bge_m3_1024" .retirees false false))
        = some (0, "org_acme_v_bge_m3_1024"))) = true := by
  decide +kernel

/-- The same copy, before anybody else comes. -/
theorem collections_held_copying :
    ∃ s, touches s (.clear (.copy 0 7 0 "org_acme_v_bge_m3_1024" .retirees false false))
        = some (0, "org_acme_v_bge_m3_1024")
      ∧ Distinct s ∧ ∀ a s' org name, Apart s a → step ⟨7⟩ s a = some s' →
        touches s a = some (org, name) → ¬ Elsewhere s org name := by
  have hstart : init (World.new 0) := ⟨0, rfl⟩
  obtain ⟨s, hs, htouch⟩ := exists_reachable hstart run_copying
  exact ⟨s, htouch, collections_held hs⟩

end Nacre.Collections
