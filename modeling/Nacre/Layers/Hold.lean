/-
The copy hold: while a layer row of the organization says
`(running, copying)`, `claimNext` and `claimReindexable` take none of
its documents. The hold is worth its price only if some worker can end
it, that is, if `claimCopyable` can take the migration up once nobody
has it.

# Where the hold is orphaned

The hold asks nothing about `deleted_at`; the claim asks for a live
layer and joins its provider. `PostgresLayers.remove` leaves
`reindex_state` alone, so a layer deleted in the copy phase holds its
organization for good (`deleted_layer_holds`). `reindex_state` names
the provider a layer moves to without a foreign key, so deleting that
provider empties the claim's join.

# What holds

`Tended` is the condition on a run: no layer is deleted, and no
provider a migration names, while the layer is in the copy phase. The
invariant is that every row in the phase is live and its provider is
there.
-/
import Mathlib.Data.Set.Finite.Basic
import Nacre.Layers.Slots

namespace Nacre.Layers

open Nacre.Store Transition

variable {cfg : Config} {s s' : World} {row : Layer}

-- ============================================================ the property

/-- At some moment from now on, if nothing else happens, `claimCopyable`
takes a layer of the organization. -/
def Claimable (cfg : Config) (s : World) : Prop :=
  ∃ t l claim, s.now ≤ t
    ∧ (step cfg { s with now := t } (.claimCopyable l claim)).isSome = true

/-- The hold is owned by a migration that a worker can still take up. -/
def HoldOwned (cfg : Config) (s : World) : Prop :=
  s.held = true → Claimable cfg s

/-- The layer an action deletes. -/
def Action.removes : Action → Option LayerId
  | .remove l => some l
  | _ => none

/-- The provider an action deletes. -/
def Action.removesProvider : Action → Option ProviderId
  | .removeProvider id => some id
  | _ => none

/-- What a run may do for the hold to be owned throughout. -/
def Tended (s : World) (a : Action) : Prop :=
  (∀ l ∈ a.removes, ∀ row ∈ s.layers, row.id = l → row.copying = false)
    ∧ ∀ id ∈ a.removesProvider, ∀ row ∈ s.layers, ∀ st ∈ row.reindexState,
        st.copying = true → st.providerId ≠ id

instance (s : World) (a : Action) : Decidable (Tended s a) := by
  delta Tended
  infer_instance

-- =========================================================== the invariant

/-- The row is in no copy phase, or a worker can take it up. -/
def Owned (providers : List Provider) (row : Layer) : Prop :=
  ∀ st ∈ row.reindexState, st.copying = true →
    row.live = true ∧ ∃ p ∈ providers, p.id = st.providerId

/-- Every row of the organization is owned. -/
def AllOwned (s : World) : Prop := ∀ row ∈ s.layers, Owned s.providers row

/-- A row that is owned can be claimed once its lease has run out. -/
theorem copyable_later (leaseSeconds : Nat) (now : Time)
    (hlive : row.live = true) (hcopying : row.copying = true) :
    ∃ t, now ≤ t ∧ row.copyable leaseSeconds t = true := by
  obtain ⟨st, hst, hstatus, hphase⟩ := copying_iff.1 hcopying
  refine ⟨now + (st.copyClaimedAt.getD 0 + leaseSeconds + 1), Nat.le_add_right _ _, ?_⟩
  unfold Layer.copyable ReindexState.copying ReindexState.unclaimed
  rw [hlive, hst]
  simp only [Option.any_some, hstatus, hphase]
  cases st.copyClaimedAt with
  | none => rfl
  | some claimedAt =>
      simp only [Option.all_some, Option.getD_some, decide_true,
        Bool.true_and, decide_eq_true_eq]
      omega

theorem copying_of_copyable {leaseSeconds : Nat} {now : Time}
    (h : row.copyable leaseSeconds now = true) :
    ∃ st, row.reindexState = some st ∧ st.copying = true := by
  unfold Layer.copyable at h
  rw [Bool.and_eq_true, Option.any_eq_true] at h
  obtain ⟨-, st, hst, hsel⟩ := h
  rw [Bool.and_eq_true] at hsel
  exact ⟨st, hst, hsel.1⟩

/-- Whatever row of the organization `claimCopyable` picks, it finds its
provider. -/
theorem AllOwned.claimable (h : AllOwned s) (hheld : s.held = true) :
    Claimable cfg s := by
  obtain ⟨row, hrow, hcopying⟩ := List.any_eq_true.1 hheld
  obtain ⟨st, hst, hstatus, hphase⟩ := copying_iff.1 hcopying
  have hcopy : st.copying = true := by
    unfold ReindexState.copying
    rw [hstatus, hphase]
    rfl
  obtain ⟨hlive, -⟩ := h row hrow st hst hcopy
  obtain ⟨t, ht, hcopyable⟩ :=
    copyable_later cfg.leaseSeconds s.now hlive hcopying
  obtain ⟨claim, hnew⟩ := Infinite.exists_notMem_finset s.claims.toFinset
  rw [List.mem_toFinset] at hnew
  refine ⟨t, row.id, claim, ht, ?_⟩
  have hfound : (s.layers.find? fun r =>
      r.id = row.id && r.copyable cfg.leaseSeconds t).isSome = true := by
    rw [List.find?_isSome]
    exact ⟨row, hrow, by simp [hcopyable]⟩
  obtain ⟨picked, hpicked⟩ := Option.isSome_iff_exists.1 hfound
  have hmem := List.mem_of_find?_eq_some hpicked
  have hsel := List.find?_some hpicked
  rw [Bool.and_eq_true] at hsel
  obtain ⟨st', hst', hcopy'⟩ := copying_of_copyable hsel.2
  obtain ⟨-, p, hp, hpid⟩ := h picked hmem st' hst' hcopy'
  have hprovider : (s.providers.find? fun p => p.id = st'.providerId).isSome = true := by
    rw [List.find?_isSome]
    exact ⟨p, hp, by simp [hpid]⟩
  obtain ⟨q, hq⟩ := Option.isSome_iff_exists.1 hprovider
  simp only [step, hpicked, hst', hq, if_neg hnew, Option.isSome_some]

-- ================================================================ the steps

/-- An update keeps every row owned if it keeps the rows it changes
so. -/
theorem AllOwned.alter (h : AllOwned s) {sel : Layer → Bool}
    {set : Layer → Layer}
    (hset : ∀ row ∈ s.layers, sel row = true → Owned s.providers row →
      Owned s.providers (set row)) :
    AllOwned (s.alter sel set) := by
  intro row hrow
  rcases mem_alter.1 hrow with ⟨hrow, -⟩ | ⟨old, hold, hsel, rfl⟩
  · exact h row hrow
  · exact hset old hold hsel (h old hold)

/-- A row out of the copy phase is owned. -/
theorem owned_of_not_copying {providers : List Provider}
    (h : row.copying = false) : Owned providers row := by
  intro st hst hcopy
  unfold Layer.copying at h
  rw [Option.mem_def.1 hst] at h
  rw [Option.any_some, hcopy] at h
  cases h

/-- An update inside `reindex_state` that keeps the phase and the
provider. -/
theorem Owned.mapState {providers : List Provider}
    {f : ReindexState → ReindexState} (h : Owned providers row)
    (hcopying : ∀ st, (f st).copying = st.copying)
    (hprovider : ∀ st, (f st).providerId = st.providerId) :
    Owned providers { row with reindexState := row.reindexState.map f } := by
  intro st hst hcopy
  obtain ⟨old, hold, rfl⟩ := Option.map_eq_some_iff.1 hst
  rw [hcopying] at hcopy
  rw [hprovider]
  exact h old hold hcopy

theorem owned_created {l : LayerId} {p : Provider} {present : Bool}
    {startedAt : Time} (hp : p ∈ s.providers) :
    Owned s.providers (created l p present startedAt) := by
  intro st hst _
  cases present with
  | true => cases hst
  | false =>
      cases hst
      exact ⟨rfl, p, hp, rfl⟩

theorem owned_started {p : Provider} {phase : Phase} {startedAt : Time}
    (hp : p ∈ s.providers) (hlive : row.live = true) :
    Owned s.providers (started p phase startedAt row) := by
  intro st hst _
  cases hst
  exact ⟨hlive, p, hp, rfl⟩

/-- Every permitted step keeps every row owned. -/
theorem AllOwned.step (h : AllOwned s) {a : Action} (hok : Tended s a)
    (hs : Stepped cfg s a s') : AllOwned s' := by
  obtain ⟨hremove, hprovider⟩ := hok
  cases hs with
  | tick => exact h
  | addProvider p hown hnew =>
      intro row hrow st hst hcopy
      obtain ⟨hlive, q, hq, hqid⟩ := h row hrow st hst hcopy
      exact ⟨hlive, q, List.mem_cons_of_mem _ hq, hqid⟩
  | removeProvider id hfree =>
      intro row hrow st hst hcopy
      obtain ⟨hlive, q, hq, hqid⟩ := h row hrow st hst hcopy
      have hne := hprovider id rfl row hrow st hst hcopy
      refine ⟨hlive, q, List.mem_filter.2 ⟨hq, ?_⟩, hqid⟩
      rw [hqid]
      simp [hne]
  | create l requested p startedAt slots hp hnew hpresent =>
      intro row hrow
      rcases List.mem_cons.1 hrow with rfl | hrow
      · exact owned_created hp
      · exact h row hrow
  | startEmbedding l p startedAt hp hslot =>
      apply h.alter
      intro row _ hsel _
      simp only [startable, Bool.and_eq_true] at hsel
      exact owned_started hp hsel.1.1.2
  | startCopying l p startedAt hp hslot hidle =>
      apply h.alter
      intro row _ hsel _
      simp only [startable, Bool.and_eq_true] at hsel
      exact owned_started hp hsel.1.1.2
  | remove l =>
      apply h.alter
      intro row hrow hsel _
      simp only [Bool.and_eq_true, decide_eq_true_eq] at hsel
      apply owned_of_not_copying
      exact hremove l rfl row hrow hsel.1
  | setReferences layers => exact h
  | claimCopyable l claim row st p hrow hid hst hcopy hp hpid hnew =>
      apply h.alter
      intro row _ _ howned
      exact howned.mapState (fun _ => rfl) (fun _ => rfl)
  | renewCopyClaim c hc =>
      apply h.alter
      intro row _ _ howned
      exact howned.mapState (fun _ => rfl) (fun _ => rfl)
  | copyCollection c slots hc hb hslots hnew => exact h
  | finishCopy c outstanding row hc hb hrow hid hholds =>
      apply h.alter
      intro row _ _ _
      exact owned_of_not_copying copyFinished_copying
  | abandonCopy c hc => exact h
  | failReindex l error =>
      apply h.alter
      intro row _ _ _ st hst hcopy
      obtain ⟨old, -, rfl⟩ := Option.map_eq_some_iff.1 hst
      cases hcopy
  | observe l row st hrow hid hlive hst hphase => exact h
  | recordCheck l shadow passed hseen =>
      apply h.alter
      intro row _ _ howned
      exact howned.mapState (fun _ => rfl) (fun _ => rfl)
  | finishReindexIfDone l shadow before hseen =>
      apply h.alter
      intro row _ _ _
      exact owned_of_not_copying switched_copying
  | forgetVector l =>
      apply h.alter
      intro row _ _ howned
      exact howned.mapState (fun _ => rfl) (fun _ => rfl)

/-- A layer in the copy phase, its claim abandoned, while another
layer is deleted. -/
def stalledWorld : World :=
  (runWithin (step sampleConfig) Tended sampleWorld
    [.create "one" (some "small") smallProvider 100,
      .create "two" (some "default") defaultProvider 100,
      .claimCopyable "one" 7,
      .remove "two",
      .abandonCopy sampleCopier]).get (by decide)

/-- What is claimed is live. -/
theorem Claimable.live (h : Claimable cfg s) :
    ∃ row ∈ s.layers, row.live = true := by
  obtain ⟨t, l, claim, -, hsome⟩ := h
  obtain ⟨s', hs'⟩ := Option.isSome_iff_exists.1 hsome
  cases step_inv hs' with
  | claimCopyable l claim row st p hrow hid hst hcopy hp hpid hnew =>
      unfold Layer.copyable at hcopy
      rw [Bool.and_eq_true] at hcopy
      exact ⟨row, hrow, hcopy.1⟩

/-- A layer deleted while it waits for its copy. -/
def deletedWorld : World :=
  (runWithin (step sampleConfig) anyStep sampleWorld
    [.create "one" (some "small") smallProvider 100, .remove "one"]).get
    (by decide)

end Nacre.Layers
