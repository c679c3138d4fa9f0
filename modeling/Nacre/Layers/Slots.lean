/-
Whether the live collection has a slot for every layer that is served
from it: the name a layer's documents are written and searched under,
and, while its documents are being embedded again, the name they are
moving to.

# Where the code loses a slot

One copy adds one slot, and `finishCopy` moves every copying layer of
the organization out of the phase. `create` puts a layer into the phase
whatever the others are doing, so two layers created against two
providers the collection has no slot for are both released by the first
copy, one of them onto a slot that is not there
(`released_without_slot`). A copy that fails leaves a created layer on
the slot nobody made.

# What holds

`Roomy` is the condition on a run: a copy finishes only when its target
has the slot of every live layer in the phase, a layer still in the
phase fails only when it is on a slot the collection has, and a copy
that rebuilds a collection gives it the slots it had. In such a run
every state is `Housed`. The invariant adds what the copiers know: a
copier whose claim still holds started from the live collection, and the
target it built has the live slots.
-/
import Nacre.Layers.System

namespace Nacre.Layers

open Nacre.Store Transition

variable {cfg : Config} {s s' : World} {row : Layer}

-- ============================================================ the property

/-- The layer's vectors have their place in the live collection. -/
structure Served (s : World) (row : Layer) : Prop where
  named : row.copying = false → s.hasSlot row.vectorName = true
  shadow : ∀ st, row.reindexState = some st → st.embedding = true →
    s.hasSlot st.shadowVector = true

/-- Every live layer is served. -/
def Housed (s : World) : Prop :=
  ∀ row ∈ s.layers, row.live = true → Served s row

instance (s : World) (row : Layer) : Decidable (Served s row) :=
  decidable_of_iff
    ((row.copying = false → s.hasSlot row.vectorName = true)
      ∧ ∀ st ∈ row.reindexState, st.embedding = true →
          s.hasSlot st.shadowVector = true)
    ⟨fun h => ⟨h.1, h.2⟩, fun h => ⟨h.named, h.shadow⟩⟩

instance (s : World) : Decidable (Housed s) :=
  inferInstanceAs
    (Decidable (∀ row ∈ s.layers, row.live = true → Served s row))

/-- The names of a collection's slots; none when it does not exist. -/
def World.slotNames (s : World) (collection : String) : List String :=
  (s.collections collection).elim [] Slots.names

/-- The copier an action finishes. -/
def Action.finishes : Action → Option Copier
  | .finishCopy c _ => some c
  | _ => none

/-- The layer an action fails. -/
def Action.fails : Action → Option LayerId
  | .failReindex l _ => some l
  | _ => none

/-- The copier an action builds the target of. -/
def Action.builds : Action → Option Copier
  | .copyCollection c => some c
  | _ => none

/-- What a run may do for every state of it to be housed. -/
def Roomy (s : World) (a : Action) : Prop :=
  (∀ c ∈ a.finishes, ∀ row ∈ s.layers, row.live = true →
      ∀ st ∈ row.reindexState, st.copying = true →
        st.shadowVector ∈ s.slotNames c.to)
    ∧ (∀ l ∈ a.fails, ∀ row ∈ s.layers, row.id = l → row.live = true →
        row.copying = true → s.hasSlot row.vectorName = true)
    ∧ ∀ c ∈ a.builds, (s.collections c.to).isSome = true →
        (∀ name ∈ s.slotNames c.to,
            name ∈ s.slotNames c.collection ++ [c.shadowVector])
          ∧ ∀ name ∈ s.slotNames c.collection ++ [c.shadowVector],
              name ∈ s.slotNames c.to

instance (s : World) (a : Action) : Decidable (Roomy s a) := by
  delta Roomy
  infer_instance

-- =========================================================== the invariant

/-- What a layer's row asks of the live slots, the copy phase included:
a layer in it is on a slot there is or on the one it waits for. -/
structure Fits (s : World) (row : Layer) : Prop extends Served s row where
  waiting : ∀ st, row.reindexState = some st → st.copying = true →
    s.hasSlot row.vectorName = true ∨ row.vectorName = st.shadowVector

/-- The claim the row carries. -/
def claimOf (row : Layer) : Option Claim := row.reindexState.bind (·.copyClaim)

structure Roomed (s : World) : Prop where
  present : s.present.isSome = true
  fits : ∀ row ∈ s.layers, row.live = true → Fits s row
  observed : ∀ l shadow, (l, shadow) ∈ s.observed → s.hasSlot shadow = true
  /-- A claim on a row or in a copier was handed out. -/
  rowClaim : ∀ row ∈ s.layers, ∀ claim ∈ claimOf row, claim ∈ s.claims
  copierClaim : ∀ c ∈ s.copiers, c.claim ∈ s.claims
  /-- A copier that still holds its claim copies the live collection. -/
  source : ∀ c ∈ s.copiers, ∀ row ∈ s.layers, row.holds c.claim = true →
    c.collection = s.collection
  built : ∀ c ∈ s.copiers, c.built = true → (s.collections c.to).isSome = true
  /-- And what it built has the live slots. -/
  target : ∀ c ∈ s.copiers, ∀ row ∈ s.layers, row.holds c.claim = true →
    c.built = true → ∀ name, s.hasSlot name = true → name ∈ s.slotNames c.to

theorem hasSlot_iff_mem {name : String} :
    s.hasSlot name = true ↔ name ∈ s.slotNames s.collection := by
  unfold World.hasSlot World.present World.slotNames
  cases s.collections s.collection with
  | none => simp
  | some slots => simp

/-- A row asks nothing that more slots would not give. -/
theorem Fits.mono (h : Fits s row)
    (hslots : ∀ name, s.hasSlot name = true → s'.hasSlot name = true) :
    Fits s' row where
  named hcopying := hslots _ (h.named hcopying)
  shadow st hst hphase := hslots _ (h.shadow st hst hphase)
  waiting st hst hphase := (h.waiting st hst hphase).imp_left (hslots _)

-- ===================================================== what the rows become

theorem claimOf_of_holds {claim : Claim} (h : row.holds claim = true) :
    claimOf row = some claim := by
  obtain ⟨st, hst, -, -, hclaim⟩ := holds_iff.1 h
  unfold claimOf
  rw [hst]
  exact hclaim

theorem copying_of_holds {claim : Claim} (h : row.holds claim = true) :
    row.copying = true := by
  obtain ⟨st, hst, hstatus, hphase, -⟩ := holds_iff.1 h
  exact copying_iff.2 ⟨st, hst, hstatus, hphase⟩

/-- An update that leaves every claim where it was, or takes it away,
and revives nothing. -/
structure Tame (set : Layer → Layer) : Prop where
  live : ∀ row, (set row).live = true → row.live = true
  claim : ∀ row claim, claimOf (set row) = some claim → claimOf row = some claim
  holds : ∀ row claim, (set row).holds claim = true → row.holds claim = true

theorem tame_removed (now : Time) : Tame (removed now) where
  live row h := by simp [removed, Layer.live] at h
  claim _ _ h := h
  holds _ _ h := h

theorem tame_started (p : Provider) (phase : Phase) (startedAt : Time) :
    Tame (started p phase startedAt) where
  live _ h := h
  claim row claim h := by simp [started, claimOf] at h
  holds row claim h := by simp [started, Layer.holds] at h

/-- An update inside `reindex_state` is tame when it keeps the claim and
puts nothing into the copy phase. -/
theorem tame_mapState {f : ReindexState → ReindexState}
    (hclaim : ∀ st, (f st).copyClaim = st.copyClaim)
    (hphase : ∀ st, (f st).copying = true → st.copying = true) :
    Tame fun row => { row with reindexState := row.reindexState.map f } where
  live _ h := h
  claim row claim h := by
    unfold claimOf at h ⊢
    cases hst : row.reindexState with
    | none => simp [hst] at h
    | some st => simpa [hst, hclaim] using h
  holds row claim h := by
    unfold Layer.holds at h ⊢
    cases hst : row.reindexState with
    | none => simp [hst] at h
    | some st =>
        simp only [hst, Option.map_some, Option.any_some, Bool.and_eq_true,
          hclaim] at h ⊢
        exact ⟨hphase st h.1, h.2⟩

theorem tame_copyRenewed (now : Time) : Tame (copyRenewed now) :=
  tame_mapState (fun _ => rfl) (fun _ h => h)

theorem tame_checkRecorded (passed : Bool) : Tame (checkRecorded passed) :=
  tame_mapState (fun _ => rfl) (fun _ h => h)

theorem tame_vectorForgotten : Tame vectorForgotten :=
  tame_mapState (fun _ => rfl) (fun _ h => h)

theorem tame_reindexFailed (error : String) : Tame (reindexFailed error) :=
  tame_mapState (fun _ => rfl) (fun st h => by simp [ReindexState.copying] at h)

theorem tame_switched (before : String) (now : Time) :
    Tame (switched before now) where
  live row h := by
    unfold switched at h
    cases hst : row.reindexState with
    | none => simpa [hst] using h
    | some st => simpa [hst, Layer.live] using h
  claim row claim h := by
    unfold switched at h
    unfold claimOf at h ⊢
    cases hst : row.reindexState with
    | none => simp [hst] at h
    | some st => simpa [hst] using h
  holds row claim h := by
    unfold switched at h
    cases hst : row.reindexState with
    | none => simpa [hst] using h
    | some st => simp [hst, Layer.holds, ReindexState.copying] at h

-- ========================================================= one kind of write

/-- A tame update keeps the invariant if it keeps what the rows ask. -/
theorem Roomed.alter (h : Roomed s) {sel : Layer → Bool} {set : Layer → Layer}
    (htame : Tame set)
    (hfits : ∀ row ∈ s.layers, sel row = true → row.live = true → Fits s row →
      Fits s (set row)) :
    Roomed (s.alter sel set) where
  present := h.present
  fits row hrow hlive := by
    rcases mem_alter.1 hrow with ⟨hrow, -⟩ | ⟨old, hold, hsel, rfl⟩
    · exact (h.fits row hrow hlive).mono fun _ hslot => hslot
    · have hlive' := htame.live old hlive
      have hold' := hfits old hold hsel hlive' (h.fits old hold hlive')
      exact hold'.mono fun _ hslot => hslot
  observed := h.observed
  rowClaim row hrow claim hclaim := by
    rcases mem_alter.1 hrow with ⟨hrow, -⟩ | ⟨old, hold, -, rfl⟩
    · exact h.rowClaim row hrow claim hclaim
    · exact h.rowClaim old hold claim (htame.claim old claim hclaim)
  copierClaim := h.copierClaim
  source c hc row hrow hholds := by
    rcases mem_alter.1 hrow with ⟨hrow, -⟩ | ⟨old, hold, -, rfl⟩
    · exact h.source c hc row hrow hholds
    · exact h.source c hc old hold (htame.holds old c.claim hholds)
  built := h.built
  target c hc row hrow hholds := by
    rcases mem_alter.1 hrow with ⟨hrow, -⟩ | ⟨old, hold, -, rfl⟩
    · exact h.target c hc row hrow hholds
    · exact h.target c hc old hold (htame.holds old c.claim hholds)

/-- The clock, the providers and the reference sets are not asked. -/
theorem Roomed.frame (h : Roomed s) (now : Time) (providers : List Provider)
    (references : List LayerId) :
    Roomed { s with now, providers, references } where
  present := h.present
  fits row hrow hlive := (h.fits row hrow hlive).mono fun _ hslot => hslot
  observed := h.observed
  rowClaim := h.rowClaim
  copierClaim := h.copierClaim
  source := h.source
  built := h.built
  target := h.target

/-- A pair seen names a slot there is. -/
theorem Roomed.observe (h : Roomed s) {l : LayerId} {shadow : String}
    (hslot : s.hasSlot shadow = true) :
    Roomed { s with observed := (l, shadow) :: s.observed } where
  present := h.present
  fits row hrow hlive := (h.fits row hrow hlive).mono fun _ hslot => hslot
  observed l' shadow' hseen := by
    rcases List.mem_cons.1 hseen with heq | hseen
    · cases heq
      exact hslot
    · exact h.observed l' shadow' hseen
  rowClaim := h.rowClaim
  copierClaim := h.copierClaim
  source := h.source
  built := h.built
  target := h.target

/-- Copiers that stop take nothing with them. -/
theorem Roomed.withCopiers (h : Roomed s) {copiers : List Copier}
    (hsub : ∀ c ∈ copiers, c ∈ s.copiers) : Roomed { s with copiers } where
  present := h.present
  fits row hrow hlive := (h.fits row hrow hlive).mono fun _ hslot => hslot
  observed := h.observed
  rowClaim := h.rowClaim
  copierClaim c hc := h.copierClaim c (hsub c hc)
  source c hc := h.source c (hsub c hc)
  built c hc := h.built c (hsub c hc)
  target c hc := h.target c (hsub c hc)

/-- A new row that asks no more than it gets, and carries no claim. -/
theorem Roomed.insert (h : Roomed s) {new : Layer} (hfits : Fits s new)
    (hclaim : claimOf new = none) : Roomed { s with layers := new :: s.layers } where
  present := h.present
  fits row hrow hlive := by
    rcases List.mem_cons.1 hrow with rfl | hrow
    · exact hfits.mono fun _ hslot => hslot
    · exact (h.fits row hrow hlive).mono fun _ hslot => hslot
  observed := h.observed
  rowClaim row hrow claim hc := by
    rcases List.mem_cons.1 hrow with rfl | hrow
    · rw [hclaim] at hc
      cases hc
    · exact h.rowClaim row hrow claim hc
  copierClaim := h.copierClaim
  source c hc row hrow hholds := by
    rcases List.mem_cons.1 hrow with rfl | hrow
    · rw [claimOf_of_holds hholds] at hclaim
      cases hclaim
    · exact h.source c hc row hrow hholds
  built := h.built
  target c hc row hrow hholds := by
    rcases List.mem_cons.1 hrow with rfl | hrow
    · rw [claimOf_of_holds hholds] at hclaim
      cases hclaim
    · exact h.target c hc row hrow hholds

-- ================================================================ the steps

theorem fits_created {l : LayerId} {p : Provider} {startedAt : Time}
    {slots : Slots} (hpresent : s.present = some slots) :
    Fits s (created l p (slots.names.contains p.vector) startedAt) := by
  cases hslot : slots.names.contains p.vector with
  | true =>
      have hhas : s.hasSlot p.vector = true :=
        hasSlot_iff.2 ⟨slots, hpresent, by simpa using hslot⟩
      exact
        { named := fun _ => hhas
          shadow := fun st hst => by simp [created] at hst
          waiting := fun st hst => by simp [created] at hst }
  | false =>
      exact
        { named := fun hcopying => by
            simp [created, Layer.copying, ReindexState.copying] at hcopying
          shadow := fun st hst hphase => by
            simp only [created, Bool.false_eq_true, if_false,
              Option.some.injEq] at hst
            subst hst
            simp [ReindexState.embedding] at hphase
          waiting := fun st hst _ => by
            simp only [created, Bool.false_eq_true, if_false,
              Option.some.injEq] at hst
            subst hst
            exact Or.inr rfl }

theorem fits_started {p : Provider} {phase : Phase} {startedAt : Time}
    (h : s.hasSlot row.vectorName = true)
    (hphase : phase = .embedding → s.hasSlot p.vector = true) :
    Fits s (started p phase startedAt row) where
  named _ := h
  shadow st hst hemb := by
    simp only [started, Option.some.injEq] at hst
    subst hst
    simp only [ReindexState.embedding, decide_true, Bool.true_and,
      decide_eq_true_eq] at hemb
    exact hphase hemb
  waiting _ _ _ := Or.inl h

/-- The name `startable` leaves alone is a slot: its layer is in no
phase. -/
theorem hasSlot_of_startable {l : LayerId} {vector : String}
    (h : Fits s row) (hsel : startable l vector row = true) :
    s.hasSlot row.vectorName = true := by
  apply h.named
  simp only [startable, Bool.and_eq_true, Bool.not_eq_true'] at hsel
  have hidle := hsel.1.2
  unfold Layer.running at hidle
  unfold Layer.copying
  cases hst : row.reindexState with
  | none => rfl
  | some st =>
      rw [hst] at hidle
      simp only [Option.any_some, ReindexState.running,
        decide_eq_false_iff_not] at hidle
      simp [ReindexState.copying, hidle]

/-- An update inside `reindex_state` that keeps the status, the phase
and the slot asks what was asked before. -/
theorem fits_mapState {f : ReindexState → ReindexState}
    (hcopying : ∀ st, (f st).copying = st.copying)
    (hembedding : ∀ st, (f st).embedding = st.embedding)
    (hshadow : ∀ st, (f st).shadowVector = st.shadowVector) (h : Fits s row) :
    Fits s { row with reindexState := row.reindexState.map f } where
  named hphase := by
    apply h.named
    unfold Layer.copying at hphase ⊢
    cases hst : row.reindexState with
    | none => rfl
    | some st => simpa [hst, hcopying] using hphase
  shadow st hst hphase := by
    obtain ⟨old, hold, rfl⟩ := Option.map_eq_some_iff.1 hst
    rw [hembedding] at hphase
    rw [hshadow]
    exact h.shadow old hold hphase
  waiting st hst hphase := by
    obtain ⟨old, hold, rfl⟩ := Option.map_eq_some_iff.1 hst
    rw [hcopying] at hphase
    rw [hshadow]
    exact h.waiting old hold hphase

theorem fits_reindexFailed {error : String}
    (h : s.hasSlot row.vectorName = true) :
    Fits s (reindexFailed error row) where
  named _ := h
  shadow st hst hphase := by
    obtain ⟨old, -, rfl⟩ := Option.map_eq_some_iff.1 hst
    simp [ReindexState.embedding] at hphase
  waiting _ _ _ := Or.inl h

theorem fits_switched {l : LayerId} {shadow before : String} {now : Time}
    (hslot : s.hasSlot shadow = true) (hsel : migrating l shadow row = true) :
    Fits s (switched before now row) := by
  simp only [migrating, Bool.and_eq_true, Option.any_eq_true,
    decide_eq_true_eq] at hsel
  obtain ⟨-, st, hst, -, rfl⟩ := hsel
  have hname : (switched before now row).vectorName = st.shadowVector := by
    unfold switched
    rw [hst]
  have hdone : ∀ st', (switched before now row).reindexState = some st' →
      st'.embedding = false := by
    intro st' hst'
    simp only [switched, hst, Option.some.injEq] at hst'
    subst hst'
    rfl
  exact
    { named := fun _ => hname ▸ hslot
      shadow := fun st' hst' hphase => by
        rw [hdone st' hst'] at hphase
        cases hphase
      waiting := fun _ _ _ => Or.inl (hname ▸ hslot) }

/-- A layer released by a copy whose target has its slot. -/
theorem fits_copyFinished {waiting : Bool} {now : Time} (h : Fits s row)
    (hslots : ∀ name, s.hasSlot name = true → s'.hasSlot name = true)
    (hshadow : ∀ st ∈ row.reindexState, st.copying = true →
      s'.hasSlot st.shadowVector = true)
    (hcopying : row.copying = true) :
    Fits s' (copyFinished waiting now row) := by
  obtain ⟨st, hst, hstatus, hphase⟩ := copying_iff.1 hcopying
  have hcopy : st.copying = true := by simp [ReindexState.copying, hstatus, hphase]
  have hnew : s'.hasSlot st.shadowVector = true := hshadow st hst hcopy
  have hname : s'.hasSlot row.vectorName = true := by
    rcases h.waiting st hst hcopy with hslot | heq
    · exact hslots _ hslot
    · rw [heq]
      exact hnew
  unfold copyFinished
  rw [hst]
  cases waiting with
  | true =>
      exact
        { named := fun _ => hname
          shadow := fun st' hst' _ => by
            cases hst'
            exact hnew
          waiting := fun _ _ _ => Or.inl hname }
  | false =>
      exact
        { named := fun _ => hnew
          shadow := fun st' hst' hphase => by
            cases hst'
            exact hnew
          waiting := fun _ _ _ => Or.inl hnew }

theorem copyClaimed_holds {claim claim' : Claim} {now : Time}
    (h : (copyClaimed claim now row).holds claim' = true) : claim' = claim := by
  have hclaim := claimOf_of_holds h
  unfold claimOf copyClaimed at hclaim
  cases hst : row.reindexState with
  | none => simp [hst] at hclaim
  | some st =>
      simp only [hst, Option.map_some, Option.bind_some,
        Option.some.injEq] at hclaim
      exact hclaim.symm

theorem tame_copyFinished (waiting : Layer → Bool) (now : Time) :
    Tame fun row => copyFinished (waiting row) now row where
  live row h := by
    unfold copyFinished at h
    split at h
    next => exact h
    next =>
      split at h
      next => exact h
      next => exact h
  claim row claim h := by
    unfold copyFinished at h
    split at h
    next => exact h
    next st hst =>
      unfold claimOf at h ⊢
      rw [hst]
      split at h
      next => exact h
      next => exact h
  holds row claim h := by
    have hcopying := copying_of_holds h
    rw [copyFinished_copying] at hcopying
    cases hcopying

/-- A layer is still copying under the claim. -/
def World.heldBy (s : World) (claim : Claim) : Prop :=
  ∃ row ∈ s.layers, row.holds claim = true

theorem heldBy_alter {sel : Layer → Bool} {set : Layer → Layer} {claim : Claim}
    (htame : Tame set) (h : (s.alter sel set).heldBy claim) : s.heldBy claim := by
  obtain ⟨row, hrow, hholds⟩ := h
  rcases mem_alter.1 hrow with ⟨hrow, -⟩ | ⟨old, hold, -, rfl⟩
  · exact ⟨row, hrow, hholds⟩
  · exact ⟨old, hold, htame.holds old claim hholds⟩

/-- Only a claim makes a holder. -/
theorem Stepped.heldBy {cfg : Config} {s s' : World} {a : Action}
    (hs : Stepped cfg s a s') (ha : ∀ l claim, a ≠ .claimCopyable l claim)
    {claim : Claim} (h : s'.heldBy claim) : s.heldBy claim := by
  cases hs with
  | create l requested p startedAt slots hp hnew hpresent =>
      obtain ⟨row, hrow, hholds⟩ := h
      rcases List.mem_cons.1 hrow with rfl | hrow
      · obtain ⟨st, hst, -, -, hclaim⟩ := holds_iff.1 hholds
        unfold created at hst
        dsimp only at hst
        split at hst
        next => cases hst
        next =>
          cases hst
          cases hclaim
      · exact ⟨row, hrow, hholds⟩
  | startEmbedding l p startedAt hp hslot =>
      exact heldBy_alter (tame_started p _ startedAt) h
  | startCopying l p startedAt hp hslot hidle =>
      exact heldBy_alter (tame_started p _ startedAt) h
  | remove l => exact heldBy_alter (tame_removed s.now) h
  | claimCopyable l claim' row st p hrow hid hst hcopy hp hpid hnew =>
      exact absurd rfl (ha l claim')
  | renewCopyClaim c hc => exact heldBy_alter (tame_copyRenewed s.now) h
  | finishCopy c outstanding row hc hb hrow hid hholds =>
      exact heldBy_alter
        (tame_copyFinished (s.waiting outstanding) s.now) h
  | failReindex l error => exact heldBy_alter (tame_reindexFailed error) h
  | recordCheck l shadow passed hseen =>
      exact heldBy_alter (tame_checkRecorded passed) h
  | finishReindexIfDone l shadow before hseen =>
      exact heldBy_alter (tame_switched before s.now) h
  | forgetVector l => exact heldBy_alter tame_vectorForgotten h
  | _ => exact h

/-- While a claim is held, so is the organization. -/
theorem held_of_heldBy {claim : Claim} (h : s.heldBy claim) : s.held = true := by
  obtain ⟨row, hrow, hholds⟩ := h
  exact List.any_eq_true.2 ⟨row, hrow, copying_of_holds hholds⟩

/-- A fresh claim is nobody else's. -/
theorem Roomed.claim (h : Roomed s) {sel : Layer → Bool} {c : Copier}
    (hfrom : c.collection = s.collection) (hbuilt : c.built = false)
    (hnew : c.claim ∉ s.claims) :
    Roomed { s.alter sel (copyClaimed c.claim s.now) with
      copiers := c :: s.copiers, claims := c.claim :: s.claims } where
  present := h.present
  fits row hrow hlive := by
    rcases mem_alter.1 hrow with ⟨hrow, -⟩ | ⟨old, hold, -, rfl⟩
    · exact (h.fits row hrow hlive).mono fun _ hslot => hslot
    · have hfits := h.fits old hold hlive
      have hset : Fits s (copyClaimed c.claim s.now old) :=
        fits_mapState (fun _ => rfl) (fun _ => rfl) (fun _ => rfl) hfits
      exact hset.mono fun _ hslot => hslot
  observed := h.observed
  rowClaim row hrow claim hclaim := by
    rcases mem_alter.1 hrow with ⟨hrow, -⟩ | ⟨old, hold, -, rfl⟩
    · exact List.mem_cons_of_mem _ (h.rowClaim row hrow claim hclaim)
    · unfold claimOf copyClaimed at hclaim
      cases hst : old.reindexState with
      | none => simp [hst] at hclaim
      | some st =>
          simp only [hst, Option.map_some, Option.bind_some,
            Option.mem_some_iff] at hclaim
          rw [← hclaim]
          exact List.mem_cons_self
  copierClaim c' hc' := by
    rcases List.mem_cons.1 hc' with rfl | hc'
    · exact List.mem_cons_self
    · exact List.mem_cons_of_mem _ (h.copierClaim c' hc')
  source c' hc' row hrow hholds := by
    rcases List.mem_cons.1 hc' with rfl | hc'
    · exact hfrom
    · rcases mem_alter.1 hrow with ⟨hrow, -⟩ | ⟨old, hold, -, rfl⟩
      · exact h.source c' hc' row hrow hholds
      · exact absurd (copyClaimed_holds hholds ▸ h.copierClaim c' hc') hnew
  built c' hc' hb := by
    rcases List.mem_cons.1 hc' with rfl | hc'
    · rw [hbuilt] at hb
      cases hb
    · exact h.built c' hc' hb
  target c' hc' row hrow hholds hb := by
    rcases List.mem_cons.1 hc' with rfl | hc'
    · rw [hbuilt] at hb
      cases hb
    · rcases mem_alter.1 hrow with ⟨hrow, -⟩ | ⟨old, hold, -, rfl⟩
      · exact h.target c' hc' row hrow hholds hb
      · exact absurd (copyClaimed_holds hholds ▸ h.copierClaim c' hc') hnew

/-- A rebuilt collection has the slots it had, so no collection loses or
gains one; a new one has the slots of its source and the new one. -/
theorem Roomed.build (h : Roomed s) {c : Copier} {slots : Slots}
    (hc : c ∈ s.copiers) (hslots : s.collections c.collection = some slots)
    (hroomy : (s.collections c.to).isSome = true →
      (∀ name ∈ s.slotNames c.to,
          name ∈ s.slotNames c.collection ++ [c.shadowVector])
        ∧ ∀ name ∈ s.slotNames c.collection ++ [c.shadowVector],
            name ∈ s.slotNames c.to) :
    Roomed { s with
      collections := Function.update s.collections c.to
        (some (slots ++ [(c.shadowVector, c.dimensions)]))
      copiers := { c with built := true } :: s.copiers.erase c } := by
  generalize hs' : { s with
      collections := Function.update s.collections c.to
        (some (slots ++ [(c.shadowVector, c.dimensions)]))
      copiers := { c with built := true } :: s.copiers.erase c } = s'
  have hcoll : s'.collections = Function.update s.collections c.to
      (some (slots ++ [(c.shadowVector, c.dimensions)])) := by rw [← hs']
  have hpointer : s'.collection = s.collection := by rw [← hs']
  have hsource : s.slotNames c.collection = slots.names := by
    unfold World.slotNames
    rw [hslots]
    rfl
  have hto : s'.slotNames c.to = s.slotNames c.collection ++ [c.shadowVector] := by
    unfold World.slotNames at hsource ⊢
    rw [hcoll, Function.update_self, hsource]
    simp [Slots.names]
  have hother : ∀ name, name ≠ c.to → s'.slotNames name = s.slotNames name := by
    intro name hne
    unfold World.slotNames
    rw [hcoll, Function.update_of_ne hne]
  have hexists : ∀ name, (s.collections name).isSome = true →
      (s'.collections name).isSome = true := by
    intro name hsome
    rw [hcoll]
    by_cases hname : name = c.to
    · rw [hname, Function.update_self]
      rfl
    · rw [Function.update_of_ne hname]
      exact hsome
  have hsame : ∀ name, (s.collections name).isSome = true →
      ∀ slot, slot ∈ s'.slotNames name ↔ slot ∈ s.slotNames name := by
    intro name hsome slot
    by_cases hname : name = c.to
    · subst hname
      rw [hto]
      exact ⟨(hroomy hsome).2 slot, (hroomy hsome).1 slot⟩
    · rw [hother name hname]
  have hlive : ∀ slot, s'.hasSlot slot = true ↔ s.hasSlot slot = true := by
    intro slot
    rw [hasSlot_iff_mem, hasSlot_iff_mem, hpointer]
    exact hsame s.collection h.present slot
  subst hs'
  exact
    { present := hexists s.collection h.present
      fits := fun row hrow hrowLive =>
        (h.fits row hrow hrowLive).mono fun slot => (hlive slot).2
      observed := fun l shadow hseen => (hlive shadow).2 (h.observed l shadow hseen)
      rowClaim := h.rowClaim
      copierClaim := by
        intro c' hc'
        rcases List.mem_cons.1 hc' with rfl | hc'
        · exact h.copierClaim c hc
        · exact h.copierClaim c' (List.mem_of_mem_erase hc')
      source := by
        intro c' hc' row hrow hholds
        rcases List.mem_cons.1 hc' with rfl | hc'
        · exact h.source c hc row hrow hholds
        · exact h.source c' (List.mem_of_mem_erase hc') row hrow hholds
      built := by
        intro c' hc' hb
        rcases List.mem_cons.1 hc' with rfl | hc'
        · show (Function.update s.collections c.to _ c.to).isSome = true
          rw [Function.update_self]
          rfl
        · exact hexists c'.to (h.built c' (List.mem_of_mem_erase hc') hb)
      target := by
        intro c' hc' row hrow hholds hb slot hslot
        rw [hlive] at hslot
        rcases List.mem_cons.1 hc' with rfl | hc'
        · -- the copier that just built: its source is the live collection
          have hfrom := h.source c hc row hrow hholds
          show slot ∈ World.slotNames _ c.to
          rw [hto, hfrom]
          exact List.mem_append_left _ (hasSlot_iff_mem.1 hslot)
        · have hc' := List.mem_of_mem_erase hc'
          exact (hsame c'.to (h.built c' hc' hb) slot).2
            (h.target c' hc' row hrow hholds hb slot hslot) }

/-- The finish of a copy whose target has room for every layer it
releases. -/
theorem Roomed.finish (h : Roomed s) {c : Copier}
    {outstanding : LayerId → String → Bool} (hc : c ∈ s.copiers)
    (hb : c.built = true) {holder : Layer} (hholder : holder ∈ s.layers)
    (hholds : holder.holds c.claim = true)
    (hroomy : ∀ row ∈ s.layers, row.live = true → ∀ st ∈ row.reindexState,
      st.copying = true → st.shadowVector ∈ s.slotNames c.to) :
    Roomed { s.alter Layer.copying (fun row =>
          copyFinished (s.waiting outstanding row) s.now row) with
      collection := c.to
      copiers := s.copiers.erase c } := by
  have htame := tame_copyFinished (s.waiting outstanding) s.now
  have hslots : ∀ name, s.hasSlot name = true → name ∈ s.slotNames c.to :=
    h.target c hc holder hholder hholds hb
  -- every layer is out of the phase, so no claim is held any more
  have hreleased : ∀ row ∈ (s.alter Layer.copying fun row =>
      copyFinished (s.waiting outstanding row) s.now row).layers,
      row.copying = false := by
    intro row hrow
    rcases mem_alter.1 hrow with ⟨-, hcopying⟩ | ⟨old, -, -, rfl⟩
    · exact hcopying
    · exact copyFinished_copying
  refine
    { present := h.built c hc hb
      fits := ?fits
      observed := fun l shadow hseen =>
        hasSlot_iff_mem.2 (hslots shadow (h.observed l shadow hseen))
      rowClaim := ?rowClaim
      copierClaim := fun c' hc' => h.copierClaim c' (List.mem_of_mem_erase hc')
      source := ?source
      built := fun c' hc' => h.built c' (List.mem_of_mem_erase hc')
      target := ?target }
  case fits =>
    intro row hrow hlive
    rcases mem_alter.1 hrow with ⟨hrow, -⟩ | ⟨old, hold, hcopying, rfl⟩
    · apply (h.fits row hrow hlive).mono
      intro name hname
      exact hasSlot_iff_mem.2 (hslots name hname)
    · have hlive' := htame.live old hlive
      apply fits_copyFinished (h.fits old hold hlive') _ _ hcopying
      · intro name hname
        exact hasSlot_iff_mem.2 (hslots name hname)
      · intro st hst hphase
        exact hasSlot_iff_mem.2 (hroomy old hold hlive' st hst hphase)
  case rowClaim =>
    intro row hrow claim hclaim
    rcases mem_alter.1 hrow with ⟨hrow, -⟩ | ⟨old, hold, -, rfl⟩
    · exact h.rowClaim row hrow claim hclaim
    · exact h.rowClaim old hold claim (htame.claim old claim hclaim)
  case source =>
    intro c' _ row hrow hheld
    have := copying_of_holds hheld
    rw [hreleased row hrow] at this
    cases this
  case target =>
    intro c' _ row hrow hheld
    have := copying_of_holds hheld
    rw [hreleased row hrow] at this
    cases this

/-- Every permitted step keeps the invariant. -/
theorem Roomed.step (h : Roomed s) {a : Action} (hok : Roomy s a)
    (hs : Stepped cfg s a s') : Roomed s' := by
  obtain ⟨hfinish, hfail, hbuild⟩ := hok
  cases hs with
  | tick => exact h.frame _ _ _
  | addProvider p hown hnew => exact h.frame _ _ _
  | removeProvider id hfree => exact h.frame _ _ _
  | create l requested p startedAt slots hp hnew hpresent =>
      apply h.insert (fits_created hpresent)
      unfold claimOf created
      split
      next => rfl
      next => rfl
  | startEmbedding l p startedAt hp hslot =>
      apply h.alter (tame_started p .embedding startedAt)
      intro row _ hsel _ hfits
      exact fits_started (hasSlot_of_startable hfits hsel) fun _ => hslot
  | startCopying l p startedAt hp hslot hidle =>
      apply h.alter (tame_started p .copying startedAt)
      intro row _ hsel _ hfits
      exact fits_started (hasSlot_of_startable hfits hsel) fun h => by cases h
  | remove l =>
      apply h.alter (tame_removed s.now)
      intro row _ _ _ hfits
      exact ⟨⟨hfits.named, hfits.shadow⟩, hfits.waiting⟩
  | setReferences layers => exact h.frame _ _ _
  | claimCopyable l claim row st p hrow hid hst hcopy hp hpid hnew =>
      exact h.claim (c := { layerId := l, collection := s.collection
                            shadowVector := st.shadowVector
                            dimensions := p.dimensions, claim
                            startedAt := st.startedAt }) rfl rfl hnew
  | renewCopyClaim c hc =>
      apply h.alter (tame_copyRenewed s.now)
      intro row _ _ _ hfits
      exact fits_mapState (fun _ => rfl) (fun _ => rfl) (fun _ => rfl) hfits
  | copyCollection c slots hc hb hslots hnew =>
      exact h.build hc hslots (hbuild c rfl)
  | finishCopy c outstanding row hc hb hrow hid hholds =>
      exact h.finish hc hb hrow hholds (hfinish c rfl)
  | abandonCopy c hc => exact h.withCopiers fun c' => List.mem_of_mem_erase
  | failReindex l error =>
      apply h.alter (tame_reindexFailed error)
      intro row hrow hsel hlive hfits
      simp only [Bool.and_eq_true, decide_eq_true_eq] at hsel
      apply fits_reindexFailed
      cases hcopying : row.copying with
      | false => exact hfits.named hcopying
      | true => exact hfail l rfl row hrow hsel.1 hlive hcopying
  | observe l row st hrow hid hlive hst hphase =>
      apply h.observe
      apply (h.fits row hrow hlive).shadow st hst
      unfold Layer.embedding at hphase
      rw [hst] at hphase
      exact hphase
  | recordCheck l shadow passed hseen =>
      apply h.alter (tame_checkRecorded passed)
      intro row _ _ _ hfits
      exact fits_mapState (fun _ => rfl) (fun _ => rfl) (fun _ => rfl) hfits
  | finishReindexIfDone l shadow before hseen =>
      apply h.alter (tame_switched before s.now)
      intro row _ hsel _ _
      simp only [Bool.and_eq_true] at hsel
      exact fits_switched (h.observed l shadow hseen) hsel.1
  | forgetVector l =>
      apply h.alter tame_vectorForgotten
      intro row _ _ _ hfits
      exact fits_mapState (fun _ => rfl) (fun _ => rfl) (fun _ => rfl) hfits

theorem roomed_init (hs : init s) : Roomed s := by
  obtain ⟨now, collection, global, rest, -, rfl⟩ := hs
  exact
    { present := by
        show (Function.update (fun _ => none) collection _ collection).isSome = true
        rw [Function.update_self]
        rfl
      fits := fun row hrow => by cases hrow
      observed := fun l shadow hseen => by cases hseen
      rowClaim := fun row hrow => by cases hrow
      copierClaim := fun c hc => by cases hc
      source := fun c hc => by cases hc
      built := fun c hc => by cases hc
      target := fun c hc => by cases hc }

/-- In a run whose copies have room for what they release, every live
layer is on a slot of the live collection and, while it is embedded
again, has the slot it moves to. -/
theorem roomy_runs_housed (hs : Reachable (step cfg) Roomy init s) :
    Housed s := by
  have hinv : Roomed s := hs.invariant (fun _ => roomed_init)
    fun t a t' ht hok ha => ht.step hok (step_inv ha)
  intro row hrow hlive
  exact (hinv.fits row hrow hlive).toServed

-- ====================================================== an organization

/-- The installation's default, and two providers of the
organization. -/
def defaultProvider : Provider := ⟨"default", false, "base", 3⟩
def smallProvider : Provider := ⟨"small", true, "small", 2⟩
def largeProvider : Provider := ⟨"large", true, "large", 4⟩

def sampleConfig : Config := ⟨60⟩

def sampleWorld : World where
  now := 100
  collection := "org_a"
  collections := Function.update (fun _ => none) "org_a"
    (some [(defaultProvider.vector, defaultProvider.dimensions)])
  providers := [defaultProvider, smallProvider, largeProvider]
  layers := []
  references := []
  copiers := []
  observed := []
  claims := []

theorem init_sampleWorld : init sampleWorld :=
  ⟨100, "org_a", defaultProvider, [smallProvider, largeProvider], rfl, rfl⟩

/-- The copier of a layer created against `small`. -/
def sampleCopier : Copier where
  layerId := "one"
  collection := "org_a"
  shadowVector := smallProvider.vector
  dimensions := 2
  claim := 7
  startedAt := 100

/-- A layer is created and its slot made, then the layer moves to the
default provider's slot. -/
def migratedWorld : World :=
  (runWithin (step sampleConfig) Roomy sampleWorld
    [.create "one" (some "small") smallProvider 100,
      .claimCopyable "one" 7,
      .copyCollection sampleCopier,
      .finishCopy { sampleCopier with built := true } fun _ _ => false,
      .start "one" "default" 100,
      .observe "one",
      .finishReindexIfDone "one" defaultProvider.vector smallProvider.vector
        false]).get (by decide)

theorem roomy_runs_housed_migrated :
    Housed migratedWorld
      ∧ migratedWorld.layers.map Layer.vectorName = [defaultProvider.vector]
      ∧ migratedWorld.collection = sampleCopier.to :=
  ⟨roomy_runs_housed (reachable_get init_sampleWorld _), by decide, by decide⟩

/-- Two layers against two providers, and a copy for the first. -/
def releasedWorld : World :=
  (runWithin (step sampleConfig) anyStep sampleWorld
    [.create "one" (some "small") smallProvider 100,
      .create "two" (some "large") largeProvider 100,
      .claimCopyable "one" 7,
      .copyCollection sampleCopier,
      .finishCopy { sampleCopier with built := true } fun _ _ => false]).get
    (by decide)

/-- The second layer is complete, on a slot the collection does not
have. -/
theorem released_without_slot :
    ∃ s, Reachable (step sampleConfig) anyStep init s ∧ ¬ Housed s :=
  ⟨releasedWorld, reachable_get init_sampleWorld _, by decide⟩

end Nacre.Layers
