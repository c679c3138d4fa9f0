/-
Whether a layer that is not being embedded again finds its documents:
every current point of every indexed document carries a vector under the
layer's `vector_name`.

# Where the code loses a vector

`finishReindexIfDone` asks that no document of the layer is outstanding.
A document that is being indexed for the first time has no chunks yet,
so it is not; its pass read `vector_name` when it claimed, writes under
the old name and commits after the switch (`commit_after_switch`). The
same statement, `finishCopy`'s and `markReindexed`'s decide by a
snapshot that a commit may have overtaken; a document claimed for
embedding before a copy begins is embedded behind the copy's scroll; and
a slot that was due to be dropped is dropped after the layer has moved
back onto it.

# What holds

`Orderly` is the condition on a run, one clause for each of these.
-/
import Nacre.Lib.Transition
import Nacre.Migration.Carried

namespace Nacre.Migration

open Nacre.Store Transition
open Nacre.Layers (Copier)

variable {μ : Type}

-- ============================================================ the property

def Flight.passOver (l : LayerId) : Flight μ → Bool
  | .pass p => p.layerId = l
  | _ => false

def Holder.passOver (l : LayerId) : Holder μ → Bool
  | .upsert p .. => p.layerId = l
  | .remove .. => false

/-- A pass over the layer is in flight. -/
def World.passOver (s : World μ) (l : LayerId) : Bool :=
  s.flights.any (·.passOver l)
    || s.ids.any fun d => (s.lock d).any (·.passOver l)

/-- A layer with no running reindex and no pass in flight over it has, on
every current point of every indexed document in the live collection, a
vector under its name. -/
def Vectored (s : World μ) : Prop :=
  ∀ l layer, s.schema.layer? l = some layer → layer.running = false →
    s.passOver l = false →
      ∀ d row, s.docs d = some row → row.layerId = l → row.deletedAt = none →
        row.status = .indexed → 0 < row.chunkCount → ∀ id ∈ s.chunks d,
          ∀ pt ∈ s.points s.collection, pt.pointId = id →
            layer.vectorName ∈ pt.vectors

/-- The layer can move to the slot: no pass over it is in flight, and no
document of it is outstanding. -/
def World.clear (s : World μ) (l : LayerId) (vector : String) : Bool :=
  !s.passOver l && !s.outstandingIn l vector

/-- What a run may do for every state of it to be vectored. -/
def Orderly (s : World μ) : Action μ → Prop
  -- a copy begins where nothing is being copied or embedded
  | .claimCopyable .. => ∀ f ∈ s.flights, f.copies = false ∧ f.target? = none
  -- a mark lands on the chunks its snapshot found
  | .markReindexed t => (s.chunks t.docId).isPerm t.ids = true
  -- a layer moves when it can, at the moment it does
  | .finishReindexIfDone l shadow _ => s.clear l shadow = true
  | .finishCopy _ _ waiting =>
      ∀ row ∈ s.schema.layers, ∀ st ∈ row.reindexState, st.copying = true →
        st.shadowVector ≠ row.vectorName → row.id ∉ waiting →
          row.id ∉ s.schema.references → s.clear row.id st.shadowVector = true
  -- a slot is dropped that nobody went back to
  | .dropLayerVector l _ vector =>
      s.schema.nameOf l ≠ some vector
        ∧ (∀ d ∈ s.ids, ∀ row ∈ s.docs d, row.layerId = l → row.served = true →
            0 < row.chunkCount → row.reindexedVector ≠ some vector)
        ∧ ∀ f ∈ s.flights, ∀ t ∈ f.written?, t.layerId = l → t.shadow ≠ vector
  | _ => True

instance (s : World μ) (a : Action μ) : Decidable (Orderly s a) := by
  apply Action.casesOn (motive := fun a => Decidable (Orderly s a)) a
  case claimCopyable => intros; exact inferInstanceAs (Decidable (∀ f ∈ s.flights, _))
  case markReindexed => intros; exact inferInstanceAs (Decidable (_ = true))
  case finishReindexIfDone => intros; exact inferInstanceAs (Decidable (_ = true))
  case finishCopy => intros; exact inferInstanceAs (Decidable (∀ row ∈ s.schema.layers, _))
  case dropLayerVector => intros; exact inferInstanceAs (Decidable (_ ∧ _))
  all_goals intros; exact inferInstanceAs (Decidable True)

variable {cur : String} {s s' : World μ}

-- ============================================================ the switches

theorem settled_of_clear (hs : Sound s) {l : LayerId} {vector : String}
    (h : s.clear l vector = true) : Settled s l (some vector) := by
  unfold World.clear World.passOver at h
  rw [Bool.and_eq_true, Bool.not_eq_true', Bool.not_eq_true',
    Bool.or_eq_false_iff, List.any_eq_false, List.any_eq_false] at h
  obtain ⟨⟨hflights, hlocks⟩, hdone⟩ := h
  refine ⟨?_, ?_, ?_⟩
  · intro p hp hl
    exact hflights _ hp (by simpa [Flight.passOver] using hl)
  · intro d p content stamp ids left swept hlock hl
    obtain ⟨-, -, -, row, hrow, -⟩ := hs.locked d _ hlock
    apply hlocks d (hs.known d row hrow)
    simpa [hlock, Holder.passOver] using hl
  · intro d row hrow hl hserved hcount
    unfold World.outstandingIn at hdone
    have hnot := List.any_eq_false.1 hdone d (hs.known d row hrow)
    by_contra hne
    apply hnot
    simp [hrow, hl, outstanding, (served_iff.1 hserved).1, hcount, hne]

theorem Settled.swap [DecidableEq μ] {l : LayerId} {name : Option String}
    {f : Flight μ} {new : List (Flight μ)} (h : Settled s l name)
    (hnew : ∀ g ∈ new, g.plain = true) : Settled (s.replace f new) l name where
  passes p hp := by
    rcases mem_replace hp with hgn | hold
    · cases hnew _ hgn
    · exact h.passes p hold
  writers := h.writers
  marks := h.marks

/-- The pointer is where the schema says. -/
theorem Carried.pointed (h : Carried cur s) (hcur : s.collection = cur) :
    Carried s.collection s := by
  rw [hcur]
  exact h

/-- The names a finished copy changes are settled. -/
theorem settled_of_finishCopy (hs : Sound s) {c : Copier} {scroll : Scroll μ}
    {waiting : List LayerId} (hok : Orderly s (.finishCopy c scroll waiting))
    {now : Time} (l : LayerId) :
    (s.schema.alter Layer.copying fun row =>
        copyFinished (s.schema.waiting (fun l _ => waiting.contains l) row) now
          row).nameOf l = s.schema.nameOf l
      ∨ Settled s l ((s.schema.alter Layer.copying fun row =>
        copyFinished (s.schema.waiting (fun l _ => waiting.contains l) row) now
          row).nameOf l) := by
  rcases Layers.nameOf_copyFinished with heq | ⟨row, st, hrow, hst, hcopying, hfree, hname⟩
  · exact Or.inl heq
  · rw [hname]
    have hmem : row ∈ s.schema.layers := List.mem_of_find?_eq_some hrow
    have hid : row.id = l := by simpa using List.find?_some hrow
    by_cases hsame : st.shadowVector = row.vectorName
    · left
      unfold Layers.World.nameOf
      rw [hrow, hsame]
      rfl
    · right
      simp only [Layers.World.waiting, hst, Option.any_some, Bool.or_eq_false_iff,
        List.contains_eq_mem, decide_eq_false_iff_not] at hfree
      rw [← hid]
      apply settled_of_clear hs
      exact hok row hmem st hst hcopying hsame hfree.1 hfree.2

-- ================================================================ the step

theorem Carried.step [DecidableEq μ] {cfg : Config} {a : Action μ}
    (h : Carried s.collection s) (hs : Sound s) (hok : Orderly s a)
    (hstep : Stepped cfg s a s') : Carried s'.collection s' := by
  cases hstep with
  | schema a schema hpure hstep =>
      have hheld := h.withStep hs hstep (Layers.switches_of_pure hpure)
        fun c scroll hcopy => hstep.heldBy (by rintro l claim rfl; cases hpure)
      exact hheld.pointed (Layers.collection_of_pure hstep hpure)
  | queueNew d req stamp hfree hrow hlayer =>
      exact (h.queueNew hrow rfl).withIds
  | queueAgain d req stamp row hfree hrow =>
      exact h.rewrite hrow (rewrites_resent req stamp)
  | retry d stamp row row' hfree hrow hretried =>
      exact h.rewrite hrow (rewrites_retried hretried)
  | beginRetag d metadata => exact h.launch (by rintro _ ⟨⟩) rfl rfl
  | updateMetadata d metadata collection stamp row hfree hrow hflight =>
      have hrow' := (h.finished hflight).rewrite hrow (rewrites_retagged metadata stamp)
      apply hrow'.enrich (retouch_setMetadata d metadata).pointId
      intro pt v hv
      split
      next => exact hv
      next => exact hv
  | beginRemove d => exact h.launch (by rintro _ ⟨⟩) rfl rfl
  | lockForRemove d collection stamp row hfree hrow hflight hlive =>
      exact (h.finished hflight).withLock (by rintro _ _ _ _ _ _ ⟨⟩)
  | tombstone d collection stamp hlock =>
      have hlock' : Carried s.collection
          (s.setLock d (some (.remove collection stamp true))) :=
        h.withLock (by rintro _ _ _ _ _ _ ⟨⟩)
      apply hlock'.enrich (retouch_tombstone d).pointId
      intro pt v hv
      split
      next => exact hv
      next => exact hv
  | commitRemove d collection stamp row hlock hrow =>
      have hlock' : Carried s.collection (s.setLock d none) :=
        h.withLock (by rintro _ _ _ _ _ _ ⟨⟩)
      apply hlock'.withRow hrow (show (tombstoned stamp row).layerId = _ from rfl)
      intro hserved
      rw [served_iff] at hserved
      cases hserved.1
  | rollbackRemove d collection stamp flagged hlock =>
      exact h.withLock (by rintro _ _ _ _ _ _ ⟨⟩)
  | claimNext d stamp row layer hfree hrow hlayer hclaim =>
      have hrow' := h.rewrite hrow (rewrites_claimed stamp)
      apply hrow'.launch _ rfl rfl
      intro p heq
      cases heq
      show (s.schema.layer? row.layerId).map Layer.vectorName = _
      rw [hlayer]
      rfl
  | fence p content ids stamp row hfree hrow hflight hnew hfence =>
      have hlock' : Carried s.collection (s.setLock p.docId
          (some (.upsert p content stamp ids ids false))) := h.fence hs hflight hnew
      have hflown := hlock'.finished hflight
      apply hflown.withOwner
      intro id d howner
      have hid : id ∉ ids := by
        intro hid
        have hnone := hnew id hid
        rw [show s.owner id = some d from howner] at hnone
        cases hnone
      show (if id ∈ ids then some p.docId else s.owner id) = some d
      rw [if_neg hid]
      exact howner
  | writePoint d p content stamp ids left id hlock =>
      obtain ⟨-, -, hleft, -⟩ := hs.locked d _ hlock
      exact (h.put hs hlock (hleft id List.mem_cons_self)).relock hlock
  | sweep d p content stamp ids hlock =>
      exact (h.relock hlock).sweep
  | commit d p content stamp ids row hlock hrow => exact h.commit hs hlock hrow
  | rollback d p content stamp ids left swept hlock =>
      have hfreed : Carried s.collection (s.setLock d none) :=
        h.withLock (by rintro _ _ _ _ _ _ ⟨⟩)
      apply hfreed.launch _ rfl rfl
      intro p' heq
      cases heq
      exact (h.writers d p content stamp ids left swept hlock).name
  | recordFailure p failure stamp row hfree hrow hflight =>
      exact (h.finished hflight).rewrite hrow
        (rewrites_failed p.claim failure cfg.maxAttempts stamp)
  | claimStranded d stamp row hfree hrow =>
      exact h.rewrite hrow (rewrites_reaped cfg.maxAttempts stamp)
  | claimCopyable l claim c schema hc hclaim hbuilt hstep =>
      have hclaimed := h.withStep hs hstep rfl fun c' scroll hcopy => by
        cases (hok _ hcopy).1
      have hbegun := hclaimed.claim hc hbuilt hok
      exact hbegun.pointed (hstep.collection (by rintro _ _ ⟨⟩))
  | copyCollection c scroll schema hflight hstep =>
      have hbuilding := h.withStep hs hstep rfl fun c' scroll' hcopy =>
        hstep.heldBy (by rintro _ _ ⟨⟩)
      exact (hbuilding.build hflight).pointed (hstep.collection (by rintro _ _ ⟨⟩))
  | scroll c scroll next hflight hbuilt hmore hpage hforward => exact h.page hflight
  | upsertPage c scroll hflight => exact h.upsertPage hflight
  | snapshotCopy c scroll hflight hbuilt hmore hpage => exact h.snapshot hflight
  | finishCopy c scroll waiting schema hflight hwaiting hstep =>
      cases hstep with
      | finishCopy _ _ row hc hbuilt hrow hid hholds =>
          have hmoved : Carried c.to (s.replace (.copy c scroll)
              [.repair c.to c.startedAt none]) :=
            h.finish hflight ⟨row, hrow, hholds⟩ hbuilt rfl rfl
          apply hmoved.withSchema
          · intro l
            apply (settled_of_finishCopy hs hok l).imp_right
            intro hsettled
            exact hsettled.swap (by simp [Flight.plain])
          · intro c' scroll' hcopy hheld
            exact Layers.heldBy_alter (s := s.schema)
              (Layers.tame_copyFinished _ s.schema.now) hheld
  | repairAfterCopy collection since stamp hflight hfree =>
      have hflown : Carried s.collection (s.replace (.repair collection since none)
          [.repair collection since
            (some (s.ids.filter fun d => (s.docs d).any (retombstones since)))]) := by
        apply h.swap hflight
        simp [Flight.plain, Flight.target?, Flight.written?]
      apply hflown.withDocs
      · intro d row' hrow' hserved
        obtain ⟨row, hrow, rfl⟩ := Option.map_eq_some_iff.1 hrow'
        obtain ⟨hrs, hcount, hmark⟩ := served_repaired hserved
        exact ⟨row, hrow, hrs, repaired_layerId since, hcount, hmark⟩
      · intro d row hrow
        exact ⟨repaired since stamp row, by rw [show s.docs d = some row from hrow]; rfl,
          repaired_layerId since⟩
  | retombstone collection since d rest hflight =>
      have hflown : Carried s.collection
          (s.replace (.repair collection since (some (d :: rest)))
            [.repair collection since (some rest)]) := by
        apply h.swap hflight
        simp [Flight.plain, Flight.target?, Flight.written?]
      apply hflown.enrich (retouch_tombstone d).pointId
      intro pt v hv
      split
      next => exact hv
      next => exact hv
  | skipTombstone collection since d rest hflight =>
      apply h.swap hflight
      simp [Flight.plain, Flight.target?, Flight.written?]
  | finishRepair collection since hflight => exact h.finished hflight
  | claimReindexable d row layer st hrow hlayer hheld =>
      exact h.aim hs rfl rfl hrow rfl hheld
  | addVector t hflight => exact h.embed hflight
  | snapshotMark t hflight hchunks =>
      apply h.swap hflight
      intro g hg
      cases List.mem_singleton.1 hg
      exact ⟨rfl, fun t' ht' => ht', fun t' ht' => Or.inl ht'⟩
  | markReindexed t row hfree hrow hflight =>
      have hmarked := h.mark hflight hrow (List.isPerm_iff.1 hok)
      exact hmarked.finished hflight
  | snapshotSwitch l shadow layer hlayer hdone => exact h.launch (by rintro _ ⟨⟩) rfl rfl
  | finishReindexIfDone l shadow before schema hflight hstep =>
      cases hstep with
      | finishReindexIfDone _ _ _ hseen =>
          apply (h.finished hflight).withSchema
          · intro l'
            rcases Layers.nameOf_switched s.schema l shadow before l' with heq | ⟨rfl, hname⟩
            · exact Or.inl heq
            · right
              rw [hname]
              exact (settled_of_clear hs hok).swap (by rintro _ ⟨⟩)
          · intro c' scroll' hcopy hheld
            exact Layers.heldBy_alter (s := s.schema)
              (Layers.tame_switched before s.schema.now) hheld
  | dueVectors l layer vector hlayer hne => exact h.launch (by rintro _ ⟨⟩) rfl rfl
  | dropLayerVector l collection vector hflight =>
      obtain ⟨hname, hmarks, htargets⟩ := hok
      have hdropped : Carried s.collection (s.setPoints collection fun pts =>
          pts.dropVector (fun d => (s.docs d).any (·.layerId = l)) vector) :=
        h.dropVector hs hname
          (fun d row hrow => hmarks d (hs.known d row hrow) row hrow) htargets
      exact hdropped.finished hflight
  | drop f hflight =>
      have hdropped : Carried s.collection
          { s.replace f [] with schema := dropCopier s.schema f.copier } := by
        apply (h.finished hflight).withSchema
        · intro l
          exact Or.inl (nameOf_dropCopier s.schema f.copier l)
        · intro c scroll hcopy hheld
          unfold Layers.World.heldBy at hheld
          rw [layers_dropCopier] at hheld
          exact hheld
      exact hdropped.pointed (collection_dropCopier s.schema f.copier)

-- ================================================================= the run

theorem carried_init (hs : init s) : Carried s.collection s := by
  obtain ⟨schema, -, rfl⟩ := hs
  exact
    { counted := fun d row hrow => by cases hrow
      chunked := fun d id hid => by cases hid
      passes := fun p hp => by cases hp
      writers := fun d p content stamp ids left swept hlock => by cases hlock
      targets := fun f hf => by cases hf
      solo := Nat.zero_le 1
      sources := fun c scroll hcopy => by cases hcopy
      untargeted := fun c scroll hcopy => by cases hcopy
      carries := fun pt hpt => by
        cases hpt with
        | live hmem => cases hmem
        | copied hcopy => cases hcopy
        | read hcopy => cases hcopy }

/-- In every run whose steps are orderly, every layer finds its
documents. -/
theorem orderly_runs_vectored [DecidableEq μ] {cfg : Config}
    (hs : Reachable (step cfg) Orderly init s) : Vectored s := by
  have hinv : Carried s.collection s := by
    refine hs.invariant_on (I := fun s => Carried s.collection s)
      (fun _ => sound_reachable) (fun _ => carried_init) ?_
    intro t a t' hsound hcarried hok ha
    exact hcarried.step hsound hok (step_inv ha)
  intro l layer hlayer _ _ d row hrow hl hdel hstatus _ id hid pt hpt hptid
  apply hinv.carries pt (.live hpt)
  rw [hptid]
  apply Owes.name hrow (served_iff.2 ⟨hdel, hstatus⟩) hid
  show (s.schema.layer? row.layerId).map Layer.vectorName = _
  rw [hl, hlayer]
  rfl

-- ====================================================== an organization

open Layers (sampleCopier defaultProvider smallProvider)

/-- A collection with both slots, and a document claimed. -/
def claimRun : List (Action Nat) := createRun ++ copyRun [] ++ queueRun

/-- The pass that claimed it. -/
def movedPass : Pass Nat := { samplePass with collection := sampleCopier.to }

/-- The layer moves to the other slot. -/
def switchRun : List (Action Nat) :=
  [.schema (.observe "base"), .snapshotSwitch "base" smallProvider.vector,
    .finishReindexIfDone "base" smallProvider.vector defaultProvider.vector]

def sampleTarget : Target where
  docId := "d"
  layerId := "base"
  collection := sampleCopier.to
  shadow := smallProvider.vector
  ids := ["p1"]

/-- The document is indexed, embedded again and marked before the
switch. -/
def switchedWorld : World Nat :=
  (runWithin (step sampleConfig) Orderly sampleWorld
    (claimRun ++ indexRun movedPass "p1"
      ++ [.schema (.start "base" "small" 100), .claimReindexable "d",
        .addVector sampleTarget, .snapshotMark sampleTarget,
        .markReindexed sampleTarget]
      ++ switchRun)).get (by decide)

theorem orderly_runs_vectored_switched :
    Vectored switchedWorld
      ∧ switchedWorld.schema.nameOf "base" = some smallProvider.vector
      ∧ (switchedWorld.docs "d").any (·.served) = true
      ∧ (switchedWorld.points switchedWorld.collection).map (·.pointId) = ["p1"] :=
  ⟨orderly_runs_vectored (reachable_get init_sampleWorld _), by decide, by decide,
    by decide⟩

/-- The document is claimed before the switch and committed after it. -/
def missedWorld : World Nat :=
  (runWithin (step sampleConfig) anyStep sampleWorld
    (claimRun ++ [.schema (.start "base" "small" 100)] ++ switchRun
      ++ indexRun movedPass "p1")).get (by decide)

/-- It is indexed, and the layer searches a slot it has no vector in. -/
theorem commit_after_switch :
    ∃ s : World Nat, Reachable (step sampleConfig) anyStep init s
      ∧ ¬ Vectored s := by
  refine ⟨missedWorld, reachable_get init_sampleWorld _, fun h => ?_⟩
  have hfound := h "base" ((missedWorld.schema.layer? "base").get (by decide))
    (Option.some_get _).symm (by decide) (by decide) "d"
    ((missedWorld.docs "d").get (by decide)) (Option.some_get _).symm (by decide)
    (by decide) (by decide) (by decide) "p1" (by decide)
    (movedPass.point "p1") (by decide) rfl
  revert hfound
  decide

end Nacre.Migration
