/-
What holds in every run of the migration system, whatever the order of
its steps: each point carries the document its id was minted for, each
lock is held over the row it was taken on, each pass is over a document
of its layer, and each document's layer is there.

The lemmas are one for each part of the state a step can write; the step
theorem puts them together.
-/
import Nacre.Layers.Slots
import Nacre.Lib.Solo
import Nacre.Migration.System

namespace Nacre.Migration

open Nacre.Store
open Nacre.Layers (Copier)

variable {μ : Type} {cfg : Config} {s s' : World μ}

-- =========================================================== the invariant

/-- What a lock on a document's row says about it. -/
def Held (owner : PointId → Option DocId) (docs : DocId → Option (Document μ))
    (d : DocId) : Holder μ → Prop
  | .upsert p _ _ ids left _ =>
      p.docId = d ∧ (∀ id ∈ ids, owner id = some d) ∧ (∀ id ∈ left, id ∈ ids)
        ∧ ∃ row, docs d = some row ∧ row.status = .parsing
            ∧ row.deletedAt = none ∧ row.layerId = p.layerId
  | .remove .. => ∃ row, docs d = some row ∧ row.deletedAt = none

/-- The points were minted for the documents they carry. -/
def Minted (owner : PointId → Option DocId) (points : Points μ) : Prop :=
  ∀ pt ∈ points, owner pt.pointId = some pt.docId

structure Sound (s : World μ) : Prop where
  known : ∀ d row, s.docs d = some row → d ∈ s.ids
  homed : ∀ d row, s.docs d = some row →
    (s.schema.nameOf row.layerId).isSome = true
  minted : ∀ collection, Minted s.owner (s.points collection)
  paged : ∀ c scroll, .copy c scroll ∈ s.flights → Minted s.owner scroll.page
  passed : ∀ p, .pass p ∈ s.flights →
    ∃ row, s.docs p.docId = some row ∧ row.layerId = p.layerId
  locked : ∀ d holder, s.lock d = some holder → Held s.owner s.docs d holder

-- ================================================================ fields

section Fields

variable (s) (d : DocId) (row : Document μ) (holder : Option (Holder μ))
  (collection : String) (set : Points μ → Points μ)

@[simp] theorem setRow_self : (s.setRow d row).docs d = some row :=
  Function.update_self ..

theorem setRow_ne {d' : DocId} (h : d' ≠ d) :
    (s.setRow d row).docs d' = s.docs d' :=
  Function.update_of_ne h ..

@[simp] theorem setLock_self : (s.setLock d holder).lock d = holder :=
  Function.update_self ..

theorem setLock_ne {d' : DocId} (h : d' ≠ d) :
    (s.setLock d holder).lock d' = s.lock d' :=
  Function.update_of_ne h ..

@[simp] theorem setPoints_self :
    (s.setPoints collection set).points collection = set (s.points collection) :=
  Function.update_self ..

theorem setPoints_ne {collection' : String} (h : collection' ≠ collection) :
    (s.setPoints collection set).points collection' = s.points collection' :=
  Function.update_of_ne h ..

end Fields

/-- A flight that was there, or one of the new ones. -/
theorem mem_replace [DecidableEq μ] {f g : Flight μ} {new : List (Flight μ)}
    (h : g ∈ (s.replace f new).flights) : g ∈ new ∨ g ∈ s.flights := by
  rcases List.mem_append.1 h with hnew | hold
  · exact Or.inl hnew
  · exact Or.inr (List.mem_of_mem_erase hold)

-- ==================================================== one kind of write each

theorem Sound.withSchema (h : Sound s) {schema : Layers.World}
    (hlayers : ∀ l, (s.schema.nameOf l).isSome = true →
      (schema.nameOf l).isSome = true) :
    Sound { s with schema } where
  known := h.known
  homed d row hrow := hlayers _ (h.homed d row hrow)
  minted := h.minted
  paged := h.paged
  passed := h.passed
  locked := h.locked

/-- A document nobody holds gets another row of its layer. -/
theorem Sound.withRow (h : Sound s) {d : DocId} {row row' : Document μ}
    (hfree : s.lock d = none) (hrow : s.docs d = some row)
    (hlayer : row'.layerId = row.layerId) : Sound (s.setRow d row') where
  known d' new hnew := by
    by_cases hd : d' = d
    · rw [hd]
      exact h.known d row hrow
    · rw [setRow_ne s d row' hd] at hnew
      exact h.known d' new hnew
  homed d' new hnew := by
    by_cases hd : d' = d
    · subst hd
      rw [setRow_self] at hnew
      cases hnew
      rw [hlayer]
      exact h.homed d' row hrow
    · rw [setRow_ne s d row' hd] at hnew
      exact h.homed d' new hnew
  minted := h.minted
  paged := h.paged
  passed p hp := by
    obtain ⟨old, hold, hp_layer⟩ := h.passed p hp
    by_cases hd : p.docId = d
    · subst hd
      cases hrow.symm.trans hold
      exact ⟨row', setRow_self .., hlayer.trans hp_layer⟩
    · exact ⟨old, by rw [setRow_ne s d row' hd]; exact hold, hp_layer⟩
  locked d' holder hlock := by
    have hd : d' ≠ d := by
      intro heq
      subst heq
      rw [show s.lock d' = some holder from hlock] at hfree
      cases hfree
    have hheld := h.locked d' holder hlock
    cases holder with
    | upsert p content stamp ids left swept =>
        unfold Held at hheld ⊢
        rw [setRow_ne s d row' hd]
        exact hheld
    | remove collection stamp flagged =>
        unfold Held at hheld ⊢
        rw [setRow_ne s d row' hd]
        exact hheld

/-- Flights come and go: what a new one carries must be sound. -/
theorem Sound.withFlights (h : Sound s) {flights : List (Flight μ)}
    (hcopy : ∀ c scroll, .copy c scroll ∈ flights → Minted s.owner scroll.page)
    (hpass : ∀ p, .pass p ∈ flights →
      ∃ row, s.docs p.docId = some row ∧ row.layerId = p.layerId) :
    Sound { s with flights } where
  known := h.known
  homed := h.homed
  minted := h.minted
  paged := hcopy
  passed := hpass
  locked := h.locked

theorem Sound.withPoints (h : Sound s) {collection : String}
    {set : Points μ → Points μ} (hset : Minted s.owner (set (s.points collection))) :
    Sound (s.setPoints collection set) where
  known := h.known
  homed := h.homed
  minted collection' := by
    by_cases hc : collection' = collection
    · subst hc
      rw [setPoints_self]
      exact hset
    · rw [setPoints_ne s collection set hc]
      exact h.minted collection'
  paged := h.paged
  passed := h.passed
  locked := h.locked

theorem Sound.withLock (h : Sound s) {d : DocId} {holder : Option (Holder μ)}
    (hheld : ∀ holder', holder = some holder' → Held s.owner s.docs d holder') :
    Sound (s.setLock d holder) where
  known := h.known
  homed := h.homed
  minted := h.minted
  paged := h.paged
  passed := h.passed
  locked d' holder' hlock := by
    by_cases hd : d' = d
    · subst hd
      rw [setLock_self] at hlock
      exact hheld holder' hlock
    · rw [setLock_ne s d holder hd] at hlock
      exact h.locked d' holder' hlock

/-- Ids are minted that nobody had. -/
theorem Sound.withOwner (h : Sound s) {owner : PointId → Option DocId}
    (hext : ∀ id d, s.owner id = some d → owner id = some d) :
    Sound { s with owner } where
  known := h.known
  homed := h.homed
  minted collection pt hpt := hext _ _ (h.minted collection pt hpt)
  paged c scroll hc pt hpt := hext _ _ (h.paged c scroll hc pt hpt)
  passed := h.passed
  locked d holder hlock := by
    have hheld := h.locked d holder hlock
    cases holder with
    | upsert p content stamp ids left swept =>
        obtain ⟨hdoc, hids, hleft, hrow⟩ := hheld
        exact ⟨hdoc, fun id hid => hext _ _ (hids id hid), hleft, hrow⟩
    | remove collection stamp flagged => exact hheld

theorem Sound.withChunks (h : Sound s) {chunks : DocId → List PointId} :
    Sound { s with chunks } where
  known := h.known
  homed := h.homed
  minted := h.minted
  paged := h.paged
  passed := h.passed
  locked := h.locked

/-- One statement over many rows keeps layers, and rows somebody holds. -/
theorem Sound.mapRows (h : Sound s) {set : Document μ → Document μ}
    (hlayer : ∀ row, (set row).layerId = row.layerId)
    (hkeep : ∀ d row, s.docs d = some row → row.deletedAt = none → s.lock d ≠ none →
      set row = row) :
    Sound { s with docs := fun d => (s.docs d).map set } where
  known d new hnew := by
    obtain ⟨row, hrow, -⟩ := Option.map_eq_some_iff.1 hnew
    exact h.known d row hrow
  homed d new hnew := by
    obtain ⟨row, hrow, rfl⟩ := Option.map_eq_some_iff.1 hnew
    rw [hlayer]
    exact h.homed d row hrow
  minted := h.minted
  paged := h.paged
  passed p hp := by
    obtain ⟨row, hrow, hp_layer⟩ := h.passed p hp
    refine ⟨set row, ?_, (hlayer row).trans hp_layer⟩
    show (s.docs p.docId).map _ = _
    rw [hrow]
    rfl
  locked d holder hlock := by
    have hheld := h.locked d holder hlock
    have hbusy : s.lock d ≠ none := by
      rw [show s.lock d = some holder from hlock]
      nofun
    cases holder with
    | upsert p content stamp' ids left swept =>
        obtain ⟨hdoc, hids, hleft, row, hrow, hstatus, hlive, hp_layer⟩ := hheld
        refine ⟨hdoc, hids, hleft, row, ?_, hstatus, hlive, hp_layer⟩
        show (s.docs d).map _ = _
        rw [hrow, Option.map_some, hkeep d row hrow hlive hbusy]
    | remove collection stamp' flagged =>
        obtain ⟨row, hrow, hlive⟩ := hheld
        refine ⟨row, ?_, hlive⟩
        show (s.docs d).map _ = _
        rw [hrow, Option.map_some, hkeep d row hrow hlive hbusy]

/-- `repairAfterCopy` waits for the rows it requeues. -/
theorem Sound.withRepair (h : Sound s) {since stamp : Time}
    (hfree : ∀ d ∈ s.ids, (s.docs d).any (requeuedSince since) = true →
      s.lock d = none) :
    Sound { s with docs := fun d => (s.docs d).map (repaired since stamp) } := by
  refine h.mapRows (fun row => repaired_layerId since) fun d row hrow hlive hbusy => ?_
  have hstays : requeuedSince since row = false := by
    rw [Bool.eq_false_iff]
    intro hagain
    exact hbusy (hfree d (h.known d row hrow) (by rw [hrow]; exact hagain))
  unfold repaired retombstones
  rw [hstays, hlive]
  rfl

-- ================================================================ the step

theorem minted_put {owner : PointId → Option DocId} {points : Points μ}
    {point : Point μ} (h : Minted owner points)
    (hpoint : owner point.pointId = some point.docId) :
    Minted owner (points.put point) := by
  intro pt hpt
  rcases mem_put.1 hpt with rfl | ⟨hpt, -⟩
  · exact hpoint
  · exact h pt hpt

theorem minted_sweep {owner : PointId → Option DocId} {points : Points μ}
    {d : DocId} {keep : List PointId} (h : Minted owner points) :
    Minted owner (points.sweep d keep) :=
  fun pt hpt => h pt (mem_sweep.1 hpt).1

theorem minted_map {owner : PointId → Option DocId} {points : Points μ}
    {f : Point μ → Point μ} (h : Minted owner points) (hf : Retouch f) :
    Minted owner (points.map f) := by
  intro pt hpt
  obtain ⟨old, hold, rfl⟩ := List.mem_map.1 hpt
  rw [hf.pointId, hf.docId]
  exact h old hold

theorem minted_putAll {owner : PointId → Option DocId}
    {points page : Points μ} (h : Minted owner points)
    (hpage : Minted owner page) : Minted owner (points.putAll page) := by
  intro pt hpt
  rcases mem_putAll hpt with hmem | hmem
  · exact hpage pt hmem
  · exact h pt hmem

/-- A flight that carries neither a page nor a pass. -/
def Flight.plain : Flight μ → Bool
  | .pass _ | .copy .. => false
  | _ => true

/-- Flights end, and plain ones begin. -/
theorem Sound.replace [DecidableEq μ] (h : Sound s) {f : Flight μ}
    {new : List (Flight μ)} (hplain : ∀ g ∈ new, g.plain = true) :
    Sound (s.replace f new) := by
  apply h.withFlights
  · intro c scroll hc
    rcases mem_replace hc with hnew | hold
    · cases hplain _ hnew
    · exact h.paged c scroll hold
  · intro p hp
    rcases mem_replace hp with hnew | hold
    · cases hplain _ hnew
    · exact h.passed p hold

/-- A plain flight begins. -/
theorem Sound.launch (h : Sound s) {f : Flight μ} (hplain : f.plain = true) :
    Sound { s with flights := f :: s.flights } := by
  apply h.withFlights
  · intro c scroll hc
    rcases List.mem_cons.1 hc with rfl | hold
    · cases hplain
    · exact h.paged c scroll hold
  · intro p hp
    rcases List.mem_cons.1 hp with rfl | hold
    · cases hplain
    · exact h.passed p hold

/-- A copy goes on with another page. -/
theorem Sound.scroll [DecidableEq μ] (h : Sound s) {f : Flight μ} {c : Copier}
    {scroll : Scroll μ} (hpage : Minted s.owner scroll.page) :
    Sound (s.replace f [.copy c scroll]) := by
  apply h.withFlights
  · intro c' scroll' hc
    rcases mem_replace hc with hnew | hold
    · cases List.mem_singleton.1 hnew
      exact hpage
    · exact h.paged c' scroll' hold
  · intro p hp
    rcases mem_replace hp with hnew | hold
    · cases List.mem_singleton.1 hnew
    · exact h.passed p hold

/-- A copy begins. -/
theorem Sound.copy (h : Sound s) {c : Copier} {scroll : Scroll μ}
    (hpage : Minted s.owner scroll.page) :
    Sound { s with flights := .copy c scroll :: s.flights } := by
  apply h.withFlights
  · intro c' scroll' hc
    rcases List.mem_cons.1 hc with heq | hold
    · cases heq
      exact hpage
    · exact h.paged c' scroll' hold
  · intro p hp
    rcases List.mem_cons.1 hp with heq | hold
    · cases heq
    · exact h.passed p hold

theorem nameOf_dropCopier (schema : Layers.World) (copier : Option Copier)
    (l : LayerId) : (dropCopier schema copier).nameOf l = schema.nameOf l := by
  cases copier with
  | none => rfl
  | some c => rfl

theorem collection_dropCopier (schema : Layers.World) (copier : Option Copier) :
    (dropCopier schema copier).collection = schema.collection := by
  cases copier with
  | none => rfl
  | some c => rfl

theorem layers_dropCopier (schema : Layers.World) (copier : Option Copier) :
    (dropCopier schema copier).layers = schema.layers := by
  cases copier with
  | none => rfl
  | some c => rfl

/-- A pass over a document of its layer is in flight. -/
theorem Sound.pass (h : Sound s) {p : Pass μ} {row : Document μ}
    (hrow : s.docs p.docId = some row) (hlayer : row.layerId = p.layerId) :
    Sound { s with flights := .pass p :: s.flights } := by
  apply h.withFlights
  · intro c scroll hc
    rcases List.mem_cons.1 hc with heq | hold
    · cases heq
    · exact h.paged c scroll hold
  · intro p' hp
    rcases List.mem_cons.1 hp with heq | hold
    · cases heq
      exact ⟨row, hrow, hlayer⟩
    · exact h.passed p' hold

theorem Sound.queueNew (h : Sound s) {d : DocId} {req : IngestRequest μ}
    {stamp : Time} (hfree : s.lock d = none) (hnone : s.docs d = none)
    (hlayer : (s.schema.nameOf req.layerId).isSome = true) :
    Sound { s.setRow d (queued req stamp) with ids := d :: s.ids } where
  known d' row hrow := by
    by_cases hd : d' = d
    · rw [hd]
      exact List.mem_cons_self
    · rw [setRow_ne s d _ hd] at hrow
      exact List.mem_cons_of_mem _ (h.known d' row hrow)
  homed d' row hrow := by
    by_cases hd : d' = d
    · subst hd
      rw [setRow_self] at hrow
      cases hrow
      exact hlayer
    · rw [setRow_ne s d _ hd] at hrow
      exact h.homed d' row hrow
  minted := h.minted
  paged := h.paged
  passed p hp := by
    obtain ⟨row, hrow, hp_layer⟩ := h.passed p hp
    have hd : p.docId ≠ d := by
      intro heq
      subst heq
      rw [hnone] at hrow
      cases hrow
    exact ⟨row, by rw [setRow_ne s d _ hd]; exact hrow, hp_layer⟩
  locked d' holder hlock := by
    have hd : d' ≠ d := by
      intro heq
      subst heq
      rw [show s.lock d' = some holder from hlock] at hfree
      cases hfree
    have hheld := h.locked d' holder hlock
    cases holder with
    | upsert p content stamp' ids left swept =>
        unfold Held at hheld ⊢
        rw [setRow_ne s d _ hd]
        exact hheld
    | remove collection stamp' flagged =>
        unfold Held at hheld ⊢
        rw [setRow_ne s d _ hd]
        exact hheld

theorem Sound.step [DecidableEq μ] (h : Sound s) {a : Action μ}
    (hs : Stepped cfg s a s') : Sound s' := by
  cases hs with
  | schema a schema hpure hstep => exact h.withSchema fun l => hstep.layer_stays
  | queueNew d req stamp hfree hrow hlayer =>
      apply h.queueNew hfree hrow
      unfold Layers.World.nameOf
      rw [Option.isSome_map]
      exact hlayer
  | queueAgain d req stamp row hfree hrow => exact h.withRow hfree hrow rfl
  | retry d stamp row row' hfree hrow hretried =>
      exact h.withRow hfree hrow (rewrites_retried hretried).layerId
  | beginRetag d metadata => exact h.launch rfl
  | updateMetadata d metadata collection stamp row hfree hrow hflight =>
      have hflown : Sound (s.replace (.retag d metadata collection stamp) []) :=
        h.replace fun _ h => nomatch h
      have hrow' := hflown.withRow hfree hrow
        (show (retagged metadata stamp row).layerId = row.layerId from rfl)
      exact hrow'.withPoints
        (minted_map (hrow'.minted collection) (retouch_setMetadata d metadata))
  | beginRemove d => exact h.launch rfl
  | lockForRemove d collection stamp row hfree hrow hflight hlive =>
      have hflown : Sound (s.replace (.remove d collection stamp) []) :=
        h.replace fun _ h => nomatch h
      apply hflown.withLock
      intro _ heq
      cases heq
      exact ⟨row, hrow, hlive⟩
  | tombstone d collection stamp hlock =>
      have hheld := h.locked d _ hlock
      have hlock' : Sound (s.setLock d (some (.remove collection stamp true))) := by
        apply h.withLock
        intro _ heq
        cases heq
        exact hheld
      exact hlock'.withPoints
        (minted_map (hlock'.minted collection) (retouch_tombstone d))
  | commitRemove d collection stamp row hlock hrow =>
      have hlock' : Sound (s.setLock d none) := h.withLock fun _ h => nomatch h
      exact hlock'.withRow (setLock_self ..) hrow
        (show (tombstoned stamp row).layerId = row.layerId from rfl)
  | rollbackRemove d collection stamp flagged hlock => exact h.withLock fun _ h => nomatch h
  | claimNext d stamp row layer hfree hrow hlayer hclaim =>
      have hrow' := h.withRow hfree hrow
        (show (claimed stamp row).layerId = row.layerId from rfl)
      exact hrow'.pass (setRow_self ..) rfl
  | fence p content ids stamp row hfree hrow hflight hnew hfence =>
      have hflown : Sound (s.replace (.pass p) []) := h.replace fun _ h => nomatch h
      obtain ⟨-, hstatus, hlive⟩ := fence_iff.1 hfence
      obtain ⟨row', hrow', hlayer⟩ := h.passed p hflight
      cases hrow.symm.trans hrow'
      have howner : Sound { s.replace (.pass p) [] with
          owner := fun id => if id ∈ ids then some p.docId else s.owner id } := by
        apply hflown.withOwner
        intro id d hid
        have hid_new : id ∉ ids := by
          intro hmem
          have hnone := hnew id hmem
          rw [show s.owner id = some d from hid] at hnone
          cases hnone
        rw [if_neg hid_new]
        exact hid
      apply howner.withLock
      intro _ heq
      cases heq
      exact ⟨rfl, fun id hid => if_pos hid, fun _ hid => hid, row, hrow, hstatus,
        hlive, hlayer⟩
  | writePoint d p content stamp ids left id hlock =>
      obtain ⟨hdoc, hids, hleft, hrow⟩ := h.locked d _ hlock
      have hlock' : Sound (s.setLock d
          (some (.upsert p content stamp ids left false))) := by
        apply h.withLock
        intro _ heq
        cases heq
        exact ⟨hdoc, hids, fun id' hid' => hleft id' (List.mem_cons_of_mem _ hid'),
          hrow⟩
      apply hlock'.withPoints
      apply minted_put (hlock'.minted p.collection)
      show s.owner id = some p.docId
      rw [hdoc]
      exact hids id (hleft id List.mem_cons_self)
  | sweep d p content stamp ids hlock =>
      have hheld := h.locked d _ hlock
      have hlock' : Sound (s.setLock d
          (some (.upsert p content stamp ids [] true))) := by
        apply h.withLock
        intro _ heq
        cases heq
        exact hheld
      exact hlock'.withPoints (minted_sweep (hlock'.minted p.collection))
  | commit d p content stamp ids row hlock hrow =>
      have hlock' : Sound (s.setLock d none) := h.withLock fun _ h => nomatch h
      have hrow' := hlock'.withRow (setLock_self ..) hrow
        (show (upserted content ids.length stamp row).layerId = row.layerId from rfl)
      exact hrow'.withChunks
  | rollback d p content stamp ids left swept hlock =>
      obtain ⟨hdoc, -, -, row, hrow, -, -, hlayer⟩ := h.locked d _ hlock
      have hlock' : Sound (s.setLock d none) := h.withLock fun _ h => nomatch h
      rw [← hdoc] at hrow
      exact hlock'.pass hrow hlayer
  | recordFailure p failure stamp row hfree hrow hflight =>
      have hflown : Sound (s.replace (.pass p) []) := h.replace fun _ h => nomatch h
      exact hflown.withRow hfree hrow (rewrites_failed ..).layerId
  | claimStranded d stamp row hfree hrow => exact h.withRow hfree hrow rfl
  | claimCopyable l claim c schema hc hclaim hbuilt hstep =>
      have hschema := h.withSchema fun l => hstep.layer_stays
      exact hschema.copy fun _ h => nomatch h
  | copyCollection c scroll schema hflight hstep =>
      have hflown : Sound (s.replace (.copy c scroll)
          [.copy { c with built := true } {}]) := h.scroll fun _ h => nomatch h
      have hempty : Sound ((s.replace (.copy c scroll)
          [.copy { c with built := true } {}]).setPoints c.to fun _ => []) :=
        hflown.withPoints fun _ h => nomatch h
      exact hempty.withSchema fun l => hstep.layer_stays
  | scroll c scroll next hflight hbuilt hmore hpage hforward =>
      apply h.scroll
      intro pt hpt
      exact h.minted c.collection pt (mem_page.1 hpt).1
  | upsertPage c scroll hflight =>
      have hflown : Sound (s.replace (.copy c scroll)
          [.copy c { scroll with page := [] }]) := h.scroll fun _ h => nomatch h
      exact hflown.withPoints
        (minted_putAll (hflown.minted c.to) (h.paged c scroll hflight))
  | snapshotCopy c scroll hflight hbuilt hmore hpage =>
      exact h.scroll (h.paged c scroll hflight)
  | finishCopy c scroll waiting schema hflight hwaiting hstep =>
      have hflown : Sound (s.replace (.copy c scroll)
          [.repair c.to c.startedAt none]) := h.replace (by simp [Flight.plain])
      exact hflown.withSchema fun l => hstep.layer_stays
  | repairAfterCopy collection since stamp hflight hfree =>
      have hflown := h.replace (f := .repair collection since none)
        (show ∀ g ∈ [.repair collection since (some (s.ids.filter fun d =>
          (s.docs d).any (retombstones since)))], Flight.plain g = true by
            simp [Flight.plain])
      exact hflown.withRepair hfree
  | retombstone collection since d rest hflight =>
      have hflown : Sound (s.replace (.repair collection since (some (d :: rest)))
          [.repair collection since (some rest)]) := h.replace (by simp [Flight.plain])
      exact hflown.withPoints
        (minted_map (hflown.minted collection) (retouch_tombstone d))
  | skipTombstone collection since d rest hflight =>
      exact h.replace (by simp [Flight.plain])
  | finishRepair collection since hflight => exact h.replace fun _ h => nomatch h
  | claimReindexable d row layer st hrow hlayer hheld => exact h.launch rfl
  | addVector t hflight =>
      have hflown : Sound (s.replace (.target t false) [.target t true]) :=
        h.replace (by simp [Flight.plain])
      exact hflown.withPoints
        (minted_map (hflown.minted t.collection) (retouch_addVector t.ids t.shadow))
  | snapshotMark t hflight hchunks => exact h.replace (by simp [Flight.plain])
  | markReindexed t row hfree hrow hflight =>
      have hflown : Sound (s.replace (.mark t) []) := h.replace fun _ h => nomatch h
      exact hflown.withRow hfree hrow
        (show (marked t.shadow row).layerId = row.layerId from rfl)
  | snapshotSwitch l shadow layer hlayer hdone => exact h.launch rfl
  | finishReindexIfDone l shadow before schema hflight hstep =>
      have hflown : Sound (s.replace (.switch l shadow before) []) :=
        h.replace fun _ h => nomatch h
      exact hflown.withSchema fun l => hstep.layer_stays
  | dueVectors l layer vector hlayer hne => exact h.launch rfl
  | dropLayerVector l collection vector hflight =>
      have hflown : Sound (s.replace (.due l collection vector) []) :=
        h.replace fun _ h => nomatch h
      exact hflown.withPoints (minted_map (hflown.minted collection)
        (retouch_dropVector (fun d => (s.docs d).any (·.layerId = l)) vector))
  | drop f hflight =>
      have hflown : Sound (s.replace f []) := h.replace fun _ h => nomatch h
      apply hflown.withSchema
      intro l hl
      rw [nameOf_dropCopier]
      exact hl

theorem sound_init (hs : init s) : Sound s := by
  obtain ⟨schema, -, rfl⟩ := hs
  exact
    { known := fun d row hrow => by cases hrow
      homed := fun d row hrow => by cases hrow
      minted := fun collection pt hpt => by cases hpt
      paged := fun c scroll hc => by cases hc
      passed := fun p hp => by cases hp
      locked := fun d holder hlock => by cases hlock }

theorem sound_reachable [DecidableEq μ] {ok : World μ → Action μ → Prop}
    (hs : Transition.Reachable (step cfg) ok init s) : Sound s :=
  hs.invariant (fun _ => sound_init) fun _ _ _ h _ ha => h.step (step_inv ha)

-- ====================================================== an organization

def sampleConfig : Config := ⟨60, 3, 1000, 60⟩

def sampleWorld : World Nat where
  schema := Layers.sampleWorld
  docs := fun _ => none
  ids := []
  chunks := fun _ => []
  points := fun _ => []
  lock := fun _ => none
  flights := []
  owner := fun _ => none

theorem init_sampleWorld : init sampleWorld :=
  ⟨Layers.sampleWorld, Layers.init_sampleWorld, rfl⟩

open Layers (sampleCopier defaultProvider smallProvider)

/-- The pass that claims the first document of the layer `base`. -/
def samplePass : Pass Nat where
  docId := "d"
  layerId := "base"
  claim := 100
  metadata := 1
  collection := "org_a"
  vectorName := defaultProvider.vector

/-- The copy for a layer created against `small`, from its claim to the
last tombstone of its repair. -/
def copyRun (waiting : Points Nat) : List (Action Nat) :=
  [.schema (.create "one" (some "small") smallProvider 100),
    .claimCopyable "one" 7,
    .copyCollection sampleCopier {},
    .scroll { sampleCopier with built := true } {} none,
    .upsertPage { sampleCopier with built := true }
      { more := false, page := waiting },
    .snapshotCopy { sampleCopier with built := true } { more := false },
    .finishCopy { sampleCopier with built := true }
      { more := false, waiting := some [] } [],
    .repairAfterCopy sampleCopier.to 100 100,
    .finishRepair sampleCopier.to 100]

/-- A layer on the default provider's slot. -/
def createRun : List (Action Nat) :=
  [.schema (.create "base" (some "default") defaultProvider 100)]

def queueRun : List (Action Nat) :=
  [.queue "d" { layerId := "base", contentHash := "h", metadata := 1 } 100,
    .claimNext "d" 100]

/-- A pass from the fence to its commit, with one point. -/
def indexRun (p : Pass Nat) (id : PointId) : List (Action Nat) :=
  [.fence p ⟨"h", none⟩ [id] 100, .writePoint "d", .sweep "d", .commit "d"]

end Nacre.Migration
