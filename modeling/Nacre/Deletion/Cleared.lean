/-
No point of a deleted layer's documents is searchable.

# What can go wrong

A removal flags the points of the collection it read when it began, and
its documents are deleted as of that moment. A copy that is under way has
scrolled some of them before the flag and writes them unflagged to the
collection it then makes live; the repair after the copy re-asserts the
tombstones of documents deleted since the migration began, and a removal
that began before it is not among these (`removed_during_copy`).

# The condition

`Sequential`: no removal of a layer and no copy overlap. Then the live
collection is clear of deleted layers when a copy starts to read it, and
stays so, and so is what the copy has written.
-/
import Nacre.Deletion.Housed
import Nacre.Migration.Copy

namespace Nacre.Deletion

open Nacre.Store Transition
open Nacre.Layers (Copier)

variable {μ : Type}

-- ============================================================ the property

/-- Every point of a document of a deleted layer is flagged. -/
def Clear (w : Migration.World μ) (points : Points μ) : Prop :=
  ∀ pt ∈ points, ∀ row, w.docs pt.docId = some row →
    gone w.schema row.layerId = true → pt.deleted = true

/-- So it is in the live collection. -/
def Cleared (s : World μ) : Prop := Clear s.base (s.base.points s.base.collection)

/-- No removal of a layer and no copy overlap. -/
def Sequential (s : World μ) : Action μ → Prop
  | .base (.claimCopyable ..) => s.removals = []
  | .begin _ => ∀ f ∈ s.base.flights, f.copier = none
  | _ => True

instance (s : World μ) (a : Action μ) : Decidable (Sequential s a) := by
  cases a with
  | base b =>
      cases b with
      | claimCopyable l claim => exact inferInstanceAs (Decidable (s.removals = []))
      | _ => exact inferInstanceAs (Decidable True)
  | begin l =>
      exact inferInstanceAs (Decidable (∀ f ∈ s.base.flights, f.copier = none))
  | _ => exact inferInstanceAs (Decidable True)

-- ======================================================= what `base` writes

/-- The same document's point, flagged if it was. -/
def Traces (points : Points μ) (pt : Point μ) : Prop :=
  ∃ pt' ∈ points, pt'.docId = pt.docId ∧ (pt'.deleted = true → pt.deleted = true)

theorem traces_map {points : Points μ} {f : Point μ → Point μ} (hf : Retouch f)
    {pt : Point μ} (h : pt ∈ points.map f) : Traces points pt := by
  obtain ⟨pt', hmem, rfl⟩ := List.mem_map.1 h
  exact ⟨pt', hmem, (hf.docId pt').symm, hf.deleted pt'⟩

theorem Traces.of_mem {points : Points μ} {pt : Point μ} (h : pt ∈ points) :
    Traces points pt := ⟨pt, h, rfl, id⟩

variable [DecidableEq μ]

/-- A point of a step was there, or a pass that holds its document has
written it, or a copy has read it. -/
theorem points_step {mcfg : Migration.Config} {w w' : Migration.World μ}
    {b : Migration.Action μ} (h : Migration.Stepped mcfg w b w') {collection : String}
    {pt : Point μ} (hpt : pt ∈ w'.points collection) :
    Traces (w.points collection) pt
      ∨ (∃ d p content stamp ids left swept,
          w.lock d = some (.upsert p content stamp ids left swept) ∧ pt.docId = p.docId)
      ∨ ∃ c scroll, .copy c scroll ∈ w.flights ∧ pt ∈ scroll.page := by
  have hset : ∀ (target : String) (set : Points μ → Points μ),
      pt ∈ Function.update w.points target (set (w.points target)) collection →
      (collection = target ∧ pt ∈ set (w.points collection)) ∨ pt ∈ w.points collection := by
    intro target set hmem
    by_cases hto : collection = target
    · subst hto
      rw [Function.update_self] at hmem
      exact .inl ⟨rfl, hmem⟩
    · rw [Function.update_of_ne hto] at hmem
      exact .inr hmem
  have hmap : ∀ (target : String) (f : Point μ → Point μ), Retouch f →
      pt ∈ Function.update w.points target ((w.points target).map f) collection →
      Traces (w.points collection) pt := by
    intro target f hf hmem
    rcases hset target (fun pts => pts.map f) hmem with ⟨-, hmapped⟩ | hold
    · exact traces_map hf hmapped
    · exact .of_mem hold
  cases h with
  | updateMetadata d metadata target stamp row hfree hrow hflight =>
      exact .inl (hmap target _ (retouch_setMetadata d metadata) hpt)
  | tombstone d target stamp hlock => exact .inl (hmap target _ (retouch_tombstone d) hpt)
  | writePoint d p content stamp ids left id hlock =>
      rcases hset p.collection (fun pts => pts.put (p.point id)) hpt with ⟨-, hput⟩ | hold
      · rcases mem_put.1 hput with rfl | ⟨hmem, -⟩
        · exact .inr (.inl ⟨d, p, content, stamp, ids, id :: left, false, hlock, rfl⟩)
        · exact .inl (.of_mem hmem)
      · exact .inl (.of_mem hold)
  | sweep d p content stamp ids hlock =>
      rcases hset p.collection (fun pts => pts.sweep d ids) hpt with ⟨-, hswept⟩ | hold
      · exact .inl (.of_mem (mem_sweep.1 hswept).1)
      · exact .inl (.of_mem hold)
  | copyCollection c scroll schema hflight hstep =>
      rcases hset c.to (fun _ => []) hpt with ⟨-, hnone⟩ | hold
      · cases hnone
      · exact .inl (.of_mem hold)
  | upsertPage c scroll hflight =>
      rcases hset c.to (fun pts => pts.putAll scroll.page) hpt with ⟨-, hput⟩ | hold
      · rcases mem_putAll hput with hpage | hmem
        · exact .inr (.inr ⟨c, scroll, hflight, hpage⟩)
        · exact .inl (.of_mem hmem)
      · exact .inl (.of_mem hold)
  | retombstone target since d rest hflight =>
      exact .inl (hmap target _ (retouch_tombstone d) hpt)
  | addVector t hflight =>
      exact .inl (hmap t.collection _ (retouch_addVector t.ids t.shadow) hpt)
  | dropLayerVector l target vector hflight =>
      have hf := retouch_dropVector (μ := μ)
        (fun d => (w.docs d).any (·.layerId = l)) vector
      exact .inl (hmap target _ hf hpt)
  | _ => exact .inl (.of_mem hpt)

/-- A copy in flight after a step was in flight, and has read at most one
more page of its source; or it has just built its target; or it has just
been claimed. -/
theorem copies_step {mcfg : Migration.Config} {w w' : Migration.World μ}
    {b : Migration.Action μ} (h : Migration.Stepped mcfg w b w') {c : Copier}
    {scroll : Migration.Scroll μ} (hc : .copy c scroll ∈ w'.flights) :
    (∃ scroll', .copy c scroll' ∈ w.flights
        ∧ ∀ pt ∈ scroll.page, pt ∈ scroll'.page ∨ pt ∈ w.points c.collection)
      ∨ (∃ c' scroll', .copy c' scroll' ∈ w.flights ∧ c = { c' with built := true }
          ∧ scroll.page = [] ∧ w'.points c.to = [])
      ∨ (∃ l claim, b = .claimCopyable l claim) ∧ c.collection = w.collection
          ∧ c.built = false ∧ scroll.page = [] := by
  have hstays : .copy c scroll ∈ w.flights →
      ∃ scroll', .copy c scroll' ∈ w.flights
        ∧ ∀ pt ∈ scroll.page, pt ∈ scroll'.page ∨ pt ∈ w.points c.collection :=
    fun hmem => ⟨scroll, hmem, fun pt hpt => .inl hpt⟩
  have hcons : ∀ f : Migration.Flight μ, f.copier = none →
      .copy c scroll ∈ f :: w.flights → .copy c scroll ∈ w.flights := by
    intro f hplain hmem
    rcases List.mem_cons.1 hmem with heq | hold
    · rw [← heq] at hplain
      cases hplain
    · exact hold
  have hdrop : ∀ f : Migration.Flight μ, .copy c scroll ∈ w.flights.erase f →
      .copy c scroll ∈ w.flights := fun f => List.mem_of_mem_erase
  have hswap : ∀ f g : Migration.Flight μ, g.copier = none →
      .copy c scroll ∈ g :: w.flights.erase f → .copy c scroll ∈ w.flights := by
    intro f g hplain hmem
    rcases List.mem_cons.1 hmem with heq | hold
    · rw [← heq] at hplain
      cases hplain
    · exact hdrop f hold
  cases h with
  | beginRetag d metadata => exact .inl (hstays (hcons _ rfl hc))
  | updateMetadata d metadata target stamp row hfree hrow hflight =>
      exact .inl (hstays (hdrop _ hc))
  | beginRemove d => exact .inl (hstays (hcons _ rfl hc))
  | lockForRemove d target stamp row hfree hrow hflight hlive =>
      exact .inl (hstays (hdrop _ hc))
  | claimNext d stamp row layer hfree hrow hlayer hclaim =>
      exact .inl (hstays (hcons _ rfl hc))
  | fence p content ids stamp row hfree hrow hflight hnew hfence =>
      exact .inl (hstays (hdrop _ hc))
  | rollback d p content stamp ids left swept hlock =>
      exact .inl (hstays (hcons _ rfl hc))
  | recordFailure p failure stamp row hfree hrow hflight =>
      exact .inl (hstays (hdrop _ hc))
  | claimCopyable l claim c' schema hcollection hclaim hbuilt hstep =>
      rcases List.mem_cons.1 hc with heq | hold
      · cases heq
        exact .inr (.inr ⟨⟨l, claim, rfl⟩, hcollection, hbuilt, rfl⟩)
      · exact .inl (hstays hold)
  | copyCollection c' scroll' schema hflight hstep =>
      rcases List.mem_cons.1 hc with heq | hold
      · cases heq
        refine .inr (.inl ⟨c', scroll', hflight, rfl, rfl, ?_⟩)
        exact Function.update_self ..
      · exact .inl (hstays (hdrop _ hold))
  | scroll c' scroll' next hflight hbuilt hmore hpage hforward =>
      rcases List.mem_cons.1 hc with heq | hold
      · cases heq
        exact .inl ⟨scroll', hflight, fun pt hpt => .inr (mem_page.1 hpt).1⟩
      · exact .inl (hstays (hdrop _ hold))
  | upsertPage c' scroll' hflight =>
      rcases List.mem_cons.1 hc with heq | hold
      · cases heq
        exact .inl ⟨scroll', hflight, fun pt hpt => by cases hpt⟩
      · exact .inl (hstays (hdrop _ hold))
  | snapshotCopy c' scroll' hflight hbuilt hmore hpage =>
      rcases List.mem_cons.1 hc with heq | hold
      · cases heq
        exact .inl ⟨scroll', hflight, fun pt hpt => .inl hpt⟩
      · exact .inl (hstays (hdrop _ hold))
  | finishCopy c' scroll' waiting schema hflight hwaiting hstep =>
      exact .inl (hstays (hswap _ _ rfl hc))
  | repairAfterCopy target since stamp hflight hfree =>
      exact .inl (hstays (hswap _ _ rfl hc))
  | retombstone target since d rest hflight =>
      exact .inl (hstays (hswap _ _ rfl hc))
  | skipTombstone target since d rest hflight =>
      exact .inl (hstays (hswap _ _ rfl hc))
  | finishRepair target since hflight => exact .inl (hstays (hdrop _ hc))
  | claimReindexable d row layer st hrow hlayer hheld =>
      exact .inl (hstays (hcons _ rfl hc))
  | addVector t hflight =>
      exact .inl (hstays (hswap _ _ rfl hc))
  | snapshotMark t hflight hchunks =>
      exact .inl (hstays (hswap _ _ rfl hc))
  | markReindexed t row hfree hrow hflight => exact .inl (hstays (hdrop _ hc))
  | snapshotSwitch l shadow layer hlayer hdone => exact .inl (hstays (hcons _ rfl hc))
  | finishReindexIfDone l shadow before schema hflight hstep =>
      exact .inl (hstays (hdrop _ hc))
  | dueVectors l layer vector hlayer hne => exact .inl (hstays (hcons _ rfl hc))
  | dropLayerVector l target vector hflight => exact .inl (hstays (hdrop _ hc))
  | drop f hflight => exact .inl (hstays (hdrop _ hc))
  | _ => exact .inl (hstays hc)

/-- The pointer moves to what a copy has built. -/
theorem collection_step {mcfg : Migration.Config} {w w' : Migration.World μ}
    {b : Migration.Action μ} (h : Migration.Stepped mcfg w b w') :
    w'.collection = w.collection
      ∨ ∃ c scroll, .copy c scroll ∈ w.flights ∧ c.built = true
        ∧ w'.collection = c.to := by
  cases h with
  | schema b schema hpure hstep => exact .inl (Layers.collection_of_pure hstep hpure)
  | claimCopyable l claim c schema hc hclaim hbuilt hstep =>
      exact .inl (hstep.collection nofun)
  | copyCollection c scroll schema hflight hstep => exact .inl (hstep.collection nofun)
  | finishCopy c scroll waiting schema hflight hwaiting hstep =>
      cases hstep with
      | finishCopy _ _ row hc hbuilt hrow hid hholds =>
          exact .inr ⟨c, scroll, hflight, hbuilt, rfl⟩
  | finishReindexIfDone l shadow before schema hflight hstep =>
      exact .inl (hstep.collection nofun)
  | drop f hflight => exact .inl (Migration.collection_dropCopier w.schema f.copier)
  | _ => exact .inl rfl

-- =========================================================== the invariant

structure Clean (w : Migration.World μ) (removals : List Removal) : Prop where
  /-- A removal meets no copy, so the pointer stays where it read it. -/
  apart : ∀ r ∈ removals, ∀ c scroll, .copy c scroll ∉ w.flights
  current : ∀ r ∈ removals, r.collection = w.collection
  flagged : ∀ r ∈ removals, r.progress = .flagged → ∀ pt ∈ w.points w.collection,
    ∀ row, w.docs pt.docId = some row → row.layerId = r.layerId → pt.deleted = true
  cleared : Clear w (w.points w.collection)
  copying : ∀ c scroll, .copy c scroll ∈ w.flights → Clear w (w.points c.collection)
    ∧ Clear w scroll.page ∧ (c.built = true → Clear w (w.points c.to))

variable {w w' : Migration.World μ} {removals : List Removal}

omit [DecidableEq μ] in
/-- Rows and layers go on, and every point was there. -/
theorem Clear.trace {points points' : Points μ} (h : Clear w points)
    (hgone : ∀ l, gone w'.schema l = true → gone w.schema l = true)
    (hrows : ∀ d after, w'.docs d = some after →
      ∃ before, w.docs d = some before ∧ Follows before after)
    (hpts : ∀ pt ∈ points', Traces points pt) : Clear w' points' := by
  intro pt hpt after hafter hlayer
  obtain ⟨before, hbefore, hfollows⟩ := hrows pt.docId after hafter
  obtain ⟨pt', hmem, hdoc, hflag⟩ := hpts pt hpt
  rw [hfollows.layerId] at hlayer
  rw [← hdoc] at hbefore
  exact hflag (h pt' hmem before hbefore (hgone _ hlayer))

omit [DecidableEq μ] in
/-- The document a pass holds is live. -/
theorem live_of_lock (h : Migration.Sound w) {d : DocId} {p : Migration.Pass μ}
    {content : Content} {stamp : Time} {ids left : List PointId} {swept : Bool}
    (hlock : w.lock d = some (.upsert p content stamp ids left swept)) :
    p.docId = d ∧ ∃ row, w.docs d = some row ∧ row.deletedAt = none := by
  obtain ⟨hdoc, -, -, row, hrow, -, hlive, -⟩ := h.locked d _ hlock
  exact ⟨hdoc, row, hrow, hlive⟩

variable {cfg : Config} {s s' : World μ} {a : Action μ}

/-- A step of `base` keeps a collection clear if what the copies have read
is. -/
theorem clear_step (hl : Locked s) {b : Migration.Action μ}
    (hpermits : s.permits b = true)
    (hs : Migration.Stepped cfg.toConfig s.base b w')
    (hpages : ∀ c scroll, .copy c scroll ∈ s.base.flights → Clear s.base scroll.page)
    {collection : String} (h : Clear s.base (s.base.points collection)) :
    Clear w' (w'.points collection) := by
  intro pt hpt after hafter hlayer
  obtain ⟨before, hbefore, hfollows⟩ := rows_step hs (permits_not_send hpermits) hafter
  have hgone : gone s.base.schema before.layerId = true := by
    rw [← hfollows.layerId]
    exact gone_step hs hlayer
  rcases points_step hs hpt with
    ⟨pt', hmem, hdoc, hflag⟩ | ⟨d, p, content, stamp, ids, left, swept, hlock, hdoc⟩
      | ⟨c, scroll, hcopy, hpage⟩
  · rw [← hdoc] at hbefore
    exact hflag (h pt' hmem before hbefore hgone)
  · obtain ⟨hp, row, hrow, hlive⟩ := live_of_lock hl.sound hlock
    rw [hdoc, hp, hrow] at hbefore
    cases hbefore
    rw [hl.housed d before hrow hlive] at hgone
    cases hgone
  · exact hpages c scroll hcopy pt hpage before hbefore hgone

/-- A step of `base` under a removal that has flagged its points. -/
theorem flagged_step (hl : Locked s) (h : Clean s.base s.removals)
    {b : Migration.Action μ} (hpermits : s.permits b = true)
    (hs : Migration.Stepped cfg.toConfig s.base b w') {r : Removal}
    (hr : r ∈ s.removals) (hprogress : r.progress = .flagged) :
    ∀ pt ∈ w'.points s.base.collection, ∀ after, w'.docs pt.docId = some after →
      after.layerId = r.layerId → pt.deleted = true := by
  intro pt hpt after hafter hlayer
  obtain ⟨before, hbefore, hfollows⟩ := rows_step hs (permits_not_send hpermits) hafter
  rw [hfollows.layerId] at hlayer
  rcases points_step hs hpt with
    ⟨pt', hmem, hdoc, hflag⟩ | ⟨d, p, content, stamp, ids, left, swept, hlock, hdoc⟩
      | ⟨c, scroll, hcopy, hpage⟩
  · rw [← hdoc] at hbefore
    exact hflag (h.flagged r hr hprogress pt' hmem before hbefore hlayer)
  · obtain ⟨hp, row, hrow, hlive⟩ := live_of_lock hl.sound hlock
    rw [hdoc, hp, hrow] at hbefore
    cases hbefore
    have hheld := hl.holding r hr (.inr hprogress) d before hrow hlayer hlive
    rw [hl.free r hr d hheld] at hlock
    cases hlock
  · exact absurd hcopy (h.apart r hr c scroll)

theorem Clean.base (h : Clean s.base s.removals) (hl : Locked s)
    {b : Migration.Action μ} (hok : Sequential s (.base b))
    (hpermits : s.permits b = true)
    (hs : Migration.Stepped cfg.toConfig s.base b w') : Clean w' s.removals := by
  have hpages : ∀ c scroll, .copy c scroll ∈ s.base.flights → Clear s.base scroll.page :=
    fun c scroll hcopy => (h.copying c scroll hcopy).2.1
  have hkeep : ∀ {collection}, Clear s.base (s.base.points collection) →
      Clear w' (w'.points collection) := fun hclear => clear_step hl hpermits hs hpages hclear
  have hstill : ∀ r ∈ s.removals, w'.collection = s.base.collection := by
    intro r hr
    rcases collection_step hs with heq | ⟨c, scroll, hcopy, -⟩
    · exact heq
    · exact absurd hcopy (h.apart r hr c scroll)
  refine ⟨?_, ?_, ?_, ?_, ?_⟩
  · intro r hr c scroll hcopy
    rcases copies_step hs hcopy with ⟨scroll', hold, -⟩ | ⟨c', scroll', hold, -⟩ | ⟨hclaim, -⟩
    · exact h.apart r hr c scroll' hold
    · exact h.apart r hr c' scroll' hold
    · obtain ⟨l, claim, rfl⟩ := hclaim
      have hnone : s.removals = [] := hok
      rw [hnone] at hr
      cases hr
  · intro r hr
    rw [hstill r hr]
    exact h.current r hr
  · intro r hr hprogress
    rw [hstill r hr]
    exact flagged_step hl h hpermits hs hr hprogress
  · rcases collection_step hs with heq | ⟨c, scroll, hcopy, hbuilt, heq⟩
    · rw [heq]
      exact hkeep h.cleared
    · rw [heq]
      exact hkeep ((h.copying c scroll hcopy).2.2 hbuilt)
  · intro c scroll hcopy
    have hempty : ∀ {points : Points μ}, points = [] → Clear w' points := by
      intro points hnone pt hpt
      rw [hnone] at hpt
      cases hpt
    rcases copies_step hs hcopy with
      ⟨scroll', hold, hpage⟩ | ⟨c', scroll', hold, rfl, hpage, htarget⟩
        | ⟨-, hcollection, hbuilt, hpage⟩
    · obtain ⟨hsource, hread, htarget⟩ := h.copying c scroll' hold
      refine ⟨hkeep hsource, ?_, fun hbuilt => hkeep (htarget hbuilt)⟩
      -- what was read, and what is read now, of a clear source
      have hunion : Clear s.base (scroll'.page ++ s.base.points c.collection) := by
        intro pt hpt
        rcases List.mem_append.1 hpt with hmem | hmem
        · exact hread pt hmem
        · exact hsource pt hmem
      refine hunion.trace (fun l => gone_step hs)
        (fun d after => rows_step hs (permits_not_send hpermits)) fun pt hpt => ?_
      exact .of_mem (List.mem_append.2 (hpage pt hpt))
    · exact ⟨hkeep (h.copying c' scroll' hold).1, hempty hpage, fun _ => hempty htarget⟩
    · refine ⟨?_, hempty hpage, fun hbuilt' => ?_⟩
      · rw [hcollection]
        exact hkeep h.cleared
      · rw [hbuilt] at hbuilt'
        cases hbuilt'

-- =================================================== the steps outside `base`

omit [DecidableEq μ] in
/-- Rows go on, and points too. -/
theorem Clean.follow (h : Clean w removals) {docs : DocId → Option (Document μ)}
    {points : String → Points μ}
    (hrows : ∀ d after, docs d = some after →
      ∃ before, w.docs d = some before ∧ Follows before after)
    (hpts : ∀ collection, ∀ pt ∈ points collection, Traces (w.points collection) pt) :
    Clean { w with docs, points } removals where
  apart := h.apart
  current := h.current
  flagged r hr hprogress pt hpt after hafter hlayer := by
    obtain ⟨before, hbefore, hfollows⟩ := hrows pt.docId after hafter
    obtain ⟨pt', hmem, hdoc, hflag⟩ := hpts w.collection pt hpt
    rw [hfollows.layerId] at hlayer
    rw [← hdoc] at hbefore
    exact hflag (h.flagged r hr hprogress pt' hmem before hbefore hlayer)
  cleared := h.cleared.trace (fun _ => id) hrows (hpts w.collection)
  copying c scroll hcopy := by
    obtain ⟨hsource, hpage, htarget⟩ := h.copying c scroll hcopy
    exact ⟨hsource.trace (fun _ => id) hrows (hpts c.collection),
      hpage.trace (fun _ => id) hrows fun pt hpt => .of_mem hpt,
      fun hbuilt => (htarget hbuilt).trace (fun _ => id) hrows (hpts c.to)⟩

omit [DecidableEq μ] in
theorem Clear.send {points : Points μ} (h : Clear w points) {d : DocId}
    {row : Document μ} (hlive : gone w.schema row.layerId = false)
    {ids : List DocId} :
    Clear { w.setRow d row with ids } points := by
  intro pt hpt after hafter hgone
  change Function.update w.docs d (some row) pt.docId = some after at hafter
  rcases Table.update_cases hafter with ⟨-, rfl⟩ | ⟨-, hold⟩
  · rw [show gone w.schema after.layerId = true from hgone] at hlive
    cases hlive
  · exact h pt hpt after hold hgone

omit [DecidableEq μ] in
/-- A row of a layer that is live and that no removal has. -/
theorem Clean.send (h : Clean w removals) {d : DocId} {row : Document μ}
    (hlive : gone w.schema row.layerId = false)
    (hfree : ∀ r ∈ removals, r.progress = .flagged → r.layerId ≠ row.layerId)
    (ids : List DocId) : Clean { w.setRow d row with ids } removals where
  apart := h.apart
  current := h.current
  flagged r hr hprogress pt hpt after hafter hlayer := by
    change Function.update w.docs d (some row) pt.docId = some after at hafter
    rcases Table.update_cases hafter with ⟨-, rfl⟩ | ⟨-, hold⟩
    · exact absurd hlayer.symm (hfree r hr hprogress)
    · exact h.flagged r hr hprogress pt hpt after hold hlayer
  cleared := h.cleared.send hlive
  copying c scroll hcopy := by
    obtain ⟨hsource, hpage, htarget⟩ := h.copying c scroll hcopy
    exact ⟨hsource.send hlive, hpage.send hlive, fun hbuilt => (htarget hbuilt).send hlive⟩

omit [DecidableEq μ] in
/-- Fewer removals, or one more that is like an old one. -/
theorem Clean.withRemovals (h : Clean w removals) {removals' : List Removal}
    (hremovals : ∀ r ∈ removals', r ∈ removals
      ∨ r.progress ≠ .flagged ∧ r.collection = w.collection
        ∧ ∀ c scroll, .copy c scroll ∉ w.flights) : Clean w removals' where
  apart r hr := by
    rcases hremovals r hr with hold | ⟨-, -, hnone⟩
    · exact h.apart r hold
    · exact hnone
  current r hr := by
    rcases hremovals r hr with hold | ⟨-, hcollection, -⟩
    · exact h.current r hold
    · exact hcollection
  flagged r hr hprogress := by
    rcases hremovals r hr with hold | ⟨hnot, -⟩
    · exact h.flagged r hold hprogress
    · exact absurd hprogress hnot
  cleared := h.cleared
  copying := h.copying

omit [DecidableEq μ] in
/-- A removal goes on without having flagged. -/
theorem Clean.advance (h : Clean s.base s.removals) {r r' : Removal}
    (hr : r ∈ s.removals) (hprogress : r'.progress ≠ .flagged)
    (hcollection : r'.collection = r.collection) :
    Clean (s.replace r [r']).base (s.replace r [r']).removals := by
  refine h.withRemovals fun r'' hr'' => ?_
  rcases mem_replace hr'' with hnew | hold
  · cases List.mem_singleton.1 hnew
    exact .inr ⟨hprogress, hcollection.trans (h.current r hr), h.apart r hr⟩
  · exact .inl hold

omit [DecidableEq μ] in
/-- The points of the layer's documents are flagged. -/
theorem Clean.tombstoneLayer (h : Clean s.base s.removals) {r : Removal}
    (hr : r ∈ s.removals) :
    Clean (s.base.setPoints r.collection fun pts => pts.tombstoneLayer
        fun d => (s.base.docs d).any (·.layerId = r.layerId))
      (s.replace r [{ r with progress := .flagged }]).removals := by
  have hf := retouch_tombstoneLayer (μ := μ)
    fun d => (s.base.docs d).any (·.layerId = r.layerId)
  have hpoints : Clean (s.base.setPoints r.collection fun pts => pts.tombstoneLayer
      fun d => (s.base.docs d).any (·.layerId = r.layerId)) s.removals := by
    refine h.follow (fun d after hafter => ⟨after, hafter, .refl after⟩) ?_
    intro collection pt hpt
    by_cases hc : collection = r.collection
    · subst hc
      rw [Function.update_self] at hpt
      exact traces_map hf hpt
    · rw [Function.update_of_ne hc] at hpt
      exact .of_mem hpt
  refine ⟨fun r' hr' => ?_, fun r' hr' => ?_, fun r' hr' hprogress => ?_, hpoints.cleared,
    hpoints.copying⟩
  · exact h.apart r hr
  · rcases mem_replace hr' with hnew | hold
    · cases List.mem_singleton.1 hnew
      exact h.current r hr
    · exact h.current r' hold
  · rcases mem_replace hr' with hnew | hold
    · cases List.mem_singleton.1 hnew
      intro pt hpt row hrow hlayer
      change pt ∈ Function.update s.base.points r.collection _ s.base.collection at hpt
      rw [← h.current r hr, Function.update_self] at hpt
      obtain ⟨pt', hmem, rfl⟩ := List.mem_map.1 hpt
      change s.base.docs _ = some row at hrow
      rw [hf.docId] at hrow
      have hin : (s.base.docs pt'.docId).any (·.layerId = r.layerId) = true := by
        rw [hrow]
        exact decide_eq_true hlayer
      rw [if_pos hin]
    · exact hpoints.flagged r' hold hprogress

omit [DecidableEq μ] in
/-- A removal commits: its layer is gone, and its points are flagged. -/
theorem Clean.commit (h : Clean s.base s.removals) {r : Removal} {schema : Layers.World}
    (hr : r ∈ s.removals) (hprogress : r.progress = .flagged)
    (hstep : Layers.Stepped cfg.layers s.base.schema (.remove r.layerId) schema) :
    Clean { s.base with
        schema
        docs := fun d => (s.base.docs d).map (removedWith r.layerId r.stamp) }
      (s.replace r []).removals where
  apart r' hr' := h.apart r hr
  current r' hr' :=
    (h.current r' (List.mem_of_mem_erase hr')).trans (hstep.collection nofun).symm
  flagged r' hr' hprogress' pt hpt after hafter hlayer := by
    change pt ∈ s.base.points schema.collection at hpt
    rw [hstep.collection nofun] at hpt
    obtain ⟨before, hbefore, rfl⟩ := Option.map_eq_some_iff.1 hafter
    rw [(follows_removedWith _ _ before).layerId] at hlayer
    exact h.flagged r' (List.mem_of_mem_erase hr') hprogress' pt hpt before hbefore hlayer
  cleared pt hpt after hafter hgone := by
    change pt ∈ s.base.points schema.collection at hpt
    rw [hstep.collection nofun] at hpt
    obtain ⟨before, hbefore, rfl⟩ := Option.map_eq_some_iff.1 hafter
    rw [(follows_removedWith _ _ before).layerId] at hgone
    rcases gone_remove hstep hgone with hbefore' | hlayer
    · exact h.cleared pt hpt before hbefore hbefore'
    · exact h.flagged r hr hprogress pt hpt before hbefore hlayer
  copying c scroll hcopy := absurd hcopy (h.apart r hr c scroll)

theorem Clean.step (h : Clean s.base s.removals) (hl : Locked s) (hok : Sequential s a)
    (hs : Stepped cfg s a s') : Clean s'.base s'.removals := by
  cases hs with
  | base b base hpermits hstep => exact h.base hl hok hpermits hstep
  | queueNew q hq hrow hfree =>
      refine h.send (hl.shared q hq).1 (fun r hr hprogress heq => ?_) _
      have hlocks := (hl.shared q hq).2 r hr
      rw [← show r.layerId = q.req.layerId from heq,
        locks_of_holds (.inr hprogress)] at hlocks
      cases hlocks
  | queueAgain q row hq hfree hrow hlayer =>
      have hlive : gone s.base.schema (resent q.req q.stamp row).layerId = false := by
        show gone s.base.schema row.layerId = false
        rw [hlayer]
        exact (hl.shared q hq).1
      refine h.send hlive (fun r hr hprogress heq => ?_) _
      have hlocks := (hl.shared q hq).2 r hr
      rw [← hlayer, ← show r.layerId = row.layerId from heq,
        locks_of_holds (.inr hprogress)] at hlocks
      cases hlocks
  | begin l =>
      refine h.withRemovals fun r hr => ?_
      rcases List.mem_cons.1 hr with rfl | hr
      · refine .inr ⟨nofun, rfl, fun c scroll hcopy => ?_⟩
        cases hok _ hcopy
      · exact .inl hr
  | lockLayer r hr hprogress hlive hshared hfree => exact h.advance hr nofun rfl
  | lockDocuments r hr hprogress hfree => exact h.advance hr nofun rfl
  | tombstoneLayer r hr hprogress => exact h.tombstoneLayer hr
  | commit r schema hr hprogress hstep => exact h.commit hr hprogress hstep
  | rollback r hr =>
      exact h.withRemovals fun r' hr' => .inl (List.mem_of_mem_erase hr')
  | claimPurgeable d row hfree hrow =>
      have hfollows : Follows row (purgeClaimed s.base.schema.now row) := ⟨rfl, id⟩
      exact h.follow (fun d' after hafter => follows_update hrow hafter hfollows)
        fun _ pt hpt => .of_mem hpt
  | purge sw =>
      refine h.follow (fun d after hafter => ⟨after, hafter, .refl after⟩) ?_
      intro collection pt hpt
      by_cases hc : collection = sw.collection
      · subst hc
        rw [Function.update_self] at hpt
        exact .of_mem (mem_purge.1 hpt).1
      · rw [Function.update_of_ne hc] at hpt
        exact .of_mem hpt
  | markPurged sw row hfree hrow =>
      exact h.follow
        (fun d' after hafter => follows_update hrow hafter (follows_markedPurged _ row))
        fun _ pt hpt => .of_mem hpt
  | _ => exact h

omit [DecidableEq μ] in
theorem clean_init (hs : init s) : Clean s.base s.removals := by
  obtain ⟨base, ⟨schema, -, rfl⟩, rfl⟩ := hs
  refine ⟨?_, ?_, ?_, ?_, ?_⟩
  · intro r hr
    cases hr
  · intro r hr
    cases hr
  · intro r hr
    cases hr
  · intro pt hpt
    cases hpt
  · intro c scroll hcopy
    cases hcopy

-- ============================================================== whole runs

theorem locked_reachable {ok : World μ → Action μ → Prop}
    (hs : Reachable (step cfg) ok init s) : Locked s :=
  hs.invariant (fun _ => locked_init) fun _ _ _ h _ ha => h.step (step_inv ha)

/-- In every run no live document is in a deleted layer; in every run in
which removals and copies do not overlap, no point of a deleted layer's
documents is unflagged in the live collection either. -/
theorem removals_hold :
    (Reachable (step cfg) anyStep init s → Housed s)
      ∧ (Reachable (step cfg) Sequential init s → Housed s ∧ Cleared s) := by
  constructor
  · intro hs
    exact (locked_reachable hs).housed
  · intro hs
    have hinv : Clean s.base s.removals := by
      refine hs.invariant_on (I := fun s => Clean s.base s.removals)
        (fun _ => locked_reachable) (fun _ => clean_init) ?_
      intro t a t' hlocked hclean hok ha
      exact hclean.step hlocked hok (step_inv ha)
    exact ⟨(locked_reachable hs).housed, hinv.cleared⟩

-- ====================================================== an organization

open Layers (sampleCopier smallProvider)
open Migration (samplePass)

def deletionConfig : Config := ⟨Migration.sampleConfig, 0, 900⟩

def sampleWorld : World Nat := ⟨Migration.sampleWorld, [], [], []⟩

theorem init_sampleWorld : init sampleWorld :=
  ⟨Migration.sampleWorld, Migration.init_sampleWorld, rfl⟩

def sampleSend : Send Nat where
  docId := "d"
  req := { layerId := "base", contentHash := "h", metadata := 1 }
  stamp := 100

/-- A layer, and a document of it that is indexed. -/
def documentRun : List (Action Nat) :=
  Migration.createRun.map .base
    ++ [.writableLayer sampleSend, .queue sampleSend, .base (.claimNext "d" 100)]
    ++ (Migration.indexRun samplePass "p1").map .base

/-- The layer's removal, as it begins. -/
def sampleRemoval : Removal where
  layerId := "base"
  collection := "org_a"
  stamp := 100

/-- The removal, from its locks to its commit. -/
def removeRun : List (Action Nat) :=
  [.lockLayer sampleRemoval, .lockDocuments { sampleRemoval with progress := .locked },
    .tombstoneLayer { sampleRemoval with progress := .holding, docs := ["d"] },
    .commit { sampleRemoval with progress := .flagged, docs := ["d"] }]

def removedWorld : World Nat :=
  (runWithin (step deletionConfig) Sequential sampleWorld
    (documentRun ++ [.begin "base"] ++ removeRun)).get (by decide)

theorem removals_hold_removed :
    (Housed removedWorld ∧ Cleared removedWorld)
      ∧ gone removedWorld.base.schema "base" = true
      ∧ (removedWorld.base.points removedWorld.base.collection).map (·.deleted) = [true] :=
  ⟨removals_hold.2 (reachable_get init_sampleWorld _), by decide, by decide⟩

/-- A copy that begins after the removal has. -/
def lateCopier : Layers.Copier := { sampleCopier with startedAt := 101 }

/-- It scrolls the point, and ends with its repair after the removal has
committed. -/
def overlapRun : List (Action Nat) :=
  [.begin "base", .base (.schema .tick),
    .base (.schema (.create "one" (some "small") smallProvider 101)),
    .base (.claimCopyable "one" 7), .base (.copyCollection lateCopier {}),
    .base (.scroll { lateCopier with built := true } {} none)]
    ++ removeRun
    ++ [.base (.upsertPage { lateCopier with built := true }
        { more := false, page := [samplePass.point "p1"] }),
      .base (.snapshotCopy { lateCopier with built := true } { more := false }),
      .base (.finishCopy { lateCopier with built := true }
        { more := false, waiting := some [] } []),
      .base (.repairAfterCopy lateCopier.to 101 101),
      .base (.finishRepair lateCopier.to 101)]

def overlappedWorld : World Nat :=
  (runWithin (step deletionConfig) anyStep sampleWorld (documentRun ++ overlapRun)).get
    (by decide)

/-- Everything is at rest, and the point of the deleted layer's document
is searchable. -/
theorem removed_during_copy :
    ∃ s : World Nat, Reachable (step deletionConfig) anyStep init s
      ∧ Migration.Quiet s.base ∧ s.removals = [] ∧ ¬ (Housed s ∧ Cleared s) := by
  refine ⟨overlappedWorld, reachable_get init_sampleWorld _, by decide, by decide,
    fun h => ?_⟩
  have hflag := h.2 (samplePass.point "p1") (by decide)
    ((overlappedWorld.base.docs "d").get (by decide)) (Option.some_get _).symm (by decide)
  cases hflag

end Nacre.Deletion
