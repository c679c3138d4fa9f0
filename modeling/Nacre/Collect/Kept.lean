/-
What the collector leaves of a document that came back.

# What can go wrong

The sweep's last look at `deleted_at` comes before two calls that cannot
be undone, and an ingest request puts its object before it writes the row
that would stop the sweep. So a re-send between the look and
`removeObject` leaves a live document without its object
(`resent_without_object`), one between the look and `purge` can leave an
indexed one without points, and one that is deleted again before
`markPurged` is marked as purged with its points still in the index.

# The condition

`Apart`: a row statement of an ingest request commits only while every
sweep of the document has claimed it and nothing more; an object is
removed only while no request of the document is in flight; and no URL is
sent that hashes like the text or the file it replaces, for the row then
keeps a source whose object may be gone.
-/
import Nacre.Collect.System
import Nacre.Ingest.Placed
import Nacre.Objects.Versions

namespace Nacre.Collect

open Nacre.Store Nacre.Ingest Transition

variable {μ : Type} [DecidableEq μ] {cfg : Config} {s s' : World μ} {a : Action μ}

-- ============================================================ the property

/-- The index has no point of the document. -/
def Empty (points : Points μ) (d : DocId) : Prop := ∀ pt ∈ points, pt.docId ≠ d

/-- A live document has its object and, once indexed, its points; a
deleted one can be claimed from some moment on, or has none. -/
structure Kept (cfg : Config) (s : World μ) : Prop where
  object : ∀ d row, s.store.base.docs d = some row → row.deletedAt = none →
    row.sourceType = "s3" → s.store.bucket d ≠ none
  points : Settled s.store.base.docs s.store.base.chunks s.store.base.points
  claimable : ∀ d row, s.store.base.docs d = some row → row.deletedAt ≠ none →
    (∃ since : Nat, ∀ now : Nat, since ≤ now →
        purgeable cfg.graceSeconds cfg.sweepLeaseSeconds now row = true)
      ∨ Empty s.store.base.points d

/-- Every sweep of the document has claimed it and nothing more. -/
def World.unchecked (s : World μ) (d : DocId) : Prop :=
  ∀ sw ∈ s.sweeps, sw.docId = d → sw.stage = .claimed

instance (s : World μ) (d : DocId) : Decidable (s.unchecked d) :=
  inferInstanceAs (Decidable (∀ sw ∈ s.sweeps, sw.docId = d → sw.stage = .claimed))

def Apart (s : World μ) : Action μ → Prop
  | .store (.upsert c) => s.unchecked c.docId ∧ s.store.keepsObject c = false
  | .removeObject sw => s.store.idle sw.docId
  | _ => True

instance (s : World μ) (a : Action μ) : Decidable (Apart s a) := by
  apply Action.casesOn (motive := fun a => Decidable (Apart s a)) a
  case store =>
    intro a
    apply Objects.Action.casesOn (motive := fun a => Decidable (Apart s (.store a))) a
    case upsert => exact fun _ => inferInstanceAs (Decidable (_ ∧ _))
    all_goals intros; exact inferInstanceAs (Decidable True)
  case removeObject => exact fun sw => inferInstanceAs (Decidable (s.store.idle sw.docId))
  all_goals intros; exact inferInstanceAs (Decidable True)

-- =========================================================== the invariant

/-- The rows and the index, against the sweeps. -/
structure Swept (base : Ingest.World μ) (sweeps : List Sweep) : Prop where
  fenced : Fenced base
  placed : Placed base.points base.lock base.minted
  settled : Settled base.docs base.chunks base.points
  unmarked : ∀ d row, base.docs d = some row → row.deletedAt = none →
    row.vectorsPurgedAt = none
  marked : ∀ d row, base.docs d = some row → row.vectorsPurgedAt ≠ none →
    Empty base.points d
  /-- Past its look, a sweep's document stays deleted. -/
  checked : ∀ sw ∈ sweeps, sw.stage ≠ .claimed → ∀ row,
    base.docs sw.docId = some row → row.deletedAt ≠ none
  purged : ∀ sw ∈ sweeps, sw.stage = .purged ∨ sw.stage = .removed →
    Empty base.points sw.docId

/-- The bucket, against the rows and the requests. -/
structure Held (store : Objects.World μ) : Prop where
  rows : ∀ d row, store.base.docs d = some row → row.deletedAt = none →
    row.sourceType = "s3" → store.bucket d ≠ none
  calls : ∀ c ∈ store.calls, c.object ≠ none → store.bucket c.docId ≠ none

-- ======================================================= points and passes

/-- A step writes points of live documents only. -/
theorem points_step {icfg : Ingest.Config} {w w' : Ingest.World μ}
    {b : Ingest.Action μ} (hf : Fenced w) (h : Ingest.Stepped icfg w b w')
    {pt : Point μ} (hpt : pt ∈ w'.points) :
    (∃ pt' ∈ w.points, pt'.docId = pt.docId)
      ∨ ∃ row, w.docs pt.docId = some row ∧ row.deletedAt = none := by
  have hpayload : ∀ d (set : Point μ → Point μ), (∀ pt, (set pt).docId = pt.docId) →
      pt ∈ w.points.setPayload d set → ∃ pt' ∈ w.points, pt'.docId = pt.docId := by
    intro d set hdoc hset
    rcases mem_setPayload.1 hset with ⟨hmem, -⟩ | ⟨pt', hmem, -, rfl⟩
    · exact ⟨pt, hmem, rfl⟩
    · exact ⟨pt', hmem, (hdoc pt').symm⟩
  cases h with
  | updateMetadata d metadata row hfree hrow =>
      exact .inl (hpayload d (fun pt => { pt with metadata }) (fun _ => rfl) hpt)
  | writePoint d p content ids left id hlock =>
      rcases mem_put.1 hpt with rfl | ⟨hmem, -⟩
      · obtain ⟨hdoc, -, row, hrow, hfence⟩ := hf.upserting d _ _ _ _ _ hlock
        refine .inr ⟨row, ?_, (fence_iff.1 hfence).2.2⟩
        show w.docs p.docId = some row
        rw [hdoc]
        exact hrow
      · exact .inl ⟨pt, hmem, rfl⟩
  | sweep d p content ids hlock => exact .inl ⟨pt, (mem_sweep.1 hpt).1, rfl⟩
  | tombstone d hlock =>
      exact .inl (hpayload d (fun pt => { pt with deleted := true }) (fun _ => rfl) hpt)
  | _ => exact .inl ⟨pt, hpt, rfl⟩

/-- Nor of a document whose rows are all deleted. -/
theorem Empty.step {icfg : Ingest.Config} {w w' : Ingest.World μ}
    {b : Ingest.Action μ} {d : DocId} (h : Empty w.points d) (hf : Fenced w)
    (hs : Ingest.Stepped icfg w b w')
    (hdeleted : ∀ row, w.docs d = some row → row.deletedAt ≠ none) :
    Empty w'.points d := by
  intro pt hpt hdoc
  rcases points_step hf hs hpt with ⟨pt', hmem, hdoc'⟩ | ⟨row, hrow, hlive⟩
  · exact h pt' hmem (hdoc'.trans hdoc)
  · rw [hdoc] at hrow
    exact hdeleted row hrow hlive

omit [DecidableEq μ] in
theorem Empty.purge {points : Points μ} {d d' : DocId} (h : Empty points d) :
    Empty (points.purge d') d :=
  fun pt hpt => h pt (mem_purge.1 hpt).1

-- ===================================================== what the rows keep

section Base

variable {base base' : Ingest.World μ} {sweeps : List Sweep}

omit [DecidableEq μ] in
/-- What is marked is deleted. -/
theorem Swept.deleted_of_marked (h : Swept base sweeps) {d : DocId} {row : Document μ}
    (hrow : base.docs d = some row) (hmarked : row.vectorsPurgedAt ≠ none) :
    row.deletedAt ≠ none :=
  fun hlive => hmarked (h.unmarked d row hrow hlive)

theorem ne_claimed {stage : Stage} (h : stage = .purged ∨ stage = .removed) :
    stage ≠ .claimed := by
  rcases h with rfl | rfl
  · nofun
  · nofun

/-- The row a send leaves has no mark. -/
theorem Swept.sent_unmarked (h : Swept base sweeps) {icfg : Ingest.Config} {d : DocId}
    {values : IngestRequest μ} {after : Document μ}
    (hs : Ingest.Stepped icfg base (.queue d values) base')
    (hafter : base'.docs d = some after) : after.vectorsPurgedAt = none := by
  cases hs with
  | queueNew _ _ hfree hrow =>
      rw [setRow_self] at hafter
      cases hafter
      rfl
  | queueAgain _ _ row hfree hrow =>
      rw [setRow_self] at hafter
      cases hafter
      cases hagain : requeues values row with
      | true => simp [resent, hagain]
      | false =>
          have hlive := (resent_of_not_requeues base.now hagain).2.2.2
          simpa [resent, hagain] using h.unmarked d row hrow hlive

/-- A step of the requests and the passes that sends nothing. -/
theorem Swept.descend (h : Swept base sweeps) {icfg : Ingest.Config}
    {b : Ingest.Action μ} (hs : Ingest.Stepped icfg base b base')
    (hsend : ∀ d req, b ≠ .queue d req) : Swept base' sweeps where
  fenced := h.fenced.step hs
  placed := placed_step h.fenced h.placed hs
  settled := settled_step h.fenced h.placed h.settled hs
  unmarked d after hafter hlive := by
    obtain ⟨before, hbefore, hkeeps⟩ := Objects.descends_step hs hsend hafter
    rw [hkeeps.vectorsPurgedAt]
    refine h.unmarked d before hbefore (Classical.not_not.1 fun hdeleted => ?_)
    exact hkeeps.deletedAt hdeleted hlive
  marked d after hafter hmarked := by
    obtain ⟨before, hbefore, hkeeps⟩ := Objects.descends_step hs hsend hafter
    rw [hkeeps.vectorsPurgedAt] at hmarked
    refine (h.marked d before hbefore hmarked).step h.fenced hs fun row hrow => ?_
    rw [hbefore] at hrow
    cases hrow
    exact h.deleted_of_marked hbefore hmarked
  checked sw hsw hstage after hafter := by
    obtain ⟨before, hbefore, hkeeps⟩ := Objects.descends_step hs hsend hafter
    exact hkeeps.deletedAt (h.checked sw hsw hstage before hbefore)
  purged sw hsw hstage :=
    (h.purged sw hsw hstage).step h.fenced hs (h.checked sw hsw (ne_claimed hstage))

/-- A row statement of a request whose document no sweep has looked at. -/
theorem Swept.send (h : Swept base sweeps) {icfg : Ingest.Config} {d : DocId}
    {values : IngestRequest μ}
    (hs : Ingest.Stepped icfg base (.queue d values) base')
    (hunchecked : ∀ sw ∈ sweeps, sw.docId = d → sw.stage = .claimed) :
    Swept base' sweeps where
  fenced := h.fenced.step hs
  placed := placed_step h.fenced h.placed hs
  settled := settled_step h.fenced h.placed h.settled hs
  unmarked d' after hafter hlive := by
    rcases Objects.queued_step hs hafter with ⟨-, hbefore⟩ | ⟨rfl, -⟩
    · exact h.unmarked d' after hbefore hlive
    · exact h.sent_unmarked hs hafter
  marked d' after hafter hmarked := by
    rcases Objects.queued_step hs hafter with ⟨-, hbefore⟩ | ⟨rfl, -⟩
    · refine (h.marked d' after hbefore hmarked).step h.fenced hs fun row hrow => ?_
      rw [hbefore] at hrow
      cases hrow
      exact h.deleted_of_marked hbefore hmarked
    · exact absurd (h.sent_unmarked hs hafter) hmarked
  checked sw hsw hstage after hafter := by
    rcases Objects.queued_step hs hafter with ⟨-, hbefore⟩ | ⟨hd, -⟩
    · exact h.checked sw hsw hstage after hbefore
    · exact absurd (hunchecked sw hsw hd) hstage
  purged sw hsw hstage :=
    (h.purged sw hsw hstage).step h.fenced hs (h.checked sw hsw (ne_claimed hstage))

omit [DecidableEq μ] in
/-- The row of a deleted document is written, and stays deleted. -/
theorem Swept.rewrite (h : Swept base sweeps) {d : DocId} {row row' : Document μ}
    (hfree : base.lock d = none) (hrow : base.docs d = some row)
    (hdeleted : row.deletedAt ≠ none) (hsame : row'.deletedAt = row.deletedAt)
    (hmarked : row'.vectorsPurgedAt ≠ none →
      row.vectorsPurgedAt ≠ none ∨ Empty base.points d) :
    Swept (base.setRow d row') sweeps where
  fenced := h.fenced.withRow hfree row' fun _ => h.fenced.deleted d row hrow hdeleted
  placed := h.placed
  settled := h.settled.withRow fun hlive => absurd (hsame ▸ hlive) hdeleted
  unmarked d' after hafter hlive := by
    by_cases hd : d' = d
    · subst hd
      rw [setRow_self] at hafter
      cases hafter
      exact absurd (hsame ▸ hlive) hdeleted
    · rw [setRow_ne _ _ _ hd] at hafter
      exact h.unmarked d' after hafter hlive
  marked d' after hafter hpurged := by
    by_cases hd : d' = d
    · subst hd
      rw [setRow_self] at hafter
      cases hafter
      rcases hmarked hpurged with hbefore | hempty
      · exact h.marked d' row hrow hbefore
      · exact hempty
    · rw [setRow_ne _ _ _ hd] at hafter
      exact h.marked d' after hafter hpurged
  checked sw hsw hstage after hafter := by
    by_cases hd : sw.docId = d
    · rw [hd, setRow_self] at hafter
      cases hafter
      rw [hsame]
      exact hdeleted
    · rw [setRow_ne _ _ _ hd] at hafter
      exact h.checked sw hsw hstage after hafter
  purged := h.purged

omit [DecidableEq μ] in
/-- The points of a deleted document go. -/
theorem Swept.purge (h : Swept base sweeps) {d : DocId}
    (hdeleted : ∀ row, base.docs d = some row → row.deletedAt ≠ none) :
    Swept { base with points := base.points.purge d } sweeps where
  fenced := h.fenced.withPoints fun pt hpt => ⟨pt, (mem_purge.1 hpt).1, rfl, id⟩
  placed := by
    refine h.placed.withPoints (fun pt hpt => ⟨pt, (mem_purge.1 hpt).1, rfl, rfl⟩) ?_
    intro d' p content ids left swept hlock id hid hpresent
    obtain ⟨-, -, row, hrow, hfence⟩ := h.fenced.upserting d' _ _ _ _ _ hlock
    obtain ⟨pt, hpt, hdoc, hpoint⟩ := hpresent
    refine ⟨pt, mem_purge.2 ⟨hpt, fun heq => ?_⟩, hdoc, hpoint⟩
    obtain rfl := hdoc.symm.trans heq
    exact hdeleted row hrow (fence_iff.1 hfence).2.2
  settled := by
    refine h.settled.withPoints fun d' row hrow hlive _ id hpresent => ?_
    obtain ⟨pt, hpt, hdoc, hpoint⟩ := hpresent
    refine ⟨pt, mem_purge.2 ⟨hpt, fun heq => ?_⟩, hdoc, hpoint⟩
    obtain rfl := hdoc.symm.trans heq
    exact hdeleted row hrow hlive
  unmarked := h.unmarked
  marked d' row hrow hmarked := (h.marked d' row hrow hmarked).purge
  checked := h.checked
  purged sw hsw hstage := (h.purged sw hsw hstage).purge

omit [DecidableEq μ] in
/-- Fewer sweeps, or one more of which as much is known. -/
theorem Swept.withSweeps (h : Swept base sweeps) {sweeps' : List Sweep}
    (hsweeps : ∀ sw ∈ sweeps', sw ∈ sweeps
      ∨ (sw.stage ≠ .claimed → ∀ row, base.docs sw.docId = some row →
          row.deletedAt ≠ none)
        ∧ (sw.stage = .purged ∨ sw.stage = .removed → Empty base.points sw.docId)) :
    Swept base sweeps' where
  fenced := h.fenced
  placed := h.placed
  settled := h.settled
  unmarked := h.unmarked
  marked := h.marked
  checked sw hsw := by
    rcases hsweeps sw hsw with hold | ⟨hchecked, -⟩
    · exact h.checked sw hold
    · exact hchecked
  purged sw hsw := by
    rcases hsweeps sw hsw with hold | ⟨-, hpurged⟩
    · exact h.purged sw hold
    · exact hpurged

end Base

-- =================================================== what the bucket keeps

section Bucket

variable {store store' : Objects.World μ}

omit [DecidableEq μ] in
theorem stored_ne_none {c : Objects.Call μ} {d : DocId} (h : store.bucket d ≠ none) :
    store.stored c d ≠ none := by
  unfold Objects.World.stored
  cases c.object with
  | none => exact h
  | some object =>
      by_cases hd : d = c.docId
      · subst hd
        show Function.update store.bucket c.docId (some object) c.docId ≠ none
        rw [Function.update_self]
        nofun
      · show Function.update store.bucket c.docId (some object) d ≠ none
        rw [Function.update_of_ne hd]
        exact h

omit [DecidableEq μ] in
/-- The rows are written by something that sends nothing. -/
theorem Held.descend (h : Held store) {base : Ingest.World μ}
    (hrows : ∀ d after, base.docs d = some after →
      ∃ before, store.base.docs d = some before ∧ Objects.Descends before after) :
    Held { store with base } where
  rows d after hafter hlive htype := by
    obtain ⟨before, hbefore, hkeeps⟩ := hrows d after hafter
    rw [hkeeps.sourceType] at htype
    refine h.rows d before hbefore (Classical.not_not.1 fun hdeleted => ?_) htype
    exact hkeeps.deletedAt hdeleted hlive
  calls := h.calls

omit [DecidableEq μ] in
theorem Held.put (h : Held store) (c : Objects.Call μ) :
    Held { store with bucket := store.stored c, calls := c :: store.calls } where
  rows d row hrow hlive htype := stored_ne_none (h.rows d row hrow hlive htype)
  calls c' hc' hobject := by
    rcases List.mem_cons.1 hc' with rfl | hc'
    · show store.stored c' c'.docId ≠ none
      rw [Objects.stored_self hobject]
      exact hobject
    · exact stored_ne_none (h.calls c' hc' hobject)

theorem Held.accept (h : Held store) {icfg : Ingest.Config} {c : Objects.Call μ}
    {values : IngestRequest μ} {base : Ingest.World μ} (hc : c ∈ store.calls)
    (hvalues : c.values = some values) (hkeeps : store.keepsObject c = false)
    (hs : Ingest.Stepped icfg store.base (.queue c.docId values) base)
    (version : DocId → Option Object) (accepted : DocId → List Object) :
    Held { store with base, calls := store.calls.erase c, version, accepted } where
  rows d after hafter hlive htype := by
    rcases Objects.queued_step hs hafter with ⟨-, hbefore⟩ | ⟨rfl, -, -, hsource⟩
    · exact h.rows d after hbefore hlive htype
    · rcases Objects.Call.values_cases hvalues with ⟨object, hobject, -, -⟩ | ⟨hobject, hurl⟩
      · refine h.calls c hc ?_
        rw [hobject]
        nofun
      -- a URL: the row would be one that keeps its object
      · exfalso
        rcases hsource with hsource | ⟨row, hrow, hhash, hsource⟩
        · rw [htype, hurl] at hsource
          exact absurd hsource (by decide)
        · simp [Objects.World.keepsObject, hobject, hrow, hvalues, hhash, ← hsource,
            htype] at hkeeps
  calls c' hc' := h.calls c' (List.mem_of_mem_erase hc')

theorem Held.step (h : Held store) {icfg : Ingest.Config} {b : Objects.Action μ}
    (hok : ∀ c, b = .upsert c → store.keepsObject c = false)
    (hs : Objects.Stepped icfg store b store') : Held store' := by
  cases hs with
  | base b base hpermits hstep =>
      exact h.descend fun d after hafter =>
        Objects.descends_step hstep (Objects.permits_not_queue hpermits) hafter
  | put c => exact h.put c
  | upsert c values base hvalues hc hstep =>
      exact h.accept hc hvalues (hok c rfl) hstep _ _
  | fail c hc => exact ⟨h.rows, fun c' hc' => h.calls c' (List.mem_of_mem_erase hc')⟩
  | claimNext d row base hrow hstep =>
      have hdescend : Held { store with base } := h.descend fun d after hafter =>
        Objects.descends_step hstep (fun _ _ h => nomatch h) hafter
      exact ⟨hdescend.rows, hdescend.calls⟩
  | get r hr => exact ⟨h.rows, h.calls⟩
  | crash r hr => exact ⟨h.rows, h.calls⟩

omit [DecidableEq μ] in
/-- The object of a deleted document that nobody is sending goes. -/
theorem Held.unstore (h : Held store) {d : DocId}
    (hdeleted : ∀ row, store.base.docs d = some row → row.deletedAt ≠ none)
    (hidle : store.idle d) :
    Held { store with bucket := Function.update store.bucket d none } where
  rows d' row hrow hlive htype := by
    have hne : d' ≠ d := by
      intro hd
      subst hd
      exact hdeleted row hrow hlive
    show Function.update store.bucket d none d' ≠ none
    rw [Function.update_of_ne hne]
    exact h.rows d' row hrow hlive htype
  calls c hc hobject := by
    show Function.update store.bucket d none c.docId ≠ none
    rw [Function.update_of_ne (hidle c hc)]
    exact h.calls c hc hobject

end Bucket

-- ======================================================= what a step keeps

structure Tracked (s : World μ) : Prop where
  swept : Swept s.store.base s.sweeps
  held : Held s.store

/-- A step of the requests and the passes, as the rows see it. -/
theorem Tracked.store (h : Tracked s) {b : Objects.Action μ} {store : Objects.World μ}
    (hok : Apart s (.store b))
    (hs : Objects.Stepped cfg.toConfig s.store b store) :
    Tracked { s with store } where
  swept := by
    cases hs with
    | base b base hpermits hstep =>
        exact h.swept.descend hstep (Objects.permits_not_queue hpermits)
    | upsert c values base hvalues hc hstep => exact h.swept.send hstep hok.1
    | claimNext d row base hrow hstep => exact h.swept.descend hstep fun _ _ h => nomatch h
    | _ => exact h.swept
  held := by
    refine h.held.step (fun c heq => ?_) hs
    subst heq
    exact hok.2

omit [DecidableEq μ] in
theorem mem_advance {sw sw' : Sweep} {stage : Stage}
    (h : sw' ∈ (s.advance sw stage).sweeps) :
    sw' ∈ s.sweeps ∨ sw' = { sw with stage } := by
  rcases List.mem_cons.1 h with rfl | hmem
  · exact .inr rfl
  · exact .inl (List.mem_of_mem_erase hmem)

theorem Tracked.step (h : Tracked s) (hok : Apart s a) (hs : Stepped cfg s a s') :
    Tracked s' := by
  cases hs with
  | store b store hstep => exact h.store hok hstep
  | claimPurgeable d row hfree hrow hpurgeable =>
      have hdeleted : row.deletedAt ≠ none := by
        intro hlive
        simp [purgeable, hlive] at hpurgeable
      have hrows := h.swept.rewrite hfree hrow hdeleted
        (show (purgeClaimed s.store.base.now row).deletedAt = row.deletedAt from rfl)
        (fun hmarked => .inl hmarked)
      refine ⟨hrows.withSweeps fun sw hsw => ?_, h.held.descend fun d' after hafter => ?_⟩
      · rcases List.mem_cons.1 hsw with rfl | hsw
        · refine .inr ⟨fun hstage => absurd rfl hstage, fun hstage => ?_⟩
          exact absurd rfl (ne_claimed hstage)
        · exact .inl hsw
      · exact Objects.descends_setRow hrow hafter ⟨rfl, rfl, rfl, id⟩
  | stillDeleted sw hsw hdeleted =>
      refine ⟨h.swept.withSweeps fun sw' hsw' => ?_, h.held⟩
      rcases mem_advance hsw' with hold | rfl
      · exact .inl hold
      · refine .inr ⟨fun _ => hdeleted, fun hstage => ?_⟩
        rcases hstage with hstage | hstage
        · cases hstage
        · cases hstage
  | purge sw hsw hstage =>
      have hdeleted := h.swept.checked sw hsw (by rw [hstage]; nofun)
      refine ⟨(h.swept.purge hdeleted).withSweeps fun sw' hsw' => ?_, h.held.rows, h.held.calls⟩
      rcases mem_advance hsw' with hold | rfl
      · exact .inl hold
      · exact .inr ⟨fun _ => hdeleted, fun _ pt hpt => (mem_purge.1 hpt).2⟩
  | removeObject sw hsw hstage =>
      have hdeleted := h.swept.checked sw hsw (ne_claimed (.inl hstage))
      refine ⟨h.swept.withSweeps fun sw' hsw' => ?_, h.held.unstore hdeleted hok⟩
      rcases mem_advance hsw' with hold | rfl
      · exact .inl hold
      · exact .inr ⟨fun _ => hdeleted, fun _ => h.swept.purged sw hsw (.inl hstage)⟩
  | markNothing sw hsw =>
      exact ⟨h.swept.withSweeps fun sw' hsw' => .inl (List.mem_of_mem_erase hsw'), h.held⟩
  | markPurged sw row hsw hstage hfree hrow =>
      have hdeleted := h.swept.checked sw hsw (ne_claimed hstage) row hrow
      have hempty := h.swept.purged sw hsw hstage
      have hsame : (markedPurged s.store.base.now row).deletedAt = row.deletedAt
          ∧ (markedPurged s.store.base.now row).sourceType = row.sourceType := by
        unfold markedPurged
        split
        next => exact ⟨rfl, rfl⟩
        next => exact ⟨rfl, rfl⟩
      have hrows := h.swept.rewrite hfree hrow hdeleted hsame.1 fun _ => .inr hempty
      refine ⟨hrows.withSweeps fun sw' hsw' => .inl (List.mem_of_mem_erase hsw'), ?_,
        h.held.calls⟩
      intro d after hafter hlive htype
      by_cases hd : d = sw.docId
      · subst hd
        have heq := (setRow_self ..).symm.trans hafter
        cases heq
        exact absurd (hsame.1 ▸ hlive) hdeleted
      · exact h.held.rows d after ((setRow_ne _ _ _ hd).symm.trans hafter) hlive htype
  | giveUp sw hsw =>
      exact ⟨h.swept.withSweeps fun sw' hsw' => .inl (List.mem_of_mem_erase hsw'), h.held⟩

omit [DecidableEq μ] in
theorem tracked_init (hs : init s) : Tracked s := by
  obtain ⟨store, ⟨base, ⟨now, rfl⟩, rfl⟩, rfl⟩ := hs
  refine ⟨⟨fenced_empty now, ?_, ?_, ?_, ?_, ?_, ?_⟩, ?_, ?_⟩
  · refine ⟨fun pt hpt => ?_, fun d p content ids left swept hlock => ?_,
      fun d p content ids left swept hlock => ?_,
      fun d p content ids left swept d' p' content' ids' left' swept' hlock => ?_⟩
    · cases hpt
    · cases hlock
    · cases hlock
    · cases hlock
  · intro d row hrow
    cases hrow
  · intro d row hrow
    cases hrow
  · intro d row hrow
    cases hrow
  · intro sw hsw
    cases hsw
  · intro sw hsw
    cases hsw
  · intro d row hrow
    cases hrow
  · intro c hc
    cases hc

-- ============================================================== whole runs

omit [DecidableEq μ] in
/-- A deleted row without its mark is taken once its grace and its lease
are over. -/
theorem claimable_later {row : Document μ} (hdeleted : row.deletedAt ≠ none)
    (hmark : row.vectorsPurgedAt = none) (graceSeconds leaseSeconds : Nat) :
    ∃ since : Nat, ∀ now : Nat, since ≤ now →
      purgeable graceSeconds leaseSeconds now row = true := by
  obtain ⟨(deletedAt : Nat), hdeletedAt⟩ := Option.ne_none_iff_exists'.1 hdeleted
  rcases hclaim : row.sweepClaimedAt with _ | (claim : Nat)
  · refine ⟨deletedAt + graceSeconds + 1, fun now hnow => ?_⟩
    have hgrace : deletedAt + graceSeconds < now := by omega
    simp [purgeable, hdeletedAt, hmark, hclaim, hgrace]
  · refine ⟨deletedAt + graceSeconds + claim + leaseSeconds + 1, fun now hnow => ?_⟩
    have hgrace : deletedAt + graceSeconds < now := by omega
    have hlease : claim + leaseSeconds < now := by omega
    simp [purgeable, hdeletedAt, hmark, hclaim, hgrace, hlease]

omit [DecidableEq μ] in
theorem Tracked.kept (h : Tracked s) : Kept cfg s where
  object := h.held.rows
  points := h.swept.settled
  claimable d row hrow hdeleted := by
    by_cases hmark : row.vectorsPurgedAt = none
    · exact .inl (claimable_later hdeleted hmark _ _)
    · exact .inr (h.swept.marked d row hrow hmark)

def collectConfig : Config := ⟨sampleConfig, 0, 900⟩

def sampleWorld : World Nat := ⟨Objects.sampleWorld, []⟩

theorem init_sampleWorld : init sampleWorld :=
  ⟨Objects.sampleWorld, Objects.init_sampleWorld, rfl⟩

/-- The text "hi" is sent and deleted, and a sweep looks at it. -/
def sweepRun : List (Action Nat) :=
  [.store (.put Objects.textCall), .store (.upsert Objects.textCall),
    .store (.base (.lockForRemove "key")), .store (.base (.tombstone "key")),
    .store (.base (.commitRemove "key")), .store (.base .tick), .claimPurgeable "key",
    .stillDeleted ⟨"key", true, .claimed⟩, .purge ⟨"key", true, .checked⟩]

/-- The sweep ends before the text is sent again. -/
def returnRun : List (Action Nat) :=
  [.removeObject ⟨"key", true, .purged⟩, .markPurged ⟨"key", true, .removed⟩,
    .store (.put Objects.textCall), .store (.upsert Objects.textCall)]

def returnedWorld : World Nat :=
  (runWithin (step collectConfig) Apart sampleWorld (sweepRun ++ returnRun)).get
    (by decide +kernel)

/-- The text is sent again before the sweep ends. -/
def strippedWorld : World Nat :=
  (runWithin (step collectConfig) anyStep sampleWorld
    (sweepRun ++ [.store (.put Objects.textCall), .store (.upsert Objects.textCall),
      .removeObject ⟨"key", true, .purged⟩])).get (by decide +kernel)

end Nacre.Collect
