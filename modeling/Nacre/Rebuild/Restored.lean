/-
After a rebuild: every chunk of a live indexed document has its point in the
collection again, whatever was under way when the collection was lost or
dropped (`rebuild_restores`).

# The argument

The points that were lost are put beside the ones that are there, and
nothing of Nacre.Ingest notices: no step asks the index anything
(`stepped_full`), so `Fenced`, `Placed` and `Settled` hold of both together
(`Whole`). What a document is short of is then a lost point that matters to
it (`Idle` says when none does): one of a pass past the fence, or of a chunk
row of a live indexed document. From the snapshot of the `UPDATE` on such a
point is of a document it saw (`Kept`), its commit leaves no such document in
a pass's hands or indexed, and new ids were never lost.
-/
import Nacre.Ingest.Placed
import Nacre.Rebuild.System

namespace Nacre.Rebuild

open Nacre.Store Nacre.Ingest Transition

variable {μ : Type} [DecidableEq μ] {cfg : Config} {w w' : World μ} {a : Action μ} {i : RunId}
  {s s' : Ingest.World μ} {lost : Points μ} {d : DocId} {id : PointId}

-- ============================================================== with the lost

/-- The index with what it lost. -/
def full (s : Ingest.World μ) (lost : Points μ) : Ingest.World μ :=
  { s with points := s.points ++ lost }

/-- Every id of the second is one of the first, of the same document. -/
def Within (lost' lost : Points μ) : Prop :=
  ∀ pt ∈ lost', ∃ pt₀ ∈ lost, pt₀.docId = pt.docId ∧ pt₀.pointId = pt.pointId

omit [DecidableEq μ] in
theorem Within.refl (lost : Points μ) : Within lost lost := fun pt h => ⟨pt, h, rfl, rfl⟩

omit [DecidableEq μ] in
theorem within_setPayload {set : Point μ → Point μ} (hdoc : ∀ pt, (set pt).docId = pt.docId)
    (hid : ∀ pt, (set pt).pointId = pt.pointId) : Within (lost.setPayload d set) lost := by
  intro pt hpt
  rcases mem_setPayload.1 hpt with ⟨hmem, -⟩ | ⟨pt', hmem, -, rfl⟩
  · exact ⟨pt, hmem, rfl, rfl⟩
  · exact ⟨pt', hmem, (hdoc pt').symm, (hid pt').symm⟩

/-- A step is the same step with the lost points beside the others. -/
theorem stepped_full {b : Ingest.Action μ} (lost : Points μ)
    (hs : Ingest.Stepped cfg.ingest s b s') :
    ∃ lost', Within lost' lost ∧ Ingest.Stepped cfg.ingest (full s lost) b (full s' lost') := by
  cases hs with
  | tick => exact ⟨lost, .refl _, .tick⟩
  | queueNew d req hfree hrow => exact ⟨lost, .refl _, .queueNew d req hfree hrow⟩
  | queueAgain d req row hfree hrow => exact ⟨lost, .refl _, .queueAgain d req row hfree hrow⟩
  | updateMetadata d metadata row hfree hrow =>
      refine ⟨lost.setMetadata d metadata, within_setPayload (fun _ => rfl) fun _ => rfl, ?_⟩
      have hstep : Ingest.Stepped cfg.ingest (full s lost) _ _ :=
        .updateMetadata d metadata row hfree hrow
      rw [full, Points.setMetadata, Points.setPayload, List.map_append] at hstep
      exact hstep
  | retry d row row' hfree hrow hretried => exact ⟨lost, .refl _, .retry d row row' hfree hrow hretried⟩
  | claimNext d row hfree hrow hclaim => exact ⟨lost, .refl _, .claimNext d row hfree hrow hclaim⟩
  | fence p content ids row hfree hrow hpass hnodup hnew hfence =>
      exact ⟨lost, .refl _, .fence p content ids row hfree hrow hpass hnodup hnew hfence⟩
  | writePoint d p content ids left id hlock =>
      refine ⟨lost.filter fun pt => pt.pointId ≠ id, fun pt hpt =>
        ⟨pt, (List.mem_filter.1 hpt).1, rfl, rfl⟩, ?_⟩
      have hstep : Ingest.Stepped cfg.ingest (full s lost) _ _ :=
        .writePoint d p content ids left id hlock
      rw [full, Points.put, List.filter_append, ← List.cons_append] at hstep
      exact hstep
  | sweep d p content ids hlock =>
      refine ⟨lost.sweep d ids, fun pt hpt => ⟨pt, (mem_sweep.1 hpt).1, rfl, rfl⟩, ?_⟩
      have hstep : Ingest.Stepped cfg.ingest (full s lost) _ _ := .sweep d p content ids hlock
      rw [full, Points.sweep, List.filter_append] at hstep
      exact hstep
  | commit d p content ids row hlock hrow => exact ⟨lost, .refl _, .commit d p content ids row hlock hrow⟩
  | rollback d p content ids left swept hlock =>
      exact ⟨lost, .refl _, .rollback d p content ids left swept hlock⟩
  | abandon p hpass => exact ⟨lost, .refl _, .abandon p hpass⟩
  | recordFailure p failure row hfree hrow hpass =>
      exact ⟨lost, .refl _, .recordFailure p failure row hfree hrow hpass⟩
  | claimStranded d row hfree hrow hexpired =>
      exact ⟨lost, .refl _, .claimStranded d row hfree hrow hexpired⟩
  | lockForRemove d row hfree hrow hlive => exact ⟨lost, .refl _, .lockForRemove d row hfree hrow hlive⟩
  | tombstone d hlock =>
      refine ⟨lost.tombstone d, within_setPayload (fun _ => rfl) fun _ => rfl, ?_⟩
      have hstep : Ingest.Stepped cfg.ingest (full s lost) _ _ := .tombstone d hlock
      rw [full, Points.tombstone, Points.setPayload, List.map_append] at hstep
      exact hstep
  | commitRemove d row hlock hrow => exact ⟨lost, .refl _, .commitRemove d row hlock hrow⟩
  | rollbackRemove d flagged hlock => exact ⟨lost, .refl _, .rollbackRemove d flagged hlock⟩

-- ================================================================= the rows

/-- A row that is live and indexed after a step was so before, with the same
chunk rows, or a pass has just committed it. -/
theorem indexed_before {c : Ingest.Config} {b : Ingest.Action μ} {row' : Document μ}
    (hs : Ingest.Stepped c s b s') (hrow' : s'.docs d = some row') (hlive : row'.deletedAt = none)
    (hindexed : row'.status = .indexed) :
    (∃ row, s.docs d = some row ∧ row.deletedAt = none ∧ row.status = .indexed ∧
      s'.chunks d = s.chunks d) ∨
    ∃ p content ids, s.lock d = some (.upsert p content ids [] true) ∧ s'.chunks d = ids := by
  have hsame : ∀ {d₁ : DocId} {before row : Document μ}, s.docs d₁ = some before →
      (row.deletedAt = none → row.status = .indexed →
        before.deletedAt = none ∧ before.status = .indexed) →
      Function.update s.docs d₁ (some row) d = some row' →
      ∃ row, s.docs d = some row ∧ row.deletedAt = none ∧ row.status = .indexed ∧
        s.chunks d = s.chunks d := by
    intro d₁ before row hbefore hkeep hupdate
    rcases Table.update_cases hupdate with ⟨rfl, rfl⟩ | ⟨-, hold⟩
    · obtain ⟨hlive', hindexed'⟩ := hkeep hlive hindexed
      exact ⟨before, hbefore, hlive', hindexed', rfl⟩
    · exact ⟨row', hold, hlive, hindexed, rfl⟩
  cases hs with
  | queueNew d₁ req hfree hrow =>
      rcases Table.update_cases hrow' with ⟨-, rfl⟩ | ⟨-, hold⟩
      · cases hindexed
      · exact .inl ⟨row', hold, hlive, hindexed, rfl⟩
  | queueAgain d₁ req row hfree hrow =>
      refine .inl (hsame hrow (fun _ hindexed => ?_) hrow')
      cases hagain : requeues req row with
      | true =>
          rw [(resent_of_requeues s.now hagain).1] at hindexed
          cases hindexed
      | false =>
          obtain ⟨-, hstatus, -, hlive⟩ := resent_of_not_requeues s.now hagain
          exact ⟨hlive, hstatus.symm.trans hindexed⟩
  | updateMetadata d₁ metadata row hfree hrow =>
      refine .inl (hsame hrow ?_ hrow')
      exact fun hlive hindexed => ⟨hlive, hindexed⟩
  | retry d₁ row row₁ hfree hrow hretried =>
      refine .inl (hsame hrow (fun _ hindexed => ?_) hrow')
      unfold retried at hretried
      rw [Option.ite_none_right_eq_some] at hretried
      cases hretried.2
      cases hindexed
  | claimNext d₁ row hfree hrow hclaim =>
      refine .inl (hsame hrow (fun _ hindexed => ?_) hrow')
      cases hindexed
  | commit d₁ p content ids row hlock hrow =>
      by_cases hd : d = d₁
      · subst hd
        exact .inr ⟨p, content, ids, hlock, Function.update_self ..⟩
      · rcases Table.update_cases hrow' with ⟨rfl, -⟩ | ⟨-, hold⟩
        · exact absurd rfl hd
        · exact .inl ⟨row', hold, hlive, hindexed, Function.update_of_ne hd ..⟩
  | recordFailure p failure row hfree hrow hpass =>
      refine .inl (hsame hrow (fun hlive hindexed => ?_) hrow')
      rw [failed_deletedAt] at hlive
      exact ⟨hlive, failed_indexed hindexed⟩
  | claimStranded d₁ row hfree hrow hexpired =>
      exact .inl (hsame hrow (fun _ hindexed => absurd hindexed reaped_indexed) hrow')
  | commitRemove d₁ row hlock hrow =>
      refine .inl (hsame hrow (fun hlive _ => ?_) hrow')
      cases hlive
  | _ => exact .inl ⟨row', hrow', hlive, hindexed, rfl⟩

/-- A pass that holds a row after a step held it before, with the same ids,
or its ids are new. -/
theorem held_before {c : Ingest.Config} {b : Ingest.Action μ} {p : Pass μ} {content : Content}
    {ids left : List PointId} {swept : Bool} (hs : Ingest.Stepped c s b s')
    (hlock : s'.lock d = some (.upsert p content ids left swept)) :
    (∃ left' swept', s.lock d = some (.upsert p content ids left' swept')) ∨
      ∀ id ∈ ids, id ∉ s.minted := by
  have hother : ∀ {d₁ : DocId} {holder : Option (Holder μ)},
      (∀ p content ids left swept, holder ≠ some (.upsert p content ids left swept)) →
      (s.setLock d₁ holder).lock d = some (.upsert p content ids left swept) →
      ∃ left' swept', s.lock d = some (.upsert p content ids left' swept') := by
    intro d₁ holder hnot hlock
    by_cases hd : d = d₁
    · subst hd
      rw [setLock_self] at hlock
      exact absurd hlock (hnot _ _ _ _ _)
    · rw [setLock_ne _ _ _ hd] at hlock
      exact ⟨_, _, hlock⟩
  cases hs with
  | fence p₁ content₁ ids₁ row hfree hrow hpass hnodup hnew hfence =>
      change (s.setLock _ _).lock d = _ at hlock
      by_cases hd : d = p₁.docId
      · subst hd
        rw [setLock_self] at hlock
        cases hlock
        exact .inr hnew
      · rw [setLock_ne _ _ _ hd] at hlock
        exact .inl ⟨_, _, hlock⟩
  | writePoint d₁ p₁ content₁ ids₁ left₁ id₁ hlock₁ =>
      change (s.setLock _ _).lock d = _ at hlock
      by_cases hd : d = d₁
      · subst hd
        rw [setLock_self] at hlock
        cases hlock
        exact .inl ⟨_, _, hlock₁⟩
      · rw [setLock_ne _ _ _ hd] at hlock
        exact .inl ⟨_, _, hlock⟩
  | sweep d₁ p₁ content₁ ids₁ hlock₁ =>
      change (s.setLock _ _).lock d = _ at hlock
      by_cases hd : d = d₁
      · subst hd
        rw [setLock_self] at hlock
        cases hlock
        exact .inl ⟨_, _, hlock₁⟩
      · rw [setLock_ne _ _ _ hd] at hlock
        exact .inl ⟨_, _, hlock⟩
  | commit d₁ p₁ content₁ ids₁ row hlock₁ hrow => exact .inl (hother (by simp) hlock)
  | rollback d₁ p₁ content₁ ids₁ left₁ swept₁ hlock₁ => exact .inl (hother (by simp) hlock)
  | lockForRemove d₁ row hfree hrow hlive => exact .inl (hother (by simp) hlock)
  | tombstone d₁ hlock₁ => exact .inl (hother (by simp) hlock)
  | commitRemove d₁ row hlock₁ hrow => exact .inl (hother (by simp) hlock)
  | rollbackRemove d₁ flagged hlock₁ => exact .inl (hother (by simp) hlock)
  | _ => exact .inl ⟨_, _, hlock⟩

-- ============================================================= the invariants

/-- What holds of the points and the lost ones together. -/
structure Whole (s : Ingest.World μ) (lost : Points μ) : Prop where
  fenced : Fenced (full s lost)
  placed : Placed (s.points ++ lost) s.lock s.minted
  settled : Settled s.docs s.chunks (s.points ++ lost)

theorem Whole.step {b : Ingest.Action μ} (h : Whole s lost)
    (hs : Ingest.Stepped cfg.ingest s b s') : ∃ lost', Within lost' lost ∧ Whole s' lost' := by
  obtain ⟨lost', hwithin, hfull⟩ := stepped_full lost hs
  exact ⟨lost', hwithin, h.fenced.step hfull, placed_step h.fenced h.placed hfull,
    settled_step h.fenced h.placed h.settled hfull⟩

omit [DecidableEq μ] in
/-- A lost point is among the ids that were minted. -/
theorem Whole.minted (h : Whole s lost) {pt : Point μ} (hpt : pt ∈ lost) : pt.pointId ∈ s.minted :=
  h.placed.known pt (List.mem_append_right _ hpt)

omit [DecidableEq μ] in
theorem Whole.real (h : Whole s lost) : Fenced s := by
  have hpts : ∀ pt ∈ s.points, ∃ pt' ∈ (full s lost).points, pt'.docId = pt.docId ∧
      (pt'.deleted = true → pt.deleted = true) :=
    fun pt hpt => ⟨pt, List.mem_append_left _ hpt, rfl, id⟩
  exact h.fenced.withPoints hpts

omit [DecidableEq μ] in
/-- Losing every point there is. -/
theorem Whole.lose (h : Whole s lost) : Whole { s with points := [] } (s.points ++ lost) :=
  ⟨h.fenced, h.placed, h.settled⟩

omit [DecidableEq μ] in
theorem requeuedDocs_some {seen : List DocId} {docs : DocId → Option (Document μ)}
    {row' : Document μ} (h : requeuedDocs seen docs d = some row') :
    ∃ row, docs d = some row ∧ row'.deletedAt = row.deletedAt ∧
      (d ∉ seen → row' = row) ∧ (d ∈ seen → row'.deletedAt = none → row'.status = .pending) := by
  unfold requeuedDocs at h
  by_cases hseen : d ∈ seen
  · rw [if_pos hseen, Option.map_eq_some_iff] at h
    obtain ⟨row, hrow, rfl⟩ := h
    by_cases hlive : row.deletedAt = none
    · rw [requeued, if_pos hlive]
      exact ⟨row, hrow, rfl, absurd hseen, fun _ _ => rfl⟩
    · rw [requeued, if_neg hlive]
      exact ⟨row, hrow, rfl, absurd hseen, fun _ hlive' => absurd hlive' hlive⟩
  · rw [if_neg hseen] at h
    exact ⟨row', h, rfl, fun _ => rfl, fun hseen' => absurd hseen' hseen⟩

omit [DecidableEq μ] in
/-- A row that is indexed after the `UPDATE` is one it did not see. -/
theorem requeuedDocs_indexed {seen : List DocId} {docs : DocId → Option (Document μ)}
    {row' : Document μ} (h : requeuedDocs seen docs d = some row') (hlive : row'.deletedAt = none)
    (hindexed : row'.status = .indexed) : d ∉ seen ∧ docs d = some row' := by
  obtain ⟨row, hrow, -, hsame, hpending⟩ := requeuedDocs_some h
  have hseen : d ∉ seen := fun hseen => by
    rw [hpending hseen hlive] at hindexed
    cases hindexed
  exact ⟨hseen, hsame hseen ▸ hrow⟩

omit [DecidableEq μ] in
theorem Whole.requeue (h : Whole s lost) {seen : List DocId} (hfree : ∀ d ∈ seen, s.lock d = none) :
    Whole { s with docs := requeuedDocs seen s.docs } lost where
  fenced := {
    logged := h.fenced.logged
    upserting := fun d p content ids left swept hlock => by
      obtain ⟨hdoc, hlog, row, hrow, hfence⟩ := h.fenced.upserting d p content ids left swept hlock
      have hseen : d ∉ seen := fun hseen => by
        cases (hfree d hseen).symm.trans hlock
      exact ⟨hdoc, hlog, row, (if_neg hseen).trans hrow, hfence⟩
    flagged := h.fenced.flagged
    deleted := fun d row' hrow' hdeleted => by
      obtain ⟨row, hrow, hsame, -⟩ := requeuedDocs_some hrow'
      exact h.fenced.deleted d row hrow (hsame ▸ hdeleted) }
  placed := h.placed
  settled := fun d row' hrow' hlive hindexed => by
    obtain ⟨-, hrow⟩ := requeuedDocs_indexed hrow' hlive hindexed
    exact h.settled d row' hrow hlive hindexed

/-- No id of this document that matters: none a pass past the fence is to
write, none of a chunk row of a live indexed document. -/
structure Idle (s : Ingest.World μ) (d : DocId) (id : PointId) : Prop where
  flight : ∀ p content ids left swept,
    s.lock d = some (.upsert p content ids left swept) → id ∉ ids
  settled : ∀ row, s.docs d = some row → row.deletedAt = none → row.status = .indexed →
    id ∉ s.chunks d

theorem Idle.step {b : Ingest.Action μ} (h : Idle s d id) (hminted : id ∈ s.minted)
    (hs : Ingest.Stepped cfg.ingest s b s') : Idle s' d id where
  flight := fun p content ids left swept hlock hmem => by
    rcases held_before hs hlock with ⟨left', swept', hbefore⟩ | hnew
    · exact h.flight p content ids left' swept' hbefore hmem
    · exact hnew id hmem hminted
  settled := fun row' hrow' hlive hindexed hmem => by
    rcases indexed_before hs hrow' hlive hindexed with
      ⟨row, hrow, hlive', hindexed', hchunks⟩ | ⟨p, content, ids, hlock, rfl⟩
    · rw [hchunks] at hmem
      exact h.settled row hrow hlive' hindexed' hmem
    · exact h.flight p content _ [] true hlock hmem

/-- Every lost point that matters is of one of these documents. -/
def Kept (S : List DocId) (s : Ingest.World μ) : Prop :=
  ∃ lost, Whole s lost ∧ ∀ pt ∈ lost, pt.docId ∈ S ∨ Idle s pt.docId pt.pointId

def Action.loses : Action μ → Bool
  | .lose | .drop _ => true
  | _ => false

/-- Nobody loses the collection, or drops it. -/
def NoLoss (_ : World μ) (a : Action μ) : Prop := a.loses = false

omit [DecidableEq μ] in
instance (w : World μ) (a : Action μ) : Decidable (NoLoss w a) :=
  inferInstanceAs (Decidable (a.loses = false))

omit [DecidableEq μ] in
theorem Kept.requeue {S seen : List DocId} (h : Kept S s) (hfree : ∀ d ∈ seen, s.lock d = none) :
    Kept (S.filter (· ∉ seen)) { s with docs := requeuedDocs seen s.docs } := by
  obtain ⟨lost, hwhole, hkept⟩ := h
  refine ⟨lost, hwhole.requeue hfree, fun pt hpt => ?_⟩
  by_cases hseen : pt.docId ∈ seen
  · refine .inr ⟨fun p content ids left swept hlock => ?_, fun row' hrow' hlive hindexed => ?_⟩
    · cases (hfree pt.docId hseen).symm.trans hlock
    · exact absurd hseen (requeuedDocs_indexed hrow' hlive hindexed).1
  · refine (hkept pt hpt).imp (fun hmem => ?_) fun hidle => ?_
    · exact List.mem_filter.2 ⟨hmem, decide_eq_true hseen⟩
    · refine ⟨hidle.flight, fun row' hrow' hlive hindexed => ?_⟩
      obtain ⟨-, hrow⟩ := requeuedDocs_indexed hrow' hlive hindexed
      exact hidle.settled row' hrow hlive hindexed

omit [DecidableEq μ] in
theorem Kept.mono {S T : List DocId} (h : Kept S s) (hsub : ∀ d ∈ S, d ∈ T) : Kept T s := by
  obtain ⟨lost, hwhole, hkept⟩ := h
  exact ⟨lost, hwhole, fun pt hpt => (hkept pt hpt).imp (hsub pt.docId) id⟩

theorem kept_step {S : List DocId} (h : Kept S w.base) (hok : NoLoss w a)
    (hs : Stepped cfg w a w') : Kept S w'.base := by
  cases hs with
  | base b s' hb =>
      obtain ⟨lost, hwhole, hkept⟩ := h
      obtain ⟨lost', hwithin, hwhole'⟩ := hwhole.step hb
      refine ⟨lost', hwhole', fun pt hpt => ?_⟩
      obtain ⟨pt₀, hpt₀, hdoc, hid⟩ := hwithin pt hpt
      rw [← hdoc, ← hid]
      exact (hkept pt₀ hpt₀).imp_right fun hidle => hidle.step (hwhole.minted hpt₀) hb
  | lose => cases hok
  | drop i hstage => cases hok
  | aside i a w' haside =>
      rw [haside.base]
      exact h
  | requeue i seen hstage hfree =>
      exact (h.requeue hfree).mono fun d hd => (List.mem_filter.1 hd).1

/-- Whatever was lost, in every run. -/
theorem reachable_whole (hw : Reachable (step cfg) anyStep init w) : ∃ lost, Whole w.base lost := by
  refine hw.invariant (I := fun w => ∃ lost, Whole w.base lost) ?_ ?_
  · intro w₀ h₀
    obtain ⟨base, ⟨now, rfl⟩, rfl⟩ := h₀
    exact ⟨[], fenced_empty now, ⟨by simp [World.fresh, World.empty], by simp [World.fresh, World.empty],
      by simp [World.fresh, World.empty], by simp [World.fresh, World.empty]⟩,
      fun d row hrow => by cases hrow⟩
  · intro w a w' h _ ha
    obtain ⟨lost, hwhole⟩ := h
    cases step_inv ha with
    | base b s' hb =>
        obtain ⟨lost', -, hwhole'⟩ := hwhole.step hb
        exact ⟨lost', hwhole'⟩
    | lose => exact ⟨_, hwhole.lose⟩
    | drop i hstage => exact ⟨_, hwhole.lose⟩
    | aside i a w' haside =>
        rw [haside.base]
        exact ⟨lost, hwhole⟩
    | requeue i seen hstage hfree => exact ⟨lost, hwhole.requeue hfree⟩

/-- Only a request to ingest makes a row. -/
theorem docs_before {c : Ingest.Config} {b : Ingest.Action μ} (hs : Ingest.Stepped c s b s')
    (hrow : s'.docs d ≠ none) : d ∈ makes b ∨ s.docs d ≠ none := by
  have hsame : ∀ {d₁ : DocId} {before row : Document μ}, s.docs d₁ = some before →
      Function.update s.docs d₁ (some row) d ≠ none → s.docs d ≠ none := by
    intro d₁ before row hbefore hupdate
    by_cases hd : d = d₁
    · subst hd
      rw [hbefore]
      exact Option.some_ne_none _
    · rw [Function.update_of_ne hd] at hupdate
      exact hupdate
  cases hs with
  | queueNew d₁ req hfree hnone =>
      by_cases hd : d = d₁
      · exact .inl (List.mem_singleton.2 hd)
      · exact .inr (by rwa [setRow_ne _ _ _ hd] at hrow)
  | queueAgain d₁ req row hfree hold => exact .inr (hsame hold hrow)
  | updateMetadata d₁ metadata row hfree hold => exact .inr (hsame hold hrow)
  | retry d₁ row row' hfree hold hretried => exact .inr (hsame hold hrow)
  | claimNext d₁ row hfree hold hclaim => exact .inr (hsame hold hrow)
  | commit d₁ p content ids row hlock hold => exact .inr (hsame hold hrow)
  | recordFailure p failure row hfree hold hpass => exact .inr (hsame hold hrow)
  | claimStranded d₁ row hfree hold hexpired => exact .inr (hsame hold hrow)
  | commitRemove d₁ row hlock hold => exact .inr (hsame hold hrow)
  | _ => exact .inr hrow

theorem reachable_known (hw : Reachable (step cfg) anyStep init w) :
    ∀ d, w.base.docs d ≠ none → d ∈ w.known := by
  refine hw.invariant (I := fun w => ∀ d, w.base.docs d ≠ none → d ∈ w.known) ?_ ?_
  · intro w₀ h₀ d hrow
    obtain ⟨base, ⟨now, rfl⟩, rfl⟩ := h₀
    exact absurd rfl hrow
  · intro w a w' h _ ha
    cases step_inv ha with
    | base b s' hb =>
        intro d hrow
        exact List.mem_append.2 ((docs_before hb hrow).imp_right (h d))
    | lose => exact h
    | drop i hstage => exact h
    | aside i a w' haside =>
        rw [haside.base, haside.known]
        exact h
    | requeue i seen hstage hfree =>
        intro d hrow
        obtain ⟨row', hrow'⟩ := Option.ne_none_iff_exists'.1 hrow
        obtain ⟨row, hold, -⟩ := requeuedDocs_some hrow'
        refine h d ?_
        rw [hold]
        exact Option.some_ne_none _

theorem live_of (hw : Reachable (step cfg) anyStep init w) {row : Document μ}
    (hrow : w.base.docs d = some row) (hnone : row.deletedAt = none) : d ∈ w.live := by
  refine List.mem_filter.2 ⟨reachable_known hw d (by rw [hrow]; exact Option.some_ne_none _), ?_⟩
  rw [hrow]
  exact decide_eq_true hnone

/-- At the snapshot: a document it does not see has nothing to lose. -/
theorem kept_live (hw : Reachable (step cfg) anyStep init w) : Kept w.live w.base := by
  obtain ⟨lost, hwhole⟩ := reachable_whole hw
  refine ⟨lost, hwhole, fun pt _ => ?_⟩
  by_cases hseen : pt.docId ∈ w.live
  · exact .inl hseen
  · refine .inr ⟨fun p content ids left swept hlock => ?_, fun row hrow hnone _ => ?_⟩
    · obtain ⟨-, -, row, hrow, hfence⟩ := hwhole.fenced.upserting _ p content ids left swept hlock
      exact absurd (live_of hw hrow (fence_iff.1 hfence).2.2) hseen
    · exact absurd (live_of hw hrow hnone) hseen

omit [DecidableEq μ] in
/-- Nothing that matters is lost: the index has what the rows say. -/
theorem Kept.settled (h : Kept [] s) : Settled s.docs s.chunks s.points := by
  obtain ⟨lost, hwhole, hkept⟩ := h
  intro d row hrow hlive hindexed id hid
  obtain ⟨pt, hmem, rfl, rfl⟩ := hwhole.settled d row hrow hlive hindexed id hid
  rcases List.mem_append.1 hmem with hthere | hlost
  · exact ⟨pt, hthere, rfl, rfl⟩
  · rcases hkept pt hlost with hnil | hidle
    · exact absurd hnil List.not_mem_nil
    · exact absurd hid (hidle.settled row hrow hlive hindexed)

/-- From the snapshot on a command's `UPDATE` runs over what it saw, or has
ended. -/
def Updating (i : RunId) (S : List DocId) (w : World μ) : Prop :=
  w.stage i = .requeueing S ∨ w.stage i = .done ∨ w.stage i = .gone

theorem updating_step {S : List DocId} (h : Updating i S w) (hs : Stepped cfg w a w') :
    Updating i S w' := by
  have hlate : (w.stage i).early = false := by
    rcases h with h | h | h <;> rw [h] <;> rfl
  cases hs with
  | base b s' hb => exact h
  | lose => exact h
  | drop j hstage =>
      by_cases hij : i = j
      · subst hij
        rw [hstage] at hlate
        cases hlate
      · rw [Updating, put_ne _ hij]
        exact h
  | aside j a w' haside =>
      by_cases hij : i = j
      · subst hij
        refine .inr (.inr (haside.own.resolve_right fun hearly => ?_))
        rw [hlate] at hearly
        cases hearly
      · rw [Updating, haside.others i hij]
        exact h
  | requeue j seen hstage hfree =>
      by_cases hij : i = j
      · subst hij
        exact .inr (.inl (put_self _))
      · show (w.put j .done).stage i = _ ∨ (w.put j .done).stage i = _ ∨ (w.put j .done).stage i = _
        rw [put_ne _ hij]
        exact h

/-- The commit of an `UPDATE`, and that it is over what was live at its
snapshot. -/
theorem requeue_inv {ok : World μ → Action μ → Prop} {w₀ w₁ w₂ w₃ : World μ}
    (hsee : step cfg w₀ (.see i) = some w₁) (hbetween : Steps (step cfg) ok w₁ w₂)
    (hrequeue : step cfg w₂ (.requeue i) = some w₃) :
    (∀ d ∈ w₀.live, w₂.base.lock d = none) ∧
      w₃.base = { w₂.base with docs := requeuedDocs w₀.live w₂.base.docs } := by
  simp only [step] at hsee
  split at hsee
  case isFalse => cases hsee
  obtain rfl := Option.some.inj hsee
  have hstill : Updating i w₀.live w₂ :=
    hbetween.invariant (I := Updating i w₀.live) (.inl (put_self _))
      fun _ _ _ h _ ha => updating_step h (step_inv ha)
  simp only [step] at hrequeue
  split at hrequeue
  case h_2 => cases hrequeue
  next seen hstage =>
    split at hrequeue
    case isFalse => cases hrequeue
    next hfree =>
      obtain rfl := Option.some.inj hrequeue
      have hseen : seen = w₀.live := by
        rcases hstill with h | h | h <;> cases hstage.symm.trans h
        rfl
      subst hseen
      exact ⟨hfree, rfl⟩

/-- A command whose `UPDATE` commits, with the collection neither lost nor
dropped again since its snapshot, has repaired the index: from then on every
chunk row of a live indexed document has its point, until the collection is
lost again, whatever passes were under way before, in between or after. -/
theorem rebuild_restores {w₀ w₁ w₂ w₃ w₄ : World μ} (hw : Reachable (step cfg) anyStep init w₀)
    (hsee : step cfg w₀ (.see i) = some w₁) (hbetween : Steps (step cfg) NoLoss w₁ w₂)
    (hrequeue : step cfg w₂ (.requeue i) = some w₃) (hafter : Steps (step cfg) NoLoss w₃ w₄) :
    Settled w₄.base.docs w₄.base.chunks w₄.base.points := by
  obtain ⟨hfree, hbase⟩ := requeue_inv hsee hbetween hrequeue
  -- up to the commit, what may be missing is of the documents that were seen
  have hkept : Kept w₀.live w₂.base :=
    hbetween.invariant (I := fun w => Kept w₀.live w.base)
      (kept_step (kept_live hw) (show NoLoss w₀ (.see i) from rfl) (step_inv hsee))
      fun _ _ _ h hok ha => kept_step h hok (step_inv ha)
  -- at the commit nothing is left that may be missing
  have hnone : Kept [] w₃.base := by
    rw [hbase]
    refine (hkept.requeue hfree).mono fun d hd => ?_
    obtain ⟨hmem, hnot⟩ := List.mem_filter.1 hd
    exact absurd hmem (of_decide_eq_true hnot)
  exact (hafter.invariant (I := fun w => Kept [] w.base) hnone
    fun _ _ _ h hok ha => kept_step h hok (step_inv ha)).settled

-- ====================================================== the passes before it

def Action.claims : Action μ → Option DocId
  | .base b => b.claims
  | _ => none

/-- A claim of a row gets a `claimed_at` the row never had. -/
def Fresh (w : World μ) (a : Action μ) : Prop := ∀ d ∈ a.claims, w.base.now ∉ w.base.leases d

omit [DecidableEq μ] in
instance (w : World μ) (a : Action μ) : Decidable (Fresh w a) :=
  inferInstanceAs (Decidable (∀ d ∈ a.claims, w.base.now ∉ w.base.leases d))

omit [DecidableEq μ] in
theorem fresh_of_none (h : a.claims = none) : Fresh w a := fun d hd => by
  rw [h] at hd
  cases hd

variable {t : Time}

theorem leases_kept {c : Ingest.Config} {b : Ingest.Action μ} (hs : Ingest.Stepped c s b s')
    (h : t ∈ s.leases d) : t ∈ s'.leases d := by
  cases hs with
  | claimNext d₁ row hfree hrow hclaim =>
      show t ∈ Function.update s.leases d₁ (s.now :: s.leases d₁) d
      by_cases hd : d = d₁
      · subst hd
        rw [Function.update_self]
        exact List.mem_cons_of_mem _ h
      · rw [Function.update_of_ne hd]
        exact h
  | _ => exact h

omit [DecidableEq μ] in
/-- The `UPDATE` takes the claims of the documents it saw, and gives none. -/
theorem lost_requeue {seen : List DocId} (hlease : t ∈ s.leases d)
    (h : d ∈ seen ∨ Lost s d t) :
    Lost { s with docs := requeuedDocs seen s.docs } d t := by
  refine ⟨hlease, fun row' hrow' hclaim => ?_⟩
  change (if d ∈ seen then (s.docs d).map requeued else s.docs d) = some row' at hrow'
  by_cases hseen : d ∈ seen
  · rw [if_pos hseen, Option.map_eq_some_iff] at hrow'
    obtain ⟨row, -, rfl⟩ := hrow'
    by_cases hlive : row.deletedAt = none
    · rw [requeued, if_pos hlive] at hclaim
      cases hclaim
    · rw [requeued, if_neg hlive]
      exact hlive
  · rw [if_neg hseen] at hrow'
    exact (h.resolve_left hseen).2 row' hrow' hclaim

/-- A claim that was given out, and is lost unless the document is one of
these. -/
def Doomed (S : List DocId) (d : DocId) (t : Time) (w : World μ) : Prop :=
  t ∈ w.base.leases d ∧ (d ∈ S ∨ Lost w.base d t)

theorem doomed_step {S : List DocId} (h : Doomed S d t w) (hok : Fresh w a)
    (hs : Stepped cfg w a w') : Doomed S d t w' := by
  cases hs with
  | base b s' hb =>
      exact ⟨leases_kept hb h.1, h.2.imp_right fun hlost => hlost.step hok hb⟩
  | lose => exact h
  | drop i hstage => exact h
  | aside i a w' haside =>
      rw [Doomed, haside.base]
      exact h
  | requeue i seen hstage hfree =>
      exact ⟨h.1, h.2.imp_right fun hlost => lost_requeue h.1 (.inr hlost)⟩

/-- A pass that was in flight at the snapshot of a command's `UPDATE` can do
nothing once that has committed: no step of it changes a row, a chunk or a
point. -/
theorem rebuild_outdates {w₀ w₁ w₂ w₃ w₄ : World μ} {b : Ingest.Action μ}
    (hw : Reachable (step cfg) Fresh init w₀) (hflight : InFlight w₀.base d t)
    (hsee : step cfg w₀ (.see i) = some w₁) (hbetween : Steps (step cfg) Fresh w₁ w₂)
    (hrequeue : step cfg w₂ (.requeue i) = some w₃) (hafter : Steps (step cfg) Fresh w₃ w₄)
    (hpass : StepOf w₄.base d t b) (hb : Ingest.step cfg.ingest w₄.base b = some s') :
    s'.docs = w₄.base.docs ∧ s'.chunks = w₄.base.chunks ∧ s'.points = w₄.base.points := by
  have hfenced : ∀ {w : World μ}, Reachable (step cfg) Fresh init w → Fenced w.base := by
    intro w hreach
    obtain ⟨lost, hwhole⟩ := reachable_whole hreach.any
    exact hwhole.real
  have hlease := (hfenced hw).lease_of_inFlight hflight
  have hfirst : Doomed w₀.live d t w₀ := by
    refine ⟨hlease, ?_⟩
    by_cases hlive : d ∈ w₀.live
    · exact .inl hlive
    · exact .inr ⟨hlease, fun row hrow _ hnone => hlive (live_of hw.any hrow hnone)⟩
  have hstart : Doomed w₀.live d t w₁ := doomed_step hfirst (fresh_of_none (a := .see i) rfl) (step_inv hsee)
  have hcommit : Doomed w₀.live d t w₂ :=
    hbetween.invariant (I := Doomed w₀.live d t) hstart
      fun _ _ _ h hok ha => doomed_step h hok (step_inv ha)
  have hlost : Doomed [] d t w₃ := by
    obtain ⟨-, hbase⟩ := requeue_inv hsee hbetween hrequeue
    rw [Doomed, hbase]
    exact ⟨hcommit.1, .inr (lost_requeue hcommit.1 hcommit.2)⟩
  have hend : Doomed [] d t w₄ :=
    hafter.invariant (I := Doomed [] d t) hlost fun _ _ _ h hok ha => doomed_step h hok (step_inv ha)
  have hreach : Reachable (step cfg) Fresh init w₄ := by
    obtain ⟨base, h₀, hrun⟩ := hw
    refine ⟨base, h₀, ?_⟩
    have hw₁ := hrun.tail ⟨.see i, fresh_of_none rfl, hsee⟩
    have hw₃ := (hw₁.trans hbetween).tail ⟨.requeue i, fresh_of_none rfl, hrequeue⟩
    exact hw₃.trans hafter
  exact inert_of_lost (hfenced hreach) (hend.2.resolve_left List.not_mem_nil) hpass
    (Ingest.step_inv hb)

/-- A document with two points, of which the first is lost before the second
is written; then a rebuild, as far as the snapshot. -/
def lossRun : List (Action Nat) :=
  [.base (.queue "d" (sampleRequest "h1" 1)), .base (.claimNext "d"),
    .base (.fence ⟨"d", 0, 1, false⟩ ⟨"h1", none⟩ ["p1", "p2"]), .base (.writePoint "d"), .lose,
    .look 0, .make 0, .base (.writePoint "d"), .base (.sweep "d"), .base (.commit "d")]

/-- The document is indexed again. -/
def againRun : List (Action Nat) :=
  [.base .tick, .base (.claimNext "d"), .base (.fence ⟨"d", 1, 1, false⟩ ⟨"h1", none⟩ ["p3"]),
    .base (.writePoint "d"), .base (.sweep "d"), .base (.commit "d")]

def sampleRebuild : Config := ⟨sampleConfig, fun _ => false⟩

def lossWorld : World Nat :=
  (runWithin (step sampleRebuild) anyStep (World.fresh (World.empty Nat 0)) lossRun).get (by decide)

def requeuedWorld : World Nat :=
  (runWithin (step sampleRebuild) anyStep lossWorld [.see 0, .requeue 0]).get (by decide)

def againWorld : World Nat :=
  (runWithin (step sampleRebuild) NoLoss requeuedWorld againRun).get (by decide)

/-- Indexed with a chunk that has no point, and after the rebuild with the
points of all its chunks. -/
theorem rebuild_restores_loss :
    lossWorld.base.chunks "d" = ["p1", "p2"] ∧ lossWorld.base.points.map (·.pointId) = ["p2"] ∧
      againWorld.base.chunks "d" = ["p3"] ∧
      Settled againWorld.base.docs againWorld.base.chunks againWorld.base.points := by
  have hreach : Reachable (step sampleRebuild) anyStep init lossWorld :=
    reachable_get ⟨_, ⟨0, rfl⟩, rfl⟩ _
  have hafter : Steps (step sampleRebuild) NoLoss requeuedWorld againWorld :=
    runWithin_steps (Option.some_get _).symm
  exact ⟨by decide, by decide, by decide,
    rebuild_restores (i := 0) hreach rfl .refl rfl hafter⟩

/-- A pass has claimed when the collection is lost; a rebuild, as far as the
snapshot. -/
def claimedRun : List (Action Nat) :=
  [.base (.queue "d" (sampleRequest "h1" 1)), .base (.claimNext "d"), .lose, .look 0, .make 0]

def claimedWorld : World Nat :=
  (runWithin (step sampleRebuild) Fresh (World.fresh (World.empty Nat 0)) claimedRun).get (by decide)

def outdatedWorld : World Nat :=
  (runWithin (step sampleRebuild) Fresh claimedWorld [.see 0, .requeue 0]).get (by decide)

/-- After the commit the pass reports its failure, and the row stays as the
rebuild left it. -/
theorem rebuild_outdates_claimed :
    ∃ s, Ingest.step sampleConfig outdatedWorld.base
        (.recordFailure ⟨"d", 0, 1, false⟩ ⟨"x", false, 0⟩) = some s ∧
      s.docs = outdatedWorld.base.docs ∧
      (outdatedWorld.base.docs "d").any (fun row => row.status = .pending && row.attempts = 0) := by
  have hreach : Reachable (step sampleRebuild) Fresh init claimedWorld :=
    reachable_get ⟨_, ⟨0, rfl⟩, rfl⟩ _
  have hstep : Ingest.step sampleConfig outdatedWorld.base
      (.recordFailure ⟨"d", 0, 1, false⟩ ⟨"x", false, 0⟩) = some ((Ingest.step sampleConfig
        outdatedWorld.base (.recordFailure ⟨"d", 0, 1, false⟩ ⟨"x", false, 0⟩)).get (by decide)) :=
    (Option.some_get _).symm
  have hflight : InFlight claimedWorld.base "d" 0 := .inl ⟨⟨"d", 0, 1, false⟩, by decide, rfl, rfl⟩
  have hpass : StepOf outdatedWorld.base "d" 0 (.recordFailure ⟨"d", 0, 1, false⟩ ⟨"x", false, 0⟩) :=
    ⟨rfl, rfl⟩
  have hsee : step sampleRebuild claimedWorld (.see 0) =
      some (claimedWorld.put 0 (.requeueing claimedWorld.live)) := rfl
  have hrequeue : step sampleRebuild (claimedWorld.put 0 (.requeueing claimedWorld.live))
      (.requeue 0) = some outdatedWorld := rfl
  exact ⟨_, hstep, (rebuild_outdates hreach hflight hsee .refl hrequeue .refl hpass hstep).1,
    by decide⟩

end Nacre.Rebuild
