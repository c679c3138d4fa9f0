/-
Where the points of a document are: every chunk row of a live indexed
document has its point in the index.

`Placed` follows the ids of the passes past the fence, `Settled` says
what a committed pass has left. Neither looks at metadata, so neither
needs the claims to be in order, and both survive whatever removes points
of deleted documents only.
-/
import Nacre.Ingest.Fence
import Nacre.Lib.Table

namespace Nacre.Ingest

open Nacre.Store

variable {μ : Type}

-- =========================================================== the invariant

/-- The document has a point of this id. -/
def Present (points : Points μ) (d : DocId) (id : PointId) : Prop :=
  ∃ pt ∈ points, pt.docId = d ∧ pt.pointId = id

/-- How far the pass that holds the document has written its ids. -/
structure Underway (points : Points μ) (d : DocId) (ids left : List PointId) : Prop where
  remaining : ∀ id ∈ left, id ∈ ids
  /-- Nobody else's point has one of them. -/
  own : ∀ pt ∈ points, pt.pointId ∈ ids → pt.docId = d
  written : ∀ id ∈ ids, id ∈ left ∨ Present points d id

structure Placed (points : Points μ) (lock : DocId → Option (Holder μ))
    (minted : List PointId) : Prop where
  known : ∀ pt ∈ points, pt.pointId ∈ minted
  minted : ∀ d p content ids left swept,
    lock d = some (.upsert p content ids left swept) → ∀ id ∈ ids, id ∈ minted
  underway : ∀ d p content ids left swept,
    lock d = some (.upsert p content ids left swept) → Underway points d ids left
  /-- No id is minted for two passes. -/
  apart : ∀ d p content ids left swept d' p' content' ids' left' swept',
    lock d = some (.upsert p content ids left swept) →
    lock d' = some (.upsert p' content' ids' left' swept') → d ≠ d' →
    ∀ id ∈ ids, id ∉ ids'

/-- The chunk rows of a live indexed document have their points. -/
def Settled (docs : DocId → Option (Document μ)) (chunks : DocId → List PointId)
    (points : Points μ) : Prop :=
  ∀ d row, docs d = some row → row.deletedAt = none → row.status = .indexed →
    ∀ id ∈ chunks d, Present points d id

variable {points points' : Points μ} {lock : DocId → Option (Holder μ)}
  {minted : List PointId} {docs : DocId → Option (Document μ)}
  {chunks : DocId → List PointId} {d : DocId} {row : Document μ}

-- ================================================================ the ids

theorem present_setPayload {set : Point μ → Point μ} {d' : DocId} {id : PointId}
    (hdoc : ∀ pt, (set pt).docId = pt.docId) (hid : ∀ pt, (set pt).pointId = pt.pointId)
    (h : Present points d id) : Present (points.setPayload d' set) d id := by
  obtain ⟨pt, hmem, hd, hpt⟩ := h
  by_cases hd' : pt.docId = d'
  · exact ⟨set pt, mem_setPayload.2 (.inr ⟨pt, hmem, hd', rfl⟩), (hdoc pt).trans hd,
      (hid pt).trans hpt⟩
  · exact ⟨pt, mem_setPayload.2 (.inl ⟨hmem, hd'⟩), hd, hpt⟩

/-- Points go or change, and none that a pass has written goes. -/
theorem Placed.withPoints (h : Placed points lock minted)
    (hold : ∀ pt ∈ points', ∃ pt' ∈ points, pt'.docId = pt.docId
      ∧ pt'.pointId = pt.pointId)
    (hkeep : ∀ d p content ids left swept,
      lock d = some (.upsert p content ids left swept) →
      ∀ id ∈ ids, Present points d id → Present points' d id) :
    Placed points' lock minted where
  known pt hpt := by
    obtain ⟨pt', hmem, -, hid⟩ := hold pt hpt
    rw [← hid]
    exact h.known pt' hmem
  minted := h.minted
  underway d p content ids left swept hlock := by
    have hunder := h.underway d p content ids left swept hlock
    refine ⟨hunder.remaining, fun pt hpt hid => ?_, fun id hid => ?_⟩
    · obtain ⟨pt', hmem, hdoc, hid'⟩ := hold pt hpt
      rw [← hdoc]
      exact hunder.own pt' hmem (hid' ▸ hid)
    · exact (hunder.written id hid).imp_right
        (hkeep d p content ids left swept hlock id hid)
  apart := h.apart

/-- The lock goes to nobody, or to a delete. -/
theorem Placed.release (h : Placed points lock minted) {holder : Option (Holder μ)}
    (hno : ∀ p content ids left swept,
      holder ≠ some (.upsert p content ids left swept)) :
    Placed points (Function.update lock d holder) minted := by
  have hsame : ∀ d' p content ids left swept,
      Function.update lock d holder d' = some (.upsert p content ids left swept) →
      lock d' = some (.upsert p content ids left swept) := by
    intro d' p content ids left swept hlock
    by_cases hd : d' = d
    · subst hd
      rw [Function.update_self] at hlock
      exact absurd hlock (hno p content ids left swept)
    · rwa [Function.update_of_ne hd] at hlock
  exact
    { known := h.known
      minted := fun d' p content ids left swept hlock =>
        h.minted d' p content ids left swept (hsame _ _ _ _ _ _ hlock)
      underway := fun d' p content ids left swept hlock =>
        h.underway d' p content ids left swept (hsame _ _ _ _ _ _ hlock)
      apart := fun _ _ _ _ _ _ _ _ _ _ _ _ hlock hlock' =>
        h.apart _ _ _ _ _ _ _ _ _ _ _ _ (hsame _ _ _ _ _ _ hlock)
          (hsame _ _ _ _ _ _ hlock') }

/-- The lock goes to a pass, with ids of its own. -/
theorem Placed.hold (h : Placed points lock minted) {p : Pass μ} {content : Content}
    {ids left : List PointId} {swept : Bool}
    (hminted : ∀ id ∈ ids, id ∈ minted) (hunder : Underway points d ids left)
    (hother : ∀ d' p' content' ids' left' swept', d' ≠ d →
      lock d' = some (.upsert p' content' ids' left' swept') → ∀ id ∈ ids, id ∉ ids') :
    Placed points
      (Function.update lock d (some (.upsert p content ids left swept))) minted where
  known := h.known
  minted d' p' content' ids' left' swept' hlock := by
    by_cases hd : d' = d
    · subst hd
      rw [Function.update_self] at hlock
      cases hlock
      exact hminted
    · rw [Function.update_of_ne hd] at hlock
      exact h.minted d' p' content' ids' left' swept' hlock
  underway d' p' content' ids' left' swept' hlock := by
    by_cases hd : d' = d
    · subst hd
      rw [Function.update_self] at hlock
      cases hlock
      exact hunder
    · rw [Function.update_of_ne hd] at hlock
      exact h.underway d' p' content' ids' left' swept' hlock
  apart d₁ p₁ content₁ ids₁ left₁ swept₁ d₂ p₂ content₂ ids₂ left₂ swept₂ h₁ h₂ hne := by
    by_cases hd₁ : d₁ = d
    · subst hd₁
      rw [Function.update_self] at h₁
      rw [Function.update_of_ne hne.symm] at h₂
      cases h₁
      exact hother d₂ p₂ content₂ ids₂ left₂ swept₂ hne.symm h₂
    · rw [Function.update_of_ne hd₁] at h₁
      by_cases hd₂ : d₂ = d
      · subst hd₂
        rw [Function.update_self] at h₂
        cases h₂
        intro id hid hid'
        exact hother d₁ p₁ content₁ ids₁ left₁ swept₁ hd₁ h₁ id hid' hid
      · rw [Function.update_of_ne hd₂] at h₂
        exact h.apart _ _ _ _ _ _ _ _ _ _ _ _ h₁ h₂ hne

/-- A pass writes a point under its next id. -/
theorem Placed.put (h : Placed points lock minted) {p : Pass μ} {content : Content}
    {ids left : List PointId} {swept : Bool} {id : PointId}
    (hlock : lock d = some (.upsert p content ids (id :: left) swept))
    (hdoc : p.docId = d) :
    Placed (points.put (p.point id))
      (Function.update lock d (some (.upsert p content ids left swept))) minted := by
  have hunder := h.underway d p content ids (id :: left) swept hlock
  have hid : id ∈ ids := hunder.remaining id List.mem_cons_self
  have hmem : p.point id ∈ points.put (p.point id) := mem_put.2 (.inl rfl)
  have hkeep : ∀ d' id', Present points d' id' → id' ≠ id ∨ d' = d →
      Present (points.put (p.point id)) d' id' := by
    intro d' id' hex hor
    obtain ⟨pt, hpt, hd', hpt'⟩ := hex
    by_cases hsame : id' = id
    · subst hsame
      obtain rfl := hor.resolve_left fun hne => hne rfl
      exact ⟨p.point id', hmem, hdoc, rfl⟩
    · exact ⟨pt, mem_put.2 (.inr ⟨hpt, fun heq => hsame (hpt'.symm.trans heq)⟩), hd',
        hpt'⟩
  have hplaced : Placed (points.put (p.point id)) lock minted := by
    refine ⟨fun pt hpt => ?_, h.minted, ?_, h.apart⟩
    · rcases mem_put.1 hpt with rfl | ⟨hpt, -⟩
      · exact h.minted d p content ids (id :: left) swept hlock id hid
      · exact h.known pt hpt
    · intro d' p' content' ids' left' swept' hlock'
      have hunder' := h.underway d' p' content' ids' left' swept' hlock'
      have hwhose : ∀ id' ∈ ids', id' ≠ id ∨ d' = d := by
        intro id' hid'
        by_cases hd : d' = d
        · exact .inr hd
        · left
          intro heq
          subst heq
          exact h.apart _ _ _ _ _ _ _ _ _ _ _ _ hlock hlock' (Ne.symm hd) id' hid hid'
      refine ⟨hunder'.remaining, fun pt hpt hpt' => ?_, fun id' hid' => ?_⟩
      · rcases mem_put.1 hpt with rfl | ⟨hpt, -⟩
        · exact hdoc.trans ((hwhose id hpt').resolve_left fun hne => hne rfl).symm
        · exact hunder'.own pt hpt hpt'
      · exact (hunder'.written id' hid').imp_right fun hpresent =>
          hkeep d' id' hpresent (hwhose id' hid')
  refine hplaced.hold (hplaced.minted d p content ids (id :: left) swept hlock) ?_ ?_
  · have hafter := hplaced.underway d p content ids (id :: left) swept hlock
    refine ⟨fun id' hid' => hafter.remaining id' (List.mem_cons_of_mem _ hid'),
      hafter.own, fun id' hid' => ?_⟩
    rcases hafter.written id' hid' with hleft | hpresent
    · rcases List.mem_cons.1 hleft with rfl | hleft
      · exact .inr ⟨p.point id', hmem, hdoc, rfl⟩
      · exact .inl hleft
    · exact .inr hpresent
  · intro d' p' content' ids' left' swept' hne hlock'
    exact h.apart _ _ _ _ _ _ _ _ _ _ _ _ hlock hlock' hne.symm

-- =============================================================== the rows

theorem Settled.withRow (h : Settled docs chunks points)
    (hrow : row.deletedAt = none → row.status = .indexed →
      ∀ id ∈ chunks d, Present points d id) :
    Settled (Function.update docs d (some row)) chunks points := by
  intro d' row' hrow' hlive hindexed
  rcases Table.update_cases hrow' with ⟨rfl, rfl⟩ | ⟨-, hold⟩
  · exact hrow hlive hindexed
  · exact h d' row' hold hlive hindexed

/-- A write that leaves no row live and indexed that was not. -/
theorem Settled.withSame (h : Settled docs chunks points) {before : Document μ}
    (hbefore : docs d = some before)
    (hrow : row.deletedAt = none → row.status = .indexed →
      before.deletedAt = none ∧ before.status = .indexed) :
    Settled (Function.update docs d (some row)) chunks points := by
  refine h.withRow fun hlive hindexed => ?_
  obtain ⟨hlive', hindexed'⟩ := hrow hlive hindexed
  exact h d before hbefore hlive' hindexed'

theorem Settled.withPoints (h : Settled docs chunks points)
    (hkeep : ∀ d row, docs d = some row → row.deletedAt = none →
      row.status = .indexed → ∀ id, Present points d id → Present points' d id) :
    Settled docs chunks points' := by
  intro d row hrow hlive hindexed id hid
  exact hkeep d row hrow hlive hindexed id (h d row hrow hlive hindexed id hid)

theorem failed_deletedAt {claim : Time} {failure : Failure} {maxAttempts : Nat}
    {now : Time} :
    (failed claim failure maxAttempts now row).deletedAt = row.deletedAt := by
  unfold failed
  dsimp only
  split
  next => rfl
  next => rfl

theorem reaped_indexed {maxAttempts : Nat} {now : Time} :
    (reaped maxAttempts now row).status ≠ .indexed := by
  unfold reaped
  dsimp only
  split
  next => nofun
  next => nofun

-- ======================================================= what a step keeps

variable [DecidableEq μ] {cfg : Config} {s s' : World μ} {a : Action μ}

omit [DecidableEq μ] in
/-- The row of a document a pass holds is being parsed. -/
theorem Fenced.not_indexed (h : Fenced s) {p : Pass μ} {content : Content}
    {ids left : List PointId} {swept : Bool}
    (hlock : s.lock d = some (.upsert p content ids left swept))
    (hrow : s.docs d = some row) : row.status ≠ .indexed := by
  obtain ⟨-, -, row', hrow', hfence⟩ := h.upserting d p content ids left swept hlock
  cases hrow.symm.trans hrow'
  rw [(fence_iff.1 hfence).2.1]
  nofun

theorem settled_step (hf : Fenced s) (hp : Placed s.points s.lock s.minted)
    (h : Settled s.docs s.chunks s.points) (hs : Stepped cfg s a s') :
    Settled s'.docs s'.chunks s'.points := by
  cases hs with
  | queueNew d req hfree hrow => exact h.withRow nofun
  | queueAgain d req row hfree hrow =>
      refine h.withSame hrow fun _ hindexed => ?_
      cases hagain : requeues req row with
      | true =>
          rw [(resent_of_requeues s.now hagain).1] at hindexed
          cases hindexed
      | false =>
          obtain ⟨-, hstatus, -, hlive⟩ := resent_of_not_requeues s.now hagain
          exact ⟨hlive, hstatus.symm.trans hindexed⟩
  | updateMetadata d metadata row hfree hrow =>
      have hrows : Settled (Function.update s.docs d (some (retagged metadata s.now row)))
          s.chunks s.points :=
        h.withSame hrow fun hlive hindexed => ⟨hlive, hindexed⟩
      exact hrows.withPoints fun _ _ _ _ _ _ =>
        present_setPayload (fun _ => rfl) (fun _ => rfl)
  | retry d row row' hfree hrow hretried =>
      refine h.withRow fun _ hindexed => ?_
      unfold retried at hretried
      rw [Option.ite_none_right_eq_some] at hretried
      cases hretried.2
      cases hindexed
  | claimNext d row hfree hrow hclaim => exact h.withRow nofun
  | writePoint d p content ids left id hlock =>
      refine h.withPoints fun d' row hrow hlive hindexed id' hpresent => ?_
      have hne : d' ≠ d := by
        intro heq
        subst heq
        exact hf.not_indexed hlock hrow hindexed
      obtain ⟨pt, hpt, hd', hpt'⟩ := hpresent
      have hunder := hp.underway d p content ids (id :: left) false hlock
      refine ⟨pt, mem_put.2 (.inr ⟨hpt, fun heq => hne ?_⟩), hd', hpt'⟩
      exact hd'.symm.trans
        (hunder.own pt hpt (heq ▸ hunder.remaining id List.mem_cons_self))
  | sweep d p content ids hlock =>
      refine h.withPoints fun d' row hrow hlive hindexed id' hpresent => ?_
      have hne : d' ≠ d := by
        intro heq
        subst heq
        exact hf.not_indexed hlock hrow hindexed
      obtain ⟨pt, hpt, hd', hpt'⟩ := hpresent
      exact ⟨pt, mem_sweep.2 ⟨hpt, fun heq => absurd (hd'.symm.trans heq) hne⟩, hd', hpt'⟩
  | commit d p content ids row hlock hrow =>
      intro d' row' hrow' hlive hindexed id hid
      change Function.update s.docs d _ d' = some row' at hrow'
      change id ∈ Function.update s.chunks d ids d' at hid
      by_cases hd : d' = d
      · subst hd
        rw [Function.update_self] at hid
        exact ((hp.underway d' p content ids [] true hlock).written id hid).resolve_left
          List.not_mem_nil
      · rw [Function.update_of_ne hd] at hrow' hid
        exact h d' row' hrow' hlive hindexed id hid
  | recordFailure p failure row hfree hrow hpass =>
      refine h.withSame hrow fun hlive hindexed => ?_
      rw [failed_deletedAt] at hlive
      exact ⟨hlive, failed_indexed hindexed⟩
  | claimStranded d row hfree hrow hexpired =>
      exact h.withRow fun _ hindexed => absurd hindexed reaped_indexed
  | tombstone d hlock =>
      exact h.withPoints fun _ _ _ _ _ _ =>
        present_setPayload (fun _ => rfl) (fun _ => rfl)
  | commitRemove d row hlock hrow => exact h.withRow nofun
  | _ => exact h

theorem placed_step (hf : Fenced s) (h : Placed s.points s.lock s.minted)
    (hs : Stepped cfg s a s') : Placed s'.points s'.lock s'.minted := by
  have hpayload : ∀ d (set : Point μ → Point μ), (∀ pt, (set pt).docId = pt.docId) →
      (∀ pt, (set pt).pointId = pt.pointId) →
      Placed (s.points.setPayload d set) s.lock s.minted := by
    intro d set hdoc hid
    refine h.withPoints (fun pt hpt => ?_) fun _ _ _ _ _ _ _ _ _ =>
      present_setPayload hdoc hid
    rcases mem_setPayload.1 hpt with ⟨hmem, -⟩ | ⟨pt', hmem, -, rfl⟩
    · exact ⟨pt, hmem, rfl, rfl⟩
    · exact ⟨pt', hmem, (hdoc pt').symm, (hid pt').symm⟩
  cases hs with
  | updateMetadata d metadata row hfree hrow =>
      exact hpayload d _ (fun _ => rfl) fun _ => rfl
  | fence p content ids row hfree hrow hpass hnodup hnew hfence =>
      have hgrown : Placed s.points s.lock (ids ++ s.minted) :=
        ⟨fun pt hpt => List.mem_append_right _ (h.known pt hpt),
          fun d p content ids left swept hlock id hid => List.mem_append_right _
            (h.minted d p content ids left swept hlock id hid), h.underway, h.apart⟩
      refine hgrown.hold (fun id hid => List.mem_append_left _ hid) ?_ ?_
      · refine ⟨fun id hid => hid, fun pt hpt hid => ?_, fun id hid => .inl hid⟩
        exact absurd (h.known pt hpt) (hnew pt.pointId hid)
      · intro d' p' content' ids' left' swept' _ hlock' id hid hid'
        exact hnew id hid (h.minted d' p' content' ids' left' swept' hlock' id hid')
  | writePoint d p content ids left id hlock =>
      exact h.put hlock (hf.upserting d p content ids (id :: left) false hlock).1
  | sweep d p content ids hlock =>
      have hswept : Placed (s.points.sweep d ids) s.lock s.minted := by
        refine h.withPoints (fun pt hpt => ⟨pt, (mem_sweep.1 hpt).1, rfl, rfl⟩) ?_
        intro d' p' content' ids' left' swept' hlock' id hid hex
        obtain ⟨pt, hpt, hd', rfl⟩ := hex
        refine ⟨pt, mem_sweep.2 ⟨hpt, fun heq => ?_⟩, hd', rfl⟩
        obtain rfl := hd'.symm.trans heq
        cases hlock.symm.trans hlock'
        exact hid
      refine hswept.hold (h.minted d p content ids [] false hlock)
        (hswept.underway d p content ids [] false hlock) ?_
      intro d' p' content' ids' left' swept' hne hlock'
      exact h.apart _ _ _ _ _ _ _ _ _ _ _ _ hlock hlock' hne.symm
  | commit d p content ids row hlock hrow => exact h.release nofun
  | rollback d p content ids left swept hlock => exact h.release nofun
  | lockForRemove d row hfree hrow hlive => exact h.release nofun
  | tombstone d hlock =>
      have hflagged := hpayload d (fun pt => { pt with deleted := true }) (fun _ => rfl)
        fun _ => rfl
      exact hflagged.release nofun
  | commitRemove d row hlock hrow => exact h.release nofun
  | rollbackRemove d flagged hlock => exact h.release nofun
  | _ => exact h

end Nacre.Ingest
