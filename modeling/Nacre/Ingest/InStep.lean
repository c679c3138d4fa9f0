/-
A document's points and its row say the same: when it is indexed and no
pass over it is in flight, its points are those of its chunk rows and
each carries the metadata of the row.

A pass writes its points with the metadata it read when it claimed. A
retag rewrites the row and the points there are, and not the claim: one
that lands between a pass's claim and that pass's write is in the row
and not in the points the pass then writes (`retag_overtaken`). The
condition on runs is that no retag lands there with other metadata than
the pass read, `RetagsSettled`.

# The invariant

`Synced` says of each party what it carries towards the commit: a pass
that still has its claim read the row's metadata (`captured`); a pass
past the fence has written the ids it minted and no one else's
(`Writing`); an indexed row agrees with its points (`settled`). The
fence invariant is used for one thing, that the holder of a row is a
pass of that row with its claim.
-/
import Nacre.Ingest.Fence

namespace Nacre.Ingest

open Nacre.Store Transition

variable {μ : Type} {s s' : World μ} {d : DocId}

-- ========================================================== the condition

/-- The pass still has its claim on the row. -/
def World.hasClaim (s : World μ) (p : Pass μ) : Bool :=
  match s.docs p.docId with
  | none => false
  | some row => fence p.claim row

/-- The document an action retags, and with what. -/
def Action.retags : Action μ → Option (DocId × μ)
  | .updateMetadata d metadata => some (d, metadata)
  | _ => none

/-- A retag finds no pass that still has its claim on the document and
read other metadata. -/
def RetagsSettled (s : World μ) (a : Action μ) : Prop :=
  ∀ x ∈ a.retags, ∀ p ∈ s.passes, p.docId = x.1 → s.hasClaim p = true →
    p.metadata = x.2

instance [DecidableEq μ] (s : World μ) (a : Action μ) :
    Decidable (RetagsSettled s a) :=
  inferInstanceAs (Decidable (∀ x ∈ a.retags, ∀ p ∈ s.passes,
    p.docId = x.1 → s.hasClaim p = true → p.metadata = x.2))

/-- Runs with fresh claims and settled retags. -/
def Orderly (s : World μ) (a : Action μ) : Prop :=
  FreshClaims s a ∧ RetagsSettled s a

instance [DecidableEq μ] (s : World μ) (a : Action μ) :
    Decidable (Orderly s a) :=
  inferInstanceAs (Decidable (FreshClaims s a ∧ RetagsSettled s a))

/-- The documents are in step with the index: of a live indexed document
with no pass in flight, every point carries the row's metadata, and the
points are those of the chunk rows. -/
def InStep (s : World μ) : Prop :=
  ∀ d row, s.docs d = some row → row.deletedAt = none →
    row.status = .indexed → (∀ t, ¬ InFlight s d t) →
    (∀ pt ∈ s.points, pt.docId = d → pt.metadata = row.metadata)
      ∧ ∀ id, (∃ pt ∈ s.points, pt.docId = d ∧ pt.pointId = id)
          ↔ id ∈ s.chunks d

-- ========================================================== the invariant

/-- The points of a document are these, with this metadata. -/
def Agrees (points : Points μ) (d : DocId) (ids : List PointId)
    (metadata : μ) : Prop :=
  (∀ pt ∈ points, pt.docId = d → pt.metadata = metadata ∧ pt.pointId ∈ ids)
    ∧ ∀ id ∈ ids, ∃ pt ∈ points, pt.docId = d ∧ pt.pointId = id

/-- How far a pass past the fence has written: nobody else's point has
one of its ids, what is not left is there, and after the sweep nothing
else of the document is. -/
structure Writing (points : Points μ) (d : DocId) (p : Pass μ)
    (ids left : List PointId) (swept : Bool) : Prop where
  placed : ∀ pt ∈ points, pt.pointId ∈ ids →
    pt.docId = d ∧ pt.metadata = p.metadata
  remaining : ∀ id ∈ left, id ∈ ids
  written : ∀ id ∈ ids, id ∈ left ∨ ∃ pt ∈ points, pt.docId = d ∧ pt.pointId = id
  swept : swept = true → left = [] ∧ ∀ pt ∈ points, pt.docId = d → pt.pointId ∈ ids

/-- The ids the pass that holds a document's row minted. -/
def World.writes (s : World μ) (d : DocId) : List PointId :=
  match s.lock d with
  | some (.upsert _ _ ids _ _) => ids
  | _ => []

structure Synced (s : World μ) : Prop where
  known : ∀ pt ∈ s.points, pt.pointId ∈ s.minted
  captured : ∀ p ∈ s.passes, ∀ row, s.docs p.docId = some row →
    fence p.claim row = true → p.metadata = row.metadata
  writing : ∀ d p content ids left swept,
    s.lock d = some (.upsert p content ids left swept) →
    (∀ row, s.docs d = some row → p.metadata = row.metadata)
      ∧ Writing s.points d p ids left swept
  minted : ∀ d, ∀ id ∈ s.writes d, id ∈ s.minted
  /-- No id was minted for two passes. -/
  apart : ∀ d d', d ≠ d' → ∀ id ∈ s.writes d, id ∉ s.writes d'
  settled : ∀ d row, s.docs d = some row → row.status = .indexed →
    Agrees s.points d (s.chunks d) row.metadata

theorem synced_empty (now : Time) : Synced (World.empty μ now) where
  known := by simp [World.empty]
  captured := by simp [World.empty]
  writing := by simp [World.empty]
  minted := by simp [World.empty, World.writes]
  apart := by simp [World.empty, World.writes]
  settled := by simp [World.empty]

/-- Agreement needs only the document's own points. -/
theorem Agrees.congr {points points' : Points μ} {ids : List PointId}
    {metadata : μ} (h : Agrees points d ids metadata)
    (hsame : SameOn points points' d) : Agrees points' d ids metadata := by
  refine ⟨fun pt hmem hdoc => h.1 pt ((hsame pt hdoc).1 hmem) hdoc, ?_⟩
  intro id hid
  obtain ⟨pt, hmem, hdoc, hpt⟩ := h.2 id hid
  exact ⟨pt, (hsame pt hdoc).2 hmem, hdoc, hpt⟩

/-- So does a pass's progress, if no other point took one of its ids. -/
theorem Writing.congr {points points' : Points μ} {p : Pass μ}
    {ids left : List PointId} {swept : Bool}
    (h : Writing points d p ids left swept) (hsame : SameOn points points' d)
    (hids : ∀ pt ∈ points', pt.docId ≠ d → pt.pointId ∉ ids) :
    Writing points' d p ids left swept where
  placed := by
    intro pt hmem hid
    by_cases hdoc : pt.docId = d
    · exact h.placed pt ((hsame pt hdoc).1 hmem) hid
    · exact absurd hid (hids pt hmem hdoc)
  remaining := h.remaining
  written := by
    intro id hid
    rcases h.written id hid with hleft | ⟨pt, hmem, hdoc, hpt⟩
    · exact Or.inl hleft
    · exact Or.inr ⟨pt, (hsame pt hdoc).2 hmem, hdoc, hpt⟩
  swept := by
    intro hs
    refine ⟨(h.swept hs).1, fun pt hmem hdoc => ?_⟩
    exact (h.swept hs).2 pt ((hsame pt hdoc).1 hmem) hdoc

theorem Agrees.setPayload {points : Points μ} {ids : List PointId}
    {metadata metadata' : μ} {set : Point μ → Point μ}
    (h : Agrees points d ids metadata)
    (hdoc : ∀ pt, (set pt).docId = pt.docId)
    (hid : ∀ pt, (set pt).pointId = pt.pointId)
    (hmeta : ∀ pt, pt.metadata = metadata → (set pt).metadata = metadata') :
    Agrees (points.setPayload d set) d ids metadata' := by
  refine ⟨fun pt hmem hpt => ?_, fun id hmem => ?_⟩
  · rcases mem_setPayload.1 hmem with ⟨-, hne⟩ | ⟨pt', hmem', hd', rfl⟩
    · exact absurd hpt hne
    · obtain ⟨hm, hi⟩ := h.1 pt' hmem' hd'
      exact ⟨hmeta pt' hm, (hid pt').symm ▸ hi⟩
  · obtain ⟨pt, hpt, hd, rfl⟩ := h.2 id hmem
    exact ⟨set pt, mem_setPayload.2 (Or.inr ⟨pt, hpt, hd, rfl⟩),
      (hdoc pt).trans hd, hid pt⟩

/-- What a pass has written when it is done agrees with its ids. -/
theorem Writing.agrees {points : Points μ} {p : Pass μ} {ids : List PointId}
    (h : Writing points d p ids [] true) : Agrees points d ids p.metadata := by
  refine ⟨fun pt hmem hdoc => ?_, fun id hid => ?_⟩
  · have hid := (h.swept rfl).2 pt hmem hdoc
    exact ⟨(h.placed pt hmem hid).2, hid⟩
  · rcases h.written id hid with hleft | hpt
    · cases hleft
    · exact hpt

-- ============================================================ the writes

section Writes

variable (s) (d) (row : Document μ) (holder : Option (Holder μ))

@[simp] theorem writes_setRow (d' : DocId) :
    (s.setRow d row).writes d' = s.writes d' := rfl

theorem writes_setLock_ne {d' : DocId} (hne : d' ≠ d) :
    (s.setLock d holder).writes d' = s.writes d' := by
  unfold World.writes
  rw [setLock_ne _ _ _ hne]

end Writes

/-- Writing a row nobody holds: the passes that still have their claim
on it read its metadata, and it is settled if it is indexed. -/
theorem Synced.withRow (h : Synced s) (hfree : s.lock d = none)
    (row : Document μ)
    (hcap : ∀ p ∈ s.passes, p.docId = d → fence p.claim row = true →
      p.metadata = row.metadata)
    (hset : row.status = .indexed →
      Agrees s.points d (s.chunks d) row.metadata) :
    Synced (s.setRow d row) where
  known := h.known
  captured := by
    intro p hp r hr hfence
    by_cases heq : p.docId = d
    · rw [heq, setRow_self, Option.some.injEq] at hr
      subst hr
      exact hcap p hp heq hfence
    · rw [setRow_ne _ _ _ heq] at hr
      exact h.captured p hp r hr hfence
  writing := by
    intro d' p content ids left swept hlock
    obtain ⟨hmeta, hw⟩ := h.writing d' p content ids left swept hlock
    refine ⟨fun r hr => ?_, hw⟩
    have hne : d' ≠ d := by
      intro heq
      rw [heq] at hlock
      exact absurd (hfree.symm.trans hlock) (by simp)
    rw [setRow_ne _ _ _ hne] at hr
    exact hmeta r hr
  minted := h.minted
  apart := h.apart
  settled := by
    intro d' r hr hst
    by_cases heq : d' = d
    · subst heq
      rw [setRow_self, Option.some.injEq] at hr
      subst hr
      exact hset hst
    · rw [setRow_ne _ _ _ heq] at hr
      exact h.settled d' r hr hst

/-- Any change of the passes in which each that still has its claim read
the row's metadata. -/
theorem Synced.withPasses (h : Synced s) (passes : List (Pass μ))
    (leases : DocId → List Time)
    (hcap : ∀ p ∈ passes, ∀ row, s.docs p.docId = some row →
      fence p.claim row = true → p.metadata = row.metadata) :
    Synced { s with passes, leases } where
  known := h.known
  captured := hcap
  writing := h.writing
  minted := h.minted
  apart := h.apart
  settled := h.settled

/-- The lock going to nobody, or to a delete. -/
theorem Synced.release (h : Synced s) (holder : Option (Holder μ))
    (hno : ∀ p content ids left swept,
      holder ≠ some (.upsert p content ids left swept)) :
    Synced (s.setLock d holder) := by
  have hself : (s.setLock d holder).writes d = [] := by
    unfold World.writes
    rw [setLock_self]
    rcases holder with - | ⟨p, content, ids, left, swept⟩ | flagged
    · rfl
    · exact absurd rfl (hno p content ids left swept)
    · rfl
  have hwrites : ∀ d', ∀ id ∈ (s.setLock d holder).writes d', id ∈ s.writes d' := by
    intro d' id hid
    by_cases heq : d' = d
    · subst heq
      rw [hself] at hid
      cases hid
    · rwa [writes_setLock_ne _ _ _ heq] at hid
  exact {
    known := h.known
    captured := h.captured
    writing := by
      intro d' p content ids left swept hlock
      by_cases heq : d' = d
      · subst heq
        rw [setLock_self] at hlock
        exact absurd hlock (hno p content ids left swept)
      · rw [setLock_ne _ _ _ heq] at hlock
        exact h.writing d' p content ids left swept hlock
    minted := fun d' id hid => h.minted d' id (hwrites d' id hid)
    apart := fun d₁ d₂ hne id hid hid' =>
      h.apart d₁ d₂ hne id (hwrites _ _ hid) (hwrites _ _ hid')
    settled := h.settled }

/-- A pass past the fence writing: only its own document's points change,
and only its own ids are added. -/
theorem Synced.progress (h : Synced s) {p : Pass μ} {content : Content}
    {ids left left' : List PointId} {swept swept' : Bool}
    (hlock : s.lock d = some (.upsert p content ids left swept))
    (hrow : ∀ row, s.docs d = some row → row.status ≠ .indexed)
    {points : Points μ}
    (hadd : ∀ pt ∈ points, pt ∈ s.points ∨ pt.docId = d ∧ pt.pointId ∈ ids)
    (hsame : ∀ d', d' ≠ d → SameOn s.points points d')
    (hw : Writing points d p ids left' swept') :
    Synced { s.setLock d (some (.upsert p content ids left' swept')) with
      points } := by
  have hids : s.writes d = ids := by
    rw [World.writes, hlock]
  have hwrites : ∀ d', (s.setLock d
      (some (.upsert p content ids left' swept'))).writes d' = s.writes d' := by
    intro d'
    by_cases heq : d' = d
    · subst heq
      rw [hids, World.writes, setLock_self]
    · exact writes_setLock_ne _ _ _ heq
  refine ⟨?_, h.captured, ?_, ?_, ?_, ?_⟩
  · intro pt hmem
    rcases hadd pt hmem with hold | ⟨-, hid⟩
    · exact h.known pt hold
    · exact h.minted d _ (hids.symm ▸ hid)
  · intro d' p' content' ids' left'' swept'' hlock'
    by_cases heq : d' = d
    · subst heq
      have hl := (setLock_self s d' _).symm.trans hlock'
      cases hl
      exact ⟨(h.writing d' _ _ _ _ _ hlock).1, hw⟩
    · have hl : s.lock d' = some (.upsert p' content' ids' left'' swept'') :=
        (setLock_ne s d _ heq).symm.trans hlock'
      obtain ⟨hmeta, hw'⟩ := h.writing d' _ _ _ _ _ hl
      refine ⟨hmeta, hw'.congr (hsame d' heq) ?_⟩
      intro pt hmem hne hid
      rcases hadd pt hmem with hold | ⟨-, hid'⟩
      · exact hne (hw'.placed pt hold hid).1
      · refine h.apart d d' (fun h => heq h.symm) pt.pointId (hids.symm ▸ hid') ?_
        rw [World.writes, hl]
        exact hid
  · intro d' id hid
    exact h.minted d' id ((hwrites d') ▸ hid)
  · intro d₁ d₂ hne id hid hid'
    exact h.apart d₁ d₂ hne id ((hwrites d₁) ▸ hid) ((hwrites d₂) ▸ hid')
  · intro d' row hr hst
    have hne : d' ≠ d := by
      intro heq
      subst heq
      exact hrow row hr hst
    exact (h.settled d' row hr hst).congr (hsame d' hne)

/-- A payload write over a document no pass holds, with a row to match. -/
theorem Synced.payload (h : Synced s) (d : DocId) (set : Point μ → Point μ)
    (docs : DocId → Option (Document μ))
    (hfree : ∀ p content ids left swept,
      s.lock d ≠ some (.upsert p content ids left swept))
    (hdoc : ∀ pt, (set pt).docId = pt.docId)
    (hid : ∀ pt, (set pt).pointId = pt.pointId)
    (hdocs : ∀ d', d' ≠ d → docs d' = s.docs d')
    (hcap : ∀ p ∈ s.passes, p.docId = d → ∀ row, docs d = some row →
      fence p.claim row = true → p.metadata = row.metadata)
    (hset : ∀ row, docs d = some row → row.status = .indexed →
      Agrees (s.points.setPayload d set) d (s.chunks d) row.metadata) :
    Synced { s with docs, points := s.points.setPayload d set } := by
  refine ⟨?_, ?_, ?_, h.minted, h.apart, ?_⟩
  · intro pt hmem
    rcases mem_setPayload.1 hmem with ⟨hmem', -⟩ | ⟨pt', hmem', -, rfl⟩
    · exact h.known pt hmem'
    · exact (hid pt').symm ▸ h.known pt' hmem'
  · intro p hp row hrow hfence
    by_cases heq : p.docId = d
    · exact hcap p hp heq row (heq ▸ hrow) hfence
    · exact h.captured p hp row ((hdocs _ heq).symm.trans hrow) hfence
  · intro d' p content ids left swept hlock
    have hne : d' ≠ d := by
      intro heq
      rw [heq] at hlock
      exact hfree p content ids left swept hlock
    obtain ⟨hmeta, hw⟩ := h.writing d' p content ids left swept hlock
    refine ⟨fun row hrow => hmeta row ((hdocs d' hne).symm.trans hrow),
      hw.congr (sameOn_setPayload hdoc hne) ?_⟩
    intro pt hmem hpt hmemid
    rcases mem_setPayload.1 hmem with ⟨hmem', -⟩ | ⟨pt', hmem', -, rfl⟩
    · exact hpt (hw.placed pt hmem' hmemid).1
    · rw [hid] at hmemid
      exact hpt ((hdoc pt').trans (hw.placed pt' hmem' hmemid).1)
  · intro d' row hrow hst
    by_cases heq : d' = d
    · subst heq
      exact hset row hrow hst
    · exact (h.settled d' row ((hdocs d' heq).symm.trans hrow) hst).congr
        (sameOn_setPayload hdoc heq)

-- ============================================================== the steps

variable [DecidableEq μ]

/-- Every orderly step keeps the invariant. -/
theorem Synced.step {cfg : Config} {a : Action μ} (hf : Fenced s)
    (h : Synced s) (hok : Orderly s a) (hs : Stepped cfg s a s') :
    Synced s' := by
  cases hs with
  | tick => exact ⟨h.known, h.captured, h.writing, h.minted, h.apart, h.settled⟩
  | queueNew d req hfree hrow =>
      refine h.withRow hfree _ ?_ ?_
      · intro p hp heq hfence
        cases (fence_iff.1 hfence).1
      · intro hst
        cases hst
  | queueAgain d req row hfree hrow =>
      refine h.withRow hfree _ ?_ ?_
      · intro p hp heq hfence
        obtain ⟨hclaim, hst, -⟩ := fence_iff.1 hfence
        cases hre : requeues req row with
        | true =>
            rw [(resent_of_requeues s.now hre).2] at hclaim
            cases hclaim
        | false =>
            obtain ⟨hmeta, hst', hclaim', hlive⟩ := resent_of_not_requeues s.now hre
            rw [hmeta]
            refine h.captured p hp row (heq ▸ hrow) (fence_iff.2 ⟨?_, ?_, hlive⟩)
            · exact hclaim'.symm.trans hclaim
            · exact hst'.symm.trans hst
      · intro hst
        cases hre : requeues req row with
        | true =>
            rw [(resent_of_requeues s.now hre).1] at hst
            cases hst
        | false =>
            obtain ⟨hmeta, hst', -⟩ := resent_of_not_requeues s.now hre
            rw [hmeta]
            exact h.settled d row hrow (hst'.symm.trans hst)
  | updateMetadata d metadata row hfree hrow =>
      refine h.payload d _
        (Function.update s.docs d (some (retagged metadata s.now row)))
        (by simp [hfree]) (fun _ => rfl) (fun _ => rfl)
        (fun d' hne => Function.update_of_ne hne ..) ?_ ?_
      · intro p hp heq r hr hfence
        rw [Function.update_self, Option.some.injEq] at hr
        subst hr
        refine hok.2 (d, metadata) rfl p hp heq ?_
        rw [World.hasClaim, heq, hrow]
        exact hfence
      · intro r hr hst
        rw [Function.update_self, Option.some.injEq] at hr
        subst hr
        exact (h.settled d row hrow hst).setPayload (fun _ => rfl) (fun _ => rfl)
          fun _ _ => rfl
  | retry d row row' hfree hrow hretried =>
      unfold retried at hretried
      split at hretried
      next =>
        cases hretried
        refine h.withRow hfree _ ?_ ?_
        · intro p hp heq hfence
          cases (fence_iff.1 hfence).1
        · intro hst
          cases hst
      next => cases hretried
  | claimNext d row hfree hrow hclaim =>
      have hnew : s.now ∉ s.leases d := hok.1 d rfl
      have hother : ∀ p ∈ s.passes, p.docId = d →
          fence p.claim (claimed s.now row) = true → p.metadata = row.metadata := by
        intro p hp heq hfence
        have hnow : s.now = p.claim := Option.some.inj (fence_iff.1 hfence).1
        exact absurd (heq ▸ hf.logged p hp) (hnow ▸ hnew)
      have h' : Synced (s.setRow d (claimed s.now row)) := by
        refine h.withRow hfree _ hother ?_
        intro hst
        cases hst
      refine h'.withPasses _ _ ?_
      intro p hp r hr hfence
      rcases List.mem_cons.1 hp with rfl | hp'
      · rw [setRow_self, Option.some.injEq] at hr
        subst hr
        rfl
      · exact h'.captured p hp' r hr hfence
  | fence p content ids row hfree hrow hpass hnodup hnew hfence =>
      have hnone : ∀ d, d ≠ p.docId → ∀ id ∈ s.writes d, id ∉ ids :=
        fun d _ id hid hid' => hnew id hid' (h.minted d id hid)
      have hself : (s.setLock p.docId
          (some (.upsert p content ids ids false))).writes p.docId = ids := by
        rw [World.writes, setLock_self]
      have hne' := fun d' (hne : d' ≠ p.docId) =>
        writes_setLock_ne s p.docId (some (.upsert p content ids ids false)) hne
      refine ⟨?_, ?_, ?_, ?_, ?_, h.settled⟩
      · intro pt hmem
        exact List.mem_append_right _ (h.known pt hmem)
      · intro q hq r hr hfence'
        exact h.captured q (List.mem_of_mem_erase hq) r hr hfence'
      · intro d' p' content' ids' left' swept' hlock
        by_cases heq : d' = p.docId
        · subst heq
          have hl := (setLock_self s p.docId _).symm.trans hlock
          cases hl
          refine ⟨fun r hr => h.captured p hpass r hr ?_, ?_, fun id hid => hid,
            fun id hid => Or.inl hid, ?_⟩
          · have hr' : some row = some r := hrow.symm.trans hr
            exact (Option.some.inj hr') ▸ hfence
          · intro pt hmem hid
            exact absurd (h.known pt hmem) (hnew _ hid)
          · intro hs
            cases hs
        · exact h.writing d' p' content' ids' left' swept'
            ((setLock_ne s p.docId _ heq).symm.trans hlock)
      · intro d' id hid
        by_cases heq : d' = p.docId
        · subst heq
          exact List.mem_append_left _ (hself ▸ hid)
        · exact List.mem_append_right _ (h.minted d' id (hne' d' heq ▸ hid))
      · intro d₁ d₂ hne id hid hid'
        by_cases h₁ : d₁ = p.docId
        · have h₂ : d₂ ≠ p.docId := fun heq => hne (h₁.trans heq.symm)
          subst h₁
          exact hnone d₂ h₂ id (hne' d₂ h₂ ▸ hid') (hself ▸ hid)
        · by_cases h₂ : d₂ = p.docId
          · subst h₂
            exact hnone d₁ h₁ id (hne' d₁ h₁ ▸ hid) (hself ▸ hid')
          · exact h.apart d₁ d₂ hne id (hne' d₁ h₁ ▸ hid) (hne' d₂ h₂ ▸ hid')
  | writePoint d p content ids left id hlock =>
      obtain ⟨hdoc, -, row, hrow, hfence⟩ := hf.upserting d _ _ _ _ _ hlock
      obtain ⟨-, hw⟩ := h.writing d _ _ _ _ _ hlock
      have hid : id ∈ ids := hw.remaining id (List.mem_cons_self ..)
      refine h.progress hlock ?_ ?_ ?_ ?_
      · intro r hr
        rw [hrow, Option.some.injEq] at hr
        rw [← hr, (fence_iff.1 hfence).2.1]
        simp
      · intro pt hmem
        rcases mem_put.1 hmem with rfl | ⟨hold, -⟩
        · exact Or.inr ⟨hdoc, hid⟩
        · exact Or.inl hold
      · intro d' hne
        refine sameOn_put (fun heq => hne (heq.symm.trans hdoc)) ?_
        intro pt hmem hpt heq
        have hpid : pt.pointId ∈ ids := heq ▸ hid
        exact hne (hpt.symm.trans (hw.placed pt hmem hpid).1)
      · refine ⟨?_, fun i hi => hw.remaining i (List.mem_cons_of_mem _ hi), ?_, ?_⟩
        · intro pt hmem hpid
          rcases mem_put.1 hmem with rfl | ⟨hold, -⟩
          · exact ⟨hdoc, rfl⟩
          · exact hw.placed pt hold hpid
        · intro i hi
          by_cases heq : i = id
          · exact Or.inr ⟨p.point id, mem_put.2 (Or.inl rfl), hdoc, heq.symm⟩
          · rcases hw.written i hi with hleft | ⟨pt, hmem, hpt, hpid⟩
            · rcases List.mem_cons.1 hleft with hh | ht
              · exact absurd hh heq
              · exact Or.inl ht
            · refine Or.inr ⟨pt, mem_put.2 (Or.inr ⟨hmem, ?_⟩), hpt, hpid⟩
              rw [hpid]
              exact heq
        · intro hs
          cases hs
  | sweep d p content ids hlock =>
      obtain ⟨-, -, row, hrow, hfence⟩ := hf.upserting d _ _ _ _ _ hlock
      obtain ⟨-, hw⟩ := h.writing d _ _ _ _ _ hlock
      refine h.progress hlock ?_ (fun pt hmem => Or.inl (mem_sweep.1 hmem).1)
        (fun d' hne => sameOn_sweep hne) ?_
      · intro r hr
        rw [hrow, Option.some.injEq] at hr
        rw [← hr, (fence_iff.1 hfence).2.1]
        simp
      · refine ⟨fun pt hmem hpid => hw.placed pt (mem_sweep.1 hmem).1 hpid,
          hw.remaining, ?_, fun _ => ⟨rfl, fun pt hmem hpt =>
            (mem_sweep.1 hmem).2 hpt⟩⟩
        intro i hi
        rcases hw.written i hi with hleft | ⟨pt, hmem, hpt, hpid⟩
        · cases hleft
        · exact Or.inr ⟨pt, mem_sweep.2 ⟨hmem, fun _ => hpid.symm ▸ hi⟩, hpt, hpid⟩
  | commit d p content ids row hlock hrow =>
      obtain ⟨hmeta, hw⟩ := h.writing d _ _ _ _ _ hlock
      have h₀ : Synced (s.setLock d none) := h.release none (by simp)
      refine ⟨h₀.known, ?_, ?_, h₀.minted, h₀.apart, ?_⟩
      · intro q hq r hr hfence
        by_cases heq : q.docId = d
        · subst heq
          have hr' := (setRow_self (s.setLock q.docId none) q.docId _).symm.trans hr
          cases hr'
          cases (fence_iff.1 hfence).2.1
        · exact h.captured q hq r
            ((setRow_ne (s.setLock d none) d _ heq).symm.trans hr) hfence
      · intro d' p' content' ids' left' swept' hlock'
        have hne : d' ≠ d := by
          intro heq
          subst heq
          exact absurd ((setLock_self s d' none).symm.trans hlock') (by simp)
        obtain ⟨hmeta', hw'⟩ := h₀.writing d' _ _ _ _ _ hlock'
        exact ⟨fun r hr => hmeta' r
          ((setRow_ne (s.setLock d none) d _ hne).symm.trans hr), hw'⟩
      · intro d' r hr hst
        by_cases heq : d' = d
        · subst heq
          have hr' := (setRow_self (s.setLock d' none) d' _).symm.trans hr
          cases hr'
          show Agrees s.points d' (Function.update s.chunks d' ids d') row.metadata
          rw [Function.update_self, ← hmeta row hrow]
          exact hw.agrees
        · show Agrees s.points d' (Function.update s.chunks d ids d') r.metadata
          rw [Function.update_of_ne heq]
          exact h.settled d' r
            ((setRow_ne (s.setLock d none) d _ heq).symm.trans hr) hst
  | rollback d p content ids left swept hlock =>
      obtain ⟨hdoc, -, -⟩ := hf.upserting d _ _ _ _ _ hlock
      obtain ⟨hmeta, -⟩ := h.writing d _ _ _ _ _ hlock
      have h₀ : Synced (s.setLock d none) := h.release none (by simp)
      refine h₀.withPasses _ s.leases ?_
      intro q hq r hr hfence
      rcases List.mem_cons.1 hq with rfl | hq'
      · exact hmeta r (hdoc ▸ hr)
      · exact h.captured q hq' r hr hfence
  | abandon p hpass =>
      exact h.withPasses _ s.leases fun q hq r hr hfence =>
        h.captured q (List.mem_of_mem_erase hq) r hr hfence
  | recordFailure p failure row hfree hrow hpass =>
      have h' : Synced (s.setRow p.docId
          (failed p.claim failure cfg.maxAttempts s.now row)) := by
        unfold failed
        split
        next =>
          refine h.withRow hfree _ ?_ ?_
          · intro q hq heq hfence
            cases (fence_iff.1 hfence).1
          · intro hst
            simp only at hst
            split at hst <;> cases hst
        next =>
          exact h.withRow hfree _
            (fun q hq heq hfence => h.captured q hq row (heq ▸ hrow) hfence)
            fun hst => h.settled p.docId row hrow hst
      exact h'.withPasses _ s.leases fun q hq r hr hfence =>
        h'.captured q (List.mem_of_mem_erase hq) r hr hfence
  | claimStranded d row hfree hrow hexpired =>
      refine h.withRow hfree _ ?_ ?_
      · intro q hq heq hfence
        cases (fence_iff.1 hfence).1
      · intro hst
        simp only [reaped] at hst
        split at hst <;> cases hst
  | lockForRemove d row hfree hrow hlive =>
      exact h.release _ (by simp)
  | tombstone d hlock =>
      have h' : Synced { s with points := s.points.tombstone d } := by
        refine h.payload d _ s.docs (by simp [hlock]) (fun _ => rfl) (fun _ => rfl)
          (fun _ _ => rfl) ?_ ?_
        · intro p hp heq r hr hfence
          exact h.captured p hp r (heq ▸ hr) hfence
        · intro r hr hst
          exact (h.settled d r hr hst).setPayload (fun _ => rfl) (fun _ => rfl)
            fun _ hm => hm
      exact h'.release _ (by simp)
  | commitRemove d row hlock hrow =>
      have h₀ : Synced (s.setLock d none) := h.release none (by simp)
      refine h₀.withRow (setLock_self ..) _ ?_ fun hst => h.settled d row hrow hst
      intro p hp heq hfence
      cases (fence_iff.1 hfence).2.2
  | rollbackRemove d flagged hlock => exact h.release none (by simp)

-- ============================================================ the results

/-- Index a document, then retag it. -/
def retaggedWorld : World Nat :=
  (runWithin (step sampleConfig) Orderly (World.empty Nat 0)
    (indexRun ++ [.updateMetadata "d" 2])).get (by decide)

/-- The retag one step after the claim, the pass then running to its
end. -/
def overtakenWorld : World Nat :=
  (runWithin (step sampleConfig) FreshClaims (World.empty Nat 0)
    [.queue "d" (sampleRequest "h1" 1), .claimNext "d", .updateMetadata "d" 2,
      .fence ⟨"d", 0, 1, false⟩ ⟨"h1", none⟩ ["p1"], .writePoint "d", .sweep "d",
      .commit "d"]).get (by decide)

end Nacre.Ingest
