/-
What the row lock and the fence keep: nothing of a deleted document is
searchable, and a pass that lost its claim changes nothing.

# The invariant

`Fenced` ties the lock's holder to the row. A pass past the fence still
has its claim on the row, because every writer of the row waits for the
lock; a delete that has flagged the points sees them stay flagged,
because every writer of the points waits for it too. So the row of a
deleted document has flagged points only.

# Lost claims

`Lost` is stable: a claim is gone from the row, or the row is deleted. A
row gets a claim back only by a new one, which is a new value
(`FreshClaims`), and a deleted row comes back only through a re-send,
which always takes the claim away.
-/
import Nacre.Ingest.System

namespace Nacre.Ingest

open Nacre.Store Transition

variable {μ : Type} {s s' : World μ} {d : DocId}

-- ========================================================= the invariant

/-- Every point of the document is flagged. -/
def Flagged (points : Points μ) (d : DocId) : Prop :=
  ∀ pt ∈ points, pt.docId = d → pt.deleted = true

structure Fenced (s : World μ) : Prop where
  /-- A pass's claim was given out. -/
  logged : ∀ p ∈ s.passes, p.claim ∈ s.leases p.docId
  /-- A pass that holds a row holds its own document's, and the fence
  still holds there. -/
  upserting : ∀ d p content ids left swept,
    s.lock d = some (.upsert p content ids left swept) →
    p.docId = d ∧ p.claim ∈ s.leases d
      ∧ ∃ row, s.docs d = some row ∧ fence p.claim row = true
  /-- A delete that has flagged the points finds them flagged. -/
  flagged : ∀ d, s.lock d = some (.remove true) → Flagged s.points d
  deleted : ∀ d row, s.docs d = some row → row.deletedAt ≠ none →
    Flagged s.points d

theorem fenced_empty (now : Time) : Fenced (World.empty μ now) where
  logged := by simp [World.empty]
  upserting := by simp [World.empty]
  flagged := by simp [World.empty]
  deleted := by simp [World.empty]

-- The four kinds of write, each against the invariant.

/-- Writing a row nobody holds, if it does not delete. -/
theorem Fenced.withRow (h : Fenced s) (hfree : s.lock d = none)
    (row : Document μ) (hdel : row.deletedAt ≠ none → Flagged s.points d) :
    Fenced (s.setRow d row) where
  logged := h.logged
  upserting := by
    intro d' p content ids left swept hlock
    have hne : d' ≠ d := by
      intro heq
      rw [heq] at hlock
      exact absurd (hfree.symm.trans hlock) (by simp)
    obtain ⟨hdoc, hlog, row', hrow', hfence⟩ := h.upserting d' _ _ _ _ _ hlock
    refine ⟨hdoc, hlog, row', ?_, hfence⟩
    rw [setRow_ne _ _ _ hne]
    exact hrow'
  flagged := h.flagged
  deleted := by
    intro d' row' hrow' hdel'
    by_cases heq : d' = d
    · subst heq
      rw [setRow_self, Option.some.injEq] at hrow'
      subst hrow'
      exact hdel hdel'
    · rw [setRow_ne _ _ _ heq] at hrow'
      exact h.deleted d' row' hrow' hdel'

/-- Replacing points by points of the same documents that are flagged
where the old ones were. -/
theorem Fenced.withPoints (h : Fenced s) {points : Points μ}
    (hpts : ∀ pt ∈ points, ∃ pt' ∈ s.points, pt'.docId = pt.docId
      ∧ (pt'.deleted = true → pt.deleted = true)) :
    Fenced { s with points } := by
  have hflag : ∀ d, Flagged s.points d → Flagged points d := by
    intro d hf pt hmem hdoc
    obtain ⟨pt', hmem', hdoc', hkeep⟩ := hpts pt hmem
    exact hkeep (hf pt' hmem' (hdoc'.trans hdoc))
  exact {
    logged := h.logged
    upserting := h.upserting
    flagged := fun d hl => hflag d (h.flagged d hl)
    deleted := fun d row hrow hdel => hflag d (h.deleted d row hrow hdel) }

/-- Any change of the passes in which every claim is still logged. -/
theorem Fenced.withPasses (h : Fenced s) (passes : List (Pass μ))
    (leases : DocId → List Time)
    (hlog : ∀ p ∈ passes, p.claim ∈ leases p.docId)
    (hmono : ∀ d t, t ∈ s.leases d → t ∈ leases d) :
    Fenced { s with passes, leases } where
  logged := hlog
  upserting := by
    intro d p content ids left swept hlock
    obtain ⟨hdoc, hl, hrow⟩ := h.upserting d _ _ _ _ _ hlock
    exact ⟨hdoc, hmono _ _ hl, hrow⟩
  flagged := h.flagged
  deleted := h.deleted

/-- Handing the lock to a holder the invariant allows. -/
theorem Fenced.withLock (h : Fenced s) {holder : Option (Holder μ)}
    (hupsert : ∀ p content ids left swept,
      holder = some (.upsert p content ids left swept) →
      p.docId = d ∧ p.claim ∈ s.leases d
        ∧ ∃ row, s.docs d = some row ∧ fence p.claim row = true)
    (hremove : holder = some (.remove true) → Flagged s.points d) :
    Fenced (s.setLock d holder) where
  logged := h.logged
  upserting := by
    intro d' p content ids left swept hlock
    by_cases heq : d' = d
    · subst heq
      rw [setLock_self] at hlock
      exact hupsert p content ids left swept hlock
    · rw [setLock_ne _ _ _ heq] at hlock
      exact h.upserting d' p content ids left swept hlock
  flagged := by
    intro d' hlock
    by_cases heq : d' = d
    · subst heq
      rw [setLock_self] at hlock
      exact hremove hlock
    · rw [setLock_ne _ _ _ heq] at hlock
      exact h.flagged d' hlock
  deleted := h.deleted

/-- Letting go of the lock. -/
theorem Fenced.unlock (h : Fenced s) : Fenced (s.setLock d none) :=
  h.withLock (by simp) (by simp)

/-- A point written for a document whose row is live and held by its
pass. -/
theorem Fenced.withPoint (h : Fenced s) {p : Pass μ} {content : Content}
    {ids left : List PointId} {swept : Bool}
    (hlock : s.lock d = some (.upsert p content ids left swept))
    (id : PointId) :
    Fenced { s with points := s.points.put (p.point id) } := by
  obtain ⟨hdoc, -, row, hrow, hfence⟩ := h.upserting d _ _ _ _ _ hlock
  have hlive := (fence_iff.1 hfence).2.2
  have hflag : ∀ d', d' ≠ d → Flagged s.points d' →
      Flagged (s.points.put (p.point id)) d' := by
    intro d' hne hf pt hmem hpt
    rcases mem_put.1 hmem with rfl | ⟨hmem', -⟩
    · exact absurd (hpt.symm.trans hdoc) hne
    · exact hf pt hmem' hpt
  exact {
    logged := h.logged
    upserting := h.upserting
    flagged := by
      intro d' hl
      have hne : d' ≠ d := by
        intro heq
        rw [heq, hlock] at hl
        cases hl
      exact hflag d' hne (h.flagged d' hl)
    deleted := by
      intro d' row' hrow' hdel
      have hne : d' ≠ d := by
        intro heq
        rw [heq, hrow, Option.some.injEq] at hrow'
        rw [hrow'] at hlive
        exact hdel hlive
      exact hflag d' hne (h.deleted d' row' hrow' hdel) }

variable [DecidableEq μ]

omit [DecidableEq μ] in
theorem setPayload_keeps {points : Points μ} {set : Point μ → Point μ}
    (hdoc : ∀ pt, (set pt).docId = pt.docId)
    (hdel : ∀ pt : Point μ, pt.deleted = true → (set pt).deleted = true) :
    ∀ pt ∈ points.setPayload d set, ∃ pt' ∈ points, pt'.docId = pt.docId
      ∧ (pt'.deleted = true → pt.deleted = true) := by
  intro pt hmem
  rcases mem_setPayload.1 hmem with ⟨hmem', -⟩ | ⟨pt', hmem', -, rfl⟩
  · exact ⟨pt, hmem', rfl, id⟩
  · exact ⟨pt', hmem', (hdoc pt').symm, hdel pt'⟩

/-- Every step keeps the invariant. -/
theorem Fenced.step {cfg : Config} {a : Action μ} (h : Fenced s)
    (hs : Stepped cfg s a s') : Fenced s' := by
  cases hs with
  | tick => exact ⟨h.logged, h.upserting, h.flagged, h.deleted⟩
  | queueNew d req hfree hrow =>
      exact h.withRow hfree _ fun hdel => absurd rfl hdel
  | queueAgain d req row hfree hrow =>
      exact h.withRow hfree _ fun hdel => absurd rfl hdel
  | updateMetadata d metadata row hfree hrow =>
      have h' : Fenced (s.setRow d (retagged metadata s.now row)) :=
        h.withRow hfree _ fun hdel => h.deleted d row hrow hdel
      exact h'.withPoints (setPayload_keeps (fun _ => rfl) fun _ hd => hd)
  | retry d row row' hfree hrow hretried =>
      refine h.withRow hfree _ fun hdel => h.deleted d row hrow ?_
      unfold retried at hretried
      split at hretried
      · cases hretried
        exact hdel
      · cases hretried
  | claimNext d row hfree hrow hclaim =>
      have h' : Fenced (s.setRow d (claimed s.now row)) :=
        h.withRow hfree _ fun hdel => h.deleted d row hrow hdel
      refine h'.withPasses _ _ ?_ ?_
      · intro p hp
        rcases List.mem_cons.1 hp with rfl | hp'
        · simp
        · by_cases heq : p.docId = d
          · rw [heq, Function.update_self]
            exact List.mem_cons_of_mem _ (heq ▸ h.logged p hp')
          · rw [Function.update_of_ne heq]
            exact h.logged p hp'
      · intro d' t ht
        by_cases heq : d' = d
        · subst heq
          rw [Function.update_self]
          exact List.mem_cons_of_mem _ ht
        · rw [Function.update_of_ne heq]
          exact ht
  | fence p content ids row hfree hrow hpass hnodup hnew hfence =>
      have h' : Fenced (s.setLock p.docId
          (some (.upsert p content ids ids false))) := by
        refine h.withLock ?_ (by simp)
        intro p' content' ids' left' swept' heq
        cases heq
        exact ⟨rfl, h.logged p hpass, row, hrow, hfence⟩
      have h'' := h'.withPasses (s.passes.erase p) s.leases
        (fun q hq => h.logged q (List.mem_of_mem_erase hq)) (fun _ _ ht => ht)
      exact ⟨h''.logged, h''.upserting, h''.flagged, h''.deleted⟩
  | writePoint d p content ids left id hlock =>
      have h' := h.withPoint hlock id
      refine h'.withLock ?_ (by simp)
      intro p' content' ids' left' swept' heq
      cases heq
      exact h'.upserting d p content ids (id :: left) false hlock
  | sweep d p content ids hlock =>
      have h' : Fenced { s with points := s.points.sweep d ids } :=
        h.withPoints fun pt hmem => ⟨pt, (mem_sweep.1 hmem).1, rfl, fun hd => hd⟩
      refine h'.withLock ?_ (by simp)
      intro p' content' ids' left' swept' heq
      cases heq
      exact h'.upserting d p content ids [] false hlock
  | commit d p content ids row hlock hrow =>
      have h' := (h.unlock (d := d)).withRow (d := d) (setLock_self ..)
        (upserted content ids.length s.now row) fun hdel => h.deleted d row hrow hdel
      exact ⟨h'.logged, h'.upserting, h'.flagged, h'.deleted⟩
  | rollback d p content ids left swept hlock =>
      obtain ⟨hdoc, hlog, -⟩ := h.upserting d _ _ _ _ _ hlock
      refine (h.unlock (d := d)).withPasses _ s.leases ?_ fun _ _ ht => ht
      intro q hq
      rcases List.mem_cons.1 hq with rfl | hq'
      · exact hdoc ▸ hlog
      · exact h.logged q hq'
  | abandon p hpass =>
      exact h.withPasses _ s.leases
        (fun q hq => h.logged q (List.mem_of_mem_erase hq)) fun _ _ ht => ht
  | recordFailure p failure row hfree hrow hpass =>
      have h' : Fenced (s.setRow p.docId
          (failed p.claim failure cfg.maxAttempts s.now row)) := by
        refine h.withRow hfree _ fun hdel => h.deleted _ row hrow ?_
        unfold failed at hdel
        split at hdel
        · exact hdel
        · exact hdel
      exact h'.withPasses _ s.leases
        (fun q hq => h.logged q (List.mem_of_mem_erase hq)) fun _ _ ht => ht
  | claimStranded d row hfree hrow hexpired =>
      exact h.withRow hfree _ fun hdel => h.deleted d row hrow hdel
  | lockForRemove d row hfree hrow hlive =>
      exact h.withLock (by simp) (by simp)
  | tombstone d hlock =>
      have h' : Fenced { s with points := s.points.tombstone d } :=
        h.withPoints (setPayload_keeps (fun _ => rfl) fun _ _ => rfl)
      refine h'.withLock (by simp) fun _ => ?_
      intro pt hmem hdoc
      rcases mem_setPayload.1 hmem with ⟨-, hne⟩ | ⟨pt', -, -, rfl⟩
      · exact absurd hdoc hne
      · rfl
  | commitRemove d row hlock hrow =>
      exact (h.unlock (d := d)).withRow (setLock_self ..) _
        fun _ => h.flagged d hlock
  | rollbackRemove d flagged hlock => exact h.unlock

/-- Every reachable state has the invariant. -/
theorem reachable_fenced {cfg : Config} {ok : World μ → Action μ → Prop}
    (hs : Reachable (step cfg) ok init s) : Fenced s := by
  refine hs.invariant ?_ ?_
  · intro _ hex
    obtain ⟨now, rfl⟩ := hex
    exact fenced_empty now
  · intro t a t' ht _ hstep
    exact ht.step (step_inv hstep)

-- =============================================================== deletion

/-- The document an action re-sends, if it does. -/
def Action.queues : Action μ → Option DocId
  | .queue d _ => some d
  | _ => none

/-- Runs in which nobody re-sends the document. -/
def NoQueue (d : DocId) (s : World μ) (a : Action μ) : Prop :=
  FreshClaims s a ∧ a.queues ≠ some d

/-- The document's row is deleted. -/
def Deleted (s : World μ) (d : DocId) : Prop :=
  ∃ row, s.docs d = some row ∧ row.deletedAt ≠ none

omit [DecidableEq μ] in
/-- A write of some row that leaves the document's deleted. -/
theorem Deleted.withRow {d' : DocId} {row row' : Document μ}
    (h : Deleted s d) (hrow : s.docs d' = some row)
    (hkeep : row.deletedAt ≠ none → row'.deletedAt ≠ none) :
    Deleted (s.setRow d' row') d := by
  obtain ⟨r, hr, hdel⟩ := h
  by_cases heq : d = d'
  · subst heq
    rw [hrow, Option.some.injEq] at hr
    subst hr
    exact ⟨row', setRow_self .., hkeep hdel⟩
  · exact ⟨r, (setRow_ne _ _ _ heq).trans hr, hdel⟩

/-- A deleted row stays deleted until the document is re-sent. -/
theorem Deleted.step {cfg : Config} {a : Action μ} (h : Deleted s d)
    (hq : a.queues ≠ some d) (hs : Stepped cfg s a s') : Deleted s' d := by
  cases hs with
  | tick => exact h
  | queueNew d' req hfree hrow =>
      have hne : d ≠ d' := fun heq => hq (by rw [heq]; rfl)
      obtain ⟨r, hr, hdel⟩ := h
      exact ⟨r, (setRow_ne _ _ _ hne).trans hr, hdel⟩
  | queueAgain d' req row hfree hrow =>
      have hne : d ≠ d' := fun heq => hq (by rw [heq]; rfl)
      obtain ⟨r, hr, hdel⟩ := h
      exact ⟨r, (setRow_ne _ _ _ hne).trans hr, hdel⟩
  | updateMetadata d' metadata row hfree hrow =>
      exact h.withRow hrow fun hdel => hdel
  | retry d' row row' hfree hrow hretried =>
      refine h.withRow hrow fun hdel => ?_
      unfold retried at hretried
      split at hretried
      · cases hretried
        exact hdel
      · cases hretried
  | claimNext d' row hfree hrow hclaim => exact h.withRow hrow fun hdel => hdel
  | fence p content ids row hfree hrow hpass hnodup hnew hfence => exact h
  | writePoint d' p content ids left id hlock => exact h
  | sweep d' p content ids hlock => exact h
  | commit d' p content ids row hlock hrow =>
      exact (h : Deleted (s.setLock d' none) d).withRow hrow fun hdel => hdel
  | rollback d' p content ids left swept hlock => exact h
  | abandon p hpass => exact h
  | recordFailure p failure row hfree hrow hpass =>
      refine Deleted.withRow h hrow fun hdel => ?_
      unfold failed
      split
      · exact hdel
      · exact hdel
  | claimStranded d' row hfree hrow hexpired =>
      exact h.withRow hrow fun hdel => hdel
  | lockForRemove d' row hfree hrow hlive => exact h
  | tombstone d' hlock => exact h
  | commitRemove d' row hlock hrow =>
      exact (h : Deleted (s.setLock d' none) d).withRow hrow
        fun _ => Option.some_ne_none _
  | rollbackRemove d' flagged hlock => exact h

-- ============================================================ lost claims

/-- A claim of the document that was given out and is gone: the row has
another or none, or is deleted. -/
def Lost (s : World μ) (d : DocId) (t : Time) : Prop :=
  t ∈ s.leases d
    ∧ ∀ row, s.docs d = some row → row.claimedAt = some t → row.deletedAt ≠ none

omit [DecidableEq μ] in
/-- A write of some row after which the claim, if it is there, is a
deleted row's. -/
theorem Lost.withRow {d' : DocId} {row' : Document μ} {t : Time}
    (h : Lost s d t)
    (hkeep : d' = d → row'.claimedAt = some t → row'.deletedAt ≠ none) :
    Lost (s.setRow d' row') d t := by
  refine ⟨h.1, fun r hr hclaim => ?_⟩
  by_cases heq : d = d'
  · subst heq
    rw [setRow_self, Option.some.injEq] at hr
    subst hr
    exact hkeep rfl hclaim
  · rw [setRow_ne _ _ _ heq] at hr
    exact h.2 r hr hclaim

/-- A lost claim stays lost. -/
theorem Lost.step {cfg : Config} {a : Action μ} {t : Time} (h : Lost s d t)
    (hfresh : FreshClaims s a) (hs : Stepped cfg s a s') : Lost s' d t := by
  cases hs with
  | tick => exact h
  | queueNew d' req hfree hrow =>
      refine h.withRow fun _ hclaim => ?_
      cases hclaim
  | queueAgain d' req row hfree hrow =>
      refine h.withRow fun heq hclaim => ?_
      subst heq
      cases hre : requeues req row with
      | true =>
          rw [(resent_of_requeues s.now hre).2] at hclaim
          cases hclaim
      | false =>
          obtain ⟨-, -, hsame, hlive⟩ := resent_of_not_requeues s.now hre
          rw [hsame] at hclaim
          exact absurd hlive (h.2 row hrow hclaim)
  | updateMetadata d' metadata row hfree hrow =>
      exact h.withRow fun heq hclaim => h.2 row (heq ▸ hrow) hclaim
  | retry d' row row' hfree hrow hretried =>
      refine h.withRow fun _ hclaim => ?_
      unfold retried at hretried
      split at hretried
      · cases hretried
        cases hclaim
      · cases hretried
  | claimNext d' row hfree hrow hclaim =>
      have h' : Lost (s.setRow d' (claimed s.now row)) d t := by
        refine h.withRow fun heq hc => ?_
        subst heq
        have hnow : s.now = t := Option.some.inj hc
        exact absurd (hnow ▸ h.1) (hfresh d' rfl)
      refine ⟨?_, h'.2⟩
      by_cases heq : d = d'
      · subst heq
        simpa using Or.inr h.1
      · simpa [Function.update_of_ne heq] using h.1
  | fence p content ids row hfree hrow hpass hnodup hnew hfence => exact h
  | writePoint d' p content ids left id hlock => exact h
  | sweep d' p content ids hlock => exact h
  | commit d' p content ids row hlock hrow =>
      refine Lost.withRow (s := s.setLock d' none) h fun _ hclaim => ?_
      cases hclaim
  | rollback d' p content ids left swept hlock => exact h
  | abandon p hpass => exact h
  | recordFailure p failure row hfree hrow hpass =>
      refine Lost.withRow h fun heq hclaim => ?_
      unfold failed at hclaim ⊢
      split at hclaim
      next hf => cases hclaim
      next hf =>
        rw [if_neg hf]
        exact h.2 row (heq ▸ hrow) hclaim
  | claimStranded d' row hfree hrow hexpired =>
      refine h.withRow fun _ hclaim => ?_
      cases hclaim
  | lockForRemove d' row hfree hrow hlive => exact h
  | tombstone d' hlock => exact h
  | commitRemove d' row hlock hrow =>
      exact Lost.withRow (s := s.setLock d' none) h
        fun _ _ => Option.some_ne_none _
  | rollbackRemove d' flagged hlock => exact h

/-- A pass over the document with this claim is in flight: it is working,
or it holds the row. -/
def InFlight (s : World μ) (d : DocId) (t : Time) : Prop :=
  (∃ p ∈ s.passes, p.docId = d ∧ p.claim = t)
    ∨ ∃ p content ids left swept,
        s.lock d = some (.upsert p content ids left swept) ∧ p.claim = t

/-- The action takes the document's claim away: the reaper, a re-send
that requeues, a delete. -/
def TakesClaim (s : World μ) (d : DocId) : Action μ → Prop
  | .claimStranded d' => d' = d
  | .queue d' req => d' = d ∧ ∃ row, s.docs d = some row ∧ requeues req row = true
  | .commitRemove d' => d' = d
  | _ => False

/-- The action is a step of the document's pass with this claim. -/
def StepOf (s : World μ) (d : DocId) (t : Time) : Action μ → Prop
  | .fence p _ _ => p.docId = d ∧ p.claim = t
  | .abandon p => p.docId = d ∧ p.claim = t
  | .recordFailure p _ => p.docId = d ∧ p.claim = t
  | .writePoint d' | .sweep d' | .commit d' | .rollback d' =>
      d' = d ∧ ∃ p content ids left swept,
        s.lock d = some (.upsert p content ids left swept) ∧ p.claim = t
  | _ => False

omit [DecidableEq μ] in
theorem Fenced.lease_of_inFlight {t : Time} (h : Fenced s)
    (hin : InFlight s d t) : t ∈ s.leases d := by
  rcases hin with ⟨p, hp, rfl, rfl⟩ | ⟨p, content, ids, left, swept, hlock, rfl⟩
  · exact h.logged p hp
  · exact (h.upserting d _ _ _ _ _ hlock).2.1

/-- Taking the claim away loses it for every pass in flight. -/
theorem lost_of_takesClaim {cfg : Config} {a : Action μ} {t : Time}
    (h : Fenced s) (hin : InFlight s d t) (ha : TakesClaim s d a)
    (hs : Stepped cfg s a s') : Lost s' d t := by
  have hlease := h.lease_of_inFlight hin
  cases hs with
  | claimStranded d' row hfree hrow hexpired =>
      cases ha
      refine ⟨hlease, fun r hr hclaim => ?_⟩
      rw [setRow_self, Option.some.injEq] at hr
      subst hr
      cases hclaim
  | queueNew d' req hfree hrow =>
      obtain ⟨rfl, row, hrow', -⟩ := ha
      rw [hrow] at hrow'
      cases hrow'
  | queueAgain d' req row hfree hrow =>
      obtain ⟨rfl, row', hrow', hre⟩ := ha
      rw [hrow, Option.some.injEq] at hrow'
      subst hrow'
      refine ⟨hlease, fun r hr hclaim => ?_⟩
      rw [setRow_self, Option.some.injEq] at hr
      subst hr
      rw [(resent_of_requeues s.now hre).2] at hclaim
      cases hclaim
  | commitRemove d' row hlock hrow =>
      cases ha
      refine ⟨hlease, fun r hr _ => ?_⟩
      rw [setRow_self, Option.some.injEq] at hr
      subst hr
      exact Option.some_ne_none _
  | _ => exact absurd ha id

omit [DecidableEq μ] in
/-- A pass that holds the row has not lost its claim. -/
theorem Fenced.not_lost {t : Time} (h : Fenced s) {p : Pass μ}
    {content : Content} {ids left : List PointId} {swept : Bool}
    (hlock : s.lock d = some (.upsert p content ids left swept))
    (hclaim : p.claim = t) (hlost : Lost s d t) : False := by
  obtain ⟨-, -, row, hrow, hfence⟩ := h.upserting d _ _ _ _ _ hlock
  obtain ⟨hc, -, hlive⟩ := fence_iff.1 hfence
  exact hlost.2 row hrow (hclaim ▸ hc) hlive

/-- A pass that lost its claim changes neither rows, chunks nor points. -/
theorem inert_of_lost {cfg : Config} {a : Action μ} {t : Time} (h : Fenced s)
    (hlost : Lost s d t) (ha : StepOf s d t a) (hs : Stepped cfg s a s') :
    s'.docs = s.docs ∧ s'.chunks = s.chunks ∧ s'.points = s.points := by
  cases hs with
  | fence p content ids row hfree hrow hpass hnodup hnew hfence =>
      exact ⟨rfl, rfl, rfl⟩
  | abandon p hpass => exact ⟨rfl, rfl, rfl⟩
  | recordFailure p failure row hfree hrow hpass =>
      obtain ⟨rfl, rfl⟩ := ha
      have hno : ¬ fence p.claim row = true := fun hf =>
        hlost.2 row hrow (fence_iff.1 hf).1 (fence_iff.1 hf).2.2
      have hsame : failed p.claim failure cfg.maxAttempts s.now row = row := by
        rw [failed, if_neg hno]
      refine ⟨?_, rfl, rfl⟩
      show Function.update s.docs p.docId _ = s.docs
      rw [hsame, ← hrow, Function.update_eq_self]
  | writePoint d' p content ids left id hlock =>
      obtain ⟨rfl, _, _, _, _, _, hlock', hclaim⟩ := ha
      exact (h.not_lost hlock' hclaim hlost).elim
  | sweep d' p content ids hlock =>
      obtain ⟨rfl, _, _, _, _, _, hlock', hclaim⟩ := ha
      exact (h.not_lost hlock' hclaim hlost).elim
  | commit d' p content ids row hlock hrow =>
      obtain ⟨rfl, _, _, _, _, _, hlock', hclaim⟩ := ha
      exact (h.not_lost hlock' hclaim hlost).elim
  | rollback d' p content ids left swept hlock => exact ⟨rfl, rfl, rfl⟩
  | _ => exact absurd ha id

-- ============================================================ the results

/-- From any reachable state: once a delete commits, every point of the
document is flagged for as long as nobody re-sends it; and a pass in
flight whose claim is reaped, re-sent over or deleted changes neither a
row, a chunk nor a point at any later moment. -/
theorem deletes_and_lost_claims_hold (cfg : Config) (s : World μ)
    (hs : Reachable (step cfg) FreshClaims init s) :
    (∀ d s₁ s₂, step cfg s (.commitRemove d) = some s₁ →
        Steps (step cfg) (NoQueue d) s₁ s₂ → Flagged s₂.points d)
      ∧ ∀ d t a s₁ s₂, InFlight s d t → TakesClaim s d a → FreshClaims s a →
          step cfg s a = some s₁ → Steps (step cfg) FreshClaims s₁ s₂ →
          ∀ b s₃, StepOf s₂ d t b → step cfg s₂ b = some s₃ →
            s₃.docs = s₂.docs ∧ s₃.chunks = s₂.chunks ∧ s₃.points = s₂.points := by
  have hfenced := reachable_fenced hs
  constructor
  · intro d s₁ s₂ hremove hrun
    have hstep := step_inv hremove
    have hdel : Deleted s₁ d := by
      cases hstep with
      | commitRemove d' row hlock hrow =>
          exact ⟨_, setRow_self .., Option.some_ne_none _⟩
    have hinv : Fenced s₂ ∧ Deleted s₂ d := by
      refine hrun.invariant (I := fun s => Fenced s ∧ Deleted s d)
        ⟨hfenced.step hstep, hdel⟩ ?_
      intro t a t' hall hall' ha
      obtain ⟨hf, hd⟩ := hall
      obtain ⟨-, hq⟩ := hall'
      exact ⟨hf.step (step_inv ha), hd.step hq (step_inv ha)⟩
    obtain ⟨hf, row, hrow, hd⟩ := hinv
    exact hf.deleted d row hrow hd
  · intro d t a s₁ s₂ hin htakes hfresh ha hrun b s₃ hb hbstep
    have hlost := lost_of_takesClaim hfenced hin htakes (step_inv ha)
    have hinv : Fenced s₂ ∧ Lost s₂ d t := by
      refine hrun.invariant (I := fun s => Fenced s ∧ Lost s d t)
        ⟨hfenced.step (step_inv ha), hlost⟩ ?_
      intro t' a' t'' hall hok ha'
      obtain ⟨hf, hl⟩ := hall
      exact ⟨hf.step (step_inv ha'), hl.step hok (step_inv ha')⟩
    exact inert_of_lost hinv.1 hinv.2 hb (step_inv hbstep)

def sampleConfig : Config := ⟨60, 3⟩

def sampleRequest (hash : String) (metadata : Nat) : IngestRequest Nat :=
  { layerId := "l", contentHash := hash, metadata }

/-- Index a document with one point. -/
def indexRun : List (Action Nat) :=
  [.queue "d" (sampleRequest "h1" 1), .claimNext "d",
    .fence ⟨"d", 0, 1, false⟩ ⟨"h1", none⟩ ["p1"], .writePoint "d", .sweep "d",
    .commit "d"]

/-- Re-send it, claim it again, and delete it under that pass as far as
the flags on its points. -/
def deleteRun : List (Action Nat) :=
  indexRun ++ [.queue "d" (sampleRequest "h2" 1), .tick, .claimNext "d",
    .lockForRemove "d", .tombstone "d"]

/-- The state before that delete commits. -/
def deletingWorld : World Nat :=
  (runWithin (step sampleConfig) FreshClaims (World.empty Nat 0) deleteRun).get
    (by decide)

/-- At that state: the delete commits over a pass in flight, the one
point of the document is flagged, and the pass's failure changes
nothing. -/
theorem deletes_and_lost_claims_hold_sample :
    ∃ s₁ s₂, step sampleConfig deletingWorld (.commitRemove "d") = some s₁
      ∧ s₁.points.length = 1 ∧ Flagged s₁.points "d"
      ∧ step sampleConfig s₁ (.recordFailure ⟨"d", 1, 1, false⟩ ⟨"x", true, 1⟩)
          = some s₂
      ∧ s₂.docs = s₁.docs ∧ s₂.chunks = s₁.chunks ∧ s₂.points = s₁.points := by
  have hreach : Reachable (step sampleConfig) FreshClaims init deletingWorld :=
    reachable_get ⟨0, rfl⟩ _
  obtain ⟨hdeleted, hlost⟩ :=
    deletes_and_lost_claims_hold sampleConfig deletingWorld hreach
  have hstep : step sampleConfig deletingWorld (.commitRemove "d")
      = some ((step sampleConfig deletingWorld (.commitRemove "d")).get
          (by decide)) := (Option.some_get _).symm
  have hfail : step sampleConfig
        ((step sampleConfig deletingWorld (.commitRemove "d")).get (by decide))
        (.recordFailure ⟨"d", 1, 1, false⟩ ⟨"x", true, 1⟩)
      = some ((step sampleConfig
          ((step sampleConfig deletingWorld (.commitRemove "d")).get (by decide))
          (.recordFailure ⟨"d", 1, 1, false⟩ ⟨"x", true, 1⟩)).get (by decide)) :=
    (Option.some_get _).symm
  refine ⟨_, _, hstep, by decide, hdeleted "d" _ _ hstep .refl, hfail, ?_⟩
  refine hlost "d" 1 (.commitRemove "d") _ _ ?_ rfl (by decide) hstep .refl
    (.recordFailure ⟨"d", 1, 1, false⟩ ⟨"x", true, 1⟩) _ ⟨rfl, rfl⟩ hfail
  exact Or.inl ⟨⟨"d", 1, 1, false⟩, by decide, rfl, rfl⟩

end Nacre.Ingest
