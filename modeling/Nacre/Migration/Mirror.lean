/-
What a set of points owes the document rows, said once for every set it
is claimed of: the live collection, and what a copy has copied or still
has ahead of it.

`Mirrors` has two halves. A served document has a point for each of its
chunks; a deleted one has no point that is not flagged. Two exemptions
say which rows it does not speak about: `exempt` takes the times a
repair will look at, so a row stamped then is left to it, and `todo` the
documents whose tombstone is about to be re-asserted.

The lemmas are one for each kind of write: to a row, to the points of
one document, to the payload of points.
-/
import Nacre.Lib.Table
import Nacre.Store.Index

namespace Nacre.Migration

open Nacre.Store
open Table (update_cases)

variable {μ : Type}

-- =========================================================== the relation

/-- The points owe the rows nothing that is missing. -/
structure Mirrors (docs : DocId → Option (Document μ))
    (chunks : DocId → List PointId) (view : Point μ → Prop)
    (exempt : Time → Prop) (todo : DocId → Prop) : Prop where
  whole : ∀ d row, docs d = some row → row.served = true →
    ¬ exempt row.updatedAt → ∀ id ∈ chunks d,
      ∃ pt, view pt ∧ pt.pointId = id ∧ pt.docId = d
  hidden : ∀ d row t, docs d = some row → row.deletedAt = some t →
    ¬ exempt t → ¬ todo d → ∀ pt, view pt → pt.docId = d → pt.deleted = true

variable {docs : DocId → Option (Document μ)} {chunks : DocId → List PointId}
  {view view' : Point μ → Prop} {exempt exempt' : Time → Prop}
  {todo todo' : DocId → Prop} {d : DocId} {row row' : Document μ}

/-- More rows are exempt. -/
theorem Mirrors.weaken (h : Mirrors docs chunks view exempt todo)
    (hexempt : ∀ t, exempt t → exempt' t) (htodo : ∀ d, todo d → todo' d) :
    Mirrors docs chunks view exempt' todo' where
  whole d row hrow hserved hold :=
    h.whole d row hrow hserved fun hex => hold (hexempt _ hex)
  hidden d row t hrow hdel hold hdone :=
    h.hidden d row t hrow hdel (fun hex => hold (hexempt _ hex))
      fun htd => hdone (htodo _ htd)

/-- The same points. -/
theorem Mirrors.congr (h : Mirrors docs chunks view exempt todo)
    (hview : ∀ pt, view' pt ↔ view pt) :
    Mirrors docs chunks view' exempt todo where
  whole d row hrow hserved hold id hid := by
    obtain ⟨pt, hpt, hkey⟩ := h.whole d row hrow hserved hold id hid
    exact ⟨pt, (hview pt).2 hpt, hkey⟩
  hidden d row t hrow hdel hold hdone pt hpt :=
    h.hidden d row t hrow hdel hold hdone pt ((hview pt).1 hpt)

-- ============================================================ row writes

/-- A row that is neither served nor deleted owes nothing. -/
theorem Mirrors.setIdle (h : Mirrors docs chunks view exempt todo)
    (hserved : row.served = false) (hlive : row.deletedAt = none) :
    Mirrors (Function.update docs d (some row)) chunks view exempt todo where
  whole d' new hrow hnew hold := by
    rcases update_cases hrow with ⟨-, rfl⟩ | ⟨-, hrow⟩
    · rw [hserved] at hnew
      cases hnew
    · exact h.whole d' new hrow hnew hold
  hidden d' new t hrow hdel hold hdone := by
    rcases update_cases hrow with ⟨-, rfl⟩ | ⟨-, hrow⟩
    · rw [hlive] at hdel
      cases hdel
    · exact h.hidden d' new t hrow hdel hold hdone

/-- A write that indexes nothing: its row is left to the repair, or it
owes what it owed. -/
theorem Mirrors.rewrite (h : Mirrors docs chunks view exempt todo)
    {stamp : Time} (hrow : docs d = some row) (hrw : Rewrites stamp row row')
    (hstamp : exempt stamp ∨ ∀ t, ¬ exempt t) :
    Mirrors (Function.update docs d (some row')) chunks view exempt todo where
  whole d' new hnew hserved hold := by
    rcases update_cases hnew with ⟨rfl, rfl⟩ | ⟨-, hnew⟩
    · have hserved' := (hrw.served hserved).1
      apply h.whole d' row hrow hserved'
      rcases hrw.updatedAt with heq | heq
      · rw [← heq]
        exact hold
      · rcases hstamp with hex | hnone
        · rw [heq] at hold
          exact absurd hex hold
        · exact hnone _
    · exact h.whole d' new hnew hserved hold
  hidden d' new t hnew hdel hold hdone := by
    rcases update_cases hnew with ⟨rfl, rfl⟩ | ⟨-, hnew⟩
    · exact h.hidden d' row t hrow (hrw.deletedAt t hdel) hold hdone
    · exact h.hidden d' new t hnew hdel hold hdone

/-- A mark changes nothing that is owed. -/
theorem Mirrors.mark (h : Mirrors docs chunks view exempt todo)
    {vector : String} (hrow : docs d = some row) :
    Mirrors (Function.update docs d (some (marked vector row))) chunks view
      exempt todo where
  whole d' new hnew hserved hold := by
    rcases update_cases hnew with ⟨rfl, rfl⟩ | ⟨-, hnew⟩
    · exact h.whole d' row hrow hserved hold
    · exact h.whole d' new hnew hserved hold
  hidden d' new t hnew hdel hold hdone := by
    rcases update_cases hnew with ⟨rfl, rfl⟩ | ⟨-, hnew⟩
    · exact h.hidden d' row t hrow hdel hold hdone
    · exact h.hidden d' new t hnew hdel hold hdone

/-- A pass commits: its row is left to the repair, or its points are
there. -/
theorem Mirrors.commit (h : Mirrors docs chunks view exempt todo)
    {content : Content} {ids : List PointId} {stamp : Time}
    (hlive : row.deletedAt = none)
    (hwhole : exempt stamp ∨ ∀ id ∈ ids,
      ∃ pt, view pt ∧ pt.pointId = id ∧ pt.docId = d) :
    Mirrors (Function.update docs d
        (some (upserted content ids.length stamp row)))
      (Function.update chunks d ids) view exempt todo where
  whole d' new hnew hserved hold := by
    rcases update_cases hnew with ⟨rfl, rfl⟩ | ⟨hne, hnew⟩
    · rw [Function.update_self]
      exact hwhole.resolve_left hold
    · rw [Function.update_of_ne hne]
      exact h.whole d' new hnew hserved hold
  hidden d' new t hnew hdel hold hdone := by
    rcases update_cases hnew with ⟨rfl, rfl⟩ | ⟨-, hnew⟩
    · rw [show (upserted content ids.length stamp row).deletedAt = none from
        hlive] at hdel
      cases hdel
    · exact h.hidden d' new t hnew hdel hold hdone

/-- A delete commits: its row is left to the repair, or its points are
flagged. -/
theorem Mirrors.remove (h : Mirrors docs chunks view exempt todo)
    {stamp : Time}
    (hflagged : exempt stamp ∨ ∀ pt, view pt → pt.docId = d → pt.deleted = true) :
    Mirrors (Function.update docs d (some (tombstoned stamp row))) chunks view
      exempt todo where
  whole d' new hnew hserved hold := by
    rcases update_cases hnew with ⟨rfl, rfl⟩ | ⟨-, hnew⟩
    · rw [served_iff] at hserved
      cases hserved.1
    · exact h.whole d' new hnew hserved hold
  hidden d' new t hnew hdel hold hdone := by
    rcases update_cases hnew with ⟨rfl, rfl⟩ | ⟨-, hnew⟩
    · cases hdel
      exact hflagged.resolve_left hold
    · exact h.hidden d' new t hnew hdel hold hdone

/-- A repair: what it requeues owes nothing, what it does not requeue was
not exempt on its account, and what it re-asserts is to do. -/
theorem Mirrors.repair (h : Mirrors docs chunks view exempt todo)
    {since stamp : Time}
    (hexempt : ∀ t, exempt t → since ≤ t ∨ exempt' t)
    (htodo : ∀ d, todo d → todo' d)
    (hdone : ∀ d row, docs d = some row → retombstones since row = true →
      todo' d) :
    Mirrors (fun d => (docs d).map (repaired since stamp)) chunks view exempt'
      todo' where
  whole d new hnew hserved hold := by
    obtain ⟨row, hrow, rfl⟩ := Option.map_eq_some_iff.1 hnew
    unfold repaired at hserved hold
    split at hserved
    next =>
      rw [served_iff] at hserved
      cases hserved.2
    next hstays =>
      rw [if_neg hstays] at hold
      have hserved' : row.served = true := by
        split at hserved
        next => exact hserved
        next => exact hserved
      have hold' : ¬ exempt' row.updatedAt := by
        split at hold
        next => exact hold
        next => exact hold
      apply h.whole d row hrow hserved'
      intro hex
      rcases hexempt _ hex with hsince | hex'
      · rw [served_iff] at hserved'
        apply hstays
        simp [requeuedSince, hserved', hsince]
      · exact hold' hex'
  hidden d new t hnew hdel hold hnew_todo := by
    obtain ⟨row, hrow, rfl⟩ := Option.map_eq_some_iff.1 hnew
    have hdel' : row.deletedAt = some t := by
      unfold repaired at hdel
      split at hdel
      next => exact hdel
      next =>
        split at hdel
        next => exact hdel
        next => exact hdel
    apply h.hidden d row t hrow hdel'
    · intro hex
      rcases hexempt t hex with hsince | hex'
      · apply hnew_todo
        apply hdone d row hrow
        simp [retombstones, hdel', hsince]
      · exact hold hex'
    · intro htd
      exact hnew_todo (htodo d htd)

-- ========================================================== point writes

/-- Writes to the points of one document that is neither served nor
deleted. -/
theorem Mirrors.onDoc (h : Mirrors docs chunks view exempt todo)
    (hrow : docs d = some row) (hserved : row.served = false)
    (hlive : row.deletedAt = none)
    (hview : ∀ pt, pt.docId ≠ d → (view' pt ↔ view pt)) :
    Mirrors docs chunks view' exempt todo where
  whole d' new hnew hnew_served hold id hid := by
    by_cases hd : d' = d
    · subst hd
      cases hrow.symm.trans hnew
      rw [hserved] at hnew_served
      cases hnew_served
    · obtain ⟨pt, hpt, hptid, hptd⟩ := h.whole d' new hnew hnew_served hold id hid
      have hne : pt.docId ≠ d := by
        rw [hptd]
        exact hd
      exact ⟨pt, (hview pt hne).2 hpt, hptid, hptd⟩
  hidden d' new t hnew hdel hold hdone pt hpt hptd := by
    by_cases hd : d' = d
    · subst hd
      cases hrow.symm.trans hnew
      rw [hlive] at hdel
      cases hdel
    · have hne : pt.docId ≠ d := by
        rw [hptd]
        exact hd
      exact h.hidden d' new t hnew hdel hold hdone pt ((hview pt hne).1 hpt) hptd

/-- Writes to the payload or the vectors of points: no point comes or
goes, none is unflagged. -/
theorem Mirrors.payload (h : Mirrors docs chunks view exempt todo)
    (hto : ∀ pt, view pt → ∃ pt', view' pt' ∧ pt'.pointId = pt.pointId
      ∧ pt'.docId = pt.docId)
    (hfrom : ∀ pt', view' pt' → ∃ pt, view pt ∧ pt'.docId = pt.docId
      ∧ (pt.deleted = true → pt'.deleted = true)) :
    Mirrors docs chunks view' exempt todo where
  whole d row hrow hserved hold id hid := by
    obtain ⟨pt, hpt, hptid, hptd⟩ := h.whole d row hrow hserved hold id hid
    obtain ⟨pt', hpt', hid', hd'⟩ := hto pt hpt
    exact ⟨pt', hpt', hid'.trans hptid, hd'.trans hptd⟩
  hidden d row t hrow hdel hold hdone pt' hpt' hptd := by
    obtain ⟨pt, hpt, hd', hflag⟩ := hfrom pt' hpt'
    exact hflag (h.hidden d row t hrow hdel hold hdone pt hpt (hd'.symm.trans hptd))

/-- One document to do has its points flagged. -/
theorem Mirrors.done (h : Mirrors docs chunks view exempt todo)
    (htodo : ∀ d', todo d' → todo' d' ∨ d' = d)
    (hflagged : ∀ pt, view pt → pt.docId = d → pt.deleted = true) :
    Mirrors docs chunks view exempt todo' where
  whole := h.whole
  hidden d' row t hrow hdel hold hdone pt hpt hptd := by
    by_cases hd : d' = d
    · subst hd
      exact hflagged pt hpt hptd
    · apply h.hidden d' row t hrow hdel hold _ pt hpt hptd
      intro htd
      exact (htodo d' htd).elim hdone hd

end Nacre.Migration
