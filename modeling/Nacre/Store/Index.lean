/-
A vector collection as the writers of documents see it: points with the
payload fields they read and write, and the slots a point carries a
vector under. One function for each request the API and the worker make
(core/vector/search.ts, worker/src/adapters.ts).

`doc_id` has a `uuid` index, so a filter on it selects a document
whatever the spelling of its id.

Each operation comes with what it does to the points of one document
and to those of every other; the systems built on it use nothing else.
-/
import Mathlib.Data.String.Basic
import Nacre.Store.Rows

namespace Nacre.Store

structure Point (μ : Type) where
  pointId : PointId
  docId : DocId
  metadata : μ
  deleted : Bool := false
  /-- The named vectors the point carries. -/
  vectors : List String := []
  deriving DecidableEq

variable {μ : Type}

/-- The points of a collection, at most one for each id. -/
abbrev Points (μ : Type) := List (Point μ)

/-- Upsert of one point: what was under its id is replaced. -/
def Points.put (points : Points μ) (point : Point μ) : Points μ :=
  point :: points.filter fun pt => pt.pointId ≠ point.pointId

/-- `sweep`: the points of a document that were not just written go. -/
def Points.sweep (points : Points μ) (d : DocId) (keep : List PointId) :
    Points μ :=
  points.filter fun pt => pt.docId ≠ d || keep.contains pt.pointId

/-- `purge`: every point of a document goes. -/
def Points.purge (points : Points μ) (d : DocId) : Points μ :=
  points.filter fun pt => pt.docId ≠ d

/-- `setPayload` over the points of a document. -/
def Points.setPayload (points : Points μ) (d : DocId)
    (set : Point μ → Point μ) : Points μ :=
  points.map fun pt => if pt.docId = d then set pt else pt

/-- Upsert of a page of points. -/
def Points.putAll (points page : Points μ) : Points μ :=
  page.foldl Points.put points

/-- One page of a scroll: the points from `offset` on, in id order, up to
the `next_page_offset` the store answers with. -/
def Points.page (points : Points μ) (offset next : Option PointId) : Points μ :=
  points.filter fun pt =>
    offset.all (· ≤ pt.pointId) && next.all (pt.pointId < ·)

/-- `addVector`: the named vector is set on the points of the ids. -/
def Points.addVector (points : Points μ) (ids : List PointId) (name : String) :
    Points μ :=
  points.map fun pt =>
    if ids.contains pt.pointId then { pt with vectors := name :: pt.vectors }
    else pt

/-- `dropLayerVector`: the named vector is taken off the points of the
layer's documents. -/
def Points.dropVector (points : Points μ) (inLayer : DocId → Bool)
    (name : String) : Points μ :=
  points.map fun pt =>
    if inLayer pt.docId then { pt with vectors := pt.vectors.filter (· ≠ name) }
    else pt

/-- `tombstone`. -/
def Points.tombstone (points : Points μ) (d : DocId) : Points μ :=
  points.setPayload d fun pt => { pt with deleted := true }

/-- `tombstoneLayer`: the points of the layer's documents are flagged. -/
def Points.tombstoneLayer (points : Points μ) (inLayer : DocId → Bool) : Points μ :=
  points.map fun pt => if inLayer pt.docId then { pt with deleted := true } else pt

/-- `setMetadata`. -/
def Points.setMetadata (points : Points μ) (d : DocId) (metadata : μ) :
    Points μ :=
  points.setPayload d fun pt => { pt with metadata }

variable {points : Points μ} {pt : Point μ} {d : DocId}

theorem mem_put {point : Point μ} :
    pt ∈ points.put point
      ↔ pt = point ∨ pt ∈ points ∧ pt.pointId ≠ point.pointId := by
  simp [Points.put]

theorem mem_sweep {keep : List PointId} :
    pt ∈ points.sweep d keep
      ↔ pt ∈ points ∧ (pt.docId = d → pt.pointId ∈ keep) := by
  simp only [Points.sweep, List.mem_filter, Bool.or_eq_true,
    decide_eq_true_eq, List.contains_iff_mem]
  refine and_congr_right fun _ => ?_
  by_cases h : pt.docId = d
  · simp [h]
  · simp [h]

theorem mem_purge : pt ∈ points.purge d ↔ pt ∈ points ∧ pt.docId ≠ d := by
  simp [Points.purge]

theorem mem_setPayload {set : Point μ → Point μ} :
    pt ∈ points.setPayload d set
      ↔ (pt ∈ points ∧ pt.docId ≠ d)
        ∨ ∃ pt' ∈ points, pt'.docId = d ∧ pt = set pt' := by
  simp only [Points.setPayload, List.mem_map]
  constructor
  · intro hex
    obtain ⟨pt', hmem, rfl⟩ := hex
    by_cases h : pt'.docId = d
    · rw [if_pos h]
      exact Or.inr ⟨pt', hmem, h, rfl⟩
    · rw [if_neg h]
      exact Or.inl ⟨hmem, h⟩
  · intro hor
    rcases hor with ⟨hmem, h⟩ | ⟨pt', hmem, h, rfl⟩
    · exact ⟨pt, hmem, if_neg h⟩
    · exact ⟨pt', hmem, if_pos h⟩

/-- What a page brings is there, and what was there stays unless the page
has its id. -/
theorem mem_putAll {page : Points μ} (h : pt ∈ points.putAll page) :
    pt ∈ page ∨ pt ∈ points := by
  induction page generalizing points with
  | nil => exact Or.inr h
  | cons first rest ih =>
      rcases ih h with hrest | hput
      · exact Or.inl (List.mem_cons_of_mem _ hrest)
      · rcases mem_put.1 hput with rfl | ⟨hmem, -⟩
        · exact Or.inl List.mem_cons_self
        · exact Or.inr hmem

/-- An id that is in the page or was in the collection is there after. -/
theorem exists_putAll {page : Points μ} (good : Point μ → Prop)
    (hgood : ∀ pt ∈ page, good pt)
    (h : pt ∈ page ∨ pt ∈ points ∧ good pt) :
    ∃ pt' ∈ points.putAll page, pt'.pointId = pt.pointId ∧ good pt' := by
  induction page generalizing points pt with
  | nil =>
      rcases h with hmem | ⟨hmem, hpt⟩
      · cases hmem
      · exact ⟨pt, hmem, rfl, hpt⟩
  | cons first rest ih =>
      have hrest : ∀ pt ∈ rest, good pt := fun pt hmem =>
        hgood pt (List.mem_cons_of_mem _ hmem)
      have hfirst : first ∈ points.put first := mem_put.2 (Or.inl rfl)
      have hfirst_good := hgood first List.mem_cons_self
      rcases h with hmem | ⟨hmem, hpt⟩
      · rcases List.mem_cons.1 hmem with rfl | hmem
        · exact ih hrest (Or.inr ⟨hfirst, hfirst_good⟩)
        · exact ih hrest (Or.inl hmem)
      · by_cases hid : pt.pointId = first.pointId
        · rw [hid]
          exact ih hrest (Or.inr ⟨hfirst, hfirst_good⟩)
        · exact ih hrest (Or.inr ⟨mem_put.2 (Or.inr ⟨hmem, hid⟩), hpt⟩)

theorem mem_page {offset next : Option PointId} :
    pt ∈ points.page offset next
      ↔ pt ∈ points ∧ (∀ o ∈ offset, o ≤ pt.pointId)
          ∧ ∀ n ∈ next, pt.pointId < n := by
  simp only [Points.page, List.mem_filter, Bool.and_eq_true,
    Option.all_eq_true, decide_eq_true_eq, Option.mem_def]

-- ==================================================== payload and vectors

/-- A write that keeps a point's id, document and flag. -/
structure Retouch (f : Point μ → Point μ) : Prop where
  pointId : ∀ pt, (f pt).pointId = pt.pointId
  docId : ∀ pt, (f pt).docId = pt.docId
  deleted : ∀ pt, pt.deleted = true → (f pt).deleted = true

theorem retouch_ite {f : Point μ → Point μ} (h : Retouch f)
    (sel : Point μ → Prop) [DecidablePred sel] :
    Retouch fun pt => if sel pt then f pt else pt where
  pointId pt := by
    split
    next => exact h.pointId pt
    next => rfl
  docId pt := by
    split
    next => exact h.docId pt
    next => rfl
  deleted pt hdel := by
    split
    next => exact h.deleted pt hdel
    next => exact hdel

theorem retouch_tombstone (d : DocId) :
    Retouch fun pt : Point μ => if pt.docId = d then { pt with deleted := true } else pt := by
  refine retouch_ite ?_ _
  exact ⟨fun _ => rfl, fun _ => rfl, fun _ _ => rfl⟩

theorem retouch_tombstoneLayer (inLayer : DocId → Bool) :
    Retouch fun pt : Point μ =>
      if inLayer pt.docId then { pt with deleted := true } else pt := by
  refine retouch_ite ?_ _
  exact ⟨fun _ => rfl, fun _ => rfl, fun _ _ => rfl⟩

theorem retouch_setMetadata (d : DocId) (metadata : μ) :
    Retouch fun pt : Point μ => if pt.docId = d then { pt with metadata } else pt := by
  refine retouch_ite ?_ _
  exact ⟨fun _ => rfl, fun _ => rfl, fun _ h => h⟩

theorem retouch_addVector (ids : List PointId) (name : String) :
    Retouch fun pt : Point μ =>
      if ids.contains pt.pointId then { pt with vectors := name :: pt.vectors }
      else pt := by
  refine retouch_ite ?_ _
  exact ⟨fun _ => rfl, fun _ => rfl, fun _ h => h⟩

theorem retouch_dropVector (inLayer : DocId → Bool) (name : String) :
    Retouch fun pt : Point μ =>
      if inLayer pt.docId then { pt with vectors := pt.vectors.filter (· ≠ name) }
      else pt := by
  refine retouch_ite ?_ _
  exact ⟨fun _ => rfl, fun _ => rfl, fun _ h => h⟩

-- ======================================================== other documents

/-- The two collections hold the same points of the document. -/
def SameOn (points points' : Points μ) (d : DocId) : Prop :=
  ∀ pt : Point μ, pt.docId = d → (pt ∈ points' ↔ pt ∈ points)

theorem sameOn_setPayload {set : Point μ → Point μ}
    (hdoc : ∀ pt, (set pt).docId = pt.docId) {d' : DocId} (hne : d ≠ d') :
    SameOn points (points.setPayload d' set) d := by
  intro pt hpt
  rw [mem_setPayload]
  constructor
  · intro hor
    rcases hor with ⟨hmem, -⟩ | ⟨pt', -, hd', rfl⟩
    · exact hmem
    · exact absurd (hpt.symm.trans ((hdoc pt').trans hd')) hne
  · intro hmem
    exact Or.inl ⟨hmem, fun h => hne (hpt.symm.trans h)⟩

theorem sameOn_sweep {keep : List PointId} {d' : DocId} (hne : d ≠ d') :
    SameOn points (points.sweep d' keep) d := by
  intro pt hpt
  rw [mem_sweep]
  exact ⟨fun h => h.1, fun hmem => ⟨hmem, fun h => absurd (hpt.symm.trans h) hne⟩⟩

theorem sameOn_put {point : Point μ} (hne : point.docId ≠ d)
    (hid : ∀ pt ∈ points, pt.docId = d → pt.pointId ≠ point.pointId) :
    SameOn points (points.put point) d := by
  intro pt hpt
  rw [mem_put]
  constructor
  · intro hor
    rcases hor with rfl | ⟨hmem, -⟩
    · exact absurd hpt hne
    · exact hmem
  · intro hmem
    exact Or.inr ⟨hmem, hid pt hmem hpt⟩

end Nacre.Store
