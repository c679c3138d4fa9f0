/-
Whether the live collection has what the rows say once everything has
come to rest: every point of every indexed document, and no unflagged
point of a deleted one, across copies that move the pointer under the
writers.

# Where the code loses a document

`repairAfterCopy` requeues what says `indexed` and was stamped since the
migration began. A pass that claimed before the copy says `parsing` when
the repair looks, and commits into the collection it read when it
claimed: the row says `indexed`, the live collection has never heard of
the document, and nothing queues it again (`commit_after_repair`). A
delete that read the old pointer flags the old points only, a worker
that stops between `finishCopy` and the repair leaves both undone, a
second copier rebuilds the collection the first made live, and a
transaction that began before the migration stamps its row with a time
the repair does not look at.

# What holds

`Unraced` is the condition on a run, one conjunct for each of these. The
invariant is that the live collection mirrors the rows, except those a
pending repair will look at, and that what a copy has copied or has
still ahead mirrors the rows not stamped since its migration began; so
the collection it makes live owes nothing but what its repair does.
-/
import Nacre.Lib.Transition
import Nacre.Migration.Mirror
import Nacre.Migration.Sound

namespace Nacre.Migration

open Nacre.Store Transition
open Nacre.Layers (Copier)

variable {μ : Type}

-- ============================================================ the property

/-- No pass, request or migration step is in flight. -/
def Quiet (s : World μ) : Prop :=
  s.flights = [] ∧ (∀ d ∈ s.ids, s.lock d = none) ∧ s.schema.copiers = []

instance (s : World μ) [DecidableEq μ] : Decidable (Quiet s) := by
  delta Quiet
  infer_instance

/-- At rest, the live collection has every point of every indexed
document, and no unflagged point of a deleted one. -/
def Consistent (s : World μ) : Prop :=
  Quiet s →
    (∀ d row, s.docs d = some row → row.deletedAt = none →
        row.status = .indexed → 0 < row.chunkCount → ∀ id ∈ s.chunks d,
          ∃ pt ∈ s.points s.collection, pt.pointId = id ∧ pt.docId = d)
      ∧ ∀ pt ∈ s.points s.collection, pt.deleted = false →
          ∀ row, s.docs pt.docId = some row → row.deletedAt = none

/-- A copy, or the repair after it. -/
def Flight.migrates : Flight μ → Bool
  | .copy .. | .repair .. => true
  | _ => false

/-- The collection a flight is about to write a document to. -/
def Flight.source : Flight μ → Option String
  | .pass p => some p.collection
  | .remove _ collection _ => some collection
  | _ => none

def Holder.source : Holder μ → String
  | .upsert p .. => p.collection
  | .remove collection .. => collection

/-- From when on the rows are left to the repair. -/
def Flight.window : Flight μ → Option Time
  | .copy c _ => some c.startedAt
  | .repair _ since none => some since
  | _ => none

/-- The stamp of the row an action writes. -/
def World.stampOf (s : World μ) : Action μ → Option Time
  | .queue _ _ stamp | .retry _ stamp | .claimNext _ stamp
  | .recordFailure _ _ stamp | .claimStranded _ stamp
  | .updateMetadata _ _ _ stamp => some stamp
  | .commit d | .commitRemove d =>
      match s.lock d with
      | some (.upsert _ _ stamp _ _ _) | some (.remove _ stamp _) => some stamp
      | none => none
  | _ => none

/-- The action begins a copy. -/
def Action.claimsCopy : Action μ → Bool
  | .claimCopyable .. => true
  | _ => false

/-- The action repairs after a copy. -/
def Action.repairs : Action μ → Bool
  | .repairAfterCopy .. => true
  | _ => false

/-- The action leaves a repair undone: a crash, or a tombstone that
could not be re-asserted. -/
def Action.losesRepair : Action μ → Bool
  | .skipTombstone .. | .drop (.repair ..) => true
  | _ => false

/-- What a run may do for every state of it to be consistent. -/
def Unraced (s : World μ) (a : Action μ) : Prop :=
  -- copies do not overlap
  (a.claimsCopy = true → ∀ f ∈ s.flights, f.migrates = false)
    -- a finished copy is repaired to the end
    ∧ a.losesRepair = false
    -- a repair finds no pass or delete that read the superseded pointer
    ∧ (a.repairs = true →
        (∀ f ∈ s.flights, ∀ collection ∈ f.source, collection = s.collection)
          ∧ ∀ d ∈ s.ids, ∀ holder ∈ s.lock d, holder.source = s.collection)
    -- a row written during a migration is stamped after its start
    ∧ ∀ stamp ∈ s.stampOf a, ∀ f ∈ s.flights, ∀ since ∈ f.window, since ≤ stamp

instance (s : World μ) (a : Action μ) : Decidable (Unraced s a) := by
  delta Unraced
  infer_instance

-- =========================================================== the invariant

/-- A repair has not looked at the rows yet. -/
def Pending (flights : List (Flight μ)) : Prop :=
  ∃ collection since, .repair collection since none ∈ flights

/-- A row stamped then is left to a pending repair. -/
def exempt (flights : List (Flight μ)) (t : Time) : Prop :=
  ∃ collection since, .repair collection since none ∈ flights ∧ since ≤ t

/-- The document's tombstone is about to be re-asserted. -/
def todo (flights : List (Flight μ)) (d : DocId) : Prop :=
  ∃ collection since rest, .repair collection since (some rest) ∈ flights
    ∧ d ∈ rest

/-- What a copy has copied, has read, or has still ahead of it. -/
def reach (points : String → Points μ) (c : Copier) (scroll : Scroll μ)
    (pt : Point μ) : Prop :=
  pt ∈ points c.to ∨ pt ∈ scroll.page
    ∨ scroll.more = true ∧ pt ∈ points c.collection
        ∧ ∀ offset ∈ scroll.offset, offset ≤ pt.pointId

/-- What a holder that writes to the live collection has done there. -/
def Wrote (points : Points μ) (cur : String) (d : DocId) : Holder μ → Prop
  | .upsert p _ _ ids left _ => p.collection = cur → ∀ id ∈ ids, id ∉ left →
      ∃ pt ∈ points, pt.pointId = id ∧ pt.docId = d
  | .remove collection _ flagged => collection = cur → flagged = true →
      ∀ pt ∈ points, pt.docId = d → pt.deleted = true

/-- A copy in flight: where it copies from, when it may finish, and what
it owes. -/
structure Copying (docs : DocId → Option (Document μ))
    (chunks : DocId → List PointId) (points : String → Points μ)
    (cur : String) (c : Copier) (scroll : Scroll μ) : Prop where
  source : c.collection = cur
  ready : scroll.waiting.isSome = true →
    c.built = true ∧ scroll.page = [] ∧ scroll.more = false
  mirrors : c.built = true →
    Mirrors docs chunks (reach points c scroll) (c.startedAt ≤ ·) fun _ => False

structure Kept (cur : String) (s : World μ) : Prop where
  live : Mirrors s.docs s.chunks (· ∈ s.points cur) (exempt s.flights)
    (todo s.flights)
  sources : ∀ f ∈ s.flights, ∀ collection ∈ f.source,
    collection = cur ∨ Pending s.flights
  lockSources : ∀ d holder, s.lock d = some holder →
    holder.source = cur ∨ Pending s.flights
  wrote : ∀ d holder, s.lock d = some holder → Wrote (s.points cur) cur d holder
  repairs : ∀ collection since todo, .repair collection since todo ∈ s.flights →
    collection = cur
  solo : s.flights.countP Flight.migrates ≤ 1
  copies : ∀ c scroll, .copy c scroll ∈ s.flights →
    Copying s.docs s.chunks s.points cur c scroll

variable {cur : String} {s s' : World μ}

-- ============================================================ the flights

section Flights

variable {flights flights' : List (Flight μ)}

/-- A copy in flight leaves no repair pending, and nothing to do. -/
theorem not_pending_of_copy {c : Copier} {scroll : Scroll μ}
    (hsolo : flights.countP Flight.migrates ≤ 1)
    (hcopy : .copy c scroll ∈ flights) : ¬ Pending flights := by
  intro hex
  obtain ⟨collection, since, hrepair⟩ := hex
  cases Solo.solo_eq hsolo hcopy hrepair rfl rfl

theorem not_exempt_of_not_pending {t : Time} (h : ¬ Pending flights) :
    ¬ exempt flights t := by
  intro hex
  obtain ⟨collection, since, hrepair, -⟩ := hex
  exact h ⟨collection, since, hrepair⟩

theorem not_todo_of_copy {c : Copier} {scroll : Scroll μ} {d : DocId}
    (hsolo : flights.countP Flight.migrates ≤ 1)
    (hcopy : .copy c scroll ∈ flights) : ¬ todo flights d := by
  intro hex
  obtain ⟨collection, since, rest, hrepair, -⟩ := hex
  cases Solo.solo_eq hsolo hcopy hrepair rfl rfl

/-- The same migrating flights: the same repairs. -/
theorem pending_congr
    (h : ∀ f : Flight μ, f.migrates = true → (f ∈ flights' ↔ f ∈ flights)) :
    Pending flights' ↔ Pending flights := by
  unfold Pending
  constructor
  · intro hex
    obtain ⟨collection, since, hrepair⟩ := hex
    exact ⟨collection, since, (h _ rfl).1 hrepair⟩
  · intro hex
    obtain ⟨collection, since, hrepair⟩ := hex
    exact ⟨collection, since, (h _ rfl).2 hrepair⟩

theorem exempt_congr {t : Time}
    (h : ∀ f : Flight μ, f.migrates = true → (f ∈ flights' ↔ f ∈ flights))
    (hex : exempt flights t) : exempt flights' t := by
  obtain ⟨collection, since, hrepair, ht⟩ := hex
  exact ⟨collection, since, (h _ rfl).2 hrepair, ht⟩

theorem todo_congr {d : DocId}
    (h : ∀ f : Flight μ, f.migrates = true → (f ∈ flights' ↔ f ∈ flights))
    (htodo : todo flights d) : todo flights' d := by
  obtain ⟨collection, since, rest, hrepair, hd⟩ := htodo
  exact ⟨collection, since, rest, (h _ rfl).2 hrepair, hd⟩

end Flights

-- ==================================================== one kind of write each

/-- Nothing is asked of the schema, the ids or the owners. -/
theorem Kept.withRest (h : Kept cur s) {schema : Layers.World}
    {ids : List DocId} {owner : PointId → Option DocId} :
    Kept cur { s with schema, ids, owner } where
  live := h.live
  sources := h.sources
  lockSources := h.lockSources
  wrote := h.wrote
  repairs := h.repairs
  solo := h.solo
  copies := h.copies

theorem Kept.withSchema (h : Kept cur s) {schema : Layers.World}
    (hcur : schema.collection = cur) :
    Kept schema.collection { s with schema } := by
  rw [hcur]
  exact h.withRest

/-- Flights that migrate nothing come and go. -/
theorem Kept.withPlain (h : Kept cur s) {flights : List (Flight μ)}
    (hsame : ∀ f : Flight μ, f.migrates = true → (f ∈ flights ↔ f ∈ s.flights))
    (hcount : flights.countP Flight.migrates ≤ 1)
    (hsources : ∀ f ∈ flights, f ∈ s.flights
      ∨ ∀ collection ∈ f.source, collection = cur ∨ Pending s.flights) :
    Kept cur { s with flights } where
  live := h.live.weaken (fun _ => exempt_congr hsame) (fun _ => todo_congr hsame)
  sources f hf collection hcoll := by
    rw [pending_congr hsame]
    rcases hsources f hf with hold | hnew
    · exact h.sources f hold collection hcoll
    · exact hnew collection hcoll
  lockSources d holder hlock := by
    rw [pending_congr hsame]
    exact h.lockSources d holder hlock
  wrote := h.wrote
  repairs collection since todo hrepair :=
    h.repairs collection since todo ((hsame _ rfl).1 hrepair)
  solo := hcount
  copies c scroll hcopy := h.copies c scroll ((hsame _ rfl).1 hcopy)

/-- A flight that migrates nothing begins. -/
theorem Kept.launch (h : Kept cur s) {f : Flight μ} (hf : f.migrates = false)
    (hsource : ∀ collection ∈ f.source, collection = cur ∨ Pending s.flights) :
    Kept cur { s with flights := f :: s.flights } := by
  apply h.withPlain
  · intro g hg
    rw [List.mem_cons]
    constructor
    · intro hor
      rcases hor with rfl | hold
      · rw [hf] at hg
        cases hg
      · exact hold
    · exact Or.inr
  · rw [List.countP_cons_of_neg (by rw [hf]; exact Bool.false_ne_true)]
    exact h.solo
  · intro g hg
    rcases List.mem_cons.1 hg with rfl | hold
    · exact Or.inr hsource
    · exact Or.inl hold

/-- A flight that migrates nothing ends, or goes on as another. -/
theorem Kept.swap [DecidableEq μ] (h : Kept cur s) {f : Flight μ}
    {new : List (Flight μ)} (hf : f.migrates = false)
    (hnew : ∀ g ∈ new, g.migrates = false ∧ g.source = none) :
    Kept cur (s.replace f new) := by
  have hnone : new.countP Flight.migrates = 0 := by
    rw [List.countP_eq_zero]
    intro g hg hgm
    rw [(hnew g hg).1] at hgm
    cases hgm
  apply h.withPlain
  · intro g hg
    have hne : g ≠ f := by
      intro heq
      subst heq
      rw [hf] at hg
      cases hg
    rw [List.mem_append, List.mem_erase_of_ne hne]
    constructor
    · intro hor
      rcases hor with hgn | hold
      · rw [(hnew g hgn).1] at hg
        cases hg
      · exact hold
    · exact Or.inr
  · rw [List.countP_append, hnone, Nat.zero_add]
    exact le_trans (List.Sublist.countP_le List.erase_sublist) h.solo
  · intro g hg
    rcases mem_replace hg with hgn | hold
    · right
      intro collection hcoll
      rw [(hnew g hgn).2] at hcoll
      cases hcoll
    · exact Or.inl hold

/-- The rows change, the points do not. -/
theorem Kept.withRows (h : Kept cur s) {docs : DocId → Option (Document μ)}
    {chunks : DocId → List PointId}
    (hlive : Mirrors docs chunks (· ∈ s.points cur) (exempt s.flights)
      (todo s.flights))
    (hcopies : ∀ c scroll, .copy c scroll ∈ s.flights → c.built = true →
      Mirrors docs chunks (reach s.points c scroll) (c.startedAt ≤ ·)
        fun _ => False) :
    Kept cur { s with docs, chunks } where
  live := hlive
  sources := h.sources
  lockSources := h.lockSources
  wrote := h.wrote
  repairs := h.repairs
  solo := h.solo
  copies c scroll hcopy :=
    { source := (h.copies c scroll hcopy).source
      ready := (h.copies c scroll hcopy).ready
      mirrors := hcopies c scroll hcopy }

/-- A stamp from after the start of every migration in flight is left to
its repair. -/
def Late (flights : List (Flight μ)) (stamp : Time) : Prop :=
  ∀ f ∈ flights, ∀ since ∈ f.window, since ≤ stamp

theorem Late.exempt {flights : List (Flight μ)} {stamp : Time}
    (h : Late flights stamp) (hpending : Pending flights) :
    exempt flights stamp := by
  obtain ⟨collection, since, hrepair⟩ := hpending
  exact ⟨collection, since, hrepair, h _ hrepair since rfl⟩

theorem Late.copy {flights : List (Flight μ)} {stamp : Time} {c : Copier}
    {scroll : Scroll μ} (h : Late flights stamp)
    (hcopy : .copy c scroll ∈ flights) : c.startedAt ≤ stamp :=
  h _ hcopy c.startedAt rfl

/-- A late write that indexes nothing. -/
theorem Kept.rewrite (h : Kept cur s) {d : DocId} {row row' : Document μ}
    {stamp : Time} (hrow : s.docs d = some row) (hrw : Rewrites stamp row row')
    (hlate : Late s.flights stamp) : Kept cur (s.setRow d row') := by
  apply h.withRows
  · apply h.live.rewrite hrow hrw
    by_cases hpending : Pending s.flights
    · exact Or.inl (hlate.exempt hpending)
    · exact Or.inr fun _ => not_exempt_of_not_pending hpending
  · intro c scroll hcopy hbuilt
    exact ((h.copies c scroll hcopy).mirrors hbuilt).rewrite hrow hrw
      (Or.inl (hlate.copy hcopy))

theorem Kept.withLock (h : Kept cur s) {d : DocId} {holder : Option (Holder μ)}
    (hholder : ∀ holder', holder = some holder' →
      (holder'.source = cur ∨ Pending s.flights)
        ∧ Wrote (s.points cur) cur d holder') :
    Kept cur (s.setLock d holder) where
  live := h.live
  sources := h.sources
  lockSources d' holder' hlock := by
    by_cases hd : d' = d
    · subst hd
      rw [setLock_self] at hlock
      exact (hholder holder' hlock).1
    · rw [setLock_ne s d holder hd] at hlock
      exact h.lockSources d' holder' hlock
  wrote d' holder' hlock := by
    by_cases hd : d' = d
    · subst hd
      rw [setLock_self] at hlock
      exact (hholder holder' hlock).2
    · rw [setLock_ne s d holder hd] at hlock
      exact h.wrote d' holder' hlock
  repairs := h.repairs
  solo := h.solo
  copies := h.copies

section Points

variable {collection : String} {f : Point μ → Point μ}

/-- A retouched point is where its original was. -/
theorem mem_retouched {x : String} {pt : Point μ} (h : pt ∈ s.points x)
    (hf : Retouch f) :
    ∃ pt' ∈ (s.setPoints collection (·.map f)).points x,
      pt'.pointId = pt.pointId ∧ pt'.docId = pt.docId := by
  by_cases hx : x = collection
  · subst hx
    rw [setPoints_self]
    exact ⟨f pt, List.mem_map_of_mem h, hf.pointId pt, hf.docId pt⟩
  · rw [setPoints_ne s collection _ hx]
    exact ⟨pt, h, rfl, rfl⟩

/-- And has an original there. -/
theorem mem_of_retouched {x : String} {pt' : Point μ}
    (h : pt' ∈ (s.setPoints collection (·.map f)).points x) (hf : Retouch f) :
    ∃ pt ∈ s.points x, pt'.pointId = pt.pointId ∧ pt'.docId = pt.docId
      ∧ (pt.deleted = true → pt'.deleted = true) := by
  by_cases hx : x = collection
  · subst hx
    rw [setPoints_self] at h
    obtain ⟨pt, hpt, rfl⟩ := List.mem_map.1 h
    exact ⟨pt, hpt, hf.pointId pt, hf.docId pt, hf.deleted pt⟩
  · rw [setPoints_ne s collection _ hx] at h
    exact ⟨pt', h, rfl, rfl, fun hdel => hdel⟩

/-- Payload and vectors change, in any collection. -/
theorem Kept.retouch (h : Kept cur s) (hf : Retouch f) :
    Kept cur (s.setPoints collection (·.map f)) where
  live := by
    apply h.live.payload
    · intro pt hpt
      exact mem_retouched hpt hf
    · intro pt' hpt'
      obtain ⟨pt, hpt, -, hd, hdel⟩ := mem_of_retouched hpt' hf
      exact ⟨pt, hpt, hd, hdel⟩
  sources := h.sources
  lockSources := h.lockSources
  wrote d holder hlock := by
    have hwrote := h.wrote d holder hlock
    cases holder with
    | upsert p content stamp ids left swept =>
        intro hcur id hid hleft
        obtain ⟨pt, hpt, hptid, hptd⟩ := hwrote hcur id hid hleft
        obtain ⟨pt', hpt', hid', hd'⟩ := mem_retouched hpt hf
        exact ⟨pt', hpt', hid'.trans hptid, hd'.trans hptd⟩
    | remove collection' stamp flagged =>
        intro hcur hflagged pt' hpt' hptd
        obtain ⟨pt, hpt, -, hd, hdel⟩ := mem_of_retouched hpt' hf
        exact hdel (hwrote hcur hflagged pt hpt (hd.symm.trans hptd))
  repairs := h.repairs
  solo := h.solo
  copies c scroll hcopy := by
    have hc := h.copies c scroll hcopy
    refine ⟨hc.source, hc.ready, fun hbuilt => ?_⟩
    apply (hc.mirrors hbuilt).payload
    · intro pt hpt
      rcases hpt with hto | hpage | ⟨hmore, hahead, hoff⟩
      · obtain ⟨pt', hpt', hkey⟩ := mem_retouched hto hf
        exact ⟨pt', Or.inl hpt', hkey⟩
      · exact ⟨pt, Or.inr (Or.inl hpage), rfl, rfl⟩
      · obtain ⟨pt', hpt', hid, hd⟩ := mem_retouched hahead hf
        refine ⟨pt', Or.inr (Or.inr ⟨hmore, hpt', ?_⟩), hid, hd⟩
        rw [hid]
        exact hoff
    · intro pt' hpt'
      rcases hpt' with hto | hpage | ⟨hmore, hahead, hoff⟩
      · obtain ⟨pt, hpt, -, hd, hdel⟩ := mem_of_retouched hto hf
        exact ⟨pt, Or.inl hpt, hd, hdel⟩
      · exact ⟨pt', Or.inr (Or.inl hpage), rfl, fun hdel => hdel⟩
      · obtain ⟨pt, hpt, hid, hd, hdel⟩ := mem_of_retouched hahead hf
        refine ⟨pt, Or.inr (Or.inr ⟨hmore, hpt, ?_⟩), hd, hdel⟩
        rw [← hid]
        exact hoff

/-- The points of one document change under its holder's hands: it is
being indexed, so its row owes nothing. -/
theorem Kept.onDoc (h : Kept cur s) {d : DocId} {row : Document μ}
    {set : Points μ → Points μ} {holder : Holder μ}
    (hrow : s.docs d = some row) (hstatus : row.status = .parsing)
    (hlive : row.deletedAt = none)
    (hother : ∀ pt : Point μ, pt.docId ≠ d →
      (pt ∈ set (s.points collection) ↔ pt ∈ s.points collection))
    (hsource : holder.source = cur ∨ Pending s.flights)
    (hwrote : Wrote ((s.setPoints collection set).points cur) cur d holder) :
    Kept cur ((s.setLock d (some holder)).setPoints collection set) := by
  have hserved : row.served = false := by
    unfold Document.served
    rw [hstatus]
    simp
  have hview : ∀ x (pt : Point μ), pt.docId ≠ d →
      (pt ∈ (s.setPoints collection set).points x ↔ pt ∈ s.points x) := by
    intro x pt hpt
    by_cases hx : x = collection
    · subst hx
      rw [setPoints_self]
      exact hother pt hpt
    · rw [setPoints_ne s collection set hx]
  refine
    { live := h.live.onDoc hrow hserved hlive (hview cur)
      sources := h.sources
      lockSources := ?lockSources
      wrote := ?wrote
      repairs := h.repairs
      solo := h.solo
      copies := ?copies }
  case lockSources =>
    intro d' holder' hlock
    by_cases hd : d' = d
    · subst hd
      cases (setLock_self s d' (some holder)).symm.trans hlock
      exact hsource
    · exact h.lockSources d' holder' ((setLock_ne s d _ hd).symm.trans hlock)
  case wrote =>
    intro d' holder' hlock
    by_cases hd : d' = d
    · subst hd
      cases (setLock_self s d' (some holder)).symm.trans hlock
      exact hwrote
    · have hold := h.wrote d' holder' ((setLock_ne s d _ hd).symm.trans hlock)
      cases holder' with
      | upsert p content stamp ids left swept =>
          intro hcur id hid hleft
          obtain ⟨pt, hpt, hptid, hptd⟩ := hold hcur id hid hleft
          exact ⟨pt, (hview cur pt (hptd ▸ hd)).2 hpt, hptid, hptd⟩
      | remove collection' stamp flagged =>
          intro hcur hflagged pt hpt hptd
          exact hold hcur hflagged pt ((hview cur pt (hptd ▸ hd)).1 hpt) hptd
  case copies =>
    intro c scroll hcopy
    have hc := h.copies c scroll hcopy
    refine ⟨hc.source, hc.ready, fun hbuilt => ?_⟩
    apply (hc.mirrors hbuilt).onDoc hrow hserved hlive
    intro pt hpt
    exact or_congr (hview c.to pt hpt)
      (or_congr Iff.rfl (and_congr_right fun _ =>
        and_congr_left fun _ => hview c.collection pt hpt))

end Points

-- ========================================================== the migration

/-- A copy begins where nothing migrates. -/
theorem Kept.claim (h : Kept cur s) {c : Copier} (hc : c.collection = cur)
    (hbuilt : c.built = false) (halone : ∀ f ∈ s.flights, f.migrates = false) :
    Kept cur { s with flights := .copy c {} :: s.flights } where
  live := by
    apply h.live.weaken
    · intro t hex
      obtain ⟨collection, since, hrepair, -⟩ := hex
      cases halone _ hrepair
    · intro d hex
      obtain ⟨collection, since, rest, hrepair, -⟩ := hex
      cases halone _ hrepair
  sources f hf collection hcoll := by
    rcases List.mem_cons.1 hf with rfl | hf
    · cases hcoll
    · rcases h.sources f hf collection hcoll with hcur | ⟨collection', since, hrepair⟩
      · exact Or.inl hcur
      · cases halone _ hrepair
  lockSources d holder hlock := by
    rcases h.lockSources d holder hlock with hcur | ⟨collection', since, hrepair⟩
    · exact Or.inl hcur
    · cases halone _ hrepair
  wrote := h.wrote
  repairs collection since todo hrepair := by
    rcases List.mem_cons.1 hrepair with heq | hrepair
    · cases heq
    · exact h.repairs collection since todo hrepair
  solo := Solo.solo_cons halone
  copies c' scroll hcopy := by
    rcases List.mem_cons.1 hcopy with heq | hcopy
    · cases heq
      refine ⟨hc, nofun, fun hb => ?_⟩
      rw [hbuilt] at hb
      cases hb
    · cases halone _ hcopy

/-- The one migrating flight ends or goes on, no repair pending: the live
collection is as it was. -/
theorem Kept.turn [DecidableEq μ] (h : Kept cur s) {f : Flight μ}
    {new : List (Flight μ)} {points : String → Points μ}
    (hf : f ∈ s.flights) (hmigrates : f.migrates = true)
    (hidle : ¬ Pending s.flights) (hcur : points cur = s.points cur)
    (hone : new.length ≤ 1) (hsource : ∀ g ∈ new, g.source = none)
    (hlive : Mirrors s.docs s.chunks (· ∈ s.points cur) (fun _ => False)
      (todo new))
    (hrepairs : ∀ collection since todo, .repair collection since todo ∈ new →
      collection = cur)
    (hcopies : ∀ c scroll, .copy c scroll ∈ new →
      Copying s.docs s.chunks points cur c scroll) :
    Kept cur { s.replace f new with points } := by
  have halone : ∀ g ∈ s.flights.erase f, g.migrates = false :=
    fun g hg => Solo.solo_erase h.solo hf hmigrates hg
  refine
    { live := ?live
      sources := ?sources
      lockSources := ?lockSources
      wrote := ?wrote
      repairs := ?repairs
      solo := ?solo
      copies := ?copies }
  case live =>
    show Mirrors s.docs s.chunks (· ∈ points cur) _ _
    rw [hcur]
    apply hlive.weaken
    · intro t hfalse
      cases hfalse
    · intro d hex
      obtain ⟨collection, since, rest, hrepair, hd⟩ := hex
      exact ⟨collection, since, rest, List.mem_append_left _ hrepair, hd⟩
  case sources =>
    intro g hg collection hcoll
    rcases mem_replace hg with hnew | hold
    · rw [hsource g hnew] at hcoll
      cases hcoll
    · exact Or.inl ((h.sources g hold collection hcoll).resolve_right hidle)
  case lockSources =>
    intro d holder hlock
    exact Or.inl ((h.lockSources d holder hlock).resolve_right hidle)
  case wrote =>
    intro d holder hlock
    show Wrote (points cur) cur d holder
    rw [hcur]
    exact h.wrote d holder hlock
  case repairs =>
    intro collection since todo hrepair
    rcases List.mem_append.1 hrepair with hnew | hold
    · exact hrepairs collection since todo hnew
    · cases halone _ hold
  case solo =>
    obtain _ | ⟨g, _ | ⟨g', rest⟩⟩ := new
    · show (s.flights.erase f).countP Flight.migrates ≤ 1
      exact le_trans (List.Sublist.countP_le List.erase_sublist) h.solo
    · exact Solo.solo_cons halone
    · simp at hone
  case copies =>
    intro c scroll hcopy
    rcases List.mem_append.1 hcopy with hnew | hold
    · exact hcopies c scroll hnew
    · cases halone _ hold

/-- Nothing is owed to come while a copy is in flight. -/
theorem Kept.live_of_copy (h : Kept cur s) {c : Copier} {scroll : Scroll μ}
    (hcopy : .copy c scroll ∈ s.flights) (exempt' : Time → Prop)
    (todo' : DocId → Prop) :
    Mirrors s.docs s.chunks (· ∈ s.points cur) exempt' todo' := by
  apply h.live.weaken
  · intro t hex
    exact absurd hex
      (not_exempt_of_not_pending (not_pending_of_copy h.solo hcopy))
  · intro d htodo
    exact absurd htodo (not_todo_of_copy h.solo hcopy)

/-- A copy goes on. -/
theorem Kept.advance [DecidableEq μ] (h : Kept cur s) {c c' : Copier}
    {scroll scroll' : Scroll μ} {points : String → Points μ}
    (hcopy : .copy c scroll ∈ s.flights) (hcur : points cur = s.points cur)
    (hnew : Copying s.docs s.chunks points cur c' scroll') :
    Kept cur { s.replace (.copy c scroll) [.copy c' scroll'] with points } := by
  apply h.turn hcopy rfl (not_pending_of_copy h.solo hcopy) hcur (le_refl 1)
  · intro g hg
    cases List.mem_singleton.1 hg
    rfl
  · exact h.live_of_copy hcopy _ _
  · intro collection since todo hrepair
    cases List.mem_singleton.1 hrepair
  · intro c'' scroll'' hcopy'
    cases List.mem_singleton.1 hcopy'
    exact hnew

/-- A copy stops. -/
theorem Kept.dropCopy [DecidableEq μ] (h : Kept cur s) {c : Copier}
    {scroll : Scroll μ} (hcopy : .copy c scroll ∈ s.flights) :
    Kept cur (s.replace (.copy c scroll) []) :=
  h.turn hcopy rfl (not_pending_of_copy h.solo hcopy) rfl (Nat.zero_le 1) (fun _ h => nomatch h)
    (h.live_of_copy hcopy _ _) (fun _ _ _ h => nomatch h) fun _ _ h => nomatch h

/-- A fresh target has everything ahead of it, and the live collection
mirrors the rows. -/
theorem Kept.build [DecidableEq μ] (h : Kept cur s) {c : Copier}
    {scroll : Scroll μ} (hcopy : .copy c scroll ∈ s.flights) :
    Kept cur ((s.replace (.copy c scroll)
      [.copy { c with built := true } {}]).setPoints c.to fun _ => []) := by
  have hsource := (h.copies c scroll hcopy).source
  have hne : cur ≠ c.to := by
    rw [← hsource]
    exact c.to_ne.symm
  apply h.advance hcopy (setPoints_ne s c.to (fun _ => []) hne)
  refine ⟨hsource, nofun, fun _ => ?_⟩
  apply (h.live_of_copy hcopy _ _).congr
  intro pt
  have hto : pt ∉ (s.setPoints c.to fun _ => []).points c.to := by
    rw [setPoints_self]
    exact List.not_mem_nil
  have hfrom : (s.setPoints c.to fun _ => []).points c.collection = s.points cur := by
    rw [hsource]
    exact setPoints_ne s c.to _ hne
  constructor
  · intro hor
    rcases hor with hmem | hmem | ⟨-, hmem, -⟩
    · exact absurd hmem hto
    · cases hmem
    · exact hfrom ▸ hmem
  · intro hmem
    refine Or.inr (Or.inr ⟨rfl, ?_, nofun⟩)
    exact hfrom.symm ▸ hmem

/-- A page is read: what it takes was ahead. -/
theorem Kept.page [DecidableEq μ] (h : Kept cur s) {c : Copier}
    {scroll : Scroll μ} {next : Option PointId}
    (hcopy : .copy c scroll ∈ s.flights) (hmore : scroll.more = true)
    (hpage : scroll.page = [])
    (hforward : ∀ o ∈ scroll.offset, ∀ n ∈ next, o ≤ n) :
    Kept cur (s.replace (.copy c scroll)
      [.copy c
        { scroll with
          offset := next, more := next.isSome
          page := (s.points c.collection).page scroll.offset next }]) := by
  have hc := h.copies c scroll hcopy
  apply h.advance hcopy rfl
  refine ⟨hc.source, ?_, fun hbuilt => ?_⟩
  · intro hwaiting
    have hdone := (hc.ready hwaiting).2.2
    rw [hmore] at hdone
    cases hdone
  · apply (hc.mirrors hbuilt).congr
    intro pt
    unfold reach
    rw [mem_page, hpage, hmore]
    constructor
    · intro hor
      rcases hor with hto | ⟨hmem, hoff, -⟩ | ⟨hsome, hmem, hnext⟩
      · exact Or.inl hto
      · exact Or.inr (Or.inr ⟨rfl, hmem, hoff⟩)
      · obtain ⟨n, rfl⟩ := Option.isSome_iff_exists.1 hsome
        refine Or.inr (Or.inr ⟨rfl, hmem, fun o ho => ?_⟩)
        exact le_trans (hforward o ho n rfl) (hnext n rfl)
    · intro hor
      rcases hor with hto | hmem | ⟨-, hmem, hoff⟩
      · exact Or.inl hto
      · cases hmem
      · by_cases hbefore : ∀ n ∈ next, pt.pointId < n
        · exact Or.inr (Or.inl ⟨hmem, hoff, hbefore⟩)
        · cases next with
          | none => exact absurd nofun hbefore
          | some n =>
              refine Or.inr (Or.inr ⟨rfl, hmem, ?_⟩)
              intro _ heq
              cases heq
              apply not_lt.1
              intro hlt
              apply hbefore
              intro _ heq
              cases heq
              exact hlt

/-- A page is upserted: a point it replaces is the same document's. -/
theorem Kept.upsertPage [DecidableEq μ] (h : Kept cur s) (hs : Sound s)
    {c : Copier} {scroll : Scroll μ} (hcopy : .copy c scroll ∈ s.flights) :
    Kept cur ((s.replace (.copy c scroll)
      [.copy c { scroll with page := [] }]).setPoints c.to fun pts =>
        pts.putAll scroll.page) := by
  have hc := h.copies c scroll hcopy
  have hne : cur ≠ c.to := by
    rw [← hc.source]
    exact c.to_ne.symm
  have hto : (s.setPoints c.to fun pts => pts.putAll scroll.page).points c.to
      = (s.points c.to).putAll scroll.page := setPoints_self ..
  have hfrom : (s.setPoints c.to fun pts => pts.putAll scroll.page).points c.collection
      = s.points c.collection := setPoints_ne s c.to _ c.to_ne.symm
  have hpaged := hs.paged c scroll hcopy
  -- the upserted point under the id of a point that was reached
  have hput : ∀ pt, pt ∈ s.points c.to ∨ pt ∈ scroll.page →
      ∃ pt' ∈ (s.points c.to).putAll scroll.page,
        pt'.pointId = pt.pointId ∧ pt'.docId = pt.docId := by
    intro pt hpt
    have howner : s.owner pt.pointId = some pt.docId := by
      rcases hpt with hmem | hmem
      · exact hs.minted c.to pt hmem
      · exact hpaged pt hmem
    obtain ⟨pt', hpt', hid, hgood⟩ := exists_putAll
      (fun pt => s.owner pt.pointId = some pt.docId) hpaged
      (hpt.symm.imp_right fun hmem => ⟨hmem, howner⟩)
    rw [hid, howner] at hgood
    exact ⟨pt', hpt', hid, (Option.some.inj hgood).symm⟩
  apply h.advance hcopy
    (setPoints_ne s c.to (fun pts => pts.putAll scroll.page) hne)
  refine ⟨hc.source, ?_, fun hbuilt => ?_⟩
  · intro hwaiting
    obtain ⟨hb, -, hmore⟩ := hc.ready hwaiting
    exact ⟨hb, rfl, hmore⟩
  · apply (hc.mirrors hbuilt).payload
    · intro pt hor
      rcases hor with hmem | hmem | ⟨hmore, hmem, hoff⟩
      · obtain ⟨pt', hpt', hkey⟩ := hput pt (Or.inl hmem)
        exact ⟨pt', Or.inl (hto.symm ▸ hpt'), hkey⟩
      · obtain ⟨pt', hpt', hkey⟩ := hput pt (Or.inr hmem)
        exact ⟨pt', Or.inl (hto.symm ▸ hpt'), hkey⟩
      · exact ⟨pt, Or.inr (Or.inr ⟨hmore, hfrom.symm ▸ hmem, hoff⟩), rfl, rfl⟩
    · intro pt hor
      rcases hor with hmem | hmem | ⟨hmore, hmem, hoff⟩
      · rcases mem_putAll (hto ▸ hmem) with hpage | hold
        · exact ⟨pt, Or.inr (Or.inl hpage), rfl, fun hdel => hdel⟩
        · exact ⟨pt, Or.inl hold, rfl, fun hdel => hdel⟩
      · cases hmem
      · exact ⟨pt, Or.inr (Or.inr ⟨hmore, hfrom ▸ hmem, hoff⟩), rfl,
          fun hdel => hdel⟩

/-- The copy is complete: what its update will wait for is noted. -/
theorem Kept.snapshot [DecidableEq μ] (h : Kept cur s) {c : Copier}
    {scroll : Scroll μ} {waiting : List LayerId}
    (hcopy : .copy c scroll ∈ s.flights) (hbuilt : c.built = true)
    (hmore : scroll.more = false) (hpage : scroll.page = []) :
    Kept cur (s.replace (.copy c scroll)
      [.copy c { scroll with waiting := some waiting }]) := by
  have hc := h.copies c scroll hcopy
  apply h.advance hcopy rfl
  exact ⟨hc.source, fun _ => ⟨hbuilt, hpage, hmore⟩, hc.mirrors⟩

/-- The pointer moves to a complete copy: it owes what its repair will
do. -/
theorem Kept.finish [DecidableEq μ] (h : Kept cur s) {c : Copier}
    {scroll : Scroll μ} (hcopy : .copy c scroll ∈ s.flights)
    (hready : scroll.waiting.isSome = true) :
    Kept c.to (s.replace (.copy c scroll) [.repair c.to c.startedAt none]) := by
  have hc := h.copies c scroll hcopy
  obtain ⟨hbuilt, hpage, hmore⟩ := hc.ready hready
  have hidle := not_pending_of_copy h.solo hcopy
  have halone : ∀ g ∈ s.flights.erase (.copy c scroll), g.migrates = false :=
    fun g hg => Solo.solo_erase h.solo hcopy rfl hg
  have hpending : Pending
      (s.replace (.copy c scroll) [.repair c.to c.startedAt none]).flights :=
    ⟨c.to, c.startedAt, List.mem_append_left _ (List.mem_singleton.2 rfl)⟩
  refine
    { live := ?live
      sources := fun _ _ _ _ => Or.inr hpending
      lockSources := fun _ _ _ => Or.inr hpending
      wrote := ?wrote
      repairs := ?repairs
      solo := Solo.solo_cons halone
      copies := ?copies }
  case live =>
    have hcopied : Mirrors s.docs s.chunks (· ∈ s.points c.to) (c.startedAt ≤ ·)
        fun _ => False := by
      apply (hc.mirrors hbuilt).congr
      intro pt
      unfold reach
      rw [hpage, hmore]
      simp
    apply hcopied.weaken
    · intro t ht
      exact ⟨c.to, c.startedAt, List.mem_append_left _ (List.mem_singleton.2 rfl), ht⟩
    · intro d hd
      cases hd
  case wrote =>
    -- every holder read the old pointer
    intro d holder hlock
    have hsource := (h.lockSources d holder hlock).resolve_right hidle
    have hne : holder.source ≠ c.to := by
      rw [hsource, ← hc.source]
      exact c.to_ne.symm
    cases holder with
    | upsert p content stamp ids left swept =>
        intro hto
        exact absurd hto hne
    | remove collection stamp flagged =>
        intro hto
        exact absurd hto hne
  case repairs =>
    intro collection since todo hrepair
    rcases List.mem_append.1 hrepair with hnew | hold
    · cases List.mem_singleton.1 hnew
      rfl
    · cases halone _ hold
  case copies =>
    intro c' scroll' hcopy'
    rcases List.mem_append.1 hcopy' with hnew | hold
    · cases List.mem_singleton.1 hnew
    · cases halone _ hold

/-- The repair looks: every writer there is has read the live pointer. -/
theorem Kept.repair [DecidableEq μ] (h : Kept cur s) (hs : Sound s)
    {collection : String} {since stamp : Time}
    (hflight : .repair collection since none ∈ s.flights)
    (hflights : ∀ f ∈ s.flights, ∀ source ∈ f.source, source = cur)
    (hlocks : ∀ d ∈ s.ids, ∀ holder ∈ s.lock d, holder.source = cur) :
    Kept cur { s.replace (.repair collection since none)
        [.repair collection since
          (some (s.ids.filter fun d => (s.docs d).any (retombstones since)))] with
      docs := fun d => (s.docs d).map (repaired since stamp) } := by
  have halone : ∀ g ∈ s.flights.erase (.repair collection since none),
      g.migrates = false := fun g hg => Solo.solo_erase h.solo hflight rfl hg
  refine
    { live := ?live
      sources := ?sources
      lockSources := ?lockSources
      wrote := h.wrote
      repairs := ?repairs
      solo := Solo.solo_cons halone
      copies := ?copies }
  case live =>
    apply h.live.repair
    · intro t hex
      obtain ⟨collection', since', hrepair, ht⟩ := hex
      cases Solo.solo_eq h.solo hflight hrepair rfl rfl
      exact Or.inl ht
    · intro d hex
      obtain ⟨collection', since', rest, hrepair, -⟩ := hex
      cases Solo.solo_eq h.solo hflight hrepair rfl rfl
    · intro d row hrow hagain
      refine ⟨collection, since, _,
        List.mem_append_left _ (List.mem_singleton.2 rfl), ?_⟩
      rw [List.mem_filter, hrow]
      exact ⟨hs.known d row hrow, hagain⟩
  case sources =>
    intro f hf source hsource
    rcases mem_replace hf with hnew | hold
    · cases List.mem_singleton.1 hnew
      cases hsource
    · exact Or.inl (hflights f hold source hsource)
  case lockSources =>
    intro d holder hlock
    have hknown : d ∈ s.ids := by
      have hheld := hs.locked d holder hlock
      cases holder with
      | upsert p content stamp' ids left swept =>
          obtain ⟨-, -, -, row, hrow, -⟩ := hheld
          exact hs.known d row hrow
      | remove collection' stamp' flagged =>
          obtain ⟨row, hrow, -⟩ := hheld
          exact hs.known d row hrow
    exact Or.inl (hlocks d hknown holder hlock)
  case repairs =>
    intro collection' since' todo hrepair
    rcases List.mem_append.1 hrepair with hnew | hold
    · cases List.mem_singleton.1 hnew
      exact h.repairs collection since none hflight
    · cases halone _ hold
  case copies =>
    intro c scroll hcopy
    rcases List.mem_append.1 hcopy with hnew | hold
    · cases List.mem_singleton.1 hnew
    · cases halone _ hold

/-- A repair that has looked is not pending. -/
theorem not_pending_of_repaired {flights : List (Flight μ)}
    {collection : String} {since : Time} {before : List DocId}
    (hsolo : flights.countP Flight.migrates ≤ 1)
    (hflight : .repair collection since (some before) ∈ flights) :
    ¬ Pending flights := by
  intro hex
  obtain ⟨collection', since', hrepair⟩ := hex
  cases Solo.solo_eq hsolo hflight hrepair rfl rfl

/-- What is left to do is what the repair in flight has left. -/
theorem Kept.live_of_repaired (h : Kept cur s) {collection : String}
    {since : Time} {before : List DocId}
    (hflight : .repair collection since (some before) ∈ s.flights) :
    Mirrors s.docs s.chunks (· ∈ s.points cur) (fun _ => False)
      (· ∈ before) := by
  apply h.live.weaken
  · intro t hex
    exact absurd hex
      (not_exempt_of_not_pending (not_pending_of_repaired h.solo hflight))
  · intro d hex
    obtain ⟨collection', since', rest, hrepair, hd⟩ := hex
    cases Solo.solo_eq h.solo hflight hrepair rfl rfl
    exact hd

/-- One tombstone is re-asserted, in the live collection. -/
theorem Kept.retombstone [DecidableEq μ] (h : Kept cur s)
    {collection : String} {since : Time} {d : DocId} {rest : List DocId}
    (hflight : .repair collection since (some (d :: rest)) ∈ s.flights) :
    Kept cur ((s.replace (.repair collection since (some (d :: rest)))
        [.repair collection since (some rest)]).setPoints collection
      fun pts => pts.tombstone d) := by
  have hcur := h.repairs collection since _ hflight
  have hput : Kept cur (s.setPoints collection fun pts => pts.tombstone d) :=
    h.retouch (retouch_tombstone d)
  have hflagged : ∀ pt ∈ (s.setPoints collection fun pts => pts.tombstone d).points
      cur, pt.docId = d → pt.deleted = true := by
    intro pt hpt hd
    rw [hcur, setPoints_self] at hpt
    rcases mem_setPayload.1 hpt with ⟨-, hne⟩ | ⟨pt', -, -, rfl⟩
    · exact absurd hd hne
    · rfl
  apply hput.turn hflight rfl (not_pending_of_repaired h.solo hflight) rfl
    (le_refl 1)
  · intro g hg
    cases List.mem_singleton.1 hg
    rfl
  · apply (hput.live_of_repaired hflight).done _ hflagged
    intro d' hd'
    rcases List.mem_cons.1 hd' with heq | hrest
    · exact Or.inr heq
    · exact Or.inl ⟨collection, since, rest, List.mem_singleton.2 rfl, hrest⟩
  · intro collection' since' todo hrepair
    cases List.mem_singleton.1 hrepair
    exact hcur
  · intro c scroll hcopy
    cases List.mem_singleton.1 hcopy

/-- The repair is done. -/
theorem Kept.finishRepair [DecidableEq μ] (h : Kept cur s)
    {collection : String} {since : Time}
    (hflight : .repair collection since (some []) ∈ s.flights) :
    Kept cur (s.replace (.repair collection since (some [])) []) := by
  have hlive : Mirrors s.docs s.chunks (· ∈ s.points cur) (fun _ => False)
      (todo ([] : List (Flight μ))) := by
    apply (h.live_of_repaired hflight).weaken
    · intro t hfalse
      exact hfalse
    · intro d hd
      cases hd
  exact h.turn hflight rfl (not_pending_of_repaired h.solo hflight) rfl
    (Nat.zero_le 1) (fun _ h => nomatch h) hlive (fun _ _ _ h => nomatch h) fun _ _ h => nomatch h

-- ============================================================== the passes

/-- A pass that claims now writes where the pointer points. -/
theorem Kept.writePoint (h : Kept cur s) (hs : Sound s) {d : DocId}
    {p : Pass μ} {content : Content} {stamp : Time} {ids left : List PointId}
    {id : PointId}
    (hlock : s.lock d = some (.upsert p content stamp ids (id :: left) false)) :
    Kept cur ((s.setLock d (some (.upsert p content stamp ids left false))).setPoints
      p.collection fun pts => pts.put (p.point id)) := by
  obtain ⟨hdoc, hids, hleft, row, hrow, hstatus, hlive, -⟩ := hs.locked d _ hlock
  have hsource := h.lockSources d _ hlock
  apply h.onDoc hrow hstatus hlive
  · intro pt hpt
    have hpoint : (p.point id).docId ≠ pt.docId := by
      show p.docId ≠ pt.docId
      rw [hdoc]
      exact hpt.symm
    apply sameOn_put hpoint _ pt rfl
    intro pt' hpt' hd' hid'
    have howner := hs.minted p.collection pt' hpt'
    rw [hid', show (p.point id).pointId = id from rfl,
      hids id (hleft id List.mem_cons_self), hd'] at howner
    exact hpt (Option.some.inj howner).symm
  · exact hsource
  · intro hcur id' hid' hnot
    show ∃ pt ∈ (s.setPoints p.collection _).points cur, _
    rw [hcur, setPoints_self]
    by_cases heq : id' = id
    · exact ⟨p.point id, mem_put.2 (Or.inl rfl), heq.symm, hdoc⟩
    · obtain ⟨pt, hpt, hptid, hptd⟩ := h.wrote d _ hlock hcur id' hid' fun hmem =>
        (List.mem_cons.1 hmem).elim heq hnot
      have hne : pt.pointId ≠ id := by
        rw [hptid]
        exact heq
      exact ⟨pt, mem_put.2 (Or.inr ⟨hpt, hne⟩), hptid, hptd⟩

theorem Kept.sweep (h : Kept cur s) (hs : Sound s) {d : DocId}
    {p : Pass μ} {content : Content} {stamp : Time} {ids : List PointId}
    (hlock : s.lock d = some (.upsert p content stamp ids [] false)) :
    Kept cur ((s.setLock d (some (.upsert p content stamp ids [] true))).setPoints
      p.collection fun pts => pts.sweep d ids) := by
  obtain ⟨-, -, -, row, hrow, hstatus, hlive, -⟩ := hs.locked d _ hlock
  have hsource := h.lockSources d _ hlock
  apply h.onDoc hrow hstatus hlive
  · intro pt hpt
    exact sameOn_sweep hpt pt rfl
  · exact hsource
  · intro hcur id hid hnot
    show ∃ pt ∈ (s.setPoints p.collection _).points cur, _
    rw [hcur, setPoints_self]
    obtain ⟨pt, hpt, hptid, hptd⟩ := h.wrote d _ hlock hcur id hid hnot
    refine ⟨pt, mem_sweep.2 ⟨hpt, fun _ => ?_⟩, hptid, hptd⟩
    rw [hptid]
    exact hid

/-- A pass commits: into the live collection, or for the repair to see. -/
theorem Kept.commit (h : Kept cur s) {d : DocId} {p : Pass μ}
    {content : Content} {stamp : Time} {ids : List PointId} {row : Document μ}
    (hlock : s.lock d = some (.upsert p content stamp ids [] true))
    (hlive : row.deletedAt = none) (hlate : Late s.flights stamp) :
    Kept cur { s.setRow d (upserted content ids.length stamp row) with
      chunks := Function.update s.chunks d ids } := by
  apply h.withRows
  · apply h.live.commit hlive
    rcases h.lockSources d _ hlock with hcur | hpending
    · right
      intro id hid
      exact h.wrote d _ hlock hcur id hid List.not_mem_nil
    · exact Or.inl (hlate.exempt hpending)
  · intro c scroll hcopy hbuilt
    exact ((h.copies c scroll hcopy).mirrors hbuilt).commit hlive
      (Or.inl (hlate.copy hcopy))

/-- A delete commits: its points are flagged there, or the repair will
see it. -/
theorem Kept.commitRemove (h : Kept cur s) {d : DocId} {collection : String}
    {stamp : Time} {row : Document μ}
    (hlock : s.lock d = some (.remove collection stamp true))
    (hlate : Late s.flights stamp) : Kept cur (s.setRow d (tombstoned stamp row)) := by
  apply h.withRows
  · apply h.live.remove
    rcases h.lockSources d _ hlock with hcur | hpending
    · exact Or.inr (h.wrote d _ hlock hcur rfl)
    · exact Or.inl (hlate.exempt hpending)
  · intro c scroll hcopy hbuilt
    exact ((h.copies c scroll hcopy).mirrors hbuilt).remove
      (Or.inl (hlate.copy hcopy))

/-- The points of a document are flagged for its delete. -/
theorem Kept.tombstone (h : Kept cur s) {d : DocId} {collection : String}
    {stamp : Time}
    (hlock : s.lock d = some (.remove collection stamp false)) :
    Kept cur ((s.setLock d (some (.remove collection stamp true))).setPoints
      collection fun pts => pts.tombstone d) := by
  have hput : Kept cur (s.setPoints collection fun pts => pts.tombstone d) :=
    h.retouch (retouch_tombstone d)
  have hsource := h.lockSources d _ hlock
  apply hput.withLock
  intro _ heq
  cases heq
  refine ⟨hsource, ?_⟩
  intro hcur _ pt hpt hd
  rw [← hcur, setPoints_self] at hpt
  rcases mem_setPayload.1 hpt with ⟨-, hne⟩ | ⟨pt', -, -, rfl⟩
  · exact absurd hd hne
  · rfl

-- ================================================================ the step

/-- A new document has nothing in the index yet. -/
theorem Kept.queueNew (h : Kept cur s) {d : DocId} {req : IngestRequest μ}
    {stamp : Time} : Kept cur (s.setRow d (queued req stamp)) := by
  apply h.withRows
  · exact h.live.setIdle rfl rfl
  · intro c scroll hcopy hbuilt
    exact ((h.copies c scroll hcopy).mirrors hbuilt).setIdle rfl rfl

theorem Kept.mark (h : Kept cur s) {d : DocId} {row : Document μ}
    {vector : String} (hrow : s.docs d = some row) :
    Kept cur (s.setRow d (marked vector row)) := by
  apply h.withRows
  · exact h.live.mark hrow
  · intro c scroll hcopy hbuilt
    exact ((h.copies c scroll hcopy).mirrors hbuilt).mark hrow

theorem Kept.step [DecidableEq μ] {cfg : Config} {a : Action μ}
    (h : Kept s.collection s) (hs : Sound s) (hok : Unraced s a)
    (hstep : Stepped cfg s a s') : Kept s'.collection s' := by
  obtain ⟨halone, hloses, hrepair, hlate⟩ := hok
  cases hstep with
  | schema a schema hpure hstep =>
      exact h.withSchema (Layers.collection_of_pure hstep hpure)
  | queueNew d req stamp hfree hrow hlayer => exact h.queueNew.withRest
  | queueAgain d req stamp row hfree hrow =>
      exact h.rewrite hrow (rewrites_resent req stamp) (hlate stamp rfl)
  | retry d stamp row row' hfree hrow hretried =>
      exact h.rewrite hrow (rewrites_retried hretried) (hlate stamp rfl)
  | beginRetag d metadata => exact h.launch rfl fun _ h => nomatch h
  | updateMetadata d metadata collection stamp row hfree hrow hflight =>
      have hrow' :=
        h.rewrite hrow (rewrites_retagged metadata stamp) (hlate stamp rfl)
      have hflown : Kept s.collection
          ((s.setRow d (retagged metadata stamp row)).replace
            (.retag d metadata collection stamp) []) := hrow'.swap rfl fun _ h => nomatch h
      exact hflown.retouch (retouch_setMetadata d metadata)
  | beginRemove d =>
      apply h.launch rfl
      intro collection heq
      cases heq
      exact Or.inl rfl
  | lockForRemove d collection stamp row hfree hrow hflight hlive =>
      have hlocked : Kept s.collection
          (s.setLock d (some (.remove collection stamp false))) := by
        apply h.withLock
        intro _ heq
        cases heq
        exact ⟨h.sources _ hflight collection rfl, fun _ => nofun⟩
      exact hlocked.swap rfl fun _ h => nomatch h
  | tombstone d collection stamp hlock => exact h.tombstone hlock
  | commitRemove d collection stamp row hlock hrow =>
      have hdeleted : Kept s.collection (s.setRow d (tombstoned stamp row)) :=
        h.commitRemove hlock (hlate stamp (by simp [World.stampOf, hlock]))
      exact hdeleted.withLock fun _ h => nomatch h
  | rollbackRemove d collection stamp flagged hlock => exact h.withLock fun _ h => nomatch h
  | claimNext d stamp row layer hfree hrow hlayer hclaim =>
      have hrow' := h.rewrite hrow (rewrites_claimed stamp) (hlate stamp rfl)
      apply hrow'.launch rfl
      intro collection heq
      cases heq
      exact Or.inl rfl
  | fence p content ids stamp row hfree hrow hflight hnew hfence =>
      have hlocked : Kept s.collection (s.setLock p.docId
          (some (.upsert p content stamp ids ids false))) := by
        apply h.withLock
        intro _ heq
        cases heq
        exact ⟨h.sources _ hflight p.collection rfl,
          fun _ id hid hnot => absurd hid hnot⟩
      have hflown : Kept s.collection ((s.setLock p.docId
          (some (.upsert p content stamp ids ids false))).replace (.pass p) []) :=
        hlocked.swap rfl fun _ h => nomatch h
      exact hflown.withRest
  | writePoint d p content stamp ids left id hlock => exact h.writePoint hs hlock
  | sweep d p content stamp ids hlock => exact h.sweep hs hlock
  | commit d p content stamp ids row hlock hrow =>
      obtain ⟨-, -, -, row', hrow', -, hlive, -⟩ := hs.locked d _ hlock
      cases hrow.symm.trans hrow'
      have hindexed :=
        h.commit hlock hlive (hlate stamp (by simp [World.stampOf, hlock]))
      exact hindexed.withLock fun _ h => nomatch h
  | rollback d p content stamp ids left swept hlock =>
      have hfreed : Kept s.collection (s.setLock d none) := h.withLock fun _ h => nomatch h
      apply hfreed.launch rfl
      intro collection heq
      cases heq
      exact h.lockSources d _ hlock
  | recordFailure p failure stamp row hfree hrow hflight =>
      have hrow' := h.rewrite hrow
        (rewrites_failed p.claim failure cfg.maxAttempts stamp) (hlate stamp rfl)
      exact hrow'.swap rfl fun _ h => nomatch h
  | claimStranded d stamp row hfree hrow =>
      exact h.rewrite hrow (rewrites_reaped cfg.maxAttempts stamp) (hlate stamp rfl)
  | claimCopyable l claim c schema hc hclaim hbuilt hstep =>
      have hclaimed := h.claim hc hbuilt (halone rfl)
      exact hclaimed.withSchema (hstep.collection fun _ _ h => nomatch h)
  | copyCollection c scroll schema hflight hstep =>
      exact (h.build hflight).withSchema (hstep.collection fun _ _ h => nomatch h)
  | scroll c scroll next hflight hbuilt hmore hpage hforward =>
      exact h.page hflight hmore hpage hforward
  | upsertPage c scroll hflight => exact h.upsertPage hs hflight
  | snapshotCopy c scroll hflight hbuilt hmore hpage =>
      exact h.snapshot hflight hbuilt hmore hpage
  | finishCopy c scroll waiting schema hflight hwaiting hstep =>
      have hready : scroll.waiting.isSome = true := by
        rw [hwaiting]
        rfl
      have hmoved : schema.collection = c.to := by
        cases hstep
        rfl
      exact (h.finish hflight hready).withSchema hmoved
  | repairAfterCopy collection since stamp hflight hfree =>
      obtain ⟨hflights, hlocks⟩ := hrepair rfl
      exact h.repair hs hflight hflights hlocks
  | retombstone collection since d rest hflight => exact h.retombstone hflight
  | skipTombstone collection since d rest hflight => cases hloses
  | finishRepair collection since hflight => exact h.finishRepair hflight
  | claimReindexable d row layer st hrow hlayer hheld => exact h.launch rfl fun _ h => nomatch h
  | addVector t hflight =>
      have hflown : Kept s.collection (s.replace (.target t false) [.target t true]) :=
        h.swap rfl (by simp [Flight.migrates, Flight.source])
      exact hflown.retouch (retouch_addVector t.ids t.shadow)
  | snapshotMark t hflight hchunks =>
      exact h.swap rfl (by simp [Flight.migrates, Flight.source])
  | markReindexed t row hfree hrow hflight =>
      have hflown : Kept s.collection (s.replace (.mark t) []) := h.swap rfl fun _ h => nomatch h
      exact hflown.mark hrow
  | snapshotSwitch l shadow layer hlayer hdone => exact h.launch rfl fun _ h => nomatch h
  | finishReindexIfDone l shadow before schema hflight hstep =>
      have hflown : Kept s.collection (s.replace (.switch l shadow before) []) :=
        h.swap rfl fun _ h => nomatch h
      exact hflown.withSchema (hstep.collection fun _ _ h => nomatch h)
  | dueVectors l layer vector hlayer hne => exact h.launch rfl fun _ h => nomatch h
  | dropLayerVector l collection vector hflight =>
      have hflown : Kept s.collection (s.replace (.due l collection vector) []) :=
        h.swap rfl fun _ h => nomatch h
      exact hflown.retouch
        (retouch_dropVector (fun d => (s.docs d).any (·.layerId = l)) vector)
  | drop f hflight =>
      have hflown : Kept s.collection (s.replace f []) := by
        cases f with
        | copy c scroll => exact h.dropCopy hflight
        | repair collection since todo => cases hloses
        | _ => exact h.swap rfl fun _ h => nomatch h
      exact hflown.withSchema (collection_dropCopier s.schema f.copier)

-- ================================================================= the run

theorem kept_init (hs : init s) : Kept s.collection s := by
  obtain ⟨schema, -, rfl⟩ := hs
  exact
    { live :=
        { whole := fun d row hrow => by cases hrow
          hidden := fun d row t hrow => by cases hrow }
      sources := fun f hf => by cases hf
      lockSources := fun d holder hlock => by cases hlock
      wrote := fun d holder hlock => by cases hlock
      repairs := fun collection since todo hrepair => by cases hrepair
      solo := Nat.zero_le 1
      copies := fun c scroll hcopy => by cases hcopy }

/-- At rest nothing is exempt, and nothing is left to do. -/
theorem Kept.consistent (h : Kept s.collection s) : Consistent s := by
  intro hall
  obtain ⟨hflights, -, -⟩ := hall
  have hlive : Mirrors s.docs s.chunks (· ∈ s.points s.collection)
      (fun _ => False) fun _ => False := by
    apply h.live.weaken
    · intro t hex
      obtain ⟨collection, since, hrepair, -⟩ := hex
      rw [hflights] at hrepair
      cases hrepair
    · intro d hex
      obtain ⟨collection, since, rest, hrepair, -⟩ := hex
      rw [hflights] at hrepair
      cases hrepair
  constructor
  · intro d row hrow hdel hstatus _ id hid
    exact hlive.whole d row hrow (served_iff.2 ⟨hdel, hstatus⟩) not_false id hid
  · intro pt hpt hflag row hrow
    cases hdel : row.deletedAt with
    | none => rfl
    | some t =>
        have hhidden := hlive.hidden pt.docId row t hrow hdel not_false not_false pt hpt rfl
        rw [hflag] at hhidden
        cases hhidden

/-- In every run in which copies and their repairs are not raced, the
live collection has what the rows say whenever everything is at rest. -/
theorem unraced_runs_consistent [DecidableEq μ] {cfg : Config}
    (hs : Reachable (step cfg) Unraced init s) : Consistent s := by
  have hinv : Kept s.collection s := by
    refine hs.invariant_on (I := fun s => Kept s.collection s)
      (fun _ => sound_reachable) (fun _ => kept_init) ?_
    intro t a t' hsound hkept hok ha
    exact hkept.step hsound hok (step_inv ha)
  exact hinv.consistent

-- ====================================================== an organization

open Layers (sampleCopier)

/-- The document is indexed, then copied, then requeued by the repair and
indexed again. -/
def copiedWorld : World Nat :=
  (runWithin (step sampleConfig) Unraced sampleWorld
    (createRun ++ queueRun ++ indexRun samplePass "p1"
      ++ copyRun [samplePass.point "p1"]
      ++ [.claimNext "d" 100]
      ++ indexRun { samplePass with collection := sampleCopier.to } "p2")).get
    (by decide)

theorem unraced_runs_consistent_copied :
    Consistent copiedWorld ∧ Quiet copiedWorld
      ∧ copiedWorld.collection = sampleCopier.to
      ∧ (copiedWorld.docs "d").any (·.served) = true
      ∧ copiedWorld.chunks "d" = ["p2"] :=
  ⟨unraced_runs_consistent (reachable_get init_sampleWorld _), by decide,
    by decide, by decide, by decide⟩

/-- The same document, claimed before the copy and committed after its
repair. -/
def strandedWorld : World Nat :=
  (runWithin (step sampleConfig) anyStep sampleWorld
    (createRun ++ queueRun ++ copyRun [] ++ indexRun samplePass "p1")).get (by decide)

/-- It says `indexed`, and the live collection has nothing of it. -/
theorem commit_after_repair :
    ∃ s : World Nat, Reachable (step sampleConfig) anyStep init s
      ∧ ¬ Consistent s := by
  refine ⟨strandedWorld, reachable_get init_sampleWorld _, fun h => ?_⟩
  have hquiet : Quiet strandedWorld := by decide
  obtain ⟨pt, hpt, -⟩ := (h hquiet).1 "d"
    ((strandedWorld.docs "d").get (by decide)) (Option.some_get _).symm
    (by decide) (by decide) (by decide) "p1" (by decide)
  have hempty : strandedWorld.points strandedWorld.collection = [] := by decide
  rw [hempty] at hpt
  cases hpt

end Nacre.Migration
