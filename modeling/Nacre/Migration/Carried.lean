/-
Which named vectors are due on which points, and that the points carry
them.

# The demands

`Owes` collects everybody who relies on a vector being there: the search
over a layer, which looks under its `vector_name`; the switch, which
takes a `reindexed_vector` at its word; a pass, which has minted an id
and will commit it; a target, between its write and its mark. A point is
`Seen` if it is in the live collection, or in the hands of a copy that
may still become it. `Carried` says that every seen point carries what
is due on it, with what this rests on: the name each pass writes under,
the documents the ids belong to, and that no document is being embedded
while a copy holds its claim.

So a step is harmless if it adds no demand, and the few that add one
have a reason of their own: a commit's was its pass's, a mark's was its
target's, a switch's was a mark's.
-/
import Nacre.Migration.Mirror
import Nacre.Migration.Sound

namespace Nacre.Migration

open Nacre.Store
open Nacre.Layers (Copier)

variable {μ : Type}

-- ============================================================ the demands

/-- The target a flight embeds. -/
def Flight.target? : Flight μ → Option Target
  | .target t _ | .mark t => some t
  | _ => none

/-- The target whose vectors are written. -/
def Flight.written? : Flight μ → Option Target
  | .target t true | .mark t => some t
  | _ => none

def Flight.copies : Flight μ → Bool
  | .copy .. => true
  | _ => false

/-- The named vector is due on the point of the id. -/
inductive Owes (names : LayerId → Option String)
    (docs : DocId → Option (Document μ)) (chunks : DocId → List PointId)
    (lock : DocId → Option (Holder μ)) (flights : List (Flight μ)) :
    PointId → String → Prop where
  | name {d : DocId} {row : Document μ} {id : PointId} {v : String}
      (hrow : docs d = some row) (hserved : row.served = true)
      (hid : id ∈ chunks d) (hname : names row.layerId = some v) :
      Owes names docs chunks lock flights id v
  | mark {d : DocId} {row : Document μ} {id : PointId} {v : String}
      (hrow : docs d = some row) (hserved : row.served = true)
      (hid : id ∈ chunks d) (hmark : row.reindexedVector = some v) :
      Owes names docs chunks lock flights id v
  | writer {d : DocId} {p : Pass μ} {content : Content} {stamp : Time}
      {ids left : List PointId} {swept : Bool} {id : PointId}
      (hlock : lock d = some (.upsert p content stamp ids left swept))
      (hid : id ∈ ids) : Owes names docs chunks lock flights id p.vectorName
  | target {f : Flight μ} {t : Target} {id : PointId} (hf : f ∈ flights)
      (ht : t ∈ f.written?) (hid : id ∈ t.ids) :
      Owes names docs chunks lock flights id t.shadow

/-- The point is in the live collection, or a copy that still holds its
claim has it. -/
inductive Seen (cur : String) (points : String → Points μ)
    (flights : List (Flight μ)) (held : Claim → Prop) (pt : Point μ) : Prop where
  | live (h : pt ∈ points cur)
  | copied {c : Copier} {scroll : Scroll μ} (hcopy : .copy c scroll ∈ flights)
      (hheld : held c.claim) (hbuilt : c.built = true) (h : pt ∈ points c.to)
  | read {c : Copier} {scroll : Scroll μ} (hcopy : .copy c scroll ∈ flights)
      (hheld : held c.claim) (hbuilt : c.built = true) (h : pt ∈ scroll.page)

abbrev World.owes (s : World μ) : PointId → String → Prop :=
  Owes s.schema.nameOf s.docs s.chunks s.lock s.flights

abbrev World.seen (s : World μ) (cur : String) : Point μ → Prop :=
  Seen cur s.points s.flights s.schema.heldBy

/-- What a target in flight says: it is embedded where the pointer points,
onto ids of its document, in its layer. -/
structure Aimed (cur : String) (docs : DocId → Option (Document μ))
    (owner : PointId → Option DocId) (t : Target) : Prop where
  collection : t.collection = cur
  owned : ∀ id ∈ t.ids, owner id = some t.docId
  layer : ∃ row, docs t.docId = some row ∧ row.layerId = t.layerId

/-- What a pass past its fence says: it writes under its layer's name,
with ids nobody else has. -/
structure Writes (names : LayerId → Option String)
    (chunks : DocId → List PointId) (flights : List (Flight μ)) (d : DocId)
    (p : Pass μ) (ids : List PointId) : Prop where
  name : names p.layerId = some p.vectorName
  chunks : ∀ id ∈ ids, id ∉ chunks d
  targets : ∀ id ∈ ids, ∀ f ∈ flights, ∀ t ∈ f.target?, id ∉ t.ids

structure Carried (cur : String) (s : World μ) : Prop where
  counted : ∀ d row, s.docs d = some row → row.served = true →
    row.chunkCount = (s.chunks d).length
  chunked : ∀ d, ∀ id ∈ s.chunks d, s.owner id = some d
  passes : ∀ p, .pass p ∈ s.flights →
    s.schema.nameOf p.layerId = some p.vectorName
  writers : ∀ d p content stamp ids left swept,
    s.lock d = some (.upsert p content stamp ids left swept) →
      Writes s.schema.nameOf s.chunks s.flights d p ids
  targets : ∀ f ∈ s.flights, ∀ t ∈ f.target?, Aimed cur s.docs s.owner t
  solo : s.flights.countP Flight.copies ≤ 1
  sources : ∀ c scroll, .copy c scroll ∈ s.flights → c.collection = cur
  untargeted : ∀ c scroll, .copy c scroll ∈ s.flights →
    s.schema.heldBy c.claim → ∀ f ∈ s.flights, f.target? = none
  carries : ∀ pt, s.seen cur pt → ∀ v, s.owes pt.pointId v → v ∈ pt.vectors

variable {cur : String} {s s' : World μ}

theorem target_of_written {f : Flight μ} {t : Target} (h : t ∈ f.written?) :
    t ∈ f.target? := by
  cases f with
  | target t' written =>
      cases written with
      | true => exact h
      | false => cases h
  | mark t' => exact h
  | _ => cases h

/-- A seen point was minted for its document. -/
theorem Sound.seen (hs : Sound s) {pt : Point μ} (h : s.seen cur pt) :
    s.owner pt.pointId = some pt.docId := by
  cases h with
  | live h => exact hs.minted cur pt h
  | copied hcopy hheld hbuilt h => exact hs.minted _ pt h
  | read hcopy hheld hbuilt h => exact hs.paged _ _ hcopy pt h

/-- Flights with nothing new written owe nothing new. -/
theorem Owes.flights {names : LayerId → Option String}
    {docs : DocId → Option (Document μ)} {chunks : DocId → List PointId}
    {lock : DocId → Option (Holder μ)} {flights flights' : List (Flight μ)}
    {id : PointId} {v : String} (h : Owes names docs chunks lock flights' id v)
    (hwritten : ∀ f ∈ flights', ∀ t ∈ f.written?, ∃ g ∈ flights, t ∈ g.written?) :
    Owes names docs chunks lock flights id v := by
  cases h with
  | name hrow hserved hid hname => exact .name hrow hserved hid hname
  | mark hrow hserved hid hmark => exact .mark hrow hserved hid hmark
  | writer hlock hid => exact .writer hlock hid
  | target hf ht hid =>
      obtain ⟨g, hg, ht'⟩ := hwritten _ hf _ ht
      exact .target hg ht' hid

/-- One more flight, with nothing written. -/
theorem written_of_cons {f : Flight μ} {flights : List (Flight μ)}
    (hf : f.written? = none) :
    ∀ g ∈ f :: flights, ∀ t ∈ g.written?, ∃ g' ∈ flights, t ∈ g'.written? := by
  intro g hg t ht
  rcases List.mem_cons.1 hg with rfl | hold
  · rw [hf] at ht
    cases ht
  · exact ⟨g, hold, ht⟩

-- ==================================================== one kind of write each

/-- The rows change; what is served was served, under the same marks. -/
theorem Carried.withDocs (h : Carried cur s)
    {docs : DocId → Option (Document μ)}
    (hserved : ∀ d row', docs d = some row' → row'.served = true →
      ∃ row, s.docs d = some row ∧ row.served = true
        ∧ row'.layerId = row.layerId ∧ row'.chunkCount = row.chunkCount
        ∧ row'.reindexedVector = row.reindexedVector)
    (hstay : ∀ d row, s.docs d = some row →
      ∃ row', docs d = some row' ∧ row'.layerId = row.layerId) :
    Carried cur { s with docs } where
  counted d row' hrow' hs := by
    obtain ⟨row, hrow, hrs, -, hcount, -⟩ := hserved d row' hrow' hs
    rw [hcount]
    exact h.counted d row hrow hrs
  chunked := h.chunked
  passes := h.passes
  writers := h.writers
  targets f hf t ht := by
    obtain ⟨hcoll, howned, row, hrow, hlayer⟩ := h.targets f hf t ht
    obtain ⟨row', hrow', hlayer'⟩ := hstay t.docId row hrow
    exact ⟨hcoll, howned, row', hrow', hlayer'.trans hlayer⟩
  solo := h.solo
  sources := h.sources
  untargeted := h.untargeted
  carries pt hpt v hv := by
    apply h.carries pt hpt v
    cases hv with
    | name hrow hs hid hname =>
        obtain ⟨row, hrow, hrs, hlayer, -, -⟩ := hserved _ _ hrow hs
        rw [hlayer] at hname
        exact .name hrow hrs hid hname
    | mark hrow hs hid hmark =>
        obtain ⟨row, hrow, hrs, -, -, hmarks⟩ := hserved _ _ hrow hs
        rw [hmarks] at hmark
        exact .mark hrow hrs hid hmark
    | writer hlock hid => exact .writer hlock hid
    | target hf ht hid => exact .target hf ht hid

/-- One row changes. -/
theorem Carried.withRow (h : Carried cur s) {d : DocId} {row row' : Document μ}
    (hrow : s.docs d = some row) (hlayer : row'.layerId = row.layerId)
    (hserved : row'.served = true → row.served = true
      ∧ row'.chunkCount = row.chunkCount
      ∧ row'.reindexedVector = row.reindexedVector) :
    Carried cur (s.setRow d row') := by
  apply h.withDocs
  · intro d' new hnew hs
    by_cases hd : d' = d
    · subst hd
      cases (setRow_self s d' row').symm.trans hnew
      obtain ⟨hrs, hcount, hmark⟩ := hserved hs
      exact ⟨row, hrow, hrs, hlayer, hcount, hmark⟩
    · exact ⟨new, (setRow_ne s d row' hd).symm.trans hnew, hs, rfl, rfl, rfl⟩
  · intro d' old hold
    by_cases hd : d' = d
    · subst hd
      cases hrow.symm.trans hold
      exact ⟨row', setRow_self s d' row', hlayer⟩
    · exact ⟨old, (setRow_ne s d row' hd).trans hold, rfl⟩

theorem Carried.rewrite (h : Carried cur s) {d : DocId} {row row' : Document μ}
    {stamp : Time} (hrow : s.docs d = some row) (hrw : Rewrites stamp row row') :
    Carried cur (s.setRow d row') :=
  h.withRow hrow hrw.layerId hrw.served

/-- A row appears that is not served. -/
theorem Carried.queueNew (h : Carried cur s) {d : DocId} {row : Document μ}
    (hnone : s.docs d = none) (hidle : row.served = false) :
    Carried cur (s.setRow d row) := by
  apply h.withDocs
  · intro d' new hnew hs
    by_cases hd : d' = d
    · subst hd
      cases (setRow_self s d' row).symm.trans hnew
      rw [hidle] at hs
      cases hs
    · exact ⟨new, (setRow_ne s d row hd).symm.trans hnew, hs, rfl, rfl, rfl⟩
  · intro d' old hold
    have hd : d' ≠ d := by
      intro heq
      subst heq
      rw [hnone] at hold
      cases hold
    exact ⟨old, (setRow_ne s d row hd).trans hold, rfl⟩

/-- Nothing is asked of the list of ids. -/
theorem Carried.withIds (h : Carried cur s) {ids : List DocId} :
    Carried cur { s with ids } where
  counted := h.counted
  chunked := h.chunked
  passes := h.passes
  writers := h.writers
  targets := h.targets
  solo := h.solo
  sources := h.sources
  untargeted := h.untargeted
  carries := h.carries

theorem Carried.withPoints (h : Carried cur s) {points : String → Points μ}
    (hcarries : ∀ pt, Seen cur points s.flights s.schema.heldBy pt →
      ∀ v, s.owes pt.pointId v → v ∈ pt.vectors) :
    Carried cur { s with points } where
  counted := h.counted
  chunked := h.chunked
  passes := h.passes
  writers := h.writers
  targets := h.targets
  solo := h.solo
  sources := h.sources
  untargeted := h.untargeted
  carries := hcarries

/-- A lock changes hands: a pass that takes it writes what it owes. -/
theorem Carried.withLock (h : Carried cur s) {d : DocId}
    {holder : Option (Holder μ)}
    (hwrites : ∀ p content stamp ids left swept,
      holder = some (.upsert p content stamp ids left swept) →
        Writes s.schema.nameOf s.chunks s.flights d p ids
          ∧ ∀ pt, s.seen cur pt → pt.pointId ∈ ids → p.vectorName ∈ pt.vectors) :
    Carried cur (s.setLock d holder) where
  counted := h.counted
  chunked := h.chunked
  passes := h.passes
  writers d' p content stamp ids left swept hlock := by
    by_cases hd : d' = d
    · subst hd
      rw [setLock_self] at hlock
      exact (hwrites p content stamp ids left swept hlock).1
    · rw [setLock_ne s d holder hd] at hlock
      exact h.writers d' p content stamp ids left swept hlock
  targets := h.targets
  solo := h.solo
  sources := h.sources
  untargeted := h.untargeted
  carries pt hpt v hv := by
    cases hv with
    | name hrow hs hid hname => exact h.carries pt hpt v (.name hrow hs hid hname)
    | mark hrow hs hid hmark => exact h.carries pt hpt v (.mark hrow hs hid hmark)
    | @writer d' p content stamp ids left swept _ hlock hid =>
        by_cases hd : d' = d
        · subst hd
          rw [setLock_self] at hlock
          exact (hwrites p content stamp ids left swept hlock).2 pt hpt hid
        · rw [setLock_ne s d holder hd] at hlock
          exact h.carries pt hpt p.vectorName (.writer hlock hid)
    | target hf ht hid => exact h.carries pt hpt _ (.target hf ht hid)

/-- Flights end, or go on as others with no claim of their own. -/
theorem Carried.withFlights (h : Carried cur s) {flights : List (Flight μ)}
    (hpasses : ∀ p, .pass p ∈ flights →
      s.schema.nameOf p.layerId = some p.vectorName)
    (htargets : ∀ f ∈ flights, ∀ t ∈ f.target?, ∃ g ∈ s.flights, t ∈ g.target?)
    (hwritten : ∀ f ∈ flights, ∀ t ∈ f.written?,
      (∃ g ∈ s.flights, t ∈ g.written?)
        ∨ ∀ pt, s.seen cur pt → pt.pointId ∈ t.ids → t.shadow ∈ pt.vectors)
    (hsolo : flights.countP Flight.copies ≤ 1)
    (hcopies : ∀ c scroll, .copy c scroll ∈ flights →
      .copy c scroll ∈ s.flights) :
    Carried cur { s with flights } where
  counted := h.counted
  chunked := h.chunked
  passes := hpasses
  writers d p content stamp ids left swept hlock := by
    have hw := h.writers d p content stamp ids left swept hlock
    refine ⟨hw.name, hw.chunks, fun id hid f hf t ht => ?_⟩
    obtain ⟨g, hg, ht'⟩ := htargets f hf t ht
    exact hw.targets id hid g hg t ht'
  targets f hf t ht := by
    obtain ⟨g, hg, ht'⟩ := htargets f hf t ht
    exact h.targets g hg t ht'
  solo := hsolo
  sources c scroll hcopy := h.sources c scroll (hcopies c scroll hcopy)
  untargeted c scroll hcopy hheld f hf := by
    rw [Option.eq_none_iff_forall_ne_some]
    intro t ht
    obtain ⟨g, hg, ht'⟩ := htargets f hf t ht
    have hnone := h.untargeted c scroll (hcopies c scroll hcopy) hheld g hg
    rw [hnone] at ht'
    cases ht'
  carries pt hpt v hv := by
    have hpt' : s.seen cur pt := by
      cases hpt with
      | live hmem => exact .live hmem
      | copied hcopy hheld hbuilt hmem =>
          exact .copied (hcopies _ _ hcopy) hheld hbuilt hmem
      | read hcopy hheld hbuilt hmem =>
          exact .read (hcopies _ _ hcopy) hheld hbuilt hmem
    cases hv with
    | name hrow hs hid hname => exact h.carries pt hpt' v (.name hrow hs hid hname)
    | mark hrow hs hid hmark => exact h.carries pt hpt' v (.mark hrow hs hid hmark)
    | writer hlock hid => exact h.carries pt hpt' _ (.writer hlock hid)
    | target hf ht hid =>
        rcases hwritten _ hf _ ht with ⟨g, hg, ht'⟩ | hnew
        · exact h.carries pt hpt' _ (.target hg ht' hid)
        · exact hnew pt hpt' hid

/-- Nobody is embedding or writing under a name that is about to change:
no pass over the layer, and every served document of it is marked with
the new name. -/
structure Settled (s : World μ) (l : LayerId) (name : Option String) : Prop where
  passes : ∀ p, .pass p ∈ s.flights → p.layerId ≠ l
  writers : ∀ d p content stamp ids left swept,
    s.lock d = some (.upsert p content stamp ids left swept) → p.layerId ≠ l
  marks : ∀ d row, s.docs d = some row → row.layerId = l → row.served = true →
    0 < row.chunkCount → row.reindexedVector = name

/-- The layers change: a name that does was settled. -/
theorem Carried.withSchema (h : Carried cur s) {schema : Layers.World}
    (hnames : ∀ l, schema.nameOf l = s.schema.nameOf l
      ∨ Settled s l (schema.nameOf l))
    (hheld : ∀ c scroll, .copy c scroll ∈ s.flights →
      schema.heldBy c.claim → s.schema.heldBy c.claim) :
    Carried cur { s with schema } where
  counted := h.counted
  chunked := h.chunked
  passes p hp := by
    rcases hnames p.layerId with heq | hsettled
    · show schema.nameOf p.layerId = _
      rw [heq]
      exact h.passes p hp
    · exact absurd rfl (hsettled.passes p hp)
  writers d p content stamp ids left swept hlock := by
    have hw := h.writers d p content stamp ids left swept hlock
    refine ⟨?_, hw.chunks, hw.targets⟩
    rcases hnames p.layerId with heq | hsettled
    · show schema.nameOf p.layerId = _
      rw [heq]
      exact hw.name
    · exact absurd rfl (hsettled.writers d p content stamp ids left swept hlock)
  targets := h.targets
  solo := h.solo
  sources := h.sources
  untargeted c scroll hcopy hh :=
    h.untargeted c scroll hcopy (hheld c scroll hcopy hh)
  carries pt hpt v hv := by
    have hpt' : s.seen cur pt := by
      cases hpt with
      | live hmem => exact .live hmem
      | copied hcopy hh hbuilt hmem =>
          exact .copied hcopy (hheld _ _ hcopy hh) hbuilt hmem
      | read hcopy hh hbuilt hmem =>
          exact .read hcopy (hheld _ _ hcopy hh) hbuilt hmem
    apply h.carries pt hpt' v
    cases hv with
    | @name d row _ _ hrow hs hid hname =>
        rcases hnames row.layerId with heq | hsettled
        · exact .name hrow hs hid (heq.symm.trans hname)
        · -- the switch took the mark at its word
          have hcount : 0 < row.chunkCount := by
            rw [h.counted d row hrow hs]
            exact List.length_pos_of_mem hid
          have hmark := hsettled.marks d row hrow rfl hs hcount
          exact .mark hrow hs hid (hmark.trans hname)
    | mark hrow hs hid hmark => exact .mark hrow hs hid hmark
    | writer hlock hid => exact .writer hlock hid
    | target hf ht hid => exact .target hf ht hid

/-- A layer nobody has heard of is settled. -/
theorem Sound.settled_of_none (hs : Sound s) {l : LayerId} {name : Option String}
    (hnone : s.schema.nameOf l = none) : Settled s l name := by
  have hrows : ∀ d row, s.docs d = some row → row.layerId ≠ l := by
    intro d row hrow hl
    have hhome := hs.homed d row hrow
    rw [hl, hnone] at hhome
    cases hhome
  refine ⟨?_, ?_, ?_⟩
  · intro p hp hl
    obtain ⟨row, hrow, hlayer⟩ := hs.passed p hp
    exact hrows _ row hrow (hlayer.trans hl)
  · intro d p content stamp ids left swept hlock hl
    obtain ⟨-, -, -, row, hrow, -, -, hlayer⟩ := hs.locked d _ hlock
    exact hrows d row hrow (hlayer.trans hl)
  · intro d row hrow hl
    exact absurd hl (hrows d row hrow)

/-- Steps of the layers that switch nothing. -/
theorem Carried.withStep (h : Carried cur s) (hs : Sound s) {cfg : Layers.Config}
    {a : Layers.Action} {schema : Layers.World}
    (hstep : Layers.Stepped cfg s.schema a schema) (ha : a.switches = false)
    (hheld : ∀ c scroll, .copy c scroll ∈ s.flights →
      schema.heldBy c.claim → s.schema.heldBy c.claim) :
    Carried cur { s with schema } := by
  apply h.withSchema _ hheld
  intro l
  rcases hstep.nameOf ha l with heq | hnone
  · exact Or.inl heq
  · exact Or.inr (hs.settled_of_none hnone)

-- ============================================================== the points

section Points

variable {collection : String} {set : Points μ → Points μ}

/-- Where a seen point comes from, when one collection is written. -/
theorem seen_setPoints (new : Point μ → Prop) (origin : Point μ → Point μ → Prop)
    (hset : ∀ pt' ∈ set (s.points collection),
      new pt' ∨ ∃ pt ∈ s.points collection, origin pt pt')
    (hrefl : ∀ pt, origin pt pt) {pt' : Point μ}
    (h : (s.setPoints collection set).seen cur pt') :
    new pt' ∨ ∃ pt, s.seen cur pt ∧ origin pt pt' := by
  have hmem : ∀ x, pt' ∈ (s.setPoints collection set).points x →
      new pt' ∨ ∃ pt ∈ s.points x, origin pt pt' := by
    intro x hx
    by_cases heq : x = collection
    · subst heq
      rw [setPoints_self] at hx
      exact hset pt' hx
    · rw [setPoints_ne s collection set heq] at hx
      exact Or.inr ⟨pt', hx, hrefl pt'⟩
  cases h with
  | live hlive =>
      rcases hmem _ hlive with hnew | ⟨pt, hpt, horigin⟩
      · exact Or.inl hnew
      · exact Or.inr ⟨pt, .live hpt, horigin⟩
  | copied hcopy hheld hbuilt hto =>
      rcases hmem _ hto with hnew | ⟨pt, hpt, horigin⟩
      · exact Or.inl hnew
      · exact Or.inr ⟨pt, .copied hcopy hheld hbuilt hpt, horigin⟩
  | read hcopy hheld hbuilt hpage =>
      exact Or.inr ⟨pt', .read hcopy hheld hbuilt hpage, hrefl pt'⟩

theorem seen_map {f : Point μ → Point μ} {pt' : Point μ}
    (h : (s.setPoints collection (·.map f)).seen cur pt') :
    ∃ pt, s.seen cur pt ∧ (pt' = pt ∨ pt' = f pt) := by
  have hfrom := seen_setPoints (fun _ => False) (fun pt pt' => pt' = pt ∨ pt' = f pt)
    (fun pt' hmem => by
      obtain ⟨pt, hpt, rfl⟩ := List.mem_map.1 hmem
      exact Or.inr ⟨pt, hpt, Or.inr rfl⟩)
    (fun _ => Or.inl rfl) h
  exact hfrom.resolve_left id

/-- A write that takes no vector off a point. -/
theorem Carried.enrich (h : Carried cur s) {f : Point μ → Point μ}
    (hid : ∀ pt, (f pt).pointId = pt.pointId)
    (hvectors : ∀ pt, ∀ v ∈ pt.vectors, v ∈ (f pt).vectors) :
    Carried cur (s.setPoints collection (·.map f)) := by
  apply h.withPoints
  intro pt' hpt' v hv
  obtain ⟨pt, hpt, heq⟩ := seen_map hpt'
  rcases heq with rfl | rfl
  · exact h.carries pt' hpt v hv
  · rw [hid] at hv
    exact hvectors pt v (h.carries pt hpt v hv)

/-- A vector nobody relies on is taken off the points of a layer. -/
theorem Carried.dropVector (h : Carried cur s) (hs : Sound s) {l : LayerId}
    {vector : String} (hname : s.schema.nameOf l ≠ some vector)
    (hmarks : ∀ d row, s.docs d = some row → row.layerId = l →
      row.served = true → 0 < row.chunkCount → row.reindexedVector ≠ some vector)
    (htargets : ∀ f ∈ s.flights, ∀ t ∈ f.written?, t.layerId = l →
      t.shadow ≠ vector) :
    Carried cur (s.setPoints collection fun pts =>
      pts.dropVector (fun d => (s.docs d).any (·.layerId = l)) vector) := by
  -- what is due on a point of the layer is another vector
  have hother : ∀ pt v, s.seen cur pt →
      (s.docs pt.docId).any (·.layerId = l) = true →
        s.owes pt.pointId v → v ≠ vector := by
    intro pt v hpt hlayer hv heq
    subst heq
    obtain ⟨row, hrow, hl⟩ := (Option.any_eq_true _ _).1 hlayer
    rw [decide_eq_true_eq] at hl
    have howner := hs.seen hpt
    have hdoc : ∀ d, s.owner pt.pointId = some d → s.docs d = some row := by
      intro d hd
      rw [howner] at hd
      rw [← Option.some.inj hd]
      exact hrow
    cases hv with
    | @name d row' _ _ hrow' hserved hid hname' =>
        cases (hdoc d (h.chunked d _ hid)).symm.trans hrow'
        rw [hl] at hname'
        exact hname hname'
    | @mark d row' _ _ hrow' hserved hid hmark =>
        cases (hdoc d (h.chunked d _ hid)).symm.trans hrow'
        have hcount : 0 < row.chunkCount := by
          rw [h.counted d row hrow' hserved]
          exact List.length_pos_of_mem hid
        exact hmarks d row hrow' hl hserved hcount hmark
    | @writer d p content stamp ids left swept _ hlock hid =>
        obtain ⟨-, hids, -, row', hrow', -, -, hlayer'⟩ := hs.locked d _ hlock
        cases (hdoc d (hids _ hid)).symm.trans hrow'
        have hw := (h.writers d p content stamp ids left swept hlock).name
        rw [← hlayer', hl] at hw
        exact hname hw
    | @target f t _ hf ht hid =>
        have haimed := h.targets f hf t (target_of_written ht)
        obtain ⟨row', hrow', hlayer'⟩ := haimed.layer
        cases (hdoc t.docId (haimed.owned _ hid)).symm.trans hrow'
        exact htargets f hf t ht (hlayer'.symm.trans hl) rfl
  apply h.withPoints
  intro pt' hpt' v hv
  obtain ⟨pt, hpt, heq⟩ := seen_map hpt'
  rcases heq with rfl | rfl
  · exact h.carries pt' hpt v hv
  · split at hv
    next hlayer =>
      rw [if_pos hlayer]
      have hold := h.carries pt hpt v hv
      have hne := hother pt v hpt hlayer hv
      show v ∈ pt.vectors.filter (· ≠ vector)
      rw [List.mem_filter]
      exact ⟨hold, by simpa using hne⟩
    next hlayer =>
      rw [if_neg hlayer]
      exact h.carries pt hpt v hv

end Points

-- ============================================================== the passes

/-- What is due on an id a pass minted is the pass's. -/
theorem Carried.owed_to_writer (h : Carried cur s) (hs : Sound s) {d : DocId}
    {p : Pass μ} {content : Content} {stamp : Time} {ids left : List PointId}
    {swept : Bool} {id : PointId} {v : String}
    (hlock : s.lock d = some (.upsert p content stamp ids left swept))
    (hid : id ∈ ids) (hv : s.owes id v) : v = p.vectorName := by
  obtain ⟨-, hids, -, row, hrow, hstatus, -, -⟩ := hs.locked d _ hlock
  have hd : ∀ d', s.owner id = some d' → d' = d := by
    intro d' howner
    rw [hids id hid] at howner
    exact (Option.some.inj howner).symm
  have hidle : row.served = false := by
    unfold Document.served
    rw [hstatus]
    simp
  cases hv with
  | name hrow' hserved hid' _ =>
      cases hd _ (h.chunked _ _ hid')
      cases hrow.symm.trans hrow'
      rw [hidle] at hserved
      cases hserved
  | mark hrow' hserved hid' _ =>
      cases hd _ (h.chunked _ _ hid')
      cases hrow.symm.trans hrow'
      rw [hidle] at hserved
      cases hserved
  | @writer d' p' content' stamp' ids' left' swept' _ hlock' hid' =>
      obtain ⟨-, hids', -, -⟩ := hs.locked d' _ hlock'
      cases hd d' (hids' id hid')
      cases hlock.symm.trans hlock'
      rfl
  | target hf ht hid' =>
      have hw := h.writers d p content stamp ids left swept hlock
      exact absurd hid' (hw.targets id hid _ hf _ (target_of_written ht))

/-- A point is written under the name of its layer. -/
theorem Carried.put (h : Carried cur s) (hs : Sound s) {d : DocId} {p : Pass μ}
    {content : Content} {stamp : Time} {ids left : List PointId} {swept : Bool}
    {id : PointId}
    (hlock : s.lock d = some (.upsert p content stamp ids left swept))
    (hid : id ∈ ids) :
    Carried cur (s.setPoints p.collection fun pts => pts.put (p.point id)) := by
  apply h.withPoints
  intro pt hpt v hv
  have hpt' : (s.setPoints p.collection fun pts => pts.put (p.point id)).seen
      cur pt := hpt
  have hfrom := seen_setPoints (· = p.point id) Eq
    (fun pt' hmem => by
      rcases mem_put.1 hmem with rfl | ⟨hold, -⟩
      · exact Or.inl rfl
      · exact Or.inr ⟨pt', hold, rfl⟩)
    (fun _ => rfl) hpt'
  rcases hfrom with rfl | ⟨_, hold, rfl⟩
  · rw [h.owed_to_writer hs hlock hid hv]
    exact List.mem_singleton.2 rfl
  · exact h.carries _ hold v hv

theorem Carried.sweep (h : Carried cur s) {collection : String} {d : DocId}
    {keep : List PointId} :
    Carried cur (s.setPoints collection fun pts => pts.sweep d keep) := by
  apply h.withPoints
  intro pt hpt v hv
  have hpt' : (s.setPoints collection fun pts => pts.sweep d keep).seen cur pt := hpt
  have hfrom := seen_setPoints (fun _ => False) Eq
    (fun pt' hmem => Or.inr ⟨pt', (mem_sweep.1 hmem).1, rfl⟩)
    (fun _ => rfl) hpt'
  rcases hfrom with hfalse | ⟨_, hold, rfl⟩
  · cases hfalse
  · exact h.carries _ hold v hv

/-- A lock that stays with its pass. -/
theorem Carried.relock (h : Carried cur s) {d : DocId} {p : Pass μ}
    {content content' : Content} {stamp stamp' : Time}
    {ids left left' : List PointId} {swept swept' : Bool}
    (hlock : s.lock d = some (.upsert p content stamp ids left swept)) :
    Carried cur
      (s.setLock d (some (.upsert p content' stamp' ids left' swept'))) := by
  apply h.withLock
  intro _ _ _ _ _ _ heq
  cases heq
  refine ⟨h.writers d p content stamp ids left swept hlock, ?_⟩
  intro pt hpt hid
  exact h.carries pt hpt p.vectorName (.writer hlock hid)

/-- A pass past its fence: nobody has its ids. -/
theorem Carried.fence (h : Carried cur s) (hs : Sound s) {p : Pass μ}
    {content : Content} {stamp : Time} {ids : List PointId}
    (hflight : .pass p ∈ s.flights) (hnew : ∀ id ∈ ids, s.owner id = none) :
    Carried cur (s.setLock p.docId
      (some (.upsert p content stamp ids ids false))) := by
  have hfresh : ∀ id ∈ ids, ∀ d, s.owner id ≠ some d := by
    intro id hid d howner
    rw [hnew id hid] at howner
    cases howner
  apply h.withLock
  intro _ _ _ _ _ _ heq
  cases heq
  refine ⟨⟨h.passes p hflight, ?_, ?_⟩, ?_⟩
  · intro id hid hmem
    exact hfresh id hid p.docId (h.chunked p.docId id hmem)
  · intro id hid f hf t ht hmem
    exact hfresh id hid t.docId ((h.targets f hf t ht).owned id hmem)
  · intro pt hpt hid
    exact absurd (hs.seen hpt) (hfresh pt.pointId hid pt.docId)

theorem Carried.withOwner (h : Carried cur s) {owner : PointId → Option DocId}
    (howner : ∀ id d, s.owner id = some d → owner id = some d) :
    Carried cur { s with owner } where
  counted := h.counted
  chunked d id hid := howner id d (h.chunked d id hid)
  passes := h.passes
  writers := h.writers
  targets f hf t ht := by
    obtain ⟨hcoll, howned, hlayer⟩ := h.targets f hf t ht
    exact ⟨hcoll, fun id hid => howner id t.docId (howned id hid), hlayer⟩
  solo := h.solo
  sources := h.sources
  untargeted := h.untargeted
  carries := h.carries

/-- A pass commits: what its document owes was owed to it. -/
theorem Carried.commit (h : Carried cur s) (hs : Sound s) {d : DocId}
    {p : Pass μ} {content : Content} {stamp : Time} {ids left : List PointId}
    {swept : Bool} {row : Document μ}
    (hlock : s.lock d = some (.upsert p content stamp ids left swept))
    (hrow : s.docs d = some row) :
    Carried cur { (s.setLock d none).setRow d
        (upserted content ids.length stamp row) with
      chunks := Function.update s.chunks d ids } := by
  obtain ⟨-, hids, -, row', hrow', -, -, hlayer⟩ := hs.locked d _ hlock
  cases hrow.symm.trans hrow'
  have hname := (h.writers d p content stamp ids left swept hlock).name
  have hfree : ∀ d' holder, (s.setLock d none).lock d' = some holder →
      d' ≠ d ∧ s.lock d' = some holder := by
    intro d' holder hlock'
    by_cases hd : d' = d
    · subst hd
      rw [setLock_self] at hlock'
      cases hlock'
    · exact ⟨hd, (setLock_ne s d none hd).symm.trans hlock'⟩
  have hself : ∀ id ∈ Function.update s.chunks d ids d, id ∈ ids := by
    intro id hid
    rw [Function.update_self] at hid
    exact hid
  have hother : ∀ d', d' ≠ d → ∀ id ∈ Function.update s.chunks d ids d',
      id ∈ s.chunks d' := by
    intro d' hd id hid
    rw [Function.update_of_ne hd] at hid
    exact hid
  refine
    { counted := ?counted
      chunked := ?chunked
      passes := h.passes
      writers := ?writers
      targets := ?targets
      solo := h.solo
      sources := h.sources
      untargeted := h.untargeted
      carries := ?carries }
  case counted =>
    intro d' new hnew hserved
    rcases Table.update_cases hnew with ⟨rfl, rfl⟩ | ⟨hd, hold⟩
    · show ids.length = (Function.update s.chunks d' ids d').length
      rw [Function.update_self]
    · show new.chunkCount = (Function.update s.chunks d ids d').length
      rw [Function.update_of_ne hd]
      exact h.counted d' new hold hserved
  case chunked =>
    intro d' id hid
    by_cases hd : d' = d
    · subst hd
      exact hids id (hself id hid)
    · exact h.chunked d' id (hother d' hd id hid)
  case writers =>
    intro d' p' content' stamp' ids' left' swept' hlock'
    obtain ⟨hd, hold⟩ := hfree d' _ hlock'
    have hw := h.writers d' p' content' stamp' ids' left' swept' hold
    exact ⟨hw.name, fun id hid hmem => hw.chunks id hid (hother d' hd id hmem),
      hw.targets⟩
  case targets =>
    intro f hf t ht
    obtain ⟨hcoll, howned, old, hold, htl⟩ := h.targets f hf t ht
    refine ⟨hcoll, howned, ?_⟩
    by_cases hd : t.docId = d
    · rw [hd, hrow] at hold
      cases hold
      refine ⟨upserted content ids.length stamp row, ?_, htl⟩
      rw [hd]
      exact setRow_self (s.setLock d none) d _
    · exact ⟨old, (setRow_ne _ d _ hd).trans hold, htl⟩
  case carries =>
    intro pt hpt v hv
    apply h.carries pt hpt v
    cases hv with
    | @name d' new _ _ hnew hserved hid hname' =>
        rcases Table.update_cases hnew with ⟨rfl, rfl⟩ | ⟨hd, hold⟩
        · have hv : p.vectorName = v := by
            rw [show (upserted content ids.length stamp row).layerId = p.layerId
              from hlayer] at hname'
            exact Option.some.inj (hname.symm.trans hname')
          rw [← hv]
          exact .writer hlock (hself _ hid)
        · exact .name hold hserved (hother d' hd _ hid) hname'
    | @mark d' new _ _ hnew hserved hid hmark =>
        rcases Table.update_cases hnew with ⟨rfl, rfl⟩ | ⟨hd, hold⟩
        · cases hmark
        · exact .mark hold hserved (hother d' hd _ hid) hmark
    | writer hlock' hid =>
        obtain ⟨-, hold⟩ := hfree _ _ hlock'
        exact .writer hold hid
    | target hf ht hid => exact .target hf ht hid

-- ============================================================= the flights

/-- A flight that neither embeds nor copies begins. -/
theorem Carried.launch (h : Carried cur s) {f : Flight μ}
    (hpass : ∀ p, f = .pass p → s.schema.nameOf p.layerId = some p.vectorName)
    (htarget : f.target? = none) (hcopies : f.copies = false) :
    Carried cur { s with flights := f :: s.flights } := by
  apply h.withFlights
  · intro p hp
    rcases List.mem_cons.1 hp with heq | hold
    · exact hpass p heq.symm
    · exact h.passes p hold
  · intro g hg t ht
    rcases List.mem_cons.1 hg with rfl | hold
    · rw [htarget] at ht
      cases ht
    · exact ⟨g, hold, ht⟩
  · intro g hg t ht
    rcases List.mem_cons.1 hg with rfl | hold
    · have ht' := target_of_written ht
      rw [htarget] at ht'
      cases ht'
    · exact Or.inl ⟨g, hold, ht⟩
  · rw [List.countP_cons_of_neg (by rw [hcopies]; exact Bool.false_ne_true)]
    exact h.solo
  · intro c scroll hcopy
    rcases List.mem_cons.1 hcopy with heq | hold
    · rw [← heq] at hcopies
      cases hcopies
    · exact hold

/-- A flight ends, or goes on with the target it had. -/
theorem Carried.swap [DecidableEq μ] (h : Carried cur s) {f : Flight μ}
    {new : List (Flight μ)} (hf : f ∈ s.flights)
    (hnew : ∀ g ∈ new, g.plain = true
      ∧ (∀ t ∈ g.target?, t ∈ f.target?)
      ∧ ∀ t ∈ g.written?, t ∈ f.written?
        ∨ ∀ pt, s.seen cur pt → pt.pointId ∈ t.ids → t.shadow ∈ pt.vectors) :
    Carried cur (s.replace f new) := by
  have hnone : new.countP Flight.copies = 0 := by
    rw [List.countP_eq_zero]
    intro g hg hcopies
    have hplain := (hnew g hg).1
    cases g with
    | copy c scroll => cases hplain
    | _ => cases hcopies
  apply h.withFlights
  · intro p hp
    rcases mem_replace hp with hgn | hold
    · cases (hnew _ hgn).1
    · exact h.passes p hold
  · intro g hg t ht
    rcases mem_replace hg with hgn | hold
    · exact ⟨f, hf, (hnew g hgn).2.1 t ht⟩
    · exact ⟨g, hold, ht⟩
  · intro g hg t ht
    rcases mem_replace hg with hgn | hold
    · exact ((hnew g hgn).2.2 t ht).imp_left fun ht' => ⟨f, hf, ht'⟩
    · exact Or.inl ⟨g, hold, ht⟩
  · rw [List.countP_append, hnone, Nat.zero_add]
    exact le_trans (List.Sublist.countP_le List.erase_sublist) h.solo
  · intro c scroll hcopy
    rcases mem_replace hcopy with hgn | hold
    · cases (hnew _ hgn).1
    · exact hold

/-- A flight ends. -/
theorem Carried.finished [DecidableEq μ] (h : Carried cur s) {f : Flight μ}
    (hf : f ∈ s.flights) : Carried cur (s.replace f []) :=
  h.swap hf fun _ h => nomatch h

-- ============================================================= the targets

/-- A document is taken up: nobody copies, and its chunks are its own. -/
theorem Carried.aim (h : Carried cur s) (hs : Sound s) {t : Target}
    {row : Document μ} (hcur : t.collection = cur)
    (hids : t.ids = s.chunks t.docId) (hrow : s.docs t.docId = some row)
    (hlayer : row.layerId = t.layerId) (hheld : s.schema.held = false) :
    Carried cur { s with flights := .target t false :: s.flights } where
  counted := h.counted
  chunked := h.chunked
  passes p hp := by
    rcases List.mem_cons.1 hp with heq | hold
    · cases heq
    · exact h.passes p hold
  writers d p content stamp ids left swept hlock := by
    have hw := h.writers d p content stamp ids left swept hlock
    refine ⟨hw.name, hw.chunks, fun id hid f hf t' ht' => ?_⟩
    rcases List.mem_cons.1 hf with rfl | hold
    · cases ht'
      rw [hids]
      intro hmem
      obtain ⟨-, howned, -, -⟩ := hs.locked d _ hlock
      have howner := h.chunked t.docId id hmem
      rw [howned id hid] at howner
      cases howner
      exact hw.chunks id hid hmem
    · exact hw.targets id hid f hold t' ht'
  targets f hf t' ht' := by
    rcases List.mem_cons.1 hf with rfl | hold
    · cases ht'
      refine ⟨hcur, fun id hid => ?_, row, hrow, hlayer⟩
      rw [hids] at hid
      exact h.chunked t.docId id hid
    · exact h.targets f hold t' ht'
  solo := by
    rw [List.countP_cons_of_neg (by exact Bool.false_ne_true)]
    exact h.solo
  sources c scroll hcopy := by
    rcases List.mem_cons.1 hcopy with heq | hold
    · cases heq
    · exact h.sources c scroll hold
  untargeted c scroll hcopy hh := by
    have htrue := Layers.held_of_heldBy hh
    rw [show s.schema.held = true from htrue] at hheld
    cases hheld
  carries pt hpt v hv := by
    have hpt' : s.seen cur pt := by
      cases hpt with
      | live hmem => exact .live hmem
      | copied hcopy hh hbuilt hmem =>
          rcases List.mem_cons.1 hcopy with heq | hold
          · cases heq
          · exact .copied hold hh hbuilt hmem
      | read hcopy hh hbuilt hmem =>
          rcases List.mem_cons.1 hcopy with heq | hold
          · cases heq
          · exact .read hold hh hbuilt hmem
    exact h.carries pt hpt' v (hv.flights (written_of_cons rfl))

/-- The vectors of a target are written: it is in the live collection,
and no copy has its points. -/
theorem Carried.embed [DecidableEq μ] (h : Carried cur s) {t : Target}
    (hflight : .target t false ∈ s.flights) :
    Carried cur ((s.replace (.target t false) [.target t true]).setPoints
      t.collection fun pts => pts.addVector t.ids t.shadow) := by
  have hcur := (h.targets _ hflight t rfl).collection
  have hput : Carried cur
      (s.setPoints t.collection fun pts => pts.addVector t.ids t.shadow) := by
    apply h.enrich
    · exact (retouch_addVector t.ids t.shadow).pointId
    · intro pt v hv
      split
      next => exact List.mem_cons_of_mem _ hv
      next => exact hv
  have hwritten : ∀ pt, (s.setPoints t.collection fun pts =>
      pts.addVector t.ids t.shadow).seen cur pt → pt.pointId ∈ t.ids →
        t.shadow ∈ pt.vectors := by
    intro pt hpt hid
    cases hpt with
    | live hmem =>
        rw [← hcur, setPoints_self] at hmem
        obtain ⟨old, hold, rfl⟩ := List.mem_map.1 hmem
        rw [(retouch_addVector t.ids t.shadow).pointId] at hid
        rw [if_pos (List.contains_iff_mem.2 hid)]
        exact List.mem_cons_self
    | copied hcopy hheld hbuilt hmem =>
        cases h.untargeted _ _ hcopy hheld _ hflight
    | read hcopy hheld hbuilt hmem =>
        cases h.untargeted _ _ hcopy hheld _ hflight
  apply hput.swap hflight
  intro g hg
  cases List.mem_singleton.1 hg
  refine ⟨rfl, fun t' ht' => ht', ?_⟩
  intro t' heq
  cases heq
  exact Or.inr hwritten

/-- A document is marked: its chunks are still the target's. -/
theorem Carried.mark (h : Carried cur s) {t : Target} {row : Document μ}
    (hflight : .mark t ∈ s.flights) (hrow : s.docs t.docId = some row)
    (hperm : (s.chunks t.docId).Perm t.ids) :
    Carried cur (s.setRow t.docId (marked t.shadow row)) where
  counted d new hnew hserved := by
    rcases Table.update_cases hnew with ⟨rfl, rfl⟩ | ⟨-, hold⟩
    · exact h.counted t.docId row hrow hserved
    · exact h.counted d new hold hserved
  chunked := h.chunked
  passes := h.passes
  writers := h.writers
  targets f hf t' ht' := by
    obtain ⟨hcoll, howned, old, hold, hlayer⟩ := h.targets f hf t' ht'
    refine ⟨hcoll, howned, ?_⟩
    by_cases hd : t'.docId = t.docId
    · rw [hd] at hold ⊢
      cases hrow.symm.trans hold
      exact ⟨_, setRow_self s t.docId _, hlayer⟩
    · exact ⟨old, (setRow_ne s t.docId _ hd).trans hold, hlayer⟩
  solo := h.solo
  sources := h.sources
  untargeted := h.untargeted
  carries pt hpt v hv := by
    apply h.carries pt hpt v
    cases hv with
    | name hnew hserved hid hname =>
        rcases Table.update_cases hnew with ⟨rfl, rfl⟩ | ⟨-, hold⟩
        · exact .name hrow hserved hid hname
        · exact .name hold hserved hid hname
    | mark hnew hserved hid hmark =>
        rcases Table.update_cases hnew with ⟨rfl, rfl⟩ | ⟨-, hold⟩
        · cases hmark
          exact .target hflight rfl (hperm.mem_iff.1 hid)
        · exact .mark hold hserved hid hmark
    | writer hlock hid => exact .writer hlock hid
    | target hf ht hid => exact .target hf ht hid

-- =============================================================== the copies

/-- A copy begins where nothing is copied or embedded. -/
theorem Carried.claim (h : Carried cur s) {c : Copier}
    (hcur : c.collection = cur) (hbuilt : c.built = false)
    (halone : ∀ f ∈ s.flights, f.copies = false ∧ f.target? = none) :
    Carried cur { s with flights := .copy c {} :: s.flights } where
  counted := h.counted
  chunked := h.chunked
  passes p hp := by
    rcases List.mem_cons.1 hp with heq | hold
    · cases heq
    · exact h.passes p hold
  writers d p content stamp ids left swept hlock := by
    have hw := h.writers d p content stamp ids left swept hlock
    refine ⟨hw.name, hw.chunks, fun id hid f hf t ht => ?_⟩
    rcases List.mem_cons.1 hf with rfl | hold
    · cases ht
    · exact hw.targets id hid f hold t ht
  targets f hf t ht := by
    rcases List.mem_cons.1 hf with rfl | hold
    · cases ht
    · exact h.targets f hold t ht
  solo := Solo.solo_cons fun f hf => (halone f hf).1
  sources c' scroll hcopy := by
    rcases List.mem_cons.1 hcopy with heq | hold
    · cases heq
      exact hcur
    · exact h.sources c' scroll hold
  untargeted c' scroll hcopy hheld f hf := by
    rcases List.mem_cons.1 hf with rfl | hold
    · rfl
    · exact (halone f hold).2
  carries pt hpt v hv := by
    have hnew : ∀ c' scroll, .copy c' scroll ∈ (.copy c {} : Flight μ) :: s.flights →
        c'.built = false := by
      intro c' scroll hcopy
      rcases List.mem_cons.1 hcopy with heq | hold
      · cases heq
        exact hbuilt
      · cases (halone _ hold).1
    have hpt' : s.seen cur pt := by
      cases hpt with
      | live hmem => exact .live hmem
      | copied hcopy hheld hb hmem =>
          rw [hnew _ _ hcopy] at hb
          cases hb
      | read hcopy hheld hb hmem =>
          rw [hnew _ _ hcopy] at hb
          cases hb
    exact h.carries pt hpt' v (hv.flights (written_of_cons rfl))

/-- A copy goes on: what it brings was seen. -/
theorem Carried.advance [DecidableEq μ] (h : Carried cur s) {c : Copier}
    {scroll : Scroll μ} {points : String → Points μ}
    (hcopy : .copy c scroll ∈ s.flights) (c' : Copier) (scroll' : Scroll μ)
    (hcollection : c'.collection = c.collection) (hclaim : c'.claim = c.claim)
    (hlive : points cur = s.points cur)
    (hbrought : c'.built = true → s.schema.heldBy c.claim →
      ∀ pt, pt ∈ points c'.to ∨ pt ∈ scroll'.page → s.seen cur pt) :
    Carried cur { s.replace (.copy c scroll) [.copy c' scroll'] with points } := by
  have hrest : ∀ g ∈ s.flights.erase (.copy c scroll), g.copies = false :=
    fun g hg => Solo.solo_erase h.solo hcopy rfl hg
  have honly : ∀ d scroll'', .copy d scroll'' ∈
      (.copy c' scroll' : Flight μ) :: s.flights.erase (.copy c scroll) →
        d = c' ∧ scroll'' = scroll' := by
    intro d scroll'' hmem
    rcases List.mem_cons.1 hmem with heq | hold
    · cases heq
      exact ⟨rfl, rfl⟩
    · cases hrest _ hold
  have htargets : ∀ f ∈ (s.replace (.copy c scroll) [.copy c' scroll']).flights,
      f.target? = none ∨ f ∈ s.flights := by
    intro f hf
    rcases mem_replace hf with hnew | hold
    · cases List.mem_singleton.1 hnew
      exact Or.inl rfl
    · exact Or.inr hold
  refine
    { counted := h.counted
      chunked := h.chunked
      passes := ?passes
      writers := ?writers
      targets := ?targets
      solo := Solo.solo_cons hrest
      sources := ?sources
      untargeted := ?untargeted
      carries := ?carries }
  case passes =>
    intro p hp
    rcases mem_replace hp with hnew | hold
    · cases List.mem_singleton.1 hnew
    · exact h.passes p hold
  case writers =>
    intro d p content stamp ids left swept hlock
    have hw := h.writers d p content stamp ids left swept hlock
    refine ⟨hw.name, hw.chunks, fun id hid f hf t ht => ?_⟩
    rcases htargets f hf with hnone | hold
    · rw [hnone] at ht
      cases ht
    · exact hw.targets id hid f hold t ht
  case targets =>
    intro f hf t ht
    rcases htargets f hf with hnone | hold
    · rw [hnone] at ht
      cases ht
    · exact h.targets f hold t ht
  case sources =>
    intro d scroll'' hmem
    obtain ⟨rfl, -⟩ := honly d scroll'' hmem
    exact hcollection.trans (h.sources c scroll hcopy)
  case untargeted =>
    intro d scroll'' hmem hheld f hf
    obtain ⟨rfl, -⟩ := honly d scroll'' hmem
    rw [hclaim] at hheld
    rcases htargets f hf with hnone | hold
    · exact hnone
    · exact h.untargeted c scroll hcopy hheld f hold
  case carries =>
    intro pt hpt v hv
    have hpt' : s.seen cur pt := by
      cases hpt with
      | live hmem => exact .live (hlive ▸ hmem)
      | copied hmem' hheld hbuilt hmem =>
          obtain ⟨rfl, rfl⟩ := honly _ _ hmem'
          exact hbrought hbuilt (hclaim ▸ hheld) pt (Or.inl hmem)
      | read hmem' hheld hbuilt hmem =>
          obtain ⟨rfl, rfl⟩ := honly _ _ hmem'
          exact hbrought hbuilt (hclaim ▸ hheld) pt (Or.inr hmem)
    apply h.carries pt hpt' v
    apply hv.flights
    intro f hf t ht
    rcases htargets f hf with hnone | hold
    · have ht' := target_of_written ht
      rw [hnone] at ht'
      cases ht'
    · exact ⟨f, hold, ht⟩

theorem Carried.build [DecidableEq μ] (h : Carried cur s) {c : Copier}
    {scroll : Scroll μ} (hcopy : .copy c scroll ∈ s.flights) :
    Carried cur ((s.replace (.copy c scroll)
      [.copy { c with built := true } {}]).setPoints c.to fun _ => []) := by
  have hne : cur ≠ c.to := by
    rw [← h.sources c scroll hcopy]
    exact c.to_ne.symm
  apply h.advance hcopy { c with built := true } {} rfl rfl
    (setPoints_ne s c.to (fun _ => []) hne)
  intro _ _ pt hor
  rcases hor with hto | hpage
  · have hempty : (s.setPoints c.to fun _ => []).points c.to = [] := setPoints_self ..
    cases (hempty ▸ hto : pt ∈ ([] : Points μ))
  · cases hpage

theorem Carried.page [DecidableEq μ] (h : Carried cur s) {c : Copier}
    {scroll : Scroll μ} {next : Option PointId}
    (hcopy : .copy c scroll ∈ s.flights) :
    Carried cur (s.replace (.copy c scroll)
      [.copy c
        { scroll with
          offset := next, more := next.isSome
          page := (s.points c.collection).page scroll.offset next }]) := by
  apply h.advance hcopy _ _ rfl rfl rfl
  intro hbuilt hheld pt hor
  rcases hor with hto | hpage
  · exact .copied hcopy hheld hbuilt hto
  · have hmem := (mem_page.1 hpage).1
    rw [h.sources c scroll hcopy] at hmem
    exact .live hmem

theorem Carried.upsertPage [DecidableEq μ] (h : Carried cur s) {c : Copier}
    {scroll : Scroll μ} (hcopy : .copy c scroll ∈ s.flights) :
    Carried cur ((s.replace (.copy c scroll)
      [.copy c { scroll with page := [] }]).setPoints c.to fun pts =>
        pts.putAll scroll.page) := by
  have hne : cur ≠ c.to := by
    rw [← h.sources c scroll hcopy]
    exact c.to_ne.symm
  apply h.advance hcopy _ _ rfl rfl
    (setPoints_ne s c.to (fun pts => pts.putAll scroll.page) hne)
  intro hbuilt hheld pt hor
  rcases hor with hto | hpage
  · have hput : pt ∈ (s.points c.to).putAll scroll.page := by
      rw [← setPoints_self s c.to fun pts => pts.putAll scroll.page]
      exact hto
    rcases mem_putAll hput with hread | hold
    · exact .read hcopy hheld hbuilt hread
    · exact .copied hcopy hheld hbuilt hold
  · cases hpage

theorem Carried.snapshot [DecidableEq μ] (h : Carried cur s) {c : Copier}
    {scroll : Scroll μ} {waiting : List LayerId}
    (hcopy : .copy c scroll ∈ s.flights) :
    Carried cur (s.replace (.copy c scroll)
      [.copy c { scroll with waiting := some waiting }]) := by
  apply h.advance hcopy _ _ rfl rfl rfl
  intro hbuilt hheld pt hor
  rcases hor with hto | hpage
  · exact .copied hcopy hheld hbuilt hto
  · exact .read hcopy hheld hbuilt hpage

/-- The pointer moves to what a copy brought: no document was embedded
meanwhile. -/
theorem Carried.finish [DecidableEq μ] (h : Carried cur s) {c : Copier}
    {scroll : Scroll μ} {f : Flight μ} (hcopy : .copy c scroll ∈ s.flights)
    (hheld : s.schema.heldBy c.claim) (hbuilt : c.built = true)
    (hplain : f.plain = true) (htarget : f.target? = none) :
    Carried c.to (s.replace (.copy c scroll) [f]) := by
  have hrest : ∀ g ∈ s.flights.erase (.copy c scroll), g.copies = false :=
    fun g hg => Solo.solo_erase h.solo hcopy rfl hg
  have hnone : ∀ g ∈ (s.replace (.copy c scroll) [f]).flights, g.target? = none := by
    intro g hg
    rcases mem_replace hg with hnew | hold
    · cases List.mem_singleton.1 hnew
      exact htarget
    · exact h.untargeted c scroll hcopy hheld g hold
  have hcopies : ∀ d scroll', .copy d scroll' ∉
      (s.replace (.copy c scroll) [f]).flights := by
    intro d scroll' hmem
    rcases List.mem_append.1 hmem with hnew | hold
    · cases List.mem_singleton.1 hnew
      cases hplain
    · cases hrest _ hold
  refine
    { counted := h.counted
      chunked := h.chunked
      passes := ?passes
      writers := ?writers
      targets := ?targets
      solo := Solo.solo_cons hrest
      sources := fun d scroll' hmem => absurd hmem (hcopies d scroll')
      untargeted := fun d scroll' hmem => absurd hmem (hcopies d scroll')
      carries := ?carries }
  case passes =>
    intro p hp
    rcases mem_replace hp with hnew | hold
    · cases List.mem_singleton.1 hnew
      cases hplain
    · exact h.passes p hold
  case writers =>
    intro d p content stamp ids left swept hlock
    have hw := h.writers d p content stamp ids left swept hlock
    refine ⟨hw.name, hw.chunks, fun id hid g hg t ht => ?_⟩
    rw [hnone g hg] at ht
    cases ht
  case targets =>
    intro g hg t ht
    rw [hnone g hg] at ht
    cases ht
  case carries =>
    intro pt hpt v hv
    have hpt' : s.seen cur pt := by
      cases hpt with
      | live hmem => exact .copied hcopy hheld hbuilt hmem
      | copied hmem' => exact absurd hmem' (hcopies _ _)
      | read hmem' => exact absurd hmem' (hcopies _ _)
    apply h.carries pt hpt' v
    apply hv.flights
    intro g hg t ht
    have ht' := target_of_written ht
    rw [hnone g hg] at ht'
    cases ht'

end Nacre.Migration
