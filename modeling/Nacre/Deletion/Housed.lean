/-
No live document is in a deleted layer, whatever the order of the steps.

# The invariant

`Locked`: who holds a layer, in either mode, holds one that is live; the
two modes never meet; a removal that holds documents holds every live one
of its layer, and nobody else holds any of these. So a request commits
into a live layer, and a removal that commits leaves no live document.

The lemmas about `base` say what one of its steps can do to the layers,
the rows and the locks.
-/
import Nacre.Deletion.System

namespace Nacre.Deletion

open Nacre.Store

variable {μ : Type}

-- ============================================================= the layers

/-- The layer's row says it is deleted. -/
def gone (schema : Layers.World) (l : LayerId) : Bool :=
  (schema.layer? l).any (·.deletedAt ≠ none)

theorem gone_of_liveLayer {s : World μ} {l : LayerId} (h : s.liveLayer l = true) :
    gone s.base.schema l = false := by
  obtain ⟨row, hrow, hlive⟩ := (Option.any_eq_true _ _).1 h
  unfold gone
  rw [hrow]
  simpa [Layer.live] using hlive

theorem gone_alter {schema : Layers.World} {sel : Layer → Bool} {set : Layer → Layer}
    (hid : ∀ row, (set row).id = row.id)
    (hdeleted : ∀ row, (set row).deletedAt = row.deletedAt) (l : LayerId) :
    gone (schema.alter sel set) l = gone schema l := by
  unfold gone
  rw [Layers.layer?_alter hid]
  cases schema.layer? l with
  | none => rfl
  | some row =>
      cases hsel : sel row with
      | true => simp [hsel, hdeleted]
      | false => simp [hsel]

theorem copyFinished_deletedAt {row : Layer} {waiting : Bool} {now : Time} :
    (copyFinished waiting now row).deletedAt = row.deletedAt := by
  unfold copyFinished
  split
  next => rfl
  next =>
    split
    next => rfl
    next => rfl

theorem switched_deletedAt {row : Layer} {before : String} {now : Time} :
    (switched before now row).deletedAt = row.deletedAt := by
  unfold switched
  split
  next => rfl
  next => rfl

/-- Nothing but a removal deletes a layer. -/
theorem gone_stepped {lcfg : Layers.Config} {schema schema' : Layers.World}
    {b : Layers.Action} (hs : Layers.Stepped lcfg schema b schema')
    (hb : ∀ l, b ≠ .remove l) {l : LayerId} (h : gone schema' l = true) :
    gone schema l = true := by
  have halter : ∀ {sel : Layer → Bool} {set : Layer → Layer},
      gone (schema.alter sel set) l = true → (∀ row, (set row).id = row.id) →
      (∀ row, (set row).deletedAt = row.deletedAt) → gone schema l = true :=
    fun h hid hdeleted => (gone_alter hid hdeleted l).symm.trans h
  cases hs with
  | create l' requested p startedAt slots hp hnew hpresent =>
      unfold gone Layers.World.layer? at h ⊢
      rw [List.find?_cons] at h
      split at h
      next => cases h
      next => exact h
  | startEmbedding l' p startedAt hp hslot => exact halter h (fun _ => rfl) fun _ => rfl
  | startCopying l' p startedAt hp hslot hidle =>
      exact halter h (fun _ => rfl) fun _ => rfl
  | remove l' => exact absurd rfl (hb l')
  | claimCopyable l' claim row st p hrow hid hst hcopy hp hpid hnew =>
      exact halter h (fun _ => rfl) fun _ => rfl
  | renewCopyClaim c hc => exact halter h (fun _ => rfl) fun _ => rfl
  | finishCopy c outstanding row hc hbuilt hrow hid hholds =>
      exact halter h (fun _ => copyFinished_id) fun _ => copyFinished_deletedAt
  | failReindex l' error => exact halter h (fun _ => rfl) fun _ => rfl
  | recordCheck l' shadow passed hseen => exact halter h (fun _ => rfl) fun _ => rfl
  | finishReindexIfDone l' shadow before hseen =>
      exact halter h (fun _ => switched_id) fun _ => switched_deletedAt
  | forgetVector l' => exact halter h (fun _ => rfl) fun _ => rfl
  | _ => exact h

/-- And a removal its own only. -/
theorem gone_remove {lcfg : Layers.Config} {schema schema' : Layers.World} {l l' : LayerId}
    (hs : Layers.Stepped lcfg schema (.remove l) schema') (h : gone schema' l' = true) :
    gone schema l' = true ∨ l' = l := by
  cases hs with
  | remove =>
      by_cases hl : l' = l
      · exact .inr hl
      · left
        unfold gone at h ⊢
        have hid : ∀ row, (removed schema.now row).id = row.id := fun _ => rfl
        rw [Layers.layer?_alter hid] at h
        cases hrow : schema.layer? l' with
        | none =>
            rw [hrow] at h
            exact h
        | some row =>
            have hl' : row.id = l' := by simpa using List.find?_some hrow
            have hsel : ¬ (decide (row.id = l) && row.live) = true := by
              rw [hl']
              simp [hl]
            rw [hrow, Option.map_some, if_neg hsel] at h
            exact h

-- =============================================================== the rows

/-- What every statement but the ingest upsert leaves of a row. -/
structure Follows (before after : Document μ) : Prop where
  layerId : after.layerId = before.layerId
  deletedAt : before.deletedAt ≠ none → after.deletedAt ≠ none

theorem Follows.refl (row : Document μ) : Follows row row := ⟨rfl, id⟩

theorem Follows.live {before after : Document μ} (h : Follows before after)
    (hlive : after.deletedAt = none) : before.deletedAt = none :=
  Classical.not_not.1 fun hdeleted => h.deletedAt hdeleted hlive

theorem follows_repaired (since stamp : Time) (row : Document μ) :
    Follows row (repaired since stamp row) := by
  refine ⟨repaired_layerId since, ?_⟩
  unfold repaired
  split
  next => exact id
  next =>
    split
    next => exact id
    next => exact id

theorem follows_markedPurged (now : Time) (row : Document μ) :
    Follows row (markedPurged now row) := by
  unfold markedPurged
  split
  next => exact ⟨rfl, id⟩
  next => exact ⟨rfl, id⟩

theorem follows_removedWith (l : LayerId) (stamp : Time) (row : Document μ) :
    Follows row (removedWith l stamp row) := by
  unfold removedWith
  split
  next => exact ⟨rfl, fun _ => nofun⟩
  next => exact ⟨rfl, id⟩

/-- A write of one row, seen from any. -/
theorem follows_update {docs : DocId → Option (Document μ)} {d d' : DocId}
    {row row' after : Document μ} (hrow : docs d = some row)
    (h : Function.update docs d (some row') d' = some after)
    (hfollows : Follows row row') :
    ∃ before, docs d' = some before ∧ Follows before after := by
  exact Table.update_related .refl hrow hfollows h

theorem rows_step [DecidableEq μ] {mcfg : Migration.Config} {w w' : Migration.World μ}
    {b : Migration.Action μ} (h : Migration.Stepped mcfg w b w')
    (hsend : ∀ d req stamp, b ≠ .queue d req stamp) {d : DocId} {after : Document μ}
    (hafter : w'.docs d = some after) :
    ∃ before, w.docs d = some before ∧ Follows before after := by
  cases h with
  | queueNew d' req stamp => exact absurd rfl (hsend d' req stamp)
  | queueAgain d' req stamp => exact absurd rfl (hsend d' req stamp)
  | retry d' stamp row row' hfree hrow hretried =>
      exact follows_update hrow hafter
        ⟨(rewrites_retried hretried).layerId, (Objects.descends_retried hretried).deletedAt⟩
  | updateMetadata d' metadata collection stamp row hfree hrow hflight =>
      exact follows_update hrow hafter ⟨rfl, id⟩
  | commitRemove d' collection stamp row hlock hrow =>
      exact follows_update hrow hafter ⟨rfl, fun _ => nofun⟩
  | claimNext d' stamp row layer hfree hrow hlayer hclaim =>
      exact follows_update hrow hafter ⟨rfl, id⟩
  | commit d' p content stamp ids row hlock hrow =>
      exact follows_update hrow hafter ⟨rfl, id⟩
  | recordFailure p failure stamp row hfree hrow hflight =>
      exact follows_update hrow hafter
        ⟨(rewrites_failed ..).layerId, Objects.descends_failed.deletedAt⟩
  | claimStranded d' stamp row hfree hrow => exact follows_update hrow hafter ⟨rfl, id⟩
  | repairAfterCopy collection since stamp hflight hfree =>
      obtain ⟨before, hbefore, rfl⟩ := Option.map_eq_some_iff.1 hafter
      exact ⟨before, hbefore, follows_repaired since stamp before⟩
  | markReindexed t row hfree hrow hflight => exact follows_update hrow hafter ⟨rfl, id⟩
  | _ => exact ⟨after, hafter, .refl after⟩

theorem permits_not_send {s : World μ} {b : Migration.Action μ}
    (h : s.permits b = true) (d : DocId) (req : IngestRequest μ) (stamp : Time) :
    b ≠ .queue d req stamp := by
  intro heq
  subst heq
  cases h

/-- A row that a step finds free and leaves held is one it had to lock. -/
theorem locks_step [DecidableEq μ] {s : World μ} {mcfg : Migration.Config} {base : Migration.World μ}
    {b : Migration.Action μ} (h : Migration.Stepped mcfg s.base b base) {d : DocId}
    (hlock : base.lock d ≠ none) : s.base.lock d ≠ none ∨ d ∈ s.rows b := by
  have hheld : ∀ d' holder holder', s.base.lock d' = some holder →
      Function.update s.base.lock d' holder' d ≠ none → s.base.lock d ≠ none := by
    intro d' holder holder' hsome hupdate
    by_cases hd : d = d'
    · subst hd
      rw [hsome]
      nofun
    · rwa [Function.update_of_ne hd] at hupdate
  have hnew : ∀ d' holder, Function.update s.base.lock d' (some holder) d ≠ none →
      s.base.lock d ≠ none ∨ d ∈ [d'] := by
    intro d' holder hupdate
    by_cases hd : d = d'
    · exact .inr (List.mem_singleton.2 hd)
    · rw [Function.update_of_ne hd] at hupdate
      exact .inl hupdate
  cases h with
  | lockForRemove d' collection stamp row hfree hrow hflight hlive =>
      exact hnew d' _ hlock
  | fence p content ids stamp row hfree hrow hflight hminted hfence =>
      exact hnew p.docId _ hlock
  | tombstone d' collection stamp hsome => exact .inl (hheld d' _ _ hsome hlock)
  | commitRemove d' collection stamp row hsome hrow =>
      exact .inl (hheld d' _ none hsome hlock)
  | rollbackRemove d' collection stamp flagged hsome =>
      exact .inl (hheld d' _ none hsome hlock)
  | writePoint d' p content stamp ids left id hsome =>
      exact .inl (hheld d' _ _ hsome hlock)
  | sweep d' p content stamp ids hsome => exact .inl (hheld d' _ _ hsome hlock)
  | commit d' p content stamp ids row hsome hrow =>
      exact .inl (hheld d' _ none hsome hlock)
  | rollback d' p content stamp ids left swept hsome =>
      exact .inl (hheld d' _ none hsome hlock)
  | _ => exact .inl hlock

theorem gone_step [DecidableEq μ] {mcfg : Migration.Config} {w w' : Migration.World μ}
    {b : Migration.Action μ} (h : Migration.Stepped mcfg w b w') {l : LayerId}
    (hgone : gone w'.schema l = true) : gone w.schema l = true := by
  cases h with
  | schema b schema hpure hstep =>
      refine gone_stepped hstep (fun l' heq => ?_) hgone
      subst heq
      cases hpure
  | claimCopyable l' claim c schema hc hclaim hbuilt hstep =>
      exact gone_stepped hstep nofun hgone
  | copyCollection c scroll schema hflight hstep => exact gone_stepped hstep nofun hgone
  | finishCopy c scroll waiting schema hflight hwaiting hstep =>
      exact gone_stepped hstep nofun hgone
  | finishReindexIfDone l' shadow before schema hflight hstep =>
      exact gone_stepped hstep nofun hgone
  | drop f hflight =>
      unfold gone Layers.World.layer? at hgone ⊢
      rw [← Migration.layers_dropCopier w.schema f.copier]
      exact hgone
  | _ => exact hgone

/-- No step takes a layer's row away. -/
theorem named_step [DecidableEq μ] {mcfg : Migration.Config} {w w' : Migration.World μ}
    {b : Migration.Action μ} (h : Migration.Stepped mcfg w b w') {l : LayerId}
    (hnamed : (w.schema.nameOf l).isSome = true) :
    (w'.schema.nameOf l).isSome = true := by
  cases h with
  | schema b schema hpure hstep => exact hstep.layer_stays hnamed
  | claimCopyable l' claim c schema hc hclaim hbuilt hstep =>
      exact hstep.layer_stays hnamed
  | copyCollection c scroll schema hflight hstep => exact hstep.layer_stays hnamed
  | finishCopy c scroll waiting schema hflight hwaiting hstep =>
      exact hstep.layer_stays hnamed
  | finishReindexIfDone l' shadow before schema hflight hstep =>
      exact hstep.layer_stays hnamed
  | drop f hflight =>
      show ((Migration.dropCopier w.schema f.copier).nameOf l).isSome = true
      rw [Migration.nameOf_dropCopier]
      exact hnamed
  | _ => exact hnamed

-- =========================================================== the invariant

variable {cfg : Config} {s s' : World μ} {a : Action μ}

/-- No live document is in a deleted layer. -/
def Housed (s : World μ) : Prop :=
  ∀ d row, s.base.docs d = some row → row.deletedAt = none →
    gone s.base.schema row.layerId = false

/-- The removal holds its layer's documents. -/
def Removal.holds (r : Removal) : Prop := r.progress = .holding ∨ r.progress = .flagged

structure Locked (s : World μ) : Prop where
  sound : Migration.Sound s.base
  housed : Housed s
  named : ∀ q ∈ s.sends, (s.base.schema.nameOf q.req.layerId).isSome = true
  /-- Held `FOR SHARE`: live, and held by no removal. -/
  shared : ∀ q ∈ s.sends, gone s.base.schema q.req.layerId = false
    ∧ ∀ r ∈ s.removals, r.locks q.req.layerId = false
  /-- Held `FOR UPDATE`: live, and held by one removal only. -/
  exclusive : ∀ l, ∀ r ∈ s.removals, r.locks l = true → gone s.base.schema l = false
  solo : ∀ l, s.removals.countP (·.locks l) ≤ 1
  holding : ∀ r ∈ s.removals, r.holds → ∀ d row, s.base.docs d = some row →
    row.layerId = r.layerId → row.deletedAt = none → d ∈ r.docs
  free : ∀ r ∈ s.removals, ∀ d ∈ r.docs, s.base.lock d = none

theorem locks_of_holds {r : Removal} (h : r.holds) : r.locks r.layerId = true := by
  unfold Removal.locks
  rcases h with h | h
  · rw [h]
    simp
  · rw [h]
    simp

theorem held_of_mem {r : Removal} {d : DocId} (hr : r ∈ s.removals) (hd : d ∈ r.docs) :
    s.held d = true :=
  List.any_eq_true.2 ⟨r, hr, List.contains_iff_mem.2 hd⟩

-- ====================================================== what one step keeps

/-- A step of `base`, or of the collector. -/
theorem Locked.withBase (h : Locked s) {base : Migration.World μ}
    (hsound : Migration.Sound base)
    (hnamed : ∀ l, (s.base.schema.nameOf l).isSome = true →
      (base.schema.nameOf l).isSome = true)
    (hgone : ∀ l, gone base.schema l = true → gone s.base.schema l = true)
    (hrows : ∀ d after, base.docs d = some after →
      ∃ before, s.base.docs d = some before ∧ Follows before after)
    (hlocks : ∀ r ∈ s.removals, ∀ d ∈ r.docs, base.lock d = none) :
    Locked { s with base } where
  sound := hsound
  housed d after hafter hlive := by
    obtain ⟨before, hbefore, hfollows⟩ := hrows d after hafter
    rw [hfollows.layerId, Bool.eq_false_iff]
    intro hdeleted
    have hhoused := h.housed d before hbefore (hfollows.live hlive)
    rw [hgone _ hdeleted] at hhoused
    cases hhoused
  named q hq := hnamed _ (h.named q hq)
  shared q hq := by
    obtain ⟨hlive, hfree⟩ := h.shared q hq
    refine ⟨?_, hfree⟩
    rw [Bool.eq_false_iff] at hlive ⊢
    exact fun hdeleted => hlive (hgone _ hdeleted)
  exclusive l r hr hlocks := by
    have hlive := h.exclusive l r hr hlocks
    rw [Bool.eq_false_iff] at hlive ⊢
    exact fun hdeleted => hlive (hgone _ hdeleted)
  solo := h.solo
  holding r hr hholds d after hafter hlayer hlive := by
    obtain ⟨before, hbefore, hfollows⟩ := hrows d after hafter
    rw [hfollows.layerId] at hlayer
    exact h.holding r hr hholds d before hbefore hlayer (hfollows.live hlive)
  free := hlocks

/-- A step of `base` that no removal is in the way of. -/
theorem Locked.base [DecidableEq μ] (h : Locked s) {b : Migration.Action μ} {base : Migration.World μ}
    (hpermits : s.permits b = true)
    (hs : Migration.Stepped cfg.toConfig s.base b base) : Locked { s with base } := by
  refine h.withBase (h.sound.step hs) (fun l => named_step hs) (fun l => gone_step hs)
    (fun d after => rows_step hs (permits_not_send hpermits)) fun r hr d hd => ?_
  have hfree := h.free r hr d hd
  have hheld := held_of_mem hr hd
  by_contra hlock
  rcases locks_step hs hlock with hbusy | hrow
  · exact hbusy hfree
  · have hall : ((s.rows b).all fun d => !s.held d) = true := by
      unfold World.permits at hpermits
      split at hpermits
      next => cases hpermits
      next => exact hpermits
    have hnot := List.all_eq_true.1 hall d hrow
    rw [hheld] at hnot
    cases hnot

/-- A row of the collector. -/
theorem Locked.rewrite (h : Locked s) {d : DocId} {row row' : Document μ}
    (hfree : s.base.lock d = none) (hrow : s.base.docs d = some row)
    (hfollows : Follows row row') (sweeps : List Sweep) :
    Locked { s.setRow d row' with sweeps } := by
  have hbase : Locked { s with base := s.base.setRow d row' } :=
    h.withBase (h.sound.withRow hfree hrow hfollows.layerId) (fun _ => id) (fun _ => id)
      (fun d' after hafter => follows_update hrow hafter hfollows) h.free
  exact ⟨hbase.sound, hbase.housed, hbase.named, hbase.shared, hbase.exclusive,
    hbase.solo, hbase.holding, hbase.free⟩

/-- A request commits into the layer it holds. -/
theorem Locked.send [DecidableEq μ] (h : Locked s) {q : Send μ} {base : Migration.World μ}
    {row : Document μ} (hq : q ∈ s.sends) (hsound : Migration.Sound base)
    (hschema : base.schema = s.base.schema) (hlock : base.lock = s.base.lock)
    (hdocs : base.docs = Function.update s.base.docs q.docId (some row))
    (hlayer : row.layerId = q.req.layerId) :
    Locked { s with base, sends := s.sends.erase q } where
  sound := hsound
  housed d after hafter hlive := by
    change base.docs d = some after at hafter
    show gone base.schema after.layerId = false
    rw [hdocs] at hafter
    rw [hschema]
    rcases Table.update_cases hafter with ⟨rfl, rfl⟩ | ⟨-, hold⟩
    · rw [hlayer]
      exact (h.shared q hq).1
    · exact h.housed d after hold hlive
  named q' hq' := by
    show (base.schema.nameOf q'.req.layerId).isSome = true
    rw [hschema]
    exact h.named q' (List.mem_of_mem_erase hq')
  shared q' hq' := by
    show gone base.schema q'.req.layerId = false ∧ _
    rw [hschema]
    exact h.shared q' (List.mem_of_mem_erase hq')
  exclusive l r hr hlocks := by
    show gone base.schema l = false
    rw [hschema]
    exact h.exclusive l r hr hlocks
  solo := h.solo
  holding r hr hholds d after hafter hsame hlive := by
    change base.docs d = some after at hafter
    rw [hdocs] at hafter
    rcases Table.update_cases hafter with ⟨rfl, rfl⟩ | ⟨-, hold⟩
    · have hnot := (h.shared q hq).2 r hr
      rw [← hlayer, hsame, locks_of_holds hholds] at hnot
      cases hnot
    · exact h.holding r hr hholds d after hold hsame hlive
  free r hr d hd := by
    show base.lock d = none
    rw [hlock]
    exact h.free r hr d hd

/-- A removal begins. -/
theorem Locked.begin (h : Locked s) {r : Removal} (hprogress : r.progress = .begun)
    (hdocs : r.docs = []) : Locked { s with removals := r :: s.removals } where
  sound := h.sound
  housed := h.housed
  named := h.named
  shared q hq := by
    refine ⟨(h.shared q hq).1, fun r' hr' => ?_⟩
    rcases List.mem_cons.1 hr' with rfl | hr'
    · simp [Removal.locks, hprogress]
    · exact (h.shared q hq).2 r' hr'
  exclusive l r' hr' hlocks := by
    rcases List.mem_cons.1 hr' with rfl | hr'
    · simp [Removal.locks, hprogress] at hlocks
    · exact h.exclusive l r' hr' hlocks
  solo l := by
    have hnot : ¬ r.locks l = true := by simp [Removal.locks, hprogress]
    rw [List.countP_cons_of_neg hnot]
    exact h.solo l
  holding r' hr' hholds := by
    rcases List.mem_cons.1 hr' with rfl | hr'
    · rcases hholds with hholds | hholds
      · rw [hprogress] at hholds
        cases hholds
      · rw [hprogress] at hholds
        cases hholds
    · exact h.holding r' hr' hholds
  free r' hr' d hd := by
    rcases List.mem_cons.1 hr' with rfl | hr'
    · rw [hdocs] at hd
      cases hd
    · exact h.free r' hr' d hd

/-- A removal ends. -/
theorem Locked.drop (h : Locked s) (r : Removal) : Locked (s.replace r []) where
  sound := h.sound
  housed := h.housed
  named := h.named
  shared q hq :=
    ⟨(h.shared q hq).1, fun r' hr' => (h.shared q hq).2 r' (List.mem_of_mem_erase hr')⟩
  exclusive l r' hr' := h.exclusive l r' (List.mem_of_mem_erase hr')
  solo l := Solo.solo_sublist (h.solo l) List.erase_sublist
  holding r' hr' := h.holding r' (List.mem_of_mem_erase hr')
  free r' hr' := h.free r' (List.mem_of_mem_erase hr')

theorem mem_replace {r r' : Removal} {new : List Removal}
    (h : r' ∈ (s.replace r new).removals) : r' ∈ new ∨ r' ∈ s.removals := by
  rcases List.mem_append.1 h with hnew | hold
  · exact .inl hnew
  · exact .inr (List.mem_of_mem_erase hold)

/-- A removal goes on, holding the layers it held. -/
theorem Locked.advance (h : Locked s) {r r' : Removal} (hr : r ∈ s.removals)
    (hlocks : ∀ l, r'.locks l = r.locks l)
    (hholding : r'.holds → ∀ d row, s.base.docs d = some row →
      row.layerId = r'.layerId → row.deletedAt = none → d ∈ r'.docs)
    (hfree : ∀ d ∈ r'.docs, s.base.lock d = none) : Locked (s.replace r [r']) where
  sound := h.sound
  housed := h.housed
  named := h.named
  shared q hq := by
    refine ⟨(h.shared q hq).1, fun r'' hr'' => ?_⟩
    rcases mem_replace hr'' with hnew | hold
    · cases List.mem_singleton.1 hnew
      rw [hlocks]
      exact (h.shared q hq).2 r hr
    · exact (h.shared q hq).2 r'' hold
  exclusive l r'' hr'' hl := by
    rcases mem_replace hr'' with hnew | hold
    · cases List.mem_singleton.1 hnew
      rw [hlocks] at hl
      exact h.exclusive l r hr hl
    · exact h.exclusive l r'' hold hl
  solo l := by
    show (r' :: s.removals.erase r).countP (·.locks l) ≤ 1
    refine Solo.solo_swap (h.solo l) hr fun hnew => ?_
    rw [← hlocks]
    exact hnew
  holding r'' hr'' hholds := by
    rcases mem_replace hr'' with hnew | hold
    · cases List.mem_singleton.1 hnew
      exact hholding hholds
    · exact h.holding r'' hold hholds
  free r'' hr'' := by
    rcases mem_replace hr'' with hnew | hold
    · cases List.mem_singleton.1 hnew
      exact hfree
    · exact h.free r'' hold

/-- A removal gets its layer, which nobody holds. -/
theorem Locked.lockLayer (h : Locked s) {r : Removal} (hr : r ∈ s.removals)
    (hlive : s.liveLayer r.layerId = true) (hshared : s.shared r.layerId = false)
    (hfree : s.excluded r.layerId = false) :
    Locked (s.replace r [{ r with progress := .locked }]) where
  sound := h.sound
  housed := h.housed
  named := h.named
  shared q hq := by
    refine ⟨(h.shared q hq).1, fun r' hr' => ?_⟩
    rcases mem_replace hr' with hnew | hold
    · cases List.mem_singleton.1 hnew
      have hne : r.layerId ≠ q.req.layerId := by
        intro heq
        have hnot := List.any_eq_false.1 hshared q hq
        exact hnot (decide_eq_true heq.symm)
      simp [Removal.locks, hne]
    · exact (h.shared q hq).2 r' hold
  exclusive l r' hr' hlocks := by
    rcases mem_replace hr' with hnew | hold
    · cases List.mem_singleton.1 hnew
      simp only [Removal.locks, Bool.and_eq_true, decide_eq_true_eq] at hlocks
      rw [← hlocks.1]
      exact gone_of_liveLayer hlive
    · exact h.exclusive l r' hold hlocks
  solo l := by
    show (_ :: s.removals.erase r).countP (·.locks l) ≤ 1
    by_cases hl : l = r.layerId
    · subst hl
      refine Solo.solo_cons fun r' hr' => ?_
      exact Bool.eq_false_iff.2 (List.any_eq_false.1 hfree r' (List.mem_of_mem_erase hr'))
    · have hnot : ¬ ({ r with progress := .locked } : Removal).locks l = true := by
        simp [Removal.locks, Ne.symm hl]
      rw [List.countP_cons_of_neg hnot]
      exact Solo.solo_sublist (h.solo l) List.erase_sublist
  holding r' hr' hholds := by
    rcases mem_replace hr' with hnew | hold
    · cases List.mem_singleton.1 hnew
      rcases hholds with hholds | hholds
      · cases hholds
      · cases hholds
    · exact h.holding r' hold hholds
  free r' hr' d hd := by
    rcases mem_replace hr' with hnew | hold
    · cases List.mem_singleton.1 hnew
      exact h.free r hr d hd
    · exact h.free r' hold d hd

theorem removedWith_live {l : LayerId} {stamp : Time} {row : Document μ}
    (h : (removedWith l stamp row).deletedAt = none) :
    row.layerId ≠ l ∧ row.deletedAt = none := by
  unfold removedWith at h
  split at h
  next => cases h
  next hnot => exact ⟨fun hlayer => hnot ⟨hlayer, h⟩, h⟩

/-- A removal commits: no live document of its layer is left, and nobody
else holds the layer. -/
theorem Locked.commit (h : Locked s) {r : Removal} {schema : Layers.World}
    (hr : r ∈ s.removals) (hholds : r.holds)
    (hstep : Layers.Stepped cfg.layers s.base.schema (.remove r.layerId) schema) :
    Locked { s.replace r [] with
      base := { s.base with
        schema
        docs := fun d => (s.base.docs d).map (removedWith r.layerId r.stamp) } } where
  sound := by
    have hrows : Migration.Sound { s.base with
        docs := fun d => (s.base.docs d).map (removedWith r.layerId r.stamp) } := by
      refine h.sound.mapRows (fun row => (follows_removedWith _ _ row).layerId) ?_
      intro d row hrow hlive hbusy
      have hlayer : row.layerId ≠ r.layerId := by
        intro hlayer
        exact hbusy (h.free r hr d (h.holding r hr hholds d row hrow hlayer hlive))
      exact if_neg fun hboth => hlayer hboth.1
    exact hrows.withSchema fun l => hstep.layer_stays
  housed d after hafter hlive := by
    obtain ⟨row, hrow, rfl⟩ := Option.map_eq_some_iff.1 hafter
    obtain ⟨hlayer, hlive⟩ := removedWith_live hlive
    show gone schema _ = false
    rw [(follows_removedWith _ _ row).layerId, Bool.eq_false_iff]
    intro hgone
    rcases gone_remove hstep hgone with hbefore | heq
    · rw [h.housed d row hrow hlive] at hbefore
      cases hbefore
    · exact hlayer heq
  named q hq := hstep.layer_stays (h.named q hq)
  shared q hq := by
    obtain ⟨hlive, hfree⟩ := h.shared q hq
    refine ⟨Bool.eq_false_iff.2 fun hgone => ?_, fun r' hr' =>
      hfree r' (List.mem_of_mem_erase hr')⟩
    rcases gone_remove hstep hgone with hbefore | heq
    · rw [hlive] at hbefore
      cases hbefore
    · have hlocks := hfree r hr
      rw [heq, locks_of_holds hholds] at hlocks
      cases hlocks
  exclusive l r' hr' hlocks := by
    rw [Bool.eq_false_iff]
    intro hgone
    rcases gone_remove hstep hgone with hbefore | rfl
    · rw [h.exclusive l r' (List.mem_of_mem_erase hr') hlocks] at hbefore
      cases hbefore
    · have hnot := Solo.solo_erase (h.solo r.layerId) hr (locks_of_holds hholds) hr'
      rw [hlocks] at hnot
      cases hnot
  solo l := Solo.solo_sublist (h.solo l) List.erase_sublist
  holding r' hr' hholds' d after hafter hlayer hlive := by
    obtain ⟨row, hrow, rfl⟩ := Option.map_eq_some_iff.1 hafter
    rw [(follows_removedWith _ _ row).layerId] at hlayer
    exact h.holding r' (List.mem_of_mem_erase hr') hholds' d row hrow hlayer
      (removedWith_live hlive).2
  free r' hr' := h.free r' (List.mem_of_mem_erase hr')

theorem mem_liveIn (h : Locked s) {l : LayerId} {d : DocId} {row : Document μ}
    (hrow : s.base.docs d = some row) (hlayer : row.layerId = l)
    (hlive : row.deletedAt = none) : d ∈ s.liveIn l := by
  refine List.mem_filter.2 ⟨h.sound.known d row hrow, ?_⟩
  rw [hrow]
  simp [hlayer, hlive]

theorem Locked.step [DecidableEq μ] (h : Locked s) (hs : Stepped cfg s a s') : Locked s' := by
  cases hs with
  | base b base hpermits hstep => exact h.base hpermits hstep
  | writableLayer q hlive hfree =>
      refine ⟨h.sound, h.housed, fun q' hq' => ?_, fun q' hq' => ?_, h.exclusive, h.solo,
        h.holding, h.free⟩
      · rcases List.mem_cons.1 hq' with rfl | hq'
        · obtain ⟨row, hrow, -⟩ := (Option.any_eq_true _ _).1 hlive
          show ((s.base.schema.layer? q'.req.layerId).map Layer.vectorName).isSome = true
          rw [hrow]
          rfl
        · exact h.named q' hq'
      · rcases List.mem_cons.1 hq' with rfl | hq'
        · refine ⟨gone_of_liveLayer hlive, fun r hr => ?_⟩
          exact Bool.eq_false_iff.2 (List.any_eq_false.1 hfree r hr)
        · exact h.shared q' hq'
  | queueNew q hq hrow hfree =>
      exact h.send hq (h.sound.queueNew hfree hrow (h.named q hq)) rfl rfl rfl rfl
  | queueAgain q row hq hfree hrow hlayer =>
      exact h.send hq (h.sound.withRow hfree hrow rfl) rfl rfl rfl hlayer
  | abort q =>
      exact ⟨h.sound, h.housed, fun q' hq' => h.named q' (List.mem_of_mem_erase hq'),
        fun q' hq' => h.shared q' (List.mem_of_mem_erase hq'), h.exclusive, h.solo,
        h.holding, h.free⟩
  | begin l => exact h.begin rfl rfl
  | lockLayer r hr hprogress hlive hshared hfree =>
      exact h.lockLayer hr hlive hshared hfree
  | lockDocuments r hr hprogress hfree =>
      refine h.advance hr (fun l => ?_) ?_ hfree
      · simp [Removal.locks, hprogress]
      · intro _ d row hrow hlayer hlive
        exact mem_liveIn h hrow hlayer hlive
  | tombstoneLayer r hr hprogress =>
      have hadvance : Locked (s.replace r [{ r with progress := .flagged }]) := by
        refine h.advance hr (fun l => ?_) ?_ (h.free r hr)
        · simp [Removal.locks, hprogress]
        · intro _
          exact h.holding r hr (.inl hprogress)
      refine hadvance.withBase ?_ (fun _ => id) (fun _ => id)
        (fun d after hafter => ⟨after, hafter, .refl after⟩) hadvance.free
      exact h.sound.withPoints
        (Migration.minted_map (h.sound.minted r.collection) (retouch_tombstoneLayer
          fun d => (s.base.docs d).any (·.layerId = r.layerId)))
  | commit r schema hr hprogress hstep => exact h.commit hr (.inr hprogress) hstep
  | rollback r hr => exact h.drop r
  | claimPurgeable d row hfree hrow =>
      have hfollows : Follows row (purgeClaimed s.base.schema.now row) := ⟨rfl, id⟩
      exact h.rewrite hfree hrow hfollows _
  | stillDeleted sw => exact ⟨h.sound, h.housed, h.named, h.shared, h.exclusive, h.solo,
      h.holding, h.free⟩
  | purge sw =>
      have hsound : Migration.Sound
          (s.base.setPoints sw.collection fun pts => pts.purge sw.docId) :=
        h.sound.withPoints fun pt hpt => h.sound.minted _ pt (mem_purge.1 hpt).1
      have hpurged := h.withBase hsound (fun _ => id) (fun _ => id)
        (fun d after hafter => ⟨after, hafter, .refl after⟩) h.free
      exact ⟨hpurged.sound, hpurged.housed, hpurged.named, hpurged.shared,
        hpurged.exclusive, hpurged.solo, hpurged.holding, hpurged.free⟩
  | markPurged sw row hfree hrow =>
      exact h.rewrite hfree hrow (follows_markedPurged _ row) _
  | giveUp sw => exact ⟨h.sound, h.housed, h.named, h.shared, h.exclusive, h.solo,
      h.holding, h.free⟩

theorem locked_init (hs : init s) : Locked s := by
  obtain ⟨base, hbase, rfl⟩ := hs
  refine ⟨Migration.sound_init hbase, ?_, ?_, ?_, ?_, ?_, ?_, ?_⟩
  · obtain ⟨schema, -, rfl⟩ := hbase
    intro d row hrow
    cases hrow
  · intro q hq
    cases hq
  · intro q hq
    cases hq
  · intro l r hr
    cases hr
  · intro l
    exact Nat.zero_le 1
  · intro r hr
    cases hr
  · intro r hr
    cases hr

end Nacre.Deletion
