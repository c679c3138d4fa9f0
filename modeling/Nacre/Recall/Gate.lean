/-
The recall gate: whether a layer that has reference queries moves to
another slot only on a verdict about the queries it has
(worker/src/recall.ts, worker/src/adapters.ts, api/src/adapters.ts).

The layers are `Nacre.Layers`, carried as the field `schema`. Its own
list of layers with references is left empty here: the sets themselves
are carried, and a switch asks them.

# What is a step

`dueChecks` reads a layer's set; the check is scored against the index
while everything else goes on, and `recordCheck` writes its outcome.
What `score` makes of the index's answers is any verdict. The update of
`finishReindexIfDone` and of `finishCopy` reads `reference_queries` by
the snapshot its statement started with and the layer's row as it is
when it gets the row, so each is a snapshot and a write. What the
documents contribute to a switch is any answer.

`verdicts` is a ghost: what was recorded for a layer since its reindex
began, with the set it was computed from.

# Where the gate is outrun

The verdict is a boolean. A set replaced while the old one is being
scored, or after it passed, is not the one it describes, and the switch
goes by the boolean (`switched_on_stale_verdict`). `Steady` is the
condition on a run.
-/
import Nacre.Layers.Slots

namespace Nacre.Recall

open Nacre.Store Transition
open Nacre.Layers (Copier)

-- ================================================================= state

/-- A row of `reference_queries`, in ordinal order in its set. -/
structure ReferenceQuery where
  query : String
  expected : List String
  deriving DecidableEq

abbrev ReferenceSet := List ReferenceQuery

/-- A target of `dueChecks`, being scored. -/
structure Check where
  layerId : LayerId
  shadowVector : String
  queries : ReferenceSet
  deriving DecidableEq

inductive Flight where
  | check (c : Check)
  /-- A `finishReindexIfDone`, with the name it read and whether its
  snapshot found a reference set. -/
  | switch (l : LayerId) (shadow before : String) (gated : Bool)
  /-- A `finishCopy`, with the layers its snapshot found waiting. -/
  | copied (c : Copier) (waiting : List LayerId)
  deriving DecidableEq

structure World where
  schema : Layers.World
  sets : LayerId → ReferenceSet
  flights : List Flight
  verdicts : LayerId → List (ReferenceSet × Bool)

def init (s : World) : Prop :=
  ∃ schema, Layers.init schema
    ∧ s = { schema, sets := fun _ => [], flights := [], verdicts := fun _ => [] }

inductive Action where
  | schema (a : Layers.Action)
  | replace (l : LayerId) (queries : ReferenceSet)
  | dueChecks (l : LayerId)
  | recordCheck (c : Check) (passed : Bool)
  | snapshotSwitch (l : LayerId) (shadow : String)
  | finishReindexIfDone (l : LayerId) (shadow before : String) (gated : Bool)
  | snapshotCopy (c : Copier) (outstanding : List LayerId)
  | finishCopy (c : Copier) (waiting : List LayerId)
  | drop (f : Flight)

/-- The actions of the layers that neither ask nor answer the gate. -/
def ungated : Layers.Action → Bool
  | .setReferences _ | .recordCheck .. | .finishReindexIfDone .. | .finishCopy .. =>
      false
  | _ => true

/-- The layer whose reindex the action begins. -/
def begins : Layers.Action → Option LayerId
  | .create l .. | .start l .. => some l
  | _ => none

/-- The running reindex has a check that passed. -/
def passed (row : Layer) : Bool :=
  row.reindexState.any fun st => st.running && st.checkPassed = some true

/-- What a reindex that begins has recorded: nothing. -/
def forget (verdicts : LayerId → List (ReferenceSet × Bool)) :
    Option LayerId → LayerId → List (ReferenceSet × Bool)
  | none => verdicts
  | some l => Function.update verdicts l []

/-- A verdict that found the row of its reindex is on record. -/
def record (verdicts : LayerId → List (ReferenceSet × Bool)) (found : Bool)
    (c : Check) (passed : Bool) : LayerId → List (ReferenceSet × Bool) :=
  if found then
    Function.update verdicts c.layerId ((c.queries, passed) :: verdicts c.layerId)
  else verdicts

def step (cfg : Layers.Config) (s : World) : Action → Option World
  | .schema a =>
      if ungated a then
        (Layers.step cfg s.schema a).map fun schema =>
          { s with schema, verdicts := forget s.verdicts (begins a) }
      else none
  | .replace l queries =>
      some { s with sets := Function.update s.sets l queries }
  | .dueChecks l =>
      match s.schema.layer? l with
      | none => none
      | some row =>
          match row.reindexState with
          | none => none
          | some st =>
              if row.live = true ∧ st.embedding = true ∧ st.checkPassed = none
                  ∧ s.sets l ≠ [] then
                some { s with
                  flights := .check ⟨l, st.shadowVector, s.sets l⟩ :: s.flights }
              else none
  | .recordCheck c passed =>
      if .check c ∈ s.flights then
        let sel := Layers.migrating c.layerId c.shadowVector
        some { s with
          schema := s.schema.alter sel (checkRecorded passed)
          flights := s.flights.erase (.check c)
          verdicts := record s.verdicts (s.schema.layers.any sel) c passed }
      else none
  | .snapshotSwitch l shadow =>
      match s.schema.layer? l with
      | none => none
      | some row =>
          if (l, shadow) ∈ s.schema.observed then
            some { s with
              flights := .switch l shadow row.vectorName (s.sets l ≠ [])
                :: s.flights }
          else none
  | .finishReindexIfDone l shadow before gated =>
      if .switch l shadow before gated ∈ s.flights then
        (s.schema.alterFound (fun row =>
            Layers.migrating l shadow row && (!gated || passed row))
          (switched before s.schema.now)).map fun schema =>
            { s with
              schema, flights := s.flights.erase (.switch l shadow before gated) }
      else none
  | .snapshotCopy c outstanding =>
      if c ∈ s.schema.copiers ∧ c.built = true then
        some { s with
          flights := .copied c ((s.schema.layers.filter fun row =>
            outstanding.contains row.id || s.sets row.id ≠ []).map (·.id))
              :: s.flights }
      else none
  | .finishCopy c waiting =>
      if .copied c waiting ∈ s.flights then
        (Layers.step cfg s.schema (.finishCopy c fun l _ => waiting.contains l)).map
          fun schema =>
            { s with schema, flights := s.flights.erase (.copied c waiting) }
      else none
  | .drop f =>
      if f ∈ s.flights then some { s with flights := s.flights.erase f } else none

-- ================================================== what one step can do

/-- Every step, with what the gate's results need of it. -/
inductive Stepped (cfg : Layers.Config) (s : World) : Action → World → Prop where
  | schema (a : Layers.Action) (schema : Layers.World) (ha : ungated a = true)
      (hstep : Layers.step cfg s.schema a = some schema) :
      Stepped cfg s (.schema a)
        { s with schema, verdicts := forget s.verdicts (begins a) }
  | replace (l : LayerId) (queries : ReferenceSet) :
      Stepped cfg s (.replace l queries)
        { s with sets := Function.update s.sets l queries }
  | dueChecks (l : LayerId) (f : Flight) :
      Stepped cfg s (.dueChecks l) { s with flights := f :: s.flights }
  | recordCheck (c : Check) (passed : Bool) (flights) :
      Stepped cfg s (.recordCheck c passed)
        { s with
          schema := s.schema.alter (Layers.migrating c.layerId c.shadowVector)
            (checkRecorded passed)
          flights
          verdicts := record s.verdicts (s.schema.layers.any
            (Layers.migrating c.layerId c.shadowVector)) c passed }
  | snapshotSwitch (l : LayerId) (shadow : String) (f : Flight) :
      Stepped cfg s (.snapshotSwitch l shadow) { s with flights := f :: s.flights }
  | finishReindexIfDone (l : LayerId) (shadow before : String) (gated : Bool)
      (flights) :
      Stepped cfg s (.finishReindexIfDone l shadow before gated)
        { s with
          schema := s.schema.alter (fun row =>
            Layers.migrating l shadow row && (!gated || passed row))
              (switched before s.schema.now)
          flights }
  | snapshotCopy (c : Copier) (outstanding : List LayerId) (f : Flight) :
      Stepped cfg s (.snapshotCopy c outstanding) { s with flights := f :: s.flights }
  | finishCopy (c : Copier) (waiting : List LayerId) (schema : Layers.World) (flights)
      (hstep : Layers.Stepped cfg s.schema
        (.finishCopy c fun l _ => waiting.contains l) schema) :
      Stepped cfg s (.finishCopy c waiting) { s with schema, flights }
  | drop (f : Flight) (flights) : Stepped cfg s (.drop f) { s with flights }

theorem step_inv {cfg : Layers.Config} {s s' : World} {a : Action}
    (h : step cfg s a = some s') : Stepped cfg s a s' := by
  cases a with
  | schema a =>
      simp only [step] at h
      split at h
      next ha =>
        obtain ⟨schema, hstep, rfl⟩ := Option.map_eq_some_iff.1 h
        exact .schema a schema ha hstep
      next => cases h
  | replace l queries =>
      cases h
      exact .replace l queries
  | dueChecks l =>
      simp only [step] at h
      split at h
      next => cases h
      next row hrow =>
        split at h
        next => cases h
        next st hst =>
          split at h
          next =>
            cases h
            exact .dueChecks l _
          next => cases h
  | recordCheck c passed =>
      simp only [step] at h
      split at h
      next =>
        cases h
        exact .recordCheck c passed _
      next => cases h
  | snapshotSwitch l shadow =>
      simp only [step] at h
      split at h
      next => cases h
      next row hrow =>
        split at h
        next =>
          cases h
          exact .snapshotSwitch l shadow _
        next => cases h
  | finishReindexIfDone l shadow before gated =>
      simp only [step] at h
      split at h
      next =>
        obtain ⟨schema, hfound, rfl⟩ := Option.map_eq_some_iff.1 h
        rw [Layers.alterFound_eq hfound]
        exact .finishReindexIfDone l shadow before gated _
      next => cases h
  | snapshotCopy c outstanding =>
      simp only [step] at h
      split at h
      next =>
        cases h
        exact .snapshotCopy c outstanding _
      next => cases h
  | finishCopy c waiting =>
      simp only [step] at h
      split at h
      next =>
        obtain ⟨schema, hstep, rfl⟩ := Option.map_eq_some_iff.1 h
        exact .finishCopy c waiting schema _ (Layers.step_inv hstep)
      next => cases h
  | drop f =>
      simp only [step] at h
      split at h
      next =>
        cases h
        exact .drop f _
      next => cases h

-- ============================================================ the property

/-- The step moves a layer with reference queries to another slot only if
a verdict that passed was recorded in this reindex, on the queries the
layer has. -/
def Checked (s s' : World) : Prop :=
  ∀ l name name', s.schema.nameOf l = some name → s'.schema.nameOf l = some name' →
    name' ≠ name → s.sets l ≠ [] → (s.sets l, true) ∈ s.verdicts l

/-- A set does not change under a verdict, and neither under a switch. -/
def Steady (s : World) : Action → Prop
  -- a set is not replaced by another once its layer's check has passed
  | .replace l queries =>
      (s.schema.layer? l).any passed = true → queries = [] ∨ queries = s.sets l
  -- a verdict that passed lands on the set it was computed from
  | .recordCheck c passed => passed = true → c.queries = s.sets c.layerId
  -- no set appeared since a switch's statement looked
  | .finishReindexIfDone l _ _ gated => gated = false → s.sets l = []
  | .finishCopy _ waiting =>
      ∀ row ∈ s.schema.layers, row.copying = true → row.id ∉ waiting →
        s.sets row.id = []
  | _ => True

instance (s : World) (a : Action) : Decidable (Steady s a) := by
  cases a with
  | replace => exact inferInstanceAs (Decidable (_ → _))
  | recordCheck => exact inferInstanceAs (Decidable (_ → _))
  | finishReindexIfDone => exact inferInstanceAs (Decidable (_ → _))
  | finishCopy => exact inferInstanceAs (Decidable (∀ row ∈ s.schema.layers, _))
  | _ => exact inferInstanceAs (Decidable True)

-- ============================================================ the verdicts

section Rows

variable {w w' : Layers.World} {l : LayerId}

/-- The layer's running reindex has a check that passed. -/
def passedIn (w : Layers.World) (l : LayerId) : Bool := (w.layer? l).any passed

/-- An update that passes no check. -/
structure PassesNone (set : Layer → Layer) : Prop where
  id : ∀ row, (set row).id = row.id
  passed : ∀ row, passed (set row) = true → passed row = true

theorem passedIn_alter {sel : Layer → Bool} {set : Layer → Layer}
    (hset : PassesNone set) (h : passedIn (w.alter sel set) l = true) :
    passedIn w l = true := by
  unfold passedIn at h ⊢
  rw [Layers.layer?_alter hset.id] at h
  cases hrow : w.layer? l with
  | none =>
      rw [hrow] at h
      cases h
  | some row =>
      rw [hrow, Option.map_some, Option.any_some] at h
      rw [Option.any_some]
      split at h
      next => exact hset.passed row h
      next => exact h

/-- An update inside `reindex_state` that leaves the check and starts
nothing. -/
theorem passesNone_mapState {f : ReindexState → ReindexState}
    (hcheck : ∀ st, (f st).running = true → (f st).checkPassed = some true →
      st.running = true ∧ st.checkPassed = some true) :
    PassesNone fun row => { row with reindexState := row.reindexState.map f } where
  id _ := rfl
  passed row h := by
    unfold passed at h ⊢
    cases hst : row.reindexState with
    | none =>
        rw [hst] at h
        cases h
    | some st =>
        rw [hst, Option.map_some, Option.any_some, Bool.and_eq_true,
          decide_eq_true_eq] at h
        rw [Option.any_some, Bool.and_eq_true, decide_eq_true_eq]
        exact hcheck st h.1 h.2

theorem passesNone_started (p : Provider) (phase : Phase) (startedAt : Time) :
    PassesNone (started p phase startedAt) where
  id _ := rfl
  passed row h := by
    have hfalse : passed (started p phase startedAt row) = false := rfl
    rw [hfalse] at h
    cases h

theorem passesNone_removed (now : Time) : PassesNone (removed now) :=
  ⟨fun _ => rfl, fun _ h => h⟩

theorem passesNone_copyClaimed (claim : Claim) (now : Time) :
    PassesNone (copyClaimed claim now) :=
  passesNone_mapState fun _ hrunning hcheck => ⟨hrunning, hcheck⟩

theorem passesNone_copyRenewed (now : Time) : PassesNone (copyRenewed now) :=
  passesNone_mapState fun _ hrunning hcheck => ⟨hrunning, hcheck⟩

theorem passesNone_vectorForgotten : PassesNone vectorForgotten :=
  passesNone_mapState fun _ hrunning hcheck => ⟨hrunning, hcheck⟩

theorem passesNone_reindexFailed (error : String) :
    PassesNone (reindexFailed error) :=
  passesNone_mapState fun st hrunning => by
    have hfalse : ({ st with status := .failed, error := some error } :
      ReindexState).running = false := rfl
    rw [hfalse] at hrunning
    cases hrunning

theorem passesNone_switched (before : String) (now : Time) :
    PassesNone (switched before now) where
  id _ := switched_id
  passed row h := by
    unfold switched at h
    cases hst : row.reindexState with
    | none =>
        rw [hst] at h
        exact h
    | some st =>
        rw [hst] at h
        cases h

theorem passesNone_copyFinished (waiting : Layer → Bool) (now : Time) :
    PassesNone fun row => copyFinished (waiting row) now row where
  id _ := copyFinished_id
  passed row h := by
    unfold copyFinished at h
    cases hst : row.reindexState with
    | none =>
        rw [hst] at h
        exact h
    | some st =>
        rw [hst] at h
        cases hwaiting : waiting row with
        | true =>
            rw [hwaiting] at h
            unfold passed
            rw [hst]
            exact h
        | false =>
            rw [hwaiting] at h
            cases h

/-- What the layers' own steps leave of a passed check. -/
theorem passedIn_stepped {cfg : Layers.Config} {a : Layers.Action}
    (hs : Layers.Stepped cfg w a w') (ha : ungated a = true)
    (h : passedIn w' l = true) : passedIn w l = true ∨ begins a = some l := by
  cases hs with
  | create l' requested p startedAt slots hp hnew hpresent =>
      by_cases hl : l = l'
      · right
        rw [hl]
        rfl
      · left
        unfold passedIn Layers.World.layer? at h ⊢
        rw [List.find?_cons_of_neg] at h
        · exact h
        · show ¬ decide (l' = l) = true
          simpa using fun h' => hl h'.symm
  | startEmbedding l' p startedAt hp hslot =>
      exact Or.inl (passedIn_alter (passesNone_started p _ startedAt) h)
  | startCopying l' p startedAt hp hslot hidle =>
      exact Or.inl (passedIn_alter (passesNone_started p _ startedAt) h)
  | remove l' => exact Or.inl (passedIn_alter (passesNone_removed w.now) h)
  | claimCopyable l' claim row st p hrow hid hst hcopy hp hpid hnew =>
      exact Or.inl (passedIn_alter (w := w) (passesNone_copyClaimed claim w.now) h)
  | renewCopyClaim c hc =>
      exact Or.inl (passedIn_alter (passesNone_copyRenewed w.now) h)
  | failReindex l' error =>
      exact Or.inl (passedIn_alter (passesNone_reindexFailed error) h)
  | forgetVector l' => exact Or.inl (passedIn_alter passesNone_vectorForgotten h)
  | setReferences layers => cases ha
  | finishCopy c outstanding row hc hb hrow hid hholds => cases ha
  | recordCheck l' shadow passed hseen => cases ha
  | finishReindexIfDone l' shadow before hseen => cases ha
  | _ => exact Or.inl h

/-- No check has passed where a reindex begins. -/
theorem not_passedIn_of_begins {cfg : Layers.Config} {a : Layers.Action}
    (hstep : Layers.step cfg w a = some w') (hdistinct : w.Distinct)
    (ha : begins a = some l) : passedIn w' l = false := by
  rw [Bool.eq_false_iff]
  intro hpassed
  -- a row that starts is not running, so it has not passed
  have hstart : ∀ {providerId : ProviderId} {startedAt : Time},
      Layers.step cfg w (.start l providerId startedAt) = some w' →
        passedIn w l ≠ true := by
    intro providerId startedAt hfound hold
    obtain ⟨row, hrow, hid, hrunning⟩ := Layers.start_found hfound
    have hlayer := Layers.Distinct.layer? hdistinct hrow
    unfold passedIn at hold
    rw [← hid, hlayer, Option.any_some] at hold
    unfold passed at hold
    obtain ⟨st, hst, hboth⟩ := (Option.any_eq_true _ _).1 hold
    rw [Bool.and_eq_true] at hboth
    unfold Layer.running at hrunning
    rw [hst, Option.any_some, hboth.1] at hrunning
    cases hrunning
  cases Layers.step_inv hstep with
  | create l' requested p startedAt slots hp hnew hpresent =>
      cases ha
      unfold passedIn Layers.World.layer? at hpassed
      rw [List.find?_cons_of_pos (by simp [created])] at hpassed
      unfold created passed at hpassed
      rw [Option.any_some] at hpassed
      dsimp only at hpassed
      split at hpassed
      next => cases hpassed
      next => cases hpassed
  | startEmbedding l' p startedAt hp hslot =>
      cases ha
      exact hstart hstep (passedIn_alter (passesNone_started p _ startedAt) hpassed)
  | startCopying l' p startedAt hp hslot hidle =>
      cases ha
      exact hstart hstep (passedIn_alter (passesNone_started p _ startedAt) hpassed)
  | _ => cases ha

end Rows

-- =========================================================== the invariant

/-- A check that passed is about the layer's set, while it has one. -/
structure Verified (s : World) : Prop where
  distinct : s.schema.Distinct
  verdicts : ∀ l, passedIn s.schema l = true →
    s.sets l = [] ∨ (s.sets l, true) ∈ s.verdicts l

variable {cfg : Layers.Config} {s s' : World} {a : Action}

theorem forget_ne {verdicts : LayerId → List (ReferenceSet × Bool)}
    {begun : Option LayerId} {l : LayerId} (h : begun ≠ some l) :
    forget verdicts begun l = verdicts l := by
  cases begun with
  | none => rfl
  | some l' =>
      show Function.update verdicts l' [] l = verdicts l
      rw [Function.update_of_ne]
      intro heq
      subst heq
      exact h rfl

/-- The layers step, and no check passes. -/
theorem Verified.withSchema (h : Verified s) {schema : Layers.World} {flights}
    (hdistinct : schema.Distinct)
    (hpassed : ∀ l, passedIn schema l = true → passedIn s.schema l = true) :
    Verified { s with schema, flights } :=
  ⟨hdistinct, fun l hl => h.verdicts l (hpassed l hl)⟩

theorem mem_record {verdicts : LayerId → List (ReferenceSet × Bool)}
    {found : Bool} {c : Check} {passed : Bool} {l : LayerId}
    {v : ReferenceSet × Bool} (h : v ∈ verdicts l) :
    v ∈ record verdicts found c passed l := by
  unfold record
  split
  next =>
    by_cases hl : l = c.layerId
    · subst hl
      rw [Function.update_self]
      exact List.mem_cons_of_mem _ h
    · rw [Function.update_of_ne hl]
      exact h
  next => exact h

/-- A layer passes by the verdict that is recorded, or had passed. -/
theorem passedIn_recorded {w : Layers.World} {c : Check} {passed : Bool}
    {l : LayerId}
    (h : passedIn (w.alter (Layers.migrating c.layerId c.shadowVector)
      (checkRecorded passed)) l = true) :
    passedIn w l = true ∨ l = c.layerId ∧ passed = true
      ∧ w.layers.any (Layers.migrating c.layerId c.shadowVector) = true := by
  have hid : ∀ row, (checkRecorded passed row).id = row.id := fun _ => rfl
  unfold passedIn at h ⊢
  rw [Layers.layer?_alter hid] at h
  cases hrow : w.layer? l with
  | none =>
      rw [hrow] at h
      cases h
  | some row =>
      rw [hrow, Option.map_some, Option.any_some] at h
      split at h
      next hsel =>
        right
        have hl : row.id = l := by simpa using List.find?_some hrow
        have hmem : row ∈ w.layers := List.mem_of_find?_eq_some hrow
        refine ⟨?_, ?_, List.any_eq_true.2 ⟨row, hmem, hsel⟩⟩
        · unfold Layers.migrating at hsel
          rw [Bool.and_eq_true, decide_eq_true_eq] at hsel
          exact hl.symm.trans hsel.1
        · unfold checkRecorded Recall.passed at h
          cases hst : row.reindexState with
          | none =>
              rw [hst] at h
              cases h
          | some st =>
              rw [hst, Option.map_some, Option.any_some, Bool.and_eq_true,
                decide_eq_true_eq] at h
              exact Option.some.inj h.2
      next => exact Or.inl h

/-- A verdict that passed is recorded for the set it was computed from. -/
theorem Verified.record (h : Verified s) {c : Check} {passed : Bool} {flights}
    (hset : passed = true → c.queries = s.sets c.layerId) :
    Verified { s with
      schema := s.schema.alter (Layers.migrating c.layerId c.shadowVector)
        (checkRecorded passed)
      flights
      verdicts := Recall.record s.verdicts (s.schema.layers.any
        (Layers.migrating c.layerId c.shadowVector)) c passed } where
  distinct := Layers.distinct_alter (fun _ => rfl) h.distinct
  verdicts l hl := by
    rcases passedIn_recorded hl with hold | ⟨rfl, hpassed, hfound⟩
    · exact (h.verdicts l hold).imp_right mem_record
    · right
      show (s.sets c.layerId, true) ∈ Recall.record s.verdicts _ c passed c.layerId
      unfold Recall.record
      rw [if_pos hfound, Function.update_self, ← hset hpassed, hpassed]
      exact List.mem_cons_self

theorem Verified.step (h : Verified s) (hok : Steady s a)
    (hs : Stepped cfg s a s') : Verified s' := by
  cases hs with
  | schema a schema ha hstep =>
      refine ⟨(Layers.step_inv hstep).distinct h.distinct, fun l hl => ?_⟩
      have hnot : begins a ≠ some l := by
        intro hbegins
        have hfalse := not_passedIn_of_begins hstep h.distinct hbegins
        rw [show passedIn schema l = true from hl] at hfalse
        cases hfalse
      have hold := (passedIn_stepped (Layers.step_inv hstep) ha hl).resolve_right hnot
      show s.sets l = [] ∨ (s.sets l, true) ∈ forget s.verdicts (begins a) l
      rw [forget_ne hnot]
      exact h.verdicts l hold
  | replace l queries =>
      refine ⟨h.distinct, fun l' hl' => ?_⟩
      show Function.update s.sets l queries l' = []
        ∨ (Function.update s.sets l queries l', true) ∈ s.verdicts l'
      by_cases hl : l' = l
      · subst hl
        rw [Function.update_self]
        rcases hok hl' with hnone | hsame
        · exact Or.inl hnone
        · rw [hsame]
          exact h.verdicts l' hl'
      · rw [Function.update_of_ne hl]
        exact h.verdicts l' hl'
  | dueChecks l f => exact h.withSchema h.distinct fun l hl => hl
  | recordCheck c passed flights => exact h.record hok
  | snapshotSwitch l shadow f => exact h.withSchema h.distinct fun l hl => hl
  | finishReindexIfDone l shadow before gated flights =>
      exact h.withSchema (Layers.distinct_alter (fun _ => switched_id) h.distinct)
        fun l hl => passedIn_alter (passesNone_switched before s.schema.now) hl
  | snapshotCopy c outstanding f => exact h.withSchema h.distinct fun l hl => hl
  | finishCopy c waiting schema flights hstep =>
      apply h.withSchema (hstep.distinct h.distinct)
      intro l hl
      cases hstep with
      | finishCopy _ _ row hc hb hrow hid hholds =>
          exact passedIn_alter (w := s.schema)
            (passesNone_copyFinished _ s.schema.now) hl
  | drop f flights => exact h.withSchema h.distinct fun l hl => hl

theorem verified_init (hs : init s) : Verified s := by
  obtain ⟨schema, ⟨now, collection, global, rest, -, rfl⟩, rfl⟩ := hs
  exact ⟨List.nodup_nil, fun l hl => by cases hl⟩

-- ============================================================== the switch

/-- The names a switch behind the gate changes: a layer whose check
passed, or one the snapshot found no set for. -/
theorem nameOf_gated {w : Layers.World} {l l' : LayerId} {shadow before : String}
    {gated : Bool} {now : Time}
    (h : (w.alter (fun row => Layers.migrating l shadow row && (!gated || passed row))
      (switched before now)).nameOf l' ≠ w.nameOf l') :
    l' = l ∧ (gated = false ∨ passedIn w l' = true) := by
  unfold Layers.World.nameOf at h
  rw [Layers.layer?_alter fun _ => switched_id] at h
  cases hrow : w.layer? l' with
  | none =>
      rw [hrow] at h
      exact absurd rfl h
  | some row =>
      rw [hrow, Option.map_some, Option.map_some, Option.map_some] at h
      cases hsel : Layers.migrating l shadow row && (!gated || passed row) with
      | false =>
          rw [hsel] at h
          exact absurd rfl h
      | true =>
          rw [Bool.and_eq_true, Bool.or_eq_true, Bool.not_eq_true'] at hsel
          obtain ⟨hmig, hgate⟩ := hsel
          have hid : row.id = l' := by simpa using List.find?_some hrow
          unfold Layers.migrating at hmig
          rw [Bool.and_eq_true, decide_eq_true_eq] at hmig
          refine ⟨hid.symm.trans hmig.1, hgate.imp_right fun hpassed => ?_⟩
          unfold passedIn
          rw [hrow]
          exact hpassed

theorem Verified.checked (h : Verified s) (hok : Steady s a)
    (hs : Stepped cfg s a s') : Checked s s' := by
  intro l name name' hname hname' hne hset
  have hchanged : s'.schema.nameOf l ≠ s.schema.nameOf l := by
    rw [hname, hname']
    intro heq
    exact hne (Option.some.inj heq)
  cases hs with
  | schema a schema ha hstep =>
      have hswitch : a.switches = false := by
        cases a with
        | finishCopy c outstanding => cases ha
        | finishReindexIfDone l shadow before outstanding => cases ha
        | _ => rfl
      rcases (Layers.step_inv hstep).nameOf hswitch l with heq | hnone
      · exact absurd heq hchanged
      · rw [hnone] at hname
        cases hname
  | recordCheck c passed flights =>
      exact absurd (Layers.nameOf_alter (keepsName_mapState _) l) hchanged
  | finishReindexIfDone l' shadow before gated flights =>
      obtain ⟨rfl, hgate⟩ := nameOf_gated hchanged
      rcases hgate with hopen | hpassed
      · exact absurd (hok hopen) hset
      · exact (h.verdicts l hpassed).resolve_left hset
  | finishCopy c waiting schema flights hstep =>
      cases hstep with
      | finishCopy _ _ row hc hb hrow hid hholds =>
          rcases Layers.nameOf_copyFinished (s := s.schema) (l := l) with
            heq | ⟨row', st, hrow', hst, hcopying, hfree, -⟩
          · exact absurd heq hchanged
          · have hmem : row' ∈ s.schema.layers := List.mem_of_find?_eq_some hrow'
            have hid' : row'.id = l := by simpa using List.find?_some hrow'
            have hphase : row'.copying = true := by
              unfold Layer.copying
              rw [hst]
              exact hcopying
            simp only [Layers.World.waiting, hst, Option.any_some,
              Bool.or_eq_false_iff, List.contains_eq_mem,
              decide_eq_false_iff_not] at hfree
            have hnone := hok row' hmem hphase hfree.1
            rw [hid'] at hnone
            exact absurd hnone hset
  | _ => exact absurd rfl hchanged

/-- In every run in which no set changes under its verdict, every switch
of a layer with reference queries has a verdict on those queries. -/
theorem steady_runs_checked (hs : Reachable (step cfg) Steady init s)
    (hok : Steady s a) (hstep : step cfg s a = some s') : Checked s s' := by
  have hinv : Verified s := hs.invariant (fun _ => verified_init)
    fun t a t' ht hok ha => ht.step hok (step_inv ha)
  exact hinv.checked hok (step_inv hstep)

-- ====================================================== an organization

open Layers (sampleConfig sampleCopier defaultProvider smallProvider)

def sampleWorld : World where
  schema := Layers.sampleWorld
  sets := fun _ => []
  flights := []
  verdicts := fun _ => []

theorem init_sampleWorld : init sampleWorld :=
  ⟨Layers.sampleWorld, Layers.init_sampleWorld, rfl⟩

def firstSet : ReferenceSet := [⟨"refund policy", ["refunds"]⟩]

def secondSet : ReferenceSet := [⟨"opening hours", ["contact"]⟩]

/-- A layer whose collection has both slots gets a set, starts to move,
and its check is being scored. -/
def scoreRun : List Action :=
  [.schema (.create "one" (some "small") smallProvider 100),
    .schema (.claimCopyable "one" 7),
    .schema (.copyCollection sampleCopier),
    .snapshotCopy { sampleCopier with built := true } [],
    .finishCopy { sampleCopier with built := true } [],
    .replace "one" firstSet,
    .schema (.start "one" "default" 100),
    .dueChecks "one"]

/-- The check passes, and a switch has looked. -/
def recordRun : List Action :=
  [.recordCheck ⟨"one", defaultProvider.vector, firstSet⟩ true,
    .schema (.observe "one"),
    .snapshotSwitch "one" defaultProvider.vector]

def switchAction : Action :=
  .finishReindexIfDone "one" defaultProvider.vector smallProvider.vector true

def checkedWorld : World :=
  (runWithin (step sampleConfig) Steady sampleWorld (scoreRun ++ recordRun)).get
    (by decide)

def movedWorld : World := (step sampleConfig checkedWorld switchAction).get (by decide)

theorem steady_runs_checked_moved :
    Checked checkedWorld movedWorld
      ∧ checkedWorld.schema.nameOf "one" = some smallProvider.vector
      ∧ movedWorld.schema.nameOf "one" = some defaultProvider.vector
      ∧ checkedWorld.sets "one" = firstSet :=
  ⟨steady_runs_checked (reachable_get init_sampleWorld _)
      (show Steady checkedWorld switchAction by decide) (Option.some_get _).symm,
    by decide, by decide, by decide⟩

/-- The set is replaced while the old one is being scored. -/
def staleWorld : World :=
  (runWithin (step sampleConfig) anyStep sampleWorld
    (scoreRun ++ [.replace "one" secondSet] ++ recordRun)).get (by decide)

/-- The layer moves on the old set's verdict. -/
theorem switched_on_stale_verdict :
    ∃ s a s', Reachable (step sampleConfig) anyStep init s
      ∧ step sampleConfig s a = some s' ∧ ¬ Checked s s' := by
  refine ⟨staleWorld, switchAction,
    (step sampleConfig staleWorld switchAction).get (by decide),
    reachable_get init_sampleWorld _, (Option.some_get _).symm, fun h => ?_⟩
  have hverdict := h "one" smallProvider.vector defaultProvider.vector (by decide)
    (by decide) (by decide) (by decide)
  revert hverdict
  decide

end Nacre.Recall
