/-
The layers of one organization, the providers they may be on, the
collection the organization points at, and the migrations that move
them: `PostgresLayers.create` and `remove`, `PostgresReindex.start`,
the provider endpoints (api/src/adapters.ts), and the worker's
`claimCopyable`, `copyCollection`, `finishCopy`, `failReindex`,
`recordCheck`, `finishReindexIfDone` and `forgetVector`
(worker/src/adapters.ts, worker/src/main.ts, core/vector/search.ts).

# What is a step

Each operation is one step. A copy is three: the claim, the building of
the target collection, the finish; the worker between them is a
`Copier`, which may stop at any moment and whose claim may be taken over
when its lease runs out. What the documents of the organization
contribute is one bit per layer and slot, whether a live document with
chunks lacks the slot's vector; the statements that ask for it take the
answer as an argument, so every history of documents is covered.

`finishReindexIfDone` and `recordCheck` are called for a layer and a
slot seen together in phase `embedding` (`pendingReindexes`,
`claimReindexable`, `dueChecks`): `observed` holds the pairs seen.

`started_at` is read off the API's own clock, so it is an argument too.

# What is not here

Permissions, slugs and workspaces refuse a request and change nothing:
a refused request is no step. Another organization's rows are out of
reach of every statement here except `claimCopyable`, which picks one
row of any organization; the pick is an argument of the step.
-/
import Mathlib.Logic.Function.Basic
import Nacre.Lib.Transition
import Nacre.Store.Layers

namespace Nacre.Layers

open Nacre.Store

-- ================================================================= state

/-- A worker inside `copyOnce`, with what `claimCopyable` returned. -/
structure Copier where
  layerId : LayerId
  collection : String
  shadowVector : String
  dimensions : Nat
  claim : Claim
  startedAt : Time
  /-- The target has been created. -/
  built : Bool := false
  deriving DecidableEq

/-- The collection the copy builds. -/
def Copier.to (c : Copier) : String := c.collection ++ "_" ++ c.shadowVector

/-- A copy never targets its source: the name is longer. -/
theorem Copier.to_ne (c : Copier) : c.to ≠ c.collection := by
  intro h
  have hlen := congrArg String.length h
  unfold Copier.to at hlen
  rw [String.length_append, String.length_append] at hlen
  have hone : "_".length = 1 := rfl
  omega

/-- The named vectors of a collection and their widths. -/
abbrev Slots := List (String × Nat)

def Slots.names (slots : Slots) : List String := slots.map Prod.fst

structure World where
  now : Time
  /-- `organizations.vector_collection`. -/
  collection : String
  /-- The vector store's collections. -/
  collections : String → Option Slots
  providers : List Provider
  layers : List Layer
  /-- The layers that have reference queries. -/
  references : List LayerId
  copiers : List Copier
  observed : List (LayerId × String)
  /-- Every `copy_claim` handed out. -/
  claims : List Claim

instance : LawfulBEq (LayerId × String) := inferInstance

/-- The row of a layer. -/
def World.layer? (s : World) (l : LayerId) : Option Layer :=
  s.layers.find? (·.id = l)

/-- `vectorsOf` the live collection. -/
def World.present (s : World) : Option Slots := s.collections s.collection

/-- The live collection has a slot of that name. -/
def World.hasSlot (s : World) (name : String) : Bool :=
  s.present.any fun slots => slots.names.contains name

/-- The copy hold of `claimNext` and `claimReindexable`. -/
def World.held (s : World) : Bool := s.layers.any Layer.copying

/-- A freshly provisioned organization: its collection has the slot of
the installation's default provider, and there are no layers yet. -/
def init (s : World) : Prop :=
  ∃ (now : Time) (collection : String) (global : Provider)
    (rest : List Provider),
    global.own = false
      ∧ s = { now, collection
              collections := Function.update (fun _ => none) collection
                (some [(global.vector, global.dimensions)])
              providers := global :: rest
              layers := [], references := [], copiers := [], observed := []
              claims := [] }

structure Config where
  leaseSeconds : Nat

-- =============================================================== actions

inductive Action where
  | tick
  | addProvider (p : Provider)
  | removeProvider (id : ProviderId)
  | create (l : LayerId) (requested : Option ProviderId) (p : Provider)
      (startedAt : Time)
  | start (l : LayerId) (providerId : ProviderId) (startedAt : Time)
  | remove (l : LayerId)
  | setReferences (layers : List LayerId)
  | claimCopyable (l : LayerId) (claim : Claim)
  | renewCopyClaim (c : Copier)
  | copyCollection (c : Copier)
  | finishCopy (c : Copier) (outstanding : LayerId → String → Bool)
  | abandonCopy (c : Copier)
  | failReindex (l : LayerId) (error : String)
  | observe (l : LayerId)
  | recordCheck (l : LayerId) (shadow : String) (passed : Bool)
  | finishReindexIfDone (l : LayerId) (shadow before : String)
      (outstanding : Bool)
  | forgetVector (l : LayerId)

/-- The actions that read and write nothing but the schema. -/
def Action.pure : Action → Bool
  | .tick | .addProvider _ | .removeProvider _ | .create .. | .start ..
  | .setReferences _ | .renewCopyClaim _ | .failReindex .. | .observe _
  | .recordCheck .. | .forgetVector _ => true
  | .remove _ | .claimCopyable .. | .copyCollection _ | .finishCopy ..
  | .abandonCopy _ | .finishReindexIfDone .. => false

/-- An `UPDATE layers` with its `WHERE`. -/
def World.alter (s : World) (sel : Layer → Bool) (set : Layer → Layer) :
    World :=
  { s with layers := s.layers.map fun row => if sel row then set row else row }

/-- The same, when it finds a row. -/
def World.alterFound (s : World) (sel : Layer → Bool) (set : Layer → Layer) :
    Option World :=
  if s.layers.any sel then some (s.alter sel set) else none

/-- The providers `create` may settle on: the one asked for, else the
organization's own if it has one, else a global one. More than one of
its own is refused. -/
def eligible (providers : List Provider) (requested : Option ProviderId)
    (p : Provider) : Bool :=
  p ∈ providers
    && match requested with
      | some id => p.id = id
      | none =>
          let own := providers.filter (·.own)
          own.length ≤ 1 && (p.own || own.isEmpty)

/-- The row `start` may write: live, with no reindex running, and not on
the slot already. -/
def startable (l : LayerId) (vector : String) (row : Layer) : Bool :=
  row.id = l && row.live && !row.running && row.vectorName ≠ vector

/-- Whether a layer in the copy phase has anything to wait for. -/
def World.waiting (s : World) (outstanding : LayerId → String → Bool)
    (row : Layer) : Bool :=
  row.reindexState.any (fun st => outstanding row.id st.shadowVector)
    || s.references.contains row.id

/-- The row `recordCheck` and `finishReindexIfDone` are about. -/
def migrating (l : LayerId) (shadow : String) (row : Layer) : Bool :=
  row.id = l && row.reindexState.any fun st =>
    st.running && st.shadowVector = shadow

/-- The recall gate: no reference set, or a check that passed. -/
def World.gateOpen (s : World) (row : Layer) : Bool :=
  !s.references.contains row.id
    || row.reindexState.any fun st => st.checkPassed = some true

def step (cfg : Config) (s : World) : Action → Option World
  | .tick => some { s with now := s.now + 1 }
  | .addProvider p =>
      if p.own && s.providers.all (fun q => q.id ≠ p.id) then
        some { s with providers := p :: s.providers }
      else none
  | .removeProvider id =>
      -- `layers.provider_id` references the row; `reindex_state` does not
      if s.providers.any (fun p => p.own && p.id = id)
          && s.layers.all (fun row => row.providerId ≠ id) then
        some { s with
          providers := s.providers.filter fun p => !(p.own && p.id = id) }
      else none
  | .create l requested p startedAt =>
      if eligible s.providers requested p
          && s.layers.all (fun row => row.id ≠ l) then
        s.present.map fun slots =>
          { s with
            layers := created l p (slots.names.contains p.vector) startedAt
              :: s.layers }
      else none
  | .start l providerId startedAt =>
      match s.providers.find? (fun p => p.id = providerId), s.present with
      | some p, some slots =>
          match slots.lookup p.vector with
          | some width =>
              if width = p.dimensions then
                s.alterFound (startable l p.vector)
                  (started p .embedding startedAt)
              else none
          | none =>
              if s.layers.any (fun row => row.live && row.copying) then none
              else s.alterFound (startable l p.vector)
                (started p .copying startedAt)
      | _, _ => none
  | .remove l => s.alterFound (fun row => row.id = l && row.live) (removed s.now)
  | .setReferences layers => some { s with references := layers }
  | .claimCopyable l claim =>
      match s.layers.find? (fun row =>
          row.id = l && row.copyable cfg.leaseSeconds s.now) with
      | none => none
      | some row =>
          match row.reindexState with
          | none => none
          | some st =>
              match s.providers.find? (fun p => p.id = st.providerId) with
              | none => none
              | some p =>
                  if claim ∈ s.claims then none
                  else
                    some { s.alter (fun r =>
                          r.id = l && r.copyable cfg.leaseSeconds s.now)
                        (copyClaimed claim s.now) with
                      copiers :=
                        { layerId := l, collection := s.collection
                          shadowVector := st.shadowVector
                          dimensions := p.dimensions, claim
                          startedAt := st.startedAt } :: s.copiers
                      claims := claim :: s.claims }
  | .renewCopyClaim c =>
      if c ∈ s.copiers then
        s.alterFound (fun row => row.id = c.layerId && row.holds c.claim)
          (copyRenewed s.now)
      else none
  | .copyCollection c =>
      if c ∈ s.copiers ∧ c.built = false then
        match s.collections c.collection with
        | none => none
        | some slots =>
            if slots.names.contains c.shadowVector then none
            else
              some { s with
                collections := Function.update s.collections c.to
                  (some (slots ++ [(c.shadowVector, c.dimensions)]))
                copiers := { c with built := true } :: s.copiers.erase c }
      else none
  | .finishCopy c outstanding =>
      if c ∈ s.copiers ∧ c.built = true
          ∧ s.layers.any (fun row => row.id = c.layerId && row.holds c.claim)
              = true then
        some { s.alter Layer.copying (fun row =>
              copyFinished (s.waiting outstanding row) s.now row) with
          collection := c.to
          copiers := s.copiers.erase c }
      else none
  | .abandonCopy c =>
      if c ∈ s.copiers then some { s with copiers := s.copiers.erase c } else none
  | .failReindex l error =>
      s.alterFound (fun row => row.id = l && row.running) (reindexFailed error)
  | .observe l =>
      match s.layers.find? (fun row => row.id = l && row.live && row.embedding) with
      | none => none
      | some row =>
          row.reindexState.map fun st =>
            { s with observed := (l, st.shadowVector) :: s.observed }
  | .recordCheck l shadow passed =>
      if (l, shadow) ∈ s.observed then
        s.alterFound (migrating l shadow) (checkRecorded passed)
      else none
  | .finishReindexIfDone l shadow before outstanding =>
      if (l, shadow) ∈ s.observed ∧ outstanding = false then
        s.alterFound (fun row => migrating l shadow row && s.gateOpen row)
          (switched before s.now)
      else none
  | .forgetVector l => s.alterFound (fun row => row.id = l) vectorForgotten

-- ================================================== what one step can do

/-- Every step, with what it found and what it left: the inversion of
`step`. -/
inductive Stepped (cfg : Config) (s : World) : Action → World → Prop where
  | tick : Stepped cfg s .tick { s with now := s.now + 1 }
  | addProvider (p : Provider) (hown : p.own = true)
      (hnew : ∀ q ∈ s.providers, q.id ≠ p.id) :
      Stepped cfg s (.addProvider p) { s with providers := p :: s.providers }
  | removeProvider (id : ProviderId)
      (hfree : ∀ row ∈ s.layers, row.providerId ≠ id) :
      Stepped cfg s (.removeProvider id)
        { s with
          providers := s.providers.filter fun p => !(p.own && p.id = id) }
  | create (l : LayerId) (requested : Option ProviderId) (p : Provider)
      (startedAt : Time) (slots : Slots) (hp : p ∈ s.providers)
      (hnew : ∀ row ∈ s.layers, row.id ≠ l) (hpresent : s.present = some slots) :
      Stepped cfg s (.create l requested p startedAt)
        { s with
          layers := created l p (slots.names.contains p.vector) startedAt
            :: s.layers }
  | startEmbedding (l : LayerId) (p : Provider) (startedAt : Time)
      (hp : p ∈ s.providers) (hslot : s.hasSlot p.vector = true) :
      Stepped cfg s (.start l p.id startedAt)
        (s.alter (startable l p.vector) (started p .embedding startedAt))
  | startCopying (l : LayerId) (p : Provider) (startedAt : Time)
      (hp : p ∈ s.providers) (hslot : s.hasSlot p.vector = false)
      (hidle : ∀ row ∈ s.layers, row.live = true → row.copying = false) :
      Stepped cfg s (.start l p.id startedAt)
        (s.alter (startable l p.vector) (started p .copying startedAt))
  | remove (l : LayerId) :
      Stepped cfg s (.remove l)
        (s.alter (fun row => row.id = l && row.live) (removed s.now))
  | setReferences (layers : List LayerId) :
      Stepped cfg s (.setReferences layers) { s with references := layers }
  | claimCopyable (l : LayerId) (claim : Claim) (row : Layer)
      (st : ReindexState) (p : Provider) (hrow : row ∈ s.layers)
      (hid : row.id = l) (hst : row.reindexState = some st)
      (hcopy : row.copyable cfg.leaseSeconds s.now = true)
      (hp : p ∈ s.providers) (hpid : p.id = st.providerId)
      (hnew : claim ∉ s.claims) :
      Stepped cfg s (.claimCopyable l claim)
        { s.alter (fun r => r.id = l && r.copyable cfg.leaseSeconds s.now)
            (copyClaimed claim s.now) with
          copiers :=
            { layerId := l, collection := s.collection
              shadowVector := st.shadowVector
              dimensions := p.dimensions, claim
              startedAt := st.startedAt } :: s.copiers
          claims := claim :: s.claims }
  | renewCopyClaim (c : Copier) (hc : c ∈ s.copiers) :
      Stepped cfg s (.renewCopyClaim c)
        (s.alter (fun row => row.id = c.layerId && row.holds c.claim)
          (copyRenewed s.now))
  | copyCollection (c : Copier) (slots : Slots) (hc : c ∈ s.copiers)
      (hbuilt : c.built = false)
      (hslots : s.collections c.collection = some slots)
      (hnew : c.shadowVector ∉ slots.names) :
      Stepped cfg s (.copyCollection c)
        { s with
          collections := Function.update s.collections c.to
            (some (slots ++ [(c.shadowVector, c.dimensions)]))
          copiers := { c with built := true } :: s.copiers.erase c }
  | finishCopy (c : Copier) (outstanding : LayerId → String → Bool)
      (row : Layer) (hc : c ∈ s.copiers) (hbuilt : c.built = true)
      (hrow : row ∈ s.layers) (hid : row.id = c.layerId)
      (hholds : row.holds c.claim = true) :
      Stepped cfg s (.finishCopy c outstanding)
        { s.alter Layer.copying (fun row =>
              copyFinished (s.waiting outstanding row) s.now row) with
          collection := c.to
          copiers := s.copiers.erase c }
  | abandonCopy (c : Copier) (hc : c ∈ s.copiers) :
      Stepped cfg s (.abandonCopy c) { s with copiers := s.copiers.erase c }
  | failReindex (l : LayerId) (error : String) :
      Stepped cfg s (.failReindex l error)
        (s.alter (fun row => row.id = l && row.running) (reindexFailed error))
  | observe (l : LayerId) (row : Layer) (st : ReindexState)
      (hrow : row ∈ s.layers) (hid : row.id = l) (hlive : row.live = true)
      (hst : row.reindexState = some st) (hphase : row.embedding = true) :
      Stepped cfg s (.observe l)
        { s with observed := (l, st.shadowVector) :: s.observed }
  | recordCheck (l : LayerId) (shadow : String) (passed : Bool)
      (hseen : (l, shadow) ∈ s.observed) :
      Stepped cfg s (.recordCheck l shadow passed)
        (s.alter (migrating l shadow) (checkRecorded passed))
  | finishReindexIfDone (l : LayerId) (shadow before : String)
      (hseen : (l, shadow) ∈ s.observed) :
      Stepped cfg s (.finishReindexIfDone l shadow before false)
        (s.alter (fun row => migrating l shadow row && s.gateOpen row)
          (switched before s.now))
  | forgetVector (l : LayerId) :
      Stepped cfg s (.forgetVector l)
        (s.alter (fun row => row.id = l) vectorForgotten)

theorem mem_alter {s : World} {sel : Layer → Bool} {set : Layer → Layer}
    {row : Layer} :
    row ∈ (s.alter sel set).layers
      ↔ (row ∈ s.layers ∧ sel row = false)
        ∨ ∃ old ∈ s.layers, sel old = true ∧ row = set old := by
  simp only [World.alter, List.mem_map]
  constructor
  · intro hex
    obtain ⟨old, hold, rfl⟩ := hex
    cases hsel : sel old with
    | true => exact Or.inr ⟨old, hold, hsel, by simp⟩
    | false => exact Or.inl ⟨by simpa using hold, by simpa using hsel⟩
  · intro hor
    rcases hor with ⟨hrow, hsel⟩ | ⟨old, hold, hsel, rfl⟩
    · exact ⟨row, hrow, by simp [hsel]⟩
    · exact ⟨old, hold, by simp [hsel]⟩

theorem alterFound_eq {s s' : World} {sel : Layer → Bool}
    {set : Layer → Layer} (h : s.alterFound sel set = some s') :
    s' = s.alter sel set := by
  unfold World.alterFound at h
  split at h
  case isTrue => exact (Option.some.inj h).symm
  case isFalse => cases h

theorem hasSlot_iff {s : World} {name : String} :
    s.hasSlot name = true
      ↔ ∃ slots, s.present = some slots ∧ name ∈ slots.names := by
  simp [World.hasSlot, Option.any_eq_true]

/-- What a lookup among the slots says about the names. -/
theorem lookup_isSome {slots : Slots} {name : String} :
    (slots.lookup name).isSome = true ↔ name ∈ slots.names := by
  induction slots with
  | nil => simp [Slots.names]
  | cons slot rest ih =>
      obtain ⟨key, width⟩ := slot
      rw [List.lookup_cons]
      by_cases h : name = key
      · simp [h, Slots.names]
      · simp only [Slots.names] at ih
        simp [beq_false_of_ne h, h, ih, Slots.names]

theorem step_inv {cfg : Config} {s s' : World} {a : Action}
    (h : step cfg s a = some s') : Stepped cfg s a s' := by
  cases a with
  | tick =>
      cases h
      exact .tick
  | addProvider p =>
      simp only [step] at h
      split at h
      next hguard =>
        cases h
        simp only [Bool.and_eq_true, List.all_eq_true, decide_eq_true_eq] at hguard
        exact .addProvider p hguard.1 hguard.2
      next => cases h
  | removeProvider id =>
      simp only [step] at h
      split at h
      next hguard =>
        cases h
        simp only [Bool.and_eq_true, List.all_eq_true, decide_eq_true_eq] at hguard
        exact .removeProvider id hguard.2
      next => cases h
  | create l requested p startedAt =>
      simp only [step] at h
      split at h
      next hguard =>
        simp only [Bool.and_eq_true, List.all_eq_true, decide_eq_true_eq,
          eligible] at hguard
        obtain ⟨slots, hpresent, rfl⟩ := Option.map_eq_some_iff.1 h
        exact .create l requested p startedAt slots hguard.1.1 hguard.2 hpresent
      next => cases h
  | start l providerId startedAt =>
      simp only [step] at h
      split at h
      next p slots hp hpresent =>
        have hmem : p ∈ s.providers := List.mem_of_find?_eq_some hp
        have hid : p.id = providerId := by simpa using List.find?_some hp
        subst hid
        split at h
        next width hwidth =>
          have hslot : s.hasSlot p.vector = true :=
            hasSlot_iff.2 ⟨slots, hpresent, lookup_isSome.1 (by simp [hwidth])⟩
          split at h
          next =>
            rw [alterFound_eq h]
            exact .startEmbedding l p startedAt hmem hslot
          next => cases h
        next hwidth =>
          have hslot : s.hasSlot p.vector = false := by
            rw [Bool.eq_false_iff]
            intro hslot
            obtain ⟨slots', hpresent', hname⟩ := hasSlot_iff.1 hslot
            cases hpresent.symm.trans hpresent'
            have := lookup_isSome.2 hname
            rw [hwidth] at this
            cases this
          split at h
          next => cases h
          next hidle =>
            rw [alterFound_eq h]
            refine .startCopying l p startedAt hmem hslot ?_
            intro row hrow hlive
            rw [Bool.eq_false_iff]
            intro hcopying
            exact hidle (List.any_eq_true.2 ⟨row, hrow, by simp [hlive, hcopying]⟩)
      next => cases h
  | remove l =>
      rw [alterFound_eq h]
      exact .remove l
  | setReferences layers =>
      cases h
      exact .setReferences layers
  | claimCopyable l claim =>
      simp only [step] at h
      split at h
      next => cases h
      next row hrow =>
        have hmem : row ∈ s.layers := List.mem_of_find?_eq_some hrow
        have hsel := List.find?_some hrow
        simp only [Bool.and_eq_true, decide_eq_true_eq] at hsel
        split at h
        next => cases h
        next st hst =>
          split at h
          next => cases h
          next p hp =>
            split at h
            next => cases h
            next hnew =>
              cases h
              exact .claimCopyable l claim row st p hmem hsel.1 hst hsel.2
                (List.mem_of_find?_eq_some hp) (by simpa using List.find?_some hp)
                hnew
  | renewCopyClaim c =>
      simp only [step] at h
      split at h
      next hc =>
        rw [alterFound_eq h]
        exact .renewCopyClaim c hc
      next => cases h
  | copyCollection c =>
      simp only [step] at h
      split at h
      next hguard =>
        split at h
        next => cases h
        next slots hslots =>
          split at h
          next => cases h
          next hnew =>
            cases h
            exact .copyCollection c slots hguard.1 hguard.2 hslots
              (by simpa using hnew)
      next => cases h
  | finishCopy c outstanding =>
      simp only [step] at h
      split at h
      next hguard =>
        cases h
        obtain ⟨hc, hbuilt, hany⟩ := hguard
        obtain ⟨row, hrow, hsel⟩ := List.any_eq_true.1 hany
        simp only [Bool.and_eq_true, decide_eq_true_eq] at hsel
        exact .finishCopy c outstanding row hc hbuilt hrow hsel.1 hsel.2
      next => cases h
  | abandonCopy c =>
      simp only [step] at h
      split at h
      next hc =>
        cases h
        exact .abandonCopy c hc
      next => cases h
  | failReindex l error =>
      rw [alterFound_eq h]
      exact .failReindex l error
  | observe l =>
      simp only [step] at h
      split at h
      next => cases h
      next row hrow =>
        obtain ⟨st, hst, rfl⟩ := Option.map_eq_some_iff.1 h
        have hsel := List.find?_some hrow
        simp only [Bool.and_eq_true, decide_eq_true_eq] at hsel
        exact .observe l row st (List.mem_of_find?_eq_some hrow) hsel.1.1
          hsel.1.2 hst hsel.2
  | recordCheck l shadow passed =>
      simp only [step] at h
      split at h
      next hseen =>
        rw [alterFound_eq h]
        exact .recordCheck l shadow passed hseen
      next => cases h
  | finishReindexIfDone l shadow before outstanding =>
      simp only [step] at h
      split at h
      next hguard =>
        rw [alterFound_eq h]
        obtain ⟨hseen, rfl⟩ := hguard
        exact .finishReindexIfDone l shadow before hseen
      next => cases h
  | forgetVector l =>
      rw [alterFound_eq h]
      exact .forgetVector l

-- ============================================================== one layer

theorem layer?_alter {s : World} {sel : Layer → Bool} {set : Layer → Layer}
    (hid : ∀ row, (set row).id = row.id) (l : LayerId) :
    (s.alter sel set).layer? l
      = (s.layer? l).map fun row => if sel row then set row else row := by
  unfold World.layer? World.alter
  rw [List.find?_map]
  congr 2
  funext row
  show decide ((if sel row then set row else row).id = l) = decide (row.id = l)
  split
  next => rw [hid]
  next => rfl

/-- The name a layer's documents are under. -/
def World.nameOf (s : World) (l : LayerId) : Option String :=
  (s.layer? l).map Layer.vectorName

theorem nameOf_alter {s : World} {sel : Layer → Bool} {set : Layer → Layer}
    (hset : KeepsName set) (l : LayerId) :
    (s.alter sel set).nameOf l = s.nameOf l := by
  unfold World.nameOf
  rw [layer?_alter hset.id, Option.map_map]
  congr 1
  funext row
  show (if sel row then set row else row).vectorName = row.vectorName
  split
  next => exact hset.vectorName row
  next => rfl

/-- The actions that may move a layer onto another slot. -/
def Action.switches : Action → Bool
  | .finishCopy .. | .finishReindexIfDone .. => true
  | _ => false

theorem switches_of_pure {a : Action} (h : a.pure = true) :
    a.switches = false := by
  cases a with
  | finishCopy c outstanding => cases h
  | finishReindexIfDone l shadow before outstanding => cases h
  | _ => rfl

/-- A step that switches nothing leaves every layer's name; it may add a
layer. -/
theorem Stepped.nameOf {cfg : Config} {s s' : World} {a : Action}
    (hs : Stepped cfg s a s') (ha : a.switches = false)
    (l : LayerId) : s'.nameOf l = s.nameOf l ∨ s.nameOf l = none := by
  cases hs with
  | tick => exact Or.inl rfl
  | addProvider p hown hnew => exact Or.inl rfl
  | removeProvider id hfree => exact Or.inl rfl
  | create l' requested p startedAt slots hp hnew hpresent =>
      by_cases hl : l = l'
      · subst hl
        right
        unfold World.nameOf World.layer?
        rw [Option.map_eq_none_iff, List.find?_eq_none]
        intro row hrow
        simpa using hnew row hrow
      · left
        unfold World.nameOf World.layer?
        rw [List.find?_cons_of_neg]
        show ¬ decide (l' = l) = true
        simpa using fun h => hl h.symm
  | startEmbedding l' p startedAt hp hslot =>
      exact Or.inl (nameOf_alter (keepsName_started p _ startedAt) l)
  | startCopying l' p startedAt hp hslot hidle =>
      exact Or.inl (nameOf_alter (keepsName_started p _ startedAt) l)
  | remove l' => exact Or.inl (nameOf_alter (keepsName_removed s.now) l)
  | setReferences layers => exact Or.inl rfl
  | claimCopyable l' claim row st p hrow hid hst hcopy hp hpid hnew =>
      exact Or.inl (nameOf_alter (s := s) (keepsName_mapState _) l)
  | renewCopyClaim c hc => exact Or.inl (nameOf_alter (keepsName_mapState _) l)
  | copyCollection c slots hc hb hslots hnew => exact Or.inl rfl
  | finishCopy c outstanding row hc hb hrow hid hholds =>
      cases ha
  | abandonCopy c hc => exact Or.inl rfl
  | failReindex l' error => exact Or.inl (nameOf_alter (keepsName_mapState _) l)
  | observe l' row st hrow hid hlive hst hphase => exact Or.inl rfl
  | recordCheck l' shadow passed hseen =>
      exact Or.inl (nameOf_alter (keepsName_mapState _) l)
  | finishReindexIfDone l' shadow before hseen =>
      cases ha
  | forgetVector l' => exact Or.inl (nameOf_alter (keepsName_mapState _) l)

/-- Rows stay: no step takes a layer away. -/
theorem Stepped.layer_stays {cfg : Config} {s s' : World} {a : Action}
    (hs : Stepped cfg s a s') {l : LayerId} (h : (s.nameOf l).isSome = true) :
    (s'.nameOf l).isSome = true := by
  cases hswitch : a.switches with
  | false =>
      rcases hs.nameOf hswitch l with heq | hnone
      · rw [heq]
        exact h
      · rw [hnone] at h
        cases h
  | true =>
      unfold World.nameOf at h ⊢
      rw [Option.isSome_map] at h ⊢
      cases hs with
      | finishCopy c outstanding row hc hb hrow hid hholds =>
          show ((s.alter _ _).layer? l).isSome = true
          rw [layer?_alter fun _ => copyFinished_id, Option.isSome_map]
          exact h
      | finishReindexIfDone l' shadow before hseen =>
          rw [layer?_alter fun _ => switched_id, Option.isSome_map]
          exact h
      | _ => cases hswitch

/-- What a switch does to the names: one layer may move to the slot. -/
theorem nameOf_switched (s : World) (l : LayerId) (shadow before : String)
    (l' : LayerId) :
    (s.alter (fun row => migrating l shadow row && s.gateOpen row)
        (switched before s.now)).nameOf l' = s.nameOf l'
      ∨ l' = l ∧ (s.alter (fun row => migrating l shadow row && s.gateOpen row)
        (switched before s.now)).nameOf l' = some shadow := by
  unfold World.nameOf
  rw [layer?_alter fun _ => switched_id]
  cases hrow : s.layer? l' with
  | none => exact Or.inl rfl
  | some row =>
      cases hsel : migrating l shadow row && s.gateOpen row with
      | false =>
          left
          rw [Option.map_some, Option.map_some, hsel]
          rfl
      | true =>
          right
          obtain ⟨hmig, -⟩ := Bool.and_eq_true_iff.1 hsel
          simp only [migrating, Bool.and_eq_true, decide_eq_true_eq,
            Option.any_eq_true] at hmig
          obtain ⟨hid, st, hst, -, hshadow⟩ := hmig
          have hid' : row.id = l' := by simpa using List.find?_some hrow
          refine ⟨hid'.symm.trans hid, ?_⟩
          rw [Option.map_some, Option.map_some, if_pos hsel]
          unfold switched
          rw [hst]
          exact congrArg some hshadow

/-- What a finished copy does to the names: a layer that waits for
nothing moves to its slot. -/
theorem nameOf_copyFinished {s : World} {waiting : Layer → Bool} {now : Time}
    {l : LayerId} :
    (s.alter Layer.copying fun row => copyFinished (waiting row) now row).nameOf l
        = s.nameOf l
      ∨ ∃ row st, s.layer? l = some row ∧ row.reindexState = some st
        ∧ st.copying = true ∧ waiting row = false
        ∧ (s.alter Layer.copying fun row =>
            copyFinished (waiting row) now row).nameOf l = some st.shadowVector := by
  unfold World.nameOf
  rw [layer?_alter fun _ => copyFinished_id]
  cases hrow : s.layer? l with
  | none => exact Or.inl rfl
  | some row =>
      cases hcopying : row.copying with
      | false =>
          left
          simp [hcopying]
      | true =>
          obtain ⟨st, hst, hstatus, hphase⟩ := copying_iff.1 hcopying
          cases hwaiting : waiting row with
          | true =>
              left
              simp [hcopying, copyFinished, hst, hwaiting]
          | false =>
              right
              refine ⟨row, st, rfl, hst, ?_, hwaiting, ?_⟩
              · simp [ReindexState.copying, hstatus, hphase]
              · simp [hcopying, copyFinished, hst, hwaiting]

/-- No two rows have the same id. -/
def World.Distinct (s : World) : Prop := (s.layers.map Layer.id).Nodup

theorem distinct_alter {s : World} {sel : Layer → Bool} {set : Layer → Layer}
    (hid : ∀ row, (set row).id = row.id) (h : s.Distinct) :
    (s.alter sel set).Distinct := by
  unfold World.Distinct World.alter at *
  rw [List.map_map]
  have hsame : (Layer.id ∘ fun row => if sel row then set row else row) = Layer.id := by
    funext row
    show (if sel row then set row else row).id = row.id
    split
    next => exact hid row
    next => rfl
  rw [hsame]
  exact h

theorem Stepped.distinct {cfg : Config} {s s' : World} {a : Action}
    (hs : Stepped cfg s a s') (h : s.Distinct) : s'.Distinct := by
  cases hs with
  | create l requested p startedAt slots hp hnew hpresent =>
      unfold World.Distinct
      rw [List.map_cons, List.nodup_cons]
      refine ⟨?_, h⟩
      intro hmem
      obtain ⟨row, hrow, hid⟩ := List.mem_map.1 hmem
      exact hnew row hrow hid
  | startEmbedding l p startedAt hp hslot => exact distinct_alter (fun _ => rfl) h
  | startCopying l p startedAt hp hslot hidle => exact distinct_alter (fun _ => rfl) h
  | remove l => exact distinct_alter (fun _ => rfl) h
  | claimCopyable l claim row st p hrow hid hst hcopy hp hpid hnew =>
      exact distinct_alter (s := s) (fun _ => rfl) h
  | renewCopyClaim c hc => exact distinct_alter (fun _ => rfl) h
  | finishCopy c outstanding row hc hb hrow hid hholds =>
      exact distinct_alter (s := s) (fun _ => copyFinished_id) h
  | failReindex l error => exact distinct_alter (fun _ => rfl) h
  | recordCheck l shadow passed hseen => exact distinct_alter (fun _ => rfl) h
  | finishReindexIfDone l shadow before hseen =>
      exact distinct_alter (fun _ => switched_id) h
  | forgetVector l => exact distinct_alter (fun _ => rfl) h
  | _ => exact h

/-- A row is the one its id names. -/
theorem Distinct.layer? {s : World} (h : s.Distinct) {row : Layer}
    (hrow : row ∈ s.layers) : s.layer? row.id = some row := by
  unfold World.layer?
  unfold World.Distinct at h
  cases hfound : s.layers.find? (·.id = row.id) with
  | none =>
      rw [List.find?_eq_none] at hfound
      simpa using hfound row hrow
  | some row' =>
      have hid : row'.id = row.id := by simpa using List.find?_some hfound
      have hmem := List.mem_of_find?_eq_some hfound
      rw [List.inj_on_of_nodup_map h hmem hrow hid]

/-- What `start` found: a row of the layer, with no reindex running. -/
theorem start_found {cfg : Config} {s s' : World} {l : LayerId}
    {providerId : ProviderId} {startedAt : Time}
    (h : step cfg s (.start l providerId startedAt) = some s') :
    ∃ row ∈ s.layers, row.id = l ∧ row.running = false := by
  have hany : ∀ {v : String} {set : Layer → Layer},
      s.alterFound (startable l v) set = some s' →
        ∃ row ∈ s.layers, row.id = l ∧ row.running = false := by
    intro v set hfound
    unfold World.alterFound at hfound
    split at hfound
    next hsome =>
      obtain ⟨row, hrow, hsel⟩ := List.any_eq_true.1 hsome
      simp only [startable, Bool.and_eq_true, decide_eq_true_eq,
        Bool.not_eq_true'] at hsel
      exact ⟨row, hrow, hsel.1.1.1, hsel.1.2⟩
    next => cases hfound
  simp only [step] at h
  split at h
  next p slots hp hpresent =>
    split at h
    next =>
      split at h
      next => exact hany h
      next => cases h
    next =>
      split at h
      next => cases h
      next => exact hany h
  next => cases h

/-- Only a finished copy moves the pointer. -/
theorem Stepped.collection {cfg : Config} {s s' : World} {a : Action}
    (hs : Stepped cfg s a s')
    (ha : ∀ c outstanding, a ≠ .finishCopy c outstanding) :
    s'.collection = s.collection := by
  cases hs with
  | finishCopy c outstanding row hc hb hrow hid hholds =>
      exact absurd rfl (ha c outstanding)
  | _ => rfl

theorem collection_of_pure {cfg : Config} {s s' : World} {a : Action}
    (hs : Stepped cfg s a s') (ha : a.pure = true) :
    s'.collection = s.collection := by
  apply hs.collection
  intro c outstanding heq
  subst heq
  cases ha

end Nacre.Layers
