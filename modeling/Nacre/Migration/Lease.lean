/-
Several workers over one layer that waits for a copy: the lease, the
fencing token, and what they do not fence (worker/src/main.ts `copyOnce`,
worker/src/adapters.ts `claimCopyable`, `renewCopyClaim`, `finishCopy`,
`failReindex`, core/vector/search.ts `copyCollection`).

# What is a step

A worker's run is cut at every request it makes. A point is its id here:
what it carries moves with it. `throughout` is a ghost: the points the
source has held ever since the worker's scroll began. `stray` is one
too: the collections that, since they were last made by the worker that
held the claim, were deleted, made or written to by one that did not.

An error can meet a worker anywhere between its claim and `finishCopy`;
a worker can stop anywhere.

# Where the token does not reach

The token is asked by `renewCopyClaim` and `finishCopy`, the vector
store is not. Every claimant of a layer copies to the same name, and
asks for its claim at most every thirty seconds: one that stalled past
its lease deletes or writes to what another has built, also once it is
live (`deleted_by_stalled`), and one that stalls between the renewal of
its error path and `failReindex` fails another's migration.

`Punctual` is the condition on a run: a worker's writes come before its
lease, as it last renewed it, has run out.
-/
import Nacre.Lib.Transition
import Nacre.Store.Layers

namespace Nacre.Lease

open Nacre.Store Transition

-- ================================================================= state

/-- How far a worker is with its target. -/
inductive Stage where
  | claimed
  /-- The target is deleted and not made again. -/
  | deleted
  /-- The offset of the next page, the page read and not yet upserted,
  and whether there is more. -/
  | copying (offset : Option PointId) (page : List PointId) (more : Bool)
  /-- `onProgress`, after a page. -/
  | renewing (offset : Option PointId) (more : Bool)
  /-- An error was caught. -/
  | failing
  /-- And the claim was still this worker's. -/
  | ours
  deriving DecidableEq

/-- A worker in `copyOnce`, with what it read when it claimed. -/
structure Worker where
  claim : Claim
  collection : String
  shadowVector : String
  /-- When the lease was last written: by the claim or a renewal. -/
  leasedAt : Time
  /-- `renewedAt`, by which `renew` is throttled. -/
  renewedAt : Time
  stage : Stage := .claimed
  throughout : List PointId := []
  deriving DecidableEq

/-- The collection a copy makes. -/
def Worker.to (w : Worker) : String := w.collection ++ "_" ++ w.shadowVector

structure World where
  now : Time
  layer : Layer
  /-- `organizations.vector_collection`. -/
  pointer : String
  collections : String → Option (List PointId)
  workers : List Worker
  /-- Every `copy_claim` handed out. -/
  claims : List Claim
  /-- The collections that were ever live. -/
  lived : List String
  stray : List String

/-- A layer nobody has claimed. -/
def init (s : World) : Prop :=
  ∃ now layer pointer collections, layer.reindexState.bind (·.copyClaim) = none
    ∧ s = { now, layer, pointer, collections, workers := [], claims := []
            lived := [pointer], stray := [] }

structure Config where
  leaseSeconds : Nat

/-- `renew` asks at most this often. -/
def RENEW_SECONDS : Nat := 30

inductive Action where
  | tick
  | start (p : Provider)
  /-- The writers of the live collection, or of one that was. -/
  | put (collection : String) (id : PointId)
  | remove (collection : String) (id : PointId)
  | claimCopyable (claim : Claim)
  | deleteCollection (w : Worker)
  | createCollection (w : Worker)
  | scroll (w : Worker) (next : Option PointId)
  | upsert (w : Worker)
  | renew (w : Worker)
  | finishCopy (w : Worker) (waiting : Bool)
  | throw (w : Worker)
  | renewCopyClaim (w : Worker)
  | failReindex (w : Worker) (error : String)
  | stop (w : Worker)

-- ============================================================ small writes

def World.swap (s : World) (w w' : Worker) : World :=
  { s with workers := w' :: s.workers.erase w }

def World.leave (s : World) (w : Worker) : World :=
  { s with workers := s.workers.erase w }

/-- A request that deletes, makes or writes to the worker's target. -/
def World.write (s : World) (w : Worker) (ids : Option (List PointId)) : World :=
  { s with
    collections := Function.update s.collections w.to ids
    stray :=
      if s.layer.holds w.claim then s.stray else w.to :: s.stray }

/-- The holder makes the target anew. -/
def World.renewed (s : World) (w : Worker) : World :=
  { s with
    stray := if s.layer.holds w.claim then s.stray.filter (· ≠ w.to) else s.stray }

/-- One page: the ids from `offset` on, up to `next`. -/
def page (ids : List PointId) (offset next : Option PointId) : List PointId :=
  ids.filter fun id => offset.all (· ≤ id) && next.all (id < ·)

/-- What a worker is after a point left a collection. -/
def Worker.without (collection : String) (id : PointId) (w : Worker) : Worker :=
  if w.collection = collection then
    { w with throughout := w.throughout.filter (· ≠ id) }
  else w

/-- A point leaves a collection: no copy of it has held it throughout. -/
def World.forget (s : World) (collection : String) (id : PointId) : World :=
  { s with workers := s.workers.map (Worker.without collection id) }

def step (cfg : Config) (s : World) : Action → Option World
  | .tick => some { s with now := s.now + 1 }
  | .start p =>
      if s.layer.live = true ∧ s.layer.running = false
          ∧ s.layer.vectorName ≠ p.vector then
        some { s with layer := started p .copying s.now s.layer }
      else none
  | .put collection id =>
      match s.collections collection with
      | none => none
      | some ids =>
          if collection ∈ s.lived then
            some { s with
              collections := Function.update s.collections collection
                (some (id :: ids)) }
          else none
  | .remove collection id =>
      match s.collections collection with
      | none => none
      | some ids =>
          if collection ∈ s.lived then
            some { s.forget collection id with
              collections := Function.update s.collections collection
                (some (ids.filter (· ≠ id))) }
          else none
  | .claimCopyable claim =>
      match s.layer.reindexState with
      | none => none
      | some st =>
          if s.layer.copyable cfg.leaseSeconds s.now = true ∧ claim ∉ s.claims then
            some { s with
              layer := copyClaimed claim s.now s.layer
              claims := claim :: s.claims
              workers :=
                { claim, collection := s.pointer, shadowVector := st.shadowVector
                  leasedAt := s.now, renewedAt := s.now } :: s.workers }
          else none
  | .deleteCollection w =>
      if w ∈ s.workers ∧ w.stage = .claimed then
        some ((s.swap w { w with stage := .deleted }).write w none)
      else none
  | .createCollection w =>
      match s.collections w.to, s.collections w.collection with
      | none, some ids =>
          if w ∈ s.workers ∧ w.stage = .deleted then
            some (((s.swap w
                { w with stage := .copying none [] true, throughout := ids }).write w
              (some [])).renewed w)
          else none
      | _, _ => none
  | .scroll w next =>
      match w.stage, s.collections w.collection with
      | .copying offset [] true, some ids =>
          if w ∈ s.workers ∧ ∀ o ∈ offset, ∀ n ∈ next, o ≤ n then
            some (s.swap w
              { w with stage := .copying next (page ids offset next) next.isSome })
          else none
      | _, _ => none
  | .upsert w =>
      match w.stage, s.collections w.to with
      | .copying offset (id :: rest) more, some ids =>
          if w ∈ s.workers then
            some ((s.swap w { w with stage := .renewing offset more }).write w
              (some (id :: rest ++ ids)))
          else none
      | _, _ => none
  | .renew w =>
      match w.stage with
      | .renewing offset more =>
          if w ∈ s.workers then
            if s.now < w.renewedAt + RENEW_SECONDS then
              some (s.swap w { w with stage := .copying offset [] more })
            else if s.layer.holds w.claim then
              some { s.swap w
                  { w with
                    stage := .copying offset [] more
                    leasedAt := s.now, renewedAt := s.now } with
                layer := copyRenewed s.now s.layer }
            -- `lost`: another worker holds the claim
            else some (s.leave w)
          else none
      | _ => none
  | .finishCopy w waiting =>
      match w.stage with
      | .copying _ [] false =>
          if w ∈ s.workers then
            if s.layer.holds w.claim then
              some { s.leave w with
                layer := copyFinished waiting s.now s.layer
                pointer := w.to
                lived := w.to :: s.lived }
            else some (s.leave w)
          else none
      | _ => none
  | .throw w =>
      if w ∈ s.workers ∧ w.stage ≠ .failing ∧ w.stage ≠ .ours then
        some (s.swap w { w with stage := .failing })
      else none
  | .renewCopyClaim w =>
      if w ∈ s.workers ∧ w.stage = .failing then
        if s.layer.holds w.claim then
          some { s.swap w { w with stage := .ours, leasedAt := s.now } with
            layer := copyRenewed s.now s.layer }
        else some (s.leave w)
      else none
  | .failReindex w error =>
      if w ∈ s.workers ∧ w.stage = .ours then
        some { s.leave w with
          layer := if s.layer.running then reindexFailed error s.layer else s.layer }
      else none
  | .stop w => if w ∈ s.workers then some (s.leave w) else none

variable {cfg : Config} {s s' : World}

-- =============================================================== one step

/-- What a step can do, with what it found. -/
inductive Stepped (cfg : Config) (s : World) : Action → World → Prop
  | tick : Stepped cfg s .tick { s with now := s.now + 1 }
  | start (p : Provider) (hrest : s.layer.running = false) :
      Stepped cfg s (.start p) { s with layer := started p .copying s.now s.layer }
  | put (collection : String) (id : PointId) (ids : List PointId)
      (hids : s.collections collection = some ids) (hlived : collection ∈ s.lived) :
      Stepped cfg s (.put collection id)
        { s with
          collections := Function.update s.collections collection (some (id :: ids)) }
  | remove (collection : String) (id : PointId) (ids : List PointId)
      (hids : s.collections collection = some ids) (hlived : collection ∈ s.lived) :
      Stepped cfg s (.remove collection id)
        { s.forget collection id with
          collections := Function.update s.collections collection
            (some (ids.filter (· ≠ id))) }
  | claimCopyable (claim : Claim) (st : ReindexState)
      (hcopyable : s.layer.copyable cfg.leaseSeconds s.now = true)
      (hfresh : claim ∉ s.claims) :
      Stepped cfg s (.claimCopyable claim)
        { s with
          layer := copyClaimed claim s.now s.layer
          claims := claim :: s.claims
          workers :=
            { claim, collection := s.pointer, shadowVector := st.shadowVector
              leasedAt := s.now, renewedAt := s.now } :: s.workers }
  | deleteCollection (w : Worker) (hw : w ∈ s.workers) :
      Stepped cfg s (.deleteCollection w)
        ((s.swap w { w with stage := .deleted }).write w none)
  | createCollection (w : Worker) (ids : List PointId) (hw : w ∈ s.workers)
      (hids : s.collections w.collection = some ids) :
      Stepped cfg s (.createCollection w)
        (((s.swap w
            { w with stage := .copying none [] true, throughout := ids }).write w
          (some [])).renewed w)
  | scroll (w : Worker) (next offset : Option PointId) (ids : List PointId)
      (hw : w ∈ s.workers) (hstage : w.stage = .copying offset [] true)
      (hids : s.collections w.collection = some ids)
      (hforward : ∀ o ∈ offset, ∀ n ∈ next, o ≤ n) :
      Stepped cfg s (.scroll w next)
        (s.swap w
          { w with stage := .copying next (page ids offset next) next.isSome })
  | upsert (w : Worker) (offset : Option PointId) (page : List PointId) (more : Bool)
      (ids : List PointId) (hw : w ∈ s.workers)
      (hstage : w.stage = .copying offset page more)
      (hids : s.collections w.to = some ids) :
      Stepped cfg s (.upsert w)
        ((s.swap w { w with stage := .renewing offset more }).write w
          (some (page ++ ids)))
  | throttled (w : Worker) (offset : Option PointId) (more : Bool) (hw : w ∈ s.workers)
      (hstage : w.stage = .renewing offset more) :
      Stepped cfg s (.renew w) (s.swap w { w with stage := .copying offset [] more })
  | renew (w : Worker) (offset : Option PointId) (more : Bool) (hw : w ∈ s.workers)
      (hstage : w.stage = .renewing offset more)
      (hholds : s.layer.holds w.claim = true) :
      Stepped cfg s (.renew w)
        { s.swap w
            { w with
              stage := .copying offset [] more
              leasedAt := s.now, renewedAt := s.now } with
          layer := copyRenewed s.now s.layer }
  | finishCopy (w : Worker) (waiting : Bool) (offset : Option PointId)
      (hw : w ∈ s.workers) (hstage : w.stage = .copying offset [] false)
      (hholds : s.layer.holds w.claim = true) :
      Stepped cfg s (.finishCopy w waiting)
        { s.leave w with
          layer := copyFinished waiting s.now s.layer
          pointer := w.to
          lived := w.to :: s.lived }
  | throw (w : Worker) (hw : w ∈ s.workers) :
      Stepped cfg s (.throw w) (s.swap w { w with stage := .failing })
  | renewCopyClaim (w : Worker) (hw : w ∈ s.workers)
      (hholds : s.layer.holds w.claim = true) :
      Stepped cfg s (.renewCopyClaim w)
        { s.swap w { w with stage := .ours, leasedAt := s.now } with
          layer := copyRenewed s.now s.layer }
  | failReindex (w : Worker) (error : String) (hw : w ∈ s.workers) :
      Stepped cfg s (.failReindex w error)
        { s.leave w with
          layer := if s.layer.running then reindexFailed error s.layer else s.layer }
  /-- Stopped, or refused by the token. -/
  | leave (a : Action) (w : Worker) (hw : w ∈ s.workers)
      (hfinish : ∀ v waiting, a = .finishCopy v waiting → s.layer.holds v.claim = false)
      (hfail : ∀ v error, a ≠ .failReindex v error) :
      Stepped cfg s a (s.leave w)

theorem step_inv {a : Action} (h : step cfg s a = some s') : Stepped cfg s a s' := by
  cases a with
  | tick =>
      cases h
      exact .tick
  | start p =>
      simp only [step, Option.ite_none_right_eq_some] at h
      obtain ⟨⟨-, hrest, -⟩, h⟩ := h
      cases h
      exact .start p hrest
  | put collection id =>
      simp only [step] at h
      split at h
      next => cases h
      next ids hids =>
        rw [Option.ite_none_right_eq_some] at h
        cases h.2
        exact .put collection id ids hids h.1
  | remove collection id =>
      simp only [step] at h
      split at h
      next => cases h
      next ids hids =>
        rw [Option.ite_none_right_eq_some] at h
        cases h.2
        exact .remove collection id ids hids h.1
  | claimCopyable claim =>
      simp only [step] at h
      split at h
      next => cases h
      next st hst =>
        rw [Option.ite_none_right_eq_some] at h
        obtain ⟨⟨hcopyable, hfresh⟩, h⟩ := h
        cases h
        exact .claimCopyable claim st hcopyable hfresh
  | deleteCollection w =>
      simp only [step, Option.ite_none_right_eq_some] at h
      cases h.2
      exact .deleteCollection w h.1.1
  | createCollection w =>
      simp only [step] at h
      split at h
      next ids hto hids =>
        rw [Option.ite_none_right_eq_some] at h
        cases h.2
        exact .createCollection w ids h.1.1 hids
      next => cases h
  | scroll w next =>
      simp only [step] at h
      split at h
      next offset ids hstage hids =>
        rw [Option.ite_none_right_eq_some] at h
        obtain ⟨⟨hw, hforward⟩, h⟩ := h
        cases h
        exact .scroll w next offset ids hw hstage hids hforward
      next => cases h
  | upsert w =>
      simp only [step] at h
      split at h
      next offset id rest more ids hstage hids =>
        rw [Option.ite_none_right_eq_some] at h
        cases h.2
        exact .upsert w offset (id :: rest) more ids h.1 hstage hids
      next => cases h
  | renew w =>
      simp only [step] at h
      split at h
      case h_1 offset more hstage =>
        rw [Option.ite_none_right_eq_some] at h
        obtain ⟨hw, h⟩ := h
        split at h
        · cases h
          exact .throttled w offset more hw hstage
        · split at h
          next hholds =>
            cases h
            exact .renew w offset more hw hstage hholds
          next =>
            cases h
            exact .leave _ w hw (fun _ _ h => nomatch h) fun _ _ h => nomatch h
      case h_2 => cases h
  | finishCopy w waiting =>
      simp only [step] at h
      split at h
      case h_1 offset hstage =>
        rw [Option.ite_none_right_eq_some] at h
        obtain ⟨hw, h⟩ := h
        split at h
        next hholds =>
          cases h
          exact .finishCopy w waiting offset hw hstage hholds
        next hlost =>
          cases h
          refine .leave _ w hw (fun v waiting' heq => ?_) fun _ _ h => nomatch h
          cases heq
          exact Bool.eq_false_iff.2 hlost
      case h_2 => cases h
  | throw w =>
      simp only [step, Option.ite_none_right_eq_some] at h
      cases h.2
      exact .throw w h.1.1
  | renewCopyClaim w =>
      simp only [step, Option.ite_none_right_eq_some] at h
      obtain ⟨⟨hw, -⟩, h⟩ := h
      split at h
      next hholds =>
        cases h
        exact .renewCopyClaim w hw hholds
      next =>
        cases h
        exact .leave _ w hw (fun _ _ h => nomatch h) fun _ _ h => nomatch h
  | failReindex w error =>
      simp only [step, Option.ite_none_right_eq_some] at h
      cases h.2
      exact .failReindex w error h.1.1
  | stop w =>
      simp only [step, Option.ite_none_right_eq_some] at h
      cases h.2
      exact .leave _ w h.1 (fun _ _ h => nomatch h) fun _ _ h => nomatch h

-- ============================================================ the property

/-- What a step must keep to: a collection goes live with every point its
source held throughout; the live one has been touched by nobody but the
worker that held the claim; and a migration is failed by nobody else. -/
structure Guarded (s : World) (a : Action) (s' : World) : Prop where
  whole : ∀ w waiting, a = .finishCopy w waiting → s.layer.holds w.claim = true →
    ∃ ids, s'.collections s'.pointer = some ids ∧ ∀ id ∈ w.throughout, id ∈ ids
  untouched : s'.pointer ∉ s'.stray
  failed : ∀ w error claim, a = .failReindex w error →
    s.layer.holds claim = true → claim = w.claim

/-- A worker's writes come before its lease has run out. -/
def Punctual (cfg : Config) (s : World) : Action → Prop
  | .deleteCollection w | .createCollection w | .upsert w | .failReindex w _ =>
      s.now ≤ w.leasedAt + cfg.leaseSeconds
  | _ => True

instance (cfg : Config) (s : World) (a : Action) : Decidable (Punctual cfg s a) := by
  cases a with
  | deleteCollection => exact inferInstanceAs (Decidable (_ ≤ _))
  | createCollection => exact inferInstanceAs (Decidable (_ ≤ _))
  | upsert => exact inferInstanceAs (Decidable (_ ≤ _))
  | failReindex => exact inferInstanceAs (Decidable (_ ≤ _))
  | _ => exact inferInstanceAs (Decidable True)

-- ================================================================ the row

section Row

variable {row : Layer} {claim claim' : Claim}

/-- When the row's lease was written. -/
def leaseOf (row : Layer) : Option Time := row.reindexState.bind (·.copyClaimedAt)

theorem holds_unique (h : row.holds claim = true) (h' : row.holds claim' = true) :
    claim = claim' := by
  obtain ⟨st, hst, -, -, hclaim⟩ := holds_iff.1 h
  obtain ⟨st', hst', -, -, hclaim'⟩ := holds_iff.1 h'
  cases hst.symm.trans hst'
  exact Option.some.inj (hclaim.symm.trans hclaim')

theorem running_of_holds (h : row.holds claim = true) : row.running = true := by
  obtain ⟨st, hst, hstatus, -, -⟩ := holds_iff.1 h
  unfold Layer.running ReindexState.running
  rw [hst, Option.any_some, hstatus]
  rfl

@[simp] theorem holds_copyRenewed {now : Time} :
    (copyRenewed now row).holds claim = row.holds claim := by
  unfold copyRenewed Layer.holds
  cases row.reindexState with
  | none => rfl
  | some st => rfl

theorem leaseOf_copyRenewed {now : Time} (h : row.holds claim = true) :
    leaseOf (copyRenewed now row) = some now := by
  obtain ⟨st, hst, -⟩ := holds_iff.1 h
  unfold leaseOf copyRenewed
  rw [hst]
  rfl

theorem not_holds_started {p : Provider} {phase : Phase} {now : Time} :
    (started p phase now row).holds claim = false := by
  unfold started Layer.holds
  simp

theorem not_holds_copyFinished {waiting : Bool} {now : Time} :
    (copyFinished waiting now row).holds claim = false := by
  rw [Bool.eq_false_iff]
  intro h
  obtain ⟨st, hst, hstatus, hphase, -⟩ := holds_iff.1 h
  have hcopying : (copyFinished waiting now row).copying = true :=
    copying_iff.2 ⟨st, hst, hstatus, hphase⟩
  rw [copyFinished_copying] at hcopying
  cases hcopying

theorem not_holds_reindexFailed {error : String} :
    (reindexFailed error row).holds claim = false := by
  unfold reindexFailed Layer.holds ReindexState.copying
  cases row.reindexState with
  | none => rfl
  | some st => rfl

/-- A claim can be taken when the lease of the one before has run out. -/
theorem expired_of_copyable {leaseSeconds : Nat} {now : Time} {leasedAt : Time}
    (h : row.copyable leaseSeconds now = true) (hlease : leaseOf row = some leasedAt) :
    leasedAt + leaseSeconds < now := by
  unfold Layer.copyable at h
  rw [Bool.and_eq_true] at h
  obtain ⟨st, hst, hboth⟩ := (Option.any_eq_true _ _).1 h.2
  rw [Bool.and_eq_true] at hboth
  unfold leaseOf at hlease
  rw [hst] at hlease
  have hexpired := hboth.2
  unfold ReindexState.unclaimed at hexpired
  rw [show st.copyClaimedAt = some leasedAt from hlease] at hexpired
  simpa using hexpired

theorem holds_copyClaimed {now : Time} {leaseSeconds : Nat}
    (h : row.copyable leaseSeconds now = true) :
    (copyClaimed claim now row).holds claim' = true ↔ claim' = claim := by
  unfold Layer.copyable at h
  rw [Bool.and_eq_true] at h
  obtain ⟨st, hst, hboth⟩ := (Option.any_eq_true _ _).1 h.2
  rw [Bool.and_eq_true] at hboth
  have hcopying := hboth.1
  unfold ReindexState.copying at hcopying
  unfold copyClaimed Layer.holds ReindexState.copying
  rw [hst, Option.map_some, Option.any_some, Bool.and_eq_true, decide_eq_true_eq]
  constructor
  · intro hheld
    exact (Option.some.inj hheld.2).symm
  · intro heq
    subst heq
    exact ⟨hcopying, rfl⟩

theorem leaseOf_copyClaimed {now : Time} {leaseSeconds : Nat}
    (h : row.copyable leaseSeconds now = true) :
    leaseOf (copyClaimed claim now row) = some now := by
  unfold Layer.copyable at h
  rw [Bool.and_eq_true] at h
  obtain ⟨st, hst, -⟩ := (Option.any_eq_true _ _).1 h.2
  unfold leaseOf copyClaimed
  rw [hst]
  rfl

end Row

-- =========================================================== the invariant

/-- What a worker that holds the claim has made of its target, given what
its scroll has still ahead. -/
def Brought (collections : String → Option (List PointId)) (w : Worker) : Prop :=
  match w.stage with
  | .copying offset page more =>
      ∃ ids, collections w.to = some ids ∧ ∀ id ∈ w.throughout,
        id ∈ ids ∨ id ∈ page ∨ more = true ∧ ∀ o ∈ offset, o ≤ id
  | .renewing offset more =>
      ∃ ids, collections w.to = some ids ∧ ∀ id ∈ w.throughout,
        id ∈ ids ∨ more = true ∧ ∀ o ∈ offset, o ≤ id
  | _ => True

/-- A worker that holds the claim: it copies the live collection, under
the lease in the row. -/
structure Holding (pointer : String) (layer : Layer)
    (collections : String → Option (List PointId)) (w : Worker) : Prop where
  lease : leaseOf layer = some w.leasedAt
  source : w.collection = pointer
  held : ∀ id ∈ w.throughout, ∃ ids, collections pointer = some ids ∧ id ∈ ids
  brought : Brought collections w

structure Leased (cfg : Config) (s : World) : Prop where
  distinct : (s.workers.map Worker.claim).Nodup
  handed : ∀ w ∈ s.workers, w.claim ∈ s.claims
  current : ∀ w ∈ s.workers, s.now ≤ w.leasedAt + cfg.leaseSeconds →
    s.layer.holds w.claim = true
  holding : ∀ w ∈ s.workers, s.layer.holds w.claim = true →
    Holding s.pointer s.layer s.collections w
  lived : ∀ x ∈ s.lived, x.length ≤ s.pointer.length
  stray : s.stray = []

theorem to_length (w : Worker) : w.collection.length < w.to.length := by
  unfold Worker.to
  rw [String.length_append, String.length_append]
  have hone : "_".length = 1 := rfl
  omega

theorem Worker.to_ne (w : Worker) : w.to ≠ w.collection := by
  intro h
  have hlength := to_length w
  rw [h] at hlength
  exact absurd hlength (lt_irrefl _)

theorem Leased.same (h : Leased cfg s) {w w' : Worker} (hw : w ∈ s.workers)
    (hw' : w' ∈ s.workers) (hclaim : w.claim = w'.claim) : w = w' :=
  List.inj_on_of_nodup_map h.distinct hw hw' hclaim

/-- Of a worker taken out, no trace is left. -/
theorem Leased.mem_erase (h : Leased cfg s) {w w' : Worker} (hw : w ∈ s.workers)
    (hw' : w' ∈ s.workers.erase w) : w' ∈ s.workers ∧ w'.claim ≠ w.claim := by
  have hnodup : s.workers.Nodup := List.Nodup.of_map _ h.distinct
  rw [hnodup.mem_erase_iff] at hw'
  refine ⟨hw'.2, fun hclaim => ?_⟩
  exact hw'.1 (h.same hw'.2 hw hclaim)

theorem Leased.distinct_swap (h : Leased cfg s) {w w' : Worker} (hw : w ∈ s.workers)
    (hclaim : w'.claim = w.claim) :
    ((w' :: s.workers.erase w).map Worker.claim).Nodup := by
  rw [List.map_cons, List.nodup_cons]
  constructor
  · intro hmem
    obtain ⟨v, hv, heq⟩ := List.mem_map.1 hmem
    exact (h.mem_erase hw hv).2 (heq.trans hclaim)
  · exact h.distinct.sublist (List.erase_sublist.map _)

-- ==================================================== one kind of write each

/-- A worker goes on; what it writes, it writes to its own target, while
it holds the claim. -/
theorem Leased.work (h : Leased cfg s) {w w' : Worker} (hw : w ∈ s.workers)
    {collections : String → Option (List PointId)}
    (hclaim : w'.claim = w.claim) (hlease : w'.leasedAt = w.leasedAt)
    (hsame : ∀ v ∈ s.workers, v.claim ≠ w.claim → s.layer.holds v.claim = true →
      collections = s.collections)
    (hnew : s.layer.holds w.claim = true →
      Holding s.pointer s.layer collections w') :
    Leased cfg { s.swap w w' with collections } where
  distinct := h.distinct_swap hw hclaim
  handed v hv := by
    rcases List.mem_cons.1 hv with rfl | hv
    · rw [hclaim]
      exact h.handed w hw
    · exact h.handed v (h.mem_erase hw hv).1
  current v hv hnow := by
    rcases List.mem_cons.1 hv with rfl | hv
    · rw [hclaim]
      rw [hlease] at hnow
      exact h.current w hw hnow
    · exact h.current v (h.mem_erase hw hv).1 hnow
  holding v hv hholds := by
    rcases List.mem_cons.1 hv with rfl | hv
    · rw [hclaim] at hholds
      exact hnew hholds
    · obtain ⟨hv, hne⟩ := h.mem_erase hw hv
      show Holding s.pointer s.layer collections v
      rw [hsame v hv hne hholds]
      exact h.holding v hv hholds
  lived := h.lived
  stray := h.stray

/-- A worker goes on, and writes nothing. -/
theorem Leased.advance (h : Leased cfg s) {w w' : Worker} (hw : w ∈ s.workers)
    (hclaim : w'.claim = w.claim) (hlease : w'.leasedAt = w.leasedAt)
    (hnew : s.layer.holds w.claim = true →
      Holding s.pointer s.layer s.collections w') : Leased cfg (s.swap w w') :=
  h.work hw hclaim hlease (fun _ _ _ _ => rfl) hnew

/-- A worker leaves. -/
theorem Leased.leave (h : Leased cfg s) {w : Worker} (hw : w ∈ s.workers) :
    Leased cfg (s.leave w) where
  distinct := h.distinct.sublist (List.erase_sublist.map _)
  handed v hv := h.handed v (h.mem_erase hw hv).1
  current v hv := h.current v (h.mem_erase hw hv).1
  holding v hv := h.holding v (h.mem_erase hw hv).1
  lived := h.lived
  stray := h.stray

/-- The row changes so that nobody holds it: the one who did is gone. -/
theorem Leased.release (h : Leased cfg s) {layer : Layer} {pointer : String}
    {lived : List String}
    (hfree : ∀ w ∈ s.workers, s.layer.holds w.claim = false)
    (hnone : ∀ claim, layer.holds claim = false)
    (hlived : ∀ x ∈ lived, x.length ≤ pointer.length) :
    Leased cfg { s with layer, pointer, lived } where
  distinct := h.distinct
  handed := h.handed
  current w hw hnow := by
    have hholds := h.current w hw hnow
    rw [hfree w hw] at hholds
    cases hholds
  holding w hw hholds := by
    rw [hnone w.claim] at hholds
    cases hholds
  lived := hlived
  stray := h.stray

/-- The lease is renewed by the worker that holds it. -/
theorem Leased.renewed (h : Leased cfg s) {w w' : Worker} (hw : w ∈ s.workers)
    (hclaim : w'.claim = w.claim) (hlease : w'.leasedAt = s.now)
    (hcollection : w'.collection = w.collection)
    (hthroughout : w'.throughout = w.throughout)
    (hholds : s.layer.holds w.claim = true) (hbrought : Brought s.collections w') :
    Leased cfg { s.swap w w' with layer := copyRenewed s.now s.layer } where
  distinct := h.distinct_swap hw hclaim
  handed v hv := by
    rcases List.mem_cons.1 hv with rfl | hv
    · rw [hclaim]
      exact h.handed w hw
    · exact h.handed v (h.mem_erase hw hv).1
  current v hv hnow := by
    rw [holds_copyRenewed]
    rcases List.mem_cons.1 hv with rfl | hv
    · rw [hclaim]
      exact hholds
    · exact h.current v (h.mem_erase hw hv).1 hnow
  holding v hv hheld := by
    rw [holds_copyRenewed] at hheld
    have hold := h.holding w hw hholds
    rcases List.mem_cons.1 hv with rfl | hv
    · exact
        { lease := by
            rw [hlease]
            exact leaseOf_copyRenewed hholds
          source := hcollection.trans hold.source
          held := by
            rw [hthroughout]
            exact hold.held
          brought := hbrought }
    · exact absurd (holds_unique hheld hholds) (h.mem_erase hw hv).2
  lived := h.lived
  stray := h.stray

/-- A claim is taken: the lease of whoever held it has run out. -/
theorem Leased.claim (h : Leased cfg s) {w : Worker}
    (hcopyable : s.layer.copyable cfg.leaseSeconds s.now = true)
    (hfresh : w.claim ∉ s.claims) (hlease : w.leasedAt = s.now)
    (hsource : w.collection = s.pointer) (hthroughout : w.throughout = [])
    (hstage : w.stage = .claimed) :
    Leased cfg { s with
      layer := copyClaimed w.claim s.now s.layer
      claims := w.claim :: s.claims
      workers := w :: s.workers } where
  distinct := by
    rw [List.map_cons, List.nodup_cons]
    refine ⟨?_, h.distinct⟩
    intro hmem
    obtain ⟨v, hv, heq⟩ := List.mem_map.1 hmem
    exact hfresh (heq ▸ h.handed v hv)
  handed v hv := by
    rcases List.mem_cons.1 hv with rfl | hv
    · exact List.mem_cons_self
    · exact List.mem_cons_of_mem _ (h.handed v hv)
  current v hv hnow := by
    rcases List.mem_cons.1 hv with rfl | hv
    · exact (holds_copyClaimed hcopyable).2 rfl
    · have hold := h.holding v hv (h.current v hv hnow)
      have hexpired := expired_of_copyable hcopyable hold.lease
      exact absurd hnow (not_le.2 hexpired)
  holding v hv hholds := by
    rcases List.mem_cons.1 hv with rfl | hv
    · exact
        { lease := by
            rw [hlease]
            exact leaseOf_copyClaimed hcopyable
          source := hsource
          held := by
            rw [hthroughout]
            exact nofun
          brought := by
            unfold Brought
            rw [hstage]
            trivial }
    · have heq := (holds_copyClaimed hcopyable).1 hholds
      exact absurd (heq ▸ h.handed v hv) hfresh
  lived := h.lived
  stray := h.stray

theorem page_mem {ids : List PointId} {offset next : Option PointId} {id : PointId} :
    id ∈ page ids offset next
      ↔ id ∈ ids ∧ (∀ o ∈ offset, o ≤ id) ∧ ∀ n ∈ next, id < n := by
  simp only [page, List.mem_filter, Bool.and_eq_true, Option.all_eq_true,
    decide_eq_true_eq, Option.mem_def]

/-- The writers of a collection that was live do not touch a target. -/
theorem Holding.ne_to (h : Leased cfg s) {w : Worker} {x : String}
    (hw : Holding s.pointer s.layer s.collections w) (hx : x ∈ s.lived) :
    w.to ≠ x := by
  intro heq
  subst heq
  have hshort := h.lived w.to hx
  have hlong := to_length w
  rw [hw.source] at hlong
  exact absurd hlong (not_lt.2 hshort)

/-- What a holder owes, after a write to a collection that was live. -/
theorem Brought.other {collections : String → Option (List PointId)} {w w' : Worker}
    (hstage : w'.stage = w.stage) (hto : w'.to = w.to)
    (hkept : ∀ id ∈ w'.throughout, id ∈ w.throughout)
    (hsame : collections w.to = s.collections w.to) (h : Brought s.collections w) :
    Brought collections w' := by
  unfold Brought at h ⊢
  rw [hstage, hto]
  cases hst : w.stage with
  | copying offset page more =>
      rw [hst] at h
      obtain ⟨ids, hids, hall⟩ := h
      exact ⟨ids, hsame.trans hids, fun id hid => hall id (hkept id hid)⟩
  | renewing offset more =>
      rw [hst] at h
      obtain ⟨ids, hids, hall⟩ := h
      exact ⟨ids, hsame.trans hids, fun id hid => hall id (hkept id hid)⟩
  | _ => trivial

/-- A page is in, and the next one is asked for. -/
theorem Brought.renewing {collections : String → Option (List PointId)}
    {w w' : Worker} {offset : Option PointId} {more : Bool}
    (h : Brought collections w) (hstage : w.stage = .renewing offset more)
    (hstage' : w'.stage = .copying offset [] more) (hto : w'.to = w.to)
    (hthroughout : w'.throughout = w.throughout) : Brought collections w' := by
  unfold Brought at h ⊢
  rw [hstage] at h
  rw [hstage', hto, hthroughout]
  obtain ⟨ids, hids, hall⟩ := h
  exact ⟨ids, hids, fun id hid => (hall id hid).imp_right .inr⟩

theorem Leased.put (h : Leased cfg s) {collection : String} {id : PointId}
    {ids : List PointId} (hlived : collection ∈ s.lived)
    (hids : s.collections collection = some ids) :
    Leased cfg { s with
      collections := Function.update s.collections collection (some (id :: ids)) } where
  distinct := h.distinct
  handed := h.handed
  current := h.current
  holding w hw hholds := by
    have hold := h.holding w hw hholds
    refine ⟨hold.lease, hold.source, ?_, ?_⟩
    · intro id' hid'
      obtain ⟨ids', hids', hmem⟩ := hold.held id' hid'
      show ∃ ids'', Function.update s.collections collection (some (id :: ids)) s.pointer
        = some ids'' ∧ id' ∈ ids''
      by_cases hp : s.pointer = collection
      · rw [hp, Function.update_self]
        rw [hp, hids] at hids'
        cases hids'
        exact ⟨id :: ids, rfl, List.mem_cons_of_mem _ hmem⟩
      · rw [Function.update_of_ne hp]
        exact ⟨ids', hids', hmem⟩
    · exact Brought.other rfl rfl (fun _ hid => hid)
        (Function.update_of_ne (hold.ne_to h hlived) ..) hold.brought
  lived := h.lived
  stray := h.stray

section Without

variable (collection : String) (id : PointId) (w : Worker)

@[simp] theorem without_claim : (w.without collection id).claim = w.claim := by
  unfold Worker.without
  split
  next => rfl
  next => rfl

@[simp] theorem without_leasedAt :
    (w.without collection id).leasedAt = w.leasedAt := by
  unfold Worker.without
  split
  next => rfl
  next => rfl

@[simp] theorem without_collection :
    (w.without collection id).collection = w.collection := by
  unfold Worker.without
  split
  next => rfl
  next => rfl

@[simp] theorem without_stage : (w.without collection id).stage = w.stage := by
  unfold Worker.without
  split
  next => rfl
  next => rfl

@[simp] theorem without_to : (w.without collection id).to = w.to := by
  unfold Worker.without
  split
  next => rfl
  next => rfl

theorem mem_without {id' : PointId}
    (h : id' ∈ (w.without collection id).throughout) :
    id' ∈ w.throughout ∧ (w.collection = collection → id' ≠ id) := by
  unfold Worker.without at h
  split at h
  next heq =>
    obtain ⟨hmem, hne⟩ := List.mem_filter.1 h
    exact ⟨hmem, fun _ => by simpa using hne⟩
  next hne => exact ⟨h, fun heq => absurd heq hne⟩

end Without

theorem Leased.remove (h : Leased cfg s) {collection : String} {id : PointId}
    {ids : List PointId} (hlived : collection ∈ s.lived)
    (hids : s.collections collection = some ids) :
    Leased cfg { s with
      workers := s.workers.map (Worker.without collection id)
      collections := Function.update s.collections collection
        (some (ids.filter (· ≠ id))) } where
  distinct := by
    rw [List.map_map]
    have hsame : Worker.claim ∘ Worker.without collection id = Worker.claim := by
      funext w
      exact without_claim collection id w
    rw [hsame]
    exact h.distinct
  handed v hv := by
    obtain ⟨w, hw, rfl⟩ := List.mem_map.1 hv
    rw [without_claim]
    exact h.handed w hw
  current v hv hnow := by
    obtain ⟨w, hw, rfl⟩ := List.mem_map.1 hv
    rw [without_leasedAt] at hnow
    rw [without_claim]
    exact h.current w hw hnow
  holding v hv hholds := by
    obtain ⟨w, hw, rfl⟩ := List.mem_map.1 hv
    rw [without_claim] at hholds
    have hold := h.holding w hw hholds
    refine ⟨?_, ?_, ?_, ?_⟩
    · rw [without_leasedAt]
      exact hold.lease
    · rw [without_collection]
      exact hold.source
    · intro id' hid'
      obtain ⟨hmem, hne⟩ := mem_without collection id w hid'
      obtain ⟨ids', hids', hmem'⟩ := hold.held id' hmem
      show ∃ ids'', Function.update s.collections collection
        (some (ids.filter (· ≠ id))) s.pointer = some ids'' ∧ id' ∈ ids''
      by_cases hp : s.pointer = collection
      · rw [hp, Function.update_self]
        rw [hp, hids] at hids'
        cases hids'
        refine ⟨_, rfl, List.mem_filter.2 ⟨hmem', ?_⟩⟩
        simpa using hne (hold.source.trans hp)
      · rw [Function.update_of_ne hp]
        exact ⟨ids', hids', hmem'⟩
    · apply Brought.other (without_stage collection id w) (without_to collection id w)
        (fun id' hid' => (mem_without collection id w hid').1) _ hold.brought
      exact Function.update_of_ne (hold.ne_to h hlived) ..
  lived := h.lived
  stray := h.stray

-- ======================================================= what a step keeps

/-- A write by the worker that holds the claim strays nowhere. -/
theorem write_of_holds {w : Worker} {ids : Option (List PointId)}
    (h : s.layer.holds w.claim = true) :
    s.write w ids
      = { s with collections := Function.update s.collections w.to ids } := by
  unfold World.write
  rw [if_pos h]

theorem renewed_of_nil {w : Worker} (h : s.stray = []) : s.renewed w = s := by
  unfold World.renewed
  rw [h, List.filter_nil, ite_self, ← h]

/-- A worker under its lease writes to its target. -/
theorem Leased.wrote (h : Leased cfg s) {w w' : Worker} {ids : Option (List PointId)}
    (hw : w ∈ s.workers) (hnow : s.now ≤ w.leasedAt + cfg.leaseSeconds)
    (hclaim : w'.claim = w.claim) (hlease : w'.leasedAt = w.leasedAt)
    (hcollection : w'.collection = w.collection)
    (hheld : ∀ id ∈ w'.throughout, ∃ ids, s.collections w.collection = some ids
      ∧ id ∈ ids)
    (hbrought : Brought s.collections w →
      Brought (Function.update s.collections w.to ids) w') :
    Leased cfg ((s.swap w w').write w ids) := by
  have hholds : s.layer.holds w.claim = true := h.current w hw hnow
  have hold := h.holding w hw hholds
  rw [write_of_holds (s := s.swap w w') hholds]
  apply h.work hw hclaim hlease
  · intro v hv hne hheld'
    exact absurd (holds_unique hheld' hholds) hne
  · intro _
    exact
      { lease := by
          rw [hlease]
          exact hold.lease
        source := hcollection.trans hold.source
        held := by
          intro id hid
          have hne : s.pointer ≠ w.to := by
            rw [← hold.source]
            exact w.to_ne.symm
          show ∃ ids', Function.update s.collections w.to ids s.pointer = some ids'
            ∧ id ∈ ids'
          rw [Function.update_of_ne hne, ← hold.source]
          exact hheld id hid
        brought := hbrought hold.brought }

/-- The worker that held the claim leaves it, and nobody holds it. -/
theorem Leased.free (h : Leased cfg s) {w : Worker} (hw : w ∈ s.workers)
    (hholds : s.layer.holds w.claim = true) :
    ∀ v ∈ (s.leave w).workers, (s.leave w).layer.holds v.claim = false := by
  intro v hv
  rw [Bool.eq_false_iff]
  intro hheld
  exact (h.mem_erase hw hv).2 (holds_unique hheld hholds)

theorem not_holds_of_rest {row : Layer} {claim : Claim} (h : row.running = false) :
    row.holds claim = false := by
  rw [Bool.eq_false_iff]
  intro hholds
  rw [running_of_holds hholds] at h
  cases h

variable {a : Action}

theorem Leased.step (h : Leased cfg s) (hok : Punctual cfg s a)
    (hs : Stepped cfg s a s') : Leased cfg s' := by
  cases hs with
  | tick =>
      refine ⟨h.distinct, h.handed, fun w hw hnow => ?_, h.holding, h.lived, h.stray⟩
      exact h.current w hw (le_trans (Nat.le_succ s.now) hnow)
  | start p hrest =>
      exact h.release (fun w _ => not_holds_of_rest hrest)
        (fun claim => not_holds_started) h.lived
  | put collection id ids hids hlived => exact h.put hlived hids
  | remove collection id ids hids hlived => exact h.remove hlived hids
  | claimCopyable claim st hcopyable hfresh =>
      exact h.claim (w := { claim, collection := s.pointer
                            shadowVector := st.shadowVector
                            leasedAt := s.now, renewedAt := s.now })
        hcopyable hfresh rfl rfl rfl rfl
  | deleteCollection w hw =>
      have hold := h.holding w hw (h.current w hw hok)
      refine h.wrote hw hok rfl rfl rfl ?_ ?_
      · rw [hold.source]
        exact hold.held
      · intro _
        trivial
  | createCollection w ids hw hids =>
      have hmade : Leased cfg ((s.swap w
          { w with stage := .copying none [] true, throughout := ids }).write w
          (some [])) := by
        refine h.wrote hw hok rfl rfl rfl ?_ ?_
        · intro id hid
          exact ⟨ids, hids, hid⟩
        · intro _
          refine ⟨[], Function.update_self .., fun id _ => .inr (.inr ⟨rfl, ?_⟩)⟩
          exact nofun
      rw [renewed_of_nil hmade.stray]
      exact hmade
  | scroll w next offset ids hw hstage hids hforward =>
      refine h.advance hw rfl rfl fun hholds => ?_
      have hold := h.holding w hw hholds
      refine ⟨hold.lease, hold.source, hold.held, ?_⟩
      have hbrought := hold.brought
      unfold Brought at hbrought
      rw [hstage] at hbrought
      obtain ⟨target, htarget, hall⟩ := hbrought
      refine ⟨target, htarget, fun id hid => ?_⟩
      rcases hall id hid with hin | hnil | ⟨-, hahead⟩
      · exact .inl hin
      · cases hnil
      · by_cases hpage : ∀ n ∈ next, id < n
        · obtain ⟨ids', hids', hmem⟩ := hold.held id hid
          rw [← hold.source, hids] at hids'
          cases hids'
          exact .inr (.inl (page_mem.2 ⟨hmem, hahead, hpage⟩))
        -- the point lies behind this page, and the next offset before it
        · push Not at hpage
          obtain ⟨n, hn, hle⟩ := hpage
          rw [Option.mem_def] at hn
          subst hn
          refine .inr (.inr ⟨rfl, fun o ho => ?_⟩)
          cases ho
          exact hle
  | upsert w offset page more ids hw hstage hids =>
      have hold := h.holding w hw (h.current w hw hok)
      refine h.wrote hw hok rfl rfl rfl ?_ ?_
      · rw [hold.source]
        exact hold.held
      · intro hbrought
        unfold Brought at hbrought
        rw [hstage] at hbrought
        obtain ⟨target, htarget, hall⟩ := hbrought
        rw [hids] at htarget
        cases htarget
        refine ⟨page ++ ids, Function.update_self .., fun id hid => ?_⟩
        rcases hall id hid with hin | hpage | hahead
        · exact .inl (List.mem_append_right _ hin)
        · exact .inl (List.mem_append_left _ hpage)
        · exact .inr hahead
  | throttled w offset more hw hstage =>
      refine h.advance hw rfl rfl fun hholds => ?_
      have hold := h.holding w hw hholds
      exact ⟨hold.lease, hold.source, hold.held, hold.brought.renewing hstage rfl rfl rfl⟩
  | renew w offset more hw hstage hholds =>
      have hold := h.holding w hw hholds
      exact h.renewed hw rfl rfl rfl rfl hholds (hold.brought.renewing hstage rfl rfl rfl)
  | finishCopy w waiting offset hw hstage hholds =>
      refine (h.leave hw).release (h.free hw hholds)
        (fun claim => not_holds_copyFinished) fun x hx => ?_
      have hlong := to_length w
      rw [(h.holding w hw hholds).source] at hlong
      rcases List.mem_cons.1 hx with rfl | hx
      · exact le_rfl
      · exact le_of_lt (lt_of_le_of_lt (h.lived x hx) hlong)
  | throw w hw =>
      refine h.advance hw rfl rfl fun hholds => ?_
      have hold := h.holding w hw hholds
      exact ⟨hold.lease, hold.source, hold.held, trivial⟩
  | renewCopyClaim w hw hholds => exact h.renewed hw rfl rfl rfl rfl hholds trivial
  | failReindex w error hw =>
      have hholds : s.layer.holds w.claim = true := h.current w hw hok
      rw [if_pos (running_of_holds hholds)]
      exact (h.leave hw).release (h.free hw hholds)
        (fun claim => not_holds_reindexFailed) h.lived
  | leave _ w hw => exact h.leave hw

theorem leased_init (hs : init s) : Leased cfg s := by
  obtain ⟨now, layer, pointer, collections, -, rfl⟩ := hs
  refine ⟨List.nodup_nil, (fun _ h => nomatch h), (fun _ h => nomatch h), (fun _ h => nomatch h),
    fun x hx => ?_, rfl⟩
  rw [List.mem_singleton.1 hx]

theorem Leased.guarded (h : Leased cfg s) (hok : Punctual cfg s a)
    (hs : Stepped cfg s a s') : Guarded s a s' where
  whole w waiting heq hholds := by
    subst heq
    cases hs with
    | finishCopy _ _ offset hw hstage =>
        have hbrought := (h.holding w hw hholds).brought
        unfold Brought at hbrought
        rw [hstage] at hbrought
        obtain ⟨ids, hids, hall⟩ := hbrought
        refine ⟨ids, hids, fun id hid => ?_⟩
        rcases hall id hid with hin | hnil | ⟨hmore, -⟩
        · exact hin
        · cases hnil
        · cases hmore
    | leave _ v hv hlost =>
        rw [hlost w waiting rfl] at hholds
        cases hholds
  untouched := by
    rw [(h.step hok hs).stray]
    exact List.not_mem_nil
  failed w error claim heq hholds := by
    subst heq
    cases hs with
    | failReindex _ _ hw => exact holds_unique hholds (h.current w hw hok)
    | leave _ v hv hlost hfail => exact absurd rfl (hfail w error)

/-- In every run in which no worker writes past its lease, what goes live
is whole, only the holder touched it, and only the holder fails it. -/
theorem punctual_runs_guarded (hs : Reachable (step cfg) (Punctual cfg) init s)
    (hok : Punctual cfg s a) (hstep : step cfg s a = some s') : Guarded s a s' := by
  have hinv : Leased cfg s := hs.invariant (fun _ => leased_init)
    fun t a t' ht hok ha => ht.step hok (step_inv ha)
  exact hinv.guarded hok (step_inv hstep)

-- =========================================================== two workers

/-- The shortest lease that can be configured. -/
def sampleConfig : Config := ⟨60⟩

def sampleWorld : World where
  now := 0
  layer :=
    { id := "one", providerId := "default", vectorName := "base"
      reindexState := some
        { phase := .copying, shadowVector := "small", providerId := "small"
          startedAt := 0 } }
  pointer := "docs"
  collections := Function.update (fun _ => none) "docs" (some ["a", "b"])
  workers := []
  claims := []
  lived := ["docs"]
  stray := []

theorem init_sampleWorld : init sampleWorld := ⟨_, _, _, _, rfl, rfl⟩

def claimed (claim : Claim) (now : Time) : Worker where
  claim
  collection := "docs"
  shadowVector := "small"
  leasedAt := now
  renewedAt := now

/-- The worker is done with its scroll. -/
def scrolled (w : Worker) : Worker :=
  { w with stage := .copying none [] false, throughout := ["a", "b"] }

/-- A copy from the claim to its last page. -/
def copyRun (w : Worker) : List Action :=
  [.claimCopyable w.claim, .deleteCollection w,
    .createCollection { w with stage := .deleted },
    .scroll { w with stage := .copying none [] true, throughout := ["a", "b"] } none,
    .upsert { w with stage := .copying none ["a", "b"] false, throughout := ["a", "b"] },
    .renew { w with stage := .renewing none false, throughout := ["a", "b"] }]

def copiedWorld : World :=
  (runWithin (step sampleConfig) (Punctual sampleConfig) sampleWorld
    (copyRun (claimed 7 0))).get (by decide)

def finishAction (w : Worker) : Action := .finishCopy (scrolled w) false

theorem punctual_runs_guarded_finished :
    Guarded copiedWorld (finishAction (claimed 7 0))
        ((step sampleConfig copiedWorld (finishAction (claimed 7 0))).get (by decide))
      ∧ copiedWorld.layer.holds 7 = true :=
  ⟨punctual_runs_guarded (reachable_get init_sampleWorld _)
      (show Punctual sampleConfig copiedWorld (finishAction (claimed 7 0)) by decide)
      (Option.some_get _).symm,
    by decide⟩

/-- The first worker stalls before its delete, the second copies once the
lease has run out and goes live. -/
def stalledWorld : World :=
  (runWithin (step sampleConfig) anyStep sampleWorld
    (.claimCopyable 7 :: List.replicate 61 .tick ++ copyRun (claimed 8 61)
      ++ [finishAction (claimed 8 61)])).get (by decide)

/-- The stalled worker deletes the collection that went live. -/
theorem deleted_by_stalled :
    ∃ s a s', Reachable (step sampleConfig) anyStep init s
      ∧ step sampleConfig s a = some s' ∧ ¬ Guarded s a s' := by
  refine ⟨stalledWorld, .deleteCollection (claimed 7 0),
    (step sampleConfig stalledWorld (.deleteCollection (claimed 7 0))).get (by decide),
    reachable_get init_sampleWorld _, (Option.some_get _).symm, fun h => ?_⟩
  have huntouched := h.untouched
  revert huntouched
  decide

end Nacre.Lease
