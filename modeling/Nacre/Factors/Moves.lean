/-
What a transaction on the factors may do next, and what it has found out.

`step_moved` says everything a step can do to the transactions and the
rows; the invariants of the modules after this one go by its cases. A
transaction goes on (`advance`, and `signed` for the one stage that carries
a counter), evaluates a wrong code, is lost, or commits.

`Stage.Sound` is what a transaction has found out about the rows it has
locked, and `Tx.Sound.frame` that it is so as long as these rows stay.
-/
import Nacre.Factors.System

namespace Nacre.Factors

open Transition
open Nacre.Store (Time)

-- =============================================================== the locks

inductive Lock where
  | factor (id : FactorId)
  | code (hash : String)
  | challenge (challenge : String)

def Tx.locks (t : Tx) : Lock → Bool
  | .factor id => t.holds id
  | .code hash => t.holdsCode hash
  | .challenge challenge => t.holdsChallenge challenge

/-- The rows under a lock that are there stay as they are. -/
def Keeps (s s' : World) : Lock → Prop
  | .factor id =>
      (∀ row, s.totps id = some row → s'.totps id = some row)
        ∧ ∀ row, s.keys id = some row → s'.keys id = some row
  | .code hash => ∀ row, s.codes hash = some row → s'.codes hash = some row
  | .challenge challenge =>
      ∀ row, s.challenges challenge = some row → s'.challenges challenge = some row

theorem Keeps.refl (s : World) (lock : Lock) : Keeps s s lock := by
  cases lock with
  | factor id => exact ⟨fun _ h => h, fun _ h => h⟩
  | code hash => exact fun _ h => h
  | challenge challenge => exact fun _ h => h

-- ============================================================ what is found

/-- The challenge is there, and is not spent. -/
def Unspent (s : World) (challenge : String) : Prop :=
  ∃ row, s.challenges challenge = some row ∧ row.usedAt = none

/-- The step comes after the factor's last. -/
def After (s : World) (id : FactorId) (step : Int) : Prop :=
  ∃ row, s.totps id = some row ∧ ∀ last ∈ row.lastStep, last < step

def Effect.Sound (s : World) (began : Time) (held : List FactorId) : Effect → Prop
  | .nothing => True
  | .recover hash => ∃ row, s.codes hash = some row ∧ row.usedAt = none
  | .accept id step => id ∈ held ∧ After s id step
  | .fail rows => ∀ p ∈ rows, p.1 ∈ held
      ∧ ∃ row, s.totps p.1 = some row ∧ row.confirmed = true ∧ p.2 = row.failed began
  | .enrol id step _ => id ∈ held ∧ After s id step
  | .spend challenge => Unspent s challenge
  | .sign challenge id count =>
      Unspent s challenge ∧ id ∈ held
        ∧ ∃ row, s.keys id = some row ∧ (count ≠ 0 → row.signCount < count)
  | .add challenge _ _ => Unspent s challenge
  | .drop id _ => id ∈ held

def Stage.Sound (s : World) (began : Time) (request : Request) : Stage → Prop
  | .begun => True
  | .unspent => True
  | .locking _ rows => ∀ p ∈ rows, s.totps p.1 = some p.2 ∧ p.2.confirmed = true
  | .spent => ∃ challenge purpose, request.challenge = some (challenge, purpose)
      ∧ Unspent s challenge
  | .proved held enrolment => (enrolment.effect []).Sound s began held
  | .removed => True
  | .done held effect => effect.Sound s began held

def Tx.Sound (s : World) (t : Tx) : Prop := t.stage.Sound s t.began t.request

variable {deps : Deps} {s s' : World} {a : Action} {t : Tx} {held : List FactorId}
  {effect : Effect} {stage : Stage}

theorem Unspent.frame {challenge : String} (h : Unspent s challenge)
    (hkeeps : Keeps s s' (.challenge challenge)) : Unspent s' challenge := by
  obtain ⟨row, hrow, hnone⟩ := h
  exact ⟨row, hkeeps row hrow, hnone⟩

theorem After.frame {id : FactorId} {step : Int} (h : After s id step)
    (hkeeps : Keeps s s' (.factor id)) : After s' id step := by
  obtain ⟨row, hrow, hlast⟩ := h
  exact ⟨row, hkeeps.1 row hrow, hlast⟩

theorem Effect.Sound.frame {began : Time} (h : effect.Sound s began held)
    (hfactor : ∀ id ∈ held, Keeps s s' (.factor id))
    (hcode : ∀ hash, effect.holdsCode hash = true → Keeps s s' (.code hash))
    (hchallenge : ∀ c, effect.holdsChallenge c = true → Keeps s s' (.challenge c)) :
    effect.Sound s' began held := by
  cases effect with
  | nothing => trivial
  | recover hash =>
      obtain ⟨row, hrow, hnone⟩ := h
      exact ⟨row, hcode hash (decide_eq_true rfl) row hrow, hnone⟩
  | accept id step => exact ⟨h.1, h.2.frame (hfactor id h.1)⟩
  | fail rows =>
      intro p hp
      obtain ⟨hheld, row, hrow, hfound⟩ := h p hp
      exact ⟨hheld, row, (hfactor p.1 hheld).1 row hrow, hfound⟩
  | enrol id step codes => exact ⟨h.1, h.2.frame (hfactor id h.1)⟩
  | spend challenge => exact Unspent.frame h (hchallenge challenge (decide_eq_true rfl))
  | sign challenge id count =>
      obtain ⟨hunspent, hheld, row, hrow, hcount⟩ := h
      exact ⟨hunspent.frame (hchallenge challenge (decide_eq_true rfl)), hheld, row,
        (hfactor id hheld).2 row hrow, hcount⟩
  | add challenge row codes => exact Unspent.frame h (hchallenge challenge (decide_eq_true rfl))
  | drop id codes => exact h

/-- What a transaction has found out is so as long as what it has locked
stays. -/
theorem Tx.Sound.frame (h : t.Sound s) (hkeeps : ∀ lock, t.locks lock = true → Keeps s s' lock) :
    t.Sound s' := by
  obtain ⟨began, request, stage⟩ := t
  cases stage with
  | begun => trivial
  | unspent => trivial
  | locking rest rows =>
      intro p hp
      have hlock : (Tx.mk began request (.locking rest rows)).locks (.factor p.1) = true :=
        List.any_eq_true.2 ⟨p, hp, decide_eq_true rfl⟩
      exact ⟨(hkeeps _ hlock).1 _ (h p hp).1, (h p hp).2⟩
  | spent =>
      obtain ⟨challenge, purpose, hchallenge, hunspent⟩ := h
      refine ⟨challenge, purpose, hchallenge, hunspent.frame (hkeeps (.challenge challenge) ?_)⟩
      show request.challenge.any (·.1 = challenge) = true
      rw [hchallenge]
      exact decide_eq_true rfl
  | proved held enrolment =>
      refine Effect.Sound.frame h (fun id hid => hkeeps (.factor id) (decide_eq_true hid))
        (fun hash hhash => ?_) fun c hc => hkeeps (.challenge c) hc
      cases enrolment <;> cases hhash
  | removed => trivial
  | done held effect =>
      exact Effect.Sound.frame h (fun id hid => hkeeps (.factor id) (decide_eq_true hid))
        (fun hash hhash => hkeeps (.code hash) hhash) fun c hc => hkeeps (.challenge c) hc

-- =============================================================== the steps

/-- Nobody but `t` has it locked. -/
def Free (s : World) (t : Tx) (lock : Lock) : Prop := ∀ t' ∈ s.txs.erase t, t'.locks lock = false

/-- A transaction that has more to do than to commit. -/
def Stage.open : Stage → Prop
  | .done _ _ => False
  | _ => True

/-- It carries no counter, and no wrong code. -/
def Stage.plain : Stage → Prop
  | .done _ (.sign _ _ _) => False
  | .done _ (.fail _) => False
  | _ => True

/-- What `t` may go on to: what it then has locked it had locked or was free,
and what it has found out is so. -/
structure Goes (s : World) (t : Tx) (stage : Stage) : Prop where
  mem : t ∈ s.txs
  isOpen : t.stage.open
  locks : ∀ lock, (Tx.mk t.began t.request stage).locks lock = true →
    t.locks lock = true ∨ Free s t lock
  sound : t.Sound s → stage.Sound s t.began t.request

/-- The response of `t` is accepted for the key it names. -/
structure Signs (deps : Deps) (s : World) (t : Tx) (response : Response) (id : FactorId)
    (row : KeyRow) (assertion : Assertion) : Prop where
  request : t.request = .assertion response
  stage : t.stage = .spent
  found : s.keyOf response.credentialId = some id
  key : s.keys id = some row
  accepted : verifyAssertion deps.host deps.relyingParty response row.publicKey row.signCount
    = some assertion

/-- A code of `t` is evaluated. -/
structure Evaluates (deps : Deps) (s : World) (t : Tx) (code : String)
    (rows : List (FactorId × TotpRow)) (verdict : Verdict) : Prop where
  mem : t ∈ s.txs
  request : t.request = .verify code
  stage : t.stage = .locking [] rows
  scan : scan deps.host code s.now rows false = verdict

/-- Everything a step can do. -/
inductive Moved (deps : Deps) (s : World) : Action → World → Prop where
  | tick (elapsed : Time) : Moved deps s (.tick elapsed) { s with now := s.now + elapsed }
  | enrol (began : Time) (label secret : String) (named : List FactorId) (row : TotpRow)
      (hnamed : ∀ id ∈ named, s.txs.any (·.holds id) = false)
      (hrow : row.confirmed = false ∧ row.lastStep = none) :
      Moved deps s (.enrol began label secret) { s with
        totps := Function.update (fun id => if id ∈ named then none else s.totps id)
          s.ids.length (some row)
        ids := s.ids.length :: s.ids }
  | issue (began : Time) (purpose : Purpose) (challenge : String) (row : ChallengeRow)
      (hnone : s.challenges challenge = none) :
      Moved deps s (.issueChallenge began purpose challenge)
        { s with challenges := Function.update s.challenges challenge (some row) }
  | ask (request : Request) :
      Moved deps s (.ask request) { s with txs := ⟨s.now, request, .begun⟩ :: s.txs }
  | advance (a : Action) (t : Tx) (stage : Stage) (h : Goes s t stage)
      (hplain : stage.plain) :
      Moved deps s a (s.advance t stage)
  | signed (minted : List String) (t : Tx) (response : Response) (id : FactorId) (row : KeyRow)
      (assertion : Assertion) (h : Signs deps s t response id row assertion)
      (hgoes : Goes s t (.done [id] (.sign response.challenge id assertion.signCount))) :
      Moved deps s (.run t minted)
        (s.advance t (.done [id] (.sign response.challenge id assertion.signCount)))
  | wrong (minted : List String) (t : Tx) (code : String) (rows : List (FactorId × TotpRow))
      (h : Evaluates deps s t code rows .wrong) :
      Moved deps s (.run t minted)
        ((s.advance t (.done (rows.map Prod.fst) (.fail (failing t.began s.now rows)))).record
          (.wrong s.now))
  | threw (minted : List String) (t : Tx) (code : String) (rows : List (FactorId × TotpRow))
      (h : Evaluates deps s t code rows (.thrown true)) :
      Moved deps s (.run t minted) ((s.drop t).record (.wrong s.now))
  | lost (a : Action) (t : Tx)
      (h : a = .abort t ∨ ∀ held rows, t.stage ≠ .done held (.fail rows)) :
      Moved deps s a (s.drop t)
  | commit (minted : List String) (t : Tx) (held : List FactorId) (effect : Effect)
      (ht : t ∈ s.txs) (hstage : t.stage = .done held effect) (hunique : effect.unique s = true) :
      Moved deps s (.run t minted) ((s.drop t).apply t.began effect)

theorem free_of_heldBy {id : FactorId} (h : ¬ s.heldBy t id = true) : Free s t (.factor id) := by
  intro t' ht'
  rw [Bool.not_eq_true] at h
  exact Bool.eq_false_iff.2 (List.any_eq_false.1 h t' ht')

theorem free_of_codeHeldBy {hash : String} (h : ¬ s.codeHeldBy t hash = true) :
    Free s t (.code hash) := by
  intro t' ht'
  rw [Bool.not_eq_true] at h
  exact Bool.eq_false_iff.2 (List.any_eq_false.1 h t' ht')

theorem free_of_challengeHeldBy {challenge : String}
    (h : ¬ s.challengeHeldBy t challenge = true) : Free s t (.challenge challenge) := by
  intro t' ht'
  rw [Bool.not_eq_true] at h
  exact Bool.eq_false_iff.2 (List.any_eq_false.1 h t' ht')

theorem open_of_begun (h : t.stage = .begun) : t.stage.open := by
  rw [h]
  trivial

/-- It goes on with the factors `held` alone, each its own or free. -/
theorem Goes.done (ht : t ∈ s.txs) (hopen : t.stage.open)
    (hheld : ∀ id ∈ held, t.holds id = true ∨ Free s t (.factor id))
    (hcode : ∀ hash, effect.holdsCode hash = true → Free s t (.code hash))
    (hchallenge : ∀ c, effect.holdsChallenge c = true → t.holdsChallenge c = true)
    (hsound : t.Sound s → effect.Sound s t.began held) : Goes s t (.done held effect) := by
  refine ⟨ht, hopen, fun lock hlock => ?_, hsound⟩
  cases lock with
  | factor id => exact hheld id (of_decide_eq_true hlock)
  | code hash => exact .inr (hcode hash hlock)
  | challenge challenge => exact .inl (hchallenge challenge hlock)

/-- It ends with nothing to write. -/
theorem Goes.nothing (ht : t ∈ s.txs) (hopen : t.stage.open)
    (hheld : ∀ id ∈ held, t.holds id = true ∨ Free s t (.factor id)) :
    Goes s t (.done held .nothing) :=
  .done ht hopen hheld nofun nofun fun _ => trivial

theorem Goes.unspent (ht : t ∈ s.txs) (hopen : t.stage.open) : Goes s t .unspent := by
  refine ⟨ht, hopen, fun lock hlock => ?_, fun _ => trivial⟩
  cases lock <;> cases hlock

/-- A code that is right comes after the factor's last. -/
theorem after_of_compare {code : String} {now : Time} {id : FactorId} {row : TotpRow} {step : Int}
    (hrow : s.totps id = some row) (h : compare deps.host code now row = some (some step)) :
    After s id step := by
  obtain ⟨secret, -, hverify⟩ := Option.bind_eq_some_iff.1 h
  exact ⟨row, hrow, verifyTotp_after hverify⟩

theorem spendChallenge_moved {challenge : String} {purpose : Purpose}
    (hrequest : t.request.challenge = some (challenge, purpose)) (ht : t ∈ s.txs)
    (hopen : t.stage.open) (h : spendChallenge s t challenge purpose = some s') :
    ∃ stage, s' = s.advance t stage ∧ Goes s t stage ∧ stage.plain := by
  have hnothing : Goes s t (.done [] .nothing) := .nothing ht hopen nofun
  unfold spendChallenge at h
  split at h
  next =>
    cases h
    exact ⟨_, rfl, hnothing, trivial⟩
  next row hrow =>
    split at h
    next hvalid =>
      split at h
      next => cases h
      next hfree =>
        cases h
        refine ⟨.spent, rfl, ⟨ht, hopen, fun lock hlock => ?_, fun _ => ?_⟩, trivial⟩
        · cases lock with
          | factor id => cases hlock
          | code hash => cases hlock
          | challenge challenge' =>
              have hany : t.request.challenge.any (·.1 = challenge') = true := hlock
              rw [hrequest, Option.any_some, decide_eq_true_eq] at hany
              cases hany
              exact .inr (free_of_challengeHeldBy hfree)
        · exact ⟨challenge, purpose, hrequest, row, hrow, hvalid.2.1⟩
    next =>
      cases h
      exact ⟨_, rfl, hnothing, trivial⟩

/-- The first statement. -/
theorem start_moved (ht : t ∈ s.txs) (hstage : t.stage = .begun) (h : start deps s t = some s') :
    (∃ stage, s' = s.advance t stage ∧ Goes s t stage ∧ stage.plain) ∨ s' = s.drop t := by
  have hopen : t.stage.open := open_of_begun hstage
  have hnothing : Goes s t (.done [] .nothing) := .nothing ht hopen nofun
  have hunspent : Goes s t .unspent := .unspent ht hopen
  unfold start at h
  split at h
  next code hrequest =>
    dsimp only at h
    split at h
    next =>
      cases h
      exact .inl ⟨_, rfl, hunspent, trivial⟩
    next row hrow =>
      split at h
      next hnone =>
        split at h
        next => cases h
        next hfree =>
          cases h
          refine .inl ⟨_, rfl, .done ht hopen nofun (fun hash hhash => ?_) nofun fun _ => ?_, trivial⟩
          · rw [← of_decide_eq_true (p := _ = hash) hhash]
            exact free_of_codeHeldBy hfree
          · exact ⟨row, hrow, hnone⟩
      next =>
        cases h
        exact .inl ⟨_, rfl, hunspent, trivial⟩
  next id code hrequest =>
    split at h
    next =>
      cases h
      exact .inl ⟨_, rfl, hnothing, trivial⟩
    next =>
      split at h
      next =>
        cases h
        exact .inl ⟨_, rfl, hnothing, trivial⟩
      next row hrow =>
        split at h
        next =>
          cases h
          exact .inl ⟨_, rfl, hnothing, trivial⟩
        next =>
          split at h
          next => cases h
          next hfree =>
            have hheld : ∀ id' ∈ [id], t.holds id' = true ∨ Free s t (.factor id') := by
              intro id' hid'
              rw [List.mem_singleton.1 hid']
              exact .inr (free_of_heldBy hfree)
            split at h
            next =>
              cases h
              exact .inr rfl
            next =>
              cases h
              exact .inl ⟨_, rfl, .nothing ht hopen hheld, trivial⟩
            next step hstep =>
              cases h
              refine .inl ⟨_, rfl, ⟨ht, hopen, fun lock hlock => ?_, fun _ => ?_⟩, trivial⟩
              · cases lock with
                | factor id' => exact hheld id' (of_decide_eq_true hlock)
                | code hash => cases hlock
                | challenge challenge => cases hlock
              · exact ⟨List.mem_singleton.2 rfl, after_of_compare hrow hstep⟩
  next id hrequest =>
    split at h
    next =>
      split at h
      next => cases h
      next hfree =>
        cases h
        refine .inl ⟨_, rfl, ⟨ht, hopen, fun lock hlock => ?_, fun _ => trivial⟩, trivial⟩
        cases lock with
        | factor id' =>
            have heq := of_decide_eq_true (p := t.request = .remove id') hlock
            rw [hrequest] at heq
            cases heq
            exact .inr (free_of_heldBy hfree)
        | code hash => cases hlock
        | challenge challenge => cases hlock
    next =>
      cases h
      exact .inl ⟨_, rfl, hnothing, trivial⟩
  next label attestationObject clientDataJSON challenge hrequest =>
    split at h
    next => exact .inl (spendChallenge_moved (by rw [hrequest]; rfl) ht hopen h)
    next =>
      cases h
      exact .inl ⟨_, rfl, hnothing, trivial⟩
  next response hrequest =>
    split at h
    next => exact .inl (spendChallenge_moved (by rw [hrequest]; rfl) ht hopen h)
    next =>
      cases h
      exact .inl ⟨_, rfl, hnothing, trivial⟩

theorem scan_accepted {host : Host} {code : String} {now : Time} {id : FactorId} {step : Int} :
    ∀ {rows : List (FactorId × TotpRow)} {compared : Bool},
      scan host code now rows compared = .accepted id step →
      ∃ row, (id, row) ∈ rows ∧ compare host code now row = some (some step) := by
  intro rows
  induction rows with
  | nil =>
      intro compared h
      unfold scan at h
      split at h <;> cases h
  | cons p rest ih =>
      intro compared h
      obtain ⟨id', row⟩ := p
      unfold scan at h
      split at h
      next =>
        obtain ⟨row', hmem, hcompare⟩ := ih h
        exact ⟨row', List.mem_cons_of_mem _ hmem, hcompare⟩
      next =>
        split at h
        next => cases h
        next =>
          obtain ⟨row', hmem, hcompare⟩ := ih h
          exact ⟨row', List.mem_cons_of_mem _ hmem, hcompare⟩
        next step' hcompare =>
          cases h
          exact ⟨row, List.mem_cons_self, hcompare⟩

/-- The rows it has locked it keeps. -/
theorem holds_of_locking {rest : List FactorId} {rows : List (FactorId × TotpRow)}
    (hstage : t.stage = .locking rest rows) {id : FactorId} (hid : id ∈ rows.map Prod.fst) :
    t.holds id = true := by
  obtain ⟨p, hp, hfst⟩ := List.mem_map.1 hid
  unfold Tx.holds
  rw [hstage]
  exact List.any_eq_true.2 ⟨p, hp, decide_eq_true hfst⟩

/-- A code is evaluated. -/
theorem verify_moved {code : String} {rows : List (FactorId × TotpRow)} {minted : List String}
    (ht : t ∈ s.txs) (hrequest : t.request = .verify code) (hstage : t.stage = .locking [] rows) :
    Moved deps s (.run t minted) (verify deps s t code rows) := by
  have hopen : t.stage.open := by
    rw [hstage]
    trivial
  have hheld : ∀ id ∈ rows.map Prod.fst, t.holds id = true ∨ Free s t (.factor id) :=
    fun id hid => .inl (holds_of_locking hstage hid)
  unfold verify
  split
  next id step hscan =>
    refine .advance _ t _ (.done ht hopen hheld nofun nofun fun hsound => ?_) trivial
    obtain ⟨row, hmem, hcompare⟩ := scan_accepted hscan
    rw [Tx.Sound, hstage] at hsound
    exact ⟨List.mem_map.2 ⟨_, hmem, rfl⟩, after_of_compare (hsound _ hmem).1 hcompare⟩
  next hscan => exact .wrong minted t code rows ⟨ht, hrequest, hstage, hscan⟩
  next => exact .advance _ t _ (.nothing ht hopen hheld) trivial
  next compared hscan =>
    cases compared with
    | true => exact .threw minted t code rows ⟨ht, hrequest, hstage, hscan⟩
    | false =>
        refine .lost _ t (.inr ?_)
        rw [hstage]
        exact nofun

/-- Whose challenge is spent has it locked. -/
theorem holdsChallenge_of_spent (hstage : t.stage = .spent) {challenge : String}
    {purpose : Purpose} (hrequest : t.request.challenge = some (challenge, purpose)) :
    t.holdsChallenge challenge = true := by
  unfold Tx.holdsChallenge
  rw [hstage]
  dsimp only
  rw [hrequest]
  exact decide_eq_true rfl

theorem unspent_of_spent (hstage : t.stage = .spent) {challenge : String} {purpose : Purpose}
    (hrequest : t.request.challenge = some (challenge, purpose)) (h : t.Sound s) :
    Unspent s challenge := by
  rw [Tx.Sound, hstage] at h
  obtain ⟨challenge', purpose', hrequest', hunspent⟩ := h
  rw [hrequest] at hrequest'
  cases hrequest'
  exact hunspent

/-- What a challenge was spent on. -/
theorem finish_moved {minted : List String} (ht : t ∈ s.txs) (hstage : t.stage = .spent)
    (h : finish deps s t = some s') : Moved deps s (.run t minted) s' := by
  have hopen : t.stage.open := by
    rw [hstage]
    trivial
  unfold finish at h
  split at h
  next label attestationObject clientDataJSON challenge hrequest =>
    have hchallenge : t.request.challenge = some (challenge, .register) := by
      rw [hrequest]
      rfl
    split at h
    next => cases h
    next registration hregistration =>
      cases h
      refine .advance _ t _ ⟨ht, hopen, fun lock hlock => ?_, fun hsound => ?_⟩ trivial
      · cases lock with
        | factor id => exact absurd (of_decide_eq_true (p := id ∈ []) hlock) List.not_mem_nil
        | code hash => cases hlock
        | challenge challenge' =>
            cases of_decide_eq_true (p := challenge = challenge') hlock
            exact .inl (holdsChallenge_of_spent hstage hchallenge)
      · exact unspent_of_spent hstage hchallenge hsound
  next response hrequest =>
    have hchallenge : t.request.challenge = some (response.challenge, .authenticate) := by
      rw [hrequest]
      rfl
    -- whatever becomes of it, the challenge is held already
    have hgoes : ∀ {held : List FactorId} {effect : Effect},
        (∀ id ∈ held, Free s t (.factor id)) → (∀ hash, effect.holdsCode hash = false) →
        (∀ c, effect.holdsChallenge c = true → response.challenge = c) →
        (Unspent s response.challenge → effect.Sound s t.began held) →
        Goes s t (.done held effect) := by
      intro held effect hheld hcode hmine hsound
      refine .done ht hopen (fun id hid => .inr (hheld id hid)) (fun hash hhash => ?_)
        (fun c hc => ?_) fun hs => hsound (unspent_of_spent hstage hchallenge hs)
      · rw [hcode hash] at hhash
        cases hhash
      · rw [← hmine c hc]
        exact holdsChallenge_of_spent hstage hchallenge
    split at h
    next =>
      cases h
      exact .advance _ t _ (hgoes nofun (fun _ => rfl) (fun c hc => of_decide_eq_true hc) id)
        trivial
    next id hfound =>
      split at h
      next => cases h
      next hfree =>
        have hheld : ∀ id' ∈ [id], Free s t (.factor id') := by
          intro id' hid'
          rw [List.mem_singleton.1 hid']
          exact free_of_heldBy hfree
        split at h
        next => cases h
        next row hrow =>
          split at h
          next =>
            cases h
            exact .advance _ t _ (hgoes hheld (fun _ => rfl) (fun c hc => of_decide_eq_true hc)
              fun hunspent => hunspent) trivial
          next assertion haccepted =>
            cases h
            refine .signed minted t response id row assertion
              ⟨hrequest, hstage, hfound, hrow, haccepted⟩
              (hgoes hheld (fun _ => rfl) (fun c hc => of_decide_eq_true hc) fun hunspent => ?_)
            exact ⟨hunspent, List.mem_singleton.2 rfl, row, hrow,
              verifyAssertion_count haccepted⟩
  next => cases h

/-- The codes minted for a factor change nothing of what is locked or
found. -/
theorem Goes.minted {enrolment : Enrolment} (codes : List String) (ht : t ∈ s.txs)
    (hstage : t.stage = .proved held enrolment) :
    Goes s t (.done held (enrolment.effect codes)) := by
  have hopen : t.stage.open := by
    rw [hstage]
    trivial
  refine .done ht hopen (fun id hid => .inl ?_) (fun hash hhash => ?_) (fun c hc => ?_) fun hs => ?_
  · unfold Tx.holds
    rw [hstage]
    exact decide_eq_true hid
  · cases enrolment <;> cases hhash
  · unfold Tx.holdsChallenge
    rw [hstage]
    cases enrolment <;> exact hc
  · rw [Tx.Sound, hstage] at hs
    cases enrolment <;> exact hs

theorem plain_minted (enrolment : Enrolment) (codes : List String) (held : List FactorId) :
    (Stage.done held (enrolment.effect codes)).plain := by
  cases enrolment <;> trivial

theorem runTx_moved {minted : List String} (ht : t ∈ s.txs) (h : runTx deps s t minted = some s') :
    Moved deps s (.run t minted) s' := by
  unfold runTx at h
  split at h
  next hstage =>
    rcases start_moved ht hstage h with ⟨stage, rfl, hgoes, hplain⟩ | rfl
    · exact .advance _ t stage hgoes hplain
    · refine .lost _ t (.inr ?_)
      rw [hstage]
      exact nofun
  next hstage =>
    split at h
    next => cases h
    next =>
      cases h
      refine .advance _ t _ (.nothing ht ?_ nofun) trivial
      rw [hstage]
      trivial
  next id rest rows hstage =>
    have hopen : t.stage.open := by
      rw [hstage]
      trivial
    split at h
    next => cases h
    next hfree =>
      have hskip : Moved deps s (.run t minted) (s.advance t (.locking rest rows)) := by
        refine .advance _ t _ ⟨ht, hopen, fun lock hlock => ?_, fun hsound => ?_⟩ trivial
        · cases lock with
          | factor id' =>
              obtain ⟨p, hp, hfst⟩ := List.any_eq_true.1 hlock
              exact .inl (holds_of_locking hstage
                (List.mem_map.2 ⟨p, hp, of_decide_eq_true hfst⟩))
          | code hash => cases hlock
          | challenge challenge => cases hlock
        · rw [Tx.Sound, hstage] at hsound
          exact hsound
      split at h
      next =>
        cases h
        exact hskip
      next row hrow =>
        split at h
        next hconfirmed =>
          cases h
          refine .advance _ t _ ⟨ht, hopen, fun lock hlock => ?_, fun hsound => ?_⟩ trivial
          · cases lock with
            | factor id' =>
                obtain ⟨p, hp, hfst⟩ := List.any_eq_true.1 hlock
                rcases List.mem_append.1 hp with hold | hnew
                · exact .inl (holds_of_locking hstage
                    (List.mem_map.2 ⟨p, hold, of_decide_eq_true hfst⟩))
                · rw [List.mem_singleton.1 hnew] at hfst
                  cases of_decide_eq_true (p := id = id') hfst
                  exact .inr (free_of_heldBy hfree)
            | code hash => cases hlock
            | challenge challenge => cases hlock
          · rw [Tx.Sound, hstage] at hsound
            intro p hp
            rcases List.mem_append.1 hp with hold | hnew
            · exact hsound p hold
            · rw [List.mem_singleton.1 hnew]
              exact ⟨hrow, hconfirmed⟩
        next =>
          cases h
          exact hskip
  next rows hstage =>
    split at h
    next code hrequest =>
      cases h
      exact verify_moved ht hrequest hstage
    next => cases h
  next hstage => exact finish_moved ht hstage h
  next held enrolment hstage =>
    split at h
    next =>
      cases h
      exact .advance _ t _ (.minted [] ht hstage) (plain_minted enrolment [] held)
    next =>
      split at h
      next =>
        cases h
        exact .advance _ t _ (.minted minted ht hstage) (plain_minted enrolment minted held)
      next => cases h
  next hstage =>
    have hopen : t.stage.open := by
      rw [hstage]
      trivial
    split at h
    next id hrequest =>
      have hheld : ∀ id' ∈ [id], t.holds id' = true ∨ Free s t (.factor id') := by
        intro id' hid'
        rw [List.mem_singleton.1 hid']
        refine .inl ?_
        unfold Tx.holds
        rw [hstage]
        exact decide_eq_true hrequest
      split at h
      next =>
        dsimp only at h
        split at h
        next => cases h
        next hfree =>
          cases h
          refine .advance _ t _ (.done ht hopen hheld (fun hash hhash => ?_) nofun
            fun _ => List.mem_singleton.2 rfl) trivial
          refine free_of_codeHeldBy fun hheldBy => hfree (List.any_eq_true.2 ⟨hash, ?_, hheldBy⟩)
          exact of_decide_eq_true hhash
      next =>
        cases h
        refine .advance _ t _ (.done ht hopen hheld (fun hash hhash => ?_) nofun
          fun _ => List.mem_singleton.2 rfl) trivial
        exact absurd (of_decide_eq_true (p := hash ∈ []) hhash) List.not_mem_nil
    next => cases h
  next held effect hstage =>
    split at h
    next hunique =>
      cases h
      exact .commit minted t held effect ht hstage hunique
    next hunique =>
      cases h
      refine .lost _ t (.inr fun held' rows heq => hunique ?_)
      rw [hstage] at heq
      cases heq
      rfl

theorem enrol_moved {began : Time} {label secret : String}
    (h : enrol deps s began label secret = some s') :
    Moved deps s (.enrol began label secret) s' := by
  unfold enrol at h
  dsimp only at h
  split at h
  next hok =>
    cases h
    refine .enrol began label secret _ _ (fun id hid => ?_) ⟨rfl, rfl⟩
    have hfree := List.all_eq_true.1 hok.2.2 id hid
    rw [Bool.and_eq_true, Bool.not_eq_true', Bool.not_eq_true'] at hfree
    exact hfree.2
  next => cases h

theorem step_moved (h : step deps s a = some s') : Moved deps s a s' := by
  cases a with
  | tick elapsed =>
      cases h
      exact .tick elapsed
  | enrol began label secret => exact enrol_moved h
  | issueChallenge began purpose challenge =>
      simp only [step] at h
      split at h
      next hok =>
        cases h
        exact .issue began purpose challenge _ hok.2
      next => cases h
  | ask request =>
      cases h
      exact .ask request
  | select t order =>
      simp only [step] at h
      split at h
      next hok =>
        cases h
        refine .advance _ t _ ⟨hok.1, ?_, fun lock hlock => ?_, fun _ _ h => nomatch h⟩
          trivial
        · rw [hok.2.1]
          trivial
        · cases lock <;> cases hlock
      next => cases h
  | run t minted =>
      simp only [step] at h
      split at h
      next ht => exact runTx_moved ht h
      next => cases h
  | abort t =>
      simp only [step] at h
      split at h
      next =>
        cases h
        exact .lost _ t (.inl rfl)
      next => cases h

end Nacre.Factors
