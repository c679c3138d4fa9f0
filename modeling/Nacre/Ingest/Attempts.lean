/-
The attempt counter: what `attempts` counts, and when a document is
failed for having used it up (worker/src/claim.ts `claimNext`, adapters.ts
`claimStranded`, retry.ts `recordFailure`).

# Two counters in one

`claimNext` counts an attempt when it claims, and `claimStranded` counts
one more when it takes an abandoned claim back. So `attempts` is the
number of claims and of claims taken back since it was last set to 0
(`Counts.attempts`), while both verdicts read it as the number of claims:
`recordFailure` by its own comment, the reaper by the text of its error.

A document is never claimed too often. It is failed too early, whenever
the reaper took it back before (`Timely`).

`Tally` is a ghost: what happened to a document since its `attempts`
were last set to 0.
-/
import Nacre.Ingest.Fence

namespace Nacre.Ingest.Attempts

open Nacre.Store Transition

variable {μ : Type} [DecidableEq μ]

-- ================================================================= state

structure Tally where
  claims : Nat := 0
  reaps : Nat := 0
  deriving DecidableEq

structure World (μ : Type) where
  base : Ingest.World μ
  tally : DocId → Tally

def init (s : World μ) : Prop := ∃ base, Ingest.init base ∧ s = ⟨base, fun _ => {}⟩

/-- The document whose `attempts` an action sets to 0. -/
def resets (s : Ingest.World μ) : Action μ → Option DocId
  | .queue d req =>
      match s.docs d with
      | none => some d
      | some row => if requeues req row then some d else none
  | .retry d => some d
  | .commit d => some d
  | _ => none

def tallied (s : Ingest.World μ) (tally : DocId → Tally) (a : Action μ) :
    DocId → Tally :=
  match a with
  | .claimNext d =>
      Function.update tally d { tally d with claims := (tally d).claims + 1 }
  | .claimStranded d =>
      Function.update tally d { tally d with reaps := (tally d).reaps + 1 }
  | a =>
      match resets s a with
      | none => tally
      | some d => Function.update tally d {}

def step (cfg : Config) (s : World μ) (a : Action μ) : Option (World μ) :=
  (Ingest.step cfg s.base a).map fun base => ⟨base, tallied s.base s.tally a⟩

-- ============================================================ the property

/-- A document is failed that was not. -/
def Fails (docs docs' : DocId → Option (Document μ)) (d : DocId) : Prop :=
  (∃ row, docs d = some row ∧ row.status ≠ .failed)
    ∧ ∃ row, docs' d = some row ∧ row.status = .failed

/-- And not for an error that no retry would mend. -/
def Exhausts (s : World μ) (a : Action μ) (s' : World μ) (d : DocId) : Prop :=
  Fails s.base.docs s'.base.docs d
    ∧ ∀ p failure, a = .recordFailure p failure → failure.retryable = true

/-- A document whose attempts are exhausted was claimed `maxAttempts`
times, and none is claimed more often. -/
structure Bounded (cfg : Config) (s : World μ) (a : Action μ) (s' : World μ) :
    Prop where
  exhausted : ∀ d, Exhausts s a s' d → cfg.maxAttempts ≤ (s.tally d).claims
  claimed : ∀ d, (s'.tally d).claims ≤ cfg.maxAttempts

/-- Where a step would exhaust a document's attempts, the reaper has not
taken it back since they were last set to 0; and the reaper itself finds
them used up. -/
def Timely (cfg : Config) (s : World μ) : Action μ → Prop
  | .claimStranded d => ∀ row ∈ s.base.docs d, cfg.maxAttempts ≤ row.attempts + 1 →
      (s.tally d).reaps = 0 ∧ cfg.maxAttempts ≤ row.attempts
  | .recordFailure p failure => ∀ row ∈ s.base.docs p.docId,
      fence p.claim row = true → failure.retryable = true →
        cfg.maxAttempts ≤ row.attempts → (s.tally p.docId).reaps = 0
  | _ => True

instance (cfg : Config) (s : World μ) (a : Action μ) : Decidable (Timely cfg s a) := by
  cases a with
  | claimStranded d =>
      exact inferInstanceAs (Decidable (∀ row ∈ s.base.docs d, _))
  | recordFailure p failure =>
      exact inferInstanceAs (Decidable (∀ row ∈ s.base.docs p.docId, _))
  | _ => exact inferInstanceAs (Decidable True)

-- =========================================================== the invariant

/-- One row against its tally. -/
structure Counted (maxAttempts : Nat) (tally : Tally) (row : Document μ) : Prop where
  attempts : row.attempts = tally.claims + tally.reaps
  pending : row.status = .pending → row.attempts < maxAttempts
  busy : row.status = .parsing ∨ row.status = .indexing → row.attempts ≤ maxAttempts

structure Counts (maxAttempts : Nat) (docs : DocId → Option (Document μ))
    (tally : DocId → Tally) : Prop where
  rows : ∀ d row, docs d = some row → Counted maxAttempts (tally d) row
  claims : ∀ d, (tally d).claims ≤ maxAttempts

variable {maxAttempts : Nat} {docs : DocId → Option (Document μ)}
  {tally : DocId → Tally} {d : DocId} {row row' : Document μ} {t : Tally}

omit [DecidableEq μ] in
/-- A row is written, and its tally with it. -/
theorem Counts.update (h : Counts maxAttempts docs tally)
    (hrow : Counted maxAttempts t row) (hclaims : t.claims ≤ maxAttempts) :
    Counts maxAttempts (Function.update docs d (some row))
      (Function.update tally d t) where
  rows d' row' hrow' := by
    by_cases hd : d' = d
    · subst hd
      rw [Function.update_self] at hrow' ⊢
      cases hrow'
      exact hrow
    · rw [Function.update_of_ne hd] at hrow' ⊢
      exact h.rows d' row' hrow'
  claims d' := by
    by_cases hd : d' = d
    · subst hd
      rw [Function.update_self]
      exact hclaims
    · rw [Function.update_of_ne hd]
      exact h.claims d'

omit [DecidableEq μ] in
/-- A row is written, and nothing counted. -/
theorem Counts.write (h : Counts maxAttempts docs tally)
    (hrow : Counted maxAttempts (tally d) row) :
    Counts maxAttempts (Function.update docs d (some row)) tally := by
  have hupdate := h.update (d := d) hrow (h.claims d)
  rwa [Function.update_eq_self] at hupdate

omit [DecidableEq μ] in
theorem Counted.claims_le (h : Counted maxAttempts t row) :
    t.claims ≤ row.attempts := by
  rw [h.attempts]
  exact Nat.le_add_right ..

omit [DecidableEq μ] in
/-- A row whose `attempts` are 0 counts nothing. -/
theorem counted_zero (hmax : 1 ≤ maxAttempts) (hrow : row.attempts = 0) :
    Counted maxAttempts {} row where
  attempts := hrow
  pending _ := by omega
  busy _ := by omega

omit [DecidableEq μ] in
/-- A write that leaves `attempts` and the status alone. -/
theorem Counted.same (h : Counted maxAttempts t row)
    (hattempts : row'.attempts = row.attempts) (hstatus : row'.status = row.status) :
    Counted maxAttempts t row' where
  attempts := hattempts.trans h.attempts
  pending hpending := hattempts ▸ h.pending (hstatus ▸ hpending)
  busy hbusy := hattempts ▸ h.busy (hstatus ▸ hbusy)

omit [DecidableEq μ] in
theorem Counted.claimed (h : Counted maxAttempts t row) {now : Time}
    (hclaimable : claimable now row = true) :
    Counted maxAttempts { t with claims := t.claims + 1 } (claimed now row) := by
  have hbound := h.pending (pending_of_claimable hclaimable).1
  have hattempts := h.attempts
  refine ⟨?_, nofun, fun _ => hbound⟩
  show row.attempts + 1 = t.claims + 1 + t.reaps
  omega

omit [DecidableEq μ] in
theorem Counted.reaped (h : Counted maxAttempts t row) {now : Time} :
    Counted maxAttempts { t with reaps := t.reaps + 1 }
      (reaped maxAttempts now row) := by
  have hattempts := h.attempts
  refine ⟨?_, fun hpending => ?_, fun hbusy => ?_⟩
  · show row.attempts + 1 = t.claims + (t.reaps + 1)
    omega
  · show row.attempts + 1 < maxAttempts
    by_contra hmany
    simp [Store.reaped, not_lt.1 hmany] at hpending
  · unfold Store.reaped at hbusy
    dsimp only at hbusy
    split at hbusy
    · simp at hbusy
    · simp at hbusy

omit [DecidableEq μ] in
theorem Counted.failed (h : Counted maxAttempts t row) {claim : Time}
    {failure : Failure} {now : Time} :
    Counted maxAttempts t (failed claim failure maxAttempts now row) := by
  unfold Store.failed
  dsimp only
  split
  case isFalse => exact h
  case isTrue =>
    refine ⟨h.attempts, fun hpending => ?_, fun hbusy => ?_⟩
    · show row.attempts < maxAttempts
      by_contra hmany
      simp [hmany] at hpending
    · exfalso
      revert hbusy
      dsimp only
      split
      · simp
      · simp

theorem Counted.resent (h : Counted maxAttempts t row) {req : IngestRequest μ}
    {now : Time} (hsame : requeues req row = false) :
    Counted maxAttempts t (resent req now row) :=
  h.same (by simp [Store.resent, hsame]) (by simp [Store.resent, hsame])

theorem resent_attempts {req : IngestRequest μ} {now : Time}
    (hagain : requeues req row = true) : (resent req now row).attempts = 0 := by
  simp [Store.resent, hagain]

omit [DecidableEq μ] in
theorem retried_attempts {now : Time} (h : retried now row = some row') :
    row'.attempts = 0 := by
  unfold retried at h
  rw [Option.ite_none_right_eq_some] at h
  cases h.2
  rfl

-- ======================================================= what a step keeps

variable {cfg : Config} {s s' : World μ} {a : Action μ}

theorem step_inv (h : step cfg s a = some s') :
    Stepped cfg s.base a s'.base ∧ s'.tally = tallied s.base s.tally a := by
  obtain ⟨base, hbase, rfl⟩ := Option.map_eq_some_iff.1 h
  exact ⟨Ingest.step_inv hbase, rfl⟩

theorem Counts.step {base base' : Ingest.World μ} (hmax : 1 ≤ cfg.maxAttempts)
    (h : Counts cfg.maxAttempts base.docs tally) (hs : Stepped cfg base a base') :
    Counts cfg.maxAttempts base'.docs (tallied base tally a) := by
  cases hs with
  | queueNew d req hfree hrow =>
      simp only [tallied, resets, hrow]
      exact h.update (counted_zero hmax rfl) (Nat.zero_le _)
  | queueAgain d req row hfree hrow =>
      simp only [tallied, resets, hrow]
      cases hagain : requeues req row with
      | true =>
          simp only [if_true]
          exact h.update (counted_zero hmax (resent_attempts hagain)) (Nat.zero_le _)
      | false =>
          simp only [Bool.false_eq_true, if_false]
          exact h.write ((h.rows d row hrow).resent hagain)
  | updateMetadata d metadata row hfree hrow =>
      exact h.write ((h.rows d row hrow).same rfl rfl)
  | retry d row row' hfree hrow hretried =>
      exact h.update (counted_zero hmax (retried_attempts hretried)) (Nat.zero_le _)
  | claimNext d row hfree hrow hclaimable =>
      have hcounted := (h.rows d row hrow).claimed hclaimable
      exact h.update hcounted (le_trans hcounted.claims_le (hcounted.busy (.inl rfl)))
  | commit d p content ids row hlock hrow =>
      exact h.update (counted_zero hmax rfl) (Nat.zero_le _)
  | recordFailure p failure row hfree hrow hpass =>
      exact h.write (h.rows p.docId row hrow).failed
  | claimStranded d row hfree hrow hexpired =>
      exact h.update (h.rows d row hrow).reaped (h.claims d)
  | commitRemove d row hlock hrow => exact h.write ((h.rows d row hrow).same rfl rfl)
  | _ => exact h

theorem reachable_counts (hmax : 1 ≤ cfg.maxAttempts) {ok : World μ → Action μ → Prop}
    (hs : Reachable (step cfg) ok init s) :
    Counts cfg.maxAttempts s.base.docs s.tally := by
  refine hs.invariant
    (I := fun w => Counts cfg.maxAttempts w.base.docs w.tally) ?_ ?_
  · intro _ hex
    obtain ⟨_, ⟨now, rfl⟩, rfl⟩ := hex
    refine ⟨fun d row hrow => ?_, fun d => Nat.zero_le _⟩
    cases hrow
  · intro w a w' h _ hstep
    obtain ⟨hbase, htally⟩ := step_inv hstep
    rw [htally]
    exact h.step hmax hbase

-- ============================================================ the verdicts

omit [DecidableEq μ] in
theorem Fails.update {d' : DocId}
    (h : Fails docs (Function.update docs d (some row')) d') (hrow : docs d = some row) :
    d' = d ∧ row.status ≠ .failed ∧ row'.status = .failed := by
  obtain ⟨⟨before, hbefore, hnot⟩, ⟨after, hafter, hfailed⟩⟩ := h
  by_cases hd : d' = d
  · subst hd
    rw [Function.update_self] at hafter
    cases hafter
    cases hbefore.symm.trans hrow
    exact ⟨rfl, hnot, hfailed⟩
  · rw [Function.update_of_ne hd, hbefore] at hafter
    cases hafter
    exact absurd hfailed hnot

omit [DecidableEq μ] in
theorem fails_update (hrow : docs d = some row) (hnot : row.status ≠ .failed)
    (hfailed : row'.status = .failed) :
    Fails docs (Function.update docs d (some row')) d :=
  ⟨⟨row, hrow, hnot⟩, ⟨row', Function.update_self .., hfailed⟩⟩

omit [DecidableEq μ] in
theorem busy_of_expired {leaseSeconds : Nat} {now : Time}
    (h : expired leaseSeconds now row = true) :
    row.status = .parsing ∨ row.status = .indexing := by
  unfold expired at h
  rw [Bool.and_eq_true, Bool.or_eq_true] at h
  simpa using h.1

omit [DecidableEq μ] in
theorem not_failed_of_busy (h : row.status = .parsing ∨ row.status = .indexing) :
    row.status ≠ .failed := by
  rcases h with h | h
  · rw [h]
    nofun
  · rw [h]
    nofun

omit [DecidableEq μ] in
theorem reaped_failed (now : Time) :
    (reaped maxAttempts now row).status = .failed ↔ maxAttempts ≤ row.attempts + 1 := by
  simp [reaped]

omit [DecidableEq μ] in
theorem failed_failed {claim : Time} {failure : Failure} (now : Time)
    (hretryable : failure.retryable = true) (hnot : row.status ≠ .failed) :
    (failed claim failure maxAttempts now row).status = .failed
      ↔ fence claim row = true ∧ maxAttempts ≤ row.attempts := by
  unfold failed
  dsimp only
  rw [hretryable]
  split
  next hfence => simp [hfence]
  next hfence => simp [hfence, hnot]

/-- Only the two verdicts fail a document. -/
theorem fails_cases {base base' : Ingest.World μ} (hs : Stepped cfg base a base')
    (h : Fails base.docs base'.docs d) :
    (a = .claimStranded d ∧ ∃ row, base.docs d = some row
        ∧ (row.status = .parsing ∨ row.status = .indexing)
        ∧ cfg.maxAttempts ≤ row.attempts + 1)
      ∨ ∃ p failure row, a = .recordFailure p failure ∧ p.docId = d
        ∧ base.docs d = some row ∧ row.status ≠ .failed
        ∧ (failed p.claim failure cfg.maxAttempts base.now row).status = .failed := by
  have hsame : ¬ Fails base.docs base.docs d := by
    intro hall
    obtain ⟨⟨row, hrow, hnot⟩, ⟨row', hrow', hfailed⟩⟩ := hall
    cases hrow.symm.trans hrow'
    exact hnot hfailed
  cases hs with
  | queueNew d' req hfree hrow =>
      obtain ⟨⟨before, hbefore, hnot⟩, ⟨after, hafter, hfailed⟩⟩ := h
      have hd : d ≠ d' := by
        intro heq
        subst heq
        rw [hrow] at hbefore
        cases hbefore
      rw [setRow_ne _ _ _ hd] at hafter
      exact absurd ⟨⟨before, hbefore, hnot⟩, ⟨after, hafter, hfailed⟩⟩ hsame
  | queueAgain d' req row hfree hrow =>
      obtain ⟨rfl, hnot, hfailed⟩ := h.update hrow
      simp only [resent] at hfailed
      split at hfailed
      · cases hfailed
      · exact absurd hfailed hnot
  | updateMetadata d' metadata row hfree hrow =>
      obtain ⟨-, hnot, hfailed⟩ := h.update hrow
      exact absurd hfailed hnot
  | retry d' row row' hfree hrow hretried =>
      obtain ⟨-, hnot, hfailed⟩ := h.update hrow
      unfold retried at hretried
      rw [Option.ite_none_right_eq_some] at hretried
      exact absurd hretried.1 hnot
  | claimNext d' row hfree hrow hclaimable =>
      obtain ⟨-, -, hfailed⟩ := h.update hrow
      cases hfailed
  | commit d' p content ids row hlock hrow =>
      obtain ⟨-, -, hfailed⟩ := h.update hrow
      cases hfailed
  | recordFailure p failure row hfree hrow hpass =>
      obtain ⟨rfl, hnot, hfailed⟩ := h.update hrow
      exact .inr ⟨p, failure, row, rfl, rfl, hrow, hnot, hfailed⟩
  | claimStranded d' row hfree hrow hexpired =>
      obtain ⟨rfl, -, hfailed⟩ := h.update hrow
      exact .inl ⟨rfl, row, hrow, busy_of_expired hexpired, (reaped_failed base.now).1 hfailed⟩
  | commitRemove d' row hlock hrow =>
      obtain ⟨-, hnot, hfailed⟩ := h.update hrow
      exact absurd hfailed hnot
  | _ => exact absurd h hsame

/-- In every run, at every step: a document is failed for its attempts
only after `maxAttempts` claims exactly when the reaper did not count one
twice before, and no document is claimed more often. -/
theorem bounded_iff_timely (hmax : 1 ≤ cfg.maxAttempts)
    (hs : Reachable (step cfg) anyStep init s) (hstep : step cfg s a = some s') :
    Bounded cfg s a s' ↔ Timely cfg s a := by
  have hcounts := reachable_counts hmax hs
  obtain ⟨base', tally'⟩ := s'
  obtain ⟨hbase, htally⟩ := step_inv hstep
  constructor
  · intro h
    cases a with
    | claimStranded d =>
        intro row hrow hmany
        rw [Option.mem_def] at hrow
        cases hbase with
        | claimStranded _ row' hfree hrow' hexpired =>
            cases hrow.symm.trans hrow'
            have hbusy := busy_of_expired hexpired
            have hfails := fails_update hrow (not_failed_of_busy hbusy)
              ((reaped_failed s.base.now).2 hmany)
            have hclaims := h.exhausted d ⟨hfails, nofun⟩
            have hattempts := (hcounts.rows d row hrow).attempts
            have hbound := (hcounts.rows d row hrow).busy hbusy
            omega
    | recordFailure p failure =>
        intro row hrow hfence hretryable hmany
        rw [Option.mem_def] at hrow
        cases hbase with
        | recordFailure _ _ row' hfree hrow' hpass =>
            cases hrow.symm.trans hrow'
            have hparsing := (fence_iff.1 hfence).2.1
            have hnot := not_failed_of_busy (.inl hparsing)
            have hfails := fails_update hrow hnot
              ((failed_failed s.base.now hretryable hnot).2 ⟨hfence, hmany⟩)
            have hclaims := h.exhausted p.docId ⟨hfails, fun p' failure' heq => by
              cases heq
              exact hretryable⟩
            have hattempts := (hcounts.rows p.docId row hrow).attempts
            have hbound := (hcounts.rows p.docId row hrow).busy (.inl hparsing)
            omega
    | _ => trivial
  · intro htimely
    refine ⟨fun d hexhausts => ?_, fun d => ?_⟩
    · obtain ⟨hfails, hretryable⟩ := hexhausts
      rcases fails_cases hbase hfails with
        ⟨rfl, row, hrow, hbusy, hmany⟩ | ⟨p, failure, row, rfl, rfl, hrow, hnot, hfailed⟩
      · have hattempts := (hcounts.rows d row hrow).attempts
        obtain ⟨hreaps, hused⟩ := htimely row hrow hmany
        omega
      · have hretry := hretryable p failure rfl
        obtain ⟨hfence, hmany⟩ := (failed_failed s.base.now hretry hnot).1 hfailed
        have hattempts := (hcounts.rows p.docId row hrow).attempts
        have hreaps := htimely row hrow hfence hretry hmany
        omega
    · rw [htally]
      exact (hcounts.step hmax hbase).claims d

-- ============================================================ a document

def sampleWorld : World Nat := ⟨World.empty Nat 0, fun _ => {}⟩

theorem init_sampleWorld : init sampleWorld := ⟨_, ⟨0, rfl⟩, rfl⟩

/-- Two attempts, and the shortest lease. -/
def twiceConfig : Config := ⟨60, 2⟩

def transient : Failure := ⟨"fetch failed", true, 0⟩

/-- A document is sent and claimed. -/
def claimRun : List (Action Nat) :=
  [.queue "doc" (sampleRequest "one" 1), .claimNext "doc"]

/-- It fails, is claimed again, and is failing once more. -/
def failingWorld : World Nat :=
  (runWithin (step twiceConfig) anyStep sampleWorld
    (claimRun ++ [.recordFailure ⟨"doc", 0, 1, false⟩ transient, .tick,
      .claimNext "doc"])).get (by decide)

theorem bounded_iff_timely_failed :
    Bounded twiceConfig failingWorld (.recordFailure ⟨"doc", 1, 1, false⟩ transient)
        ((step twiceConfig failingWorld
          (.recordFailure ⟨"doc", 1, 1, false⟩ transient)).get (by decide))
      ∧ (failingWorld.tally "doc").claims = 2 :=
  ⟨(bounded_iff_timely (by decide) (reachable_get init_sampleWorld _)
      (Option.some_get _).symm).2 (by decide),
    by decide⟩

/-- It is claimed once, and the worker dies. -/
def strandedWorld : World Nat :=
  (runWithin (step twiceConfig) anyStep sampleWorld
    (claimRun ++ List.replicate 61 .tick)).get (by decide)

/-- The reaper fails it after the first of two attempts. -/
theorem failed_after_one_claim :
    ∃ (s s' : World Nat) (a : Action Nat), Reachable (step twiceConfig) anyStep init s
      ∧ step twiceConfig s a = some s' ∧ ¬ Bounded twiceConfig s a s' := by
  refine ⟨strandedWorld, (step twiceConfig strandedWorld (.claimStranded "doc")).get
      (by decide), .claimStranded "doc", reachable_get init_sampleWorld _,
    (Option.some_get _).symm, fun h => ?_⟩
  have hclaims := h.exhausted "doc"
    ⟨⟨⟨_, rfl, by decide⟩, ⟨_, rfl, by decide⟩⟩, nofun⟩
  revert hclaims
  decide

end Nacre.Ingest.Attempts
