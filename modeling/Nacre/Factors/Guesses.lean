/-
How many wrong codes are evaluated between two that are accepted.

# The count that carries the bound

A wrong code is counted against every factor that was not locked, and from
the fifth on locks it for fifteen minutes. As long as the factors are
selected together and none of them is locked while another is not, each of
them carries all the wrong codes since the last that was accepted
(`TotpRow.Carries`), and the next is evaluated after the last one's lock
(`Pace.Paced`). A count that is written and not committed is carried by its
transaction, which has every one of these rows locked.

# Where it does not

A right code clears the count of its own factor only, and a factor that is
confirmed starts from none. So the factors come apart, one is locked while
another still answers, and afterwards each of them gives a guess for every
fifteen minutes (`guesses_apart`). A lock is stamped with the moment the
transaction began, and a code is evaluated when its rows are locked, which
may be later. And what is compared but not committed is not counted: the
transaction is lost, or a secret that does not open throws after another
factor was asked. `Level` and `Fair` leave these out.
-/
import Nacre.Factors.Spent
import Nacre.Lib.Pace

namespace Nacre.Factors

open Transition Pace
open Nacre.Store (Time)

variable {deps : Deps} {s s' : World} {a : Action} {t : Tx} {held : List FactorId}
  {effect : Effect} {stage : Stage} {log : List Event} {event : Event}

-- ============================================================ the property

def Event.accepts : Event → Bool
  | .accepted _ _ => true
  | _ => false

def Event.wrongAt : Event → Option Time
  | .wrong time => some time
  | _ => none

/-- In every period without an accepted code, and so in every period between
successes, at most five wrong codes and one for every fifteen minutes. -/
def FewGuesses (log : List Event) : Prop :=
  ∀ period, period <:+: log → (∀ event ∈ period, event.accepts = false) →
    ∀ first length, (period.filterMap Event.wrongAt).countP (within first (seconds length))
      ≤ maxFailures + length / lockSeconds

structure Bounded (s : World) : Prop where
  steps : ∀ id, (s.steps id).Pairwise (· > ·)
  last : ∀ id row, s.totps id = some row → row.lastStep = (s.steps id).head?
  codes : s.recovered.Nodup
  challenges : s.spent.Nodup
  guesses : FewGuesses s.log

-- =========================================================== the condition

/-- The code a transaction is about to compare, and the rows it has locked
for it. -/
def Tx.evaluates : Tx → Option (Time × String × List (FactorId × TotpRow))
  | ⟨began, .verify code, .locking [] rows⟩ => some (began, code, rows)
  | _ => none

def Action.evaluates : Action → Option (Time × String × List (FactorId × TotpRow))
  | .run t _ => t.evaluates
  | _ => none

/-- It has a wrong code to count. -/
def Tx.counts (t : Tx) : Bool :=
  match t.stage with
  | .done _ (.fail _) => true
  | _ => false

def Action.loses : Action → Option Tx
  | .abort t => some t
  | _ => none

/-- Nothing is thrown: every secret opens. -/
def Opens (deps : Deps) (now : Time) (code : String) (rows : List (FactorId × TotpRow)) : Prop :=
  ∀ p ∈ rows, p.2.locked now = false → (compare deps.host code now p.2).isSome = true

/-- There is a factor to compare the code with, and it is none's. -/
def Wrong (deps : Deps) (now : Time) (code : String) (rows : List (FactorId × TotpRow)) : Prop :=
  (∃ p ∈ rows, p.2.locked now = false)
    ∧ ∀ p ∈ rows, p.2.locked now = false → (compare deps.host code now p.2).join = none

/-- All the factors are asked, none of them is locked, and a lock is stamped
with the moment of the comparison. -/
structure Level (s : World) (began : Time) (rows : List (FactorId × TotpRow)) : Prop where
  all : ∀ id ∈ s.ids, s.confirmed id = true → id ∈ rows.map Prod.fst
  unlocked : ∀ p ∈ rows, p.2.locked s.now = false
  prompt : ∀ p ∈ rows, maxFailures ≤ p.2.failedAttempts + 1 → began = s.now

instance (deps : Deps) (now : Time) (code : String) (rows : List (FactorId × TotpRow)) :
    Decidable (Opens deps now code rows) :=
  inferInstanceAs (Decidable (∀ p ∈ rows, _ → _))

instance (deps : Deps) (now : Time) (code : String) (rows : List (FactorId × TotpRow)) :
    Decidable (Wrong deps now code rows) :=
  inferInstanceAs (Decidable ((∃ p ∈ rows, _) ∧ ∀ p ∈ rows, _ → _))

instance (s : World) (began : Time) (rows : List (FactorId × TotpRow)) :
    Decidable (Level s began rows) :=
  decidable_of_iff ((∀ id ∈ s.ids, s.confirmed id = true → id ∈ rows.map Prod.fst)
      ∧ (∀ p ∈ rows, p.2.locked s.now = false)
      ∧ ∀ p ∈ rows, maxFailures ≤ p.2.failedAttempts + 1 → began = s.now)
    ⟨fun h => ⟨h.1, h.2.1, h.2.2⟩, fun h => ⟨h.all, h.unlocked, h.prompt⟩⟩

/-- What a step of a run may do: a code is compared where every secret
opens, a wrong one where the factors are level, and a transaction that is
to count one is not lost. -/
def Fair (deps : Deps) (s : World) (a : Action) : Prop :=
  (∀ e ∈ a.evaluates, Opens deps s.now e.2.1 e.2.2
    ∧ (Wrong deps s.now e.2.1 e.2.2 → Level s e.1 e.2.2))
  ∧ ∀ t ∈ a.loses, t.counts = false

instance (deps : Deps) (s : World) (a : Action) : Decidable (Fair deps s a) :=
  inferInstanceAs (Decidable ((∀ e ∈ a.evaluates, _) ∧ ∀ t ∈ a.loses, _))

-- =============================================================== the verdict

theorem scan_wrong {host : Host} {code : String} {now : Time} :
    ∀ {rows : List (FactorId × TotpRow)} {compared : Bool},
      scan host code now rows compared = .wrong →
      (compared = true ∨ ∃ p ∈ rows, p.2.locked now = false)
        ∧ ∀ p ∈ rows, p.2.locked now = false → compare host code now p.2 = some none := by
  intro rows
  induction rows with
  | nil =>
      intro compared h
      unfold scan at h
      split at h
      next hcompared => exact ⟨.inl hcompared, List.forall_mem_nil _⟩
      next => cases h
  | cons p rest ih =>
      intro compared h
      obtain ⟨id, row⟩ := p
      unfold scan at h
      split at h
      next hlocked =>
        obtain ⟨hsome, hall⟩ := ih h
        refine ⟨hsome.imp_right ?_, fun q hq hfree => ?_⟩
        · rintro ⟨q, hq, hfree⟩
          exact ⟨q, List.mem_cons_of_mem _ hq, hfree⟩
        rcases List.mem_cons.1 hq with rfl | hrest
        · rw [hlocked] at hfree
          cases hfree
        · exact hall q hrest hfree
      next hunlocked =>
        have hfree : row.locked now = false := Bool.eq_false_iff.2 hunlocked
        split at h
        next => cases h
        next hcompare =>
          refine ⟨.inr ⟨(id, row), List.mem_cons_self, hfree⟩, fun q hq hqfree => ?_⟩
          rcases List.mem_cons.1 hq with rfl | hrest
          · exact hcompare
          · exact (ih h).2 q hrest hqfree
        next => cases h

theorem scan_thrown {host : Host} {code : String} {now : Time} {after : Bool} :
    ∀ {rows : List (FactorId × TotpRow)} {compared : Bool},
      scan host code now rows compared = .thrown after →
      ∃ p ∈ rows, p.2.locked now = false ∧ compare host code now p.2 = none := by
  intro rows
  induction rows with
  | nil =>
      intro compared h
      unfold scan at h
      split at h <;> cases h
  | cons p rest ih =>
      intro compared h
      obtain ⟨id, row⟩ := p
      unfold scan at h
      split at h
      next =>
        obtain ⟨q, hq, hthrows⟩ := ih h
        exact ⟨q, List.mem_cons_of_mem _ hq, hthrows⟩
      next hunlocked =>
        split at h
        next hcompare =>
          exact ⟨(id, row), List.mem_cons_self, Bool.eq_false_iff.2 hunlocked, hcompare⟩
        next =>
          obtain ⟨q, hq, hthrows⟩ := ih h
          exact ⟨q, List.mem_cons_of_mem _ hq, hthrows⟩
        next => cases h

theorem Evaluates.evaluates {code : String} {rows : List (FactorId × TotpRow)} {verdict : Verdict}
    {minted : List String} (h : Evaluates deps s t code rows verdict) :
    (t.began, code, rows) ∈ (Action.run t minted).evaluates := by
  obtain ⟨began, request, stage⟩ := t
  cases h.request
  cases h.stage
  rfl

/-- A wrong code is evaluated where the factors are level. -/
theorem level_of_wrong {code : String} {rows : List (FactorId × TotpRow)} {minted : List String}
    (h : Evaluates deps s t code rows .wrong) (hok : Fair deps s (.run t minted)) :
    Level s t.began rows ∧ ∃ p ∈ rows, p.2.locked s.now = false := by
  obtain ⟨hsome, hall⟩ := scan_wrong h.scan
  have hfree : ∃ p ∈ rows, p.2.locked s.now = false := hsome.resolve_left nofun
  refine ⟨(hok.1 _ h.evaluates).2 ⟨hfree, fun p hp hunlocked => ?_⟩, hfree⟩
  rw [hall p hp hunlocked]
  rfl

/-- And nothing is thrown. -/
theorem not_thrown {code : String} {rows : List (FactorId × TotpRow)} {minted : List String}
    {after : Bool} (h : Evaluates deps s t code rows (.thrown after))
    (hok : Fair deps s (.run t minted)) : False := by
  obtain ⟨p, hp, hfree, hnone⟩ := scan_thrown h.scan
  have hsome := (hok.1 _ h.evaluates).1 p hp hfree
  rw [hnone] at hsome
  cases hsome

-- ============================================================ the guesses

/-- The wrong codes since the last that was accepted, the latest first. -/
def guesses (log : List Event) : List Time :=
  (log.takeWhile fun event => !event.accepts).filterMap Event.wrongAt

theorem guesses_accepts (h : event.accepts = true) : guesses (event :: log) = [] := by
  unfold guesses
  rw [List.takeWhile_cons_of_neg]
  · rfl
  · rw [h]
    exact Bool.false_ne_true

theorem guesses_wrong (time : Time) : guesses (.wrong time :: log) = time :: guesses log := rfl

/-- An event that is no guess and no code. -/
def Event.idle (event : Event) : Bool := !event.accepts && event.wrongAt = none

theorem guesses_idle (h : event.idle = true) : guesses (event :: log) = guesses log := by
  obtain ⟨haccepts, hwrong⟩ := Bool.and_eq_true_iff.1 h
  unfold guesses
  rw [List.takeWhile_cons, if_pos haccepts, List.filterMap_cons_none (of_decide_eq_true hwrong)]

theorem guesses_append {events : List Event} (h : ∀ e ∈ events, e.idle = true) :
    guesses (events ++ log) = guesses log := by
  induction events with
  | nil => rfl
  | cons first rest ih =>
      rw [List.cons_append, guesses_idle (h first List.mem_cons_self)]
      exact ih fun e he => h e (List.mem_cons_of_mem _ he)

/-- The pace bounds every period of the log. -/
theorem FewGuesses.cons (h : FewGuesses log)
    (hpaced : Paced maxFailures (seconds lockSeconds) (guesses (event :: log))) :
    FewGuesses (event :: log) := by
  intro period hinfix hnone first length
  rcases List.infix_cons_iff.1 hinfix with hprefix | hold
  · have hsub : period <+: (event :: log).takeWhile fun event => !event.accepts := by
      obtain ⟨rest, hrest⟩ := hprefix
      rw [← hrest, List.takeWhile_append_of_pos]
      · exact List.prefix_append _ _
      · intro e he
        rw [hnone e he]
        rfl
    have hle := (hsub.sublist.filterMap Event.wrongAt).countP_le
      (p := within first (seconds length))
    have hbound := hpaced.countP_within_le (by decide) (by decide) first (seconds length)
    have hunits : seconds length / seconds lockSeconds = length / lockSeconds :=
      Nat.mul_div_mul_left length lockSeconds (by decide)
    rw [hunits] at hbound
    exact Nat.le_trans hle hbound
  · exact h period hold hnone first length

theorem FewGuesses.append {events : List Event} (h : FewGuesses log)
    (hpaced : Paced maxFailures (seconds lockSeconds) (guesses log))
    (hidle : ∀ e ∈ events, e.idle = true) : FewGuesses (events ++ log) := by
  induction events with
  | nil => exact h
  | cons first rest ih =>
      refine (ih fun e he => hidle e (List.mem_cons_of_mem _ he)).cons ?_
      rw [← List.cons_append, guesses_append hidle]
      exact hpaced

-- =========================================================== the invariant

/-- The factor has counted them all, and from the fifth on is locked until
fifteen minutes after each. -/
def TotpRow.Carries (times : List Time) (row : TotpRow) : Prop :=
  times.length ≤ row.failedAttempts
    ∧ (maxFailures ≤ times.length → ∃ until', row.lockedUntil = some until'
      ∧ ∀ time ∈ times, time + seconds lockSeconds ≤ until')

theorem TotpRow.carries_nil (row : TotpRow) : row.Carries [] :=
  ⟨Nat.zero_le _, fun h => absurd h (by decide)⟩

/-- A wrong code that is to be counted against the factor. -/
def Pending (s : World) (id : FactorId) (row : TotpRow) : Prop :=
  ∃ t ∈ s.txs, ∃ held rows, t.stage = .done held (.fail rows) ∧ (id, row) ∈ rows

structure Guarded (s : World) : Prop where
  locked : Locked s
  past : ∀ time ∈ guesses s.log, time ≤ s.now
  paced : Paced maxFailures (seconds lockSeconds) (guesses s.log)
  carried : ∀ id row, s.totps id = some row → row.confirmed = true →
    row.Carries (guesses s.log) ∨ ∃ row', Pending s id row'
  pending : ∀ id row, Pending s id row → row.Carries (guesses s.log)
  few : FewGuesses s.log

/-- Who is to count a wrong code against a factor has it locked. -/
theorem Locked.pending (h : Locked s) {rows : List (FactorId × TotpRow)} {id : FactorId}
    {row : TotpRow} (ht : t ∈ s.txs) (hstage : t.stage = .done held (.fail rows))
    (hmem : (id, row) ∈ rows) :
    t.locks (.factor id) = true ∧ s.confirmed id = true ∧ id ∈ s.ids := by
  obtain ⟨hheld, row₀, hrow₀, hconfirmed, -⟩ := h.written ht hstage _ hmem
  refine ⟨?_, ?_, h.totps id row₀ hrow₀⟩
  · show t.holds id = true
    unfold Tx.holds
    rw [hstage]
    exact decide_eq_true hheld
  · unfold World.confirmed
    rw [show s.totps id = some row₀ from hrow₀]
    exact hconfirmed

/-- Nothing is counted, and nothing that is to be is lost. -/
theorem Guarded.frame (h : Guarded s) (events : List Event) (hlocked : Locked s')
    (hnow : s.now ≤ s'.now) (hlog : s'.log = events ++ s.log) (hidle : ∀ e ∈ events, e.idle = true)
    (htotps : ∀ id row, s'.totps id = some row → row.confirmed = true → s.totps id = some row)
    (hkept : ∀ t ∈ s.txs, t.counts = true → t ∈ s'.txs)
    (hnew : ∀ t ∈ s'.txs, t.counts = true → t ∈ s.txs) : Guarded s' := by
  have hsame : guesses s'.log = guesses s.log := by
    rw [hlog]
    exact guesses_append hidle
  have hcounts : ∀ {t : Tx} {held : List FactorId} {rows : List (FactorId × TotpRow)},
      t.stage = .done held (.fail rows) → t.counts = true := by
    intro t held rows hstage
    unfold Tx.counts
    rw [hstage]
  refine ⟨hlocked, ?_, ?_, ?_, ?_, ?_⟩
  · rw [hsame]
    exact fun time htime => Nat.le_trans (h.past time htime) hnow
  · rw [hsame]
    exact h.paced
  · rw [hsame]
    intro id row hrow hconfirmed
    refine (h.carried id row (htotps id row hrow hconfirmed) hconfirmed).imp_right ?_
    rintro ⟨row', t, ht, held, rows, hstage, hmem⟩
    exact ⟨row', t, hkept t ht (hcounts hstage), held, rows, hstage, hmem⟩
  · rw [hsame]
    rintro id row ⟨t, ht, held, rows, hstage, hmem⟩
    exact h.pending id row ⟨t, hnew t ht (hcounts hstage), held, rows, hstage, hmem⟩
  · rw [hlog]
    exact h.few.append h.paced hidle

/-- A code is accepted: there is nothing to carry. -/
theorem Guarded.accepted (h : Guarded s) (haccepts : event.accepts = true)
    (hlog : s'.log = event :: s.log) (hlocked : Locked s') : Guarded s' := by
  have hnil : guesses s'.log = [] := by
    rw [hlog]
    exact guesses_accepts haccepts
  refine ⟨hlocked, ?_, ?_, fun id row _ _ => .inl ?_, fun id row _ => ?_, ?_⟩
  · rw [hnil]
    exact nofun
  · rw [hnil]
    trivial
  · rw [hnil]
    exact row.carries_nil
  · rw [hnil]
    exact row.carries_nil
  · rw [hlog]
    refine h.few.cons ?_
    rw [guesses_accepts haccepts]
    trivial

/-- A wrong code, where the factors are level: each of them is to carry it
too. -/
theorem Guarded.wrong {code : String} {rows : List (FactorId × TotpRow)}
    (h : Guarded s) (heval : Evaluates deps s t code rows .wrong) (hlevel : Level s t.began rows)
    (hsome : ∃ p ∈ rows, p.2.locked s.now = false) :
    Guarded ((s.advance t (.done (rows.map Prod.fst) (.fail (failing t.began s.now rows)))).record
      (.wrong s.now)) := by
  have hrows := h.locked.sound t heval.mem
  rw [Tx.Sound, heval.stage] at hrows
  have hmine : ∀ id ∈ rows.map Prod.fst, t.locks (.factor id) = true :=
    fun id hid => holds_of_locking heval.stage hid
  -- nobody else has a wrong code to count: it would have one of these rows
  have hfree : ∀ id row, ¬ Pending s id row := by
    rintro id row ⟨t', ht', held, rows', hstage, hmem⟩
    obtain ⟨hlock, hconfirmed, hid⟩ := h.locked.pending ht' hstage hmem
    have hne : t' ≠ t := by
      rintro rfl
      rw [heval.stage] at hstage
      cases hstage
    have hnot := h.locked.other heval.mem (hmine id (hlevel.all id hid hconfirmed))
      ((List.mem_erase_of_ne hne).2 ht')
    rw [hnot] at hlock
    cases hlock
  -- so every row carries what there was
  have hcarries : ∀ p ∈ rows, p.2.Carries (guesses s.log) := by
    intro p hp
    refine (h.carried p.1 p.2 (hrows p hp).1 (hrows p hp).2).resolve_right ?_
    rintro ⟨row', hpending⟩
    exact hfree p.1 row' hpending
  -- and with the new one carries that as well
  have hnext : ∀ p ∈ rows, (p.2.failed t.began).Carries (s.now :: guesses s.log) := by
    intro p hp
    obtain ⟨hcount, -⟩ := hcarries p hp
    refine ⟨Nat.succ_le_succ hcount, fun hfive => ⟨s.now + seconds lockSeconds, ?_, ?_⟩⟩
    · have hmax : maxFailures ≤ p.2.failedAttempts + 1 :=
        Nat.le_trans hfive (Nat.succ_le_succ hcount)
      unfold TotpRow.failed
      dsimp only
      rw [if_pos hmax, hlevel.prompt p hp hmax]
    · intro time htime
      refine Nat.add_le_add_right ?_ _
      rcases List.mem_cons.1 htime with rfl | hold
      · exact Nat.le_refl _
      · exact h.past time hold
  have hpaced : Paced maxFailures (seconds lockSeconds) (s.now :: guesses s.log) := by
    refine ⟨fun hfive time htime => ?_, h.paced⟩
    obtain ⟨p, hp, hunlocked⟩ := hsome
    obtain ⟨until', huntil, hlater⟩ := (hcarries p hp).2 hfive
    unfold TotpRow.locked at hunlocked
    rw [huntil, Option.any_some, decide_eq_false_iff_not, Nat.not_lt] at hunlocked
    exact Nat.le_trans (hlater time htime) hunlocked
  refine ⟨(h.locked.advance heval.goes).record _, ?_, hpaced, fun id row hrow hconfirmed => .inr ?_,
    fun id row hpending => ?_, h.few.cons hpaced⟩
  · intro time htime
    rcases List.mem_cons.1 htime with rfl | hold
    · exact Nat.le_refl s.now
    · exact h.past time hold
  · have hid : id ∈ rows.map Prod.fst := by
      refine hlevel.all id (h.locked.totps id row hrow) ?_
      unfold World.confirmed
      rw [show s.totps id = some row from hrow]
      exact hconfirmed
    obtain ⟨p, hp, rfl⟩ := List.mem_map.1 hid
    refine ⟨p.2.failed t.began, _, List.mem_cons_self, _, _, rfl, ?_⟩
    refine List.mem_map.2 ⟨p, List.mem_filter.2 ⟨hp, ?_⟩, rfl⟩
    rw [hlevel.unlocked p hp]
    rfl
  · obtain ⟨t', ht', held, rows', hstage, hmem⟩ := hpending
    rcases List.mem_cons.1 ht' with rfl | hold
    · cases hstage
      obtain ⟨p, hp, heq⟩ := List.mem_map.1 hmem
      cases heq
      exact hnext p (List.mem_filter.1 hp).1
    · exact absurd ⟨t', List.mem_of_mem_erase hold, held, rows', hstage, hmem⟩ (hfree id row)

/-- The count is committed: from now on the rows carry it. -/
theorem Guarded.counted {rows : List (FactorId × TotpRow)} (h : Guarded s) (ht : t ∈ s.txs)
    (hstage : t.stage = .done held (.fail rows)) :
    Guarded ((s.drop t).apply t.began (.fail rows)) := by
  have hlocked := h.locked.commit ht hstage rfl
  have hsame : (s.drop t).apply t.began (.fail rows) = (s.drop t).setTotps rows := rfl
  rw [hsame, setTotps_frame] at hlocked ⊢
  refine ⟨hlocked, h.past, h.paced, fun id row hrow hconfirmed => ?_, fun id row hpending => ?_,
    h.few⟩
  · by_cases hid : id ∈ rows.map Prod.fst
    · refine .inl (h.pending id row ⟨t, ht, held, rows, hstage, ?_⟩)
      exact setTotps_mem hid hrow
    · have hold : s.totps id = some row := (setTotps_of_not_mem (s := s.drop t) hid).symm.trans hrow
      refine (h.carried id row hold hconfirmed).imp_right ?_
      rintro ⟨row', t', ht', held', rows', hstage', hmem⟩
      refine ⟨row', t', (List.mem_erase_of_ne ?_).2 ht', held', rows', hstage', hmem⟩
      rintro rfl
      rw [hstage] at hstage'
      cases hstage'
      exact hid (List.mem_map.2 ⟨_, hmem, rfl⟩)
  · obtain ⟨t', ht', hrest⟩ := hpending
    exact h.pending id row ⟨t', List.mem_of_mem_erase ht', hrest⟩

/-- Another transaction than one that counts goes. -/
theorem mem_erase_of_counts {t' : Tx} (ht : t.counts = false) (ht' : t' ∈ s.txs)
    (hcounts : t'.counts = true) : t' ∈ s.txs.erase t := by
  refine (List.mem_erase_of_ne ?_).2 ht'
  rintro rfl
  rw [ht] at hcounts
  cases hcounts

theorem counts_of_open (h : t.stage.open) : t.counts = false := by
  obtain ⟨began, request, stage⟩ := t
  cases stage <;> first | rfl | cases h

theorem counts_of_ne (h : ∀ held rows, t.stage ≠ .done held (.fail rows)) : t.counts = false := by
  unfold Tx.counts
  split
  next held rows hstage => exact absurd hstage (h held rows)
  next => rfl

theorem counts_of_plain (h : t.stage.plain) : t.counts = false := by
  refine counts_of_ne fun held rows hstage => ?_
  rw [hstage] at h
  cases h

theorem Guarded.commit (h : Guarded s) (ht : t ∈ s.txs) (hstage : t.stage = .done held effect)
    (hunique : effect.unique s = true) : Guarded ((s.drop t).apply t.began effect) := by
  have hlocked := h.locked.commit ht hstage hunique
  have hsound := h.locked.written ht hstage
  -- what is neither a code nor a count leaves the factors as they are
  have hother : (∀ rows, effect ≠ .fail rows) →
      (∀ e ∈ effect.events (s.drop t), e.idle = true) →
      (s.now ≤ ((s.drop t).apply t.began effect).now) →
      (∀ id row, ((s.drop t).apply t.began effect).totps id = some row → row.confirmed = true →
        s.totps id = some row) → Guarded ((s.drop t).apply t.began effect) := by
    intro hne hidle hnow htotps
    have hcounts : t.counts = false := by
      refine counts_of_ne fun held' rows heq => ?_
      rw [hstage] at heq
      cases heq
      exact hne rows rfl
    refine h.frame _ hlocked hnow (apply_log (s.drop t) t.began effect) hidle htotps
      (fun t' ht' hc => ?_) fun t' ht' _ => ?_
    · rw [apply_txs]
      exact mem_erase_of_counts hcounts ht' hc
    · rw [apply_txs] at ht'
      exact List.mem_of_mem_erase ht'
  cases effect with
  | nothing => exact hother nofun nofun (Nat.le_refl _) fun _ _ h _ => h
  | recover hash =>
      obtain ⟨row, hrow, -⟩ := hsound
      have heq : (s.drop t).apply t.began (.recover hash) = _ := apply_recover hrow
      refine hother nofun (fun e he => ?_) (by rw [heq]; exact Nat.le_refl s.now)
        fun id row' hrow' _ => ?_
      · obtain ⟨row', -, rfl⟩ := Option.map_eq_some_iff.1 (Option.mem_toList.1 he)
        rfl
      · rw [heq] at hrow'
        exact hrow'
  | accept id step =>
      obtain ⟨-, row, hrow, -⟩ := hsound
      rw [apply_accept (s := s.drop t) hrow] at hlocked ⊢
      exact h.accepted rfl rfl hlocked
  | fail rows => exact h.counted ht hstage
  | enrol id step codes =>
      obtain ⟨-, row, hrow, -⟩ := hsound
      rw [apply_enrol (s := s.drop t) hrow] at hlocked ⊢
      exact h.accepted rfl rfl hlocked
  | spend challenge =>
      refine hother nofun (fun e he => ?_) (Nat.le_refl _) fun _ _ h _ => h
      rw [List.mem_singleton.1 he]
      rfl
  | sign challenge id count =>
      obtain ⟨-, -, row, hrow, -⟩ := hsound
      have heq : (s.drop t).apply t.began (.sign challenge id count) = _ := apply_sign hrow
      refine hother nofun (fun e he => ?_) (by rw [heq]; exact Nat.le_refl s.now)
        fun id row' hrow' _ => ?_
      · unfold Effect.events at he
        dsimp only at he
        rw [show (s.drop t).keys id = some row from hrow] at he
        rcases List.mem_cons.1 he with rfl | hrest
        · rfl
        · rw [List.mem_singleton.1 hrest]
          rfl
      · rw [heq] at hrow'
        exact hrow'
  | add challenge row codes =>
      refine hother nofun (fun e he => ?_) (Nat.le_refl _) fun _ _ h _ => h
      rw [List.mem_singleton.1 he]
      rfl
  | drop id codes =>
      exact hother nofun nofun (Nat.le_refl _) fun _ _ hrow _ => (Table.delete_cases hrow).2

/-- Every fair step keeps it. -/
theorem Guarded.step (h : Guarded s) (hok : Fair deps s a) (hs : Factors.step deps s a = some s') :
    Guarded s' := by
  have hlocked := h.locked.step hs
  cases step_moved hs with
  | tick elapsed =>
      exact h.frame [] hlocked (Nat.le_add_right _ _) rfl nofun (fun _ _ h _ => h)
        (fun _ h _ => h) fun _ h _ => h
  | enrol began label secret named row hnamed hrow =>
      refine h.frame [] hlocked (Nat.le_refl _) rfl nofun (fun id row' hrow' hc => ?_)
        (fun _ h _ => h) fun _ h _ => h
      dsimp only at hrow'
      rcases Table.update_cases hrow' with ⟨rfl, rfl⟩ | ⟨-, hold⟩
      · rw [hrow.1] at hc
        cases hc
      · split at hold
        next => cases hold
        next => exact hold
  | issue began purpose challenge row hnone =>
      exact h.frame [] hlocked (Nat.le_refl _) rfl nofun (fun _ _ h _ => h)
        (fun _ h _ => h) fun _ h _ => h
  | ask request =>
      refine h.frame [] hlocked (Nat.le_refl _) rfl nofun (fun _ _ h _ => h)
        (fun _ h _ => List.mem_cons_of_mem _ h) fun t ht hc => ?_
      rcases List.mem_cons.1 ht with rfl | hold
      · cases hc
      · exact hold
  | advance _ t stage hgoes hplain =>
      refine h.frame [] hlocked (Nat.le_refl _) rfl nofun (fun _ _ h _ => h) (fun t' ht' hc => ?_)
        fun t' ht' hc => ?_
      · exact List.mem_cons_of_mem _
          (mem_erase_of_counts (counts_of_open hgoes.isOpen) ht' hc)
      · rcases List.mem_cons.1 ht' with rfl | hold
        · rw [counts_of_plain hplain] at hc
          cases hc
        · exact List.mem_of_mem_erase hold
  | signed minted t response id row assertion hsigns hgoes =>
      refine h.frame [] hlocked (Nat.le_refl _) rfl nofun (fun _ _ h _ => h) (fun t' ht' hc => ?_)
        fun t' ht' hc => ?_
      · exact List.mem_cons_of_mem _
          (mem_erase_of_counts (counts_of_open hgoes.isOpen) ht' hc)
      · rcases List.mem_cons.1 ht' with rfl | hold
        · cases hc
        · exact List.mem_of_mem_erase hold
  | wrong minted t code rows heval =>
      obtain ⟨hlevel, hsome⟩ := level_of_wrong heval hok
      exact h.wrong heval hlevel hsome
  | threw minted t code rows heval => exact (not_thrown heval hok).elim
  | lost _ t hlost =>
      have hcounts : t.counts = false := by
        rcases hlost with rfl | hne
        · exact hok.2 t rfl
        · exact counts_of_ne hne
      exact h.frame [] hlocked (Nat.le_refl _) rfl nofun (fun _ _ h _ => h)
        (fun _ ht' hc => mem_erase_of_counts hcounts ht' hc)
        fun _ ht' _ => List.mem_of_mem_erase ht'
  | commit minted t held effect ht hstage hunique => exact h.commit ht hstage hunique

theorem guarded_init (hs : init s) : Guarded s := by
  refine ⟨locked_init hs, ?_, ?_, ?_, ?_, ?_⟩ <;> obtain ⟨now, rfl⟩ := hs
  · exact fun _ h => nomatch h
  · trivial
  · exact fun _ _ h => nomatch h
  · rintro id row ⟨t, ht, -⟩
    cases ht
  · intro period hinfix hnone first length
    rw [List.infix_nil.1 hinfix]
    exact Nat.zero_le _

/-- In every fair run: a factor's accepted steps ascend, a recovery code and
a challenge are spent once, and wrong codes are few between successes. -/
theorem guesses_bounded (hs : Reachable (step deps) (Fair deps) init s) : Bounded s := by
  have hsteps : Ascending s :=
    hs.invariant (fun _ => ascending_init) fun _ _ _ h _ ha => h.step ha
  have hcodes : CodesOnce s :=
    hs.invariant (fun _ => codesOnce_init) fun _ _ _ h _ ha => h.step ha
  have hchallenges : ChallengesOnce s :=
    hs.invariant (fun _ => challengesOnce_init) fun _ _ _ h _ ha => h.step ha
  have hguarded : Guarded s :=
    hs.invariant (fun _ => guarded_init) fun _ _ _ h hok ha => h.step hok ha
  exact ⟨hsteps.steps, hsteps.last, hcodes.nodup, hchallenges.nodup, hguarded.few⟩

-- ============================================================= the runs

namespace Apart

/-- The secret of RFC 6238, whose first code is 755224; no text here has a
small letter. -/
def host : Host where
  toUpperCase := id
  decipher := fun _ body _ => if body = "B" then some "GEZDGNBVGY3TQOJQGEZDGNBVGY3TQOJQ" else none
  parse := fun _ => none
  verifySignature := fun _ _ _ _ => false

def site : Deps := ⟨host, true, ⟨"localhost", ["http://localhost"]⟩⟩

def codes : List String := ["0", "1", "2", "3", "4", "5", "6", "7", "8", "9"]

def act (a : Action) : World → Option Action := fun _ => some a

/-- The next statement of the only transaction there is. -/
def next (minted : List String) : World → Option Action :=
  fun s => s.txs.head?.map fun t => .run t minted

def select (order : List FactorId) : World → Option Action :=
  fun s => s.txs.head?.map fun t => .select t order

/-- A factor is enrolled and confirmed, at 59 seconds. -/
def confirms (id : FactorId) (label : String) (minted : List String) :
    List (World → Option Action) :=
  [act (.enrol 59000 label "v1.N.B.T"), act (.ask (.confirm id "755224")), next [], next minted,
    next []]

/-- A wrong code, compared with the factors there are. -/
def guess (order : List FactorId) : List (World → Option Action) :=
  [act (.ask (.verify "X")), next [], select order] ++ order.map (fun _ => next [])
    ++ [next [], next []]

def wait (elapsed : Nat) : List (World → Option Action) := [act (.tick (seconds elapsed))]

/-- One wrong code, and then a recovery code. -/
def levels : List (World → Option Action) :=
  confirms 0 "PHONE" (hashRecoveryCode host "R" :: codes.tail) ++ guess [0]
    ++ [act (.ask (.verify "R")), next [], next []]

/-- A wrong code before the second factor is confirmed; then four, one after
100 seconds, and as each lock is over one more. -/
def parts : List (World → Option Action) :=
  confirms 0 "PHONE" codes ++ guess [0] ++ confirms 1 "TABLET" codes
    ++ guess [0, 1] ++ guess [0, 1] ++ guess [0, 1] ++ guess [0, 1]
    ++ wait 100 ++ guess [0, 1] ++ wait 800 ++ guess [0, 1] ++ wait 100 ++ guess [0, 1]

theorem run_levels : (play (step site) (Fair site) (World.new 59000) levels).any (fun s =>
    decide (s.log = [.recovered (hashRecoveryCode host "R") 0, .wrong 59000, .accepted 0 0]))
      = true := by
  decide +kernel

theorem run_parts : (play (step site) anyStep (World.new 59000) parts).any (fun s =>
    decide (maxFailures + 1000 / lockSeconds
      < (guesses s.log).countP (within 59000 (seconds 1000)))) = true := by
  decide +kernel

end Apart

theorem guesses_bounded_level :
    ∃ s, s.log = [.recovered (hashRecoveryCode Apart.host "R") 0, .wrong 59000, .accepted 0 0]
      ∧ Bounded s := by
  have hstart : init (World.new 59000) := ⟨59000, rfl⟩
  obtain ⟨s, hs, hlog⟩ := exists_played hstart Apart.run_levels
  exact ⟨s, hlog, guesses_bounded hs⟩

/-- Seven wrong codes within a thousand seconds: the factors have come apart
and are locked in turn. -/
theorem guesses_apart : ∃ s, Reachable (step Apart.site) anyStep init s ∧ ¬ Bounded s := by
  have hstart : init (World.new 59000) := ⟨59000, rfl⟩
  obtain ⟨s, hs, hmany⟩ := exists_played hstart Apart.run_parts
  refine ⟨s, hs, fun hbounded => ?_⟩
  have hfew := hbounded.guesses (s.log.takeWhile fun event => !event.accepts)
    (List.takeWhile_prefix _).isInfix (fun event hevent => ?_) 59000 1000
  · exact Nat.lt_irrefl _ (Nat.lt_of_lt_of_le hmany hfew)
  · have haccepts := List.mem_takeWhile_imp hevent
    rwa [Bool.not_eq_true'] at haccepts

end Nacre.Factors
