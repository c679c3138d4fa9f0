/-
The gate before a password hash (core/passwords.ts: `gated`).

# What is a step

What one turn of the event loop does: a call arrives; a waiter that was
handed a permit goes on; the work of a call is over, whether it returned or
threw, and its `finally` runs. The loop may take them in any order.

# The permits

A call that finishes hands its permit to the longest waiter, and the count
stays; only where nobody waits does it go down. The owners of the permits
are so the calls that run, and those that were handed one and have not gone
on: `active` is their number (`Gated`). And nobody waits while one is free,
so that no call overtakes a waiter.

# Ghosts

`held`: who holds a permit. `queued`, `served`: who had to wait, and who was
handed a permit, in this order.
-/
import Mathlib.Logic.Function.Basic
import Nacre.Lib.Table
import Nacre.Lib.Transition

namespace Nacre.Passwords

open Transition

def MAX_QUEUED : Nat := 64

inductive Phase where
  | waiting
  /-- Its promise is resolved; it has not gone on. -/
  | handed
  | running
  | finished (threw : Bool)
  /-- `TooBusy`. -/
  | refused
  deriving DecidableEq

def Phase.holds : Phase → Bool
  | .handed | .running => true
  | .waiting | .finished _ | .refused => false

structure World where
  active : Nat
  waiting : List Nat
  calls : Nat → Option Phase
  held : List Nat
  queued : List Nat
  served : List Nat

def World.new : World where
  active := 0
  waiting := []
  calls _ := none
  held := []
  queued := []
  served := []

def init (w : World) : Prop := w = World.new

-- ================================================================== steps

def World.put (w : World) (i : Nat) (phase : Phase) : World :=
  { w with calls := Function.update w.calls i (some phase) }

def World.arrive (limit : Nat) (w : World) (i : Nat) : World :=
  if limit ≤ w.active then
    if MAX_QUEUED ≤ w.waiting.length then w.put i .refused
    else { w.put i .waiting with waiting := w.waiting ++ [i], queued := w.queued ++ [i] }
  else { w.put i .running with active := w.active + 1, held := i :: w.held }

/-- The `finally`. -/
def World.finish (w : World) (i : Nat) (threw : Bool) : World :=
  match w.waiting with
  | [] => { w.put i (.finished threw) with active := w.active - 1, held := w.held.erase i }
  | next :: rest =>
      { (w.put i (.finished threw)).put next .handed with
        waiting := rest
        held := next :: w.held.erase i
        served := w.served ++ [next] }

inductive Action where
  | arrive (i : Nat)
  | resume (i : Nat)
  | finish (i : Nat) (threw : Bool)
  deriving DecidableEq

def step (limit : Nat) (w : World) : Action → Option World
  | .arrive i => if w.calls i = none then some (w.arrive limit i) else none
  | .resume i => if w.calls i = some .handed then some (w.put i .running) else none
  | .finish i threw => if w.calls i = some .running then some (w.finish i threw) else none

-- ============================================================ the invariant

structure Gated (limit : Nat) (w : World) : Prop where
  /-- `held` are the owners of the permits, -/
  owners : ∀ i, i ∈ w.held ↔ ∃ phase, w.calls i = some phase ∧ phase.holds = true
  distinct : w.held.Nodup
  /-- and `active` is their number. -/
  count : w.active = w.held.length
  bound : w.active ≤ limit
  waiters : ∀ i, i ∈ w.waiting ↔ w.calls i = some .waiting
  once : w.waiting.Nodup
  room : w.waiting.length ≤ MAX_QUEUED
  /-- Nobody waits while a permit is free. -/
  busy : w.waiting ≠ [] → w.active = limit
  order : w.queued = w.served ++ w.waiting

variable {limit : Nat} {w w' : World}

theorem gated_new (limit : Nat) : Gated limit World.new := by
  refine ⟨fun i => ?_, List.nodup_nil, rfl, Nat.zero_le _, fun i => ?_, List.nodup_nil,
    Nat.zero_le _, fun h => absurd rfl h, rfl⟩
  · simp [World.new]
  · simp [World.new]

/-- A call that was not there neither holds a permit nor waits. -/
theorem Gated.absent (h : Gated limit w) {i : Nat} (hi : w.calls i = none) :
    i ∉ w.held ∧ i ∉ w.waiting := by
  constructor
  · intro hmem
    obtain ⟨phase, hphase, -⟩ := (h.owners i).mp hmem
    rw [hi] at hphase
    cases hphase
  · intro hmem
    rw [(h.waiters i).mp hmem] at hi
    cases hi

/-- A call that holds a permit does not wait. -/
theorem Gated.apart (h : Gated limit w) {i : Nat} (hi : i ∈ w.held) : i ∉ w.waiting := by
  intro hmem
  obtain ⟨phase, hphase, hholds⟩ := (h.owners i).mp hi
  rw [(h.waiters i).mp hmem] at hphase
  cases hphase
  cases hholds

theorem Gated.refuse (h : Gated limit w) {i : Nat} (hi : w.calls i = none) :
    Gated limit (w.put i .refused) := by
  obtain ⟨hheld, hwaiting⟩ := h.absent hi
  refine ⟨fun j => ?_, h.distinct, h.count, h.bound, fun j => ?_, h.once, h.room, h.busy, h.order⟩
  · by_cases hj : j = i
    · subst hj
      simp [World.put, hheld, Phase.holds]
    · simpa [World.put, Function.update_of_ne hj] using h.owners j
  · by_cases hj : j = i
    · subst hj
      simp [World.put, hwaiting]
    · simpa [World.put, Function.update_of_ne hj] using h.waiters j

theorem Gated.queue (h : Gated limit w) {i : Nat} (hi : w.calls i = none)
    (hfull : limit ≤ w.active) (hroom : w.waiting.length < MAX_QUEUED) :
    Gated limit { w.put i .waiting with
      waiting := w.waiting ++ [i], queued := w.queued ++ [i] } := by
  obtain ⟨hheld, hwaiting⟩ := h.absent hi
  constructor
  · intro j
    by_cases hj : j = i
    · subst hj
      simp [World.put, hheld, Phase.holds]
    · simpa [World.put, Function.update_of_ne hj] using h.owners j
  · exact h.distinct
  · exact h.count
  · exact h.bound
  · intro j
    by_cases hj : j = i
    · subst hj
      simp [World.put]
    · simpa [World.put, Function.update_of_ne hj, hj] using h.waiters j
  · rw [List.nodup_append]
    refine ⟨h.once, List.pairwise_singleton _ i, ?_⟩
    rintro a ha b hb rfl
    rw [List.mem_singleton.mp hb] at ha
    exact hwaiting ha
  · simp only [List.length_append, List.length_singleton]
    omega
  · exact fun _ => Nat.le_antisymm h.bound hfull
  · show w.queued ++ [i] = w.served ++ (w.waiting ++ [i])
    rw [h.order, List.append_assoc]

/-- A call takes a permit that is free: nobody waits for it. -/
theorem Gated.enter (h : Gated limit w) {i : Nat} (hi : w.calls i = none)
    (hfree : w.active < limit) :
    Gated limit { w.put i .running with active := w.active + 1, held := i :: w.held } := by
  obtain ⟨hheld, hwaiting⟩ := h.absent hi
  constructor
  · intro j
    by_cases hj : j = i
    · subst hj
      simp [World.put, Phase.holds]
    · simpa [World.put, Function.update_of_ne hj, hj] using h.owners j
  · exact List.nodup_cons.mpr ⟨hheld, h.distinct⟩
  · show w.active + 1 = (i :: w.held).length
    rw [h.count, List.length_cons]
  · exact hfree
  · intro j
    by_cases hj : j = i
    · subst hj
      simp [World.put, hwaiting]
    · simpa [World.put, Function.update_of_ne hj] using h.waiters j
  · exact h.once
  · exact h.room
  · intro hsome
    have hfull : w.active = limit := h.busy hsome
    omega
  · exact h.order

theorem Gated.resume (h : Gated limit w) {i : Nat} (hi : w.calls i = some .handed) :
    Gated limit (w.put i .running) := by
  have hheld : i ∈ w.held := (h.owners i).mpr ⟨.handed, hi, rfl⟩
  have hwaiting : i ∉ w.waiting := h.apart hheld
  refine ⟨fun j => ?_, h.distinct, h.count, h.bound, fun j => ?_, h.once, h.room, h.busy, h.order⟩
  · by_cases hj : j = i
    · subst hj
      simp [World.put, hheld, Phase.holds]
    · simpa [World.put, Function.update_of_ne hj] using h.owners j
  · by_cases hj : j = i
    · subst hj
      simp [World.put, hwaiting]
    · simpa [World.put, Function.update_of_ne hj] using h.waiters j

/-- A permit is given back: nobody waits. -/
theorem Gated.release (h : Gated limit w) {i : Nat} {threw : Bool}
    (hi : w.calls i = some .running) (hnone : w.waiting = []) :
    Gated limit { w.put i (.finished threw) with
      active := w.active - 1, held := w.held.erase i } := by
  have hheld : i ∈ w.held := (h.owners i).mpr ⟨.running, hi, rfl⟩
  have hwaiting : i ∉ w.waiting := h.apart hheld
  constructor
  · intro j
    by_cases hj : j = i
    · subst hj
      simp [World.put, h.distinct.not_mem_erase, Phase.holds]
    · simpa [World.put, Function.update_of_ne hj, List.mem_erase_of_ne hj] using h.owners j
  · exact h.distinct.erase i
  · show w.active - 1 = (w.held.erase i).length
    rw [List.length_erase_of_mem hheld, h.count]
  · exact Nat.le_trans (Nat.sub_le _ _) h.bound
  · intro j
    by_cases hj : j = i
    · subst hj
      simp [World.put, hwaiting]
    · simpa [World.put, Function.update_of_ne hj] using h.waiters j
  · exact h.once
  · exact h.room
  · exact fun hsome => absurd hnone hsome
  · exact h.order

/-- A permit changes its owner. -/
theorem Gated.hand (h : Gated limit w) {i next : Nat} {rest : List Nat} {threw : Bool}
    (hi : w.calls i = some .running) (hnext : w.waiting = next :: rest) :
    Gated limit { (w.put i (.finished threw)).put next .handed with
      waiting := rest
      held := next :: w.held.erase i
      served := w.served ++ [next] } := by
  have hheld : i ∈ w.held := (h.owners i).mpr ⟨.running, hi, rfl⟩
  have hfirst : next ∈ w.waiting := by
    rw [hnext]
    exact List.mem_cons_self
  have hcalls : w.calls next = some .waiting := (h.waiters next).mp hfirst
  have hne : i ≠ next := by
    rintro rfl
    rw [hi] at hcalls
    cases hcalls
  have hnew : next ∉ w.held := fun hmem => h.apart hmem hfirst
  obtain ⟨hlast, honce⟩ := List.nodup_cons.mp (hnext ▸ h.once)
  have hpos : 0 < w.held.length := List.length_pos_of_mem hheld
  constructor
  · intro j
    by_cases hj : j = next
    · subst hj
      simp [World.put, Phase.holds]
    · by_cases hji : j = i
      · subst hji
        simp [World.put, h.distinct.not_mem_erase, hne, Phase.holds]
      · simpa [World.put, Function.update_of_ne hj, Function.update_of_ne hji, hj,
          List.mem_erase_of_ne hji] using h.owners j
  · exact List.nodup_cons.mpr ⟨fun hmem => hnew (List.mem_of_mem_erase hmem), h.distinct.erase i⟩
  · show w.active = (next :: w.held.erase i).length
    rw [List.length_cons, List.length_erase_of_mem hheld, h.count]
    omega
  · exact h.bound
  · intro j
    by_cases hj : j = next
    · subst hj
      simp [World.put, hlast]
    · by_cases hji : j = i
      · subst hji
        have hout : j ∉ rest := by
          intro hmem
          exact h.apart hheld (hnext ▸ List.mem_cons_of_mem _ hmem)
        simp [World.put, Function.update_of_ne hne, hout]
      · have hwaiters := h.waiters j
        rw [hnext, List.mem_cons] at hwaiters
        simpa [World.put, Function.update_of_ne hj, Function.update_of_ne hji, hj] using hwaiters
  · exact honce
  · have hroom := h.room
    rw [hnext, List.length_cons] at hroom
    show rest.length ≤ MAX_QUEUED
    omega
  · exact fun _ => h.busy (by rw [hnext]; nofun)
  · show w.queued = w.served ++ [next] ++ rest
    rw [h.order, hnext, List.append_assoc]
    rfl

theorem gated_step {act : Action} (h : Gated limit w) (hstep : step limit w act = some w') :
    Gated limit w' := by
  cases act with
  | arrive i =>
      simp only [step, Option.ite_none_right_eq_some, Option.some.injEq] at hstep
      obtain ⟨hi, rfl⟩ := hstep
      unfold World.arrive
      split
      next hfull =>
        split
        next => exact h.refuse hi
        next hroom => exact h.queue hi hfull (Nat.lt_of_not_le hroom)
      next hfree => exact h.enter hi (Nat.lt_of_not_le hfree)
  | resume i =>
      simp only [step, Option.ite_none_right_eq_some, Option.some.injEq] at hstep
      obtain ⟨hi, rfl⟩ := hstep
      exact h.resume hi
  | finish i threw =>
      simp only [step, Option.ite_none_right_eq_some, Option.some.injEq] at hstep
      obtain ⟨hi, rfl⟩ := hstep
      unfold World.finish
      split
      next hnone => exact h.release hi hnone
      next next rest hnext => exact h.hand hi hnext

-- ============================================================== every run

theorem gated_reachable (hw : Reachable (step limit) anyStep init w) : Gated limit w := by
  refine hw.invariant ?_ fun t a t' ht _ hstep => gated_step ht hstep
  rintro _ rfl
  exact gated_new limit

/-- The calls whose work runs. -/
def World.running (w : World) : List Nat := w.held.filter fun i => w.calls i = some .running

/-- What the gate promises of a state. -/
structure Promised (limit : Nat) (w : World) : Prop where
  running : w.running.length ≤ limit
  /-- Every call that runs is among these, once; so is every other owner. -/
  owners : ∀ i, i ∈ w.held ↔ ∃ phase, w.calls i = some phase ∧ phase.holds = true
  distinct : w.held.Nodup
  active : w.active = w.held.length
  waiting : w.waiting.length ≤ MAX_QUEUED
  idle : w.waiting ≠ [] → w.held.length = limit
  /-- Who waited was served in the order of arrival, and the rest will be. -/
  fifo : w.queued = w.served ++ w.waiting
  /-- A call is refused when all permits are held and the queue is full. -/
  busy : ∀ i w', step limit w (.arrive i) = some w' →
    (w'.calls i = some .refused ↔ w.held.length = limit ∧ w.waiting.length = MAX_QUEUED)

/-- In every run, whatever the work comes to, permits are neither lost nor
duplicated, and waiters are served in turn. -/
theorem permits_kept (limit : Nat) (hw : Reachable (step limit) anyStep init w) :
    Promised limit w := by
  have h : Gated limit w := gated_reachable hw
  refine ⟨?_, h.owners, h.distinct, h.count, h.room, ?_, h.order, ?_⟩
  · calc w.running.length ≤ w.held.length := List.length_filter_le _ _
      _ = w.active := h.count.symm
      _ ≤ limit := h.bound
  · intro hsome
    rw [← h.count]
    exact h.busy hsome
  · intro i w' hstep
    simp only [step, Option.ite_none_right_eq_some, Option.some.injEq] at hstep
    obtain ⟨hi, rfl⟩ := hstep
    have hbound := h.bound
    have hroom := h.room
    rw [h.count] at hbound
    unfold World.arrive
    rw [h.count]
    split
    next hfull =>
      split
      next hqueue =>
        have hself : (w.put i .refused).calls i = some .refused := Function.update_self _ _ _
        simp only [hself, true_iff]
        omega
      next hqueue =>
        have hself : Function.update w.calls i (some Phase.waiting) i ≠ some .refused := by
          rw [Function.update_self]
          nofun
        refine ⟨fun hrefused => absurd hrefused hself, fun hall => ?_⟩
        omega
    next hfree =>
      have hself : Function.update w.calls i (some Phase.running) i ≠ some .refused := by
        rw [Function.update_self]
        nofun
      refine ⟨fun hrefused => absurd hrefused hself, fun hall => ?_⟩
      omega

/-- Two permits, three calls: the third waits, and has the permit of the one
that throws. -/
theorem permits_kept_thrown :
    ∃ w, w.calls 0 = some (.finished true) ∧ w.calls 2 = some .handed ∧ w.active = 2 ∧
      Promised 2 w := by
  have hstart : init World.new := rfl
  have hrun : (runWithin (step 2) anyStep World.new
      [.arrive 0, .arrive 1, .arrive 2, .finish 0 true]).any (fun w => decide
        (w.calls 0 = some (.finished true) ∧ w.calls 2 = some .handed ∧ w.active = 2)) = true := by
    decide
  obtain ⟨w, hw, hthrew, hhanded, hactive⟩ := exists_reachable hstart hrun
  exact ⟨w, hthrew, hhanded, hactive, permits_kept 2 hw⟩

end Nacre.Passwords
