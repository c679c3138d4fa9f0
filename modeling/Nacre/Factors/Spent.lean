/-
What is spent once: a factor's steps, the recovery codes, the challenges.

Each is one invariant over the log and the rows. A step, a code or a
challenge is recorded at the commit, when its row is locked and was found
unspent (`Effect.Sound`); the row says so from then on.
-/
import Nacre.Factors.Locks

namespace Nacre.Factors

open Transition
open Nacre.Store (Time)

variable {deps : Deps} {s s' : World} {a : Action} {t : Tx} {held : List FactorId}
  {effect : Effect} {stage : Stage}

-- ================================================================ the steps

def Event.stepOf (id : FactorId) : Event → Option Int
  | .accepted id' step => if id' = id then some step else none
  | _ => none

/-- The steps accepted of a factor, the latest first. -/
def World.steps (s : World) (id : FactorId) : List Int := s.log.filterMap (Event.stepOf id)

structure Ascending (s : World) : Prop where
  locked : Locked s
  last : ∀ id row, s.totps id = some row → row.lastStep = (s.steps id).head?
  unborn : ∀ id, id ∉ s.ids → s.steps id = []
  steps : ∀ id, (s.steps id).Pairwise (· > ·)

/-- No step is accepted, and no row's last step changes. -/
theorem Ascending.frame (h : Ascending s) (hlocked : Locked s')
    (hsteps : ∀ id, s'.steps id = s.steps id) (hids : ∀ id ∈ s.ids, id ∈ s'.ids)
    (htotps : ∀ id row', s'.totps id = some row' →
      (∃ row, s.totps id = some row ∧ row'.lastStep = row.lastStep)
        ∨ (id ∉ s.ids ∧ row'.lastStep = none)) : Ascending s' := by
  refine ⟨hlocked, fun id row' hrow' => ?_, fun id hid => ?_, fun id => ?_⟩
  · rw [hsteps id]
    rcases htotps id row' hrow' with ⟨row, hrow, hlast⟩ | ⟨hnew, hnone⟩
    · rw [hlast]
      exact h.last id row hrow
    · rw [hnone, h.unborn id hnew]
      rfl
  · rw [hsteps id]
    exact h.unborn id fun hold => hid (hids id hold)
  · rw [hsteps id]
    exact h.steps id

/-- A list that descends is below whatever is above its head. -/
theorem lt_of_head {l : List Int} {step : Int} (hl : l.Pairwise (· > ·))
    (hhead : ∀ last ∈ l.head?, last < step) : ∀ x ∈ l, x < step := by
  intro x hx
  cases l with
  | nil => cases hx
  | cons last rest =>
      have hlast : last < step := hhead last rfl
      rcases List.mem_cons.1 hx with rfl | hrest
      · exact hlast
      · have hbelow : last > x := (List.pairwise_cons.1 hl).1 x hrest
        omega

/-- A step is accepted, and comes after the last. -/
theorem Ascending.accept (h : Ascending s) {id : FactorId} {step : Int} {row row' : TotpRow}
    (hrow : s.totps id = some row) (hafter : ∀ last ∈ row.lastStep, last < step)
    (hlast : row'.lastStep = some step) (hlocked : Locked s') (hids : s'.ids = s.ids)
    (hlog : s'.log = .accepted id step :: s.log)
    (htotps : s'.totps = Function.update s.totps id (some row')) : Ascending s' := by
  have hmine : s'.steps id = step :: s.steps id := by
    unfold World.steps
    rw [hlog]
    exact List.filterMap_cons_some (if_pos rfl)
  have hother : ∀ id', id' ≠ id → s'.steps id' = s.steps id' := by
    intro id' hne
    unfold World.steps
    rw [hlog]
    exact List.filterMap_cons_none (if_neg hne.symm)
  refine ⟨hlocked, fun id' row₁ hrow₁ => ?_, fun id' hid' => ?_, fun id' => ?_⟩
  · rw [htotps] at hrow₁
    rcases Table.update_cases hrow₁ with ⟨rfl, rfl⟩ | ⟨hne, hold⟩
    · rw [hmine, hlast]
      rfl
    · rw [hother id' hne]
      exact h.last id' row₁ hold
  · rw [hids] at hid'
    have hne : id' ≠ id := by
      intro heq
      rw [heq] at hid'
      exact hid' (h.locked.totps id row hrow)
    rw [hother id' hne]
    exact h.unborn id' hid'
  · by_cases heq : id' = id
    · rw [heq, hmine, List.pairwise_cons]
      refine ⟨lt_of_head (h.steps id) fun last hmem => ?_, h.steps id⟩
      rw [← h.last id row hrow] at hmem
      exact hafter last hmem
    · rw [hother id' heq]
      exact h.steps id'

theorem Ascending.commit (h : Ascending s) (ht : t ∈ s.txs) (hstage : t.stage = .done held effect)
    (hunique : effect.unique s = true) : Ascending ((s.drop t).apply t.began effect) := by
  have hlocked := h.locked.commit ht hstage hunique
  have hsound := h.locked.written ht hstage
  cases effect with
  | nothing =>
      exact h.frame hlocked (fun _ => rfl) (fun _ h => h) fun _ row hrow => .inl ⟨row, hrow, rfl⟩
  | recover hash =>
      obtain ⟨row, hrow, -⟩ := hsound
      rw [apply_recover (s := s.drop t) hrow] at hlocked ⊢
      exact h.frame hlocked (fun _ => rfl) (fun _ h => h) fun _ row hrow => .inl ⟨row, hrow, rfl⟩
  | accept id step =>
      obtain ⟨-, row, hrow, hafter⟩ := hsound
      rw [apply_accept (s := s.drop t) hrow] at hlocked ⊢
      exact h.accept hrow hafter rfl hlocked rfl rfl rfl
  | fail rows =>
      have hsame : ((s.drop t).apply t.began (.fail rows)) = (s.drop t).setTotps rows := rfl
      rw [hsame] at hlocked ⊢
      rw [setTotps_frame] at hlocked ⊢
      refine h.frame hlocked (fun _ => rfl) (fun _ h => h) fun id row' hrow' => .inl ?_
      rcases setTotps_cases hrow' with hold | hmem
      · exact ⟨row', hold, rfl⟩
      · obtain ⟨-, row, hrow, -, heq⟩ := hsound _ hmem
        exact ⟨row, hrow, by rw [show row' = row.failed t.began from heq]; rfl⟩
  | enrol id step codes =>
      obtain ⟨-, row, hrow, hafter⟩ := hsound
      rw [apply_enrol (s := s.drop t) hrow] at hlocked ⊢
      exact h.accept hrow hafter rfl hlocked rfl rfl rfl
  | spend challenge =>
      exact h.frame hlocked (fun _ => rfl) (fun _ h => h) fun _ row hrow => .inl ⟨row, hrow, rfl⟩
  | sign challenge id count =>
      obtain ⟨-, -, row, hrow, -⟩ := hsound
      rw [apply_sign (s := s.drop t) hrow] at hlocked ⊢
      exact h.frame hlocked (fun _ => rfl) (fun _ h => h) fun _ row hrow => .inl ⟨row, hrow, rfl⟩
  | add challenge row codes =>
      exact h.frame hlocked (fun _ => rfl) (fun _ => List.mem_cons_of_mem _)
        fun _ row hrow => .inl ⟨row, hrow, rfl⟩
  | drop id codes =>
      exact h.frame hlocked (fun _ => rfl) (fun _ h => h)
        fun _ row hrow => .inl ⟨row, (Table.delete_cases hrow).2, rfl⟩

/-- Every step keeps it. -/
theorem Ascending.step (h : Ascending s) (hs : Factors.step deps s a = some s') : Ascending s' := by
  have hlocked := h.locked.step hs
  cases step_moved hs with
  | enrol began label secret named row hnamed hrow =>
      refine h.frame hlocked (fun _ => rfl) (fun _ => List.mem_cons_of_mem _) fun id row' hrow' => ?_
      dsimp only at hrow'
      rcases Table.update_cases hrow' with ⟨rfl, rfl⟩ | ⟨-, hold⟩
      · exact .inr ⟨h.locked.not_mem, hrow.2⟩
      · split at hold
        next => cases hold
        next => exact .inl ⟨row', hold, rfl⟩
  | commit minted t held effect ht hstage hunique => exact h.commit ht hstage hunique
  | tick _ | issue _ _ _ _ _ | ask _ | advance _ _ _ _ _ | signed _ _ _ _ _ _ _ _
  | wrong _ _ _ _ _ | threw _ _ _ _ _ | lost _ _ _ =>
      exact h.frame hlocked (fun _ => rfl) (fun _ h => h) fun _ row hrow => .inl ⟨row, hrow, rfl⟩

theorem ascending_init (hs : init s) : Ascending s := by
  refine ⟨locked_init hs, ?_, ?_, ?_⟩ <;> obtain ⟨now, rfl⟩ := hs
  · exact fun _ _ h => nomatch h
  · exact fun _ _ => rfl
  · exact fun _ => List.Pairwise.nil

-- ================================================================ the codes

def Event.codeOf : Event → Option (String × Nat)
  | .recovered hash batch => some (hash, batch)
  | _ => none

/-- The recovery codes spent, each with its batch. -/
def World.recovered (s : World) : List (String × Nat) := s.log.filterMap Event.codeOf

structure CodesOnce (s : World) : Prop where
  locked : Locked s
  batches : ∀ hash row, s.codes hash = some row → row.batch < s.batch
  old : ∀ code ∈ s.recovered, code.2 < s.batch
  used : ∀ hash row, s.codes hash = some row → (hash, row.batch) ∈ s.recovered →
    row.usedAt ≠ none
  nodup : s.recovered.Nodup

/-- No code is spent, and no code that is spent comes back. -/
theorem CodesOnce.frame (h : CodesOnce s) (hlocked : Locked s') (hlog : s'.recovered = s.recovered)
    (hbatch : s.batch ≤ s'.batch)
    (hcodes : ∀ hash row, s'.codes hash = some row →
      s.codes hash = some row ∨ row.batch = s.batch ∧ s.batch < s'.batch) : CodesOnce s' := by
  refine ⟨hlocked, fun hash row hrow => ?_, fun code hcode => ?_, fun hash row hrow hspent => ?_, ?_⟩
  · rcases hcodes hash row hrow with hold | ⟨heq, hlt⟩
    · exact Nat.lt_of_lt_of_le (h.batches hash row hold) hbatch
    · rw [heq]
      exact hlt
  · rw [hlog] at hcode
    exact Nat.lt_of_lt_of_le (h.old code hcode) hbatch
  · rw [hlog] at hspent
    rcases hcodes hash row hrow with hold | ⟨heq, -⟩
    · exact h.used hash row hold hspent
    · have hlt : row.batch < s.batch := h.old _ hspent
      omega
  · rw [hlog]
    exact h.nodup

/-- New codes are of a new batch. -/
theorem addCodes_cases {codes : List String} {hash : String} {row : CodeRow}
    (h : (s.addCodes codes).codes hash = some row) :
    s.codes hash = some row ∨ row.batch = s.batch ∧ s.batch < (s.addCodes codes).batch := by
  have hif : (if hash ∈ codes then some (CodeRow.mk s.batch none) else s.codes hash) = some row := h
  split at hif
  next =>
    cases hif
    exact .inr ⟨rfl, Nat.lt_succ_self _⟩
  next => exact .inl hif

theorem CodesOnce.commit (h : CodesOnce s) (ht : t ∈ s.txs) (hstage : t.stage = .done held effect)
    (hunique : effect.unique s = true) : CodesOnce ((s.drop t).apply t.began effect) := by
  have hlocked := h.locked.commit ht hstage hunique
  have hsound := h.locked.written ht hstage
  cases effect with
  | nothing => exact h.frame hlocked rfl (Nat.le_refl _) fun _ _ => .inl
  | recover hash =>
      obtain ⟨row, hrow, hnone⟩ := hsound
      rw [apply_recover (s := s.drop t) hrow] at hlocked ⊢
      have hfresh : (hash, row.batch) ∉ s.recovered := fun hmem => h.used hash row hrow hmem hnone
      refine ⟨hlocked, fun hash' row' hrow' => ?_, fun code hcode => ?_,
        fun hash' row' hrow' hspent => ?_, List.nodup_cons.2 ⟨hfresh, h.nodup⟩⟩
      · rcases Table.update_cases hrow' with ⟨rfl, rfl⟩ | ⟨-, hold⟩
        · exact h.batches hash' row hrow
        · exact h.batches hash' row' hold
      · rcases List.mem_cons.1 hcode with rfl | hold
        · exact h.batches hash row hrow
        · exact h.old code hold
      · rcases Table.update_cases hrow' with ⟨rfl, rfl⟩ | ⟨hne, hold⟩
        · exact nofun
        · rcases List.mem_cons.1 hspent with heq | hspent
          · exact absurd (congrArg Prod.fst heq) hne
          · exact h.used hash' row' hold hspent
  | accept id step =>
      obtain ⟨-, row, hrow, -⟩ := hsound
      rw [apply_accept (s := s.drop t) hrow] at hlocked ⊢
      exact h.frame hlocked rfl (Nat.le_refl _) fun _ _ => .inl
  | fail rows =>
      have hsame : ((s.drop t).apply t.began (.fail rows)) = (s.drop t).setTotps rows := rfl
      rw [hsame, setTotps_frame] at hlocked ⊢
      exact h.frame hlocked rfl (Nat.le_refl _) fun _ _ => .inl
  | enrol id step codes =>
      obtain ⟨-, row, hrow, -⟩ := hsound
      rw [apply_enrol (s := s.drop t) hrow] at hlocked ⊢
      exact h.frame hlocked rfl (Nat.le_succ _) fun _ _ hrow => addCodes_cases hrow
  | spend challenge => exact h.frame hlocked rfl (Nat.le_refl _) fun _ _ => .inl
  | sign challenge id count =>
      obtain ⟨-, -, row, hrow, -⟩ := hsound
      rw [apply_sign (s := s.drop t) hrow] at hlocked ⊢
      exact h.frame hlocked rfl (Nat.le_refl _) fun _ _ => .inl
  | add challenge row codes =>
      exact h.frame hlocked rfl (Nat.le_succ _) fun _ _ hrow => addCodes_cases hrow
  | drop id codes =>
      refine h.frame hlocked rfl (Nat.le_refl _) fun hash row hrow => .inl ?_
      have hif : (if hash ∈ codes then none else s.codes hash) = some row := hrow
      split at hif
      next => cases hif
      next => exact hif

theorem CodesOnce.step (h : CodesOnce s) (hs : Factors.step deps s a = some s') : CodesOnce s' := by
  have hlocked := h.locked.step hs
  cases step_moved hs with
  | commit minted t held effect ht hstage hunique => exact h.commit ht hstage hunique
  | tick _ | enrol _ _ _ _ _ _ _ | issue _ _ _ _ _ | ask _ | advance _ _ _ _ _
  | signed _ _ _ _ _ _ _ _ | wrong _ _ _ _ _ | threw _ _ _ _ _ | lost _ _ _ =>
      exact h.frame hlocked rfl (Nat.le_refl _) fun _ _ => .inl

theorem codesOnce_init (hs : init s) : CodesOnce s := by
  refine ⟨locked_init hs, ?_, ?_, ?_, ?_⟩ <;> obtain ⟨now, rfl⟩ := hs
  · exact nofun
  · exact nofun
  · exact nofun
  · exact List.nodup_nil

-- =========================================================== the challenges

def Event.challengeOf : Event → Option String
  | .spent challenge => some challenge
  | _ => none

def World.spent (s : World) : List String := s.log.filterMap Event.challengeOf

structure ChallengesOnce (s : World) : Prop where
  locked : Locked s
  used : ∀ challenge ∈ s.spent, ∃ row, s.challenges challenge = some row ∧ row.usedAt ≠ none
  nodup : s.spent.Nodup

/-- No challenge is spent, and none goes. -/
theorem ChallengesOnce.frame (h : ChallengesOnce s) (hlocked : Locked s')
    (hlog : s'.spent = s.spent)
    (hrows : ∀ challenge row, s.challenges challenge = some row →
      s'.challenges challenge = some row) : ChallengesOnce s' := by
  refine ⟨hlocked, fun challenge hspent => ?_, hlog ▸ h.nodup⟩
  rw [hlog] at hspent
  obtain ⟨row, hrow, hused⟩ := h.used challenge hspent
  exact ⟨row, hrows challenge row hrow, hused⟩

/-- A challenge that was not spent is. -/
theorem ChallengesOnce.spend (h : ChallengesOnce s) {challenge : String} {began : Time}
    (hunspent : Unspent s challenge) (hlocked : Locked s')
    (hlog : s'.spent = challenge :: s.spent)
    (hrows : s'.challenges = (s.useChallenge challenge began).challenges) :
    ChallengesOnce s' := by
  obtain ⟨row, hrow, hnone⟩ := hunspent
  have hfresh : challenge ∉ s.spent := by
    intro hmem
    obtain ⟨row', hrow', hused⟩ := h.used challenge hmem
    rw [hrow] at hrow'
    cases hrow'
    exact hused hnone
  have hmine : s'.challenges challenge = some { row with usedAt := some began } := by
    rw [hrows]
    show Function.update s.challenges challenge
      ((s.challenges challenge).map fun row => { row with usedAt := some began }) challenge = _
    rw [Function.update_self, hrow]
    rfl
  refine ⟨hlocked, fun challenge' hspent => ?_, hlog ▸ List.nodup_cons.2 ⟨hfresh, h.nodup⟩⟩
  by_cases heq : challenge' = challenge
  · rw [heq]
    exact ⟨_, hmine, nofun⟩
  · rw [hlog] at hspent
    obtain ⟨row', hrow', hused⟩ := h.used challenge' ((List.mem_cons.1 hspent).resolve_left heq)
    refine ⟨row', ?_, hused⟩
    rw [hrows]
    exact (Function.update_of_ne heq ..).trans hrow'

theorem ChallengesOnce.commit (h : ChallengesOnce s) (ht : t ∈ s.txs)
    (hstage : t.stage = .done held effect) (hunique : effect.unique s = true) :
    ChallengesOnce ((s.drop t).apply t.began effect) := by
  have hlocked := h.locked.commit ht hstage hunique
  have hsound := h.locked.written ht hstage
  cases effect with
  | nothing => exact h.frame hlocked rfl fun _ _ h => h
  | recover hash =>
      obtain ⟨row, hrow, -⟩ := hsound
      rw [apply_recover (s := s.drop t) hrow] at hlocked ⊢
      exact h.frame hlocked rfl fun _ _ h => h
  | accept id step =>
      obtain ⟨-, row, hrow, -⟩ := hsound
      rw [apply_accept (s := s.drop t) hrow] at hlocked ⊢
      exact h.frame hlocked rfl fun _ _ h => h
  | fail rows =>
      have hsame : ((s.drop t).apply t.began (.fail rows)) = (s.drop t).setTotps rows := rfl
      rw [hsame, setTotps_frame] at hlocked ⊢
      exact h.frame hlocked rfl fun _ _ h => h
  | enrol id step codes =>
      obtain ⟨-, row, hrow, -⟩ := hsound
      rw [apply_enrol (s := s.drop t) hrow] at hlocked ⊢
      exact h.frame hlocked rfl fun _ _ h => h
  | spend challenge => exact h.spend hsound hlocked rfl rfl
  | sign challenge id count =>
      obtain ⟨hunspent, -, row, hrow, -⟩ := hsound
      rw [apply_sign (s := s.drop t) hrow] at hlocked ⊢
      exact h.spend hunspent hlocked rfl rfl
  | add challenge row codes => exact h.spend hsound hlocked rfl rfl
  | drop id codes => exact h.frame hlocked rfl fun _ _ h => h

theorem ChallengesOnce.step (h : ChallengesOnce s) (hs : Factors.step deps s a = some s') :
    ChallengesOnce s' := by
  have hlocked := h.locked.step hs
  cases step_moved hs with
  | issue began purpose challenge row hnone =>
      refine h.frame hlocked rfl fun challenge' row' hrow' => ?_
      have hne : challenge' ≠ challenge := by
        intro heq
        rw [heq, hnone] at hrow'
        cases hrow'
      exact (Function.update_of_ne hne ..).trans hrow'
  | commit minted t held effect ht hstage hunique => exact h.commit ht hstage hunique
  | tick _ | enrol _ _ _ _ _ _ _ | ask _ | advance _ _ _ _ _
  | signed _ _ _ _ _ _ _ _ | wrong _ _ _ _ _ | threw _ _ _ _ _ | lost _ _ _ =>
      exact h.frame hlocked rfl fun _ _ h => h

theorem challengesOnce_init (hs : init s) : ChallengesOnce s := by
  refine ⟨locked_init hs, ?_, ?_⟩ <;> obtain ⟨now, rfl⟩ := hs
  · exact nofun
  · exact List.nodup_nil

end Nacre.Factors
