/-
What a transaction on the factors has locked stays as it read it.

`Locked`: a row is locked by one transaction at most, and what a transaction
has found out about its rows is so until it ends. What a commit writes is
locked by who commits (`apply_keeps`), so the rows of the others stay.
-/
import Nacre.Factors.Moves

namespace Nacre.Factors

open Transition
open Nacre.Store (Time)

variable {deps : Deps} {s s' : World} {a : Action} {t : Tx} {held : List FactorId}
  {effect : Effect} {stage : Stage}

-- ============================================================== the commit

theorem setTotps_frame (rows : List (FactorId × TotpRow)) (s : World) :
    s.setTotps rows = { s with totps := (s.setTotps rows).totps } := by
  induction rows generalizing s with
  | nil => rfl
  | cons p rest ih =>
      obtain ⟨id, row⟩ := p
      exact ih (s.setTotp id row)

theorem setTotps_of_not_mem {rows : List (FactorId × TotpRow)} {id : FactorId}
    (h : id ∉ rows.map Prod.fst) : (s.setTotps rows).totps id = s.totps id := by
  induction rows generalizing s with
  | nil => rfl
  | cons p rest ih =>
      obtain ⟨id', row⟩ := p
      rw [List.map_cons, List.mem_cons, not_or] at h
      calc ((s.setTotp id' row).setTotps rest).totps id
          = (s.setTotp id' row).totps id := ih h.2
        _ = s.totps id := Function.update_of_ne h.1 ..

/-- A row after a failure is one that was there, or one of those written. -/
theorem setTotps_cases {rows : List (FactorId × TotpRow)} {id : FactorId} {row : TotpRow}
    (h : (s.setTotps rows).totps id = some row) : s.totps id = some row ∨ (id, row) ∈ rows := by
  induction rows generalizing s with
  | nil => exact .inl h
  | cons p rest ih =>
      obtain ⟨id', row'⟩ := p
      rcases ih (s := s.setTotp id' row') h with hold | hmem
      · rcases Table.update_cases hold with ⟨rfl, rfl⟩ | ⟨-, hrow⟩
        · exact .inr List.mem_cons_self
        · exact .inl hrow
      · exact .inr (List.mem_cons_of_mem _ hmem)

/-- A row that was written is one of those written. -/
theorem setTotps_mem {rows : List (FactorId × TotpRow)} {id : FactorId} {row : TotpRow}
    (hid : id ∈ rows.map Prod.fst) (h : (s.setTotps rows).totps id = some row) :
    (id, row) ∈ rows := by
  induction rows generalizing s with
  | nil => cases hid
  | cons p rest ih =>
      obtain ⟨id', row'⟩ := p
      have hrest : ((s.setTotp id' row').setTotps rest).totps id = some row := h
      by_cases hlater : id ∈ rest.map Prod.fst
      · exact List.mem_cons_of_mem _ (ih hlater hrest)
      · rw [setTotps_of_not_mem hlater] at hrest
        have hfirst : id = id' := (List.mem_cons.1 hid).resolve_right hlater
        subst hfirst
        rcases Table.update_cases hrest with ⟨-, rfl⟩ | ⟨hne, -⟩
        · exact List.mem_cons_self
        · exact absurd rfl hne

/-- A commit leaves the transactions. -/
theorem apply_txs (s : World) (began : Time) (effect : Effect) :
    (s.apply began effect).txs = s.txs := by
  cases effect with
  | recover hash =>
      unfold World.apply
      dsimp only
      split <;> rfl
  | accept id step =>
      unfold World.apply
      dsimp only
      split <;> rfl
  | fail rows =>
      show (s.setTotps rows).txs = s.txs
      rw [setTotps_frame]
  | enrol id step codes =>
      unfold World.apply
      dsimp only
      split <;> rfl
  | sign challenge id count =>
      unfold World.apply
      dsimp only
      split <;> rfl
  | nothing | spend _ | add _ _ _ | drop _ _ => rfl

/-- What a commit records. -/
def Effect.events (s : World) : Effect → List Event
  | .nothing => []
  | .recover hash => ((s.codes hash).map fun row => Event.recovered hash row.batch).toList
  | .accept id step => ((s.totps id).map fun _ => Event.accepted id step).toList
  | .fail _ => []
  | .enrol id step _ => ((s.totps id).map fun _ => Event.accepted id step).toList
  | .spend challenge => [.spent challenge]
  | .sign challenge id count =>
      match s.keys id with
      | none => []
      | some row => [.spent challenge, .signed id row.signCount count]
  | .add challenge _ _ => [.spent challenge]
  | .drop _ _ => []

theorem apply_log (s : World) (began : Time) (effect : Effect) :
    (s.apply began effect).log = effect.events s ++ s.log := by
  cases effect with
  | recover hash =>
      unfold World.apply Effect.events
      dsimp only
      split
      next h =>
        rw [h]
        rfl
      next row h =>
        rw [h]
        rfl
  | accept id step =>
      unfold World.apply Effect.events
      dsimp only
      split
      next h =>
        rw [h]
        rfl
      next row h =>
        rw [h]
        rfl
  | fail rows =>
      show (s.setTotps rows).log = s.log
      rw [setTotps_frame]
  | enrol id step codes =>
      unfold World.apply Effect.events
      dsimp only
      split
      next h =>
        rw [h]
        rfl
      next row h =>
        rw [h]
        rfl
  | sign challenge id count =>
      unfold World.apply Effect.events
      dsimp only
      cases s.keys id with
      | none => rfl
      | some row => rfl
  | nothing | spend _ | add _ _ _ | drop _ _ => rfl

theorem useChallenge_keeps {challenge : String} {began : Time} {lock : Lock}
    (h : lock ≠ .challenge challenge) : Keeps s (s.useChallenge challenge began) lock := by
  cases lock with
  | factor id => exact ⟨fun _ h => h, fun _ h => h⟩
  | code hash => exact fun _ h => h
  | challenge challenge' =>
      intro row hrow
      have hne : challenge' ≠ challenge := fun heq => h (congrArg Lock.challenge heq)
      exact (Function.update_of_ne hne ..).trans hrow

theorem addCodes_keeps {codes : List String} (h : codes.all (fun hash => s.codes hash = none) = true)
    (lock : Lock) : Keeps s (s.addCodes codes) lock := by
  cases lock with
  | factor id => exact ⟨fun _ h => h, fun _ h => h⟩
  | code hash =>
      intro row hrow
      refine (if_neg fun hmem => ?_).trans hrow
      rw [of_decide_eq_true (List.all_eq_true.1 h hash hmem)] at hrow
      cases hrow
  | challenge challenge => exact fun _ h => h

theorem Keeps.trans {s₁ s₂ s₃ : World} {lock : Lock} (h : Keeps s₁ s₂ lock)
    (h' : Keeps s₂ s₃ lock) : Keeps s₁ s₃ lock := by
  cases lock with
  | factor id => exact ⟨fun row hrow => h'.1 row (h.1 row hrow), fun row hrow => h'.2 row (h.2 row hrow)⟩
  | code hash => exact fun row hrow => h' row (h row hrow)
  | challenge challenge => exact fun row hrow => h' row (h row hrow)

theorem setTotp_keeps {id : FactorId} {row : TotpRow} {lock : Lock} (h : lock ≠ .factor id) :
    Keeps s (s.setTotp id row) lock := by
  cases lock with
  | factor id' =>
      have hne : id' ≠ id := fun heq => h (congrArg Lock.factor heq)
      exact ⟨fun row' hrow => (Function.update_of_ne hne ..).trans hrow, fun _ h => h⟩
  | code hash => exact fun _ h => h
  | challenge challenge => exact fun _ h => h

/-- A commit writes only what is locked by who commits. -/
theorem apply_keeps {began : Time} (hsound : effect.Sound s began held)
    (hunique : effect.unique s = true) (hnew : s.keys s.ids.length = none) {lock : Lock}
    (hlock : (Tx.mk began t.request (.done held effect)).locks lock = false) :
    Keeps s (s.apply began effect) lock := by
  have hfactor : ∀ id ∈ held, lock ≠ .factor id := by
    intro id hid heq
    rw [heq] at hlock
    exact absurd hid (of_decide_eq_false (p := id ∈ held) hlock)
  cases effect with
  | nothing => exact Keeps.refl s lock
  | recover hash =>
      unfold World.apply
      dsimp only
      split
      next => exact Keeps.refl s lock
      next row hrow =>
        cases lock with
        | factor id => exact ⟨fun _ h => h, fun _ h => h⟩
        | code hash' =>
            intro row' hrow'
            have hne : hash' ≠ hash :=
              fun heq => of_decide_eq_false (p := hash = hash') hlock heq.symm
            exact (Function.update_of_ne hne ..).trans hrow'
        | challenge challenge => exact fun _ h => h
  | accept id step =>
      unfold World.apply
      dsimp only
      split
      next => exact Keeps.refl s lock
      next => exact setTotp_keeps (hfactor id hsound.1)
  | fail rows =>
      show Keeps s (s.setTotps rows) lock
      rw [setTotps_frame]
      cases lock with
      | factor id =>
          refine ⟨fun row hrow => ?_, fun _ h => h⟩
          refine (setTotps_of_not_mem fun hmem => ?_).trans hrow
          obtain ⟨p, hp, rfl⟩ := List.mem_map.1 hmem
          exact hfactor p.1 (hsound p hp).1 rfl
      | code hash => exact fun _ h => h
      | challenge challenge => exact fun _ h => h
  | enrol id step codes =>
      unfold World.apply
      dsimp only
      split
      next => exact Keeps.refl s lock
      next row hrow =>
        let enrolled := (s.setTotp id (row.confirmedAt step)).record (.accepted id step)
        exact (setTotp_keeps (hfactor id hsound.1)).trans
          (addCodes_keeps (s := enrolled) hunique lock)
  | spend challenge =>
      refine useChallenge_keeps fun heq => ?_
      rw [heq] at hlock
      exact of_decide_eq_false (p := challenge = challenge) hlock rfl
  | sign challenge id count =>
      unfold World.apply
      dsimp only
      split
      next => exact Keeps.refl s lock
      next row hrow =>
        have hsign : Keeps s ({ s with
            keys := Function.update s.keys id (some { row with signCount := count }) }.record
              (.signed id row.signCount count)) lock := by
          cases lock with
          | factor id' =>
              have hne : id' ≠ id := fun heq => hfactor id hsound.2.1 (congrArg Lock.factor heq)
              exact ⟨fun _ h => h, fun row' hrow' => (Function.update_of_ne hne ..).trans hrow'⟩
          | code hash => exact fun _ h => h
          | challenge challenge => exact fun _ h => h
        refine hsign.trans (useChallenge_keeps fun heq => ?_)
        rw [heq] at hlock
        exact of_decide_eq_false (p := challenge = challenge) hlock rfl
  | add challenge row codes =>
      let added : World := { s with
        keys := Function.update s.keys s.ids.length (some row)
        ids := s.ids.length :: s.ids }
      have hadd : Keeps s added lock := by
        cases lock with
        | factor id =>
            refine ⟨fun _ h => h, fun row' hrow' => ?_⟩
            have hne : id ≠ s.ids.length := by
              intro heq
              rw [heq, hnew] at hrow'
              cases hrow'
            exact (Function.update_of_ne hne ..).trans hrow'
        | code hash => exact fun _ h => h
        | challenge challenge => exact fun _ h => h
      refine (hadd.trans (useChallenge_keeps fun heq => ?_)).trans
        (addCodes_keeps (s := added.useChallenge challenge began)
          (Bool.and_eq_true_iff.1 hunique).1 lock)
      rw [heq] at hlock
      exact of_decide_eq_false (p := challenge = challenge) hlock rfl
  | drop id codes =>
      cases lock with
      | factor id' =>
          have hne : id' ≠ id := fun heq => hfactor id hsound (congrArg Lock.factor heq)
          exact ⟨fun row hrow => (Function.update_of_ne hne ..).trans hrow,
            fun row hrow => (Function.update_of_ne hne ..).trans hrow⟩
      | code hash =>
          intro row hrow
          exact (if_neg (of_decide_eq_false (p := hash ∈ codes) hlock)).trans hrow
      | challenge challenge => exact fun _ h => h

-- =========================================================== the invariant

/-- The rows have ids that were given out. -/
structure Born (s : World) : Prop where
  ids : ∀ id ∈ s.ids, id < s.ids.length
  totps : ∀ id row, s.totps id = some row → id ∈ s.ids
  keys : ∀ id row, s.keys id = some row → id ∈ s.ids

structure Locked (s : World) : Prop extends Born s where
  solo : ∀ lock, s.txs.countP (·.locks lock) ≤ 1
  sound : ∀ t ∈ s.txs, t.Sound s

theorem Born.not_mem (h : Born s) : s.ids.length ∉ s.ids :=
  fun hmem => Nat.lt_irrefl _ (h.ids _ hmem)

theorem Born.keys_new (h : Born s) : s.keys s.ids.length = none := by
  cases hrow : s.keys s.ids.length with
  | none => rfl
  | some row => exact absurd (h.keys _ row hrow) h.not_mem

theorem Born.totps_new (h : Born s) : s.totps s.ids.length = none := by
  cases hrow : s.totps s.ids.length with
  | none => rfl
  | some row => exact absurd (h.totps _ row hrow) h.not_mem

/-- What is locked by one is not by another. -/
theorem Locked.other {t' : Tx} (h : Locked s) (ht : t ∈ s.txs) {lock : Lock}
    (hlock : t.locks lock = true) (ht' : t' ∈ s.txs.erase t) : t'.locks lock = false := by
  have hnone := Solo.solo_erase (h.solo lock) ht hlock ht'
  exact hnone

theorem Locked.drop (h : Locked s) (t : Tx) : Locked (s.drop t) :=
  ⟨⟨h.ids, h.totps, h.keys⟩, fun lock => Solo.solo_sublist (h.solo lock) List.erase_sublist,
    fun t' ht' => (h.sound t' (List.mem_of_mem_erase ht')).frame fun lock _ => Keeps.refl _ lock⟩

theorem Locked.record (h : Locked s) (event : Event) : Locked (s.record event) :=
  ⟨⟨h.ids, h.totps, h.keys⟩, h.solo,
    fun t ht => (h.sound t ht).frame fun lock _ => Keeps.refl _ lock⟩

theorem Locked.advance (h : Locked s) (hgoes : Goes s t stage) : Locked (s.advance t stage) := by
  refine ⟨⟨h.ids, h.totps, h.keys⟩, fun lock => ?_, fun t' ht' => ?_⟩
  · show (Tx.mk t.began t.request stage :: s.txs.erase t).countP (·.locks lock) ≤ 1
    by_cases hfree : Free s t lock
    · exact Solo.solo_cons hfree
    · refine Solo.solo_swap (h.solo lock) hgoes.mem fun hlock => ?_
      exact (hgoes.locks lock hlock).resolve_right hfree
  · have hkeeps : ∀ lock, Keeps s (s.advance t stage) lock := fun lock => Keeps.refl _ lock
    rcases List.mem_cons.1 ht' with rfl | hin
    · exact Tx.Sound.frame (hgoes.sound (h.sound t hgoes.mem)) fun lock _ => hkeeps lock
    · exact (h.sound t' (List.mem_of_mem_erase hin)).frame fun lock _ => hkeeps lock

/-- A wrong code is to be counted. -/
theorem Evaluates.goes {code : String} {rows : List (FactorId × TotpRow)} {verdict : Verdict}
    (h : Evaluates deps s t code rows verdict) :
    Goes s t (.done (rows.map Prod.fst) (.fail (failing t.began s.now rows))) := by
  have hopen : t.stage.open := by
    rw [h.stage]
    trivial
  refine .done h.mem hopen (fun id hid => .inl (holds_of_locking h.stage hid)) nofun nofun
    fun hsound => ?_
  rw [Tx.Sound, h.stage] at hsound
  intro p hp
  obtain ⟨q, hq, rfl⟩ := List.mem_map.1 hp
  have hmem := (List.mem_filter.1 hq).1
  exact ⟨List.mem_map.2 ⟨q, hmem, rfl⟩, q.2, (hsound q hmem).1, (hsound q hmem).2, rfl⟩

/-- The rows change, and what is locked stays. -/
theorem Locked.frame (h : Locked s) (htxs : s'.txs = s.txs) (hborn : Born s')
    (hkeeps : ∀ t ∈ s.txs, ∀ lock, t.locks lock = true → Keeps s s' lock) : Locked s' := by
  refine ⟨hborn, fun lock => ?_, fun t ht => ?_⟩
  · rw [htxs]
    exact h.solo lock
  · rw [htxs] at ht
    exact (h.sound t ht).frame (hkeeps t ht)

theorem Born.setTotp (h : Born s) {id : FactorId} (hid : id ∈ s.ids) (row : TotpRow) :
    Born (s.setTotp id row) := by
  refine ⟨h.ids, fun id' row' hrow' => ?_, h.keys⟩
  rcases Table.update_cases hrow' with ⟨rfl, -⟩ | ⟨-, hold⟩
  · exact hid
  · exact h.totps id' row' hold

theorem Born.cons (h : Born s) :
    ∀ id ∈ s.ids.length :: s.ids, id < (s.ids.length :: s.ids).length := by
  intro id hid
  rw [List.length_cons]
  rcases List.mem_cons.1 hid with rfl | hold
  · exact Nat.lt_succ_self _
  · exact Nat.lt_succ_of_lt (h.ids id hold)

theorem Born.apply {began : Time} (h : Born s) (hsound : effect.Sound s began held) :
    Born (s.apply began effect) := by
  cases effect with
  | nothing => exact h
  | recover hash =>
      unfold World.apply
      dsimp only
      split
      next => exact h
      next => exact ⟨h.ids, h.totps, h.keys⟩
  | accept id step =>
      unfold World.apply
      dsimp only
      split
      next => exact h
      next row hrow =>
        have hset := h.setTotp (h.totps id row hrow) (row.accepted step)
        exact ⟨hset.ids, hset.totps, hset.keys⟩
  | fail rows =>
      show Born (s.setTotps rows)
      rw [setTotps_frame]
      refine ⟨h.ids, fun id row hrow => ?_, h.keys⟩
      rcases setTotps_cases hrow with hold | hmem
      · exact h.totps id row hold
      · obtain ⟨-, row', hrow', -⟩ := hsound _ hmem
        exact h.totps id row' hrow'
  | enrol id step codes =>
      unfold World.apply
      dsimp only
      split
      next => exact h
      next row hrow =>
        have hset := h.setTotp (h.totps id row hrow) (row.confirmedAt step)
        exact ⟨hset.ids, hset.totps, hset.keys⟩
  | spend challenge => exact ⟨h.ids, h.totps, h.keys⟩
  | sign challenge id count =>
      unfold World.apply
      dsimp only
      split
      next => exact h
      next row hrow =>
        refine ⟨h.ids, h.totps, fun id' row' hrow' => ?_⟩
        rcases Table.update_cases hrow' with ⟨rfl, -⟩ | ⟨-, hold⟩
        · exact h.keys id' row hrow
        · exact h.keys id' row' hold
  | add challenge row codes =>
      refine ⟨h.cons, fun id row' hrow' => List.mem_cons_of_mem _ (h.totps id row' hrow'),
        fun id row' hrow' => ?_⟩
      rcases Table.update_cases hrow' with ⟨rfl, -⟩ | ⟨-, hold⟩
      · exact List.mem_cons_self
      · exact List.mem_cons_of_mem _ (h.keys id row' hold)
  | drop id codes =>
      exact ⟨h.ids, fun id' row hrow => h.totps id' row (Table.delete_cases hrow).2,
        fun id' row hrow => h.keys id' row (Table.delete_cases hrow).2⟩

/-- Who is to commit has found out what it goes by. -/
theorem Locked.written (h : Locked s) (ht : t ∈ s.txs) (hstage : t.stage = .done held effect) :
    effect.Sound s t.began held := by
  have hsound := h.sound t ht
  rw [Tx.Sound, hstage] at hsound
  exact hsound

theorem Locked.drop_written (h : Locked s) (ht : t ∈ s.txs)
    (hstage : t.stage = .done held effect) : effect.Sound (s.drop t) t.began held := by
  refine Effect.Sound.frame (h.written ht hstage) ?_ ?_ ?_
  · exact fun id _ => Keeps.refl s (.factor id)
  · exact fun hash _ => Keeps.refl s (.code hash)
  · exact fun challenge _ => Keeps.refl s (.challenge challenge)

/-- A commit leaves what the others have locked. -/
theorem Locked.others (h : Locked s) (ht : t ∈ s.txs) (hstage : t.stage = .done held effect)
    (hunique : effect.unique s = true) {t' : Tx} (ht' : t' ∈ s.txs.erase t) {lock : Lock}
    (hlock : t'.locks lock = true) : Keeps s ((s.drop t).apply t.began effect) lock := by
  refine apply_keeps (s := s.drop t) (t := t) (h.drop_written ht hstage) hunique h.keys_new ?_
  rw [← hstage]
  by_contra hmine
  rw [Bool.not_eq_false] at hmine
  rw [h.other ht hmine ht'] at hlock
  cases hlock

theorem Locked.commit (h : Locked s) (ht : t ∈ s.txs) (hstage : t.stage = .done held effect)
    (hunique : effect.unique s = true) : Locked ((s.drop t).apply t.began effect) :=
  (h.drop t).frame (apply_txs ..) ((h.drop t).toBorn.apply (h.drop_written ht hstage))
    fun _ ht' _ hlock => h.others ht hstage hunique ht' hlock

theorem locked_init (hs : init s) : Locked s := by
  obtain ⟨now, rfl⟩ := hs
  exact ⟨⟨(fun _ h => nomatch h), (fun _ _ h => nomatch h), fun _ _ h => nomatch h⟩,
    fun _ => Nat.zero_le _, fun _ h => nomatch h⟩

/-- Every step keeps it. -/
theorem Locked.step (h : Locked s) (hs : Factors.step deps s a = some s') : Locked s' := by
  cases step_moved hs with
  | tick elapsed => exact h.frame rfl ⟨h.ids, h.totps, h.keys⟩ fun _ _ lock _ => Keeps.refl _ lock
  | enrol began label secret named row hnamed hrow =>
      refine h.frame rfl ⟨h.cons, fun id row' hrow' => ?_, fun id row' hrow' =>
        List.mem_cons_of_mem _ (h.keys id row' hrow')⟩ fun t ht lock hlock => ?_
      · dsimp only at hrow'
        rcases Table.update_cases hrow' with ⟨rfl, -⟩ | ⟨-, hold⟩
        · exact List.mem_cons_self
        · split at hold
          next => cases hold
          next => exact List.mem_cons_of_mem _ (h.totps id row' hold)
      · cases lock with
        | factor id =>
            refine ⟨fun row' hrow' => ?_, fun _ h => h⟩
            have hne : id ≠ s.ids.length := by
              intro heq
              rw [heq, h.totps_new] at hrow'
              cases hrow'
            have hnot : id ∉ named := by
              intro hmem
              have hfree := List.any_eq_false.1 (hnamed id hmem) t ht
              exact hfree hlock
            calc Function.update (fun id => if id ∈ named then none else s.totps id) s.ids.length
                  (some row) id
                = if id ∈ named then none else s.totps id := Function.update_of_ne hne ..
              _ = s.totps id := if_neg hnot
              _ = some row' := hrow'
        | code hash => exact fun _ h => h
        | challenge challenge => exact fun _ h => h
  | issue began purpose challenge row hnone =>
      refine h.frame rfl ⟨h.ids, h.totps, h.keys⟩ fun t ht lock hlock => ?_
      cases lock with
      | factor id => exact ⟨fun _ h => h, fun _ h => h⟩
      | code hash => exact fun _ h => h
      | challenge challenge' =>
          intro row' hrow'
          have hne : challenge' ≠ challenge := by
            intro heq
            rw [heq, hnone] at hrow'
            cases hrow'
          exact (Function.update_of_ne hne ..).trans hrow'
  | ask request =>
      refine ⟨⟨h.ids, h.totps, h.keys⟩, fun lock => ?_, fun t ht => ?_⟩
      · have hnone : ¬ (Tx.mk s.now request .begun).locks lock = true := by
          cases lock <;> exact nofun
        show (Tx.mk s.now request .begun :: s.txs).countP (·.locks lock) ≤ 1
        rw [List.countP_cons, if_neg hnone]
        exact h.solo lock
      · rcases List.mem_cons.1 ht with rfl | hold
        · trivial
        · exact (h.sound t hold).frame fun lock _ => Keeps.refl _ lock
  | advance _ t stage hgoes hplain => exact h.advance hgoes
  | signed minted t response id row assertion hsigns hgoes => exact h.advance hgoes
  | wrong minted t code rows heval => exact (h.advance heval.goes).record _
  | threw minted t code rows heval => exact (h.drop t).record _
  | lost _ t hlost => exact h.drop t
  | commit minted t held effect ht hstage hunique => exact h.commit ht hstage hunique

end Nacre.Factors
