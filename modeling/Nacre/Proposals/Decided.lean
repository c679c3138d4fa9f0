/-
A proposal is applied at most once, and only on a claim.

# The count

A proposal has one chance: the row that is being made, the row while it
is open, the claim that has still to invoke `apply`, the invocation. Every
step moves the chance on or spends it (`chances_step`), and a fresh id has
none, so there is at most one invocation. That needs nothing of the order
of the steps.

# The revocation

What was made on a connection before it was revoked has no chance left,
if the revocation finds none of it where it does not look: it ends the
rows that are open, and reaches neither a row of a transaction that has
yet to commit nor a claim that has yet to apply (`Idle`). The first comes
back to life when the connection is approved again, which is what ending
the rows is there to prevent; the second needs no approval.
-/
import Nacre.Lib.Table
import Nacre.Proposals.System

namespace Nacre.Proposals

open Transition
open Nacre.OAuth (Consent ConsentId)
open Nacre.Store (Time)

variable {cfg : Config} {s s' : World} {a : Action} {p : ProposalId}

-- ================================================== what a row can become

/-- What a statement at `now` leaves of a row. -/
structure Becomes (now : Time) (before after : Proposal) : Prop where
  consentId : after.consentId = before.consentId
  expiresAt : after.expiresAt = before.expiresAt
  /-- An open row was open. -/
  open' : after.status = .open → before.status = .open
  /-- A decided row stays as it was decided. -/
  final : before.status.terminal = true → after.status = before.status
  /-- It is taken up by a claim only. -/
  applying : after.status = .applying →
    (before.status = .applying ∧ after.decidedAt = before.decidedAt)
      ∨ (after.decidedAt = some now ∧ now < before.expiresAt)

theorem Becomes.refl (now : Time) (row : Proposal) : Becomes now row row :=
  ⟨rfl, rfl, fun h => h, fun _ => rfl, fun h => .inl ⟨h, rfl⟩⟩

theorem waiting_inv {now : Time} {row : Proposal} (h : row.waiting now = true) :
    row.status = .open ∧ now < row.expiresAt := by
  unfold Proposal.waiting at h
  rw [Bool.and_eq_true, decide_eq_true_eq, decide_eq_true_eq] at h
  exact h

theorem claimed_becomes {now : Time} {row : Proposal} (decider : Decider)
    (h : row.waiting now = true) : Becomes now row (claimed now decider row) := by
  obtain ⟨hopen, hlive⟩ := waiting_inv h
  refine ⟨rfl, rfl, fun hstatus => ?_, fun hfinal => ?_, fun _ => .inr ⟨rfl, hlive⟩⟩
  · cases hstatus
  · rw [hopen] at hfinal
    cases hfinal

theorem cancelled_becomes {now : Time} {row : Proposal} (decider : Decider)
    (h : row.waiting now = true) : Becomes now row (cancelled now decider row) := by
  obtain ⟨hopen, -⟩ := waiting_inv h
  refine ⟨rfl, rfl, fun hstatus => ?_, fun hfinal => ?_, fun hstatus => ?_⟩
  · cases hstatus
  · rw [hopen] at hfinal
    cases hfinal
  · cases hstatus

theorem settled_becomes (now : Time) (outcome : Option (List UInt16)) (row : Proposal) :
    Becomes now row (settled outcome row) := by
  unfold settled
  split
  next hrow =>
    refine ⟨rfl, rfl, fun hstatus => ?_, fun hfinal => ?_, fun hstatus => ?_⟩
    · change (if outcome = none then Status.applied else .failed) = .open at hstatus
      split at hstatus <;> cases hstatus
    · rw [hrow] at hfinal
      cases hfinal
    · change (if outcome = none then Status.applied else .failed) = .applying at hstatus
      split at hstatus <;> cases hstatus
  next => exact .refl now row

theorem ended_becomes {now : Time} {row : Proposal} (h : row.due now = true) :
    Becomes now row (ended now row) := by
  have hstatus : (ended now row).status = .expired ∨ (ended now row).status = .failed := by
    show (if row.status = .open then Status.expired else .failed) = .expired
      ∨ (if row.status = .open then Status.expired else .failed) = .failed
    split
    · exact .inl rfl
    · exact .inr rfl
  refine ⟨rfl, rfl, fun hopen => ?_, fun hfinal => ?_, fun happlying => ?_⟩
  · rcases hstatus with hnew | hnew <;> rw [hnew] at hopen <;> cases hopen
  · unfold Proposal.due at h
    cases hrow : row.status <;> simp_all [Status.terminal]
  · rcases hstatus with hnew | hnew <;> rw [hnew] at happlying <;> cases happlying

theorem endedByRevocation_becomes (now : Time) (row : Proposal) :
    Becomes now row (endedByRevocation now row) := by
  unfold endedByRevocation
  split
  next hrow =>
    refine ⟨rfl, rfl, fun hstatus => ?_, fun hfinal => ?_, fun hstatus => ?_⟩
    · cases hstatus
    · rw [hrow] at hfinal
      cases hfinal
    · cases hstatus
  next => exact .refl now row

/-- A statement over every row it selects. -/
theorem alter_becomes {sel : ProposalId → Proposal → Bool} {write : Proposal → Proposal}
    {row' : Proposal} {now : Time}
    (hwrite : ∀ p row, sel p row = true → Becomes now row (write row))
    (h : (s.alter sel write).proposals p = some row') :
    ∃ row, s.proposals p = some row ∧ Becomes now row row' := by
  obtain ⟨row, hrow, rfl⟩ := Option.map_eq_some_iff.1 h
  refine ⟨row, hrow, ?_⟩
  split
  next hsel => exact hwrite p row hsel
  next => exact .refl now row

/-- A row that is found after a step was there, and became what a
statement leaves of it, or has just been committed. -/
theorem rows_step (hs : Stepped cfg s a s') {row' : Proposal} (h : s'.proposals p = some row') :
    (∃ row, s.proposals p = some row ∧ Becomes s.now row row')
      ∨ (a = .commitCreate p ∧ s.creating p = some row') := by
  have hsame : s.proposals p = some row' →
      ∃ row, s.proposals p = some row ∧ Becomes s.now row row' :=
    fun hrow => ⟨row', hrow, .refl s.now row'⟩
  cases hs with
  | tick => exact .inl (hsame h)
  | record id c => exact .inl (hsame h)
  | beginCreate q id person tool module input key row hid hconsent hopen => exact .inl (hsame h)
  | commitCreate q row hrow =>
      rcases Table.update_cases h with ⟨rfl, rfl⟩ | ⟨-, hold⟩
      · exact .inr ⟨rfl, hrow⟩
      · exact .inl (hsame hold)
  | rollbackCreate q => exact .inl (hsame h)
  | claim q decider row hrow hwaiting hpermits =>
      exact .inl (Table.update_related (.refl s.now) hrow (claimed_becomes decider hwaiting) h)
  | apply q taken hflight => exact .inl (hsame h)
  | withdraw q taken hflight =>
      change (s.alter (fun p' _ => p' = q) (settled (some (notOffered taken.tool)))).proposals p
        = some row' at h
      exact .inl (alter_becomes (fun _ row _ => settled_becomes s.now _ row) h)
  | settle q outcome =>
      exact .inl (alter_becomes (fun _ row _ => settled_becomes s.now _ row) h)
  | cancel q decider row hrow hwaiting =>
      exact .inl (Table.update_related (.refl s.now) hrow (cancelled_becomes decider hwaiting) h)
  | expireProposals qs =>
      refine .inl (alter_becomes (fun q row hsel => ended_becomes ?_) h)
      exact (Bool.and_eq_true_iff.1 hsel).2
  | revoke id c =>
      change (s.alter (fun _ row => row.consentId = id) (endedByRevocation s.now)).proposals p
        = some row' at h
      exact .inl (alter_becomes (fun _ row _ => endedByRevocation_becomes s.now row) h)
  | prune days qs gone =>
      change (if gone p then none else s.proposals p) = some row' at h
      split at h
      · cases h
      · exact .inl (hsame h)
  | drop g hflight => exact .inl (hsame h)

-- ============================================================== the ledger

/-- The proposal was claimed: open and in time, by one who may decide. -/
def World.granted (s : World) (p : ProposalId) : Prop :=
  ∃ c ∈ s.claims, c.id = p ∧ c.row.status = .open ∧ c.time < c.row.expiresAt
    ∧ permits c.row c.decider = true

/-- Whose everything is, and that it was taken up in time. -/
structure Ledger (s : World) : Prop where
  known : ∀ p id, s.madeOn p = some id → p ∈ s.ids
  creating : ∀ p row, s.creating p = some row →
    s.proposals p = none ∧ row.status = .open ∧ s.madeOn p = some row.consentId
  rows : ∀ p row, s.proposals p = some row → s.madeOn p = some row.consentId
  applying : ∀ p row, s.proposals p = some row → row.status = .applying →
    ∃ d, row.decidedAt = some d ∧ d < row.expiresAt
  flights : ∀ p taken, .claimed p taken ∈ s.flights →
    s.madeOn p = some taken.consentId ∧ s.granted p
  applications : ∀ p ∈ s.applications, p ∈ s.ids ∧ s.granted p
  outlived : ∀ p ∈ s.outlived, p ∈ s.ids

theorem ledger_init (hs : init s) : Ledger s := by
  obtain ⟨now, rfl⟩ := hs
  refine ⟨?_, ?_, ?_, ?_, ?_, ?_, ?_⟩
  · intro p id hmade
    cases hmade
  · intro p row hrow
    cases hrow
  · intro p row hrow
    cases hrow
  · intro p row hrow
    cases hrow
  · intro p taken hflight
    cases hflight
  · intro p happlied
    cases happlied
  · intro p houtlived
    cases houtlived

/-- What a step does to what is being made, and to the connections. -/
theorem creating_step (hs : Stepped cfg s a s') {row : Proposal} (h : s'.creating p = some row) :
    (s.creating p = some row ∧ a ≠ .commitCreate p)
      ∨ (p ∉ s.ids ∧ row.status = .open ∧ s'.madeOn p = some row.consentId) := by
  cases hs with
  | beginCreate q id person tool module input key row₀ hid hconsent hopen =>
      rcases Table.update_cases h with ⟨rfl, rfl⟩ | ⟨-, hold⟩
      · refine .inr ⟨hid, hopen, ?_⟩
        rw [hconsent]
        exact Function.update_self ..
      · exact .inl ⟨hold, nofun⟩
  | commitCreate q row₀ hrow =>
      obtain ⟨hne, hold⟩ := Table.delete_cases h
      refine .inl ⟨hold, fun heq => ?_⟩
      cases heq
      exact hne rfl
  | rollbackCreate q => exact .inl ⟨(Table.delete_cases h).2, nofun⟩
  | _ => exact .inl ⟨h, nofun⟩

/-- An id that is known stays known, with its connection. -/
theorem madeOn_step (hs : Stepped cfg s a s') :
    (∀ q ∈ s.ids, q ∈ s'.ids ∧ s'.madeOn q = s.madeOn q)
      ∧ ∀ q id, s'.madeOn q = some id → s.madeOn q = some id ∨ q ∈ s'.ids := by
  cases hs with
  | beginCreate q id person tool module input key row hid hconsent hopen =>
      refine ⟨fun q' hq' => ⟨List.mem_cons_of_mem _ hq', ?_⟩, fun q' id' hmade => ?_⟩
      · have hne : q' ≠ q := fun heq => hid (heq ▸ hq')
        exact Function.update_of_ne hne ..
      · rcases Table.update_cases hmade with ⟨rfl, -⟩ | ⟨-, hold⟩
        · exact .inr List.mem_cons_self
        · exact .inl hold
  | _ => exact ⟨fun q hq => ⟨hq, rfl⟩, fun q id hmade => .inl hmade⟩

theorem granted_step (hs : Stepped cfg s a s') (h : s.granted p) : s'.granted p := by
  cases hs with
  | claim q decider row hrow hwaiting hpermits =>
      obtain ⟨c, hc, hgranted⟩ := h
      exact ⟨c, List.mem_cons_of_mem _ hc, hgranted⟩
  | _ => exact h

/-- A claim in flight was in flight, or has just been made. -/
theorem flights_step (hs : Stepped cfg s a s') {taken : Taken}
    (h : .claimed p taken ∈ s'.flights) :
    .claimed p taken ∈ s.flights
      ∨ ∃ row, s.proposals p = some row ∧ taken = row.taken ∧ s'.granted p := by
  have hkept : ∀ {g : Flight} {new : List Flight}, .claimed p taken ∉ new →
      .claimed p taken ∈ (s.replace g new).flights → .claimed p taken ∈ s.flights := by
    intro g new hnew hmem
    rcases List.mem_append.1 hmem with hin | hin
    · exact absurd hin hnew
    · exact List.mem_of_mem_erase hin
  cases hs with
  | claim q decider row hrow hwaiting hpermits =>
      rcases List.mem_cons.1 h with heq | hold
      · cases heq
        obtain ⟨hopen, hlive⟩ := waiting_inv hwaiting
        exact .inr ⟨row, hrow, rfl, _, List.mem_cons_self, rfl, hopen, hlive, hpermits⟩
      · exact .inl hold
  | apply q taken' hflight => exact .inl (hkept (by simp) h)
  | withdraw q taken' hflight => exact .inl (hkept (by simp) h)
  | drop g hflight => exact .inl (hkept (by simp) h)
  | _ => exact .inl h

theorem Ledger.step (h : Ledger s) (hs : Stepped cfg s a s') : Ledger s' := by
  obtain ⟨hids, hmade⟩ := madeOn_step hs
  have hmadeOn : ∀ p id, s.madeOn p = some id → s'.madeOn p = some id := by
    intro p id hp
    rw [(hids p (h.known p id hp)).2]
    exact hp
  refine ⟨fun p id hp => ?_, fun p row hrow => ?_, fun p row hrow => ?_,
    fun p row hrow happlying => ?_, fun p taken hflight => ?_, fun p happlied => ?_,
    fun p houtlived => ?_⟩
  · rcases hmade p id hp with hold | hnew
    · exact (hids p (h.known p id hold)).1
    · exact hnew
  · rcases creating_step hs hrow with ⟨hold, hne⟩ | ⟨hfresh, hopen, hconsent⟩
    · obtain ⟨hnone, hopen, hconsent⟩ := h.creating p row hold
      refine ⟨?_, hopen, hmadeOn p _ hconsent⟩
      rw [Option.eq_none_iff_forall_ne_some]
      intro row' hrow'
      rcases rows_step hs hrow' with ⟨row₀, hrow₀, -⟩ | ⟨heq, -⟩
      · rw [hnone] at hrow₀
        cases hrow₀
      · exact hne heq
    · refine ⟨?_, hopen, hconsent⟩
      rw [Option.eq_none_iff_forall_ne_some]
      intro row' hrow'
      rcases rows_step hs hrow' with ⟨row₀, hrow₀, -⟩ | ⟨-, hrow₀⟩
      · exact hfresh (h.known p _ (h.rows p row₀ hrow₀))
      · exact hfresh (h.known p _ (h.creating p row' hrow₀).2.2)
  · rcases rows_step hs hrow with ⟨row₀, hrow₀, hbecomes⟩ | ⟨-, hrow₀⟩
    · rw [hbecomes.consentId]
      exact hmadeOn p _ (h.rows p row₀ hrow₀)
    · exact hmadeOn p _ (h.creating p row hrow₀).2.2
  · rcases rows_step hs hrow with ⟨row₀, hrow₀, hbecomes⟩ | ⟨-, hrow₀⟩
    · rw [hbecomes.expiresAt]
      rcases hbecomes.applying happlying with ⟨hold, hdecided⟩ | ⟨hdecided, hlive⟩
      · rw [hdecided]
        exact h.applying p row₀ hrow₀ hold
      · exact ⟨s.now, hdecided, hlive⟩
    · rw [(h.creating p row hrow₀).2.1] at happlying
      cases happlying
  · rcases flights_step hs hflight with hold | ⟨row, hrow, rfl, hgranted⟩
    · obtain ⟨hconsent, hgranted⟩ := h.flights p taken hold
      exact ⟨hmadeOn p _ hconsent, granted_step hs hgranted⟩
    · exact ⟨hmadeOn p _ (h.rows p row hrow), hgranted⟩
  · have hcase : p ∈ s.applications ∨ ∃ taken, .claimed p taken ∈ s.flights := by
      cases hs with
      | apply q taken hflight =>
          rcases List.mem_cons.1 happlied with rfl | hold
          · exact .inr ⟨taken, hflight⟩
          · exact .inl hold
      | _ => exact .inl happlied
    rcases hcase with hold | ⟨taken, hflight⟩
    · obtain ⟨hid, hgranted⟩ := h.applications p hold
      exact ⟨(hids p hid).1, granted_step hs hgranted⟩
    · obtain ⟨hconsent, hgranted⟩ := h.flights p taken hflight
      exact ⟨(hids p (h.known p _ hconsent)).1, granted_step hs hgranted⟩
  · have hcase : p ∈ s.outlived ∨ p ∈ s.ids := by
      cases hs with
      | revoke id c =>
          rcases List.mem_append.1 houtlived with hnew | hold
          · exact .inr (List.mem_filter.1 hnew).1
          · exact .inl hold
      | _ => exact .inl houtlived
    rcases hcase with hold | hid
    · exact (hids p (h.outlived p hold)).1
    · exact (hids p hid).1

theorem ledger_reachable {ok : World → Action → Prop}
    (hrun : Reachable (step cfg) ok init s) : Ledger s :=
  hrun.invariant (fun _ => ledger_init) fun _ _ _ h _ hs => h.step (step_inv hs)

-- =============================================================== the count

/-- The row is there and open. -/
def World.isOpen (s : World) (p : ProposalId) : Bool :=
  (s.proposals p).any (·.status = .open)

/-- What may still lead to an invocation of `apply`. -/
def World.pending (s : World) (p : ProposalId) : Nat :=
  (s.creating p).isSome.toNat + (s.isOpen p).toNat + s.flights.countP (·.awaits p)

/-- With the invocations there were. -/
def World.chances (s : World) (p : ProposalId) : Nat := s.pending p + s.applications.count p

theorem isOpen_of {row : Proposal} (hrow : s.proposals p = some row) :
    s.isOpen p = decide (row.status = .open) := by
  unfold World.isOpen
  rw [hrow]
  rfl

/-- An open row after a statement was open before it. -/
theorem isOpen_le (h : ∀ row', s'.proposals p = some row' →
      ∃ row, s.proposals p = some row ∧ Becomes s.now row row') :
    (s'.isOpen p).toNat ≤ (s.isOpen p).toNat := by
  cases hrow' : s'.proposals p with
  | none =>
      have hshut : s'.isOpen p = false := by
        unfold World.isOpen
        rw [hrow']
        rfl
      rw [hshut]
      exact Nat.zero_le _
  | some row' =>
      obtain ⟨row, hrow, hbecomes⟩ := h row' hrow'
      rw [isOpen_of hrow', isOpen_of hrow]
      refine Bool.toNat_le_toNat fun hopen => ?_
      exact decide_eq_true (hbecomes.open' (of_decide_eq_true hopen))

theorem awaits_replace (p : ProposalId) {g : Flight} (hg : g ∈ s.flights) (new : List Flight) :
    (s.replace g new).flights.countP (·.awaits p) + (g.awaits p).toNat
      = new.countP (·.awaits p) + s.flights.countP (·.awaits p) := by
  show (new ++ s.flights.erase g).countP (·.awaits p) + _ = _
  rw [List.countP_append, (List.perm_cons_erase hg).countP_eq, List.countP_cons]
  cases g.awaits p <;> simp [Nat.add_assoc]

/-- Every step moves a chance on or spends it, but for an id it makes. -/
theorem chances_step (hs : Stepped cfg s a s') (hid : p ∈ s.ids) :
    s'.chances p ≤ s.chances p := by
  have hcreating : (s'.creating p).isSome.toNat ≤ (s.creating p).isSome.toNat := by
    refine Bool.toNat_le_toNat fun hsome => ?_
    obtain ⟨row, hrow⟩ := Option.isSome_iff_exists.1 hsome
    rcases creating_step hs hrow with ⟨hold, -⟩ | ⟨hfresh, -⟩
    · exact Option.isSome_of_eq_some hold
    · exact absurd hid hfresh
  have hopen : a ≠ .commitCreate p → (s'.isOpen p).toNat ≤ (s.isOpen p).toNat := by
    intro hne
    refine isOpen_le fun row' hrow' => ?_
    rcases rows_step hs hrow' with hold | ⟨heq, -⟩
    · exact hold
    · exact absurd heq hne
  unfold World.chances World.pending
  cases hs with
  | commitCreate q row hrow =>
      by_cases hq : q = p
      · subst hq
        -- the row that was being made is the open one
        have hafter : (Function.update s.creating q none q).isSome.toNat = 0 := by
          rw [Function.update_self]
          rfl
        have hbefore : (s.creating q).isSome.toNat = 1 := by
          rw [hrow]
          rfl
        have hone := Bool.toNat_le
          (World.isOpen { s.setRow q row with creating := Function.update s.creating q none } q)
        change (Function.update s.creating q none q).isSome.toNat + _
          + s.flights.countP (·.awaits q) + s.applications.count q ≤ _
        omega
      · have hshut := hopen fun heq => hq (by injection heq)
        exact Nat.add_le_add_right
          (Nat.add_le_add_right (Nat.add_le_add hcreating hshut) _) _
  | claim q decider row hrow hwaiting hpermits =>
      have hflights : (Flight.claimed q row.taken :: s.flights).countP (·.awaits p)
          = s.flights.countP (·.awaits p) + if q = p then 1 else 0 := by
        rw [List.countP_cons]
        simp only [Flight.awaits, decide_eq_true_eq]
      by_cases hq : q = p
      · subst hq
        -- the open row is the claim
        have hbefore : (s.isOpen q).toNat = 1 := by
          rw [isOpen_of hrow, decide_eq_true (waiting_inv hwaiting).1]
          rfl
        have hafter : World.isOpen
            { s.setRow q (claimed s.now decider row) with
              flights := .claimed q row.taken :: s.flights
              claims := ⟨q, decider, s.now, row⟩ :: s.claims } q = false := by
          unfold World.isOpen
          change (Function.update s.proposals q (some (claimed s.now decider row)) q).any _ = false
          rw [Function.update_self]
          rfl
        rw [if_pos rfl] at hflights
        change _ + Bool.toNat (World.isOpen _ q)
          + (Flight.claimed q row.taken :: s.flights).countP (·.awaits q)
          + s.applications.count q ≤ _
        rw [hflights, hafter, hbefore]
        change (s.creating q).isSome.toNat + 0 + _ + _ ≤ _
        omega
      · have hshut := hopen nofun
        rw [if_neg hq] at hflights
        change _ + _ + (Flight.claimed q row.taken :: s.flights).countP (·.awaits p)
          + s.applications.count p ≤ _
        rw [hflights]
        exact Nat.add_le_add_right
          (Nat.add_le_add_right (Nat.add_le_add hcreating hshut) _) _
  | apply q taken hflight =>
      have hflights := awaits_replace p hflight [.running q]
      have hnew : [Flight.running q].countP (·.awaits p) = 0 := rfl
      have happlied : (q :: s.applications).count p
          = s.applications.count p + (decide (q = p)).toNat := by
        rw [List.count_cons]
        by_cases hq : q = p
        · simp [hq]
        · simp [hq]
      have hawaits : (Flight.claimed q taken).awaits p = decide (q = p) := rfl
      have hshut := hopen nofun
      rw [hawaits] at hflights
      change _ + _ + (s.replace (.claimed q taken) [.running q]).flights.countP (·.awaits p)
        + (q :: s.applications).count p ≤ _
      omega
  | withdraw q taken hflight =>
      have hflights := awaits_replace p hflight [.running q]
      have hnew : [Flight.running q].countP (·.awaits p) = 0 := rfl
      have hshut := hopen nofun
      change _ + _ + (s.replace (.claimed q taken) [.running q]).flights.countP (·.awaits p)
        + s.applications.count p ≤ _
      omega
  | drop g hflight =>
      have hflights := awaits_replace p hflight []
      have hnew : ([] : List Flight).countP (·.awaits p) = 0 := rfl
      have hshut := hopen nofun
      change _ + _ + (s.replace g []).flights.countP (·.awaits p) + s.applications.count p ≤ _
      omega
  | _ =>
      exact Nat.add_le_add_right
        (Nat.add_le_add_right (Nat.add_le_add hcreating (hopen nofun)) _) _

/-- Nothing is known of an id nobody made. -/
theorem Ledger.fresh (h : Ledger s) (hid : p ∉ s.ids) : s.chances p = 0 := by
  have hcreating : s.creating p = none := by
    rw [Option.eq_none_iff_forall_ne_some]
    intro row hrow
    exact hid (h.known p _ (h.creating p row hrow).2.2)
  have hrow : s.proposals p = none := by
    rw [Option.eq_none_iff_forall_ne_some]
    intro row hrow
    exact hid (h.known p _ (h.rows p row hrow))
  have hflights : s.flights.countP (·.awaits p) = 0 := by
    rw [List.countP_eq_zero]
    intro g hg hawaits
    cases g with
    | claimed q taken =>
        obtain rfl : q = p := of_decide_eq_true hawaits
        exact hid (h.known q _ (h.flights q taken hg).1)
    | running q => cases hawaits
  have happlied : s.applications.count p = 0 :=
    List.count_eq_zero.2 fun happlied => hid (h.applications p happlied).1
  unfold World.chances World.pending World.isOpen
  rw [hcreating, hrow, hflights, happlied]
  rfl

theorem chances_le_one {ok : World → Action → Prop} (hrun : Reachable (step cfg) ok init s)
    (p : ProposalId) : s.chances p ≤ 1 := by
  refine hrun.invariant_on (I := fun t => ∀ p, t.chances p ≤ 1) (fun _ => ledger_reachable)
    (fun s₀ h₀ p => ?_) (fun t a t' hledger h _ ht p => ?_) p
  · obtain ⟨now, rfl⟩ := h₀
    exact Nat.zero_le _
  · have hs := step_inv ht
    by_cases hid : p ∈ t.ids
    · exact (chances_step hs hid).trans (h p)
    · have hzero := hledger.fresh hid
      by_cases hid' : p ∈ t'.ids
      · cases hs with
        | beginCreate q id person tool module input key row hq hconsent hopen =>
            have hone := Bool.toNat_le (Function.update t.creating q (some row) p).isSome
            unfold World.chances World.pending at hzero
            change (Function.update t.creating q (some row) p).isSome.toNat + (t.isOpen p).toNat
              + t.flights.countP (·.awaits p) + t.applications.count p ≤ 1
            omega
        | _ => exact absurd hid' hid
      · rw [(hledger.step hs).fresh hid']
        exact Nat.zero_le _

-- ============================================================ what it means

/-- Applied once, on a claim; decided once; and always decided. -/
structure Decided (cfg : Config) (s : World) : Prop where
  once : ∀ p, s.applications.count p ≤ 1
  granted : ∀ p ∈ s.applications, s.granted p
  /-- A terminal status is the last. -/
  final : ∀ p row s' row', s.proposals p = some row → row.status.terminal = true →
    Steps (step cfg) anyStep s s' → s'.proposals p = some row' → row'.status = row.status
  /-- The worker's pass leaves a terminal status, an apply's time after the
  row has run out. -/
  ends : ∀ p row ps, s.proposals p = some row → row.expiresAt + APPLYING_SECONDS < s.now →
    p ∈ ps → ∃ s' row', step cfg s (.expireProposals ps) = some s'
      ∧ s'.proposals p = some row' ∧ row'.status.terminal = true

/-- What was made on a connection before it was revoked is not applied. -/
def Ended (cfg : Config) (s : World) : Prop :=
  ∀ p taken, p ∈ s.outlived → step cfg s (.apply p taken) = none

/-- A connection is revoked while no proposal of it is being made, and no
claim of one has still to apply. -/
def Idle (s : World) : Action → Prop
  | .revoke id =>
      (∀ p ∈ s.ids, (s.creating p).all (·.consentId ≠ id) = true)
        ∧ ∀ g ∈ s.flights, g.awaitsOn id = false
  | _ => True

instance (s : World) (a : Action) : Decidable (Idle s a) := by
  cases a with
  | revoke id => exact inferInstanceAs (Decidable (_ ∧ _))
  | _ => exact inferInstanceAs (Decidable True)

-- ============================================================= every run

/-- Along a run, a decided row stays as it was decided. -/
theorem status_final {row row' : Proposal} (hledger : Ledger s) (hrow : s.proposals p = some row)
    (hfinal : row.status.terminal = true) (hsteps : Steps (step cfg) anyStep s s')
    (hrow' : s'.proposals p = some row') : row'.status = row.status := by
  have hcreating : s.creating p = none := by
    rw [Option.eq_none_iff_forall_ne_some]
    intro row₀ hrow₀
    rw [(hledger.creating p row₀ hrow₀).1] at hrow
    cases hrow
  have hkept := hsteps.invariant
    (I := fun t => p ∈ t.ids ∧ t.creating p = none
      ∧ ∀ row₁, t.proposals p = some row₁ → row₁.status = row.status)
    ⟨hledger.known p _ (hledger.rows p row hrow), hcreating, fun row₁ hrow₁ => by
      rw [hrow] at hrow₁
      cases hrow₁
      rfl⟩ ?_
  · exact hkept.2.2 row' hrow'
  · intro t a t' ⟨hid, hnone, hstatus⟩ _ ht
    have hs := step_inv ht
    refine ⟨((madeOn_step hs).1 p hid).1, ?_, fun row₁ hrow₁ => ?_⟩
    · rw [Option.eq_none_iff_forall_ne_some]
      intro row₁ hrow₁
      rcases creating_step hs hrow₁ with ⟨hold, -⟩ | ⟨hfresh, -⟩
      · rw [hnone] at hold
        cases hold
      · exact hfresh hid
    · rcases rows_step hs hrow₁ with ⟨row₀, hrow₀, hbecomes⟩ | ⟨-, hold⟩
      · rw [hbecomes.final (by rw [hstatus row₀ hrow₀]; exact hfinal)]
        exact hstatus row₀ hrow₀
      · rw [hnone] at hold
        cases hold

/-- A row that is neither open in time nor being applied in time is
terminal, or due. -/
theorem Ledger.due (h : Ledger s) {row : Proposal} (hrow : s.proposals p = some row)
    (hlate : row.expiresAt + APPLYING_SECONDS < s.now) :
    row.status.terminal = true ∨ row.due s.now = true := by
  cases hstatus : row.status with
  | «open» =>
      refine .inr ?_
      have hpast : row.expiresAt < s.now := Nat.lt_of_le_of_lt (Nat.le_add_right ..) hlate
      unfold Proposal.due
      rw [hstatus, decide_eq_true hpast]
      rfl
  | applying =>
      refine .inr ?_
      obtain ⟨d, hdecided, hd⟩ := h.applying p row hrow hstatus
      have hpast : d + APPLYING_SECONDS < s.now :=
        Nat.lt_trans (Nat.add_lt_add_right hd _) hlate
      unfold Proposal.due
      rw [hstatus, hdecided, Option.any_some, decide_eq_true hpast]
      rfl
  | _ => exact .inl rfl

theorem expire_ends (h : Ledger s) {row : Proposal} {ps : List ProposalId}
    (hrow : s.proposals p = some row) (hlate : row.expiresAt + APPLYING_SECONDS < s.now)
    (hp : p ∈ ps) :
    ∃ s' row', step cfg s (.expireProposals ps) = some s'
      ∧ s'.proposals p = some row' ∧ row'.status.terminal = true := by
  refine ⟨_, if p ∈ ps && row.due s.now then ended s.now row else row, rfl, ?_, ?_⟩
  · show (s.proposals p).map _ = _
    rw [hrow]
    rfl
  · cases hdue : row.due s.now with
    | true =>
        rw [decide_eq_true hp, if_pos (by rfl)]
        show (if row.status = .open then Status.expired else .failed).terminal = true
        split <;> rfl
    | false =>
        rw [Bool.and_false, if_neg Bool.false_ne_true]
        rcases h.due hrow hlate with hterminal | hyes
        · exact hterminal
        · rw [hdue] at hyes
          cases hyes

theorem decided_reachable (hrun : Reachable (step cfg) anyStep init s) : Decided cfg s := by
  have hledger := ledger_reachable hrun
  refine ⟨fun p => ?_, fun p happlied => (hledger.applications p happlied).2,
    fun p row s' row' hrow hfinal hsteps hrow' => status_final hledger hrow hfinal hsteps hrow',
    fun p row ps hrow hlate hp => expire_ends hledger hrow hlate hp⟩
  have hone := chances_le_one hrun p
  unfold World.chances at hone
  omega

-- ==================================================== runs that revoke idly

theorem applications_step (hs : Stepped cfg s a s') :
    s.applications.count p ≤ s'.applications.count p := by
  cases hs with
  | apply q taken hflight => exact List.count_le_count_cons
  | _ => exact Nat.le_refl _

/-- A revocation that finds nothing where it does not look leaves no
chance. -/
theorem pending_revoke (h : Ledger s) {id : ConsentId} (hok : Idle s (.revoke id))
    (hs : Stepped cfg s (.revoke id) s') (hp : p ∈ s.made id) : s'.pending p = 0 := by
  obtain ⟨hid, hmade⟩ := List.mem_filter.1 hp
  have hmade : s.madeOn p = some id := of_decide_eq_true hmade
  cases hs with
  | revoke _ c =>
      have hcreating : s.creating p = none := by
        rw [Option.eq_none_iff_forall_ne_some]
        intro row hrow
        have hconsent := (h.creating p row hrow).2.2
        rw [hmade] at hconsent
        have hother := hok.1 p hid
        rw [hrow, Option.all_some, decide_eq_true_eq] at hother
        exact hother (Option.some.inj hconsent).symm
      have hflights : s.flights.countP (·.awaits p) = 0 := by
        rw [List.countP_eq_zero]
        intro g hg hawaits
        cases g with
        | claimed q taken =>
            obtain rfl : q = p := of_decide_eq_true hawaits
            have hconsent := (h.flights q taken hg).1
            rw [hmade] at hconsent
            have hother := of_decide_eq_false (p := taken.consentId = id) (hok.2 _ hg)
            exact hother (Option.some.inj hconsent).symm
        | running q => cases hawaits
      have hshut : (s.alter (fun _ row => row.consentId = id)
          (endedByRevocation s.now)).isOpen p = false := by
        cases hrow : s.proposals p with
        | none =>
            unfold World.isOpen World.alter
            change ((s.proposals p).map _).any _ = false
            rw [hrow]
            rfl
        | some row =>
            have hconsent := h.rows p row hrow
            rw [hmade] at hconsent
            have hafter : (s.alter (fun _ row => row.consentId = id)
                (endedByRevocation s.now)).proposals p = some (endedByRevocation s.now row) := by
              change (s.proposals p).map _ = _
              rw [hrow, Option.map_some]
              exact congrArg some (if_pos (decide_eq_true (Option.some.inj hconsent).symm))
            rw [isOpen_of hafter]
            unfold endedByRevocation
            split
            · rfl
            · next hstatus => exact decide_eq_false hstatus
      change (s.creating p).isSome.toNat
        + ((s.alter (fun _ row => row.consentId = id) (endedByRevocation s.now)).isOpen p).toNat
        + s.flights.countP (·.awaits p) = 0
      rw [hcreating, hshut, hflights]
      rfl

theorem pending_outlived (hrun : Reachable (step cfg) Idle init s) (hp : p ∈ s.outlived) :
    s.pending p = 0 := by
  refine hrun.invariant_on (I := fun t => ∀ p ∈ t.outlived, t.pending p = 0)
    (fun _ => ledger_reachable) (fun s₀ h₀ p hp => ?_) (fun t a t' hledger h hok ht p hp => ?_)
    p hp
  · obtain ⟨now, rfl⟩ := h₀
    cases hp
  · have hs := step_inv ht
    have hcase : p ∈ t.outlived ∨ ∃ id, a = .revoke id ∧ p ∈ t.made id := by
      cases hs with
      | revoke id c =>
          rcases List.mem_append.1 hp with hnew | hold
          · exact .inr ⟨id, rfl, hnew⟩
          · exact .inl hold
      | _ => exact .inl hp
    rcases hcase with hold | ⟨id, rfl, hnew⟩
    · have hchances := chances_step hs (hledger.outlived p hold)
      have happlied := applications_step (p := p) hs
      have hzero := h p hold
      unfold World.chances at hchances
      omega
    · exact pending_revoke hledger hok hs hnew

theorem ended_reachable (hrun : Reachable (step cfg) Idle init s) : Ended cfg s := by
  intro p taken hp
  have hnone : .claimed p taken ∉ s.flights := by
    intro hflight
    have hzero := pending_outlived hrun hp
    unfold World.pending at hzero
    have hflights : s.flights.countP (·.awaits p) = 0 := by omega
    exact List.countP_eq_zero.1 hflights _ hflight (decide_eq_true rfl)
  exact if_neg fun hboth => hnone hboth.1

/-- Every run decides its proposals once and applies them on a claim; one
whose revocations find nothing of the connection under way applies none
that the connection's revocation came after. -/
theorem proposals_decided (cfg : Config) (s : World) :
    (Reachable (step cfg) anyStep init s → Decided cfg s)
      ∧ (Reachable (step cfg) Idle init s → Ended cfg s) :=
  ⟨decided_reachable, ended_reachable⟩

/-- Every tool is offered. -/
def offering : Config := ⟨fun _ _ => true⟩

/-- One proposal is applied and settled, another is open when the
connection is revoked, and it is approved again. -/
def decidedActs : List Action :=
  [.record "c", .beginCreate "p" "c" "ann" "grant" none "" "k", .commitCreate "p",
    .beginCreate "q" "c" "ann" "grant" none "" "k", .commitCreate "q",
    .claim "p" (.console "ann"), .apply "p" ⟨"grant", none, "", "c"⟩, .settle "p" none,
    .revoke "c", .record "c"]

def decidedWorld : World :=
  (runWithin (step offering) Idle (World.empty 0) decidedActs).get (by decide +kernel)

theorem proposals_decided_applied :
    decidedWorld.applications = ["p"] ∧ "q" ∈ decidedWorld.outlived
      ∧ Decided offering decidedWorld ∧ Ended offering decidedWorld :=
  have hrun : Reachable (step offering) Idle init decidedWorld := reachable_get ⟨0, rfl⟩ _
  ⟨by decide +kernel, by decide +kernel, (proposals_decided offering decidedWorld).1 hrun.any,
    (proposals_decided offering decidedWorld).2 hrun⟩

-- ============================================================ what remains

/-- The connection is revoked while a proposal of it has still to be
committed, and approved again; the proposal is claimed. -/
def revivedActs : List Action :=
  [.record "c", .beginCreate "p" "c" "ann" "grant" none "" "k", .revoke "c", .commitCreate "p",
    .record "c", .claim "p" (.console "ann")]

def revivedWorld : World :=
  (runWithin (step offering) anyStep (World.empty 0) revivedActs).get (by decide +kernel)

/-- The connection is revoked between the claim and what it claimed for. -/
def overtakenActs : List Action :=
  [.record "c", .beginCreate "p" "c" "ann" "grant" none "" "k", .commitCreate "p",
    .claim "p" (.console "ann"), .revoke "c"]

def overtakenWorld : World :=
  (runWithin (step offering) anyStep (World.empty 0) overtakenActs).get (by decide +kernel)

/-- A proposal is applied after its connection was revoked: one that was
being made then, once the connection is approved again, and one that was
claimed before. -/
theorem applied_after_revocation :
    (∃ s, Reachable (step offering) anyStep init s ∧ s.stands "c" = true ∧ ¬ Ended offering s)
      ∧ ∃ s, Reachable (step offering) anyStep init s ∧ s.stands "c" = false
          ∧ ¬ Ended offering s := by
  refine ⟨⟨revivedWorld, reachable_get ⟨0, rfl⟩ _, by decide +kernel, fun h => ?_⟩,
    ⟨overtakenWorld, reachable_get ⟨0, rfl⟩ _, by decide +kernel, fun h => ?_⟩⟩
  · have hnone := h "p" ⟨"grant", none, "", "c"⟩ (by decide +kernel)
    have hsome : (step offering revivedWorld (.apply "p" ⟨"grant", none, "", "c"⟩)).isSome = true :=
      by decide +kernel
    rw [hnone] at hsome
    cases hsome
  · have hnone := h "p" ⟨"grant", none, "", "c"⟩ (by decide +kernel)
    have hsome : (step offering overtakenWorld
        (.apply "p" ⟨"grant", none, "", "c"⟩)).isSome = true := by decide +kernel
    rw [hnone] at hsome
    cases hsome

end Nacre.Proposals
