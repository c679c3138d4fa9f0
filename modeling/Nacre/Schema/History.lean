/-
Runs of builds that share a history: each ships an initial part of one
list of migrations, as a build does that is older or newer than another,
and a file that shipped does not change.

Then the database is always at one place in that list (`Reached`): what
it had before the runs and, after it, the texts that ran, in the order of
the list and with none left out, whatever runs interleave and wherever
they are given up. A retry takes it from there to the end of its own
list.

# The argument

The rows a run has been past are in the ledger, and its next name is in
nobody's where it commits; so the run commits at the place the database
is at (`Reached.commit`).
-/
import Nacre.Schema.Applied

namespace Nacre.Schema

open Transition

variable {plan : RunId → Plan} {before : Ledger}
variable {hist : List Migration} {s s' : World} {i : RunId} {l : Loop} {m : Migration} {k k₀ : Nat}

-- =============================================================== vocabulary

/-- The ledger has the names of the first `k` of the list, and no other
name of it. -/
def Upto (hist : List Migration) (ledger : Ledger) (k : Nat) : Prop :=
  ∀ j m, hist[j]? = some m → (ledger m.name ≠ none ↔ j < k)

structure Shared (plan : RunId → Plan) (before : Ledger)
    (hist : List Migration) (k₀ : Nat) : Prop where
  names : (hist.map (·.name)).Nodup
  prefixes : ∀ i, (plan i).migrations <+: hist
  upto : Upto hist before k₀
  bound : k₀ ≤ hist.length
  /-- No file was changed after its checksum was taken. -/
  unchanged : ∀ m ∈ hist, ∀ c, before m.name = some (some c) → c = checksum m.sql

/-- Where the database is. -/
structure Reached (hist : List Migration) (k₀ : Nat) (s : World) (k : Nat) : Prop where
  low : k₀ ≤ k
  high : k ≤ hist.length
  upto : Upto hist s.ledger k
  ran : s.ran = (hist.take k).drop k₀

-- =============================================================== the places

theorem prefix_get {files : List Migration} (hfiles : files <+: hist) {j : Nat}
    (hj : files[j]? = some m) : hist[j]? = some m := by
  obtain ⟨hlt, rfl⟩ := List.getElem?_eq_some_iff.mp hj
  rw [hfiles.getElem hlt]
  exact List.getElem?_eq_getElem _

/-- Names are told apart by their places. -/
theorem place_inj (hnames : (hist.map (·.name)).Nodup) {j j' : Nat} {m' : Migration}
    (hj : hist[j]? = some m) (hj' : hist[j']? = some m') (hname : m.name = m'.name) : j = j' := by
  have hlt : j < (hist.map (·.name)).length := by
    rw [List.length_map]
    exact (List.getElem?_eq_some_iff.mp hj).1
  refine (List.getElem?_inj hlt hnames).mp ?_
  rw [List.getElem?_map, List.getElem?_map, hj, hj', Option.map_some, Option.map_some, hname]

/-- A ledger with the first `k` names splits the files of any build. -/
theorem Upto.filter {ledger : Ledger} (h : Upto hist ledger k) {files : List Migration}
    (hfiles : files <+: hist) :
    (files.filter fun m => (ledger m.name).isNone) = files.drop k ∧
      (files.filter fun m => (ledger m.name).isSome) = files.take k := by
  have hhead : ∀ m ∈ files.take k, (ledger m.name).isSome = true := by
    intro m hm
    obtain ⟨j, hj⟩ := List.mem_iff_getElem?.mp hm
    rw [List.getElem?_take] at hj
    split at hj
    next hlt => exact Option.isSome_iff_ne_none.mpr ((h j m (prefix_get hfiles hj)).mpr hlt)
    next => cases hj
  have htail : ∀ m ∈ files.drop k, (ledger m.name).isNone = true := by
    intro m hm
    obtain ⟨j, hj⟩ := List.mem_iff_getElem?.mp hm
    rw [List.getElem?_drop] at hj
    by_cases hnone : ledger m.name = none
    · rw [hnone]
      rfl
    · have hlt := (h _ m (prefix_get hfiles hj)).mp hnone
      omega
  constructor
  · conv_lhs => rw [← List.take_append_drop k files]
    rw [List.filter_append, List.filter_eq_nil_iff.mpr, List.filter_eq_self.mpr htail,
      List.nil_append]
    intro m hm
    rw [Option.isNone_eq_false_iff.mpr (hhead m hm)]
    exact Bool.false_ne_true
  · conv_lhs => rw [← List.take_append_drop k files]
    rw [List.filter_append, List.filter_eq_self.mpr hhead, List.filter_eq_nil_iff.mpr,
      List.append_nil]
    intro m hm
    rw [Option.isSome_eq_false_iff.mpr (htail m hm)]
    exact Bool.false_ne_true

theorem Upto.same {ledger ledger' : Ledger} (h : Upto hist ledger k)
    (hsame : ∀ n, ledger' n ≠ none ↔ ledger n ≠ none) : Upto hist ledger' k :=
  fun j m hj => (hsame m.name).trans (h j m hj)

-- ================================================================ the steps

/-- The run that commits is at the place the database is at. -/
theorem Reached.commit (hshared : Shared plan before hist k₀)
    (h : Sound plan before s) (hk : Reached hist k₀ s k) {rest : List Migration}
    (hphase : s.phase i = .going l) (hturn : l.turn = .recorded) (hrest : l.rest = m :: rest) :
    hist[k]? = some m := by
  have hloop := h.loops i l hphase
  have hfiles : l.past ++ m :: rest <+: hist := by
    rw [← hrest, ← hloop.migrations]
    exact hshared.prefixes i
  have hget : ∀ {j : Nat} {m' : Migration}, (l.past ++ m :: rest)[j]? = some m' →
      hist[j]? = some m' := fun hj => prefix_get hfiles hj
  have hm : hist[l.past.length]? = some m := by
    refine hget ?_
    rw [List.getElem?_append_right (Nat.le_refl _), Nat.sub_self]
    rfl
  have hnone : s.ledger m.name = none :=
    h.free _ (by rw [hloop.held hturn m rest hrest]; exact Option.some_ne_none _)
  have hle : k ≤ l.past.length := by
    by_contra hlt
    exact (hk.upto _ m hm).mpr (by omega) hnone
  have hge : l.past.length ≤ k := by
    by_contra hlt
    have hlast : k < l.past.length := by omega
    have hj : hist[k]? = some l.past[k] := by
      refine hget ?_
      rw [List.getElem?_append_left hlast]
      exact List.getElem?_eq_getElem hlast
    obtain ⟨c, hc, -⟩ := hloop.settled _ (List.getElem_mem hlast)
    have := (hk.upto k _ hj).mp (by rw [hc]; exact Option.some_ne_none _)
    omega
  rw [Nat.le_antisymm hle hge]
  exact hm

theorem Reached.moves (hshared : Shared plan before hist k₀)
    (h : Sound plan before s) (hk : Reached hist k₀ s k)
    (hmove : Moves plan s s') : ∃ k', k ≤ k' ∧ Reached hist k₀ s' k' := by
  cases hmove with
  | fill i l m rest hphase hturn hrest hnull =>
      refine ⟨k, Nat.le_refl k, hk.low, hk.high, hk.upto.same fun n => ?_, hk.ran⟩
      show Function.update s.ledger m.name _ n ≠ none ↔ _
      by_cases hn : n = m.name
      · subst hn
        rw [Function.update_self]
        simp
      · rw [Function.update_of_ne hn]
  | commit i l m rest hphase hturn hrest =>
      have hm := hk.commit hshared h hphase hturn hrest
      have hlt := (List.getElem?_eq_some_iff.mp hm).1
      refine ⟨k + 1, Nat.le_succ k, Nat.le_succ_of_le hk.low, hlt, ?_, ?_⟩
      · intro j m' hj
        show Function.update s.ledger m.name _ m'.name ≠ none ↔ _
        by_cases hn : m'.name = m.name
        · rw [hn, Function.update_self, place_inj hshared.names hj hm hn]
          simp
        · rw [Function.update_of_ne hn, hk.upto j m' hj]
          have hne : j ≠ k := by
            rintro rfl
            exact hn (congrArg _ (Option.some.inj (hj.symm.trans hm)))
          omega
      · show s.ran ++ [m] = _
        rw [hk.ran, List.take_succ, hm, List.drop_append_of_le_length]
        · rfl
        · rw [List.length_take]
          have := hk.low
          omega
  | _ => exact ⟨k, Nat.le_refl k, hk.low, hk.high, hk.upto, hk.ran⟩

/-- What a run has read, and what it says in the end. -/
structure Readings (plan : RunId → Plan) (hist : List Migration) (s : World) : Prop where
  going : ∀ i l, s.phase i = .going l → ∃ r, Upto hist l.ledger r
  returned : ∀ i applied skipped, s.phase i = .returned applied skipped →
    ∃ r, applied = ((plan i).migrations.drop r).map (·.name) ∧
      skipped = ((plan i).migrations.take r).map (·.name)

/-- One run moves, its reading kept. -/
theorem Readings.put (h : Readings plan hist s) {p : Phase}
    (hphase : s'.phase = Function.update s.phase i p)
    (hgoing : ∀ l, p = .going l → ∃ r, Upto hist l.ledger r)
    (hreturned : ∀ applied skipped, p = .returned applied skipped →
      ∃ r, applied = ((plan i).migrations.drop r).map (·.name) ∧
        skipped = ((plan i).migrations.take r).map (·.name)) : Readings plan hist s' := by
  constructor
  · intro j l hj
    rw [hphase] at hj
    by_cases hij : j = i
    · subst hij
      rw [Function.update_self] at hj
      exact hgoing l hj
    · rw [Function.update_of_ne hij] at hj
      exact h.going j l hj
  · intro j applied skipped hj
    rw [hphase] at hj
    by_cases hij : j = i
    · subst hij
      rw [Function.update_self] at hj
      exact hreturned applied skipped hj
    · rw [Function.update_of_ne hij] at hj
      exact h.returned j applied skipped hj

theorem Readings.moves (hshared : Shared plan before hist k₀)
    (h : Sound plan before s) (hk : Reached hist k₀ s k) (hr : Readings plan hist s)
    (hmove : Moves plan s s') : Readings plan hist s' := by
  cases hmove with
  | refuse i => exact hr.put (i := i) rfl (fun _ hl => by cases hl) fun _ _ hl => by cases hl
  | read i =>
      exact hr.put (i := i) rfl (fun _ hl => Phase.going.inj hl ▸ ⟨k, hk.upto⟩)
        fun _ _ hl => by cases hl
  | finish i l hphase hturn hrest =>
      refine hr.put (i := i) rfl (fun _ hl => by cases hl) ?_
      intro applied skipped hl
      obtain ⟨rfl, rfl⟩ := Phase.returned.inj hl
      obtain ⟨r, hupto⟩ := hr.going i l hphase
      have hloop := h.loops i l hphase
      have hfiles : (plan i).migrations = l.past := by
        rw [hloop.migrations, hrest, List.append_nil]
      have hsplit := hupto.filter (hshared.prefixes i)
      rw [hfiles] at hsplit
      exact ⟨r, by rw [hloop.applied, hsplit.1, hfiles], by rw [hloop.skipped, hsplit.2, hfiles]⟩
  | begin i l _ _ hphase =>
      exact hr.put (i := i) rfl (fun _ hl => Phase.going.inj hl ▸ hr.going i l hphase)
        fun _ _ hl => by cases hl
  | fill i l _ _ hphase =>
      exact hr.put (i := i) rfl (fun _ hl => Phase.going.inj hl ▸ hr.going i l hphase)
        fun _ _ hl => by cases hl
  | modified i => exact hr.put (i := i) rfl (fun _ hl => by cases hl) fun _ _ hl => by cases hl
  | skip i l _ _ hphase =>
      exact hr.put (i := i) rfl (fun _ hl => Phase.going.inj hl ▸ hr.going i l hphase)
        fun _ _ hl => by cases hl
  | execute i l hphase =>
      exact hr.put (i := i) rfl (fun _ hl => Phase.going.inj hl ▸ hr.going i l hphase)
        fun _ _ hl => by cases hl
  | insert i l _ _ hphase =>
      exact hr.put (i := i) rfl (fun _ hl => Phase.going.inj hl ▸ hr.going i l hphase)
        fun _ _ hl => by cases hl
  | commit i l _ _ hphase =>
      exact hr.put (i := i) rfl (fun _ hl => Phase.going.inj hl ▸ hr.going i l hphase)
        fun _ _ hl => by cases hl
  | stop i why =>
      exact hr.put (i := i) (p := .threw why) rfl (fun _ hl => by cases hl)
        fun _ _ hl => by cases hl

-- ================================================================== the runs

theorem reached (hshared : Shared plan before hist k₀)
    (hs : Reachable (step plan) anyStep (init before) s) :
    (∃ k, Reached hist k₀ s k) ∧ Readings plan hist s := by
  refine hs.invariant_on (J := Sound plan before)
    (I := fun t => (∃ k, Reached hist k₀ t k) ∧ Readings plan hist t) (fun _ ht => sound ht) ?_ ?_
  · rintro s₀ rfl
    refine ⟨⟨k₀, Nat.le_refl k₀, hshared.bound, hshared.upto, ?_⟩, ?_⟩
    rotate_left
    · constructor
      · intro i l hl
        cases hl
      · intro i applied skipped hl
        cases hl
    rw [List.drop_eq_nil_of_le (by rw [List.length_take]; omega)]
    rfl
  · intro t a t' ht ⟨⟨k, hk⟩, hr⟩ _ ha
    have hmove := step_moves plan ha
    obtain ⟨k', -, hk'⟩ := hk.moves hshared ht hmove
    exact ⟨⟨k', hk'⟩, hr.moves hshared ht hk hmove⟩

/-- What has a row of a file of the history has the checksum of that
file, or none yet. -/
theorem Shared.checksums (hshared : Shared plan before hist k₀)
    (h : Sound plan before s) (hm : m ∈ hist) {c : String}
    (hc : s.ledger m.name = some (some c)) : c = checksum m.sql := by
  have hsame : ∀ m' ∈ hist, m'.name = m.name → m' = m := fun m' hm' hname =>
    List.inj_on_of_nodup_map hshared.names hm' hm hname
  rcases h.rows m.name with hbefore | ⟨m', hm', hname⟩ | ⟨-, j, m', hm', hname, hsum⟩
  · exact hshared.unchanged m hm c (hbefore ▸ hc)
  · obtain ⟨⟨j, hj⟩, -, hsum⟩ := h.recorded m' hm'
    rw [hname, hc] at hsum
    rw [hsame m' ((hshared.prefixes j).subset hj) hname] at hsum
    exact Option.some.inj (Option.some.inj hsum)
  · rw [hc] at hsum
    rw [hsame m' ((hshared.prefixes j).subset hm') hname] at hsum
    exact Option.some.inj (Option.some.inj hsum)

/-- Builds that share a history, in any interleaving: the texts that ran
are the next ones of the history, in its order and with none left out;
the readiness check of any build names the rest of what it ships; and a
run that returned has every one of its files in the database, recorded
under its own checksum, and says where its share of them began. -/
theorem ran_in_order (hshared : Shared plan before hist k₀)
    (hs : Reachable (step plan) anyStep (init before) s) :
    ∃ k, k₀ ≤ k ∧ k ≤ hist.length ∧ s.ran = (hist.take k).drop k₀ ∧
      (∀ shipped, shipped <+: hist → pendingMigrations (shipped.map (·.name)) s.ledger =
        (shipped.drop k).map (·.name)) ∧
      ∀ i applied skipped, s.phase i = .returned applied skipped →
        (plan i).migrations.length ≤ k ∧
        (∀ m ∈ (plan i).migrations, s.ledger m.name = some (some (checksum m.sql))) ∧
        ∃ r, applied = ((plan i).migrations.drop r).map (·.name) ∧
          skipped = ((plan i).migrations.take r).map (·.name) := by
  obtain ⟨⟨k, hk⟩, hr⟩ := reached hshared hs
  have h := sound hs
  refine ⟨k, hk.low, hk.high, hk.ran, ?_, ?_⟩
  · intro shipped hshipped
    rw [← (hk.upto.filter hshipped).1]
    exact List.filter_map
  · intro i applied skipped hphase
    obtain ⟨l, hl, hrest, -⟩ := h.ended i applied skipped hphase
    have hfiles : (plan i).migrations = l.past := by
      rw [hl.migrations, hrest, List.append_nil]
    have hrow : ∀ m ∈ (plan i).migrations, s.ledger m.name = some (some (checksum m.sql)) := by
      intro m hm
      obtain ⟨c, hc, -⟩ := hl.settled m (hfiles ▸ hm)
      rw [hc, hshared.checksums h ((hshared.prefixes i).subset hm) hc]
    refine ⟨?_, hrow, hr.returned i applied skipped hphase⟩
    by_contra hlt
    have hj := List.getElem?_eq_getElem (l := (plan i).migrations) (i := k) (by omega)
    have := (hk.upto k _ (prefix_get (hshared.prefixes i) hj)).mp (by
      rw [hrow _ (List.getElem_mem _)]
      exact Option.some_ne_none _)
    omega

/-- An empty database, and runs of one build. -/
theorem shared_twoFiles : Shared twoFiles (fun _ => none) (twoFiles 0).migrations 0 where
  names := by decide
  prefixes _ := List.prefix_rfl
  upto _ _ _ := by simp
  bound := Nat.zero_le _
  unchanged _ _ _ hc := by cases hc

theorem ran_in_order_race : ∃ s, Reachable (step twoFiles) anyStep (init fun _ => none) s ∧
    pendingMigrations ((twoFiles 0).migrations.map (·.name)) s.ledger = [] := by
  obtain ⟨s, hs, -, hresult, -⟩ := race_reached
  obtain ⟨k, -, -, -, hpending, hreturned⟩ := ran_in_order shared_twoFiles hs
  obtain ⟨hlength, -⟩ := hreturned 0 _ _ (Phase.result_eq.mp hresult)
  refine ⟨s, hs, ?_⟩
  rw [hpending _ List.prefix_rfl, List.drop_eq_nil_of_le hlength]
  rfl

-- =================================================================== a retry

/-- Nobody moves but the run, and nothing of it fails. -/
def Undisturbed (i : RunId) (_ : World) : Action → Prop
  | .fail _ _ | .die _ => False
  | a => a.run = i

variable (plan)

theorem step_begin (hphase : s.phase i = .going l) (hturn : l.turn = .between)
    {rest : List Migration} (hrest : l.rest = m :: rest) (hnone : l.ledger m.name = none) :
    step plan s (.look i) = some (s.put i (.going { l with turn := .begun })) := by
  simp only [step, look, hphase, hturn, hrest, hnone]

theorem step_execute (hphase : s.phase i = .going l) (hturn : l.turn = .begun) :
    step plan s (.execute i) = some (s.put i (.going { l with turn := .executed })) := by
  simp only [step, execute, hphase, hturn, if_true]

theorem step_insert (hphase : s.phase i = .going l) (hturn : l.turn = .executed)
    {rest : List Migration} (hrest : l.rest = m :: rest) (hledger : s.ledger m.name = none)
    (hfree : s.inserted m.name = none) :
    step plan s (.insert i) =
      some { s.put i (.going { l with turn := .recorded }) with
        inserted := Function.update s.inserted m.name (some i) } := by
  simp only [step, insert, hphase, hturn, hrest, hledger, hfree, and_self, if_true]

theorem step_commit (hphase : s.phase i = .going l) (hturn : l.turn = .recorded)
    {rest : List Migration} (hrest : l.rest = m :: rest) :
    step plan s (.commit i) =
      some { (s.rollback i).put i (.going (l.apply m rest)) with
        ledger := Function.update s.ledger m.name (some (some (checksum m.sql)))
        ran := s.ran ++ [m] } := by
  simp only [step, commit, hphase, hturn, hrest]

/-- The loop's way through a migration that no ledger has. -/
theorem applies (hphase : s.phase i = .going l) (hturn : l.turn = .between) {rest : List Migration}
    (hrest : l.rest = m :: rest) (hnone : l.ledger m.name = none)
    (hledger : s.ledger m.name = none) (hfree : s.inserted m.name = none) :
    ∃ s', Steps (step plan) (Undisturbed i) s s' ∧
      s'.phase i = .going (l.apply m rest) ∧
      (∀ n, n ≠ m.name → s'.ledger n = s.ledger n) ∧
      ∀ n, n ≠ m.name → s.inserted n = none → s'.inserted n = none := by
  have hself : ∀ (t : World) (p : Phase), (t.put i p).phase i = p := fun t p =>
    Function.update_self ..
  let s₁ := s.put i (.going { l with turn := .begun })
  let s₂ := s₁.put i (.going { l with turn := .executed })
  let s₃ := { s₂.put i (.going { l with turn := .recorded }) with
    inserted := Function.update s₂.inserted m.name (some i) }
  have h₁ : Next (step plan) (Undisturbed i) s s₁ :=
    ⟨.look i, rfl, step_begin plan hphase hturn hrest hnone⟩
  have h₂ : Next (step plan) (Undisturbed i) s₁ s₂ :=
    ⟨.execute i, rfl, step_execute plan (l := { l with turn := .begun }) (hself s _) rfl⟩
  have h₃ : Next (step plan) (Undisturbed i) s₂ s₃ :=
    ⟨.insert i, rfl, step_insert plan (l := { l with turn := .executed }) (hself s₁ _) rfl
      hrest hledger hfree⟩
  have hphase₃ : s₃.phase i = .going { l with turn := .recorded } := hself s₂ _
  have h₄ : Next (step plan) (Undisturbed i) s₃ _ :=
    ⟨.commit i, rfl, step_commit plan hphase₃ rfl hrest⟩
  refine ⟨_, .tail (.tail (.tail (.single h₁) h₂) h₃) h₄, hself _ _, ?_, ?_⟩
  · intro n hn
    exact Function.update_of_ne hn _ _
  · intro n hn hnone'
    show (if Function.update s.inserted m.name (some i) n = some i then none
      else Function.update s.inserted m.name (some i) n) = none
    rw [Function.update_of_ne hn, hnone']
    rfl

/-- A migration the run can deal with: nobody has it, or it was read with
its own checksum or with none. -/
def Open (s : World) (l : Loop) (m : Migration) : Prop :=
  (l.ledger m.name = none ∧ s.ledger m.name = none ∧ s.inserted m.name = none) ∨
    l.ledger m.name = some none ∨ l.ledger m.name = some (some (checksum m.sql))

/-- One turn of the loop. -/
theorem turns (hphase : s.phase i = .going l) (hturn : l.turn = .between) {rest : List Migration}
    (hrest : l.rest = m :: rest) (hopen : Open s l m) :
    ∃ s' l', Steps (step plan) (Undisturbed i) s s' ∧ s'.phase i = .going l' ∧
      l'.turn = .between ∧ l'.rest = rest ∧ l'.ledger = l.ledger ∧
      (∀ n, n ≠ m.name → s'.ledger n = s.ledger n) ∧
      ∀ n, n ≠ m.name → s.inserted n = none → s'.inserted n = none := by
  rcases hopen with ⟨hnone, hledger, hfree⟩ | hnull | hsame
  · obtain ⟨s', hsteps, hphase', hother, hinserted⟩ :=
      applies plan hphase hturn hrest hnone hledger hfree
    exact ⟨s', _, hsteps, hphase', rfl, rfl, rfl, hother, hinserted⟩
  · have hnext : Next (step plan) (Undisturbed i) s _ :=
      ⟨.look i, rfl, by simp only [step, look, hphase, hturn, hrest, hnull]; rfl⟩
    refine ⟨_, l.skip m rest, .single hnext, Function.update_self .., hturn, rfl, rfl, ?_, ?_⟩
    · intro n hn
      exact Function.update_of_ne hn _ _
    · intro n _ hfree
      exact hfree
  · have hnext : Next (step plan) (Undisturbed i) s (s.put i (.going (l.skip m rest))) :=
      ⟨.look i, rfl, by simp only [step, look, hphase, hturn, hrest, hsame]; simp⟩
    refine ⟨_, l.skip m rest, .single hnext, Function.update_self .., hturn, rfl, rfl, ?_, ?_⟩
    · intro n _
      rfl
    · intro n _ hfree
      exact hfree

/-- To the end of the list. -/
theorem loop_returns : ∀ (rest : List Migration) {s : World} {l : Loop},
    s.phase i = .going l → l.turn = .between → l.rest = rest → (rest.map (·.name)).Nodup →
    (∀ m ∈ rest, Open s l m) →
    ∃ s' applied skipped, Steps (step plan) (Undisturbed i) s s' ∧
      s'.phase i = .returned applied skipped := by
  intro rest
  induction rest with
  | nil =>
      intro s l hphase hturn hrest _ _
      have hnext : Next (step plan) (Undisturbed i) s
          (s.put i (.returned l.applied l.skipped)) :=
        ⟨.look i, rfl, by simp only [step, look, hphase, hturn, hrest]⟩
      exact ⟨_, _, _, .single hnext, Function.update_self ..⟩
  | cons m rest ih =>
      intro s l hphase hturn hrest hnames hopen
      obtain ⟨s₁, l₁, hsteps, hphase₁, hturn₁, hrest₁, hledger₁, hother, hinserted⟩ :=
        turns plan hphase hturn hrest (hopen m List.mem_cons_self)
      obtain ⟨hm, hnames⟩ := List.nodup_cons.mp hnames
      have hopen₁ : ∀ m' ∈ rest, Open s₁ l₁ m' := by
        intro m' hm'
        have hne : m'.name ≠ m.name := fun heq => hm (List.mem_map.mpr ⟨m', hm', heq⟩)
        rcases hopen m' (List.mem_cons_of_mem m hm') with ⟨hnone, hledger, hfree⟩ | hread
        · refine .inl ⟨?_, ?_, hinserted _ hne hfree⟩
          · rw [hledger₁]
            exact hnone
          · rw [hother _ hne]
            exact hledger
        · refine .inr ?_
          rw [hledger₁]
          exact hread
      obtain ⟨s', applied, skipped, hsteps', hphase'⟩ := ih hphase₁ hturn₁ hrest₁ hnames hopen₁
      exact ⟨s', applied, skipped, hsteps.trans hsteps', hphase'⟩

/-- A retry, where no open transaction has a row of its files: left
undisturbed, a run of any
build reaches its end from wherever the runs before it were given up,
and then every file of its build is in the database. -/
theorem retry_completes (hshared : Shared plan before hist k₀)
    (hs : Reachable (step plan) anyStep (init before) s)
    (hquiet : ∀ m ∈ (plan i).migrations, s.inserted m.name = none)
    (hphase : s.phase i = .starting)
    (hrole : (plan i).requirePrivileges = true → privileged (plan i).role = true) :
    ∃ s' applied skipped, Steps (step plan) (Undisturbed i) s s' ∧
      s'.phase i = .returned applied skipped ∧
      (∀ m ∈ (plan i).migrations, s'.ledger m.name = some (some (checksum m.sql))) ∧
      pendingMigrations ((plan i).migrations.map (·.name)) s'.ledger = [] := by
  have h := sound hs
  have hread : Next (step plan) (Undisturbed i) s
      (s.put i (.going ⟨s.ledger, [], (plan i).migrations, .between, [], []⟩)) := by
    refine ⟨.read i, rfl, ?_⟩
    simp only [step, read, hphase]
    rw [if_neg]
    simp only [Bool.and_eq_true, Bool.not_eq_true', not_and, Bool.not_eq_false]
    exact fun hasked => hrole hasked.1
  have hnames : ((plan i).migrations.map (·.name)).Nodup :=
    hshared.names.sublist ((hshared.prefixes i).sublist.map _)
  have hopen : ∀ m ∈ (plan i).migrations, Open
      (s.put i (.going ⟨s.ledger, [], (plan i).migrations, .between, [], []⟩))
      ⟨s.ledger, [], (plan i).migrations, .between, [], []⟩ m := by
    intro m hm
    have hm' := (hshared.prefixes i).subset hm
    rcases hrow : s.ledger m.name with _ | _ | c
    · exact .inl ⟨hrow, hrow, hquiet m hm⟩
    · exact .inr (.inl hrow)
    · rw [hshared.checksums h hm' hrow] at hrow
      exact .inr (.inr hrow)
  obtain ⟨s', applied, skipped, hsteps, hphase'⟩ :=
    loop_returns plan (plan i).migrations (Function.update_self ..) rfl rfl hnames hopen
  have hwhole : Steps (step plan) (Undisturbed i) s s' := .head hread hsteps
  have hs' : Reachable (step plan) anyStep (init before) s' := by
    obtain ⟨s₀, h₀, hrun⟩ := hs
    refine ⟨s₀, h₀, hrun.trans (Relation.ReflTransGen.mono (fun t t' hnext => ?_) _ _ hwhole)⟩
    obtain ⟨a, -, ha⟩ := hnext
    exact ⟨a, trivial, ha⟩
  obtain ⟨k, -, -, -, hpending, hreturned⟩ := ran_in_order hshared hs'
  obtain ⟨hlength, hrows, -⟩ := hreturned i applied skipped hphase'
  refine ⟨s', applied, skipped, hwhole, hphase', hrows, ?_⟩
  rw [hpending _ (hshared.prefixes i), List.drop_eq_nil_of_le hlength]
  rfl

/-- A run that is lost in its second transaction. -/
def abandoned : List Action :=
  [.read 0, .look 0, .execute 0, .insert 0, .commit 0, .look 0, .execute 0, .insert 0, .die 0]

theorem run_abandoned :
    (runWithin (step twoFiles) anyStep (World.new fun _ => none) abandoned).isSome = true := by
  decide +kernel

theorem abandoned_reached : Reachable (step twoFiles) anyStep (init fun _ => none)
    ((runWithin (step twoFiles) anyStep (World.new fun _ => none) abandoned).get run_abandoned) :=
  reachable_get (show init (fun _ => none) (World.new fun _ => none) from rfl) run_abandoned

theorem retry_completes_abandoned :
    ((runWithin (step twoFiles) anyStep (World.new fun _ => none) abandoned).get
      run_abandoned).ran.length = 1 ∧
    ∃ s' : World, (∃ applied skipped, s'.phase 1 = .returned applied skipped) ∧
      pendingMigrations ((twoFiles 1).migrations.map (·.name)) s'.ledger = [] := by
  obtain ⟨s', applied, skipped, -, hphase, -, hpending⟩ := retry_completes twoFiles (i := 1)
    shared_twoFiles abandoned_reached (by decide +kernel) rfl (fun h => by cases h)
  exact ⟨by decide +kernel, s', ⟨applied, skipped, hphase⟩, hpending⟩

end Nacre.Schema
