/-
Whatever runs of the migration runner interleave, and wherever each of
them is given up: a text runs once, under one name, and the ledger keeps
the checksum of the text that ran.

# The argument

A row is inserted where no row is and no open transaction has one, and is
held until its transaction ends; so where a run commits, the name is in
nobody's ledger (`Sound.free`), and no reading has it either, as a
reading holds less than the ledger does (`Looping.seen`). What a reading
has without a checksum was there without one before the runs
(`Looping.nulls`): a row that a run inserted is never filled in again.
-/
import Nacre.Schema.Migrate
import Mathlib.Data.List.Nodup

namespace Nacre.Schema

open Transition

variable {plan : RunId → Plan} {before : Ledger}
variable {s s' : World} {i j : RunId} {l : Loop} {m : Migration}

-- ================================================================ vocabulary

/-- What a step leaves of the ledger. -/
structure Later (before : Ledger) (s s' : World) : Prop where
  some_of : ∀ n, s.ledger n ≠ none → s'.ledger n ≠ none
  sum_of : ∀ n c, s.ledger n = some (some c) →
    ∃ c', s'.ledger n = some (some c') ∧ (c' = c ∨ before n = some none)
  ran : ∀ m ∈ s.ran, m ∈ s'.ran

/-- The migration has a row with a checksum: of its own text, unless the
row is of an older runner. -/
def Settled (before : Ledger) (s : World) (m : Migration) : Prop :=
  ∃ c, s.ledger m.name = some (some c) ∧ (c = checksum m.sql ∨ before m.name = some none)

/-- What is known of a run that is in its loop. -/
structure Looping (plan : RunId → Plan) (before : Ledger) (s : World)
    (i : RunId) (l : Loop) : Prop where
  migrations : (plan i).migrations = l.past ++ l.rest
  seen : ∀ n, l.ledger n ≠ none → s.ledger n ≠ none
  nulls : ∀ n, l.ledger n = some none → before n = some none
  sums : ∀ n c, l.ledger n = some (some c) →
    ∃ c', s.ledger n = some (some c') ∧ (c' = c ∨ before n = some none)
  /-- The reading has every checksum there was before the runs. -/
  kept : ∀ n c, before n = some (some c) → l.ledger n = some (some c)
  agrees : ∀ m ∈ l.past, ∀ c, l.ledger m.name = some (some c) → c = checksum m.sql
  settled : ∀ m ∈ l.past, Settled before s m
  ran : ∀ m ∈ l.past, l.ledger m.name = none → m ∈ s.ran
  applied : l.applied = (l.past.filter fun m => (l.ledger m.name).isNone).map (·.name)
  skipped : l.skipped = (l.past.filter fun m => (l.ledger m.name).isSome).map (·.name)
  opened : l.turn ≠ .between → ∀ m rest, l.rest = m :: rest → l.ledger m.name = none
  held : l.turn = .recorded → ∀ m rest, l.rest = m :: rest → s.inserted m.name = some i

/-- A run that has come to its end. -/
def Ended (plan : RunId → Plan) (before : Ledger) (s : World)
    (i : RunId) (applied skipped : List String) : Prop :=
  ∃ l, Looping plan before s i l ∧ l.rest = [] ∧ l.turn = .between ∧
    applied = l.applied ∧ skipped = l.skipped

structure Sound (plan : RunId → Plan) (before : Ledger)
    (s : World) : Prop where
  free : ∀ n, s.inserted n ≠ none → s.ledger n = none
  once : (s.ran.map (·.name)).Nodup
  recorded : ∀ m ∈ s.ran, (∃ i, m ∈ (plan i).migrations) ∧ before m.name = none ∧
    s.ledger m.name = some (some (checksum m.sql))
  rows : ∀ n, s.ledger n = before n ∨ (∃ m ∈ s.ran, m.name = n) ∨
    (before n = some none ∧ ∃ i, ∃ m ∈ (plan i).migrations, m.name = n ∧
      s.ledger n = some (some (checksum m.sql)))
  loops : ∀ i l, s.phase i = .going l → Looping plan before s i l
  ended : ∀ i applied skipped, s.phase i = .returned applied skipped →
    Ended plan before s i applied skipped

-- =================================================================== frames

theorem Later.same (hledger : s'.ledger = s.ledger) (hran : s'.ran = s.ran) :
    Later before s s' where
  some_of n hn := by rw [hledger]; exact hn
  sum_of n c hn := ⟨c, by rw [hledger]; exact hn, .inl rfl⟩
  ran m hm := by rw [hran]; exact hm

theorem later_put {p : Phase} : Later before s (s.put i p) := .same rfl rfl

theorem Settled.later (hlater : Later before s s') (h : Settled before s m) :
    Settled before s' m := by
  obtain ⟨c, hc, hown⟩ := h
  obtain ⟨c', hc', hsame⟩ := hlater.sum_of m.name c hc
  refine ⟨c', hc', ?_⟩
  rcases hsame with rfl | hnull
  · exact hown
  · exact .inr hnull

/-- The loop of a run that did not move. -/
theorem Looping.later (hlater : Later before s s')
    (hheld : ∀ n, s.inserted n = some i → s'.inserted n = some i)
    (h : Looping plan before s i l) : Looping plan before s' i l where
  migrations := h.migrations
  seen n hn := hlater.some_of n (h.seen n hn)
  nulls := h.nulls
  sums n c hn := by
    obtain ⟨c₁, hc₁, hsame₁⟩ := h.sums n c hn
    obtain ⟨c₂, hc₂, hsame₂⟩ := hlater.sum_of n c₁ hc₁
    refine ⟨c₂, hc₂, ?_⟩
    rcases hsame₂ with rfl | hnull
    · exact hsame₁
    · exact .inr hnull
  kept := h.kept
  agrees := h.agrees
  settled m hm := (h.settled m hm).later hlater
  ran m hm hnone := hlater.ran m (h.ran m hm hnone)
  applied := h.applied
  skipped := h.skipped
  opened := h.opened
  held hturn m rest hrest := hheld m.name (h.held hturn m rest hrest)

/-- A loop that has no row inserted needs none kept. -/
theorem Looping.later_idle (hlater : Later before s s') (hidle : l.turn ≠ .recorded)
    (h : Looping plan before s i l) : Looping plan before s' i l := by
  have hnew : Looping plan before { s with inserted := fun _ => some i } i l :=
    { h with held := fun hturn => absurd hturn hidle }
  have hlater' : Later before { s with inserted := fun _ => some i }
      { s' with inserted := fun _ => some i } :=
    ⟨hlater.some_of, hlater.sum_of, hlater.ran⟩
  have h' := hnew.later hlater' fun _ hn => hn
  exact { h' with held := fun hturn => absurd hturn hidle }

theorem Ended.later {applied skipped : List String} (hlater : Later before s s')
    (h : Ended plan before s i applied skipped) :
    Ended plan before s' i applied skipped := by
  obtain ⟨l, hl, hrest, hturn, happlied, hskipped⟩ := h
  refine ⟨l, hl.later_idle hlater ?_, hrest, hturn, happlied, hskipped⟩
  rw [hturn]
  exact Turn.noConfusion

/-- The runs after a step of one of them. -/
theorem Sound.runs_put {p : Phase} (h : Sound plan before s) (hlater : Later before s s')
    (hphase : s'.phase = Function.update s.phase i p)
    (hheld : ∀ j, j ≠ i → ∀ n, s.inserted n = some j → s'.inserted n = some j)
    (hgoing : ∀ l, p = .going l → Looping plan before s' i l)
    (hreturned : ∀ applied skipped, p = .returned applied skipped →
      Ended plan before s' i applied skipped) :
    (∀ j l, s'.phase j = .going l → Looping plan before s' j l) ∧
      ∀ j applied skipped, s'.phase j = .returned applied skipped →
        Ended plan before s' j applied skipped := by
  constructor
  · intro j l hj
    rw [hphase] at hj
    by_cases hij : j = i
    · subst hij
      rw [Function.update_self] at hj
      exact hgoing l hj
    · rw [Function.update_of_ne hij] at hj
      exact (h.loops j l hj).later hlater (hheld j hij)
  · intro j applied skipped hj
    rw [hphase] at hj
    by_cases hij : j = i
    · subst hij
      rw [Function.update_self] at hj
      exact hreturned applied skipped hj
    · rw [Function.update_of_ne hij] at hj
      exact (h.ended j applied skipped hj).later hlater

/-- A step that leaves the ledger. -/
theorem Sound.same {p : Phase} (h : Sound plan before s)
    (hledger : s'.ledger = s.ledger) (hran : s'.ran = s.ran)
    (hphase : s'.phase = Function.update s.phase i p)
    (hfree : ∀ n, s'.inserted n ≠ none → s.ledger n = none)
    (hheld : ∀ j, j ≠ i → ∀ n, s.inserted n = some j → s'.inserted n = some j)
    (hgoing : ∀ l, p = .going l → Looping plan before s' i l)
    (hreturned : ∀ applied skipped, p = .returned applied skipped →
      Ended plan before s' i applied skipped) : Sound plan before s' := by
  obtain ⟨hloops, hended⟩ :=
    h.runs_put (.same hledger hran) hphase hheld hgoing hreturned
  refine ⟨?_, ?_, ?_, ?_, hloops, hended⟩
  · rw [hledger]; exact hfree
  · rw [hran]; exact h.once
  · rw [hran, hledger]; exact h.recorded
  · rw [hran, hledger]; exact h.rows

/-- A row without a checksum was there without one. -/
theorem Sound.null_before (h : Sound plan before s) {n : String}
    (hnull : s.ledger n = some none) : before n = some none := by
  rcases h.rows n with hsame | ⟨m, hm, rfl⟩ | ⟨hbefore, -⟩
  · rw [← hsame]; exact hnull
  · rw [(h.recorded m hm).2.2] at hnull
    cases hnull
  · exact hbefore

/-- A checksum that was there stays. -/
theorem Sound.sum_kept (h : Sound plan before s) {n c : String}
    (hbefore : before n = some (some c)) : s.ledger n = some (some c) := by
  rcases h.rows n with hsame | ⟨m, hm, rfl⟩ | ⟨hnull, -⟩
  · rw [hsame]
    exact hbefore
  · rw [(h.recorded m hm).2.1] at hbefore
    cases hbefore
  · rw [hbefore] at hnull
    cases hnull

-- ================================================================== the steps

/-- Another name: the row is as it was. -/
theorem Sound.rows_of_ne (h : Sound plan before s) {n : String} {v : Option (Option String)}
    {ran : List Migration} (hran : ∀ m ∈ s.ran, m ∈ ran)
    (hrow : v = before m.name ∨ (∃ m' ∈ ran, m'.name = m.name) ∨
      (before m.name = some none ∧ ∃ i, ∃ m' ∈ (plan i).migrations, m'.name = m.name ∧
        v = some (some (checksum m'.sql)))) :
    Function.update s.ledger m.name v n = before n ∨ (∃ m' ∈ ran, m'.name = n) ∨
      (before n = some none ∧ ∃ i, ∃ m' ∈ (plan i).migrations, m'.name = n ∧
        Function.update s.ledger m.name v n = some (some (checksum m'.sql))) := by
  by_cases hn : n = m.name
  · subst hn
    rw [Function.update_self]
    exact hrow
  · rw [Function.update_of_ne hn]
    rcases h.rows n with hsame | ⟨m', hm', hname⟩ | hfilled
    · exact .inl hsame
    · exact .inr (.inl ⟨m', hran m' hm', hname⟩)
    · exact .inr (.inr hfilled)

/-- A migration that was in the reading: on to the next. -/
theorem Looping.skipped_on {rest : List Migration} (h : Looping plan before s i l)
    (hturn : l.turn = .between) (hrest : l.rest = m :: rest)
    (hread : l.ledger m.name = some none ∨ l.ledger m.name = some (some (checksum m.sql)))
    (hsettled : Settled before s m) : Looping plan before s i (l.skip m rest) := by
  have hsome : (l.ledger m.name).isSome = true := by
    rcases hread with hnull | hsame
    · rw [hnull]
      rfl
    · rw [hsame]
      rfl
  refine ⟨?_, h.seen, h.nulls, h.sums, h.kept, ?_, ?_, ?_, ?_, ?_, ?_, ?_⟩
  · show (plan i).migrations = (l.past ++ [m]) ++ rest
    rw [h.migrations, hrest, List.append_assoc, List.singleton_append]
  · intro m' hm' c hc
    rcases List.mem_append.mp hm' with hm' | hm'
    · exact h.agrees m' hm' c hc
    · rw [List.mem_singleton.mp hm'] at hc ⊢
      rcases hread with hnull | hsame
      · cases hnull.symm.trans hc
      · exact Option.some.inj (Option.some.inj (hc.symm.trans hsame))
  · intro m' hm'
    rcases List.mem_append.mp hm' with hm' | hm'
    · exact h.settled m' hm'
    · rw [List.mem_singleton.mp hm']
      exact hsettled
  · intro m' hm' hnone
    rcases List.mem_append.mp hm' with hm' | hm'
    · exact h.ran m' hm' hnone
    · rw [List.mem_singleton.mp hm'] at hnone
      exact absurd hnone (Option.isSome_iff_ne_none.mp hsome)
  · show l.applied = ((l.past ++ [m]).filter fun m => (l.ledger m.name).isNone).map (·.name)
    rw [List.filter_append, List.filter_singleton, Option.isNone_eq_false_iff.mpr hsome]
    simpa using h.applied
  · show l.skipped ++ [m.name] =
      ((l.past ++ [m]).filter fun m => (l.ledger m.name).isSome).map (·.name)
    rw [List.filter_append, List.filter_singleton, hsome, List.map_append, h.skipped]
    rfl
  · intro hopen
    exact absurd hturn hopen
  · intro hopen
    exact Turn.noConfusion (hturn.symm.trans hopen)

/-- A migration that is in the database now: on to the next. -/
theorem Looping.applied_on {rest : List Migration} (hloop : Looping plan before s i l)
    (hlater : Later before s s') (hturn : l.turn = .recorded) (hrest : l.rest = m :: rest)
    (hran : m ∈ s'.ran) (hsettled : Settled before s' m) :
    Looping plan before s' i (l.apply m rest) := by
  have hnone : l.ledger m.name = none := by
    refine hloop.opened ?_ m rest hrest
    rw [hturn]
    exact Turn.noConfusion
  have hclosed : Looping plan before s i { l with turn := .between } :=
    { hloop with
      opened := fun hopen => absurd rfl hopen
      held := fun hopen => by cases hopen }
  have h := hclosed.later_idle hlater Turn.noConfusion
  refine ⟨?_, h.seen, h.nulls, h.sums, h.kept, ?_, ?_, ?_, ?_, ?_, ?_, ?_⟩
  · show (plan i).migrations = (l.past ++ [m]) ++ rest
    rw [h.migrations, hrest, List.append_assoc, List.singleton_append]
  · intro m' hm' c hc
    rcases List.mem_append.mp hm' with hm' | hm'
    · exact h.agrees m' hm' c hc
    · rw [List.mem_singleton.mp hm'] at hc
      cases hnone.symm.trans hc
  · intro m' hm'
    rcases List.mem_append.mp hm' with hm' | hm'
    · exact h.settled m' hm'
    · rw [List.mem_singleton.mp hm']
      exact hsettled
  · intro m' hm' hnone'
    rcases List.mem_append.mp hm' with hm' | hm'
    · exact h.ran m' hm' hnone'
    · rw [List.mem_singleton.mp hm']
      exact hran
  · show l.applied ++ [m.name] =
      ((l.past ++ [m]).filter fun m => (l.ledger m.name).isNone).map (·.name)
    rw [List.filter_append, List.filter_singleton, hnone, List.map_append, h.applied]
    rfl
  · show l.skipped = ((l.past ++ [m]).filter fun m => (l.ledger m.name).isSome).map (·.name)
    rw [List.filter_append, List.filter_singleton, hnone]
    simpa using h.skipped
  · intro hopen
    exact absurd rfl hopen
  · intro hopen
    cases hopen

/-- The digest of an older row is written. -/
theorem Sound.later_fill (h : Sound plan before s) (hnull : before m.name = some none)
    (hphase : s'.ledger = Function.update s.ledger m.name
      ((s.ledger m.name).map fun _ => some (checksum m.sql))) (hran : s'.ran = s.ran) :
    Later before s s' := by
  constructor
  · intro n hn
    rw [hphase]
    by_cases hm : n = m.name
    · subst hm
      rw [Function.update_self]
      simpa using hn
    · rw [Function.update_of_ne hm]
      exact hn
  · intro n c hn
    rw [hphase]
    by_cases hm : n = m.name
    · subst hm
      rw [Function.update_self, hn]
      exact ⟨_, rfl, .inr hnull⟩
    · rw [Function.update_of_ne hm]
      exact ⟨c, hn, .inl rfl⟩
  · intro m' hm'
    rw [hran]
    exact hm'

/-- A row is added. -/
theorem later_commit {v : Option (Option String)} (hv : v ≠ none) (hnone : s.ledger m.name = none)
    (hledger : s'.ledger = Function.update s.ledger m.name v) (hran : s'.ran = s.ran ++ [m]) :
    Later before s s' := by
  have hne : ∀ n, s.ledger n ≠ none → n ≠ m.name := fun n hn heq => hn (heq ▸ hnone)
  constructor
  · intro n hn
    rw [hledger, Function.update_of_ne (hne n hn)]
    exact hn
  · intro n c hn
    rw [hledger, Function.update_of_ne (hne n (by rw [hn]; exact Option.some_ne_none _))]
    exact ⟨c, hn, .inl rfl⟩
  · intro m' hm'
    rw [hran]
    exact List.mem_append_left _ hm'

/-- Whatever is inserted after a rollback was inserted before. -/
theorem rollback_inserted {n : String} (h : (s.rollback i).inserted n = some j) :
    s.inserted n = some j := by
  simp only [World.rollback] at h
  split at h
  next => cases h
  next => exact h

theorem rollback_kept {n : String} (hij : j ≠ i) (h : s.inserted n = some j) :
    (s.rollback i).inserted n = some j := by
  simp only [World.rollback]
  rw [if_neg]
  · exact h
  · rw [h]
    exact fun heq => hij (Option.some.inj heq)

/-- What a step keeps. -/
theorem Sound.moves (h : Sound plan before s) (hmove : Moves plan s s') :
    Sound plan before s' := by
  cases hmove with
  | refuse i hphase hbehind =>
      exact h.same rfl rfl rfl h.free (fun _ _ _ hn => hn) (fun _ hl => by cases hl)
        fun _ _ hl => by cases hl
  | read i hphase =>
      refine h.same rfl rfl rfl h.free (fun _ _ _ hn => hn) ?_ fun _ _ hl => by cases hl
      intro l hl
      obtain rfl := Phase.going.inj hl
      refine ⟨rfl, fun _ hn => hn, fun n hn => h.null_before hn, fun n c hn => ⟨c, hn, .inl rfl⟩,
        fun n c hn => h.sum_kept hn, fun m hm => absurd hm List.not_mem_nil,
        fun m hm => absurd hm List.not_mem_nil, fun m hm => absurd hm List.not_mem_nil, rfl, rfl,
        fun hopen => absurd rfl hopen, fun hopen => by cases hopen⟩
  | finish i l hphase hturn hrest =>
      refine h.same rfl rfl rfl h.free (fun _ _ _ hn => hn) (fun _ hl => by cases hl) ?_
      intro applied skipped hl
      obtain ⟨rfl, rfl⟩ := Phase.returned.inj hl
      refine ⟨l, (h.loops i l hphase).later_idle later_put ?_, hrest, hturn, rfl, rfl⟩
      rw [hturn]
      exact Turn.noConfusion
  | begin i l m rest hphase hturn hrest hnone =>
      refine h.same rfl rfl rfl h.free (fun _ _ _ hn => hn) ?_ fun _ _ hl => by cases hl
      intro l' hl
      obtain rfl := Phase.going.inj hl
      have hloop := (h.loops i l hphase)
      refine { hloop with
        opened := fun _ m' rest' hrest' => ?_
        held := fun hopen => by cases hopen }
      obtain ⟨rfl, -⟩ := List.cons.inj (hrest.symm.trans hrest')
      exact hnone
  | fill i l m rest hphase hturn hrest hnull =>
      have hloop := h.loops i l hphase
      have hbefore : before m.name = some none := hloop.nulls _ hnull
      have hthere : s.ledger m.name ≠ none :=
        hloop.seen _ (by rw [hnull]; exact Option.some_ne_none _)
      obtain ⟨row, hrow⟩ := Option.ne_none_iff_exists'.mp hthere
      have hlater : Later before s { s.put i (.going (l.skip m rest)) with
          ledger := Function.update s.ledger m.name
            ((s.ledger m.name).map fun _ => some (checksum m.sql)) } :=
        h.later_fill hbefore rfl rfl
      have hfile : m ∈ (plan i).migrations := by
        rw [hloop.migrations, hrest]
        exact List.mem_append_right _ List.mem_cons_self
      have hnow : Settled before { s.put i (.going (l.skip m rest)) with
          ledger := Function.update s.ledger m.name
            ((s.ledger m.name).map fun _ => some (checksum m.sql)) } m := by
        refine ⟨checksum m.sql, ?_, .inl rfl⟩
        show Function.update s.ledger m.name _ m.name = _
        rw [Function.update_self, hrow]
        rfl
      have hgoing := (hloop.later_idle hlater (by rw [hturn]; exact Turn.noConfusion)).skipped_on
        hturn hrest (.inl hnull) hnow
      obtain ⟨hloops, hended⟩ := h.runs_put (i := i) (p := .going (l.skip m rest)) hlater rfl
        (fun _ _ _ hn => hn) (fun _ hl => Phase.going.inj hl ▸ hgoing) fun _ _ hl => by cases hl
      refine ⟨?_, h.once, ?_, ?_, hloops, hended⟩
      · intro n hn
        show Function.update s.ledger m.name _ n = none
        have hne : n ≠ m.name := fun heq => hthere (heq ▸ h.free n hn)
        rw [Function.update_of_ne hne]
        exact h.free n hn
      · intro m' hm'
        obtain ⟨hplan, hnone, hsum⟩ := h.recorded m' hm'
        refine ⟨hplan, hnone, ?_⟩
        show Function.update s.ledger m.name _ m'.name = _
        have hne : m'.name ≠ m.name := by
          intro heq
          rw [heq, hbefore] at hnone
          cases hnone
        rw [Function.update_of_ne hne]
        exact hsum
      · intro n
        refine h.rows_of_ne (fun _ hm' => hm') (.inr (.inr ⟨hbefore, i, m, hfile, rfl, ?_⟩))
        rw [hrow]
        rfl
  | modified i l m rest recorded hphase hturn hrest hrecorded hother =>
      exact h.same rfl rfl rfl h.free (fun _ _ _ hn => hn) (fun _ hl => by cases hl)
        fun _ _ hl => by cases hl
  | skip i l m rest hphase hturn hrest hsame =>
      refine h.same rfl rfl rfl h.free (fun _ _ _ hn => hn) ?_ fun _ _ hl => by cases hl
      intro l' hl
      obtain rfl := Phase.going.inj hl
      have hloop := (h.loops i l hphase).later_idle (later_put (i := i)
        (p := .going (l.skip m rest))) (by rw [hturn]; exact Turn.noConfusion)
      exact hloop.skipped_on hturn hrest (.inr hsame) (hloop.sums _ _ hsame)
  | execute i l hphase hturn =>
      refine h.same rfl rfl rfl h.free (fun _ _ _ hn => hn) ?_ fun _ _ hl => by cases hl
      intro l' hl
      obtain rfl := Phase.going.inj hl
      have hloop := h.loops i l hphase
      exact { hloop with
        opened := fun _ => hloop.opened (by rw [hturn]; exact Turn.noConfusion)
        held := fun hopen => by cases hopen }
  | insert i l m rest hphase hturn hrest hledger hfree =>
      refine h.same (i := i) (p := .going { l with turn := .recorded }) rfl rfl rfl ?_ ?_ ?_
        fun _ _ hl => by cases hl
      · intro n hn
        by_cases hm : n = m.name
        · rw [hm]
          exact hledger
        · refine h.free n fun hnone => hn ?_
          show Function.update s.inserted m.name _ n = none
          rw [Function.update_of_ne hm]
          exact hnone
      · intro j _ n hn
        show Function.update s.inserted m.name _ n = some j
        have hne : n ≠ m.name := by
          intro heq
          rw [heq, hfree] at hn
          cases hn
        rw [Function.update_of_ne hne]
        exact hn
      · intro l' hl
        obtain rfl := Phase.going.inj hl
        have hloop := h.loops i l hphase
        refine { hloop with
          opened := fun _ => hloop.opened (by rw [hturn]; exact Turn.noConfusion)
          held := fun _ m' rest' hrest' => ?_ }
        obtain ⟨rfl, -⟩ := List.cons.inj (hrest.symm.trans hrest')
        exact Function.update_self ..
  | commit i l m rest hphase hturn hrest =>
      have hloop := h.loops i l hphase
      have hheld : s.inserted m.name = some i := hloop.held hturn m rest hrest
      have hnone : s.ledger m.name = none :=
        h.free _ (by rw [hheld]; exact Option.some_ne_none _)
      have hlater : Later before s { (s.rollback i).put i (.going (l.apply m rest)) with
          ledger := Function.update s.ledger m.name (some (some (checksum m.sql)))
          ran := s.ran ++ [m] } :=
        later_commit (Option.some_ne_none _) hnone rfl rfl
      have hother : ∀ m' ∈ s.ran, m'.name ≠ m.name := by
        intro m' hm' heq
        have hsum := (h.recorded m' hm').2.2
        rw [heq, hnone] at hsum
        cases hsum
      have hfile : m ∈ (plan i).migrations := by
        rw [hloop.migrations, hrest]
        exact List.mem_append_right _ List.mem_cons_self
      have hnew : before m.name = none := by
        rcases h.rows m.name with hsame | ⟨m', hm', heq⟩ | ⟨-, _, _, -, -, hsum⟩
        · rw [← hsame]
          exact hnone
        · exact absurd heq (hother m' hm')
        · rw [hnone] at hsum
          cases hsum
      have hsum : Function.update s.ledger m.name (some (some (checksum m.sql))) m.name =
          some (some (checksum m.sql)) := Function.update_self ..
      have hgoing := hloop.applied_on hlater hturn hrest
        (List.mem_append_right _ (List.mem_singleton_self m)) ⟨_, hsum, .inl rfl⟩
      obtain ⟨hloops, hended⟩ := h.runs_put (i := i) (p := .going (l.apply m rest)) hlater rfl
        (fun j hij n hn => rollback_kept hij hn) (fun _ hl => Phase.going.inj hl ▸ hgoing)
        fun _ _ hl => by cases hl
      refine ⟨?_, ?_, ?_, ?_, hloops, hended⟩
      · intro n hn
        show Function.update s.ledger m.name _ n = none
        obtain ⟨j, hj⟩ := Option.ne_none_iff_exists'.mp hn
        have hold : s.inserted n = some j := rollback_inserted hj
        have hne : n ≠ m.name := by
          intro heq
          simp only [World.put, World.rollback] at hj
          rw [heq, hheld, if_pos rfl] at hj
          cases hj
        rw [Function.update_of_ne hne]
        exact h.free n (by rw [hold]; exact Option.some_ne_none _)
      · show ((s.ran ++ [m]).map (·.name)).Nodup
        rw [List.map_append, List.nodup_append]
        refine ⟨h.once, List.nodup_singleton _, ?_⟩
        intro n hn n' hn' heq
        obtain ⟨m', hm', rfl⟩ := List.mem_map.mp hn
        rw [List.map_singleton, List.mem_singleton] at hn'
        exact hother m' hm' (heq.trans hn')
      · intro m' hm'
        rcases List.mem_append.mp hm' with hm' | hm'
        · obtain ⟨hplan, hbefore, hold⟩ := h.recorded m' hm'
          refine ⟨hplan, hbefore, ?_⟩
          show Function.update s.ledger m.name _ m'.name = _
          rw [Function.update_of_ne (hother m' hm')]
          exact hold
        · rw [List.mem_singleton.mp hm']
          exact ⟨⟨i, hfile⟩, hnew, hsum⟩
      · intro n
        exact h.rows_of_ne (fun _ hm' => List.mem_append_left _ hm')
          (.inr (.inl ⟨m, List.mem_append_right _ (List.mem_singleton_self m), rfl⟩))
  | stop i why =>
      refine h.same (i := i) (p := .threw why) rfl rfl rfl ?_ ?_ (fun _ hl => by cases hl)
        fun _ _ hl => by cases hl
      · intro n hn
        obtain ⟨j, hj⟩ := Option.ne_none_iff_exists'.mp hn
        exact h.free n (by rw [rollback_inserted hj]; exact Option.some_ne_none _)
      · intro j hij n hn
        exact rollback_kept hij hn

theorem sound_init : Sound plan before (World.new before) where
  free _ hn := absurd rfl hn
  once := List.nodup_nil
  recorded _ hm := absurd hm List.not_mem_nil
  rows _ := .inl rfl
  loops _ _ hl := by cases hl
  ended _ _ _ hl := by cases hl

theorem sound (hs : Reachable (step plan) anyStep (init before) s) :
    Sound plan before s :=
  hs.invariant (fun _ h₀ => h₀ ▸ sound_init) fun _ _ _ ht _ ha => ht.moves (step_moves plan ha)

-- ================================================================= any runs

/-- Two files, of every run. -/
def twoFiles : RunId → Plan := fun _ =>
  { migrations := [⟨"0001_init.sql", "CREATE TABLE orgs ()"⟩, ⟨"0002_rls.sql", "SELECT 1"⟩]
    requirePrivileges := false }

/-- Two runs that read the ledger before either applied anything: the
second is refused the row. -/
def race : List Action :=
  [.read 0, .read 1, .look 0, .look 1, .execute 0, .execute 1, .insert 0, .commit 0,
    .fail 1 (some "23505"), .look 0, .execute 0, .insert 0, .commit 0, .look 0]

/-- What comes of it. -/
def Raced (s : World) : Prop :=
  s.ran = (twoFiles 0).migrations ∧
    (s.phase 0).result = some (["0001_init.sql", "0002_rls.sql"], []) ∧
    (s.phase 1).result = none

instance (s : World) : Decidable (Raced s) :=
  inferInstanceAs (Decidable (_ ∧ _ ∧ _))

theorem run_race : (runWithin (step twoFiles) anyStep (World.new fun _ => none) race).any
    (fun s => decide (Raced s)) = true := by
  decide +kernel

theorem race_reached : ∃ s, Reachable (step twoFiles) anyStep (init fun _ => none) s ∧ Raced s :=
  exists_reachable rfl run_race

/-- A file that was changed after it ran stops every run that ships it:
the run never returns, and while it lasts it is at most at that file,
with no transaction open for it. -/
theorem changed_stops (hs : Reachable (step plan) anyStep (init before) s)
    {pre post : List Migration} {c : String} (hplan : (plan i).migrations = pre ++ m :: post)
    (hbefore : before m.name = some (some c)) (hchanged : c ≠ checksum m.sql) :
    (∀ applied skipped, s.phase i ≠ .returned applied skipped) ∧
      ∀ l, s.phase i = .going l → l.past.length ≤ pre.length ∧
        (l.past.length = pre.length → l.turn = .between) := by
  have h := sound hs
  have hnever : ∀ l, Looping plan before s i l → m ∉ l.past := fun l hl hm =>
    hchanged (hl.agrees m hm c (hl.kept _ _ hbefore))
  constructor
  · intro applied skipped hphase
    obtain ⟨l, hl, hrest, -⟩ := h.ended i applied skipped hphase
    refine hnever l hl ?_
    have hall : l.past = pre ++ m :: post := by
      rw [← hplan, hl.migrations, hrest, List.append_nil]
    rw [hall]
    exact List.mem_append_right _ List.mem_cons_self
  · intro l hphase
    have hl := h.loops i l hphase
    have hsplit : l.past ++ l.rest = pre ++ m :: post := hl.migrations.symm.trans hplan
    have hle : l.past.length ≤ pre.length := by
      by_contra hlt
      have hget : l.past[pre.length]? = some m := by
        have hleft : (l.past ++ l.rest)[pre.length]? = l.past[pre.length]? :=
          List.getElem?_append_left (by omega)
        rw [← hleft, hsplit, List.getElem?_append_right (Nat.le_refl _), Nat.sub_self]
        rfl
      exact hnever l hl (List.mem_of_getElem? hget)
    refine ⟨hle, fun hlength => ?_⟩
    by_contra hopen
    have hrest : l.rest = m :: post := (List.append_inj hsplit hlength).2
    have hnone := hl.opened hopen m post hrest
    rw [hl.kept _ _ hbefore] at hnone
    cases hnone

/-- The first file was edited after it ran. -/
def editedLedger : Ledger := fun n => if n = "0001_init.sql" then some (some "edited") else none

theorem run_edited :
    (runWithin (step twoFiles) anyStep (World.new editedLedger) [.read 0, .look 0]).isSome = true := by
  decide +kernel

theorem changed_stops_edited : ∃ s, Reachable (step twoFiles) anyStep (init editedLedger) s ∧
    ∀ applied skipped, s.phase 0 ≠ .returned applied skipped := by
  have hs := reachable_get (show init editedLedger (World.new editedLedger) from rfl) run_edited
  have hplan : (twoFiles 0).migrations = [] ++ ⟨"0001_init.sql", "CREATE TABLE orgs ()"⟩ ::
      [⟨"0002_rls.sql", "SELECT 1"⟩] := rfl
  exact ⟨_, hs, (changed_stops hs hplan (c := "edited") (by decide) (by decide +kernel)).1⟩

end Nacre.Schema
