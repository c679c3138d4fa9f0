/-
What is allowed in a window fits its limit.

# The count

Every `INCR` answers one more than what is held under its key, and what
is given back was held. The answers are numbers drawn from a counter
(`Lib/Tickets`): no more than the limit of them can fit the limit, whatever
the order in which they are drawn, decided and given back. An estimate is
at least the count, because the window before counts for something and
never for less than nothing.

# Where it comes apart

`release` asks the clock which key to give back to, and the clock may be
in another window than the one the check was counted in: the key it finds
there loses a unit nobody took, or is made at -1 with no expiry
(`Prompt`). The other way is a command that comes so late that its key
has run out.
-/
import Mathlib.Algebra.Order.Field.Basic
import Mathlib.Tactic.Linarith
import Nacre.Lib.Table
import Nacre.Lib.Tickets
import Nacre.Limits.System

namespace Nacre.Limits

open Transition
open Tickets (Ranked)

variable {cfg : Config} {s s' : World} {a : Action} {g : Flight} {k : Key}

-- ============================================================ what it means

/-- The flight has still to set the key's expiry. -/
def Flight.toExpire (k : Key) (g : Flight) : Bool :=
  match g.stage with
  | .pexpire k' _ _ => k' = k
  | _ => false

structure Sound (cfg : Config) (s : World) : Prop where
  /-- What is allowed and not released, window by window. -/
  bounded : ∀ k, (s.allowed.countP (·.1 = k) : ℚ) ≤ (cfg.limitOf k.resource k.subject).1
  /-- A release gives back what its check took, where it took it. -/
  own : ∀ e ∈ s.released, e.2 = e.1.1
  /-- A key without an expiry is about to get one. -/
  expiring : ∀ k e, s.keys k = some e → e.expiresAt = none →
    ∃ g ∈ s.flights, g.toExpire k = true
  nonneg : ∀ k e, s.keys k = some e → 0 ≤ e.count

/-- The key of the command a process sends next, of those that count. -/
def Stage.key : Stage → Option Key
  | .incr k _ => some k
  | .pexpire k _ _ => some k
  | .get k _ _ => some k
  | .decr k _ => some k
  | .undo k => some k
  | _ => none

/-- A command on a window's key comes before the key runs out, and a
release reads the clock in the window its check was counted in. -/
def Prompt (cfg : Config) (s : World) : Action → Prop
  | .run g =>
      (∀ k ∈ g.stage.key, (s.now : Int) < k.windowStart + ttl cfg k.resource)
        ∧ (g.stage = .releasing → ∀ u ∈ g.passed.head?,
            keyAt cfg s.now ⟨u.1.resource, u.1.subject⟩ = u.1)
  | _ => True

instance (cfg : Config) (s : World) (a : Action) : Decidable (Prompt cfg s a) := by
  cases a with
  | run g => exact inferInstanceAs (Decidable (_ ∧ _))
  | _ => exact inferInstanceAs (Decidable True)

-- =============================================================== the tally

/-- What the flight has incremented and not been answered for. -/
def Flight.counted (g : Flight) : List (Key × Int) :=
  match g.stage with
  | .pexpire k _ count => [(k, count)]
  | .get k _ count => [(k, count)]
  | .decr k count => [(k, count)]
  | _ => []

/-- A check's window has begun, and is not over by more than it is long. -/
def Stage.Within (cfg : Config) (now : Nat) : Stage → Prop
  | .incr k elapsed => k.windowStart ≤ now ∧ elapsed ≤ cfg.windowMs k.resource
  | .pexpire k elapsed _ => k.windowStart ≤ now ∧ elapsed ≤ cfg.windowMs k.resource
  | .get k elapsed _ => k.windowStart ≤ now ∧ elapsed ≤ cfg.windowMs k.resource
  | _ => True

structure Tally (cfg : Config) (s : World) : Prop where
  held : (s.allowed ++ s.flights.flatMap Flight.counted).Perm s.held
  ranked : Ranked s.held
  counts : ∀ k, ((s.keys k).map (·.count)).getD 0 = (s.held.countP (·.1 = k) : Int)
  kept : ∀ k e, s.keys k = some e → ∀ t ∈ e.expiresAt, k.windowStart + ttl cfg k.resource ≤ t
  expiring : ∀ k e, s.keys k = some e → e.expiresAt = none →
    ∃ g ∈ s.flights, g.toExpire k = true
  passed : (s.flights.flatMap Flight.passed).Subperm s.allowed
  fits : ∀ t ∈ s.allowed, (t.2 : ℚ) ≤ (cfg.limitOf t.1.resource t.1.subject).1
  own : ∀ e ∈ s.released, e.2 = e.1.1
  within : ∀ g ∈ s.flights, g.stage.Within cfg s.now
  undoing : ∀ g ∈ s.flights, ∀ k, g.stage = .undo k → ∀ u ∈ g.passed.head?, k = u.1

theorem Tally.nonneg (h : Tally cfg s) {e : Entry} (he : s.keys k = some e) : 0 ≤ e.count := by
  have hcount := h.counts k
  rw [he] at hcount
  change e.count = _ at hcount
  omega

/-- A key whose time has not come is what it was. -/
theorem Tally.get_eq (h : Tally cfg s)
    (hprompt : (s.now : Int) < k.windowStart + ttl cfg k.resource) : s.get k = s.keys k := by
  unfold World.get
  cases he : s.keys k with
  | none => rfl
  | some e =>
      refine Option.filter_eq_some_iff.2 ⟨rfl, ?_⟩
      cases ht : e.expiresAt with
      | none => rfl
      | some t =>
          have hkept := h.kept k e he t ht
          have hlive : s.now < t := by omega
          exact decide_eq_true hlive

theorem Tally.countOf_eq (h : Tally cfg s)
    (hprompt : (s.now : Int) < k.windowStart + ttl cfg k.resource) :
    s.countOf k = (s.held.countP (·.1 = k) : Int) := by
  unfold World.countOf
  rw [h.get_eq hprompt]
  exact h.counts k

/-- A window never counts for less than nothing. -/
theorem Tally.countOf_nonneg (h : Tally cfg s) (k : Key) : 0 ≤ s.countOf k := by
  unfold World.countOf
  cases he : s.get k with
  | none => exact Int.le_refl 0
  | some e => exact h.nonneg (Option.filter_eq_some_iff.1 he).1

/-- What fits by the estimate fits by its own count. -/
theorem count_le_estimate {resource : Resource} {previous count : Int} {elapsed : Nat}
    (hprevious : 0 ≤ previous) (helapsed : elapsed ≤ cfg.windowMs resource) :
    (count : ℚ) ≤ estimate cfg resource previous elapsed count := by
  have hwindow : (0 : ℚ) < cfg.windowMs resource := by
    have hpositive : 0 < cfg.windowMs resource :=
      Nat.mul_pos (cfg.policies resource).positive (by decide)
    exact_mod_cast hpositive
  have hweight : (0 : ℚ) ≤ 1 - elapsed / cfg.windowMs resource := by
    have hle : (elapsed : ℚ) ≤ cfg.windowMs resource := by exact_mod_cast helapsed
    have hdiv : (elapsed : ℚ) / cfg.windowMs resource ≤ 1 := (div_le_one hwindow).2 hle
    linarith
  have hterm : (0 : ℚ) ≤ previous * (1 - elapsed / cfg.windowMs resource) :=
    mul_nonneg (by exact_mod_cast hprevious) hweight
  unfold estimate
  linarith

-- ============================================================== one flight

/-- A process and the others. -/
theorem perm_flatMap {β : Type} (f : Flight → List β) (hg : g ∈ s.flights) :
    (s.flights.flatMap f).Perm (f g ++ (s.flights.erase g).flatMap f) := by
  have hperm := (List.perm_cons_erase hg).flatMap_right f
  rwa [List.flatMap_cons] at hperm

/-- A step that counts nothing and keeps what has passed. -/
theorem Tally.moved (h : Tally cfg s) (hg : g ∈ s.flights) {stage : Stage}
    (hcounted : Flight.counted { g with stage := stage } = g.counted)
    (hexpire : ∀ k, g.toExpire k = false) (hwithin : stage.Within cfg s.now)
    (hundo : ∀ k, stage = .undo k → ∀ u ∈ g.passed.head?, k = u.1) :
    Tally cfg (s.replace g [{ g with stage := stage }]) := by
  have hmem : ∀ g' ∈ Flight.mk stage g.todo g.passed :: s.flights.erase g,
      g' = ⟨stage, g.todo, g.passed⟩ ∨ g' ∈ s.flights := by
    intro g' hg'
    rcases List.mem_cons.1 hg' with heq | hin
    · exact .inl heq
    · exact .inr (List.mem_of_mem_erase hin)
  refine ⟨?_, h.ranked, h.counts, h.kept, fun k e he hnone => ?_, ?_, h.fits, h.own,
    fun g' hg' => ?_, fun g' hg' k hstage u hu => ?_⟩
  · refine List.Perm.trans (List.Perm.append_left _ ?_) h.held
    show (Flight.counted ⟨stage, g.todo, g.passed⟩
      ++ (s.flights.erase g).flatMap Flight.counted).Perm _
    rw [hcounted]
    exact (perm_flatMap Flight.counted hg).symm
  · obtain ⟨g', hg', hto⟩ := h.expiring k e he hnone
    have hne : g' ≠ g := by
      intro heq
      rw [heq, hexpire k] at hto
      cases hto
    exact ⟨g', List.mem_cons_of_mem _ ((List.mem_erase_of_ne hne).2 hg'), hto⟩
  · exact (perm_flatMap Flight.passed hg).symm.subperm.trans h.passed
  · rcases hmem g' hg' with rfl | hin
    · exact hwithin
    · exact h.within g' hin
  · rcases hmem g' hg' with rfl | hin
    · exact hundo k hstage u hu
    · exact h.undoing g' hin k hstage u hu

/-- A process that has nothing counted ends. -/
theorem Tally.ended (h : Tally cfg s) (hg : g ∈ s.flights) (hcounted : g.counted = [])
    (hexpire : ∀ k, g.toExpire k = false) : Tally cfg (s.replace g []) := by
  have hsub : ∀ {g' : Flight}, g' ∈ s.flights.erase g → g' ∈ s.flights :=
    List.mem_of_mem_erase
  refine ⟨?_, h.ranked, h.counts, h.kept, fun k e he hnone => ?_, ?_, h.fits, h.own,
    fun g' hg' => h.within g' (hsub hg'), fun g' hg' => h.undoing g' (hsub hg')⟩
  · refine List.Perm.trans (List.Perm.append_left _ ?_) h.held
    have hperm := perm_flatMap Flight.counted hg
    rw [hcounted, List.nil_append] at hperm
    exact hperm.symm
  · obtain ⟨g', hg', hto⟩ := h.expiring k e he hnone
    have hne : g' ≠ g := by
      intro heq
      rw [heq, hexpire k] at hto
      cases hto
    exact ⟨g', (List.mem_erase_of_ne hne).2 hg', hto⟩
  · refine List.Subperm.trans ?_ h.passed
    refine List.Subperm.trans ?_ (perm_flatMap Flight.passed hg).symm.subperm
    exact (List.sublist_append_right _ _).subperm

-- ============================================================== the counts

/-- `INCR` and `DECR` of a key that is not late. -/
theorem Tally.counts_add (h : Tally cfg s) {n : Int} {held' : List (Key × Int)}
    (hprompt : (s.now : Int) < k.windowStart + ttl cfg k.resource)
    (hself : (held'.countP (·.1 = k) : Int) = s.held.countP (·.1 = k) + n)
    (hother : ∀ k', k' ≠ k → held'.countP (·.1 = k') = s.held.countP (·.1 = k')) (k' : Key) :
    (((s.add k n).keys k').map (·.count)).getD 0 = (held'.countP (·.1 = k') : Int) := by
  unfold World.add
  by_cases hk : k' = k
  · subst hk
    show ((Function.update s.keys k' _ k').map (·.count)).getD 0 = _
    rw [Function.update_self, hself, ← h.countOf_eq hprompt]
    rfl
  · show ((Function.update s.keys k _ k').map (·.count)).getD 0 = _
    rw [Function.update_of_ne hk, hother k' hk]
    exact h.counts k'

/-- A number is given back. -/
theorem countP_erase_self {u : Key × Int} {l : List (Key × Int)} (hu : u ∈ l) :
    ((l.erase u).countP (·.1 = u.1) : Int) = l.countP (·.1 = u.1) + -1 := by
  rw [(List.perm_cons_erase hu).countP_eq (·.1 = u.1), List.countP_cons_of_pos (by simp)]
  push_cast
  omega

theorem countP_erase_ne {u : Key × Int} {l : List (Key × Int)} (hu : u ∈ l) {k' : Key}
    (hk : k' ≠ u.1) : (l.erase u).countP (·.1 = k') = l.countP (·.1 = k') := by
  rw [(List.perm_cons_erase hu).countP_eq (·.1 = k'),
    List.countP_cons_of_neg (by simpa using hk.symm)]

/-- `INCR` and `DECR` keep what a key's expiry is, if it has one. -/
theorem Tally.entries_add (h : Tally cfg s) {n : Int} {k' : Key} {e : Entry}
    (hprompt : (s.now : Int) < k.windowStart + ttl cfg k.resource)
    (he : (s.add k n).keys k' = some e) :
    (∃ e₀, s.keys k' = some e₀ ∧ e₀.expiresAt = e.expiresAt)
      ∨ (k' = k ∧ s.keys k = none ∧ e.expiresAt = none) := by
  rcases Table.update_cases he with ⟨rfl, rfl⟩ | ⟨-, hold⟩
  · rw [h.get_eq hprompt]
    cases hkey : s.keys k' with
    | none => exact .inr ⟨rfl, rfl, rfl⟩
    | some e₀ => exact .inl ⟨e₀, rfl, rfl⟩
  · exact .inl ⟨e, hold, rfl⟩

/-- A key that something is held under is there. -/
theorem Tally.there (h : Tally cfg s) {u : Key × Int} (hu : u ∈ s.held) :
    s.keys u.1 ≠ none := by
  intro hnone
  have hcount := h.counts u.1
  have hpos : 0 < s.held.countP (·.1 = u.1) := List.countP_pos_iff.2 ⟨u, hu, by simp⟩
  rw [hnone] at hcount
  change (0 : Int) = _ at hcount
  omega

-- ============================================================== the steps

/-- A flight in another's place, or one that was there. -/
theorem mem_replace {g' g'' : Flight} (h : g'' ∈ g' :: s.flights.erase g) :
    g'' = g' ∨ g'' ∈ s.flights := by
  rcases List.mem_cons.1 h with heq | hin
  · exact .inl heq
  · exact .inr (List.mem_of_mem_erase hin)

/-- A flight that is to set an expiry stays, if it is not the one that
moves. -/
theorem toExpire_kept {g' g'' : Flight} (hg : g'' ∈ s.flights) (hto : g''.toExpire k = true)
    (hother : g.toExpire k = false) : g'' ∈ g' :: s.flights.erase g := by
  have hne : g'' ≠ g := by
    intro heq
    rw [heq, hother] at hto
    cases hto
  exact List.mem_cons_of_mem _ ((List.mem_erase_of_ne hne).2 hg)

theorem Tally.incr (h : Tally cfg s) {elapsed : Nat} {todo : List Target}
    {passed : List (Key × Int)} (hg : ⟨.incr k elapsed, todo, passed⟩ ∈ s.flights)
    (hprompt : (s.now : Int) < k.windowStart + ttl cfg k.resource) :
    Tally cfg (runFlight cfg s ⟨.incr k elapsed, todo, passed⟩) := by
  have hcount := h.countOf_eq hprompt
  have hwithin := h.within _ hg
  refine ⟨?_, ⟨?_, h.ranked⟩, ?_, fun k' e he t ht => ?_, fun k' e he hnone => ?_, ?_, h.fits,
    h.own, fun g' hg' => ?_, fun g' hg' k' hstage u hu => ?_⟩
  · have hrest := (perm_flatMap Flight.counted hg).symm
    exact List.perm_middle.trans (((hrest.append_left s.allowed).trans h.held).cons _)
  · show (s.held.countP (·.1 = k) : Int) < s.countOf k + 1
    omega
  · refine h.counts_add hprompt ?_ fun k' hk => ?_
    · show (((k, s.countOf k + 1) :: s.held).countP (·.1 = k) : Int) = _
      rw [List.countP_cons_of_pos (by simp)]
      push_cast
      rfl
    · exact List.countP_cons_of_neg (by simpa using hk.symm)
  · rcases h.entries_add hprompt he with ⟨e₀, he₀, hsame⟩ | ⟨-, -, hnone⟩
    · exact h.kept k' e₀ he₀ t (hsame ▸ ht)
    · rw [hnone] at ht
      cases ht
  · rcases h.entries_add hprompt he with ⟨e₀, he₀, hsame⟩ | ⟨rfl, -, -⟩
    · obtain ⟨g', hg', hto⟩ := h.expiring k' e₀ he₀ (hsame.trans hnone)
      exact ⟨g', toExpire_kept hg' hto rfl, hto⟩
    · exact ⟨_, List.mem_cons_self, decide_eq_true rfl⟩
  · exact (perm_flatMap Flight.passed hg).symm.subperm.trans h.passed
  · rcases mem_replace hg' with rfl | hin
    · exact hwithin
    · exact h.within g' hin
  · rcases mem_replace hg' with rfl | hin
    · cases hstage
    · exact h.undoing g' hin k' hstage u hu

/-- What a flight has counted is held. -/
theorem Tally.counted_held (h : Tally cfg s) (hg : g ∈ s.flights) {u : Key × Int}
    (hu : u ∈ g.counted) : u ∈ s.held :=
  h.held.mem_iff.1 (List.mem_append_right _ (List.mem_flatMap.2 ⟨g, hg, hu⟩))

theorem Tally.pexpire (h : Tally cfg s) {elapsed : Nat} {count : Int} {todo : List Target}
    {passed : List (Key × Int)} (hg : ⟨.pexpire k elapsed count, todo, passed⟩ ∈ s.flights)
    (hprompt : (s.now : Int) < k.windowStart + ttl cfg k.resource) :
    Tally cfg (runFlight cfg s ⟨.pexpire k elapsed count, todo, passed⟩) := by
  have hthere := h.there (h.counted_held hg (List.mem_singleton.2 rfl))
  obtain ⟨e, he⟩ := Option.ne_none_iff_exists'.1 hthere
  change s.keys k = some e at he
  have hwrite : s.pexpire k (ttl cfg k.resource) = { s with
      keys := Function.update s.keys k
        (some ⟨e.count, some (s.now + ttl cfg k.resource)⟩) } := by
    unfold World.pexpire
    rw [h.get_eq hprompt, he]
  have hwithin := h.within _ hg
  have hrun : runFlight cfg s ⟨.pexpire k elapsed count, todo, passed⟩
      = (s.pexpire k (ttl cfg k.resource)).replace ⟨.pexpire k elapsed count, todo, passed⟩
          [⟨.get k elapsed count, todo, passed⟩] := rfl
  rw [hrun, hwrite]
  refine ⟨?_, h.ranked, fun k' => ?_, fun k' e' he' t ht => ?_, fun k' e' he' hnone => ?_, ?_,
    h.fits, h.own, fun g' hg' => ?_, fun g' hg' k' hstage u hu => ?_⟩
  · exact ((perm_flatMap Flight.counted hg).symm.append_left s.allowed).trans h.held
  · by_cases hk : k' = k
    · subst hk
      have hcount := h.counts k'
      rw [he] at hcount
      show ((Function.update s.keys k' _ k').map (·.count)).getD 0 = _
      rw [Function.update_self]
      exact hcount
    · show ((Function.update s.keys k _ k').map (·.count)).getD 0 = _
      rw [Function.update_of_ne hk]
      exact h.counts k'
  · rcases Table.update_cases he' with ⟨rfl, rfl⟩ | ⟨-, hold⟩
    · cases ht
      have hstart : k'.windowStart ≤ s.now := hwithin.1
      push_cast
      omega
    · exact h.kept k' e' hold t ht
  · rcases Table.update_cases he' with ⟨rfl, rfl⟩ | ⟨hne, hold⟩
    · cases hnone
    · obtain ⟨g', hg', hto⟩ := h.expiring k' e' hold hnone
      exact ⟨g', toExpire_kept hg' hto (decide_eq_false hne.symm), hto⟩
  · exact (perm_flatMap Flight.passed hg).symm.subperm.trans h.passed
  · rcases mem_replace hg' with rfl | hin
    · exact hwithin
    · exact h.within g' hin
  · rcases mem_replace hg' with rfl | hin
    · cases hstage
    · exact h.undoing g' hin k' hstage u hu

/-- It fits: the number is allowed. -/
theorem Tally.allow (h : Tally cfg s) {elapsed : Nat} {count : Int} {todo : List Target}
    {passed : List (Key × Int)} (hg : ⟨.get k elapsed count, todo, passed⟩ ∈ s.flights)
    (hfits : (count : ℚ) ≤ (cfg.limitOf k.resource k.subject).1) :
    Tally cfg { s.replace ⟨.get k elapsed count, todo, passed⟩
        [⟨.idle, todo.tail, passed ++ [(k, count)]⟩] with
      allowed := (k, count) :: s.allowed } := by
  refine ⟨?_, h.ranked, h.counts, h.kept, fun k' e he hnone => ?_, ?_, fun t ht => ?_, h.own,
    fun g' hg' => ?_, fun g' hg' k' hstage u hu => ?_⟩
  · have hrest := perm_flatMap Flight.counted hg
    refine List.Perm.trans ?_ h.held
    refine List.Perm.trans ?_ (hrest.symm.append_left s.allowed)
    exact List.perm_middle.symm
  · obtain ⟨g', hg', hto⟩ := h.expiring k' e he hnone
    exact ⟨g', toExpire_kept hg' hto rfl, hto⟩
  · have hrest := (perm_flatMap Flight.passed hg).symm.subperm.trans h.passed
    have hmove : ((passed ++ [(k, count)]) ++ (s.flights.erase
        ⟨.get k elapsed count, todo, passed⟩).flatMap Flight.passed).Perm
        ((k, count) :: (passed ++ (s.flights.erase
          ⟨.get k elapsed count, todo, passed⟩).flatMap Flight.passed)) := by
      rw [List.append_assoc]
      exact List.perm_middle
    exact hmove.subperm.trans ((List.subperm_cons _).2 hrest)
  · rcases List.mem_cons.1 ht with rfl | hold
    · exact hfits
    · exact h.fits t hold
  · rcases mem_replace hg' with rfl | hin
    · trivial
    · exact h.within g' hin
  · rcases mem_replace hg' with rfl | hin
    · cases hstage
    · exact h.undoing g' hin k' hstage u hu

/-- What is held under a key may be given back to it. -/
theorem Tally.counts_erase (h : Tally cfg s) {u : Key × Int} (hu : u ∈ s.held)
    (hprompt : (s.now : Int) < u.1.windowStart + ttl cfg u.1.resource) (k' : Key) :
    (((s.add u.1 (-1)).keys k').map (·.count)).getD 0
      = ((s.held.erase u).countP (·.1 = k') : Int) :=
  h.counts_add hprompt (countP_erase_self hu) (fun _ hk => countP_erase_ne hu hk) k'

/-- And its expiry stays as it was. -/
theorem Tally.entries_erase (h : Tally cfg s) {u : Key × Int} (hu : u ∈ s.held)
    (hprompt : (s.now : Int) < u.1.windowStart + ttl cfg u.1.resource) {k' : Key} {e : Entry}
    (he : (s.add u.1 (-1)).keys k' = some e) :
    ∃ e₀, s.keys k' = some e₀ ∧ e₀.expiresAt = e.expiresAt := by
  rcases h.entries_add hprompt he with hold | ⟨-, hnone, -⟩
  · exact hold
  · exact absurd hnone (h.there hu)

theorem Tally.decr (h : Tally cfg s) {count : Int} {todo : List Target}
    {passed : List (Key × Int)} (hg : ⟨.decr k count, todo, passed⟩ ∈ s.flights)
    (hprompt : (s.now : Int) < k.windowStart + ttl cfg k.resource) :
    Tally cfg (runFlight cfg s ⟨.decr k count, todo, passed⟩) := by
  have hheld : (k, count) ∈ s.held := h.counted_held hg (List.mem_singleton.2 rfl)
  refine ⟨?_, h.ranked.sublist List.erase_sublist, h.counts_erase hheld hprompt,
    fun k' e he t ht => ?_, fun k' e he hnone => ?_, ?_, h.fits, h.own, fun g' hg' => ?_,
    fun g' hg' k' hstage u hu => ?_⟩
  · have hrest : (s.allowed ++ (k, count) :: (s.flights.erase
        ⟨.decr k count, todo, passed⟩).flatMap Flight.counted).Perm s.held :=
      ((perm_flatMap Flight.counted hg).symm.append_left s.allowed).trans h.held
    have hcons := List.perm_middle.symm.trans (hrest.trans (List.perm_cons_erase hheld))
    exact (List.perm_cons _).1 hcons
  · obtain ⟨e₀, he₀, hsame⟩ := h.entries_erase hheld hprompt he
    exact h.kept k' e₀ he₀ t (hsame ▸ ht)
  · obtain ⟨e₀, he₀, hsame⟩ := h.entries_erase hheld hprompt he
    obtain ⟨g', hg', hto⟩ := h.expiring k' e₀ he₀ (hsame.trans hnone)
    exact ⟨g', toExpire_kept hg' hto rfl, hto⟩
  · exact (perm_flatMap Flight.passed hg).symm.subperm.trans h.passed
  · rcases mem_replace hg' with rfl | hin
    · trivial
    · exact h.within g' hin
  · rcases mem_replace hg' with rfl | hin
    · cases hstage
    · exact h.undoing g' hin k' hstage u hu

/-- A release in its own window. -/
theorem Tally.undo (h : Tally cfg s) {u : Key × Int} {todo : List Target}
    {passed : List (Key × Int)} (hg : ⟨.undo k, todo, u :: passed⟩ ∈ s.flights)
    (hprompt : (s.now : Int) < k.windowStart + ttl cfg k.resource) :
    Tally cfg (runFlight cfg s ⟨.undo k, todo, u :: passed⟩) := by
  obtain rfl : k = u.1 := h.undoing _ hg k rfl u rfl
  have hpassed : (u :: (passed ++ (s.flights.erase
      ⟨.undo u.1, todo, u :: passed⟩).flatMap Flight.passed)).Subperm s.allowed :=
    (perm_flatMap Flight.passed hg).symm.subperm.trans h.passed
  have hallowed : u ∈ s.allowed := hpassed.subset List.mem_cons_self
  have hheld : u ∈ s.held := h.held.mem_iff.1 (List.mem_append_left _ hallowed)
  refine ⟨?_, h.ranked.sublist List.erase_sublist, h.counts_erase hheld hprompt,
    fun k' e he t ht => ?_, fun k' e he hnone => ?_, ?_, fun t ht => ?_, fun e he => ?_,
    fun g' hg' => ?_, fun g' hg' k' hstage v hv => ?_⟩
  · have hrest : (s.allowed ++ (s.flights.erase
        ⟨.undo u.1, todo, u :: passed⟩).flatMap Flight.counted).Perm s.held :=
      ((perm_flatMap Flight.counted hg).symm.append_left s.allowed).trans h.held
    have hcons := ((List.perm_cons_erase hallowed).symm.append_right _).trans
      (hrest.trans (List.perm_cons_erase hheld))
    exact (List.perm_cons _).1 hcons
  · obtain ⟨e₀, he₀, hsame⟩ := h.entries_erase hheld hprompt he
    exact h.kept k' e₀ he₀ t (hsame ▸ ht)
  · obtain ⟨e₀, he₀, hsame⟩ := h.entries_erase hheld hprompt he
    obtain ⟨g', hg', hto⟩ := h.expiring k' e₀ he₀ (hsame.trans hnone)
    exact ⟨g', toExpire_kept hg' hto rfl, hto⟩
  · have hcons := hpassed.trans (List.perm_cons_erase hallowed).subperm
    exact (List.subperm_cons _).1 hcons
  · exact h.fits t (List.mem_of_mem_erase ht)
  · rcases List.mem_cons.1 he with rfl | hold
    · rfl
    · exact h.own e hold
  · rcases mem_replace hg' with rfl | hin
    · trivial
    · exact h.within g' hin
  · rcases mem_replace hg' with rfl | hin
    · cases hstage
    · exact h.undoing g' hin k' hstage v hv

-- ============================================================ every run

/-- The window the clock is in has begun. -/
theorem keyAt_within (cfg : Config) (now : Nat) (t : Target) :
    (Stage.incr (keyAt cfg now t) (now % cfg.windowMs t.resource)).Within cfg now := by
  constructor
  · show ((now / cfg.windowMs t.resource * cfg.windowMs t.resource : Nat) : Int) ≤ now
    exact_mod_cast Nat.div_mul_le_self ..
  · have hpositive : 0 < cfg.windowMs t.resource :=
      Nat.mul_pos (cfg.policies t.resource).positive (by decide)
    exact (Nat.mod_lt _ hpositive).le

theorem Tally.noted (h : Tally cfg s) (k : Key) (ms : Nat) : Tally cfg (s.note k ms) := by
  unfold World.note
  split
  · exact h
  · exact ⟨h.held, h.ranked, h.counts, h.kept, h.expiring, h.passed, h.fits, h.own, h.within,
      h.undoing⟩

theorem mem_noted (hg : g ∈ s.flights) (k : Key) (ms : Nat) : g ∈ (s.note k ms).flights := by
  unfold World.note
  split
  · exact hg
  · exact hg

theorem Tally.run (h : Tally cfg s) (hg : g ∈ s.flights) (hok : Prompt cfg s (.run g)) :
    Tally cfg (runFlight cfg s g) := by
  obtain ⟨hprompt, hrelease⟩ := hok
  obtain ⟨stage, todo, passed⟩ := g
  cases stage with
  | idle =>
      cases todo with
      | nil => exact h.ended hg rfl fun _ => rfl
      | cons t todo =>
          exact h.moved hg rfl (fun _ => rfl) (keyAt_within cfg s.now t) fun _ h => nomatch h
  | incr k elapsed => exact h.incr hg (hprompt k rfl)
  | pexpire k elapsed count => exact h.pexpire hg (hprompt k rfl)
  | get k elapsed count =>
      unfold runFlight
      dsimp only
      split
      next hfits =>
        refine h.allow hg (le_trans ?_ hfits)
        exact count_le_estimate (h.countOf_nonneg _) (h.within _ hg).2
      next => exact h.moved hg rfl (fun _ => rfl) trivial fun _ h => nomatch h
  | decr k count => exact h.decr hg (hprompt k rfl)
  | note k =>
      exact (h.noted k _).moved (mem_noted hg k _) rfl (fun _ => rfl) trivial fun _ h => nomatch h
  | releasing =>
      cases passed with
      | nil => exact h.ended hg rfl fun _ => rfl
      | cons u passed =>
          refine h.moved hg rfl (fun _ => rfl) trivial fun k hk v hv => ?_
          cases hk
          cases hv
          exact hrelease rfl u rfl
  | undo k =>
      cases passed with
      | nil => exact h.ended hg rfl fun _ => rfl
      | cons u passed => exact h.undo hg (hprompt k rfl)

/-- A process comes. -/
theorem Tally.come (h : Tally cfg s) (todo : List Target) :
    Tally cfg { s with flights := ⟨.idle, todo, []⟩ :: s.flights } := by
  refine ⟨h.held, h.ranked, h.counts, h.kept, fun k e he hnone => ?_, h.passed, h.fits, h.own,
    fun g hg => ?_, fun g hg k hstage u hu => ?_⟩
  · obtain ⟨g, hg, hto⟩ := h.expiring k e he hnone
    exact ⟨g, List.mem_cons_of_mem _ hg, hto⟩
  · rcases List.mem_cons.1 hg with rfl | hin
    · trivial
    · exact h.within g hin
  · rcases List.mem_cons.1 hg with rfl | hin
    · cases hstage
    · exact h.undoing g hin k hstage u hu

theorem Stage.Within.later {stage : Stage} {now ms : Nat} (h : stage.Within cfg now) :
    stage.Within cfg (now + ms) := by
  cases stage with
  | incr k elapsed => exact ⟨h.1.trans (by omega), h.2⟩
  | pexpire k elapsed count => exact ⟨h.1.trans (by omega), h.2⟩
  | get k elapsed count => exact ⟨h.1.trans (by omega), h.2⟩
  | _ => trivial

theorem Tally.step (h : Tally cfg s) (hok : Prompt cfg s a) (hs : step cfg s a = some s') :
    Tally cfg s' := by
  cases a with
  | tick ms =>
      cases hs
      exact ⟨h.held, h.ranked, h.counts, h.kept, h.expiring, h.passed, h.fits, h.own,
        fun g hg => (h.within g hg).later, h.undoing⟩
  | check resource subject =>
      cases hs
      exact h.come _
  | admitRequest orgId type id operation =>
      cases hs
      exact h.come _
  | run g =>
      simp only [Limits.step, Option.ite_none_right_eq_some] at hs
      obtain ⟨hg, hs⟩ := hs
      cases hs
      exact h.run hg hok

theorem tally_init (hs : init s) : Tally cfg s := by
  obtain ⟨now, rfl⟩ := hs
  refine ⟨List.Perm.refl _, trivial, fun k => rfl, ?_, ?_, List.Subperm.refl _, ?_, ?_, ?_, ?_⟩
  · intro k e he
    cases he
  · intro k e he
    cases he
  · intro t ht
    cases ht
  · intro e he
    cases he
  · intro g hg
    cases hg
  · intro g hg
    cases hg

theorem Tally.sound (h : Tally cfg s) : Sound cfg s := by
  refine ⟨fun k => ?_, h.own, h.expiring, fun k e he => h.nonneg he⟩
  have hsub : s.allowed.Subperm s.held :=
    (List.sublist_append_left _ _).subperm.trans h.held.subperm
  refine h.ranked.subperm_count_le hsub (cfg.limitOf k.resource k.subject).2 fun t ht hk => ?_
  rw [← hk]
  exact h.fits t ht

/-- In every run whose releases are made in the window of their check, and
whose commands do not come after their key has run out, a window never
allows more than its limit, what is released is what was taken, and no key
is left without an expiry or below zero. -/
theorem windows_sound (hrun : Reachable (step cfg) (Prompt cfg) init s) : Sound cfg s :=
  Tally.sound <| hrun.invariant (fun _ => tally_init) fun _ _ _ h hok hs => h.step hok hs

-- ============================================================= a crossing

/-- Two requests a second for each caller, one for the organization. -/
def small : Config where
  policies resource :=
    { limit := if resource = .orgRequests then 1 else 2, windowSeconds := 1
      nonneg := by split <;> decide, positive := Nat.one_pos }
  organizationLimits _ _ := none

def target (id : String) : Target := ⟨.requests, .principal "o" "user" id⟩
def whole : Target := ⟨.orgRequests, .organization "o"⟩
def keyOf (t : Target) (windowStart : Int) : Key := ⟨t.resource, t.subject, windowStart⟩

/-- A check, from reading the clock to the decision. -/
def counting (k : Key) (elapsed : Nat) (count : Int) (todo : List Target)
    (passed : List (Key × Int)) : List Action :=
  [.run ⟨.idle, todo, passed⟩, .run ⟨.incr k elapsed, todo, passed⟩,
    .run ⟨.pexpire k elapsed count, todo, passed⟩, .run ⟨.get k elapsed count, todo, passed⟩]

/-- One caller takes the organization's place. -/
def firstActs : List Action :=
  [.admitRequest "o" "user" "bob" none]
    ++ counting (keyOf (target "bob") 0) 0 1 [target "bob", whole] []
    ++ counting (keyOf whole 0) 0 1 [whole] [(keyOf (target "bob") 0, 1)]

/-- Another is refused by the organization's limit. -/
def refusedActs (count : Int) : List Action :=
  [.admitRequest "o" "user" "ann" none]
    ++ counting (keyOf (target "ann") 0) 0 count [target "ann", whole] []
    ++ counting (keyOf whole 0) 0 2 [whole] [(keyOf (target "ann") 0, count)]
    ++ [.run ⟨.decr (keyOf whole 0) 2, [whole], [(keyOf (target "ann") 0, count)]⟩,
      .run ⟨.note (keyOf whole 0), [whole], [(keyOf (target "ann") 0, count)]⟩]

/-- What it was allowed is released. -/
def releasedActs (windowStart count : Int) : List Action :=
  [.run ⟨.releasing, [whole], [(keyOf (target "ann") 0, count)]⟩,
    .run ⟨.undo (keyOf (target "ann") windowStart), [whole],
      [(keyOf (target "ann") 0, count)]⟩,
    .run ⟨.releasing, [whole], []⟩]

def releasedWorld : World :=
  (runWithin (step small) (Prompt small) (World.empty 0)
    (firstActs ++ refusedActs 1 ++ releasedActs 0 1)).get (by decide +kernel)

theorem windows_sound_released :
    releasedWorld.released = [((keyOf (target "ann") 0, 1), keyOf (target "ann") 0)]
      ∧ Sound small releasedWorld :=
  ⟨by decide +kernel, windows_sound (reachable_get ⟨0, rfl⟩ _)⟩

-- ============================================================ what remains

/-- Two are refused, and released in the next window. -/
def crossedActs : List Action :=
  firstActs ++ refusedActs 1 ++ refusedActs 2 ++ [.tick 1000] ++ releasedActs 1000 1
    ++ releasedActs 1000 2

def crossedWorld : World :=
  (runWithin (step small) anyStep (World.empty 0) crossedActs).get (by decide +kernel)

/-- And three are allowed at its end. -/
def exceededActs : List Action :=
  crossedActs ++ [.tick 999]
    ++ ([-1, 0, 1] : List Int).flatMap fun count =>
      [.check .requests (.principal "o" "user" "ann")]
        ++ counting (keyOf (target "ann") 1000) 999 count [target "ann"] []

def exceededWorld : World :=
  (runWithin (step small) anyStep (World.empty 0) exceededActs).get (by decide +kernel)

/-- A release that crosses a boundary leaves a negative key without an
expiry, and the window lets more in than its limit. -/
theorem release_crosses :
    (∃ s k e, Reachable (step small) anyStep init s ∧ s.keys k = some e ∧ e.count < 0
      ∧ e.expiresAt = none ∧ (∀ g ∈ s.flights, g.toExpire k = false)
      ∧ ∃ r ∈ s.released, r.2 ≠ r.1.1)
    ∧ ∃ s k, Reachable (step small) anyStep init s
        ∧ (small.limitOf k.resource k.subject).1 < s.allowed.countP (·.1 = k) := by
  refine ⟨⟨crossedWorld, keyOf (target "ann") 1000, ⟨-2, none⟩, reachable_get ⟨0, rfl⟩ _,
    by decide +kernel, by decide, rfl, by decide +kernel, ?_⟩, ?_⟩
  · exact ⟨((keyOf (target "ann") 0, 1), keyOf (target "ann") 1000), by decide +kernel,
      by decide⟩
  · exact ⟨exceededWorld, keyOf (target "ann") 1000, reachable_get ⟨0, rfl⟩ _,
      by decide +kernel⟩

end Nacre.Limits
