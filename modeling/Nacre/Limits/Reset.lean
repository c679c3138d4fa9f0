/-
What a decision tells the client: when to come back, and how much is left
(api/limits.ts: `check`, `secondsUntilRoom`).

One check, with no other command between its own. All numbers are exact:
what the code computes in doubles is computed here in ℚ.

# The wait

A refused request leaves the counts as they were, so a later check is
decided by its distance from the start of the window alone (`Fits`): in
this window the one before slides out, in the next this one does, and after
that nothing is counted. Where the limit leaves room for one request at
all, a check fits exactly from `waitMs` on (`fits_iff`), and the seconds
reported are the first whole number not below it. A limit below one leaves
room for none, and no second would be right.
-/
import Mathlib.Algebra.Order.Floor.Semiring
import Mathlib.Data.Rat.Floor
import Mathlib.Order.Bounds.Basic
import Mathlib.Tactic.FieldSimp
import Mathlib.Tactic.Linarith
import Nacre.Limits.System

namespace Nacre.Limits

variable {s : World} {t : Target} {policy : LimitPolicy} {k k' : Key} {n ms : Nat}

-- ================================================================== the check

def LimitPolicy.windowMs (policy : LimitPolicy) : Nat := policy.windowSeconds * 1000

/-- Until one more request fits, in milliseconds. -/
def waitMs (limit windowMs elapsedMs : ℚ) (previous current : ℤ) : ℚ :=
  let room := limit - 1
  if current ≤ room then
    -- only the previous window's tail is in the way
    if previous ≤ 0 then 0 else windowMs * (1 - (room - current) / previous) - elapsedMs
  else
    -- this window has to become the previous one and slide
    let intoNext := if current ≤ 0 then 0 else max 0 (windowMs * (1 - room / current))
    windowMs - elapsedMs + intoNext

def secondsUntilRoom (limit windowMs elapsedMs : ℚ) (previous current : ℤ) : Nat :=
  max 1 ⌈waitMs limit windowMs elapsedMs previous current / 1000⌉₊

structure LimitDecision where
  allowed : Bool
  limit : ℚ
  remaining : Nat
  reset : Nat
  degraded : Bool
  firstRefusal : Bool

/-- `check`, where Redis answers. -/
def check (s : World) (t : Target) (policy : LimitPolicy) : World × LimitDecision :=
  let windowMs := policy.windowMs
  let windowStart : Nat := s.now / windowMs * windowMs
  let elapsed := s.now - windowStart
  let rolls := max 1 ⌈((windowStart + windowMs - s.now : Nat) : ℚ) / 1000⌉₊
  let key : Key := ⟨t.resource, t.subject, windowStart⟩
  let previousKey : Key := ⟨t.resource, t.subject, windowStart - windowMs⟩
  let counted := (s.add key 1).pexpire key (2 * windowMs + 1000)
  let current := counted.countOf key
  let previous := counted.countOf previousKey
  let weight : ℚ := 1 - elapsed / windowMs
  let estimate := previous * weight + current
  if estimate ≤ policy.limit then
    (counted, ⟨true, policy.limit, ⌊policy.limit - estimate⌋₊, rolls, false, false⟩)
  else
    let given := counted.add key (-1)
    (given.note key (windowMs + 1000),
      ⟨false, policy.limit, 0, secondsUntilRoom policy.limit windowMs elapsed previous (current - 1),
        false, !(given.noted key).any (s.now < ·)⟩)

/-- Nothing but time. -/
def World.later (s : World) (ms : Nat) : World := { s with now := s.now + ms }

/-- How many of the next checks are allowed, all at once. -/
def allowedOf (t : Target) (policy : LimitPolicy) : Nat → World → Nat
  | 0, _ => 0
  | n + 1, s =>
      let (s', decision) := check s t policy
      (if decision.allowed then 1 else 0) + allowedOf t policy n s'

-- ================================================================= the counts

theorem get_add (s : World) (k k' : Key) (n : Int) : (s.add k n).get k'
    = if k' = k then some ⟨s.countOf k + n, (s.get k).bind (·.expiresAt)⟩ else s.get k' := by
  unfold World.get World.add
  by_cases h : k' = k
  · subst h
    simp only [Function.update_self, if_true]
    refine Option.filter_eq_some_iff.mpr ⟨rfl, ?_⟩
    -- what is kept of the expiry was not over
    cases hget : s.keys k' with
    | none => rfl
    | some e =>
        rw [Option.filter_some]
        split
        next hlive => exact hlive
        next => rfl
  · simp only [Function.update_of_ne h, if_neg h]

theorem countOf_add (s : World) (k k' : Key) (n : Int) :
    (s.add k n).countOf k' = if k' = k then s.countOf k + n else s.countOf k' := by
  rw [World.countOf, get_add]
  split <;> rfl

theorem countOf_pexpire (s : World) (k k' : Key) (hms : 0 < ms) :
    (s.pexpire k ms).countOf k' = s.countOf k' := by
  rw [World.pexpire]
  split
  next => rfl
  next e he =>
    by_cases h : k' = k
    · subst h
      have hlive : ({ s with
          keys := Function.update s.keys k' (some ⟨e.count, some (s.now + ms)⟩) } : World).get k'
          = some ⟨e.count, some (s.now + ms)⟩ := by
        unfold World.get
        simp only [Function.update_self]
        exact Option.filter_eq_some_iff.mpr ⟨rfl, decide_eq_true (Nat.lt_add_of_pos_right hms)⟩
      rw [World.countOf, World.countOf, hlive, he]
      rfl
    · rw [World.countOf, World.countOf, World.get, World.get]
      simp only [Function.update_of_ne h]

@[simp] theorem now_add (s : World) (k : Key) (n : Int) : (s.add k n).now = s.now := rfl

@[simp] theorem now_pexpire (s : World) (k : Key) (ms : Nat) : (s.pexpire k ms).now = s.now := by
  rw [World.pexpire]
  split <;> rfl

@[simp] theorem now_note (s : World) (k : Key) (ms : Nat) : (s.note k ms).now = s.now := by
  rw [World.note]
  split <;> rfl

@[simp] theorem keys_note (s : World) (k : Key) (ms : Nat) : (s.note k ms).keys = s.keys := by
  rw [World.note]
  split <;> rfl

@[simp] theorem countOf_note (s : World) (k k' : Key) (ms : Nat) :
    (s.note k ms).countOf k' = s.countOf k' := by
  rw [World.countOf, World.countOf, World.get, World.get, keys_note, now_note]

-- ================================================================ the decision

/-- The window the clock is in. -/
def windowStart (policy : LimitPolicy) (s : World) : Nat :=
  s.now / policy.windowMs * policy.windowMs

def Target.key (t : Target) (windowStart : Int) : Key := ⟨t.resource, t.subject, windowStart⟩

/-- What the two windows leave of the limit. -/
def room (t : Target) (policy : LimitPolicy) (s : World) : ℚ :=
  policy.limit - (s.countOf (t.key (windowStart policy s - policy.windowMs))
    * (1 - (s.now - windowStart policy s : Nat) / policy.windowMs)
      + s.countOf (t.key (windowStart policy s)))

theorem windowMs_pos (policy : LimitPolicy) : 0 < policy.windowMs :=
  Nat.mul_pos policy.positive (by decide)

theorem key_ne (policy : LimitPolicy) (t : Target) (w : Int) :
    t.key (w - policy.windowMs) ≠ t.key w := by
  intro h
  have hw : w - policy.windowMs = w := congrArg Key.windowStart h
  have hpos := windowMs_pos policy
  omega

/-- The world after `INCR` and `PEXPIRE`. -/
def counted (s : World) (t : Target) (policy : LimitPolicy) : World :=
  (s.add (t.key (windowStart policy s)) 1).pexpire (t.key (windowStart policy s))
    (2 * policy.windowMs + 1000)

theorem countOf_counted (s : World) (t : Target) (policy : LimitPolicy) (k : Key) :
    (counted s t policy).countOf k = if k = t.key (windowStart policy s)
      then s.countOf (t.key (windowStart policy s)) + 1 else s.countOf k := by
  rw [counted, countOf_pexpire _ _ _ (by omega), countOf_add]

@[simp] theorem now_counted (s : World) (t : Target) (policy : LimitPolicy) :
    (counted s t policy).now = s.now := by
  rw [counted, now_pexpire, now_add]

/-- What a check answers and leaves. -/
inductive Checked (s : World) (t : Target) (policy : LimitPolicy) : World × LimitDecision → Prop where
  | allowed (s' : World) (decision : LimitDecision) (fits : 1 ≤ room t policy s)
      (answered : decision.allowed = true)
      (remaining : decision.remaining = ⌊room t policy s - 1⌋₊)
      (now : s'.now = s.now)
      (counts : ∀ k, s'.countOf k = if k = t.key (windowStart policy s)
        then s.countOf (t.key (windowStart policy s)) + 1 else s.countOf k)
      (keys : s'.keys = (counted s t policy).keys) :
      Checked s t policy (s', decision)
  | refused (s' : World) (decision : LimitDecision) (full : room t policy s < 1)
      (answered : decision.allowed = false)
      (reset : decision.reset = secondsUntilRoom policy.limit policy.windowMs
        (s.now - windowStart policy s : Nat)
        (s.countOf (t.key (windowStart policy s - policy.windowMs)))
        (s.countOf (t.key (windowStart policy s))))
      (now : s'.now = s.now)
      (counts : ∀ k, s'.countOf k = s.countOf k)
      (keys : s'.keys = ((counted s t policy).add (t.key (windowStart policy s)) (-1)).keys) :
      Checked s t policy (s', decision)

/-- The estimate a check compares. -/
def estimateOf (s : World) (t : Target) (policy : LimitPolicy) : ℚ :=
  (counted s t policy).countOf (t.key (windowStart policy s - policy.windowMs))
    * (1 - (s.now - windowStart policy s : Nat) / policy.windowMs)
    + (counted s t policy).countOf (t.key (windowStart policy s))

theorem estimateOf_eq (s : World) (t : Target) (policy : LimitPolicy) :
    estimateOf s t policy = policy.limit - (room t policy s - 1) := by
  rw [estimateOf, countOf_counted, countOf_counted, if_pos rfl, if_neg (key_ne policy t _), room]
  push_cast
  ring

theorem check_eq (s : World) (t : Target) (policy : LimitPolicy) : check s t policy =
    if estimateOf s t policy ≤ policy.limit then
      (counted s t policy, ⟨true, policy.limit, ⌊policy.limit - estimateOf s t policy⌋₊,
        max 1 ⌈((windowStart policy s + policy.windowMs - s.now : Nat) : ℚ) / 1000⌉₊, false, false⟩)
    else
      let given := (counted s t policy).add (t.key (windowStart policy s)) (-1)
      (given.note (t.key (windowStart policy s)) (policy.windowMs + 1000),
        ⟨false, policy.limit, 0, secondsUntilRoom policy.limit policy.windowMs
          (s.now - windowStart policy s : Nat)
          ((counted s t policy).countOf (t.key (windowStart policy s - policy.windowMs)))
          ((counted s t policy).countOf (t.key (windowStart policy s)) - 1),
          false, !(given.noted (t.key (windowStart policy s))).any (s.now < ·)⟩) := rfl

theorem check_checked (s : World) (t : Target) (policy : LimitPolicy) :
    Checked s t policy (check s t policy) := by
  rw [check_eq, estimateOf_eq]
  split
  next hfits =>
    refine .allowed _ _ (by linarith) rfl ?_ (now_counted s t policy) (countOf_counted s t policy) rfl
    show ⌊policy.limit - (policy.limit - (room t policy s - 1))⌋₊ = _
    rw [sub_sub_cancel]
  next hfull =>
    refine .refused _ _ (by linarith) rfl ?_ ?_ (fun k => ?_) ?_
    · show secondsUntilRoom _ _ _ _ _ = _
      rw [countOf_counted, countOf_counted, if_pos rfl, if_neg (key_ne policy t _),
        Int.add_sub_cancel]
    · simp
    · rw [countOf_note, countOf_add, countOf_counted, countOf_counted, if_pos rfl]
      split
      next h => rw [h, Int.add_neg_cancel_right]
      next => rfl
    · simp

-- =========================================================== all at one instant

theorem room_congr {s' : World} (hnow : s'.now = s.now)
    (hcounts : ∀ k, s'.countOf k = s.countOf k) : room t policy s' = room t policy s := by
  simp only [room, windowStart, hnow, hcounts]

theorem room_counted {s' : World} (hnow : s'.now = s.now)
    (hcounts : ∀ k, s'.countOf k = if k = t.key (windowStart policy s)
      then s.countOf (t.key (windowStart policy s)) + 1 else s.countOf k) :
    room t policy s' = room t policy s - 1 := by
  have hstart : windowStart policy s' = windowStart policy s := by simp only [windowStart, hnow]
  rw [room, room, hstart, hnow, hcounts, hcounts, if_pos rfl, if_neg (key_ne policy t _)]
  push_cast
  ring

/-- Of the next checks, as many are allowed as whole requests are left. -/
theorem allowedOf_eq (t : Target) (policy : LimitPolicy) (n : Nat) (s : World) :
    allowedOf t policy n s = min n ⌊room t policy s⌋₊ := by
  induction n generalizing s with
  | zero => rw [allowedOf, Nat.zero_min]
  | succ n ih =>
      rw [allowedOf]
      cases hcheck : check s t policy with
      | mk s' decision =>
          have hchecked := check_checked s t policy
          rw [hcheck] at hchecked
          cases hchecked with
          | allowed _ _ fits answered _ now counts _ =>
              simp only [answered, if_true]
              rw [ih, room_counted now counts, Nat.floor_sub_one]
              have hone : 1 ≤ ⌊room t policy s⌋₊ := Nat.one_le_floor_iff _ |>.mpr fits
              omega
          | refused _ _ full answered _ now counts _ =>
              simp only [answered, Bool.false_eq_true, if_false]
              rw [ih, room_congr now counts, Nat.floor_eq_zero.mpr full]
              simp

-- ====================================================================== later

/-- A check this far from the start of the window. -/
def Fits (limit : ℚ) (windowMs : Nat) (previous current : ℤ) (x : Nat) : Prop :=
  if x < windowMs then previous * (1 - (x : ℚ) / windowMs) + current ≤ limit - 1
  else if x < 2 * windowMs then current * (1 - ((x : ℚ) - windowMs) / windowMs) ≤ limit - 1
  else 1 ≤ limit

section

variable {limit : ℚ} {w e : Nat} {previous current : ℤ}

/-- In this window, where the one before is in the way. -/
theorem slides_iff {room p c x w : ℚ} (hw : 0 < w) (hp : 0 < p) :
    p * (1 - x / w) + c ≤ room ↔ w * (1 - (room - c) / p) ≤ x := by
  have hleft : p * (1 - x / w) + c ≤ room ↔ 1 - x / w ≤ (room - c) / p := by
    rw [le_div_iff₀ hp]
    constructor <;> intro h <;> linarith
  have hright : w * (1 - (room - c) / p) ≤ x ↔ 1 - (room - c) / p ≤ x / w := by
    rw [le_div_iff₀ hw, mul_comm]
  rw [hleft, hright]
  constructor <;> intro h <;> linarith

/-- The count of one window alone, as it slides out. -/
theorem slid_le {c x w room : ℚ} (hw : 0 < w) (hx : 0 ≤ x) (hxw : x ≤ w) (hroom : 0 ≤ room)
    (hc : c ≤ room) : c * (1 - x / w) ≤ room := by
  have hlow : 0 ≤ 1 - x / w := by
    rw [sub_nonneg, div_le_one hw]
    exact hxw
  have hhigh : 1 - x / w ≤ 1 := by
    rw [sub_le_self_iff]
    exact div_nonneg hx hw.le
  calc c * (1 - x / w) ≤ room * (1 - x / w) := mul_le_mul_of_nonneg_right hc hlow
    _ ≤ room * 1 := mul_le_mul_of_nonneg_left hhigh hroom
    _ = room := mul_one room

/-- Refused now, and only the window before is in the way. -/
theorem fits_iff_tail (hlimit : 1 ≤ limit) (he : e < w)
    (hfull : ¬ Fits limit w previous current e) (hroom : (current : ℚ) ≤ limit - 1) (x : Nat) :
    Fits limit w previous current (e + x) ↔ waitMs limit w e previous current ≤ x := by
  have hw : (0 : ℚ) < w := by exact_mod_cast Nat.zero_lt_of_lt he
  rw [Fits, if_pos he, not_le] at hfull
  have hweight : 0 < 1 - (e : ℚ) / w := by
    rw [sub_pos, div_lt_one hw]
    exact_mod_cast he
  have hprevious : (0 : ℚ) < previous := by
    have hpos : 0 < (previous : ℚ) * (1 - e / w) := by linarith
    exact (mul_pos_iff_of_pos_right hweight).mp hpos
  have hwait : waitMs limit w e previous current
      = w * (1 - (limit - 1 - current) / previous) - e := by
    have hnot : ¬ previous ≤ 0 := by
      rw [not_le]
      exact_mod_cast hprevious
    rw [waitMs, if_pos hroom, if_neg hnot]
  rw [hwait, Fits, sub_le_iff_le_add, add_comm (x : ℚ), ← Nat.cast_add]
  split
  next => exact slides_iff hw hprevious
  next hnext =>
    have hbeyond : (w : ℚ) ≤ (e + x : Nat) := by exact_mod_cast Nat.le_of_not_lt hnext
    have hthere : (w : ℚ) * (1 - (limit - 1 - current) / previous) ≤ (e + x : Nat) := by
      have hshare : 0 ≤ (limit - 1 - current) / previous := div_nonneg (by linarith) hprevious.le
      refine le_trans ?_ hbeyond
      calc (w : ℚ) * (1 - (limit - 1 - current) / previous) ≤ w * 1 :=
            mul_le_mul_of_nonneg_left (by linarith) hw.le
        _ = w := mul_one _
    refine ⟨fun _ => hthere, fun _ => ?_⟩
    split
    next htwo =>
      have hless : ((e + x : Nat) : ℚ) < 2 * w := by exact_mod_cast htwo
      exact slid_le hw (by linarith) (by linarith) (by linarith) hroom
    next => exact hlimit

/-- Refused now, by this window alone. -/
theorem fits_iff_over (hlimit : 1 ≤ limit) (he : e < w)
    (hfull : ¬ Fits limit w previous current e) (hover : limit - 1 < current) (x : Nat) :
    Fits limit w previous current (e + x) ↔ waitMs limit w e previous current ≤ x := by
  have hw : (0 : ℚ) < w := by exact_mod_cast Nat.zero_lt_of_lt he
  rw [Fits, if_pos he, not_le] at hfull
  have hcurrent : (0 : ℚ) < current := by linarith
  have hshare : (limit - 1) / current < 1 := (div_lt_one hcurrent).mpr hover
  have hpos : 0 ≤ (w : ℚ) * (1 - (limit - 1) / current) := mul_nonneg hw.le (by linarith)
  have hwait : waitMs limit w e previous current
      = w - e + w * (1 - (limit - 1) / current) := by
    have hnot : ¬ current ≤ 0 := by
      rw [not_le]
      exact_mod_cast hcurrent
    rw [waitMs, if_neg (not_le.mpr hover), if_neg hnot, max_eq_right hpos]
  have hsplit : waitMs limit w e previous current ≤ x
      ↔ w * (1 - (limit - 1 - 0) / current) ≤ ((e + x : Nat) : ℚ) - w := by
    rw [hwait, sub_zero, Nat.cast_add]
    constructor <;> intro h <;> linarith
  rw [hsplit, Fits]
  split
  next hin =>
    have hless : ((e + x : Nat) : ℚ) < w := by exact_mod_cast hin
    refine iff_of_false (fun hle => ?_) fun hle => ?_
    · -- what slides out only makes room where it counts for something
      have hlater : (e : ℚ) / w ≤ (e + x : Nat) / w :=
        div_le_div_of_nonneg_right (by exact_mod_cast Nat.le_add_right e x) hw.le
      have hwithin : ((e + x : Nat) : ℚ) / w < 1 := (div_lt_one hw).mpr hless
      rcases le_or_gt 0 (previous : ℚ) with hprevious | hprevious
      · have hterm : 0 ≤ (previous : ℚ) * (1 - (e + x : Nat) / w) :=
          mul_nonneg hprevious (by linarith)
        linarith
      · have hterm : (previous : ℚ) * (1 - e / w) ≤ previous * (1 - (e + x : Nat) / w) :=
          mul_le_mul_of_nonpos_left (by linarith) hprevious.le
        linarith
    · rw [sub_zero] at hle
      linarith
  next hnext =>
    split
    next => rw [← slides_iff hw hcurrent, add_zero]
    next hpast =>
      have hbeyond : (2 : ℚ) * w ≤ (e + x : Nat) := by exact_mod_cast Nat.le_of_not_lt hpast
      refine iff_of_true hlimit ?_
      have hnonneg : 0 ≤ (limit - 1 - 0) / current := div_nonneg (by linarith) hcurrent.le
      calc (w : ℚ) * (1 - (limit - 1 - 0) / current) ≤ w * 1 :=
            mul_le_mul_of_nonneg_left (by linarith) hw.le
        _ ≤ (e + x : Nat) - w := by linarith

/-- Refused now, a check fits from `waitMs` on and not before. -/
theorem fits_iff (hlimit : 1 ≤ limit) (he : e < w)
    (hfull : ¬ Fits limit w previous current e) (x : Nat) :
    Fits limit w previous current (e + x) ↔ waitMs limit w e previous current ≤ x := by
  rcases le_or_gt (current : ℚ) (limit - 1) with hroom | hover
  · exact fits_iff_tail hlimit he hfull hroom x
  · exact fits_iff_over hlimit he hfull hover x

/-- The seconds reported are the first after which a check fits. -/
theorem secondsUntilRoom_isLeast (hlimit : 1 ≤ limit) (he : e < w)
    (hfull : ¬ Fits limit w previous current e) :
    IsLeast {n : Nat | 0 < n ∧ Fits limit w previous current (e + 1000 * n)}
      (secondsUntilRoom limit w e previous current) := by
  have hfits : ∀ n : Nat, Fits limit w previous current (e + 1000 * n)
      ↔ ⌈waitMs limit w e previous current / 1000⌉₊ ≤ n := by
    intro n
    rw [fits_iff hlimit he hfull, Nat.ceil_le, div_le_iff₀ (by norm_num)]
    push_cast
    rw [mul_comm]
  constructor
  · exact ⟨Nat.lt_of_lt_of_le Nat.one_pos (Nat.le_max_left _ _),
      (hfits _).mpr (Nat.le_max_right _ _)⟩
  · rintro n ⟨hpos, hn⟩
    exact Nat.max_le.mpr ⟨hpos, (hfits n).mp hn⟩

end

-- ==================================================================== the keys

/-- A subject's keys: each is kept as long as it is read, and none is of a
window that has not begun. -/
structure Standing (t : Target) (policy : LimitPolicy) (s : World) : Prop where
  kept : ∀ w e, s.keys (t.key w) = some e → ∀ x ∈ e.expiresAt,
    w + (2 * policy.windowMs + 1000 : Nat) ≤ x
  begun : ∀ w, (s.now : Int) < w → s.keys (t.key w) = none

/-- A key that is read has what it had. -/
theorem Standing.countOf_later (h : Standing t policy s) {w : Int}
    (hread : ((s.now + ms : Nat) : Int) < w + 2 * policy.windowMs) :
    (s.later ms).countOf (t.key w) = s.countOf (t.key w) := by
  have hget : ∀ now : Nat, (now : Int) < w + 2 * policy.windowMs →
      (s.keys (t.key w)).filter (fun e => e.expiresAt.all (now < ·)) = s.keys (t.key w) := by
    intro now hnow
    cases hkey : s.keys (t.key w) with
    | none => rfl
    | some e =>
        refine Option.filter_eq_some_iff.mpr ⟨rfl, ?_⟩
        cases hexpires : e.expiresAt with
        | none => rfl
        | some x =>
            have hkept := h.kept w e hkey x hexpires
            exact decide_eq_true (by omega)
  rw [World.countOf, World.countOf, World.get, World.get]
  show (((s.keys (t.key w)).filter fun e => e.expiresAt.all ((s.now + ms : Nat) < ·)).map _).getD 0 = _
  rw [hget _ hread, hget s.now (by push_cast at hread; omega)]

/-- Of a window that had not begun, nothing is counted. -/
theorem Standing.countOf_ahead (h : Standing t policy s) {w : Int} (hw : (s.now : Int) < w) :
    (s.later ms).countOf (t.key w) = 0 := by
  rw [World.countOf, World.get]
  show (((s.keys (t.key w)).filter _).map _).getD 0 = 0
  rw [h.begun w hw]
  rfl

theorem windowStart_add (policy : LimitPolicy) (s : World) (x : Nat) :
    ∃ q, (windowStart policy s + x) / policy.windowMs * policy.windowMs
        = windowStart policy s + q * policy.windowMs
      ∧ q * policy.windowMs ≤ x ∧ x < q * policy.windowMs + policy.windowMs := by
  refine ⟨x / policy.windowMs, ?_, Nat.div_mul_le_self _ _, Nat.lt_div_mul_add (windowMs_pos policy)⟩
  rw [windowStart, Nat.mul_comm (s.now / policy.windowMs), Nat.mul_add_div (windowMs_pos policy),
    Nat.add_mul, Nat.mul_comm policy.windowMs]

/-- Whether a later check is allowed. -/
theorem Standing.allowed_later (h : Standing t policy s) (ms : Nat) :
    (check (s.later ms) t policy).2.allowed = true
      ↔ Fits policy.limit policy.windowMs
          (s.countOf (t.key (windowStart policy s - policy.windowMs)))
          (s.countOf (t.key (windowStart policy s))) (s.now - windowStart policy s + ms) := by
  have hallowed : (check (s.later ms) t policy).2.allowed = true ↔ 1 ≤ room t policy (s.later ms) := by
    cases hcheck : check (s.later ms) t policy with
    | mk s' decision =>
        have hchecked := check_checked (s.later ms) t policy
        rw [hcheck] at hchecked
        cases hchecked with
        | allowed _ _ fits answered => exact iff_of_true answered fits
        | refused _ _ full answered => exact iff_of_false (by simp [answered]) (not_le.mpr full)
  rw [hallowed]
  have hw := windowMs_pos policy
  have hbegun : windowStart policy s ≤ s.now := Nat.div_mul_le_self _ _
  have hin : s.now < windowStart policy s + policy.windowMs := Nat.lt_div_mul_add hw
  obtain ⟨q, hstart, hle, hlt⟩ := windowStart_add policy s (s.now - windowStart policy s + ms)
  generalize hx : s.now - windowStart policy s + ms = x at hstart hle hlt
  have hnow : s.now + ms = windowStart policy s + x := by omega
  have hwindow : windowStart policy (s.later ms) = windowStart policy s + q * policy.windowMs := by
    rw [← hstart, ← hnow]
    rfl
  have helapsed : (s.later ms).now - windowStart policy (s.later ms) = x - q * policy.windowMs := by
    rw [hwindow]
    show s.now + ms - _ = _
    omega
  rw [room, helapsed, hwindow, Fits]
  match q with
  | 0 =>
      have hless : x < policy.windowMs := by omega
      rw [if_pos hless]
      simp only [Nat.zero_mul, Nat.add_zero, Nat.sub_zero]
      rw [h.countOf_later (by push_cast; omega), h.countOf_later (by push_cast; omega)]
      constructor <;> intro hfits <;> linarith
  | 1 =>
      simp only [Nat.one_mul] at hle hlt ⊢
      have hprevious : ((windowStart policy s + policy.windowMs : Nat) : Int) - policy.windowMs
          = windowStart policy s := by
        omega
      have hcurrent : (s.later ms).countOf
          (t.key ((windowStart policy s + policy.windowMs : Nat) : Int)) = 0 :=
        h.countOf_ahead (by omega)
      rw [if_neg (by omega), if_pos (by omega), hcurrent, hprevious,
        h.countOf_later (by omega), Nat.cast_sub hle]
      push_cast
      constructor <;> intro hfits <;> linarith
  | q + 2 =>
      have htwo : 2 * policy.windowMs ≤ (q + 2) * policy.windowMs :=
        Nat.mul_le_mul_right _ (Nat.le_add_left 2 q)
      generalize (q + 2) * policy.windowMs = behind at hle hlt htwo ⊢
      rw [if_neg (by omega), if_neg (by omega), h.countOf_ahead (by omega),
        h.countOf_ahead (by omega)]
      push_cast
      rw [zero_mul, add_zero, sub_zero]

-- ============================================================== standing keys

theorem Standing.of_keys (h : Standing t policy s) {s' : World} (hkeys : s'.keys = s.keys)
    (hnow : s'.now = s.now) : Standing t policy s' :=
  ⟨fun w e he => h.kept w e (hkeys ▸ he), fun w hw => hkeys ▸ h.begun w (hnow ▸ hw)⟩

theorem Standing.put (h : Standing t policy s) {w : Int} {e : Entry} (hw : w ≤ s.now)
    (hkept : ∀ x ∈ e.expiresAt, w + (2 * policy.windowMs + 1000 : Nat) ≤ x) :
    Standing t policy { s with keys := Function.update s.keys (t.key w) (some e) } := by
  constructor
  · intro w' e' he'
    by_cases hsame : t.key w' = t.key w
    · have hw' : w' = w := congrArg Key.windowStart hsame
      have he : e = e' := by simpa [hsame] using he'
      rw [hw', ← he]
      exact hkept
    · exact h.kept w' e' (by simpa [Function.update_of_ne hsame] using he')
  · intro w' hw'
    have hne : t.key w' ≠ t.key w := by
      intro hsame
      have heq : w' = w := congrArg Key.windowStart hsame
      change (s.now : Int) < w' at hw'
      omega
    show Function.update s.keys (t.key w) (some e) (t.key w') = none
    rw [Function.update_of_ne hne]
    exact h.begun w' hw'

theorem Standing.add (h : Standing t policy s) {w : Int} (hw : w ≤ s.now) (n : Int) :
    Standing t policy (s.add (t.key w) n) := by
  refine h.put hw fun x hx => ?_
  obtain ⟨e, he, hx⟩ := Option.bind_eq_some_iff.mp hx
  exact h.kept w e (Option.filter_eq_some_iff.mp he).1 x hx

theorem Standing.pexpire (h : Standing t policy s) {w : Int} (hw : w ≤ s.now) :
    Standing t policy (s.pexpire (t.key w) (2 * policy.windowMs + 1000)) := by
  rw [World.pexpire]
  split
  next => exact h
  next =>
    refine h.put hw fun x hx => ?_
    rw [← Option.some.inj hx]
    push_cast
    omega

/-- A check leaves the keys standing. -/
theorem Standing.checked (h : Standing t policy s) : Standing t policy (check s t policy).1 := by
  have hbegun : (windowStart policy s : Int) ≤ s.now := by
    exact_mod_cast Nat.div_mul_le_self s.now policy.windowMs
  have hcounted : Standing t policy (counted s t policy) := (h.add hbegun 1).pexpire hbegun
  cases hcheck : check s t policy with
  | mk s' decision =>
      have hchecked := check_checked s t policy
      rw [hcheck] at hchecked
      cases hchecked with
      | allowed _ _ _ _ _ now _ keys => exact hcounted.of_keys keys (by rw [now, now_counted])
      | refused _ _ _ _ _ now _ keys =>
          refine (hcounted.add ?_ (-1)).of_keys keys (by rw [now, now_add, now_counted])
          rw [now_counted]
          exact hbegun

-- ============================================================== the guarantee

/-- What a decision tells is so. -/
structure Exact (s : World) (t : Target) (policy : LimitPolicy) : Prop where
  refused : (check s t policy).2.allowed = false →
    IsLeast {n : Nat | 0 < n
      ∧ (check ((check s t policy).1.later (1000 * n)) t policy).2.allowed = true}
      (check s t policy).2.reset
  allowed : (check s t policy).2.allowed = true →
    ∀ n, allowedOf t policy n (check s t policy).1 = min n (check s t policy).2.remaining

theorem Standing.exact (h : Standing t policy s) (hlimit : 1 ≤ policy.limit) :
    Exact s t policy := by
  have hbegun : windowStart policy s ≤ s.now := Nat.div_mul_le_self _ _
  have hin : s.now < windowStart policy s + policy.windowMs := Nat.lt_div_mul_add (windowMs_pos policy)
  have hstanding := h.checked
  have hnow : (check s t policy).2.allowed = true ↔ Fits policy.limit policy.windowMs
      (s.countOf (t.key (windowStart policy s - policy.windowMs)))
      (s.countOf (t.key (windowStart policy s))) (s.now - windowStart policy s) :=
    h.allowed_later 0
  have hchecked := check_checked s t policy
  cases hcheck : check s t policy with
  | mk s' decision =>
      rw [hcheck] at hchecked hstanding hnow
      cases hchecked with
      | allowed _ _ fits answered remaining now counts keys =>
          refine ⟨fun hno => ?_, fun _ n => ?_⟩
          · rw [hcheck] at hno
            rw [answered] at hno
            cases hno
          · rw [hcheck, allowedOf_eq, room_counted now counts, remaining]
      | refused _ _ full answered reset now counts keys =>
          refine ⟨fun _ => ?_, fun hyes => ?_⟩
          · have hfull : ¬ Fits policy.limit policy.windowMs
                (s.countOf (t.key (windowStart policy s - policy.windowMs)))
                (s.countOf (t.key (windowStart policy s))) (s.now - windowStart policy s) := by
              rw [← hnow, answered]
              exact Bool.false_ne_true
            have hstart : windowStart policy s' = windowStart policy s := by
              simp only [windowStart, now]
            have hlater : ∀ n : Nat, (check (s'.later (1000 * n)) t policy).2.allowed = true
                ↔ Fits policy.limit policy.windowMs
                    (s.countOf (t.key (windowStart policy s - policy.windowMs)))
                    (s.countOf (t.key (windowStart policy s)))
                    (s.now - windowStart policy s + 1000 * n) := by
              intro n
              rw [hstanding.allowed_later, hstart, now, counts, counts]
            rw [hcheck]
            simp only [hlater, reset]
            exact secondsUntilRoom_isLeast hlimit (by omega) hfull
          · rw [hcheck] at hyes
            rw [answered] at hyes
            cases hyes

/-- Two counts, under the keys of this window and the one before, as the
limiter keeps them. -/
def World.ofCounts (t : Target) (policy : LimitPolicy) (now : Nat) (previous current : Int) : World :=
  let start : Nat := now / policy.windowMs * policy.windowMs
  { World.empty now with
    keys := fun k =>
      if k = t.key start then some ⟨current, some (start + (2 * policy.windowMs + 1000))⟩
      else if k = t.key (start - policy.windowMs) then
        some ⟨previous, some (start + (policy.windowMs + 1000))⟩
      else none }

theorem standing_ofCounts (t : Target) (policy : LimitPolicy) (now : Nat) (previous current : Int) :
    Standing t policy (World.ofCounts t policy now previous current) := by
  have hbegun : now / policy.windowMs * policy.windowMs ≤ now := Nat.div_mul_le_self _ _
  constructor
  · intro w e he x hx
    unfold World.ofCounts at he
    simp only at he
    split at he
    next hsame =>
      have hw : w = (now / policy.windowMs * policy.windowMs : Nat) := congrArg Key.windowStart hsame
      cases he
      cases hx
      omega
    next =>
      split at he
      next hsame =>
        have hw : w = (now / policy.windowMs * policy.windowMs : Nat) - policy.windowMs :=
          congrArg Key.windowStart hsame
        cases he
        cases hx
        omega
      next => cases he
  · intro w hw
    change (now : Int) < w at hw
    unfold World.ofCounts
    simp only
    rw [if_neg, if_neg]
    · intro hsame
      have heq : w = (now / policy.windowMs * policy.windowMs : Nat) - policy.windowMs :=
        congrArg Key.windowStart hsame
      omega
    · intro hsame
      have heq : w = (now / policy.windowMs * policy.windowMs : Nat) := congrArg Key.windowStart hsame
      omega

/-- For every policy that lets a request through at all, all counts and
every instant. -/
theorem check_exact (t : Target) (policy : LimitPolicy) (now : Nat) (previous current : Int)
    (hlimit : 1 ≤ policy.limit) : Exact (World.ofCounts t policy now previous current) t policy :=
  (standing_ofCounts t policy now previous current).exact hlimit

/-- A limit, a second long. -/
def perSecond (limit : ℚ) (h : 0 ≤ limit) : LimitPolicy := ⟨limit, 1, h, by decide⟩

def anyone : Target := ⟨.requests, .organization "o"⟩

theorem check_exact_one :
    Exact (World.ofCounts anyone (perSecond 1 (by decide)) 500 1 1) anyone (perSecond 1 (by decide)) :=
  check_exact anyone (perSecond 1 (by decide)) 500 1 1 (by decide)

/-- With a limit of zero there is no such second. -/
theorem check_zero : ¬ Exact (World.ofCounts anyone (perSecond 0 (by decide)) 0 0 0) anyone
    (perSecond 0 (by decide)) := by
  intro h
  have hleast := h.refused (by decide +kernel)
  exact absurd hleast.1.2 (by decide +kernel)

end Nacre.Limits
