/-
The effective principals of a request, from the cache or from the
memberships: `loadGroupsVersion` and `PostgresGroupGraph.load`
(core/authz/store.ts), `cachedEffectivePrincipals` (core/authz/cache.ts)
and `principalsFor`, which calls them one after the other
(api/src/adapters.ts).

# Instants

Something is committed between two instants, and a statement reads what
was committed at the instant it runs: two statements of one transaction
read two instants. A change of an organization's memberships raises its
`groups_version` by one for every row it touches, in the transaction that
makes it, and the organization's row is locked until that transaction
ends; so the version never goes down, and while it stays the memberships
stay (`Moved`).

# The entry is never older than its key

A request that finds nothing under its version loads the memberships
afterwards and writes what it computed under the version it read before.
So an entry may be newer than its key says, and the request it is returned
to may have read its version after the entry was written. Either the
memberships were loaded after that, or no change was committed in between,
for the version would have moved (`Written.current`).

The cache answers nothing, fails, or returns a value that was written
under the key; when a value is gone is not modelled. The version is a
number without a bound.
-/
import Mathlib.Data.List.Perm.Basic
import Nacre.Authz.Principals
import Nacre.Lib.Json
import Nacre.Lib.Transition

namespace Nacre.Authz.Cached

open Transition

-- ================================================================= state

/-- What is committed of an organization. -/
structure Org where
  members : List MemberRow
  groupsVersion : Nat

def principalsCacheKey (caller : Caller) (groupsVersion : Nat) : String :=
  "acl:principals:" ++ caller.orgId ++ ":" ++ caller.principal.type.tag ++ ":"
    ++ caller.principal.id ++ ":v" ++ toString groupsVersion

/-- `JSON.stringify([...principals])`. -/
def text (principals : List PrincipalRef) : List UInt16 :=
  (Json.array (principals.map fun ref => .string (Js.codeUnits ref))).stringify

/-- `new Set(JSON.parse(hit))`, if that is an array of strings. -/
def parse (hit : List UInt16) : Option (List PrincipalRef) :=
  (Json.parseStrings hit).map (·.map Js.toWellFormed)

inductive Flight where
  /-- The version is read, and the cache is asked. -/
  | asking (caller : Caller) (readAt groupsVersion : Nat)
  /-- The memberships are to be loaded. -/
  | loading (caller : Caller) (readAt groupsVersion : Nat)
  /-- The principals are to be written to the cache, and returned. -/
  | writing (caller : Caller) (readAt groupsVersion : Nat) (principals : List PrincipalRef)
  deriving DecidableEq

/-- What a request was told, and the instant it read its version at. -/
structure Answer where
  caller : Caller
  readAt : Nat
  principals : List PrincipalRef
  deriving DecidableEq

structure World where
  instant : Nat
  /-- What was committed at each instant up to now. -/
  past : Nat → String → Org
  flights : List Flight
  /-- What was ever written to the cache. -/
  written : List (String × List UInt16)
  answers : List Answer

/-- What is committed now. -/
def World.now (s : World) : String → Org := s.past s.instant

def init (s : World) : Prop :=
  s.instant = 0 ∧ s.flights = [] ∧ s.written = [] ∧ s.answers = []

inductive Action where
  /-- A change of the memberships that touches one row, or `more`. -/
  | change (orgId : String) (members : List MemberRow) (more : Nat)
  | loadGroupsVersion (caller : Caller)
  | hit (caller : Caller) (readAt groupsVersion : Nat) (value : List UInt16)
  /-- The cache has nothing, or fails. -/
  | miss (caller : Caller) (readAt groupsVersion : Nat)
  /-- The rows come in no order. -/
  | load (caller : Caller) (readAt groupsVersion : Nat) (rows : List MemberRow)
  /-- `cache.set`, which may fail. -/
  | set (caller : Caller) (readAt groupsVersion : Nat) (principals : List PrincipalRef)
      (stored : Bool)
  | drop (g : Flight)

def World.replace (s : World) (g : Flight) (new : List Flight) : World :=
  { s with flights := new ++ s.flights.erase g }

/-- The request is told, and ends. -/
def World.answer (s : World) (g : Flight) (a : Answer) : World :=
  { s.replace g [] with answers := a :: s.answers }

def step (s : World) : Action → Option World
  | .change orgId members more =>
      some { s with
        instant := s.instant + 1
        past := Function.update s.past (s.instant + 1) (Function.update s.now orgId
          ⟨members, (s.now orgId).groupsVersion + 1 + more⟩) }
  | .loadGroupsVersion caller =>
      some { s with
        flights := .asking caller s.instant (s.now caller.orgId).groupsVersion :: s.flights }
  | .hit caller readAt groupsVersion value =>
      if .asking caller readAt groupsVersion ∈ s.flights
          ∧ (principalsCacheKey caller groupsVersion, value) ∈ s.written then
        match parse value with
        | some principals =>
            some (s.answer (.asking caller readAt groupsVersion) ⟨caller, readAt, principals⟩)
        | none =>
            some (s.replace (.asking caller readAt groupsVersion)
              [.loading caller readAt groupsVersion])
      else none
  | .miss caller readAt groupsVersion =>
      if .asking caller readAt groupsVersion ∈ s.flights then
        some (s.replace (.asking caller readAt groupsVersion)
          [.loading caller readAt groupsVersion])
      else none
  | .load caller readAt groupsVersion rows =>
      if .loading caller readAt groupsVersion ∈ s.flights
          ∧ rows.Perm (s.now caller.orgId).members then
        some (s.replace (.loading caller readAt groupsVersion)
          [.writing caller readAt groupsVersion (effectivePrincipals caller.principal rows)])
      else none
  | .set caller readAt groupsVersion principals stored =>
      if .writing caller readAt groupsVersion principals ∈ s.flights then
        some { s.answer (.writing caller readAt groupsVersion principals)
            ⟨caller, readAt, principals⟩ with
          written := if stored then
              (principalsCacheKey caller groupsVersion, text principals) :: s.written
            else s.written }
      else none
  | .drop g => if g ∈ s.flights then some (s.replace g []) else none

-- ============================================================ what it means

/-- These are the effective principals of the memberships at an instant. -/
def World.effectiveAt (s : World) (caller : Caller) (t : Nat) (principals : List PrincipalRef) :
    Prop :=
  ∀ ref, ref ∈ principals
    ↔ ref ∈ effectivePrincipals caller.principal (s.past t caller.orgId).members

/-- What a request is told was so when it read its version, or later. -/
def Fresh (s : World) : Prop :=
  ∀ a ∈ s.answers, ∃ t, a.readAt ≤ t ∧ t ≤ s.instant ∧ s.effectiveAt a.caller t a.principals

-- =============================================================== the cache

variable {s s' : World} {a : Action}

theorem parse_text (principals : List PrincipalRef) : parse (text principals) = some principals := by
  have htext : text principals
      = Json.stringify (.array ((principals.map Js.codeUnits).map .string)) := by
    unfold text
    rw [List.map_map]
    rfl
  have hback : (principals.map Js.codeUnits).map Js.toWellFormed = principals := by
    rw [List.map_map]
    exact (List.map_congr_left fun ref _ => Js.toWellFormed_codeUnits ref).trans (List.map_id _)
  unfold parse
  rw [htext, Json.parseStrings_stringify, Option.map_some, hback]

theorem toList_principalsCacheKey (caller : Caller) (v : Nat) :
    (principalsCacheKey caller v).toList = "acl:principals:".toList ++ (caller.orgId.toList
      ++ ':' :: (caller.principal.type.tag.toList ++ ':' :: (caller.principal.id.toList
        ++ ':' :: 'v' :: (toString v).toList))) := by
  have hcolon : ":".toList = [':'] := rfl
  have hversion : ":v".toList = [':', 'v'] := rfl
  unfold principalsCacheKey
  rw [String.toList_append, String.toList_append, String.toList_append, String.toList_append,
    String.toList_append, String.toList_append, String.toList_append, hcolon, hversion]
  simp only [List.append_assoc, List.cons_append, List.nil_append]

/-- A key says whose it is, and the version. -/
theorem principalsCacheKey_inj {caller caller' : Caller} {v v' : Nat}
    (h : principalsCacheKey caller v = principalsCacheKey caller' v') :
    caller = caller' ∧ v = v' := by
  have hlist := congrArg String.toList h
  rw [toList_principalsCacheKey, toList_principalsCacheKey] at hlist
  have hrest := List.append_cancel_left hlist
  obtain ⟨horg, hrest⟩ := Js.joined_inj caller.plain.1 caller'.plain.1 hrest
  obtain ⟨htype, hrest⟩ := Js.joined_inj (tag_plain _) (tag_plain _) hrest
  obtain ⟨hid, hrest⟩ := Js.joined_inj caller.plain.2 caller'.plain.2 hrest
  have hdigits : Nat.toDigits 10 v = Nat.toDigits 10 v' := by
    rw [← Nat.toList_repr, ← Nat.toList_repr]
    exact (List.cons.inj hrest).2
  have hversion : v = v' := by
    rw [← Nat.ofDigitChars_ten_toDigits (n := v), hdigits, Nat.ofDigitChars_ten_toDigits]
  refine ⟨?_, hversion⟩
  obtain ⟨orgId, principal, plain⟩ := caller
  obtain ⟨orgId', principal', plain'⟩ := caller'
  obtain ⟨type, id⟩ := principal
  obtain ⟨type', id'⟩ := principal'
  cases String.toList_inj.1 horg
  cases tag_inj (String.toList_inj.1 htype)
  cases String.toList_inj.1 hid
  rfl

-- ============================================================ the instants

/-- The version never goes down, and while it stays the memberships
stay. -/
def Moved (s : World) : Prop :=
  ∀ orgId t t', t ≤ t' → t' ≤ s.instant →
    (s.past t orgId).groupsVersion ≤ (s.past t' orgId).groupsVersion
      ∧ ((s.past t orgId).groupsVersion = (s.past t' orgId).groupsVersion →
          (s.past t orgId).members = (s.past t' orgId).members)

/-- A flight knows the version of an instant, and what it computed is of
an instant that came after. -/
def Flight.Known (s : World) : Flight → Prop
  | .asking caller readAt v => readAt ≤ s.instant ∧ (s.past readAt caller.orgId).groupsVersion = v
  | .loading caller readAt v =>
      readAt ≤ s.instant ∧ (s.past readAt caller.orgId).groupsVersion = v
  | .writing caller readAt v principals =>
      (s.past readAt caller.orgId).groupsVersion = v
        ∧ ∃ t, readAt ≤ t ∧ t ≤ s.instant ∧ s.effectiveAt caller t principals

/-- An entry is of an instant that came after one of its version. -/
def Written (s : World) (e : String × List UInt16) : Prop :=
  ∃ caller readAt t principals,
    e = (principalsCacheKey caller (s.past readAt caller.orgId).groupsVersion, text principals)
      ∧ readAt ≤ t ∧ t ≤ s.instant ∧ s.effectiveAt caller t principals

structure Current (s : World) : Prop where
  moved : Moved s
  flights : ∀ g ∈ s.flights, g.Known s
  written : ∀ e ∈ s.written, Written s e
  answers : Fresh s

/-- What an entry holds was so when a request of its version read it, or
later. -/
theorem Written.current (hmoved : Moved s) {caller : Caller} {readAt : Nat} {value : List UInt16}
    {principals : List PrincipalRef} (hread : readAt ≤ s.instant)
    (h : Written s (principalsCacheKey caller (s.past readAt caller.orgId).groupsVersion, value))
    (hparse : parse value = some principals) :
    ∃ t, readAt ≤ t ∧ t ≤ s.instant ∧ s.effectiveAt caller t principals := by
  obtain ⟨caller', readAt', t, principals', heq, hafter, hpast, heffective⟩ := h
  obtain ⟨hkey, rfl⟩ := Prod.mk.inj heq
  obtain ⟨rfl, hversion⟩ := principalsCacheKey_inj hkey
  rw [parse_text] at hparse
  cases hparse
  rcases Nat.le_total readAt t with hlater | hearlier
  · exact ⟨t, hlater, hpast, heffective⟩
  · -- the version stood from the writer's reading to the reader's
    refine ⟨readAt, Nat.le_refl _, hread, fun ref => ?_⟩
    have hup := (hmoved caller.orgId readAt' t hafter hpast).1
    have hon := hmoved caller.orgId t readAt hearlier hread
    have hsame := hon.2 (by omega)
    rw [← hsame]
    exact heffective ref

-- ============================================================== the steps

/-- What was committed stays as it was. -/
structure Later (s s' : World) : Prop where
  instant : s.instant ≤ s'.instant
  past : ∀ t ≤ s.instant, s'.past t = s.past t

theorem Later.effectiveAt (h : Later s s') {caller : Caller} {t : Nat}
    {principals : List PrincipalRef} (ht : t ≤ s.instant)
    (heffective : s.effectiveAt caller t principals) : s'.effectiveAt caller t principals := by
  unfold World.effectiveAt
  rw [h.past t ht]
  exact heffective

theorem Later.known (h : Later s s') {g : Flight} (hg : g.Known s) : g.Known s' := by
  cases g with
  | asking caller readAt v =>
      refine ⟨hg.1.trans h.instant, ?_⟩
      rw [h.past readAt hg.1]
      exact hg.2
  | loading caller readAt v =>
      refine ⟨hg.1.trans h.instant, ?_⟩
      rw [h.past readAt hg.1]
      exact hg.2
  | writing caller readAt v principals =>
      obtain ⟨hversion, t, hafter, ht, heffective⟩ := hg
      refine ⟨?_, t, hafter, ht.trans h.instant, h.effectiveAt ht heffective⟩
      rw [h.past readAt (hafter.trans ht)]
      exact hversion

theorem Later.written (h : Later s s') {e : String × List UInt16} (he : Written s e) :
    Written s' e := by
  obtain ⟨caller, readAt, t, principals, heq, hafter, ht, heffective⟩ := he
  refine ⟨caller, readAt, t, principals, ?_, hafter, ht.trans h.instant,
    h.effectiveAt ht heffective⟩
  rw [h.past readAt (hafter.trans ht)]
  exact heq

theorem Later.fresh (h : Later s s') (hs : Fresh s) (hsame : s'.answers = s.answers) :
    Fresh s' := by
  intro a ha
  rw [hsame] at ha
  obtain ⟨t, hafter, ht, heffective⟩ := hs a ha
  exact ⟨t, hafter, ht.trans h.instant, h.effectiveAt ht heffective⟩

theorem Current.change (h : Current s) (orgId : String) (members : List MemberRow) (more : Nat) :
    Current { s with
      instant := s.instant + 1
      past := Function.update s.past (s.instant + 1) (Function.update s.now orgId
        ⟨members, (s.now orgId).groupsVersion + 1 + more⟩) } := by
  have hlater : Later s { s with
      instant := s.instant + 1
      past := Function.update s.past (s.instant + 1) (Function.update s.now orgId
        ⟨members, (s.now orgId).groupsVersion + 1 + more⟩) } := by
    refine ⟨Nat.le_succ _, fun t ht => ?_⟩
    exact Function.update_of_ne (Nat.ne_of_lt (Nat.lt_succ_of_le ht)) ..
  refine ⟨fun org t t' ht ht' => ?_, fun g hg => hlater.known (h.flights g hg),
    fun e he => hlater.written (h.written e he), hlater.fresh h.answers rfl⟩
  dsimp only at ht' ⊢
  rcases Nat.lt_or_ge s.instant t' with hnew | hold
  · obtain rfl : t' = s.instant + 1 := by omega
    rw [Function.update_self]
    rcases Nat.lt_or_ge s.instant t with hnew' | hold'
    · obtain rfl : t = s.instant + 1 := by omega
      rw [Function.update_self]
      exact ⟨Nat.le_refl _, fun _ => rfl⟩
    · rw [Function.update_of_ne (by omega)]
      have hbefore := h.moved org t s.instant hold' (Nat.le_refl _)
      by_cases horg : org = orgId
      · subst horg
        rw [Function.update_self]
        have hup : (s.past t org).groupsVersion ≤ (s.now org).groupsVersion := hbefore.1
        refine ⟨?_, fun heq => ?_⟩
        · show _ ≤ (s.now org).groupsVersion + 1 + more
          omega
        · change _ = (s.now org).groupsVersion + 1 + more at heq
          omega
      · rw [Function.update_of_ne horg]
        exact hbefore
  · rw [Function.update_of_ne (by omega), Function.update_of_ne (by omega)]
    exact h.moved org t t' ht hold

/-- Nothing is committed: a flight takes another's place. -/
theorem Current.replace (h : Current s) {g : Flight} {new : List Flight}
    (hnew : ∀ g' ∈ new, g'.Known s) : Current (s.replace g new) := by
  refine ⟨h.moved, fun g' hg' => ?_, h.written, h.answers⟩
  rcases List.mem_append.1 hg' with hin | hin
  · exact hnew g' hin
  · exact h.flights g' (List.mem_of_mem_erase hin)

/-- A request is told what was so since it read its version. -/
theorem Current.answer (h : Current s) {g : Flight} {caller : Caller} {readAt : Nat}
    {principals : List PrincipalRef}
    (hfresh : ∃ t, readAt ≤ t ∧ t ≤ s.instant ∧ s.effectiveAt caller t principals) :
    Current (s.answer g ⟨caller, readAt, principals⟩) := by
  have hgone : Current (s.replace g []) := h.replace fun _ h => nomatch h
  refine ⟨h.moved, hgone.flights, h.written, fun a ha => ?_⟩
  rcases List.mem_cons.1 ha with rfl | hold
  · exact hfresh
  · exact h.answers a hold

theorem Current.step (h : Current s) (hs : step s a = some s') : Current s' := by
  cases a with
  | change orgId members more =>
      cases hs
      exact h.change orgId members more
  | loadGroupsVersion caller =>
      cases hs
      refine ⟨h.moved, fun g hg => ?_, h.written, h.answers⟩
      rcases List.mem_cons.1 hg with rfl | hold
      · exact ⟨Nat.le_refl _, rfl⟩
      · exact h.flights g hold
  | hit caller readAt v value =>
      simp only [Cached.step, Option.ite_none_right_eq_some] at hs
      obtain ⟨⟨hflight, hwritten⟩, hs⟩ := hs
      obtain ⟨hread, hversion⟩ := h.flights _ hflight
      split at hs
      next principals hparse =>
        cases hs
        refine h.answer ?_
        rw [← hversion] at hwritten
        exact (h.written _ hwritten).current h.moved hread hparse
      next =>
        cases hs
        refine h.replace fun g hg => ?_
        cases List.mem_singleton.1 hg
        exact ⟨hread, hversion⟩
  | miss caller readAt v =>
      simp only [Cached.step, Option.ite_none_right_eq_some] at hs
      obtain ⟨hflight, hs⟩ := hs
      obtain ⟨hread, hversion⟩ := h.flights _ hflight
      cases hs
      refine h.replace fun g hg => ?_
      cases List.mem_singleton.1 hg
      exact ⟨hread, hversion⟩
  | load caller readAt v rows =>
      simp only [Cached.step, Option.ite_none_right_eq_some] at hs
      obtain ⟨⟨hflight, hrows⟩, hs⟩ := hs
      obtain ⟨hread, hversion⟩ := h.flights _ hflight
      cases hs
      refine h.replace fun g hg => ?_
      cases List.mem_singleton.1 hg
      exact ⟨hversion, s.instant, hread, Nat.le_refl _, fun ref => effectivePrincipals_perm hrows⟩
  | set caller readAt v principals stored =>
      simp only [Cached.step, Option.ite_none_right_eq_some] at hs
      obtain ⟨hflight, hs⟩ := hs
      obtain ⟨hversion, t, hafter, ht, heffective⟩ := h.flights _ hflight
      cases hs
      have htold : Current (s.answer (.writing caller readAt v principals)
          ⟨caller, readAt, principals⟩) := h.answer ⟨t, hafter, ht, heffective⟩
      refine ⟨h.moved, htold.flights, fun e he => ?_, htold.answers⟩
      dsimp only at he
      split at he
      next =>
        rcases List.mem_cons.1 he with rfl | hold
        · refine ⟨caller, readAt, t, principals, ?_, hafter, ht, heffective⟩
          rw [← hversion]
          rfl
        · exact h.written e hold
      next => exact h.written e he
  | drop g =>
      simp only [Cached.step, Option.ite_none_right_eq_some] at hs
      cases hs.2
      exact h.replace fun _ h => nomatch h

theorem current_init (hs : init s) : Current s := by
  obtain ⟨hinstant, hflights, hwritten, hanswers⟩ := hs
  refine ⟨fun org t t' ht ht' => ?_, ?_, ?_, ?_⟩
  · rw [hinstant] at ht'
    obtain rfl : t = t' := by omega
    exact ⟨Nat.le_refl _, fun _ => rfl⟩
  · rw [hflights]
    exact fun _ h => nomatch h
  · rw [hwritten]
    exact fun _ h => nomatch h
  · unfold Fresh
    rw [hanswers]
    exact fun _ h => nomatch h

/-- What a request is told are the effective principals of the memberships
at an instant no earlier than its reading of the version. -/
theorem principals_fresh (hrun : Reachable step anyStep init s) : Fresh s :=
  Current.answers <| hrun.invariant (fun _ => current_init) fun _ _ _ h _ hs => h.step hs

def ann : Caller := ⟨"o", ⟨.user, "ann"⟩, by decide⟩

/-- An organization with one member in one group. -/
def World.start : World where
  instant := 0
  past _ _ := ⟨[⟨"g", some "ann", none⟩], 1⟩
  flights := []
  written := []
  answers := []

/-- Two requests of hers read the version; she is put in another group;
the first loads that and writes it, and the second is returned it. -/
def newerActs : List Action :=
  let rows : List MemberRow := [⟨"h", some "ann", none⟩, ⟨"k", none, some "h"⟩]
  let principals := ["user:ann", "group:h", "group:k"]
  [.loadGroupsVersion ann, .loadGroupsVersion ann, .miss ann 0 1, .change "o" rows 1,
    .load ann 0 1 rows, .set ann 0 1 principals true, .hit ann 0 1 (text principals)]

def newerWorld : World := (runWithin step anyStep World.start newerActs).get (by decide +kernel)

theorem principals_fresh_newer :
    newerWorld.answers.map (·.principals)
        = List.replicate 2 ["user:ann", "group:h", "group:k"]
      ∧ Fresh newerWorld :=
  ⟨by decide +kernel, principals_fresh (reachable_get ⟨rfl, rfl, rfl, rfl⟩ _)⟩

end Nacre.Authz.Cached
