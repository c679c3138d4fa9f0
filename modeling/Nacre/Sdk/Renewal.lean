/-
One exchange for a token that expired.

# What holds of every run

A request is replayed once, with the newest token, and every pair that
arrives is reported (`Replayed`). Where the server answers every exchange, a
refresh token is presented once: it is replaced, or dropped, before there is
another renewal (`Presented`).

# What can go wrong

The renewal in flight is what keeps a burst to one exchange. A request that
was sent with the old token and learns of its 401 after the renewal has
settled finds none in flight, and starts another.

# The condition

`Prompt`: a 401 that starts a renewal is about the token the client has. In
runs of this kind every token that was replaced had its exchange
(`Exchanged`), and so has every token that was answered 401.
-/
import Nacre.Sdk.Client

namespace Nacre.Sdk

open Transition

variable {w w' : World}

-- =========================================================== the property

/-- The requests that were replayed. -/
def World.replays (w : World) : List Nat :=
  (w.sends.filter fun s => s.replay && s.attempt = 1).map (·.request)

/-- The access tokens there was an exchange for. -/
def World.causes (w : World) : List AccessToken := w.exchanges.map (·.cause)

/-- The refresh tokens that were presented. -/
def World.presented (w : World) : List RefreshToken := w.exchanges.map (·.refresh)

/-- What the client promises. -/
structure Promised (w : World) : Prop where
  /-- No refresh token is presented twice. -/
  presented : w.presented.Nodup
  /-- There is at most one exchange for an access token, -/
  single : w.causes.Nodup
  /-- and one for every token that was answered 401. -/
  burst : ∀ t ∈ w.refusals, t ∈ w.causes
  replayed : w.replays.Nodup
  newest : ∀ s ∈ w.sends, s.replay = true → s.token = s.newest
  reported : w.reported = w.received

-- ========================================================== the condition

/-- The server answers every exchange. -/
def Answering (_ : World) : Action → Prop
  | .fail _ => False
  | _ => True

instance (w : World) (a : Action) : Decidable (Answering w a) :=
  match a with
  | .fail _ => inferInstanceAs (Decidable False)
  | .request .. | .answer .. | .wake _ | .serve .. | .receive _ | .resume _ =>
      inferInstanceAs (Decidable True)

/-- The 401 would start a renewal, and is about a token the client no longer
has. -/
def World.stale (w : World) (req : Request) (response : Response) : Bool :=
  match req.phase with
  | .sent _ token false =>
      response.unauthorized && !req.options.noAuthRefresh && w.refreshToken.isSome
        && w.renewing.isNone && token ≠ w.token
  | _ => false

/-- No renewal is started by a 401 about a token that was replaced. -/
def Prompt (w : World) : Action → Prop
  | .answer i response _ => ∀ req ∈ w.requests i, w.stale req response = false
  | _ => True

instance (w : World) (a : Action) : Decidable (Prompt w a) :=
  match a with
  | .answer i response _ =>
      inferInstanceAs (Decidable (∀ req ∈ w.requests i, w.stale req response = false))
  | .request .. | .wake _ | .serve .. | .receive _ | .fail _ | .resume _ =>
      inferInstanceAs (Decidable True)

def Orderly (w : World) (a : Action) : Prop := Answering w a ∧ Prompt w a

instance (w : World) (a : Action) : Decidable (Orderly w a) :=
  inferInstanceAs (Decidable (Answering w a ∧ Prompt w a))

-- ============================================================== the replays

/-- The request has been replayed, or is past it. -/
def Phase.past : Phase → Bool
  | .sent _ _ replay => replay
  | .sleeping _ replay => replay
  | .waiting _ => false
  | .done => true

/-- The try it is at. -/
def Phase.attempt : Phase → Nat
  | .sent attempt _ _ => attempt
  | .sleeping attempt _ => attempt
  | _ => 1

structure Replayed (w : World) : Prop where
  nodup : w.replays.Nodup
  past : ∀ {i}, i ∈ w.replays → ∃ req, w.requests i = some req ∧ req.phase.past = true
  attempts : ∀ {i req}, w.requests i = some req → 0 < req.phase.attempt
  newest : w.token = w.newest
  sends : ∀ s ∈ w.sends, s.token = s.newest
  reported : w.reported = w.received

/-- Nothing is sent: a request goes on, and is replayed if it was. -/
theorem Replayed.put (h : Replayed w) {i : Nat} {req : Request} {phase : Phase}
    (hi : w.requests i = some req) (hpast : req.phase.past = true → phase.past = true)
    (hattempt : 0 < phase.attempt) : Replayed (w.put i req phase) := by
  refine ⟨h.nodup, ?_, ?_, h.newest, h.sends, h.reported⟩
  · intro j hj
    obtain ⟨req', hreq', hpast'⟩ := h.past hj
    by_cases hij : j = i
    · subst hij
      rw [hi] at hreq'
      cases hreq'
      exact ⟨_, Function.update_self _ _ _, hpast hpast'⟩
    · exact ⟨req', (Function.update_of_ne hij _ _).trans hreq', hpast'⟩
  · intro j req' hreq'
    obtain ⟨-, rfl⟩ | ⟨-, hreq'⟩ := Table.update_cases hreq'
    · exact hattempt
    · exact h.attempts hreq'

/-- The requests and what was sent are as they were. -/
theorem Replayed.carry (h : Replayed w) (hrequests : w'.requests = w.requests)
    (hsends : w'.sends = w.sends) (hnewest : w'.token = w'.newest)
    (hreported : w'.reported = w'.received) : Replayed w' := by
  have hreplays : w'.replays = w.replays := by
    unfold World.replays
    rw [hsends]
  refine ⟨?_, ?_, ?_, hnewest, ?_, hreported⟩
  · rw [hreplays]
    exact h.nodup
  · rw [hreplays, hrequests]
    exact h.past
  · rw [hrequests]
    exact h.attempts
  · rw [hsends]
    exact h.sends

theorem replays_send {i attempt : Nat} {req : Request} {replay : Bool} :
    (w.send i req attempt replay).replays
      = if replay = true ∧ attempt = 1 then i :: w.replays else w.replays := by
  simp only [World.replays, World.send, List.filter_cons, Bool.and_eq_true, decide_eq_true_eq]
  split <;> rfl

/-- A request is sent: the first time it is replayed, or another. -/
theorem Replayed.send (h : Replayed w) {i attempt : Nat} {req : Request} {replay : Bool}
    (hattempt : 0 < attempt) (hfirst : replay = true → attempt = 1 → i ∉ w.replays)
    (hpast : i ∈ w.replays → replay = true) : Replayed (w.send i req attempt replay) := by
  constructor
  · rw [replays_send]
    split
    next hboth => exact List.nodup_cons.mpr ⟨hfirst hboth.1 hboth.2, h.nodup⟩
    next => exact h.nodup
  · intro j hj
    by_cases hij : j = i
    · subst hij
      refine ⟨_, Function.update_self _ _ _, ?_⟩
      show replay = true
      rw [replays_send] at hj
      split at hj
      next hboth => exact hboth.1
      next => exact hpast hj
    · have hj : j ∈ w.replays := by
        rw [replays_send] at hj
        split at hj
        next => exact (List.mem_cons.mp hj).resolve_left hij
        next => exact hj
      obtain ⟨req', hreq', hpast'⟩ := h.past hj
      exact ⟨req', (Function.update_of_ne hij _ _).trans hreq', hpast'⟩
  · intro j req' hreq'
    obtain ⟨-, rfl⟩ | ⟨-, hreq'⟩ := Table.update_cases hreq'
    · exact hattempt
    · exact h.attempts hreq'
  · exact h.newest
  · intro s hs
    obtain rfl | hs := List.mem_cons.mp hs
    · exact h.newest
    · exact h.sends s hs
  · exact h.reported

/-- A request that is not past its replay was not replayed. -/
theorem Replayed.not_past (h : Replayed w) {i : Nat} {req : Request} (hi : w.requests i = some req)
    (hpast : req.phase.past = false) : i ∉ w.replays := by
  intro hmem
  obtain ⟨req', hreq', hpast'⟩ := h.past hmem
  rw [hi] at hreq'
  cases hreq'
  rw [hpast] at hpast'
  cases hpast'

theorem replayed_step {act : Action} (h : Replayed w) (hmoved : Moved w act w') :
    Replayed w' := by
  cases hmoved with
  | request i options hi =>
      refine h.send Nat.one_pos nofun fun hmem => ?_
      obtain ⟨req, hreq, -⟩ := h.past hmem
      rw [hi] at hreq
      cases hreq
  | close act i req hi => exact h.put hi (fun _ => rfl) Nat.one_pos
  | sleep i response aborted req attempt token replay hi hphase =>
      have hattempt : 0 < req.phase.attempt := h.attempts hi
      rw [hphase] at hattempt
      exact h.put hi (by rw [hphase]; exact id) hattempt
  | join i response aborted req attempt token k refresh hi hphase =>
      have hput : Replayed (w.put i req (.waiting k)) :=
        h.put hi (by rw [hphase]; exact id) Nat.one_pos
      exact hput.carry rfl rfl hput.newest hput.reported
  | start i response aborted req attempt token refresh hi hphase =>
      have hput : Replayed (w.put i req (.waiting w.exchanges.length)) :=
        h.put hi (by rw [hphase]; exact id) Nat.one_pos
      exact hput.carry rfl rfl hput.newest hput.reported
  | wake i req attempt replay hi hphase =>
      have hattempt : 0 < req.phase.attempt := h.attempts hi
      rw [hphase] at hattempt
      have hattempt : 0 < attempt := hattempt
      refine h.send (Nat.succ_pos _) (fun _ hone => by omega) fun hmem => ?_
      obtain ⟨req', hreq', hpast⟩ := h.past hmem
      rw [hi] at hreq'
      cases hreq'
      rw [hphase] at hpast
      exact hpast
  | serve k grant presented hk =>
      refine h.carry ?_ ?_ ?_ ?_ <;> unfold World.serve World.issue <;> dsimp only <;> split
      · rfl
      · rfl
      · rfl
      · rfl
      · exact h.newest
      · exact h.newest
      · exact h.reported
      · exact h.reported
  | receive k presented answer hk =>
      cases answer with
      | tokens t => exact h.carry rfl rfl rfl (by rw [show (w.renewed k (.tokens t)).reported
          = t :: w.reported from rfl, h.reported]; rfl)
      | gate => exact h.carry rfl rfl h.newest h.reported
      | refused => exact h.carry rfl rfl h.newest h.reported
  | fail k => exact h.carry rfl rfl h.newest h.reported
  | replay i req k hi hphase =>
      exact h.send Nat.one_pos (fun _ _ => h.not_past hi (by rw [hphase]; rfl)) fun _ => rfl

-- ======================================================= what is presented

/-- What the server says of an exchange. -/
def World.said (w : World) (presented : RefreshToken) (grant : Answer) : Answer :=
  (w.server.exchange presented grant).2

/-- A pair is what would be granted. -/
theorem said_tokens {presented : RefreshToken} {grant : Answer} {t : Tokens}
    (h : w.said presented grant = .tokens t) : grant = .tokens t := by
  unfold World.said Server.exchange at h
  split at h
  next => cases h
  next =>
    split at h
    next => cases grant <;> first | cases h; rfl | cases h
    next => cases h

theorem serve_eq (k : Nat) (presented : RefreshToken) (grant : Answer) :
    w.serve k presented grant =
      { w.issue (w.said presented grant) with
        server := (w.server.exchange presented grant).1
        renewals := Function.update w.renewals k
          (some (.answered presented (w.said presented grant))) } := rfl

/-- The renewals, after a step that settles one. -/
theorem renewals_settle {k j : Nat} {renewed : Bool} {R : Renewal} {r : RefreshToken}
    (h : (w.settle k renewed).renewals j = some R) (hr : R.presents = some r) :
    j ≠ k ∧ w.renewals j = some R := by
  obtain ⟨-, rfl⟩ | ⟨hjk, h⟩ := Table.update_cases h
  · cases hr
  · exact ⟨hjk, h⟩

structure Presented (w : World) : Prop where
  opened : ∀ {k R r}, w.renewals k = some R → R.presents = some r →
    w.renewing = some k ∧ w.refreshToken = some r
  flying : ∀ {k}, w.renewing = some k → ∃ R r, w.renewals k = some R ∧ R.presents = some r
  idle : w.renewing = none → ∀ r, w.refreshToken = some r → r ∉ w.presented
  nodup : w.presented.Nodup
  held : ∀ r, w.refreshToken = some r → r ∈ w.issuedRefresh
  issued : ∀ r ∈ w.presented, r ∈ w.issuedRefresh
  granted : ∀ {k r t}, w.renewals k = some (.answered r (.tokens t)) →
    t.refreshToken ∈ w.issuedRefresh ∧ t.refreshToken ∉ w.presented

/-- Nothing of the renewals is touched. -/
theorem Presented.carry (h : Presented w) (hrenewing : w'.renewing = w.renewing)
    (hrenewals : w'.renewals = w.renewals) (hrefresh : w'.refreshToken = w.refreshToken)
    (hexchanges : w'.exchanges = w.exchanges) (hissued : w'.issuedRefresh = w.issuedRefresh) :
    Presented w' := by
  have hpresented : w'.presented = w.presented := by
    unfold World.presented
    rw [hexchanges]
  constructor
  · rw [hrenewals, hrenewing, hrefresh]
    exact h.opened
  · rw [hrenewals, hrenewing]
    exact h.flying
  · rw [hrenewing, hrefresh, hpresented]
    exact h.idle
  · rw [hpresented]
    exact h.nodup
  · rw [hrefresh, hissued]
    exact h.held
  · rw [hpresented, hissued]
    exact h.issued
  · rw [hrenewals, hissued, hpresented]
    exact h.granted

/-- Nothing is open while nothing is in flight. -/
theorem Presented.closed (h : Presented w) (hnone : w.renewing = none) {k : Nat} {R : Renewal}
    {r : RefreshToken} (hk : w.renewals k = some R) : R.presents ≠ some r := by
  intro hr
  obtain ⟨hsome, -⟩ := h.opened hk hr
  rw [hnone] at hsome
  cases hsome

theorem Presented.renew (h : Presented w) (hnone : w.renewing = none) {cause : AccessToken}
    {refresh : RefreshToken} (hrefresh : w.refreshToken = some refresh) :
    Presented (w.renew cause refresh) := by
  have hnew : refresh ∉ w.presented := h.idle hnone refresh hrefresh
  constructor
  · intro k R r hk hr
    obtain ⟨rfl, rfl⟩ | ⟨-, hk⟩ := Table.update_cases hk
    · cases hr
      exact ⟨rfl, hrefresh⟩
    · exact absurd hr (h.closed hnone hk)
  · rintro k ⟨⟩
    exact ⟨_, refresh, Function.update_self _ _ _, rfl⟩
  · nofun
  · exact List.nodup_cons.mpr ⟨hnew, h.nodup⟩
  · exact h.held
  · intro r hr
    obtain rfl | hr := List.mem_cons.mp hr
    · exact h.held _ hrefresh
    · exact h.issued r hr
  · intro k r t hk
    obtain ⟨-, hk⟩ | ⟨-, hk⟩ := Table.update_cases hk
    · cases hk
    · exact absurd rfl (h.closed hnone hk)

theorem Presented.serve (h : Presented w) {k : Nat} {presented : RefreshToken} {grant : Answer}
    (hk : w.renewals k = some (.flying presented)) (hfresh : w.fresh grant = true) :
    Presented (w.serve k presented grant) := by
  have hissued : ∀ r ∈ w.issuedRefresh, r ∈ (w.serve k presented grant).issuedRefresh := by
    intro r hr
    rw [serve_eq]
    unfold World.issue
    split
    · exact List.mem_cons_of_mem _ hr
    · exact hr
  have hsame : (w.serve k presented grant).renewing = w.renewing ∧
      (w.serve k presented grant).refreshToken = w.refreshToken ∧
      (w.serve k presented grant).exchanges = w.exchanges := by
    rw [serve_eq]
    unfold World.issue
    split <;> exact ⟨rfl, rfl, rfl⟩
  obtain ⟨hrenewing, hrefresh, hexchanges⟩ := hsame
  have hpresented : (w.serve k presented grant).presented = w.presented := by
    unfold World.presented
    rw [hexchanges]
  constructor
  · intro j R r hj hr
    rw [hrenewing, hrefresh]
    obtain ⟨rfl, rfl⟩ | ⟨-, hj⟩ := Table.update_cases hj
    · exact h.opened hk hr
    · exact h.opened hj hr
  · intro j hj
    rw [hrenewing] at hj
    by_cases hjk : j = k
    · subst hjk
      exact ⟨_, presented, Function.update_self _ _ _, rfl⟩
    · obtain ⟨R, r, hR, hr⟩ := h.flying hj
      exact ⟨R, r, (Function.update_of_ne hjk _ _).trans hR, hr⟩
  · rw [hrenewing, hrefresh, hpresented]
    exact h.idle
  · rw [hpresented]
    exact h.nodup
  · intro r hr
    rw [hrefresh] at hr
    exact hissued r (h.held r hr)
  · intro r hr
    rw [hpresented] at hr
    exact hissued r (h.issued r hr)
  · intro j r t hj
    rw [hpresented]
    obtain ⟨-, hj⟩ | ⟨-, hj⟩ := Table.update_cases hj
    · simp only [Renewal.answered.injEq] at hj
      have hsaid : w.said presented grant = .tokens t := hj.2.symm
      have hnew : t.refreshToken ∉ w.issuedRefresh := by
        rw [said_tokens hsaid] at hfresh
        simpa [World.fresh] using (Bool.and_eq_true_iff.mp hfresh).2
      refine ⟨?_, fun hmem => hnew (h.issued _ hmem)⟩
      rw [serve_eq, hsaid]
      exact List.mem_cons_self
    · obtain ⟨hin, hnot⟩ := h.granted hj
      exact ⟨hissued _ hin, hnot⟩

/-- The answer arrives: the refresh token is replaced, or dropped. -/
theorem Presented.receive (h : Presented w) {k : Nat} {presented : RefreshToken} {answer : Answer}
    (hk : w.renewals k = some (.answered presented answer)) :
    Presented (w.renewed k answer) := by
  have hopen : w.renewing = some k := (h.opened hk rfl).1
  -- No other renewal is open.
  have hother : ∀ {j R r}, w.renewals j = some R → R.presents = some r → j = k := by
    intro j R r hj hr
    have hj := (h.opened hj hr).1
    rw [hopen] at hj
    cases hj
    rfl
  have hdrop : Presented ({ w with refreshToken := none }.settle k false) := by
    constructor
    · intro j R r hj hr
      obtain ⟨hjk, hj⟩ := renewals_settle hj hr
      exact absurd (hother hj hr) hjk
    · nofun
    · nofun
    · exact h.nodup
    · nofun
    · exact h.issued
    · intro j r t' hj
      obtain ⟨hjk, hj⟩ := renewals_settle hj rfl
      exact absurd (hother hj rfl) hjk
  cases answer with
  | tokens t =>
      obtain ⟨hissued, hnew⟩ := h.granted hk
      constructor
      · intro j R r hj hr
        obtain ⟨hjk, hj⟩ := renewals_settle hj hr
        exact absurd (hother hj hr) hjk
      · nofun
      · rintro - r ⟨⟩
        exact hnew
      · exact h.nodup
      · rintro r ⟨⟩
        exact hissued
      · exact h.issued
      · intro j r t' hj
        obtain ⟨hjk, hj⟩ := renewals_settle hj rfl
        exact absurd (hother hj rfl) hjk
  | gate => exact hdrop
  | refused => exact hdrop

theorem presented_step {act : Action} (h : Presented w) (hok : Answering w act)
    (hmoved : Moved w act w') : Presented w' := by
  cases hmoved with
  | request i options => exact h.carry rfl rfl rfl rfl rfl
  | close act i req => exact h.carry rfl rfl rfl rfl rfl
  | sleep i response aborted req attempt token replay => exact h.carry rfl rfl rfl rfl rfl
  | join i response aborted req attempt token k refresh => exact h.carry rfl rfl rfl rfl rfl
  | start i response aborted req attempt token refresh hi hphase hrefresh hnone =>
      have hrenew : Presented (w.renew token refresh) := h.renew hnone hrefresh
      exact hrenew.carry rfl rfl rfl rfl rfl
  | wake i req attempt replay => exact h.carry rfl rfl rfl rfl rfl
  | serve k grant presented hk hfresh => exact h.serve hk hfresh
  | receive k presented answer hk => exact h.receive hk
  | fail k => exact hok.elim
  | replay i req k => exact h.carry rfl rfl rfl rfl rfl

-- ===================================================== what is exchanged for

/-- The access tokens the client has had. -/
def World.held (w : World) : List AccessToken := w.received.map (·.accessToken) ++ [w.first]

/-- The access token a request is out with. -/
def Phase.token : Phase → Option AccessToken
  | .sent _ token _ => some token
  | _ => none

structure Exchanged (w : World) : Prop where
  /-- What is in flight is for the token the client has. -/
  opened : ∀ {k R r}, w.renewals k = some R → R.presents = some r → w.token ∈ w.causes
  idle : w.renewing = none → w.refreshToken ≠ none → w.token ∉ w.causes
  nodup : w.causes.Nodup
  current : w.token ∈ w.held
  replaced : ∀ t ∈ w.held, t = w.token ∨ t ∈ w.causes
  issued : ∀ t ∈ w.held, t ∈ w.issuedAccess
  caused : ∀ t ∈ w.causes, t ∈ w.held
  granted : ∀ {k r t}, w.renewals k = some (.answered r (.tokens t)) →
    t.accessToken ∈ w.issuedAccess ∧ t.accessToken ∉ w.causes
  sent : ∀ {i req t}, w.requests i = some req → req.phase.token = some t → t ∈ w.held
  refusals : ∀ t ∈ w.refusals, t ∈ w.causes

/-- A request goes on, and is out with a token the client has had. -/
theorem Exchanged.put (h : Exchanged w) {i : Nat} {req : Request} {phase : Phase}
    (hrequests : w'.requests = Function.update w.requests i (some { req with phase }))
    (hrenewing : w'.renewing = w.renewing) (hrenewals : w'.renewals = w.renewals)
    (htoken : w'.token = w.token) (hrefresh : w'.refreshToken = w.refreshToken)
    (hexchanges : w'.exchanges = w.exchanges) (hheld : w'.held = w.held)
    (hissued : w'.issuedAccess = w.issuedAccess) (hphase : ∀ t ∈ phase.token, t ∈ w.held)
    (hrefusals : ∀ t ∈ w'.refusals, t ∈ w.refusals ∨ t ∈ w.causes) : Exchanged w' := by
  have hcauses : w'.causes = w.causes := by
    unfold World.causes
    rw [hexchanges]
  constructor
  · rw [hrenewals, htoken, hcauses]
    exact h.opened
  · rw [hrenewing, hrefresh, htoken, hcauses]
    exact h.idle
  · rw [hcauses]
    exact h.nodup
  · rw [htoken, hheld]
    exact h.current
  · rw [hheld, htoken, hcauses]
    exact h.replaced
  · rw [hheld, hissued]
    exact h.issued
  · rw [hcauses, hheld]
    exact h.caused
  · rw [hrenewals, hissued, hcauses]
    exact h.granted
  · intro j req' t hreq' ht
    rw [hrequests] at hreq'
    rw [hheld]
    obtain ⟨-, rfl⟩ | ⟨-, hreq'⟩ := Table.update_cases hreq'
    · exact hphase t ht
    · exact h.sent hreq' ht
  · intro t ht
    rw [hcauses]
    obtain ht | ht := hrefusals t ht
    · exact h.refusals t ht
    · exact ht

/-- A token the client has had is the one it has, or had its exchange. -/
theorem Exchanged.send (h : Exchanged w) (i : Nat) (req : Request) (attempt : Nat)
    (replay : Bool) : Exchanged (w.send i req attempt replay) := by
  refine h.put rfl rfl rfl rfl rfl rfl rfl rfl ?_ fun t ht => .inl ht
  rintro t ⟨⟩
  exact h.current

/-- A renewal is started by a 401 about the token the client has. -/
theorem Exchanged.renew (h : Exchanged w) (hpresented : Presented w) (hnone : w.renewing = none)
    {refresh : RefreshToken} (hrefresh : w.refreshToken = some refresh) :
    Exchanged (w.renew w.token refresh) := by
  have hnew : w.token ∉ w.causes := h.idle hnone (by rw [hrefresh]; nofun)
  constructor
  · exact fun _ _ => List.mem_cons_self
  · nofun
  · exact List.nodup_cons.mpr ⟨hnew, h.nodup⟩
  · exact h.current
  · intro t ht
    exact (h.replaced t ht).imp_right (List.mem_cons_of_mem _)
  · exact h.issued
  · intro t ht
    obtain rfl | ht := List.mem_cons.mp ht
    · exact h.current
    · exact h.caused t ht
  · intro k r t hk
    obtain ⟨-, hk⟩ | ⟨-, hk⟩ := Table.update_cases hk
    · cases hk
    · exact absurd rfl (hpresented.closed hnone hk)
  · exact h.sent
  · exact fun t ht => List.mem_cons_of_mem _ (h.refusals t ht)

theorem Exchanged.serve (h : Exchanged w) {k : Nat} {presented : RefreshToken} {grant : Answer}
    (hk : w.renewals k = some (.flying presented)) (hfresh : w.fresh grant = true) :
    Exchanged (w.serve k presented grant) := by
  have hissued : ∀ t ∈ w.issuedAccess, t ∈ (w.serve k presented grant).issuedAccess := by
    intro t ht
    rw [serve_eq]
    unfold World.issue
    split
    · exact List.mem_cons_of_mem _ ht
    · exact ht
  have hsame : (w.serve k presented grant).renewing = w.renewing ∧
      (w.serve k presented grant).refreshToken = w.refreshToken ∧
      (w.serve k presented grant).token = w.token ∧
      (w.serve k presented grant).causes = w.causes ∧
      (w.serve k presented grant).held = w.held ∧
      (w.serve k presented grant).requests = w.requests ∧
      (w.serve k presented grant).refusals = w.refusals := by
    rw [serve_eq]
    unfold World.issue
    split <;> exact ⟨rfl, rfl, rfl, rfl, rfl, rfl, rfl⟩
  obtain ⟨hrenewing, hrefresh, htoken, hcauses, hheld, hrequests, hrefusals⟩ := hsame
  constructor
  · intro j R r hj hr
    rw [htoken, hcauses]
    obtain ⟨-, -⟩ | ⟨-, hj⟩ := Table.update_cases hj
    · exact h.opened hk rfl
    · exact h.opened hj hr
  · rw [hrenewing, hrefresh, htoken, hcauses]
    exact h.idle
  · rw [hcauses]
    exact h.nodup
  · rw [htoken, hheld]
    exact h.current
  · rw [hheld, htoken, hcauses]
    exact h.replaced
  · rw [hheld]
    exact fun t ht => hissued t (h.issued t ht)
  · rw [hcauses, hheld]
    exact h.caused
  · intro j r t hj
    rw [hcauses]
    obtain ⟨-, hj⟩ | ⟨-, hj⟩ := Table.update_cases hj
    · simp only [Renewal.answered.injEq] at hj
      have hsaid : w.said presented grant = .tokens t := hj.2.symm
      have hnew : t.accessToken ∉ w.issuedAccess := by
        rw [said_tokens hsaid] at hfresh
        simpa [World.fresh] using (Bool.and_eq_true_iff.mp hfresh).1
      refine ⟨?_, fun hmem => hnew (h.issued _ (h.caused _ hmem))⟩
      rw [serve_eq, hsaid]
      exact List.mem_cons_self
    · obtain ⟨hin, hnot⟩ := h.granted hj
      exact ⟨hissued _ hin, hnot⟩
  · rw [hrequests, hheld]
    exact h.sent
  · rw [hrefusals, hcauses]
    exact h.refusals

/-- The answer arrives: the token that is replaced had its exchange. -/
theorem Exchanged.receive (h : Exchanged w) (hpresented : Presented w) {k : Nat}
    {presented : RefreshToken} {answer : Answer}
    (hk : w.renewals k = some (.answered presented answer)) :
    Exchanged (w.renewed k answer) := by
  have hopen : w.renewing = some k := (hpresented.opened hk rfl).1
  have hother : ∀ {j R r}, w.renewals j = some R → R.presents = some r → j = k := by
    intro j R r hj hr
    have hj := (hpresented.opened hj hr).1
    rw [hopen] at hj
    cases hj
    rfl
  have hold : w.token ∈ w.causes := h.opened hk rfl
  have hdrop : Exchanged ({ w with refreshToken := none }.settle k false) := by
    constructor
    · intro j R r hj hr
      obtain ⟨hjk, hj⟩ := renewals_settle hj hr
      exact absurd (hother hj hr) hjk
    · exact fun _ hsome => absurd rfl hsome
    · exact h.nodup
    · exact h.current
    · exact h.replaced
    · exact h.issued
    · exact h.caused
    · intro j r t' hj
      obtain ⟨hjk, hj⟩ := renewals_settle hj rfl
      exact absurd (hother hj rfl) hjk
    · exact h.sent
    · exact h.refusals
  cases answer with
  | tokens t =>
      obtain ⟨hissued, hnew⟩ := h.granted hk
      constructor
      · intro j R r hj hr
        obtain ⟨hjk, hj⟩ := renewals_settle hj hr
        exact absurd (hother hj hr) hjk
      · exact fun _ _ => hnew
      · exact h.nodup
      · exact List.mem_cons_self
      · intro u hu
        obtain rfl | hu := List.mem_cons.mp hu
        · exact .inl rfl
        · obtain rfl | hu := h.replaced u hu
          · exact .inr hold
          · exact .inr hu
      · intro u hu
        obtain rfl | hu := List.mem_cons.mp hu
        · exact hissued
        · exact h.issued u hu
      · exact fun u hu => List.mem_cons_of_mem _ (h.caused u hu)
      · intro j r t' hj
        obtain ⟨hjk, hj⟩ := renewals_settle hj rfl
        exact absurd (hother hj rfl) hjk
      · exact fun hi hu => List.mem_cons_of_mem _ (h.sent hi hu)
      · exact h.refusals
  | gate => exact hdrop
  | refused => exact hdrop

theorem exchanged_step {act : Action} (hpresented : Presented w) (h : Exchanged w)
    (hok : Orderly w act) (hmoved : Moved w act w') : Exchanged w' := by
  cases hmoved with
  | request i options hi => exact h.send i _ 1 false
  | close act i req hi =>
      exact h.put rfl rfl rfl rfl rfl rfl rfl rfl nofun fun t ht => .inl ht
  | sleep i response aborted req attempt token replay hi =>
      exact h.put rfl rfl rfl rfl rfl rfl rfl rfl nofun fun t ht => .inl ht
  | join i response aborted req attempt token k refresh hi hphase hrefresh hk =>
      refine h.put rfl rfl rfl rfl rfl rfl rfl rfl nofun fun t ht => ?_
      obtain rfl | ht := List.mem_cons.mp ht
      · obtain ⟨R, r, hR, hr⟩ := hpresented.flying hk
        obtain rfl | hcause := h.replaced t (h.sent hi (by rw [hphase]; rfl))
        · exact .inr (h.opened hR hr)
        · exact .inr hcause
      · exact .inl ht
  | start i response aborted req attempt token refresh hi hphase hrefresh hnone hresponse hoptions =>
      have hcurrent : token = w.token := by
        have hfresh : w.stale req response = false := hok.2 req hi
        unfold World.stale at hfresh
        rw [hphase] at hfresh
        simpa [hresponse, hoptions, hrefresh, hnone] using hfresh
      subst hcurrent
      have hrenew : Exchanged (w.renew w.token refresh) := h.renew hpresented hnone hrefresh
      refine hrenew.put rfl rfl rfl rfl rfl rfl rfl rfl nofun fun t ht => ?_
      obtain rfl | ht := List.mem_cons.mp ht
      · exact .inr List.mem_cons_self
      · exact .inl ht
  | wake i req attempt replay hi => exact h.send i req (attempt + 1) replay
  | serve k grant presented hk hfresh => exact h.serve hk hfresh
  | receive k presented answer hk => exact h.receive hpresented hk
  | fail k => exact hok.1.elim
  | replay i req k hi => exact h.send i req 1 true

-- ============================================================== every run

theorem replayed_reachable {ok : World → Action → Prop} (hw : Reachable step ok init w) :
    Replayed w := by
  refine hw.invariant ?_ fun t a t' ht _ hstep => replayed_step ht (step_moved hstep)
  rintro _ ⟨retries, token, refresh, server, access, refreshes, rfl⟩
  exact ⟨List.nodup_nil, fun hi => absurd hi List.not_mem_nil, fun hi => (by cases hi), rfl,
    fun s hs => absurd hs List.not_mem_nil, rfl⟩

/-- Where the server answers every exchange no refresh token is presented
twice. -/
theorem presented_reachable {ok : World → Action → Prop}
    (hok : ∀ w a, ok w a → Answering w a) (hw : Reachable step ok init w) : Presented w := by
  refine hw.invariant ?_ fun t a t' ht ha hstep => presented_step ht (hok t a ha) (step_moved hstep)
  rintro _ ⟨retries, token, refresh, server, access, refreshes, rfl⟩
  refine ⟨fun hk => (by cases hk), fun hk => (by cases hk), fun _ _ _ => List.not_mem_nil,
    List.nodup_nil, ?_, fun r hr => absurd hr List.not_mem_nil, fun hk => (by cases hk)⟩
  rintro r ⟨⟩
  exact List.mem_cons_self

theorem exchanged_reachable (hw : Reachable step Orderly init w) : Exchanged w := by
  refine hw.invariant_on (fun t ht => presented_reachable (fun _ _ hok => hok.1) ht) ?_
    fun t a t' hpresented ht hok hstep => exchanged_step hpresented ht hok (step_moved hstep)
  rintro _ ⟨retries, token, refresh, server, access, refreshes, rfl⟩
  refine ⟨fun hk => (by cases hk), fun _ _ => List.not_mem_nil, List.nodup_nil,
    List.mem_singleton_self _, ?_, ?_, fun t ht => absurd ht List.not_mem_nil,
    fun hk => (by cases hk), fun hi => (by cases hi), fun t ht => absurd ht List.not_mem_nil⟩
  · exact fun t ht => .inl (List.mem_singleton.mp ht)
  · intro t ht
    rw [List.mem_singleton.mp ht]
    exact List.mem_cons_self

/-- A client with a token that expired. -/
def signedIn : World := World.new 2 "a1" "r1" { live := some "r1", spent := [] } [] []

def refusal : Response := .problem 401 none

def pair (access : AccessToken) (refresh : RefreshToken) : Answer :=
  .tokens { accessToken := access, expiresIn := 900, refreshToken := refresh }

/-- Two requests are sent with it, and one learns of its 401 in time. -/
def burstActions : List Action :=
  [.request 0 {}, .request 1 {}, .answer 0 refusal false, .serve 0 (pair "a2" "r2"), .receive 0]

/-- The other learns of its own when the token has been renewed. -/
def lateActions : List Action :=
  burstActions ++ [.answer 1 refusal false, .serve 1 (pair "a3" "r3"), .receive 1]

theorem run_late : (runWithin step Answering signedIn lateActions).any
    (fun w => decide (w.causes = ["a1", "a1"] ∧ w.presented = ["r2", "r1"])) = true := by
  decide +kernel

/-- Both learn of it in time, and are replayed. -/
def inTimeActions : List Action :=
  [.request 0 {}, .request 1 {}, .answer 0 refusal false, .answer 1 refusal false,
   .serve 0 (pair "a2" "r2"), .receive 0, .resume 0, .resume 1]

theorem run_inTime : (runWithin step Orderly signedIn inTimeActions).any
    (fun w => decide (w.causes = ["a1"] ∧ w.replays = [1, 0])) = true := by
  decide +kernel

end Nacre.Sdk
