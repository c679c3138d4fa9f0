/-
The client's requests, and the renewal of its tokens (sdk/src/client.ts:
`#attempt`, `#request`, `#renewOnce`, `#renew`).

# What is a step

What one turn of the event loop does: a request is sent, an answer is looked
at, a wait is over. Answers come in any order, and any of them may be a 401,
however late. An exchange is one fetch, since it is not retried; the server
takes it in at one moment, and its answer arrives at another.

The renewal in flight is a promise, here a number. `#renew` stores what it
was given, and `finally` clears the promise in the microtask after that: what
is looked at between the two is looked at before. Whoever awaited the
promise goes on in a turn of its own.

# Ghosts

`exchanges`: the refresh tokens presented, each with the access token the 401
was about. `sends`: what was sent, and with which token, and which was then
the newest. `received`: the pairs that arrived. `refusals`: the access tokens
that were answered 401 while there was a refresh token.
-/
import Mathlib.Logic.Function.Basic
import Nacre.Lib.Table
import Nacre.Lib.Transition

namespace Nacre.Sdk

open Transition

abbrev AccessToken := String
abbrev RefreshToken := String

structure Tokens where
  accessToken : AccessToken
  tokenType : String := "Bearer"
  expiresIn : Nat
  refreshToken : RefreshToken
  deriving DecidableEq

def MAX_RETRY_WAIT_MS : Nat := 10000

-- =============================================================== a request

structure RequestOptions where
  /-- Safe or idempotent. -/
  retryable : Bool := false
  /-- The sign-in endpoints, and the renewal itself. -/
  noAuthRefresh : Bool := false
  deriving DecidableEq

inductive Phase where
  /-- `#once` is out, with the token it carries. -/
  | sent (attempt : Nat) (token : AccessToken) (replay : Bool)
  /-- `#attempt` waits before its next try. -/
  | sleeping (attempt : Nat) (replay : Bool)
  /-- `#request` awaits a renewal. -/
  | waiting (renewal : Nat)
  | done
  deriving DecidableEq

structure Request where
  options : RequestOptions
  phase : Phase
  deriving DecidableEq

/-- What `#once` comes to. -/
inductive Response where
  | ok
  /-- A problem document, with its `Retry-After` in seconds. -/
  | problem (status : Nat) (retryAfter : Option Nat)
  /-- A `NacreTransportError`, with a status where something answered. -/
  | transport (status : Option Nat)
  deriving DecidableEq

def Response.transient : Response → Bool
  | .ok => false
  | .problem status _ => status = 429 || status = 503 || 500 ≤ status
  | .transport status => status.isNone

/-- The wait the server asked for is one a caller would sit through. -/
def Response.waitable : Response → Bool
  | .problem _ (some asked) => asked * 1000 ≤ MAX_RETRY_WAIT_MS
  | _ => true

def Response.unauthorized : Response → Bool
  | .problem status _ => status = 401
  | _ => false

/-- `#attempt` tries again. -/
def Request.retries (req : Request) (retries attempt : Nat) (response : Response)
    (aborted : Bool) : Bool :=
  req.options.retryable && response.transient && attempt < retries && !aborted
    && response.waitable

-- ============================================================= an exchange

/-- What the server says of an exchange. -/
inductive Answer where
  | tokens (tokens : Tokens)
  | gate
  | refused
  deriving DecidableEq

structure Server where
  live : Option RefreshToken
  spent : List RefreshToken
  revoked : Bool := false
  deriving DecidableEq

/-- A spent token revokes the family; a live one is spent, whatever it gets. -/
def Server.exchange (s : Server) (presented : RefreshToken) (grant : Answer) : Server × Answer :=
  if presented ∈ s.spent then ({ s with live := none, revoked := true }, .refused)
  else if s.live = some presented then
    match grant with
    | .tokens t =>
        ({ s with live := some t.refreshToken, spent := presented :: s.spent }, .tokens t)
    | .gate => ({ s with live := none, spent := presented :: s.spent }, .gate)
    | .refused => (s, .refused)
  else (s, .refused)

inductive Renewal where
  | flying (presented : RefreshToken)
  | answered (presented : RefreshToken) (answer : Answer)
  /-- Whether there is a new access token. -/
  | settled (renewed : Bool)
  deriving DecidableEq

/-- What it presents, until it is settled. -/
def Renewal.presents : Renewal → Option RefreshToken
  | .flying presented => some presented
  | .answered presented _ => some presented
  | .settled _ => none

structure Exchange where
  cause : AccessToken
  refresh : RefreshToken
  deriving DecidableEq

structure Send where
  request : Nat
  attempt : Nat
  replay : Bool
  token : AccessToken
  newest : AccessToken
  deriving DecidableEq

structure World where
  retries : Nat
  /-- The token the client was made with. -/
  first : AccessToken
  token : AccessToken
  refreshToken : Option RefreshToken
  renewing : Option Nat
  renewals : Nat → Option Renewal
  requests : Nat → Option Request
  server : Server
  /-- Every token there ever was. -/
  issuedAccess : List AccessToken
  issuedRefresh : List RefreshToken
  exchanges : List Exchange
  sends : List Send
  received : List Tokens
  /-- What `onTokens` was called with. -/
  reported : List Tokens
  refusals : List AccessToken

/-- A client, and the server it was given its tokens by. -/
def World.new (retries : Nat) (token : AccessToken) (refreshToken : RefreshToken)
    (server : Server) (issuedAccess : List AccessToken) (issuedRefresh : List RefreshToken) :
    World where
  retries := max 1 retries
  first := token
  token := token
  refreshToken := some refreshToken
  renewing := none
  renewals _ := none
  requests _ := none
  server := server
  issuedAccess := token :: issuedAccess
  issuedRefresh := refreshToken :: issuedRefresh
  exchanges := []
  sends := []
  received := []
  reported := []
  refusals := []

def init (w : World) : Prop :=
  ∃ retries token refreshToken server issuedAccess issuedRefresh,
    w = World.new retries token refreshToken server issuedAccess issuedRefresh

/-- The access token of the newest pair. -/
def World.newest (w : World) : AccessToken :=
  match w.received with
  | [] => w.first
  | t :: _ => t.accessToken

-- ================================================================== steps

def World.put (w : World) (i : Nat) (req : Request) (phase : Phase) : World :=
  { w with requests := Function.update w.requests i (some { req with phase }) }

/-- `#once`: it reads the token when it is sent. -/
def World.send (w : World) (i : Nat) (req : Request) (attempt : Nat) (replay : Bool) : World :=
  { w.put i req (.sent attempt w.token replay) with
    sends := { request := i, attempt, replay, token := w.token, newest := w.newest } :: w.sends }

/-- `#renew`, up to its exchange. -/
def World.renew (w : World) (cause : AccessToken) (refresh : RefreshToken) : World :=
  { w with
    renewing := some w.exchanges.length
    renewals := Function.update w.renewals w.exchanges.length (some (.flying refresh))
    exchanges := { cause, refresh } :: w.exchanges }

/-- A 401 with a refresh token in hand: `#renewOnce`, and await it. -/
def World.renewOnce (w : World) (i : Nat) (req : Request) (token : AccessToken)
    (refresh : RefreshToken) : World :=
  match w.renewing with
  | some k => { w.put i req (.waiting k) with refusals := token :: w.refusals }
  | none =>
      { (w.renew token refresh).put i req (.waiting w.exchanges.length) with
        refusals := token :: w.refusals }

/-- `#attempt` and `#request`, of an answer. -/
def World.answer (w : World) (i : Nat) (req : Request) (attempt : Nat) (token : AccessToken)
    (replay : Bool) (response : Response) (aborted : Bool) : World :=
  if response = .ok then w.put i req .done
  else if req.retries w.retries attempt response aborted then w.put i req (.sleeping attempt replay)
  else if response.unauthorized && !replay && !req.options.noAuthRefresh then
    match w.refreshToken with
    | some refresh => w.renewOnce i req token refresh
    | none => w.put i req .done
  else w.put i req .done

/-- The promise is settled, and cleared. -/
def World.settle (w : World) (k : Nat) (renewed : Bool) : World :=
  { w with
    renewing := none
    renewals := Function.update w.renewals k (some (.settled renewed)) }

/-- A new pair is stored and reported. -/
def World.store (w : World) (t : Tokens) : World :=
  { w with
    token := t.accessToken
    refreshToken := some t.refreshToken
    received := t :: w.received
    reported := t :: w.reported }

/-- `#renew`, of the answer. -/
def World.renewed (w : World) (k : Nat) : Answer → World
  | .tokens t => (w.store t).settle k true
  | .gate => { w with refreshToken := none }.settle k false
  | .refused => { w with refreshToken := none }.settle k false

def World.issue (w : World) : Answer → World
  | .tokens t =>
      { w with issuedAccess := t.accessToken :: w.issuedAccess
               issuedRefresh := t.refreshToken :: w.issuedRefresh }
  | _ => w

/-- What is granted was never issued before. -/
def World.fresh (w : World) : Answer → Bool
  | .tokens t => t.accessToken ∉ w.issuedAccess && t.refreshToken ∉ w.issuedRefresh
  | _ => true

/-- The server takes in an exchange. -/
def World.serve (w : World) (k : Nat) (presented : RefreshToken) (grant : Answer) : World :=
  let (server, answer) := w.server.exchange presented grant
  { w.issue answer with
    server
    renewals := Function.update w.renewals k (some (.answered presented answer)) }

inductive Action where
  | request (i : Nat) (options : RequestOptions)
  | answer (i : Nat) (response : Response) (aborted : Bool)
  | wake (i : Nat)
  /-- With what the server would grant. -/
  | serve (k : Nat) (grant : Answer)
  | receive (k : Nat)
  /-- The exchange comes to an error, which says nothing about the token. -/
  | fail (k : Nat)
  | resume (i : Nat)
  deriving DecidableEq

def step (w : World) : Action → Option World
  | .request i options =>
      if w.requests i = none then some (w.send i { options, phase := .done } 1 false) else none
  | .answer i response aborted =>
      match w.requests i with
      | some req =>
          match req.phase with
          | .sent attempt token replay =>
              some (w.answer i req attempt token replay response aborted)
          | _ => none
      | none => none
  | .wake i =>
      match w.requests i with
      | some req =>
          match req.phase with
          | .sleeping attempt replay => some (w.send i req (attempt + 1) replay)
          | _ => none
      | none => none
  | .serve k grant =>
      match w.renewals k with
      | some (.flying presented) =>
          if w.fresh grant then some (w.serve k presented grant) else none
      | _ => none
  | .receive k =>
      match w.renewals k with
      | some (.answered _ answer) => some (w.renewed k answer)
      | _ => none
  | .fail k =>
      match w.renewals k with
      | some (.flying _) => some (w.settle k false)
      | some (.answered ..) => some (w.settle k false)
      | _ => none
  | .resume i =>
      match w.requests i with
      | some req =>
          match req.phase with
          | .waiting k =>
              match w.renewals k with
              | some (.settled true) => some (w.send i req 1 true)
              | some (.settled false) => some (w.put i req .done)
              | _ => none
          | _ => none
      | none => none

-- ================================================== what one step can do

/-- Every step, with what it found. -/
inductive Moved (w : World) : Action → World → Prop where
  | request (i : Nat) (options : RequestOptions) (hi : w.requests i = none) :
      Moved w (.request i options) (w.send i { options, phase := .done } 1 false)
  /-- An answer that needs no renewal; or the renewal had none. -/
  | close (act : Action) (i : Nat) (req : Request) (hi : w.requests i = some req) :
      Moved w act (w.put i req .done)
  | sleep (i : Nat) (response : Response) (aborted : Bool) (req : Request) (attempt : Nat)
      (token : AccessToken) (replay : Bool) (hi : w.requests i = some req)
      (hphase : req.phase = .sent attempt token replay) (hattempt : attempt < w.retries) :
      Moved w (.answer i response aborted) (w.put i req (.sleeping attempt replay))
  | join (i : Nat) (response : Response) (aborted : Bool) (req : Request) (attempt : Nat)
      (token : AccessToken) (k : Nat) (refresh : RefreshToken) (hi : w.requests i = some req)
      (hphase : req.phase = .sent attempt token false) (hrefresh : w.refreshToken = some refresh)
      (hk : w.renewing = some k) :
      Moved w (.answer i response aborted)
        { w.put i req (.waiting k) with refusals := token :: w.refusals }
  | start (i : Nat) (response : Response) (aborted : Bool) (req : Request) (attempt : Nat)
      (token : AccessToken) (refresh : RefreshToken) (hi : w.requests i = some req)
      (hphase : req.phase = .sent attempt token false) (hrefresh : w.refreshToken = some refresh)
      (hnone : w.renewing = none) (hresponse : response.unauthorized = true)
      (hoptions : req.options.noAuthRefresh = false) :
      Moved w (.answer i response aborted)
        { (w.renew token refresh).put i req (.waiting w.exchanges.length) with
          refusals := token :: w.refusals }
  | wake (i : Nat) (req : Request) (attempt : Nat) (replay : Bool) (hi : w.requests i = some req)
      (hphase : req.phase = .sleeping attempt replay) :
      Moved w (.wake i) (w.send i req (attempt + 1) replay)
  | serve (k : Nat) (grant : Answer) (presented : RefreshToken)
      (hk : w.renewals k = some (.flying presented)) (hfresh : w.fresh grant = true) :
      Moved w (.serve k grant) (w.serve k presented grant)
  | receive (k : Nat) (presented : RefreshToken) (answer : Answer)
      (hk : w.renewals k = some (.answered presented answer)) :
      Moved w (.receive k) (w.renewed k answer)
  | fail (k : Nat) : Moved w (.fail k) (w.settle k false)
  | replay (i : Nat) (req : Request) (k : Nat) (hi : w.requests i = some req)
      (hphase : req.phase = .waiting k) : Moved w (.resume i) (w.send i req 1 true)

variable {w w' : World}

theorem step_moved {act : Action} (h : step w act = some w') : Moved w act w' := by
  cases act with
  | request i options =>
      simp only [step, Option.ite_none_right_eq_some, Option.some.injEq] at h
      obtain ⟨hi, rfl⟩ := h
      exact .request i options hi
  | answer i response aborted =>
      simp only [step] at h
      split at h
      next req hi =>
        split at h
        next attempt token replay hphase =>
          cases h
          unfold World.answer
          split
          next => exact .close _ i req hi
          next =>
            split
            next hretries =>
              simp only [Request.retries, Bool.and_eq_true, decide_eq_true_eq] at hretries
              exact .sleep i response aborted req attempt token replay hi hphase hretries.1.1.2
            next =>
              split
              next hrefused =>
                simp only [Bool.and_eq_true, Bool.not_eq_true'] at hrefused
                obtain ⟨⟨hresponse, rfl⟩, hoptions⟩ := hrefused
                split
                next refresh hrefresh =>
                  unfold World.renewOnce
                  split
                  next k hk =>
                    exact .join i response aborted req attempt token k refresh hi hphase hrefresh hk
                  next hnone =>
                    exact .start i response aborted req attempt token refresh hi hphase hrefresh
                      hnone hresponse hoptions
                next => exact .close _ i req hi
              next => exact .close _ i req hi
        next => cases h
      next => cases h
  | wake i =>
      simp only [step] at h
      split at h
      next req hi =>
        split at h
        next attempt replay hphase =>
          cases h
          exact .wake i req attempt replay hi hphase
        next => cases h
      next => cases h
  | serve k grant =>
      simp only [step] at h
      split at h
      next presented hk =>
        simp only [Option.ite_none_right_eq_some, Option.some.injEq] at h
        obtain ⟨hfresh, rfl⟩ := h
        exact .serve k grant presented hk hfresh
      next => cases h
  | receive k =>
      simp only [step] at h
      split at h
      next presented answer hk =>
        cases h
        exact .receive k presented answer hk
      next => cases h
  | fail k =>
      simp only [step] at h
      split at h
      next =>
        cases h
        exact .fail k
      next =>
        cases h
        exact .fail k
      next => cases h
  | resume i =>
      simp only [step] at h
      split at h
      next req hi =>
        split at h
        next k hphase =>
          split at h
          next =>
            cases h
            exact .replay i req k hi hphase
          next =>
            cases h
            exact .close _ i req hi
          next => cases h
        next => cases h
      next => cases h

end Nacre.Sdk
