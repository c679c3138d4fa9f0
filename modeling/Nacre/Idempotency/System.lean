/-
Requests that carry an `Idempotency-Key`: `Idempotency.begin` and its
`store` (api/src/idempotency.ts), and the part of `handle` that calls
them (api/src/server.ts).

# What is a step

One Redis command, with what the process does on its answer up to the
next one: the `GET` (`arrive`), the `SET … NX EX 60` (`reserve`), the
handler's answer (`answer`), and the `SET … EX 86400` or the `DEL` of
`store` (`land`), which is sent when the response is on the wire and which
nobody waits for. A request the cache is not for is handled without it
(`pass`). Anything in flight may be dropped: a crash, an answer that is
not JSON. A key that has run out is not there.

# What is not modelled

How the bytes of a body become a value is a parameter (`Reader`): nothing
here depends on it. Redis answers, and a value is read back as it was
written. Time is in seconds.

# Ghosts

`seen`: the requests there were. An entry's `by'`: the request that wrote
it. `stored`: the responses that were stored, each with the end of its
time. `repeated`: the requests whose handler began while a response to the
same caller and key was stored. `replays`: who was sent whose response.
-/
import Mathlib.Logic.Function.Basic
import Nacre.Authz.Principals
import Nacre.Lib.Base64
import Nacre.Lib.Js
import Nacre.Lib.Json
import Nacre.Lib.Sha256
import Nacre.Lib.Transition
import Nacre.Store.Rows

namespace Nacre.Idempotency

open Nacre.Authz (Caller)
open Nacre.Store (Time)

def TTL_SECONDS : Time := 24 * 60 * 60

def RESERVATION_SECONDS : Time := 60

-- ============================================================ the request

/-- A body as it arrives, by its content type. -/
inductive Content where
  | json (bytes : List UInt8)
  | zip (bytes : List UInt8)
  | multipart (boundary : String) (bytes : List UInt8)
  deriving DecidableEq

structure Request where
  caller : Caller
  /-- The connection the token was issued to, if it is a delegated one. -/
  delegation : Option String
  key : String
  method : String
  /-- `url.pathname`. -/
  instance' : String
  /-- `url.search`. -/
  search : String
  content : Content
  deriving DecidableEq

/-- What the readers of a body make of it, if they can. -/
structure Reader where
  /-- `JSON.parse`. -/
  parse : List UInt8 → Option Json
  /-- The fields of `multipartBody`; the file is held aside. -/
  fields : String → List UInt8 → Option (List (List UInt16 × Json))

/-- `body ?? null`; none where the body could not be read. An archive is
held aside, and leaves no body. -/
def Reader.body (rd : Reader) : Content → Option Json
  | .zip _ => some .null
  | .json bytes => if bytes = [] then some .null else rd.parse bytes
  | .multipart boundary bytes => (rd.fields boundary bytes).map .object

def NEVER_CACHED : List String :=
  ["/v1/service-accounts", "/v1/documents", "/v1/search", "/v1/uploads", "/v1/me"]

def neverCached (instance' : String) : Bool :=
  NEVER_CACHED.any fun path =>
    instance' = path || (path ++ "/").toList.isPrefixOf instance'.toList

/-- The cache is for this request. -/
def Request.cacheable (r : Request) : Bool :=
  r.key ≠ "" && r.method ∈ ["POST", "PUT", "PATCH", "DELETE"] && !neverCached r.instance'

-- ======================================================== what is hashed

/-- `createHash('sha256').update(value).digest('base64url').slice(0, 32)`. -/
@[irreducible]
def digest (bytes : List UInt8) : String :=
  String.ofList ((Base64.encode (Sha256.bytes bytes)).take 32)

/-- A text of code units, in UTF-8. -/
def utf8 (text : List UInt16) : List UInt8 := (Js.encode text).data.toList

/-- `JSON.stringify({ method, path, body: body ?? null })`. -/
def Request.text (r : Request) (body : Json) : List UInt16 :=
  (Json.object [(Json.units "method", .string (Js.codeUnits r.method)),
    (Json.units "path", .string (Js.codeUnits r.instance')),
    (Json.units "body", body)]).stringify

def Request.fingerprint (r : Request) (body : Json) : String := digest (utf8 (r.text body))

/-- `nacre:idem:` and the organization, the principal and the key's
digest. -/
@[irreducible]
def cacheKey (caller : Caller) (key : String) : String :=
  "nacre:idem:" ++ caller.orgId ++ ":" ++ caller.principal.type.tag ++ ":"
    ++ caller.principal.id ++ ":" ++ digest key.toUTF8.data.toList

def Request.cacheKey (r : Request) : String := Idempotency.cacheKey r.caller r.key

-- ============================================================ the response

structure Response where
  status : Nat
  body : Json
  deriving DecidableEq

def CREDENTIAL_FIELDS : List (List UInt16) :=
  ["password", "access_token", "refresh_token", "secret", "otpauth_url", "recovery_codes",
    "key", "token", "code", "redirect_to", "challenge"].map Json.units

mutual

/-- A field named in `CREDENTIAL_FIELDS`, at any depth up to sixteen. -/
def carriesCredential : Json → Nat → Bool
  | .array items, depth => depth ≤ 16 && carriesCredentialItems items (depth + 1)
  | .object fields, depth => depth ≤ 16 && carriesCredentialFields fields (depth + 1)
  | _, _ => false

def carriesCredentialItems : List Json → Nat → Bool
  | [], _ => false
  | x :: xs, depth => carriesCredential x depth || carriesCredentialItems xs depth

def carriesCredentialFields : List (List UInt16 × Json) → Nat → Bool
  | [], _ => false
  | (field, x) :: fields, depth =>
      CREDENTIAL_FIELDS.contains field || carriesCredential x depth
        || carriesCredentialFields fields depth

end

/-- What `store` keeps. -/
def Response.kept (res : Response) : Bool := res.status < 400 && !carriesCredential res.body 0

-- ================================================================= state

/-- The value of a key in Redis: a reservation has no response yet. -/
structure Entry where
  fingerprint : String
  response : Option Response
  expiresAt : Time
  by' : Request
  deriving DecidableEq

inductive Flight where
  /-- The `GET` found nothing. -/
  | looked (r : Request)
  /-- The handler runs on a reservation made at `since`. -/
  | handling (r : Request) (since : Time)
  /-- It has answered, and the response is to be stored. -/
  | storing (r : Request) (since : Time) (res : Response)
  /-- The handler runs without the cache. -/
  | passing (r : Request)
  deriving DecidableEq

/-- A handler of this caller's key is in progress. -/
def Flight.runs (caller : Caller) (key : String) : Flight → Bool
  | .handling r _ => r.caller = caller && r.key = key
  | .passing r => r.caller = caller && r.key = key
  | _ => false

structure World where
  now : Time
  cache : String → Option Entry
  flights : List Flight
  seen : List Request
  stored : List (Request × Time)
  repeated : List Request
  /-- Who received it, and who it was produced for. -/
  replays : List (Request × Request)

def World.empty (now : Time) : World where
  now := now
  cache _ := none
  flights := []
  seen := []
  stored := []
  repeated := []
  replays := []

def init (s : World) : Prop := ∃ now, s = World.empty now

inductive Action where
  | tick
  | arrive (r : Request)
  | reserve (r : Request)
  | answer (r : Request) (since : Time) (res : Response)
  | land (r : Request) (since : Time) (res : Response)
  | finish (r : Request)
  | drop (g : Flight)

/-- What a command finds under a key. -/
def World.get (s : World) (k : String) : Option Entry :=
  (s.cache k).filter (s.now < ·.expiresAt)

/-- A response to this caller and key is stored. -/
def World.answered (s : World) (r : Request) : Bool :=
  s.stored.any fun e => e.1.caller = r.caller && e.1.key = r.key && s.now < e.2

def World.replace (s : World) (g : Flight) (new : List Flight) : World :=
  { s with flights := new ++ s.flights.erase g }

/-- A handler begins. -/
def World.begin (s : World) (r : Request) (g : Flight) : World :=
  { s with
    flights := g :: s.flights
    repeated := if s.answered r then r :: s.repeated else s.repeated }

-- ================================================================== step

def step (rd : Reader) (s : World) : Action → Option World
  | .tick => some { s with now := s.now + 1 }
  | .arrive r =>
      match rd.body r.content with
      | none => none
      | some body =>
          let s := { s with seen := r :: s.seen }
          if r.cacheable then
            match s.get r.cacheKey with
            | none => some { s with flights := .looked r :: s.flights }
            | some e =>
                -- a conflict leaves nothing, a replay is sent
                if e.fingerprint ≠ r.fingerprint body then some s
                else if e.response = none then some s
                else some { s with replays := (r, e.by') :: s.replays }
          else some (s.begin r (.passing r))
  | .reserve r =>
      match rd.body r.content with
      | none => none
      | some body =>
          if .looked r ∈ s.flights then
            match s.get r.cacheKey with
            | some _ => some (s.replace (.looked r) [])
            | none =>
                some { (s.replace (.looked r) []).begin r (.handling r s.now) with
                  cache := Function.update s.cache r.cacheKey (some
                    { fingerprint := r.fingerprint body, response := none
                      expiresAt := s.now + RESERVATION_SECONDS, by' := r }) }
          else none
  | .answer r since res =>
      if .handling r since ∈ s.flights then
        some (s.replace (.handling r since) [.storing r since res])
      else none
  | .land r since res =>
      match rd.body r.content with
      | none => none
      | some body =>
          if .storing r since res ∈ s.flights then
            if res.kept then
              some { s.replace (.storing r since res) [] with
                cache := Function.update s.cache r.cacheKey (some
                  { fingerprint := r.fingerprint body, response := some res
                    expiresAt := s.now + TTL_SECONDS, by' := r })
                stored := (r, s.now + TTL_SECONDS) :: s.stored }
            else
              some { s.replace (.storing r since res) [] with
                cache := Function.update s.cache r.cacheKey none }
          else none
  | .finish r =>
      if .passing r ∈ s.flights then some (s.replace (.passing r) []) else none
  | .drop g => if g ∈ s.flights then some (s.replace g []) else none

-- ================================================== what one step can do

/-- What a request reserves. -/
def reservation (r : Request) (body : Json) (now : Time) : Entry where
  fingerprint := r.fingerprint body
  response := none
  expiresAt := now + RESERVATION_SECONDS
  by' := r

/-- What it leaves when it is answered. -/
def outcome (r : Request) (body : Json) (res : Response) (now : Time) : Entry where
  fingerprint := r.fingerprint body
  response := some res
  expiresAt := now + TTL_SECONDS
  by' := r

/-- Every step, with what it found. -/
inductive Stepped (rd : Reader) (s : World) : Action → World → Prop where
  | tick : Stepped rd s .tick { s with now := s.now + 1 }
  | looked (r : Request) (body : Json) (hbody : rd.body r.content = some body) :
      Stepped rd s (.arrive r)
        { s with seen := r :: s.seen, flights := .looked r :: s.flights }
  | conflict (r : Request) : Stepped rd s (.arrive r) { s with seen := r :: s.seen }
  | replay (r : Request) (body : Json) (e : Entry) (hbody : rd.body r.content = some body)
      (hentry : s.get r.cacheKey = some e) (hfingerprint : e.fingerprint = r.fingerprint body)
      (hresponse : e.response ≠ none) :
      Stepped rd s (.arrive r)
        { s with seen := r :: s.seen, replays := (r, e.by') :: s.replays }
  | pass (r : Request) (hpass : r.cacheable = false) :
      Stepped rd s (.arrive r)
        (World.begin { s with seen := r :: s.seen } r (.passing r))
  | late (r : Request) : Stepped rd s (.reserve r) (s.replace (.looked r) [])
  | reserve (r : Request) (body : Json) (hbody : rd.body r.content = some body)
      (hflight : .looked r ∈ s.flights) (hfree : s.get r.cacheKey = none) :
      Stepped rd s (.reserve r)
        { (s.replace (.looked r) []).begin r (.handling r s.now) with
          cache := Function.update s.cache r.cacheKey (some (reservation r body s.now)) }
  | answer (r : Request) (since : Time) (res : Response)
      (hflight : .handling r since ∈ s.flights) :
      Stepped rd s (.answer r since res)
        (s.replace (.handling r since) [.storing r since res])
  | store (r : Request) (since : Time) (res : Response) (body : Json)
      (hbody : rd.body r.content = some body) (hflight : .storing r since res ∈ s.flights) :
      Stepped rd s (.land r since res)
        { s.replace (.storing r since res) [] with
          cache := Function.update s.cache r.cacheKey (some (outcome r body res s.now))
          stored := (r, s.now + TTL_SECONDS) :: s.stored }
  | forget (r : Request) (since : Time) (res : Response)
      (hflight : .storing r since res ∈ s.flights) :
      Stepped rd s (.land r since res)
        { s.replace (.storing r since res) [] with
          cache := Function.update s.cache r.cacheKey none }
  | finish (r : Request) : Stepped rd s (.finish r) (s.replace (.passing r) [])
  | drop (g : Flight) : Stepped rd s (.drop g) (s.replace g [])

theorem step_inv {rd : Reader} {s s' : World} {a : Action} (h : step rd s a = some s') :
    Stepped rd s a s' := by
  cases a with
  | tick =>
      cases h
      exact .tick
  | arrive r =>
      simp only [step] at h
      split at h
      next => cases h
      next body hbody =>
        split at h
        next hcacheable =>
          split at h
          next =>
            cases h
            exact .looked r body hbody
          next e hentry =>
            split_ifs at h with hfingerprint hresponse
            · cases h
              exact .conflict r
            · cases h
              exact .conflict r
            · cases h
              exact .replay r body e hbody hentry (Decidable.not_not.1 hfingerprint) hresponse
        next hpass =>
          cases h
          exact .pass r (Bool.eq_false_iff.2 hpass)
  | reserve r =>
      simp only [step] at h
      split at h
      next => cases h
      next body hbody =>
        rw [Option.ite_none_right_eq_some] at h
        obtain ⟨hflight, h⟩ := h
        split at h
        next =>
          cases h
          exact .late r
        next hfree =>
          cases h
          exact .reserve r body hbody hflight hfree
  | answer r since res =>
      simp only [step, Option.ite_none_right_eq_some] at h
      cases h.2
      exact .answer r since res h.1
  | land r since res =>
      simp only [step] at h
      split at h
      next => cases h
      next body hbody =>
        rw [Option.ite_none_right_eq_some] at h
        obtain ⟨hflight, h⟩ := h
        split at h
        next =>
          cases h
          exact .store r since res body hbody hflight
        next =>
          cases h
          exact .forget r since res hflight
  | finish r =>
      simp only [step, Option.ite_none_right_eq_some] at h
      cases h.2
      exact .finish r
  | drop g =>
      simp only [step, Option.ite_none_right_eq_some] at h
      cases h.2
      exact .drop g

end Nacre.Idempotency
