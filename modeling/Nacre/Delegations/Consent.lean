/-
`POST /v1/oauth/consent` (api/src/server.ts): what a person approves of an
application, from the body of the request to the call of `record`.

`readNarrowing` and the handler are the source's, refusals and their texts
included. What the handler asks elsewhere is `Found`: whether the resource
names the administrative MCP (a URL is parsed for that), whether the client
is there and registered the redirect URI, whether the agent is visible, and
the layers `layers.list` shows the caller over all its pages.

# What a body says

`Names` reads the same body without the parser: the ceiling is absent or
lists the value, the narrowing is absent or empty, or has an entry for the
layer that inherits or lists the value. `consent_names` says that what is
handed to `record` admits no more. The administrative MCP has one ceiling
and no narrowing.
-/
import Nacre.Api.Auth
import Nacre.Lib.Json

namespace Nacre.Delegations

open Nacre.Authz Nacre.Api

-- ========================================================= who is asking

/-- Whether this request may exercise a permission at all. -/
def delegationPermits (auth : AuthContext) (permission : Permission) : Bool :=
  match auth.delegation.bind Delegation.permissions with
  | none => true
  | some ceiling => ceiling.contains (.permission permission)

/-- Whether this request administers the organization: never through a
narrowed delegation. -/
def administers (auth : AuthContext) : Bool :=
  auth.role == .orgAdmin && delegationPermits auth .admin
    && (auth.delegation.bind Delegation.layers).isNone

def administersTenants (auth : AuthContext) : Bool := auth.role == .platformAdmin

-- ============================================================== the body

def CEILING_VALUES : List (String × CeilingValue) :=
  [("read", .permission .read), ("write", .permission .write), ("admin", .permission .admin),
    ("skill", .skill)]

def CeilingValue.text : CeilingValue → String
  | .permission .read => "read"
  | .permission .write => "write"
  | .permission .admin => "admin"
  | .skill => "skill"

/-- `isCeilingValue`, with the value. -/
def ceilingValue : Json → Option CeilingValue
  | .string units => CEILING_VALUES.lookup (Js.toWellFormed units)
  | _ => none

/-- `isStringArray(value) && value.every(isCeilingValue)`. -/
def readCeiling : Json → Option (List CeilingValue)
  | .array items => items.mapM ceilingValue
  | _ => none

/-- A field of a JSON object, `undefined` when there is none. -/
def field (name : String) : Json → Option Json
  | .object fields => fields.lookup (Js.codeUnits name)
  | _ => none

/-- `need`: the field where it is a string that is not empty. -/
def need (body : Json) (name : String) : Option String :=
  match field name body with
  | some (.string units) => if units = [] then none else some (Js.toWellFormed units)
  | _ => none

/-- One entry of `layers`: an id, or an id with a ceiling of its own. -/
def readEntry : Json → Option NarrowedLayer
  | .string units => some { id := Js.toWellFormed units }
  | .object fields =>
      match field "id" (.object fields) with
      | some (.string units) =>
          match field "permissions" (.object fields) with
          | none => some { id := Js.toWellFormed units }
          | some value =>
              match readCeiling value with
              | none => none
              | some permissions =>
                  if permissions = [] then none
                  else some { id := Js.toWellFormed units, permissions := some permissions }
      | _ => none
  | _ => none

/-- `none` for `INVALID`; no narrowing is an answer of its own. -/
def readNarrowing : Option Json → Option (Option (List NarrowedLayer))
  | none => some none
  | some (.array items) => (items.mapM readEntry).map some
  | some _ => none

-- =========================================================== the handler

inductive Surface where
  | default
  | admin
  deriving DecidableEq, Repr

inductive ConsentSubject where
  | serviceAccount (serviceAccountId : String)
  | user (userId : String)
  deriving DecidableEq

/-- The arguments of `record`. -/
structure RecordCall where
  orgId : String
  /-- `auth.principal.id`. -/
  approver : String
  clientId : String
  subject : ConsentSubject
  layers : List NarrowedLayer
  permissions : Option (List CeilingValue)
  surface : Surface
  deriving DecidableEq

/-- What the handler's own reads found. -/
structure Found where
  /-- `namesAdminResource(need('resource'))`. -/
  administrative : Bool
  /-- The client is known, and the redirect URI is one it registered. -/
  clientAllowed : Bool
  accountVisible : Bool
  /-- The ids `layers.list` shows the caller. -/
  readable : List String
  deriving DecidableEq

inductive Answer where
  | badRequest (detail : String)
  | notFound
  /-- The refusal goes back to the client; nothing is stored. -/
  | declined
  | record (call : RecordCall)
  deriving DecidableEq

/-- The first entry with a value the connection's ceiling excludes. -/
def outside (ceiling : List CeilingValue) (narrowing : List NarrowedLayer) :
    Option NarrowedLayer :=
  narrowing.find? fun l => (l.permissions.getD []).any fun p => !ceiling.contains p

def joined (values : List CeilingValue) : String :=
  ", ".intercalate (values.map CeilingValue.text)

/-- A delegation, once the client is known to be allowed. -/
def delegating (found : Found) (auth : AuthContext) (clientId : String)
    (narrowing : Option (List NarrowedLayer)) (ceiling : Option (List CeilingValue)) : Answer :=
  let entries := narrowing.getD []
  if entries.any fun l => !found.readable.contains l.id then .notFound
  else
    match ceiling.bind fun allowed => (outside allowed entries).map (·, allowed) with
    | some (l, allowed) =>
        .badRequest ("A layer may not be given more than the connection: "
          ++ joined (l.permissions.getD []) ++ " against a ceiling of " ++ joined allowed ++ ".")
    | none =>
        .record
          (if found.administrative then
            { orgId := auth.orgId, approver := auth.principal.id, clientId,
              subject := .user auth.principal.id, layers := [],
              permissions := some [.permission .read, .permission .admin], surface := .admin }
          else
            { orgId := auth.orgId, approver := auth.principal.id, clientId,
              subject := .user auth.principal.id, layers := entries,
              permissions := ceiling, surface := .default })

/-- An agent, once the client is known to be allowed. -/
def naming (found : Found) (auth : AuthContext) (clientId serviceAccountId : String) : Answer :=
  if !administers auth then .notFound
  else if !found.accountVisible then .notFound
  else
    .record
      { orgId := auth.orgId, approver := auth.principal.id, clientId,
        subject := .serviceAccount serviceAccountId, layers := [], permissions := none,
        surface := .default }

/-- The rules of the administrative MCP, each refused before anything is
stored. -/
def administrativeRefusal (found : Found) (auth : AuthContext) (body : Json)
    (isDelegation : Bool) : Option Answer :=
  if !found.administrative then none
  else if !isDelegation then
    some (.badRequest ("The administrative MCP connects a person. It cannot act as an agent: "
      ++ "an agent holds grants, never the role it administers with."))
  else if !administers auth then some .notFound
  else if (field "layers" body).isSome || (field "permissions" body).isSome then
    some (.badRequest ("The administrative MCP takes no 'layers' and no 'permissions': "
      ++ "it reads no documents to narrow, and what it may do is fixed."))
  else none

/-- What is said about the ceiling and the narrowing before the client is
looked at. -/
def ceilingRefusal (isDelegation : Bool) (narrowing : Option (List NarrowedLayer))
    (ceiling : Option (List CeilingValue)) : Option Answer :=
  if isDelegation && ceiling == some [] then
    some (.badRequest
      "'permissions' cannot be empty. Omit it for a delegation with no restriction.")
  else if !isDelegation && ceiling.isSome then
    some (.badRequest "'permissions' restricts a delegation, and this consent names an agent.")
  else if !isDelegation && !(narrowing.getD []).isEmpty then
    some (.badRequest "'layers' narrows a delegation, and this consent names an agent.")
  else none

/-- The body's `permissions`: `none` when it is no ceiling. -/
def readPermissions : Option Json → Option (Option (List CeilingValue))
  | none => some none
  | some value => (readCeiling value).map some

/-- An approval, once the fields every consent needs are there. -/
def approve (found : Found) (auth : AuthContext) (body : Json) (clientId : String) : Answer :=
  let serviceAccountId := need body "service_account_id"
  let isDelegation := serviceAccountId.isNone
  if isDelegation && administersTenants auth then .notFound
  else
    match administrativeRefusal found auth body isDelegation with
    | some refusal => refusal
    | none =>
        match readNarrowing (field "layers" body) with
        | none =>
            .badRequest ("'layers' must be an array of layer ids, or of \x7b id, permissions \x7d "
              ++ "objects whose permissions are a non-empty subset of read, write, admin and skill.")
        | some narrowing =>
            match readPermissions (field "permissions" body) with
            | none =>
                .badRequest "'permissions' must be an array of 'read', 'write', 'admin' or 'skill'."
            | some ceiling =>
                match ceilingRefusal isDelegation narrowing ceiling with
                | some refusal => refusal
                | none =>
                    if !found.clientAllowed then
                      .badRequest "Unknown client, or a redirect_uri it did not register."
                    else
                      match serviceAccountId with
                      | none => delegating found auth clientId narrowing ceiling
                      | some account => naming found auth clientId account

/-- `POST /v1/oauth/consent`, up to the call of `record`. -/
def consent (found : Found) (auth : AuthContext) (body : Json) : Answer :=
  if auth.principal.type ≠ .user then .notFound
  else if auth.delegation.isSome then .notFound
  else
    match need body "client_id", need body "redirect_uri", need body "code_challenge" with
    | some clientId, some _, some _ =>
        if field "decision" body = some (.string (Js.codeUnits "deny")) then
          if found.clientAllowed then .declined
          else .badRequest "Unknown client, or a redirect_uri it did not register."
        else approve found auth body clientId
    | _, _, _ => .badRequest "'client_id', 'redirect_uri' and 'code_challenge' are required."

-- ======================================================= what a body says

/-- A JSON string that reads `s`. -/
def Spells (value : Json) (s : String) : Prop :=
  ∃ units, value = .string units ∧ Js.toWellFormed units = s

/-- A JSON array with the value among its items. -/
def Lists (value : Json) (v : CeilingValue) : Prop :=
  ∃ items, value = .array items ∧ ∃ item ∈ items, Spells item (CeilingValue.text v)

/-- An entry for the layer that inherits the ceiling, or lists the value
itself. -/
def EntryNames (entry : Json) (layerId : String) (v : CeilingValue) : Prop :=
  Spells entry layerId ∨
    ∃ id, field "id" entry = some id ∧ Spells id layerId ∧
      (field "permissions" entry = none ∨ ∃ value, field "permissions" entry = some value ∧ Lists value v)

def CeilingNames (body : Json) (v : CeilingValue) : Prop :=
  field "permissions" body = none ∨
    ∃ value, field "permissions" body = some value ∧ Lists value v

/-- No narrowing, or one with an entry that admits the value. -/
def NarrowingNames (body : Json) (layerId : String) (v : CeilingValue) : Prop :=
  field "layers" body = none ∨ field "layers" body = some (.array []) ∨
    ∃ items, field "layers" body = some (.array items) ∧
      ∃ entry ∈ items, EntryNames entry layerId v

/-- What the person approved, of one layer. -/
def Names (found : Found) (body : Json) (layerId : String) (v : CeilingValue) : Prop :=
  if found.administrative = true then v = .permission .read ∨ v = .permission .admin
  else CeilingNames body v ∧ NarrowingNames body layerId v

/-- A ceiling that is absent, or holds the value. -/
def Within (ceiling : Option (List CeilingValue)) (v : CeilingValue) : Prop :=
  ∀ values, ceiling = some values → v ∈ values

/-- What `record` is asked to store, of one layer. -/
def RecordCall.Admits (call : RecordCall) (layerId : String) (v : CeilingValue) : Prop :=
  Within call.permissions v ∧
    (call.layers = [] ∨ ∃ e ∈ call.layers, e.id = layerId ∧ Within e.permissions v)

-- ============================================================ the parsers

theorem mem_mapM {α β : Type} {f : α → Option β} {b : β} :
    ∀ {xs : List α} {ys : List β}, xs.mapM f = some ys → b ∈ ys → ∃ x ∈ xs, f x = some b := by
  intro xs
  induction xs with
  | nil =>
      intro ys h hb
      simp only [List.mapM_nil, Option.pure_def, Option.some.injEq] at h
      subst h
      simp at hb
  | cons x xs ih =>
      intro ys h hb
      simp only [List.mapM_cons, Option.bind_eq_bind, Option.bind_eq_some_iff, Option.pure_def,
        Option.some.injEq] at h
      obtain ⟨y, hy, zs, hzs, rfl⟩ := h
      rcases List.mem_cons.mp hb with rfl | hb
      · exact ⟨x, by simp, hy⟩
      · obtain ⟨x', hx', hfx'⟩ := ih hzs hb
        exact ⟨x', by simp [hx'], hfx'⟩

theorem ceilingValue_spells {item : Json} {v : CeilingValue} (h : ceilingValue item = some v) :
    Spells item (CeilingValue.text v) := by
  cases item with
  | string units =>
      have hmem : (Js.toWellFormed units, v) ∈ CEILING_VALUES :=
        (Js.lookup_eq_some_iff_mem (by decide)).mp h
      refine ⟨units, rfl, ?_⟩
      simp only [CEILING_VALUES, List.mem_cons, Prod.mk.injEq, List.not_mem_nil, or_false] at hmem
      obtain ⟨htext, rfl⟩ | ⟨htext, rfl⟩ | ⟨htext, rfl⟩ | ⟨htext, rfl⟩ := hmem <;> exact htext
  | _ => simp [ceilingValue] at h

theorem readCeiling_lists {value : Json} {values : List CeilingValue} {v : CeilingValue}
    (h : readCeiling value = some values) (hv : v ∈ values) : Lists value v := by
  cases value with
  | array items =>
      obtain ⟨item, hitem, hvalue⟩ := mem_mapM h hv
      exact ⟨items, rfl, item, hitem, ceilingValue_spells hvalue⟩
  | _ => simp [readCeiling] at h

/-- An entry is read as what it says, and no entry has an empty ceiling. -/
theorem readEntry_names {entry : Json} {e : NarrowedLayer} (h : readEntry entry = some e) :
    e.permissions ≠ some [] ∧
      ∀ v, Within e.permissions v → EntryNames entry e.id v := by
  cases entry with
  | string units =>
      cases h
      exact ⟨nofun, fun v _ => .inl ⟨units, rfl, rfl⟩⟩
  | object fields =>
      simp only [readEntry] at h
      split at h
      next units hid =>
        split at h
        next hnone =>
          cases h
          exact ⟨nofun, fun v _ => .inr ⟨_, hid, ⟨units, rfl, rfl⟩, .inl hnone⟩⟩
        next value hvalue =>
          split at h
          next => cases h
          next permissions hread =>
            split at h
            next => cases h
            next hne =>
              cases h
              refine ⟨by simpa using hne, fun v hv => ?_⟩
              have hlists : Lists value v := readCeiling_lists hread (hv permissions rfl)
              exact .inr ⟨_, hid, ⟨units, rfl, rfl⟩, .inr ⟨value, hvalue, hlists⟩⟩
      next => cases h
  | _ => simp [readEntry] at h

/-- The narrowing that is read: what it admits the body names, and none
of its entries has an empty ceiling. -/
theorem readNarrowing_names {body : Json} {narrowing : Option (List NarrowedLayer)}
    (h : readNarrowing (field "layers" body) = some narrowing) :
    (∀ e ∈ narrowing.getD [], e.permissions ≠ some []) ∧
      ∀ l v, (narrowing.getD [] = [] ∨
        ∃ e ∈ narrowing.getD [], e.id = l ∧ Within e.permissions v) → NarrowingNames body l v := by
  unfold NarrowingNames
  generalize field "layers" body = layers at h
  match layers, h with
  | none, h =>
      cases h
      exact ⟨by simp, fun _ _ _ => .inl rfl⟩
  | some (.array items), h =>
      simp only [readNarrowing, Option.map_eq_some_iff] at h
      obtain ⟨entries, hentries, rfl⟩ := h
      refine ⟨fun e he => ?_, fun l v hadmits => .inr ?_⟩
      · obtain ⟨entry, -, hread⟩ := mem_mapM hentries he
        exact (readEntry_names hread).1
      · obtain hnil | ⟨e, he, rfl, hv⟩ := hadmits
        · cases items with
          | nil => exact .inl rfl
          | cons entry items =>
              simp only [Option.getD_some] at hnil
              subst hnil
              simp [List.mapM_cons, Option.bind_eq_some_iff] at hentries
        · obtain ⟨entry, hentry, hread⟩ := mem_mapM hentries he
          exact .inr ⟨items, rfl, entry, hentry, (readEntry_names hread).2 v hv⟩

theorem readPermissions_names {body : Json} {ceiling : Option (List CeilingValue)}
    (h : readPermissions (field "permissions" body) = some ceiling) :
    ∀ v, Within ceiling v → CeilingNames body v := by
  intro v hv
  unfold CeilingNames
  cases hfield : field "permissions" body with
  | none => exact .inl rfl
  | some value =>
      rw [hfield] at h
      simp only [readPermissions, Option.map_eq_some_iff] at h
      obtain ⟨values, hread, rfl⟩ := h
      exact .inr ⟨value, rfl, readCeiling_lists hread (hv values rfl)⟩

-- ============================================================ the handler

/-- What every call of `record` is. -/
structure RecordCall.Proper (call : RecordCall) (found : Found) (auth : AuthContext)
    (body : Json) : Prop where
  org : call.orgId = auth.orgId
  approver : call.approver = auth.principal.id
  /-- An agent's reach is its grants. -/
  agent : ∀ account, call.subject = .serviceAccount account →
    call.layers = [] ∧ call.permissions = none ∧ call.surface = .default
  person : ∀ userId, call.subject = .user userId → userId = call.approver
  readable : ∀ e ∈ call.layers, e.id ∈ found.readable
  ceilings : call.permissions ≠ some [] ∧ ∀ e ∈ call.layers, e.permissions ≠ some []
  names : ∀ userId, call.subject = .user userId →
    ∀ l v, call.Admits l v → Names found body l v

theorem naming_record {found : Found} {auth : AuthContext} {clientId account : String}
    {call : RecordCall} (body : Json) (h : naming found auth clientId account = .record call) :
    call.Proper found auth body := by
  unfold naming at h
  split at h
  next => cases h
  next =>
    split at h
    next => cases h
    next =>
      cases h
      exact ⟨rfl, rfl, fun _ _ => ⟨rfl, rfl, rfl⟩, nofun, nofun, ⟨nofun, nofun⟩, nofun⟩

theorem delegating_record {found : Found} {auth : AuthContext} {body : Json} {clientId : String}
    {narrowing : Option (List NarrowedLayer)} {ceiling : Option (List CeilingValue)}
    {call : RecordCall} (hnarrowing : readNarrowing (field "layers" body) = some narrowing)
    (hceiling : readPermissions (field "permissions" body) = some ceiling)
    (hne : ceiling ≠ some []) (h : delegating found auth clientId narrowing ceiling = .record call) :
    call.Proper found auth body := by
  unfold delegating at h
  simp only at h
  split at h
  next => cases h
  next hreadable =>
    split at h
    next => cases h
    next =>
      have hentries := readNarrowing_names hnarrowing
      cases h
      by_cases hadmin : found.administrative = true
      · simp only [hadmin, if_true]
        refine ⟨rfl, rfl, (fun _ h => by cases h), ?_, List.forall_mem_nil _,
          ⟨(fun h => by cases h), List.forall_mem_nil _⟩, ?_⟩
        · rintro _ ⟨⟩
          rfl
        · intro _ _ l v hadmits
          have hv := hadmits.1 _ rfl
          simp only [List.mem_cons, List.not_mem_nil, or_false] at hv
          simpa [Names, hadmin] using hv
      · simp only [hadmin, if_false, Bool.false_eq_true]
        refine ⟨rfl, rfl, (fun _ h => by cases h), ?_, ?_, ⟨hne, hentries.1⟩, ?_⟩
        · rintro _ ⟨⟩
          rfl
        · intro e he
          simp only [List.any_eq_true, not_exists, not_and, Bool.not_eq_true', List.contains_eq_mem,
            decide_eq_false_iff_not, not_not] at hreadable
          exact hreadable e he
        · intro _ _ l v hadmits
          rw [Names, if_neg hadmin]
          exact ⟨readPermissions_names hceiling v hadmits.1, hentries.2 l v hadmits.2⟩

/-- A refusal is no call. -/
theorem administrativeRefusal_ne {found : Found} {auth : AuthContext} {body : Json}
    {isDelegation : Bool} {refusal : Answer} {call : RecordCall}
    (h : administrativeRefusal found auth body isDelegation = some refusal) :
    refusal ≠ .record call := by
  rintro rfl
  unfold administrativeRefusal at h
  repeat (split at h; simp at h)
  simp at h

theorem ceilingRefusal_ne {isDelegation : Bool} {narrowing : Option (List NarrowedLayer)}
    {ceiling : Option (List CeilingValue)} {refusal : Answer} {call : RecordCall}
    (h : ceilingRefusal isDelegation narrowing ceiling = some refusal) :
    refusal ≠ .record call := by
  rintro rfl
  unfold ceilingRefusal at h
  repeat (split at h; simp at h)
  simp at h

theorem approve_record {found : Found} {auth : AuthContext} {body : Json} {clientId : String}
    {call : RecordCall} (h : approve found auth body clientId = .record call) :
    call.Proper found auth body := by
  unfold approve at h
  simp only at h
  split at h
  next => cases h
  next =>
    split at h
    next refusal hrefusal => exact absurd h (administrativeRefusal_ne hrefusal)
    next =>
      split at h
      next => cases h
      next narrowing hnarrowing =>
        split at h
        next => cases h
        next ceiling hceiling =>
          split at h
          next refusal hrefusal => exact absurd h (ceilingRefusal_ne hrefusal)
          next hpasses =>
            split at h
            next => cases h
            next =>
              split at h
              next hnobody =>
                refine delegating_record hnarrowing hceiling (fun hempty => ?_) h
                simp [ceilingRefusal, hnobody, hempty] at hpasses
              next => exact naming_record body h

/-- What the handler hands to `record` is no more than the body names. -/
theorem consent_record {found : Found} {auth : AuthContext} {body : Json} {call : RecordCall}
    (h : consent found auth body = .record call) : call.Proper found auth body := by
  unfold consent at h
  split at h
  next => cases h
  next =>
    split at h
    next => cases h
    next =>
      split at h
      next clientId _ _ _ _ _ =>
        split at h
        next => split at h <;> cases h
        next => exact approve_record h
      next => cases h

end Nacre.Delegations
