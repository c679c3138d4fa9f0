/-
Who sees a layer's skill and who writes it (api/src/skills.ts,
api/src/skill-ceiling.ts).

Two routes decide on one layer. A skill is visible where the plan of the
request, ceiling included, reaches the layer to read or to write it, inside
the narrowing. It is written where the plan of the person, the ceiling left
out, reaches it to administer it, and the ceiling admits `admin` or `skill`
there. What a delegation may write and does not see is added to what it sees
(`skillWritable`); for a person nothing is added, "`admin` implies `read`".

# Where the two disagree

`admin` implies `read`, but a deny of `read` is no deny of `admin`. A person
who administers a layer and is denied both `read` and `write` on it may write
its skill and does not see it (`ShutOut`); the gate answers that it is not
there. `skills_agree_iff`: everything else agrees, for every context, every
grant and every ceiling.

The ids of a plan and of a delegation are read from `uuid` columns: the casts
of the statements are the identity on them.
-/
import Nacre.Delegations.Consent

namespace Nacre.Skills

open Nacre.Authz Nacre.Api
open Nacre.Delegations (administers administersTenants Within)

-- =========================================================== the ceiling

/-- `permissions === undefined || permissions.includes(value)`. -/
def holds (permissions : Option (List CeilingValue)) (value : CeilingValue) : Bool :=
  match permissions with
  | none => true
  | some permissions => permissions.contains value

/-- Whether a value is in the ceiling on one layer: the connection's and
the layer's own, both. -/
def inCeiling (auth : AuthContext) (layerId : String) (value : CeilingValue) : Bool :=
  match auth.delegation with
  | none => true
  | some delegation =>
      if !holds delegation.permissions value then false
      else
        match delegation.layers with
        | none => true
        | some layers =>
            match layers.find? (·.id == layerId) with
            | none => false
            | some entry => holds entry.permissions value

def skillCeilingAdmits (auth : AuthContext) (layerId : String) : Bool :=
  inCeiling auth layerId (.permission .admin) || inCeiling auth layerId .skill

/-- The layers on which the ceiling admits writing a skill, `none` for
every layer. -/
def skillCeilingLayers (auth : AuthContext) : Option (List String) :=
  match auth.delegation with
  | none => none
  | some delegation =>
      match delegation.layers with
      | none =>
          if holds delegation.permissions (.permission .admin) || holds delegation.permissions .skill
          then none
          else some []
      | some layers => some ((layers.filter fun l => skillCeilingAdmits auth l.id).map (·.id))

-- ======================================================= seeing, writing

/-- `SELECT id FROM layers WHERE … AND deleted_at IS NULL`. -/
def liveIds (db : OrgDb) : List String := db.liveLayers.map (·.id)

/-- The layers a plan names; every live one where it names none. -/
def reached (db : OrgDb) : AccessPlan → List String
  | .none => []
  | .all => liveIds db
  | .scoped layers _ _ => layers

/-- The layers a plan reaches for one permission, inside the narrowing. -/
def reachedWithin (db : OrgDb) (auth : AuthContext) (permission : Permission) : List String :=
  (reached db (resolve (contextFor db auth) permission)).filter fun id =>
    match delegatedLayers auth permission with
    | none => true
    | some narrowing => narrowing.contains id

/-- The live layers whose skill this caller sees. -/
def visibleLayers (db : OrgDb) (auth : AuthContext) : List String :=
  if administersTenants auth then []
  else
    let seen := reachedWithin db auth .read ++ reachedWithin db auth .write
    (liveIds db).filter seen.contains

/-- `admin` resolved for the person, without the token's ceiling. -/
def personAdmin (db : OrgDb) (auth : AuthContext) : AccessPlan :=
  resolve { contextFor db auth with ceiling := none } .admin

def mayWriteLayer (db : OrgDb) (auth : AuthContext) (layerId : String) : Bool :=
  if administersTenants auth then false
  else if !skillCeilingAdmits auth layerId then false
  else
    match personAdmin db auth with
    | .none => false
    | .all => true
    | .scoped layers _ _ => layers.contains layerId

/-- The live layers whose skill a delegation may write. -/
def skillWritable (db : OrgDb) (auth : AuthContext) : List String :=
  if auth.delegation.isNone || administersTenants auth then []
  else
    let admitted := skillCeilingLayers auth
    if admitted == some [] then []
    else
      match personAdmin db auth with
      | .none => []
      | .all =>
          match admitted with
          | none => liveIds db
          | some admitted => (liveIds db).filter admitted.contains
      | .scoped layers _ _ =>
          match admitted with
          | none => (liveIds db).filter layers.contains
          | some admitted => (liveIds db).filter (layers.filter admitted.contains).contains

/-- Every live layer whose skill this caller may see. -/
def reachableLayers (db : OrgDb) (auth : AuthContext) : List String :=
  visibleLayers db auth ++ skillWritable db auth

inductive SkillLevel where
  | installation
  | organization
  | layer (layerId : String)
  deriving DecidableEq

inductive SkillSurface where
  | rest
  | mcp
  | mcpAdmin
  deriving DecidableEq

def mayReadLevel (db : OrgDb) (auth : AuthContext) : SkillLevel → Bool
  | .installation => true
  | .organization => !administersTenants auth
  | .layer layerId => (reachableLayers db auth).contains layerId

def mayWriteLevel (db : OrgDb) (auth : AuthContext) : SkillLevel → Bool
  | .installation => administersTenants auth
  | .organization => administers auth
  | .layer layerId => mayWriteLayer db auth layerId

inductive Refusal where
  | notFound
  | forbidden
  deriving DecidableEq

/-- Visibility and permission, in that order; `none` where the caller may
write the level. -/
def gate (db : OrgDb) (auth : AuthContext) (level : SkillLevel) (surface : SkillSurface) :
    Option Refusal :=
  match level with
  | .installation =>
      if surface ≠ .rest then some .notFound
      else if administersTenants auth then none
      else some .notFound
  | .organization =>
      if !mayReadLevel db auth .organization then some .notFound
      else if mayWriteLevel db auth .organization then none
      else some .forbidden
  | .layer layerId =>
      if !mayReadLevel db auth (.layer layerId) then some .notFound
      else if !(liveIds db).contains layerId then some .notFound
      else if mayWriteLevel db auth (.layer layerId) then none
      else some .forbidden

-- ========================================================= what is asked

/-- May the person behind the request do this to the layer, no ceiling
asked? -/
def personAllows (db : OrgDb) (auth : AuthContext) (layerId : String) (p : Permission) : Bool :=
  referenceAllows { contextFor db auth with ceiling := none } ⟨.layer, layerId⟩ p

/-- A value in the connection's ceiling and in the layer's own, an absent
ceiling holding every value and a layer outside the narrowing none. -/
def InCeilings (delegation : Delegation) (layerId : String) (value : CeilingValue) : Prop :=
  Within delegation.permissions value ∧
    ∀ layers, delegation.layers = some layers →
      ∃ entry, layers.find? (·.id == layerId) = some entry ∧ Within entry.permissions value

/-- Two ceilings that differ in `skill` only. -/
def CeilingsAlike (a b : Option (List CeilingValue)) : Prop :=
  a.map permissionsOf = b.map permissionsOf

/-- Two delegations that differ in `skill` only, anywhere in the ceilings. -/
structure DelegationsAlike (a b : Delegation) : Prop where
  connection : CeilingsAlike a.permissions b.permissions
  narrowed : a.layers = none ↔ b.layers = none
  layers : List.Forall₂
    (fun x y : NarrowedLayer => x.id = y.id ∧ CeilingsAlike x.permissions y.permissions)
    (a.layers.getD []) (b.layers.getD [])

/-- The same request, but for `skill` in the ceilings. -/
structure AlikeButSkill (auth auth' : AuthContext) : Prop where
  org : auth.orgId = auth'.orgId
  principal : auth.principal = auth'.principal
  role : auth.role = auth'.role
  delegated : auth.delegation = none ↔ auth'.delegation = none
  delegation : ∀ a b, auth.delegation = some a → auth'.delegation = some b → DelegationsAlike a b

structure SkillsAgree (db : OrgDb) (auth : AuthContext) (layerId : String) : Prop where
  /-- The person administers the layer, and the ceilings admit it. -/
  writes : mayWriteLayer db auth layerId = true ↔
    personAllows db auth layerId .admin = true ∧
      ∀ delegation, auth.delegation = some delegation →
        InCeilings delegation layerId (.permission .admin) ∨
          InCeilings delegation layerId .skill
  /-- What may be written is reached, and the gate is open. -/
  reaches : mayWriteLayer db auth layerId = true →
    layerId ∈ reachableLayers db auth ∧ ∀ surface, gate db auth (.layer layerId) surface = none
  lists : (∀ admitted, skillCeilingLayers auth = some admitted → layerId ∈ admitted) ↔
    skillCeilingAdmits auth layerId = true
  /-- `skill` is in no plan and in no narrowing. -/
  apart : ∀ auth', AlikeButSkill auth auth' → ∀ p,
    (∀ documentIds, resolve (resolveInput db auth' documentIds) p
        = resolve (resolveInput db auth documentIds) p) ∧
      delegatedLayers auth' p = delegatedLayers auth p

/-- A deny of exactly this permission covers the layer. -/
def Denied (db : OrgDb) (auth : AuthContext) (layerId : String) (p : Permission) : Prop :=
  ∃ g ∈ (contextFor db auth).grants, (contextFor db auth).mine g = true ∧ g.effect = .deny ∧
    g.permission = p ∧ grantCovers (contextFor db auth).tree g ⟨.layer, layerId⟩

/-- A person, no delegation between, who administers the layer by a grant
and is denied `read` and `write` on it. -/
structure ShutOut (db : OrgDb) (auth : AuthContext) (layerId : String) : Prop where
  undelegated : auth.delegation = none
  member : auth.role = .member
  admin : personAllows db auth layerId .admin = true
  read : Denied db auth layerId .read
  write : Denied db auth layerId .write

variable {db : OrgDb} {auth : AuthContext} {layerId : String} {p : Permission}

-- =========================================================== the ceiling

theorem holds_iff {permissions : Option (List CeilingValue)} {value : CeilingValue} :
    holds permissions value = true ↔ Within permissions value := by
  cases permissions with
  | none => simp [holds, Within]
  | some permissions => simp [holds, Within]

theorem inCeiling_iff {delegation : Delegation} {value : CeilingValue}
    (hd : auth.delegation = some delegation) :
    inCeiling auth layerId value = true ↔ InCeilings delegation layerId value := by
  simp only [inCeiling, InCeilings, hd, ← holds_iff]
  cases hp : holds delegation.permissions value with
  | false => simp
  | true =>
      cases hl : delegation.layers with
      | none => simp
      | some layers =>
          cases hf : layers.find? (·.id == layerId) with
          | none => simp [hf]
          | some entry => simp [hf]

theorem inCeiling_undelegated {value : CeilingValue} (hd : auth.delegation = none) :
    inCeiling auth layerId value = true := by
  simp [inCeiling, hd]

theorem skillCeilingAdmits_iff :
    skillCeilingAdmits auth layerId = true ↔
      ∀ delegation, auth.delegation = some delegation →
        InCeilings delegation layerId (.permission .admin) ∨
          InCeilings delegation layerId .skill := by
  unfold skillCeilingAdmits
  rw [Bool.or_eq_true]
  cases hd : auth.delegation with
  | none => simp [inCeiling_undelegated hd]
  | some delegation =>
      rw [inCeiling_iff hd, inCeiling_iff hd]
      simp

/-- The list and the predicate say the same of every layer. -/
theorem skillCeilingLayers_iff :
    (∀ admitted, skillCeilingLayers auth = some admitted → layerId ∈ admitted) ↔
      skillCeilingAdmits auth layerId = true := by
  cases hd : auth.delegation with
  | none => simp [skillCeilingLayers, skillCeilingAdmits, inCeiling, hd]
  | some delegation =>
      cases hl : delegation.layers with
      | none =>
          simp only [skillCeilingLayers, skillCeilingAdmits, inCeiling, hd, hl]
          cases hadmin : holds delegation.permissions (.permission .admin) <;>
            cases hskill : holds delegation.permissions .skill <;> simp
      | some layers =>
          simp only [skillCeilingLayers, hd, hl, Option.some.injEq, forall_eq', List.mem_map,
            List.mem_filter]
          constructor
          · intro hmem
            obtain ⟨entry, ⟨-, hadmits⟩, rfl⟩ := hmem
            exact hadmits
          · intro hadmits
            -- A layer that is admitted has an entry.
            have hentry : ∃ entry, layers.find? (·.id == layerId) = some entry := by
              obtain h | h := skillCeilingAdmits_iff.mp hadmits delegation hd
              · obtain ⟨entry, hfind, -⟩ := h.2 layers hl
                exact ⟨entry, hfind⟩
              · obtain ⟨entry, hfind, -⟩ := h.2 layers hl
                exact ⟨entry, hfind⟩
            obtain ⟨entry, hfind⟩ := hentry
            have hid : entry.id = layerId := by simpa using List.find?_some hfind
            exact ⟨entry, ⟨List.mem_of_find?_eq_some hfind, by rw [hid]; exact hadmits⟩, hid⟩

-- =============================================================== writing

/-- The person's own context: what is resolved with the ceiling left out. -/
theorem reachesLayer_iff :
    (resolve { contextFor db auth with ceiling := none } p).reachesLayer layerId = true ↔
      personAllows db auth layerId p = true := by
  rw [personAllows, referenceAllows_iff]
  exact resolve_reachesLayer_iff_permitted (loadScopeTree_agrees db _)

theorem personAdmin_iff :
    (personAdmin db auth).reachesLayer layerId = true ↔
      personAllows db auth layerId .admin = true :=
  reachesLayer_iff

theorem tenants_false (hrole : auth.role ≠ .platformAdmin) : administersTenants auth = false := by
  simpa [administersTenants] using hrole

theorem mayWriteLayer_eq (hrole : auth.role ≠ .platformAdmin) :
    mayWriteLayer db auth layerId = true ↔
      skillCeilingAdmits auth layerId = true ∧
        (personAdmin db auth).reachesLayer layerId = true := by
  unfold mayWriteLayer
  rw [tenants_false hrole]
  cases hadmits : skillCeilingAdmits auth layerId with
  | false => simp
  | true =>
      simp only [Bool.false_eq_true, if_false, Bool.not_true, true_and]
      rfl

theorem mayWriteLayer_iff (hrole : auth.role ≠ .platformAdmin) :
    mayWriteLayer db auth layerId = true ↔
      personAllows db auth layerId .admin = true ∧
        ∀ delegation, auth.delegation = some delegation →
          InCeilings delegation layerId (.permission .admin) ∨
            InCeilings delegation layerId .skill := by
  rw [mayWriteLayer_eq hrole, personAdmin_iff, skillCeilingAdmits_iff, and_comm]

-- ================================================================ seeing

/-- What a delegation may write, it sees. -/
theorem mem_skillWritable (hrole : auth.role ≠ .platformAdmin) (hd : auth.delegation ≠ none)
    (hlive : layerId ∈ liveIds db) (hwrites : mayWriteLayer db auth layerId = true) :
    layerId ∈ skillWritable db auth := by
  obtain ⟨hadmits, hreach⟩ := (mayWriteLayer_eq hrole).mp hwrites
  have hlist := skillCeilingLayers_iff.mpr hadmits
  have hsome : auth.delegation.isNone = false := by
    cases hdel : auth.delegation with
    | none => exact absurd hdel hd
    | some _ => rfl
  unfold skillWritable
  rw [hsome, tenants_false hrole]
  cases hadmitted : skillCeilingLayers auth with
  | none =>
      rcases hplan : personAdmin db auth with _ | _ | ⟨layers, extra, denied⟩
      · simp [hplan, AccessPlan.reachesLayer] at hreach
      · simpa using hlive
      · have hmem : layerId ∈ layers := by simpa [hplan, AccessPlan.reachesLayer] using hreach
        simpa [hmem] using hlive
  | some admitted =>
      have hin : layerId ∈ admitted := hlist admitted hadmitted
      have hne : admitted ≠ [] := by
        intro hnil
        rw [hnil] at hin
        cases hin
      rcases hplan : personAdmin db auth with _ | _ | ⟨layers, extra, denied⟩
      · simp [hplan, AccessPlan.reachesLayer] at hreach
      · simpa [hin, hne] using hlive
      · have hmem : layerId ∈ layers := by simpa [hplan, AccessPlan.reachesLayer] using hreach
        simpa [hin, hne, hmem] using hlive

theorem mem_reached_iff {plan : AccessPlan} (hlive : layerId ∈ liveIds db) :
    layerId ∈ reached db plan ↔ plan.reachesLayer layerId = true := by
  cases plan <;> simp [reached, AccessPlan.reachesLayer, hlive]

/-- With no delegation between, a skill is visible where the person may
read or write the layer. -/
theorem mem_visible_iff (hrole : auth.role ≠ .platformAdmin) (hd : auth.delegation = none)
    (hlive : layerId ∈ liveIds db) :
    layerId ∈ visibleLayers db auth ↔
      personAllows db auth layerId .read = true ∨ personAllows db auth layerId .write = true := by
  have hcontext : { contextFor db auth with ceiling := none } = contextFor db auth := by
    simp [contextFor, resolveInput, ceilingOf, hd]
  have hwithin : ∀ p, layerId ∈ reachedWithin db auth p ↔
      personAllows db auth layerId p = true := by
    intro p
    rw [← reachesLayer_iff, hcontext, ← mem_reached_iff hlive]
    simp [reachedWithin, delegatedLayers, hd]
  simp [visibleLayers, tenants_false hrole, hlive, hwithin]

/-- Administering a layer is reading and writing it, but for a deny of
just that. -/
theorem personAllows_of_admin (hmember : auth.role = .member)
    (hadmin : personAllows db auth layerId .admin = true) :
    personAllows db auth layerId p = true ↔ ¬ Denied db auth layerId p := by
  simp only [personAllows, referenceAllows_iff] at hadmin ⊢
  obtain ⟨-, h | ⟨-, ⟨g, hg, hcovers⟩, hfree⟩⟩ := hadmin
  · exact absurd (hmember.symm.trans h) nofun
  · obtain ⟨⟨hmem, hmine, hsat⟩, heffect⟩ := mem_rules.mp hg
    have hgadmin : g.permission = .admin := by
      rcases (satisfies_iff _ _).mp hsat with h | h <;> exact h
    constructor
    · intro hpermitted hdenied
      obtain ⟨d, hd, hdmine, hdeny, hdp, hdcovers⟩ := hdenied
      obtain ⟨-, h | ⟨-, -, hno⟩⟩ := hpermitted
      · exact absurd (hmember.symm.trans h) nofun
      · exact hno ⟨d, mem_rules.mpr ⟨⟨hd, hdmine, (satisfies_iff _ _).mpr (.inl hdp)⟩, hdeny⟩,
          hdcovers⟩
    · intro hnot
      refine ⟨rfl, .inr ⟨hmember, ⟨g, ?_, hcovers⟩, ?_⟩⟩
      · exact mem_rules.mpr ⟨⟨hmem, hmine, (satisfies_iff _ _).mpr (.inr hgadmin)⟩, heffect⟩
      · intro hcovered
        obtain ⟨d, hd, hdcovers⟩ := hcovered
        obtain ⟨⟨hdmem, hdmine, hdsat⟩, hdeny⟩ := mem_rules.mp hd
        obtain hdp | hdadmin := (satisfies_iff _ _).mp hdsat
        · exact hnot ⟨d, hdmem, hdmine, hdeny, hdp, hdcovers⟩
        · refine hfree ⟨d, mem_rules.mpr ⟨⟨hdmem, hdmine, ?_⟩, hdeny⟩, hdcovers⟩
          exact (satisfies_iff _ _).mpr (.inl hdadmin)

/-- What may be written is reached, but for who is shut out. -/
theorem mem_reachable_iff (hrole : auth.role ≠ .platformAdmin) (hlive : layerId ∈ liveIds db)
    (hwrites : mayWriteLayer db auth layerId = true) :
    layerId ∈ reachableLayers db auth ↔ ¬ ShutOut db auth layerId := by
  have hadmin : personAllows db auth layerId .admin = true :=
    ((mayWriteLayer_iff hrole).mp hwrites).1
  rw [reachableLayers, List.mem_append]
  cases hd : auth.delegation with
  | some delegation =>
      have hne : auth.delegation ≠ none := by simp [hd]
      constructor
      · intro _ hout
        exact hne hout.undelegated
      · intro _
        exact .inr (mem_skillWritable hrole hne hlive hwrites)
  | none =>
      have hnone : skillWritable db auth = [] := by simp [skillWritable, hd]
      rw [mem_visible_iff hrole hd hlive, hnone, List.mem_nil_iff, or_false]
      cases hr : auth.role with
      | platformAdmin => exact absurd hr hrole
      | orgAdmin =>
          constructor
          · intro _ hout
            exact absurd (hr.symm.trans hout.member) nofun
          · intro _
            exact .inl (by simp [personAllows, referenceAllows, contextFor, resolveInput, hr,
              ResolveInput.outsideCeiling])
      | member =>
          rw [personAllows_of_admin hr hadmin, personAllows_of_admin hr hadmin]
          constructor
          · intro hor hout
            exact hor.elim (fun h => h hout.read) (fun h => h hout.write)
          · intro hout
            by_cases hread : Denied db auth layerId .read
            · exact .inr fun hwrite => hout ⟨hd, hr, hadmin, hread, hwrite⟩
            · exact .inl hread

/-- The gate is open to who may write and sees the layer. -/
theorem gate_open (hlive : layerId ∈ liveIds db) (hwrites : mayWriteLayer db auth layerId = true)
    (hreach : layerId ∈ reachableLayers db auth) (surface : SkillSurface) :
    gate db auth (.layer layerId) surface = none := by
  simp [gate, mayReadLevel, mayWriteLevel, hlive, hwrites, hreach]

-- ================================================================= skill

theorem ceilingOf_alike {auth' : AuthContext} (h : AlikeButSkill auth auth') :
    ceilingOf auth' = ceilingOf auth := by
  unfold ceilingOf
  cases hd : auth.delegation with
  | none => rw [h.delegated.mp hd]
  | some a =>
      cases hd' : auth'.delegation with
      | none => exact absurd (h.delegated.mpr hd') (by simp [hd])
      | some b => exact (h.delegation a b hd hd').connection.symm

theorem mem_permissionsOf {values : List CeilingValue} :
    p ∈ permissionsOf values ↔ CeilingValue.permission p ∈ values := by
  simp only [permissionsOf, List.mem_filterMap]
  constructor
  · intro hex
    obtain ⟨v, hv, hvp⟩ := hex
    cases v with
    | permission q =>
        cases hvp
        exact hv
    | skill => cases hvp
  · intro hmem
    exact ⟨_, hmem, rfl⟩

/-- Ceilings that differ in `skill` only hold the same permissions. -/
theorem holds_alike {a b : Option (List CeilingValue)} (h : CeilingsAlike a b) :
    holds a (.permission p) = holds b (.permission p) := by
  unfold CeilingsAlike at h
  cases a with
  | none =>
      cases b with
      | none => rfl
      | some b => simp at h
  | some a =>
      cases b with
      | none => simp at h
      | some b =>
          have hab : permissionsOf a = permissionsOf b := by simpa using h
          rw [Bool.eq_iff_iff]
          simp [holds, ← mem_permissionsOf, hab]

/-- The layers a narrowing admits for one permission. -/
theorem delegatedLayers_eq {delegation : Delegation} (hd : auth.delegation = some delegation) :
    delegatedLayers auth p = delegation.layers.map fun narrowing =>
      (narrowing.filter fun l => holds l.permissions (.permission p)).map (·.id) := by
  simp only [delegatedLayers, hd]
  rfl

theorem narrowing_alike {as bs : List NarrowedLayer}
    (h : List.Forall₂ (fun x y : NarrowedLayer =>
      x.id = y.id ∧ CeilingsAlike x.permissions y.permissions) as bs) :
    (bs.filter fun l => holds l.permissions (.permission p)).map (·.id)
      = (as.filter fun l => holds l.permissions (.permission p)).map (·.id) := by
  induction h with
  | nil => rfl
  | cons hxy _ ih =>
      obtain ⟨hid, halike⟩ := hxy
      rw [List.filter_cons, List.filter_cons, holds_alike halike]
      split
      · rw [List.map_cons, List.map_cons, ih, hid]
      · exact ih

theorem delegatedLayers_alike {auth' : AuthContext} (h : AlikeButSkill auth auth') :
    delegatedLayers auth' p = delegatedLayers auth p := by
  cases hd : auth.delegation with
  | none => simp [delegatedLayers, hd, h.delegated.mp hd]
  | some a =>
      cases hd' : auth'.delegation with
      | none => exact absurd (h.delegated.mpr hd') (by simp [hd])
      | some b =>
          have halike := h.delegation a b hd hd'
          rw [delegatedLayers_eq hd, delegatedLayers_eq hd']
          cases hla : a.layers with
          | none => rw [halike.narrowed.mp hla]
          | some as =>
              cases hlb : b.layers with
              | none => exact absurd (halike.narrowed.mpr hlb) (by simp [hla])
              | some bs =>
                  have hall := halike.layers
                  rw [hla, hlb] at hall
                  exact congrArg some (narrowing_alike hall)

theorem resolveInput_alike {auth' : AuthContext} (h : AlikeButSkill auth auth')
    (documentIds : List Grant → List String) :
    resolveInput db auth' documentIds = resolveInput db auth documentIds := by
  unfold resolveInput
  rw [ceilingOf_alike h, h.org, h.principal, h.role]

-- ============================================================ the result

/-- Writing, reaching and the ceilings agree on a live layer exactly when
the caller is not shut out of it. -/
theorem skills_agree_iff (db : OrgDb) (auth : AuthContext) (layer : LayerRow)
    (hrole : auth.role ≠ .platformAdmin) (hlive : layer ∈ db.liveLayers) :
    SkillsAgree db auth layer.id ↔ ¬ ShutOut db auth layer.id := by
  have hlive : layer.id ∈ liveIds db := List.mem_map_of_mem hlive
  constructor
  · intro hagree hout
    have hwrites : mayWriteLayer db auth layer.id = true := by
      rw [hagree.writes]
      refine ⟨hout.admin, fun delegation hd => ?_⟩
      rw [hout.undelegated] at hd
      cases hd
    exact (mem_reachable_iff hrole hlive hwrites).mp (hagree.reaches hwrites).1 hout
  · intro hout
    constructor
    · exact mayWriteLayer_iff hrole
    · intro hwrites
      have hreach := (mem_reachable_iff hrole hlive hwrites).mpr hout
      exact ⟨hreach, gate_open hlive hwrites hreach⟩
    · exact skillCeilingLayers_iff
    · intro auth' halike p
      exact ⟨fun ids => by rw [resolveInput_alike halike], delegatedLayers_alike halike⟩

def handbook : LayerRow :=
  ⟨"11111111-1111-1111-1111-111111111111", "w1", "hr", "v_m_2", ⟨"p1", "http://e", "m", 2⟩, false⟩

def eve : AuthContext := ⟨"acme", ⟨.user, "eve"⟩, .member, none⟩

/-- Eve administers the layer and is denied reading and writing it. -/
def shutOutDb : OrgDb where
  vectorCollection := some "org_acme"
  layers := [handbook]
  documents := []
  grants :=
    [ ⟨"acme", ⟨.user, "eve"⟩, ⟨.layer, handbook.id⟩, .admin, .allow⟩,
      ⟨"acme", ⟨.user, "eve"⟩, ⟨.layer, handbook.id⟩, .read, .deny⟩,
      ⟨"acme", ⟨.user, "eve"⟩, ⟨.layer, handbook.id⟩, .write, .deny⟩ ]
  effectivePrincipals p := [principalRef p]
  layers_key := by simp
  documents_key := List.nodup_nil
  documents_layer := by simp
  layers_vector := by
    intro l hl _
    rw [List.mem_singleton.1 hl]
    decide
  grants_uuid := by
    intro g hg
    simp only [List.mem_cons, List.not_mem_nil, or_false] at hg
    rcases hg with rfl | rfl | rfl <;> decide

/-- She may write the layer's skill, and the gate answers that there is
none; the ceilings have no part in it. -/
theorem shut_out_of_own_skill :
    mayWriteLayer shutOutDb eve handbook.id = true ∧
      handbook.id ∉ reachableLayers shutOutDb eve ∧
      gate shutOutDb eve (.layer handbook.id) .rest = some .notFound ∧
      ¬ SkillsAgree shutOutDb eve handbook.id := by
  have hwrites : mayWriteLayer shutOutDb eve handbook.id = true := by decide
  have hreach : handbook.id ∉ reachableLayers shutOutDb eve := by decide
  refine ⟨hwrites, hreach, by decide, fun hagree => ?_⟩
  exact hreach (hagree.reaches hwrites).1

/-- Eve's application, which may edit the skill and nothing else, sees what
it may write. -/
def eveConnected : AuthContext :=
  { eve with delegation := some { layers := some [⟨handbook.id, some [.skill]⟩] } }

theorem skills_agree_iff_connected :
    mayWriteLayer shutOutDb eveConnected handbook.id = true ∧
      SkillsAgree shutOutDb eveConnected handbook.id := by
  refine ⟨by decide, ?_⟩
  have hrole : eveConnected.role ≠ .platformAdmin := nofun
  have hlive : handbook ∈ shutOutDb.liveLayers := by decide
  exact (skills_agree_iff shutOutDb eveConnected handbook hrole hlive).mpr
    fun hout => nomatch hout.undelegated

end Nacre.Skills
