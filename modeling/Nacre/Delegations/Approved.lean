/-
What a delegated token may do is what was approved last.

# The locks

`Held`: a transaction that wrote a row of a key holds the key, the unique
index and the rows agree, and no two transactions write one connection. One
connection therefore has one writer at a time, from its upsert to its end.

# What is stored

`Kept`: of every connection the last committed approval of its key is there,
the row has its ceiling and the layers are its narrowing, entry by entry.
A transaction that deleted the layers deleted all that are there: nobody
else wrote any since. So when it commits, what is left is what it inserted.

# What a token may do

`resolve` reads the row and the layers. `delegations_follow` is the result:
the delegation is the last approval's, and no layer's deletion or renaming
changes it.
-/
import Nacre.Delegations.System

namespace Nacre.Delegations

open Nacre.Authz Nacre.Api Transition

variable {w w' : World} {n : Nat} {id : String} {row : ConsentRow} {tx : Tx}

-- =============================================================== the keys

/-- The row of `oauth_consents` a transaction wrote. -/
def World.wrote (w : World) (n : Nat) : Option (String × ConsentRow) := (w.txs n).bind Tx.wrote

structure Held (w : World) : Prop where
  holds : ∀ {n id row}, w.wrote n = some (id, row) → w.locked row.key = some n
  indexed : ∀ {id c}, w.consents id = some c → w.index c.key = some id
  stands : ∀ {k id}, w.index k = some id → ∃ c, w.consents id = some c ∧ c.key = k
  given : ∀ {id c}, w.consents id = some c → id ∈ w.given
  /-- A written row is the one of its key, or a new one. -/
  places : ∀ {n id row}, w.wrote n = some (id, row) →
    id ∈ w.given ∧ (w.index row.key = some id ∨ w.index row.key = none ∧ w.consents id = none)
  apart : ∀ {n m id row row'}, w.wrote n = some (id, row) → w.wrote m = some (id, row') → n = m

theorem Held.quiet (h : Held w) (hwrote : w'.wrote = w.wrote) (hlocked : w'.locked = w.locked)
    (hconsents : w'.consents = w.consents) (hindex : w'.index = w.index)
    (hgiven : w'.given = w.given) : Held w' := by
  constructor
  · rw [hwrote, hlocked]
    exact h.holds
  · rw [hconsents, hindex]
    exact h.indexed
  · rw [hconsents, hindex]
    exact h.stands
  · rw [hconsents, hgiven]
    exact h.given
  · rw [hwrote, hgiven, hindex, hconsents]
    exact h.places
  · rw [hwrote]
    exact h.apart

/-- A connection's key is its row's. -/
theorem Held.key_eq (h : Held w) {c : ConsentRow} {k : ConsentKey} (hid : w.index k = some id)
    (hc : w.consents id = some c) : c.key = k := by
  obtain ⟨c', hc', hk⟩ := h.stands hid
  rw [hc] at hc'
  cases hc'
  exact hk

/-- A transaction takes a key nobody holds. -/
theorem Held.take {ids : List String} (h : Held w) (row : ConsentRow) (hfree : w.locked row.key = none)
    (hids : ∀ i ∈ w.given, i ∈ ids) (hgiven : id ∈ ids)
    (hnew : ∀ m row', w.wrote m ≠ some (id, row'))
    (hplace : w.index row.key = some id ∨ w.index row.key = none ∧ w.consents id = none)
    (hwrote : w'.wrote = Function.update w.wrote n (some (id, row)))
    (hlocked : w'.locked = Function.update w.locked row.key (some n))
    (hconsents : w'.consents = w.consents) (hindex : w'.index = w.index)
    (hgiven' : w'.given = ids) : Held w' := by
  constructor
  · intro m id' row' hm
    rw [hwrote] at hm
    rw [hlocked]
    by_cases hmn : m = n
    · subst hmn
      simp only [Function.update_self, Option.some.injEq, Prod.mk.injEq] at hm
      obtain ⟨-, rfl⟩ := hm
      simp
    · rw [Function.update_of_ne hmn] at hm
      have hkey : row'.key ≠ row.key := by
        intro hkey
        have := h.holds hm
        rw [hkey, hfree] at this
        cases this
      rw [Function.update_of_ne hkey]
      exact h.holds hm
  · rw [hconsents, hindex]
    exact h.indexed
  · rw [hconsents, hindex]
    exact h.stands
  · intro id' c hc
    rw [hconsents] at hc
    rw [hgiven']
    exact hids _ (h.given hc)
  · intro m id' row' hm
    rw [hwrote] at hm
    rw [hgiven', hindex, hconsents]
    by_cases hmn : m = n
    · subst hmn
      simp only [Function.update_self, Option.some.injEq, Prod.mk.injEq] at hm
      obtain ⟨rfl, rfl⟩ := hm
      exact ⟨hgiven, hplace⟩
    · rw [Function.update_of_ne hmn] at hm
      exact ⟨hids _ (h.places hm).1, (h.places hm).2⟩
  · intro m m' id' row₁ row₂ hm hm'
    rw [hwrote] at hm hm'
    by_cases hmn : m = n <;> by_cases hmn' : m' = n
    · rw [hmn, hmn']
    · subst hmn
      rw [Function.update_self] at hm
      rw [Function.update_of_ne hmn'] at hm'
      cases hm
      exact absurd hm' (hnew m' row₂)
    · subst hmn'
      rw [Function.update_self] at hm'
      rw [Function.update_of_ne hmn] at hm
      cases hm'
      exact absurd hm (hnew m row₁)
    · rw [Function.update_of_ne hmn] at hm
      rw [Function.update_of_ne hmn'] at hm'
      exact h.apart hm hm'

-- ==================================================== what a write leaves

theorem wrote_write (w : World) (n : Nat) (tx : Tx) :
    (w.write n tx).wrote = Function.update w.wrote n tx.wrote := by
  funext m
  unfold World.wrote World.write
  by_cases hm : m = n
  · subst hm
    simp
  · simp [Function.update_of_ne hm]

theorem wrote_finish (w : World) (n : Nat) (tx : Tx) :
    (w.finish n tx).wrote = Function.update w.wrote n none := by
  funext m
  unfold World.wrote World.finish
  by_cases hm : m = n
  · subst hm
    simp
  · simp [Function.update_of_ne hm]

theorem wrote_of_txs (h : w.txs n = some tx) : w.wrote n = tx.wrote := by
  simp [World.wrote, h]

/-- A write that leaves the transaction's row as it is. -/
theorem Held.write (h : Held w) (hn : w.wrote n = tx.wrote) : Held (w.write n tx) := by
  refine h.quiet ?_ rfl rfl rfl rfl
  rw [wrote_write, ← hn, Function.update_eq_self]

/-- A transaction that wrote nothing is over. -/
theorem Held.finish (h : Held w) (hn : w.txs n = some tx) : Held (w.finish n tx) := by
  have hwrote : w.wrote n = tx.wrote := wrote_of_txs hn
  have hother : ∀ {m id row}, (w.finish n tx).wrote m = some (id, row) →
      m ≠ n ∧ w.wrote m = some (id, row) := by
    intro m id row hm
    rw [wrote_finish] at hm
    by_cases hmn : m = n
    · subst hmn
      simp at hm
    · rw [Function.update_of_ne hmn] at hm
      exact ⟨hmn, hm⟩
  constructor
  · intro m id row hm
    obtain ⟨hmn, hm⟩ := hother hm
    have hlocked := h.holds hm
    cases hw : tx.wrote with
    | none => simpa [World.finish, hw] using hlocked
    | some p =>
        obtain ⟨id', row'⟩ := p
        have hheld := h.holds (hwrote.trans hw)
        have hkey : row.key ≠ row'.key := by
          intro hkey
          rw [hkey, hheld] at hlocked
          cases hlocked
          exact hmn rfl
        simpa [World.finish, hw, Function.update_of_ne hkey] using hlocked
  · exact h.indexed
  · exact h.stands
  · exact h.given
  · intro m id row hm
    exact h.places (hother hm).2
  · intro m m' id row row' hm hm'
    exact h.apart (hother hm).2 (hother hm').2

/-- The written row becomes the row. -/
theorem Held.store (h : Held w) (hn : w.txs n = some tx) (hw : tx.wrote = some (id, row)) :
    Held ((w.store id row).finish n tx) := by
  have hwn : w.wrote n = some (id, row) := (wrote_of_txs hn).trans hw
  have hfin := h.finish hn
  obtain ⟨hgiven, hplace⟩ := h.places hwn
  -- The row that was there had the same key.
  have hold : ∀ {c}, w.consents id = some c → c.key = row.key := by
    intro c hc
    obtain hindex | ⟨-, hnone⟩ := hplace
    · exact h.key_eq hindex hc
    · rw [hnone] at hc
      cases hc
  constructor
  · exact hfin.holds
  · intro id' c hc
    by_cases hid : id' = id
    · subst hid
      simp only [World.finish, World.store, Function.update_self, Option.some.injEq] at hc ⊢
      subst hc
      exact Function.update_self _ _ _
    · simp only [World.finish, World.store, Function.update_of_ne hid] at hc ⊢
      have hkey : c.key ≠ row.key := by
        intro hkey
        have hindex := h.indexed hc
        rw [hkey] at hindex
        obtain hplace | ⟨hplace, -⟩ := hplace
        · rw [hplace] at hindex
          cases hindex
          exact hid rfl
        · rw [hplace] at hindex
          cases hindex
      rw [Function.update_of_ne hkey]
      exact h.indexed hc
  · intro k id' hk
    by_cases hkey : k = row.key
    · subst hkey
      simp only [World.finish, World.store, Function.update_self, Option.some.injEq] at hk
      subst hk
      exact ⟨row, by simp [World.finish, World.store], rfl⟩
    · simp only [World.finish, World.store, Function.update_of_ne hkey] at hk ⊢
      obtain ⟨c, hc, hck⟩ := h.stands hk
      have hid : id' ≠ id := by
        intro hid
        subst hid
        exact hkey (hck ▸ hold hc)
      exact ⟨c, by rw [Function.update_of_ne hid]; exact hc, hck⟩
  · intro id' c hc
    by_cases hid : id' = id
    · subst hid
      exact hgiven
    · simp only [World.finish, World.store, Function.update_of_ne hid] at hc
      exact h.given hc
  · intro m id' row' hm
    have hm' : w.wrote m = some (id', row') ∧ m ≠ n := by
      rw [wrote_finish] at hm
      by_cases hmn : m = n
      · subst hmn
        simp at hm
      · rw [Function.update_of_ne hmn] at hm
        exact ⟨hm, hmn⟩
    have hkey : row'.key ≠ row.key := by
      intro hkey
      have h₁ := h.holds hm'.1
      rw [hkey, h.holds hwn] at h₁
      cases h₁
      exact hm'.2 rfl
    have hid : id' ≠ id := by
      intro hid
      subst hid
      exact hm'.2 (h.apart hm'.1 hwn)
    obtain ⟨hg, hp⟩ := h.places hm'.1
    refine ⟨hg, ?_⟩
    simp only [World.finish, World.store, Function.update_of_ne hkey, Function.update_of_ne hid]
    exact hp
  · exact hfin.apart

-- ============================================================= the upsert

/-- The row an approval leaves. -/
structure RowFor (call : RecordCall) (row : ConsentRow) : Prop where
  key : row.key = call.key
  org : row.orgId = call.orgId
  ceiling : ∀ userId, call.subject = .user userId → row.permissions = storedCeiling call.permissions

theorem rowFor_new (call : RecordCall) : RowFor call (upserted call none) := by
  unfold upserted
  cases hs : call.subject with
  | serviceAccount account =>
      exact ⟨by simp [ConsentRow.key, RecordCall.key, hs], rfl, fun _ hu => by simp [hs] at hu⟩
  | user userId =>
      exact ⟨by simp [ConsentRow.key, RecordCall.key, hs], rfl, fun _ _ => rfl⟩

theorem key_org {call : RecordCall} (h : row.key = call.key) : row.orgId = call.orgId := by
  unfold ConsentRow.key RecordCall.key at h
  split at h <;> split at h <;> simp_all

theorem rowFor_old {call : RecordCall} {old : ConsentRow} (h : old.key = call.key) :
    RowFor call (upserted call (some old)) := by
  have horg : old.orgId = call.orgId := key_org h
  unfold upserted
  cases hs : call.subject with
  | serviceAccount account =>
      refine ⟨?_, horg, fun _ hu => by simp [hs] at hu⟩
      rw [← h]
      unfold ConsentRow.key RecordCall.key at *
      cases hsub : old.subject with
      | serviceAccount account' => simp
      | user userId => simp [hsub, hs] at h
  | user userId => exact ⟨h, horg, fun _ _ => rfl⟩

theorem upserted_rowFor (h : Held w) {call : RecordCall} (hid : w.index call.key = some id) :
    RowFor call (upserted call (w.consents id)) := by
  obtain ⟨c, hc, hkey⟩ := h.stands hid
  rw [hc]
  exact rowFor_old hkey

theorem upserted_key (h : Held w) {call : RecordCall} (hid : w.index call.key = some id) :
    (upserted call (w.consents id)).key = call.key :=
  (upserted_rowFor h hid).key

-- ============================================================== the locks

/-- Nobody writes a connection whose key is free. -/
theorem Held.unwritten (h : Held w) {k : ConsentKey} (hfree : w.locked k = none)
    (hid : w.index k = some id) (m : Nat) (row : ConsentRow) : w.wrote m ≠ some (id, row) := by
  intro hm
  obtain ⟨c, hc, hck⟩ := h.stands hid
  obtain ⟨-, hplace | ⟨-, hnone⟩⟩ := h.places hm
  · have hkey : row.key = k := by
      rw [← h.key_eq hplace hc]
      exact hck
    have hlocked := h.holds hm
    rw [hkey, hfree] at hlocked
    cases hlocked
  · rw [hc] at hnone
    cases hnone

theorem Tx.wrote_of_done {a : Approval} {deleted inserted : List ConsentLayerRow}
    (h : tx.done = some (a, id, row, deleted, inserted)) : tx.wrote = some (id, row) := by
  unfold Tx.done at h
  split at h
  next =>
    split at h
    next =>
      cases h
      rfl
    next => cases h
  next =>
    split at h
    next =>
      cases h
      rfl
    next => cases h
  next =>
    cases h
    rfl
  next => cases h

theorem held_step (h : Held w) {act : Action} (hstep : Stepped w act w') : Held w' := by
  cases hstep with
  | setUser orgId id user => exact h.quiet rfl rfl rfl rfl rfl
  | createLayer orgId id slug => exact h.quiet rfl rfl rfl rfl rfl
  | relabel act orgId id l l' => exact h.quiet rfl rfl rfl rfl rfl
  | «begin» n a hn => exact h.write (by simp [World.wrote, hn, Tx.wrote])
  | reuse n fresh a id hn hfree hid =>
      have hkey := upserted_key h hid
      refine h.take _ (by rw [hkey]; exact hfree) (fun _ hi => hi) ?_
        (h.unwritten hfree hid) (.inl (by rw [hkey]; exact hid)) (wrote_write w n _) ?_ rfl rfl rfl
      · obtain ⟨c, hc, -⟩ := h.stands hid
        exact h.given hc
      · rw [hkey]
        rfl
  | insert n fresh a hn hfree hid hfresh =>
      have hkey := (rowFor_new a.call).key
      refine h.take _ (by rw [hkey]; exact hfree) (fun _ hi => List.mem_cons_of_mem _ hi) (by simp)
        ?_ (.inr ⟨by rw [hkey]; exact hid, ?_⟩) (wrote_write w n _) ?_ rfl rfl rfl
      · intro m row' hm
        exact hfresh (h.places hm).1
      · cases hc : w.consents fresh with
        | none => rfl
        | some c => exact absurd (h.given hc) hfresh
      · rw [hkey]
        rfl
  | clear n a id row hn => exact h.write (by rw [wrote_of_txs hn]; rfl)
  | fill n a id row deleted inserted hn => exact h.write (by rw [wrote_of_txs hn]; rfl)
  | revoke n orgId id c hc hfree hn =>
      have hid := h.indexed hc
      exact h.take { c with revoked := true } hfree (fun _ hi => hi) (h.given hc)
        (h.unwritten hfree hid) (.inl hid) (wrote_write w n _) rfl rfl rfl rfl
  | approved n tx a id row deleted inserted hn hdone =>
      exact (h.store hn (Tx.wrote_of_done hdone)).quiet rfl rfl rfl rfl rfl
  | revoked n id row hn => exact h.store hn rfl
  | rollback n tx hn => exact h.finish hn

-- ============================================================== the layers

/-- The approval a transaction is for. -/
def Tx.approval : Tx → Option Approval
  | .begun a => some a
  | .upserted a _ _ => some a
  | .cleared a _ _ _ => some a
  | .filled a _ _ _ _ => some a
  | .revoking _ _ => none

/-- The layers that are there are there under the id their column gives,
and an approval names only such. -/
structure Named (w : World) : Prop where
  canonical : ∀ {k l}, w.layers k = some l → Uuid.castUuid k.2 = some k.2
  present : ∀ {n tx a}, w.txs n = some tx → tx.approval = some a →
    ∀ e ∈ a.call.layers, w.layers (a.call.orgId, e.id) ≠ none

/-- No layer goes, and every transaction is one that was there or is for
what it was for. -/
theorem Named.quiet (h : Named w) (hcanonical : ∀ {k l}, w'.layers k = some l →
      Uuid.castUuid k.2 = some k.2)
    (hlayers : ∀ k, w.layers k ≠ none → w'.layers k ≠ none)
    (htxs : ∀ {n tx a}, w'.txs n = some tx → tx.approval = some a →
      ∃ m tx', w.txs m = some tx' ∧ tx'.approval = some a) : Named w' := by
  refine ⟨hcanonical, ?_⟩
  intro n tx a hn ha e he
  obtain ⟨m, tx', hm, ha'⟩ := htxs hn ha
  exact hlayers _ (h.present hm ha' e he)

/-- The transactions after one is written: the one written, or one that
was there. -/
theorem Named.write (h : Named w) {tx' : Tx} (hn : w.txs n = some tx)
    (htxs : w'.txs = Function.update w.txs n (some tx'))
    (happroval : tx'.approval = tx.approval) (hlayers : w'.layers = w.layers) : Named w' := by
  refine h.quiet ?_ (by rw [hlayers]; exact fun _ hk => hk) ?_
  · rw [hlayers]
    exact h.canonical
  · intro m t a hm ha
    rw [htxs] at hm
    by_cases hmn : m = n
    · subst hmn
      rw [Function.update_self] at hm
      cases hm
      exact ⟨m, tx, hn, happroval ▸ ha⟩
    · rw [Function.update_of_ne hmn] at hm
      exact ⟨m, t, hm, ha⟩

theorem Named.finish (h : Named w) (hlayers : w'.layers = w.layers)
    (htxs : w'.txs = Function.update w.txs n none) : Named w' := by
  refine h.quiet ?_ (by rw [hlayers]; exact fun _ hk => hk) ?_
  · rw [hlayers]
    exact h.canonical
  · intro m t a hm ha
    rw [htxs] at hm
    by_cases hmn : m = n
    · subst hmn
      simp at hm
    · rw [Function.update_of_ne hmn] at hm
      exact ⟨m, t, hm, ha⟩

/-- A layer's row is written, under an id the column gives. -/
theorem Named.label (h : Named w) {k : String × String} {l : LayerName}
    (hcast : Uuid.castUuid k.2 = some k.2) :
    Named { w with layers := Function.update w.layers k (some l) } := by
  refine h.quiet ?_ ?_ (fun hn ha => ⟨_, _, hn, ha⟩)
  · intro k' l' hk'
    by_cases hk : k' = k
    · subst hk
      exact hcast
    · simp only [Function.update_of_ne hk] at hk'
      exact h.canonical hk'
  · intro k' hk'
    by_cases hk : k' = k
    · subst hk
      simp
    · simp only [Function.update_of_ne hk]
      exact hk'

theorem named_step (h : Named w) {act : Action} (hstep : Stepped w act w') : Named w' := by
  cases hstep with
  | setUser orgId id user => exact h.quiet h.canonical (fun _ hk => hk) fun hn ha => ⟨_, _, hn, ha⟩
  | createLayer orgId id slug hcast => exact h.label hcast
  | relabel act orgId id l l' hl => exact h.label (h.canonical hl)
  | «begin» n a hn hreadable =>
      have hproper := consent_record a.accepted
      refine ⟨h.canonical, ?_⟩
      intro m tx b hm hb e he
      by_cases hmn : m = n
      · subst hmn
        simp only [World.write, Function.update_self, Option.some.injEq] at hm
        subst hm
        cases hb
        rw [hproper.org]
        exact hreadable _ (hproper.readable e he)
      · simp only [World.write, Function.update_of_ne hmn] at hm
        exact h.present hm hb e he
  | reuse n fresh a id hn => exact h.write hn rfl rfl rfl
  | insert n fresh a hn => exact h.write hn rfl rfl rfl
  | clear n a id row hn => exact h.write hn rfl rfl rfl
  | fill n a id row deleted inserted hn => exact h.write hn rfl rfl rfl
  | revoke n orgId id c hc hfree hn =>
      refine h.quiet h.canonical (fun _ hk => hk) ?_
      intro m tx a hm ha
      by_cases hmn : m = n
      · subst hmn
        simp only [World.take, World.write, Function.update_self, Option.some.injEq] at hm
        subst hm
        cases ha
      · simp only [World.take, World.write, Function.update_of_ne hmn] at hm
        exact ⟨m, tx, hm, ha⟩
  | approved n tx a id row deleted inserted hn => exact h.finish rfl rfl
  | revoked n id row hn => exact h.finish rfl rfl
  | rollback n tx hn => exact h.finish rfl rfl

-- ========================================================= what is stored

/-- The last committed approval of a connection. -/
def World.last (w : World) (k : ConsentKey) : Option Approval :=
  w.approved.find? fun a => a.call.key = k

/-- The rows of an approval's narrowing. -/
def rowsFor (call : RecordCall) (id : String) : List ConsentLayerRow :=
  call.layers.map fun e =>
    { orgId := call.orgId, consentId := id, layerId := e.id, permissions := e.permissions }

/-- What a transaction has written is what its approval asks for, and what
it deleted is what is there. -/
def Tx.Shaped (w : World) : Tx → Prop
  | .begun _ => True
  | .upserted a _ row => RowFor a.call row
  | .cleared a id row deleted => RowFor a.call row ∧ deleted = w.layersOf a.call.orgId id
  | .filled a id row deleted inserted =>
      RowFor a.call row ∧ deleted = w.layersOf a.call.orgId id ∧ inserted = rowsFor a.call id
  | .revoking id row => ∃ c, w.consents id = some c ∧ row = { c with revoked := true }

structure Kept (w : World) : Prop where
  shaped : ∀ {n tx}, w.txs n = some tx → tx.Shaped w
  /-- A layer of a connection is one of a connection that is there. -/
  homed : ∀ {r}, r ∈ w.consentLayers → ∃ c, w.consents r.consentId = some c
  stored : ∀ {id c}, w.consents id = some c →
    ∃ a, w.last c.key = some a ∧ RowFor a.call c ∧ w.layersOf c.orgId id = rowsFor a.call id
  recorded : ∀ {a}, a ∈ w.approved → ∃ id, w.index a.call.key = some id

theorem Shaped_congr (hconsents : w'.consents = w.consents)
    (hlayers : w'.consentLayers = w.consentLayers) (tx : Tx) : tx.Shaped w' ↔ tx.Shaped w := by
  cases tx <;> simp [Tx.Shaped, World.layersOf, hconsents, hlayers]

/-- A step that leaves what is committed as it is, and whose new
transactions are shaped. -/
theorem Kept.quiet (h : Kept w) (hconsents : w'.consents = w.consents)
    (hlayers : w'.consentLayers = w.consentLayers) (happroved : w'.approved = w.approved)
    (hindex : w'.index = w.index)
    (htxs : ∀ {n tx}, w'.txs n = some tx → w.txs n = some tx ∨ tx.Shaped w) : Kept w' := by
  constructor
  · intro n tx hn
    rw [Shaped_congr hconsents hlayers]
    obtain hn | hshaped := htxs hn
    · exact h.shaped hn
    · exact hshaped
  · rw [hconsents, hlayers]
    exact h.homed
  · unfold World.last World.layersOf
    rw [hconsents, hlayers, happroved]
    exact h.stored
  · rw [happroved, hindex]
    exact h.recorded

theorem Kept.write (h : Kept w) (htxs : w'.txs = Function.update w.txs n (some tx))
    (hconsents : w'.consents = w.consents) (hlayers : w'.consentLayers = w.consentLayers)
    (happroved : w'.approved = w.approved) (hindex : w'.index = w.index)
    (hshaped : tx.Shaped w) : Kept w' := by
  refine h.quiet hconsents hlayers happroved hindex ?_
  intro m t hm
  rw [htxs] at hm
  by_cases hmn : m = n
  · subst hmn
    rw [Function.update_self] at hm
    cases hm
    exact .inr hshaped
  · rw [Function.update_of_ne hmn] at hm
    exact .inl hm

/-- The rows the insertion writes: every id is the one its column gives. -/
theorem rows_inserted (hnamed : Named w) {a : Approval} (hn : w.txs n = some tx)
    (ha : tx.approval = some a) {inserted : List ConsentLayerRow}
    (h : a.call.layers.mapM (w.layerRow a.call.orgId id) = some inserted) :
    inserted = rowsFor a.call id := by
  have hall := hnamed.present hn ha
  unfold rowsFor
  generalize a.call.layers = entries at h hall
  induction entries generalizing inserted with
  | nil => simpa using h.symm
  | cons e rest ih =>
      simp only [List.mapM_cons, Option.bind_eq_bind, Option.bind_eq_some_iff, Option.pure_def,
        Option.some.injEq] at h
      obtain ⟨r, hr, rows, hrows, rfl⟩ := h
      have hcast : Uuid.castUuid e.id = some e.id := by
        cases hl : w.layers (a.call.orgId, e.id) with
        | none => exact absurd hl (hall e (by simp))
        | some l => exact hnamed.canonical hl
      have hrest := ih hrows fun e' he' => hall e' (List.mem_cons_of_mem _ he')
      simp only [World.layerRow, hcast] at hr
      split at hr
      next =>
        cases hr
        rw [List.map_cons, hrest]
      next => cases hr

-- ================================================== what a commit leaves

/-- The layers of the connection are what was inserted. -/
theorem layersOf_replaced {layers inserted : List ConsentLayerRow} {orgId : String}
    (hrows : ∀ r ∈ inserted, r.orgId = orgId ∧ r.consentId = id) :
    (layers.filter (· ∉ layers.filter fun r => r.orgId = orgId ∧ r.consentId = id)
        ++ inserted).filter (fun r => r.orgId = orgId ∧ r.consentId = id) = inserted := by
  rw [List.filter_append, List.filter_filter]
  have hgone : layers.filter (fun r => decide (r.orgId = orgId ∧ r.consentId = id)
      && decide (r ∉ layers.filter fun r => r.orgId = orgId ∧ r.consentId = id)) = [] := by
    rw [List.filter_eq_nil_iff]
    intro r hr
    simp only [List.mem_filter, decide_eq_true_eq, Bool.and_eq_true, not_and]
    exact fun hmine hno => hno hr hmine.1 hmine.2
  rw [hgone, List.nil_append, List.filter_eq_self]
  intro r hr
  simpa using hrows r hr

/-- The layers of another connection stay. -/
theorem layersOf_other {layers inserted : List ConsentLayerRow} {orgId orgId' id' : String}
    (hid : id' ≠ id) (hrows : ∀ r ∈ inserted, r.consentId = id) :
    (layers.filter (· ∉ layers.filter fun r => r.orgId = orgId ∧ r.consentId = id)
        ++ inserted).filter (fun r => r.orgId = orgId' ∧ r.consentId = id')
      = layers.filter fun r => r.orgId = orgId' ∧ r.consentId = id' := by
  rw [List.filter_append, List.filter_filter]
  have hnone : inserted.filter (fun r => r.orgId = orgId' ∧ r.consentId = id') = [] := by
    rw [List.filter_eq_nil_iff]
    intro r hr
    have := hrows r hr
    simp only [decide_eq_true_eq, not_and]
    rintro - rfl
    exact hid this
  rw [hnone, List.append_nil]
  refine List.filter_congr ?_
  intro r hr
  by_cases hmine : r.orgId = orgId' ∧ r.consentId = id'
  · have : ¬ (r.orgId = orgId ∧ r.consentId = id) := fun h => hid (hmine.2.symm.trans h.2)
    simp [hmine.1, hmine.2, hid]
  · simp [hmine]

theorem rowsFor_mine {call : RecordCall} {r : ConsentLayerRow} (h : r ∈ rowsFor call id) :
    r.orgId = call.orgId ∧ r.consentId = id := by
  simp only [rowsFor, List.mem_map] at h
  obtain ⟨e, -, rfl⟩ := h
  exact ⟨rfl, rfl⟩

theorem last_key {k : ConsentKey} {a : Approval} (h : w.last k = some a) : a.call.key = k := by
  have := List.find?_some h
  simpa using this

/-- An agent's connection has no layers of its own. -/
theorem Kept.agent_layers (hheld : Held w) (h : Kept w) {a : Approval} {account : String}
    (hagent : a.call.subject = .serviceAccount account) (hkey : row.key = a.call.key)
    (hplace : w.index row.key = some id ∨ w.index row.key = none ∧ w.consents id = none) :
    w.layersOf a.call.orgId id = [] := by
  obtain hindex | ⟨-, hnone⟩ := hplace
  · obtain ⟨c, hc, hck⟩ := hheld.stands hindex
    obtain ⟨a', hlast, hrow, hlayers⟩ := h.stored hc
    have horg : c.orgId = a.call.orgId := key_org (hck.trans hkey)
    have hsame : a'.call.key = a.call.key := (last_key hlast).trans (hck.trans hkey)
    have hnolayers : a'.call.layers = [] := by
      cases hs : a'.call.subject with
      | serviceAccount account' => exact ((consent_record a'.accepted).agent account' hs).1
      | user userId => simp [RecordCall.key, hs, hagent] at hsame
    rw [← horg, hlayers, rowsFor, hnolayers, List.map_nil]
  · unfold World.layersOf
    rw [List.filter_eq_nil_iff]
    intro r hr
    obtain ⟨c, hc⟩ := h.homed hr
    simp only [decide_eq_true_eq, not_and]
    rintro - rfl
    rw [hnone] at hc
    cases hc

/-- A transaction that may commit has written its approval, and deleted
all the layers that are there. -/
theorem Kept.done (hheld : Held w) (h : Kept w) {a : Approval}
    {deleted inserted : List ConsentLayerRow} (hn : w.txs n = some tx)
    (hdone : tx.done = some (a, id, row, deleted, inserted)) :
    RowFor a.call row ∧ deleted = w.layersOf a.call.orgId id ∧ inserted = rowsFor a.call id := by
  have hshaped := h.shaped hn
  have hwrote : w.wrote n = some (id, row) := (wrote_of_txs hn).trans (Tx.wrote_of_done hdone)
  cases tx with
  | upserted b id' row' =>
      simp only [Tx.done] at hdone
      split at hdone
      next account hagent =>
        cases hdone
        have hrow : RowFor a.call row := hshaped
        have hnone := h.agent_layers hheld hagent hrow.key (hheld.places hwrote).2
        refine ⟨hrow, hnone.symm, ?_⟩
        rw [rowsFor, ((consent_record a.accepted).agent account hagent).1, List.map_nil]
      next => cases hdone
  | cleared b id' row' deleted' =>
      simp only [Tx.done] at hdone
      split at hdone
      next hempty =>
        cases hdone
        obtain ⟨hrow, hdeleted⟩ := hshaped
        exact ⟨hrow, hdeleted, by rw [rowsFor, hempty, List.map_nil]⟩
      next => cases hdone
  | filled b id' row' deleted' inserted' =>
      cases hdone
      exact hshaped
  | begun => cases hdone
  | revoking => cases hdone

/-- What another transaction wrote stays what it was to write. -/
theorem Shaped_other (hwrote : ∀ {id' row'}, tx.wrote = some (id', row') →
      w'.consents id' = w.consents id' ∧ ∀ orgId, w'.layersOf orgId id' = w.layersOf orgId id')
    (h : tx.Shaped w) : tx.Shaped w' := by
  cases tx with
  | begun a => trivial
  | upserted a id' row' => exact h
  | cleared a id' row' deleted => exact ⟨h.1, by rw [(hwrote rfl).2]; exact h.2⟩
  | filled a id' row' deleted inserted =>
      exact ⟨h.1, by rw [(hwrote rfl).2]; exact h.2.1, h.2.2⟩
  | revoking id' row' =>
      obtain ⟨c, hc, hrow⟩ := h
      exact ⟨c, by rw [(hwrote rfl).1]; exact hc, hrow⟩

theorem Held.key_ne (h : Held w) {id' : String} {c : ConsentRow}
    (hwrote : w.wrote n = some (id, row)) (hc : w.consents id' = some c) (hid : id' ≠ id) :
    c.key ≠ row.key := by
  intro hkey
  have hindex := h.indexed hc
  rw [hkey] at hindex
  obtain ⟨-, hplace | ⟨hplace, -⟩⟩ := h.places hwrote
  · rw [hplace] at hindex
    cases hindex
    exact hid rfl
  · rw [hplace] at hindex
    cases hindex

/-- No connection goes from the index. -/
theorem index_store {k : ConsentKey} (h : ∃ id', w.index k = some id') :
    ∃ id', (w.store id row).index k = some id' := by
  obtain ⟨id', hid'⟩ := h
  by_cases hk : k = row.key
  · subst hk
    exact ⟨id, Function.update_self _ _ _⟩
  · exact ⟨id', (Function.update_of_ne hk _ _).trans hid'⟩

theorem Kept.approve (hheld : Held w) (h : Kept w) {a : Approval}
    {deleted inserted : List ConsentLayerRow} (hn : w.txs n = some tx)
    (hdone : tx.done = some (a, id, row, deleted, inserted)) :
    Kept (w.approve n tx a id row deleted inserted) := by
  obtain ⟨hrow, rfl, rfl⟩ := h.done hheld hn hdone
  have hwrote : w.wrote n = some (id, row) := (wrote_of_txs hn).trans (Tx.wrote_of_done hdone)
  have hmine := fun r (hr : r ∈ rowsFor a.call id) => rowsFor_mine hr
  have hother : ∀ {id'} orgId, id' ≠ id →
      (w.approve n tx a id row (w.layersOf a.call.orgId id) (rowsFor a.call id)).layersOf orgId id'
        = w.layersOf orgId id' :=
    fun orgId hid => layersOf_other hid fun r hr => (hmine r hr).2
  constructor
  · intro m t hm
    by_cases hmn : m = n
    · subst hmn
      simp [World.approve, World.finish] at hm
    · simp only [World.approve, World.finish, World.store, Function.update_of_ne hmn] at hm
      refine Shaped_other ?_ (h.shaped hm)
      intro id' row' ht
      have hid : id' ≠ id := by
        intro hid
        subst hid
        exact hmn (hheld.apart ((wrote_of_txs hm).trans ht) hwrote)
      refine ⟨?_, fun orgId => hother orgId hid⟩
      simp [World.approve, World.finish, World.store, Function.update_of_ne hid]
  · intro r hr
    simp only [World.approve, World.finish, World.store, List.mem_append, List.mem_filter] at hr ⊢
    by_cases hid : r.consentId = id
    · exact ⟨row, by rw [hid, Function.update_self]⟩
    · rw [Function.update_of_ne hid]
      obtain ⟨hr, -⟩ | hr := hr
      · exact h.homed hr
      · exact absurd (hmine r hr).2 hid
  · intro id' c hc
    by_cases hid : id' = id
    · subst hid
      simp only [World.approve, World.finish, World.store, Function.update_self,
        Option.some.injEq] at hc
      subst hc
      refine ⟨a, by simp [World.last, World.approve, hrow.key], hrow, ?_⟩
      rw [hrow.org]
      exact layersOf_replaced hmine
    · simp only [World.approve, World.finish, World.store, Function.update_of_ne hid] at hc
      obtain ⟨a', hlast, hrow', hlayers⟩ := h.stored hc
      have hkey : a.call.key ≠ c.key := by
        rw [← hrow.key]
        exact (hheld.key_ne hwrote hc hid).symm
      refine ⟨a', ?_, hrow', (hother _ hid).trans hlayers⟩
      simp only [World.last, World.approve, List.find?_cons, hkey, decide_false]
      exact hlast
  · intro a' ha'
    obtain rfl | ha' := List.mem_cons.mp ha'
    · rw [← hrow.key]
      exact ⟨id, Function.update_self _ _ _⟩
    · exact index_store (h.recorded ha')

/-- A revocation leaves the row what it was, but for that it is revoked. -/
theorem Kept.revoke (h : Kept w) (hn : w.txs n = some (.revoking id row)) (hheld : Held w) :
    Kept ((w.store id row).finish n (.revoking id row)) := by
  obtain ⟨c, hc, rfl⟩ := h.shaped hn
  have hwrote : w.wrote n = some (id, { c with revoked := true }) := wrote_of_txs hn
  constructor
  · intro m t hm
    by_cases hmn : m = n
    · subst hmn
      simp [World.finish] at hm
    · simp only [World.finish, World.store, Function.update_of_ne hmn] at hm
      refine Shaped_other ?_ (h.shaped hm)
      intro id' row' ht
      have hid : id' ≠ id := by
        intro hid
        subst hid
        exact hmn (hheld.apart ((wrote_of_txs hm).trans ht) hwrote)
      exact ⟨by simp [World.finish, World.store, Function.update_of_ne hid], fun _ => rfl⟩
  · intro r hr
    by_cases hid : r.consentId = id
    · exact ⟨_, by rw [hid]; exact Function.update_self _ _ _⟩
    · simp only [World.finish, World.store, Function.update_of_ne hid]
      exact h.homed hr
  · intro id' c' hc'
    by_cases hid : id' = id
    · subst hid
      simp only [World.finish, World.store, Function.update_self, Option.some.injEq] at hc'
      subst hc'
      obtain ⟨a, hlast, hrow, hlayers⟩ := h.stored hc
      exact ⟨a, hlast, ⟨hrow.key, hrow.org, hrow.ceiling⟩, hlayers⟩
    · simp only [World.finish, World.store, Function.update_of_ne hid] at hc'
      exact h.stored hc'
  · exact fun ha => index_store (h.recorded ha)

theorem kept_step (hheld : Held w) (hnamed : Named w) (h : Kept w) {act : Action}
    (hstep : Stepped w act w') : Kept w' := by
  cases hstep with
  | setUser orgId id user => exact h.quiet rfl rfl rfl rfl .inl
  | createLayer orgId id slug => exact h.quiet rfl rfl rfl rfl .inl
  | relabel act orgId id l l' => exact h.quiet rfl rfl rfl rfl .inl
  | «begin» n a => exact h.write rfl rfl rfl rfl rfl trivial
  | reuse n fresh a id hn hfree hid =>
      have hrow := upserted_rowFor hheld hid
      exact h.write rfl rfl rfl rfl rfl hrow
  | insert n fresh a hn =>
      exact h.write rfl rfl rfl rfl rfl (rowFor_new a.call)
  | clear n a id row hn =>
      have hrow : RowFor a.call row := h.shaped hn
      exact h.write rfl rfl rfl rfl rfl ⟨hrow, rfl⟩
  | fill n a id row deleted inserted hn hrows =>
      obtain ⟨hrow, hdeleted⟩ := h.shaped hn
      have hinserted := rows_inserted hnamed hn rfl hrows
      exact h.write rfl rfl rfl rfl rfl ⟨hrow, hdeleted, hinserted⟩
  | revoke n orgId id c hc =>
      exact h.write rfl rfl rfl rfl rfl ⟨c, hc, rfl⟩
  | approved n tx a id row deleted inserted hn hdone => exact h.approve hheld hn hdone
  | revoked n id row hn => exact h.revoke hn hheld
  | rollback n tx hn =>
      refine h.quiet rfl rfl rfl rfl ?_
      intro m t hm
      by_cases hmn : m = n
      · subst hmn
        simp [World.finish] at hm
      · simp only [World.finish, Function.update_of_ne hmn] at hm
        exact .inl hm

-- ============================================================== every run

structure Sound (w : World) : Prop where
  held : Held w
  named : Named w
  kept : Kept w

theorem sound_empty : Sound World.empty :=
  ⟨⟨nofun, nofun, nofun, nofun, nofun, nofun⟩, ⟨nofun, nofun⟩, ⟨nofun, nofun, nofun, nofun⟩⟩

theorem sound_reachable (hw : Reachable step anyStep init w) : Sound w := by
  refine hw.invariant ?_ ?_
  · rintro _ rfl
    exact sound_empty
  · intro t a t' ht _ hstep
    have hstepped := step_stepped hstep
    exact ⟨held_step ht.held hstepped, named_step ht.named hstepped,
      kept_step ht.held ht.named ht.kept hstepped⟩

-- ==================================================== what a token may do

/-- The last committed approval of a connection that is there. -/
def World.approvalOf (w : World) (id : String) : Option Approval :=
  (w.consents id).bind fun c => w.last c.key

/-- A delegation is what an approval says: its ceiling, and its narrowing
entry by entry, in whatever order the rows come. -/
structure Follows (orgId : String) (d : Resolved) (a : Approval) : Prop where
  org : a.call.orgId = orgId
  person : a.call.subject = .user d.userId
  surface : d.surface = a.call.surface
  ceiling : d.permissions = a.call.permissions
  narrowed : d.layers = none ↔ a.call.layers = []
  narrowing : (d.layers.getD []).Perm a.call.layers

/-- The token's own decision on a layer: the plan reaches it, or a document
of it, and the layer is inside the narrowing. -/
def Exercises (db : OrgDb) (auth : AuthContext) (layerId : String) (p : Permission) : Prop :=
  ((resolve (contextFor db auth) p).reachesLayer layerId = true ∨
      ∃ doc, (resolve (contextFor db auth) p).admits layerId doc = true) ∧
    withinDelegation auth layerId p = true

/-- The person may still be acted for. -/
def World.enabled (w : World) (orgId userId : String) : Prop :=
  ∃ u, w.users (orgId, userId) = some u ∧ u.disabled = false ∧ u.role ≠ .platformAdmin

structure DelegationsFollow (w : World) : Prop where
  /-- What is resolved is the last committed approval. -/
  exact : ∀ orgId id d, w.resolve orgId id = some d →
    ∃ a, w.approvalOf id = some a ∧ Follows orgId d a
  /-- And it is resolved, unless it was revoked since or the person is
  disabled. -/
  returned : ∀ a userId, w.last a.call.key = some a → a.call.subject = .user userId →
    ∃ id c, w.consents id = some c ∧ w.approvalOf id = some a ∧
      (c.revoked = false → w.enabled a.call.orgId userId →
        (w.resolve a.call.orgId id).isSome = true)
  /-- No more is exercised than that approval's body names. -/
  bounded : ∀ surface token auth, w.authenticate surface token = some auth →
    ∃ a, w.approvalOf token.del = some a ∧
      ∀ db layerId p, Exercises db auth layerId p →
        Names a.found a.body layerId (.permission p)
  /-- Renaming or deleting a layer changes no delegation. -/
  lasting : ∀ orgId layerId slug w',
    step w (.renameLayer orgId layerId slug) = some w' ∨
        step w (.deleteLayer orgId layerId) = some w' →
      ∀ orgId' id, w'.resolve orgId' id = w.resolve orgId' id

theorem storedCeiling_eq {permissions : Option (List CeilingValue)} (h : permissions ≠ some []) :
    storedCeiling permissions = permissions := by
  cases permissions with
  | none => rfl
  | some values =>
      have hne : values ≠ [] := fun hnil => h (by rw [hnil])
      simp [storedCeiling, hne]

theorem narrowingOf_rowsFor (call : RecordCall) (id : String) :
    narrowingOf (rowsFor call id) = call.layers := by
  unfold narrowingOf rowsFor
  rw [List.map_map]
  exact List.map_id _

/-- What `resolve` found. -/
theorem resolve_inv {orgId : String} {d : Resolved} (h : w.resolve orgId id = some d) :
    ∃ c userId u, w.consents id = some c ∧ c.subject = .user userId ∧ c.orgId = orgId ∧
      w.users (orgId, c.approvedBy) = some u ∧
      d = { userId := c.approvedBy, role := u.role, surface := c.surface,
            layers := if w.layersOf orgId id = [] then none
              else some (narrowingOf (w.layersOf orgId id)),
            permissions := c.permissions } := by
  unfold World.resolve at h
  split at h
  next => cases h
  next c hc =>
    split at h
    next userId u hs hu =>
      split at h
      next hstands =>
        cases h
        exact ⟨c, userId, u, hc, hs, hstands.1, hu, rfl⟩
      next => cases h
    next => cases h

/-- A person's row and an approval of its key are of the same person and
surface. -/
theorem person_of_key {c : ConsentRow} {call : RecordCall} {userId : String}
    (hs : c.subject = .user userId) (hkey : c.key = call.key) :
    call.subject = .user c.approvedBy ∧ c.surface = call.surface ∧ call.orgId = c.orgId := by
  unfold ConsentRow.key RecordCall.key at hkey
  rw [hs] at hkey
  cases hcall : call.subject with
  | serviceAccount account => simp [hcall] at hkey
  | user userId' =>
      simp only [hcall, ConsentKey.person.injEq] at hkey
      obtain ⟨horg, -, hperson, hsurface⟩ := hkey
      exact ⟨by rw [hperson], hsurface, horg.symm⟩

theorem Sound.follows (h : Sound w) {orgId : String} {d : Resolved}
    (hd : w.resolve orgId id = some d) : ∃ a, w.approvalOf id = some a ∧ Follows orgId d a := by
  obtain ⟨c, userId, u, hc, hs, horg, -, rfl⟩ := resolve_inv hd
  obtain ⟨a, hlast, hrow, hlayers⟩ := h.kept.stored hc
  have hproper := consent_record a.accepted
  obtain ⟨hperson, hsurface, hcallorg⟩ := person_of_key hs (last_key hlast).symm
  have hempty : w.layersOf orgId id = [] ↔ a.call.layers = [] := by
    rw [← horg, hlayers, rowsFor, List.map_eq_nil_iff]
  refine ⟨a, by simp [World.approvalOf, hc, hlast], ?_⟩
  constructor
  · exact hcallorg.trans horg
  · exact hperson
  · exact hsurface
  · rw [← storedCeiling_eq hproper.ceilings.1]
    exact hrow.ceiling _ hperson
  · rw [← hempty]
    simp
  · by_cases hnone : w.layersOf orgId id = []
    · simp [hnone, hempty.mp hnone]
    · rw [if_neg hnone, ← horg, hlayers, narrowingOf_rowsFor]
      exact List.Perm.refl _

theorem Sound.returned (h : Sound w) {a : Approval} {userId : String}
    (hlast : w.last a.call.key = some a) (hperson : a.call.subject = .user userId) :
    ∃ id c, w.consents id = some c ∧ w.approvalOf id = some a ∧
      (c.revoked = false → w.enabled a.call.orgId userId →
        (w.resolve a.call.orgId id).isSome = true) := by
  obtain ⟨id, hid⟩ := h.kept.recorded (List.mem_of_find?_eq_some hlast)
  obtain ⟨c, hc, hkey⟩ := h.held.stands hid
  refine ⟨id, c, hc, by simp [World.approvalOf, hc, hkey, hlast], ?_⟩
  intro hstands henabled
  obtain ⟨u, hu, hdisabled, hrole⟩ := henabled
  cases hs : c.subject with
  | serviceAccount account => simp [ConsentRow.key, RecordCall.key, hs, hperson] at hkey
  | user userId' =>
      obtain ⟨hsame, -, horg⟩ := person_of_key hs hkey
      rw [hperson] at hsame
      cases hsame
      rw [horg] at hu
      simp [World.resolve, hc, hs, horg, hu, hstands, hdisabled, hrole]

/-- A plan that admits anything is inside the ceiling. -/
theorem within_of_exercises {db : OrgDb} {auth : AuthContext} {delegation : Delegation}
    {layerId : String} {p : Permission} (hdelegation : auth.delegation = some delegation)
    (h : Exercises db auth layerId p) : Within delegation.permissions (.permission p) := by
  intro values hvalues
  have hinside : (contextFor db auth).outsideCeiling p = false := by
    cases hc : (contextFor db auth).outsideCeiling p with
    | false => rfl
    | true =>
        have hplan : resolve (contextFor db auth) p = .none := by rw [resolve_ceiling, hc]; rfl
        obtain ⟨hreach | ⟨doc, hadmits⟩, -⟩ := h
        · simp [hplan, AccessPlan.reachesLayer] at hreach
        · simp [hplan, AccessPlan.admits] at hadmits
  simp only [ResolveInput.outsideCeiling, contextFor, resolveInput, ceilingOf, hdelegation,
    hvalues, Option.map_some, Bool.not_eq_false', List.contains_eq_mem, decide_eq_true_eq,
    permissionsOf, List.mem_filterMap] at hinside
  obtain ⟨v, hv, hvp⟩ := hinside
  cases v with
  | permission q =>
      cases hvp
      exact hv
  | skill => cases hvp

theorem narrowed_of_exercises {db : OrgDb} {auth : AuthContext} {delegation : Delegation}
    {layerId : String} {p : Permission} (hdelegation : auth.delegation = some delegation)
    (h : Exercises db auth layerId p) :
    delegation.layers = none ∨ ∃ e ∈ delegation.layers.getD [], e.id = layerId ∧
      Within e.permissions (.permission p) := by
  obtain ⟨-, hwithin⟩ := h
  simp only [withinDelegation, delegatedLayers, hdelegation] at hwithin
  cases hlayers : delegation.layers with
  | none => exact .inl rfl
  | some narrowing =>
      rw [hlayers] at hwithin
      simp only [Option.map_some, List.contains_eq_mem, decide_eq_true_eq, List.mem_map,
        List.mem_filter] at hwithin
      obtain ⟨e, ⟨he, hadmits⟩, hid⟩ := hwithin
      refine .inr ⟨e, he, hid, ?_⟩
      intro values hvalues
      simpa [hvalues] using hadmits

theorem Sound.bounded (h : Sound w) {surface : Surface} {token : DelegatedToken}
    {auth : AuthContext} (hauth : w.authenticate surface token = some auth) :
    ∃ a, w.approvalOf token.del = some a ∧
      ∀ db layerId p, Exercises db auth layerId p →
        Names a.found a.body layerId (.permission p) := by
  unfold World.authenticate at hauth
  split at hauth
  next => cases hauth
  next d hd =>
    obtain ⟨a, ha, hfollows⟩ := h.follows hd
    refine ⟨a, ha, ?_⟩
    split at hauth
    next => cases hauth
    next =>
      split at hauth
      next => cases hauth
      next =>
        split at hauth
        next => cases hauth
        next =>
          cases hauth
          intro db layerId p hexercises
          have hceiling := within_of_exercises rfl hexercises
          have hnarrowed := narrowed_of_exercises rfl hexercises
          refine (consent_record a.accepted).names _ hfollows.person _ _ ⟨?_, ?_⟩
          · rw [← hfollows.ceiling]
            exact hceiling
          · obtain hnone | ⟨e, he, hid, hv⟩ := hnarrowed
            · exact .inl (hfollows.narrowed.mp hnone)
            · exact .inr ⟨e, hfollows.narrowing.mem_iff.mp he, hid, hv⟩

theorem resolve_setLayer {orgId layerId : String} {f : LayerName → LayerName}
    (h : w.setLayer orgId layerId f = some w') (orgId' id : String) :
    w'.resolve orgId' id = w.resolve orgId' id := by
  unfold World.setLayer at h
  split at h
  next => cases h
  next l hl =>
    cases h
    rfl

/-- In every run: what a delegated token resolves is the ceiling and the
narrowing of the last committed approval of its connection, and it
exercises no more than that approval names. -/
theorem delegations_follow (hw : Reachable step anyStep init w) : DelegationsFollow w := by
  have hsound := sound_reachable hw
  constructor
  · intro orgId id d hd
    exact hsound.follows hd
  · intro a userId hlast hperson
    exact hsound.returned hlast hperson
  · intro surface token auth hauth
    exact hsound.bounded hauth
  · intro orgId layerId slug w' hstep
    obtain hstep | hstep := hstep
    · exact resolve_setLayer hstep
    · exact resolve_setLayer hstep

-- ================================================================= a run

/-- A JSON object of string fields and others. -/
def bodyOf (strings : List (String × String)) (others : List (String × Json)) : Json :=
  .object (strings.map (fun f => (Js.codeUnits f.1, .string (Js.codeUnits f.2)))
    ++ others.map fun f => (Js.codeUnits f.1, f.2))

def handbook : String := "0a1b2c3d-4e5f-6071-8293-a4b5c6d7e8f9"
def scratch : String := "1a1b2c3d-4e5f-6071-8293-a4b5c6d7e8f9"

def ann : AuthContext := ⟨"acme", ⟨.user, "ann"⟩, .member, none⟩

def seen : Found := ⟨false, true, false, [handbook, scratch]⟩

/-- The handbook, to read only, and the scratch layer. -/
def narrowBody : Json :=
  bodyOf [("client_id", "app"), ("redirect_uri", "https://app"), ("code_challenge", "c")]
    [("permissions", .array [.string (Js.codeUnits "read"), .string (Js.codeUnits "write")]),
     ("layers", .array
       [bodyOf [("id", handbook)] [("permissions", .array [.string (Js.codeUnits "read")])],
        .string (Js.codeUnits scratch)])]

/-- Everything. -/
def wideBody : Json :=
  bodyOf [("client_id", "app"), ("redirect_uri", "https://app"), ("code_challenge", "c")] []

def callOf (layers : List NarrowedLayer) (permissions : Option (List CeilingValue)) : RecordCall :=
  ⟨"acme", "ann", "app", .user "ann", layers, permissions, .default⟩

def narrowApproval : Approval where
  found := seen
  auth := ann
  body := narrowBody
  call := callOf [⟨handbook, some [.permission .read]⟩, ⟨scratch, none⟩]
    (some [.permission .read, .permission .write])
  accepted := by decide +kernel

def wideApproval : Approval where
  found := seen
  auth := ann
  body := wideBody
  call := callOf [] none
  accepted := by decide +kernel

/-- A wide approval waits behind a narrow one; both layers go, and the
narrow one has committed. -/
def narrowedActions : List Action :=
  [.setUser "acme" "ann" ⟨.member, false⟩, .createLayer "acme" handbook "handbook",
   .createLayer "acme" scratch "scratch", .begin 0 wideApproval, .begin 1 narrowApproval,
   .upsert 1 "c1", .clear 1, .fill 1, .commit 1, .upsert 0 "c2", .clear 0,
   .deleteLayer "acme" handbook, .deleteLayer "acme" scratch]

def narrowedDelegation : Resolved where
  userId := "ann"
  role := .member
  surface := .default
  layers := some [⟨handbook, some [.permission .read]⟩, ⟨scratch, none⟩]
  permissions := some [.permission .read, .permission .write]

theorem run_narrowed : (runWithin step anyStep World.empty narrowedActions).any
    (fun w => decide (w.resolve "acme" "c1" = some narrowedDelegation)) = true := by
  decide +kernel

theorem delegations_follow_narrowed :
    ∃ w, w.resolve "acme" "c1" = some narrowedDelegation ∧ DelegationsFollow w := by
  have hstart : init World.empty := rfl
  obtain ⟨w, hw, hresolve⟩ := exists_reachable hstart run_narrowed
  exact ⟨w, hresolve, delegations_follow hw⟩

end Nacre.Delegations
