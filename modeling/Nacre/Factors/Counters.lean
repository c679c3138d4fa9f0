/-
The counter of a key: every assertion that is accepted, in any order of
requests.

The row is locked from the comparison to the commit, so the counter that is
written was compared with the one it replaces (`Tx.Steady`). The comparison
lets a zero through, whatever is stored, and the zero is then stored; the
next counter is above it. `Counting` says of a run that a zero is presented
only where nothing but zeros has been.
-/
import Nacre.Factors.Locks

namespace Nacre.Factors

open Transition
open Nacre.Store (Time)

variable {deps : Deps} {s s' : World} {a : Action} {t : Tx} {held : List FactorId}
  {effect : Effect} {stage : Stage}

-- ========================================================== the condition

/-- The counter stored for a credential. -/
def World.stored (s : World) (credentialId : String) : Nat :=
  (((s.keyOf credentialId).bind s.keys).map (·.signCount)).getD 0

/-- The response that is to be compared with a stored counter. -/
def Tx.presents : Tx → Option Response
  | ⟨_, .assertion response, .spent⟩ => some response
  | _ => none

def Action.presents : Action → Option Response
  | .run t _ => t.presents
  | _ => none

/-- A counter of zero is presented only while the stored one is zero. -/
def Counting (s : World) (a : Action) : Prop :=
  ∀ response ∈ a.presents, counter response.authenticatorData = 0 →
    s.stored response.credentialId = 0

instance (s : World) (a : Action) : Decidable (Counting s a) :=
  inferInstanceAs (Decidable (∀ response ∈ a.presents, _ → _))

/-- The rule of the counter. -/
def Grows (stored received : Nat) : Prop :=
  stored ≤ received ∧ (stored ≠ 0 ∨ received ≠ 0 → stored < received)

/-- What is to be said of the counters: from here on a stored one never
goes down, and every assertion accepted so far was above the stored one
unless both were zero. -/
structure Counted (deps : Deps) (s : World) : Prop where
  grows : ∀ id stored received, .signed id stored received ∈ s.log → Grows stored received
  later : ∀ s' id row row', Steps (step deps) Counting s s' → s.keys id = some row →
    s'.keys id = some row' → row.signCount ≤ row'.signCount

-- =========================================================== the invariant

/-- A counter that is to be stored is above the one it replaces. -/
def Tx.Steady (s : World) (t : Tx) : Prop :=
  ∀ held challenge id count, t.stage = .done held (.sign challenge id count) →
    ∃ row, s.keys id = some row ∧ Grows row.signCount count

structure Compared (s : World) : Prop where
  locked : Locked s
  steady : ∀ t ∈ s.txs, t.Steady s
  grows : ∀ id stored received, .signed id stored received ∈ s.log → Grows stored received

theorem Tx.Steady.frame (h : t.Steady s) (hsound : t.Sound s)
    (hkeeps : ∀ lock, t.locks lock = true → Keeps s s' lock) : t.Steady s' := by
  intro held challenge id count hstage
  obtain ⟨row, hrow, hgrows⟩ := h held challenge id count hstage
  rw [Tx.Sound, hstage] at hsound
  have hlock : t.locks (.factor id) = true := by
    unfold Tx.locks Tx.holds
    rw [hstage]
    exact decide_eq_true hsound.2.1
  exact ⟨row, (hkeeps _ hlock).2 row hrow, hgrows⟩

/-- It is no counter that the transaction is to store. -/
theorem Tx.Steady.of_plain (h : t.stage.plain) : t.Steady s := by
  intro held challenge id count hstage
  rw [hstage] at h
  cases h

/-- What is presented within `Counting`, and accepted, is above the stored
counter. -/
theorem grows_of_signs {response : Response} {id : FactorId} {row : KeyRow}
    {assertion : Assertion} {minted : List String}
    (h : Signs deps s t response id row assertion) (hok : Counting s (.run t minted)) :
    Grows row.signCount assertion.signCount := by
  have hpresents : response ∈ (Action.run t minted).presents := by
    obtain ⟨began, request, stage⟩ := t
    cases h.request
    cases h.stage
    rfl
  have hstored : s.stored response.credentialId = row.signCount := by
    unfold World.stored
    rw [h.found, Option.bind_some, h.key]
    rfl
  have hzero := hok response hpresents
  rw [hstored, ← verifyAssertion_signCount h.accepted] at hzero
  have habove := verifyAssertion_count h.accepted
  unfold Grows
  omega

/-- A counter is recorded when it is stored, beside the one it replaces. -/
theorem signed_mem_events {id : FactorId} {stored received : Nat}
    (h : .signed id stored received ∈ effect.events s) :
    ∃ challenge row, effect = .sign challenge id received ∧ s.keys id = some row
      ∧ row.signCount = stored := by
  cases effect with
  | nothing => cases h
  | recover hash =>
      obtain ⟨row, -, heq⟩ := Option.map_eq_some_iff.1 (Option.mem_toList.1 h)
      cases heq
  | accept id' step =>
      obtain ⟨row, -, heq⟩ := Option.map_eq_some_iff.1 (Option.mem_toList.1 h)
      cases heq
  | fail rows => cases h
  | enrol id' step codes =>
      obtain ⟨row, -, heq⟩ := Option.map_eq_some_iff.1 (Option.mem_toList.1 h)
      cases heq
  | spend challenge => cases List.mem_singleton.1 h
  | sign challenge id' count =>
      unfold Effect.events at h
      dsimp only at h
      split at h
      next => cases h
      next row hrow =>
        rcases List.mem_cons.1 h with heq | hrest
        · cases heq
        · cases List.mem_singleton.1 hrest
          exact ⟨challenge, row, rfl, hrow, rfl⟩
  | add challenge row codes => cases List.mem_singleton.1 h
  | drop id' codes => cases h

/-- No key is written, and no counter is to be. -/
theorem Compared.frame (h : Compared s) (hlocked : Locked s') (hkeys : s'.keys = s.keys)
    (htxs : ∀ t ∈ s'.txs, t ∈ s.txs ∨ t.stage.plain)
    (hlog : ∀ id stored received, .signed id stored received ∈ s'.log →
      .signed id stored received ∈ s.log) : Compared s' := by
  refine ⟨hlocked, fun t ht => ?_, fun id stored received hmem => ?_⟩
  · rcases htxs t ht with hold | hplain
    · intro held challenge id count hstage
      rw [hkeys]
      exact h.steady t hold held challenge id count hstage
    · exact .of_plain hplain
  · exact h.grows id stored received (hlog id stored received hmem)

theorem Compared.commit (h : Compared s) (ht : t ∈ s.txs) (hstage : t.stage = .done held effect)
    (hunique : effect.unique s = true) : Compared ((s.drop t).apply t.began effect) := by
  refine ⟨h.locked.commit ht hstage hunique, fun t' ht' => ?_, fun id stored received hmem => ?_⟩
  · rw [apply_txs] at ht'
    have hin : t' ∈ s.txs := List.mem_of_mem_erase ht'
    exact (h.steady t' hin).frame (h.locked.sound t' hin)
      fun lock hlock => h.locked.others ht hstage hunique ht' hlock
  · rw [apply_log] at hmem
    rcases List.mem_append.1 hmem with hnew | hold
    · obtain ⟨challenge, row, rfl, hrow, rfl⟩ := signed_mem_events hnew
      obtain ⟨row', hrow', hgrows⟩ := h.steady t ht held challenge id received hstage
      have hsame : some row = some row' := hrow.symm.trans hrow'
      cases hsame
      exact hgrows
    · exact h.grows id stored received hold

theorem Compared.step (h : Compared s) (hok : Counting s a) (hs : Factors.step deps s a = some s') :
    Compared s' := by
  have hlocked := h.locked.step hs
  cases step_moved hs with
  | tick elapsed => exact h.frame hlocked rfl (fun _ => .inl) fun _ _ _ => id
  | enrol began label secret named row hnamed hrow =>
      exact h.frame hlocked rfl (fun _ => .inl) fun _ _ _ => id
  | issue began purpose challenge row hnone =>
      exact h.frame hlocked rfl (fun _ => .inl) fun _ _ _ => id
  | ask request =>
      refine h.frame hlocked rfl (fun t ht => ?_) fun _ _ _ => id
      rcases List.mem_cons.1 ht with rfl | hold
      · exact .inr trivial
      · exact .inl hold
  | advance _ t stage hgoes hplain =>
      refine h.frame hlocked rfl (fun t' ht' => ?_) fun _ _ _ => id
      rcases List.mem_cons.1 ht' with rfl | hold
      · exact .inr hplain
      · exact .inl (List.mem_of_mem_erase hold)
  | signed minted t response id row assertion hsigns hgoes =>
      refine ⟨hlocked, fun t' ht' => ?_, h.grows⟩
      rcases List.mem_cons.1 ht' with rfl | hold
      · intro held challenge id' count hstage
        cases hstage
        exact ⟨row, hsigns.key, grows_of_signs hsigns hok⟩
      · exact h.steady t' (List.mem_of_mem_erase hold)
  | wrong minted t code rows heval =>
      refine ⟨hlocked, fun t' ht' => ?_, fun id stored received hmem => ?_⟩
      · rcases List.mem_cons.1 ht' with rfl | hold
        · exact nofun
        · exact h.steady t' (List.mem_of_mem_erase hold)
      · exact h.grows id stored received ((List.mem_cons.1 hmem).resolve_left nofun)
  | threw minted t code rows heval =>
      refine h.frame hlocked rfl (fun t' ht' => .inl (List.mem_of_mem_erase ht'))
        fun _ _ _ hmem => ?_
      exact (List.mem_cons.1 hmem).resolve_left nofun
  | lost _ t hlost =>
      exact h.frame hlocked rfl (fun t' ht' => .inl (List.mem_of_mem_erase ht'))
        fun _ _ _ => id
  | commit minted t held effect ht hstage hunique => exact h.commit ht hstage hunique

theorem compared_init (hs : init s) : Compared s := by
  have hlocked := locked_init hs
  obtain ⟨now, rfl⟩ := hs
  refine ⟨hlocked, fun t ht => ?_, fun id stored received hmem => ?_⟩
  · cases ht
  · cases hmem

-- ======================================================= what is stored

/-- The keys after a commit: as they were, one with another counter, or
new. -/
theorem apply_keys {began : Time} {id : FactorId} {row' : KeyRow}
    (h : (s.apply began effect).keys id = some row') :
    s.keys id = some row' ∨ id = s.ids.length
      ∨ ∃ challenge row, effect = .sign challenge id row'.signCount ∧ s.keys id = some row := by
  cases effect with
  | nothing => exact .inl h
  | recover hash =>
      unfold World.apply at h
      dsimp only at h
      split at h <;> exact .inl h
  | accept id' step =>
      unfold World.apply at h
      dsimp only at h
      split at h <;> exact .inl h
  | fail rows =>
      have hkeys : (s.setTotps rows).keys id = some row' := h
      rw [setTotps_frame] at hkeys
      exact .inl hkeys
  | enrol id' step codes =>
      unfold World.apply at h
      dsimp only at h
      split at h <;> exact .inl h
  | spend challenge => exact .inl h
  | sign challenge id' count =>
      unfold World.apply at h
      dsimp only at h
      split at h
      next => exact .inl h
      next row hrow =>
        rcases Table.update_cases h with ⟨rfl, rfl⟩ | ⟨-, hold⟩
        · exact .inr (.inr ⟨challenge, row, rfl, hrow⟩)
        · exact .inl hold
  | add challenge row codes =>
      rcases Table.update_cases h with ⟨rfl, -⟩ | ⟨-, hold⟩
      · exact .inr (.inl rfl)
      · exact .inl hold
  | drop id' codes => exact .inl (Table.delete_cases h).2

/-- A step leaves a counter or lets it grow, and gives no old id to a new
key. -/
theorem step_signCount (h : Compared s) (hs : Factors.step deps s a = some s') {id : FactorId}
    {row' : KeyRow} (hid : id ∈ s.ids) (hrow' : s'.keys id = some row') :
    id ∈ s'.ids ∧ ∃ row, s.keys id = some row ∧ row.signCount ≤ row'.signCount := by
  cases step_moved hs with
  | tick elapsed => exact ⟨hid, row', hrow', Nat.le_refl _⟩
  | enrol began label secret named row hnamed hrow =>
      exact ⟨List.mem_cons_of_mem _ hid, row', hrow', Nat.le_refl _⟩
  | issue began purpose challenge row hnone => exact ⟨hid, row', hrow', Nat.le_refl _⟩
  | ask request => exact ⟨hid, row', hrow', Nat.le_refl _⟩
  | advance _ t stage hgoes hplain => exact ⟨hid, row', hrow', Nat.le_refl _⟩
  | signed minted t response id' row assertion hsigns hgoes =>
      exact ⟨hid, row', hrow', Nat.le_refl _⟩
  | wrong minted t code rows heval => exact ⟨hid, row', hrow', Nat.le_refl _⟩
  | threw minted t code rows heval => exact ⟨hid, row', hrow', Nat.le_refl _⟩
  | lost _ t hlost => exact ⟨hid, row', hrow', Nat.le_refl _⟩
  | commit minted t held effect ht hstage hunique =>
      have hborn := (h.locked.commit ht hstage hunique).keys id row' hrow'
      refine ⟨hborn, ?_⟩
      rcases apply_keys hrow' with hold | hnew | ⟨challenge, row, rfl, hrow⟩
      · exact ⟨row', hold, Nat.le_refl _⟩
      · exact absurd (hnew ▸ hid) h.locked.not_mem
      · obtain ⟨row₀, hrow₀, hgrows⟩ := h.steady t ht held challenge id row'.signCount hstage
        exact ⟨row₀, hrow₀, hgrows.1⟩

theorem apply_ids {began : Time} {id : FactorId} (h : id ∈ s.ids) :
    id ∈ (s.apply began effect).ids := by
  cases effect with
  | nothing => exact h
  | recover hash =>
      unfold World.apply
      dsimp only
      split <;> exact h
  | accept id' step =>
      unfold World.apply
      dsimp only
      split <;> exact h
  | fail rows =>
      show id ∈ (s.setTotps rows).ids
      rw [setTotps_frame]
      exact h
  | enrol id' step codes =>
      unfold World.apply
      dsimp only
      split <;> exact h
  | spend challenge => exact h
  | sign challenge id' count =>
      unfold World.apply
      dsimp only
      split <;> exact h
  | add challenge row codes => exact List.mem_cons_of_mem _ h
  | drop id' codes => exact h

/-- No id is taken back. -/
theorem step_ids {id : FactorId} (hs : Factors.step deps s a = some s') (h : id ∈ s.ids) :
    id ∈ s'.ids := by
  cases step_moved hs with
  | enrol began label secret named row hnamed hrow => exact List.mem_cons_of_mem _ h
  | commit minted t held effect ht hstage hunique => exact apply_ids h
  | tick _ | issue _ _ _ _ _ | ask _ | advance _ _ _ _ _ | signed _ _ _ _ _ _ _ _
  | wrong _ _ _ _ _ | threw _ _ _ _ _ | lost _ _ _ => exact h

theorem compared_reachable (hs : Reachable (step deps) Counting init s) : Compared s :=
  hs.invariant (fun _ => compared_init) fun _ _ _ h hok ha => h.step hok ha

/-- In every run in which a counter of zero is presented only while the
stored one is zero: the rule of the counter, and a stored counter never
goes down. -/
theorem counters_grow (hs : Reachable (step deps) Counting init s) : Counted deps s := by
  have hcompared := compared_reachable hs
  refine ⟨hcompared.grows, fun s' id row row' hrun hrow hrow' => ?_⟩
  have hkept : Compared s' ∧ id ∈ s'.ids
      ∧ ∀ row', s'.keys id = some row' → row.signCount ≤ row'.signCount := by
    refine hrun.invariant (I := fun t => Compared t ∧ id ∈ t.ids
        ∧ ∀ row', t.keys id = some row' → row.signCount ≤ row'.signCount)
      ⟨hcompared, hcompared.locked.keys id row hrow, fun row' hrow' => ?_⟩
      fun t a t' h hok ha => ⟨h.1.step hok ha, step_ids ha h.2.1, fun row' hrow' => ?_⟩
    · rw [hrow] at hrow'
      cases hrow'
      exact Nat.le_refl _
    · obtain ⟨-, row₀, hrow₀, hle⟩ := step_signCount h.1 ha h.2.1 hrow'
      exact Nat.le_trans (h.2.2 row₀ hrow₀) hle
  exact hkept.2.2 row' hrow'

-- ============================================================ a key, cloned

namespace Cloned

/-- What a browser sends, and what `JSON.parse` makes of it. -/
def clientData (type challenge : String) : String :=
  "\x7b\"type\":\"" ++ type ++ "\",\"challenge\":\"" ++ challenge
    ++ "\",\"origin\":\"http://localhost\"\x7d"

def parsed (type challenge : String) : Json :=
  .object [(Js.codeUnits "type", .string (Js.codeUnits type)),
    (Js.codeUnits "challenge", .string (Js.codeUnits challenge)),
    (Js.codeUnits "origin", .string (Js.codeUnits "http://localhost"))]

def sent : List (String × String) :=
  [("webauthn.create", "c0"), ("webauthn.get", "c1"), ("webauthn.get", "c2")]

def host : Host where
  toUpperCase := id
  decipher := fun _ _ _ => none
  parse := fun text =>
    (sent.find? fun p => text = clientData p.1 p.2).map fun p => parsed p.1 p.2
  verifySignature := fun _ _ _ signature => signature = [0x53]

def site : Deps := ⟨host, false, ⟨"localhost", ["http://localhost"]⟩⟩

/-- The hash of `localhost`, the flags and the counter. -/
def authenticatorData (flags count : UInt8) : List UInt8 :=
  [0x49, 0x96, 0x0d, 0xe5, 0x88, 0x0e, 0x8c, 0x68, 0x74, 0x34, 0x17, 0x0f, 0x64, 0x76, 0x60,
    0x5b, 0x8f, 0xe4, 0xae, 0xb9, 0xa2, 0x86, 0x32, 0xc7, 0x99, 0x5c, 0xf3, 0xba, 0x83, 0x1d,
    0x97, 0x63, flags, 0, 0, 0, count]

/-- No model, the id 7, and an Ed25519 key. -/
def credential : List UInt8 :=
  List.replicate 16 0 ++ [0, 1, 7]
    ++ [0xa4, 0x01, 0x01, 0x03, 0x27, 0x20, 0x06, 0x21, 0x58, 0x20] ++ List.replicate 32 9

/-- A map with the authenticator data alone. -/
def attestationObject : List UInt8 :=
  let data := authenticatorData 0x41 0 ++ credential
  [0xa1, 0x68] ++ "authData".toUTF8.toList ++ [0x58, UInt8.ofNat data.length] ++ data

def row (count : Nat) : KeyRow :=
  ⟨"key", b64url [7], ⟨-8, [("kty", "OKP"), ("crv", "Ed25519"), ("x", b64url (List.replicate 32 9))]⟩,
    count⟩

def codes : List String := ["0", "1", "2", "3", "4", "5", "6", "7", "8", "9"]

def register : Request :=
  .register "key" attestationObject (clientData "webauthn.create" "c0").toUTF8.toList "c0"

def response (challenge : String) (count : UInt8) : Response :=
  ⟨b64url [7], authenticatorData 0x01 count,
    (clientData "webauthn.get" challenge).toUTF8.toList, [0x53], challenge⟩

/-- A key is registered, with the counter at zero. -/
def registers : List Action :=
  [.issueChallenge 0 .register "c0", .ask register, .run ⟨0, register, .begun⟩ [],
    .run ⟨0, register, .spent⟩ [], .run ⟨0, register, .proved [] (.key "c0" (row 0))⟩ codes,
    .run ⟨0, register, .done [] (.add "c0" (row 0) codes)⟩ []]

/-- An assertion, accepted. -/
def asserts (challenge : String) (count : UInt8) : List Action :=
  let request := Request.assertion (response challenge count)
  [.issueChallenge 0 .authenticate challenge, .ask request, .run ⟨0, request, .begun⟩ [],
    .run ⟨0, request, .spent⟩ [],
    .run ⟨0, request, .done [0] (.sign challenge 0 count.toNat)⟩ []]

theorem run_five : (runWithin (step site) Counting (World.new 0)
    (registers ++ asserts "c1" 5)).any (fun s => decide (.signed 0 0 5 ∈ s.log)) = true := by
  decide +kernel

theorem run_zero : (runWithin (step site) anyStep (World.new 0)
    (registers ++ asserts "c1" 5 ++ asserts "c2" 0)).any (fun s =>
      decide (.signed 0 5 0 ∈ s.log ∧ (s.keys 0).map (·.signCount) = some 0)) = true := by
  decide +kernel

end Cloned

/-- The counter goes from 0 to 5. -/
theorem counters_grow_five : ∃ s, .signed 0 0 5 ∈ s.log ∧ Counted Cloned.site s := by
  have hstart : init (World.new 0) := ⟨0, rfl⟩
  obtain ⟨s, hs, hlog⟩ := exists_reachable hstart Cloned.run_five
  exact ⟨s, hlog, counters_grow hs⟩

/-- And then a zero is presented: it is accepted over a stored five, and
stored. -/
theorem zero_accepted :
    ∃ s, Reachable (step Cloned.site) anyStep init s
      ∧ .signed 0 5 0 ∈ s.log ∧ (s.keys 0).map (·.signCount) = some 0 :=
  exists_reachable ⟨0, rfl⟩ Cloned.run_zero

end Nacre.Factors
