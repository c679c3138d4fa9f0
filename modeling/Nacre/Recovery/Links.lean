/-
One link at a time, and each once.

# What holds of every run

`Held`: a row that a transaction has written is locked by it, was not spent
before, and is a link of the person the transaction is about. So a link is
spent by one transaction, and sets a password at most once.

# What can go wrong

A request spends the links that were committed when its UPDATE began. Of two
requests that overlap neither sees the other's link: both commit one, and
both links work. And `redeem` reads the account and then writes it: whoever
disables the account in between is overtaken.

# The condition

`Orderly`: no link of the person was committed since the UPDATE of a request
that commits began, and no account is disabled or shared between the read of
a redemption and its write. In runs of this kind a person has one link that
is not spent (`Solo`), so that a password that is set leaves none of the
links there were.
-/
import Nacre.Recovery.System

namespace Nacre.Recovery

open Nacre.Store (Time)
open Transition

variable {digest : String → LinkId} {w w' : World} {n : Nat} {tx : Tx}

-- =========================================================== the property

/-- Unspent and unexpired. -/
def World.live (w : World) (u : UserId) (l : LinkId) : Prop :=
  ∃ row, w.links l = some row ∧ row.user = u ∧ row.live w.now = true

/-- What recovery promises of the links of every person. -/
structure Guarded (w : World) : Prop where
  single : ∀ u l l', w.live u l → w.live u l' → l = l'
  /-- A link sets a password once. -/
  once : (w.resets.map (·.link)).Nodup
  /-- Of an account that is neither disabled nor shared. -/
  allowed : ∀ r ∈ w.resets, r.account.disabled = false ∧ r.account.isShared = false
  /-- And no link there was then sets one later. -/
  last : w.resets.Pairwise fun later earlier =>
    later.user = earlier.user → later.link ∉ earlier.before

-- ========================================================== the condition

/-- A redemption has read this person's account, and not yet written it. -/
def Tx.reads (u : UserId) : Option Tx → Bool
  | some (.allowed u' _ _ _) => u' = u
  | _ => false

/-- No link was committed since the UPDATE of a request that commits; no
account is disabled or shared under a redemption. -/
def Orderly (w : World) : Action → Prop
  | .commit n =>
      match w.txs n with
      | some (.issued u _ _ _ known _) => ∀ l ∈ w.linksOf u, l ∈ known
      | _ => True
  | .account u account =>
      account.disabled = true ∨ account.isShared = true →
        ∀ n ∈ w.calls, Tx.reads u (w.txs n) = false
  | _ => True

instance (w : World) (a : Action) : Decidable (Orderly w a) :=
  match a with
  | .commit n =>
      match h : w.txs n with
      | some (.issued u _ _ _ known _) =>
          decidable_of_iff (∀ l ∈ w.linksOf u, l ∈ known) (by simp [Orderly, h])
      | some (.found ..) | some (.retiring ..) | some (.hashing ..) | some (.began ..)
      | some (.spent ..) | some (.allowed ..) | some (.written ..) | some (.barred ..) | none =>
          isTrue (by simp [Orderly, h])
  | .account u account =>
      inferInstanceAs (Decidable (account.disabled = true ∨ account.isShared = true → _))
  | .tick | .request .. | .retire _ | .retireRow _ | .issue _ | .redeem .. | .begin ..
  | .spend _ | .read _ | .write _ | .fail _ => inferInstanceAs (Decidable True)

-- ============================================================== the locks

structure Held (w : World) : Prop where
  locks : ∀ {n tx l}, w.txs n = some tx → l ∈ tx.links → w.locked l = some n
  rows : ∀ {n tx l}, w.txs n = some tx → l ∈ tx.links →
    ∃ row, w.links l = some row ∧ row.usedAt = none ∧ tx.user = some row.user
  called : ∀ {n tx}, w.txs n = some tx → n ∈ w.calls
  listed : ∀ {l row}, w.links l = some row → l ∈ w.linkIds
  spent : ∀ {r}, r ∈ w.resets → ∃ row, w.links r.link = some row ∧ row.usedAt ≠ none
  once : (w.resets.map (·.link)).Nodup

/-- The transactions after one of them was written. -/
theorem txs_write {txs : Nat → Option Tx} {m : Nat} {t : Tx}
    (h : Function.update txs n (some tx) m = some t) : (m = n ∧ t = tx) ∨ (m ≠ n ∧ txs m = some t) := by
  by_cases hm : m = n
  · subst hm
    rw [Function.update_self] at h
    cases h
    exact .inl ⟨rfl, rfl⟩
  · rw [Function.update_of_ne hm] at h
    exact .inr ⟨hm, h⟩

/-- A transaction is written that has no more rows than it had. -/
theorem Held.write (h : Held w) (htxs : w'.txs = Function.update w.txs n (some tx))
    (hlinks : w'.links = w.links) (hids : w'.linkIds = w.linkIds) (hlocked : w'.locked = w.locked)
    (hresets : w'.resets = w.resets) (hcalls : ∀ k ∈ w.calls, k ∈ w'.calls) (hn : n ∈ w'.calls)
    (hrows : ∀ l ∈ tx.links, ∃ old, w.txs n = some old ∧ l ∈ old.links ∧ tx.user = old.user) :
    Held w' := by
  constructor
  · intro m t l hm hl
    rw [htxs] at hm
    rw [hlocked]
    obtain ⟨rfl, rfl⟩ | ⟨-, hm⟩ := txs_write hm
    · obtain ⟨old, hold, hmem, -⟩ := hrows l hl
      exact h.locks hold hmem
    · exact h.locks hm hl
  · intro m t l hm hl
    rw [htxs] at hm
    rw [hlinks]
    obtain ⟨rfl, rfl⟩ | ⟨-, hm⟩ := txs_write hm
    · obtain ⟨old, hold, hmem, huser⟩ := hrows l hl
      rw [huser]
      exact h.rows hold hmem
    · exact h.rows hm hl
  · intro m t hm
    rw [htxs] at hm
    obtain ⟨rfl, rfl⟩ | ⟨-, hm⟩ := txs_write hm
    · exact hn
    · exact hcalls _ (h.called hm)
  · rw [hlinks, hids]
    exact h.listed
  · rw [hresets, hlinks]
    exact h.spent
  · rw [hresets]
    exact h.once

/-- A transaction writes a row that nobody else has written. -/
theorem Held.lockWrite (h : Held w) {old : Tx} {l : LinkId} {row : Link} (hn : w.txs n = some old)
    (hfree : w.locked l = none) (hrow : w.links l = some row) (hunused : row.usedAt = none)
    (huser : tx.user = some row.user)
    (hrows : ∀ k ∈ tx.links, k = l ∨ (k ∈ old.links ∧ tx.user = old.user)) :
    Held ((w.lock n l).write n tx) := by
  have hlocked : ∀ {k m}, w.locked k = some m → (w.lock n l).locked k = some m := by
    intro k m hk
    have hne : k ≠ l := by
      rintro rfl
      rw [hfree] at hk
      cases hk
    exact (Function.update_of_ne hne _ _).trans hk
  constructor
  · intro m t k hm hk
    obtain ⟨rfl, rfl⟩ | ⟨-, hm⟩ := txs_write hm
    · obtain rfl | ⟨hk, -⟩ := hrows k hk
      · exact Function.update_self _ _ _
      · exact hlocked (h.locks hn hk)
    · exact hlocked (h.locks hm hk)
  · intro m t k hm hk
    obtain ⟨rfl, rfl⟩ | ⟨-, hm⟩ := txs_write hm
    · obtain rfl | ⟨hk, hsame⟩ := hrows k hk
      · exact ⟨row, hrow, hunused, huser⟩
      · rw [hsame]
        exact h.rows hn hk
    · exact h.rows hm hk
  · intro m t hm
    obtain ⟨rfl, rfl⟩ | ⟨-, hm⟩ := txs_write hm
    · exact h.called hn
    · exact h.called hm
  · exact h.listed
  · exact h.spent
  · exact h.once

theorem txs_finish {m : Nat} {t : Tx} (h : (w.finish n).txs m = some t) :
    m ≠ n ∧ w.txs m = some t := by
  by_cases hm : m = n
  · subst hm
    simp [World.finish] at h
  · exact ⟨hm, by simpa [World.finish, Function.update_of_ne hm] using h⟩

theorem locked_finish {l : LinkId} {m : Nat} (hm : m ≠ n) (h : w.locked l = some m) :
    (w.finish n).locked l = some m := by
  simp [World.finish, h, hm]

theorem links_spend {ls : List LinkId} {at_ : Time} {l : LinkId} {row : Link}
    (h : (w.spend ls at_).links l = some row) :
    ∃ old, w.links l = some old ∧ row.user = old.user ∧
      (l ∈ ls ∧ row.usedAt ≠ none ∨ l ∉ ls ∧ row = old) := by
  unfold World.spend at h
  simp only at h
  split at h
  next hl =>
    obtain ⟨old, hold, rfl⟩ := Option.map_eq_some_iff.mp h
    exact ⟨old, hold, rfl, .inl ⟨hl, nofun⟩⟩
  next hl => exact ⟨row, h, rfl, .inr ⟨hl, rfl⟩⟩

/-- A row stays, and stays spent. -/
theorem spend_links (ls : List LinkId) (at_ : Time) {l : LinkId} {row : Link}
    (h : w.links l = some row) :
    ∃ row', (w.spend ls at_).links l = some row' ∧ row'.user = row.user ∧
      (row.usedAt ≠ none → row'.usedAt ≠ none) ∧ (l ∈ ls → row'.usedAt ≠ none) ∧
      (l ∉ ls → row' = row) := by
  by_cases hl : l ∈ ls
  · exact ⟨{ row with usedAt := some at_ }, by simp [World.spend, hl, h], rfl, fun _ => nofun,
      fun _ => nofun, fun hno => absurd hl hno⟩
  · exact ⟨row, by simp [World.spend, hl, h], rfl, id, fun hin => absurd hin hl, fun _ => rfl⟩

/-- A transaction commits the spending of all it wrote, or of nothing. -/
theorem Held.settle (h : Held w) {ls : List LinkId} {at_ : Time} (hn : w.txs n = some tx)
    (hls : ∀ l ∈ ls, l ∈ tx.links) : Held (w.settle n ls at_) := by
  constructor
  · intro m t l hm hl
    obtain ⟨hmn, hm⟩ := txs_finish hm
    exact locked_finish hmn (h.locks hm hl)
  · intro m t l hm hl
    obtain ⟨hmn, hm⟩ := txs_finish hm
    obtain ⟨row, hrow, hunused, huser⟩ := h.rows hm hl
    -- What another transaction wrote is not among these.
    have hother : l ∉ ls := by
      intro hin
      have hlock := h.locks hn (hls l hin)
      rw [h.locks hm hl] at hlock
      cases hlock
      exact hmn rfl
    obtain ⟨row', hrow', -, -, -, hsame⟩ := spend_links ls at_ hrow
    rw [hsame hother] at hrow'
    exact ⟨row, hrow', hunused, huser⟩
  · intro m t hm
    exact h.called (txs_finish hm).2
  · intro l row hrow
    obtain ⟨old, hold, -⟩ := links_spend hrow
    exact h.listed hold
  · intro r hr
    obtain ⟨row, hrow, hused⟩ := h.spent hr
    obtain ⟨row', hrow', -, hstays, -⟩ := spend_links ls at_ hrow
    exact ⟨row', hrow', hstays hused⟩
  · exact h.once

theorem Held.finish (h : Held w) : Held (w.finish n) := by
  constructor
  · intro m t l hm hl
    obtain ⟨hmn, hm⟩ := txs_finish hm
    exact locked_finish hmn (h.locks hm hl)
  · intro m t l hm hl
    exact h.rows (txs_finish hm).2 hl
  · intro m t hm
    exact h.called (txs_finish hm).2
  · exact h.listed
  · exact h.spent
  · exact h.once

/-- A link that was not there is inserted. -/
theorem Held.store (h : Held w) {l : LinkId} {u : UserId} {expiresAt : Time}
    (hnew : w.links l = none) : Held (w.store l u expiresAt) := by
  have hkeep : ∀ {k row}, w.links k = some row → (w.store l u expiresAt).links k = some row := by
    intro k row hk
    have hne : k ≠ l := by
      rintro rfl
      rw [hnew] at hk
      cases hk
    exact (Function.update_of_ne hne _ _).trans hk
  constructor
  · exact h.locks
  · intro m t k hm hk
    obtain ⟨row, hrow, hrest⟩ := h.rows hm hk
    exact ⟨row, hkeep hrow, hrest⟩
  · exact h.called
  · intro k row hk
    by_cases hkl : k = l
    · subst hkl
      simp [World.store]
    · simp only [World.store, Function.update_of_ne hkl] at hk
      exact List.mem_append_left _ (h.listed hk)
  · intro r hr
    obtain ⟨row, hrow, hused⟩ := h.spent hr
    exact ⟨row, hkeep hrow, hused⟩
  · exact h.once

/-- A password is set by a link that was spent for it. -/
theorem Held.setPassword (h : Held w) {u : UserId} {l : LinkId} {account : Account} {hash : String}
    {row : Link} (hrow : w.links l = some row) (hused : row.usedAt ≠ none)
    (hnew : l ∉ w.resets.map (·.link)) : Held (w.setPassword u l account hash) := by
  constructor
  · exact h.locks
  · exact h.rows
  · exact h.called
  · exact h.listed
  · intro r hr
    obtain rfl | hr := List.mem_cons.mp hr
    · exact ⟨row, hrow, hused⟩
    · exact h.spent hr
  · exact List.nodup_cons.mpr ⟨hnew, h.once⟩

theorem unspent_iff {l : LinkId} :
    w.unspent l = true ↔ ∃ row, w.links l = some row ∧ row.usedAt = none := by
  unfold World.unspent
  cases w.links l <;> simp

-- =========================================================== the snapshot

/-- The links the UPDATE of a request sees. -/
def Tx.known : Tx → List LinkId
  | .retiring _ _ _ _ known _ _ => known
  | .issued _ _ _ _ known _ => known
  | _ => []

/-- Those it has still to reach. -/
def Tx.left : Tx → List LinkId
  | .retiring _ _ _ _ _ left _ => left
  | _ => []

/-- A link of the snapshot is the person's, and one that is not spent has
still to be reached, or was written. -/
structure Tx.Seen (w : World) (tx : Tx) : Prop where
  within : ∀ l ∈ tx.left, l ∈ tx.known
  there : ∀ l ∈ tx.known, ∃ row, w.links l = some row ∧ tx.user = some row.user
  covered : ∀ l ∈ tx.known, w.unspent l = true → l ∈ tx.left ∨ l ∈ tx.links

/-- Rows stay, with their person, and stay spent. -/
def Ages (w w' : World) : Prop :=
  ∀ l row, w.links l = some row → ∃ row', w'.links l = some row' ∧ row'.user = row.user ∧
    (row.usedAt ≠ none → row'.usedAt ≠ none)

theorem Ages.refl (hlinks : w'.links = w.links) : Ages w w' := by
  intro l row hrow
  exact ⟨row, by rw [hlinks]; exact hrow, rfl, id⟩

theorem Ages.unspent (h : Ages w w') {l : LinkId} {row : Link} (hrow : w.links l = some row)
    (hunspent : w'.unspent l = true) : w.unspent l = true := by
  obtain ⟨row', hrow', -, hstays⟩ := h l row hrow
  obtain ⟨row'', hrow'', hunused⟩ := unspent_iff.mp hunspent
  rw [hrow'] at hrow''
  cases hrow''
  refine unspent_iff.mpr ⟨row, hrow, ?_⟩
  by_contra hused
  exact hstays hused hunused

theorem Seen_ages (hages : Ages w w') (h : tx.Seen w) : tx.Seen w' := by
  refine ⟨h.within, ?_, ?_⟩
  · intro l hl
    obtain ⟨row, hrow, huser⟩ := h.there l hl
    obtain ⟨row', hrow', hsame, -⟩ := hages l row hrow
    exact ⟨row', hrow', by rw [hsame]; exact huser⟩
  · intro l hl hunspent
    obtain ⟨row, hrow, -⟩ := h.there l hl
    exact h.covered l hl (hages.unspent hrow hunspent)

theorem Seen_of_nil (hknown : tx.known = []) (hleft : tx.left = []) : tx.Seen w := by
  refine ⟨?_, ?_, ?_⟩
  · rw [hleft]
    nofun
  · rw [hknown]
    nofun
  · rw [hknown]
    nofun

theorem ages_moved {act : Action} (h : Moved w act w') : Ages w w' := by
  have hspend : ∀ n ls at_, Ages w (w.settle n ls at_) := by
    intro n ls at_ l row hrow
    obtain ⟨row', hrow', huser, hstays, -⟩ := spend_links ls at_ hrow
    exact ⟨row', hrow', huser, hstays⟩
  cases h with
  | stored n u link expiresAt at_ known mine hn hnew =>
      intro l row hrow
      obtain ⟨row', hrow', hrest⟩ := hspend n mine at_ l row hrow
      have hne : l ≠ link := by
        rintro rfl
        rw [hnew] at hrow
        cases hrow
      exact ⟨row', (Function.update_of_ne hne _ _).trans hrow', hrest⟩
  | reset n u link hash at_ account hn => exact hspend n [link] at_
  | barred n u link at_ hn => exact hspend n [link] at_
  | _ => exact Ages.refl rfl

theorem mem_linksOf (hlisted : ∀ {l row}, w.links l = some row → l ∈ w.linkIds) {u : UserId}
    {l : LinkId} : l ∈ w.linksOf u ↔ ∃ row, w.links l = some row ∧ row.user = u := by
  unfold World.linksOf
  rw [List.mem_filter]
  cases hl : w.links l with
  | none => simp
  | some row => simpa using fun _ => hlisted hl

def Watched (w : World) : Prop := ∀ n tx, w.txs n = some tx → tx.Seen w

theorem Watched.write (h : Watched w) (hages : Ages w w')
    (htxs : w'.txs = Function.update w.txs n (some tx)) (hseen : tx.Seen w) : Watched w' := by
  intro m t hm
  rw [htxs] at hm
  obtain ⟨-, rfl⟩ | ⟨-, hm⟩ := txs_write hm
  · exact Seen_ages hages hseen
  · exact Seen_ages hages (h m t hm)

theorem Watched.finish (h : Watched w) (hages : Ages w w')
    (htxs : w'.txs = Function.update w.txs n none) : Watched w' := by
  intro m t hm
  rw [htxs] at hm
  by_cases hmn : m = n
  · subst hmn
    simp at hm
  · rw [Function.update_of_ne hmn] at hm
    exact Seen_ages hages (h m t hm)

theorem watched_step (hlisted : ∀ {l row}, w.links l = some row → l ∈ w.linkIds)
    (h : Watched w) {act : Action} (hmoved : Moved w act w') : Watched w' := by
  have hages := ages_moved hmoved
  cases hmoved with
  | tick => exact fun m t hm => Seen_ages hages (h m t hm)
  | account u account => exact fun m t hm => Seen_ages hages (h m t hm)
  | start act n tx hn hlinks hfound hknown =>
      refine h.write hages rfl ?_
      cases tx with
      | retiring u link expiresAt at_ known left mine =>
          exact absurd rfl (hknown u link expiresAt at_ known left mine).1
      | issued u link expiresAt at_ known mine =>
          exact absurd rfl (hknown u link expiresAt at_ known [] mine).2
      | _ => exact Seen_of_nil rfl rfl
  | retire n u link expiresAt hn =>
      refine h.write hages rfl ⟨?_, ?_, ?_⟩
      · intro l hl
        exact (List.mem_filter.mp hl).1
      · intro l hl
        obtain ⟨row, hrow, rfl⟩ := (mem_linksOf hlisted).mp hl
        exact ⟨row, hrow, rfl⟩
      · intro l hl hunspent
        exact .inl (List.mem_filter.mpr ⟨hl, hunspent⟩)
  | lockRow n u link expiresAt at_ known left mine l hn =>
      obtain ⟨hwithin, hthere, hcovered⟩ := h _ _ hn
      refine h.write hages rfl ⟨?_, hthere, ?_⟩
      · intro k hk
        exact hwithin k (List.mem_cons_of_mem l hk)
      · intro k hk hunspent
        obtain hleft | hmine := hcovered k hk hunspent
        · obtain rfl | hleft := List.mem_cons.mp hleft
          · exact .inr List.mem_cons_self
          · exact .inl hleft
        · exact .inr (List.mem_cons_of_mem l hmine)
  | skipRow n u link expiresAt at_ known left mine l hn hspent =>
      obtain ⟨hwithin, hthere, hcovered⟩ := h _ _ hn
      refine h.write hages rfl ⟨?_, hthere, ?_⟩
      · intro k hk
        exact hwithin k (List.mem_cons_of_mem l hk)
      · intro k hk hunspent
        obtain hleft | hmine := hcovered k hk hunspent
        · obtain rfl | hleft := List.mem_cons.mp hleft
          · rw [hspent] at hunspent
            cases hunspent
          · exact .inl hleft
        · exact .inr hmine
  | issue n u link expiresAt at_ known mine hn =>
      obtain ⟨-, hthere, hcovered⟩ := h _ _ hn
      refine h.write hages rfl ⟨?_, hthere, hcovered⟩
      intro k hk
      cases hk
  | «begin» n org link hash hn =>
      have hseen : (Tx.began org link hash w.now).Seen w := Seen_of_nil rfl rfl
      exact h.write hages rfl hseen
  | spend n org link hash at_ row hn =>
      have hseen : (Tx.spent row.user link hash at_).Seen w := Seen_of_nil rfl rfl
      exact h.write hages rfl hseen
  | bar n u link hash at_ hn =>
      have hseen : (Tx.barred u link at_).Seen w := Seen_of_nil rfl rfl
      exact h.write hages rfl hseen
  | allow n u link hash at_ account hn =>
      have hseen : (Tx.allowed u link hash at_).Seen w := Seen_of_nil rfl rfl
      exact h.write hages rfl hseen
  | write n u link hash at_ hn =>
      have hseen : (Tx.written u link hash at_).Seen w := Seen_of_nil rfl rfl
      exact h.write hages rfl hseen
  | stored n u link expiresAt at_ known mine hn => exact h.finish hages rfl
  | reset n u link hash at_ account hn => exact h.finish hages rfl
  | barred n u link at_ hn => exact h.finish hages rfl
  | finish act n tx hn => exact h.finish hages rfl

theorem held_step (h : Held w) (hwatched : Watched w) {act : Action}
    (hmoved : Moved w act w') : Held w' := by
  cases hmoved with
  | tick => exact ⟨h.locks, h.rows, h.called, h.listed, h.spent, h.once⟩
  | account u account => exact ⟨h.locks, h.rows, h.called, h.listed, h.spent, h.once⟩
  | start act n tx hn hlinks =>
      refine h.write rfl rfl rfl rfl rfl (fun _ hk => List.mem_cons_of_mem _ hk)
        List.mem_cons_self ?_
      rw [hlinks]
      nofun
  | retire n u link expiresAt hn =>
      exact h.write rfl rfl rfl rfl rfl (fun _ hk => hk) (h.called hn) nofun
  | lockRow n u link expiresAt at_ known left mine l hn hfree hunspent =>
      obtain ⟨hwithin, hthere, -⟩ := hwatched _ _ hn
      obtain ⟨row, hrow, huser⟩ := hthere l (hwithin l List.mem_cons_self)
      obtain ⟨row', hrow', hunused⟩ := unspent_iff.mp hunspent
      rw [hrow] at hrow'
      cases hrow'
      refine h.lockWrite hn hfree hrow hunused huser ?_
      intro k hk
      obtain rfl | hk := List.mem_cons.mp hk
      · exact .inl rfl
      · exact .inr ⟨hk, rfl⟩
  | skipRow n u link expiresAt at_ known left mine l hn =>
      exact h.write rfl rfl rfl rfl rfl (fun _ hk => hk) (h.called hn)
        fun l hl => ⟨_, hn, hl, rfl⟩
  | issue n u link expiresAt at_ known mine hn =>
      exact h.write rfl rfl rfl rfl rfl (fun _ hk => hk) (h.called hn)
        fun l hl => ⟨_, hn, hl, rfl⟩
  | «begin» n org link hash hn =>
      exact h.write rfl rfl rfl rfl rfl (fun _ hk => hk) (h.called hn) nofun
  | spend n org link hash at_ row hn hfree hrow hlive =>
      refine h.lockWrite hn hfree hrow hlive rfl ?_
      intro k hk
      exact .inl (by simpa [Tx.links] using hk)
  | bar n u link hash at_ hn =>
      exact h.write rfl rfl rfl rfl rfl (fun _ hk => hk) (h.called hn)
        fun l hl => ⟨_, hn, hl, rfl⟩
  | allow n u link hash at_ account hn =>
      exact h.write rfl rfl rfl rfl rfl (fun _ hk => hk) (h.called hn)
        fun l hl => ⟨_, hn, hl, rfl⟩
  | write n u link hash at_ hn =>
      exact h.write rfl rfl rfl rfl rfl (fun _ hk => hk) (h.called hn)
        fun l hl => ⟨_, hn, hl, rfl⟩
  | stored n u link expiresAt at_ known mine hn hnew =>
      have hsettled : Held (w.settle n mine at_) := h.settle hn fun _ hl => hl
      refine hsettled.store ?_
      cases hrow : (w.settle n mine at_).links link with
      | none => rfl
      | some row =>
          obtain ⟨old, hold, -⟩ := links_spend hrow
          rw [hnew] at hold
          cases hold
  | reset n u link hash at_ account hn =>
      obtain ⟨row, hrow, hunused, -⟩ := h.rows hn (List.mem_singleton_self link)
      obtain ⟨row', hrow', -, -, hused, -⟩ := spend_links [link] at_ hrow
      refine (h.settle hn fun _ hl => hl).setPassword hrow' (hused (by simp)) ?_
      intro hin
      obtain ⟨r, hr, rfl⟩ := List.mem_map.mp hin
      obtain ⟨old, hold, hold'⟩ := h.spent hr
      rw [hrow] at hold
      cases hold
      exact hold' hunused
  | barred n u link at_ hn => exact h.settle hn fun _ hl => hl
  | finish act n tx hn => exact h.finish

-- ========================================================== orderly runs

/-- Whose account a redemption has found open. -/
def Tx.clears : Tx → Option UserId
  | .allowed u _ _ _ => some u
  | .written u _ _ _ => some u
  | _ => none

/-- Neither disabled nor shared. -/
def World.open_ (w : World) (u : UserId) : Prop :=
  ∃ account, w.accounts u = some account ∧ account.disabled = false ∧ account.isShared = false

/-- A person has one link that is not spent. -/
def Solo (w : World) : Prop :=
  ∀ l l' row row', w.links l = some row → w.links l' = some row' → row.user = row'.user →
    row.usedAt = none → row'.usedAt = none → l = l'

structure Kept (w : World) : Prop where
  solo : Solo w
  cleared : ∀ {n tx u}, w.txs n = some tx → tx.clears = some u → w.open_ u
  writes : ∀ {n u link hash at_}, w.txs n = some (.written u link hash at_) →
    w.accountLocked u = some n
  allowed : ∀ r ∈ w.resets, r.account.disabled = false ∧ r.account.isShared = false
  before : ∀ r ∈ w.resets, ∀ l ∈ r.before, ∃ row, w.links l = some row ∧ row.usedAt ≠ none
  last : w.resets.Pairwise fun later earlier =>
    later.user = earlier.user → later.link ∉ earlier.before

/-- A step that leaves what is committed as it is. -/
theorem Kept.write (h : Kept w) (htxs : w'.txs = Function.update w.txs n (some tx))
    (hlinks : w'.links = w.links) (haccounts : w'.accounts = w.accounts)
    (hresets : w'.resets = w.resets)
    (hlocked : ∀ u m, m ≠ n → w.accountLocked u = some m → w'.accountLocked u = some m)
    (hcleared : ∀ u, tx.clears = some u → w.open_ u)
    (hwrites : ∀ u link hash at_, tx = .written u link hash at_ → w'.accountLocked u = some n) :
    Kept w' := by
  constructor
  · unfold Solo
    rw [hlinks]
    exact h.solo
  · intro m t u hm hu
    rw [htxs] at hm
    unfold World.open_
    rw [haccounts]
    obtain ⟨-, rfl⟩ | ⟨-, hm⟩ := txs_write hm
    · exact hcleared u hu
    · exact h.cleared hm hu
  · intro m u link hash at_ hm
    rw [htxs] at hm
    obtain ⟨rfl, hwritten⟩ | ⟨hmn, hm⟩ := txs_write hm
    · exact hwrites u link hash at_ hwritten.symm
    · exact hlocked u m hmn (h.writes hm)
  · rw [hresets]
    exact h.allowed
  · rw [hresets, hlinks]
    exact h.before
  · rw [hresets]
    exact h.last

theorem Kept.settle (h : Kept w) (ls : List LinkId) (at_ : Time) : Kept (w.settle n ls at_) := by
  constructor
  · intro l l' row row' hrow hrow' huser hunused hunused'
    obtain ⟨old, hold, hsame, hcase⟩ := links_spend hrow
    obtain ⟨old', hold', hsame', hcase'⟩ := links_spend hrow'
    obtain ⟨-, hused⟩ | ⟨-, rfl⟩ := hcase
    · exact absurd hunused hused
    · obtain ⟨-, hused'⟩ | ⟨-, rfl⟩ := hcase'
      · exact absurd hunused' hused'
      · exact h.solo l l' _ _ hold hold' huser hunused hunused'
  · intro m t u hm hu
    exact h.cleared (txs_finish hm).2 hu
  · intro m u link hash at_' hm
    obtain ⟨hmn, hm⟩ := txs_finish hm
    have hlocked : w.accountLocked u = some m := h.writes hm
    show (if w.accountLocked u = some n then none else w.accountLocked u) = some m
    rw [hlocked, if_neg (by simpa using hmn)]
  · exact h.allowed
  · intro r hr l hl
    obtain ⟨row, hrow, hused⟩ := h.before r hr l hl
    obtain ⟨row', hrow', -, hstays, -⟩ := spend_links ls at_ hrow
    exact ⟨row', hrow', hstays hused⟩
  · exact h.last

/-- A new link, when no other of the person is left. -/
theorem Kept.store (h : Kept w) {l : LinkId} {u : UserId} {expiresAt : Time}
    (hnew : w.links l = none)
    (hspent : ∀ k row, w.links k = some row → row.user = u → row.usedAt ≠ none) :
    Kept (w.store l u expiresAt) := by
  have hkeep : ∀ {k row}, w.links k = some row → (w.store l u expiresAt).links k = some row := by
    intro k row hk
    have hne : k ≠ l := by
      rintro rfl
      rw [hnew] at hk
      cases hk
    exact (Function.update_of_ne hne _ _).trans hk
  constructor
  · intro k k' row row' hrow hrow' huser hunused hunused'
    by_cases hk : k = l <;> by_cases hk' : k' = l
    · rw [hk, hk']
    · subst hk
      simp only [World.store, Function.update_self, Function.update_of_ne hk',
        Option.some.injEq] at hrow hrow'
      subst hrow
      exact absurd hunused' (hspent k' row' hrow' huser.symm)
    · subst hk'
      simp only [World.store, Function.update_self, Function.update_of_ne hk,
        Option.some.injEq] at hrow hrow'
      subst hrow'
      exact absurd hunused (hspent k row hrow huser)
    · simp only [World.store, Function.update_of_ne hk, Function.update_of_ne hk'] at hrow hrow'
      exact h.solo k k' row row' hrow hrow' huser hunused hunused'
  · exact h.cleared
  · exact h.writes
  · exact h.allowed
  · intro r hr k hk
    obtain ⟨row, hrow, hused⟩ := h.before r hr k hk
    exact ⟨row, hkeep hrow, hused⟩
  · exact h.last

/-- A password is set: by a link that no earlier reset knew of, when the
person's others are spent. -/
theorem Kept.setPassword (h : Kept w) (hlisted : ∀ {l row}, w.links l = some row → l ∈ w.linkIds)
    {u : UserId} {l : LinkId} {account : Account} {hash : String}
    (haccount : w.accounts u = some account)
    (hopen : account.disabled = false ∧ account.isShared = false)
    (hothers : ∀ k row, w.links k = some row → row.user = u → k ≠ l → row.usedAt ≠ none)
    (hlater : ∀ r ∈ w.resets, l ∉ r.before) : Kept (w.setPassword u l account hash) := by
  constructor
  · exact h.solo
  · intro m t u' hm hu'
    obtain ⟨account', haccount', hopen'⟩ := h.cleared hm hu'
    by_cases hu : u' = u
    · subst hu
      exact ⟨_, Function.update_self _ _ _, hopen⟩
    · exact ⟨account', (Function.update_of_ne hu _ _).trans haccount', hopen'⟩
  · exact h.writes
  · intro r hr
    obtain rfl | hr := List.mem_cons.mp hr
    · exact hopen
    · exact h.allowed r hr
  · intro r hr k hk
    obtain rfl | hr := List.mem_cons.mp hr
    · obtain ⟨hmem, hne⟩ := List.mem_filter.mp hk
      obtain ⟨row, hrow, huser⟩ := (mem_linksOf hlisted).mp hmem
      exact ⟨row, hrow, hothers k row hrow huser (by simpa using hne)⟩
    · exact h.before r hr k hk
  · exact List.pairwise_cons.mpr ⟨fun r hr _ => hlater r hr, h.last⟩

/-- What a request has not spent when it commits is not the person's. -/
theorem settled_spent (hheld : Held w) (hwatched : Watched w) {u : UserId} {link : LinkId}
    {expiresAt at_ : Time} {known mine : List LinkId}
    (hn : w.txs n = some (.issued u link expiresAt at_ known mine))
    (hall : ∀ l ∈ w.linksOf u, l ∈ known) {k : LinkId} {row : Link}
    (hrow : (w.settle n mine at_).links k = some row) (huser : row.user = u) :
    row.usedAt ≠ none := by
  obtain ⟨old, hold, hsame, hcase⟩ := links_spend hrow
  obtain ⟨-, hused⟩ | ⟨hother, rfl⟩ := hcase
  · exact hused
  · intro hunused
    have hknown : k ∈ known := hall k ((mem_linksOf hheld.listed).mpr ⟨row, hold, huser⟩)
    have hunspent : w.unspent k = true := unspent_iff.mpr ⟨row, hold, hunused⟩
    obtain hleft | hmine := (hwatched _ _ hn).covered k hknown hunspent
    · cases hleft
    · exact hother hmine

theorem kept_step (hheld : Held w) (hwatched : Watched w) (h : Kept w) {act : Action}
    (hok : Orderly w act) (hmoved : Moved w act w') : Kept w' := by
  cases hmoved with
  | tick => exact ⟨h.solo, h.cleared, h.writes, h.allowed, h.before, h.last⟩
  | account u account hfree =>
      refine ⟨h.solo, ?_, h.writes, h.allowed, h.before, h.last⟩
      intro m t u' hm hu'
      by_cases hu : u' = u
      · subst hu
        refine ⟨account, Function.update_self _ _ _, ?_⟩
        by_contra hbarred
        have hbarred : account.disabled = true ∨ account.isShared = true := by
          cases hd : account.disabled <;> cases hs : account.isShared <;> simp_all
        cases t with
        | allowed u₁ link hash at_ =>
            cases hu'
            have hreads : Tx.reads u' (w.txs m) = false := hok hbarred m (hheld.called hm)
            rw [hm] at hreads
            simp [Tx.reads] at hreads
        | written u₁ link hash at_ =>
            cases hu'
            rw [h.writes hm] at hfree
            cases hfree
        | _ => cases hu'
      · obtain ⟨account', haccount', hopen'⟩ := h.cleared hm hu'
        exact ⟨account', (Function.update_of_ne hu _ _).trans haccount', hopen'⟩
  | start act n tx hn hlinks hfound hknown =>
      refine h.write rfl rfl rfl rfl (fun _ _ _ hm => hm) ?_ ?_
      · intro u hu
        cases tx with
        | allowed u₁ link hash at_ => exact absurd rfl (hfound u₁ link hash at_).1
        | written u₁ link hash at_ => exact absurd rfl (hfound u₁ link hash at_).2
        | _ => cases hu
      · intro u link hash at_ hwritten
        exact absurd hwritten (hfound u link hash at_).2
  | retire n u link expiresAt hn =>
      exact h.write rfl rfl rfl rfl (fun _ _ _ hm => hm) nofun nofun
  | lockRow n u link expiresAt at_ known left mine l hn =>
      exact h.write rfl rfl rfl rfl (fun _ _ _ hm => hm) nofun nofun
  | skipRow n u link expiresAt at_ known left mine l hn =>
      exact h.write rfl rfl rfl rfl (fun _ _ _ hm => hm) nofun nofun
  | issue n u link expiresAt at_ known mine hn =>
      exact h.write rfl rfl rfl rfl (fun _ _ _ hm => hm) nofun nofun
  | «begin» n org link hash hn =>
      exact h.write rfl rfl rfl rfl (fun _ _ _ hm => hm) nofun nofun
  | spend n org link hash at_ row hn =>
      exact h.write rfl rfl rfl rfl (fun _ _ _ hm => hm) nofun nofun
  | bar n u link hash at_ hn =>
      exact h.write rfl rfl rfl rfl (fun _ _ _ hm => hm) nofun nofun
  | allow n u link hash at_ account hn haccount hopen =>
      refine h.write rfl rfl rfl rfl (fun _ _ _ hm => hm) ?_ nofun
      rintro _ ⟨⟩
      exact ⟨account, haccount, hopen⟩
  | write n u link hash at_ hn hfree =>
      refine h.write rfl rfl rfl rfl ?_ ?_ ?_
      · intro u' m hmn hm
        have hne : u' ≠ u := by
          rintro rfl
          rw [hfree] at hm
          cases hm
        exact (Function.update_of_ne hne _ _).trans hm
      · rintro _ ⟨⟩
        exact h.cleared hn rfl
      · rintro _ _ _ _ ⟨⟩
        exact Function.update_self _ _ _
  | stored n u link expiresAt at_ known mine hn hnew =>
      have hall : ∀ l ∈ w.linksOf u, l ∈ known := by simpa [Orderly, hn] using hok
      have hsettled : Kept (w.settle n mine at_) := h.settle mine at_
      refine hsettled.store ?_ fun k row hrow huser =>
        settled_spent hheld hwatched hn hall hrow huser
      cases hrow : (w.settle n mine at_).links link with
      | none => rfl
      | some row =>
          obtain ⟨old, hold, -⟩ := links_spend hrow
          rw [hnew] at hold
          cases hold
  | reset n u link hash at_ account hn haccount =>
      obtain ⟨row, hrow, hunused, huser⟩ := hheld.rows hn (List.mem_singleton_self link)
      have huser : u = row.user := by simpa [Tx.user] using huser
      obtain ⟨account', haccount', hopen⟩ := h.cleared hn rfl
      rw [haccount] at haccount'
      cases haccount'
      have hsettled : Kept (w.settle n [link] at_) := h.settle [link] at_
      have hlisted : Held (w.settle n [link] at_) := hheld.settle hn fun _ hl => hl
      refine hsettled.setPassword hlisted.listed haccount hopen ?_ ?_
      · intro k row' hrow' huser' hne
        obtain ⟨old, hold, hsame, hcase⟩ := links_spend hrow'
        obtain ⟨-, hused⟩ | ⟨-, rfl⟩ := hcase
        · exact hused
        · intro hunused'
          exact hne (h.solo k link row' row hold hrow (huser'.trans huser) hunused' hunused)
      · intro r hr hbefore
        obtain ⟨row', hrow', hused⟩ := h.before r hr link hbefore
        rw [hrow] at hrow'
        cases hrow'
        exact hused hunused
  | barred n u link at_ hn => exact h.settle [link] at_
  | finish act n tx hn =>
      have hsettled : Kept (w.settle n [] 0) := h.settle [] 0
      have heq : w.settle n [] 0 = w.finish n := by simp [World.settle, World.spend]
      rw [← heq]
      exact hsettled

-- ============================================================== every run

structure Sound (w : World) : Prop where
  held : Held w
  watched : Watched w
  kept : Kept w

theorem sound_new (now : Time) : Sound (World.new now) :=
  ⟨⟨nofun, nofun, nofun, nofun, nofun, List.nodup_nil⟩, (fun _ _ h => nomatch h),
    ⟨(fun _ _ _ _ h => nomatch h), nofun, nofun, (fun _ h => nomatch h), (fun _ h => nomatch h),
      List.Pairwise.nil⟩⟩

theorem sound_reachable (hw : Reachable (step digest) Orderly init w) : Sound w := by
  refine hw.invariant ?_ ?_
  · rintro _ ⟨now, rfl⟩
    exact sound_new now
  · intro t a t' ht hok hstep
    have hmoved := step_moved hstep
    exact ⟨held_step ht.held ht.watched hmoved, watched_step ht.held.listed ht.watched hmoved,
      kept_step ht.held ht.watched ht.kept hok hmoved⟩

/-- In every orderly run a person has one live link, a link sets a password
once and never of a disabled or shared account, and no link there was sets
one after another did. -/
theorem recovery_guarded (digest : String → LinkId)
    (hw : Reachable (step digest) Orderly init w) : Guarded w := by
  obtain ⟨hheld, -, hkept⟩ := sound_reachable hw
  constructor
  · intro u l l' hl hl'
    obtain ⟨row, hrow, huser, hlive⟩ := hl
    obtain ⟨row', hrow', huser', hlive'⟩ := hl'
    simp only [Link.live, Bool.and_eq_true, Option.isNone_iff_eq_none] at hlive hlive'
    exact hkept.solo l l' row row' hrow hrow' (huser.trans huser'.symm) hlive.1 hlive'.1
  · exact hheld.once
  · exact hkept.allowed
  · exact hkept.last

-- ============================================================= the overlap

/-- The organization, and two tokens of it. -/
def org : String := "0a1b2c3d-4e5f-6071-8293-a4b5c6d7e8f9"
def tokenA : String := org ++ ".a"
def tokenB : String := org ++ ".b"

def gil : UserId := (org, "gil")

/-- Gil, who has a password. -/
def gilActive : Account := { passwordHash := some "h" }

/-- A link is redeemed, all its statements at once. -/
def redeemActions (n : Nat) (token hash : String) : List Action :=
  [.redeem n token "correct horse battery", .begin n hash, .spend n, .read n, .write n, .commit n]

/-- Two requests overlap. -/
def overlapActions : List Action :=
  [.account gil gilActive, .request 0 gil tokenA 3600, .request 1 gil tokenB 3600,
   .retire 0, .retire 1, .issue 0, .issue 1, .commit 0, .commit 1]

theorem run_overlap : (runWithin (step id) anyStep (World.new 0) overlapActions).any
    (fun w => decide ((w.links tokenA).any (·.live w.now) = true ∧
      (w.links tokenB).any (·.live w.now) = true ∧ (w.links tokenA).map (·.user) = some gil ∧
      (w.links tokenB).map (·.user) = some gil)) = true := by
  decide +kernel

/-- Both links are live: one sets the password, and then the other. -/
def overtakenActions : List Action :=
  overlapActions ++ redeemActions 2 tokenA "h2" ++ redeemActions 3 tokenB "h3"

theorem run_overtaken : (runWithin (step id) anyStep (World.new 0) overtakenActions).any
    (fun w => decide (w.resets.map (fun r => (r.user, r.link, r.before))
      = [(gil, tokenB, [tokenA]), (gil, tokenA, [tokenB])])) = true := by
  decide +kernel

/-- Two links of one person are live; and a link sets a password that was
there when another did. -/
theorem two_links_live :
    (∃ w, Reachable (step id) anyStep init w ∧ w.live gil tokenA ∧ w.live gil tokenB ∧
      ¬ Guarded w) ∧
    ∃ w, Reachable (step id) anyStep init w ∧
      w.resets.map (fun r => (r.user, r.link, r.before))
        = [(gil, tokenB, [tokenA]), (gil, tokenA, [tokenB])] := by
  have hstart : init (World.new 0) := ⟨0, rfl⟩
  constructor
  · obtain ⟨w, hw, ha, hb, hua, hub⟩ := exists_reachable hstart run_overlap
    obtain ⟨row, hrow, hlive⟩ := (Option.any_eq_true _ _).mp ha
    obtain ⟨row', hrow', hlive'⟩ := (Option.any_eq_true _ _).mp hb
    have hgilA : row.user = gil := by simpa [hrow] using hua
    have hgilB : row'.user = gil := by simpa [hrow'] using hub
    have hliveA : w.live gil tokenA := ⟨row, hrow, hgilA, hlive⟩
    have hliveB : w.live gil tokenB := ⟨row', hrow', hgilB, hlive'⟩
    refine ⟨w, hw, hliveA, hliveB, fun hguarded => ?_⟩
    have hsame : tokenA = tokenB := hguarded.single gil tokenA tokenB hliveA hliveB
    exact absurd hsame (by decide +kernel)
  · exact exists_reachable hstart run_overtaken

/-- A link is asked for twice, one after the other, and redeemed. -/
def inTurnActions : List Action :=
  [.account gil gilActive, .request 0 gil tokenA 3600, .retire 0, .issue 0, .commit 0,
   .request 1 gil tokenB 3600, .retire 1, .retireRow 1, .issue 1, .commit 1]
    ++ redeemActions 2 tokenB "h2"

theorem run_inTurn : (runWithin (step id) Orderly (World.new 0) inTurnActions).any
    (fun w => decide (w.resets.map (·.link) = [tokenB])) = true := by
  decide +kernel

theorem recovery_guarded_in_turn :
    ∃ w, w.resets.map (·.link) = [tokenB] ∧ Guarded w := by
  have hstart : init (World.new 0) := ⟨0, rfl⟩
  obtain ⟨w, hw, hresets⟩ := exists_reachable hstart run_inTurn
  exact ⟨w, hresets, recovery_guarded id hw⟩

end Nacre.Recovery
