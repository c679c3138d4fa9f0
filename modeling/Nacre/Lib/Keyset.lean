/-
Listing a changing table a page at a time, by the key of the last row.

A page is cut from the rows after a position, in key order. What it has to
say of itself is `Page`: its items are after the position and not after the
next one, in order, none that is shown and lies between the two is missing,
and the next position is that of a row. That is all a walk needs, whatever
becomes of the table between two requests (`walk_spec`): what is shown at
every request is returned once, in order, and a request that finds no row
after its position is the last.

# The cut

`page_cut` is for every way the pages here are cut: `limit` rows or one
more, filtered before or after, with the position taken from the last of
the first `limit`. It asks only that a page that says it is the last has all
the rows, and that one that does not is full.
-/
import Mathlib.Data.List.Sort
import Mathlib.Data.List.Basic
import Mathlib.Order.Lattice

namespace Keyset

variable {ρ ι κ α γ δ : Type*} [LinearOrder κ] {key : ρ → κ} {after next : Option κ} {rows : List ρ}

/-- After the position, if there is one. -/
def Past (after : Option κ) (k : κ) : Prop := ∀ a ∈ after, a < k

instance (after : Option κ) (k : κ) : Decidable (Past after k) :=
  inferInstanceAs (Decidable (∀ a ∈ after, a < k))

theorem Past.of_le {k k' : κ} (h : Past after k) (hle : k ≤ k') : Past after k' :=
  fun a ha => lt_of_lt_of_le (h a ha) hle

/-- The rows after a position, in the order of their keys. -/
def seek (key : ρ → κ) (after : Option κ) (rows : List ρ) : List ρ :=
  (rows.filter fun r => Past after (key r)).mergeSort fun a b => key a ≤ key b

theorem mem_seek {r : ρ} : r ∈ seek key after rows ↔ r ∈ rows ∧ Past after (key r) := by
  unfold seek
  rw [List.mem_mergeSort, List.mem_filter, decide_eq_true_eq]

/-- What is a row's own stays so. -/
theorem nodup_map_seek {f : ρ → α} (h : (rows.map f).Nodup) :
    ((seek key after rows).map f).Nodup := by
  have hperm : List.Perm ((seek key after rows).map f)
      ((rows.filter fun r => Past after (key r)).map f) := (List.mergeSort_perm _ _).map f
  exact hperm.nodup_iff.2 (h.sublist (List.filter_sublist.map f))

/-- A key is a row's own, so the order is strict. -/
theorem seek_sorted (hkey : (rows.map key).Nodup) :
    (seek key after rows).Pairwise fun a b => key a < key b := by
  have hle : (seek key after rows).Pairwise fun a b => key a ≤ key b := by
    have htotal : ∀ a b : ρ, (decide (key a ≤ key b) || decide (key b ≤ key a)) = true := by
      intro a b
      simpa using le_total (key a) (key b)
    have htrans : ∀ a b c : ρ, decide (key a ≤ key b) = true → decide (key b ≤ key c) = true →
        decide (key a ≤ key c) = true := by
      intro a b c hab hbc
      exact decide_eq_true (le_trans (of_decide_eq_true hab) (of_decide_eq_true hbc))
    exact (List.pairwise_mergeSort htrans htotal _).imp fun h => of_decide_eq_true h
  have hne : (seek key after rows).Pairwise fun a b => key a ≠ key b := by
    rw [← List.pairwise_map]
    exact nodup_map_seek hkey
  exact hle.imp₂ (fun _ _ h h' => lt_of_le_of_ne h h') hne

-- ================================================================ the page

/-- A page from `after` to `next`, or to the end, of a table whose rows have
the keys `present`. -/
structure Page (key : ρ → κ) (present : κ → Prop) (shown : ρ → Prop) (after : Option κ)
    (items : List ρ) (next : Option κ) : Prop where
  sound : ∀ r ∈ items, shown r ∧ Past after (key r) ∧ ∀ n ∈ next, key r ≤ n
  sorted : items.Pairwise fun a b => key a < key b
  complete : ∀ r, shown r → Past after (key r) → (∀ n ∈ next, key r ≤ n) → r ∈ items
  onward : ∀ n ∈ next, Past after n ∧ present n

/-- With no row after its position, a page is empty and the last. -/
theorem Page.exhausted {present : κ → Prop} {shown : ρ → Prop} {items : List ρ}
    (h : Page key present shown after items next) (hshown : ∀ r, shown r → present (key r))
    (hnone : ∀ k, present k → ¬ Past after k) : items = [] ∧ next = none := by
  constructor
  · refine List.eq_nil_iff_forall_not_mem.2 fun r hr => ?_
    obtain ⟨hr, hpast, -⟩ := h.sound r hr
    exact hnone _ (hshown r hr) hpast
  · refine Option.eq_none_iff_forall_not_mem.2 fun n hn => ?_
    exact hnone n (h.onward n hn).2 (h.onward n hn).1

/-- What is shown of a row, in its place. -/
theorem Page.map {present : κ → Prop} {shown : ρ → Prop} {items : List ρ}
    (h : Page key present shown after items next) (keyOf : ι → κ) (f : ρ → ι)
    (hkey : ∀ r, keyOf (f r) = key r) :
    Page keyOf present (fun i => ∃ r, shown r ∧ f r = i) after (items.map f) next := by
  refine ⟨fun i hi => ?_, ?_, fun i hi hpast hupto => ?_, h.onward⟩
  · obtain ⟨r, hr, rfl⟩ := List.mem_map.1 hi
    obtain ⟨hshown, hpast, hupto⟩ := h.sound r hr
    rw [hkey]
    exact ⟨⟨r, hshown, rfl⟩, hpast, hupto⟩
  · rw [List.pairwise_map]
    simpa only [hkey] using h.sorted
  · obtain ⟨r, hshown, rfl⟩ := hi
    rw [hkey] at hpast hupto
    exact List.mem_map.2 ⟨r, h.complete r hshown hpast hupto, rfl⟩

/-- The same page under another reading of what is shown. -/
theorem Page.congr {present present' : κ → Prop} {shown shown' : ρ → Prop} {items : List ρ}
    (h : Page key present shown after items next) (hpresent : ∀ k, present k → present' k)
    (hshown : ∀ r, shown r ↔ shown' r) : Page key present' shown' after items next :=
  ⟨fun r hr => ⟨(hshown r).1 (h.sound r hr).1, (h.sound r hr).2⟩, h.sorted,
    fun r hr => h.complete r ((hshown r).2 hr),
    fun n hn => ⟨(h.onward n hn).1, hpresent n (h.onward n hn).2⟩⟩

/-- A page that says there is nothing, where nothing is shown. -/
theorem Page.empty {present : κ → Prop} {shown : ρ → Prop} (hnone : ∀ r, ¬ shown r) :
    Page key present shown after [] none :=
  ⟨nofun, .nil, fun r hr => absurd hr (hnone r), nofun⟩

/-- The position of the last row of a page. -/
def lastKey (key : ρ → κ) (page : List ρ) : Option κ := page.getLast?.map key

theorem le_lastKey {l : List ρ} (hl : l.Pairwise fun a b => key a < key b) {n : κ}
    (hn : lastKey key l = some n) {r : ρ} (hr : r ∈ l) : key r ≤ n := by
  obtain ⟨last, hlast, rfl⟩ := Option.map_eq_some_iff.1 hn
  obtain ⟨init, rfl⟩ := List.getLast?_eq_some_iff.1 hlast
  rcases List.mem_append.1 hr with hinit | hend
  · exact le_of_lt ((List.pairwise_append.1 hl).2.2 r hinit last (List.mem_singleton.2 rfl))
  · rw [List.mem_singleton.1 hend]

/-- The first `limit` rows after the position, of those that are shown. -/
theorem page_cut (hkey : (rows.map key).Nodup) {limit : Nat} (hlimit : 0 < limit)
    (shown : ρ → Bool) (more : Bool)
    (hmore : more = true → limit ≤ (seek key after rows).length)
    (hdone : more = false → (seek key after rows).length ≤ limit) :
    Page key (· ∈ rows.map key) (fun r => r ∈ rows ∧ shown r = true) after
      (((seek key after rows).take limit).filter shown)
      (if more then lastKey key ((seek key after rows).take limit) else none) := by
  have hsorted : (seek key after rows).Pairwise fun a b => key a < key b := seek_sorted hkey
  generalize hl : seek key after rows = l at hsorted hmore hdone
  have hmem : ∀ {r : ρ}, r ∈ l ↔ r ∈ rows ∧ Past after (key r) := by
    intro r
    rw [← hl]
    exact mem_seek
  have htake : (l.take limit).Pairwise fun a b => key a < key b := hsorted.take
  refine ⟨fun r hr => ?_, htake.filter _, fun r hshown hpast hupto => ?_, fun n hn => ?_⟩
  · obtain ⟨hin, hshown⟩ := List.mem_filter.1 hr
    obtain ⟨hrow, hpast⟩ := hmem.1 (List.mem_of_mem_take hin)
    refine ⟨⟨hrow, hshown⟩, hpast, fun n hn => ?_⟩
    cases more with
    | true => exact le_lastKey htake hn hin
    | false => cases hn
  · refine List.mem_filter.2 ⟨?_, hshown.2⟩
    have hrl : r ∈ l := hmem.2 ⟨hshown.1, hpast⟩
    cases more with
    | false =>
        rw [List.take_of_length_le (hdone rfl)]
        exact hrl
    | true =>
        -- a row after the cut comes after the last of the page
        have hne : l.take limit ≠ [] := by
          intro hnil
          rw [List.take_eq_nil_iff] at hnil
          have hfull := hmore rfl
          rcases hnil with hzero | hempty
          · omega
          · rw [hempty, List.length_nil] at hfull
            omega
        have hlast : lastKey key (l.take limit) = some (key ((l.take limit).getLast hne)) := by
          rw [lastKey, List.getLast?_eq_some_getLast hne]
          rfl
        rw [← List.take_append_drop limit l] at hrl hsorted
        rcases List.mem_append.1 hrl with hpage | hrest
        · exact hpage
        · have hlt := (List.pairwise_append.1 hsorted).2.2 _ (List.getLast_mem hne) r hrest
          exact absurd (hupto _ hlast) (not_le_of_gt hlt)
  · cases more with
    | false => cases hn
    | true =>
        obtain ⟨last, hlast, rfl⟩ := Option.map_eq_some_iff.1 (show lastKey key _ = some n from hn)
        obtain ⟨hrow, hpast⟩ := hmem.1 (List.mem_of_mem_take (List.mem_of_getLast? hlast))
        exact ⟨hpast, List.mem_map.2 ⟨last, hrow, rfl⟩⟩

-- ================================================================ the walk

/-- Follow the cursor, one table for each request; no request may be
refused. The flag says that the last page was reached. -/
def walk (fetch : δ → Option γ → Option (List ρ × Option γ)) :
    Option γ → List δ → Option (List ρ × Bool)
  | _, [] => some ([], false)
  | cursor, db :: later =>
      (fetch db cursor).bind fun page =>
        match page.2 with
        | none => some (page.1, true)
        | some cursor =>
            (walk fetch (some cursor) later).map fun rest => (page.1 ++ rest.1, rest.2)

/-- What a walk returns, from a position. A row is the same row from one
table to the next when its key is. -/
structure Walked (key : ρ → κ) (present : δ → κ → Prop) (shown : δ → ρ → Prop)
    (after : Option κ) (dbs : List δ) (items : List ρ) (ended : Bool) : Prop where
  /-- In order, and so none twice. -/
  sorted : items.Pairwise fun a b => key a < key b
  sound : ∀ r ∈ items, Past after (key r) ∧ ∃ db ∈ dbs, shown db r
  complete : ended = true → ∀ k, Past after k → (∀ db ∈ dbs, ∃ r, shown db r ∧ key r = k) →
    k ∈ items.map key
  /-- A walk that goes on has found a row after each of its positions. -/
  onward : ended = false → ∃ cursors : List κ, List.Forall₂ present dbs cursors
    ∧ cursors.Pairwise (· < ·) ∧ ∀ c ∈ cursors, Past after c

/-- What tells rows apart and is a row's own tells the items apart. -/
theorem Walked.nodup {present : δ → κ → Prop} {shown : δ → ρ → Prop} {dbs : List δ}
    {items : List ρ} {ended : Bool} (h : Walked key present shown after dbs items ended)
    {id : ρ → α} (hid : ∀ db ∈ dbs, ∀ db' ∈ dbs, ∀ r r', shown db r → shown db' r' →
      id r = id r' → key r = key r') : (items.map id).Nodup := by
  rw [List.Nodup, List.pairwise_map]
  refine h.sorted.imp_of_mem fun {r r'} hr hr' hlt heq => ?_
  obtain ⟨-, db, hdb, hshown⟩ := h.sound r hr
  obtain ⟨-, db', hdb', hshown'⟩ := h.sound r' hr'
  rw [hid db hdb db' hdb' r r' hshown hshown' heq] at hlt
  exact lt_irrefl _ hlt

/-- More requests than there are rows reach the last page. -/
theorem Walked.ended_of_length {present : δ → κ → Prop} {shown : δ → ρ → Prop} {dbs : List δ}
    {items : List ρ} {ended : Bool} (h : Walked key present shown after dbs items ended)
    {keys : List κ} (hkeys : ∀ db ∈ dbs, ∀ k, present db k → k ∈ keys)
    (hlength : keys.length < dbs.length) : ended = true := by
  by_contra hended
  obtain ⟨cursors, hrows, hsorted, -⟩ := h.onward (Bool.eq_false_iff.2 hended)
  have hsub : cursors ⊆ keys := by
    clear hsorted hlength h
    induction hrows with
    | nil => exact List.nil_subset _
    | cons hpresent _ ih =>
        refine List.cons_subset.2 ⟨hkeys _ List.mem_cons_self _ hpresent, ih fun db hdb => ?_⟩
        exact hkeys db (List.mem_cons_of_mem _ hdb)
  have hle : cursors.length ≤ keys.length :=
    (List.subperm_of_subset (hsorted.imp fun hlt => ne_of_lt hlt) hsub).length_le
  rw [← hrows.length_eq] at hle
  omega

/-- A table answers a request at a position with a page, and the next
position is again one that can be asked for. -/
def Answers (key : ρ → κ) (present : δ → κ → Prop) (shown : δ → ρ → Prop) (encode : κ → γ)
    (valid : κ → Prop) (fetch : δ → Option γ → Option (List ρ × Option γ)) (db : δ) : Prop :=
  ∀ after : Option κ, (∀ a ∈ after, valid a) → ∃ items next,
    fetch db (after.map encode) = some (items, next.map encode)
      ∧ Page key (present db) (shown db) after items next ∧ ∀ n ∈ next, valid n

/-- The induction is on the requests: a page and the walk from its end are a
walk. -/
theorem walk_spec {present : δ → κ → Prop} {shown : δ → ρ → Prop} {encode : κ → γ}
    {valid : κ → Prop} {fetch : δ → Option γ → Option (List ρ × Option γ)} {dbs : List δ}
    (hpage : ∀ db ∈ dbs, Answers key present shown encode valid fetch db)
    (hafter : ∀ a ∈ after, valid a) :
    ∃ items ended, walk fetch (after.map encode) dbs = some (items, ended)
      ∧ Walked key present shown after dbs items ended := by
  induction dbs generalizing after with
  | nil => exact ⟨[], false, rfl, .nil, nofun, nofun, fun _ => ⟨[], .nil, .nil, nofun⟩⟩
  | cons db later ih =>
      obtain ⟨items, next, hfetch, hpage₁, hvalid⟩ := hpage db List.mem_cons_self after hafter
      have hlater := fun db' hdb' => hpage db' (List.mem_cons_of_mem db hdb')
      have hsound : ∀ r ∈ items, Past after (key r) ∧ ∃ db' ∈ db :: later, shown db' r :=
        fun r hr => ⟨(hpage₁.sound r hr).2.1, db, List.mem_cons_self, (hpage₁.sound r hr).1⟩
      cases next with
      | none =>
          refine ⟨items, true, ?_, hpage₁.sorted, hsound, fun _ k hpast hall => ?_, nofun⟩
          · unfold walk
            rw [hfetch]
            rfl
          · obtain ⟨r, hr, rfl⟩ := hall db List.mem_cons_self
            exact List.mem_map.2 ⟨r, hpage₁.complete r hr hpast nofun, rfl⟩
      | some n =>
          obtain ⟨rest, ended, hwalk, hrest⟩ :
              ∃ rest ended, walk fetch ((some n).map encode) later = some (rest, ended)
                ∧ Walked key present shown (some n) later rest ended := ih hlater hvalid
          obtain ⟨honward, hpresent⟩ := hpage₁.onward n rfl
          refine ⟨items ++ rest, ended, ?_, ?_, fun r hr => ?_, fun hended k hpast hall => ?_,
            fun hended => ?_⟩
          · unfold walk
            rw [hfetch]
            show (walk fetch ((some n).map encode) later).map _ = _
            rw [hwalk]
            rfl
          · rw [List.pairwise_append]
            refine ⟨hpage₁.sorted, hrest.sorted, fun a ha b hb => ?_⟩
            exact lt_of_le_of_lt ((hpage₁.sound a ha).2.2 n rfl) ((hrest.sound b hb).1 n rfl)
          · rcases List.mem_append.1 hr with hfirst | hlast
            · exact hsound r hfirst
            · obtain ⟨hpast, db', hdb', hshown⟩ := hrest.sound r hlast
              exact ⟨honward.of_le (le_of_lt (hpast n rfl)), db', List.mem_cons_of_mem _ hdb', hshown⟩
          · rw [List.map_append]
            refine List.mem_append.2 ?_
            rcases le_or_gt k n with hle | hgt
            · obtain ⟨r, hr, rfl⟩ := hall db List.mem_cons_self
              refine .inl (List.mem_map.2 ⟨r, hpage₁.complete r hr hpast fun m hm => ?_, rfl⟩)
              cases hm
              exact hle
            · refine .inr (hrest.complete hended k (fun m hm => ?_) fun db' hdb' => ?_)
              · cases hm
                exact hgt
              · exact hall db' (List.mem_cons_of_mem _ hdb')
          · obtain ⟨cursors, hrows, hsorted, hafter'⟩ := hrest.onward hended
            refine ⟨n :: cursors, .cons hpresent hrows, ?_, fun c hc => ?_⟩
            · exact List.pairwise_cons.2 ⟨fun c hc => hafter' c hc n rfl, hsorted⟩
            · rcases List.mem_cons.1 hc with rfl | hc
              · exact honward
              · exact honward.of_le (le_of_lt (hafter' c hc n rfl))

end Keyset
