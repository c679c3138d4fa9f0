/-
Reranking (api/rerank.ts): the scores of a reranker, one for each text in
input order, and the hits in the order of their scores.

The reranker answers `[{index, score}, …]` in an order of its own, so the
index is all that ties a score to its text. `rank` refuses an index out of
range and an answer of another length. An index that is there twice, or is
no integer, passes both, and leaves a text without a score:
`ranksRight_iff` says that the scores are right exactly where no such
answer is accepted.

`applyRanking_spec` is the other half: whatever the scores, the best are
kept, each item at most once.
-/
import Mathlib.Data.List.Nodup
import Mathlib.Data.List.Perm.Subperm
import Mathlib.Order.WithBot
import Nacre.Lib.Ranking
import Nacre.Lib.Value

namespace Nacre.Api.Rerank

open Value (field number?)

-- ============================================================== the answer

inductive RankError where
  /-- No connection, an answer that is not ok, a body that is no JSON. -/
  | refused
  | notList
  | noIndexAndScore
  | outOfRange (index : Number) (inputs : Nat)
  | incomplete (seen inputs : Nat)
  deriving DecidableEq

/-- The index and the score of an entry, when both are numbers. -/
def given (entry : Value) : Option (Number × Number) :=
  match number? (field entry "index"), number? (field entry "score") with
  | some index, some score => some (index, score)
  | _, _ => none

/-- The element of an array a number names. -/
def element? : Number → Option Nat
  | .finite q => if q = ⌊q⌋₊ then some ⌊q⌋₊ else none
  | _ => none

/-- `scores[index] = score`: an index that is no integer is no element. -/
def store (scores : List Number) (given : Number × Number) : List Number :=
  match element? given.1 with
  | some i => scores.set i given.2
  | none => scores

/-- The loop over the entries, for so many texts. -/
def readEntries (n : Nat) (scores : List Number) (seen : Nat) :
    List Value → Except RankError (List Number × Nat)
  | [] => .ok (scores, seen)
  | entry :: rest =>
      match given entry with
      | none => .error .noIndexAndScore
      | some (index, score) =>
          if index.lt (Number.ofNat 0) || index.ge (Number.ofNat n) then
            .error (.outOfRange index n)
          else readEntries n (store scores (index, score)) (seen + 1) rest

/-- `HttpReranker.rank`, with what the endpoint answered: nothing when the
request failed. -/
def rank (texts : List (List UInt16)) (answer : Option Value) : Except RankError (List Number) :=
  if texts.length = 0 then .ok []
  else
    match answer with
    | none => .error .refused
    | some (.array entries) =>
        match readEntries texts.length (List.replicate texts.length (.infinite true)) 0 entries with
        | .error reason => .error reason
        | .ok (scores, seen) =>
            if seen ≠ texts.length then .error (.incomplete seen texts.length) else .ok scores
    | some _ => .error .notList

-- =============================================================== the ranking

/-- The comparator does not put `b` before `a`. -/
def keepsOrder {α : Type} (a b : α × Number) : Bool := !(Number.ofNat 0).lt (b.2.sub a.2)

/-- `applyRanking`; the error is none. -/
def applyRanking {α : Type} (items : List α) (scores : List Number) (topK : Nat) :
    Option (List α) :=
  if scores.length ≠ items.length then none
  else some ((((items.zip scores).mergeSort keepsOrder).take topK).map (·.1))

-- ============================================================ in each other's order

/-- A number a JSON text can stand for. -/
def Parsed (n : Number) : Prop := n ≠ .nan ∧ n.IsDouble

/-- Where a number is among the others. -/
def height : Number → WithBot (WithTop ℚ)
  | .nan => ⊥
  | .infinite true => ⊥
  | .infinite false => ((⊤ : WithTop ℚ) : WithBot (WithTop ℚ))
  | .finite q => ((q : WithTop ℚ) : WithBot (WithTop ℚ))

theorem height_lt {a b : Number} (ha : a ≠ .nan) (hb : b ≠ .nan) :
    height a < height b ↔ a.lt b = true := by
  cases a with
  | nan => exact absurd rfl ha
  | infinite s =>
      cases b with
      | nan => exact absurd rfl hb
      | infinite t => cases s <;> cases t <;> simp [height, Number.lt]
      | finite q => cases s <;> simp [height, Number.lt]
  | finite p =>
      cases b with
      | nan => exact absurd rfl hb
      | infinite t =>
          cases t
          · exact iff_of_true (WithBot.coe_lt_coe.2 (WithTop.coe_lt_top p)) rfl
          · simp [height, Number.lt]
      | finite q => simp [height, Number.lt]

theorem height_inj {a b : Number} (ha : a ≠ .nan) (hb : b ≠ .nan) (h : height a = height b) :
    a = b := by
  cases a with
  | nan => exact absurd rfl ha
  | infinite s =>
      cases b with
      | nan => exact absurd rfl hb
      | infinite t => cases s <;> cases t <;> simp_all [height]
      | finite q => cases s <;> simp_all [height]
  | finite p =>
      cases b with
      | nan => exact absurd rfl hb
      | infinite t => cases t <;> simp_all [height]
      | finite q => simpa [height] using h

/-- The comparator is the order of the scores. -/
theorem keepsOrder_eq {α : Type} {a b : α × Number} (ha : Parsed a.2) (hb : Parsed b.2) :
    keepsOrder a b = decide (height b.2 ≤ height a.2) := by
  rw [keepsOrder, Number.zero_lt_sub hb.2 ha.2, Bool.eq_iff_iff, Bool.not_eq_true', decide_eq_true_eq,
    ← not_lt, height_lt ha.1 hb.1, Bool.not_eq_true]

/-- The item `i` is to stand before the item `j`. -/
def Ahead (scores : List Number) (i j : Nat) : Prop :=
  ∀ a b, scores[i]? = some a → scores[j]? = some b → b.lt a = true ∨ (a = b ∧ i < j)

/-- The `topK` items with the highest scores, or all of them: which they are is
said by their positions, each at most once, in non-increasing order of the
scores with ties as they came, and every one left is behind every one kept. -/
def KeepsBest {α : Type} (items : List α) (scores : List Number) (topK : Nat) : Prop :=
  ∃ (out : List α) (picks : List Nat), applyRanking items scores topK = some out ∧
    out.map some = picks.map (items[·]?) ∧ picks.Nodup ∧
    picks.length = min topK items.length ∧ (∀ i ∈ picks, i < items.length) ∧
    picks.Pairwise (Ahead scores) ∧
    ∀ i ∈ picks, ∀ j < items.length, j ∉ picks → Ahead scores i j

theorem applyRanking_spec {α : Type} (items : List α) (scores : List Number) (topK : Nat)
    (hlength : scores.length = items.length) (hscores : ∀ s ∈ scores, Parsed s) :
    KeepsBest items scores topK := by
  have hzip : (items.zip scores).length = items.length := by
    rw [List.length_zip, hlength, Nat.min_self]
  have hparsed : ∀ p ∈ items.zip scores, Parsed p.2 := fun p hp =>
    hscores p.2 (List.of_mem_zip hp).2
  -- the comparator, on these, is the order by height
  have hsorted : (items.zip scores).mergeSort keepsOrder
      = Ranking.sorted (fun p : α × Number => height p.2) (items.zip scores) := by
    have hmap := List.map_mergeSort (s := fun p q : α × Number =>
      decide (height q.2 ≤ height p.2)) (f := id) fun p hp q hq =>
        keepsOrder_eq (hparsed p hp) (hparsed q hq)
    rwa [List.map_id, List.map_id] at hmap
  obtain ⟨picks, hnodup, hcount, hin, hout, hordered, hrest⟩ :=
    Ranking.best (fun p : α × Number => height p.2) (items.zip scores) topK
  have hahead : ∀ i j, Ranking.Before (fun p : α × Number => height p.2) (items.zip scores) i j →
      Ahead scores i j := by
    intro i j hbefore a b ha hb
    obtain ⟨hi, -⟩ := List.getElem?_eq_some_iff.1 ha
    obtain ⟨hj, -⟩ := List.getElem?_eq_some_iff.1 hb
    have hia := hscores a (List.mem_of_getElem? ha)
    have hjb := hscores b (List.mem_of_getElem? hb)
    have hat : ∀ (k : Nat) (c : Number), scores[k]? = some c → ∃ item, (items.zip scores)[k]? = some (item, c) := by
      intro k c hk
      obtain ⟨hlt, -⟩ := List.getElem?_eq_some_iff.1 hk
      exact ⟨items[k], by rw [List.getElem?_zip_eq_some]; exact ⟨List.getElem?_eq_getElem _, hk⟩⟩
    obtain ⟨x, hx⟩ := hat i a ha
    obtain ⟨y, hy⟩ := hat j b hb
    rcases hbefore _ _ hx hy with hlt | ⟨heq, hij⟩
    · exact .inl ((height_lt hjb.1 hia.1).1 hlt)
    · exact .inr ⟨height_inj hia.1 hjb.1 heq, hij⟩
  refine ⟨_, picks, by rw [applyRanking, if_neg (by simp [hlength])], ?_, hnodup, ?_, ?_, ?_, ?_⟩
  · rw [hsorted]
    have hfirst := congrArg (List.map (Option.map Prod.fst)) hout
    rw [List.map_map, List.map_map] at hfirst
    rw [List.map_map]
    refine hfirst.trans (List.map_congr_left fun i hi => ?_)
    have hlt := hin i hi
    rw [hzip] at hlt
    show ((items.zip scores)[i]?).map Prod.fst = items[i]?
    rw [← List.getElem?_map, List.map_fst_zip (Nat.le_of_eq hlength.symm)]
  · rw [hcount, hzip]
  · exact fun i hi => hzip ▸ hin i hi
  · exact hordered.imp fun h => hahead _ _ h
  · exact fun i hi j hj hnot => hahead i j (hrest i hi j (by rwa [hzip]) hnot)

-- ============================================================== the scores

variable {n i : Nat} {entries : List Value} {scores : List Number} {index : Number}
  {ps : List (Number × Number)}

theorem element?_ofNat (i : Nat) : element? (Number.ofNat i) = some i := by
  simp [element?, Number.ofNat]

theorem element?_eq_some (h : element? index = some i) : index = Number.ofNat i := by
  unfold element? at h
  split at h
  next q =>
    split at h
    next hq =>
      rw [Number.ofNat, ← Option.some.inj h, ← hq]
    next => cases h
  next => cases h

/-- The index is one the check lets through. -/
def inRange (n : Nat) (index : Number) : Bool :=
  !(index.lt (Number.ofNat 0) || index.ge (Number.ofNat n))

theorem inRange_ofNat : inRange n (Number.ofNat i) = true ↔ i < n := by
  simp [inRange]

/-- Entries the loop goes through, as many as there are texts. -/
def passes (n : Nat) (entries : List Value) : Bool :=
  entries.length = n && entries.all fun entry => (given entry).any fun p => inRange n p.1

theorem readEntries_ok_iff {seen : Nat} {out : List Number × Nat} :
    readEntries n scores seen entries = .ok out
      ↔ (entries.all fun entry => (given entry).any fun p => inRange n p.1) = true ∧
        out = ((entries.filterMap given).foldl store scores, seen + entries.length) := by
  induction entries generalizing scores seen with
  | nil =>
      constructor
      · intro h
        cases h
        exact ⟨rfl, rfl⟩
      · rintro ⟨-, rfl⟩
        rfl
  | cons entry entries ih =>
      rw [readEntries, List.all_cons, Bool.and_eq_true]
      cases hgiven : given entry with
      | none => simp
      | some p =>
          obtain ⟨index, score⟩ := p
          dsimp only
          rw [List.filterMap_cons_some hgiven, List.foldl_cons, List.length_cons, Option.any_some]
          cases hrange : inRange n index with
          | false =>
              rw [inRange, Bool.not_eq_false'] at hrange
              rw [if_pos hrange]
              simp
          | true =>
              rw [inRange, Bool.not_eq_true'] at hrange
              rw [if_neg (by rw [hrange]; exact Bool.false_ne_true), ih]
              simp [Nat.add_assoc, Nat.add_comm 1]

theorem rank_ok_iff {texts : List (List UInt16)} {answer : Option Value}
    (hsome : texts.length ≠ 0) :
    rank texts answer = .ok scores
      ↔ ∃ entries, answer = some (.array entries) ∧ passes texts.length entries = true ∧
        scores = (entries.filterMap given).foldl store
          (List.replicate texts.length (.infinite true)) := by
  unfold rank
  rw [if_neg hsome]
  split
  next => simp
  next entries =>
    cases hread : readEntries texts.length (List.replicate texts.length (.infinite true)) 0
        entries with
    | error reason =>
        have hfails : ¬ (entries.all fun entry =>
            (given entry).any fun p => inRange texts.length p.1) = true := by
          intro hall
          rw [readEntries_ok_iff.2 ⟨hall, rfl⟩] at hread
          cases hread
        constructor
        · exact fun h => nomatch h
        · rintro ⟨entries', hsame, hpasses, -⟩
          cases hsame
          rw [passes, Bool.and_eq_true] at hpasses
          exact absurd hpasses.2 hfails
    | ok out =>
        obtain ⟨hall, rfl⟩ := readEntries_ok_iff.1 hread
        dsimp only
        rw [Nat.zero_add]
        split
        next hcount => simp [passes, hcount]
        next hcount =>
          rw [not_not] at hcount
          constructor
          · intro h
            cases h
            refine ⟨entries, rfl, ?_, rfl⟩
            rw [passes, Bool.and_eq_true, decide_eq_true_eq]
            exact ⟨hcount, hall⟩
          · rintro ⟨entries', hsame, -, rfl⟩
            cases hsame
            rfl
  next v hno =>
    constructor
    · exact fun h => nomatch h
    · rintro ⟨entries, hsame, -⟩
      exact absurd (Option.some.inj hsame) (hno entries)

theorem store_named {p : Number × Number} (h : element? p.1 = some i) :
    store scores p = scores.set i p.2 := by
  rw [store, h]

theorem length_store (scores : List Number) (p : Number × Number) :
    (store scores p).length = scores.length := by
  unfold store
  split
  · exact List.length_set
  · rfl

theorem length_foldl_store (ps : List (Number × Number)) (scores : List Number) :
    (ps.foldl store scores).length = scores.length := by
  induction ps generalizing scores with
  | nil => rfl
  | cons p ps ih => rw [List.foldl_cons, ih, length_store]

/-- An element no index names stays. -/
theorem foldl_store_other (h : ∀ p ∈ ps, p.1 ≠ Number.ofNat i) :
    (ps.foldl store scores)[i]? = scores[i]? := by
  induction ps generalizing scores with
  | nil => rfl
  | cons p ps ih =>
      rw [List.foldl_cons, ih fun q hq => h q (List.mem_cons_of_mem _ hq)]
      unfold store
      split
      next j hj =>
        refine List.getElem?_set_ne fun heq => h p List.mem_cons_self ?_
        rw [element?_eq_some hj, heq]
      next => rfl

/-- One a single index names has its score. -/
theorem foldl_store_named {score : Number} (hin : (Number.ofNat i, score) ∈ ps)
    (hdistinct : (ps.map (·.1)).Nodup) (hi : i < scores.length) :
    (ps.foldl store scores)[i]? = some score := by
  obtain ⟨before, after, rfl⟩ := List.append_of_mem hin
  rw [List.map_append, List.map_cons, List.nodup_append] at hdistinct
  have hlater := (List.nodup_cons.1 hdistinct.2.1).1
  rw [List.foldl_append, List.foldl_cons, foldl_store_other]
  · rw [store_named (element?_ofNat i)]
    exact List.getElem?_set_self (by rwa [length_foldl_store])
  · intro p hp heq
    exact hlater (List.mem_map.2 ⟨p, hp, heq⟩)

theorem length_pairs (h : passes n entries = true) : (entries.filterMap given).length = n := by
  rw [passes, Bool.and_eq_true, decide_eq_true_eq, List.all_eq_true] at h
  rw [← h.1, List.length_filterMap_eq_countP, List.countP_eq_length]
  intro entry hentry
  obtain ⟨p, hp, -⟩ := (Option.any_eq_true _ _).1 (h.2 entry hentry)
  rw [hp]
  rfl

theorem inRange_of_mem (h : passes n entries = true) {p : Number × Number}
    (hp : p ∈ entries.filterMap given) : inRange n p.1 = true := by
  rw [passes, Bool.and_eq_true, List.all_eq_true] at h
  obtain ⟨entry, hentry, hgiven⟩ := List.mem_filterMap.1 hp
  have hany := h.2 entry hentry
  rwa [hgiven, Option.any_some] at hany

/-- Every index an integer, and none twice. -/
def distinct (entries : List Value) : Bool :=
  ((entries.filterMap given).all fun p => (element? p.1).isSome)
    && decide ((entries.filterMap given).map (·.1)).Nodup

/-- The score of `i` is the one entry's that names it. -/
def ScoredOnce (entries : List Value) (i : Nat) (score : Number) : Prop :=
  (entries.filterMap given).filter (·.1 = Number.ofNat i) = [(Number.ofNat i, score)]

/-- Among as many integers below `n`, none twice, every one is there. -/
theorem mem_of_distinct (hpasses : passes n entries = true) (hdistinct : distinct entries = true)
    (hi : i < n) : ∃ score, (Number.ofNat i, score) ∈ entries.filterMap given := by
  rw [distinct, Bool.and_eq_true, List.all_eq_true, decide_eq_true_eq] at hdistinct
  have hsub : (entries.filterMap given).map (·.1) ⊆ (List.range n).map Number.ofNat := by
    intro m hm
    obtain ⟨p, hp, rfl⟩ := List.mem_map.1 hm
    obtain ⟨j, hj⟩ := Option.isSome_iff_exists.1 (hdistinct.1 p hp)
    have hrange := inRange_of_mem hpasses hp
    have hname := element?_eq_some hj
    rw [hname, inRange_ofNat] at hrange
    exact hname ▸ List.mem_map_of_mem (List.mem_range.2 hrange)
  have hperm : ((entries.filterMap given).map (·.1)).Perm ((List.range n).map Number.ofNat) := by
    refine (List.subperm_of_subset hdistinct.2 hsub).perm_of_length_le ?_
    rw [List.length_map, List.length_map, List.length_range, length_pairs hpasses]
  have hin := hperm.mem_iff.2 (List.mem_map_of_mem (List.mem_range.2 hi))
  obtain ⟨p, hp, hname⟩ := List.mem_map.1 hin
  exact ⟨p.2, by rw [← hname]; exact hp⟩

theorem filter_eq_singleton {p : Number × Number} (hp : p ∈ ps) (h : (ps.map (·.1)).Nodup) :
    ps.filter (·.1 = p.1) = [p] := by
  induction ps with
  | nil => cases hp
  | cons q ps ih =>
      rw [List.map_cons, List.nodup_cons] at h
      rcases List.mem_cons.1 hp with rfl | hp
      · rw [List.filter_cons_of_pos (by simp), List.filter_eq_nil_iff.2]
        intro r hr heq
        rw [decide_eq_true_eq] at heq
        exact h.1 (heq ▸ List.mem_map_of_mem hr)
      · rw [List.filter_cons_of_neg, ih hp h.2]
        rw [decide_eq_true_eq]
        intro heq
        exact h.1 (heq ▸ List.mem_map_of_mem hp)

/-- An answer the checks accept with an index that is no integer, or there twice. -/
def misindexed (n : Nat) (answer : Option Value) : Bool :=
  match answer with
  | some (.array entries) => decide (n ≠ 0) && passes n entries && !distinct entries
  | _ => false

/-- The scores are one for each text, and the answer's for its position. -/
def RanksRight (texts : List (List UInt16)) (answer : Option Value) : Prop :=
  ∀ scores, rank texts answer = .ok scores →
    scores.length = texts.length ∧
      ∀ i < texts.length, ∃ entries score, answer = some (.array entries) ∧
        scores[i]? = some score ∧ ScoredOnce entries i score

theorem ranksRight_iff (texts : List (List UInt16)) (answer : Option Value) :
    RanksRight texts answer ↔ misindexed texts.length answer = false := by
  by_cases hnone : texts.length = 0
  · have hmis : misindexed texts.length answer = false := by
      unfold misindexed
      split <;> simp [hnone]
    refine iff_of_true (fun scores h => ?_) hmis
    unfold rank at h
    rw [if_pos hnone] at h
    cases h
    exact ⟨hnone.symm, fun i hi => by omega⟩
  constructor
  · intro h
    by_contra hmis
    rw [Bool.not_eq_false] at hmis
    unfold misindexed at hmis
    split at hmis
    next entries =>
      rw [Bool.and_eq_true, Bool.and_eq_true] at hmis
      obtain ⟨⟨-, hpasses⟩, hnot⟩ := hmis
      have hright := (h _ ((rank_ok_iff hnone).2 ⟨entries, rfl, hpasses, rfl⟩)).2
      -- every position is named, so the indices are the positions
      have hsub : (List.range texts.length).map Number.ofNat
          ⊆ (entries.filterMap given).map (·.1) := by
        intro m hm
        obtain ⟨i, hi, rfl⟩ := List.mem_map.1 hm
        obtain ⟨entries', score, hsame, -, honce⟩ := hright i (List.mem_range.1 hi)
        cases hsame
        have hin : (Number.ofNat i, score) ∈ (entries.filterMap given).filter
            (·.1 = Number.ofNat i) := by
          rw [honce]
          exact List.mem_singleton_self _
        exact List.mem_map_of_mem (f := (·.1)) (List.mem_of_mem_filter hin)
      have hnodup : ((List.range texts.length).map Number.ofNat).Nodup := by
        refine List.Nodup.map (fun a b hab => ?_) List.nodup_range
        simpa [Number.ofNat] using hab
      have hperm := (List.subperm_of_subset hnodup hsub).perm_of_length_le (by
        rw [List.length_map, List.length_map, List.length_range, length_pairs hpasses])
      have hdistinct : distinct entries = true := by
        rw [distinct, Bool.and_eq_true, List.all_eq_true, decide_eq_true_eq]
        refine ⟨fun p hp => ?_, hperm.nodup_iff.1 hnodup⟩
        obtain ⟨i, -, hname⟩ := List.mem_map.1 (hperm.mem_iff.2 (List.mem_map_of_mem hp))
        rw [← hname, element?_ofNat]
        rfl
      rw [hdistinct] at hnot
      cases hnot
    next => cases hmis
  · intro hmis scores h
    obtain ⟨entries, rfl, hpasses, rfl⟩ := (rank_ok_iff hnone).1 h
    have hdistinct : distinct entries = true := by
      simpa [misindexed, hnone, hpasses] using hmis
    have hnodup : ((entries.filterMap given).map (·.1)).Nodup := by
      rw [distinct, Bool.and_eq_true, decide_eq_true_eq] at hdistinct
      exact hdistinct.2
    refine ⟨by rw [length_foldl_store, List.length_replicate], fun i hi => ?_⟩
    obtain ⟨score, hin⟩ := mem_of_distinct hpasses hdistinct hi
    exact ⟨entries, score, rfl, foldl_store_named hin hnodup (by rwa [List.length_replicate]),
      filter_eq_singleton hin hnodup⟩

-- ================================================================ the promise

/-- An answer that scores the first of two texts twice. -/
def twice : Value :=
  .array [.object [(Json.units "index", .number (.finite 0)), (Json.units "score", .number (.finite 1))],
    .object [(Json.units "index", .number (.finite 0)), (Json.units "score", .number (.finite 2))]]

/-- It is accepted, and the second is left without a score. -/
theorem twice_accepted :
    ¬ ∀ texts answer, RanksRight texts answer := by
  intro h
  have hrank : rank [[], []] (some twice) = .ok [.finite 2, .infinite true] := by rfl
  obtain ⟨entries, score, hsame, -, honce⟩ := (h [[], []] (some twice) _ hrank).2 1 (by decide)
  cases hsame
  have hnone : ([Value.object [(Json.units "index", .number (.finite 0)),
        (Json.units "score", .number (.finite 1))],
      .object [(Json.units "index", .number (.finite 0)),
        (Json.units "score", .number (.finite 2))]].filterMap given).filter
      (·.1 = Number.ofNat 1) = [] := by rfl
  rw [ScoredOnce, hnone] at honce
  cases honce

/-- The scores are the answer's, each text's once, exactly where no accepted
answer has an index that is no integer or there twice; and the ranking keeps
the best whatever the scores. -/
theorem rerank_spec (texts : List (List UInt16)) (answer : Option Value) :
    (RanksRight texts answer ↔ misindexed texts.length answer = false) ∧
      ∀ (α : Type) (items : List α) (scores : List Number) (topK : Nat),
        scores.length = items.length → (∀ s ∈ scores, Parsed s) → KeepsBest items scores topK :=
  ⟨ranksRight_iff texts answer, fun _ items scores topK hlength hscores =>
    applyRanking_spec items scores topK hlength hscores⟩

end Nacre.Api.Rerank
