/-
The embedding adapter (services/embedding_adapter/app.py): the caller's
texts in batches of the vendor's size, over a vendor that answers as
OpenAI does.

The rows are sorted by `int(row["index"])` when every one of them has an
index, and left in the order of arrival when one has not; only their number
is checked afterwards. `int` reads more than positions: a text, a fraction,
a truth value. `adapter_right_iff` is the adapter's share, and
`embeddings_right` both readers'.
-/
import Nacre.Embedding.Worker

namespace Nacre.Embedding.Adapter

open Value (field array? number?)

/-- An entry of the vendors' table, as far as `embed` reads it. -/
structure Vendor where
  batch : Option Nat

/-- `int(value)`, with `int` of a text as it is there; an error is none. -/
def toInt (intOfText : List UInt16 → Option Int) : Value → Option Int
  | .number (.finite q) => some (Number.trunc q)
  | .bool b => some (if b then 1 else 0)
  | .string s => intOfText s
  | _ => none

def isRow : Value → Bool
  | .object _ => true
  | _ => false

/-- The rows by their labels. -/
def arranged (intOfText : List UInt16 → Option Int) (rows : List Value) : Option (List Value) :=
  if rows.all isLabelled then
    (rows.mapM fun r => (field r "index").bind (toInt intOfText)).map fun keys =>
      ((rows.zip keys).mergeSort fun a b => decide (a.2 ≤ b.2)).map (·.1)
  else some rows

/-- `_openai_shaped`, from what the vendor answered. A row that is no object
ends in an error, at the `in` or at the `get`. -/
def openaiShaped (intOfText : List UInt16 → Option Int) (body : Value) : Option (List Value) :=
  match array? (field body "data") with
  | none => none
  | some rows =>
      if rows.all isRow then
        (arranged intOfText rows).map fun rows => rows.map fun r => (vectorOf r).getD .null
      else none

/-- A list of numbers that is not empty; a truth value is a number. -/
def isVector : Value → Bool
  | .array items => !items.isEmpty && items.all fun n =>
      match n with
      | .number _ | .bool _ => true
      | _ => false
  | _ => false

/-- `spec["batch"] or len(texts) or 1`. -/
def sizeOf (vendor : Vendor) (texts : List (List UInt16)) : Nat :=
  if vendor.batch.getD 0 ≠ 0 then vendor.batch.getD 0
  else if texts.length ≠ 0 then texts.length
  else 1

/-- `embed`, over the vendor the model is routed to, if it is: `endpoint k`
answers the `k`-th request, or fails. -/
def embed (intOfText : List UInt16 → Option Int) (route : Option Vendor)
    (endpoint : Nat → List (List UInt16) → Option Value) (texts : List (List UInt16)) :
    Option (List Value) :=
  match route with
  | none => none
  | some vendor =>
      match Batches.loop (sizeOf vendor texts)
          (fun k chunk => (endpoint k chunk).bind (openaiShaped intOfText))
          texts.length 0 texts with
      | none => none
      | some vectors => if vectors.all isVector then some vectors else none

-- =============================================================== the answers

/-- As many rows as texts, each with a vector, and every label readable where
all have one. -/
def accepts (intOfText : List UInt16 → Option Int) (n : Nat) (body : Value) : Bool :=
  match array? (field body "data") with
  | none => false
  | some rows =>
      rows.length = n && rows.all isRow && rows.all (fun r => (vectorOf r).any isVector)
        && (!rows.all isLabelled
          || rows.all fun r => ((field r "index").bind (toInt intOfText)).isSome)

def entriesOf (body : Value) : List Value := (array? (field body "data")).getD []

variable {intOfText : List UInt16 → Option Int} {n : Nat} {body : Value}
  {rows sorted vectors : List Value}

theorem size_pos (vendor : Vendor) (texts : List (List UInt16)) : 1 ≤ sizeOf vendor texts := by
  unfold sizeOf
  split_ifs <;> omega

theorem arranged_perm (h : arranged intOfText rows = some sorted) : sorted.Perm rows := by
  unfold arranged at h
  split at h
  next =>
    obtain ⟨keys, hkeys, rfl⟩ := Option.map_eq_some_iff.1 h
    have hfirst : (rows.zip keys).map (·.1) = rows :=
      List.map_fst_zip (Nat.le_of_eq (length_mapM hkeys).symm)
    refine ((List.mergeSort_perm _ _).map _).trans ?_
    rw [hfirst]
  next =>
    cases h
    exact List.Perm.refl _

theorem arranged_isSome :
    (∃ sorted, arranged intOfText rows = some sorted)
      ↔ (!rows.all isLabelled
          || rows.all fun r => ((field r "index").bind (toInt intOfText)).isSome) = true := by
  unfold arranged
  cases rows.all isLabelled with
  | false => simp
  | true =>
      rw [if_pos rfl, Bool.not_true, Bool.false_or, List.all_eq_true, ← mapM_isSome]
      cases rows.mapM fun r => (field r "index").bind (toInt intOfText) <;> simp

/-- `_openai_shaped`, and the check of the vectors. -/
def checked (intOfText : List UInt16 → Option Int) (body : Value) : Option (List Value) :=
  (openaiShaped intOfText body).filter fun vectors => vectors.all isVector

/-- A row without an embedding is null, and null is no vector. -/
theorem map_vectorOf (h : (sorted.map fun r => (vectorOf r).getD .null).all isVector = true) :
    sorted.map vectorOf = (sorted.map fun r => (vectorOf r).getD .null).map some := by
  rw [List.map_map]
  refine List.map_congr_left fun r hr => ?_
  have hvector := List.all_eq_true.1 h _ (List.mem_map_of_mem hr)
  cases hvec : vectorOf r with
  | none =>
      rw [hvec] at hvector
      cases hvector
  | some v => simp [hvec]

theorem checked_eq_some :
    checked intOfText body = some vectors
      ↔ ∃ rows sorted, array? (field body "data") = some rows ∧ rows.all isRow = true ∧
        arranged intOfText rows = some sorted ∧ sorted.map vectorOf = vectors.map some ∧
        vectors.all isVector = true := by
  unfold checked openaiShaped
  cases array? (field body "data") with
  | none => simp
  | some rows =>
      dsimp only
      cases hrows : rows.all isRow with
      | false =>
          rw [if_neg (by decide)]
          constructor
          · exact fun h => nomatch h
          · rintro ⟨rows', sorted, hsame, hall, -⟩
            cases hsame
            rw [hrows] at hall
            cases hall
      | true =>
          rw [if_pos rfl, Option.filter_eq_some_iff]
          constructor
          · rintro ⟨hread, hall⟩
            obtain ⟨sorted, harranged, rfl⟩ := Option.map_eq_some_iff.1 hread
            exact ⟨rows, sorted, rfl, hrows, harranged, map_vectorOf hall, hall⟩
          · rintro ⟨rows', sorted, hsame, -, harranged, hvectors, hall⟩
            cases hsame
            have hget := congrArg (List.map fun v : Option Value => v.getD .null) hvectors
            rw [List.map_map, List.map_map] at hget
            refine ⟨?_, hall⟩
            rw [harranged, Option.map_some]
            exact congrArg some (hget.trans (List.map_id _))

theorem accepts_iff :
    accepts intOfText n body = true
      ↔ ∃ vectors, checked intOfText body = some vectors ∧ vectors.length = n := by
  simp only [checked_eq_some]
  unfold accepts
  cases array? (field body "data") with
  | none => simp
  | some rows =>
      rw [Bool.and_eq_true, Bool.and_eq_true, Bool.and_eq_true, decide_eq_true_eq,
        ← arranged_isSome]
      constructor
      · rintro ⟨⟨⟨hlength, hrows⟩, hvectors⟩, sorted, hsorted⟩
        rw [List.all_eq_true] at hvectors
        have hperm := arranged_perm hsorted
        obtain ⟨vectors, hread⟩ := (@mapM_isSome _ _ vectorOf sorted).2 fun r hr => by
          obtain ⟨v, hv, -⟩ := (Option.any_eq_true _ _).1 (hvectors r (hperm.mem_iff.1 hr))
          rw [hv]
          rfl
        refine ⟨vectors, ⟨rows, sorted, rfl, hrows, hsorted, mapM_map hread, ?_⟩, ?_⟩
        · rw [List.all_eq_true]
          intro v hv
          have hin : some v ∈ sorted.map vectorOf := by
            rw [mapM_map hread]
            exact List.mem_map_of_mem hv
          obtain ⟨r, hr, hvec⟩ := List.mem_map.1 hin
          have hvector := hvectors r (hperm.mem_iff.1 hr)
          rwa [hvec, Option.any_some] at hvector
        · rw [length_mapM hread, hperm.length_eq, hlength]
      · rintro ⟨vectors, ⟨rows', sorted, hsame, hrows, hsorted, hread, hall⟩, hlength⟩
        cases hsame
        have hperm := arranged_perm hsorted
        refine ⟨⟨⟨?_, hrows⟩, ?_⟩, sorted, hsorted⟩
        · rw [← hperm.length_eq, ← List.length_map (f := vectorOf), hread, List.length_map, hlength]
        · rw [List.all_eq_true]
          intro r hr
          have hin : vectorOf r ∈ vectors.map some := by
            rw [← hread]
            exact List.mem_map_of_mem (hperm.mem_iff.2 hr)
          obtain ⟨v, hv, hvec⟩ := List.mem_map.1 hin
          rw [← hvec, Option.any_some]
          exact List.all_eq_true.1 hall v hv

/-- A meaningful answer gives every text its vector. -/
theorem checked_right (h : checked intOfText body = some vectors) (hcount : vectors.length = n)
    (hmeans : meaningful n (entriesOf body) = true) : Right n (entriesOf body) vectors := by
  obtain ⟨rows, sorted, hrows, -, hsorted, hread, -⟩ := checked_eq_some.1 h
  unfold entriesOf at hmeans ⊢
  rw [hrows, Option.getD_some] at hmeans ⊢
  have hperm := arranged_perm hsorted
  have hlength : rows.length = n := by
    rw [← hperm.length_eq, ← List.length_map (f := vectorOf), hread, List.length_map, hcount]
  rw [meaningful, Bool.or_eq_true, List.all_eq_true] at hmeans
  unfold arranged at hsorted
  rcases hmeans with hnone | hexact
  · have hunlabelled : ∀ r ∈ rows, isLabelled r = false := fun r hr => by
      simpa using hnone r hr
    have hstill : sorted = rows := by
      cases rows with
      | nil => exact hperm.eq_nil
      | cons r rows =>
          rw [if_neg (by simp [hunlabelled r List.mem_cons_self])] at hsorted
          exact (Option.some.inj hsorted).symm
    rw [hstill] at hread
    exact ⟨hcount, .inl ⟨hunlabelled, hread⟩⟩
  · have hlabelled : rows.all isLabelled = true := by
      rw [List.all_eq_true]
      intro r hr
      have hlabel := (label_of_mem hexact hr).1
      unfold label at hlabel
      unfold isLabelled
      cases hfield : field r "index" with
      | none =>
          rw [hfield] at hlabel
          cases hlabel
      | some v => rfl
    rw [if_pos hlabelled] at hsorted
    obtain ⟨keys, hkeys, rfl⟩ := Option.map_eq_some_iff.1 hsorted
    have hfirst : (rows.zip keys).map (·.1) = rows :=
      List.map_fst_zip (Nat.le_of_eq (length_mapM hkeys).symm)
    -- a key is the position its label is
    have hkey : ∀ p ∈ rows.zip keys, p.2 = (position p.1 : Int) := by
      intro p hp
      have hint := mem_zip_mapM hkeys hp
      have hlabel := (label_of_mem hexact (List.of_mem_zip hp).1).1
      unfold label number? at hlabel
      split at hlabel
      next m hfield =>
        rw [hfield, Option.bind_some, Option.some.inj hlabel] at hint
        simpa [toInt, Number.ofNat, Number.trunc] using hint.symm
      next => cases hlabel
    have hmerge : ((rows.zip keys).mergeSort fun a b => decide (a.2 ≤ b.2)).map (·.1)
        = rows.mergeSort fun a b => decide (position a ≤ position b) := by
      rw [List.map_mergeSort (s := fun a b => decide (position a ≤ position b)), hfirst]
      intro a ha b hb
      rw [hkey a ha, hkey b hb]
      simp
    rw [hmerge] at hread
    exact right_of_sorted hexact (fun r hr => List.mem_mergeSort.1 hr)
      (sorted_position hexact fun _ _ _ _ => rfl) hread

-- =================================================================== the run

open Batches (batch)

/-- The adapter's vectors are right, unless every answer passes the checks and
one of them means nothing. -/
theorem adapter_right_iff (intOfText : List UInt16 → Option Int) (vendor : Vendor)
    (endpoint : Nat → List (List UInt16) → Option Value) (texts : List (List UInt16)) :
    (∀ out, embed intOfText (some vendor) endpoint texts = some out →
        RunRight (sizeOf vendor texts) texts endpoint entriesOf out)
      ↔ (Accepted (sizeOf vendor texts) texts endpoint (accepts intOfText) →
          Means (sizeOf vendor texts) texts endpoint entriesOf) := by
  have hsize := size_pos vendor texts
  refine runRight_iff (fun _ _ _ => @checked_right intOfText _ _ _) ?_ ?_
  · intro out h
    unfold embed at h
    dsimp only at h
    split at h
    next => cases h
    next out' hloop =>
      split at h
      next hall =>
        cases h
        obtain ⟨hlength, hbatches⟩ := Batches.loop_batches hloop
        have hcalls : ∀ j, j * sizeOf vendor texts < texts.length → ∃ body vectors,
            endpoint j (batch (sizeOf vendor texts) texts j) = some body ∧
              checked intOfText body = some vectors ∧
              vectors.length = (batch (sizeOf vendor texts) texts j).length ∧
              batch (sizeOf vendor texts) out j = vectors := by
          intro j hj
          obtain ⟨vectors, hsend, hcount, hwhere⟩ := hbatches j hj
          rw [Nat.zero_add] at hsend
          obtain ⟨body, hbody, hcall⟩ := Option.bind_eq_some_iff.1 hsend
          -- a batch's vectors are among those that are checked at the end
          have hvectors : vectors.all isVector = true := by
            rw [List.all_eq_true] at hall ⊢
            intro v hv
            rw [← hwhere] at hv
            exact hall v (List.mem_of_mem_drop (List.mem_of_mem_take hv))
          exact ⟨body, vectors, hbody, Option.filter_eq_some_iff.2 ⟨hcall, hvectors⟩, hcount, hwhere⟩
        refine ⟨fun j hj => ?_, hlength, hcalls⟩
        obtain ⟨body, vectors, hbody, hcall, hcount, -⟩ := hcalls j hj
        exact ⟨body, hbody, accepts_iff.2 ⟨vectors, hcall, hcount⟩⟩
      next => cases h
  · intro haccepted
    have hcalls : ∀ j, j * sizeOf vendor texts < texts.length → ∃ vectors,
        (endpoint j (batch (sizeOf vendor texts) texts j)).bind (openaiShaped intOfText)
            = some vectors ∧
          vectors.length = (batch (sizeOf vendor texts) texts j).length ∧
          vectors.all isVector = true := by
      intro j hj
      obtain ⟨body, hbody, haccepts⟩ := haccepted j hj
      obtain ⟨vectors, hcall, hcount⟩ := accepts_iff.1 haccepts
      obtain ⟨hread, hall⟩ := Option.filter_eq_some_iff.1 hcall
      exact ⟨vectors, by rw [hbody, Option.bind_some, hread], hcount, hall⟩
    have hloop : ∃ out, Batches.loop (sizeOf vendor texts)
        (fun k chunk => (endpoint k chunk).bind (openaiShaped intOfText)) texts.length 0 texts
          = some out := by
      refine Batches.loop_ends (by omega) (Nat.le_refl _) fun j hj => ?_
      obtain ⟨vectors, hread, hcount, -⟩ := hcalls j hj
      exact ⟨vectors, by rw [Nat.zero_add, hread], hcount⟩
    obtain ⟨out, hloop⟩ := hloop
    obtain ⟨hlength, hbatches⟩ := Batches.loop_batches hloop
    refine ⟨out, ?_⟩
    unfold embed
    dsimp only
    rw [hloop]
    refine if_pos (List.all_eq_true.2 fun v hv => ?_)
    obtain ⟨i, hi⟩ := List.mem_iff_getElem?.1 hv
    obtain ⟨hlt, -⟩ := List.getElem?_eq_some_iff.1 hi
    have hj : i / sizeOf vendor texts * sizeOf vendor texts < texts.length := by
      have hdiv := Nat.div_mul_le_self i (sizeOf vendor texts)
      omega
    obtain ⟨vectors, hread, hcount, hall⟩ := hcalls _ hj
    obtain ⟨vectors', hread', -, hwhere⟩ := hbatches _ hj
    rw [Nat.zero_add] at hread'
    obtain rfl : vectors = vectors' := Option.some.inj (hread.symm.trans hread')
    refine List.all_eq_true.1 hall v ?_
    rw [← hwhere, batch]
    refine List.mem_iff_getElem?.2 ⟨i % sizeOf vendor texts, ?_⟩
    rw [List.getElem?_take_of_lt (Nat.mod_lt _ (by omega)), List.getElem?_drop,
      Nat.div_add_mod', hi]

-- ================================================================ both readers

/-- A row of the answer, with a label. -/
def row (index : Nat) (value : Nat) : Value :=
  .object [(Json.units "index", .number (Number.ofNat index)),
    (Json.units "embedding", .array [.number (Number.ofNat value)])]

/-- Two rows of the first text. -/
def repeated : Value := .object [(Json.units "data", .array [row 0 1, row 0 2])]

/-- Both accept it for two texts, and it means nothing. -/
theorem repeated_accepted :
    (¬ ∀ toNumber limit endpoint texts out,
        Worker.embed toNumber limit endpoint texts = some out →
          RunRight limit texts endpoint Worker.entriesOf out) ∧
      ¬ ∀ intOfText vendor endpoint texts out,
        embed intOfText (some vendor) endpoint texts = some out →
          RunRight (sizeOf vendor texts) texts endpoint entriesOf out := by
  have honly : ∀ j, j * 2 < 2 → j = 0 := by omega
  have hnothing : meaningful 2 [row 0 1, row 0 2] = false := by decide +kernel
  constructor
  · intro h
    have hmeans := (Worker.embed_right_iff (fun _ => .nan) 2 (fun _ _ => some repeated) [[], []]).1
      (h _ 2 (fun _ _ => some repeated) [[], []]) (by decide) fun j hj => by
        rw [honly j hj]
        exact ⟨repeated, rfl, by rfl⟩
    have htrue : meaningful 2 [row 0 1, row 0 2] = true := hmeans 0 (by decide) repeated rfl
    rw [hnothing] at htrue
    cases htrue
  · intro h
    have hmeans := (adapter_right_iff (fun _ => none) ⟨none⟩ (fun _ _ => some repeated) [[], []]).1
      (h _ ⟨none⟩ (fun _ _ => some repeated) [[], []]) fun j hj => by
        rw [honly j hj]
        exact ⟨repeated, rfl, by rfl⟩
    have htrue : meaningful 2 [row 0 1, row 0 2] = true := hmeans 0 (by decide) repeated rfl
    rw [hnothing] at htrue
    cases htrue

/-- Over every run: each text gets the vector of the entry labelled with its
position in its batch (or in its place, where no entry is labelled), exactly
unless every answer passes the reader's checks and one of them has labels
that are not the positions. -/
theorem embeddings_right (toNumber : Value → Number) (intOfText : List UInt16 → Option Int)
    (limit : Nat) (vendor : Vendor) (endpoint : Nat → List (List UInt16) → Option Value)
    (texts : List (List UInt16)) :
    ((∀ out, Worker.embed toNumber limit endpoint texts = some out →
        RunRight limit texts endpoint Worker.entriesOf out)
      ↔ (1 ≤ limit → Accepted limit texts endpoint Worker.accepts →
          Means limit texts endpoint Worker.entriesOf)) ∧
      ((∀ out, embed intOfText (some vendor) endpoint texts = some out →
          RunRight (sizeOf vendor texts) texts endpoint entriesOf out)
        ↔ (Accepted (sizeOf vendor texts) texts endpoint (accepts intOfText) →
            Means (sizeOf vendor texts) texts endpoint entriesOf)) :=
  ⟨Worker.embed_right_iff toNumber limit endpoint texts,
    adapter_right_iff intOfText vendor endpoint texts⟩

end Nacre.Embedding.Adapter
