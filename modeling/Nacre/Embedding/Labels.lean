/-
The entries of an embeddings answer and their labels: which vector is
which text's.

`Right` is what an answer means: without labels the entries are in the
order of the texts, and with them each vector is of the text its `index`
says; an answer some of whose entries are labelled, and not with exactly
the positions, means nothing. `Meaningful` are the answers that mean
something, and `sorted_label` that sorting by the label brings them into
the order of the texts.
-/
import Nacre.Lib.Batches
import Nacre.Lib.Value

namespace Nacre.Embedding

open Value (field number?)

/-- The vector of an entry, as it is. -/
def vectorOf (entry : Value) : Option Value := field entry "embedding"

def isLabelled (entry : Value) : Bool := (field entry "index").isSome

/-- The position an entry says it is of. -/
def label (entry : Value) : Option Number := number? (field entry "index")

/-- The labels are the positions, each once. -/
def labelsExactly (n : Nat) (entries : List Value) : Bool :=
  (entries.map label).isPerm ((List.range n).map fun i => some (Number.ofNat i))

/-- No entry is labelled, or all are and with the positions. -/
def meaningful (n : Nat) (entries : List Value) : Bool :=
  entries.all (fun entry => !isLabelled entry) || labelsExactly n entries

/-- The vectors are the texts': in the order of arrival when no entry is
labelled, and else by the labels, which are then the positions. -/
def Right (n : Nat) (entries vectors : List Value) : Prop :=
  vectors.length = n ∧
    ((∀ entry ∈ entries, isLabelled entry = false) ∧ entries.map vectorOf = vectors.map some ∨
      labelsExactly n entries = true ∧ ∀ i < n, ∃ entry ∈ entries,
        label entry = some (Number.ofNat i) ∧ vectorOf entry = vectors[i]?)

variable {n : Nat} {entries vectors : List Value}

theorem labelsExactly_iff :
    labelsExactly n entries = true
      ↔ (entries.map label).Perm ((List.range n).map fun i => some (Number.ofNat i)) :=
  List.isPerm_iff

theorem meaningful_of_right (h : Right n entries vectors) : meaningful n entries = true := by
  rw [meaningful, Bool.or_eq_true]
  rcases h.2 with ⟨hnone, -⟩ | ⟨hexact, -⟩
  · left
    rw [List.all_eq_true]
    intro entry hentry
    rw [hnone entry hentry]
    rfl
  · exact .inr hexact

/-- The number of a label that is a position. -/
def position (entry : Value) : Nat :=
  match label entry with
  | some (.finite q) => ⌊q⌋₊
  | _ => 0

theorem position_eq {entry : Value} {i : Nat} (h : label entry = some (Number.ofNat i)) :
    position entry = i := by
  rw [position, h]
  exact Nat.floor_natCast i

theorem label_of_mem (h : labelsExactly n entries = true) {entry : Value} (hentry : entry ∈ entries) :
    label entry = some (Number.ofNat (position entry)) ∧ position entry < n := by
  have hin := (labelsExactly_iff.1 h).mem_iff.1 (List.mem_map_of_mem hentry)
  obtain ⟨i, hi, hlabel⟩ := List.mem_map.1 hin
  rw [position_eq hlabel.symm]
  exact ⟨hlabel.symm, List.mem_range.1 hi⟩

theorem positions_perm (h : labelsExactly n entries = true) :
    (entries.map position).Perm (List.range n) := by
  have hperm := (labelsExactly_iff.1 h).map fun l : Option Number =>
    match l with
    | some (.finite q) => ⌊q⌋₊
    | _ => 0
  rw [List.map_map, List.map_map] at hperm
  refine hperm.trans (List.Perm.of_eq ?_)
  conv_rhs => rw [← List.map_id (List.range n)]
  exact List.map_congr_left fun i _ => Nat.floor_natCast i

/-- A stable sort that compares the labels puts the positions in order. -/
theorem sorted_position {le : Value → Value → Bool} (h : labelsExactly n entries = true)
    (hle : ∀ a ∈ entries, ∀ b ∈ entries, le a b = decide (position a ≤ position b)) :
    (entries.mergeSort le).map position = List.range n := by
  rw [List.map_mergeSort (s := fun a b : Nat => decide (a ≤ b)) hle]
  have hperm := (List.mergeSort_perm (entries.map position) fun a b => decide (a ≤ b)).trans
    (positions_perm h)
  refine hperm.eq_of_pairwise (fun a b _ _ hab hba => Nat.le_antisymm hab hba) ?_ ?_
  · refine (List.pairwise_mergeSort ?_ ?_ _).imp fun hab => of_decide_eq_true hab
    · intro a b c hab hbc
      exact decide_eq_true (Nat.le_trans (of_decide_eq_true hab) (of_decide_eq_true hbc))
    · intro a b
      rw [Bool.or_eq_true, decide_eq_true_eq, decide_eq_true_eq]
      exact Nat.le_total a b
  · exact List.pairwise_le_range

/-- Entries with exact labels, sorted by them, give each text its vector. -/
theorem right_of_sorted {sorted : List Value} (h : labelsExactly n entries = true)
    (hmem : ∀ entry ∈ sorted, entry ∈ entries) (hsorted : sorted.map position = List.range n)
    (hvectors : sorted.map vectorOf = vectors.map some) : Right n entries vectors := by
  have hlength : sorted.length = n := by
    rw [← List.length_map (f := position), hsorted, List.length_range]
  have hcount : vectors.length = n := by
    rw [← hlength, ← List.length_map (f := some), ← hvectors, List.length_map]
  refine ⟨hcount, .inr ⟨h, fun i hi => ?_⟩⟩
  obtain ⟨entry, hentry⟩ : ∃ entry, sorted[i]? = some entry :=
    ⟨_, List.getElem?_eq_getElem (by omega)⟩
  have hin := hmem entry (List.mem_of_getElem? hentry)
  have hposition : position entry = i := by
    have hat := congrArg (·[i]?) hsorted
    simp only [List.getElem?_map, hentry, Option.map_some] at hat
    rw [List.getElem?_range hi] at hat
    exact Option.some.inj hat
  refine ⟨entry, hin, hposition ▸ (label_of_mem h hin).1, ?_⟩
  have hat := congrArg (·[i]?) hvectors
  simp only [List.getElem?_map, hentry, Option.map_some] at hat
  rw [List.getElem?_eq_getElem (by omega : i < vectors.length)] at hat ⊢
  exact Option.some.inj hat

-- ======================================================= reading every entry

theorem mapM_isSome {α β : Type} {f : α → Option β} {l : List α} :
    (∃ out, l.mapM f = some out) ↔ ∀ x ∈ l, (f x).isSome := by
  induction l with
  | nil => simp
  | cons x l ih =>
      rw [List.forall_mem_cons, ← ih, List.mapM_cons]
      cases f x with
      | none => simp
      | some v => cases l.mapM f <;> simp

theorem mapM_map {α β : Type} {f : α → Option β} {l : List α} {out : List β}
    (h : l.mapM f = some out) : l.map f = out.map some := by
  induction l generalizing out with
  | nil =>
      cases h
      rfl
  | cons x l ih =>
      rw [List.mapM_cons] at h
      cases hx : f x with
      | none => simp [hx] at h
      | some v =>
          cases hrest : l.mapM f with
          | none => simp [hx, hrest] at h
          | some vs =>
              simp only [hx, hrest, Option.pure_def, Option.bind_eq_bind, Option.bind_some,
                Option.some.injEq] at h
              rw [← h, List.map_cons, List.map_cons, hx, ih hrest]

theorem length_mapM {α β : Type} {f : α → Option β} {l : List α} {out : List β}
    (h : l.mapM f = some out) : out.length = l.length := by
  rw [← List.length_map (f := some), ← mapM_map h, List.length_map]

theorem mem_zip_mapM {α β : Type} {f : α → Option β} {l : List α} {out : List β}
    (h : l.mapM f = some out) {p : α × β} (hp : p ∈ l.zip out) : f p.1 = some p.2 := by
  obtain ⟨i, hi⟩ := List.mem_iff_getElem?.1 hp
  obtain ⟨hl, hout⟩ := List.getElem?_zip_eq_some.1 hi
  have hat := congrArg (·[i]?) (mapM_map h)
  simp only [List.getElem?_map, hl, hout, Option.map_some] at hat
  exact Option.some.inj hat

-- ================================================================== a run

open Batches (batch)

section Run

variable {size : Nat} {texts : List (List UInt16)}
  {endpoint : Nat → List (List UInt16) → Option Value} {entriesOf : Value → List Value}
  {accepts : Nat → Value → Bool} {call : Value → Option (List Value)} {run : Option (List Value)}

/-- The vectors of a run are right, batch by batch: `endpoint k` answers the
`k`-th request. -/
def RunRight (size : Nat) (texts : List (List UInt16))
    (endpoint : Nat → List (List UInt16) → Option Value) (entriesOf : Value → List Value)
    (out : List Value) : Prop :=
  out.length = texts.length ∧ ∀ j, j * size < texts.length →
    ∃ body, endpoint j (batch size texts j) = some body ∧
      Right (batch size texts j).length (entriesOf body) (batch size out j)

/-- Every batch gets an answer that passes the checks. -/
def Accepted (size : Nat) (texts : List (List UInt16))
    (endpoint : Nat → List (List UInt16) → Option Value) (accepts : Nat → Value → Bool) : Prop :=
  ∀ j, j * size < texts.length → ∃ body, endpoint j (batch size texts j) = some body ∧
    accepts (batch size texts j).length body = true

/-- Every batch gets an answer that means something. -/
def Means (size : Nat) (texts : List (List UInt16))
    (endpoint : Nat → List (List UInt16) → Option Value) (entriesOf : Value → List Value) : Prop :=
  ∀ j, j * size < texts.length → ∀ body, endpoint j (batch size texts j) = some body →
    meaningful (batch size texts j).length (entriesOf body) = true

/-- What `call` makes of a meaningful answer is right, and the run is what it
makes of the batches: then the run is right unless all its answers pass the
checks and one of them means nothing. -/
theorem runRight_iff
    (hright : ∀ n body vectors, call body = some vectors → vectors.length = n →
      meaningful n (entriesOf body) = true → Right n (entriesOf body) vectors)
    (hrun : ∀ out, run = some out → Accepted size texts endpoint accepts ∧
      out.length = texts.length ∧ ∀ j, j * size < texts.length → ∃ body vectors,
        endpoint j (batch size texts j) = some body ∧ call body = some vectors ∧
          vectors.length = (batch size texts j).length ∧ batch size out j = vectors)
    (hends : Accepted size texts endpoint accepts → ∃ out, run = some out) :
    (∀ out, run = some out → RunRight size texts endpoint entriesOf out)
      ↔ (Accepted size texts endpoint accepts → Means size texts endpoint entriesOf) := by
  constructor
  · intro h haccepted j hj body hbody
    obtain ⟨out, hout⟩ := hends haccepted
    obtain ⟨body', hbody', hvectors⟩ := (h out hout).2 j hj
    obtain rfl : body = body' := Option.some.inj (hbody.symm.trans hbody')
    exact meaningful_of_right hvectors
  · intro h out hout
    obtain ⟨haccepted, hlength, hbatches⟩ := hrun out hout
    refine ⟨hlength, fun j hj => ?_⟩
    obtain ⟨body, vectors, hbody, hcall, hcount, hwhere⟩ := hbatches j hj
    refine ⟨body, hbody, ?_⟩
    rw [hwhere]
    exact hright _ body vectors hcall hcount (h haccepted j hj body hbody)

end Run

end Nacre.Embedding
