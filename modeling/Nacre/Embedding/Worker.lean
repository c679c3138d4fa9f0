/-
The worker's embedder (worker/src/main.ts, core/endpoint.ts): a document's
texts in batches, and the vectors of each batch's answer.

The entries are sorted by `index` when one of them has a number there, an
entry without one counting as the first, and only their number is checked
afterwards. An answer whose labels are not the positions is accepted.
-/
import Nacre.Embedding.Labels

namespace Nacre.Embedding.Worker

open Value (field number?)

/-- `[...(body.data ?? [])]`; what cannot be spread is none. -/
def dataOf (body : Value) : Option (List Value) :=
  match body with
  | .null => none
  | _ =>
      match field body "data" with
      | none | some .null => some []
      | some (.array entries) => some entries
      | some (.string s) => some ((Units.codePoints s).map .string)
      | some _ => none

/-- `d.index ?? 0`, as a subtraction takes it: `toNumber` is of what is there
and no number. -/
def indexOf (toNumber : Value → Number) (entry : Value) : Number :=
  match field entry "index" with
  | none | some .null => Number.ofNat 0
  | some (.number n) => n
  | some v => toNumber v

/-- The comparator does not put `b` before `a`. Where it is no order the
engine may leave any: nothing below rests on it then. -/
def keepsOrder (toNumber : Value → Number) (a b : Value) : Bool :=
  !(Number.ofNat 0).lt ((indexOf toNumber a).sub (indexOf toNumber b))

def arranged (toNumber : Value → Number) (data : List Value) : List Value :=
  if data.any fun d => (label d).isSome then data.mergeSort (keepsOrder toNumber) else data

/-- `sendBatch`, from the body of an answer that is ok; an entry without an
embedding, and a null one, is an error. -/
def sendBatch (toNumber : Value → Number) (body : Value) : Option (List Value) :=
  match dataOf body with
  | none => none
  | some data => (arranged toNumber data).mapM vectorOf

/-- `embedInBatches(texts, limit, sendBatch)`; `endpoint k` answers the `k`-th
request, or fails. -/
def embed (toNumber : Value → Number) (limit : Nat)
    (endpoint : Nat → List (List UInt16) → Option Value) (texts : List (List UInt16)) :
    Option (List Value) :=
  if limit < 1 then none
  else
    match Batches.loop limit (fun k batch => (endpoint k batch).bind (sendBatch toNumber))
        texts.length 0 texts with
    | none => none
    | some out => if out.length ≠ texts.length then none else some out

-- =============================================================== the answers

/-- As many entries as texts, each with an embedding. -/
def accepts (n : Nat) (body : Value) : Bool :=
  match dataOf body with
  | none => false
  | some data => data.length = n && data.all fun d => (vectorOf d).isSome

def entriesOf (body : Value) : List Value := (dataOf body).getD []

variable {toNumber : Value → Number} {n : Nat} {body : Value} {data vectors : List Value}

theorem arranged_perm : (arranged toNumber data).Perm data := by
  unfold arranged
  split
  · exact List.mergeSort_perm _ _
  · exact List.Perm.refl _

theorem accepts_iff :
    accepts n body = true
      ↔ ∃ vectors, sendBatch toNumber body = some vectors ∧ vectors.length = n := by
  unfold accepts sendBatch
  cases hdata : dataOf body with
  | none => simp
  | some data =>
      have hperm : (arranged toNumber data).Perm data := arranged_perm
      rw [Bool.and_eq_true, decide_eq_true_eq, List.all_eq_true]
      constructor
      · rintro ⟨hlength, hall⟩
        obtain ⟨vectors, hvectors⟩ := mapM_isSome.2 fun entry hentry =>
          hall entry (hperm.mem_iff.1 hentry)
        exact ⟨vectors, hvectors, by rw [length_mapM hvectors, hperm.length_eq, hlength]⟩
      · rintro ⟨vectors, hvectors, hlength⟩
        refine ⟨by rw [← hlength, length_mapM hvectors, hperm.length_eq], fun entry hentry => ?_⟩
        exact mapM_isSome.1 ⟨vectors, hvectors⟩ entry (hperm.mem_iff.2 hentry)

/-- On labels that are positions the comparator is their order. -/
theorem keepsOrder_eq (h : labelsExactly n data = true) {a b : Value} (ha : a ∈ data)
    (hb : b ∈ data) : keepsOrder toNumber a b = decide (position a ≤ position b) := by
  have hindex : ∀ entry ∈ data, indexOf toNumber entry = Number.ofNat (position entry) := by
    intro entry hentry
    have hlabel := (label_of_mem h hentry).1
    unfold label number? at hlabel
    unfold indexOf
    split at hlabel
    next hfield =>
      rw [hfield]
      exact Option.some.inj hlabel
    next => cases hlabel
  rw [keepsOrder, hindex a ha, hindex b hb,
    Number.zero_lt_sub (Number.isDouble_ofNat _) (Number.isDouble_ofNat _), Number.lt_ofNat,
    ← decide_not, decide_eq_decide, not_lt]

/-- A meaningful answer gives every text its vector. -/
theorem sendBatch_right (h : sendBatch toNumber body = some vectors) (hcount : vectors.length = n)
    (hmeans : meaningful n (entriesOf body) = true) : Right n (entriesOf body) vectors := by
  unfold sendBatch at h
  unfold entriesOf at hmeans ⊢
  cases hdata : dataOf body with
  | none =>
      rw [hdata] at h
      cases h
  | some data =>
      rw [hdata] at h
      dsimp only at h
      rw [hdata, Option.getD_some] at hmeans
      rw [Option.getD_some]
      rw [meaningful, Bool.or_eq_true, List.all_eq_true] at hmeans
      rcases hmeans with hnone | hexact
      · have hunlabelled : ∀ entry ∈ data, isLabelled entry = false := fun entry hentry => by
          simpa using hnone entry hentry
        have hstill : arranged toNumber data = data := by
          refine if_neg ?_
          rw [List.any_eq_true]
          rintro ⟨entry, hentry, hlabel⟩
          have hno := hunlabelled entry hentry
          rw [isLabelled] at hno
          rw [label] at hlabel
          cases hfield : field entry "index" with
          | none =>
              rw [hfield] at hlabel
              cases hlabel
          | some v =>
              rw [hfield] at hno
              cases hno
        rw [hstill] at h
        exact ⟨hcount, .inl ⟨hunlabelled, mapM_map h⟩⟩
      · rcases Nat.eq_zero_or_pos n with rfl | hpos
        · exact ⟨hcount, .inr ⟨hexact, fun p hp => absurd hp (Nat.not_lt_zero p)⟩⟩
        have hsorted : arranged toNumber data = data.mergeSort (keepsOrder toNumber) := by
          refine if_pos ?_
          rw [List.any_eq_true]
          have hlength := (labelsExactly_iff.1 hexact).length_eq
          rw [List.length_map, List.length_map, List.length_range] at hlength
          refine ⟨data[0], List.getElem_mem _, ?_⟩
          rw [(label_of_mem hexact (List.getElem_mem _)).1]
          rfl
        rw [hsorted] at h
        exact right_of_sorted hexact (fun entry hentry => List.mem_mergeSort.1 hentry)
          (sorted_position hexact fun a ha b hb => keepsOrder_eq hexact ha hb) (mapM_map h)

-- =================================================================== the run

open Batches (batch)

/-- The worker's vectors are right, unless there is a limit, every answer
passes the checks and one of them means nothing. -/
theorem embed_right_iff (toNumber : Value → Number) (limit : Nat)
    (endpoint : Nat → List (List UInt16) → Option Value) (texts : List (List UInt16)) :
    (∀ out, embed toNumber limit endpoint texts = some out →
        RunRight limit texts endpoint entriesOf out)
      ↔ (1 ≤ limit → Accepted limit texts endpoint accepts →
          Means limit texts endpoint entriesOf) := by
  rcases Nat.lt_or_ge limit 1 with hnone | hlimit
  · refine iff_of_true (fun out h => ?_) fun h => by omega
    rw [embed, if_pos hnone] at h
    cases h
  rw [forall_prop_of_true hlimit]
  refine runRight_iff (fun _ _ _ => @sendBatch_right toNumber _ _ _) ?_ ?_
  · intro out h
    unfold embed at h
    rw [if_neg (by omega)] at h
    split at h
    next => cases h
    next out' hloop =>
      split at h
      next => cases h
      next =>
        cases h
        obtain ⟨hlength, hbatches⟩ := Batches.loop_batches hloop
        have hcalls : ∀ j, j * limit < texts.length → ∃ body vectors,
            endpoint j (batch limit texts j) = some body ∧ sendBatch toNumber body = some vectors ∧
              vectors.length = (batch limit texts j).length ∧ batch limit out j = vectors := by
          intro j hj
          obtain ⟨vectors, hsend, hcount, hwhere⟩ := hbatches j hj
          rw [Nat.zero_add] at hsend
          obtain ⟨body, hbody, hcall⟩ := Option.bind_eq_some_iff.1 hsend
          exact ⟨body, vectors, hbody, hcall, hcount, hwhere⟩
        refine ⟨fun j hj => ?_, hlength, hcalls⟩
        obtain ⟨body, vectors, hbody, hcall, hcount, -⟩ := hcalls j hj
        exact ⟨body, hbody, accepts_iff.2 ⟨vectors, hcall, hcount⟩⟩
  · intro haccepted
    have hloop : ∃ out, Batches.loop limit
        (fun k batch => (endpoint k batch).bind (sendBatch toNumber)) texts.length 0 texts
          = some out := by
      refine Batches.loop_ends (by omega) (Nat.le_refl _) fun j hj => ?_
      obtain ⟨body, hbody, haccepts⟩ := haccepted j hj
      obtain ⟨vectors, hcall, hcount⟩ := (@accepts_iff toNumber _ _).1 haccepts
      exact ⟨vectors, by rw [Nat.zero_add, hbody, Option.bind_some, hcall], hcount⟩
    obtain ⟨out, hloop⟩ := hloop
    refine ⟨out, ?_⟩
    unfold embed
    rw [if_neg (by omega), hloop]
    exact if_neg (not_not.2 (Batches.loop_batches hloop).1)

end Nacre.Embedding.Worker
