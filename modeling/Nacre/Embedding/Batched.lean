/-
A list of texts embedded in batches (core/endpoint.ts: `embedInBatches`).

The batches are sent one after the other. One that fails, or is answered
with another number of vectors, ends the call, and nothing is returned of
those before it.

`Ran` is the loop as a relation, one rule a turn, and the properties of a
call are by induction on it: `embedInBatches_batched` puts them together.
Nothing is asked of the sender but that vectors as many as the texts of
their batch are in the order of the texts (`InOrder`).
-/
import Mathlib.Data.List.Forall2
import Nacre.Lib.Json

namespace Nacre.Embedding

open Json (units)

-- ================================================================= the call

/-- `String(error)`. -/
abbrev Failure := List UInt16

/-- The answer to a request: `send k` answers the `k`-th. -/
abbrev Sender (β : Type) := Nat → List (List UInt16) → Except Failure (List β)

/-- A batch that was sent, and its answer. -/
structure Exchange (β : Type) where
  batch : List (List UInt16)
  answer : Except Failure (List β)

/-- A call: what was sent, and what came of it. -/
structure Call (β : Type) where
  exchanges : List (Exchange β)
  result : Except Failure (List β)

variable {β : Type}

def miscounted (vectors batch texts : Nat) : Failure :=
  units s!"Error: the embedding endpoint returned {vectors} vectors for {batch} inputs in a batch of {texts}"

/-- The loop. It takes no more turns than there are texts: each moves `at_`
on. -/
def loop (texts : List (List UInt16)) (limit : Nat) (send : Sender β) :
    (turns k at_ : Nat) → (out : List β) → Call β
  | 0, _, _, out => ⟨[], .ok out⟩
  | turns + 1, k, at_, out =>
      if at_ < texts.length then
        let batch := (texts.drop at_).take limit
        match send k batch with
        | .error failure => ⟨[⟨batch, .error failure⟩], .error failure⟩
        | .ok vectors =>
            if vectors.length ≠ batch.length then
              ⟨[⟨batch, .ok vectors⟩],
                .error (miscounted vectors.length batch.length texts.length)⟩
            else
              let rest := loop texts limit send turns (k + 1) (at_ + limit) (out ++ vectors)
              ⟨⟨batch, .ok vectors⟩ :: rest.exchanges, rest.result⟩
      else ⟨[], .ok out⟩

def embedInBatches (texts : List (List UInt16)) (limit : Nat) (send : Sender β) : Call β :=
  if limit < 1 then
    ⟨[], .error
      (units s!"Error: the embedding batch limit must be a positive integer, got {limit}")⟩
  else if texts.length = 0 then ⟨[], .ok []⟩
  else
    let call := loop texts limit send texts.length 0 0 []
    match call.result with
    | .error _ => call
    | .ok out =>
        if out.length ≠ texts.length then
          ⟨call.exchanges, .error (units
            s!"Error: batching produced {out.length} vectors for {texts.length} inputs")⟩
        else call

-- ============================================================== what it does

/-- Answered with as many vectors as texts. -/
def Exchange.counted (e : Exchange β) : Bool :=
  match e.answer with
  | .ok vectors => vectors.length = e.batch.length
  | .error _ => false

def Exchange.vectors (e : Exchange β) : List β :=
  match e.answer with
  | .ok vectors => vectors
  | .error _ => []

/-- The vectors of an answer that is one to a text are the texts', in their
order. -/
def InOrder (of : List UInt16 → β → Prop) (send : Sender β) : Prop :=
  ∀ k batch vectors, send k batch = .ok vectors → vectors.length = batch.length →
    List.Forall₂ of batch vectors

/-- A call that embeds these texts in batches. -/
structure Batched (of : List UInt16 → β → Prop) (texts : List (List UInt16)) (limit : Nat)
    (send : Sender β) (call : Call β) : Prop where
  asked : ∀ j e, call.exchanges[j]? = some e → e.answer = send j e.batch
  sized : ∀ e ∈ call.exchanges, 0 < e.batch.length ∧ e.batch.length ≤ limit
  inOrder : call.exchanges.flatMap (·.batch) <+: texts
  /-- It fails as a whole. -/
  whole : (∃ out, call.result = .ok out) ↔ ∀ e ∈ call.exchanges, e.counted = true
  concatenated : ∀ out, call.result = .ok out →
    call.exchanges.flatMap (·.batch) = texts ∧ out = call.exchanges.flatMap (·.vectors) ∧
      List.Forall₂ of texts out

-- ================================================================== the loop

/-- The loop over what is left of the texts, a turn at a time. -/
inductive Ran (limit : Nat) (send : Sender β) :
    Nat → List (List UInt16) → List (Exchange β) → Except Failure (List β) → Prop where
  | done (k : Nat) : Ran limit send k [] [] (.ok [])
  | refused (k : Nat) (texts : List (List UInt16)) (failure : Failure) (hne : texts ≠ [])
      (hsend : send k (texts.take limit) = .error failure) :
      Ran limit send k texts [⟨texts.take limit, .error failure⟩] (.error failure)
  | miscounted (k : Nat) (texts : List (List UInt16)) (vectors : List β) (failure : Failure)
      (hne : texts ≠ []) (hsend : send k (texts.take limit) = .ok vectors)
      (hcount : vectors.length ≠ (texts.take limit).length) :
      Ran limit send k texts [⟨texts.take limit, .ok vectors⟩] (.error failure)
  | turn (k : Nat) (texts : List (List UInt16)) (vectors : List β)
      (exchanges : List (Exchange β)) (result : Except Failure (List β)) (hne : texts ≠ [])
      (hsend : send k (texts.take limit) = .ok vectors)
      (hcount : vectors.length = (texts.take limit).length)
      (hrest : Ran limit send (k + 1) (texts.drop limit) exchanges result) :
      Ran limit send k texts (⟨texts.take limit, .ok vectors⟩ :: exchanges)
        (result.map (vectors ++ ·))

variable {texts rest : List (List UInt16)} {limit turns k at_ : Nat} {send : Sender β}
  {out : List β} {exchanges : List (Exchange β)} {result : Except Failure (List β)}
  {of : List UInt16 → β → Prop}

theorem map_append (result : Except Failure (List β)) (a b : List β) :
    (result.map (b ++ ·)).map (a ++ ·) = result.map ((a ++ b) ++ ·) := by
  cases result with
  | error failure => rfl
  | ok out =>
      show Except.ok (a ++ (b ++ out)) = Except.ok ((a ++ b) ++ out)
      rw [List.append_assoc]

/-- What is in `out` stays in front. -/
theorem loop_ran (hlimit : 1 ≤ limit) (hturns : texts.length ≤ at_ + turns) :
    ∃ result, Ran limit send k (texts.drop at_)
        (loop texts limit send turns k at_ out).exchanges result ∧
      (loop texts limit send turns k at_ out).result = result.map (out ++ ·) := by
  induction turns generalizing k at_ out with
  | zero =>
      rw [List.drop_of_length_le (by omega)]
      exact ⟨_, .done k, by rw [loop, Except.map, List.append_nil]⟩
  | succ turns ih =>
      rw [loop]
      split
      next hlt =>
        have hne : texts.drop at_ ≠ [] := by
          rw [← List.length_pos_iff, List.length_drop]
          omega
        dsimp only
        split
        next failure hsend => exact ⟨_, .refused k _ failure hne hsend, rfl⟩
        next vectors hsend =>
          split
          next hcount => exact ⟨_, .miscounted k _ vectors _ hne hsend hcount, rfl⟩
          next hcount =>
            rw [not_not] at hcount
            obtain ⟨result, hran, hresult⟩ :=
              @ih (k + 1) (at_ + limit) (out ++ vectors) (by omega)
            rw [← List.drop_drop] at hran
            refine ⟨_, .turn k _ vectors _ result hne hsend hcount hran, ?_⟩
            rw [map_append]
            exact hresult
      next hge =>
        rw [List.drop_of_length_le (by omega)]
        exact ⟨_, .done k, by rw [Except.map, List.append_nil]⟩

theorem Ran.asked (h : Ran limit send k texts exchanges result) :
    ∀ j e, exchanges[j]? = some e → e.answer = send (k + j) e.batch := by
  induction h with
  | done k => exact nofun
  | refused k texts failure hne hsend =>
      intro j e he
      obtain ⟨rfl, rfl⟩ : j = 0 ∧ _ = e := by
        simpa [List.getElem?_singleton] using he
      exact hsend.symm
  | miscounted k texts vectors failure hne hsend hcount =>
      intro j e he
      obtain ⟨rfl, rfl⟩ : j = 0 ∧ _ = e := by
        simpa [List.getElem?_singleton] using he
      exact hsend.symm
  | turn k texts vectors exchanges result hne hsend hcount hrest ih =>
      intro j e he
      cases j with
      | zero =>
          cases he
          exact hsend.symm
      | succ j =>
          rw [List.getElem?_cons_succ] at he
          rw [ih j e he, Nat.add_assoc, Nat.add_comm 1]

/-- A batch is not empty, and no larger than the limit. -/
theorem take_sized (hlimit : 1 ≤ limit) (hne : texts ≠ []) :
    0 < (texts.take limit).length ∧ (texts.take limit).length ≤ limit := by
  have hpos := List.length_pos_of_ne_nil hne
  rw [List.length_take]
  omega

theorem Ran.sized (h : Ran limit send k texts exchanges result) (hlimit : 1 ≤ limit) :
    ∀ e ∈ exchanges, 0 < e.batch.length ∧ e.batch.length ≤ limit := by
  induction h with
  | done k => exact nofun
  | refused k texts failure hne hsend =>
      exact List.forall_mem_singleton.2 (take_sized hlimit hne)
  | miscounted k texts vectors failure hne hsend hcount =>
      exact List.forall_mem_singleton.2 (take_sized hlimit hne)
  | turn k texts vectors exchanges result hne hsend hcount hrest ih =>
      exact List.forall_mem_cons.2 ⟨take_sized hlimit hne, ih⟩

/-- The batches are the texts from the first on. -/
theorem Ran.inOrder (h : Ran limit send k texts exchanges result) :
    exchanges.flatMap (·.batch) <+: texts := by
  induction h with
  | done k => exact List.prefix_refl _
  | refused k texts failure hne hsend =>
      rw [List.flatMap_singleton]
      exact List.take_prefix _ _
  | miscounted k texts vectors failure hne hsend hcount =>
      rw [List.flatMap_singleton]
      exact List.take_prefix _ _
  | turn k texts vectors exchanges result hne hsend hcount hrest ih =>
      rw [List.flatMap_cons]
      have hsplit := (List.prefix_append_right_inj (texts.take limit)).2 ih
      rwa [List.take_append_drop] at hsplit

theorem Ran.whole (h : Ran limit send k texts exchanges result) :
    (∃ out, result = .ok out) ↔ ∀ e ∈ exchanges, e.counted = true := by
  induction h with
  | done k => exact ⟨fun _ => nofun, fun _ => ⟨_, rfl⟩⟩
  | refused k texts failure hne hsend =>
      refine ⟨nofun, fun hall => ?_⟩
      exact absurd (List.forall_mem_singleton.1 hall) Bool.false_ne_true
  | miscounted k texts vectors failure hne hsend hcount =>
      refine ⟨nofun, fun hall => ?_⟩
      have hcounted := List.forall_mem_singleton.1 hall
      exact absurd (of_decide_eq_true hcounted) hcount
  | turn k texts vectors exchanges result hne hsend hcount hrest ih =>
      rw [List.forall_mem_cons, ← ih]
      constructor
      · rintro ⟨out, hout⟩
        refine ⟨decide_eq_true hcount, ?_⟩
        cases result with
        | error failure => cases hout
        | ok out => exact ⟨out, rfl⟩
      · rintro ⟨-, out, rfl⟩
        exact ⟨_, rfl⟩

/-- A loop that goes through has sent all the texts. -/
theorem Ran.concatenated (h : Ran limit send k texts exchanges result) (hin : InOrder of send)
    (hout : result = .ok out) :
    exchanges.flatMap (·.batch) = texts ∧ out = exchanges.flatMap (·.vectors) ∧
      List.Forall₂ of texts out := by
  induction h generalizing out with
  | done k =>
      cases hout
      exact ⟨rfl, rfl, .nil⟩
  | refused k texts failure hne hsend => cases hout
  | miscounted k texts vectors failure hne hsend hcount => cases hout
  | turn k texts vectors exchanges result hne hsend hcount hrest ih =>
      cases result with
      | error failure => cases hout
      | ok later =>
          cases hout
          obtain ⟨hbatches, hvectors, hof⟩ := ih rfl
          refine ⟨?_, ?_, ?_⟩
          · rw [List.flatMap_cons, hbatches, List.take_append_drop]
          · rw [List.flatMap_cons, ← hvectors]
            rfl
          · have htogether : List.Forall₂ of (texts.take limit ++ texts.drop limit)
                (vectors ++ later) := List.rel_append (hin k _ vectors hsend hcount) hof
            rwa [List.take_append_drop] at htogether

-- ================================================================== the call

/-- The check at the end refuses nothing. -/
theorem embedInBatches_eq (hlimit : 1 ≤ limit) :
    ∃ result, Ran limit send 0 texts (embedInBatches texts limit send).exchanges result ∧
      (embedInBatches texts limit send).result = result := by
  rw [embedInBatches, if_neg (by omega)]
  split
  next hempty =>
    rw [List.eq_nil_of_length_eq_zero hempty]
    exact ⟨_, .done 0, rfl⟩
  next hsome =>
    obtain ⟨result, hran, hresult⟩ :=
      @loop_ran β texts limit texts.length 0 0 send [] hlimit (by omega)
    rw [List.drop_zero] at hran
    have hsame : result.map (([] : List β) ++ ·) = result := by
      cases result with
      | error failure => rfl
      | ok out => rfl
    rw [hsame] at hresult
    dsimp only
    split
    next failure hfailed => exact ⟨result, hran, hresult⟩
    next out hout =>
      have hany : InOrder (fun _ _ => True) send := fun k batch vectors _ hcount =>
        List.forall₂_iff_get.2 ⟨hcount.symm, fun _ _ _ => trivial⟩
      obtain ⟨-, -, hof⟩ := hran.concatenated hany (hresult.symm.trans hout)
      rw [if_neg (not_not.2 hof.length_eq.symm)]
      exact ⟨result, hran, hresult⟩

theorem embedInBatches_batched (hlimit : 1 ≤ limit) (hin : InOrder of send) :
    Batched of texts limit send (embedInBatches texts limit send) := by
  obtain ⟨result, hran, hresult⟩ := @embedInBatches_eq β texts limit send hlimit
  refine ⟨fun j e he => ?_, hran.sized hlimit, hran.inOrder, ?_, fun out hout => ?_⟩
  · rw [hran.asked j e he, Nat.zero_add]
  · rw [hresult]
    exact hran.whole
  · exact hran.concatenated hin (hresult.symm.trans hout)

end Nacre.Embedding
