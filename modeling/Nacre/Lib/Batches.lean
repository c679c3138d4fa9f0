/-
Sending a list in batches of a fixed size, one after the other, and
putting the answers together.

A batch that is refused, or answered with another number of values, ends
the run. `loop_batches` says where each batch's values are in what is put
together, and `loop_ends` that nothing else stops the run.
-/
import Mathlib.Data.List.Basic

namespace Batches

variable {α β : Type*}

/-- The `j`-th batch. -/
def batch (size : Nat) (items : List α) (j : Nat) : List α := (items.drop (j * size)).take size

/-- The batches from the `k`-th on; `items` is what is left, and there are at
most `fuel` batches of it. -/
def loop (size : Nat) (send : Nat → List α → Option (List β)) :
    Nat → Nat → List α → Option (List β)
  | _, _, [] => some []
  | 0, _, _ :: _ => none
  | fuel + 1, k, x :: items =>
      let first := (x :: items).take size
      match send k first with
      | none => none
      | some values =>
          if values.length ≠ first.length then none
          else (loop size send fuel (k + 1) ((x :: items).drop size)).map (values ++ ·)

variable {size fuel k : Nat} {send : Nat → List α → Option (List β)} {items : List α}
  {out : List β}

theorem loop_succ (hne : items ≠ []) :
    loop size send (fuel + 1) k items
      = match send k (items.take size) with
        | none => none
        | some values =>
            if values.length ≠ (items.take size).length then none
            else (loop size send fuel (k + 1) (items.drop size)).map (values ++ ·) := by
  cases items with
  | nil => exact absurd rfl hne
  | cons x items => rfl

theorem batch_zero : batch size items 0 = items.take size := by
  rw [batch, Nat.zero_mul, List.drop_zero]

theorem batch_succ (j : Nat) : batch size items (j + 1) = batch size (items.drop size) j := by
  rw [batch, batch, List.drop_drop, Nat.succ_mul, Nat.add_comm size]

/-- As many values as items, and each batch's where the batch was. -/
theorem loop_batches (h : loop size send fuel k items = some out) :
    out.length = items.length ∧ ∀ j, j * size < items.length →
      ∃ values, send (k + j) (batch size items j) = some values ∧
        values.length = (batch size items j).length ∧ batch size out j = values := by
  induction fuel generalizing k items out with
  | zero =>
      cases items with
      | nil =>
          cases h
          exact ⟨rfl, nofun⟩
      | cons x items => cases h
  | succ fuel ih =>
      rcases eq_or_ne items [] with rfl | hne
      · cases h
        exact ⟨rfl, nofun⟩
      rw [loop_succ hne] at h
      cases hsend : send k (items.take size) with
      | none =>
          rw [hsend] at h
          cases h
      | some values =>
          rw [hsend] at h
          dsimp only at h
          split at h
          next => cases h
          next hcount =>
            rw [not_not] at hcount
            obtain ⟨rest, hrest, rfl⟩ := Option.map_eq_some_iff.1 h
            obtain ⟨hlength, hbatches⟩ := ih hrest
            rw [List.length_take] at hcount
            rw [List.length_drop] at hlength
            refine ⟨by rw [List.length_append]; omega, fun j hj => ?_⟩
            cases j with
            | zero =>
                refine ⟨values, by rwa [Nat.add_zero, batch_zero], ?_, ?_⟩
                · rw [batch_zero, List.length_take, hcount]
                · rw [batch_zero, List.take_append]
                  rcases Nat.lt_or_ge items.length size with hshort | hfull
                  · rw [List.eq_nil_of_length_eq_zero (by omega : rest.length = 0), List.take_nil,
                      List.append_nil, List.take_of_length_le (by omega)]
                  · rw [List.take_of_length_le (by omega),
                      show size - values.length = 0 by omega, List.take_zero, List.append_nil]
            | succ j =>
                have hfull : size ≤ items.length := by
                  rw [Nat.succ_mul] at hj
                  omega
                obtain ⟨more, hmore, hsame, hwhere⟩ := hbatches j (by
                  rw [List.length_drop]
                  rw [Nat.succ_mul] at hj
                  omega)
                refine ⟨more, ?_, ?_, ?_⟩
                · rw [batch_succ, ← hmore, Nat.add_assoc, Nat.add_comm 1]
                · rw [batch_succ, hsame]
                · rw [batch_succ, List.drop_append_of_le_length (by omega),
                    List.drop_of_length_le (by omega), List.nil_append, hwhere]

/-- The run ends when every batch is answered with as many values. -/
theorem loop_ends (hsize : 0 < size) (hfuel : items.length ≤ fuel)
    (hsend : ∀ j, j * size < items.length → ∃ values,
      send (k + j) (batch size items j) = some values ∧
        values.length = (batch size items j).length) :
    ∃ out, loop size send fuel k items = some out := by
  induction fuel generalizing k items with
  | zero =>
      obtain rfl : items = [] := List.eq_nil_of_length_eq_zero (by omega)
      exact ⟨[], rfl⟩
  | succ fuel ih =>
      rcases eq_or_ne items [] with rfl | hne
      · exact ⟨[], rfl⟩
      have hpos : 0 < items.length := List.length_pos_of_ne_nil hne
      obtain ⟨values, hfirst, hcount⟩ := hsend 0 (by omega)
      rw [Nat.add_zero, batch_zero] at hfirst
      rw [batch_zero] at hcount
      have hrest : ∃ rest, loop size send fuel (k + 1) (items.drop size) = some rest := by
        refine ih (by rw [List.length_drop]; omega) fun j hj => ?_
        rw [List.length_drop] at hj
        have hnext := hsend (j + 1) (by rw [Nat.succ_mul]; omega)
        rwa [batch_succ, ← Nat.add_assoc, Nat.add_right_comm] at hnext
      obtain ⟨rest, hrest⟩ := hrest
      rw [loop_succ hne, hfirst]
      dsimp only
      rw [if_neg (not_not.2 hcount), hrest]
      exact ⟨_, rfl⟩

end Batches
