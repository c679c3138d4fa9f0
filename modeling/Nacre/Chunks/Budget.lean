/-
What a text costs the embedder, and how much of it fits
(core/text/tokens.ts; worker/src/chunk.ts: `charactersWithinBudget`), and which refusal says that it
was too much (`refusedForLength`).

Costs are counted in half tokens, the unit of an ASCII character. The
ceiling is an integer, as core/config.ts reads it and as a retry halves it.

The walk takes the code points that fit, and one whatever it costs
(`charactersWithinBudget_fits`). It ends between code points, so it splits
no pair.
-/
import Nacre.Lib.Units

namespace Nacre.Chunks

open Units

-- ============================================================= the costs

/-- The half tokens of a code point. -/
def spend : List UInt16 → Nat
  | [u] => if u < 0x80 then 1 else if u < 0x800 then 4 else 6
  | _ => 8

/-- The half tokens of a text. -/
def cost (text : List UInt16) : Nat := weight spend text

/-- `Math.ceil(cost)`. -/
def estimateTokens (text : List UInt16) : Nat := (cost text + 1) / 2

def TOKEN_RESERVE : Nat := 4

def tokenBudget (maxTokens : Nat) : Except String Nat :=
  if maxTokens < 1 + TOKEN_RESERVE then
    .error s!"an embedding token ceiling of {maxTokens} leaves no room for input once {TOKEN_RESERVE} tokens are reserved for what the model wraps around it"
  else .ok (maxTokens - TOKEN_RESERVE)

/-- The walk over code points, `cost` half tokens spent. The first is taken
whatever it costs. -/
def walk (budget : Nat) : (cost : Nat) → (first : Bool) → List (List UInt16) → Nat
  | _, _, [] => 0
  | cost, first, c :: rest =>
      if 2 * budget < cost + spend c ∧ first = false then 0
      else c.length + walk budget (cost + spend c) false rest

def charactersWithinBudget (text : List UInt16) (start budget : Nat) : Nat :=
  max (walk budget 0 true (codePoints (text.drop start))) 1

-- ========================================================== the refusals

/-- ASCII case folded, as `/i` folds it for a pattern of ASCII. -/
def lower (u : UInt16) : UInt16 := if 0x41 ≤ u ∧ u ≤ 0x5A then u + 0x20 else u

def isAsciiDigit (u : UInt16) : Bool := 0x30 ≤ u && u ≤ 0x39

/-- `\d+` and then `after`. -/
def digitsThen (after text : List UInt16) : Bool :=
  let digits := text.takeWhile isAsciiDigit
  0 < digits.length && decide (after <+: text.drop digits.length)

/-- `too long`, `exceeds? (?:the )?maximum (?:input )?length`, `context length`. -/
def REFUSALS : List (List UInt16) :=
  Json.units "too long" :: Json.units "context length" ::
    ["exceed ", "exceeds "].flatMap fun verb =>
      ["", "the "].flatMap fun the =>
        ["maximum length", "maximum input length"].map fun rest => Json.units (verb ++ the ++ rest)

/-- Whether an error of an embedding endpoint says that a text was too long. -/
def refusedForLength (message : List UInt16) : Bool :=
  (message.map lower).tails.any fun text =>
    let lead := Json.units "must have less than "
    decide (lead <+: text) && digitsThen (Json.units " tokens") (text.drop lead.length)
      || REFUSALS.any fun refusal => decide (refusal <+: text)

variable {text s a b : List UInt16} {budget start k : Nat} {first : Bool}

-- ========================================================= the estimate

/-- Half a pair costs less than the pair. -/
theorem spend_half (u v : UInt16) : spend [u] ≤ spend [u, v] := by
  unfold spend
  repeat' split
  all_goals simp_all

theorem estimateTokens_le (h : cost s ≤ 2 * budget) : estimateTokens s ≤ budget := by
  unfold estimateTokens
  omega

-- ============================================================ the walk

/-- The walk takes the code points of a prefix. They fit, or they are the
one that is taken whatever it costs. -/
theorem walk_fits (budget spent : Nat) (first : Bool) (cs : List (List UInt16)) :
    ∃ taken left, cs = taken ++ left ∧ walk budget spent first cs = taken.flatten.length ∧
      (spent + (taken.map spend).sum ≤ 2 * budget ∨ taken = [] ∨
        first = true ∧ taken.length = 1) := by
  induction cs generalizing spent first with
  | nil => exact ⟨[], [], rfl, rfl, .inr (.inl rfl)⟩
  | cons c rest ih =>
      rw [walk]
      split
      next hover => exact ⟨[], c :: rest, rfl, rfl, .inr (.inl rfl)⟩
      next hfits =>
        obtain ⟨taken, left, rfl, hwalk, hcost⟩ := ih (spent + spend c) false
        refine ⟨c :: taken, left, rfl, by rw [hwalk, List.flatten_cons, List.length_append], ?_⟩
        simp only [List.map_cons, List.sum_cons, List.length_cons]
        rcases hcost with hcost | rfl | ⟨hfalse, -⟩
        · exact .inl (by omega)
        · by_cases hle : spent + spend c ≤ 2 * budget
          · exact .inl (by simpa using hle)
          · refine .inr (.inr ⟨?_, rfl⟩)
            by_contra hfirst
            exact hfits ⟨by omega, by simpa using hfirst⟩
        · cases hfalse

/-- A walk goes as far as the code points fit. -/
theorem walk_reaches (first : Bool) {spent : Nat} {taken : List (List UInt16)}
    (left : List (List UInt16)) (h : spent + (taken.map spend).sum ≤ 2 * budget) :
    taken.flatten.length ≤ walk budget spent first (taken ++ left) := by
  induction taken generalizing spent first with
  | nil => exact Nat.zero_le _
  | cons c taken ih =>
      rw [List.map_cons, List.sum_cons] at h
      rw [List.cons_append, walk, if_neg (by omega), List.flatten_cons, List.length_append]
      exact Nat.add_le_add_left (ih false (by omega)) _

/-- A prefix that ends between code points, and fits or is one. -/
structure Fits (budget : Nat) (s : List UInt16) (k : Nat) : Prop where
  pos : 0 < k
  le : k ≤ s.length
  whole : ¬ Splits (s.take k) (s.drop k)
  fits : cost (s.take k) ≤ 2 * budget ∨ (codePoints (s.take k)).length = 1

theorem walk_first (budget : Nat) (h : s ≠ []) :
    Fits budget s (walk budget 0 true (codePoints s)) := by
  obtain ⟨taken, left, hcs, hwalk, hcost⟩ := walk_fits budget 0 true (codePoints s)
  obtain ⟨hpoints, hsplit⟩ := codePoints_split hcs
  have hs : s = taken.flatten ++ left.flatten := by
    rw [← List.flatten_append, ← hcs, flatten_codePoints]
  have hne : taken ≠ [] := by
    rintro rfl
    -- The first code point is always taken.
    cases hfirst : codePoints s with
    | nil => exact h (by rw [← flatten_codePoints s, hfirst]; rfl)
    | cons c rest =>
        rw [hfirst, walk, if_neg (by simp)] at hwalk
        have hc : c ∈ codePoints s := by
          rw [hfirst]
          exact List.mem_cons_self
        rcases codePoints_cases hc with ⟨u, rfl⟩ | ⟨u, v, rfl, -⟩
        · simp at hwalk
        · simp at hwalk
  have htake : s.take taken.flatten.length = taken.flatten := by
    conv_lhs => rw [hs, List.take_left]
  have hdrop : s.drop taken.flatten.length = left.flatten := by
    conv_lhs => rw [hs, List.drop_left]
  rw [hwalk]
  constructor
  · have hflat : taken.flatten ≠ [] := by
      intro hnil
      rw [hnil] at hpoints
      exact hne hpoints.symm
    exact List.length_pos_iff.mpr hflat
  · rw [hs, List.length_append]
    exact Nat.le_add_right _ _
  · rw [htake, hdrop]
    exact hsplit
  · rw [htake, hpoints, cost, weight, hpoints]
    rcases hcost with hcost | hnil | ⟨-, hone⟩
    · exact .inl (by omega)
    · exact absurd hnil hne
    · exact .inr hone

theorem codePoints_pos (h : s ≠ []) : 0 < (codePoints s).length := by
  refine List.length_pos_iff.mpr fun hnil => h ?_
  rw [← flatten_codePoints s, hnil]
  rfl

/-- What a walk took is taken by a later one, that starts past white
space. -/
theorem walk_later {left mid rest : List UInt16}
    (hfits : Fits budget (left ++ (mid ++ rest)) (left ++ mid).length)
    (hleft : ∃ u, left.getLast? = some u ∧ isSpace u = true) (hmid : mid ≠ []) :
    mid.length ≤ walk budget 0 true (codePoints (mid ++ rest)) := by
  obtain ⟨u, hlast, hspace⟩ := hleft
  have htake : (left ++ (mid ++ rest)).take (left ++ mid).length = left ++ mid := by
    rw [← List.append_assoc, List.take_left]
  have hdrop : (left ++ (mid ++ rest)).drop (left ++ mid).length = rest := by
    rw [← List.append_assoc, List.drop_left]
  have hsplit : ¬ Splits left mid := by
    rintro ⟨w, hw, v, -, hpair⟩
    rw [hlast] at hw
    obtain rfl : u = w := Option.some.inj hw
    rw [isPair, (isHigh_of_isSpace hspace).1] at hpair
    cases hpair
  have hend : ¬ Splits mid rest := by
    have hwhole := hfits.whole
    rw [htake, hdrop] at hwhole
    rintro ⟨w, hw, v, hv, hpair⟩
    refine hwhole ⟨w, ?_, v, hv, hpair⟩
    rw [Option.mem_def] at hw ⊢
    rw [List.getLast?_append, hw]
    rfl
  have hcost : cost mid ≤ 2 * budget := by
    have hcases := hfits.fits
    rw [htake, cost, weight_append hsplit] at hcases
    rcases hcases with hcost | hone
    · exact (Nat.le_add_left _ _).trans hcost
    · -- Two parts are no single code point.
      have hne : left ≠ [] := by
        rintro rfl
        cases hlast
      have hl := codePoints_pos hne
      have hm := codePoints_pos hmid
      rw [codePoints_append hsplit, List.length_append] at hone
      omega
  have hsum : 0 + ((codePoints mid).map spend).sum ≤ 2 * budget := by
    rw [Nat.zero_add]
    exact hcost
  have hreach := walk_reaches true (codePoints rest) hsum
  rwa [flatten_codePoints, ← codePoints_append hend] at hreach

theorem charactersWithinBudget_fits (budget : Nat) (h : start < text.length) :
    Fits budget (text.drop start) (charactersWithinBudget text start budget) := by
  have hne : text.drop start ≠ [] := by
    intro hnil
    have hlen := List.drop_eq_nil_iff.mp hnil
    omega
  have hfits := walk_first budget hne
  have hpos := hfits.pos
  rw [charactersWithinBudget, max_eq_left hpos]
  exact hfits

end Nacre.Chunks
