/-
Chunking loses nothing.

The windows overlap or meet, from the first unit to the last, so what is
not white space is in a window; and what is trimmed of a window is white
space. A chunk is what a window keeps: it is no longer than the window, and
costs no more.
-/
import Nacre.Chunks.Windows

namespace Nacre.Chunks

open Units

variable {text : List UInt16} {config : ChunkConfig} {budget : Option Nat} {start : Nat}
  {ws : List Window}

-- ============================================================ the windows

/-- How a window and the next one stand to each other. -/
def Follows (w w' : Window) : Prop := w.start < w'.start ∧ w'.start ≤ w.end_

/-- A window of the text, where the loop cuts it. -/
structure Cut (text : List UInt16) (config : ChunkConfig) (budget : Option Nat) (w : Window) :
    Prop where
  start : w.start < text.length
  end_ : w.end_ = windowEnd text config budget w.start

theorem Run.head (h : Run text config budget start ws) :
    ∃ rest, ws = ⟨start, windowEnd text config budget start⟩ :: rest := by
  cases h with
  | last hend => exact ⟨_, rfl⟩
  | turn rest hend hrest => exact ⟨_, rfl⟩

theorem Run.cut (hsize : 0 < config.size) (h : Run text config budget start ws)
    (hstart : start < text.length) : ∀ w ∈ ws, Cut text config budget w := by
  induction h with
  | last start hend =>
      intro w hw
      obtain rfl := List.mem_singleton.mp hw
      exact ⟨hstart, rfl⟩
  | turn start rest hend hrest ih =>
      obtain ⟨hlt, -, hle⟩ := end_lt budget hsize hstart
      obtain ⟨hnext, hnextle, -⟩ := next_lt config.overlap hlt hle
      intro w hw
      rcases List.mem_cons.mp hw with rfl | hw
      · exact ⟨hstart, rfl⟩
      · exact ih (by omega) w hw

theorem Run.follows (hsize : 0 < config.size) (h : Run text config budget start ws)
    (hstart : start < text.length) : ws.IsChain Follows := by
  induction h with
  | last start hend => exact .singleton _
  | turn start rest hend hrest ih =>
      obtain ⟨hlt, -, hle⟩ := end_lt budget hsize hstart
      obtain ⟨hnext, hnextle, -⟩ := next_lt config.overlap hlt hle
      obtain ⟨rest', rfl⟩ := hrest.head
      exact .cons_cons ⟨hnext, hnextle⟩ (ih (by omega))

/-- Every unit from the start on is in a window. -/
theorem Run.covers (hsize : 0 < config.size) (h : Run text config budget start ws)
    (hstart : start < text.length) {i : Nat} (hi : start ≤ i) (hlen : i < text.length) :
    ∃ w ∈ ws, w.start ≤ i ∧ i < w.end_ := by
  induction h with
  | last start hend =>
      refine ⟨_, List.mem_singleton_self _, hi, ?_⟩
      rw [hend]
      exact hlen
  | turn start rest hend hrest ih =>
      obtain ⟨hlt, -, hle⟩ := end_lt budget hsize hstart
      obtain ⟨hnext, hnextle, -⟩ := next_lt config.overlap hlt hle
      by_cases hin : i < windowEnd text config budget start
      · exact ⟨_, List.mem_cons_self, hi, hin⟩
      · obtain ⟨w, hw, hwi⟩ := ih (by omega) (by omega)
        exact ⟨w, List.mem_cons_of_mem _ hw, hwi⟩

-- ============================================================= the chunks

theorem texts_numbered (ordinal : Nat) (texts : List (List UInt16)) :
    (numbered ordinal texts).map (·.text) = texts := by
  induction texts generalizing ordinal with
  | nil => rfl
  | cons text rest ih => rw [numbered, List.map_cons, ih]

theorem ordinals_numbered (ordinal : Nat) (texts : List (List UInt16)) :
    (numbered ordinal texts).map (·.ordinal) = List.range' ordinal texts.length := by
  induction texts generalizing ordinal with
  | nil => rfl
  | cons text rest ih => rw [numbered, List.map_cons, ih, List.length_cons, List.range'_succ]

/-- A slice is what the text has there. -/
theorem drop_slice {w : Window} (hle : w.start ≤ w.end_) (hend : w.end_ ≤ text.length) :
    text.drop w.start = slice text w.start w.end_ ++ text.drop w.end_ := by
  have hlen : w.start ≤ (text.take w.end_).length := by
    rw [List.length_take]
    omega
  calc text.drop w.start
      = (text.take w.end_ ++ text.drop w.end_).drop w.start := by rw [List.take_append_drop]
    _ = slice text w.start w.end_ ++ text.drop w.end_ := List.drop_append_of_le_length hlen

/-- Where a part of a window stands in the text. -/
theorem at_slice {w : Window} (hle : w.start ≤ w.end_) (hend : w.end_ ≤ text.length)
    {left mid right : List UInt16} (h : slice text w.start w.end_ = left ++ (mid ++ right)) :
    Find.At mid text (w.start + left.length) := by
  rw [Find.At, ← List.drop_drop, drop_slice hle hend, h, List.append_assoc, List.drop_left,
    List.append_assoc]
  exact List.prefix_append _ _

theorem slice_eq_take (w : Window) :
    slice text w.start w.end_ = (text.drop w.start).take (w.end_ - w.start) :=
  List.drop_take

/-- What a window keeps of more than one code point is within the budget. -/
theorem body_cost {b : Nat} (hsize : 0 < config.size) {w : Window}
    (hw : Cut text config (some b) w) (hlong : 1 < (codePoints (body text w)).length) :
    cost (body text w) ≤ 2 * b := by
  obtain ⟨hlt, hle, -⟩ := end_lt (some b) hsize hw.start
  have hfits := charactersWithinBudget_fits b hw.start
  have hshort : w.end_ - w.start ≤ charactersWithinBudget text w.start b := by
    have hmin : windowSize text config (some b) w.start
        ≤ charactersWithinBudget text w.start b := min_le_right _ _
    rw [hw.end_]
    omega
  -- The window is cut from what the walk took.
  have hslice : slice text w.start w.end_
      = ((text.drop w.start).take (charactersWithinBudget text w.start b)).take
          (w.end_ - w.start) := by
    rw [slice_eq_take, List.take_take, Nat.min_eq_left hshort]
  have hweight : ∀ f, (∀ u v, isPair u v = true → f [u] ≤ f [u, v]) →
      weight f (body text w)
        ≤ weight f ((text.drop w.start).take (charactersWithinBudget text w.start b)) := by
    intro f hf
    refine (weight_trim_le _).trans ?_
    rw [hslice]
    exact weight_take_le hf _ _
  rcases hfits.fits with hcost | hone
  · exact (hweight spend fun u v _ => spend_half u v).trans hcost
  · have hcount := hweight (fun _ => 1) fun _ _ _ => le_refl 1
    rw [← length_codePoints, ← length_codePoints, hone] at hcount
    omega

/-- What `chunk` gives back of a text. -/
structure Covered (text : List UInt16) (config : ChunkConfig) (chunks : List Chunk) : Prop where
  /-- Each is a trimmed piece of the text, no longer than the size. -/
  pieces : ∀ c ∈ chunks, c.text ≠ [] ∧ c.text <:+: normalize text ∧ Trimmed c.text ∧
    c.text.length ≤ config.size
  /-- They are what the windows keep. -/
  windows : chunks.map (·.text)
    = (kept (normalize text) (windowsOf text config)).map (body (normalize text))
  /-- The starts increase, and none is past the end of the one before. -/
  follows : (windowsOf text config).IsChain Follows
  /-- What is no white space is in a chunk. -/
  covers : ∀ i u, (normalize text)[i]? = some u → isSpace u = false →
    ∃ c ∈ chunks, ∃ p, Find.At c.text (normalize text) p ∧ p ≤ i ∧ i < p + c.text.length
  ordinals : chunks.map (·.ordinal) = List.range chunks.length
  /-- More than one code point is within the budget. -/
  budget : ∀ c ∈ chunks, 1 < (codePoints c.text).length → ∀ maxTokens budget,
    config.maxTokens = some maxTokens → tokenBudget maxTokens = .ok budget →
    estimateTokens c.text ≤ budget

theorem covered_nil (hnil : normalize text = []) : Covered text config [] := by
  have hwindows : windowsOf text config = [] := by
    unfold windowsOf windows
    rw [hnil]
    split <;> rfl
  constructor
  · exact nofun
  · rw [hwindows]
    rfl
  · rw [hwindows]
    exact .nil
  · intro i u hi
    rw [hnil] at hi
    cases hi
  · rfl
  · exact nofun

/-- A window of the text, and what it keeps. -/
theorem piece {w : Window} (hsize : 0 < config.size) (hw : Cut text config budget w) :
    body text w <:+: text ∧ Trimmed (body text w) ∧ (body text w).length ≤ config.size := by
  obtain ⟨hlt, hle, hend⟩ := end_lt budget hsize hw.start
  rw [← hw.end_] at hlt hle hend
  obtain ⟨left, right, hslice, -, -⟩ := trim_split (slice text w.start w.end_)
  refine ⟨?_, trimmed_trim _, ?_⟩
  · have hat := at_slice hlt.le hend hslice
    exact hat.isInfix.trans (List.drop_suffix _ _).isInfix
  · have hlen : (body text w).length ≤ (slice text w.start w.end_).length := by
      rw [congrArg List.length hslice, List.length_append, List.length_append]
      exact (Nat.le_add_right _ _).trans (Nat.le_add_left _ _)
    rw [slice_length hend] at hlen
    have hsizes := windowSize_le text config budget w.start
    omega

theorem covered_of_run (hsize : 0 < config.size) (hne : normalize text ≠ [])
    (hbudget : budgetOf config = .ok budget)
    (hrun : Run (normalize text) config budget 0 (windowsOf text config)) :
    Covered text config (numbered 0
      ((kept (normalize text) (windowsOf text config)).map (body (normalize text)))) := by
  have hstart : 0 < (normalize text).length := List.length_pos_iff.mpr hne
  have hcut := hrun.cut hsize hstart
  have htexts := texts_numbered 0
    ((kept (normalize text) (windowsOf text config)).map (body (normalize text)))
  -- A chunk's text is what a window keeps.
  have hfrom : ∀ c ∈ numbered 0
      ((kept (normalize text) (windowsOf text config)).map (body (normalize text))),
      ∃ w ∈ windowsOf text config, c.text = body (normalize text) w ∧ c.text ≠ [] := by
    intro c hc
    have hmem := List.mem_map_of_mem (f := Chunk.text) hc
    rw [htexts] at hmem
    obtain ⟨w, hw, heq⟩ := List.mem_map.mp hmem
    obtain ⟨hw, hbody⟩ := List.mem_filter.mp hw
    exact ⟨w, hw, heq.symm, heq ▸ of_decide_eq_true hbody⟩
  constructor
  · intro c hc
    obtain ⟨w, hw, heq, hnil⟩ := hfrom c hc
    rw [heq] at hnil ⊢
    exact ⟨hnil, piece hsize (hcut w hw)⟩
  · exact htexts
  · exact hrun.follows hsize hstart
  · intro i u hi hu
    obtain ⟨hlen, -⟩ := List.getElem?_eq_some_iff.mp hi
    obtain ⟨w, hw, hle, hlt⟩ := hrun.covers hsize hstart (Nat.zero_le i) hlen
    obtain ⟨hwlt, -, hend⟩ := end_lt budget hsize (hcut w hw).start
    rw [← (hcut w hw).end_] at hwlt hend
    have hget : (slice (normalize text) w.start w.end_)[i - w.start]? = some u := by
      rw [slice_getElem? (by omega), Nat.add_sub_cancel' hle, hi]
    obtain ⟨left, right, hslice, hleft, hright⟩ := trim_covers hget hu
    have hbody : body (normalize text) w ≠ [] := by
      intro hnil
      rw [show trim (slice (normalize text) w.start w.end_) = [] from hnil] at hright
      simp at hright
      omega
    have hkept : w ∈ kept (normalize text) (windowsOf text config) :=
      List.mem_filter.mpr ⟨hw, decide_eq_true hbody⟩
    have hmem : body (normalize text) w ∈ (numbered 0
        ((kept (normalize text) (windowsOf text config)).map (body (normalize text)))).map
          (·.text) := by
      rw [htexts]
      exact List.mem_map_of_mem hkept
    obtain ⟨c, hc, heq⟩ := List.mem_map.mp hmem
    have heq : c.text = body (normalize text) w := heq
    refine ⟨c, hc, w.start + left.length, ?_, by omega, ?_⟩
    · rw [heq]
      exact at_slice hwlt.le hend hslice
    · rw [heq]
      show i < w.start + left.length + (trim _).length
      omega
  · have hlen := congrArg List.length htexts
    rw [List.length_map] at hlen
    rw [ordinals_numbered, List.range_eq_range', hlen]
  · intro c hc hlong maxTokens b hmax hb
    obtain ⟨w, hw, heq, -⟩ := hfrom c hc
    have hsome : budget = some b := by
      unfold budgetOf at hbudget
      simp only [hmax, hb] at hbudget
      exact (Except.ok.inj hbudget).symm
    subst hsome
    rw [heq] at hlong ⊢
    exact estimateTokens_le (body_cost hsize (hcut w hw) hlong)

end Nacre.Chunks
