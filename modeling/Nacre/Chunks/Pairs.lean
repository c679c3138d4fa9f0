/-
Whether a chunk holds half of a surrogate pair.

A text is well-formed on both sides of a cut unless the cut splits a pair.
A window's end past a separator splits none, nor does a start past white
space; the budget's walk ends between code points. What is left is the cut
at the size itself, where no separator is in reach (`CutsPair`):
`chunks_well_formed_iff`.
-/
import Nacre.Chunks.Covered

namespace Nacre.Chunks

open Units

variable {text : List UInt16} {config : ChunkConfig} {budget : Option Nat}
  {start end_ limit p : Nat} {ws : List Window}

-- ============================================================ what is asked

/-- A cut here is between the halves of a pair. -/
def SplitsAt (text : List UInt16) (p : Nat) : Prop := Splits (text.take p) (text.drop p)

/-- No separator is in reach, the text goes on, and the reach ends between
the halves of a pair. -/
def CutsPair (text : List UInt16) (config : ChunkConfig) (budget : Option Nat) (w : Window) :
    Prop :=
  w.start + windowSize text config budget w.start < text.length ∧
    (∀ s ∈ SEPARATORS, ∀ p,
      ¬ Ends text s w.start (w.start + windowSize text config budget w.start) p) ∧
    SplitsAt text (w.start + windowSize text config budget w.start)

-- ================================================================ the cuts

/-- A unit of white space before a cut. -/
theorem whole_of_space {u : UInt16} (hp : 0 < p) (hu : text[p - 1]? = some u)
    (hspace : isSpace u = true) : ¬ SplitsAt text p := by
  refine not_splits_of_last (u := u) ?_ (isHigh_of_isSpace hspace).1
  obtain ⟨hlt, -⟩ := List.getElem?_eq_some_iff.mp hu
  rw [List.getLast?_eq_getElem?, List.length_take, Nat.min_eq_left (by omega),
    List.getElem?_take_of_lt (by omega), hu]

theorem separator_last {s : List UInt16} (h : s ∈ SEPARATORS) :
    ∃ u, s.getLast? = some u ∧ isSpace u = true := by
  have hall : ∀ s ∈ SEPARATORS, s.getLast?.any isSpace = true := by decide
  obtain ⟨u, hu, hspace⟩ := (Option.any_eq_true _ _).mp (hall s h)
  exact ⟨u, hu, hspace⟩

/-- A cut past a separator splits nothing. -/
theorem whole_of_ends {s : List UInt16} (hs : s ∈ SEPARATORS) (h : Ends text s start limit p) :
    ¬ SplitsAt text p := by
  obtain ⟨cut, hat, -, rfl, -⟩ := h
  obtain ⟨u, hu, hspace⟩ := separator_last hs
  refine not_splits_of_last (u := u) ?_ (isHigh_of_isSpace hspace).1
  rw [List.take_add, hat.take, List.getLast?_append, hu]
  rfl

/-- A window's end splits a pair exactly where it is cut at its size, in
one. -/
theorem end_splits_iff (start : Nat) :
    SplitsAt text (windowEnd text config budget start) ↔
      CutsPair text config budget ⟨start, windowEnd text config budget start⟩ := by
  unfold CutsPair windowEnd
  dsimp only
  obtain ⟨hle, heq⟩ | ⟨hlt, hcut⟩ :=
    boundaryBefore_cases text start (windowSize text config budget start)
  · constructor
    · intro hsplits
      rw [heq, SplitsAt, List.drop_length] at hsplits
      exact absurd hsplits not_splits_nil_right
    · rintro ⟨hlt, -⟩
      omega
  · generalize hq : boundaryBefore text start (windowSize text config budget start) = q at hcut ⊢
    generalize hseps : SEPARATORS = separators at hcut
    cases hcut with
    | limit _ hnone => exact ⟨fun hsplits => ⟨hlt, hseps ▸ hnone, hsplits⟩, fun h => h.2.2⟩
    | past before after s q hnone hends hlast =>
        have hmem : s ∈ SEPARATORS := by
          rw [hseps]
          simp
        exact ⟨fun hsplits => absurd hsplits (whole_of_ends hmem hends),
          fun h => absurd hends (h.2.1 s (by simp) q)⟩

/-- The next window starts where this one ends, or past white space. -/
theorem next_whole (overlap : Nat) (hlt : start < end_) (hle : end_ ≤ text.length)
    (hend : ¬ SplitsAt text end_) : ¬ SplitsAt text (overlapStart text start end_ overlap) := by
  obtain ⟨hpast, -, heq | ⟨-, u, hu, hspace⟩⟩ := next_lt overlap hlt hle
  · rw [heq]
    exact hend
  · exact whole_of_space (by omega) hu hspace

-- ============================================================= the windows

theorem splits_slice {w : Window} (hlt : w.start < w.end_) (hle : w.end_ ≤ text.length) :
    Splits (slice text w.start w.end_) (text.drop w.end_) ↔ SplitsAt text w.end_ := by
  have hlast : (slice text w.start w.end_).getLast? = (text.take w.end_).getLast? := by
    rw [slice, List.getLast?_drop, if_neg]
    rw [List.length_take]
    omega
  rw [SplitsAt, Splits, Splits, hlast]

/-- A window of a well-formed text that starts in no pair. -/
theorem slice_wellFormed_iff {w : Window} (htext : isWellFormed text = true)
    (hlt : w.start < w.end_) (hle : w.end_ ≤ text.length) (hstart : ¬ SplitsAt text w.start) :
    isWellFormed (slice text w.start w.end_) = true ↔ ¬ SplitsAt text w.end_ := by
  have hright : isWellFormed (text.drop w.start) = true := by
    rw [← List.take_append_drop w.start text] at htext
    exact (isWellFormed_right htext).mpr hstart
  rw [drop_slice hlt.le hle] at hright
  rw [isWellFormed_left hright, splits_slice hlt hle]

/-- Half a pair at the end of a window is kept. -/
theorem body_of_splits {w : Window} (hlt : w.start < w.end_) (hle : w.end_ ≤ text.length)
    (hend : SplitsAt text w.end_) : isWellFormed (body text w) = false := by
  obtain ⟨u, hu, v, -, hpair⟩ := (splits_slice hlt hle).mpr hend
  obtain ⟨a, ha⟩ := List.getLast?_eq_some_iff.mp hu
  rw [body, isWellFormed_trim, ha]
  exact not_isWellFormed_concat (Bool.and_eq_true_iff.mp hpair).1

theorem Run.starts_whole (hsize : 0 < config.size) (h : Run text config budget start ws)
    (hlen : start < text.length) (hstart : ¬ SplitsAt text start)
    (hends : ∀ w ∈ ws, ¬ SplitsAt text w.end_) : ∀ w ∈ ws, ¬ SplitsAt text w.start := by
  induction h with
  | last start hend =>
      intro w hw
      obtain rfl := List.mem_singleton.mp hw
      exact hstart
  | turn start rest hend hrest ih =>
      obtain ⟨hlt, -, hle⟩ := end_lt budget hsize hlen
      obtain ⟨hnext, hnextle, -⟩ := next_lt config.overlap hlt hle
      obtain ⟨hend', hends⟩ := List.forall_mem_cons.mp hends
      exact List.forall_mem_cons.mpr
        ⟨hstart, ih (by omega) (next_whole config.overlap hlt hle hend') hends⟩

/-- Every window keeps a well-formed text exactly where none is cut in a
pair. -/
theorem Run.wellFormed_iff (hsize : 0 < config.size) (htext : isWellFormed text = true)
    (h : Run text config budget 0 ws) (hlen : 0 < text.length) :
    (∀ w ∈ kept text ws, isWellFormed (body text w) = true) ↔
      ∀ w ∈ ws, ¬ CutsPair text config budget w := by
  have hcut := h.cut hsize hlen
  have hbounds : ∀ w ∈ ws, w.start < w.end_ ∧ w.end_ ≤ text.length := by
    intro w hw
    obtain ⟨hlt, -, hle⟩ := end_lt budget hsize (hcut w hw).start
    rw [← (hcut w hw).end_] at hlt hle
    exact ⟨hlt, hle⟩
  have hends : ∀ w ∈ ws, SplitsAt text w.end_ ↔ CutsPair text config budget w := by
    intro w hw
    rw [show w = ⟨w.start, windowEnd text config budget w.start⟩ from
      (congrArg (Window.mk w.start) (hcut w hw).end_)]
    exact end_splits_iff w.start
  constructor
  · intro hall w hw hpair
    obtain ⟨hlt, hle⟩ := hbounds w hw
    have hbad := body_of_splits hlt hle ((hends w hw).mpr hpair)
    have hkept : w ∈ kept text ws := by
      refine List.mem_filter.mpr ⟨hw, decide_eq_true fun hnil => ?_⟩
      rw [hnil] at hbad
      cases hbad
    rw [hall w hkept] at hbad
    cases hbad
  · intro hnone w hw
    obtain ⟨hw, -⟩ := List.mem_filter.mp hw
    obtain ⟨hlt, hle⟩ := hbounds w hw
    have hstarts := h.starts_whole hsize hlen not_splits_nil_left
      fun w hw hsplits => hnone w hw ((hends w hw).mp hsplits)
    rw [body, isWellFormed_trim, slice_wellFormed_iff htext hlt hle (hstarts w hw)]
    exact fun hsplits => hnone w hw ((hends w hw).mp hsplits)

theorem normalize_wellFormed (h : isWellFormed text = true) :
    isWellFormed (normalize text) = true := by
  rw [normalize, isWellFormed_trim, isWellFormed_replacePair (by decide) (by decide) (by decide)]
  exact h

/-- The chunks of a well-formed text are well-formed, exactly where no
window is cut at its size between the halves of a pair. -/
theorem chunks_well_formed_iff {chunks : List Chunk} (htext : isWellFormed text = true)
    (h : chunk text config = some (.ok chunks)) :
    (∀ c ∈ chunks, isWellFormed c.text = true) ↔
      ∀ budget, budgetOf config = .ok budget →
        ∀ w ∈ windowsOf text config, ¬ CutsPair (normalize text) config budget w := by
  obtain ⟨hsize, ⟨hnil, rfl⟩ | ⟨hne, budget, hbudget, hrun, rfl⟩⟩ :=
    chunkWithin_ok (Nat.lt_succ_self _) h
  · refine ⟨fun _ _ _ w _ hpair => ?_, fun _ => nofun⟩
    obtain ⟨hlt, -⟩ := hpair
    rw [hnil] at hlt
    exact absurd hlt (Nat.not_lt_zero _)
  · have hpos : 0 < config.size := by omega
    have hlen : 0 < (normalize text).length := List.length_pos_iff.mpr hne
    have hiff := hrun.wellFormed_iff hpos (normalize_wellFormed htext) hlen
    have hchunks : (∀ c ∈ numbered 0 ((kept (normalize text) (windowsOf text config)).map
        (body (normalize text))), isWellFormed c.text = true) ↔
        ∀ w ∈ kept (normalize text) (windowsOf text config),
          isWellFormed (body (normalize text) w) = true := by
      rw [← List.forall_mem_map (f := body (normalize text)) (P := fun t => isWellFormed t = true),
        ← texts_numbered 0 ((kept (normalize text) (windowsOf text config)).map
          (body (normalize text))), List.forall_mem_map, texts_numbered]
    rw [hchunks, hiff]
    constructor
    · intro hnone budget' hbudget'
      obtain rfl : budget = budget' := Except.ok.inj (hbudget.symm.trans hbudget')
      exact hnone
    · intro hall
      exact hall budget hbudget

-- ============================================================ a split pair

def twoEmoji : List UInt16 := [0xD83D, 0xDE00, 0xD83D, 0xDE00]

/-- Two characters of two units, cut after three. -/
theorem chunk_splits_pair :
    isWellFormed twoEmoji = true ∧
    chunk twoEmoji ⟨3, 0, none⟩
      = some (.ok [⟨0, [0xD83D, 0xDE00, 0xD83D]⟩, ⟨1, [0xDE00]⟩]) ∧
    isWellFormed [0xD83D, 0xDE00, 0xD83D] = false := by
  decide +kernel

/-- Cut after two, each is whole. -/
theorem chunks_well_formed_iff_even :
    (∀ c ∈ [(⟨0, [0xD83D, 0xDE00]⟩ : Chunk), ⟨1, [0xD83D, 0xDE00]⟩],
        isWellFormed c.text = true) ↔
      ∀ budget, budgetOf ⟨2, 0, none⟩ = .ok budget →
        ∀ w ∈ windowsOf twoEmoji ⟨2, 0, none⟩,
          ¬ CutsPair (normalize twoEmoji) ⟨2, 0, none⟩ budget w :=
  chunks_well_formed_iff (by decide +kernel) (by decide +kernel)

end Nacre.Chunks
