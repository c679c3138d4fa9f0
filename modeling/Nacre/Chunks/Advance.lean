/-
Whether each chunk reaches past the one before.

A window's end never moves back (`end_le_next`): what cut the first window
still cuts the second, or something of a larger kind does, past it. It may
stay where it is. The next window starts in the overlap and is cut past the
last separator of the largest kind in its reach; where that is the separator
the first window ended on, the overlap is a chunk of its own, twice
(`chunk_repeats`).

`Passes` says of the text when it is not. `chunks_advance_iff`: the ends of
the chunks' windows increase exactly where every window passes whose
overlap holds more than white space.
-/
import Nacre.Chunks.Covered

namespace Nacre.Chunks

open Units

variable {text : List UInt16} {config : ChunkConfig} {budget : Option Nat}
  {start limit end_ p : Nat} {ws : List Window}

-- ============================================================ what is asked

/-- Something cuts past `end_`: the text ends in reach, or a separator ends
past it and none of a larger kind is in reach, or none is at all and the
reach goes further. -/
def Passes (text : List UInt16) (start limit end_ : Nat) : Prop :=
  text.length ≤ limit ∨
    (∃ before s after, SEPARATORS = before ++ s :: after ∧
      (∀ s ∈ before, ∀ p, ¬ Ends text s start limit p) ∧
      ∃ p, Ends text s start limit p ∧ end_ < p) ∨
    ((∀ s ∈ SEPARATORS, ∀ p, ¬ Ends text s start limit p) ∧ end_ < limit)

/-- The next window's start. -/
def nextStart (text : List UInt16) (config : ChunkConfig) (w : Window) : Nat :=
  overlapStart text w.start w.end_ config.overlap

/-- The overlap of a window with the next is white space, or the next one
passes its end. -/
def Advances (text : List UInt16) (config : ChunkConfig) (budget : Option Nat) (w : Window) :
    Prop :=
  w.end_ < text.length → trim (slice text (nextStart text config w) w.end_) ≠ [] →
    Passes text (nextStart text config w)
      (nextStart text config w + windowSize text config budget (nextStart text config w)) w.end_

-- ============================================================= two windows

/-- The first that occurs is one. -/
theorem first_eq {α : Type*} {b b' a a' : List α} {s s' : α} (h : b ++ s :: a = b' ++ s' :: a')
    (hs : s ∉ b') (hs' : s' ∉ b) : s = s' := by
  induction b generalizing b' with
  | nil =>
      cases b' with
      | nil => exact (List.cons.inj h).1
      | cons x b' => exact absurd ((List.cons.inj h).1 ▸ List.mem_cons_self) hs
  | cons x b ih =>
      cases b' with
      | nil => exact absurd ((List.cons.inj h).1 ▸ List.mem_cons_self) hs'
      | cons y b' =>
          exact ih (List.cons.inj h).2 (fun hmem => hs (List.mem_cons_of_mem _ hmem))
            (fun hmem => hs' (List.mem_cons_of_mem _ hmem))

theorem passes_iff (hend : end_ < text.length) (size : Nat) :
    end_ < boundaryBefore text start size ↔ Passes text start (start + size) end_ := by
  obtain ⟨hle, heq⟩ | ⟨hlt, hcut⟩ := boundaryBefore_cases text start size
  · rw [heq]
    exact ⟨fun _ => .inl hle, fun _ => hend⟩
  · generalize boundaryBefore text start size = q at hcut ⊢
    generalize hseps : SEPARATORS = separators at hcut
    cases hcut with
    | limit _ hnone =>
        constructor
        · intro hpast
          exact .inr (.inr ⟨by rw [hseps]; exact hnone, hpast⟩)
        · rintro (hle | ⟨before, s, after, hsplit, -, p, hends, -⟩ | ⟨-, hpast⟩)
          · omega
          · refine absurd hends (hnone s ?_ p)
            rw [← hseps, hsplit]
            simp
          · exact hpast
    | past before after s q hnone hends hlast =>
        constructor
        · intro hpast
          exact .inr (.inl ⟨before, s, after, hseps, hnone, q, hends, hpast⟩)
        · rintro (hle | ⟨before', s', after', hsplit, hnone', p, hends', hpast⟩ | ⟨hnone', -⟩)
          · omega
          · have hsame : s = s' := first_eq (hseps.symm.trans hsplit)
              (fun hmem => hnone' s hmem q hends) (fun hmem => hnone s' hmem p hends')
            subst hsame
            exact Nat.lt_of_lt_of_le hpast (hlast p hends')
          · refine absurd hends (hnone' s ?_ q)
            rw [hseps]
            simp

/-- What fits in the budget from one start fits from a later one, past
white space. -/
theorem budget_reaches {b next : Nat} {u : UInt16} (hstart : start < text.length)
    (hnext : start < next) (hlt : next < start + charactersWithinBudget text start b)
    (hu : text[next - 1]? = some u) (hspace : isSpace u = true) :
    start + charactersWithinBudget text start b
      ≤ next + charactersWithinBudget text next b := by
  have hfits := charactersWithinBudget_fits b hstart
  generalize hstop : start + charactersWithinBudget text start b = stop at hlt ⊢
  have hle := hfits.le
  rw [List.length_drop] at hle
  have hleft : text.drop start = slice text start next ++ text.drop next :=
    drop_slice (w := ⟨start, next⟩) hnext.le (show next ≤ text.length by omega)
  have hmid : text.drop next = slice text next stop ++ text.drop stop :=
    drop_slice (w := ⟨next, stop⟩) hlt.le (show stop ≤ text.length by omega)
  have hleftlen : (slice text start next).length = next - start := slice_length (by omega)
  have hmidlen : (slice text next stop).length = stop - next := slice_length (by omega)
  rw [hleft, hmid, show charactersWithinBudget text start b
    = (slice text start next ++ slice text next stop).length by
      rw [List.length_append, hleftlen, hmidlen]; omega] at hfits
  have hlast : (slice text start next).getLast? = some u := by
    rw [List.getLast?_eq_getElem?, hleftlen, slice_getElem? (by omega), ← hu]
    congr 1
    omega
  have hne : slice text next stop ≠ [] := by
    refine List.length_pos_iff.mp ?_
    omega
  have hwalk := walk_later hfits ⟨u, hlast, hspace⟩ hne
  rw [← hmid, hmidlen] at hwalk
  unfold charactersWithinBudget
  omega

/-- The next window reaches this one's end. -/
theorem reach_next (hsize : 0 < config.size) (hstart : start < text.length)
    (hnext : overlapStart text start (windowEnd text config budget start) config.overlap
      < windowEnd text config budget start) :
    windowEnd text config budget start
      ≤ overlapStart text start (windowEnd text config budget start) config.overlap
        + windowSize text config budget
            (overlapStart text start (windowEnd text config budget start) config.overlap) := by
  obtain ⟨hlt, hle, hend⟩ := end_lt budget hsize hstart
  obtain ⟨hpast, -, hat | ⟨-, u, hu, hspace⟩⟩ := next_lt config.overlap hlt hend
  · omega
  · generalize windowEnd text config budget start = e at *
    generalize overlapStart text start e config.overlap = next at *
    cases budget with
    | none =>
        have hsame : windowSize text config none start = config.size := rfl
        show e ≤ next + config.size
        omega
    | some b =>
        have hmin : windowSize text config (some b) start
            = min config.size (charactersWithinBudget text start b) := rfl
        have hreach := budget_reaches hstart hpast (b := b) (by omega) hu hspace
        show e ≤ next + min config.size (charactersWithinBudget text next b)
        omega

/-- A later cut, whose limit is no nearer than an earlier one was cut, is
no nearer either. -/
theorem cut_le {next limit' q : Nat} (hnext : start < next)
    (hp : CutAt text start limit SEPARATORS p) (hq : CutAt text next limit' SEPARATORS q)
    (hle : p ≤ limit) (hreach : p ≤ limit') : p ≤ q := by
  generalize hseps : SEPARATORS = separators at hp
  generalize hseps' : SEPARATORS = separators' at hq
  cases hq with
  | limit _ hnone => exact hreach
  | past before' after' s' q hnone' hends' hlast' =>
      obtain ⟨cut', hat', hcut', rfl, hlimit'⟩ := hends'
      by_contra hgt
      -- What cuts the second ends before the first was cut, so it occurs there.
      have hthere : Ends text s' start limit (cut' + s'.length) :=
        ⟨cut', hat', by omega, rfl, by omega⟩
      have hmem' : s' ∈ SEPARATORS := by
        rw [hseps']
        simp
      cases hp with
      | limit _ hnone => exact hnone s' (hseps ▸ hmem') _ hthere
      | past before after s p hnone hends hlast =>
          obtain ⟨cut, hat, hcut, rfl, hlimit⟩ := hends
          have hmem : s ∈ SEPARATORS := by
            rw [hseps]
            simp
          have hlen := separator_ne_nil hmem
          have hlen' := separator_ne_nil hmem'
          by_cases hin : next < cut
          · have hagain : Ends text s next limit' (cut + s.length) :=
              ⟨cut, hat, hin, rfl, hreach⟩
            have hsame : s = s' := first_eq (hseps.symm.trans hseps')
              (fun hbefore => hnone' s hbefore _ hagain)
              (fun hbefore => hnone s' hbefore _ hthere)
            subst hsame
            exact hgt (hlast' _ hagain)
          · omega

/-- A window's end is no further than the next one's. -/
theorem end_le_next (hsize : 0 < config.size) (hstart : start < text.length)
    (hmore : windowEnd text config budget start < text.length) :
    windowEnd text config budget start
      ≤ windowEnd text config budget
          (overlapStart text start (windowEnd text config budget start) config.overlap) := by
  obtain ⟨hlt, hle, hend⟩ := end_lt budget hsize hstart
  obtain ⟨hpast, hnextle, -⟩ := next_lt config.overlap hlt hend
  by_cases hin : overlapStart text start (windowEnd text config budget start) config.overlap
      < windowEnd text config budget start
  · have hreach := reach_next hsize hstart hin
    have hfirst := boundaryBefore_cases text start (windowSize text config budget start)
    obtain ⟨-, heq⟩ | ⟨-, hcut⟩ := hfirst
    · exact absurd hmore (by rw [windowEnd, heq]; exact lt_irrefl _)
    · obtain ⟨-, heq'⟩ | ⟨-, hcut'⟩ := boundaryBefore_cases text
        (overlapStart text start (windowEnd text config budget start) config.overlap)
        (windowSize text config budget
          (overlapStart text start (windowEnd text config budget start) config.overlap))
      · show _ ≤ boundaryBefore text _ _
        rw [heq']
        exact hend
      · exact cut_le hpast hcut hcut' hle hreach
  · obtain ⟨hlt', -, -⟩ := end_lt budget hsize (show overlapStart text start
      (windowEnd text config budget start) config.overlap < text.length by omega)
    omega

-- ============================================================== the chunks

/-- The next window reaches past this one, if anything of it is kept. -/
def Past (text : List UInt16) (w w' : Window) : Prop :=
  w.end_ ≤ w'.end_ ∧ (body text w' ≠ [] → w.end_ < w'.end_)

instance : Trans (Past text) (Past text) (Past text) where
  trans h h' := ⟨h.1.trans h'.1, fun hbody => Nat.lt_of_le_of_lt h.1 (h'.2 hbody)⟩

/-- The window that starts there. -/
def windowAt (text : List UInt16) (config : ChunkConfig) (budget : Option Nat) (start : Nat) :
    Window :=
  ⟨start, windowEnd text config budget start⟩

/-- A window that reaches no further than the one before is their
overlap. -/
theorem past_iff (hsize : 0 < config.size) (hstart : start < text.length)
    (hmore : windowEnd text config budget start < text.length) :
    Past text (windowAt text config budget start)
        (windowAt text config budget
          (nextStart text config (windowAt text config budget start))) ↔
      Advances text config budget (windowAt text config budget start) := by
  have hle := end_le_next hsize hstart hmore
  generalize hw : windowAt text config budget start = w
  generalize hw' : windowAt text config budget (nextStart text config w) = w'
  have hstart' : w'.start = nextStart text config w := by rw [← hw']; rfl
  have hle : w.end_ ≤ w'.end_ := by
    rw [← hw', ← hw]
    exact hle
  have hmore : w.end_ < text.length := by
    rw [← hw]
    exact hmore
  have hpasses : w.end_ < w'.end_ ↔ Passes text (nextStart text config w)
      (nextStart text config w + windowSize text config budget (nextStart text config w))
      w.end_ := by
    rw [← passes_iff hmore, ← hw']
    rfl
  have hbody : w'.end_ = w.end_ →
      body text w' = trim (slice text (nextStart text config w) w.end_) := by
    intro hend
    rw [body, hend, hstart']
  constructor
  · intro hpast _ hover
    by_contra hnot
    have hend : w'.end_ = w.end_ := le_antisymm (not_lt.mp fun hlt => hnot (hpasses.mp hlt)) hle
    exact hnot (hpasses.mp (hpast.2 (by rw [hbody hend]; exact hover)))
  · intro hadvances
    refine ⟨hle, fun hkept => ?_⟩
    by_contra hnot
    have hend : w'.end_ = w.end_ := le_antisymm (not_lt.mp hnot) hle
    rw [hbody hend] at hkept
    exact hnot (hpasses.mpr (hadvances hmore hkept))

theorem Run.past_iff (hsize : 0 < config.size) (h : Run text config budget start ws)
    (hstart : start < text.length) :
    ws.IsChain (Past text) ↔ ∀ w ∈ ws, Advances text config budget w := by
  induction h with
  | last start hend =>
      refine ⟨fun _ w hw hmore => ?_, fun _ => .singleton _⟩
      obtain rfl := List.mem_singleton.mp hw
      exact absurd hmore (by rw [hend]; exact lt_irrefl _)
  | turn start rest hend hrest ih =>
      obtain ⟨hlt, -, hle⟩ := end_lt budget hsize hstart
      obtain ⟨hnext, hnextle, -⟩ := next_lt config.overlap hlt hle
      have hrest_iff := ih (by omega)
      obtain ⟨rest', rfl⟩ := hrest.head
      rw [List.isChain_cons_cons, List.forall_mem_cons, hrest_iff]
      exact and_congr_left' (Chunks.past_iff hsize hstart hend)

/-- A window with the end of a kept one, and further back, is kept. -/
theorem body_ne_nil {w w' : Window} (hstart : w.start ≤ w'.start) (hend : w.end_ = w'.end_)
    (h : body text w' ≠ []) : body text w ≠ [] := by
  intro hnil
  refine h (trim_eq_nil_iff.mpr fun u hu => trim_eq_nil_iff.mp hnil u ?_)
  have hsuffix : slice text w'.start w'.end_ = (slice text w.start w.end_).drop (w'.start - w.start) := by
    rw [slice, slice, List.drop_drop, Nat.add_sub_cancel' hstart, hend]
  rw [hsuffix] at hu
  exact List.mem_of_mem_drop hu

theorem Run.past_of_kept (hsize : 0 < config.size) (h : Run text config budget start ws)
    (hstart : start < text.length)
    (hkept : (kept text ws).Pairwise fun w w' => w.end_ < w'.end_) :
    ws.IsChain (Past text) := by
  induction h with
  | last start hend => exact .singleton _
  | turn start rest hend hrest ih =>
      obtain ⟨hlt, -, hle⟩ := end_lt budget hsize hstart
      obtain ⟨hnext, hnextle, -⟩ := next_lt config.overlap hlt hle
      have hmono := end_le_next hsize hstart hend
      have htail : (kept text rest).Pairwise fun w w' => w.end_ < w'.end_ :=
        hkept.sublist ((List.sublist_cons_self _ _).filter _)
      have hchain := ih (by omega) htail
      obtain ⟨rest', rfl⟩ := hrest.head
      refine .cons_cons ⟨hmono, fun hbody' => ?_⟩ hchain
      by_contra hnot
      have hbody := body_ne_nil hnext.le (le_antisymm hmono (not_lt.mp hnot)) hbody'
      rw [kept_pos (List.length_pos_iff.mpr hbody), kept_pos (List.length_pos_iff.mpr hbody')]
        at hkept
      exact hnot ((List.pairwise_cons.mp hkept).1 _ List.mem_cons_self)

theorem kept_of_past (h : ws.IsChain (Past text)) :
    (kept text ws).Pairwise fun w w' => w.end_ < w'.end_ := by
  have hpairs : (kept text ws).Pairwise (Past text) := h.pairwise.sublist List.filter_sublist
  refine hpairs.imp_of_mem fun {w w'} _ hw' hpast => hpast.2 ?_
  exact of_decide_eq_true (List.mem_filter.mp hw').2

/-- Each chunk's window ends past the window of the one before. -/
structure AdvanceEach (text : List UInt16) (config : ChunkConfig) (chunks : List Chunk) : Prop where
  windows : chunks.map (·.text)
    = (kept (normalize text) (windowsOf text config)).map (body (normalize text))
  ends : (kept (normalize text) (windowsOf text config)).IsChain fun w w' => w.end_ < w'.end_

/-- The chunks' windows advance exactly where every window's overlap with
the next is white space or the next passes its end. -/
theorem chunks_advance_iff {chunks : List Chunk}
    (h : chunk text config = some (.ok chunks)) :
    AdvanceEach text config chunks ↔
      ∀ budget, budgetOf config = .ok budget →
        ∀ w ∈ windowsOf text config, Advances (normalize text) config budget w := by
  obtain ⟨hsize, ⟨hnil, rfl⟩ | ⟨hne, budget, hbudget, hrun, rfl⟩⟩ :=
    chunkWithin_ok (Nat.lt_succ_self _) h
  · have hwindows : windowsOf text config = [] := by
      unfold windowsOf windows
      rw [hnil]
      split <;> rfl
    refine ⟨fun _ _ _ w hw => ?_, fun _ => ⟨by rw [hwindows]; rfl, by rw [hwindows]; exact .nil⟩⟩
    rw [hwindows] at hw
    cases hw
  · have hpos : 0 < config.size := by omega
    have hstart : 0 < (normalize text).length := List.length_pos_iff.mpr hne
    constructor
    · intro heach budget' hbudget'
      obtain rfl : budget = budget' := Except.ok.inj (hbudget.symm.trans hbudget')
      exact (hrun.past_iff hpos hstart).mp
        (hrun.past_of_kept hpos hstart (List.isChain_iff_pairwise.mp heach.ends))
    · intro hall
      refine ⟨texts_numbered 0 _, List.isChain_iff_pairwise.mpr (kept_of_past ?_)⟩
      exact (hrun.past_iff hpos hstart).mpr (hall budget hbudget)

-- ============================================================== a repeat

/-- A paragraph whose last word is in the overlap, and a long one. -/
def twoParagraphs : List UInt16 :=
  Json.units "aaaaaaaaa bbbb\n\ncccccccccccccccccccc"

def narrow : ChunkConfig := ⟨20, 10, none⟩

/-- The last word of the first paragraph is a chunk of its own: its window
ends where the one before ended. -/
theorem chunk_repeats :
    chunk twoParagraphs narrow = some (.ok [⟨0, Json.units "aaaaaaaaa bbbb"⟩,
      ⟨1, Json.units "bbbb"⟩, ⟨2, Json.units "cccccccccccccccccccc"⟩]) ∧
    kept (normalize twoParagraphs) (windowsOf twoParagraphs narrow)
      = [⟨0, 16⟩, ⟨10, 16⟩, ⟨16, 36⟩] ∧
    ∀ chunks, ¬ AdvanceEach twoParagraphs narrow chunks := by
  have hkept : kept (normalize twoParagraphs) (windowsOf twoParagraphs narrow)
      = [⟨0, 16⟩, ⟨10, 16⟩, ⟨16, 36⟩] := by decide +kernel
  refine ⟨by decide +kernel, hkept, fun chunks heach => ?_⟩
  have hends := heach.ends
  rw [hkept] at hends
  exact absurd hends.rel (by decide)

/-- With a shorter overlap the ends advance, and the windows pass. -/
theorem chunks_advance_iff_short :
    ∃ chunks, chunk twoParagraphs ⟨20, 4, none⟩ = some (.ok chunks) ∧
      (AdvanceEach twoParagraphs ⟨20, 4, none⟩ chunks ↔
        ∀ budget, budgetOf ⟨20, 4, none⟩ = .ok budget →
          ∀ w ∈ windowsOf twoParagraphs ⟨20, 4, none⟩,
            Advances (normalize twoParagraphs) ⟨20, 4, none⟩ budget w) := by
  obtain ⟨chunks, hchunks⟩ : ∃ chunks, chunk twoParagraphs ⟨20, 4, none⟩ = some (.ok chunks) :=
    chunk_ok (by decide) nofun
  exact ⟨chunks, hchunks, chunks_advance_iff hchunks⟩

end Nacre.Chunks
