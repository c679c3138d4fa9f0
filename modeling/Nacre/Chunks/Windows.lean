/-
Chunking (worker/src/chunk.ts).

The loop cuts the text into windows and keeps of each what is left when it
is trimmed. A window ends just past the last separator that fits, of the
largest kind that occurs; the next one starts in its overlap, after white
space, or where it ends.

# The run

`windows` is what the loop goes through, with the chunks left out
(`loop_eq`). `Run` is the same as a relation, one rule a turn: what holds
of a window and the next one is shown once (`end_lt`, `next_lt`), and of
every window by induction on the run. A turn moves the start on, so the
loop needs no more turns than the text has units.
-/
import Mathlib.Data.List.Chain
import Nacre.Chunks.Budget
import Nacre.Lib.Find

namespace Nacre.Chunks

open Json (units)
open Units

structure ChunkConfig where
  size : Nat
  overlap : Nat
  /-- Absent means unbounded. -/
  maxTokens : Option Nat
  deriving DecidableEq

structure Chunk where
  ordinal : Nat
  text : List UInt16
  deriving DecidableEq

def DEFAULT_EMBED_MAX_TOKENS : Nat := 512

def DEFAULT_CHUNK_CONFIG : ChunkConfig := ⟨800, 120, some DEFAULT_EMBED_MAX_TOKENS⟩

/-- Largest structural boundary first. -/
def SEPARATORS : List (List UInt16) := [units "\n\n", units "\n", units ". ", units " "]

-- ========================================================== the functions

def slice (text : List UInt16) (start end_ : Nat) : List UInt16 := (text.take end_).drop start

/-- The loop over the separators. -/
def cutBefore (text : List UInt16) (start limit : Nat) : List (List UInt16) → Nat
  | [] => limit
  | separator :: rest =>
      match Find.lastIndexOf separator text (limit - separator.length) with
      | some cut => if start < cut then cut + separator.length else cutBefore text start limit rest
      | none => cutBefore text start limit rest

def boundaryBefore (text : List UInt16) (start size : Nat) : Nat :=
  let limit := start + size
  if text.length ≤ limit then text.length else cutBefore text start limit SEPARATORS

def overlapStart (text : List UInt16) (start end_ overlap : Nat) : Nat :=
  if overlap ≤ 0 ∨ end_ - start ≤ overlap then end_
  else
    let from_ := end_ - overlap
    match (slice text from_ end_).findIdx? isSpace with
    | none => end_
    | some boundary => from_ + boundary + 1

/-- The narrower of the two bounds. -/
def windowSize (text : List UInt16) (config : ChunkConfig) (budget : Option Nat) (start : Nat) :
    Nat :=
  match budget with
  | none => config.size
  | some budget => min config.size (charactersWithinBudget text start budget)

def windowEnd (text : List UInt16) (config : ChunkConfig) (budget : Option Nat) (start : Nat) :
    Nat :=
  boundaryBefore text start (windowSize text config budget start)

/-- `none` when the turns run out. -/
def loop (text : List UInt16) (config : ChunkConfig) (budget : Option Nat) :
    (turns start ordinal : Nat) → Option (List Chunk)
  | 0, _, _ => none
  | turns + 1, start, ordinal =>
      if start < text.length then
        let end_ := windowEnd text config budget start
        let body := trim (slice text start end_)
        let chunks := if body.length > 0 then [⟨ordinal, body⟩] else []
        if end_ ≥ text.length then some chunks
        else
          let next := overlapStart text start end_ config.overlap
          let start := if next > start then next else end_
          (loop text config budget turns start (ordinal + chunks.length)).map (chunks ++ ·)
      else some []

/-- `text.replace(/\r\n/g, '\n').trim()`. -/
def normalize (text : List UInt16) : List UInt16 :=
  trim (Find.replacePair 13 10 [10] text)

def budgetOf (config : ChunkConfig) : Except String (Option Nat) :=
  match config.maxTokens with
  | none => .ok none
  | some maxTokens => (tokenBudget maxTokens).map some

/-- `chunk`, if it is over in this many turns. -/
def chunkWithin (turns : Nat) (text : List UInt16) (config : ChunkConfig) :
    Option (Except String (List Chunk)) :=
  if config.overlap ≥ config.size then
    some (.error s!"chunk overlap ({config.overlap}) must be smaller than size ({config.size})")
  else if config.size ≤ 0 then some (.error s!"chunk size ({config.size}) must be positive")
  else
    let normalized := normalize text
    if normalized.length = 0 then some (.ok [])
    else
      match budgetOf config with
      | .error message => some (.error message)
      | .ok budget => (loop normalized config budget turns 0 0).map .ok

def chunk (text : List UInt16) (config : ChunkConfig) : Option (Except String (List Chunk)) :=
  chunkWithin ((normalize text).length + 1) text config

-- ============================================================ the windows

structure Window where
  start : Nat
  end_ : Nat
  deriving DecidableEq

/-- What the loop goes through from `start` on. -/
def windowsFrom (text : List UInt16) (config : ChunkConfig) (budget : Option Nat) :
    (turns start : Nat) → List Window
  | 0, _ => []
  | turns + 1, start =>
      let end_ := windowEnd text config budget start
      if end_ ≥ text.length then [⟨start, end_⟩]
      else
        ⟨start, end_⟩ ::
          windowsFrom text config budget turns (overlapStart text start end_ config.overlap)

def windows (text : List UInt16) (config : ChunkConfig) (budget : Option Nat) : List Window :=
  windowsFrom text config budget text.length 0

/-- The windows a text is cut into. -/
def windowsOf (text : List UInt16) (config : ChunkConfig) : List Window :=
  match budgetOf config with
  | .ok budget => windows (normalize text) config budget
  | .error _ => []

/-- What is kept of a window. -/
def body (text : List UInt16) (w : Window) : List UInt16 := trim (slice text w.start w.end_)

def numbered (ordinal : Nat) : List (List UInt16) → List Chunk
  | [] => []
  | text :: rest => ⟨ordinal, text⟩ :: numbered (ordinal + 1) rest

/-- The windows something is kept of. -/
def kept (text : List UInt16) (ws : List Window) : List Window :=
  ws.filter fun w => body text w ≠ []

variable {text : List UInt16} {config : ChunkConfig} {budget : Option Nat}
  {start end_ limit size turns : Nat}

-- ============================================================ one window

theorem separator_ne_nil {separator : List UInt16} (h : separator ∈ SEPARATORS) :
    0 < separator.length ∧ separator.length ≤ 2 := by
  revert separator
  decide

/-- A separator that starts past `start` and ends by the limit. -/
def Ends (text separator : List UInt16) (start limit p : Nat) : Prop :=
  ∃ cut, Find.At separator text cut ∧ start < cut ∧ p = cut + separator.length ∧ p ≤ limit

/-- Where the loop over some separators cuts: past the last occurrence of
the first that occurs, or at the limit. -/
inductive CutAt (text : List UInt16) (start limit : Nat) : List (List UInt16) → Nat → Prop where
  | limit (separators : List (List UInt16))
      (hnone : ∀ s ∈ separators, ∀ p, ¬ Ends text s start limit p) :
      CutAt text start limit separators limit
  | past (before after : List (List UInt16)) (s : List UInt16) (p : Nat)
      (hnone : ∀ s ∈ before, ∀ p, ¬ Ends text s start limit p) (hends : Ends text s start limit p)
      (hlast : ∀ q, Ends text s start limit q → q ≤ p) :
      CutAt text start limit (before ++ s :: after) p

variable {separator : List UInt16} {cut p : Nat}

theorem found_ends (hfound : Find.lastIndexOf separator text (limit - separator.length) = some cut)
    (hlt : start < cut) :
    Ends text separator start limit (cut + separator.length) ∧
      ∀ q, Ends text separator start limit q → q ≤ cut + separator.length := by
  obtain ⟨hle, hat, hafter⟩ := Find.lastIndexOf_some hfound
  refine ⟨⟨cut, hat, hlt, rfl, by omega⟩, ?_⟩
  rintro q ⟨cut', hat', -, rfl, hle'⟩
  by_contra hgt
  exact hafter cut' (by omega) (by omega) hat'

theorem not_ends (h : ∀ cut, Find.lastIndexOf separator text (limit - separator.length) = some cut →
    ¬ start < cut) (p : Nat) : ¬ Ends text separator start limit p := by
  rintro ⟨cut', hat', hlt', rfl, hle'⟩
  cases hfound : Find.lastIndexOf separator text (limit - separator.length) with
  | none => exact Find.lastIndexOf_none hfound (by omega) hat'
  | some cut =>
      obtain ⟨-, -, hafter⟩ := Find.lastIndexOf_some hfound
      have hcut := h cut hfound
      exact hafter cut' (by omega) (by omega) hat'

theorem CutAt.skip {separators : List (List UInt16)} (h : CutAt text start limit separators p)
    (hs : ∀ q, ¬ Ends text separator start limit q) :
    CutAt text start limit (separator :: separators) p := by
  cases h with
  | limit separators hnone =>
      exact .limit _ (List.forall_mem_cons.mpr ⟨hs, hnone⟩)
  | past before after s p hnone hends hlast =>
      exact .past (separator :: before) after s p (List.forall_mem_cons.mpr ⟨hs, hnone⟩) hends hlast

theorem cutBefore_cutAt (text : List UInt16) (start limit : Nat)
    (separators : List (List UInt16)) :
    CutAt text start limit separators (cutBefore text start limit separators) := by
  induction separators with
  | nil => exact .limit [] nofun
  | cons s rest ih =>
      unfold cutBefore
      split
      next cut hfound =>
        split
        next hlt =>
          obtain ⟨hends, hlast⟩ := found_ends hfound hlt
          exact .past [] rest s _ nofun hends hlast
        next hlt =>
          refine ih.skip (not_ends fun cut' hfound' => ?_)
          rw [hfound] at hfound'
          cases hfound'
          exact hlt
      next hfound =>
        refine ih.skip (not_ends fun cut' hfound' => ?_)
        rw [hfound] at hfound'
        cases hfound'

/-- A window ends where the text does, or where it is cut. -/
theorem boundaryBefore_cases (text : List UInt16) (start size : Nat) :
    (text.length ≤ start + size ∧ boundaryBefore text start size = text.length) ∨
      (start + size < text.length ∧
        CutAt text start (start + size) SEPARATORS (boundaryBefore text start size)) := by
  unfold boundaryBefore
  simp only
  split
  next hle => exact .inl ⟨hle, rfl⟩
  next hgt => exact .inr ⟨by omega, cutBefore_cutAt text start _ SEPARATORS⟩

/-- A cut is past the start and no further than the limit. -/
theorem CutAt.bounds {separators : List (List UInt16)} (h : CutAt text start limit separators p)
    (hlimit : start < limit) : start < p ∧ p ≤ limit := by
  cases h with
  | limit separators hnone => exact ⟨hlimit, le_refl _⟩
  | past before after s p hnone hends hlast =>
      obtain ⟨cut, -, hcut, rfl, hle⟩ := hends
      exact ⟨by omega, hle⟩

theorem windowSize_pos (hsize : 0 < config.size) :
    0 < windowSize text config budget start := by
  unfold windowSize
  split
  next => exact hsize
  next budget =>
    refine lt_min hsize ?_
    unfold charactersWithinBudget
    omega

theorem windowSize_le (text : List UInt16) (config : ChunkConfig) (budget : Option Nat)
    (start : Nat) : windowSize text config budget start ≤ config.size := by
  unfold windowSize
  split
  next => exact le_refl _
  next => exact min_le_left _ _

/-- A window is not empty, no longer than its size, and in the text. -/
theorem end_lt (budget : Option Nat) (hsize : 0 < config.size) (hstart : start < text.length) :
    start < windowEnd text config budget start ∧
      windowEnd text config budget start ≤ start + windowSize text config budget start ∧
      windowEnd text config budget start ≤ text.length := by
  have hpos : 0 < windowSize text config budget start := windowSize_pos hsize
  unfold windowEnd
  obtain ⟨hle, heq⟩ | ⟨hlt, hcut⟩ :=
    boundaryBefore_cases text start (windowSize text config budget start)
  · rw [heq]
    exact ⟨hstart, hle, le_refl _⟩
  · obtain ⟨hpast, hle⟩ := hcut.bounds (by omega)
    exact ⟨hpast, hle, by omega⟩

theorem slice_length (hle : end_ ≤ text.length) :
    (slice text start end_).length = end_ - start := by
  rw [slice, List.length_drop, List.length_take, Nat.min_eq_left hle]

theorem slice_getElem? {i : Nat} (hi : start + i < end_) :
    (slice text start end_)[i]? = text[start + i]? := by
  rw [slice, List.getElem?_drop, List.getElem?_take_of_lt hi]

/-- The next window starts past this one's start and no later than its
end: there, or past white space in its overlap. -/
theorem next_lt (overlap : Nat) (hlt : start < end_) (hle : end_ ≤ text.length) :
    start < overlapStart text start end_ overlap ∧ overlapStart text start end_ overlap ≤ end_ ∧
      (overlapStart text start end_ overlap = end_ ∨
        end_ - overlap < overlapStart text start end_ overlap ∧
          ∃ u, text[overlapStart text start end_ overlap - 1]? = some u ∧ isSpace u = true) := by
  unfold overlapStart
  split
  next => exact ⟨hlt, le_refl _, .inl rfl⟩
  next hoverlap =>
    rw [not_or] at hoverlap
    simp only
    split
    next => exact ⟨hlt, le_refl _, .inl rfl⟩
    next boundary hfound =>
      obtain ⟨hindex, hspace, -⟩ := List.findIdx?_eq_some_iff_getElem.mp hfound
      have hbound := hindex
      rw [slice_length hle] at hbound
      refine ⟨by omega, by omega, .inr ⟨by omega, _, ?_, hspace⟩⟩
      have hget : (slice text (end_ - overlap) end_)[boundary]? = text[end_ - overlap + boundary]? :=
        slice_getElem? (by omega)
      rw [Nat.add_sub_cancel, ← hget, List.getElem?_eq_getElem hindex]

-- ============================================================== the run

/-- The windows from one on, a turn at a time. -/
inductive Run (text : List UInt16) (config : ChunkConfig) (budget : Option Nat) :
    Nat → List Window → Prop where
  | last (start : Nat) (hend : windowEnd text config budget start = text.length) :
      Run text config budget start [⟨start, windowEnd text config budget start⟩]
  | turn (start : Nat) (rest : List Window)
      (hend : windowEnd text config budget start < text.length)
      (hrest : Run text config budget
        (overlapStart text start (windowEnd text config budget start) config.overlap) rest) :
      Run text config budget start (⟨start, windowEnd text config budget start⟩ :: rest)

theorem windowsFrom_run (hsize : 0 < config.size) (hstart : start < text.length)
    (hturns : text.length - start ≤ turns) :
    Run text config budget start (windowsFrom text config budget turns start) := by
  induction turns generalizing start with
  | zero => omega
  | succ turns ih =>
      obtain ⟨hlt, -, hle⟩ := end_lt budget hsize hstart
      unfold windowsFrom
      simp only
      split
      next hover => exact .last start (by omega)
      next hnot =>
        obtain ⟨hnext, hnextle, -⟩ := next_lt config.overlap hlt hle
        exact .turn start _ (by omega) (ih (by omega) (by omega))

theorem kept_pos {w : Window} (h : (trim (slice text w.start w.end_)).length > 0)
    (ws : List Window) : kept text (w :: ws) = w :: kept text ws :=
  List.filter_cons_of_pos (decide_eq_true (List.length_pos_iff.mp h))

theorem kept_neg {w : Window} (h : ¬ (trim (slice text w.start w.end_)).length > 0)
    (ws : List Window) : kept text (w :: ws) = kept text ws := by
  refine List.filter_cons_of_neg fun hbody => h (List.length_pos_iff.mpr ?_)
  exact of_decide_eq_true hbody

/-- The loop keeps what is left of the windows, numbered as they come. -/
theorem loop_eq (hsize : 0 < config.size) (hstart : start < text.length)
    (hturns : text.length - start < turns) {ws : List Window}
    (hrun : Run text config budget start ws) (ordinal : Nat) :
    loop text config budget turns start ordinal
      = some (numbered ordinal ((kept text ws).map (body text))) := by
  induction hrun generalizing turns ordinal with
  | last start hend =>
      obtain ⟨turns, rfl⟩ := Nat.exists_eq_succ_of_ne_zero (show turns ≠ 0 by omega)
      unfold loop
      simp only [if_pos hstart, if_pos hend.ge]
      split
      next hkept =>
        rw [kept_pos hkept]
        rfl
      next hkept =>
        rw [kept_neg hkept]
        rfl
  | turn start rest hend hrest ih =>
      obtain ⟨turns, rfl⟩ := Nat.exists_eq_succ_of_ne_zero (show turns ≠ 0 by omega)
      obtain ⟨hlt, -, hle⟩ := end_lt budget hsize hstart
      obtain ⟨hnext, hnextle, -⟩ := next_lt config.overlap hlt hle
      unfold loop
      simp only [if_pos hstart, if_neg (Nat.not_le.mpr hend), if_pos hnext]
      rw [ih (by omega) (by omega)]
      split
      next hkept =>
        rw [kept_pos hkept]
        rfl
      next hkept =>
        rw [kept_neg hkept]
        rfl

/-- A call that goes through, in any number of turns that is more than the
text has units. -/
theorem chunkWithin_ok (hturns : (normalize text).length < turns) {chunks : List Chunk}
    (h : chunkWithin turns text config = some (.ok chunks)) :
    config.overlap < config.size ∧
      (normalize text = [] ∧ chunks = [] ∨
        normalize text ≠ [] ∧ ∃ budget, budgetOf config = .ok budget ∧
          Run (normalize text) config budget 0 (windowsOf text config) ∧
          chunks = numbered 0
            ((kept (normalize text) (windowsOf text config)).map (body (normalize text)))) := by
  unfold chunkWithin at h
  split at h
  next => cases h
  next hoverlap =>
    split at h
    next => cases h
    next hsize =>
      simp only at h
      split at h
      next hnil =>
        cases h
        exact ⟨by omega, .inl ⟨List.length_eq_zero_iff.mp hnil, rfl⟩⟩
      next hlen =>
        refine ⟨by omega, .inr ⟨fun hnil => hlen (by rw [hnil]; rfl), ?_⟩⟩
        split at h
        next => cases h
        next budget hbudget =>
          have hwindows : windowsOf text config = windows (normalize text) config budget := by
            rw [windowsOf, hbudget]
          have hrun : Run (normalize text) config budget 0 (windowsOf text config) := by
            rw [hwindows]
            exact windowsFrom_run (by omega) (by omega) (by omega)
          rw [loop_eq (by omega) (by omega) (by omega) hrun] at h
          cases h
          exact ⟨budget, hbudget, hrun, rfl⟩

/-- A configuration it takes gives chunks. -/
theorem chunk_ok (hoverlap : config.overlap < config.size)
    (hmax : ∀ m, config.maxTokens = some m → 1 + TOKEN_RESERVE ≤ m) :
    ∃ chunks, chunk text config = some (.ok chunks) := by
  have hbudget : ∃ budget, budgetOf config = .ok budget := by
    unfold budgetOf
    split
    next => exact ⟨none, rfl⟩
    next m hm =>
      refine ⟨some (m - TOKEN_RESERVE), ?_⟩
      rw [tokenBudget, if_neg (Nat.not_lt.mpr (hmax m hm))]
      rfl
  obtain ⟨budget, hbudget⟩ := hbudget
  unfold chunk chunkWithin
  rw [if_neg (by omega), if_neg (by omega)]
  simp only [hbudget]
  split
  next => exact ⟨[], rfl⟩
  next hlen =>
    have hrun : Run (normalize text) config budget 0 (windows (normalize text) config budget) :=
      windowsFrom_run (by omega) (by omega) (by omega)
    rw [loop_eq (by omega) (by omega) (by omega) hrun]
    exact ⟨_, rfl⟩

/-- The call is over, and more turns change nothing. -/
theorem chunkWithin_over (hturns : (normalize text).length < turns) :
    chunkWithin turns text config = chunk text config ∧ chunk text config ≠ none := by
  unfold chunk chunkWithin
  split
  next => exact ⟨rfl, nofun⟩
  next hoverlap =>
    split
    next => exact ⟨rfl, nofun⟩
    next hsize =>
      simp only
      split
      next => exact ⟨rfl, nofun⟩
      next hlen =>
        split
        next => exact ⟨rfl, nofun⟩
        next budget hbudget =>
          have hrun : Run (normalize text) config budget 0
              (windows (normalize text) config budget) :=
            windowsFrom_run (by omega) (by omega) (by omega)
          rw [loop_eq (by omega) (by omega) (by omega) hrun,
            loop_eq (by omega) (by omega) (by omega) hrun]
          exact ⟨rfl, nofun⟩

end Nacre.Chunks
