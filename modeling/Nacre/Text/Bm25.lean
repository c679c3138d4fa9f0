/-
Lexical search: a text to terms, terms to a sparse vector
(core/text/bm25.ts).

Both sides of the index go through `tokenize`, so a document and a query of
the same text have the same indices (`vectors_agree`). Whether a word of a
document is among its terms depends on the compound it stands in: the
compound is emitted whole and in parts, unless an ideograph is anywhere in
it, and then character by character. `abc` in `東京-abc` is therefore no
term of that text. `encoded_iff` says when every word of a text is found.
-/
import Nacre.Lib.Js
import Nacre.Lib.Json
import Nacre.Lib.Runs
import Nacre.Lib.Units
import Mathlib.Data.Bool.AllAny
import Mathlib.Data.Rat.Defs
import Mathlib.Algebra.Order.Field.Rat

namespace Nacre.Text

open Json (unit units)
open Js (mapSet)
open Units (codePoints)

variable {text token w : List UInt16} {tokens : List (List UInt16)} {compound : List (List UInt16)}

-- ================================================================= characters

/-- One of `.`, `_`, `-` and `/`. -/
def isConnector (u : UInt16) : Bool := u ∈ units "._-/"

/-- A character that is a connector. -/
def joins : List UInt16 → Bool
  | [u] => isConnector u
  | _ => false

/-- What Unicode says. -/
structure Tables where
  /-- `text.normalize('NFKC').toLowerCase()` -/
  fold : List UInt16 → List UInt16
  /-- `[\p{L}\p{N}]` -/
  isWord : List UInt16 → Bool
  /-- `IDEOGRAPHIC` -/
  isIdeographic : List UInt16 → Bool
  /-- The connectors are punctuation. -/
  connector : ∀ u, isConnector u = true → isWord [u] = false

variable (tables : Tables)

-- ===================================================================== terms

/-- The matches of `TOKEN`, each as its characters. -/
def matchAll (text : List UInt16) : List (List (List UInt16)) :=
  Runs.scan tables.isWord joins [] (codePoints text)

/-- What the loop pushes for one match. -/
def pushed (compound : List (List UInt16)) : List (List UInt16) :=
  if compound.any tables.isIdeographic then compound
  else
    let token := compound.flatten
    token :: if 1 < token.length && token.any isConnector then
      (token.splitOnP isConnector).filter fun part => 0 < part.length
    else []

def tokenize (text : List UInt16) : List (List UInt16) :=
  (matchAll tables (tables.fold text)).flatMap (pushed tables)

/-- FNV-1a, in 32 bits. -/
def hash (token : List UInt16) : UInt32 :=
  token.foldl (fun h u => (h ^^^ u.toUInt32) * 0x01000193) 0x811c9dc5

-- =================================================================== vectors

structure SparseVector where
  indices : List UInt32
  values : List ℚ
deriving DecidableEq

def K1 : ℚ := 12 / 10
def B : ℚ := 75 / 100
def AVERAGE_CHUNK_TOKENS : ℚ := 120

def counts (tokens : List (List UInt16)) : List (UInt32 × Nat) :=
  tokens.foldl (fun frequencies token =>
    mapSet frequencies (hash token) ((frequencies.lookup (hash token)).getD 0 + 1)) []

/-- `new Set(xs)`, in order of insertion. -/
def setOf (xs : List UInt32) : List UInt32 :=
  (xs.foldl (fun set x => mapSet set x ()) []).map Prod.fst

def assemble (pairs : List (UInt32 × ℚ)) : SparseVector :=
  let sorted := pairs.mergeSort fun a b => a.1 ≤ b.1
  ⟨sorted.map Prod.fst, sorted.map Prod.snd⟩

def encodeDocument (text : List UInt16) : SparseVector :=
  let tokens := tokenize tables text
  if tokens.length = 0 then ⟨[], []⟩
  else
    let normalisation := K1 * (1 - B + (B * tokens.length) / AVERAGE_CHUNK_TOKENS)
    assemble ((counts tokens).map fun entry =>
      (entry.1, (entry.2 * (K1 + 1)) / (entry.2 + normalisation)))

def encodeQuery (text : List UInt16) : SparseVector :=
  let tokens := tokenize tables text
  if tokens.length = 0 then ⟨[], []⟩
  else assemble ((setOf (tokens.map hash)).map fun index => (index, 1))

-- ============================================================ what is indexed

/-- Writes to a map, one after another: its keys are the written ones. -/
theorem keys_foldl_mapSet {ι ν : Type*} (key : ι → UInt32) (value : List (UInt32 × ν) → ι → ν)
    (xs : List ι) (m : List (UInt32 × ν)) (hm : (m.map Prod.fst).Nodup) :
    (((xs.foldl (fun m x => mapSet m (key x) (value m x)) m).map Prod.fst).Nodup)
      ∧ ∀ k, k ∈ (xs.foldl (fun m x => mapSet m (key x) (value m x)) m).map Prod.fst
        ↔ k ∈ m.map Prod.fst ∨ k ∈ xs.map key := by
  induction xs generalizing m with
  | nil => exact ⟨hm, fun k => by simp⟩
  | cons x xs ih =>
      obtain ⟨hnodup, hmem⟩ := ih (mapSet m (key x) (value m x)) (Js.nodup_keys_mapSet hm)
      refine ⟨hnodup, fun k => ?_⟩
      rw [List.foldl_cons, hmem, Js.mem_keys_mapSet, List.map_cons, List.mem_cons]
      tauto

theorem keys_counts (tokens : List (List UInt16)) :
    ((counts tokens).map Prod.fst).Nodup
      ∧ ∀ i, i ∈ (counts tokens).map Prod.fst ↔ i ∈ tokens.map hash := by
  obtain ⟨hnodup, hmem⟩ := keys_foldl_mapSet hash
    (fun frequencies token => (frequencies.lookup (hash token)).getD 0 + 1) tokens []
    List.nodup_nil
  exact ⟨hnodup, fun i => (hmem i).trans (by simp)⟩

theorem mem_setOf (xs : List UInt32) : (setOf xs).Nodup ∧ ∀ i, i ∈ setOf xs ↔ i ∈ xs := by
  obtain ⟨hnodup, hmem⟩ := keys_foldl_mapSet id (fun _ _ => ()) xs [] List.nodup_nil
  exact ⟨hnodup, fun i => (hmem i).trans (by simp)⟩

/-- A sparse vector as the index wants it. -/
structure SparseVector.Sound (v : SparseVector) : Prop where
  ascending : v.indices.Pairwise (· < ·)
  valued : v.values.length = v.indices.length

/-- Pairs under distinct keys: the keys are the indices. -/
theorem assemble_sound {β : Type*} (key : β → UInt32) (value : β → ℚ) {bs : List β}
    (h : (bs.map key).Nodup) :
    (assemble (bs.map fun b => (key b, value b))).Sound
      ∧ ∀ i, i ∈ (assemble (bs.map fun b => (key b, value b))).indices ↔ i ∈ bs.map key := by
  have hkeys : (bs.map fun b => (key b, value b)).map Prod.fst = bs.map key := by
    rw [List.map_map]
    rfl
  generalize bs.map (fun b => (key b, value b)) = pairs at hkeys
  have hperm := List.mergeSort_perm pairs fun a b => decide (a.1 ≤ b.1)
  have hsorted : (pairs.mergeSort fun a b => decide (a.1 ≤ b.1)).Pairwise fun a b => a.1 ≤ b.1 := by
    refine (List.pairwise_mergeSort ?_ ?_ pairs).imp fun h => of_decide_eq_true h
    · intro a b c hab hbc
      exact decide_eq_true (UInt32.le_trans (of_decide_eq_true hab) (of_decide_eq_true hbc))
    · intro a b
      rw [Bool.or_eq_true, decide_eq_true_eq, decide_eq_true_eq]
      exact UInt32.le_total _ _
  refine ⟨⟨?_, ?_⟩, fun i => ?_⟩
  · have hle : (assemble pairs).indices.Pairwise (· ≤ ·) := List.pairwise_map.mpr hsorted
    have hne : (assemble pairs).indices.Nodup :=
      (hperm.map Prod.fst).nodup_iff.mpr (hkeys ▸ h)
    exact (hle.and hne).imp fun h => UInt32.lt_of_le_of_ne h.1 h.2
  · simp [assemble]
  · rw [← hkeys]
    exact (hperm.map Prod.fst).mem_iff

theorem document_sound (text : List UInt16) : (encodeDocument tables text).Sound
    ∧ ∀ i, i ∈ (encodeDocument tables text).indices ↔ i ∈ (tokenize tables text).map hash := by
  rw [encodeDocument]
  split
  next hnone =>
    rw [List.length_eq_zero_iff.mp hnone]
    exact ⟨⟨.nil, rfl⟩, fun i => by simp⟩
  next =>
    obtain ⟨hnodup, hmem⟩ := keys_counts (tokenize tables text)
    obtain ⟨hsound, hindices⟩ := assemble_sound Prod.fst (fun entry : UInt32 × Nat =>
      (entry.2 * (K1 + 1)) / (entry.2
        + K1 * (1 - B + (B * (tokenize tables text).length) / AVERAGE_CHUNK_TOKENS))) hnodup
    exact ⟨hsound, fun i => (hindices i).trans (hmem i)⟩

theorem query_sound (text : List UInt16) : (encodeQuery tables text).Sound
    ∧ ∀ i, i ∈ (encodeQuery tables text).indices ↔ i ∈ (tokenize tables text).map hash := by
  rw [encodeQuery]
  split
  next hnone =>
    rw [List.length_eq_zero_iff.mp hnone]
    exact ⟨⟨.nil, rfl⟩, fun i => by simp⟩
  next =>
    obtain ⟨hnodup, hmem⟩ := mem_setOf ((tokenize tables text).map hash)
    have hkeys : ((setOf ((tokenize tables text).map hash)).map id).Nodup := by
      rw [List.map_id]
      exact hnodup
    obtain ⟨hsound, hindices⟩ := assemble_sound id (fun _ => 1) hkeys
    rw [List.map_id] at hindices
    exact ⟨hsound, fun i => (hindices i).trans (hmem i)⟩

-- ==================================================================== words

/-- The compounds of a text: its longest stretches of letters, digits and
connectors between two of them. -/
def compounds (text : List UInt16) : List (List (List UInt16)) :=
  Runs.stretches tables.isWord joins (codePoints text)

/-- A term of a folded text. -/
def Term (text term : List UInt16) : Prop :=
  ∃ compound ∈ compounds tables text,
    if compound.any tables.isIdeographic then term ∈ compound
    else term = compound.flatten ∨ (term ∈ compound.flatten.splitOnP isConnector ∧ term ≠ [])

theorem mem_pushed : token ∈ pushed tables compound ↔
    if compound.any tables.isIdeographic then token ∈ compound
    else token = compound.flatten
      ∨ (token ∈ compound.flatten.splitOnP isConnector ∧ token ≠ []) := by
  rw [pushed]
  split
  next => rfl
  next =>
    have hparts : ∀ whole : List UInt16, token ∈ whole.splitOnP isConnector → token ≠ [] →
        (1 < whole.length ∧ whole.any isConnector = true) ∨ token = whole := by
      intro whole hmem hne
      by_cases hany : whole.any isConnector = true
      · refine .inl ⟨?_, hany⟩
        -- a connector on its own has two empty parts
        by_contra hshort
        match whole, hmem, hany with
        | [u], hmem, hany =>
            have hu : isConnector u = true := by simpa using hany
            rw [List.splitOnP_cons_eq_if_modifyHead, if_pos hu, List.splitOnP_nil] at hmem
            exact hne (by simpa using hmem)
        | u :: v :: rest, _, _ => exact hshort (by simp)
      · rw [List.splitOnP_eq_singleton] at hmem
        · exact .inr (List.mem_singleton.mp hmem)
        · intro u hu
          rw [List.any_eq_true, not_exists] at hany
          exact eq_false_of_ne_true fun htrue => hany u ⟨hu, htrue⟩
    simp only [List.mem_cons]
    constructor
    · rintro (rfl | hmem)
      · exact .inl rfl
      · split at hmem
        next =>
          rw [List.mem_filter, decide_eq_true_eq] at hmem
          exact .inr ⟨hmem.1, List.ne_nil_of_length_pos hmem.2⟩
        next => cases hmem
    · rintro (rfl | ⟨hmem, hne⟩)
      · exact .inl rfl
      · rcases hparts _ hmem hne with hcompound | rfl
        · right
          rw [if_pos (by simpa using hcompound), List.mem_filter, decide_eq_true_eq]
          exact ⟨hmem, List.length_pos_of_ne_nil hne⟩
        · exact .inl rfl

theorem mem_tokenize : token ∈ tokenize tables text ↔ Term tables (tables.fold text) token := by
  rw [tokenize, matchAll, Runs.scan_eq, List.mem_flatMap]
  simp only [mem_pushed]
  rfl

/-- The word is a run of letters and digits in the text, and what stands
before and behind it is neither. -/
structure Occurs (w text : List UInt16) : Prop where
  nonempty : w ≠ []
  word : ∀ c ∈ codePoints w, tables.isWord c = true
  placed : ∃ before after, codePoints text = before ++ codePoints w ++ after
    ∧ before.getLast?.any tables.isWord = false ∧ after.head?.any tables.isWord = false

/-- The word is a part of a compound without ideographs, or a character of
one with an ideograph. -/
def Reached (text w : List UInt16) : Prop :=
  ∃ compound ∈ compounds tables text,
    (compound.any tables.isIdeographic = false ∧ w ∈ compound.flatten.splitOnP isConnector)
      ∨ (compound.any tables.isIdeographic = true ∧ w ∈ compound)

/-- Another term of the text has the same hash. -/
def Collides (text w : List UInt16) : Prop :=
  ∃ other, other ≠ w ∧ Term tables text other ∧ hash other = hash w

theorem no_connector {w : List UInt16} (h : ∀ c ∈ codePoints w, tables.isWord c = true) :
    ∀ u ∈ w, isConnector u = false := by
  intro u hu
  rw [← Units.flatten_codePoints w, List.mem_flatten] at hu
  obtain ⟨c, hc, hu⟩ := hu
  refine eq_false_of_ne_true fun hconnector => ?_
  rcases Units.codePoints_cases hc with ⟨v, rfl⟩ | ⟨v, v', rfl, hpair⟩
  · rw [List.mem_singleton.mp hu] at hconnector
    exact absurd (h [v] hc) (by rw [tables.connector v hconnector]; exact Bool.false_ne_true)
  · -- no connector is half of a pair
    have hhalves : ∀ x : UInt16, isConnector x = true → Json.isHigh x = false ∧ Json.isLow x = false := by
      intro x hx
      have hall : ∀ y ∈ units "._-/", Json.isHigh y = false ∧ Json.isLow y = false :=
        List.all_iff_forall_prop.1 (by decide)
      exact hall x (of_decide_eq_true hx)
    obtain ⟨hhigh, hlow⟩ := hhalves u hconnector
    rw [Units.isPair, Bool.and_eq_true] at hpair
    rcases List.mem_cons.mp hu with rfl | hu
    · rw [hpair.1] at hhigh
      cases hhigh
    · rw [List.mem_singleton.mp hu, hpair.2] at hlow
      cases hlow

theorem term_iff_reached {w : List UInt16} (hne : w ≠ [])
    (h : ∀ u ∈ w, isConnector u = false) : Term tables text w ↔ Reached tables text w := by
  refine exists_congr fun compound => and_congr_right fun _ => ?_
  by_cases hany : compound.any tables.isIdeographic = true
  · simp [hany]
  · simp only [eq_false_of_ne_true hany, Bool.false_eq_true, if_false, false_and, or_false, true_and]
    constructor
    · rintro (rfl | hpart)
      · rw [List.splitOnP_eq_singleton h]
        exact List.mem_singleton_self _
      · exact hpart.1
    · exact fun hpart => .inr ⟨hpart, hne⟩

-- ============================================================== the guarantee

/-- What a query of the text, and a query of each of its words, shares with
the document. -/
structure Encoded (text : List UInt16) : Prop where
  document : (encodeDocument tables text).Sound
  query : (encodeQuery tables text).Sound
  same : ∀ i, i ∈ (encodeDocument tables text).indices ↔ i ∈ (encodeQuery tables text).indices
  found : ∀ w ∈ tokenize tables w, Occurs tables w text → hash w ∈ (encodeDocument tables text).indices

theorem mem_document : hash w ∈ (encodeDocument tables text).indices
    ↔ ∃ term, Term tables (tables.fold text) term ∧ hash term = hash w := by
  rw [(document_sound tables text).2, List.mem_map]
  simp only [mem_tokenize]

/-- The two sides agree on every text, and every word of a text is found
exactly where folding leaves it in a compound that gives it up, or a
collision stands in for it. -/
theorem encoded_iff (text : List UInt16) : Encoded tables text ↔
    ∀ w ∈ tokenize tables w, Occurs tables w text →
      Reached tables (tables.fold text) w ∨ Collides tables (tables.fold text) w := by
  have hword : ∀ w, Occurs tables w text → (hash w ∈ (encodeDocument tables text).indices
      ↔ Reached tables (tables.fold text) w ∨ Collides tables (tables.fold text) w) := by
    intro w hw
    rw [mem_document, ← term_iff_reached tables hw.nonempty (no_connector tables hw.word)]
    constructor
    · rintro ⟨term, hterm, hhash⟩
      by_cases hsame : term = w
      · exact .inl (hsame ▸ hterm)
      · exact .inr ⟨term, hsame, hterm, hhash⟩
    · rintro (hterm | ⟨term, -, hterm, hhash⟩)
      · exact ⟨w, hterm, rfl⟩
      · exact ⟨term, hterm, hhash⟩
  obtain ⟨hdocument, hdoc⟩ := document_sound tables text
  obtain ⟨hquery, hq⟩ := query_sound tables text
  constructor
  · exact fun h w hown hw => (hword w hw).mp (h.found w hown hw)
  · exact fun h => ⟨hdocument, hquery, fun i => (hdoc i).trans (hq i).symm,
      fun w hown hw => (hword w hw).mpr (h w hown hw)⟩

theorem joins_singleton {c : List UInt16} (h : joins c = true) : ∃ u, c = [u] ∧ isConnector u = true := by
  match c, h with
  | [u], h => exact ⟨u, rfl, h⟩

/-- Between connectors, or the ends, a word is a part. -/
theorem mem_parts {left right : List (List UInt16)} (h : ∀ u ∈ w, isConnector u = false)
    (hleft : left = [] ∨ left.getLast?.any joins = true)
    (hright : right = [] ∨ right.head?.any joins = true) :
    w ∈ (left ++ codePoints w ++ right).flatten.splitOnP isConnector := by
  have hback : w ∈ (w ++ right.flatten).splitOnP isConnector := by
    rcases hright with rfl | hright
    · rw [List.flatten_nil, List.append_nil, List.splitOnP_eq_singleton h]
      exact List.mem_singleton_self _
    · cases right with
      | nil => cases hright
      | cons c right =>
          obtain ⟨u, rfl, hu⟩ := joins_singleton hright
          rw [List.flatten_cons, List.singleton_append, List.splitOnP_append_cons _ _ hu,
            List.splitOnP_eq_singleton h]
          exact List.mem_append_left _ (List.mem_singleton_self _)
  rw [List.flatten_append, List.flatten_append, Units.flatten_codePoints, List.append_assoc]
  rcases hleft with rfl | hleft
  · exact hback
  · obtain ⟨c, hc, hjoins⟩ := (Option.any_eq_true _ _).mp hleft
    obtain ⟨front, rfl⟩ := List.getLast?_eq_some_iff.mp hc
    obtain ⟨u, rfl, hu⟩ := joins_singleton hjoins
    rw [List.flatten_append, List.flatten_singleton, List.append_assoc, List.singleton_append,
      List.splitOnP_append_cons _ _ hu]
    exact List.mem_append_right _ hback

/-- Every word of a text without ideographs is found, where folding leaves
the text as it is. -/
theorem encoded_plain (hfold : tables.fold text = text)
    (hplain : ∀ c ∈ codePoints text, tables.isIdeographic c = false) : Encoded tables text := by
  rw [encoded_iff]
  intro w _ hw
  left
  obtain ⟨before, after, htext, hbefore, hafter⟩ := hw.placed
  have hne : codePoints w ≠ [] := by
    intro hnil
    exact hw.nonempty (by rw [← Units.flatten_codePoints w, hnil]; rfl)
  obtain ⟨left, right, hmem, hleft, hright⟩ :=
    Runs.mem_stretches htext hne hw.word hbefore hafter
  rw [hfold]
  refine ⟨_, hmem, .inl ⟨?_, ?_⟩⟩
  · rw [List.any_eq_false]
    intro c hc
    rw [hplain c (Runs.mem_of_mem_stretches hmem hc)]
    exact Bool.false_ne_true
  · exact mem_parts (no_connector tables hw.word) hleft hright

/-- Letters and digits of two alphabets, nothing to fold. -/
def plainTables : Tables where
  fold text := text
  isWord
    | [u] => (unit 'a' ≤ u && u ≤ unit 'z') || (unit '0' ≤ u && u ≤ unit '9')
        || (0x4E00 ≤ u && u ≤ 0x9FFF)
    | _ => false
  isIdeographic
    | [u] => 0x4E00 ≤ u && u ≤ 0x9FFF
    | _ => false
  connector u hu := by
    have hall : ∀ v ∈ units "._-/", ((unit 'a' ≤ v && v ≤ unit 'z')
        || (unit '0' ≤ v && v ≤ unit '9') || (0x4E00 ≤ v && v ≤ 0x9FFF)) = false :=
      List.all_iff_forall_prop.1 (by decide)
    exact hall u (of_decide_eq_true hu)

/-- A word behind a connector, in a compound that begins with ideographs. -/
theorem encoded_mixed : ¬ Encoded plainTables (units "東京-abc") := by
  intro h
  have hoccurs : Occurs plainTables (units "abc") (units "東京-abc") := by
    refine ⟨by decide, by decide, codePoints (units "東京-"), [], ?_, ?_, rfl⟩
    · decide
    · decide
  have hfound := h.found (units "abc") (by decide +kernel) hoccurs
  rw [(document_sound plainTables _).2] at hfound
  exact absurd hfound (by decide +kernel)

end Nacre.Text
