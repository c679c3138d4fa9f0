/-
The modules of a QR code that hold data: the code's walk against the
specification's, and which modules the function patterns take.

The two walks are one list (`walk_eq`), and `reserved` is `isFunction`
(`reserved_eq`): the writes of the code fill the regions of the
specification. How many modules that leaves is counted on the regions cut
into pieces that are apart (`tiles`).
-/
import Nacre.Qr.Stream
import Nacre.Qr.Symbol

namespace Nacre.Qr

variable {version size x y : Nat}

-- =================================================================== the walks

/-- From an even column right of the timing line on. -/
theorem rightsFrom_even (n : Nat) :
    rightsFrom (2 * (n + 3)) = (List.range n).map (fun k => 2 * (n + 3) - 2 * k) ++ [5, 3, 1] := by
  induction n with
  | zero =>
    rw [rightsFrom]
    simp [rightsFrom]
  | succ n ih =>
    rw [rightsFrom, if_neg (by omega)]
    dsimp only
    rw [if_neg (by omega), show 2 * (n + 1 + 3) - 2 = 2 * (n + 3) by omega, ih,
      List.range_succ_eq_map, List.map_cons, List.map_map, List.cons_append]
    refine congrArg₂ List.cons (by omega) (congrArg (· ++ _) (List.map_congr_left fun k hk => ?_))
    show _ = 2 * (n + 1 + 3) - 2 * (k + 1)
    omega

theorem rights_eq (version : Nat) :
    rightsFrom (sizeOf version - 1) = rightColumns (sizeOf version) := by
  rw [sizeOf, show version * 4 + 17 - 1 = 2 * (2 * version + 5 + 3) by omega, rightsFrom_even,
    rightColumns, show (version * 4 + 17 - 7) / 2 = 2 * version + 5 by omega]
  refine congrArg (· ++ _) (List.map_congr_left fun k _ => ?_)
  omega

theorem upward_iff (n : Nat) : n &&& 2 = 0 ↔ n / 2 % 2 = 0 := by
  have hbit := Nat.and_two_pow n 1
  rw [Nat.pow_one] at hbit
  rw [hbit, Nat.testBit_eq_decide_div_mod_eq, Nat.pow_one]
  by_cases h : n / 2 % 2 = 1
  · rw [h]
    decide
  · rw [decide_eq_false h, Bool.toNat_false, Nat.zero_mul]
    omega

/-- The columns that are taken upwards are every other one. -/
theorem rightColumns_upward {right k : Nat}
    (h : (right, k) ∈ (rightColumns (sizeOf version)).zipIdx) :
    1 ≤ right ∧ ((right + 1) &&& 2 = 0 ↔ k % 2 = 0) := by
  rw [List.mk_mem_zipIdx_iff_getElem?, rightColumns, sizeOf,
    show (version * 4 + 17 - 7) / 2 = 2 * version + 5 by omega] at h
  rw [upward_iff]
  by_cases hk : k < 2 * version + 5
  · rw [List.getElem?_append_left (by simpa using hk), List.getElem?_map,
      List.getElem?_range hk] at h
    obtain rfl : version * 4 + 17 - 1 - 2 * k = right := Option.some.inj h
    omega
  · rw [List.getElem?_append_right (by simpa using hk), List.length_map, List.length_range] at h
    obtain ⟨j, rfl⟩ : ∃ j, k = 2 * version + 5 + j := ⟨k - (2 * version + 5), by omega⟩
    rw [Nat.add_sub_cancel_left] at h
    match j, h with
    | 0, h =>
      obtain rfl : 5 = right := Option.some.inj h
      omega
    | 1, h =>
      obtain rfl : 3 = right := Option.some.inj h
      omega
    | 2, h =>
      obtain rfl : 1 = right := Option.some.inj h
      omega

/-- The code's walk is the specification's. -/
theorem walk_eq (version : Nat) : walk (sizeOf version) = zigzag (sizeOf version) := by
  rw [walk, rights_eq, zigzag]
  conv_lhs => rw [← List.zipIdx_map_fst 0 (rightColumns (sizeOf version)), List.flatMap_map]
  refine List.flatMap_congr fun p hp => ?_
  obtain ⟨right, k⟩ := p
  have hup := (rightColumns_upward hp).2
  refine congrArg (fun f => List.flatMap f _) (funext fun step => ?_)
  simp only [hup, decide_eq_true_eq, List.range_succ, List.range_zero, List.nil_append,
    List.map_cons, List.map_nil, List.cons_append, Nat.sub_zero]

-- ============================================================= the whole walk

/-- A pair of columns, upwards or downwards. -/
def pair (size right k : Nat) : List (Nat × Nat) :=
  (List.range size).flatMap fun step =>
    let y := if k % 2 = 0 then size - 1 - step else step
    [(right, y), (right - 1, y)]

theorem mem_pair {right k : Nat} {p : Nat × Nat} :
    p ∈ pair size right k ↔ (p.1 = right ∨ p.1 = right - 1) ∧ p.2 < size := by
  obtain ⟨x, y⟩ := p
  simp only [pair, List.mem_flatMap, List.mem_range, List.mem_cons, List.not_mem_nil, or_false,
    Prod.mk.injEq]
  constructor
  · rintro ⟨step, hstep, hp⟩
    split at hp <;> omega
  · rintro ⟨hx, hy⟩
    by_cases hk : k % 2 = 0
    · refine ⟨size - 1 - y, by omega, ?_⟩
      rw [if_pos hk]
      omega
    · refine ⟨y, hy, ?_⟩
      rw [if_neg hk]
      omega

theorem nodup_pair {right k : Nat} (hright : 1 ≤ right) : (pair size right k).Nodup := by
  refine List.nodup_flatMap.2 ⟨fun step _ => ?_, ?_⟩
  · rw [List.nodup_cons, List.mem_singleton, Prod.mk.injEq]
    exact ⟨by omega, List.nodup_singleton _⟩
  · refine List.nodup_range.imp_of_mem fun {a b} ha hb hne => ?_
    rw [List.mem_range] at ha hb
    intro p hp hq
    simp only [List.mem_cons, List.not_mem_nil, or_false] at hp hq
    have hsame : (if k % 2 = 0 then size - 1 - a else a) = if k % 2 = 0 then size - 1 - b else b := by
      rcases hp with rfl | rfl <;> rcases hq with hq | hq <;> exact (Prod.mk.inj hq).2
    split at hsame <;> omega

theorem mem_rightColumns {right : Nat} : right ∈ rightColumns (sizeOf version) ↔
    (right % 2 = 0 ∧ 8 ≤ right ∧ right < sizeOf version) ∨ right = 5 ∨ right = 3 ∨ right = 1 := by
  rw [rightColumns, List.mem_append, List.mem_map, sizeOf]
  simp only [List.mem_range, List.mem_cons, List.not_mem_nil, or_false]
  refine or_congr ⟨?_, fun h => ?_⟩ Iff.rfl
  · rintro ⟨k, hk, rfl⟩
    omega
  · exact ⟨(version * 4 + 16 - right) / 2, by omega, by omega⟩

/-- The walk is over every module but those of the vertical timing line. -/
theorem mem_zigzag {p : Nat × Nat} :
    p ∈ zigzag (sizeOf version) ↔ p.1 < sizeOf version ∧ p.2 < sizeOf version ∧ p.1 ≠ 6 := by
  have hsize : sizeOf version = version * 4 + 17 := rfl
  have hmem : p ∈ zigzag (sizeOf version) ↔
      ∃ right ∈ rightColumns (sizeOf version), (p.1 = right ∨ p.1 = right - 1)
        ∧ p.2 < sizeOf version := by
    rw [zigzag, List.mem_flatMap]
    constructor
    · rintro ⟨⟨right, k⟩, hin, hp⟩
      exact ⟨right, List.mem_of_getElem? (List.mk_mem_zipIdx_iff_getElem?.1 hin), mem_pair.1 hp⟩
    · rintro ⟨right, hin, hp⟩
      obtain ⟨k, hk⟩ := List.mem_iff_getElem?.1 hin
      exact ⟨(right, k), List.mk_mem_zipIdx_iff_getElem?.2 hk, mem_pair.2 hp⟩
  rw [hmem]
  constructor
  · rintro ⟨right, hin, hx, hy⟩
    rw [mem_rightColumns] at hin
    omega
  · rintro ⟨hx, hy, hne⟩
    by_cases hparity : (p.1 % 2 = 0 ∧ 6 < p.1) ∨ (p.1 % 2 = 1 ∧ p.1 < 6)
    · exact ⟨p.1, mem_rightColumns.2 (by omega), .inl rfl, hy⟩
    · exact ⟨p.1 + 1, mem_rightColumns.2 (by omega), .inr (by omega), hy⟩

theorem nodup_zigzag (version : Nat) : (zigzag (sizeOf version)).Nodup := by
  have hapart : (rightColumns (sizeOf version)).Pairwise fun a b => b + 1 < a := by
    rw [rightColumns, List.pairwise_append, List.pairwise_map]
    refine ⟨List.pairwise_lt_range.imp_of_mem fun {a b} ha hb hlt => ?_, by decide,
      fun a ha b hb => ?_⟩
    · rw [List.mem_range, sizeOf] at hb
      rw [sizeOf]
      omega
    · obtain ⟨k, hk, rfl⟩ := List.mem_map.1 ha
      rw [List.mem_range, sizeOf] at hk
      rw [sizeOf]
      simp only [List.mem_cons, List.not_mem_nil, or_false] at hb
      omega
  refine List.nodup_flatMap.2 ⟨fun p hp => nodup_pair (rightColumns_upward hp).1, ?_⟩
  rw [← List.zipIdx_map_fst 0 (rightColumns (sizeOf version)), List.pairwise_map] at hapart
  refine hapart.imp fun {a b} hlt p hp hq => ?_
  have hp' := (mem_pair.1 hp).1
  have hq' := (mem_pair.1 hq).1
  omega

-- =============================================================== the writes

/-- Some call of `set` is of this module. -/
def At (writes : List Write) (x y : Nat) : Prop := ∃ w ∈ writes, w.x = x ∧ w.y = y

theorem at_append {a b : List Write} : At (a ++ b) x y ↔ At a x y ∨ At b x y := by
  simp only [At, List.mem_append, or_and_right, exists_or]

theorem at_flatMap {ι : Type} {l : List ι} {f : ι → List Write} :
    At (l.flatMap f) x y ↔ ∃ i ∈ l, At (f i) x y := by
  simp only [At, List.mem_flatMap]
  constructor
  · rintro ⟨w, ⟨i, hi, hw⟩, hxy⟩
    exact ⟨i, hi, w, hw, hxy⟩
  · rintro ⟨i, hi, w, hw, hxy⟩
    exact ⟨w, ⟨i, hi, hw⟩, hxy⟩

theorem writeAll_at (grid : Grid) (writes : List Write) :
    writeAll grid (writes.map fun w => { w with dark := true }) x y = true
      ↔ grid x y = true ∨ At writes x y := by
  induction writes generalizing grid with
  | nil => simp [writeAll, At]
  | cons w writes ih =>
    have hstep := ih (grid.set w.x w.y true)
    rw [writeAll] at hstep
    rw [List.map_cons, writeAll, List.foldl_cons, hstep]
    simp only [Grid.set, At, List.exists_mem_cons_iff]
    by_cases hw : x = w.x ∧ y = w.y
    · rw [if_pos hw]
      exact iff_of_true (.inl rfl) (.inr (.inl ⟨hw.1.symm, hw.2.symm⟩))
    · rw [if_neg hw]
      have hne : ¬ (w.x = x ∧ w.y = y) := fun h => hw ⟨h.1.symm, h.2.symm⟩
      simp only [hne, false_or]

theorem mem_offsets {n : Nat} {d : Int} : d ∈ offsets n ↔ -n ≤ d ∧ d ≤ n := by
  rw [offsets, List.mem_map]
  constructor
  · rintro ⟨i, hi, rfl⟩
    rw [List.mem_range] at hi
    omega
  · rintro ⟨hlow, hhigh⟩
    exact ⟨(d + n).toNat, List.mem_range.2 (by omega), by omega⟩

theorem at_timing : At (timingWrites size) x y ↔ (x = 6 ∧ y < size) ∨ (x < size ∧ y = 6) := by
  rw [timingWrites, at_flatMap]
  simp only [At, List.mem_range, List.mem_cons, List.not_mem_nil, or_false, exists_eq_or_imp,
    exists_eq_left]
  constructor
  · rintro ⟨i, hi, h⟩
    omega
  · rintro (⟨rfl, hy⟩ | ⟨hx, rfl⟩)
    · exact ⟨y, hy, .inl ⟨rfl, rfl⟩⟩
    · exact ⟨x, hx, .inr ⟨rfl, rfl⟩⟩

theorem at_finder {cx cy : Int} : At (finderWrites size cx cy) x y ↔
    (x < size ∧ y < size) ∧ (cx - 4 ≤ x ∧ x ≤ cx + 4) ∧ cy - 4 ≤ y ∧ y ≤ cy + 4 := by
  rw [finderWrites, at_flatMap]
  constructor
  · rintro ⟨dy, hdy, w, hw, hxy⟩
    obtain ⟨dx, hdx, hw⟩ := List.mem_filterMap.1 hw
    rw [mem_offsets] at hdx hdy
    dsimp only at hw
    split at hw
    next => cases hw
    next hin =>
      cases hw
      dsimp only at hxy
      omega
  · rintro ⟨hin, hx, hy⟩
    refine ⟨y - cy, mem_offsets.2 (by omega), ⟨(cx + (x - cx)).toNat, (cy + (y - cy)).toNat,
      distance (x - cx) (y - cy) ≠ 2 ∧ distance (x - cx) (y - cy) ≠ 4⟩, List.mem_filterMap.2
        ⟨x - cx, mem_offsets.2 (by omega), ?_⟩, ?_⟩
    · dsimp only
      rw [if_neg (by omega)]
    · dsimp only
      omega

/-- The crossings that get an alignment pattern, in the order of the code. -/
def crossings (positions : List Nat) : List (Nat × Nat) :=
  (List.range positions.length).flatMap fun i => (List.range positions.length).flatMap fun j =>
    if isCorner (positions.length - 1) i j then [] else [(positions.getD j 0, positions.getD i 0)]

/-- Within two columns and two rows of a centre. -/
def near (c : Nat × Nat) (x y : Nat) : Prop :=
  (c.1 ≤ x + 2 ∧ x ≤ c.1 + 2) ∧ c.2 ≤ y + 2 ∧ y ≤ c.2 + 2

theorem at_alignment {positions : List Nat} (h : ∀ c ∈ crossings positions, 2 ≤ c.1 ∧ 2 ≤ c.2) :
    At (alignmentWrites positions) x y ↔ ∃ c ∈ crossings positions, near c x y := by
  have hone : ∀ c : Nat × Nat, 2 ≤ c.1 ∧ 2 ≤ c.2 →
      (At ((offsets 2).flatMap fun dy => (offsets 2).map fun dx =>
        ⟨Int.toNat (↑c.1 + dx), Int.toNat (↑c.2 + dy), distance dx dy ≠ 1⟩) x y ↔ near c x y) := by
    intro c hc
    rw [at_flatMap, near]
    constructor
    · rintro ⟨dy, hdy, w, hw, hxy⟩
      obtain ⟨dx, hdx, rfl⟩ := List.mem_map.1 hw
      rw [mem_offsets] at hdx hdy
      dsimp only at hxy
      omega
    · rintro ⟨hx, hy⟩
      refine ⟨y - c.2, mem_offsets.2 (by omega), _, List.mem_map.2
        ⟨x - c.1, mem_offsets.2 (by omega), rfl⟩, ?_⟩
      dsimp only
      omega
  rw [alignmentWrites, crossings, at_flatMap]
  constructor
  · rintro ⟨i, hi, hat⟩
    obtain ⟨j, hj, hat⟩ := at_flatMap.1 hat
    split at hat
    next =>
      obtain ⟨w, hw, -⟩ := hat
      cases hw
    next hcorner =>
      have hmem : (positions.getD j 0, positions.getD i 0) ∈ crossings positions := by
        refine List.mem_flatMap.2 ⟨i, hi, List.mem_flatMap.2 ⟨j, hj, ?_⟩⟩
        rw [if_neg hcorner]
        exact List.mem_singleton_self _
      exact ⟨_, hmem, (hone _ (h _ hmem)).1 hat⟩
  · rintro ⟨c, hc, hnear⟩
    have hat := (hone c (h c hc)).2 hnear
    obtain ⟨i, hi, hc⟩ := List.mem_flatMap.1 hc
    obtain ⟨j, hj, hc⟩ := List.mem_flatMap.1 hc
    refine ⟨i, hi, at_flatMap.2 ⟨j, hj, ?_⟩⟩
    split at hc
    next => cases hc
    next hcorner =>
      rw [if_neg hcorner]
      rw [List.mem_singleton.1 hc] at hat
      exact hat

theorem at_version : At (versionWrites version) x y ↔ 7 ≤ version ∧
    ((sizeOf version - 11 ≤ x ∧ x < sizeOf version - 8 ∧ y < 6)
      ∨ (x < 6 ∧ sizeOf version - 11 ≤ y ∧ y < sizeOf version - 8)) := by
  have hsize : sizeOf version = version * 4 + 17 := rfl
  rw [versionWrites]
  split
  next hv =>
    rw [at_flatMap]
    simp only [At, List.mem_range, List.mem_cons, List.not_mem_nil, or_false, exists_eq_or_imp,
      exists_eq_left]
    constructor
    · rintro ⟨i, hi, h⟩
      omega
    · rintro ⟨-, ⟨hlow, hhigh, hy⟩ | ⟨hx, hlow, hhigh⟩⟩
      · exact ⟨3 * y + (x - (sizeOf version - 11)), by omega, by omega⟩
      · exact ⟨3 * x + (y - (sizeOf version - 11)), by omega, by omega⟩
  next hv =>
    refine iff_of_false ?_ fun h => hv h.1
    rintro ⟨w, hw, -⟩
    cases hw

theorem at_format (hsize : 15 ≤ size) : At (formatWrites size) x y ↔
    (x = 8 ∧ y < 9 ∧ y ≠ 6) ∨ (x < 9 ∧ y = 8 ∧ x ≠ 6) ∨ (size - 8 ≤ x ∧ x < size ∧ y = 8)
      ∨ (x = 8 ∧ size - 7 ≤ y ∧ y < size) := by
  have hmem : At (formatWrites size) x y
      ↔ (x, y) ∈ (formatPositions size).1 ∨ (x, y) ∈ (formatPositions size).2 := by
    rw [formatWrites, ← List.mem_append]
    constructor
    · rintro ⟨w, hw, rfl, rfl⟩
      obtain ⟨p, hp, rfl⟩ := List.mem_map.1 hw
      exact hp
    · exact fun h => ⟨_, List.mem_map.2 ⟨_, h, rfl⟩, rfl, rfl⟩
  rw [hmem, formatPositions]
  simp only [List.mem_append, List.mem_map, List.mem_range, List.mem_cons, List.not_mem_nil,
    or_false, Prod.mk.injEq]
  constructor
  · rintro (((⟨i, hi, rfl, rfl⟩ | h) | ⟨i, hi, rfl, rfl⟩) | (⟨i, hi, rfl, rfl⟩ | ⟨i, hi, rfl, rfl⟩)) <;>
      omega
  · rintro (⟨rfl, hy, hne⟩ | ⟨hx, rfl, hne⟩ | ⟨hlow, hx, rfl⟩ | ⟨rfl, hlow, hy⟩)
    · by_cases hleft : y < 6
      · exact .inl (.inl (.inl ⟨y, hleft, rfl, rfl⟩))
      · exact .inl (.inl (.inr (by omega)))
    · by_cases htop : x < 6
      · exact .inl (.inr ⟨5 - x, by omega, by omega, rfl⟩)
      · exact .inl (.inl (.inr (by omega)))
    · exact .inr (.inl ⟨size - 1 - x, by omega, by omega, rfl⟩)
    · exact .inr (.inr ⟨y - (size - 7), by omega, rfl, by omega⟩)

-- ============================================================== the regions

/-- The code's crossings are the specification's centres, each inside the
timing lines' ends. -/
theorem crossings_eq (h : Version version) :
    crossings (alignmentPositions version) = (centres version).map Prod.swap
      ∧ ∀ c ∈ centres version, (6 ≤ c.1 ∧ c.1 + 7 ≤ sizeOf version)
        ∧ 6 ≤ c.2 ∧ c.2 + 7 ≤ sizeOf version := by
  have hall : ∀ v < 41, 1 ≤ v →
      crossings (alignmentPositions v) = (centres v).map Prod.swap
        ∧ ∀ c ∈ centres v, (6 ≤ c.1 ∧ c.1 + 7 ≤ sizeOf v) ∧ 6 ≤ c.2 ∧ c.2 + 7 ≤ sizeOf v := by
    decide +kernel
  exact hall version (Nat.lt_succ_of_le h.2) h.1

/-- The centres are the same both ways. -/
theorem mem_centres_swap {c : Nat × Nat} (h : c ∈ centres version) : c.swap ∈ centres version := by
  obtain ⟨a, b⟩ := c
  rw [centres] at h ⊢
  simp only [List.mem_filter, List.mem_flatMap, List.mem_map, Prod.mk.injEq, exists_eq_right_right,
    Prod.swap_prod_mk, List.mem_cons, List.not_mem_nil, or_false,
    decide_eq_true_eq] at h ⊢
  obtain ⟨⟨ha, hb⟩, hne⟩ := h
  exact ⟨⟨hb, ha⟩, fun hcorner => hne (by omega)⟩

/-- The version blocks. -/
def versionBlocks (version : Nat) : List Rect :=
  if version ≥ 7 then [⟨sizeOf version - 11, 0, 3, 6⟩, ⟨0, sizeOf version - 11, 6, 3⟩] else []

theorem versionBlocks_has : (versionBlocks version).any (·.has x y) = true ↔ 7 ≤ version ∧
    ((sizeOf version - 11 ≤ x ∧ x < sizeOf version - 8 ∧ y < 6)
      ∨ (x < 6 ∧ sizeOf version - 11 ≤ y ∧ y < sizeOf version - 8)) := by
  have hsize : sizeOf version = version * 4 + 17 := rfl
  rw [versionBlocks]
  split
  next hv =>
    have hright : (⟨sizeOf version - 11, 0, 3, 6⟩ : Rect).has x y = true
        ↔ sizeOf version - 11 ≤ x ∧ x < sizeOf version - 8 ∧ y < 6 := by
      rw [Rect.has_iff]
      dsimp only
      omega
    have hbottom : (⟨0, sizeOf version - 11, 6, 3⟩ : Rect).has x y = true
        ↔ x < 6 ∧ sizeOf version - 11 ≤ y ∧ y < sizeOf version - 8 := by
      rw [Rect.has_iff]
      dsimp only
      omega
    simp only [List.any_cons, List.any_nil, Bool.or_false, Bool.or_eq_true, hright, hbottom]
    exact (and_iff_right hv).symm
  next hv => exact iff_of_false Bool.false_ne_true fun h => hv h.1

theorem isFunction_iff : isFunction version x y = true ↔
    (x < 9 ∧ y < 9) ∨ (sizeOf version - 8 ≤ x ∧ x < sizeOf version ∧ y < 9)
      ∨ (x < 9 ∧ sizeOf version - 8 ≤ y ∧ y < sizeOf version) ∨ (x < sizeOf version ∧ y = 6)
      ∨ (x = 6 ∧ y < sizeOf version)
      ∨ (∃ c ∈ centres version, (⟨c.1 - 2, c.2 - 2, 5, 5⟩ : Rect).has x y = true)
      ∨ 7 ≤ version ∧ ((sizeOf version - 11 ≤ x ∧ x < sizeOf version - 8 ∧ y < 6)
        ∨ (x < 6 ∧ sizeOf version - 11 ≤ y ∧ y < sizeOf version - 8)) := by
  have hsize : sizeOf version = version * 4 + 17 := rfl
  have haligns : ((centres version).map fun c => (⟨c.1 - 2, c.2 - 2, 5, 5⟩ : Rect)).any
      (·.has x y) = true
        ↔ ∃ c ∈ centres version, (⟨c.1 - 2, c.2 - 2, 5, 5⟩ : Rect).has x y = true := by
    rw [List.any_map, List.any_eq_true]
    rfl
  have hcorner : (⟨0, 0, 9, 9⟩ : Rect).has x y = true ↔ x < 9 ∧ y < 9 := by
    rw [Rect.has_iff]
    dsimp only
    omega
  have hright : (⟨sizeOf version - 8, 0, 8, 9⟩ : Rect).has x y = true
      ↔ sizeOf version - 8 ≤ x ∧ x < sizeOf version ∧ y < 9 := by
    rw [Rect.has_iff]
    dsimp only
    omega
  have hbottom : (⟨0, sizeOf version - 8, 9, 8⟩ : Rect).has x y = true
      ↔ x < 9 ∧ sizeOf version - 8 ≤ y ∧ y < sizeOf version := by
    rw [Rect.has_iff]
    dsimp only
    omega
  have hrow : (⟨0, 6, sizeOf version, 1⟩ : Rect).has x y = true ↔ x < sizeOf version ∧ y = 6 := by
    rw [Rect.has_iff]
    dsimp only
    omega
  have hcolumn : (⟨6, 0, 1, sizeOf version⟩ : Rect).has x y = true
      ↔ x = 6 ∧ y < sizeOf version := by
    rw [Rect.has_iff]
    dsimp only
    omega
  have hregions : regions version = [⟨0, 0, 9, 9⟩, ⟨sizeOf version - 8, 0, 8, 9⟩,
      ⟨0, sizeOf version - 8, 9, 8⟩, ⟨0, 6, sizeOf version, 1⟩, ⟨6, 0, 1, sizeOf version⟩]
    ++ (centres version).map (fun c => ⟨c.1 - 2, c.2 - 2, 5, 5⟩) ++ versionBlocks version := rfl
  rw [isFunction, hregions, List.any_append, List.any_append, Bool.or_eq_true, Bool.or_eq_true,
    versionBlocks_has, haligns]
  simp only [List.any_cons, List.any_nil, Bool.or_false, Bool.or_eq_true, hcorner, hright, hbottom,
    hrow, hcolumn, or_assoc]

/-- The code reserves the modules of the specification's regions. -/
theorem reserved_eq (h : Version version) (hx : x < sizeOf version) (hy : y < sizeOf version) :
    (functionPatterns version).reserved x y = isFunction version x y := by
  have hsize : sizeOf version = version * 4 + 17 := rfl
  obtain ⟨hcrossings, hcentres⟩ := crossings_eq h
  have halign : At (alignmentWrites (alignmentPositions version)) x y
      ↔ ∃ c ∈ centres version, (⟨c.1 - 2, c.2 - 2, 5, 5⟩ : Rect).has x y = true := by
    have hin : ∀ c ∈ crossings (alignmentPositions version), 2 ≤ c.1 ∧ 2 ≤ c.2 := by
      rw [hcrossings]
      intro c hc
      obtain ⟨c, hcentre, rfl⟩ := List.mem_map.1 hc
      have hbounds := hcentres c hcentre
      rw [Prod.fst_swap, Prod.snd_swap]
      omega
    have hnear : ∀ c ∈ centres version,
        (near c x y ↔ (⟨c.1 - 2, c.2 - 2, 5, 5⟩ : Rect).has x y = true) := by
      intro c hc
      have hbounds := hcentres c hc
      rw [near, Rect.has_iff]
      dsimp only
      omega
    rw [at_alignment hin, hcrossings]
    constructor
    · rintro ⟨c, hc, hcnear⟩
      obtain ⟨c, hcentre, rfl⟩ := List.mem_map.1 hc
      have hswapped := mem_centres_swap hcentre
      exact ⟨_, hswapped, (hnear _ hswapped).1 hcnear⟩
    · rintro ⟨c, hc, hhas⟩
      exact ⟨c, List.mem_map.2 ⟨_, mem_centres_swap hc, Prod.swap_swap c⟩, (hnear c hc).2 hhas⟩
  have hdark : At [⟨8, sizeOf version - 8, true⟩] x y ↔ x = 8 ∧ y = sizeOf version - 8 := by
    simp only [At, List.mem_singleton, exists_eq_left, eq_comm]
  rw [Bool.eq_iff_iff, functionPatterns, writeAll_at, isFunction_iff, ← halign]
  dsimp only [patternWrites]
  simp only [at_append, at_timing, at_finder, at_version, hdark,
    at_format (show 15 ≤ sizeOf version by omega)]
  generalize At (alignmentWrites (alignmentPositions version)) x y = aligned
  by_cases haligned : aligned
  · simp only [haligned, true_or, or_true]
  · simp only [haligned, false_or, or_false, Bool.false_eq_true]
    constructor
    · rintro (((((((h | h) | h) | h) | h) | h) | h) | h)
      · exact .inr (.inr (.inr (.inr (.inl h))))
      · exact .inr (.inr (.inr (.inl h)))
      · exact .inl (by omega)
      · exact .inr (.inl (by omega))
      · exact .inr (.inr (.inl (by omega)))
      · exact .inr (.inr (.inr (.inr (.inr h))))
      · rcases h with h | h | h | h
        · exact .inl (by omega)
        · exact .inl (by omega)
        · exact .inr (.inl (by omega))
        · exact .inr (.inr (.inl (by omega)))
      · exact .inr (.inr (.inl (by omega)))
    · -- a corner is a finder pattern, the format strips beside it and what the
      -- timing lines leave of these
      rintro (h | h | h | h | h | h)
      · by_cases hxline : x = 6
        · exact .inl (.inl (.inl (.inl (.inl (.inl (.inl (by omega)))))))
        · by_cases hyline : y = 6
          · exact .inl (.inl (.inl (.inl (.inl (.inl (.inr (by omega)))))))
          · by_cases hcolumn : x = 8
            · exact .inl (.inr (.inl (by omega)))
            · by_cases hrow : y = 8
              · exact .inl (.inr (.inr (.inl (by omega))))
              · exact .inl (.inl (.inl (.inl (.inl (.inr (by omega))))))
      · by_cases hrow : y = 8
        · exact .inl (.inr (.inr (.inr (.inl (by omega)))))
        · exact .inl (.inl (.inl (.inl (.inr (by omega)))))
      · by_cases hcolumn : x = 8
        · by_cases hdarkRow : y = sizeOf version - 8
          · exact .inr ⟨hcolumn, hdarkRow⟩
          · exact .inl (.inr (.inr (.inr (.inr (by omega)))))
        · exact .inl (.inl (.inl (.inr (by omega))))
      · exact .inl (.inl (.inl (.inl (.inl (.inl (.inr h))))))
      · exact .inl (.inl (.inl (.inl (.inl (.inl (.inl h))))))
      · exact .inl (.inl (.inr h))

-- =============================================================== the capacity

/-- An alignment pattern without what it shares with a timing line. -/
def pieces (c : Nat × Nat) : List Rect :=
  if c.2 = 6 then [⟨c.1 - 2, 4, 5, 2⟩, ⟨c.1 - 2, 7, 5, 2⟩]
  else if c.1 = 6 then [⟨4, c.2 - 2, 2, 5⟩, ⟨7, c.2 - 2, 2, 5⟩]
  else [⟨c.1 - 2, c.2 - 2, 5, 5⟩]

/-- The corners, and the timing lines between them. -/
def frame (size : Nat) : List Rect :=
  [⟨0, 0, 9, 9⟩, ⟨size - 8, 0, 8, 9⟩, ⟨0, size - 8, 9, 8⟩, ⟨9, 6, size - 17, 1⟩,
    ⟨6, 9, 1, size - 17⟩]

/-- The regions, cut into pieces that are apart. -/
def tiles (version : Nat) : List Rect :=
  frame (sizeOf version) ++ (centres version).flatMap pieces ++ versionBlocks version

/-- What is left of a pattern that crosses a timing line, and the line. -/
theorem pieces_has {c : Nat × Nat} (hx : 6 ≤ c.1) (hy : 6 ≤ c.2) :
    ((pieces c).any (·.has x y) = true → (⟨c.1 - 2, c.2 - 2, 5, 5⟩ : Rect).has x y = true)
      ∧ ((⟨c.1 - 2, c.2 - 2, 5, 5⟩ : Rect).has x y = true →
        y = 6 ∨ x = 6 ∨ (pieces c).any (·.has x y) = true) := by
  have hcases : (pieces c).any (·.has x y) = true ↔
      (c.2 = 6 ∧ (c.1 - 2 ≤ x ∧ x < c.1 + 3) ∧ (4 ≤ y ∧ y < 9) ∧ y ≠ 6)
        ∨ (c.2 ≠ 6 ∧ c.1 = 6 ∧ ((4 ≤ x ∧ x < 9) ∧ x ≠ 6) ∧ c.2 - 2 ≤ y ∧ y < c.2 + 3)
        ∨ (c.2 ≠ 6 ∧ c.1 ≠ 6 ∧ (c.1 - 2 ≤ x ∧ x < c.1 + 3) ∧ c.2 - 2 ≤ y ∧ y < c.2 + 3) := by
    unfold pieces
    split
    next hrow =>
      simp only [List.any_cons, List.any_nil, Bool.or_false, Bool.or_eq_true, Rect.has_iff, hrow,
        true_and, ne_eq, not_true, false_and, or_false]
      omega
    next hrow =>
      split
      next hcolumn =>
        simp only [List.any_cons, List.any_nil, Bool.or_false, Bool.or_eq_true, Rect.has_iff, hrow,
          hcolumn, true_and, ne_eq, not_true, not_false_eq_true, false_and, or_false, false_or]
        omega
      next hcolumn =>
        simp only [List.any_cons, List.any_nil, Bool.or_false, Rect.has_iff, hrow, hcolumn,
          true_and, ne_eq, not_false_eq_true, false_and, false_or]
        omega
  rw [hcases, Rect.has_iff]
  dsimp only
  constructor
  · omega
  · omega

theorem tiles_has (h : Version version) (hx : x < sizeOf version) (hy : y < sizeOf version) :
    (tiles version).any (·.has x y) = isFunction version x y := by
  have hsize : sizeOf version = version * 4 + 17 := rfl
  have hcentres := (crossings_eq h).2
  have haligns : ((centres version).flatMap pieces).any (·.has x y) = true
      ↔ ∃ c ∈ centres version, (pieces c).any (·.has x y) = true := by
    rw [List.any_flatMap, List.any_eq_true]
  have hwhole : (∃ c ∈ centres version, (pieces c).any (·.has x y) = true) →
      ∃ c ∈ centres version, (⟨c.1 - 2, c.2 - 2, 5, 5⟩ : Rect).has x y = true := by
    rintro ⟨c, hc, hhas⟩
    exact ⟨c, hc, (pieces_has (hcentres c hc).1.1 (hcentres c hc).2.1).1 hhas⟩
  have hcut : (∃ c ∈ centres version, (⟨c.1 - 2, c.2 - 2, 5, 5⟩ : Rect).has x y = true) →
      y = 6 ∨ x = 6 ∨ ∃ c ∈ centres version, (pieces c).any (·.has x y) = true := by
    rintro ⟨c, hc, hhas⟩
    rcases (pieces_has (hcentres c hc).1.1 (hcentres c hc).2.1).2 hhas with hrow | hcolumn | hpieces
    · exact .inl hrow
    · exact .inr (.inl hcolumn)
    · exact .inr (.inr ⟨c, hc, hpieces⟩)
  rw [Bool.eq_iff_iff, isFunction_iff, tiles, List.any_append, List.any_append, Bool.or_eq_true,
    Bool.or_eq_true, versionBlocks_has, haligns]
  -- a timing line is the corners it ends in and the piece between them
  have hlines : y = 6 ∨ x = 6 → (frame (sizeOf version)).any (·.has x y) = true := by
    simp only [frame, List.any_cons, List.any_nil, Bool.or_false, Bool.or_eq_true, Rect.has_iff]
    omega
  constructor
  · rintro ((h | h) | h)
    · simp only [frame, List.any_cons, List.any_nil, Bool.or_false, Bool.or_eq_true,
        Rect.has_iff] at h
      rcases h with h | h | h | h | h
      · exact .inl (by omega)
      · exact .inr (.inl (by omega))
      · exact .inr (.inr (.inl (by omega)))
      · exact .inr (.inr (.inr (.inl (by omega))))
      · exact .inr (.inr (.inr (.inr (.inl (by omega)))))
    · exact .inr (.inr (.inr (.inr (.inr (.inl (hwhole h))))))
    · exact .inr (.inr (.inr (.inr (.inr (.inr h)))))
  · rintro (h | h | h | h | h | h | h)
    · refine .inl (.inl ?_)
      simp only [frame, List.any_cons, Bool.or_eq_true, Rect.has_iff]
      exact .inl (by omega)
    · refine .inl (.inl ?_)
      simp only [frame, List.any_cons, Bool.or_eq_true, Rect.has_iff]
      exact .inr (.inl (by omega))
    · refine .inl (.inl ?_)
      simp only [frame, List.any_cons, Bool.or_eq_true, Rect.has_iff]
      exact .inr (.inr (.inl (by omega)))
    · exact .inl (.inl (hlines (.inl h.2)))
    · exact .inl (.inl (hlines (.inr h.1)))
    · rcases hcut h with hrow | hcolumn | hpieces
      · exact .inl (.inl (hlines (.inl hrow)))
      · exact .inl (.inl (hlines (.inr hcolumn)))
      · exact .inl (.inr hpieces)
    · exact .inr h

/-- A column or a row of the one is past the other's. -/
def Spaced (c c' : Nat × Nat) : Prop := c.1 + 5 ≤ c'.1 ∨ c.2 + 5 ≤ c'.2

theorem centres_spaced (h : Version version) : (centres version).Pairwise Spaced := by
  have hall : ∀ v < 41, (alignmentTable.getD v []).Pairwise (· + 5 ≤ ·) := by decide +kernel
  have hpositions := hall version (Nat.lt_succ_of_le h.2)
  refine List.Pairwise.filter _ (List.pairwise_flatMap.2 ⟨fun a _ => ?_, ?_⟩)
  · exact List.pairwise_map.2 (hpositions.imp fun hab => .inr hab)
  · refine hpositions.imp fun hab p hp q hq => ?_
    obtain ⟨_, _, rfl⟩ := List.mem_map.1 hp
    obtain ⟨_, _, rfl⟩ := List.mem_map.1 hq
    exact .inl hab

/-- A piece is inside its alignment pattern. -/
theorem pieces_inside {c : Nat × Nat} {r : Rect} (hx : 6 ≤ c.1) (hy : 6 ≤ c.2)
    (hr : r ∈ pieces c) :
    (c.1 ≤ r.x + 2 ∧ r.x + r.w ≤ c.1 + 3) ∧ c.2 ≤ r.y + 2 ∧ r.y + r.h ≤ c.2 + 3 := by
  unfold pieces at hr
  split at hr
  next hrow =>
    rcases List.mem_pair.1 hr with rfl | rfl
    · dsimp only
      omega
    · dsimp only
      omega
  next hrow =>
    split at hr
    next hcolumn =>
      rcases List.mem_pair.1 hr with rfl | rfl
      · dsimp only
        omega
      · dsimp only
        omega
    next hcolumn =>
      rw [List.mem_singleton.1 hr]
      dsimp only
      omega

theorem pieces_apart (h : Version version) :
    ((centres version).flatMap pieces).Pairwise fun r s => r.apart s = true := by
  have hbounds := (crossings_eq h).2
  refine List.pairwise_flatMap.2 ⟨fun c hc => ?_, ?_⟩
  · -- a pattern that crosses a timing line is cut by it
    unfold pieces
    split
    · exact List.pairwise_pair.2 (by simp [Rect.apart])
    · split
      · exact List.pairwise_pair.2 (by simp [Rect.apart])
      · exact List.pairwise_singleton _ _
  · refine (centres_spaced h).imp_of_mem fun {c c'} hc hc' hspaced r hr s hs => ?_
    have hin := pieces_inside (hbounds c hc).1.1 (hbounds c hc).2.1 hr
    have hin' := pieces_inside (hbounds c' hc').1.1 (hbounds c' hc').2.1 hs
    simp only [Rect.apart, Bool.or_eq_true, decide_eq_true_eq]
    rcases hspaced with hcolumn | hrow
    · exact .inl (.inl (.inl (by omega)))
    · exact .inl (.inr (by omega))

/-- The pieces are apart, in the symbol, and leave what the closed form
says. -/
theorem tiles_apart (h : Version version) :
    (∀ r ∈ tiles version, r.within (sizeOf version) = true)
      ∧ (tiles version).Pairwise (fun r s => r.apart s = true)
      ∧ ((tiles version).map Rect.area).sum + dataModules version
        = sizeOf version * sizeOf version := by
  have hall : ∀ v < 41, 1 ≤ v → (∀ r ∈ tiles v, r.within (sizeOf v) = true)
      ∧ ((frame (sizeOf v)).Pairwise (fun r s => r.apart s = true)
        ∧ ∀ r ∈ frame (sizeOf v), ∀ s ∈ (centres v).flatMap pieces, r.apart s = true)
      ∧ ((versionBlocks v).Pairwise (fun r s => r.apart s = true)
        ∧ ∀ r ∈ frame (sizeOf v) ++ (centres v).flatMap pieces, ∀ s ∈ versionBlocks v,
          r.apart s = true)
      ∧ ((tiles v).map Rect.area).sum + dataModules v = sizeOf v * sizeOf v := by
    decide +kernel
  obtain ⟨hwithin, ⟨hframe, hcut⟩, ⟨hblocks, hbeside⟩, hsum⟩ :=
    hall version (Nat.lt_succ_of_le h.2) h.1
  refine ⟨hwithin, ?_, hsum⟩
  exact List.pairwise_append.2
    ⟨List.pairwise_append.2 ⟨hframe, pieces_apart h, hcut⟩, hblocks, hbeside⟩

/-- The modules that are no function pattern's are as many as the closed
form says. -/
theorem card_free (h : Version version) :
    ((Rect.cells (sizeOf version)).filter fun p => isFunction version p.1 p.2 = false).card
      = dataModules version := by
  obtain ⟨hwithin, hapart, hsum⟩ := tiles_apart h
  have hcount := Rect.card_uncovered hwithin hapart
  have hsame : (Rect.cells (sizeOf version)).filter
      (fun p => (tiles version).any (·.has p.1 p.2) = false)
        = (Rect.cells (sizeOf version)).filter fun p => isFunction version p.1 p.2 = false := by
    refine Finset.filter_congr fun p hp => ?_
    obtain ⟨hx, hy⟩ := Rect.mem_cells.1 hp
    rw [tiles_has h hx hy]
  rw [hsame] at hcount
  omega

/-- The data path goes once through every module that is no function
pattern's. -/
theorem dataPath_spec (h : Version version) :
    (dataPath version).Nodup ∧ (dataPath version).length = dataModules version
      ∧ ∀ p : Nat × Nat, p ∈ dataPath version ↔
        (p.1 < sizeOf version ∧ p.2 < sizeOf version) ∧ isFunction version p.1 p.2 = false := by
  have hnodup : (dataPath version).Nodup := (nodup_zigzag version).filter _
  have hmem : ∀ p : Nat × Nat, p ∈ dataPath version ↔
      (p.1 < sizeOf version ∧ p.2 < sizeOf version) ∧ isFunction version p.1 p.2 = false := by
    intro p
    rw [dataPath, List.mem_filter, mem_zigzag, Bool.not_eq_true']
    constructor
    · rintro ⟨⟨hx, hy, -⟩, hfree⟩
      exact ⟨⟨hx, hy⟩, hfree⟩
    · rintro ⟨⟨hx, hy⟩, hfree⟩
      refine ⟨⟨hx, hy, fun hline => ?_⟩, hfree⟩
      have hfunction : isFunction version p.1 p.2 = true :=
        isFunction_iff.2 (.inr (.inr (.inr (.inr (.inl ⟨hline, hy⟩)))))
      rw [hfunction] at hfree
      cases hfree
  refine ⟨hnodup, ?_, hmem⟩
  rw [← card_free h, ← List.toFinset_card_of_nodup hnodup]
  refine congrArg Finset.card (Finset.ext fun p => ?_)
  rw [List.mem_toFinset, hmem, Finset.mem_filter, Rect.mem_cells]

end Nacre.Qr
