/-
The symbol of a QR code, drawn and read back.

What is drawn is told module by module: on the data path the bits of the
codewords (`placed_path`), turned over by the mask that was chosen; in the
format strips the bits of the format word, in both copies; elsewhere the
function patterns (`drawn`). The masks that were tried leave nothing but
what the format strips are overwritten with (`Undone`).

`qrMatrix_read` is the round trip: either copy of the format gives the mask,
the zigzag the codewords, the blocks the data and the segment the text.
-/
import Nacre.Qr.Pattern

namespace Nacre.Qr

variable {version size x y : Nat} {codewords : List Nat} {grid : Grid}

-- =============================================================== the placement

/-- One module that is free: the next bit, if there is one. -/
def placeFree (codewords : List Nat) (state : Nat × Grid) (p : Nat × Nat) : Nat × Grid :=
  if state.1 < codewords.length * 8 then
    (state.1 + 1, state.2.set p.1 p.2 (bitAt codewords state.1))
  else state

theorem foldl_placeStep (reserved : Grid) (path : List (Nat × Nat)) (state : Nat × Grid) :
    path.foldl (placeStep reserved codewords) state
      = (path.filter fun p => !reserved p.1 p.2).foldl (placeFree codewords) state := by
  induction path generalizing state with
  | nil => rfl
  | cons p path ih =>
    rw [List.foldl_cons, ih, placeStep]
    cases hreserved : reserved p.1 p.2 with
    | true =>
      rw [List.filter_cons_of_neg (by rw [hreserved]; decide), if_pos rfl]
    | false =>
      rw [List.filter_cons_of_pos (by rw [hreserved]; rfl), if_neg Bool.false_ne_true,
        List.foldl_cons]
      rfl

theorem set_same (grid : Grid) (p : Nat × Nat) (dark : Bool) :
    (grid.set p.1 p.2 dark) p.1 p.2 = dark := by
  rw [Grid.set, if_pos ⟨rfl, rfl⟩]

theorem set_other {p q : Nat × Nat} (h : q ≠ p) (dark : Bool) :
    (grid.set p.1 p.2 dark) q.1 q.2 = grid q.1 q.2 := by
  rw [Grid.set, if_neg fun hsame => h (Prod.ext hsame.1 hsame.2)]

/-- The `i`-th module of a path holds the `i`-th bit from `k` on; no other is
touched. -/
theorem placeFree_run {path : List (Nat × Nat)} (hnodup : path.Nodup) (k : Nat) (grid : Grid) :
    (∀ i p, path[i]? = some p → k + i < codewords.length * 8 →
      (path.foldl (placeFree codewords) (k, grid)).2 p.1 p.2 = bitAt codewords (k + i))
    ∧ ∀ p, p ∉ path →
      (path.foldl (placeFree codewords) (k, grid)).2 p.1 p.2 = grid p.1 p.2 := by
  induction path generalizing k grid with
  | nil => exact ⟨nofun, fun p _ => rfl⟩
  | cons q path ih =>
    obtain ⟨hq, hpath⟩ := List.nodup_cons.1 hnodup
    rw [List.foldl_cons, placeFree]
    dsimp only
    split
    next hroom =>
      obtain ⟨hholds, hother⟩ := ih hpath (k + 1) (grid.set q.1 q.2 (bitAt codewords k))
      refine ⟨fun i p hp hi => ?_, fun p hp => ?_⟩
      · cases i with
        | zero =>
          obtain rfl : q = p := Option.some.inj hp
          rw [hother q hq, set_same, Nat.add_zero]
        | succ i =>
          rw [hholds i p hp (by omega)]
          congr 1
          omega
      · rw [List.mem_cons, not_or] at hp
        rw [hother p hp.2, set_other hp.1]
    next hfull =>
      obtain ⟨hholds, hother⟩ := ih hpath k grid
      refine ⟨fun i p hp hi => by omega, fun p hp => ?_⟩
      exact hother p fun hin => hp (List.mem_cons_of_mem q hin)

/-- The codewords laid out on the function patterns. -/
def placed (version : Nat) (codewords : List Nat) : Grid :=
  placeCodewords (sizeOf version) (functionPatterns version).modules
    (functionPatterns version).reserved codewords

theorem placed_eq (h : Version version) : placed version codewords
    = ((dataPath version).foldl (placeFree codewords) (0, (functionPatterns version).modules)).2 := by
  rw [placed, placeCodewords, foldl_placeStep, walk_eq, dataPath]
  refine congrArg (fun path => (List.foldl (placeFree codewords) _ path).2)
    (List.filter_congr fun p hp => ?_)
  obtain ⟨hx, hy, -⟩ := mem_zigzag.1 hp
  rw [reserved_eq h hx hy]

/-- Along the data path, the bits of the codewords. -/
theorem placed_path (h : Version version) {i : Nat} {p : Nat × Nat}
    (hp : (dataPath version)[i]? = some p) (hi : i < codewords.length * 8) :
    placed version codewords p.1 p.2 = bitAt codewords i := by
  have hrun := (@placeFree_run codewords _ (dataPath_spec h).1 0
    (functionPatterns version).modules).1 i p hp (by omega)
  rw [placed_eq h, hrun, Nat.zero_add]

/-- No function pattern is written over. -/
theorem placed_reserved (h : Version version) (hfunction : isFunction version x y = true) :
    placed version codewords x y = (functionPatterns version).modules x y := by
  rw [placed_eq h]
  refine (@placeFree_run codewords _ (dataPath_spec h).1 0 _).2 (x, y) fun hin => ?_
  have hfree := (((dataPath_spec h).2.2 _).1 hin).2
  rw [hfunction] at hfree
  cases hfree

-- ================================================================= the format

theorem writeAll_other {writes : List Write} (h : ¬ At writes x y) :
    writeAll grid writes x y = grid x y := by
  induction writes generalizing grid with
  | nil => rfl
  | cons w writes ih =>
    have hrest : ¬ At writes x y := fun ⟨v, hv, hxy⟩ => h ⟨v, List.mem_cons_of_mem w hv, hxy⟩
    have hfirst : ¬ (x = w.x ∧ y = w.y) := fun hxy =>
      h ⟨w, List.mem_cons_self, hxy.1.symm, hxy.2.symm⟩
    have hstep := @ih (grid.set w.x w.y w.dark) hrest
    rw [writeAll] at hstep
    rw [writeAll, List.foldl_cons, hstep, Grid.set, if_neg hfirst]

theorem placeCopy_other {copy : List (Nat × Nat)} (h : (x, y) ∉ copy) (word : Nat) :
    placeCopy grid word copy x y = grid x y := by
  refine writeAll_other ?_
  rintro ⟨w, hw, rfl, rfl⟩
  obtain ⟨⟨p, i⟩, hp, rfl⟩ := List.mem_map.1 hw
  exact h (List.mem_of_getElem? (List.mk_mem_zipIdx_iff_getElem?.1 hp))

/-- A copy holds the bits of the word. -/
theorem placeCopy_at {copy : List (Nat × Nat)} (hnodup : copy.Nodup) (word : Nat) {i : Nat}
    {p : Nat × Nat} (hp : copy[i]? = some p) :
    placeCopy grid word copy p.1 p.2 = word.testBit i := by
  have hall : ∀ (copy : List (Nat × Nat)) (k : Nat) (grid : Grid), copy.Nodup →
      ∀ i p, copy[i]? = some p →
        writeAll grid ((copy.zipIdx k).map fun m => ⟨m.1.1, m.1.2, word.testBit m.2⟩) p.1 p.2
          = word.testBit (k + i) := by
    intro copy
    induction copy with
    | nil =>
      intro k grid hnodup i p hp
      cases hp
    | cons q copy ih =>
      intro k grid hnodup i p hp
      obtain ⟨hq, hcopy⟩ := List.nodup_cons.1 hnodup
      rw [List.zipIdx_cons, List.map_cons, writeAll, List.foldl_cons, ← writeAll]
      cases i with
      | zero =>
        obtain rfl : q = p := Option.some.inj hp
        rw [writeAll_other, Nat.add_zero]
        · exact set_same grid q _
        · rintro ⟨w, hw, hxy⟩
          obtain ⟨⟨r, j⟩, hr, rfl⟩ := List.mem_map.1 hw
          have hsame : r = q := Prod.ext hxy.1 hxy.2
          exact hq (hsame ▸ List.fst_mem_of_mem_zipIdx hr)
      | succ i =>
        rw [ih (k + 1) _ hcopy i p hp, Nat.add_assoc, Nat.add_comm 1]
  have hplaced := hall copy 0 grid hnodup i p hp
  rw [Nat.zero_add] at hplaced
  exact hplaced

/-- The code's positions are the specification's modules. -/
theorem formatPositions_eq (hsize : 15 ≤ size) :
    formatPositions size = (Copy.first.modules size, Copy.second.modules size) := by
  rw [formatPositions, Prod.mk.injEq]
  refine ⟨by simp only [Copy.modules]; decide, ?_⟩
  simp only [Copy.modules, List.range_succ, List.range_zero, List.nil_append,
    List.map_cons, List.map_nil, List.cons_append, List.cons.injEq, Prod.mk.injEq, true_and, and_true]
  omega

theorem mem_first {p : Nat × Nat} (h : p ∈ Copy.first.modules size) : p.1 ≤ 8 ∧ p.2 ≤ 8 := by
  have hall : ∀ p ∈ [(8, 0), (8, 1), (8, 2), (8, 3), (8, 4), (8, 5), (8, 7), (8, 8), (7, 8), (5, 8),
      (4, 8), (3, 8), (2, 8), (1, 8), (0, 8)], p.1 ≤ 8 ∧ p.2 ≤ 8 := by decide
  exact hall p h

theorem mem_second {p : Nat × Nat} (h : p ∈ Copy.second.modules size) :
    size - 8 ≤ p.1 ∨ size - 7 ≤ p.2 := by
  simp only [Copy.modules, List.mem_cons, List.not_mem_nil, or_false] at h
  rcases h with rfl | rfl | rfl | rfl | rfl | rfl | rfl | rfl | rfl | rfl | rfl | rfl | rfl | rfl | rfl <;>
    dsimp only <;> omega

theorem nodup_copy (hsize : 17 ≤ size) (copy : Copy) : (copy.modules size).Nodup := by
  cases copy with
  | first => simp only [Copy.modules]; decide
  | second =>
    have heq : Copy.second.modules size = (List.range 8).map (fun i => (size - 1 - i, 8))
        ++ (List.range 7).map fun k => (8, size - 15 + (k + 8)) :=
      (congrArg Prod.snd (formatPositions_eq (show 15 ≤ size by omega))).symm
    rw [heq, List.nodup_append]
    refine ⟨List.Nodup.map_on (fun i hi j hj hij => ?_) List.nodup_range,
      List.Nodup.map_on (fun i hi j hj hij => ?_) List.nodup_range, fun p hp q hq hpq => ?_⟩
    · rw [List.mem_range] at hi hj
      have hsame := (Prod.mk.inj hij).1
      omega
    · have hsame := (Prod.mk.inj hij).2
      omega
    · obtain ⟨i, hi, rfl⟩ := List.mem_map.1 hp
      obtain ⟨k, hk, rfl⟩ := List.mem_map.1 hq
      rw [List.mem_range] at hi
      have hsame := (Prod.mk.inj hpq).1
      omega

theorem placeFormat_eq (hsize : 15 ≤ size) (mask : Nat) : placeFormat size grid mask
    = placeCopy (placeCopy grid (formatWord mask) (Copy.first.modules size)) (formatWord mask)
      (Copy.second.modules size) := by
  rw [placeFormat, formatPositions_eq hsize]

/-- Both copies hold the bits of the format word. -/
theorem placeFormat_at (hsize : 17 ≤ size) (mask : Nat) (copy : Copy) {i : Nat} {p : Nat × Nat}
    (hp : (copy.modules size)[i]? = some p) :
    placeFormat size grid mask p.1 p.2 = (formatWord mask).testBit i := by
  rw [placeFormat_eq (by omega)]
  cases copy with
  | first =>
    have hfirst := mem_first (List.mem_of_getElem? hp)
    rw [placeCopy_other fun hin => by
      have hsecond := mem_second hin
      dsimp only at hsecond
      omega]
    exact placeCopy_at (nodup_copy hsize .first) _ hp
  | second => exact placeCopy_at (nodup_copy hsize .second) _ hp

theorem placeFormat_other (hsize : 15 ≤ size) (mask : Nat) (h : ¬ At (formatWrites size) x y) :
    placeFormat size grid mask x y = grid x y := by
  have hnot : ∀ copy : Copy, (x, y) ∉ copy.modules size := by
    intro copy hin
    refine h ⟨⟨x, y, false⟩, List.mem_map.2 ⟨(x, y), ?_, rfl⟩, rfl, rfl⟩
    rw [formatPositions_eq hsize, List.mem_append]
    cases copy with
    | first => exact .inl hin
    | second => exact .inr hin
  rw [placeFormat_eq hsize, placeCopy_other (hnot .second), placeCopy_other (hnot .first)]

/-- The format strips are function patterns. -/
theorem format_function (h : At (formatWrites (sizeOf version)) x y) :
    isFunction version x y = true := by
  have hsize : sizeOf version = version * 4 + 17 := rfl
  rw [at_format (by omega)] at h
  rw [isFunction_iff]
  rcases h with h | h | h | h
  · exact .inl (by omega)
  · exact .inl (by omega)
  · exact .inr (.inl (by omega))
  · exact .inr (.inr (.inl (by omega)))

-- ================================================================== the masks

theorem masks_eq (mask x y : Nat) : masks mask x y = maskBit mask y x := by
  unfold masks maskBit
  split <;> simp only [Nat.add_comm, Nat.mul_comm]

theorem applyMask_eq (reserved : Grid) (mask : Nat) (hx : x < size) (hy : y < size) :
    applyMask size grid reserved mask x y
      = if reserved x y = true then grid x y else (grid x y ^^ masks mask x y) := by
  rw [applyMask]
  cases hreserved : reserved x y with
  | true => rw [if_pos rfl, if_neg fun h => Bool.noConfusion h.2.2.1]
  | false =>
    rw [if_neg Bool.false_ne_true]
    cases hmask : masks mask x y with
    | true => rw [if_pos ⟨hx, hy, rfl, rfl⟩, Bool.xor_true]
    | false => rw [if_neg fun h => Bool.noConfusion h.2.2.2, Bool.xor_false]

/-- The trials leave the grid as it was, but for the format strips. -/
structure Undone (version : Nat) (start : Grid) (trial : Trial) : Prop where
  best : trial.best < 8
  modules : ∀ x y, x < sizeOf version → y < sizeOf version →
    ¬ At (formatWrites (sizeOf version)) x y → trial.modules x y = start x y

theorem tryMask_undone {start : Grid} {trial : Trial} (h : Undone version start trial)
    (reserved : Grid) {mask : Nat} (hmask : mask < 8) :
    Undone version start (tryMask (sizeOf version) reserved trial mask) := by
  have hsize : 15 ≤ sizeOf version := by rw [sizeOf]; omega
  refine ⟨?_, fun x y hx hy hformat => ?_⟩
  · rw [tryMask]
    dsimp only
    split
    · exact hmask
    · exact h.best
  · rw [← h.modules x y hx hy hformat, tryMask]
    dsimp only
    rw [applyMask_eq reserved mask hx hy, placeFormat_other hsize mask hformat,
      applyMask_eq reserved mask hx hy]
    split
    · rfl
    · rw [Bool.xor_assoc, Bool.xor_self, Bool.xor_false]

theorem trials_undone (version : Nat) (start reserved : Grid) :
    Undone version start ((List.range 8).foldl (tryMask (sizeOf version) reserved) ⟨start, 0, none⟩) := by
  have hall : ∀ (ms : List Nat) (trial : Trial), (∀ m ∈ ms, m < 8) → Undone version start trial →
      Undone version start (ms.foldl (tryMask (sizeOf version) reserved) trial) := by
    intro ms
    induction ms with
    | nil => exact fun trial _ h => h
    | cons m ms ih =>
      intro trial hms h
      obtain ⟨hm, hrest⟩ := List.forall_mem_cons.1 hms
      exact ih _ hrest (tryMask_undone h reserved hm)
  exact hall _ _ (fun m hm => List.mem_range.1 hm) ⟨Nat.zero_lt_succ 7, fun x y _ _ _ => rfl⟩

-- ================================================================== the symbol

/-- What a symbol shows. -/
structure Shows (version : Nat) (codewords : List Nat) (mask : Nat) (symbol : Grid) : Prop where
  pattern : mask < 8
  format : ∀ (copy : Copy) (i : Nat) (p : Nat × Nat), (copy.modules (sizeOf version))[i]? = some p →
    symbol p.1 p.2 = (formatWord mask).testBit i
  data : ∀ (i : Nat) (p : Nat × Nat), (dataPath version)[i]? = some p → i < codewords.length * 8 →
    symbol p.1 p.2 = (bitAt codewords i ^^ maskBit mask p.2 p.1)
  patterns : ∀ x y, x < sizeOf version → y < sizeOf version → isFunction version x y = true →
    ¬ At (formatWrites (sizeOf version)) x y → symbol x y = (functionPatterns version).modules x y

theorem draw_shows (h : Version version) (codewords : List Nat) :
    ∃ mask symbol, draw version codewords = rows (sizeOf version) symbol
      ∧ Shows version codewords mask symbol := by
  have hsize : 17 ≤ sizeOf version := by rw [sizeOf]; omega
  have htrials := trials_undone version (placed version codewords) (functionPatterns version).reserved
  let trial := (List.range 8).foldl (tryMask (sizeOf version) (functionPatterns version).reserved)
    ⟨placed version codewords, 0, none⟩
  have hundone : Undone version (placed version codewords) trial := htrials
  refine ⟨trial.best, placeFormat (sizeOf version)
    (applyMask (sizeOf version) trial.modules (functionPatterns version).reserved trial.best)
      trial.best, rfl, hundone.best, fun copy i p hp => placeFormat_at hsize _ copy hp,
    fun i p hp hi => ?_, fun x y hx hy hfunction hformat => ?_⟩
  · obtain ⟨⟨hx, hy⟩, hfree⟩ := ((dataPath_spec h).2.2 p).1 (List.mem_of_getElem? hp)
    have hformat : ¬ At (formatWrites (sizeOf version)) p.1 p.2 := fun hat => by
      rw [format_function hat] at hfree
      cases hfree
    rw [placeFormat_other (by omega) _ hformat, applyMask_eq _ _ hx hy, reserved_eq h hx hy, hfree,
      if_neg Bool.false_ne_true, hundone.modules p.1 p.2 hx hy hformat, placed_path h hp hi, masks_eq]
  · rw [placeFormat_other (by omega) _ hformat, applyMask_eq _ _ hx hy, reserved_eq h hx hy,
      hfunction, if_pos rfl, hundone.modules x y hx hy hformat, placed_reserved h hfunction]

-- ================================================================= the reading

variable {mask : Nat} {symbol : Grid}

theorem moduleAt_rows (hx : x < size) (hy : y < size) :
    moduleAt (rows size symbol) x y = symbol x y := by
  rw [moduleAt, rows, List.getD_eq_getElem?_getD, List.getD_eq_getElem?_getD, List.getElem?_map,
    List.getElem?_range hy, Option.map_some, Option.getD_some, List.getElem?_map,
    List.getElem?_range hx, Option.map_some, Option.getD_some]

theorem length_rows : (rows size symbol).length = size := by
  rw [rows, List.length_map, List.length_range]

theorem copy_inside (hsize : 17 ≤ size) {copy : Copy} {p : Nat × Nat} (h : p ∈ copy.modules size) :
    p.1 < size ∧ p.2 < size := by
  cases copy with
  | first =>
    have hfirst := mem_first h
    omega
  | second =>
    simp only [Copy.modules, List.mem_cons, List.not_mem_nil, or_false] at h
    rcases h with rfl | rfl | rfl | rfl | rfl | rfl | rfl | rfl | rfl | rfl | rfl | rfl | rfl | rfl
      | rfl <;> dsimp only <;> omega

theorem length_copy (copy : Copy) : (copy.modules size).length = 15 := by
  cases copy <;> rfl

/-- Either copy names the mask. -/
theorem readMask_eq (h : Shows version codewords mask symbol) (copy : Copy) :
    readMask (rows (sizeOf version) symbol) copy = some mask := by
  have hsize : 17 ≤ sizeOf version := by rw [sizeOf]; omega
  have hbits : (copy.modules (sizeOf version)).map
      (fun p => moduleAt (rows (sizeOf version) symbol) p.1 p.2)
        = (List.range 15).map fun i => (formatWord mask).testBit i := by
    refine List.ext_getElem (by rw [List.length_map, List.length_map, length_copy, List.length_range])
      fun i hi hi' => ?_
    rw [List.length_map] at hi
    have hinside := copy_inside hsize (List.getElem_mem hi)
    rw [List.getElem_map, List.getElem_map, moduleAt_rows hinside.1 hinside.2,
      h.format copy i _ (List.getElem?_eq_getElem hi), List.getElem_range]
  have hwords : ∀ m < 8, (Bits.toNat ((List.range 15).map
      fun i => (formatWord m).testBit i).reverse ^^^ 0x5412) >>> 10 = m := by
    decide +kernel
  rw [readMask, length_rows, hbits, hwords mask h.pattern, if_pos (Nat.div_eq_of_lt h.pattern),
    Nat.mod_eq_of_lt h.pattern]

theorem bitAt_eq {k c : Nat} (h : codewords[k / 8]? = some c) :
    bitAt codewords k = c.testBit (7 - k % 8) := by
  have hlow : k &&& 7 = k % 8 := Nat.and_two_pow_sub_one_eq_mod k 3
  have hbyte : k >>> 3 = k / 8 := Nat.shiftRight_eq_div_pow k 3
  rw [bitAt, List.getD_eq_getElem?_getD, hbyte, h, Option.getD_some, hlow, and_one]
  cases c.testBit (7 - k % 8) <;> rfl

/-- The codewords are read back along the zigzag. -/
theorem readStream_eq (hversion : Version version) (h : Shows version codewords mask symbol)
    (hlength : codewords.length = totalCodewords version) (hbytes : Bytes codewords) :
    readStream (rows (sizeOf version) symbol) version mask = codewords := by
  obtain ⟨-, hcount, hpath⟩ := dataPath_spec hversion
  let bits := (dataPath version).map fun p =>
    moduleAt (rows (sizeOf version) symbol) p.1 p.2 ^^ maskBit mask p.2 p.1
  have hlen : bits.length = dataModules version := by rw [List.length_map, hcount]
  have htotal : codewords.length = dataModules version / 8 := hlength
  have hfirst : bits.take (8 * codewords.length) = codewords.flatMap (Bits.ofNat 8) := by
    have hflat := Bits.length_flatMap codewords
    refine List.ext_getElem? fun i => ?_
    by_cases hi : i < 8 * codewords.length
    · have hin : i < (dataPath version).length := by omega
      obtain ⟨⟨hx, hy⟩, -⟩ := (hpath _).1 (List.getElem_mem hin)
      have hcodeword : codewords[i / 8]? = some codewords[i / 8] :=
        List.getElem?_eq_getElem (by omega)
      rw [List.getElem?_take_of_lt hi, Bits.getElem?_flatMap hcodeword, List.getElem?_map,
        List.getElem?_eq_getElem hin, Option.map_some, moduleAt_rows hx hy,
        h.data i _ (List.getElem?_eq_getElem hin) (by omega), bitAt_eq hcodeword, Bool.xor_assoc,
        Bool.xor_self, Bool.xor_false]
    · rw [List.getElem?_eq_none (by rw [List.length_take]; omega),
        List.getElem?_eq_none (by omega)]
  have hrest : (bits.drop (8 * codewords.length)).length < 8 := by
    rw [List.length_drop]
    omega
  show Bits.octets bits = codewords
  rw [← List.take_append_drop (8 * codewords.length) bits, hfirst]
  exact Bits.octets_flatMap hbytes hrest

-- =============================================================== the round trip

/-- A symbol of a text, read from either copy of the format: the text as it
is encoded, and itself where it has an encoding. -/
structure Reads (text : List UInt16) (version : Nat) (symbol : List (List Bool)) (copy : Copy)
    (reading : Reading) : Prop where
  read : read symbol copy = some reading
  named : reading.version = version
  encoded : reading.text = Utf8.repaired text
  exact : Units.isWellFormed text = true → reading.text = text
  blocks : reading.blocks.length = blockCount version
    ∧ ∀ b ∈ reading.blocks, b.Codeword version

/-- The modules that are no function pattern's: as many as `dataModules`,
each once on the data path. -/
structure Laid (version : Nat) : Prop where
  reserved : ∀ x y, x < sizeOf version → y < sizeOf version →
    (functionPatterns version).reserved x y = isFunction version x y
  count : ((Rect.cells (sizeOf version)).filter fun p =>
    (functionPatterns version).reserved p.1 p.2 = false).card = dataModules version
  path : (dataPath version).Nodup ∧ (dataPath version).length = dataModules version
  room : 8 * totalCodewords version ≤ dataModules version

theorem laid (h : Version version) : Laid version := by
  obtain ⟨hnodup, hlength, -⟩ := dataPath_spec h
  refine ⟨fun x y hx hy => reserved_eq h hx hy, ?_, ⟨hnodup, hlength⟩,
    Nat.mul_div_le (dataModules version) 8⟩
  rw [← card_free h]
  refine congrArg Finset.card (Finset.filter_congr fun p hp => ?_)
  obtain ⟨hx, hy⟩ := Rect.mem_cells.1 hp
  rw [reserved_eq h hx hy]

theorem bytes_of_text (text : List UInt16) : Bytes ((Utf8.bytesOf text).map UInt8.toNat) := by
  intro c hc
  obtain ⟨b, -, rfl⟩ := List.mem_map.1 hc
  exact UInt8.toNat_lt b

theorem text_of_bytes (text : List UInt16) :
    Buffer.decode (((Utf8.bytesOf text).map UInt8.toNat).map UInt8.ofNat) = Utf8.repaired text := by
  rw [List.map_map, ← Utf8.decode_bytesOf]
  refine congrArg Buffer.decode (Eq.trans (List.map_congr_left fun b _ => ?_) (List.map_id _))
  exact UInt8.ofNat_toNat

/-- What is drawn is read back, from either copy of the format; its blocks
are codewords, and the data keep to the modules that are theirs. -/
theorem qrMatrix_read (text : List UInt16)
    (h : versionFor ((Utf8.bytesOf text).map UInt8.toNat).length = some version) :
    Laid version ∧ ∃ mask symbol, qrMatrix text = some (rows (sizeOf version) symbol)
      ∧ Shows version (codewordsOf ((Utf8.bytesOf text).map UInt8.toNat) version) mask symbol
      ∧ ∀ copy, ∃ reading, Reads text version (rows (sizeOf version) symbol) copy reading := by
  obtain ⟨hversion, -⟩ := versionFor_some h
  obtain ⟨hlength, hbytes, hblocks, hparse⟩ := codewordsOf_read h (bytes_of_text text)
  obtain ⟨mask, symbol, hdraw, hshows⟩ := draw_shows hversion
    (codewordsOf ((Utf8.bytesOf text).map UInt8.toNat) version)
  refine ⟨laid hversion, mask, symbol, ?_, hshows, fun copy => ?_⟩
  · rw [qrMatrix, h, Option.map_some, ← codewordsOf, hdraw]
  · have hsize : (sizeOf version - 17) / 4 = version := by
      rw [sizeOf]
      omega
    let reading : Reading :=
      { version, mask
        blocks := (List.range (blockCount version)).map
          (readBlock (codewordsOf ((Utf8.bytesOf text).map UInt8.toNat) version) version)
        text := Buffer.decode (((Utf8.bytesOf text).map UInt8.toNat).map UInt8.ofNat) }
    have hencoded : reading.text = Utf8.repaired text := text_of_bytes text
    refine ⟨reading, ?_, rfl, hencoded, fun hwell => ?_, ?_, hblocks⟩
    · rw [read, length_rows, hsize, readMask_eq hshows copy]
      simp only [Option.bind_eq_bind, Option.bind_some,
        readStream_eq hversion hshows hlength hbytes, hparse]
      rfl
    · rw [hencoded, Utf8.isWellFormed_iff.1 hwell]
    · rw [List.length_map, List.length_range]

/-- An address, in a symbol of the first version. -/
theorem qrMatrix_read_short :
    ∃ symbol, qrMatrix (Json.units "otpauth://") = some symbol
      ∧ ∀ copy, ∃ reading, read symbol copy = some reading
        ∧ reading.text = Json.units "otpauth://" := by
  have hversion : versionFor ((Utf8.bytesOf (Json.units "otpauth://")).map UInt8.toNat).length
      = some 1 := by
    decide +kernel
  obtain ⟨-, mask, symbol, hdrawn, -, hread⟩ := qrMatrix_read (Json.units "otpauth://") hversion
  refine ⟨_, hdrawn, fun copy => ?_⟩
  obtain ⟨reading, hreading⟩ := hread copy
  exact ⟨reading, hreading.read, hreading.exact (by decide +kernel)⟩

end Nacre.Qr
