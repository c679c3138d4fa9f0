/-
The codewords of a QR code read back: the segment from the bits, the data
and the error correction of each block from the interleaved stream.

The interleaving is a row of codewords a round, one of each block, and one
row that only the longer blocks have a codeword in; a codeword is found by
the number of its row and its place in it (`getD_flatMap_range`).
-/
import Nacre.Qr.Reading

namespace Nacre.Qr

variable {version length : Nat} {bytes data : List Nat} {bits : List Bool}

-- =============================================================== the versions

/-- A version there is. -/
def Version (version : Nat) : Prop := 1 ≤ version ∧ version ≤ 40

/-- The numbers of a version fit each other. -/
structure Fits (version : Nat) : Prop where
  blocks : 0 < blockCount version
  ecc : 0 < eccLength version
  short : eccLength version < shortLength version
  head : 4 + countBits version ≤ dataCodewords version * 8
  /-- What fits the version fits its count field. -/
  count : dataCodewords version * 8 < 8 * 2 ^ countBits version + 4 + countBits version

theorem version_fits (h : Version version) : Fits version := by
  have hall : ∀ v < 41, 1 ≤ v → 0 < blockCount v ∧ 0 < eccLength v ∧ eccLength v < shortLength v
      ∧ 4 + countBits v ≤ dataCodewords v * 8
      ∧ dataCodewords v * 8 < 8 * 2 ^ countBits v + 4 + countBits v := by
    decide +kernel
  obtain ⟨hblocks, hecc, hshort, hhead, hcount⟩ := hall version (Nat.lt_succ_of_le h.2) h.1
  exact ⟨hblocks, hecc, hshort, hhead, hcount⟩

theorem versionFor_some (h : versionFor length = some version) :
    Version version ∧ length * 8 + 4 + countBits version ≤ dataCodewords version * 8 := by
  rw [versionFor] at h
  have hmem := List.mem_of_find?_eq_some h
  have hfound := List.find?_some h
  have hfits : length * 8 ≤ dataCodewords version * 8 - 4 - countBits version :=
    of_decide_eq_true hfound
  rw [List.mem_range'_1] at hmem
  have hversion : Version version := ⟨hmem.1, by omega⟩
  have hhead := (version_fits hversion).head
  exact ⟨hversion, by omega⟩

-- ============================================================= the bit stream

theorem pushed_eq (value width : Nat) : pushed value width = Bits.ofNat width value := rfl

theorem byteOf_eq (bits : List Bool) : byteOf bits = Bits.toNat bits := by
  have hstep : ∀ (n : Nat) (bit : Bool), (n <<< 1) ||| bit.toNat = 2 * n + bit.toNat := by
    intro n bit
    rw [← Nat.shiftLeft_add_eq_or_of_lt (by cases bit <;> decide) n, Nat.shiftLeft_eq]
    omega
  rw [byteOf, Bits.toNat]
  simp only [hstep]

theorem toBytes_eq {k : Nat} (h : bits.length = 8 * k) : toBytes bits = Bits.octets bits := by
  rw [toBytes, Bits.octets, show (bits.length + 7) / 8 = bits.length / 8 by omega]
  simp only [byteOf_eq]

theorem padding_spec (n pad : Nat) (h : pad < 256) :
    (padding n pad).length = n ∧ Bytes (padding n pad) := by
  induction n generalizing pad with
  | zero => exact ⟨rfl, nofun⟩
  | succ n ih =>
    obtain ⟨hlen, hbytes⟩ := ih (pad ^^^ (0xec ^^^ 0x11)) (xor_lt h (by decide))
    rw [padding]
    exact ⟨by rw [List.length_cons, hlen], List.forall_mem_cons.2 ⟨h, hbytes⟩⟩

theorem bytes_octets (bits : List Bool) : Bytes (Bits.octets bits) := by
  intro c hc
  obtain ⟨k, -, rfl⟩ := List.mem_map.1 hc
  have hlt := Bits.toNat_lt ((bits.drop (8 * k)).take 8)
  have hle : 2 ^ ((bits.drop (8 * k)).take 8).length ≤ 2 ^ 8 :=
    Nat.pow_le_pow_right (by decide) (List.length_take_le 8 _)
  exact Nat.lt_of_lt_of_le hlt hle

theorem length_segment (bytes : List Nat) (version : Nat) :
    (segment bytes version).length = 4 + countBits version + 8 * bytes.length := by
  have hpayload : (bytes.flatMap (pushed · 8)).length = 8 * bytes.length :=
    Bits.length_flatMap bytes
  rw [segment, List.length_append, List.length_append, hpayload, pushed_eq, pushed_eq,
    Bits.length_ofNat, Bits.length_ofNat]

/-- As many codewords as the version has for data, and their bits begin
with the segment. -/
theorem encodeData_spec
    (h : bytes.length * 8 + 4 + countBits version ≤ dataCodewords version * 8) :
    (encodeData bytes version).length = dataCodewords version
      ∧ Bytes (encodeData bytes version)
      ∧ segment bytes version <+: (encodeData bytes version).flatMap (Bits.ofNat 8) := by
  have hseg := length_segment bytes version
  let ended := segment bytes version
    ++ pushed 0 (min 4 (dataCodewords version * 8 - (segment bytes version).length))
  let whole := ended ++ pushed 0 ((8 - ended.length % 8) % 8)
  have hended : ended.length
      = (segment bytes version).length
        + min 4 (dataCodewords version * 8 - (segment bytes version).length) := by
    rw [List.length_append, pushed_eq, Bits.length_ofNat]
  have hwhole : whole.length = ended.length + (8 - ended.length % 8) % 8 := by
    rw [List.length_append, pushed_eq, Bits.length_ofNat]
  obtain ⟨k, hk⟩ : ∃ k, whole.length = 8 * k := ⟨whole.length / 8, by omega⟩
  obtain ⟨hback, hcount⟩ := Bits.flatMap_octets k whole hk
  obtain ⟨hpad, hpadBytes⟩ := padding_spec (dataCodewords version - (toBytes whole).length) 0xec
    (by decide)
  have hbytes := toBytes_eq hk
  have henc : encodeData bytes version
      = toBytes whole ++ padding (dataCodewords version - (toBytes whole).length) 0xec := rfl
  refine ⟨?_, ?_, ?_⟩
  · rw [henc, List.length_append, hpad, hbytes, hcount]
    omega
  · rw [henc, hbytes]
    intro c hc
    rcases List.mem_append.1 hc with hc | hc
    · exact bytes_octets whole c hc
    · rw [hbytes] at hpadBytes
      exact hpadBytes c hc
  · rw [henc, List.flatMap_append, hbytes, hback]
    exact ((List.prefix_append _ _).trans (List.prefix_append _ _)).trans (List.prefix_append _ _)

/-- A segment is read back from what begins with it. -/
theorem parseBytes_segment (hbytes : Bytes bytes) (hcount : bytes.length < 2 ^ countBits version)
    (h : segment bytes version <+: bits) : parseBytes bits version = some bytes := by
  obtain ⟨rest, rfl⟩ := h
  have hwidth : (if version ≤ 9 then 8 else 16) = countBits version := rfl
  have hpayload : (bytes.flatMap (pushed · 8)).length = 8 * bytes.length :=
    Bits.length_flatMap bytes
  have hmode : (pushed 0b0100 4).length = 4 := by rw [pushed_eq, Bits.length_ofNat]
  have hfield : (pushed bytes.length (countBits version)).length = countBits version := by
    rw [pushed_eq, Bits.length_ofNat]
  rw [parseBytes, hwidth, segment, List.append_assoc, List.append_assoc]
  have htake : (pushed 0b0100 4 ++ (pushed bytes.length (countBits version)
      ++ (bytes.flatMap (pushed · 8) ++ rest))).take 4 = pushed 0b0100 4 :=
    List.take_left' hmode
  have hdrop : (pushed 0b0100 4 ++ (pushed bytes.length (countBits version)
      ++ (bytes.flatMap (pushed · 8) ++ rest))).drop 4
      = pushed bytes.length (countBits version) ++ (bytes.flatMap (pushed · 8) ++ rest) :=
    List.drop_left' hmode
  have hnumber : Bits.toNat (pushed bytes.length (countBits version)) = bytes.length := by
    rw [pushed_eq, Bits.toNat_ofNat, Nat.mod_eq_of_lt hcount]
  simp only [← List.drop_drop, htake, hdrop, List.take_left' hfield, List.drop_left' hfield,
    hnumber]
  rw [if_pos ⟨by decide, by rw [List.length_append, hpayload]; omega⟩,
    List.take_left' (by rw [hpayload, Nat.mul_comm])]
  have hread : Bits.octets (bytes.flatMap (Bits.ofNat 8) ++ []) = bytes :=
    Bits.octets_flatMap hbytes (by decide)
  rw [List.append_nil] at hread
  exact congrArg some hread

-- ======================================================================= rows

section Rows

variable {f : Nat → List Nat} {n w i j : Nat}

theorem length_flatMap_range (hw : ∀ i < n, (f i).length = w) :
    ((List.range n).flatMap f).length = n * w := by
  induction n with
  | zero => rw [List.range_zero, List.flatMap_nil, List.length_nil, Nat.zero_mul]
  | succ n ih =>
    rw [List.range_succ, List.flatMap_append, List.length_append,
      ih fun i hi => hw i (Nat.lt_succ_of_lt hi), List.flatMap_singleton, hw n (Nat.lt_succ_self n),
      Nat.succ_mul]

/-- The entry at a place of a row. -/
theorem getD_flatMap_range (hw : ∀ i < n, (f i).length = w) (hi : i < n) (hj : j < w) :
    ((List.range n).flatMap f).getD (i * w + j) 0 = (f i).getD j 0 := by
  induction n with
  | zero => omega
  | succ n ih =>
    have hbefore : ∀ i < n, (f i).length = w := fun i hi => hw i (Nat.lt_succ_of_lt hi)
    have hlen := length_flatMap_range hbefore
    rw [List.range_succ, List.flatMap_append, List.flatMap_singleton]
    rcases Nat.lt_succ_iff_lt_or_eq.1 hi with hlt | rfl
    · have hrow : (i + 1) * w ≤ n * w := Nat.mul_le_mul_right w hlt
      rw [Nat.succ_mul] at hrow
      rw [List.getD_append _ _ _ _ (by rw [hlen]; omega), ih hbefore hlt]
    · rw [List.getD_append_right _ _ _ _ (by rw [hlen]; omega), hlen, Nat.add_sub_cancel_left]

end Rows

-- ================================================================= the blocks

/-- The data codewords every block has. -/
def rounds (version : Nat) : Nat := shortLength version - eccLength version

/-- A block with its placeholder and its error correction. -/
def wholeBlock (data : List Nat) (version j : Nat) : List Nat :=
  blockData data version j ++ (if j < shortBlocks version then [0] else [])
    ++ remainder (blockData data version j) (generator (eccLength version))

theorem blockStart_eq (version i : Nat) :
    blockStart version i = i * rounds version + (i - shortBlocks version) := by
  induction i with
  | zero => rw [Nat.zero_mul, Nat.zero_sub]; rfl
  | succ i ih =>
    rw [blockStart, List.range_succ, List.map_append, List.sum_append, ← blockStart, ih,
      List.map_singleton, List.sum_singleton, blockLength, ← rounds, Nat.succ_mul]
    split <;> omega

/-- The blocks take up all the data. -/
theorem blockStart_last (h : Fits version) :
    blockStart version (blockCount version) = dataCodewords version := by
  have hshort := h.short
  have hdiv := Nat.div_add_mod (totalCodewords version) (blockCount version)
  have hmod := Nat.mod_lt (totalCodewords version) h.blocks
  have hmul : blockCount version * rounds version + eccLength version * blockCount version
      = blockCount version * shortLength version := by
    rw [rounds, Nat.mul_comm (eccLength version), ← Nat.mul_add, Nat.sub_add_cancel hshort.le]
  rw [blockStart_eq, dataCodewords, shortBlocks]
  rw [shortLength] at hmul
  omega

theorem blockStart_mono {i j : Nat} (h : i ≤ j) : blockStart version i ≤ blockStart version j := by
  have hmul := Nat.mul_le_mul_right (rounds version) h
  rw [blockStart_eq, blockStart_eq]
  omega

theorem blockStart_succ (version i : Nat) :
    blockStart version (i + 1) = blockStart version i + blockLength version i := by
  rw [blockStart, List.range_succ, List.map_append, List.sum_append, List.map_singleton,
    List.sum_singleton, ← blockStart]

theorem length_blockData (h : Fits version) (hdata : data.length = dataCodewords version) {j : Nat}
    (hj : j < blockCount version) : (blockData data version j).length = blockLength version j := by
  have hlast := blockStart_last h
  have hle := @blockStart_mono version (j + 1) _ hj
  rw [blockStart_succ] at hle
  rw [blockData, List.length_take, List.length_drop]
  omega

/-- The data of the blocks, one after another, are the data. -/
theorem flatMap_blockData (h : Fits version) (hdata : data.length = dataCodewords version) :
    (List.range (blockCount version)).flatMap (blockData data version) = data := by
  have hall : ∀ n, (List.range n).flatMap (blockData data version)
      = data.take (blockStart version n) := by
    intro n
    induction n with
    | zero => rfl
    | succ n ih =>
      rw [List.range_succ, List.flatMap_append, ih, List.flatMap_singleton, blockStart_succ,
        List.take_add]
      rfl
  rw [hall, blockStart_last h, ← hdata, List.take_length]

theorem length_remainder (h : Fits version) (data : List Nat) :
    (remainder data (generator (eccLength version))).length = eccLength version :=
  (remainder_codeword data h.ecc).1

theorem length_wholeBlock (h : Fits version) (hdata : data.length = dataCodewords version) {j : Nat}
    (hj : j < blockCount version) :
    (wholeBlock data version j).length = rounds version + 1 + eccLength version := by
  rw [wholeBlock, List.length_append, List.length_append, length_remainder h,
    length_blockData h hdata hj, blockLength, ← rounds]
  split <;> simp

/-- A data codeword of a block. -/
theorem wholeBlock_data {i j : Nat} (hi : i < (blockData data version j).length) :
    (wholeBlock data version j).getD i 0 = (blockData data version j).getD i 0 := by
  rw [wholeBlock, List.append_assoc, List.getD_append _ _ _ _ hi]

/-- A codeword of its error correction. -/
theorem wholeBlock_ecc (h : Fits version) (hdata : data.length = dataCodewords version) {i j : Nat}
    (hj : j < blockCount version) :
    (wholeBlock data version j).getD (rounds version + 1 + i) 0
      = (remainder (blockData data version j) (generator (eccLength version))).getD i 0 := by
  have hlen : (blockData data version j ++ (if j < shortBlocks version then [0] else [])).length
      = rounds version + 1 := by
    rw [List.length_append, length_blockData h hdata hj, blockLength, ← rounds]
    split <;> simp
  rw [wholeBlock, List.getD_append_right _ _ _ _ (by omega), hlen, Nat.add_sub_cancel_left]

-- =========================================================== the interleaving

/-- The codewords of a round. -/
def round (data : List Nat) (version i : Nat) : List Nat :=
  (List.range (blockCount version)).map fun j => (wholeBlock data version j).getD i 0

/-- The round only the longer blocks have a codeword in. -/
def shortRound (data : List Nat) (version : Nat) : List Nat :=
  (List.range (totalCodewords version % blockCount version)).map fun k =>
    (wholeBlock data version (shortBlocks version + k)).getD (rounds version) 0

theorem length_round (data : List Nat) (version i : Nat) :
    (round data version i).length = blockCount version := by
  rw [round, List.length_map, List.length_range]

theorem zipIdx_range {β : Type} (g : Nat → β) (n : Nat) :
    ((List.range n).map g).zipIdx = (List.range n).map fun j => (g j, j) := by
  refine List.ext_getElem (by simp) fun i hi hi' => ?_
  simp

/-- Round after round. -/
theorem withErrorCorrection_eq (h : Fits version) (hdata : data.length = dataCodewords version) :
    withErrorCorrection data version
      = (List.range (rounds version)).flatMap (round data version) ++ (shortRound data version
        ++ (List.range (eccLength version)).flatMap fun i =>
          round data version (rounds version + 1 + i)) := by
  have hblocks : blocks data version
      = (List.range (blockCount version)).map (wholeBlock data version) := rfl
  have hfirst : ((blocks data version).headD []).length
      = rounds version + 1 + eccLength version := by
    obtain ⟨n, hn⟩ := Nat.exists_eq_succ_of_ne_zero h.blocks.ne'
    rw [hblocks, hn, List.range_succ_eq_map, List.map_cons, List.headD_cons,
      length_wholeBlock h hdata h.blocks]
  have hmod := Nat.mod_lt (totalCodewords version) h.blocks
  have hround : ∀ i, ((blocks data version).zipIdx.flatMap fun p =>
      if i ≠ shortLength version - eccLength version ∨ p.2 ≥ shortBlocks version then
        [p.1.getD i 0] else [])
      = if i = rounds version then shortRound data version else round data version i := by
    intro i
    rw [hblocks, zipIdx_range, List.flatMap_map]
    split
    next hi =>
      have hsplit : blockCount version
          = shortBlocks version + totalCodewords version % blockCount version := by
        rw [shortBlocks]
        omega
      have hnone : (List.range (shortBlocks version)).flatMap (fun j =>
          if i ≠ shortLength version - eccLength version ∨ j ≥ shortBlocks version then
            [(wholeBlock data version j).getD i 0] else []) = [] := by
        rw [List.flatMap_eq_nil_iff]
        intro j hj
        rw [List.mem_range] at hj
        rw [if_neg]
        rintro (hne | hge)
        · exact hne hi
        · exact absurd hj (Nat.not_lt.2 hge)
      rw [hsplit, List.range_add, List.flatMap_append, hnone, List.nil_append, List.flatMap_map,
        shortRound, List.map_eq_flatMap]
      refine congrArg (fun f => List.flatMap f _) (funext fun k => ?_)
      dsimp only
      rw [if_pos (.inr (Nat.le_add_right _ k)), hi]
    next hi =>
      rw [round, List.map_eq_flatMap]
      refine congrArg (fun f => List.flatMap f _) (funext fun j => ?_)
      dsimp only
      rw [if_pos (.inl hi)]
  have hbefore : (List.range (rounds version)).flatMap (fun i =>
      if i = rounds version then shortRound data version else round data version i)
      = (List.range (rounds version)).flatMap (round data version) := by
    refine List.flatMap_congr fun i hi => ?_
    rw [if_neg (Nat.ne_of_lt (List.mem_range.1 hi))]
  unfold withErrorCorrection
  dsimp only
  rw [hfirst]
  refine (congrArg (fun f => List.flatMap f _) (funext hround)).trans ?_
  rw [List.range_add, List.range_succ, List.flatMap_append, List.flatMap_append, hbefore,
    List.flatMap_singleton, if_pos rfl, List.flatMap_map, List.append_assoc]
  refine congrArg (_ ++ ·) (congrArg (_ ++ ·) (congrArg (fun f => List.flatMap f _)
    (funext fun i => ?_)))
  rw [if_neg (by omega)]

theorem length_withErrorCorrection (h : Fits version)
    (hdata : data.length = dataCodewords version) :
    (withErrorCorrection data version).length = totalCodewords version := by
  have hdiv := Nat.div_add_mod (totalCodewords version) (blockCount version)
  have hshort := h.short
  have hmul : rounds version * blockCount version + eccLength version * blockCount version
      = blockCount version * shortLength version := by
    rw [rounds, ← Nat.add_mul, Nat.sub_add_cancel hshort.le, Nat.mul_comm]
  rw [withErrorCorrection_eq h hdata, List.length_append, List.length_append,
    length_flatMap_range fun i _ => length_round data version i,
    length_flatMap_range fun i _ => length_round data version _, shortRound, List.length_map,
    List.length_range]
  rw [shortLength] at hmul
  omega

theorem round_getD (data : List Nat) {i j : Nat} (hj : j < blockCount version) :
    (round data version i).getD j 0 = (wholeBlock data version j).getD i 0 := by
  rw [round, List.getD_eq_getElem?_getD, List.getElem?_map, List.getElem?_range hj]
  rfl

theorem map_getD_range (l : List Nat) : (List.range l.length).map (fun i => l.getD i 0) = l := by
  refine List.ext_getElem (by simp) fun i hi hi' => ?_
  simp [List.getD_eq_getElem?_getD, List.getElem?_eq_getElem hi']

/-- A block is read back from the stream. -/
theorem readBlock_eq (h : Fits version) (hdata : data.length = dataCodewords version) {j : Nat}
    (hj : j < blockCount version) :
    readBlock (withErrorCorrection data version) version j
      = ⟨blockData data version j,
          remainder (blockData data version j) (generator (eccLength version))⟩ := by
  have hlen := length_withErrorCorrection h hdata
  have hfirst := length_flatMap_range fun i (_ : i < rounds version) => length_round data version i
  have hmiddle : (shortRound data version).length
      = totalCodewords version % blockCount version := by
    rw [shortRound, List.length_map, List.length_range]
  have hblock := length_blockData h hdata hj
  rw [blockLength, ← rounds] at hblock
  have hrounds : totalCodewords version / blockCount version - eccLength version
      = rounds version := rfl
  have hlonger : blockCount version - totalCodewords version % blockCount version
      = shortBlocks version := rfl
  unfold readBlock
  dsimp only
  rw [hlen, hrounds, hlonger, withErrorCorrection_eq h hdata]
  have hdataRounds : ∀ i < rounds version,
      ((List.range (rounds version)).flatMap (round data version) ++ (shortRound data version
        ++ (List.range (eccLength version)).flatMap fun i =>
          round data version (rounds version + 1 + i))).getD (i * blockCount version + j) 0
        = (blockData data version j).getD i 0 := by
    intro i hi
    have hrow : (i + 1) * blockCount version ≤ rounds version * blockCount version :=
      Nat.mul_le_mul_right _ hi
    rw [Nat.succ_mul] at hrow
    rw [List.getD_append _ _ _ _ (by omega),
      getD_flatMap_range (fun i _ => length_round data version i) hi hj, round_getD data hj,
      wholeBlock_data (by omega)]
  have heccRounds : ∀ i < eccLength version,
      ((List.range (rounds version)).flatMap (round data version) ++ (shortRound data version
        ++ (List.range (eccLength version)).flatMap fun i =>
          round data version (rounds version + 1 + i))).getD
            (rounds version * blockCount version + totalCodewords version % blockCount version
              + (i * blockCount version + j)) 0
        = (remainder (blockData data version j) (generator (eccLength version))).getD i 0 := by
    intro i hi
    rw [List.getD_append_right _ _ _ _ (by omega), hfirst, List.getD_append_right _ _ _ _ (by omega),
      hmiddle]
    rw [show rounds version * blockCount version + totalCodewords version % blockCount version
        + (i * blockCount version + j) - rounds version * blockCount version
        - totalCodewords version % blockCount version = i * blockCount version + j by omega,
      getD_flatMap_range (fun i _ => length_round data version _) hi hj, round_getD data hj,
      wholeBlock_ecc h hdata hj]
  have hecc : (List.range (eccLength version)).map (fun i =>
      ((List.range (rounds version)).flatMap (round data version) ++ (shortRound data version
        ++ (List.range (eccLength version)).flatMap fun i =>
          round data version (rounds version + 1 + i))).getD
            (rounds version * blockCount version + totalCodewords version % blockCount version
              + (i * blockCount version + j)) 0)
        = remainder (blockData data version j) (generator (eccLength version)) := by
    rw [List.map_congr_left fun i hi => heccRounds i (List.mem_range.1 hi)]
    have hback := map_getD_range
      (remainder (blockData data version j) (generator (eccLength version)))
    rwa [length_remainder h] at hback
  rw [hecc, List.map_congr_left fun i hi => hdataRounds i (List.mem_range.1 hi)]
  refine congrArg (Block.mk · _) ?_
  have hback := map_getD_range (blockData data version j)
  rw [hblock] at hback
  split
  next hshort =>
    rw [if_pos hshort, Nat.add_zero] at hback
    rw [List.append_nil, hback]
  next hlong =>
    rw [if_neg hlong, List.range_succ, List.map_append, List.map_singleton] at hback
    rw [if_neg hlong] at hblock
    have hmod := Nat.mod_lt (totalCodewords version) h.blocks
    have hlast : (shortRound data version).getD (j - shortBlocks version) 0
        = (blockData data version j).getD (rounds version) 0 := by
      rw [shortRound, List.getD_eq_getElem?_getD, List.getElem?_map,
        List.getElem?_range (by rw [shortBlocks] at hlong ⊢; omega)]
      show (wholeBlock data version (shortBlocks version + (j - shortBlocks version))).getD _ 0 = _
      rw [Nat.add_sub_cancel' (Nat.not_lt.1 hlong), wholeBlock_data (by omega)]
    rw [List.getD_append_right _ _ _ _ (by omega), hfirst, Nat.add_sub_cancel_left,
      List.getD_append _ _ _ _ (by rw [hmiddle]; rw [shortBlocks] at hlong ⊢; omega), hlast, hback]

theorem bytes_wholeBlock (h : Fits version) (hdata : Bytes data) (j : Nat) :
    Bytes (wholeBlock data version j) := by
  intro c hc
  rcases List.mem_append.1 hc with hc | hc
  · rcases List.mem_append.1 hc with hc | hc
    · exact hdata c (List.mem_of_mem_drop (List.mem_of_mem_take hc))
    · split at hc
      next =>
        rw [List.mem_singleton.1 hc]
        decide
      next => cases hc
  · exact (remainder_codeword _ h.ecc).2.1 c hc

theorem getD_lt {l : List Nat} (h : Bytes l) (i : Nat) : l.getD i 0 < 256 := by
  rw [List.getD_eq_getElem?_getD]
  cases hi : l[i]? with
  | none => decide
  | some c => exact h c (List.mem_of_getElem? hi)

theorem bytes_withErrorCorrection (h : Fits version) (hdata : data.length = dataCodewords version)
    (hbytes : Bytes data) : Bytes (withErrorCorrection data version) := by
  have hround : ∀ i, Bytes (round data version i) := by
    intro i c hc
    obtain ⟨j, -, rfl⟩ := List.mem_map.1 hc
    exact getD_lt (bytes_wholeBlock h hbytes j) i
  rw [withErrorCorrection_eq h hdata]
  intro c hc
  rcases List.mem_append.1 hc with hc | hc
  · obtain ⟨i, -, hc⟩ := List.mem_flatMap.1 hc
    exact hround i c hc
  · rcases List.mem_append.1 hc with hc | hc
    · obtain ⟨k, -, rfl⟩ := List.mem_map.1 hc
      exact getD_lt (bytes_wholeBlock h hbytes _) _
    · obtain ⟨i, -, hc⟩ := List.mem_flatMap.1 hc
      exact hround _ c hc

-- =============================================================== the stream

/-- The codewords of a message. -/
def codewordsOf (bytes : List Nat) (version : Nat) : List Nat :=
  withErrorCorrection (encodeData bytes version) version

/-- A block is a codeword: zero at the first powers of `α`, one for each
codeword of error correction. -/
def Block.Codeword (b : Block) (version : Nat) : Prop :=
  b.ecc.length = eccLength version
    ∧ ∀ i < eccLength version, Gf256.eval (Gf256.α ^ i) (b.data ++ b.ecc) = 0

/-- The blocks that are read from the codewords of a message are codewords,
and their data begin with it. -/
theorem codewordsOf_read (hversion : versionFor bytes.length = some version) (hbytes : Bytes bytes) :
    let stream := codewordsOf bytes version
    let blocks := (List.range (blockCount version)).map (readBlock stream version)
    stream.length = totalCodewords version ∧ Bytes stream
      ∧ (∀ b ∈ blocks, b.Codeword version)
      ∧ parseBytes ((blocks.flatMap Block.data).flatMap (Bits.ofNat 8)) version = some bytes := by
  obtain ⟨hv, hroom⟩ := versionFor_some hversion
  have hfits := version_fits hv
  have hcount := hfits.count
  obtain ⟨hdata, hdataBytes, hsegment⟩ := encodeData_spec hroom
  have hread : (List.range (blockCount version)).map (readBlock (codewordsOf bytes version) version)
      = (List.range (blockCount version)).map fun j =>
        ⟨blockData (encodeData bytes version) version j,
          remainder (blockData (encodeData bytes version) version j)
            (generator (eccLength version))⟩ :=
    List.map_congr_left fun j hj => readBlock_eq hfits hdata (List.mem_range.1 hj)
  dsimp only
  rw [hread]
  refine ⟨length_withErrorCorrection hfits hdata, bytes_withErrorCorrection hfits hdata hdataBytes,
    ?_, ?_⟩
  · intro b hb
    obtain ⟨j, -, rfl⟩ := List.mem_map.1 hb
    exact ⟨length_remainder hfits _, fun i hi => (remainder_codeword _ hi).2.2⟩
  · rw [List.flatMap_map, flatMap_blockData hfits hdata]
    exact parseBytes_segment hbytes (by omega) hsegment

end Nacre.Qr
