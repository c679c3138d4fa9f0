/-
The codewords of a QR code: capacity by version, the bit stream, the
error correction of a block and the interleaving of all.

`remainder_codeword` is what the arithmetic is for: a block and its error
correction are a codeword of the generator's roots. It is carried by two
invariants, each a statement about values at one root: the generator's
array evaluates to the product of its roots without the leading term
(`generator_root`), and the remainder's to the data times the root's
power (`eval_remainder`).
-/
import Nacre.Lib.Bits
import Nacre.Lib.Gf256

namespace Nacre.Qr

-- ================================================================ the tables

/-- Indexed by version; there is no version 0. -/
def ecCodewordsPerBlock : List Nat :=
  [0, 10, 16, 26, 18, 24, 16, 18, 22, 22, 26, 30, 22, 22, 24, 24, 28, 28, 26, 26,
    26, 26, 28, 28, 28, 28, 28, 28, 28, 28, 28, 28, 28, 28, 28, 28, 28, 28, 28, 28, 28]

def ecBlocks : List Nat :=
  [0, 1, 1, 1, 2, 2, 4, 4, 4, 5, 5, 5, 8, 9, 9, 10, 10, 11, 13, 14,
    16, 17, 17, 18, 20, 21, 23, 25, 26, 28, 29, 31, 33, 35, 37, 38, 40, 43, 45, 47, 49]

def eccLength (version : Nat) : Nat := ecCodewordsPerBlock.getD version 0

def blockCount (version : Nat) : Nat := ecBlocks.getD version 0

/-- The side of a version's symbol, in modules. -/
def sizeOf (version : Nat) : Nat := version * 4 + 17

/-- How many modules a version has left for data, in closed form. -/
def dataModules (version : Nat) : Nat :=
  let result := (16 * version + 128) * version + 64
  if version ≥ 2 then
    let aligns := version / 7 + 2
    let result := result - ((25 * aligns - 10) * aligns - 55)
    if version ≥ 7 then result - 36 else result
  else result

def totalCodewords (version : Nat) : Nat := dataModules version / 8

def dataCodewords (version : Nat) : Nat :=
  totalCodewords version - eccLength version * blockCount version

/-- The width of the character-count field. -/
def countBits (version : Nat) : Nat := if version ≤ 9 then 8 else 16

/-- The smallest version that holds this many bytes, `none` where it
throws. -/
def versionFor (length : Nat) : Option Nat :=
  (List.range' 1 40).find? fun version =>
    length * 8 ≤ dataCodewords version * 8 - 4 - countBits version

-- ================================================================ the field

def gfMul (a b : Nat) : Nat :=
  [7, 6, 5, 4, 3, 2, 1, 0].foldl (fun result i =>
    ((result <<< 1) ^^^ ((result >>> 7) * 0x11d)) ^^^ (((b >>> i) &&& 1) * a)) 0 &&& 0xff

/-- One pass over the coefficients: each times the root, plus the next. -/
def timesRoot (root : Nat) : List Nat → List Nat
  | [] => []
  | [c] => [gfMul c root]
  | c :: d :: rest => (gfMul c root ^^^ d) :: timesRoot root (d :: rest)

/-- The passes of the generator, with the root of each. -/
def generatorFrom : Nat → Nat → List Nat → List Nat
  | 0, _, result => result
  | n + 1, root, result => generatorFrom n (gfMul root 2) (timesRoot root result)

/-- The generator polynomial of the given degree, coefficients high to
low. -/
def generator (degree : Nat) : List Nat :=
  generatorFrom degree 1 ((List.replicate degree 0).set (degree - 1) 1)

def remainderStep (divisor result : List Nat) (byte : Nat) : List Nat :=
  let factor := byte ^^^ result.headD 0
  List.zipWith (fun r coefficient => r ^^^ gfMul coefficient factor) (result.tail ++ [0]) divisor

/-- The error correction codewords for one block. -/
def remainder (data divisor : List Nat) : List Nat :=
  data.foldl (remainderStep divisor) (List.replicate divisor.length 0)

-- ============================================================ the bit stream

/-- `push(value, width)` -/
def pushed (value width : Nat) : List Bool :=
  (List.range width).map fun j => value.testBit (width - 1 - j)

def byteOf (bits : List Bool) : Nat := bits.foldl (fun byte bit => (byte <<< 1) ||| bit.toNat) 0

def toBytes (bits : List Bool) : List Nat :=
  (List.range ((bits.length + 7) / 8)).map fun k => byteOf ((bits.drop (8 * k)).take 8)

/-- The specification's pad bytes, alternating. -/
def padding : Nat → Nat → List Nat
  | 0, _ => []
  | n + 1, pad => pad :: padding n (pad ^^^ (0xec ^^^ 0x11))

/-- Mode, length and payload. -/
def segment (bytes : List Nat) (version : Nat) : List Bool :=
  pushed 0b0100 4 ++ pushed bytes.length (countBits version) ++ bytes.flatMap (pushed · 8)

/-- Mode, length, payload, terminator, padding: the codewords before
error correction. -/
def encodeData (bytes : List Nat) (version : Nat) : List Nat :=
  let bits := segment bytes version
  let capacity := dataCodewords version * 8
  let bits := bits ++ pushed 0 (min 4 (capacity - bits.length))
  let bits := bits ++ pushed 0 ((8 - bits.length % 8) % 8)
  let codewords := toBytes bits
  codewords ++ padding (dataCodewords version - codewords.length) 0xec

-- ================================================================ the blocks

/-- The blocks that are one codeword shorter; they come first. -/
def shortBlocks (version : Nat) : Nat :=
  blockCount version - totalCodewords version % blockCount version

def shortLength (version : Nat) : Nat := totalCodewords version / blockCount version

/-- The data codewords of the `i`-th block. -/
def blockLength (version i : Nat) : Nat :=
  shortLength version - eccLength version + if i < shortBlocks version then 0 else 1

/-- Where the `i`-th block's data begin. -/
def blockStart (version i : Nat) : Nat := ((List.range i).map (blockLength version)).sum

/-- `data.slice(at, at + length)` -/
def blockData (data : List Nat) (version i : Nat) : List Nat :=
  (data.drop (blockStart version i)).take (blockLength version i)

/-- A block's data, a placeholder where it is short, its error
correction. -/
def blocks (data : List Nat) (version : Nat) : List (List Nat) :=
  let divisor := generator (eccLength version)
  (List.range (blockCount version)).map fun i =>
    blockData data version i ++ (if i < shortBlocks version then [0] else [])
      ++ remainder (blockData data version i) divisor

/-- Split into blocks, add error correction, interleave. -/
def withErrorCorrection (data : List Nat) (version : Nat) : List Nat :=
  let blocks := blocks data version
  (List.range (blocks.headD []).length).flatMap fun i =>
    blocks.zipIdx.flatMap fun (block, j) =>
      if i ≠ shortLength version - eccLength version ∨ j ≥ shortBlocks version then
        [block.getD i 0]
      else []

open Gf256 (F α bit value double eval)

variable {a b c n version : Nat} {cs data divisor : List Nat} {z ρ : F}

-- ========================================================= the multiplication

theorem and_one (b i : Nat) : (b >>> i) &&& 1 = (b.testBit i).toNat := by
  rw [Nat.toNat_testBit, Nat.and_one_is_mod, Nat.shiftRight_eq_div_pow]

theorem xor_lt (ha : a < 256) (hb : b < 256) : a ^^^ b < 256 :=
  Nat.xor_lt_two_pow (n := 8) ha hb

theorem value_and (n : Nat) : value (n &&& 0xff) = value n := by
  have hlow : ∀ i < 8, Nat.testBit 0xff i = true := by decide
  simp [Gf256.value_eq, hlow]

/-- One round: the sum so far times the root, plus `a` where the bit of
`b` says so. -/
theorem value_round (ha : a < 256) (hc : c < 256) (b i : Nat) :
    (double c ^^^ (((b >>> i) &&& 1) * a)) < 256
      ∧ value (double c ^^^ (((b >>> i) &&& 1) * a)) = value c * α + bit (b.testBit i) * value a := by
  rw [and_one]
  constructor
  · refine xor_lt (Gf256.double_spec c hc).1 ?_
    cases b.testBit i
    · simp
    · simpa using ha
  · rw [Gf256.value_xor, Gf256.value_double hc, Gf256.value_bit_mul, mul_comm]

theorem value_rounds (ha : a < 256) (b : Nat) (is : List Nat) : ∀ c < 256,
    value (is.foldl (fun result i =>
      ((result <<< 1) ^^^ ((result >>> 7) * 0x11d)) ^^^ (((b >>> i) &&& 1) * a)) c)
      = value c * α ^ is.length
        + value a * is.foldl (fun sum i => sum * α + bit (b.testBit i)) 0 := by
  induction is using List.reverseRecOn with
  | nil =>
    intro c _
    simp
  | append_singleton is i ih =>
    intro c hc
    have hlt : ∀ (is : List Nat) (c : Nat), c < 256 → is.foldl (fun result i =>
        ((result <<< 1) ^^^ ((result >>> 7) * 0x11d)) ^^^ (((b >>> i) &&& 1) * a)) c < 256 := by
      intro is
      induction is with
      | nil => exact fun c hc => hc
      | cons i is ih => exact fun c hc => ih _ (value_round ha hc b i).1
    rw [List.foldl_append, List.foldl_append, List.foldl_cons, List.foldl_nil, List.foldl_cons,
      List.foldl_nil]
    have hstep := (value_round ha (hlt is c hc) b i).2
    rw [double] at hstep
    rw [hstep, ih c hc, List.length_append, List.length_singleton]
    ring

/-- The product of two bytes is the product of their values. -/
theorem value_gfMul (ha : a < 256) (b : Nat) : value (gfMul a b) = value a * value b := by
  rw [gfMul, value_and, value_rounds ha b _ 0 (by decide), Gf256.value_zero, Gf256.value_eq b]
  simp only [List.foldl_cons, List.foldl_nil]
  ring

theorem gfMul_lt (a b : Nat) : gfMul a b < 256 :=
  Nat.lt_of_le_of_lt Nat.and_le_right (by decide)

-- =============================================================== the generator

/-- Every number is a byte. -/
def Bytes (cs : List Nat) : Prop := ∀ c ∈ cs, c < 256

theorem length_timesRoot (root : Nat) : ∀ cs : List Nat, (timesRoot root cs).length = cs.length
  | [] => rfl
  | [_] => rfl
  | _ :: d :: rest => by
    rw [timesRoot, List.length_cons, length_timesRoot root (d :: rest)]
    rfl

theorem bytes_timesRoot (root : Nat) : ∀ {cs : List Nat}, Bytes cs → Bytes (timesRoot root cs)
  | [], h => h
  | [c], _ => by
    intro x hx
    rw [List.mem_singleton.1 hx]
    exact gfMul_lt c root
  | c :: d :: rest, h => by
    intro x hx
    have hd : d < 256 := h d (by simp)
    rcases List.mem_cons.1 hx with rfl | hx
    · exact xor_lt (gfMul_lt c root) hd
    · exact bytes_timesRoot root (fun y hy => h y (List.mem_cons_of_mem c hy)) x hx

/-- The coefficients times a root and moved one place up, without what
moves out at the top. -/
theorem eval_timesRoot (root : Nat) : ∀ {cs : List Nat}, Bytes cs → cs ≠ [] →
    eval z (timesRoot root cs)
      = (z + value root) * eval z cs + value (cs.headD 0) * z ^ cs.length
  | [c], h, _ => by
    have hc : c < 256 := h c (by simp)
    rw [timesRoot, Gf256.eval_cons, Gf256.eval_cons, value_gfMul hc]
    simp only [List.length_nil, Gf256.eval_nil, List.headD_cons, List.length_singleton]
    linear_combination -(value c * z) * Gf256.two_eq_zero
  | c :: d :: rest, h, _ => by
    have hc : c < 256 := h c (by simp)
    have hrest : Bytes (d :: rest) := fun y hy => h y (List.mem_cons_of_mem c hy)
    have ih := eval_timesRoot root hrest (List.cons_ne_nil d rest)
    rw [timesRoot, Gf256.eval_cons, ih, length_timesRoot, Gf256.value_xor, value_gfMul hc,
      Gf256.eval_cons z c]
    simp only [List.headD_cons, List.length_cons]
    linear_combination
      (value d * z ^ (rest.length + 1) - value c * z ^ (rest.length + 2)) * Gf256.two_eq_zero

theorem gfMul_zero (root : Nat) : gfMul 0 root = 0 := by
  simp [gfMul]

/-- A monic polynomial of lower degree than there is room for. -/
theorem timesRoot_zeros (root : Nat) (rest : List Nat) : ∀ m : Nat,
    ∃ rest', timesRoot root (List.replicate (m + 1) 0 ++ 1 :: rest)
      = List.replicate m 0 ++ 1 :: rest'
  | 0 => by
    refine ⟨timesRoot root (1 :: rest), ?_⟩
    rw [List.replicate_succ, List.cons_append, List.replicate_zero, List.nil_append, timesRoot,
      gfMul_zero]
    rfl
  | m + 1 => by
    obtain ⟨rest', h⟩ := timesRoot_zeros root rest m
    refine ⟨rest', ?_⟩
    rw [List.replicate_succ, List.cons_append, List.replicate_succ, List.cons_append, timesRoot,
      gfMul_zero, ← List.cons_append, ← List.replicate_succ, h, List.replicate_succ, List.cons_append]
    rfl

theorem prod_roots (z ρ : F) (n : Nat) :
    ((List.range (n + 1)).map fun i => z + ρ * α ^ i).prod
      = (z + ρ) * ((List.range n).map fun i => z + ρ * α * α ^ i).prod := by
  rw [List.range_succ_eq_map, List.map_cons, List.prod_cons, List.map_map, pow_zero, mul_one]
  refine congrArg₂ (· * ·) rfl (congrArg List.prod (List.map_congr_left fun i _ => ?_))
  show z + ρ * α ^ (i + 1) = _
  ring

/-- What `n` passes make of an array with `m` zeros and a leading one:
the product with `n` roots, the leading one moved out by the pass that
finds no zero left. -/
theorem generatorFrom_spec (z : F) : ∀ (n root m : Nat) (rest : List Nat), root < 256 → n ≤ m + 1 →
    Bytes (List.replicate m 0 ++ 1 :: rest) →
    let result := List.replicate m 0 ++ 1 :: rest
    (generatorFrom n root result).length = result.length
      ∧ Bytes (generatorFrom n root result)
      ∧ eval z (generatorFrom n root result) + (if n = m + 1 then z ^ result.length else 0)
        = eval z result * ((List.range n).map fun i => z + value root * α ^ i).prod
  | 0, root, m, rest, _, _, hbytes => by
    refine ⟨rfl, hbytes, ?_⟩
    rw [if_neg (by omega)]
    simp [generatorFrom]
  | n + 1, root, m, rest, hroot, hn, hbytes => by
    have hne : List.replicate m 0 ++ 1 :: rest ≠ [] := by simp
    have hpass := eval_timesRoot (z := z) root hbytes hne
    have hlen := length_timesRoot root (List.replicate m 0 ++ 1 :: rest)
    have hpassed := bytes_timesRoot root hbytes
    have hnext : value (gfMul root 2) = value root * α := by
      rw [value_gfMul hroot, Gf256.value_two]
    intro result
    rw [generatorFrom, prod_roots]
    obtain _ | m := m
    · obtain rfl : n = 0 := by omega
      refine ⟨hlen, hpassed, ?_⟩
      have hhead : value (result.headD 0) = 1 := Gf256.value_one
      rw [if_pos rfl, generatorFrom, hpass, hhead]
      simp only [List.range_zero, List.map_nil, List.prod_nil, mul_one, one_mul]
      linear_combination z ^ result.length * Gf256.two_eq_zero
    · obtain ⟨rest', hshape⟩ := timesRoot_zeros root rest m
      have hresult : timesRoot root result = List.replicate m 0 ++ 1 :: rest' := hshape
      obtain ⟨hl, hb, he⟩ := generatorFrom_spec z n (gfMul root 2) m rest' (gfMul_lt root 2) (by omega)
        (hresult ▸ hpassed)
      rw [← hresult] at hl hb he
      refine ⟨hl.trans hlen, hb, ?_⟩
      have hhead : value (result.headD 0) = 0 := Gf256.value_zero
      rw [hpass, hhead, hlen, hnext] at he
      have hif : (if n + 1 = m + 1 + 1 then z ^ result.length else 0)
          = if n = m + 1 then z ^ result.length else 0 := by
        simp only [Nat.add_right_cancel_iff]
      rw [hif, he]
      ring

/-- Each of the first `degree` powers of `α` is a root of the generator,
whose leading one the array leaves out. -/
theorem generator_root {degree i : Nat} (hi : i < degree) :
    (generator degree).length = degree ∧ Bytes (generator degree)
      ∧ eval (α ^ i) (generator degree) = (α ^ i) ^ degree := by
  obtain ⟨m, rfl⟩ : ∃ m, degree = m + 1 := ⟨degree - 1, by omega⟩
  have hstart : (List.replicate (m + 1) 0).set (m + 1 - 1) 1 = List.replicate m 0 ++ [1] := by
    rw [List.replicate_succ', Nat.add_sub_cancel, List.set_append_right m 1 (by simp)]
    simp
  have hbytes : Bytes (List.replicate m 0 ++ [1]) := by
    intro c hc
    rcases List.mem_append.1 hc with hc | hc
    · rw [List.eq_of_mem_replicate hc]
      decide
    · rw [List.mem_singleton.1 hc]
      decide
  obtain ⟨hl, hb, he⟩ := generatorFrom_spec (α ^ i) (m + 1) 1 m [] (by decide) le_rfl hbytes
  have hlen : (List.replicate m 0 ++ [1]).length = m + 1 := by simp
  rw [generator, hstart]
  refine ⟨hl.trans hlen, hb, ?_⟩
  have hzero : ((List.range (m + 1)).map fun j => α ^ i + value 1 * α ^ j).prod = 0 := by
    refine List.prod_eq_zero (List.mem_map.2 ⟨i, List.mem_range.2 hi, ?_⟩)
    rw [Gf256.value_one, one_mul, Gf256.add_self]
  rw [hzero, mul_zero, if_pos rfl, hlen] at he
  linear_combination he - (α ^ i) ^ (m + 1) * Gf256.two_eq_zero

-- ============================================================== the remainder

theorem eval_zipWith (factor : Nat) : ∀ {rs gs : List Nat}, rs.length = gs.length → Bytes gs →
    eval z (List.zipWith (fun r g => r ^^^ gfMul g factor) rs gs)
      = eval z rs + value factor * eval z gs
  | [], [], _, _ => by simp
  | r :: rs, g :: gs, hlen, hgs => by
    have hlen' : rs.length = gs.length := Nat.succ_inj.1 hlen
    have hg : g < 256 := hgs g (by simp)
    have hrest : Bytes gs := fun y hy => hgs y (List.mem_cons_of_mem g hy)
    rw [List.zipWith_cons_cons, Gf256.eval_cons, eval_zipWith factor hlen' hrest, Gf256.value_xor,
      value_gfMul hg, Gf256.eval_cons, Gf256.eval_cons, List.length_zipWith, hlen', Nat.min_self]
    ring

/-- At a root of the generator the remainder is the data, moved up by its
degree. -/
theorem remainderStep_spec {result : List Nat} (hz : eval z divisor = z ^ divisor.length)
    (hdivisor : Bytes divisor) (hne : divisor ≠ []) (hlen : result.length = divisor.length)
    (hresult : Bytes result) (byte : Nat) :
    (remainderStep divisor result byte).length = divisor.length
      ∧ Bytes (remainderStep divisor result byte)
      ∧ eval z (remainderStep divisor result byte)
        = z * eval z result + value byte * z ^ divisor.length := by
  obtain _ | ⟨r, result⟩ := result
  · exact absurd (List.length_eq_zero_iff.1 hlen.symm) hne
  have hl : (result ++ [0]).length = divisor.length := by
    rw [← hlen]
    simp
  rw [remainderStep]
  simp only [List.headD_cons, List.tail_cons]
  refine ⟨by rw [List.length_zipWith, hl, Nat.min_self], ?_, ?_⟩
  · intro c hc
    obtain ⟨k, hk, rfl⟩ := List.getElem_of_mem hc
    rw [List.getElem_zipWith]
    refine xor_lt ?_ (gfMul_lt _ _)
    have hmem := List.getElem_mem (l := result ++ [0]) (n := k) (by
      rw [List.length_zipWith] at hk
      omega)
    rcases List.mem_append.1 hmem with hmem | hmem
    · exact hresult _ (List.mem_cons_of_mem r hmem)
    · rw [List.mem_singleton.1 hmem]
      decide
  · rw [eval_zipWith _ hl hdivisor, hz, Gf256.value_xor, Gf256.eval_append, Gf256.eval_cons, ← hlen]
    simp only [List.length_cons, List.length_nil, Gf256.eval_cons, Gf256.value_zero,
      Gf256.eval_nil]
    ring

theorem eval_remainder (hz : eval z divisor = z ^ divisor.length) (hdivisor : Bytes divisor)
    (hne : divisor ≠ []) (data : List Nat) : (remainder data divisor).length = divisor.length
      ∧ Bytes (remainder data divisor)
      ∧ eval z (remainder data divisor) = eval z data * z ^ divisor.length := by
  have hzeros : Bytes (List.replicate divisor.length 0) := by
    intro c hc
    rw [List.eq_of_mem_replicate hc]
    decide
  have hstart : eval z (List.replicate divisor.length 0) = 0 := by
    generalize divisor.length = n
    induction n with
    | zero => rfl
    | succ n ih => rw [List.replicate_succ, Gf256.eval_cons, ih, Gf256.value_zero]; ring
  induction data using List.reverseRecOn with
  | nil => exact ⟨List.length_replicate, hzeros, by rw [Gf256.eval_nil, zero_mul]; exact hstart⟩
  | append_singleton data byte ih =>
    obtain ⟨hlen, hbytes, heval⟩ := ih
    have hstep := remainderStep_spec hz hdivisor hne hlen hbytes byte
    rw [remainder] at heval hstep
    rw [remainder, List.foldl_append, List.foldl_cons, List.foldl_nil]
    refine ⟨hstep.1, hstep.2.1, ?_⟩
    rw [hstep.2.2, heval, Gf256.eval_append, Gf256.eval_cons]
    simp only [List.length_cons, List.length_nil, Gf256.eval_nil]
    ring

/-- A block and its error correction are a codeword: zero at the first
powers of `α`. -/
theorem remainder_codeword (data : List Nat) {degree i : Nat} (hi : i < degree) :
    (remainder data (generator degree)).length = degree ∧ Bytes (remainder data (generator degree))
      ∧ eval (α ^ i) (data ++ remainder data (generator degree)) = 0 := by
  obtain ⟨hlen, hbytes, hroot⟩ := generator_root hi
  have hne : generator degree ≠ [] := by
    intro hnil
    rw [hnil] at hlen
    simp at hlen
    omega
  rw [← hlen] at hroot
  have hroot' : eval (α ^ i) (generator degree) = (α ^ i) ^ (generator degree).length := by
    rw [hlen] at hroot ⊢
    exact hroot
  obtain ⟨hl, hb, he⟩ := eval_remainder hroot' hbytes hne data
  refine ⟨hl.trans hlen, hb, ?_⟩
  rw [Gf256.eval_append, hl, he, Gf256.add_self]

end Nacre.Qr
