/-
Numbers as bits, the most significant first, and bytes as eight of them.

`ofNat` writes a number on a width and `toNat` reads it; each undoes the
other. `octets` reads bytes off a run of bits and leaves what is less than
one.
-/
import Mathlib.Data.List.Basic
import Mathlib.Data.Nat.Bitwise
import Mathlib.Tactic.Ring

namespace Bits

variable {w n : Nat} {bits rest : List Bool} {bytes : List Nat}

/-- The bits of a number on a width. -/
def ofNat (w n : Nat) : List Bool := (List.range w).map fun j => n.testBit (w - 1 - j)

/-- The number of a run of bits. -/
def toNat (bits : List Bool) : Nat := bits.foldl (fun n bit => 2 * n + bit.toNat) 0

/-- The bytes of a run of bits. -/
def octets (bits : List Bool) : List Nat :=
  (List.range (bits.length / 8)).map fun k => toNat ((bits.drop (8 * k)).take 8)

-- =========================================================== one number

@[simp]
theorem length_ofNat (w n : Nat) : (ofNat w n).length = w := by
  simp [ofNat]

theorem ofNat_succ (w n : Nat) : ofNat (w + 1) n = n.testBit w :: ofNat w n := by
  rw [ofNat, List.range_succ_eq_map, List.map_cons, List.map_map]
  refine congrArg₂ List.cons rfl (List.map_congr_left fun j _ => ?_)
  show n.testBit (w + 1 - 1 - (j + 1)) = n.testBit (w - 1 - j)
  rw [show w + 1 - 1 - (j + 1) = w - 1 - j by omega]

theorem getElem?_ofNat {j : Nat} (h : j < w) : (ofNat w n)[j]? = some (n.testBit (w - 1 - j)) := by
  rw [ofNat, List.getElem?_map, List.getElem?_range h]
  rfl

theorem foldl_toNat (bits : List Bool) (start : Nat) :
    bits.foldl (fun n bit => 2 * n + bit.toNat) start = start * 2 ^ bits.length + toNat bits := by
  induction bits generalizing start with
  | nil => simp [toNat]
  | cons bit bits ih =>
    rw [toNat, List.foldl_cons, List.foldl_cons, ih, ih (2 * 0 + bit.toNat), List.length_cons,
      Nat.pow_succ]
    ring

theorem toNat_cons (bit : Bool) (bits : List Bool) :
    toNat (bit :: bits) = bit.toNat * 2 ^ bits.length + toNat bits := by
  rw [toNat, List.foldl_cons, foldl_toNat]
  simp

theorem toNat_lt (bits : List Bool) : toNat bits < 2 ^ bits.length := by
  induction bits with
  | nil => decide
  | cons bit bits ih =>
    rw [toNat_cons, List.length_cons, Nat.pow_succ]
    cases bit
    · simp only [Bool.toNat_false]
      omega
    · simp only [Bool.toNat_true]
      omega

/-- A number is read back from its bits. -/
theorem toNat_ofNat (w n : Nat) : toNat (ofNat w n) = n % 2 ^ w := by
  induction w with
  | zero => simp [ofNat, toNat, Nat.mod_one]
  | succ w ih =>
    rw [ofNat_succ, toNat_cons, ih, length_ofNat, Nat.mod_pow_succ, Nat.toNat_testBit]
    ring

theorem toNat_inj {bits' : List Bool} (hlen : bits.length = bits'.length)
    (h : toNat bits = toNat bits') : bits = bits' := by
  induction bits generalizing bits' with
  | nil => exact (List.length_eq_zero_iff.mp hlen.symm).symm
  | cons bit bits ih =>
    obtain _ | ⟨bit', bits'⟩ := bits'
    · cases hlen
    · have hlen' : bits.length = bits'.length := Nat.succ_inj.mp hlen
      have hlt := toNat_lt bits
      have hlt' := toNat_lt bits'
      rw [toNat_cons, toNat_cons, hlen'] at h
      rw [hlen'] at hlt
      obtain ⟨rfl, hrest⟩ : bit = bit' ∧ toNat bits = toNat bits' := by
        cases bit <;> cases bit' <;> simp only [Bool.toNat_false, Bool.toNat_true] at h <;>
          first | exact ⟨rfl, by omega⟩ | omega
      rw [ih hlen' hrest]

/-- Bits are written back from their number. -/
theorem ofNat_toNat (bits : List Bool) : ofNat bits.length (toNat bits) = bits := by
  refine toNat_inj (length_ofNat _ _) ?_
  rw [toNat_ofNat, Nat.mod_eq_of_lt (toNat_lt bits)]

-- ================================================================== bytes

theorem octets_append (h : bits.length = 8) (rest : List Bool) :
    octets (bits ++ rest) = toNat bits :: octets rest := by
  have hlen : (bits ++ rest).length / 8 = rest.length / 8 + 1 := by
    rw [List.length_append, h]
    omega
  rw [octets, hlen, List.range_succ_eq_map, List.map_cons, List.map_map]
  refine congrArg₂ List.cons ?_ (List.map_congr_left fun k _ => ?_)
  · rw [Nat.mul_zero, List.drop_zero, ← h, List.take_left]
  · show toNat (((bits ++ rest).drop (8 * (k + 1))).take 8) = _
    rw [show 8 * (k + 1) = bits.length + 8 * k by omega, ← List.drop_drop, List.drop_left]

theorem octets_short (h : rest.length < 8) : octets rest = [] := by
  rw [octets, Nat.div_eq_of_lt h]
  rfl

/-- Bytes written one after another are read back. -/
theorem octets_flatMap (hbytes : ∀ b ∈ bytes, b < 256) (h : rest.length < 8) :
    octets (bytes.flatMap (ofNat 8) ++ rest) = bytes := by
  induction bytes with
  | nil => exact octets_short h
  | cons b bytes ih =>
    have hb : b < 256 := hbytes b List.mem_cons_self
    rw [List.flatMap_cons, List.append_assoc, octets_append (length_ofNat 8 b), toNat_ofNat,
      Nat.mod_eq_of_lt (show b < 2 ^ 8 from hb), ih fun c hc => hbytes c (List.mem_cons_of_mem b hc)]

/-- Bits whose number is a multiple of eight are written back from their
bytes. -/
theorem flatMap_octets (k : Nat) : ∀ bits : List Bool, bits.length = 8 * k →
    (octets bits).flatMap (ofNat 8) = bits ∧ (octets bits).length = k := by
  induction k with
  | zero =>
    intro bits h
    obtain rfl := List.length_eq_zero_iff.mp h
    exact ⟨rfl, rfl⟩
  | succ k ih =>
    intro bits h
    have hfirst : (bits.take 8).length = 8 := by
      rw [List.length_take]
      omega
    have hrest : (bits.drop 8).length = 8 * k := by
      rw [List.length_drop]
      omega
    obtain ⟨hback, hlen⟩ := ih _ hrest
    have hone := ofNat_toNat (bits.take 8)
    rw [hfirst] at hone
    rw [← List.take_append_drop 8 bits, octets_append hfirst, List.flatMap_cons, hback, hone,
      List.length_cons, hlen]
    exact ⟨rfl, rfl⟩

theorem length_flatMap (bytes : List Nat) : (bytes.flatMap (ofNat 8)).length = 8 * bytes.length := by
  induction bytes with
  | nil => rfl
  | cons b bytes ih =>
    rw [List.flatMap_cons, List.length_append, length_ofNat, ih, List.length_cons]
    omega

/-- The bit of a byte, in its place. -/
theorem getElem?_flatMap {k : Nat} {b : Nat} (h : bytes[k / 8]? = some b) :
    (bytes.flatMap (ofNat 8))[k]? = some (b.testBit (7 - k % 8)) := by
  induction bytes generalizing k with
  | nil => cases h
  | cons c bytes ih =>
    rw [List.flatMap_cons]
    by_cases hk : k < 8
    · rw [List.getElem?_append_left (by rw [length_ofNat]; exact hk), getElem?_ofNat hk]
      rw [Nat.div_eq_of_lt hk] at h
      rw [Nat.mod_eq_of_lt hk, ← Option.some.inj h]
    · rw [List.getElem?_append_right (by rw [length_ofNat]; omega), length_ofNat]
      have hnext : bytes[(k - 8) / 8]? = some b := by
        rw [← h, show k / 8 = (k - 8) / 8 + 1 by omega]
        rfl
      rw [ih hnext, show (k - 8) % 8 = k % 8 by omega]

end Bits
