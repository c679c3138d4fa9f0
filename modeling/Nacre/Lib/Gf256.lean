/-
Bytes as the field of 256 elements, and Reed-Solomon codewords over it.

The field is the polynomials over two elements modulo
`x^8 + x^4 + x^3 + x^2 + 1` (0x11D), taken from the library; a byte is the
polynomial of its bits (`value`), so exclusive or is the sum
(`value_xor`) and doubling with reduction the product with the root
(`value_double`). A program's arithmetic on bytes is checked by its value,
and an identity of codewords is one of a commutative ring.

A codeword is read from its highest coefficient (`eval`, by Horner).
-/
import Mathlib.RingTheory.AdjoinRoot
import Mathlib.Algebra.Field.ZMod
import Mathlib.Tactic.LinearCombination
import Mathlib.Tactic.Ring

namespace Gf256

open Polynomial

/-- `x^8 + x^4 + x^3 + x^2 + 1` -/
noncomputable def modulus : (ZMod 2)[X] := X ^ 8 + X ^ 4 + X ^ 3 + X ^ 2 + 1

abbrev F : Type := AdjoinRoot modulus

noncomputable def α : F := AdjoinRoot.root modulus

noncomputable def bit (b : Bool) : F := if b then 1 else 0

/-- A byte's value: the polynomial of its bits. -/
noncomputable def value (n : Nat) : F :=
  ((List.range 8).map fun i => bit (n.testBit i) * α ^ i).sum

-- ================================================================ the field

theorem two_eq_zero : (2 : F) = 0 := by
  have h := map_ofNat (AdjoinRoot.of modulus) 2
  rw [show (OfNat.ofNat 2 : ZMod 2) = 0 by decide, map_zero] at h
  exact h.symm

theorem add_self (x : F) : x + x = 0 := by
  rw [← two_mul, two_eq_zero, zero_mul]

theorem α_pow_eight : α ^ 8 = α ^ 4 + α ^ 3 + α ^ 2 + 1 := by
  have hsum : AdjoinRoot.mk modulus (X ^ 8 + X ^ 4 + X ^ 3 + X ^ 2 + 1) = 0 := AdjoinRoot.mk_self
  simp only [map_add, map_pow, map_one, AdjoinRoot.mk_X] at hsum
  have hα : α ^ 8 + α ^ 4 + α ^ 3 + α ^ 2 + 1 = 0 := hsum
  linear_combination hα - (α ^ 4 + α ^ 3 + α ^ 2 + 1) * two_eq_zero

theorem bit_xor (x y : Bool) : bit (x ^^ y) = bit x + bit y := by
  cases x <;> cases y <;> simp [bit, add_self]

theorem bit_and (x y : Bool) : bit (x && y) = bit x * bit y := by
  cases x <;> cases y <;> simp [bit]

@[simp] theorem bit_false : bit false = 0 := rfl

@[simp] theorem bit_true : bit true = 1 := rfl

-- ================================================================ the bytes

theorem value_eq (n : Nat) : value n = bit (n.testBit 0) + bit (n.testBit 1) * α
    + bit (n.testBit 2) * α ^ 2 + bit (n.testBit 3) * α ^ 3 + bit (n.testBit 4) * α ^ 4
    + bit (n.testBit 5) * α ^ 5 + bit (n.testBit 6) * α ^ 6 + bit (n.testBit 7) * α ^ 7 := by
  simp only [value, List.range_succ, List.range_zero, List.nil_append, List.map_append,
    List.map_cons, List.map_nil, List.sum_append, List.sum_cons, List.sum_nil, add_zero, pow_zero,
    pow_one, mul_one]

theorem value_zero : value 0 = 0 := by
  simp [value_eq]

theorem value_one : value 1 = 1 := by
  have hbits : ∀ i < 8, Nat.testBit 1 i = decide (i = 0) := by decide
  simp [value_eq, hbits]

theorem value_two : value 2 = α := by
  have hbits : ∀ i < 8, Nat.testBit 2 i = decide (i = 1) := by decide
  simp [value_eq, hbits]

/-- Exclusive or is the sum. -/
theorem value_xor (a b : Nat) : value (a ^^^ b) = value a + value b := by
  simp only [value_eq, Nat.testBit_xor, bit_xor]
  ring

/-- A multiple by one bit. -/
theorem value_bit_mul (b : Bool) (a : Nat) : value (b.toNat * a) = bit b * value a := by
  cases b
  · simp [value_zero]
  · simp

/-- Twice a byte, reduced. -/
def double (r : Nat) : Nat := (r <<< 1) ^^^ ((r >>> 7) * 0x11d)

theorem double_spec : ∀ r < 256, double r < 256
    ∧ (double r).testBit 0 = r.testBit 7 ∧ (double r).testBit 1 = r.testBit 0
    ∧ (double r).testBit 2 = (r.testBit 1 ^^ r.testBit 7)
    ∧ (double r).testBit 3 = (r.testBit 2 ^^ r.testBit 7)
    ∧ (double r).testBit 4 = (r.testBit 3 ^^ r.testBit 7)
    ∧ (double r).testBit 5 = r.testBit 4 ∧ (double r).testBit 6 = r.testBit 5
    ∧ (double r).testBit 7 = r.testBit 6 := by
  decide +kernel

/-- Doubling is the product with the root. -/
theorem value_double {r : Nat} (h : r < 256) : value (double r) = α * value r := by
  obtain ⟨-, h0, h1, h2, h3, h4, h5, h6, h7⟩ := double_spec r h
  rw [value_eq, h0, h1, h2, h3, h4, h5, h6, h7, value_eq r]
  simp only [bit_xor]
  linear_combination -bit (r.testBit 7) * α_pow_eight

-- ============================================================== codewords

/-- A codeword evaluated, its first byte the highest coefficient. -/
noncomputable def eval (z : F) (codeword : List Nat) : F :=
  codeword.foldl (fun sum byte => sum * z + value byte) 0

variable {z : F} {cs ds : List Nat}

theorem foldl_eval (z : F) (codeword : List Nat) (start : F) :
    codeword.foldl (fun sum byte => sum * z + value byte) start
      = start * z ^ codeword.length + eval z codeword := by
  induction codeword generalizing start with
  | nil => simp [eval]
  | cons byte codeword ih =>
    rw [eval, List.foldl_cons, List.foldl_cons, ih, ih (0 * z + value byte), List.length_cons]
    ring

@[simp]
theorem eval_nil (z : F) : eval z [] = 0 := rfl

theorem eval_cons (z : F) (byte : Nat) (codeword : List Nat) :
    eval z (byte :: codeword) = value byte * z ^ codeword.length + eval z codeword := by
  rw [eval, List.foldl_cons, foldl_eval]
  ring

theorem eval_append (z : F) (cs ds : List Nat) :
    eval z (cs ++ ds) = eval z cs * z ^ ds.length + eval z ds := by
  rw [eval, List.foldl_append, foldl_eval]
  rfl

end Gf256
