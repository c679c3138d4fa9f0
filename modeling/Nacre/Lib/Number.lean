/-
JavaScript numbers: doubles, what arithmetic and comparison make of them,
and `Number(text)`.

A finite number is the rational it stands for; the zeros are one. What is
computed is rounded to the nearest double, the even one of two (`round`).
The proofs about counts and positions need two facts of it: an integer
below 2^53 is a double (`round_natCast`), and what is not below such an
integer is not below it when rounded (`le_round`).
-/
import Mathlib.Data.Int.Log
import Mathlib.Data.Rat.Floor
import Mathlib.Tactic.Linarith
import Nacre.Lib.Units

/-- A number. -/
inductive Number where
  | nan
  | infinite (negative : Bool)
  | finite (q : ℚ)
  deriving DecidableEq

namespace Number

-- ================================================================= doubles

/-- To an integer, to the even one of two as near. -/
def roundEven (q : ℚ) : ℤ :=
  let below := ⌊q⌋
  let part := q - below
  if part < 1 / 2 then below
  else if 1 / 2 < part then below + 1
  else if below % 2 = 0 then below
  else below + 1

/-- The exponent of the last of 53 bits. -/
def lastBit (q : ℚ) : ℤ := max (Int.log 2 |q| - 52) (-1074)

/-- The double nearest to a rational. -/
def round (q : ℚ) : Number :=
  let r := roundEven (q / 2 ^ lastBit q) * (2 : ℚ) ^ lastBit q
  if 2 ^ 1024 ≤ |r| then .infinite (r < 0) else .finite r

def ofNat (n : ℕ) : Number := .finite n

/-- `a + b`. -/
def add : Number → Number → Number
  | .nan, _ => .nan
  | _, .nan => .nan
  | .infinite s, .infinite t => if s = t then .infinite s else .nan
  | .infinite s, .finite _ => .infinite s
  | .finite _, .infinite t => .infinite t
  | .finite p, .finite q => round (p + q)

/-- `a - b`. -/
def sub : Number → Number → Number
  | .nan, _ => .nan
  | _, .nan => .nan
  | .infinite s, .infinite t => if s = t then .nan else .infinite s
  | .infinite s, .finite _ => .infinite s
  | .finite _, .infinite t => .infinite (!t)
  | .finite p, .finite q => round (p - q)

/-- `a < b`. -/
def lt : Number → Number → Bool
  | .nan, _ => false
  | _, .nan => false
  | .infinite s, .infinite t => s && !t
  | .infinite s, .finite _ => s
  | .finite _, .infinite t => !t
  | .finite p, .finite q => p < q

/-- `a >= b`. -/
def ge : Number → Number → Bool
  | .nan, _ => false
  | _, .nan => false
  | a, b => !a.lt b

/-- Without the fraction. -/
def trunc (q : ℚ) : ℤ := if 0 ≤ q then ⌊q⌋ else ⌈q⌉

/-- As an offset into so many: what is not a number is the start. -/
def clamp (len : ℕ) : Number → ℕ
  | .nan => 0
  | .infinite negative => if negative then 0 else len
  | .finite q => min (trunc q).toNat len

/-- The same, a negative offset being one from the end. -/
def clampFromEnd (len : ℕ) : Number → ℕ
  | .nan => 0
  | .infinite negative => if negative then 0 else len
  | .finite q => if trunc q < 0 then (len + trunc q).toNat else min (trunc q).toNat len

-- ============================================================= Number(text)

def isDigit (u : UInt16) : Bool := 0x30 ≤ u.toNat && u.toNat ≤ 0x39

def digit (u : UInt16) : ℕ := u.toNat - 0x30

/-- The number so many digits write. -/
def decimal (digits : List UInt16) : ℕ := digits.foldl (fun n u => n * 10 + digit u) 0

/-- A digit of a base up to sixteen. -/
def digitOf (base : ℕ) (u : UInt16) : Option ℕ :=
  let n := u.toNat
  let d :=
    if 0x30 ≤ n ∧ n ≤ 0x39 then n - 0x30
    else if 0x41 ≤ n ∧ n ≤ 0x46 then n - 0x41 + 10
    else if 0x61 ≤ n ∧ n ≤ 0x66 then n - 0x61 + 10
    else 16
  if d < base then some d else none

/-- What follows `0x`, `0o` or `0b`. -/
def baseLiteral (base : ℕ) (digits : List UInt16) : Number :=
  match digits, digits.mapM (digitOf base) with
  | _ :: _, some ds => round ((ds.foldl (fun n d => n * base + d) 0 : ℕ) : ℚ)
  | _, _ => .nan

/-- An exponent: digits, with a sign or without. -/
def exponent : List UInt16 → Option ℤ
  | 0x2B :: digits => if digits ≠ [] ∧ digits.all isDigit then some (decimal digits) else none
  | 0x2D :: digits => if digits ≠ [] ∧ digits.all isDigit then some (-decimal digits) else none
  | digits => if digits ≠ [] ∧ digits.all isDigit then some (decimal digits) else none

/-- The digits after a point, and what follows them. -/
def afterPoint : List UInt16 → List UInt16 × List UInt16
  | 0x2E :: rest => (rest.takeWhile isDigit, rest.dropWhile isDigit)
  | rest => ([], rest)

/-- A decimal literal without a sign. -/
def unsigned (s : List UInt16) : Option ℚ :=
  let whole := s.takeWhile isDigit
  let (fraction, rest) := afterPoint (s.dropWhile isDigit)
  if whole = [] ∧ fraction = [] then none
  else
    let mantissa : ℚ := decimal (whole ++ fraction) / 10 ^ fraction.length
    match rest with
    | [] => some mantissa
    | 0x65 :: rest => (exponent rest).map fun k => mantissa * 10 ^ k
    | 0x45 :: rest => (exponent rest).map fun k => mantissa * 10 ^ k
    | _ => none

/-- `Infinity`. -/
def infinityText : List UInt16 := [0x49, 0x6E, 0x66, 0x69, 0x6E, 0x69, 0x74, 0x79]

/-- What a sign may stand before. -/
def signed (negative : Bool) (s : List UInt16) : Number :=
  if s = infinityText then .infinite negative
  else
    match unsigned s with
    | none => .nan
    | some q => round (if negative then -q else q)

/-- A literal, with nothing around it. -/
def literal : List UInt16 → Number
  | [] => .finite 0
  | 0x2B :: rest => signed false rest
  | 0x2D :: rest => signed true rest
  | 0x30 :: 0x78 :: rest => baseLiteral 16 rest
  | 0x30 :: 0x58 :: rest => baseLiteral 16 rest
  | 0x30 :: 0x6F :: rest => baseLiteral 8 rest
  | 0x30 :: 0x4F :: rest => baseLiteral 8 rest
  | 0x30 :: 0x62 :: rest => baseLiteral 2 rest
  | 0x30 :: 0x42 :: rest => baseLiteral 2 rest
  | s => signed false s

/-- `Number(text)`. -/
def number (text : List UInt16) : Number := literal (Units.trim text)

-- ================================================================= rounding

theorem roundEven_intCast (n : ℤ) : roundEven n = n := by
  simp [roundEven]

theorem le_roundEven {n : ℤ} {q : ℚ} (h : n ≤ q) : n ≤ roundEven q := by
  have hfloor : n ≤ ⌊q⌋ := Int.le_floor.mpr h
  simp only [roundEven]
  split_ifs <;> omega

theorem lastBit_of_lt {q : ℚ} (hpos : 0 < q) (h : q < 2 ^ 53) : lastBit q ≤ 0 := by
  have hlog : Int.log 2 |q| < 53 := by
    rw [abs_of_pos hpos]
    refine (Int.lt_zpow_iff_log_lt (by omega) hpos).mp ?_
    exact_mod_cast h
  unfold lastBit
  omega

theorem lastBit_pos {q : ℚ} (hpos : 0 < q) (h : 0 < lastBit q) :
    (2 : ℚ) ^ (52 : ℤ) * 2 ^ lastBit q ≤ q := by
  have heq : lastBit q = Int.log 2 |q| - 52 := by
    unfold lastBit at h ⊢
    omega
  rw [heq, ← zpow_add₀ (by norm_num), abs_of_pos hpos, add_sub_cancel]
  exact_mod_cast Int.zpow_log_le_self (b := 2) (by omega) hpos

/-- An integer is so many of the last bits, if these are no ones. -/
theorem div_lastBit {e : ℤ} (he : e ≤ 0) (n : ℕ) :
    (n : ℚ) / 2 ^ e = ((n * 2 ^ (-e).toNat : ℕ) : ℤ) := by
  have hneg : ((-e).toNat : ℤ) = -e := Int.toNat_of_nonneg (by omega)
  have hpow : ((2 : ℚ) ^ e)⁻¹ = 2 ^ (-e).toNat := by
    rw [← zpow_neg]
    conv_lhs => rw [← hneg]
    exact zpow_natCast 2 _
  rw [div_eq_mul_inv, hpow, Int.cast_natCast, Nat.cast_mul, Nat.cast_pow, Nat.cast_ofNat]

/-- An integer below 2^53 is a double. -/
theorem round_natCast {n : ℕ} (h : n < 2 ^ 53) : round n = .finite n := by
  have hlast : lastBit (n : ℚ) ≤ 0 := by
    rcases Nat.eq_zero_or_pos n with rfl | hpos
    · simp [lastBit]
    · exact lastBit_of_lt (by exact_mod_cast hpos) (by exact_mod_cast h)
  have hback : (roundEven ((n : ℚ) / 2 ^ lastBit (n : ℚ)) : ℚ) * 2 ^ lastBit (n : ℚ) = n := by
    rw [div_lastBit hlast, roundEven_intCast, ← div_lastBit hlast]
    exact div_mul_cancel₀ _ (zpow_ne_zero _ (by norm_num))
  have hsmall : ¬(2 : ℚ) ^ 1024 ≤ |(n : ℚ)| := by
    rw [abs_of_nonneg (by positivity), not_le]
    refine lt_of_lt_of_le (b := (2 : ℚ) ^ 53) (by exact_mod_cast h) ?_
    exact pow_le_pow_right₀ (by norm_num) (by norm_num)
  unfold round
  simp only [hback]
  rw [if_neg hsmall]

/-- What is not below an integer is not below it when rounded. -/
theorem le_round {n : ℕ} {q : ℚ} (h : n < 2 ^ 53) (hq : n ≤ q) :
    round q = .infinite false ∨ ∃ r : ℚ, round q = .finite r ∧ n ≤ r := by
  rcases (Nat.cast_nonneg n).trans hq |>.eq_or_lt with hzero | hpos
  · subst hzero
    have hn : n = 0 := by exact_mod_cast le_antisymm hq (Nat.cast_nonneg n)
    subst hn
    exact .inr ⟨0, by exact_mod_cast round_natCast (n := 0) (by norm_num), by simp⟩
  have hunit : (0 : ℚ) < 2 ^ lastBit q := zpow_pos (by norm_num) _
  have hle : (n : ℚ) ≤ roundEven (q / 2 ^ lastBit q) * 2 ^ lastBit q := by
    rcases le_or_gt (lastBit q) 0 with hlast | hlast
    · have hdiv : (((n * 2 ^ (-lastBit q).toNat : ℕ) : ℤ) : ℚ) ≤ q / 2 ^ lastBit q := by
        rw [← div_lastBit hlast]
        exact div_le_div_of_nonneg_right hq hunit.le
      have hround : (((n * 2 ^ (-lastBit q).toNat : ℕ) : ℤ) : ℚ) ≤ roundEven (q / 2 ^ lastBit q) :=
        by exact_mod_cast le_roundEven hdiv
      rw [← div_lastBit hlast] at hround
      exact (div_le_iff₀ hunit).mp hround
    · have hdiv : (((2 ^ 52 : ℕ) : ℤ) : ℚ) ≤ q / 2 ^ lastBit q := by
        rw [le_div_iff₀ hunit]
        exact_mod_cast lastBit_pos hpos hlast
      have hround : (((2 ^ 52 : ℕ) : ℤ) : ℚ) ≤ roundEven (q / 2 ^ lastBit q) :=
        by exact_mod_cast le_roundEven hdiv
      have htwo : (2 : ℚ) ≤ 2 ^ lastBit q := by
        calc (2 : ℚ) = 2 ^ (1 : ℤ) := by norm_num
          _ ≤ 2 ^ lastBit q := zpow_le_zpow_right₀ (by norm_num) (by omega)
      have hn : (n : ℚ) ≤ 2 ^ 53 := by exact_mod_cast h.le
      push_cast at hround
      nlinarith
  unfold round
  simp only
  split_ifs with hbig
  · left
    have hnonneg : (0 : ℚ) ≤ roundEven (q / 2 ^ lastBit q) * 2 ^ lastBit q :=
      (Nat.cast_nonneg n).trans hle
    simp [not_lt.mpr hnonneg]
  · exact .inr ⟨_, rfl, hle⟩

-- ============================================================== differences

/-- A double, or none: the finite ones are multiples of the least. -/
def IsDouble : Number → Prop
  | .finite q => ∃ k : ℤ, q = k * 2 ^ (-1074 : ℤ)
  | _ => True

theorem isDouble_ofNat (n : ℕ) : (ofNat n).IsDouble := by
  have hall : ∀ e : ℕ, (n : ℚ) = ((n * 2 ^ e : ℤ) : ℚ) * 2 ^ (-(e : ℤ)) := by
    intro e
    push_cast
    rw [mul_assoc, ← zpow_natCast, ← zpow_add₀ (by norm_num), add_neg_cancel, zpow_zero, mul_one]
  exact ⟨_, hall 1074⟩

theorem roundEven_le {n : ℤ} {q : ℚ} (h : q ≤ n) : roundEven q ≤ n := by
  have hfloor : ⌊q⌋ ≤ n := by exact_mod_cast (Int.floor_le q).trans h
  rcases hfloor.lt_or_eq with hlt | heq
  · simp only [roundEven]
    split_ifs <;> omega
  · have hq : q = n := le_antisymm h (by rw [← heq]; exact Int.floor_le q)
    rw [hq, roundEven_intCast]

/-- What is at least a last bit away from zero is not rounded to it. -/
theorem lastBit_le_abs {q : ℚ} (h : (2 : ℚ) ^ (-1074 : ℤ) ≤ |q|) : (2 : ℚ) ^ lastBit q ≤ |q| := by
  have hpos : 0 < |q| := lt_of_lt_of_le (zpow_pos (by norm_num) _) h
  unfold lastBit
  rcases max_choice (Int.log 2 |q| - 52) (-1074) with hmax | hmax
  · rw [hmax]
    calc (2 : ℚ) ^ (Int.log 2 |q| - 52) ≤ 2 ^ Int.log 2 |q| :=
          zpow_le_zpow_right₀ (by norm_num) (by omega)
      _ ≤ |q| := by exact_mod_cast Int.zpow_log_le_self (b := 2) (by omega) hpos
  · rw [hmax]
    exact h

/-- The sign of a rounded number is the number's. -/
theorem zero_lt_round {q : ℚ} (h : q = 0 ∨ (2 : ℚ) ^ (-1074 : ℤ) ≤ |q|) :
    (finite 0).lt (round q) = decide (0 < q) := by
  have hunit : (0 : ℚ) < 2 ^ lastBit q := zpow_pos (by norm_num) _
  have hsign : 0 < roundEven (q / 2 ^ lastBit q) * (2 : ℚ) ^ lastBit q ↔ 0 < q := by
    rw [mul_pos_iff_of_pos_right hunit, Int.cast_pos]
    constructor
    · intro hround
      by_contra hq
      have hle : q / 2 ^ lastBit q ≤ ((0 : ℤ) : ℚ) := by
        rw [Int.cast_zero]
        exact div_nonpos_of_nonpos_of_nonneg (not_lt.mp hq) hunit.le
      have hround' := roundEven_le hle
      omega
    · intro hq
      have hfar : (2 : ℚ) ^ (-1074 : ℤ) ≤ |q| := h.resolve_left hq.ne'
      have hone : ((1 : ℤ) : ℚ) ≤ q / 2 ^ lastBit q := by
        rw [Int.cast_one, le_div_iff₀ hunit, one_mul]
        exact (lastBit_le_abs hfar).trans_eq (abs_of_pos hq)
      exact le_roundEven hone
  unfold round
  simp only
  split_ifs with hbig
  · rw [lt, Bool.eq_iff_iff, Bool.not_eq_true', decide_eq_false_iff_not, decide_eq_true_eq, ← hsign,
      not_lt]
    have hnonzero : roundEven (q / 2 ^ lastBit q) * (2 : ℚ) ^ lastBit q ≠ 0 := by
      intro hzero
      rw [hzero, abs_zero] at hbig
      exact absurd hbig (not_le.mpr (by positivity))
    exact ⟨fun hle => lt_of_le_of_ne hle hnonzero.symm, le_of_lt⟩
  · rw [lt, Bool.eq_iff_iff, decide_eq_true_eq, decide_eq_true_eq, hsign]

/-- The difference of two doubles is above zero when the one is above the
other. -/
theorem zero_lt_sub {a b : Number} (ha : a.IsDouble) (hb : b.IsDouble) :
    (ofNat 0).lt (a.sub b) = b.lt a := by
  cases a with
  | nan => cases b <;> rfl
  | infinite s =>
      cases b with
      | nan => rfl
      | infinite t => cases s <;> cases t <;> rfl
      | finite q => rfl
  | finite p =>
      cases b with
      | nan => rfl
      | infinite t =>
          show (!!t) = t
          exact Bool.not_not t
      | finite q =>
          obtain ⟨j, rfl⟩ := ha
          obtain ⟨k, rfl⟩ := hb
          have hfar : (j : ℚ) * 2 ^ (-1074 : ℤ) - k * 2 ^ (-1074 : ℤ) = 0 ∨
              (2 : ℚ) ^ (-1074 : ℤ) ≤ |(j : ℚ) * 2 ^ (-1074 : ℤ) - k * 2 ^ (-1074 : ℤ)| := by
            rw [← sub_mul, ← Int.cast_sub]
            rcases eq_or_ne (j - k) 0 with hzero | hne
            · left
              rw [hzero, Int.cast_zero, zero_mul]
            · right
              rw [abs_mul, abs_of_pos (zpow_pos (by norm_num : (0 : ℚ) < 2) _)]
              refine le_mul_of_one_le_left (zpow_pos (by norm_num) _).le ?_
              rw [← Int.cast_abs]
              exact_mod_cast Int.one_le_abs hne
          rw [ofNat, Nat.cast_zero, sub, zero_lt_round hfar, lt]
          exact decide_eq_decide.mpr sub_pos

-- ================================================================ positions

theorem add_ofNat {m n : ℕ} (h : m + n < 2 ^ 53) : (ofNat m).add (ofNat n) = ofNat (m + n) := by
  have hround := round_natCast h
  rw [Nat.cast_add] at hround
  rw [ofNat, ofNat, ofNat, add, hround, Nat.cast_add]

@[simp] theorem lt_ofNat (m n : ℕ) : (ofNat m).lt (ofNat n) = decide (m < n) := by
  simp [ofNat, lt]

@[simp] theorem ge_ofNat (m n : ℕ) : (ofNat m).ge (ofNat n) = decide (n ≤ m) := by
  by_cases h : m < n
  · simp [ofNat, ge, lt, h]
  · simp [ofNat, ge, lt, h, not_lt.mp h]

-- ================================================================== digits

theorem takeWhile_isDigit {s : List UInt16} (h : ∀ u ∈ s, isDigit u = true) :
    s.takeWhile isDigit = s ∧ s.dropWhile isDigit = [] :=
  ⟨List.takeWhile_eq_self_iff.mpr h, List.dropWhile_eq_nil_iff.mpr h⟩

theorem unsigned_digits {s : List UInt16} (hne : s ≠ []) (h : ∀ u ∈ s, isDigit u = true) :
    unsigned s = some (decimal s) := by
  obtain ⟨htake, hdrop⟩ := takeWhile_isDigit h
  unfold unsigned
  rw [htake, hdrop]
  simp [afterPoint, hne]

theorem isSpace_of_isDigit {u : UInt16} (h : isDigit u = true) : Units.isSpace u = false := by
  simp only [isDigit, Bool.and_eq_true, decide_eq_true_eq] at h
  simp only [Units.isSpace, Bool.or_eq_false_iff, Bool.and_eq_false_iff, decide_eq_false_iff_not]
  omega

theorem literal_digits {s : List UInt16} (hne : s ≠ []) (h : ∀ u ∈ s, isDigit u = true) :
    literal s = signed false s := by
  unfold literal
  split
  next => exact absurd rfl hne
  next => exact absurd (h 0x2B (by simp)) (by decide)
  next => exact absurd (h 0x2D (by simp)) (by decide)
  next => exact absurd (h 0x78 (by simp)) (by decide)
  next => exact absurd (h 0x58 (by simp)) (by decide)
  next => exact absurd (h 0x6F (by simp)) (by decide)
  next => exact absurd (h 0x4F (by simp)) (by decide)
  next => exact absurd (h 0x62 (by simp)) (by decide)
  next => exact absurd (h 0x42 (by simp)) (by decide)
  next => rfl

/-- `Number` of digits is what they write. -/
theorem number_digits {s : List UInt16} (hne : s ≠ []) (h : ∀ u ∈ s, isDigit u = true)
    (hsmall : decimal s < 2 ^ 53) : number s = ofNat (decimal s) := by
  have htrim : Units.trim s = s := by
    refine Units.Trimmed.trim_eq ⟨fun u hu => ?_, fun u hu => ?_⟩
    · exact isSpace_of_isDigit (h u (List.mem_of_mem_head? hu))
    · exact isSpace_of_isDigit (h u (List.mem_of_mem_getLast? hu))
  have hinfinity : s ≠ infinityText := by
    rintro rfl
    exact absurd (h 0x49 (by simp [infinityText])) (by decide)
  rw [number, htrim, literal_digits hne h, signed, if_neg hinfinity, unsigned_digits hne h]
  exact round_natCast hsmall

end Number
