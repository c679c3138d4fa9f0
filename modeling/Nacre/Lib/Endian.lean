/-
Little-endian fields of a buffer: numbers written in so many bytes, and
read again at an offset.

`writeLE` refuses a number that does not fit, and `readLE` an offset whose
bytes are not all there: both throw in the runtime. A record is its fields
in order, and each is read where it was written (`Record.read`).
-/
import Mathlib.Algebra.GroupWithZero.Nat
import Mathlib.Data.List.Basic

namespace Endian

variable {buf rest : List UInt8} {at_ w n : Nat}

/-- So many bytes of a number, the low one first. -/
def digits : Nat → Nat → List UInt8
  | 0, _ => []
  | width + 1, n => UInt8.ofNat (n % 256) :: digits width (n / 256)

def value : List UInt8 → Nat
  | [] => 0
  | b :: bytes => b.toNat + 256 * value bytes

/-- `buffer.writeUIntLE(n)`, `none` for the `RangeError`. -/
def writeLE (width n : Nat) : Option (List UInt8) :=
  if n < 256 ^ width then some (digits width n) else none

/-- `buffer.readUIntLE(at)`, `none` for the `RangeError`. -/
def readLE (width : Nat) (bytes : List UInt8) (at_ : Nat) : Option Nat :=
  if at_ + width ≤ bytes.length then some (value ((bytes.drop at_).take width)) else none

@[simp] theorem length_digits (width n : Nat) : (digits width n).length = width := by
  induction width generalizing n with
  | zero => rfl
  | succ width ih => rw [digits, List.length_cons, ih]

theorem value_digits (h : n < 256 ^ w) : value (digits w n) = n := by
  induction w generalizing n with
  | zero =>
      rw [Nat.pow_zero, Nat.lt_one_iff] at h
      rw [h]
      rfl
  | succ w ih =>
      rw [Nat.pow_succ] at h
      have hlow : (UInt8.ofNat (n % 256)).toNat = n % 256 :=
        UInt8.toNat_ofNat_of_lt (Nat.mod_lt _ (by decide))
      rw [digits, value, hlow, ih (Nat.div_lt_of_lt_mul (by omega))]
      omega

theorem value_lt (bytes : List UInt8) : value bytes < 256 ^ bytes.length := by
  induction bytes with
  | nil => exact Nat.one_pos
  | cons b bytes ih =>
      have hb : b.toNat < 256 := b.toNat_lt
      rw [value, List.length_cons, Nat.pow_succ]
      omega

theorem readLE_isSome : (readLE w buf at_).isSome ↔ at_ + w ≤ buf.length := by
  unfold readLE
  split
  next h => simp [h]
  next h => simp [h]

-- ================================================================ records

/-- A record: the width of each field, and what is in it. -/
abbrev Record := List (Nat × Nat)

/-- The bytes of a record. -/
def Record.bytes (fields : Record) : List UInt8 := fields.flatMap fun f => digits f.1 f.2

/-- Every number fits its field. -/
def Record.Fits (fields : Record) : Prop := ∀ f ∈ fields, f.2 < 256 ^ f.1

/-- The fields written one after another. -/
def Record.write : Record → Option (List UInt8)
  | [] => some []
  | (width, n) :: fields => do
      let field ← writeLE width n
      let rest ← Record.write fields
      some (field ++ rest)

variable {fields : Record}

theorem Record.write_fits (h : Record.Fits fields) :
    Record.write fields = some (Record.bytes fields) := by
  induction fields with
  | nil => rfl
  | cons f fields ih =>
      obtain ⟨hf, hfields⟩ := List.forall_mem_cons.mp h
      rw [Record.write, writeLE, if_pos hf, ih hfields]
      rfl

theorem Record.length_bytes (fields : Record) :
    (Record.bytes fields).length = (fields.map (·.1)).sum := by
  induction fields with
  | nil => rfl
  | cons f fields ih =>
      rw [Record.bytes, List.flatMap_cons, List.length_append, length_digits]
      exact congrArg (f.1 + ·) ih

/-- Each field is read where it was written. -/
theorem Record.read {i : Nat} (h : buf.drop at_ = Record.bytes fields ++ rest)
    (hfits : Record.Fits fields) (hi : fields[i]? = some (w, n)) (hw : 0 < w) :
    readLE w buf (at_ + ((fields.map (·.1)).take i).sum) = some n := by
  induction fields generalizing at_ i with
  | nil => cases hi
  | cons f fields ih =>
      obtain ⟨hf, hfields⟩ := List.forall_mem_cons.mp hfits
      rw [Record.bytes, List.flatMap_cons, List.append_assoc] at h
      cases i with
      | zero =>
          rw [List.getElem?_cons_zero, Option.some.injEq] at hi
          subst hi
          have hlen := congrArg List.length h
          rw [List.length_drop, List.length_append, length_digits] at hlen
          show readLE w buf (at_ + 0) = some n
          rw [Nat.add_zero, readLE, if_pos (by omega), h, List.take_left' (length_digits w n),
            value_digits hf]
      | succ i =>
          have htail : buf.drop (at_ + f.1) = Record.bytes fields ++ rest := by
            rw [← List.drop_drop, h]
            exact List.drop_left' (length_digits f.1 f.2)
          have hread := ih htail hfields hi
          rw [List.map_cons, List.take_succ_cons, List.sum_cons, ← Nat.add_assoc]
          exact hread

/-- A field at an offset, of a record with these widths. -/
theorem Record.readAt {i k : Nat} {widths : List Nat} (hwidths : fields.map (·.1) = widths)
    (h : buf.drop at_ = Record.bytes fields ++ rest) (hfits : Record.Fits fields)
    (hi : fields[i]? = some (w, n)) (hk : (widths.take i).sum = k) (hw : 0 < w) :
    readLE w buf (at_ + k) = some n := by
  rw [← hk, ← hwidths]
  exact Record.read h hfits hi hw

end Endian
