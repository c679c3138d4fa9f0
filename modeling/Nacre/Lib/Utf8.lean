/-
Text through bytes: what `Buffer.from(text, 'utf8')` writes and what comes
back of it.

The bytes of a text are those of its scalar values, with U+FFFD for a lone
surrogate; decoding them gives the text with its lone surrogates replaced
(`decode_bytesOf`), and that is the text itself exactly where it is
well-formed (`isWellFormed_iff`).
-/
import Nacre.Lib.Buffer
import Nacre.Lib.Js
import Nacre.Lib.Units

namespace Utf8

open Units (isWellFormed)

variable {text : List UInt16} {c : Char} {rest : List UInt8}

/-- `Buffer.from(text, 'utf8')` -/
def bytesOf (text : List UInt16) : List UInt8 := (Js.encode text).data.toList

/-- The text with its lone surrogates replaced. -/
def repaired (text : List UInt16) : List UInt16 := Js.codeUnits (Js.toWellFormed text)

theorem bytesOf_eq (text : List UInt16) :
    bytesOf text = (Js.scalars text).flatMap String.utf8EncodeChar := by
  show (List.flatMap String.utf8EncodeChar (Js.scalars text)).toByteArray.data.toList = _
  rw [List.toList_data_toByteArray]

theorem unitsOf_char (c : Char) : Buffer.unitsOf c.toNat = (Js.charUnits c).map UInt16.ofNat := by
  unfold Buffer.unitsOf Js.charUnits
  dsimp only
  split
  next => rfl
  next => rfl

theorem toNat_ofNat {n : Nat} (h : n < 256) : (UInt8.ofNat n).toNat = n := UInt8.toNat_ofNat_of_lt h

-- ================================================================== decoding

theorem decode_open {b : Nat} {o : Buffer.Open} (hb : b < 256) (h : Buffer.first b = ([], some o)) :
    Buffer.decodeFrom none (UInt8.ofNat b :: rest) = Buffer.decodeFrom (some o) rest := by
  rw [Buffer.decodeFrom, toNat_ofNat hb, h]
  rfl

theorem decode_more {b needed lower upper bits : Nat} (hb : b < 256) (hneeded : needed ≠ 1)
    (h : lower ≤ b ∧ b ≤ upper) :
    Buffer.decodeFrom (some ⟨needed, lower, upper, bits⟩) (UInt8.ofNat b :: rest)
      = Buffer.decodeFrom (some ⟨needed - 1, 0x80, 0xBF, bits * 64 + b % 64⟩) rest := by
  rw [Buffer.decodeFrom, toNat_ofNat hb, if_pos h]
  simp only
  rw [if_neg hneeded]

theorem decode_last {b lower upper bits : Nat} (hb : b < 256) (h : lower ≤ b ∧ b ≤ upper) :
    Buffer.decodeFrom (some ⟨1, lower, upper, bits⟩) (UInt8.ofNat b :: rest)
      = Buffer.unitsOf (bits * 64 + b % 64) ++ Buffer.decodeFrom none rest := by
  rw [Buffer.decodeFrom, toNat_ofNat hb, if_pos h]
  exact if_pos rfl

theorem decode_two {v : Nat} (hlow : 0x80 ≤ v) (hhigh : v ≤ 0x7ff) :
    Buffer.decodeFrom none
      (UInt8.ofNat (v / 64 % 0x20 + 0xc0) :: UInt8.ofNat (v % 0x40 + 0x80) :: rest)
      = Buffer.unitsOf v ++ Buffer.decodeFrom none rest := by
  have hfirst : Buffer.first (v / 64 % 0x20 + 0xc0) = ([], some ⟨1, 0x80, 0xBF, v / 64⟩) := by
    rw [Buffer.first, if_neg (by omega), if_pos (by omega)]
    have hbits : v / 64 % 0x20 + 0xc0 - 0xC0 = v / 64 := by omega
    rw [hbits]
  rw [decode_open (by omega) hfirst, decode_last (by omega) (by omega)]
  rw [show v / 64 * 64 + (v % 0x40 + 0x80) % 64 = v by omega]

theorem decode_three {v : Nat} (hlow : 0x800 ≤ v) (hhigh : v ≤ 0xffff)
    (hvalid : v < 0xD800 ∨ 0xDFFF < v) :
    Buffer.decodeFrom none (UInt8.ofNat (v / 4096 % 0x10 + 0xe0)
        :: UInt8.ofNat (v / 64 % 0x40 + 0x80) :: UInt8.ofNat (v % 0x40 + 0x80) :: rest)
      = Buffer.unitsOf v ++ Buffer.decodeFrom none rest := by
  -- the first byte bounds the second where the character is near a hole
  have hfirst : ∃ lower upper, Buffer.first (v / 4096 % 0x10 + 0xe0)
      = ([], some ⟨2, lower, upper, v / 4096⟩)
      ∧ lower ≤ v / 64 % 0x40 + 0x80 ∧ v / 64 % 0x40 + 0x80 ≤ upper := by
    have hbits : v / 4096 % 0x10 + 0xe0 - 0xE0 = v / 4096 := by omega
    by_cases h0 : v / 4096 = 0
    · refine ⟨0xA0, 0xBF, ?_, by omega, by omega⟩
      rw [h0]
      rfl
    · by_cases hd : v / 4096 = 0xD
      · refine ⟨0x80, 0x9F, ?_, by omega, by omega⟩
        rw [hd]
        rfl
      · refine ⟨0x80, 0xBF, ?_, by omega, by omega⟩
        rw [Buffer.first, if_neg (by omega), if_neg (by omega), if_neg (by omega),
          if_neg (by omega), if_pos (by omega), hbits]
  obtain ⟨lower, upper, hfirst, hbounds⟩ := hfirst
  rw [decode_open (by omega) hfirst, decode_more (by omega) (by decide) hbounds,
    decode_last (by omega) (by omega)]
  rw [show (v / 4096 * 64 + (v / 64 % 0x40 + 0x80) % 64) * 64 + (v % 0x40 + 0x80) % 64 = v by omega]

theorem decode_four {v : Nat} (hlow : 0x10000 ≤ v) (hhigh : v < 0x110000) :
    Buffer.decodeFrom none (UInt8.ofNat (v / 262144 % 0x08 + 0xf0)
        :: UInt8.ofNat (v / 4096 % 0x40 + 0x80) :: UInt8.ofNat (v / 64 % 0x40 + 0x80)
        :: UInt8.ofNat (v % 0x40 + 0x80) :: rest)
      = Buffer.unitsOf v ++ Buffer.decodeFrom none rest := by
  have hfirst : ∃ lower upper, Buffer.first (v / 262144 % 0x08 + 0xf0)
      = ([], some ⟨3, lower, upper, v / 262144⟩)
      ∧ lower ≤ v / 4096 % 0x40 + 0x80 ∧ v / 4096 % 0x40 + 0x80 ≤ upper := by
    by_cases h0 : v / 262144 = 0
    · refine ⟨0x90, 0xBF, ?_, by omega, by omega⟩
      rw [h0]
      rfl
    · by_cases h4 : v / 262144 = 4
      · refine ⟨0x80, 0x8F, ?_, by omega, by omega⟩
        rw [h4]
        rfl
      · refine ⟨0x80, 0xBF, ?_, by omega, by omega⟩
        have hbits : v / 262144 % 0x08 + 0xf0 - 0xF0 = v / 262144 := by omega
        rw [Buffer.first, if_neg (by omega), if_neg (by omega), if_neg (by omega),
          if_neg (by omega), if_neg (by omega), if_neg (by omega), if_neg (by omega),
          if_pos (by omega), hbits]
  obtain ⟨lower, upper, hfirst, hbounds⟩ := hfirst
  rw [decode_open (by omega) hfirst, decode_more (by omega) (by decide) hbounds,
    decode_more (by omega) (by decide) (by omega), decode_last (by omega) (by omega)]
  rw [show ((v / 262144 * 64 + (v / 4096 % 0x40 + 0x80) % 64) * 64
    + (v / 64 % 0x40 + 0x80) % 64) * 64 + (v % 0x40 + 0x80) % 64 = v by omega]

/-- One scalar value is read back, whatever follows it. -/
theorem decode_char (c : Char) (rest : List UInt8) :
    Buffer.decodeFrom none (String.utf8EncodeChar c ++ rest)
      = Buffer.unitsOf c.toNat ++ Buffer.decodeFrom none rest := by
  have hvalid : c.toNat < 0xD800 ∨ 0xDFFF < c.toNat ∧ c.toNat < 0x110000 := c.valid
  unfold String.utf8EncodeChar
  rw [show c.val.toNat = c.toNat from rfl]
  generalize c.toNat = v at hvalid ⊢
  simp only
  split
  next h1 =>
    rw [List.singleton_append, Buffer.decodeFrom, toNat_ofNat (by omega), Buffer.first,
      if_pos (by omega), Buffer.unitsOf, if_pos (by omega)]
  next h1 =>
    split
    next h2 => exact decode_two (by omega) h2
    next h2 =>
      split
      next h3 => exact decode_three (by omega) h3 (hvalid.imp_right And.left)
      next h3 => exact decode_four (by omega) (by omega)

/-- What comes back of a text that went through bytes. -/
theorem decode_bytesOf (text : List UInt16) : Buffer.decode (bytesOf text) = repaired text := by
  rw [bytesOf_eq, repaired, Js.toWellFormed, Js.codeUnits, Js.utf16, String.toList_ofList]
  unfold Buffer.decode
  induction Js.scalars text with
  | nil => rfl
  | cons c cs ih =>
      rw [List.flatMap_cons, decode_char, ih, List.flatMap_cons, List.map_append, unitsOf_char]

-- =============================================================== well-formed

open Json (isHigh isLow)

/-- A unit that is no surrogate. -/
def Plain (u : UInt16) : Prop := isHigh u = false ∧ isLow u = false

theorem plain_iff {u : UInt16} : Plain u ↔ ¬ (0xD800 ≤ u ∧ u < 0xE000) := by
  simp only [Plain, isHigh, isLow, Bool.and_eq_false_iff, decide_eq_false_iff_not,
    UInt16.le_iff_toNat_le, UInt16.lt_iff_toNat_lt]
  show (¬ 0xD800 ≤ u.toNat ∨ ¬ u.toNat < 0xDC00) ∧ (¬ 0xDC00 ≤ u.toNat ∨ ¬ u.toNat < 0xE000)
    ↔ ¬ (0xD800 ≤ u.toNat ∧ u.toNat < 0xE000)
  omega

theorem repaired_eq (text : List UInt16) :
    repaired text = ((Js.scalars text).flatMap Js.charUnits).map UInt16.ofNat := by
  rw [repaired, Js.toWellFormed, Js.codeUnits, Js.utf16, String.toList_ofList]

theorem charUnits_plain {u : UInt16} (h : Plain u) :
    (Js.charUnits (Char.ofNat u.toNat)).map UInt16.ofNat = [u] := by
  have hnot := plain_iff.mp h
  rw [UInt16.le_iff_toNat_le, UInt16.lt_iff_toNat_lt] at hnot
  have hlt : u.toNat < 65536 := u.toNat_lt
  have hvalid : u.toNat.isValidChar := by
    by_cases hlow : u.toNat < 0xD800
    · exact .inl hlow
    · refine .inr ⟨?_, by omega⟩
      have hge : ¬ u.toNat < 0xE000 := fun hlt => hnot ⟨Nat.le_of_not_lt hlow, hlt⟩
      omega
  have hnat : (Char.ofNat u.toNat).toNat = u.toNat := by
    rw [Char.ofNat, dif_pos hvalid]
    rfl
  rw [Js.charUnits, hnat]
  simp [hlt]

theorem repaired_plain {u : UInt16} (h : Plain u) (text : List UInt16) :
    repaired (u :: text) = u :: repaired text := by
  rw [repaired_eq, repaired_eq, Js.scalars_cons_plain (plain_iff.mp h), List.flatMap_cons,
    List.map_append, charUnits_plain h]
  rfl

theorem repaired_pair {u v : UInt16} (h : Units.isPair u v = true) (text : List UInt16) :
    repaired (u :: v :: text) = u :: v :: repaired text := by
  rw [Units.isPair, isHigh, isLow] at h
  simp only [Bool.and_eq_true, decide_eq_true_eq] at h
  have hpair : 0xD800 ≤ u ∧ u < 0xDC00 ∧ 0xDC00 ≤ v ∧ v < 0xE000 := ⟨h.1.1, h.1.2, h.2.1, h.2.2⟩
  have hnat : 0xD800 ≤ u.toNat ∧ u.toNat < 0xDC00 ∧ 0xDC00 ≤ v.toNat ∧ v.toNat < 0xE000 := hpair
  rw [repaired_eq, repaired_eq, Js.scalars, if_pos hpair]
  generalize hn : 0x10000 + (u.toNat - 0xD800) * 0x400 + (v.toNat - 0xDC00) = n
  have hvalid : n.isValidChar := .inr ⟨by omega, by omega⟩
  have hchar : (Char.ofNat n).toNat = n := by
    rw [Char.ofNat, dif_pos hvalid]
    rfl
  have hunits : Js.charUnits (Char.ofNat n) = [u.toNat, v.toNat] := by
    rw [Js.charUnits, hchar, if_neg (by omega)]
    rw [show 0xD800 + (n - 0x10000) / 0x400 = u.toNat by omega,
      show 0xDC00 + (n - 0x10000) % 0x400 = v.toNat by omega]
  rw [List.flatMap_cons, hunits, List.map_append, List.map_cons, List.map_singleton,
    UInt16.ofNat_toNat, UInt16.ofNat_toNat]
  rfl

/-- A surrogate that goes with nothing is replaced. -/
theorem repaired_lone {u : UInt16} {text : List UInt16} (h : ¬ Plain u)
    (hpair : ∀ v ∈ text.head?, Units.isPair u v = false) :
    (repaired (u :: text)).head? = some 0xFFFD := by
  have hsurrogate : 0xD800 ≤ u ∧ u < 0xE000 := by
    by_contra hnot
    exact h (plain_iff.mpr hnot)
  have hhead : ∃ cs, Js.scalars (u :: text) = Js.replacement :: cs := by
    cases text with
    | nil => exact ⟨[], by rw [Js.scalars, if_pos hsurrogate]⟩
    | cons v rest =>
        have hnot : ¬ (0xD800 ≤ u ∧ u < 0xDC00 ∧ 0xDC00 ≤ v ∧ v < 0xE000) := by
          rintro ⟨h1, h2, h3, h4⟩
          have hfalse := hpair v rfl
          rw [Units.isPair, isHigh, isLow] at hfalse
          simp [h1, h2, h3, h4] at hfalse
        exact ⟨_, by rw [Js.scalars, if_neg hnot, if_pos hsurrogate]⟩
  obtain ⟨cs, hcs⟩ := hhead
  rw [repaired_eq, hcs]
  rfl

theorem repaired_ne {u : UInt16} {text : List UInt16} (h : ¬ Plain u)
    (hpair : ∀ v ∈ text.head?, Units.isPair u v = false) : repaired (u :: text) ≠ u :: text := by
  intro hsame
  have hhead := repaired_lone h hpair
  rw [hsame, List.head?_cons, Option.some.injEq] at hhead
  rw [hhead] at h
  exact h ⟨by decide, by decide⟩

theorem isLone_iff {u : UInt16} : Units.isLone [u] = true ↔ ¬ Plain u := by
  rw [Units.isLone, Plain, ← Bool.or_eq_false_iff, Bool.not_eq_false]

/-- A text comes back from its bytes exactly where it is well-formed. -/
theorem isWellFormed_iff : isWellFormed text = true ↔ repaired text = text := by
  induction text using Units.codePoints.induct with
  | case1 => exact ⟨fun _ => rfl, fun _ => rfl⟩
  | case2 u =>
      by_cases hu : Plain u
      · rw [repaired_plain hu, Units.isWellFormed_cons_plain hu]
        exact ⟨fun _ => rfl, fun _ => rfl⟩
      · refine iff_of_false ?_ (repaired_ne hu fun w hw => by cases hw)
        have hlone := isLone_iff.mpr hu
        simp [isWellFormed, Units.codePoints, hlone]
  | case3 u v rest hpair ih =>
      rw [repaired_pair hpair]
      have hwell : isWellFormed (u :: v :: rest) = isWellFormed rest := by
        rw [isWellFormed, Units.codePoints_pair hpair, List.all_cons]
        exact Bool.true_and _
      rw [hwell, ih]
      simp
  | case4 u v rest hpair ih =>
      by_cases hu : Plain u
      · rw [repaired_plain hu, Units.isWellFormed_cons_plain hu, ih]
        simp
      · refine iff_of_false ?_ (repaired_ne hu fun w hw => ?_)
        · have hlone := isLone_iff.mpr hu
          simp [isWellFormed, Units.codePoints, hpair, hlone]
        · obtain rfl : v = w := Option.some.inj hw
          exact eq_false_of_ne_true hpair

theorem repaired_append_plain {a : List UInt16} (h : ∀ u ∈ a, Plain u) (b : List UInt16) :
    repaired (a ++ b) = a ++ repaired b := by
  induction a with
  | nil => rfl
  | cons u a ih =>
      obtain ⟨hu, ha⟩ := List.forall_mem_cons.mp h
      rw [List.cons_append, repaired_plain hu, ih ha, List.cons_append]

/-- What comes back has no lone surrogate. -/
theorem isWellFormed_repaired (text : List UInt16) : isWellFormed (repaired text) = true := by
  rw [isWellFormed_iff, repaired, repaired, Js.toWellFormed_codeUnits]

-- ================================================================ in pieces

/-- The scalar values of a text that is written from scalar values. -/
theorem scalars_units_append (cs : List Char) (b : List UInt16) :
    Js.scalars ((cs.flatMap Js.charUnits).map UInt16.ofNat ++ b) = cs ++ Js.scalars b := by
  induction cs with
  | nil => rfl
  | cons c cs ih =>
      rw [List.flatMap_cons, List.map_append, List.append_assoc, Js.scalars_charUnits, ih]
      rfl

theorem scalars_append {a : List UInt16} (h : isWellFormed a = true) (b : List UInt16) :
    Js.scalars (a ++ b) = Js.scalars a ++ Js.scalars b := by
  have ha : ((Js.scalars a).flatMap Js.charUnits).map UInt16.ofNat = a := by
    rw [← repaired_eq, isWellFormed_iff.mp h]
  conv_lhs => rw [← ha]
  rw [scalars_units_append]

/-- The bytes of a text that is cut between two scalar values. -/
theorem bytesOf_append {a : List UInt16} (h : isWellFormed a = true) (b : List UInt16) :
    bytesOf (a ++ b) = bytesOf a ++ bytesOf b := by
  rw [bytesOf_eq, bytesOf_eq, bytesOf_eq, scalars_append h, List.flatMap_append]

theorem repaired_append {a : List UInt16} (h : isWellFormed a = true) (b : List UInt16) :
    repaired (a ++ b) = a ++ repaired b := by
  rw [repaired_eq, scalars_append h, List.flatMap_append, List.map_append, ← repaired_eq,
    ← repaired_eq, isWellFormed_iff.mp h]

theorem isWellFormed_append {a b : List UInt16} (ha : isWellFormed a = true)
    (hb : isWellFormed b = true) : isWellFormed (a ++ b) = true := by
  rw [isWellFormed_iff, repaired_append ha, isWellFormed_iff.mp hb]

theorem isWellFormed_plain {a : List UInt16} (h : ∀ u ∈ a, Plain u) : isWellFormed a = true := by
  have hback := repaired_append_plain h []
  rw [List.append_nil] at hback
  rw [isWellFormed_iff, hback]
  exact List.append_nil a

/-- An ASCII byte is read as itself, wherever it stands. -/
theorem mem_decodeFrom {b : UInt8} (hb : b.toNat < 0x80) : ∀ (bytes : List UInt8)
    (o : Option Buffer.Open), (∀ c ∈ o, 0x80 ≤ c.lower) → b ∈ bytes →
    UInt16.ofNat b.toNat ∈ Buffer.decodeFrom o bytes := by
  have hopens : ∀ n, ∀ c ∈ (Buffer.first n).2, 0x80 ≤ c.lower := by
    intro n c hc
    unfold Buffer.first at hc
    split_ifs at hc <;> simp at hc <;> subst hc <;> exact Nat.le_of_ble_eq_true rfl
  have hself : (Buffer.first b.toNat).1 = [UInt16.ofNat b.toNat] := by
    rw [Buffer.first, if_pos hb]
  have hnone : ∀ c ∈ (none : Option Buffer.Open), 0x80 ≤ c.lower :=
    fun c h => absurd h (Option.not_mem_none c)
  intro bytes
  induction bytes with
  | nil => exact fun _ _ hmem => absurd hmem List.not_mem_nil
  | cons d rest ih =>
      intro o ho hmem
      rcases List.mem_cons.mp hmem with rfl | hmem
      · cases o with
        | none =>
            rw [Buffer.decodeFrom, hself]
            exact List.mem_cons_self
        | some c =>
            have hc := ho c rfl
            rw [Buffer.decodeFrom, if_neg (by omega)]
            dsimp only
            rw [hself]
            exact List.mem_cons_of_mem _ List.mem_cons_self
      · cases o with
        | none => exact List.mem_append_right _ (ih _ (hopens _) hmem)
        | some c =>
            rw [Buffer.decodeFrom]
            by_cases hwithin : c.lower ≤ d.toNat ∧ d.toNat ≤ c.upper
            · rw [if_pos hwithin]
              simp only []
              by_cases hone : c.needed = 1
              · rw [if_pos hone]
                exact List.mem_append_right _ (ih _ hnone hmem)
              · rw [if_neg hone]
                exact ih _ (fun c h => by cases h; exact Nat.le_refl _) hmem
            · rw [if_neg hwithin]
              exact List.mem_cons_of_mem _ (List.mem_append_right _ (ih _ (hopens _) hmem))

/-- The ASCII bytes of a text are units of it. -/
theorem mem_of_bytesOf {b : UInt8} (hb : b.toNat < 0x80) (h : isWellFormed text = true)
    (hmem : b ∈ bytesOf text) : UInt16.ofNat b.toNat ∈ text := by
  have hdecoded := mem_decodeFrom hb (bytesOf text) none
    (fun c h => absurd h (Option.not_mem_none c)) hmem
  have hback := decode_bytesOf text
  rw [Buffer.decode, isWellFormed_iff.mp h] at hback
  rw [← hback]
  exact hdecoded

-- ==================================================================== size

theorem length_encode_le (c : Char) : (String.utf8EncodeChar c).length ≤ 4
    ∧ (c.toNat < 0x10000 → (String.utf8EncodeChar c).length ≤ 3) := by
  unfold String.utf8EncodeChar
  rw [show c.val.toNat = c.toNat from rfl]
  simp only
  split
  next => exact ⟨by simp, fun _ => by simp⟩
  next =>
    split
    next => exact ⟨by simp, fun _ => by simp⟩
    next =>
      split
      next => exact ⟨by simp, fun _ => by simp⟩
      next hlarge => exact ⟨by simp, fun hsmall => by omega⟩

theorem length_encode_unit (u : UInt16) :
    (String.utf8EncodeChar (Char.ofNat u.toNat)).length ≤ 3 := by
  refine (length_encode_le _).2 ?_
  by_cases hvalid : u.toNat.isValidChar
  · rw [show Char.ofNat u.toNat = Char.ofNatAux u.toNat hvalid from dif_pos hvalid]
    exact u.toNat_lt
  · rw [show Char.ofNat u.toNat = Char.ofNatAux 0 (by decide) from dif_neg hvalid]
    decide

/-- A unit is three bytes at most. -/
theorem length_bytesOf_le (text : List UInt16) : (bytesOf text).length ≤ 3 * text.length := by
  rw [bytesOf_eq]
  induction text using Js.scalars.induct with
  | case1 => exact Nat.zero_le _
  | case2 u =>
      have hunit := length_encode_unit u
      have hlone : (String.utf8EncodeChar Js.replacement).length ≤ 3 := by decide
      rw [Js.scalars]
      split
      next => simpa using hlone
      next => simpa using hunit
  | case3 u v rest hpair ih =>
      have hchar := (length_encode_le
        (Char.ofNat (0x10000 + (u.toNat - 0xD800) * 0x400 + (v.toNat - 0xDC00)))).1
      rw [Js.scalars, if_pos hpair, List.flatMap_cons, List.length_append]
      simp only [List.length_cons] at ih ⊢
      omega
  | case4 u v rest hpair hlone ih =>
      have hchar : (String.utf8EncodeChar Js.replacement).length ≤ 3 := by decide
      rw [Js.scalars, if_neg hpair, if_pos hlone, List.flatMap_cons, List.length_append]
      simp only [List.length_cons] at ih ⊢
      omega
  | case5 u v rest hpair hlone ih =>
      have hchar := length_encode_unit u
      rw [Js.scalars, if_neg hpair, if_neg hlone, List.flatMap_cons, List.length_append]
      simp only [List.length_cons] at ih ⊢
      omega

end Utf8
