/-
The text of an authenticator's secret and the bytes it is read back as
(core/totp.ts): `base32Encode` beside the `base32Decode` of the codes.

Neither loop masks its accumulator, so what is shifted out at 32 bits is
lost; only the low bits that wait for more are ever read. The two loops are
run against each other: while the encoder holds `held` bits of a byte, the
decoder of what it has written holds the other `8 - held`, and
`base32Bytes_text` carries that from byte to byte.

`Edit` is what a person retypes differently (a letter's case, a blank, the
padding), and `base32_reads` is the round trip with any number of edits.
-/
import Mathlib.Data.Bool.AllAny
import Mathlib.Data.List.DropRight
import Mathlib.Data.Nat.Bitwise
import Mathlib.Logic.Relation
import Mathlib.Tactic.IntervalCases
import Nacre.Factors.Totp

namespace Nacre.Factors

-- ============================================================== the encoder

/-- `ALPHABET[index]`. -/
def letter (index : UInt32) : Char := alphabet.getD index.toNat 'A'

/-- The letters `bits` bits give, and how many are left: the inner loop of
`base32Encode`. -/
def drained (value : UInt32) : Nat → List Char × Nat
  | n + 5 =>
      let next := drained value n
      (letter ((value >>> UInt32.ofNat n) &&& 31) :: next.1, next.2)
  | bits => ([], bits)

/-- The loop of `base32Encode`, over what is left of the bytes. -/
def base32Text : List UInt8 → Nat → UInt32 → List Char
  | [], bits, value =>
      if 0 < bits then [letter ((value <<< UInt32.ofNat (5 - bits)) &&& 31)] else []
  | byte :: rest, bits, value =>
      let value' := (value <<< 8) ||| byte.toUInt32
      let next := drained value' (bits + 8)
      next.1 ++ base32Text rest next.2 value'

def base32Encode (bytes : List UInt8) : String := String.ofList (base32Text bytes 0 0)

/-- RFC 4648's last vector. -/
example : base32Encode [102, 111, 111, 98, 97, 114] = "MZXW6YTBOI" := by decide +kernel

-- ========================================================== the accumulator

/-- What is shifted in is below what stays, and what is above 32 bits goes. -/
theorem toNat_pushed {k : Nat} (hk : k < 32) {value digit : UInt32} (h : digit.toNat < 2 ^ k) :
    ((value <<< UInt32.ofNat k) ||| digit).toNat
      = value.toNat % 2 ^ (32 - k) * 2 ^ k + digit.toNat := by
  have hsplit : (2 : Nat) ^ 32 = 2 ^ (32 - k) * 2 ^ k := by
    rw [← Nat.pow_add]
    congr 1
    omega
  have hshift : (value <<< UInt32.ofNat k).toNat = (value.toNat % 2 ^ (32 - k)) <<< k := by
    rw [UInt32.toNat_shiftLeft, UInt32.toNat_ofNat_of_lt' (by simp [UInt32.size]; omega),
      Nat.mod_eq_of_lt hk, Nat.shiftLeft_eq, Nat.shiftLeft_eq, hsplit, Nat.mul_mod_mul_right]
  rw [UInt32.toNat_or, hshift, ← Nat.shiftLeft_add_eq_or_of_lt h, Nat.shiftLeft_eq]

theorem toNat_shifted {k : Nat} (hk : k < 32) (value : UInt32) :
    (value >>> UInt32.ofNat k).toNat = value.toNat / 2 ^ k := by
  rw [UInt32.toNat_shiftRight, UInt32.toNat_ofNat_of_lt' (by simp [UInt32.size]; omega),
    Nat.mod_eq_of_lt hk, Nat.shiftRight_eq_div_pow]

theorem toNat_low (value : UInt32) : (value &&& 31).toNat = value.toNat % 32 := by
  rw [UInt32.toNat_and]
  exact Nat.and_two_pow_sub_one_eq_mod _ 5

theorem toNat_group {n : Nat} (hn : n < 32) (value : UInt32) :
    ((value >>> UInt32.ofNat n) &&& 31).toNat = value.toNat / 2 ^ n % 32 := by
  rw [toNat_low, toNat_shifted hn]

/-- The byte a byte's bits are in the accumulator. -/
theorem toNat_push8 (value : UInt32) (byte : UInt8) :
    ((value <<< 8) ||| byte.toUInt32).toNat = value.toNat % 2 ^ 24 * 2 ^ 8 + byte.toNat := by
  have hbyte : byte.toUInt32.toNat < 2 ^ 8 := by
    rw [UInt8.toNat_toUInt32]
    exact byte.toNat_lt
  rw [show (8 : UInt32) = UInt32.ofNat 8 from rfl, toNat_pushed (by omega) hbyte,
    UInt8.toNat_toUInt32]

-- ============================================================== the decoder

theorem idxOf_letter {index : UInt32} (h : index.toNat < 32) :
    alphabet.idxOf? (letter index) = some index.toNat := by
  have hall : ∀ n < 32, alphabet.idxOf? (alphabet.getD n 'A') = some n := by decide
  exact hall _ h

/-- The letter's bits in the accumulator. -/
theorem toNat_push5 (value : UInt32) {index : UInt32} (h : index.toNat < 32) :
    ((value <<< 5) ||| index).toNat = value.toNat % 2 ^ 27 * 2 ^ 5 + index.toNat :=
  toNat_pushed (show 5 < 32 by omega) h

/-- A letter's five bits, when they are not enough for a byte. -/
theorem base32Bytes_short (bits : Nat) {index : UInt32} (rest : List Char) (value : UInt32)
    (hindex : index.toNat < 32) (hbits : bits + 5 < 8) :
    ∃ next, next.toNat = value.toNat % 2 ^ 27 * 2 ^ 5 + index.toNat ∧
      base32Bytes (letter index :: rest) bits value = base32Bytes rest (bits + 5) next := by
  refine ⟨(value <<< 5) ||| index, toNat_push5 value hindex, ?_⟩
  rw [base32Bytes, idxOf_letter hindex]
  dsimp only
  rw [UInt32.ofNat_toNat, if_neg (by omega)]

/-- A letter's five bits, when they are. -/
theorem base32Bytes_byte (bits : Nat) (byte : UInt8) (rest : List Char) (value : UInt32)
    {index : UInt32} (hindex : index.toNat < 32) (hbits : 8 ≤ bits + 5) (hlast : bits < 8)
    (hbyte : (value.toNat % 2 ^ 27 * 2 ^ 5 + index.toNat) / 2 ^ (bits + 5 - 8) % 256
      = byte.toNat) :
    ∃ next, next.toNat = value.toNat % 2 ^ 27 * 2 ^ 5 + index.toNat ∧
      base32Bytes (letter index :: rest) bits value
        = (base32Bytes rest (bits + 5 - 8) next).map (byte :: ·) := by
  refine ⟨(value <<< 5) ||| index, toNat_push5 value hindex, ?_⟩
  have hsame : (((value <<< 5) ||| index) >>> UInt32.ofNat (bits + 5 - 8)).toUInt8 = byte := by
    refine UInt8.toNat_inj.1 ?_
    rw [UInt32.toNat_toUInt8, toNat_shifted (by omega), toNat_push5 value hindex, ← hbyte]
  rw [base32Bytes, idxOf_letter hindex]
  dsimp only
  rw [UInt32.ofNat_toNat, if_pos hbits, hsame]

-- ============================================================ the round trip

/-- Between two bytes: the encoder holds `held` bits in `written`, and the
decoder of what it wrote the other `bits` of the last byte in `read`. -/
inductive Between : Nat → Nat → UInt32 → UInt32 → List UInt8 → Prop where
  | none (written read : UInt32) : Between 0 0 written read []
  | some (held : Nat) {written read : UInt32} {last : UInt8} (hpos : 0 < held) (hheld : held ≤ 4)
      (hlast : last.toNat = read.toNat % 2 ^ (8 - held) * 2 ^ held + written.toNat % 2 ^ held) :
      Between held (8 - held) written read [last]

/-- The last letter, the bits that are held and zeros. -/
theorem base32Bytes_flush {held bits : Nat} {written read : UInt32} {pending : List UInt8}
    (h : Between held bits written read pending) :
    base32Bytes (base32Text [] held written) bits read = some pending := by
  cases h with
  | none => rfl
  | @some _ _ _ last hpos hheld hlast =>
      rw [base32Text, if_pos hpos]
      have hindex : ((written <<< UInt32.ofNat (5 - held)) &&& 31).toNat
          = written.toNat % 2 ^ held * 2 ^ (5 - held) := by
        have hzero : ((written <<< UInt32.ofNat (5 - held)) ||| 0).toNat = _ :=
          toNat_pushed (by omega) (show (0 : UInt32).toNat < 2 ^ (5 - held) from Nat.two_pow_pos _)
        rw [UInt32.or_zero] at hzero
        rw [toNat_low, hzero, UInt32.toNat_zero, Nat.add_zero]
        interval_cases held <;> omega
      have hsmall : written.toNat % 2 ^ held * 2 ^ (5 - held) < 32 := by
        interval_cases held <;> omega
      obtain ⟨next, -, hread⟩ := base32Bytes_byte (8 - held) last [] read
        (hindex ▸ hsmall) (by omega) (by omega)
        (by rw [hindex, hlast]; interval_cases held <;> omega)
      rw [hread]
      rfl

/-- One byte: the letters it completes give the byte before it, and what both
loops hold then is its own bits. -/
theorem Between.step {held bits : Nat} {written read : UInt32} {pending : List UInt8}
    (h : Between held bits written read pending) (byte : UInt8) (rest : List Char) :
    let written' := (written <<< 8) ||| byte.toUInt32
    ∃ bits' read' done pending', done ++ pending' = pending ++ [byte] ∧
      Between (drained written' (held + 8)).2 bits' written' read' pending' ∧
      base32Bytes ((drained written' (held + 8)).1 ++ rest) bits read
        = (base32Bytes rest bits' read').map (done ++ ·) := by
  intro written'
  have hwritten : written'.toNat = written.toNat % 2 ^ 24 * 2 ^ 8 + byte.toNat :=
    toNat_push8 written byte
  have hbyte := byte.toNat_lt
  have hgroup : ∀ n < 32, ((written' >>> UInt32.ofNat n) &&& 31).toNat
      = (written.toNat % 2 ^ 24 * 2 ^ 8 + byte.toNat) / 2 ^ n % 32 := by
    intro n hn
    rw [toNat_group hn, hwritten]
  have hless : ∀ n < 32, ((written' >>> UInt32.ofNat n) &&& 31).toNat < 32 := by
    intro n hn
    rw [hgroup n hn]
    exact Nat.mod_lt _ (by omega)
  cases h with
  | none =>
      obtain ⟨next, hnext, hread⟩ :=
        base32Bytes_short 0 rest read (hless 3 (by omega)) (by omega)
      rw [hgroup 3 (by omega)] at hnext
      refine ⟨5, next, [], [byte], rfl, .some 3 (by omega) (by omega) ?_, ?_⟩
      · rw [hnext, hwritten]
        omega
      · exact hread.trans (by simp)
  | @some _ _ _ last hpos hheld hlast =>
      interval_cases held
      · -- one letter, and four bits are left
        obtain ⟨next, hnext, hread⟩ := base32Bytes_byte 7 last rest
          read (hless 4 (by omega)) (by omega) (by omega)
          (by rw [hgroup 4 (by omega), hlast]; omega)
        rw [hgroup 4 (by omega)] at hnext
        refine ⟨4, next, [last], [byte], rfl, .some 4 (by omega) (by omega) ?_, hread⟩
        rw [hnext, hwritten]
        omega
      · -- two letters, and nothing is left
        obtain ⟨first, hfirst, hread⟩ := base32Bytes_byte 6 last
          (letter ((written' >>> UInt32.ofNat 0) &&& 31) :: rest)
          read (hless 5 (by omega)) (by omega) (by omega)
          (by rw [hgroup 5 (by omega), hlast]; omega)
        rw [hgroup 5 (by omega)] at hfirst
        obtain ⟨next, -, hread'⟩ := base32Bytes_byte 3 byte rest
          first (hless 0 (by omega)) (by omega) (by omega)
          (by rw [hgroup 0 (by omega), hfirst]; omega)
        refine ⟨0, next, [last, byte], [], rfl, .none _ _, ?_⟩
        exact hread.trans (by rw [hread', Option.map_map]; rfl)
      · -- two letters, and one bit is left
        obtain ⟨first, hfirst, hread⟩ := base32Bytes_byte 5 last
          (letter ((written' >>> UInt32.ofNat 1) &&& 31) :: rest)
          read (hless 6 (by omega)) (by omega) (by omega)
          (by rw [hgroup 6 (by omega), hlast]; omega)
        rw [hgroup 6 (by omega)] at hfirst
        obtain ⟨next, hnext, hread'⟩ :=
          base32Bytes_short 2 rest first (hless 1 (by omega)) (by omega)
        rw [hgroup 1 (by omega), hfirst] at hnext
        refine ⟨7, next, [last], [byte], rfl, .some 1 (by omega) (by omega) ?_, ?_⟩
        · rw [hnext, hwritten]
          omega
        · exact hread.trans (by rw [hread']; rfl)
      · -- two letters, and two bits are left
        obtain ⟨first, hfirst, hread⟩ := base32Bytes_byte 4 last
          (letter ((written' >>> UInt32.ofNat 2) &&& 31) :: rest)
          read (hless 7 (by omega)) (by omega) (by omega)
          (by rw [hgroup 7 (by omega), hlast]; omega)
        rw [hgroup 7 (by omega)] at hfirst
        obtain ⟨next, hnext, hread'⟩ :=
          base32Bytes_short 1 rest first (hless 2 (by omega)) (by omega)
        rw [hgroup 2 (by omega), hfirst] at hnext
        refine ⟨6, next, [last], [byte], rfl, .some 2 (by omega) (by omega) ?_, ?_⟩
        · rw [hnext, hwritten]
          omega
        · exact hread.trans (by rw [hread']; rfl)

/-- From byte to byte. -/
theorem base32Bytes_text (bytes : List UInt8) {held bits : Nat} {written read : UInt32}
    {pending : List UInt8} (h : Between held bits written read pending) :
    base32Bytes (base32Text bytes held written) bits read = some (pending ++ bytes) := by
  induction bytes generalizing held bits written read pending with
  | nil => rw [base32Bytes_flush h, List.append_nil]
  | cons byte bytes ih =>
      obtain ⟨bits', read', done, pending', hpending, hbetween, hread⟩ :=
        h.step byte (base32Text bytes (drained ((written <<< 8) ||| byte.toUInt32) (held + 8)).2
          ((written <<< 8) ||| byte.toUInt32))
      rw [base32Text, hread, ih hbetween, Option.map_some, ← List.append_assoc, hpending,
        List.append_assoc, List.singleton_append]

-- ============================================================== what is typed

/-- `toUpperCase`: character after character, and an ASCII one by its capital. -/
structure Host.Capitals (host : Host) : Prop where
  append : ∀ a b, host.toUpperCase (a ++ b) = host.toUpperCase a ++ host.toUpperCase b
  ascii : ∀ c : Char, c.toNat < 128 →
    host.toUpperCase (String.singleton c) = String.singleton c.toUpper

/-- One thing typed otherwise: a letter in the other case, a blank that was
not there, one more `=` at the end. -/
inductive Edit : List Char → List Char → Prop where
  | recase (left right : List Char) {c d : Char} (hc : c.isAlpha) (hd : d.isAlpha)
      (hcase : c.toUpper = d.toUpper) : Edit (left ++ c :: right) (left ++ d :: right)
  | blank (left right : List Char) {c : Char} (hc : Js.isTrimmed c = true) :
      Edit (left ++ right) (left ++ c :: right)
  | pad (text : List Char) : Edit text (text ++ ['='])

/-- The text without blanks, and without the padding. -/
def unpadded (text : List Char) : List Char :=
  (text.filter fun c => !Js.isTrimmed c).rdropWhile (· = '=')

theorem base32Decode_eq (host : Host) (text : String) :
    base32Decode host text
      = base32Bytes (host.toUpperCase (String.ofList (unpadded text.toList))).toList 0 0 := by
  rfl

theorem ascii_of_isAlpha {c : Char} (h : c.isAlpha) : c.toNat < 128 := by
  rcases Bool.or_eq_true_iff.1 (show (c.isUpper || c.isLower) = true from h) with h | h
  · have h : c.val ≤ 'Z'.val := (of_decide_eq_true h).2
    have hle : c.toNat ≤ 'Z'.toNat := UInt32.le_iff_toNat_le.1 h
    exact Nat.lt_of_le_of_lt hle (by decide)
  · have h : c.val ≤ 'z'.val := of_decide_eq_true (Bool.and_eq_true_iff.1 h).2
    have hle : c.toNat ≤ 'z'.toNat := UInt32.le_iff_toNat_le.1 h
    exact Nat.lt_of_le_of_lt hle (by decide)

/-- A letter is no blank, and no padding. -/
theorem kept_of_isAlpha {c : Char} (h : c.isAlpha) : Js.isTrimmed c = false ∧ c ≠ '=' := by
  have hall : ∀ n < 128, (Char.ofNat n).isAlpha →
      Js.isTrimmed (Char.ofNat n) = false ∧ Char.ofNat n ≠ '=' := by decide
  have hc := hall c.toNat (ascii_of_isAlpha h)
  rw [Char.ofNat_toNat] at hc
  exact hc h

/-- What is neither stays, and shields what is before it. -/
theorem unpadded_cons (left right : List Char) {c : Char} (hc : Js.isTrimmed c = false)
    (hpad : c ≠ '=') :
    unpadded (left ++ c :: right)
      = (left.filter fun c => !Js.isTrimmed c) ++ c :: unpadded right := by
  unfold unpadded
  rw [List.filter_append, List.filter_cons_of_pos (by simp [hc])]
  induction right.filter (fun c => !Js.isTrimmed c) using List.reverseRecOn with
  | nil => rw [List.rdropWhile_concat_neg _ _ _ (by simpa using hpad), List.rdropWhile_nil]
  | append_singleton rest last ih =>
      rw [← List.cons_append, ← List.append_assoc]
      by_cases hlast : last = '='
      · rw [List.rdropWhile_concat_pos _ _ _ (by simpa using hlast),
          List.rdropWhile_concat_pos _ _ _ (by simpa using hlast), ih]
      · rw [List.rdropWhile_concat_neg _ _ _ (by simpa using hlast),
          List.rdropWhile_concat_neg _ _ _ (by simpa using hlast), List.append_assoc,
          List.cons_append]

theorem toUpperCase_cons {host : Host} (h : host.Capitals) (left right : List Char) {c : Char}
    (hc : c.isAlpha) :
    host.toUpperCase (String.ofList (left ++ c :: right))
      = host.toUpperCase (String.ofList left) ++ String.singleton c.toUpper
        ++ host.toUpperCase (String.ofList right) := by
  have hsplit : String.ofList (left ++ c :: right)
      = String.ofList left ++ String.singleton c ++ String.ofList right := by
    refine String.toList_inj.1 ?_
    simp
  rw [hsplit, h.append, h.append, h.ascii c (ascii_of_isAlpha hc)]

/-- One edit changes nothing of what is read. -/
theorem Edit.reads {host : Host} (h : host.Capitals) {text typed : List Char}
    (hedit : Edit text typed) :
    host.toUpperCase (String.ofList (unpadded typed))
      = host.toUpperCase (String.ofList (unpadded text)) := by
  cases hedit with
  | recase left right hc hd hcase =>
      obtain ⟨hkept, hpad⟩ := kept_of_isAlpha hc
      obtain ⟨hkept', hpad'⟩ := kept_of_isAlpha hd
      rw [unpadded_cons left right hkept hpad, unpadded_cons left right hkept' hpad',
        toUpperCase_cons h _ _ hc, toUpperCase_cons h _ _ hd, hcase]
  | blank left right hc =>
      unfold unpadded
      rw [List.filter_append, List.filter_append, List.filter_cons_of_neg (by simp [hc])]
  | pad =>
      unfold unpadded
      rw [List.filter_append, List.filter_cons_of_pos (by decide), List.filter_nil,
        List.rdropWhile_concat_pos _ _ _ (by decide)]

/-- Nor does any number of them, made or undone. -/
theorem base32Decode_typed {host : Host} (h : host.Capitals) {text typed : String}
    (hedits : Relation.EqvGen Edit text.toList typed.toList) :
    base32Decode host typed = base32Decode host text := by
  rw [base32Decode_eq, base32Decode_eq]
  have hread : host.toUpperCase (String.ofList (unpadded typed.toList))
      = host.toUpperCase (String.ofList (unpadded text.toList)) := by
    generalize text.toList = before, typed.toList = after at hedits
    induction hedits with
    | rel _ _ hedit => exact hedit.reads h
    | refl => rfl
    | symm _ _ _ ih => exact ih.symm
    | trans _ _ _ _ _ ih ih' => exact ih'.trans ih
  rw [hread]

-- ============================================================= what is written

theorem letter_mem (index : UInt32) : letter index ∈ alphabet := by
  unfold letter
  by_cases h : index.toNat < alphabet.length
  · rw [List.getD_eq_getElem _ _ h]
    exact List.getElem_mem h
  · rw [List.getD_eq_default _ _ (by omega)]
    decide

theorem drained_mem (value : UInt32) (bits : Nat) : ∀ c ∈ (drained value bits).1, c ∈ alphabet := by
  induction bits using Nat.strongRecOn with
  | ind bits ih =>
      by_cases h : 5 ≤ bits
      · obtain ⟨n, rfl⟩ : ∃ n, bits = n + 5 := ⟨bits - 5, by omega⟩
        intro c hc
        rw [drained] at hc
        rcases List.mem_cons.1 hc with rfl | hc
        · exact letter_mem _
        · exact ih n (by omega) c hc
      · intro c hc
        interval_cases bits <;> simp [drained] at hc

theorem base32Text_mem (bytes : List UInt8) (bits : Nat) (value : UInt32) :
    ∀ c ∈ base32Text bytes bits value, c ∈ alphabet := by
  induction bytes generalizing bits value with
  | nil =>
      intro c hc
      rw [base32Text] at hc
      split at hc
      · rw [List.mem_singleton.1 hc]
        exact letter_mem _
      · cases hc
  | cons byte bytes ih =>
      intro c hc
      rw [base32Text] at hc
      rcases List.mem_append.1 hc with hc | hc
      · exact drained_mem _ _ c hc
      · exact ih _ _ c hc

/-- A letter of the alphabet is read as it is. -/
theorem unpadded_alphabet {text : List Char} (h : ∀ c ∈ text, c ∈ alphabet) :
    unpadded text = text := by
  have hall : ∀ c ∈ alphabet, Js.isTrimmed c = false ∧ c ≠ '=' :=
    List.all_iff_forall_prop.1 (by decide)
  unfold unpadded
  rw [List.filter_eq_self.2 fun c hc => by simp [(hall c (h c hc)).1], List.rdropWhile_eq_self_iff]
  intro hne
  simpa using (hall _ (h _ (List.getLast_mem hne))).2

theorem toUpperCase_alphabet {host : Host} (hhost : host.Capitals) {text : List Char}
    (h : ∀ c ∈ text, c ∈ alphabet) :
    (host.toUpperCase (String.ofList text)).toList = text := by
  have hall : ∀ c ∈ alphabet, c.toNat < 128 ∧ c.toUpper = c :=
    List.all_iff_forall_prop.1 (by decide)
  induction text with
  | nil =>
      have hempty := hhost.append "" ""
      have hlength := congrArg (fun s : String => s.toList.length) hempty
      simp only [String.toList_append, List.length_append, String.append_empty] at hlength
      exact List.length_eq_zero_iff.1 (by show (host.toUpperCase "").toList.length = 0; omega)
  | cons c text ih =>
      obtain ⟨hascii, hsame⟩ := hall c (h c List.mem_cons_self)
      have hsplit : String.ofList (c :: text) = String.singleton c ++ String.ofList text :=
        String.toList_inj.1 (by simp)
      rw [hsplit, hhost.append, hhost.ascii c hascii, hsame, String.toList_append,
        ih fun d hd => h d (List.mem_cons_of_mem _ hd)]
      simp

theorem base32Decode_encode {host : Host} (hhost : host.Capitals) (bytes : List UInt8) :
    base32Decode host (base32Encode bytes) = some bytes := by
  have hmem := base32Text_mem bytes 0 0
  rw [base32Decode_eq, base32Encode, String.toList_ofList, unpadded_alphabet hmem,
    toUpperCase_alphabet hhost hmem, base32Bytes_text bytes (.none 0 0), List.nil_append]

/-- Bytes are read back as they were, and whatever a person typed otherwise in
a text, it is read as the text is. -/
theorem base32_reads (host : Host) (hhost : host.Capitals) :
    (∀ bytes, base32Decode host (base32Encode bytes) = some bytes) ∧
      ∀ text typed : String, Relation.EqvGen Edit text.toList typed.toList →
        base32Decode host typed = base32Decode host text :=
  ⟨base32Decode_encode hhost, fun _ _ hedits => base32Decode_typed hhost hedits⟩

/-- A runtime that capitalizes ASCII alone. -/
def asciiHost : Host where
  toUpperCase text := String.ofList (text.toList.map Char.toUpper)
  decipher _ _ _ := none
  parse _ := none
  verifySignature _ _ _ _ := false

theorem asciiHost_capitals : asciiHost.Capitals where
  append a b := String.toList_inj.1 (by simp [asciiHost])
  ascii c _ := String.toList_inj.1 (by simp [asciiHost])

theorem base32_reads_ascii :
    (∀ bytes, base32Decode asciiHost (base32Encode bytes) = some bytes) ∧
      ∀ text typed : String, Relation.EqvGen Edit text.toList typed.toList →
        base32Decode asciiHost typed = base32Decode asciiHost text :=
  base32_reads asciiHost asciiHost_capitals

end Nacre.Factors
