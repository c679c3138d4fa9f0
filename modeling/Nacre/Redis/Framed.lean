/-
Well-formed RESP2 replies, and what `parse` makes of them.

A `Wire` is a reply as a server writes it. Where a whole one stands, it is
read, and the next position is where it ends, whatever comes after it
(`Wire.whole`); where only a part of it has come, nothing is read
(`Wire.part`). The two are one induction on the reply. A line is found by
its CRLF, since none is inside it; a bulk string is counted, so what is in
it does not matter.
-/
import Nacre.Redis.Reply

namespace Nacre.Redis

open Number (ofNat)

-- ==================================================================== lines

/-- What may stand in a line. -/
def Line (text : List UInt8) : Prop := ∀ b ∈ text, b ≠ 0x0D ∧ b ≠ 0x0A

def units (text : List UInt8) : List UInt16 := text.map fun b => UInt16.ofNat b.toNat

/-- A length, in digits. -/
structure Writes (text : List UInt8) (n : Nat) : Prop where
  nonempty : text ≠ []
  digits : ∀ b ∈ text, 0x30 ≤ b.toNat ∧ b.toNat ≤ 0x39
  value : Number.decimal (units text) = n

theorem Writes.line {text : List UInt8} {n : Nat} (h : Writes text n) : Line text := by
  intro b hb
  have hdigit := h.digits b hb
  constructor <;> rintro rfl <;> exact absurd hdigit (by decide)

theorem Writes.number {text : List UInt8} {n : Nat} (h : Writes text n) (hn : n < 2 ^ 53) :
    Number.number (Buffer.decode text) = ofNat n := by
  have hdecode : Buffer.decode text = units text :=
    Buffer.decode_ascii fun b hb => by
      have := h.digits b hb
      omega
  have hdigits : ∀ u ∈ units text, Number.isDigit u = true := by
    intro u hu
    obtain ⟨b, hb, rfl⟩ := List.mem_map.mp hu
    have := h.digits b hb
    simp only [Number.isDigit, UInt16.toNat_ofNat', Bool.and_eq_true, decide_eq_true_eq]
    omega
  have hne : units text ≠ [] := by
    intro hnil
    exact h.nonempty (List.map_eq_nil_iff.mp hnil)
  rw [hdecode, Number.number_digits hne hdigits (by rw [h.value]; exact hn), h.value]

theorem at_crlf {hay : List UInt8} {j : Nat} (h : Find.At crlf hay j) :
    hay[j]? = some 0x0D ∧ hay[j + 1]? = some 0x0A := by
  obtain ⟨rest, hrest⟩ := h
  have hcr : (hay.drop j)[0]? = some 0x0D := by rw [← hrest]; rfl
  have hlf : (hay.drop j)[1]? = some 0x0A := by rw [← hrest]; rfl
  rw [List.getElem?_drop] at hcr hlf
  exact ⟨hcr, hlf⟩

/-- The line that stands here. -/
theorem header_line (before after : List UInt8) (kind : UInt8) {text : List UInt8} (hkind : kind ≠ 0x0D)
    (hline : Line text) (hlen : before.length + text.length + 3 < 2 ^ 53) :
    header (before ++ kind :: (text ++ (crlf ++ after))) (ofNat before.length)
      = some ⟨kind, Buffer.decode text, ofNat (before.length + text.length + 3)⟩ := by
  have hlength : before.length + text.length + 3
      ≤ (before ++ kind :: (text ++ (crlf ++ after))).length := by
    simp [crlf]
    omega
  have hfind : Find.indexFrom crlf (before ++ kind :: (text ++ (crlf ++ after))) before.length
      = some (before.length + text.length + 1) := by
    refine Find.indexFrom_eq_some (by omega) ?_ fun j hj hlt hat => ?_
    · refine ⟨after, ?_⟩
      rw [show before.length + text.length + 1 = before.length + (text.length + 1) by omega,
        ← List.drop_drop, List.drop_left, List.drop_succ_cons, List.drop_left]
    · have hcr := (at_crlf hat).1
      rw [List.getElem?_append_right hj] at hcr
      rcases Nat.eq_zero_or_pos (j - before.length) with hzero | hpos
      · rw [hzero] at hcr
        simp only [List.getElem?_cons_zero, Option.some.injEq] at hcr
        exact hkind hcr
      · rw [show j - before.length = j - before.length - 1 + 1 by omega,
          List.getElem?_cons_succ, List.getElem?_append_left (by omega)] at hcr
        exact (hline _ (List.mem_of_getElem? hcr)).1 rfl
  have hin : ((before ++ kind :: (text ++ (crlf ++ after))).take
      (before.length + text.length + 1)).drop (before.length + 1) = text := by
    have hsplit : before ++ kind :: (text ++ (crlf ++ after))
        = (before ++ [kind]) ++ (text ++ (crlf ++ after)) := by simp
    have hbefore : before.length + 1 = (before ++ [kind]).length := by simp
    rw [hsplit, show before.length + text.length + 1 = (before ++ [kind]).length + text.length by
      simp; omega, List.take_length_add_append, List.take_left, hbefore, List.drop_left]
  unfold header
  rw [if_neg (by simp), Buffer.indexOf_ofNat _ _ (by omega), hfind]
  simp only [Option.some.injEq, Header.mk.injEq]
  refine ⟨?_, ?_, ?_⟩
  · rw [Buffer.byteAt_ofNat, List.getElem?_append_right (le_refl _)]
    simp
  · rw [Number.add_ofNat (by omega), Buffer.toString_ofNat _ (by omega) (by omega), hin]
  · rw [Number.add_ofNat (by omega)]

/-- A line that has not all come. -/
theorem header_part {before part : List UInt8} (h : ∀ b ∈ part, b ≠ 0x0A) :
    header (before ++ part) (ofNat before.length) = none := by
  unfold header
  rcases Nat.eq_zero_or_pos part.length with hzero | hpos
  · rw [if_pos (by simp [List.length_append, hzero])]
  · rw [if_neg (by rw [Number.ge_ofNat, List.length_append, decide_eq_true_eq]; omega),
      Buffer.indexOf_ofNat _ _ (by simp)]
    cases hfind : Find.indexFrom crlf (before ++ part) before.length with
    | none => rfl
    | some j =>
        obtain ⟨hj, hat, -⟩ := Find.indexFrom_some hfind
        have hlf := (at_crlf hat).2
        rw [List.getElem?_append_right (by omega)] at hlf
        exact absurd rfl (h _ (List.mem_of_getElem? hlf))

-- ================================================================== replies

/-- A reply, as it is written. -/
inductive Wire where
  | status (text : List UInt8)
  | error (message : List UInt8)
  | integer (text : List UInt8)
  | bulk (length payload : List UInt8)
  | nullBulk
  | array (length : List UInt8) (items : List Wire)
  | nullArray

mutual

def Wire.bytes : Wire → List UInt8
  | .status text => 0x2B :: (text ++ crlf)
  | .error message => 0x2D :: (message ++ crlf)
  | .integer text => 0x3A :: (text ++ crlf)
  | .bulk length payload => 0x24 :: (length ++ (crlf ++ (payload ++ crlf)))
  | .nullBulk => 0x24 :: ([0x2D, 0x31] ++ crlf)
  | .array length items => 0x2A :: (length ++ (crlf ++ Wire.bytesAll items))
  | .nullArray => 0x2A :: ([0x2D, 0x31] ++ crlf)

def Wire.bytesAll : List Wire → List UInt8
  | [] => []
  | first :: rest => first.bytes ++ Wire.bytesAll rest

end

mutual

def Wire.WellFormed : Wire → Prop
  | .status text => Line text
  | .error message => Line message
  | .integer text => Line text
  | .bulk length payload => Writes length payload.length
  | .nullBulk => True
  | .array length items => Writes length items.length ∧ Wire.WellFormedAll items
  | .nullArray => True

def Wire.WellFormedAll : List Wire → Prop
  | [] => True
  | first :: rest => first.WellFormed ∧ Wire.WellFormedAll rest

end

mutual

/-- What is handed over for it. -/
def Wire.value : Wire → Reply
  | .status text => .text (Buffer.decode text)
  | .error _ => .null
  | .integer text => .number (Number.number (Buffer.decode text))
  | .bulk _ payload => .text (Buffer.decode payload)
  | .nullBulk => .null
  | .array _ items => .array (Wire.values items)
  | .nullArray => .null

def Wire.values : List Wire → List Reply
  | [] => []
  | first :: rest => first.value :: Wire.values rest

end

/-- What it is refused with. -/
def Wire.failure : Wire → Option (List UInt16)
  | .error message => some (Buffer.decode message)
  | _ => none

/-- Induction on a reply. -/
theorem Wire.children {motive : Wire → Prop} (status : ∀ text, motive (.status text))
    (error : ∀ message, motive (.error message)) (integer : ∀ text, motive (.integer text))
    (bulk : ∀ length payload, motive (.bulk length payload)) (nullBulk : motive .nullBulk)
    (array : ∀ length items, (∀ w ∈ items, motive w) → motive (.array length items))
    (nullArray : motive .nullArray) (w : Wire) : motive w :=
  @Wire.rec motive (fun items => ∀ w ∈ items, motive w) status error integer bulk nullBulk array
    nullArray (by simp) (fun _ _ hfirst hrest => List.forall_mem_cons.mpr ⟨hfirst, hrest⟩) w

theorem Wire.wellFormedAll_iff {items : List Wire} :
    Wire.WellFormedAll items ↔ ∀ w ∈ items, w.WellFormed := by
  induction items with
  | nil => simp [Wire.WellFormedAll]
  | cons first rest ih => rw [Wire.WellFormedAll, ih, List.forall_mem_cons]

-- ================================================================= prefixes

/-- What has come of two things is part of the first, or the first and some
of the second. -/
theorem prefix_append_cases {part a b : List UInt8} (h : part <+: a ++ b) :
    (part <+: a ∧ part ≠ a) ∨ ∃ rest, part = a ++ rest ∧ rest <+: b := by
  rcases List.prefix_or_prefix_of_prefix h (List.prefix_append a b) with hpart | hpart
  · by_cases heq : part = a
    · exact .inr ⟨[], by simp [heq], List.nil_prefix⟩
    · exact .inl ⟨hpart, heq⟩
  · obtain ⟨rest, rfl⟩ := hpart
    exact .inr ⟨rest, rfl, (List.prefix_append_right_inj a).mp h⟩

/-- A part of a line has not come to its end. -/
theorem line_part {kind : UInt8} {text part : List UInt8} (hkind : kind ≠ 0x0A)
    (hline : Line text) (h : part <+: kind :: (text ++ crlf)) (hne : part ≠ kind :: (text ++ crlf)) :
    ∀ b ∈ part, b ≠ 0x0A := by
  obtain ⟨rest, hrest⟩ := h
  rcases rest.eq_nil_or_concat with rfl | ⟨more, last, rfl⟩
  · exact absurd (by simpa using hrest) hne
  · have hwhole : part ++ more ++ [last] = kind :: (text ++ [0x0D]) ++ [0x0A] := by
      simpa [crlf] using hrest
    have hinit := List.append_inj_left' hwhole rfl
    intro b hb
    have hmem : b ∈ kind :: (text ++ [0x0D]) := by
      rw [← hinit]
      exact List.mem_append_left _ hb
    simp only [List.mem_cons, List.mem_append, List.not_mem_nil, or_false] at hmem
    rcases hmem with rfl | hmem | rfl
    · exact hkind
    · exact (hline b hmem).2
    · decide

-- ================================================================== parsing

/-- Where it stands whole it is read, and no further. -/
def Wire.Whole (w : Wire) : Prop :=
  ∀ before after : List UInt8, before.length + w.bytes.length < 2 ^ 53 →
    ∃ fuel, parse fuel (before ++ (w.bytes ++ after)) (ofNat before.length)
      = some (some ⟨w.value, ofNat (before.length + w.bytes.length), w.failure⟩)

/-- Where a part of it stands nothing is read. -/
def Wire.Part (w : Wire) : Prop :=
  ∀ before part : List UInt8, before.length + w.bytes.length < 2 ^ 53 → part <+: w.bytes →
    part ≠ w.bytes → ∃ fuel, parse fuel (before ++ part) (ofNat before.length) = some none

/-- A line that is a reply. -/
theorem parse_flat {before after text : List UInt8} {kind : UInt8} {p : Parsed}
    (hkind : kind ≠ 0x0D) (harray : kind ≠ 0x2A) (hline : Line text)
    (hlen : before.length + (text.length + 3) < 2 ^ 53)
    (hflat : flat (before ++ (kind :: (text ++ crlf) ++ after))
      ⟨kind, Buffer.decode text, ofNat (before.length + (text.length + 3))⟩ = some p) :
    parse 1 (before ++ (kind :: (text ++ crlf) ++ after)) (ofNat before.length)
      = some (some p) := by
  have hhead := header_line before after kind hkind hline
    (by omega : before.length + text.length + 3 < 2 ^ 53)
  rw [show before ++ (kind :: (text ++ crlf) ++ after)
    = before ++ kind :: (text ++ (crlf ++ after)) by simp] at hflat ⊢
  rw [parse, hhead]
  simp only
  rw [if_neg harray, ← hflat, Nat.add_assoc]

theorem parse_line_part {before part text : List UInt8} {kind : UInt8} (hkind : kind ≠ 0x0A)
    (hline : Line text) (h : part <+: kind :: (text ++ crlf))
    (hne : part ≠ kind :: (text ++ crlf)) :
    parse 1 (before ++ part) (ofNat before.length) = some none := by
  rw [parse, header_part (line_part hkind hline h hne)]

/-- A length is not the one of a null. -/
theorem ofNat_ne_null (n : Nat) : ofNat n ≠ .finite (-1) := by
  intro h
  have hneg : ((n : ℕ) : ℚ) = -1 := by simpa [ofNat] using h
  have hpos : (0 : ℚ) ≤ n := Nat.cast_nonneg _
  rw [hneg] at hpos
  norm_num at hpos

/-- A bulk string that stands whole. -/
theorem bulk_whole (before after : List UInt8) {length payload : List UInt8}
    (hlength : Writes length payload.length)
    (hlen : before.length + (length.length + payload.length + 5) < 2 ^ 53) :
    bulk (before ++ (0x24 :: (length ++ (crlf ++ (payload ++ crlf))) ++ after))
        ⟨0x24, Buffer.decode length, ofNat (before.length + (length.length + 3))⟩
      = some ⟨.text (Buffer.decode payload),
          ofNat (before.length + (length.length + payload.length + 5)), none⟩ := by
  have hnumber := hlength.number (by omega)
  have hsize : (before ++ (0x24 :: (length ++ (crlf ++ (payload ++ crlf))) ++ after)).length
      = before.length + (length.length + payload.length + 5) + after.length := by
    simp [crlf]
    omega
  have hin : ((before ++ (0x24 :: (length ++ (crlf ++ (payload ++ crlf))) ++ after)).take
      (before.length + (length.length + 3) + payload.length)).drop
        (before.length + (length.length + 3)) = payload := by
    have hsplit : before ++ (0x24 :: (length ++ (crlf ++ (payload ++ crlf))) ++ after)
        = (before ++ 0x24 :: (length ++ crlf)) ++ (payload ++ (crlf ++ after)) := by simp
    have hbefore : before.length + (length.length + 3)
        = (before ++ 0x24 :: (length ++ crlf)).length := by
      simp [crlf]
    rw [hsplit, hbefore, List.take_length_add_append, List.take_left, List.drop_left]
  unfold bulk
  simp only [hnumber]
  rw [if_neg (ofNat_ne_null _), Number.add_ofNat (by omega), Number.add_ofNat (by omega), Number.lt_ofNat,
    if_neg (by rw [decide_eq_true_eq, hsize]; omega),
    Buffer.toString_ofNat _ (by omega) (by omega), hin]
  congr 3
  omega

/-- A bulk string whose length has come, and not all it counts. -/
theorem bulk_part (before : List UInt8) {part length payload : List UInt8}
    (hlength : Writes length payload.length)
    (hlen : before.length + (length.length + payload.length + 5) < 2 ^ 53)
    (hpart : part.length < payload.length + 2) :
    bulk (before ++ (0x24 :: (length ++ crlf) ++ part))
        ⟨0x24, Buffer.decode length, ofNat (before.length + (length.length + 3))⟩ = none := by
  have hnumber := hlength.number (by omega)
  have hsize : (before ++ (0x24 :: (length ++ crlf) ++ part)).length
      = before.length + (length.length + 3) + part.length := by
    simp [crlf]
    omega
  unfold bulk
  simp only [hnumber]
  rw [if_neg (ofNat_ne_null _), Number.add_ofNat (by omega), Number.add_ofNat (by omega), Number.lt_ofNat,
    if_pos (by rw [decide_eq_true_eq, hsize]; omega)]

-- ==================================================================== arrays

theorem item_of (w : Wire) (next : Number) :
    Parsed.item ⟨w.value, next, w.failure⟩ = w.value := by
  cases w <;> rfl

theorem readItems_whole {items : List Wire} (hwhole : ∀ w ∈ items, w.Whole) (before after : List UInt8)
    (i : Nat) (done : List Reply) (hlen : before.length + (Wire.bytesAll items).length < 2 ^ 53) :
    ∃ fuel, readItems fuel (before ++ (Wire.bytesAll items ++ after)) (ofNat (i + items.length)) i
        (ofNat before.length) done
      = some (some ⟨.array (done ++ Wire.values items),
          ofNat (before.length + (Wire.bytesAll items).length), none⟩) := by
  induction items generalizing before i done with
  | nil =>
      refine ⟨1, ?_⟩
      rw [readItems, if_neg (by simp)]
      simp [Wire.values, Wire.bytesAll]
  | cons first rest ih =>
      obtain ⟨hfirst, hrest⟩ := List.forall_mem_cons.mp hwhole
      simp only [Wire.bytesAll, List.length_append] at hlen
      obtain ⟨fuel, hparse⟩ := hfirst before (Wire.bytesAll rest ++ after) (by omega)
      obtain ⟨fuel', hread⟩ := ih hrest (before ++ first.bytes) (i + 1) (done ++ [first.value])
        (by rw [List.length_append]; omega)
      refine ⟨max fuel fuel' + 1, ?_⟩
      rw [List.append_assoc, List.length_append] at hread
      rw [readItems, if_pos (by simp), Wire.bytesAll, List.append_assoc,
        parse_mono hparse (le_max_left _ _)]
      simp only [item_of]
      rw [List.length_cons, show i + (rest.length + 1) = i + 1 + rest.length by omega,
        readItems_mono hread (le_max_right _ _)]
      simp [Wire.values, Nat.add_assoc]

theorem readItems_part {items : List Wire} (hwhole : ∀ w ∈ items, w.Whole ∧ w.Part)
    (before part : List UInt8) (i : Nat) (done : List Reply)
    (hlen : before.length + (Wire.bytesAll items).length < 2 ^ 53)
    (hpart : part <+: Wire.bytesAll items) (hne : part ≠ Wire.bytesAll items) :
    ∃ fuel, readItems fuel (before ++ part) (ofNat (i + items.length)) i (ofNat before.length) done
      = some none := by
  induction items generalizing before i done part with
  | nil => exact absurd (List.prefix_nil.mp hpart) hne
  | cons first rest ih =>
      obtain ⟨⟨hfirst, hfirstpart⟩, hrest⟩ := List.forall_mem_cons.mp hwhole
      simp only [Wire.bytesAll, List.length_append] at hlen hpart hne
      rcases prefix_append_cases hpart with ⟨hpart, hne⟩ | ⟨more, rfl, hmore⟩
      · obtain ⟨fuel, hparse⟩ := hfirstpart before part (by omega) hpart hne
        refine ⟨fuel + 1, ?_⟩
        rw [readItems, if_pos (by simp), hparse]
      · obtain ⟨fuel, hparse⟩ := hfirst before more (by omega)
        obtain ⟨fuel', hread⟩ := ih hrest (before ++ first.bytes) more (i + 1)
          (done ++ [first.value]) (by rw [List.length_append]; omega) hmore
          fun heq => hne (by rw [heq])
        refine ⟨max fuel fuel' + 1, ?_⟩
        rw [List.append_assoc, List.length_append] at hread
        rw [readItems, if_pos (by simp), parse_mono hparse (le_max_left _ _)]
        simp only [item_of]
        rw [List.length_cons, show i + (rest.length + 1) = i + 1 + rest.length by omega,
          readItems_mono hread (le_max_right _ _)]

/-- An array is as many items as its header says, on the way as they come. -/
theorem parse_array {before more length : List UInt8} {n fuel : Nat} {r : Option Parsed}
    (hlength : Writes length n) (hn : n < 2 ^ 53)
    (hlen : before.length + (length.length + 3) < 2 ^ 53)
    (hread : readItems fuel ((before ++ 0x2A :: (length ++ crlf)) ++ more) (ofNat (0 + n)) 0
        (ofNat (before ++ 0x2A :: (length ++ crlf)).length) [] = some r) :
    parse (fuel + 1) (before ++ (0x2A :: (length ++ (crlf ++ more)))) (ofNat before.length)
      = some r := by
  have hhead := header_line before more 0x2A (by decide)
    hlength.line (by omega : before.length + length.length + 3 < 2 ^ 53)
  have hafter : (before ++ 0x2A :: (length ++ crlf)).length = before.length + length.length + 3 := by
    simp [crlf]
    omega
  rw [hafter, Nat.zero_add] at hread
  rw [parse, hhead]
  simp only [if_true]
  rw [hlength.number hn, if_neg (ofNat_ne_null _)]
  simpa using hread

-- ==================================================================== result

theorem Wire.bytes_length_pos (w : Wire) : 0 < w.bytes.length := by
  cases w <;> simp [Wire.bytes]

theorem length_le_bytesAll (items : List Wire) : items.length ≤ (Wire.bytesAll items).length := by
  induction items with
  | nil => simp
  | cons first rest ih =>
      have := first.bytes_length_pos
      simp only [Wire.bytesAll, List.length_append, List.length_cons]
      omega

theorem minusOne_line : Line [0x2D, 0x31] := by
  intro b hb
  simp only [List.mem_cons, List.not_mem_nil, or_false] at hb
  rcases hb with rfl | rfl <;> decide

theorem number_minusOne : Number.number (Buffer.decode [0x2D, 0x31]) = .finite (-1) := by
  decide +kernel

/-- A reply that is a line. -/
theorem Wire.of_line {w : Wire} {kind : UInt8} {text : List UInt8} (hkind : kind ≠ 0x0D)
    (hkind' : kind ≠ 0x0A) (harray : kind ≠ 0x2A) (hline : Line text)
    (hbytes : w.bytes = kind :: (text ++ crlf))
    (hflat : ∀ buffer after, flat buffer ⟨kind, Buffer.decode text, after⟩
      = some ⟨w.value, after, w.failure⟩) : w.Whole ∧ w.Part := by
  have hsize : w.bytes.length = text.length + 3 := by
    rw [hbytes]
    simp [crlf]
  constructor
  · intro before after hlen
    rw [hsize] at hlen ⊢
    rw [hbytes]
    exact ⟨1, parse_flat hkind harray hline hlen (hflat _ _)⟩
  · intro before part hlen hpart hne
    rw [hbytes] at hpart hne
    exact ⟨1, parse_line_part hkind' hline hpart hne⟩

/-- **A reply is read where it stands whole, and not before.** -/
theorem Wire.framed (w : Wire) (hwell : w.WellFormed) : w.Whole ∧ w.Part := by
  induction w using Wire.children with
  | status text => exact of_line (by decide) (by decide) (by decide) hwell rfl fun _ _ => rfl
  | error text => exact of_line (by decide) (by decide) (by decide) hwell rfl fun _ _ => rfl
  | integer text => exact of_line (by decide) (by decide) (by decide) hwell rfl fun _ _ => rfl
  | nullBulk =>
      refine of_line (by decide) (by decide) (by decide) minusOne_line rfl fun buffer after => ?_
      have hbulk : Redis.bulk buffer ⟨0x24, Buffer.decode [0x2D, 0x31], after⟩
          = some ⟨.null, after, none⟩ := by
        unfold Redis.bulk
        simp only [number_minusOne, if_true]
      exact hbulk
  | nullArray =>
      constructor
      · intro before after hlen
        have hhead := header_line before after 0x2A (by decide)
          minusOne_line (by simpa [Wire.bytes, crlf] using hlen)
        refine ⟨1, ?_⟩
        rw [show before ++ (Wire.nullArray.bytes ++ after)
          = before ++ 0x2A :: ([0x2D, 0x31] ++ (crlf ++ after)) by simp [Wire.bytes], parse, hhead]
        simp only [number_minusOne, if_true]
        rfl
      · intro before part hlen hpart hne
        exact ⟨1, parse_line_part (by decide) minusOne_line hpart hne⟩
  | bulk length payload =>
      have hlength : Writes length payload.length := hwell
      have hsize : (Wire.bulk length payload).bytes.length = length.length + payload.length + 5 := by
        simp [Wire.bytes, crlf]
        omega
      constructor
      · intro before after hlen
        rw [hsize] at hlen ⊢
        have hhead := header_line before (payload ++ crlf ++ after) 0x24 (by decide) hlength.line (by omega)
        have hbulk := bulk_whole before after hlength hlen
        refine ⟨1, ?_⟩
        rw [show before ++ ((Wire.bulk length payload).bytes ++ after)
          = before ++ 0x24 :: (length ++ (crlf ++ (payload ++ crlf ++ after))) by
            simp [Wire.bytes], parse, hhead]
        simp only
        rw [if_neg (by decide), show before ++ 0x24 :: (length ++ (crlf ++ (payload ++ crlf ++ after)))
          = before ++ (0x24 :: (length ++ (crlf ++ (payload ++ crlf))) ++ after) by simp,
          Nat.add_assoc]
        exact congrArg some hbulk
      · intro before part hlen hpart hne
        rw [hsize] at hlen
        rw [show (Wire.bulk length payload).bytes
          = 0x24 :: (length ++ crlf) ++ (payload ++ crlf) by simp [Wire.bytes]] at hpart hne
        rcases prefix_append_cases hpart with ⟨hpart, hne⟩ | ⟨more, rfl, hmore⟩
        · exact ⟨1, parse_line_part (by decide) hlength.line hpart hne⟩
        · have hhead := header_line before more 0x24 (by decide)
            hlength.line (by omega)
          have hshort : more.length < payload.length + 2 := by
            have hle := hmore.length_le
            have hlen : (payload ++ crlf).length = payload.length + 2 := by simp [crlf]
            rcases hle.lt_or_eq with hlt | heq
            · omega
            · exact absurd (by rw [hmore.eq_of_length heq]) hne
          have hbulk := bulk_part before hlength hlen hshort
          refine ⟨1, ?_⟩
          rw [show before ++ (0x24 :: (length ++ crlf) ++ more)
            = before ++ 0x24 :: (length ++ (crlf ++ more)) by simp] at hbulk ⊢
          rw [parse, hhead]
          simp only
          rw [if_neg (by decide), Nat.add_assoc]
          exact congrArg some hbulk
  | array length items ih =>
      obtain ⟨hlength, hitems⟩ := hwell
      have hframed := fun w hw => ih w hw (Wire.wellFormedAll_iff.mp hitems w hw)
      have hsize : (Wire.array length items).bytes.length
          = length.length + 3 + (Wire.bytesAll items).length := by
        simp [Wire.bytes, crlf]
        omega
      have hcount := length_le_bytesAll items
      constructor
      · intro before after hlen
        rw [hsize] at hlen ⊢
        obtain ⟨fuel, hread⟩ := readItems_whole (fun w hw => (hframed w hw).1)
          (before ++ 0x2A :: (length ++ crlf)) after 0 [] (by simp [crlf]; omega)
        refine ⟨fuel + 1, ?_⟩
        have hparse := parse_array hlength (by omega) (by omega) hread
        rw [show before ++ ((Wire.array length items).bytes ++ after)
          = before ++ 0x2A :: (length ++ (crlf ++ (Wire.bytesAll items ++ after))) by
            simp [Wire.bytes], hparse]
        have hnext : (before ++ 0x2A :: (length ++ crlf)).length + (Wire.bytesAll items).length
            = before.length + (length.length + 3 + (Wire.bytesAll items).length) := by
          simp [crlf]
          omega
        rw [hnext]
        rfl
      · intro before part hlen hpart hne
        rw [hsize] at hlen
        rw [show (Wire.array length items).bytes
          = 0x2A :: (length ++ crlf) ++ Wire.bytesAll items by simp [Wire.bytes]] at hpart hne
        rcases prefix_append_cases hpart with ⟨hpart, hne⟩ | ⟨more, rfl, hmore⟩
        · exact ⟨1, parse_line_part (by decide) hlength.line hpart hne⟩
        · obtain ⟨fuel, hread⟩ := readItems_part hframed (before ++ 0x2A :: (length ++ crlf)) more 0 []
            (by simp [crlf]; omega) hmore fun heq => hne (by rw [heq])
          refine ⟨fuel + 1, ?_⟩
          rw [show before ++ (0x2A :: (length ++ crlf) ++ more)
            = before ++ 0x2A :: (length ++ (crlf ++ more)) by simp]
          exact parse_array hlength (by omega) (by omega) hread

end Nacre.Redis
