/-
PostgreSQL's `uuid` type, as text.

Input is more permissive than output: hex digits of either case, a
hyphen after any group of four digits or none, and braces around the
whole. Output is always the one canonical text, lower case in groups of
8-4-4-4-12. `castUuid` is the two together, the canonical text of the
value a spelling reads as, so two spellings name one row iff they cast
to the same text.
-/
namespace Uuid

-- ================================================================= input

/-- The value of a hex digit, of either case. -/
def hexValue (c : Char) : Option Nat :=
  if '0' ≤ c ∧ c ≤ '9' then some (c.toNat - '0'.toNat)
  else if 'a' ≤ c ∧ c ≤ 'f' then some (c.toNat - 'a'.toNat + 10)
  else if 'A' ≤ c ∧ c ≤ 'F' then some (c.toNat - 'A'.toNat + 10)
  else none

/-- A hyphen may follow every second byte but the last: with `n` bytes
still to come, when `n` is even and not zero. -/
def skipHyphen (n : Nat) (cs : List Char) : List Char :=
  match cs with
  | '-' :: rest => if n % 2 = 0 ∧ n ≠ 0 then rest else cs
  | _ => cs

/-- The next `n` bytes, and what is left of the text. -/
def readBytes : Nat → List Char → Option (List Nat × List Char)
  | 0, cs => some ([], cs)
  | n + 1, a :: b :: cs => do
      let hi ← hexValue a
      let lo ← hexValue b
      let (bytes, rest) ← readBytes n (skipHyphen n cs)
      return ((16 * hi + lo) :: bytes, rest)
  | _ + 1, _ => none

/-- `uuid_in`: the sixteen bytes a text reads as. -/
def uuidIn (s : String) : Option (List Nat) :=
  match s.toList with
  | '{' :: cs =>
      match readBytes 16 cs with
      | some (bytes, ['}']) => some bytes
      | _ => none
  | cs =>
      match readBytes 16 cs with
      | some (bytes, []) => some bytes
      | _ => none

-- ================================================================ output

/-- A hex digit, in lower case. -/
def hexDigit (n : Nat) : Char :=
  if n < 10 then Char.ofNat (n + '0'.toNat) else Char.ofNat (n - 10 + 'a'.toNat)

/-- The digits of the bytes from position `i` on, a hyphen before the
fifth, seventh, ninth and eleventh. -/
def writeBytes (i : Nat) : List Nat → List Char
  | [] => []
  | byte :: bytes =>
      (if i = 4 ∨ i = 6 ∨ i = 8 ∨ i = 10 then ['-'] else [])
        ++ hexDigit (byte / 16) :: hexDigit (byte % 16) :: writeBytes (i + 1) bytes

/-- `uuid_out`. -/
def uuidOut (bytes : List Nat) : String := String.ofList (writeBytes 0 bytes)

/-- The canonical text of the value a spelling reads as. -/
def castUuid (s : String) : Option String := (uuidIn s).map uuidOut

/-- `/^[0-9a-f-]{36}$/i`: the shape the API checks before any cast. -/
def hasShape (s : String) : Bool :=
  s.toList.length == 36 && s.toList.all fun c => c == '-' || (hexValue c).isSome

-- ============================================================== the shape

theorem hexValue_lt {c : Char} {n : Nat} (h : hexValue c = some n) : n < 16 := by
  unfold hexValue at h
  split at h
  next hdigit =>
    have hhigh : c.toNat ≤ '9'.toNat := hdigit.2
    cases h
    have hnine : '9'.toNat = 57 := rfl
    have hzero : '0'.toNat = 48 := rfl
    omega
  next =>
    split at h
    next hlower =>
      have hhigh : c.toNat ≤ 'f'.toNat := hlower.2
      cases h
      have hf : 'f'.toNat = 102 := rfl
      have ha : 'a'.toNat = 97 := rfl
      omega
    next =>
      split at h
      next hupper =>
        have hhigh : c.toNat ≤ 'F'.toNat := hupper.2
        cases h
        have hf : 'F'.toNat = 70 := rfl
        have ha : 'A'.toNat = 65 := rfl
        omega
      next => cases h

theorem readBytes_spec {n : Nat} {cs rest : List Char} {bytes : List Nat}
    (h : readBytes n cs = some (bytes, rest)) : bytes.length = n ∧ ∀ byte ∈ bytes, byte < 256 := by
  induction n generalizing cs rest bytes with
  | zero =>
      cases h
      exact ⟨rfl, nofun⟩
  | succ n ih =>
      match cs, h with
      | a :: b :: cs, h =>
          unfold readBytes at h
          obtain ⟨hi, hhi, h⟩ := Option.bind_eq_some_iff.1 h
          obtain ⟨lo, hlo, h⟩ := Option.bind_eq_some_iff.1 h
          obtain ⟨⟨bytes', rest'⟩, hread, h⟩ := Option.bind_eq_some_iff.1 h
          cases h
          obtain ⟨hlength, hbytes⟩ := ih hread
          refine ⟨by rw [List.length_cons, hlength], fun byte hbyte => ?_⟩
          rcases List.mem_cons.1 hbyte with rfl | hmem
          · have hhi' := hexValue_lt hhi
            have hlo' := hexValue_lt hlo
            omega
          · exact hbytes byte hmem

theorem uuidIn_spec {s : String} {bytes : List Nat} (h : uuidIn s = some bytes) :
    bytes.length = 16 ∧ ∀ byte ∈ bytes, byte < 256 := by
  unfold uuidIn at h
  split at h
  next =>
    split at h
    next bytes' hread =>
      cases h
      exact readBytes_spec hread
    next => cases h
  next =>
    split at h
    next bytes' hread =>
      cases h
      exact readBytes_spec hread
    next => cases h

theorem hexValue_hexDigit {n : Nat} (h : n < 16) : (hexValue (hexDigit n)).isSome = true := by
  have hall : ∀ m < 16, (hexValue (hexDigit m)).isSome = true := by decide
  exact hall n h

theorem writeBytes_digits {bytes : List Nat} (h : ∀ byte ∈ bytes, byte < 256) (i : Nat) :
    (writeBytes i bytes).all (fun c => c == '-' || (hexValue c).isSome) = true := by
  induction bytes generalizing i with
  | nil => rfl
  | cons byte rest ih =>
      have hbyte := h byte List.mem_cons_self
      have hrest := ih (fun b hb => h b (List.mem_cons_of_mem _ hb)) (i + 1)
      have hhi := hexValue_hexDigit (show byte / 16 < 16 by omega)
      have hlo := hexValue_hexDigit (show byte % 16 < 16 by omega)
      unfold writeBytes
      rw [List.all_append, List.all_cons, List.all_cons, hrest, hhi, hlo]
      split <;> simp

/-- The canonical text has the shape. -/
theorem hasShape_of_castUuid {s t : String} (h : castUuid s = some t) : hasShape t = true := by
  obtain ⟨bytes, hbytes, rfl⟩ := Option.map_eq_some_iff.1 h
  obtain ⟨hlength, hsmall⟩ := uuidIn_spec hbytes
  unfold hasShape uuidOut
  rw [String.toList_ofList, Bool.and_eq_true]
  refine ⟨?_, writeBytes_digits hsmall 0⟩
  match bytes, hlength with
  | [_, _, _, _, _, _, _, _, _, _, _, _, _, _, _, _], _ => rfl

theorem not_mem_of_hasShape {s : String} (h : hasShape s = true) : '|' ∉ s.toList := by
  intro hmem
  have hdigit := List.all_eq_true.1 (Bool.and_eq_true_iff.1 h).2 '|' hmem
  exact absurd hdigit (by decide)

-- ============================================================ groups of four

/-- Digits in whole groups of four before, between and after the hyphens. -/
def Grouped (cs : List Char) : Prop := ∀ part ∈ cs.splitOn '-', part ≠ [] ∧ part.length % 4 = 0

instance (cs : List Char) : Decidable (Grouped cs) :=
  inferInstanceAs (Decidable (∀ part ∈ cs.splitOn '-', _))

/-- The text is read to its end. -/
def Reads (n : Nat) (cs : List Char) : Prop := ∃ bytes, readBytes n cs = some (bytes, [])

theorem hexValue_hyphen : hexValue '-' = none := by decide

theorem readBytes_succ {n : Nat} {cs left : List Char} {bytes : List Nat}
    (h : readBytes (n + 1) cs = some (bytes, left)) :
    ∃ a b rest tail, cs = a :: b :: rest ∧ (hexValue a).isSome = true ∧ (hexValue b).isSome = true
      ∧ readBytes n (skipHyphen n rest) = some (tail, left) := by
  match cs, h with
  | a :: b :: rest, h =>
      rw [readBytes] at h
      obtain ⟨x, hx, h⟩ := Option.bind_eq_some_iff.1 h
      obtain ⟨y, hy, h⟩ := Option.bind_eq_some_iff.1 h
      obtain ⟨⟨tail, left'⟩, hread, h⟩ := Option.bind_eq_some_iff.1 h
      cases h
      exact ⟨a, b, rest, tail, rfl, by rw [hx]; rfl, by rw [hy]; rfl, hread⟩

theorem reads_succ (n : Nat) (cs : List Char) : Reads (n + 1) cs ↔
    ∃ a b rest, cs = a :: b :: rest ∧ (hexValue a).isSome = true ∧ (hexValue b).isSome = true
      ∧ Reads n (skipHyphen n rest) := by
  constructor
  · rintro ⟨bytes, h⟩
    obtain ⟨a, b, rest, tail, rfl, ha, hb, hread⟩ := readBytes_succ h
    exact ⟨a, b, rest, rfl, ha, hb, tail, hread⟩
  · rintro ⟨a, b, rest, rfl, ha, hb, tail, hread⟩
    obtain ⟨x, hx⟩ := Option.isSome_iff_exists.1 ha
    obtain ⟨y, hy⟩ := Option.isSome_iff_exists.1 hb
    refine ⟨(16 * x + y) :: tail, ?_⟩
    rw [readBytes, hx, hy, hread]
    rfl

/-- Two bytes are a group of four digits, and a hyphen behind it unless it
is the last. -/
theorem reads_group (m : Nat) (cs : List Char) : Reads (2 * (m + 1)) cs ↔
    ∃ a b c d rest, cs = a :: b :: c :: d :: rest ∧ (∀ x ∈ [a, b, c, d], (hexValue x).isSome = true)
      ∧ Reads (2 * m) (skipHyphen (2 * m) rest) := by
  have hodd : ∀ rest, skipHyphen (2 * m + 1) rest = rest := by
    intro rest
    unfold skipHyphen
    split
    · rw [if_neg (by omega)]
    · rfl
  rw [show 2 * (m + 1) = 2 * m + 1 + 1 by omega, reads_succ]
  constructor
  · rintro ⟨a, b, rest, rfl, ha, hb, hread⟩
    rw [hodd, reads_succ] at hread
    obtain ⟨c, d, rest, rfl, hc, hd, hread⟩ := hread
    exact ⟨a, b, c, d, rest, rfl, by simp [ha, hb, hc, hd], hread⟩
  · rintro ⟨a, b, c, d, rest, rfl, hdigits, hread⟩
    simp only [List.mem_cons, List.not_mem_nil, or_false, forall_eq_or_imp, forall_eq] at hdigits
    obtain ⟨ha, hb, hc, hd⟩ := hdigits
    refine ⟨a, b, c :: d :: rest, rfl, ha, hb, ?_⟩
    rw [hodd, reads_succ]
    exact ⟨c, d, rest, rfl, hc, hd, hread⟩

theorem splitOn_cons_ne {c : Char} (hc : c ≠ '-') (cs : List Char) :
    (c :: cs).splitOn '-' = (cs.splitOn '-').modifyHead (c :: ·) := by
  rw [List.splitOn_eq_splitOnP, List.splitOn_eq_splitOnP, List.splitOnP_cons_eq_if_modifyHead,
    if_neg (by simpa using hc)]

theorem splitOn_hyphen (cs : List Char) : ('-' :: cs).splitOn '-' = [] :: cs.splitOn '-' := by
  rw [List.splitOn_eq_splitOnP, List.splitOn_eq_splitOnP, List.splitOnP_cons_eq_if_modifyHead]
  rfl

theorem ne_hyphen {c : Char} (h : (hexValue c).isSome = true) : c ≠ '-' := by
  rintro rfl
  rw [hexValue_hyphen] at h
  cases h

/-- How many digits there are. -/
def digits (cs : List Char) : Nat := cs.countP (· ≠ '-')

/-- A group in front: with a hyphen behind it, at the end, or in front of
more digits. -/
theorem grouped_group {a b c d : Char} (h : ∀ x ∈ [a, b, c, d], (hexValue x).isSome = true)
    (rest : List Char) : Grouped (a :: b :: c :: d :: rest) ↔
      rest = [] ∨ (∃ more, rest = '-' :: more ∧ Grouped more)
        ∨ (rest ≠ [] ∧ rest.head? ≠ some '-' ∧ Grouped rest) := by
  simp only [List.mem_cons, List.not_mem_nil, or_false, forall_eq_or_imp, forall_eq] at h
  obtain ⟨ha, hb, hc, hd⟩ := h
  have hsplit : (a :: b :: c :: d :: rest).splitOn '-'
      = (rest.splitOn '-').modifyHead ([a, b, c, d] ++ ·) := by
    rw [splitOn_cons_ne (ne_hyphen ha), splitOn_cons_ne (ne_hyphen hb),
      splitOn_cons_ne (ne_hyphen hc), splitOn_cons_ne (ne_hyphen hd)]
    cases rest.splitOn '-' <;> rfl
  rw [Grouped, hsplit]
  match rest with
  | [] =>
      refine ⟨fun _ => .inl rfl, fun _ part hpart => ?_⟩
      rw [List.splitOn_nil] at hpart
      rw [List.mem_singleton.1 hpart]
      exact ⟨List.cons_ne_nil _ _, by simp⟩
  | x :: more =>
      by_cases hx : x = '-'
      · subst hx
        rw [splitOn_hyphen, List.modifyHead_cons, List.forall_mem_cons]
        constructor
        · exact fun hall => .inr (.inl ⟨more, rfl, hall.2⟩)
        · rintro (hnil | ⟨more', hmore, hgrouped⟩ | ⟨-, hhead, -⟩)
          · cases hnil
          · cases hmore
            exact ⟨⟨List.cons_ne_nil _ _, by simp⟩, hgrouped⟩
          · exact absurd rfl hhead
      · have hgrouped : (∀ part ∈ ((x :: more).splitOn '-').modifyHead ([a, b, c, d] ++ ·),
            part ≠ [] ∧ part.length % 4 = 0) ↔ Grouped (x :: more) := by
          rw [Grouped, splitOn_cons_ne hx]
          cases hparts : more.splitOn '-' with
          | nil => exact Iff.rfl
          | cons first parts =>
              simp only [List.modifyHead_cons, List.forall_mem_cons]
              refine and_congr_left fun _ => ?_
              simp only [List.length_append, List.length_cons, List.length_nil]
              exact ⟨fun hpart => ⟨List.cons_ne_nil _ _, by omega⟩,
                fun hpart => ⟨List.cons_ne_nil _ _, by omega⟩⟩
        rw [hgrouped]
        constructor
        · exact fun hall => .inr (.inr ⟨List.cons_ne_nil _ _, fun h => hx (Option.some.inj h), hall⟩)
        · rintro (hnil | ⟨more', hmore, -⟩ | ⟨-, -, hall⟩)
          · cases hnil
          · exact absurd (List.cons.inj hmore).1 hx
          · exact hall

theorem first_part (cs : List Char) : ∃ part parts rest, cs.splitOn '-' = part :: parts
    ∧ cs = part ++ rest ∧ ∀ x ∈ part, x ≠ '-' := by
  induction cs with
  | nil => exact ⟨[], [], [], List.splitOn_nil _, rfl, nofun⟩
  | cons c cs ih =>
      by_cases hc : c = '-'
      · subst hc
        exact ⟨[], cs.splitOn '-', '-' :: cs, splitOn_hyphen cs, rfl, nofun⟩
      · obtain ⟨part, parts, rest, hsplit, hcs, hpart⟩ := ih
        refine ⟨c :: part, parts, rest, ?_, by rw [hcs]; rfl, ?_⟩
        · rw [splitOn_cons_ne hc, hsplit, List.modifyHead_cons]
        · intro x hx
          rcases List.mem_cons.1 hx with rfl | hx
          · exact hc
          · exact hpart x hx

/-- Grouped text begins with a group. -/
theorem grouped_start {cs : List Char} (h : Grouped cs) :
    ∃ a b c d rest, cs = a :: b :: c :: d :: rest ∧ ∀ x ∈ [a, b, c, d], x ≠ '-' := by
  obtain ⟨part, parts, rest, hsplit, hcs, hpart⟩ := first_part cs
  obtain ⟨hne, hlen⟩ := h part (by rw [hsplit]; exact List.mem_cons_self)
  match part, hne, hlen with
  | a :: b :: c :: d :: more, _, _ =>
      refine ⟨a, b, c, d, more ++ rest, hcs, fun x hx => hpart x ?_⟩
      simp only [List.mem_cons, List.not_mem_nil, or_false] at hx ⊢
      rcases hx with hx | hx | hx | hx <;> simp [hx]
  | [], hne, _ => exact absurd rfl hne
  | [_], _, hlen => cases hlen
  | [_, _], _, hlen => cases hlen
  | [_, _, _], _, hlen => cases hlen

theorem digits_group {a b c d : Char} (h : ∀ x ∈ [a, b, c, d], x ≠ '-') (rest : List Char) :
    digits (a :: b :: c :: d :: rest) = digits rest + 4 := by
  simp only [List.mem_cons, List.not_mem_nil, or_false, forall_eq_or_imp, forall_eq] at h
  obtain ⟨ha, hb, hc, hd⟩ := h
  simp [digits, ha, hb, hc, hd]

theorem digits_of_grouped {cs : List Char} (h : Grouped cs) : digits cs ≠ 0 := by
  obtain ⟨a, b, c, d, rest, rfl, hne⟩ := grouped_start h
  rw [digits_group hne]
  omega

/-- Digits and hyphens only. -/
def Shaped (cs : List Char) : Prop := ∀ c ∈ cs, c = '-' ∨ (hexValue c).isSome = true

/-- One group more. -/
theorem reads_step (m : Nat)
    (ih : ∀ {a b c d : Char} {rest : List Char}, (∀ x ∈ [a, b, c, d], (hexValue x).isSome = true) →
      Shaped rest → (Reads (2 * m) (skipHyphen (2 * m) rest)
        ↔ Grouped (a :: b :: c :: d :: rest) ∧ digits rest = 4 * m))
    {cs : List Char} (h : Shaped cs) :
    Reads (2 * (m + 1)) cs ↔ Grouped cs ∧ digits cs = 4 * (m + 1) := by
  have htail : ∀ {a b c d : Char} {rest : List Char}, cs = a :: b :: c :: d :: rest → Shaped rest := by
    rintro a b c d rest rfl x hx
    exact h x (by simp [hx])
  rw [reads_group]
  constructor
  · rintro ⟨a, b, c, d, rest, rfl, hdigits, hread⟩
    obtain ⟨hgrouped, hcount⟩ := (ih hdigits (htail rfl)).1 hread
    rw [digits_group fun x hx => ne_hyphen (hdigits x hx), hcount]
    exact ⟨hgrouped, by omega⟩
  · rintro ⟨hgrouped, hcount⟩
    obtain ⟨a, b, c, d, rest, rfl, hne⟩ := grouped_start hgrouped
    have hdigits : ∀ x ∈ [a, b, c, d], (hexValue x).isSome = true := by
      intro x hx
      refine (h x ?_).resolve_left (hne x hx)
      simp only [List.mem_cons, List.not_mem_nil, or_false] at hx ⊢
      rcases hx with hx | hx | hx | hx <;> simp [hx]
    rw [digits_group hne] at hcount
    exact ⟨a, b, c, d, rest, rfl, hdigits,
      (ih hdigits (htail rfl)).2 ⟨hgrouped, by omega⟩⟩

/-- A text of digits and hyphens is read to its end where it has the right
number of digits, in whole groups. -/
theorem reads_iff (m : Nat) {cs : List Char} (h : Shaped cs) :
    Reads (2 * (m + 1)) cs ↔ Grouped cs ∧ digits cs = 4 * (m + 1) := by
  induction m generalizing cs with
  | zero =>
      refine reads_step 0 (fun {a b c d rest} hdigits _ => ?_) h
      have hnil : Reads (2 * 0) (skipHyphen (2 * 0) rest) ↔ rest = [] := by
        have hskip : skipHyphen (2 * 0) rest = rest := by
          unfold skipHyphen
          split
          · rw [if_neg (by omega)]
          · rfl
        rw [hskip]
        constructor
        · rintro ⟨bytes, hread⟩
          cases hread
          rfl
        · rintro rfl
          exact ⟨[], rfl⟩
      rw [hnil, grouped_group hdigits]
      constructor
      · rintro rfl
        exact ⟨.inl rfl, rfl⟩
      · rintro ⟨rfl | ⟨more, rfl, hgrouped⟩ | ⟨-, -, hgrouped⟩, hzero⟩
        · rfl
        · have hmore : digits more = 0 := by simpa [digits] using hzero
          exact absurd hmore (digits_of_grouped hgrouped)
        · exact absurd hzero (digits_of_grouped hgrouped)
  | succ m ih =>
      refine reads_step (m + 1) (fun {a b c d rest} hdigits hrest => ?_) h
      rw [grouped_group hdigits]
      match rest, hrest with
      | [], _ =>
          refine iff_of_false ?_ ?_
          · rintro ⟨bytes, hread⟩
            cases hread
          · rintro ⟨-, hzero⟩
            change 0 = 4 * (m + 1) at hzero
            omega
      | x :: more, hrest =>
          by_cases hx : x = '-'
          · subst hx
            have hskip : skipHyphen (2 * (m + 1)) ('-' :: more) = more :=
              if_pos ⟨by omega, by omega⟩
            rw [hskip, ih fun c hc => hrest c (List.mem_cons_of_mem _ hc)]
            refine and_congr ⟨fun hgrouped => .inr (.inl ⟨more, rfl, hgrouped⟩), ?_⟩ Iff.rfl
            rintro (hnil | ⟨more', hmore, hgrouped⟩ | ⟨-, hhead, -⟩)
            · cases hnil
            · cases hmore
              exact hgrouped
            · exact absurd rfl hhead
          · have hskip : skipHyphen (2 * (m + 1)) (x :: more) = x :: more := by
              unfold skipHyphen
              split
              next heq => exact absurd (List.cons.inj heq).1 hx
              next => rfl
            rw [hskip, ih hrest]
            refine and_congr ⟨fun hgrouped => .inr (.inr ⟨List.cons_ne_nil _ _,
              fun hhead => hx (Option.some.inj hhead), hgrouped⟩), ?_⟩ Iff.rfl
            rintro (hnil | ⟨more', hmore, -⟩ | ⟨-, -, hgrouped⟩)
            · cases hnil
            · exact absurd (List.cons.inj hmore).1 hx
            · exact hgrouped

/-- Which texts of the shape are uuids: four hyphens, whole groups. -/
theorem castUuid_iff {s : String} (h : hasShape s = true) :
    (castUuid s).isSome = true ↔ s.toList.count '-' = 4 ∧ Grouped s.toList := by
  rw [hasShape, Bool.and_eq_true, beq_iff_eq, List.all_eq_true] at h
  obtain ⟨hlength, hall⟩ := h
  have hshaped : Shaped s.toList := by
    intro c hc
    simpa using hall c hc
  have hreads : (uuidIn s).isSome = true ↔ Reads (2 * (7 + 1)) s.toList := by
    unfold uuidIn Reads
    split
    next cs hbrace =>
      have hmem : '\x7b' ∈ s.toList := by
        rw [hbrace]
        exact List.mem_cons_self
      rcases hshaped _ hmem with hdash | hhex
      · exact absurd hdash (by decide)
      · exact absurd hhex (by decide)
    next =>
      split
      next bytes hread => exact iff_of_true rfl ⟨bytes, hread⟩
      next hnone => exact iff_of_false (by simp) fun ⟨bytes, hread⟩ => hnone bytes hread
  have hcount : digits s.toList + s.toList.count '-' = 36 := by
    rw [← hlength, List.length_eq_countP_add_countP (· ≠ '-'), digits, List.count]
    refine congrArg _ (List.countP_congr fun c _ => ?_)
    simp
  rw [castUuid, Option.isSome_map, hreads, reads_iff 7 hshaped]
  constructor
  · exact fun hread => ⟨by omega, hread.1⟩
  · exact fun hgroups => ⟨hgroups.2, by omega⟩

end Uuid
