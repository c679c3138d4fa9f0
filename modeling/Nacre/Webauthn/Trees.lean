/-
What the reader accepts, as trees of data items.

# Trees

A `Node` is an item as it was written: what it says, and the width its
head was written at. `Node.write` is the writing, `Node.value` what the
reader makes of it. A writing is of one tree only (`Node.write_inj`):
a head says where its item ends.

# The reader

At a depth that leaves so many levels the reader gives a value exactly on
the writing of a tree within its limits, with whatever comes after it left
over (`item_reads`). Its one throw that is not a `CborError` is on input
that comes to a text that is no UTF-8 (`item_throws`). Both are one
induction on the levels, with an induction on the count inside it for the
arrays and one for the maps.
-/
import Nacre.Webauthn.Reader

namespace Nacre.Webauthn

open Nacre.Factors (Cbor Label bigEndian maxDepth maxEntries maxBytes)

-- ================================================================= numbers

/-- A number in so many bytes, the first the most significant. -/
def toBigEndian : Nat → Nat → List UInt8
  | 0, _ => []
  | k + 1, n => toBigEndian k (n / 256) ++ [UInt8.ofNat n]

@[simp] theorem length_toBigEndian (k n : Nat) : (toBigEndian k n).length = k := by
  induction k generalizing n with
  | zero => rfl
  | succ k ih => simp [toBigEndian, ih]

theorem bigEndian_append (bytes : List UInt8) (byte : UInt8) :
    bigEndian (bytes ++ [byte]) = bigEndian bytes * 256 + byte.toNat := by
  simp [bigEndian]

theorem bigEndian_toBigEndian {k n : Nat} (h : n < 256 ^ k) :
    bigEndian (toBigEndian k n) = n := by
  induction k generalizing n with
  | zero =>
      have : n = 0 := by simpa using h
      subst this
      rfl
  | succ k ih =>
      have hsmall : n / 256 < 256 ^ k := by
        rw [Nat.div_lt_iff_lt_mul (by omega), ← pow_succ]
        exact h
      rw [toBigEndian, bigEndian_append, ih hsmall]
      simp only [UInt8.toNat_ofNat']
      omega

theorem toBigEndian_bigEndian (bytes : List UInt8) :
    toBigEndian bytes.length (bigEndian bytes) = bytes := by
  induction bytes using List.reverseRecOn with
  | nil => rfl
  | append_singleton bytes byte ih =>
      have hbyte : byte.toNat < 256 := byte.toNat_lt
      have hdiv : (bigEndian bytes * 256 + byte.toNat) / 256 = bigEndian bytes := by omega
      have hlast : UInt8.ofNat (bigEndian bytes * 256 + byte.toNat) = byte := by
        apply UInt8.toNat_inj.mp
        simp only [UInt8.toNat_ofNat']
        omega
      rw [bigEndian_append, List.length_append, List.length_singleton, toBigEndian, hdiv, ih,
        hlast]

theorem bigEndian_lt (bytes : List UInt8) : bigEndian bytes < 256 ^ bytes.length := by
  induction bytes using List.reverseRecOn with
  | nil => exact Nat.one_pos
  | append_singleton bytes byte ih =>
      have hbyte : byte.toNat < 256 := byte.toNat_lt
      rw [bigEndian_append, List.length_append, List.length_singleton, pow_succ]
      omega

-- =================================================================== heads

/-- How wide an argument is written: in the initial byte, or after it. -/
inductive Width where
  | inline
  | one
  | two
  | four
  deriving DecidableEq

/-- The bytes after the initial one. -/
def Width.bytes : Width → Nat
  | .inline => 0
  | .one => 1
  | .two => 2
  | .four => 4

def Width.Fits : Width → Nat → Prop
  | .inline, n => n < 24
  | .one, n => n < 256 ^ 1
  | .two, n => n < 256 ^ 2
  | .four, n => n < 256 ^ 4

def Width.additional : Width → Nat → Nat
  | .inline, n => n
  | .one, _ => 24
  | .two, _ => 25
  | .four, _ => 26

def headBytes (major : Nat) (w : Width) (n : Nat) : List UInt8 :=
  UInt8.ofNat (major * 32 + w.additional n) :: toBigEndian w.bytes n

theorem need_ok_iff {n : Nat} {bytes out rest : List UInt8} :
    need n bytes = .ok (out, rest) ↔ out.length = n ∧ bytes = out ++ rest := by
  unfold need
  constructor
  · intro h
    split at h
    next => cases h
    next hlen =>
      have hsplit : (bytes.take n, bytes.drop n) = (out, rest) := by
        simpa [List.splitAt_eq] using h
      obtain ⟨rfl, rfl⟩ := Prod.mk.injEq .. ▸ hsplit
      exact ⟨by simp; omega, (List.take_append_drop n bytes).symm⟩
  · rintro ⟨rfl, rfl⟩
    rw [if_neg (by simp)]
    simp [List.splitAt_eq]

theorem need_ne_typeError (n : Nat) (bytes : List UInt8) : need n bytes ≠ .error .typeError := by
  unfold need
  split <;> exact nofun

theorem argument_ok_iff {major k m n : Nat} {bytes rest : List UInt8} :
    argument major k bytes = .ok ((m, n), rest) ↔
      m = major ∧ n < 256 ^ k ∧ bytes = toBigEndian k n ++ rest := by
  unfold argument
  rw [bind_ok_iff]
  constructor
  · rintro ⟨⟨out, after⟩, hneed, h⟩
    obtain ⟨rfl, rfl⟩ := need_ok_iff.mp hneed
    cases h
    exact ⟨rfl, bigEndian_lt out, by rw [toBigEndian_bigEndian]⟩
  · rintro ⟨rfl, hn, rfl⟩
    refine ⟨(toBigEndian k n, rest), need_ok_iff.mpr ⟨length_toBigEndian k n, rfl⟩, ?_⟩
    rw [bigEndian_toBigEndian hn]

theorem head_cons_eq {initial : UInt8} {a m : Nat} (ha : initial.toNat % 32 = a)
    (hm : initial.toNat / 32 = m) : initial = UInt8.ofNat (m * 32 + a) := by
  apply UInt8.toNat_inj.mp
  have := initial.toNat_lt
  simp only [UInt8.toNat_ofNat']
  omega

theorem Width.additional_lt {w : Width} {n : Nat} (h : w.Fits n) : w.additional n < 32 := by
  cases w with
  | inline =>
      simp only [Fits, additional] at h ⊢
      omega
  | one | two | four =>
      simp only [additional]
      omega

/-- The head, by the two parts of its initial byte. -/
theorem head_of {initial : UInt8} {rest : List UInt8} {m a : Nat}
    (hm : initial.toNat / 32 = m) (ha : initial.toNat % 32 = a) :
    head (initial :: rest)
      = if a < 24 then .ok ((m, a), rest)
        else if a = 24 then argument m 1 rest
        else if a = 25 then argument m 2 rest
        else if a = 26 then argument m 4 rest
        else
          refuse s!"unsupported CBOR argument {a} for major type {m}; this reader accepts the canonical, definite-length encoding CTAP2 requires" := by
  subst hm ha
  rfl

theorem head_ok_iff {bytes rest : List UInt8} {major n : Nat} :
    head bytes = .ok ((major, n), rest) ↔
      ∃ w : Width, w.Fits n ∧ major < 8 ∧ bytes = headBytes major w n ++ rest := by
  constructor
  · intro h
    match bytes with
    | [] => cases h
    | initial :: after =>
        have hbyte := initial.toNat_lt
        simp only [head] at h
        split at h
        next ha =>
          simp only [Except.ok.injEq, Prod.mk.injEq] at h
          obtain ⟨⟨hm, hn⟩, rfl⟩ := h
          refine ⟨.inline, by rw [← hn]; exact ha, by omega, ?_⟩
          rw [head_cons_eq hn hm]
          rfl
        next =>
          split at h
          next ha =>
            obtain ⟨hm, hn, rfl⟩ := argument_ok_iff.mp h
            exact ⟨.one, hn, by omega, by rw [head_cons_eq ha hm.symm]; rfl⟩
          next =>
            split at h
            next ha =>
              obtain ⟨hm, hn, rfl⟩ := argument_ok_iff.mp h
              exact ⟨.two, hn, by omega, by rw [head_cons_eq ha hm.symm]; rfl⟩
            next =>
              split at h
              next ha =>
                obtain ⟨hm, hn, rfl⟩ := argument_ok_iff.mp h
                exact ⟨.four, hn, by omega, by rw [head_cons_eq ha hm.symm]; rfl⟩
              next => cases h
  · rintro ⟨w, hfits, hmajor, rfl⟩
    have hlt := Width.additional_lt hfits
    have hto : (UInt8.ofNat (major * 32 + w.additional n)).toNat = major * 32 + w.additional n := by
      simp only [UInt8.toNat_ofNat']
      omega
    rw [headBytes, List.cons_append,
      head_of (m := major) (a := w.additional n) (by omega) (by omega)]
    cases w with
    | inline => exact if_pos hfits
    | one => exact argument_ok_iff.mpr ⟨rfl, hfits, rfl⟩
    | two => exact argument_ok_iff.mpr ⟨rfl, hfits, rfl⟩
    | four => exact argument_ok_iff.mpr ⟨rfl, hfits, rfl⟩

theorem argument_ne_typeError (major n : Nat) (bytes : List UInt8) :
    argument major n bytes ≠ .error .typeError := by
  intro h
  rcases bind_error_iff.mp h with h | ⟨a, -, h⟩
  · exact need_ne_typeError _ _ h
  · cases h

theorem head_ne_typeError (bytes : List UInt8) : head bytes ≠ .error .typeError := by
  intro h
  match bytes with
  | [] => cases h
  | initial :: rest =>
      simp only [head] at h
      split at h
      next => cases h
      next =>
        split at h
        next => exact argument_ne_typeError _ _ _ h
        next =>
          split at h
          next => exact argument_ne_typeError _ _ _ h
          next =>
            split at h
            next => exact argument_ne_typeError _ _ _ h
            next => cases h

/-- A head says where it ends. -/
theorem headBytes_append {major major' n n' : Nat} {w w' : Width} {rest rest' : List UInt8}
    (hw : w.Fits n) (hw' : w'.Fits n') (hmajor : major < 8) (hmajor' : major' < 8)
    (h : headBytes major w n ++ rest = headBytes major' w' n' ++ rest') :
    major = major' ∧ w = w' ∧ n = n' ∧ rest = rest' := by
  have hhead : head (headBytes major w n ++ rest) = .ok ((major, n), rest) :=
    head_ok_iff.mpr ⟨w, hw, hmajor, rfl⟩
  have hhead' := head_ok_iff.mpr ⟨w', hw', hmajor', h⟩
  rw [hhead] at hhead'
  simp only [Except.ok.injEq, Prod.mk.injEq] at hhead'
  obtain ⟨⟨rfl, rfl⟩, rfl⟩ := hhead'
  refine ⟨rfl, ?_, rfl, rfl⟩
  have hlength := congrArg List.length h
  simp only [headBytes, List.length_append, List.length_cons, length_toBigEndian] at hlength
  cases w <;> cases w' <;> first | rfl | (simp only [Width.bytes] at hlength; omega)

-- ==================================================================== text

/-- The bytes of a text. -/
def utf8 (text : String) : List UInt8 := text.toUTF8.data.toList

theorem utf8_inj {s t : String} (h : utf8 s = utf8 t) : s = t := by
  have hdata : s.toUTF8.data = t.toUTF8.data := Array.toList_inj.mp h
  have hbytes : s.toUTF8 = t.toUTF8 := by
    cases hs : s.toUTF8
    cases ht : t.toUTF8
    rw [hs, ht] at hdata
    exact congrArg ByteArray.mk hdata
  exact String.toByteArray_inj.mp hbytes

theorem decodeText_utf8 (text : String) : decodeText (utf8 text) = .ok (Js.dropBom text) := by
  have hbytes : (⟨(utf8 text).toArray⟩ : ByteArray) = text.toUTF8 := by
    simp [utf8]
  rw [decodeText, hbytes, Js.decode_toUTF8]

theorem decodeText_of_not {bytes : List UInt8} (h : ∀ text, utf8 text ≠ bytes) :
    decodeText bytes = .error .typeError := by
  have hinvalid : ¬(⟨bytes.toArray⟩ : ByteArray).IsValidUTF8 := by
    intro hvalid
    apply h ⟨⟨bytes.toArray⟩, hvalid⟩
    simp [utf8]
  have hnone : Js.decode ⟨bytes.toArray⟩ = none := by
    unfold Js.decode String.fromUTF8?
    rw [dif_neg hinvalid]
    rfl
  rw [decodeText, hnone]

theorem decodeText_ok_iff {bytes : List UInt8} {s : String} :
    decodeText bytes = .ok s ↔ ∃ text, utf8 text = bytes ∧ Js.dropBom text = s := by
  by_cases h : ∃ text, utf8 text = bytes
  · obtain ⟨text, rfl⟩ := h
    rw [decodeText_utf8]
    constructor
    · intro h
      cases h
      exact ⟨text, rfl, rfl⟩
    · rintro ⟨text', hbytes, rfl⟩
      rw [utf8_inj hbytes]
  · rw [decodeText_of_not fun text htext => h ⟨text, htext⟩]
    exact ⟨nofun, fun ⟨text, htext, _⟩ => absurd ⟨text, htext⟩ h⟩

theorem decodeText_error_iff {bytes : List UInt8} {e : Thrown} :
    decodeText bytes = .error e ↔ e = .typeError ∧ ∀ text, utf8 text ≠ bytes := by
  by_cases h : ∃ text, utf8 text = bytes
  · obtain ⟨text, rfl⟩ := h
    rw [decodeText_utf8]
    exact ⟨nofun, fun ⟨_, hnot⟩ => absurd rfl (hnot text)⟩
  · have hnot : ∀ text, utf8 text ≠ bytes := fun text htext => h ⟨text, htext⟩
    rw [decodeText_of_not hnot]
    exact ⟨fun h => by cases h; exact ⟨rfl, hnot⟩, fun ⟨he, _⟩ => he ▸ rfl⟩

-- =================================================================== trees

/-- An item as it was written. -/
inductive Node where
  | int (negative : Bool) (w : Width) (n : Nat)
  | bytes (w : Width) (payload : List UInt8)
  | text (w : Width) (payload : String)
  | array (w : Width) (items : List Node)
  | map (w : Width) (entries : List (Node × Node))
  | simple (w : Width) (n : Nat)

mutual

/-- The writing. -/
def Node.write : Node → List UInt8
  | .int negative w n => headBytes (if negative then 1 else 0) w n
  | .bytes w payload => headBytes 2 w payload.length ++ payload
  | .text w payload => headBytes 3 w (utf8 payload).length ++ utf8 payload
  | .array w items => headBytes 4 w items.length ++ Node.writeItems items
  | .map w entries => headBytes 5 w entries.length ++ Node.writeEntries entries
  | .simple w n => headBytes 7 w n

def Node.writeItems : List Node → List UInt8
  | [] => []
  | first :: rest => first.write ++ Node.writeItems rest

def Node.writeEntries : List (Node × Node) → List UInt8
  | [] => []
  | (key, value) :: rest => key.write ++ (value.write ++ Node.writeEntries rest)

end

mutual

/-- What is read. -/
def Node.value : Node → Cbor
  | .int negative _ n => .int (if negative then -1 - n else n)
  | .bytes _ payload => .bytes payload
  | .text _ payload => .text (Js.dropBom payload)
  | .array _ items => .array (Node.values items)
  | .map _ entries => .map (Node.labelled entries)
  | .simple _ n => if n = 20 then .bool false else if n = 21 then .bool true else .null

def Node.values : List Node → List Cbor
  | [] => []
  | first :: rest => first.value :: Node.values rest

/-- The entries whose key can be one. -/
def Node.labelled : List (Node × Node) → List (Label × Cbor)
  | [] => []
  | (key, value) :: rest =>
      match key.value.label with
      | none => Node.labelled rest
      | some label => (label, value.value) :: Node.labelled rest

end

mutual

/-- Every head is wide enough. -/
def Node.Shaped : Node → Prop
  | .int _ w n => w.Fits n
  | .bytes w payload => w.Fits payload.length
  | .text w payload => w.Fits (utf8 payload).length
  | .array w items => w.Fits items.length ∧ Node.ShapedItems items
  | .map w entries => w.Fits entries.length ∧ Node.ShapedEntries entries
  | .simple w n => w.Fits n

def Node.ShapedItems : List Node → Prop
  | [] => True
  | first :: rest => first.Shaped ∧ Node.ShapedItems rest

def Node.ShapedEntries : List (Node × Node) → Prop
  | [] => True
  | (key, value) :: rest => key.Shaped ∧ value.Shaped ∧ Node.ShapedEntries rest

end

/-- Each can be a key, and is not one of these or one before it. -/
def NewKeys : List Label → List Node → Prop
  | _, [] => True
  | seen, key :: rest =>
      ∃ label, key.value.label = some label ∧ label ∉ seen ∧ NewKeys (seen ++ [label]) rest

/-- Within the reader's limits, at a depth that leaves so many levels. -/
def Node.Readable : Nat → Node → Prop
  | 0, _ => False
  | _ + 1, .int _ w n => w.Fits n
  | _ + 1, .bytes w payload => w.Fits payload.length ∧ payload.length ≤ maxBytes
  | _ + 1, .text w payload => w.Fits (utf8 payload).length ∧ (utf8 payload).length ≤ maxBytes
  | levels + 1, .array w items =>
      w.Fits items.length ∧ items.length ≤ maxEntries ∧ ∀ item ∈ items, item.Readable levels
  | levels + 1, .map w entries =>
      w.Fits entries.length ∧ entries.length ≤ maxEntries ∧ NewKeys [] (entries.map (·.1)) ∧
        ∀ e ∈ entries, e.1.Readable levels ∧ e.2.Readable levels
  | _ + 1, .simple w n => w.Fits n ∧ (n = 20 ∨ n = 21 ∨ n = 22)

/-- Reading comes, within the limits, to a text that is no UTF-8. -/
inductive StopsAtText : Nat → List UInt8 → Prop
  | text {levels : Nat} {w : Width} {payload rest : List UInt8} (fits : w.Fits payload.length)
      (within : payload.length ≤ maxBytes) (invalid : ∀ text, utf8 text ≠ payload) :
      StopsAtText (levels + 1) (headBytes 3 w payload.length ++ (payload ++ rest))
  | item {levels n : Nat} {w : Width} {before : List Node} {rest : List UInt8} (fits : w.Fits n)
      (within : n ≤ maxEntries) (readable : ∀ item ∈ before, item.Readable levels)
      (more : before.length < n) (stops : StopsAtText levels rest) :
      StopsAtText (levels + 1) (headBytes 4 w n ++ (Node.writeItems before ++ rest))
  | key {levels n : Nat} {w : Width} {before : List (Node × Node)} {rest : List UInt8}
      (fits : w.Fits n) (within : n ≤ maxEntries) (new : NewKeys [] (before.map (·.1)))
      (readable : ∀ e ∈ before, e.1.Readable levels ∧ e.2.Readable levels)
      (more : before.length < n) (stops : StopsAtText levels rest) :
      StopsAtText (levels + 1) (headBytes 5 w n ++ (Node.writeEntries before ++ rest))
  | value {levels n : Nat} {w : Width} {before : List (Node × Node)} {key : Node}
      {rest : List UInt8}
      (fits : w.Fits n) (within : n ≤ maxEntries) (new : NewKeys [] (before.map (·.1) ++ [key]))
      (readable : ∀ e ∈ before, e.1.Readable levels ∧ e.2.Readable levels)
      (readable_key : key.Readable levels)
      (more : before.length < n) (stops : StopsAtText levels rest) :
      StopsAtText (levels + 1)
        (headBytes 5 w n ++ (Node.writeEntries before ++ (key.write ++ rest)))

-- ============================================================= the strings

theorem readBytes_ok_iff {n : Nat} {bytes rest : List UInt8} {v : Cbor} :
    readBytes n bytes = .ok (v, rest) ↔
      n ≤ maxBytes ∧ ∃ payload, payload.length = n ∧ bytes = payload ++ rest ∧
        v = .bytes payload := by
  unfold readBytes
  split
  next h => exact ⟨nofun, fun ⟨hle, _⟩ => by omega⟩
  next h =>
    rw [bind_ok_iff]
    constructor
    · rintro ⟨⟨out, after⟩, hneed, hok⟩
      obtain ⟨hlen, hbytes⟩ := need_ok_iff.mp hneed
      cases hok
      exact ⟨by omega, out, hlen, hbytes, rfl⟩
    · rintro ⟨-, payload, hlen, hbytes, rfl⟩
      exact ⟨(payload, rest), need_ok_iff.mpr ⟨hlen, hbytes⟩, rfl⟩

theorem readText_ok_iff {n : Nat} {bytes rest : List UInt8} {v : Cbor} :
    readText n bytes = .ok (v, rest) ↔
      n ≤ maxBytes ∧ ∃ text, (utf8 text).length = n ∧ bytes = utf8 text ++ rest ∧
        v = .text (Js.dropBom text) := by
  unfold readText
  split
  next h => exact ⟨nofun, fun ⟨hle, _⟩ => by omega⟩
  next h =>
    rw [bind_ok_iff]
    constructor
    · rintro ⟨⟨out, after⟩, hneed, hok⟩
      obtain ⟨hlen, hbytes⟩ := need_ok_iff.mp hneed
      obtain ⟨s, hdecode, hok⟩ := bind_ok_iff.mp hok
      obtain ⟨text, htext, rfl⟩ := decodeText_ok_iff.mp hdecode
      subst htext
      cases hok
      exact ⟨by omega, text, hlen, hbytes, rfl⟩
    · rintro ⟨-, text, hlen, hbytes, rfl⟩
      refine ⟨(utf8 text, rest), need_ok_iff.mpr ⟨hlen, hbytes⟩, ?_⟩
      rw [decodeText_utf8]
      rfl

theorem readBytes_ne_typeError (n : Nat) (bytes : List UInt8) :
    readBytes n bytes ≠ .error .typeError := by
  unfold readBytes
  split
  next => exact nofun
  next =>
    intro h
    rcases bind_error_iff.mp h with h | ⟨a, -, h⟩
    · exact need_ne_typeError _ _ h
    · cases h

theorem readText_typeError_iff {n : Nat} {bytes : List UInt8} :
    readText n bytes = .error .typeError ↔
      n ≤ maxBytes ∧ ∃ payload rest, payload.length = n ∧ bytes = payload ++ rest ∧
        ∀ text, utf8 text ≠ payload := by
  unfold readText
  split
  next h => exact ⟨nofun, fun ⟨hle, _⟩ => by omega⟩
  next h =>
    rw [bind_error_iff]
    constructor
    · rintro (hneed | ⟨⟨out, after⟩, hneed, herr⟩)
      · exact absurd hneed (need_ne_typeError _ _)
      · obtain ⟨hlen, hbytes⟩ := need_ok_iff.mp hneed
        rcases bind_error_iff.mp herr with herr | ⟨s, -, herr⟩
        · exact ⟨by omega, out, after, hlen, hbytes, (decodeText_error_iff.mp herr).2⟩
        · cases herr
    · rintro ⟨-, payload, rest, hlen, hbytes, hinvalid⟩
      refine .inr ⟨(payload, rest), need_ok_iff.mpr ⟨hlen, hbytes⟩, bind_error_iff.mpr (.inl ?_)⟩
      exact decodeText_error_iff.mpr ⟨rfl, hinvalid⟩

theorem simple_ok_iff {n : Nat} {v : Cbor} :
    simple n = .ok v ↔
      (n = 20 ∨ n = 21 ∨ n = 22) ∧
        v = if n = 20 then .bool false else if n = 21 then .bool true else .null := by
  unfold simple
  constructor
  · intro h
    split at h
    next h20 => cases h; exact ⟨.inl h20, (if_pos h20).symm⟩
    next h20 =>
      split at h
      next h21 => cases h; exact ⟨.inr (.inl h21), by rw [if_neg h20, if_pos h21]⟩
      next h21 =>
        split at h
        next h22 => cases h; exact ⟨.inr (.inr h22), by rw [if_neg h20, if_neg h21]⟩
        next => cases h
  · rintro ⟨rfl | rfl | rfl, rfl⟩ <;> rfl

theorem simple_ne_typeError (n : Nat) : simple n ≠ .error .typeError := by
  unfold simple
  split
  next => exact nofun
  next =>
    split
    next => exact nofun
    next => split <;> exact nofun

-- ======================================================= arrays and maps

/-- It reads the trees of so many levels. -/
def Reads (levels : Nat) (read : List UInt8 → Except Thrown (Cbor × List UInt8)) : Prop :=
  ∀ bytes v rest, read bytes = .ok (v, rest) ↔
    ∃ node : Node, node.Readable levels ∧ bytes = node.write ++ rest ∧ node.value = v

/-- It throws what is not its own at the texts that are no UTF-8. -/
def Throws (levels : Nat) (read : List UInt8 → Except Thrown (Cbor × List UInt8)) : Prop :=
  ∀ bytes, read bytes = .error .typeError ↔ StopsAtText levels bytes

section Lists

variable {levels : Nat} {read : List UInt8 → Except Thrown (Cbor × List UInt8)}

theorem readItems_ok_iff (hread : Reads levels read) {n : Nat} {bytes rest : List UInt8}
    {vs : List Cbor} :
    readItems read n bytes = .ok (vs, rest) ↔
      ∃ items : List Node, items.length = n ∧ (∀ item ∈ items, item.Readable levels) ∧
        bytes = Node.writeItems items ++ rest ∧ Node.values items = vs := by
  induction n generalizing bytes vs with
  | zero =>
      constructor
      · intro h
        cases h
        exact ⟨[], rfl, by simp, rfl, rfl⟩
      · rintro ⟨items, hlen, -, rfl, rfl⟩
        cases List.length_eq_zero_iff.mp hlen
        rfl
  | succ n ih =>
      rw [readItems, bind_ok_iff]
      constructor
      · rintro ⟨⟨v, after⟩, hfirst, h⟩
        obtain ⟨⟨vs', after'⟩, hrest, h⟩ := bind_ok_iff.mp h
        obtain ⟨node, hnode, rfl, rfl⟩ := (hread _ _ _).mp hfirst
        cases h
        obtain ⟨items, hlen, hitems, hafter, rfl⟩ := ih.mp hrest
        refine ⟨node :: items, by simp [hlen], List.forall_mem_cons.mpr ⟨hnode, hitems⟩, ?_, rfl⟩
        rw [Node.writeItems, List.append_assoc, ← hafter]
      · rintro ⟨items, hlen, hitems, rfl, rfl⟩
        obtain _ | ⟨node, items⟩ := items
        · cases hlen
        · obtain ⟨hnode, hitems⟩ := List.forall_mem_cons.mp hitems
          refine ⟨(node.value, Node.writeItems items ++ rest),
            (hread _ _ _).mpr ⟨node, hnode, by rw [Node.writeItems, List.append_assoc], rfl⟩, ?_⟩
          refine bind_ok_iff.mpr ⟨(Node.values items, rest), ?_, rfl⟩
          exact ih.mpr ⟨items, by simpa using hlen, hitems, rfl, rfl⟩

theorem readItems_typeError_iff (hread : Reads levels read) (hthrows : Throws levels read)
    {n : Nat} {bytes : List UInt8} :
    readItems read n bytes = .error .typeError ↔
      ∃ (before : List Node) (rest : List UInt8), before.length < n ∧
        (∀ item ∈ before, item.Readable levels) ∧ bytes = Node.writeItems before ++ rest ∧
        StopsAtText levels rest := by
  induction n generalizing bytes with
  | zero =>
      constructor
      · intro h
        cases h
      · rintro ⟨before, rest, hlen, -⟩
        omega
  | succ n ih =>
      rw [readItems, bind_error_iff]
      constructor
      · rintro (hfirst | ⟨⟨v, after⟩, hfirst, h⟩)
        · exact ⟨[], bytes, by simp, by simp, rfl, (hthrows _).mp hfirst⟩
        · obtain ⟨node, hnode, rfl, rfl⟩ := (hread _ _ _).mp hfirst
          rcases bind_error_iff.mp h with h | ⟨r, -, h⟩
          · obtain ⟨before, rest, hlen, hbefore, hafter, hstops⟩ := ih.mp h
            refine ⟨node :: before, rest, by simp; omega,
              List.forall_mem_cons.mpr ⟨hnode, hbefore⟩, ?_, hstops⟩
            rw [Node.writeItems, List.append_assoc, ← hafter]
          · cases h
      · rintro ⟨before, rest, hlen, hbefore, rfl, hstops⟩
        obtain _ | ⟨node, before⟩ := before
        · exact .inl ((hthrows _).mpr hstops)
        · obtain ⟨hnode, hbefore⟩ := List.forall_mem_cons.mp hbefore
          refine .inr ⟨(node.value, Node.writeItems before ++ rest),
            (hread _ _ _).mpr ⟨node, hnode, by rw [Node.writeItems, List.append_assoc], rfl⟩, ?_⟩
          refine bind_error_iff.mpr (.inl (ih.mpr ⟨before, rest, ?_, hbefore, rfl, hstops⟩))
          simp only [List.length_cons] at hlen
          omega

theorem newKey_ok_iff {out : List (Label × Cbor)} {key : Cbor} {label : Label} :
    newKey out key = .ok label ↔ key.label = some label ∧ label ∉ out.map (·.1) := by
  have hany : ∀ l : Label, out.any (·.1 = l) = true ↔ l ∈ out.map (·.1) := by
    intro l
    simp [List.any_eq_true]
  unfold newKey
  cases key.label with
  | none => exact ⟨nofun, fun h => by cases h.1⟩
  | some l =>
      simp only [Option.some.injEq]
      split
      next h => exact ⟨nofun, fun ⟨hl, hnot⟩ => absurd (hl ▸ (hany l).mp h) hnot⟩
      next h =>
        constructor
        · intro hl
          cases hl
          exact ⟨rfl, fun hmem => h ((hany _).mpr hmem)⟩
        · rintro ⟨rfl, -⟩
          rfl

theorem newKey_ne_typeError (out : List (Label × Cbor)) (key : Cbor) :
    newKey out key ≠ .error .typeError := by
  unfold newKey
  split
  next => exact nofun
  next => split <;> exact nofun

theorem readEntries_ok_iff (hread : Reads levels read) {n : Nat} {bytes rest : List UInt8}
    {out all : List (Label × Cbor)} :
    readEntries read n out bytes = .ok (all, rest) ↔
      ∃ entries : List (Node × Node), entries.length = n ∧
        NewKeys (out.map (·.1)) (entries.map (·.1)) ∧
        (∀ e ∈ entries, e.1.Readable levels ∧ e.2.Readable levels) ∧
        bytes = Node.writeEntries entries ++ rest ∧ out ++ Node.labelled entries = all := by
  induction n generalizing bytes out with
  | zero =>
      constructor
      · intro h
        cases h
        exact ⟨[], rfl, trivial, by simp, rfl, by simp [Node.labelled]⟩
      · rintro ⟨entries, hlen, -, -, rfl, rfl⟩
        cases List.length_eq_zero_iff.mp hlen
        simp [readEntries, Node.labelled, Node.writeEntries]
  | succ n ih =>
      rw [readEntries, bind_ok_iff]
      constructor
      · rintro ⟨⟨k, after⟩, hkey, h⟩
        obtain ⟨label, hlabel, h⟩ := bind_ok_iff.mp h
        obtain ⟨⟨v, after'⟩, hvalue, h⟩ := bind_ok_iff.mp h
        obtain ⟨key, hk, rfl, rfl⟩ := (hread _ _ _).mp hkey
        obtain ⟨value, hv, hafter, rfl⟩ := (hread _ _ _).mp hvalue
        obtain ⟨hlabel, hnew⟩ := newKey_ok_iff.mp hlabel
        obtain ⟨entries, hlen, hkeys, hentries, hafter', rfl⟩ := ih.mp h
        refine ⟨(key, value) :: entries, by simp [hlen], ⟨label, hlabel, hnew, by simpa using hkeys⟩,
          List.forall_mem_cons.mpr ⟨⟨hk, hv⟩, hentries⟩, ?_, ?_⟩
        · simp only at hafter hafter'
          rw [hafter, hafter', Node.writeEntries, List.append_assoc, List.append_assoc]
        · simp [Node.labelled, hlabel]
      · rintro ⟨entries, hlen, hkeys, hentries, rfl, rfl⟩
        obtain _ | ⟨⟨key, value⟩, entries⟩ := entries
        · cases hlen
        · obtain ⟨⟨hk, hv⟩, hentries⟩ := List.forall_mem_cons.mp hentries
          obtain ⟨label, hlabel, hnew, hkeys⟩ := hkeys
          refine ⟨(key.value, value.write ++ (Node.writeEntries entries ++ rest)),
            (hread _ _ _).mpr ⟨key, hk, ?_, rfl⟩, ?_⟩
          · rw [Node.writeEntries, List.append_assoc, List.append_assoc]
          refine bind_ok_iff.mpr ⟨label, newKey_ok_iff.mpr ⟨hlabel, hnew⟩, ?_⟩
          refine bind_ok_iff.mpr ⟨(value.value, Node.writeEntries entries ++ rest),
            (hread _ _ _).mpr ⟨value, hv, rfl, rfl⟩, ?_⟩
          refine ih.mpr ⟨entries, by simpa using hlen, by simpa using hkeys, hentries, rfl, ?_⟩
          simp [Node.labelled, hlabel]

/-- Before the key of an entry, or before its value. -/
theorem readEntries_typeError_iff (hread : Reads levels read) (hthrows : Throws levels read)
    {n : Nat} {bytes : List UInt8} {out : List (Label × Cbor)} :
    readEntries read n out bytes = .error .typeError ↔
      ∃ before : List (Node × Node), before.length < n ∧
        (∀ e ∈ before, e.1.Readable levels ∧ e.2.Readable levels) ∧ ∃ rest,
        StopsAtText levels rest ∧
        (NewKeys (out.map (·.1)) (before.map (·.1)) ∧ bytes = Node.writeEntries before ++ rest ∨
          ∃ key : Node, key.Readable levels ∧
            NewKeys (out.map (·.1)) (before.map (·.1) ++ [key]) ∧
            bytes = Node.writeEntries before ++ (key.write ++ rest)) := by
  induction n generalizing bytes out with
  | zero =>
      constructor
      · intro h
        cases h
      · rintro ⟨before, hlen, -⟩
        omega
  | succ n ih =>
      rw [readEntries, bind_error_iff]
      constructor
      · rintro (hkey | ⟨⟨k, after⟩, hkey, h⟩)
        · exact ⟨[], by simp, by simp, bytes, (hthrows _).mp hkey, .inl ⟨trivial, rfl⟩⟩
        obtain ⟨key, hk, rfl, rfl⟩ := (hread _ _ _).mp hkey
        rcases bind_error_iff.mp h with h | ⟨label, hlabel, h⟩
        · exact absurd h (newKey_ne_typeError _ _)
        obtain ⟨hlabel, hnew⟩ := newKey_ok_iff.mp hlabel
        rcases bind_error_iff.mp h with hvalue | ⟨⟨v, after'⟩, hvalue, hmore⟩
        · exact ⟨[], by simp, by simp, after, (hthrows _).mp hvalue,
            .inr ⟨key, hk, ⟨label, hlabel, hnew, trivial⟩, rfl⟩⟩
        obtain ⟨value, hv, hafter, rfl⟩ := (hread _ _ _).mp hvalue
        simp only at hafter
        subst hafter
        obtain ⟨before, hlen, hbefore, rest, hstops, hcases⟩ := ih.mp hmore
        refine ⟨(key, value) :: before, by simp; omega,
          List.forall_mem_cons.mpr ⟨⟨hk, hv⟩, hbefore⟩, rest, hstops, ?_⟩
        simp only [List.map_append, List.map_cons, List.map_nil] at hcases
        rcases hcases with ⟨hkeys, rfl⟩ | ⟨key', hk', hkeys, rfl⟩
        · refine .inl ⟨⟨label, hlabel, hnew, hkeys⟩, ?_⟩
          rw [Node.writeEntries, List.append_assoc, List.append_assoc]
        · refine .inr ⟨key', hk', ⟨label, hlabel, hnew, hkeys⟩, ?_⟩
          rw [Node.writeEntries, List.append_assoc, List.append_assoc]
      · rintro ⟨before, hlen, hbefore, rest, hstops, hcases⟩
        obtain _ | ⟨⟨key, value⟩, before⟩ := before
        · rcases hcases with ⟨-, rfl⟩ | ⟨key, hk, ⟨label, hlabel, hnew, -⟩, rfl⟩
          · exact .inl ((hthrows _).mpr hstops)
          · refine .inr ⟨(key.value, rest), (hread _ _ _).mpr ⟨key, hk, rfl, rfl⟩, ?_⟩
            refine bind_error_iff.mpr (.inr ⟨label, newKey_ok_iff.mpr ⟨hlabel, hnew⟩, ?_⟩)
            exact bind_error_iff.mpr (.inl ((hthrows _).mpr hstops))
        · obtain ⟨⟨hk, hv⟩, hbefore⟩ := List.forall_mem_cons.mp hbefore
          have hrest : ∃ label tail, key.value.label = some label ∧ label ∉ out.map (·.1) ∧
              bytes = key.write ++ (value.write ++ tail) ∧
              readEntries read n (out ++ [(label, value.value)]) tail
                = .error .typeError := by
            rcases hcases with ⟨⟨label, hlabel, hnew, hkeys⟩, rfl⟩
              | ⟨key', hk', ⟨label, hlabel, hnew, hkeys⟩, rfl⟩
            · refine ⟨label, Node.writeEntries before ++ rest, hlabel, hnew, ?_, ?_⟩
              · rw [Node.writeEntries, List.append_assoc, List.append_assoc]
              · refine ih.mpr ⟨before, by simp at hlen; omega, hbefore, rest, hstops,
                  .inl ⟨by simpa using hkeys, rfl⟩⟩
            · refine ⟨label, Node.writeEntries before ++ (key'.write ++ rest), hlabel, hnew,
                ?_, ?_⟩
              · rw [Node.writeEntries, List.append_assoc, List.append_assoc]
              · refine ih.mpr ⟨before, by simp at hlen; omega, hbefore, rest, hstops,
                  .inr ⟨key', hk', by simpa using hkeys, rfl⟩⟩
          obtain ⟨label, tail, hlabel, hnew, rfl, hthrown⟩ := hrest
          refine .inr ⟨(key.value, value.write ++ tail), (hread _ _ _).mpr ⟨key, hk, rfl, rfl⟩, ?_⟩
          refine bind_error_iff.mpr (.inr ⟨label, newKey_ok_iff.mpr ⟨hlabel, hnew⟩, ?_⟩)
          refine bind_error_iff.mpr (.inr ⟨(value.value, tail),
            (hread _ _ _).mpr ⟨value, hv, rfl, rfl⟩, hthrown⟩)

end Lists

-- ================================================================ the reader

theorem item_headBytes {levels major n : Nat} {w : Width} (hw : w.Fits n) (hmajor : major < 8)
    (bytes : List UInt8) :
    item (levels + 1) (headBytes major w n ++ bytes)
      = content (item levels) major n bytes := by
  have hhead : head (headBytes major w n ++ bytes) = .ok ((major, n), bytes) :=
    head_ok_iff.mpr ⟨w, hw, hmajor, rfl⟩
  rw [item, hhead]
  rfl

/-- What follows a head is the rest of the writing of a tree. -/
theorem content_ok {levels major n : Nat} {w : Width} {bytes rest : List UInt8} {v : Cbor}
    (hread : Reads levels (item levels)) (hw : w.Fits n)
    (h : content (item levels) major n bytes = .ok (v, rest)) :
    ∃ node : Node, node.Readable (levels + 1) ∧
      headBytes major w n ++ bytes = node.write ++ rest ∧ node.value = v := by
  match major with
  | 0 =>
      cases h
      exact ⟨.int false w n, hw, rfl, rfl⟩
  | 1 =>
      cases h
      exact ⟨.int true w n, hw, rfl, rfl⟩
  | 2 =>
      obtain ⟨hle, payload, rfl, rfl, rfl⟩ := readBytes_ok_iff.mp h
      exact ⟨.bytes w payload, ⟨hw, hle⟩, by rw [Node.write, List.append_assoc], rfl⟩
  | 3 =>
      obtain ⟨hle, text, rfl, rfl, rfl⟩ := readText_ok_iff.mp h
      exact ⟨.text w text, ⟨hw, hle⟩, by rw [Node.write, List.append_assoc], rfl⟩
  | 4 =>
      simp only [content, readArray] at h
      split at h
      next => cases h
      next hle =>
        obtain ⟨⟨vs, after⟩, hvs, h⟩ := bind_ok_iff.mp h
        cases h
        obtain ⟨items, rfl, hitems, rfl, rfl⟩ := (readItems_ok_iff hread).mp hvs
        exact ⟨.array w items, ⟨hw, by omega, hitems⟩, by rw [Node.write, List.append_assoc], rfl⟩
  | 5 =>
      simp only [content, readMap] at h
      split at h
      next => cases h
      next hle =>
        obtain ⟨⟨all, after⟩, hall, h⟩ := bind_ok_iff.mp h
        cases h
        obtain ⟨entries, rfl, hkeys, hentries, rfl, rfl⟩ := (readEntries_ok_iff hread).mp hall
        exact ⟨.map w entries, ⟨hw, by omega, hkeys, hentries⟩,
          by rw [Node.write, List.append_assoc], rfl⟩
  | 6 => cases h
  | 7 =>
      obtain ⟨v', hsimple, h⟩ := bind_ok_iff.mp h
      cases h
      obtain ⟨hn, rfl⟩ := simple_ok_iff.mp hsimple
      exact ⟨.simple w n, ⟨hw, hn⟩, rfl, rfl⟩
  | _ + 8 => cases h

/-- A tree within the limits is read. -/
theorem item_write {levels : Nat} (hread : Reads levels (item levels)) {node : Node}
    (h : node.Readable (levels + 1)) (rest : List UInt8) :
    item (levels + 1) (node.write ++ rest) = .ok (node.value, rest) := by
  cases node with
  | int negative w n =>
      cases negative
      · exact (item_headBytes h (by omega) rest : item _ (headBytes 0 w n ++ rest) = _)
      · exact (item_headBytes h (by omega) rest : item _ (headBytes 1 w n ++ rest) = _)
  | bytes w payload =>
      obtain ⟨hw, hle⟩ := h
      rw [Node.write, List.append_assoc, item_headBytes hw (by omega)]
      exact readBytes_ok_iff.mpr ⟨hle, payload, rfl, rfl, rfl⟩
  | text w payload =>
      obtain ⟨hw, hle⟩ := h
      rw [Node.write, List.append_assoc, item_headBytes hw (by omega)]
      exact readText_ok_iff.mpr ⟨hle, payload, rfl, rfl, rfl⟩
  | array w items =>
      obtain ⟨hw, hle, hitems⟩ := h
      have hread' : readItems (item levels) items.length (Node.writeItems items ++ rest)
          = .ok (Node.values items, rest) :=
        (readItems_ok_iff hread).mpr ⟨items, rfl, hitems, rfl, rfl⟩
      rw [Node.write, List.append_assoc, item_headBytes hw (by omega)]
      simp only [content, readArray]
      rw [if_neg (by omega), hread']
      rfl
  | map w entries =>
      obtain ⟨hw, hle, hkeys, hentries⟩ := h
      have hread' : readEntries (item levels) entries.length [] (Node.writeEntries entries ++ rest)
          = .ok (Node.labelled entries, rest) :=
        (readEntries_ok_iff hread).mpr ⟨entries, rfl, hkeys, hentries, rfl, rfl⟩
      rw [Node.write, List.append_assoc, item_headBytes hw (by omega)]
      simp only [content, readMap]
      rw [if_neg (by omega), hread']
      rfl
  | simple w n =>
      obtain ⟨hw, hn⟩ := h
      have hsimple : simple n = .ok (Node.value (.simple w n)) := simple_ok_iff.mpr ⟨hn, rfl⟩
      rw [Node.write, item_headBytes hw (by omega)]
      simp only [content]
      rw [hsimple]
      rfl

/-- **What the reader accepts is the writing of a tree within its limits.** -/
theorem item_reads (levels : Nat) : Reads levels (item levels) := by
  induction levels with
  | zero => exact fun bytes v rest => ⟨nofun, fun ⟨_, h, _⟩ => h.elim⟩
  | succ levels hread =>
      intro bytes v rest
      constructor
      · intro h
        obtain ⟨⟨⟨major, n⟩, after⟩, hhead, hcontent⟩ := bind_ok_iff.mp h
        obtain ⟨w, hw, -, rfl⟩ := head_ok_iff.mp hhead
        exact content_ok hread hw hcontent
      · rintro ⟨node, hnode, rfl, rfl⟩
        exact item_write hread hnode rest

theorem content_typeError {levels major n : Nat} {w : Width} {bytes : List UInt8}
    (hthrows : Throws levels (item levels)) (hw : w.Fits n)
    (h : content (item levels) major n bytes = .error .typeError) :
    StopsAtText (levels + 1) (headBytes major w n ++ bytes) := by
  match major with
  | 0 => cases h
  | 1 => cases h
  | 2 => exact absurd h (readBytes_ne_typeError _ _)
  | 3 =>
      obtain ⟨hle, payload, rest, rfl, rfl, hinvalid⟩ := readText_typeError_iff.mp h
      exact .text hw hle hinvalid
  | 4 =>
      simp only [content, readArray] at h
      split at h
      next => cases h
      next hle =>
        rcases bind_error_iff.mp h with h | ⟨_, -, h⟩
        · obtain ⟨before, rest, hmore, hbefore, rfl, hstops⟩ :=
            (readItems_typeError_iff (item_reads levels) hthrows).mp h
          exact .item hw (by omega) hbefore hmore hstops
        · cases h
  | 5 =>
      simp only [content, readMap] at h
      split at h
      next => cases h
      next hle =>
        rcases bind_error_iff.mp h with h | ⟨_, -, h⟩
        · obtain ⟨before, hmore, hbefore, rest, hstops, ⟨hkeys, rfl⟩ | ⟨key, hk, hkeys, rfl⟩⟩ :=
            (readEntries_typeError_iff (item_reads levels) hthrows).mp h
          · exact .key hw (by omega) hkeys hbefore hmore hstops
          · exact .value hw (by omega) hkeys hbefore hk hmore hstops
        · cases h
  | 6 => cases h
  | 7 =>
      rcases bind_error_iff.mp h with h | ⟨_, -, h⟩
      · exact absurd h (simple_ne_typeError n)
      · cases h
  | _ + 8 => cases h

/-- **The reader throws what is not its own where it comes to a text that is
no UTF-8, and nowhere else.** -/
theorem item_throws (levels : Nat) : Throws levels (item levels) := by
  induction levels with
  | zero => exact fun bytes => ⟨nofun, nofun⟩
  | succ levels hthrows =>
      intro bytes
      constructor
      · intro h
        rcases bind_error_iff.mp h with hhead | ⟨⟨⟨major, n⟩, after⟩, hhead, hcontent⟩
        · exact absurd hhead (head_ne_typeError _)
        · obtain ⟨w, hw, -, rfl⟩ := head_ok_iff.mp hhead
          exact content_typeError hthrows hw hcontent
      · rintro (⟨hw, hle, hinvalid⟩ | ⟨hw, hle, hbefore, hmore, hstops⟩
          | ⟨hw, hle, hkeys, hbefore, hmore, hstops⟩ | ⟨hw, hle, hkeys, hbefore, hk, hmore, hstops⟩)
        · rw [item_headBytes hw (by omega)]
          exact readText_typeError_iff.mpr ⟨hle, _, _, rfl, rfl, hinvalid⟩
        · rw [item_headBytes hw (by omega)]
          simp only [content, readArray]
          rw [if_neg (by omega)]
          refine bind_error_iff.mpr (.inl ?_)
          exact (readItems_typeError_iff (item_reads levels) hthrows).mpr
            ⟨_, _, hmore, hbefore, rfl, hstops⟩
        · rw [item_headBytes hw (by omega)]
          simp only [content, readMap]
          rw [if_neg (by omega)]
          refine bind_error_iff.mpr (.inl ?_)
          exact (readEntries_typeError_iff (item_reads levels) hthrows).mpr
            ⟨_, hmore, hbefore, _, hstops, .inl ⟨hkeys, rfl⟩⟩
        · rw [item_headBytes hw (by omega)]
          simp only [content, readMap]
          rw [if_neg (by omega)]
          refine bind_error_iff.mpr (.inl ?_)
          exact (readEntries_typeError_iff (item_reads levels) hthrows).mpr
            ⟨_, hmore, hbefore, _, hstops, .inr ⟨_, hk, hkeys, rfl⟩⟩

theorem decodeCbor_ok_iff {bytes : List UInt8} {v : Cbor} :
    decodeCbor bytes = .ok v ↔
      ∃ node : Node, node.Readable (maxDepth + 1) ∧ node.write = bytes ∧ node.value = v := by
  unfold decodeCbor
  rw [bind_ok_iff]
  constructor
  · rintro ⟨⟨v', rest⟩, hitem, h⟩
    obtain ⟨node, hnode, rfl, rfl⟩ := (item_reads _ _ _ _).mp hitem
    split at h
    next hrest =>
      cases h
      cases hrest
      exact ⟨node, hnode, (List.append_nil _).symm, rfl⟩
    next => cases h
  · rintro ⟨node, hnode, rfl, rfl⟩
    exact ⟨(node.value, []), (item_reads _ _ _ _).mpr ⟨node, hnode, by simp, rfl⟩, rfl⟩

theorem decodeCbor_typeError_iff {bytes : List UInt8} :
    decodeCbor bytes = .error .typeError ↔ StopsAtText (maxDepth + 1) bytes := by
  unfold decodeCbor
  rw [bind_error_iff, ← item_throws]
  constructor
  · rintro (h | ⟨r, -, h⟩)
    · exact h
    · split at h <;> cases h
  · exact .inl

-- ============================================================ one tree only

/-- Induction on a tree. -/
theorem Node.children {motive : Node → Prop}
    (int : ∀ negative w n, motive (.int negative w n))
    (bytes : ∀ w payload, motive (.bytes w payload))
    (text : ∀ w payload, motive (.text w payload))
    (array : ∀ w items, (∀ item ∈ items, motive item) → motive (.array w items))
    (map : ∀ w entries, (∀ e ∈ entries, motive e.1 ∧ motive e.2) → motive (.map w entries))
    (simple : ∀ w n, motive (.simple w n)) (node : Node) : motive node :=
  @Node.rec motive (fun items => ∀ item ∈ items, motive item)
    (fun entries => ∀ e ∈ entries, motive e.1 ∧ motive e.2) (fun e => motive e.1 ∧ motive e.2)
    int bytes text array map simple
    (by simp) (fun _ _ hfirst hrest => List.forall_mem_cons.mpr ⟨hfirst, hrest⟩)
    (by simp) (fun _ _ hfirst hrest => List.forall_mem_cons.mpr ⟨hfirst, hrest⟩)
    (fun _ _ hkey hvalue => ⟨hkey, hvalue⟩) node

theorem Node.shapedItems_iff {items : List Node} :
    Node.ShapedItems items ↔ ∀ item ∈ items, item.Shaped := by
  induction items with
  | nil => simp [Node.ShapedItems]
  | cons first rest ih => rw [Node.ShapedItems, ih, List.forall_mem_cons]

theorem Node.shapedEntries_iff {entries : List (Node × Node)} :
    Node.ShapedEntries entries ↔ ∀ e ∈ entries, e.1.Shaped ∧ e.2.Shaped := by
  induction entries with
  | nil => simp [Node.ShapedEntries]
  | cons first rest ih =>
      obtain ⟨key, value⟩ := first
      rw [Node.ShapedEntries, ih, List.forall_mem_cons, and_assoc]

theorem Node.Readable.shaped {levels : Nat} {node : Node} (h : node.Readable levels) :
    node.Shaped := by
  induction levels generalizing node with
  | zero => exact h.elim
  | succ levels ih =>
      cases node with
      | int negative w n => exact h
      | bytes w payload => exact h.1
      | text w payload => exact h.1
      | array w items => exact ⟨h.1, Node.shapedItems_iff.mpr fun item hmem => ih (h.2.2 item hmem)⟩
      | map w entries =>
          exact ⟨h.1, Node.shapedEntries_iff.mpr fun e hmem =>
            ⟨ih (h.2.2.2 e hmem).1, ih (h.2.2.2 e hmem).2⟩⟩
      | simple w n => exact h.1

def Node.major : Node → Nat
  | .int negative _ _ => if negative then 1 else 0
  | .bytes _ _ => 2
  | .text _ _ => 3
  | .array _ _ => 4
  | .map _ _ => 5
  | .simple _ _ => 7

def Node.width : Node → Width
  | .int _ w _ | .bytes w _ | .text w _ | .array w _ | .map w _ | .simple w _ => w

def Node.count : Node → Nat
  | .int _ _ n => n
  | .bytes _ payload => payload.length
  | .text _ payload => (utf8 payload).length
  | .array _ items => items.length
  | .map _ entries => entries.length
  | .simple _ n => n

def Node.body : Node → List UInt8
  | .int _ _ _ => []
  | .bytes _ payload => payload
  | .text _ payload => utf8 payload
  | .array _ items => Node.writeItems items
  | .map _ entries => Node.writeEntries entries
  | .simple _ _ => []

theorem Node.write_eq (node : Node) :
    node.write = headBytes node.major node.width node.count ++ node.body := by
  cases node with
  | int | simple => exact (List.append_nil _).symm
  | bytes | text | array | map => rfl

theorem Node.Shaped.fits {node : Node} (h : node.Shaped) : node.width.Fits node.count := by
  cases node with
  | int | bytes | text | simple => exact h
  | array | map => exact h.1

theorem Node.major_lt (node : Node) : node.major < 8 := by
  cases node with
  | int negative w n => cases negative <;> simp [Node.major]
  | bytes | text | array | map | simple => simp [Node.major]

/-- Two writings that go on alike are of one head, and go on alike after it. -/
theorem Node.head_append {node node' : Node} {rest rest' : List UInt8} (h : node.Shaped)
    (h' : node'.Shaped) (heq : node.write ++ rest = node'.write ++ rest') :
    node.major = node'.major ∧ node.width = node'.width ∧ node.count = node'.count ∧
      node.body ++ rest = node'.body ++ rest' := by
  rw [Node.write_eq, Node.write_eq, List.append_assoc, List.append_assoc] at heq
  exact headBytes_append h.fits h'.fits node.major_lt node'.major_lt heq

/-- A writing is of one tree, whatever comes after it. -/
def Node.Alone (node : Node) : Prop :=
  ∀ (node' : Node) (rest rest' : List UInt8), node.Shaped → node'.Shaped →
    node.write ++ rest = node'.write ++ rest' → node = node' ∧ rest = rest'

theorem Node.writeItems_append {items items' : List Node} {rest rest' : List UInt8}
    (halone : ∀ item ∈ items, item.Alone) (h : ∀ item ∈ items, item.Shaped)
    (h' : ∀ item ∈ items', item.Shaped) (hlen : items.length = items'.length)
    (heq : Node.writeItems items ++ rest = Node.writeItems items' ++ rest') :
    items = items' ∧ rest = rest' := by
  induction items generalizing items' with
  | nil =>
      cases List.length_eq_zero_iff.mp hlen.symm
      exact ⟨rfl, heq⟩
  | cons first items ih =>
      match items' with
      | first' :: items' =>
          rw [List.forall_mem_cons] at h h' halone
          rw [Node.writeItems, Node.writeItems, List.append_assoc, List.append_assoc] at heq
          obtain ⟨rfl, hrest⟩ := halone.1 _ _ _ h.1 h'.1 heq
          obtain ⟨rfl, rfl⟩ := ih halone.2 h.2 h'.2 (by simpa using hlen) hrest
          exact ⟨rfl, rfl⟩

theorem Node.writeEntries_append {entries entries' : List (Node × Node)}
    {rest rest' : List UInt8} (halone : ∀ e ∈ entries, e.1.Alone ∧ e.2.Alone)
    (h : ∀ e ∈ entries, e.1.Shaped ∧ e.2.Shaped) (h' : ∀ e ∈ entries', e.1.Shaped ∧ e.2.Shaped)
    (hlen : entries.length = entries'.length)
    (heq : Node.writeEntries entries ++ rest = Node.writeEntries entries' ++ rest') :
    entries = entries' ∧ rest = rest' := by
  induction entries generalizing entries' with
  | nil =>
      cases List.length_eq_zero_iff.mp hlen.symm
      exact ⟨rfl, heq⟩
  | cons first entries ih =>
      match entries' with
      | first' :: entries' =>
          obtain ⟨key, value⟩ := first
          obtain ⟨key', value'⟩ := first'
          rw [List.forall_mem_cons] at h h' halone
          simp only [Node.writeEntries, List.append_assoc] at heq
          obtain ⟨rfl, hvalue⟩ := halone.1.1 _ _ _ h.1.1 h'.1.1 heq
          obtain ⟨rfl, hrest⟩ := halone.1.2 _ _ _ h.1.2 h'.1.2 hvalue
          obtain ⟨rfl, rfl⟩ := ih halone.2 h.2 h'.2 (by simpa using hlen) hrest
          exact ⟨rfl, rfl⟩

theorem Node.alone (node : Node) : node.Alone := by
  induction node using Node.children with
  | int negative w n =>
      intro node' rest rest' h h' heq
      obtain ⟨hmajor, hwidth, hcount, hbody⟩ := Node.head_append h h' heq
      cases node' with
      | int negative' w' n' =>
          cases hwidth
          cases hcount
          cases negative <;> cases negative' <;> simp_all [Node.major, Node.body]
      | bytes | text | array | map | simple =>
          cases negative <;> simp [Node.major] at hmajor
  | bytes w payload =>
      intro node' rest rest' h h' heq
      obtain ⟨hmajor, hwidth, hcount, hbody⟩ := Node.head_append h h' heq
      cases node' with
      | bytes w' payload' =>
          cases hwidth
          obtain ⟨rfl, rfl⟩ := List.append_inj hbody hcount
          exact ⟨rfl, rfl⟩
      | int negative' w' n' => cases negative' <;> simp [Node.major] at hmajor
      | text | array | map | simple => simp [Node.major] at hmajor
  | text w payload =>
      intro node' rest rest' h h' heq
      obtain ⟨hmajor, hwidth, hcount, hbody⟩ := Node.head_append h h' heq
      cases node' with
      | text w' payload' =>
          cases hwidth
          obtain ⟨hpayload, rfl⟩ := List.append_inj hbody hcount
          cases utf8_inj hpayload
          exact ⟨rfl, rfl⟩
      | int negative' w' n' => cases negative' <;> simp [Node.major] at hmajor
      | bytes | array | map | simple => simp [Node.major] at hmajor
  | array w items ih =>
      intro node' rest rest' h h' heq
      obtain ⟨hmajor, hwidth, hcount, hbody⟩ := Node.head_append h h' heq
      cases node' with
      | array w' items' =>
          cases hwidth
          obtain ⟨rfl, rfl⟩ := Node.writeItems_append ih (Node.shapedItems_iff.mp h.2)
            (Node.shapedItems_iff.mp h'.2) hcount hbody
          exact ⟨rfl, rfl⟩
      | int negative' w' n' => cases negative' <;> simp [Node.major] at hmajor
      | bytes | text | map | simple => simp [Node.major] at hmajor
  | map w entries ih =>
      intro node' rest rest' h h' heq
      obtain ⟨hmajor, hwidth, hcount, hbody⟩ := Node.head_append h h' heq
      cases node' with
      | map w' entries' =>
          cases hwidth
          obtain ⟨rfl, rfl⟩ := Node.writeEntries_append ih (Node.shapedEntries_iff.mp h.2)
            (Node.shapedEntries_iff.mp h'.2) hcount hbody
          exact ⟨rfl, rfl⟩
      | int negative' w' n' => cases negative' <;> simp [Node.major] at hmajor
      | bytes | text | array | simple => simp [Node.major] at hmajor
  | simple w n =>
      intro node' rest rest' h h' heq
      obtain ⟨hmajor, hwidth, hcount, hbody⟩ := Node.head_append h h' heq
      cases node' with
      | simple w' n' =>
          cases hwidth
          cases hcount
          exact ⟨rfl, hbody⟩
      | int negative' w' n' => cases negative' <;> simp [Node.major] at hmajor
      | bytes | text | array | map => simp [Node.major] at hmajor

/-- **A writing is of one tree.** -/
theorem Node.write_inj {node node' : Node} (h : node.Shaped) (h' : node'.Shaped)
    (heq : node.write = node'.write) : node = node' :=
  (node.alone node' [] [] h h' (by rw [heq])).1

end Nacre.Webauthn
