/-
The CBOR reader, with what it throws (core/webauthn.ts: `head`, `item`,
`decodeCbor`).

It refuses with a `CborError` of its own. Text is decoded by a
`TextDecoder` that is fatal, and what that throws on bytes that are no
UTF-8 is a `TypeError`. Without what is thrown the reader is the one the
ceremonies use (`toOption_item`).
-/
import Nacre.Factors.WebAuthn

namespace Nacre.Webauthn

open Nacre.Factors (Cbor Label bigEndian maxDepth maxEntries maxBytes)

inductive Thrown where
  | cborError (message : String)
  | typeError
  deriving DecidableEq

def refuse {α : Type} (message : String) : Except Thrown α := .error (.cborError message)

/-- The first `n` bytes, if there are that many. -/
def need (n : Nat) (bytes : List UInt8) : Except Thrown (List UInt8 × List UInt8) :=
  if bytes.length < n then refuse "ran off the end of the input" else .ok (bytes.splitAt n)

/-- An argument of so many bytes. -/
def argument (major n : Nat) (bytes : List UInt8) : Except Thrown ((Nat × Nat) × List UInt8) := do
  let r ← need n bytes
  .ok ((major, bigEndian r.1), r.2)

/-- The major type and the argument. -/
def head : List UInt8 → Except Thrown ((Nat × Nat) × List UInt8)
  | [] => refuse "ran off the end of the input"
  | initial :: rest =>
      let major := initial.toNat / 32
      let additional := initial.toNat % 32
      if additional < 24 then .ok ((major, additional), rest)
      else if additional = 24 then argument major 1 rest
      else if additional = 25 then argument major 2 rest
      else if additional = 26 then argument major 4 rest
      else
        refuse s!"unsupported CBOR argument {additional} for major type {major}; this reader accepts the canonical, definite-length encoding CTAP2 requires"

/-- `String(key)`. -/
def Label.string : Label → String
  | .int n => toString n
  | .text s => s

/-- The items of an array. -/
def readItems (read : List UInt8 → Except Thrown (Cbor × List UInt8)) :
    Nat → List UInt8 → Except Thrown (List Cbor × List UInt8)
  | 0, bytes => .ok ([], bytes)
  | n + 1, bytes => do
      let first ← read bytes
      let rest ← readItems read n first.2
      .ok (first.1 :: rest.1, rest.2)

/-- A key as one of a map that has these. -/
def newKey (out : List (Label × Cbor)) (key : Cbor) : Except Thrown Label :=
  match key.label with
  | none => refuse "map keys here are integers or text strings"
  | some key =>
      if out.any (·.1 = key) then refuse s!"duplicate map key {Label.string key}" else .ok key

/-- The entries of a map. -/
def readEntries (read : List UInt8 → Except Thrown (Cbor × List UInt8)) :
    Nat → List (Label × Cbor) → List UInt8 → Except Thrown (List (Label × Cbor) × List UInt8)
  | 0, out, bytes => .ok (out, bytes)
  | n + 1, out, bytes => do
      let first ← read bytes
      let key ← newKey out first.1
      let value ← read first.2
      readEntries read n (out ++ [(key, value.1)]) value.2

/-- `new TextDecoder('utf-8', { fatal: true }).decode(bytes)`. -/
def decodeText (bytes : List UInt8) : Except Thrown String :=
  match Js.decode ⟨bytes.toArray⟩ with
  | none => .error .typeError
  | some text => .ok text

def readBytes (n : Nat) (bytes : List UInt8) : Except Thrown (Cbor × List UInt8) :=
  if maxBytes < n then refuse s!"byte string of {n} bytes is over the limit"
  else do
    let r ← need n bytes
    .ok (.bytes r.1, r.2)

def readText (n : Nat) (bytes : List UInt8) : Except Thrown (Cbor × List UInt8) :=
  if maxBytes < n then refuse s!"text string of {n} bytes is over the limit"
  else do
    let r ← need n bytes
    let text ← decodeText r.1
    .ok (.text text, r.2)

def readArray (read : List UInt8 → Except Thrown (Cbor × List UInt8)) (n : Nat)
    (bytes : List UInt8) : Except Thrown (Cbor × List UInt8) :=
  if maxEntries < n then refuse s!"array of {n} items is over the limit"
  else do
    let r ← readItems read n bytes
    .ok (.array r.1, r.2)

def readMap (read : List UInt8 → Except Thrown (Cbor × List UInt8)) (n : Nat)
    (bytes : List UInt8) : Except Thrown (Cbor × List UInt8) :=
  if maxEntries < n then refuse s!"map of {n} entries is over the limit"
  else do
    let r ← readEntries read n [] bytes
    .ok (.map r.1, r.2)

def simple (arg : Nat) : Except Thrown Cbor :=
  if arg = 20 then .ok (.bool false)
  else if arg = 21 then .ok (.bool true)
  else if arg = 22 then .ok .null
  else refuse s!"unsupported simple value {arg}"

/-- What follows a head. -/
def content (read : List UInt8 → Except Thrown (Cbor × List UInt8)) (major arg : Nat)
    (bytes : List UInt8) : Except Thrown (Cbor × List UInt8) :=
  match major with
  | 0 => .ok (.int arg, bytes)
  | 1 => .ok (.int (-1 - arg), bytes)
  | 2 => readBytes arg bytes
  | 3 => readText arg bytes
  | 4 => readArray read arg bytes
  | 5 => readMap read arg bytes
  | 7 => do
      let value ← simple arg
      .ok (value, bytes)
  -- 6 is tags
  | _ => refuse s!"unsupported CBOR major type {major}"

/-- `item`, at the depth that leaves so many levels. -/
def item : Nat → List UInt8 → Except Thrown (Cbor × List UInt8)
  | 0, _ => refuse s!"nested past {maxDepth} levels"
  | levels + 1, bytes => do
      let h ← head bytes
      content (item levels) h.1.1 h.1.2 h.2

/-- Trailing bytes are refused. -/
def decodeCbor (bytes : List UInt8) : Except Thrown Cbor := do
  let r ← item (maxDepth + 1) bytes
  if r.2 = [] then .ok r.1 else refuse s!"{r.2.length} trailing byte(s) after the CBOR item"

-- ================================================================= results

section Except

variable {α β : Type} {x : Except Thrown α} {f : α → Except Thrown β} {r : β} {e : Thrown}

theorem bind_ok_iff : x >>= f = .ok r ↔ ∃ a, x = .ok a ∧ f a = .ok r := by
  cases x with
  | error e => exact ⟨nofun, nofun⟩
  | ok a => exact ⟨fun h => ⟨a, rfl, h⟩, fun ⟨_, ha, h⟩ => by cases ha; exact h⟩

theorem bind_error_iff :
    x >>= f = .error e ↔ x = .error e ∨ ∃ a, x = .ok a ∧ f a = .error e := by
  cases x with
  | error e' =>
      refine ⟨fun h => .inl ?_, ?_⟩
      · cases h
        rfl
      · rintro (h | ⟨a, h, -⟩)
        · cases h
          rfl
        · cases h
  | ok a =>
      refine ⟨fun h => .inr ⟨a, rfl, h⟩, ?_⟩
      rintro (h | ⟨a', h, hf⟩)
      · cases h
      · cases h
        exact hf

theorem toOption_bind : (x >>= f).toOption = x.toOption.bind fun a => (f a).toOption := by
  cases x <;> rfl

end Except

-- ========================================================== the ceremonies

section Erase

variable {read : List UInt8 → Except Thrown (Cbor × List UInt8)}
  {read' : List UInt8 → Option (Cbor × List UInt8)}

theorem toOption_need (n : Nat) (bytes : List UInt8) :
    (need n bytes).toOption = Factors.need n bytes := by
  unfold need Factors.need
  split
  next h => rw [if_neg (by omega)]; rfl
  next h => rw [if_pos (by omega)]; rfl

theorem toOption_argument (major n : Nat) (bytes : List UInt8) :
    (argument major n bytes).toOption
      = (Factors.need n bytes).map fun r => ((major, bigEndian r.1), r.2) := by
  rw [argument, toOption_bind, toOption_need]
  cases Factors.need n bytes <;> rfl

theorem toOption_head (bytes : List UInt8) : (head bytes).toOption = Factors.head bytes := by
  cases bytes with
  | nil => rfl
  | cons initial rest =>
      simp only [head, Factors.head]
      split
      next => rfl
      next =>
        split
        next => exact toOption_argument _ _ _
        next =>
          split
          next => exact toOption_argument _ _ _
          next =>
            split
            next => exact toOption_argument _ _ _
            next => rfl

theorem toOption_readItems (h : ∀ bytes, (read bytes).toOption = read' bytes) (n : Nat)
    (bytes : List UInt8) :
    (readItems read n bytes).toOption = Factors.readItems read' n bytes := by
  induction n generalizing bytes with
  | zero => rfl
  | succ n ih =>
      rw [readItems, Factors.readItems, toOption_bind, h]
      simp only [toOption_bind, ih]
      rfl

theorem toOption_newKey (out : List (Label × Cbor)) (key : Cbor) :
    (newKey out key).toOption
      = key.label.bind fun key => if out.any (·.1 = key) then none else some key := by
  unfold newKey
  cases key.label with
  | none => rfl
  | some key =>
      simp only [Option.bind_some]
      split <;> rfl

theorem toOption_readEntries (h : ∀ bytes, (read bytes).toOption = read' bytes) (n : Nat)
    (out : List (Label × Cbor)) (bytes : List UInt8) :
    (readEntries read n out bytes).toOption = Factors.readEntries read' n out bytes := by
  induction n generalizing out bytes with
  | zero => rfl
  | succ n ih =>
      rw [readEntries, Factors.readEntries, toOption_bind, h]
      simp only [toOption_bind, toOption_newKey, ih, h]
      refine congrArg _ (funext fun first => ?_)
      cases first.1.label with
      | none => rfl
      | some key =>
          simp only [Option.bind_some, Option.bind_eq_bind]
          split <;> rfl

theorem toOption_readBytes (n : Nat) (bytes : List UInt8) :
    (readBytes n bytes).toOption
      = if maxBytes < n then none
        else (Factors.need n bytes).map fun r => (.bytes r.1, r.2) := by
  unfold readBytes
  split
  next => rfl
  next =>
    rw [toOption_bind, toOption_need]
    cases Factors.need n bytes <;> rfl

theorem toOption_readText (n : Nat) (bytes : List UInt8) :
    (readText n bytes).toOption = if maxBytes < n then none else Factors.readText n bytes := by
  unfold readText Factors.readText
  split
  next => rfl
  next =>
    rw [toOption_bind, toOption_need]
    cases Factors.need n bytes with
    | none => rfl
    | some r =>
        simp only [toOption_bind, Option.bind_some, Option.bind_eq_bind]
        unfold decodeText
        cases Js.decode ⟨r.1.toArray⟩ <;> rfl

theorem toOption_readArray (h : ∀ bytes, (read bytes).toOption = read' bytes) (n : Nat)
    (bytes : List UInt8) :
    (readArray read n bytes).toOption
      = if maxEntries < n then none
        else (Factors.readItems read' n bytes).map fun r => (.array r.1, r.2) := by
  unfold readArray
  split
  next => rfl
  next =>
    rw [toOption_bind, toOption_readItems h]
    cases Factors.readItems read' n bytes <;> rfl

theorem toOption_readMap (h : ∀ bytes, (read bytes).toOption = read' bytes) (n : Nat)
    (bytes : List UInt8) :
    (readMap read n bytes).toOption
      = if maxEntries < n then none
        else (Factors.readEntries read' n [] bytes).map fun r => (.map r.1, r.2) := by
  unfold readMap
  split
  next => rfl
  next =>
    rw [toOption_bind, toOption_readEntries h]
    cases Factors.readEntries read' n [] bytes <;> rfl

theorem toOption_readSimple (arg : Nat) (bytes : List UInt8) :
    (content read 7 arg bytes).toOption
      = if arg = 20 then some (.bool false, bytes)
        else if arg = 21 then some (.bool true, bytes)
        else if arg = 22 then some (.null, bytes)
        else none := by
  simp only [content, simple]
  by_cases h20 : arg = 20
  · simp only [h20, if_true]
    rfl
  by_cases h21 : arg = 21
  · simp only [h21]
    rfl
  by_cases h22 : arg = 22
  · simp only [h22]
    rfl
  simp only [h20, h21, h22, if_false]
  rfl

/-- Without what it throws, it is the reader the ceremonies use. -/
theorem toOption_item (levels : Nat) (bytes : List UInt8) :
    (item levels bytes).toOption = Factors.item levels bytes := by
  induction levels generalizing bytes with
  | zero => rfl
  | succ levels ih =>
      rw [item, toOption_bind, toOption_head]
      simp only [Factors.item]
      cases Factors.head bytes with
      | none => rfl
      | some r =>
          obtain ⟨⟨major, arg⟩, rest⟩ := r
          simp only [Option.bind_some]
          match major with
          | 0 => rfl
          | 1 => rfl
          | 2 => exact toOption_readBytes arg rest
          | 3 => exact toOption_readText arg rest
          | 4 => exact toOption_readArray ih arg rest
          | 5 => exact toOption_readMap ih arg rest
          | 6 => rfl
          | 7 => exact toOption_readSimple arg rest
          | _ + 8 => rfl

end Erase

end Nacre.Webauthn
