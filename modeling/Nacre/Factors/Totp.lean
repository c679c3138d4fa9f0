/-
The arithmetic of a second factor: core/totp.ts.

A function that may throw gives an option, and `none` is the throw:
`openTotpSecret` on a value this installation's key did not seal,
`base32Decode` on a character outside its alphabet, `totpCode` on a step
that does not fit the counter. The cipher, the signatures, `JSON.parse` and
the upper-casing of text are the host's (`Host`).
-/
import Nacre.Lib.Js
import Nacre.Lib.Json
import Nacre.Lib.Sha1
import Nacre.Store.Rows

namespace Nacre.Factors

open Nacre.Store (Time)

-- ================================================================ the host

/-- What is asked of the runtime. -/
structure Host where
  toUpperCase : String → String
  /-- `aes-256-gcm` under the configured key: a nonce, a body and a tag, as
  they are stored. -/
  decipher : String → String → String → Option String
  /-- `JSON.parse`. -/
  parse : String → Option Json
  /-- A signature over bytes verifies under a JWK and its algorithm. -/
  verifySignature : Int → List (String × String) → List UInt8 → List UInt8 → Bool

-- =============================================================== the codes

def totpPeriodSeconds : Nat := 30
def totpDigits : Nat := 6
def totpSkewSteps : Nat := 1

/-- `text.replace(/\s+/gu, '')`. -/
def withoutSpace (text : String) : List Char := text.toList.filter fun c => !Js.isTrimmed c

def alphabet : List Char := "ABCDEFGHIJKLMNOPQRSTUVWXYZ234567".toList

/-- The loop of `base32Decode`, over what is left of the text. -/
def base32Bytes : List Char → Nat → UInt32 → Option (List UInt8)
  | [], _, _ => some []
  | c :: rest, bits, value =>
      match alphabet.idxOf? c with
      | none => none
      | some index =>
          let value' := (value <<< 5) ||| UInt32.ofNat index
          if 8 ≤ bits + 5 then
            (base32Bytes rest (bits + 5 - 8) value').map
              ((value' >>> UInt32.ofNat (bits + 5 - 8)).toUInt8 :: ·)
          else base32Bytes rest (bits + 5) value'

def base32Decode (host : Host) (text : String) : Option (List UInt8) :=
  let clean := host.toUpperCase
    (String.ofList ((withoutSpace text).reverse.dropWhile (· = '=')).reverse)
  base32Bytes clean.toList 0 0

/-- The step a moment falls in; a moment is in milliseconds. -/
def totpStep (moment : Time) : Int := ((moment / 1000 / totpPeriodSeconds : Nat) : Int)

/-- The dynamic truncation of a digest. -/
def truncated (mac : List UInt8) : Nat :=
  let offset := (mac.getLastD 0 &&& 0x0f).toNat
  let byte := fun i => (mac.getD (offset + i) 0).toNat
  byte 0 % 128 * 2 ^ 24 + byte 1 * 2 ^ 16 + byte 2 * 2 ^ 8 + byte 3

/-- `String(binary % 10 ** TOTP_DIGITS).padStart(TOTP_DIGITS, '0')`. -/
def digits (binary : Nat) : List Char :=
  let text := Nat.toDigits 10 (binary % 10 ^ totpDigits)
  List.replicate (totpDigits - text.length) '0' ++ text

/-- A date ends long before a step outgrows the counter, so only a negative
one does not fit. -/
def totpCode (host : Host) (secret : String) (step : Int) : Option (List Char) :=
  if 0 ≤ step then
    (base32Decode host secret).map fun key =>
      digits (truncated (Sha1.hmac key (Sha256.lengthBytes step.toNat)))
  else none

/-- The steps that are tried, one after the other. -/
def tryStep (host : Host) (secret : String) (typed : List Char) (after : Option Int) :
    List Int → Option (Option Int)
  | [] => some none
  | step :: rest =>
      if after.any (step ≤ ·) then tryStep host secret typed after rest
      else
        match totpCode host secret step with
        | none => none
        | some expected =>
            if expected = typed then some (some step)
            else tryStep host secret typed after rest

/-- The code's step, if it is right: none is a wrong code, and a throw is
none at all. -/
def verifyTotp (host : Host) (secret code : String) (moment : Time) (after : Option Int) :
    Option (Option Int) :=
  let typed := withoutSpace code
  if typed.length = totpDigits ∧ typed.all Char.isDigit then
    let current := totpStep moment
    tryStep host secret typed after [current - totpSkewSteps, current, current + totpSkewSteps]
  else some none

/-- RFC 6238's vector at 59 seconds, its six last digits. -/
example : verifyTotp ⟨id, fun _ _ _ => none, fun _ => none, fun _ _ _ _ => false⟩
    "GEZDGNBVGY3TQOJQGEZDGNBVGY3TQOJQ" "287 082" 59000 none
    = some (some 1) := by
  decide +kernel

-- ================================================== what is kept of a factor

/-- `openTotpSecret`. -/
def openTotpSecret (host : Host) (stored : String) : Option String :=
  match (stored.toList.splitOn '.').map String.ofList with
  | version :: nonce :: body :: tag :: _ =>
      if version = "v1" then host.decipher nonce body tag else none
  | _ => none

/-- `code.replace(/[\s-]+/gu, '').toUpperCase()`. -/
def normalizeRecoveryCode (host : Host) (code : String) : String :=
  host.toUpperCase (String.ofList ((withoutSpace code).filter (· ≠ '-')))

def hashRecoveryCode (host : Host) (code : String) : String :=
  Sha256.hex (normalizeRecoveryCode host code).toUTF8.toList

-- ============================================================== the bound

variable {host : Host} {secret code : String} {typed : List Char} {after : Option Int}
  {moment : Time}

theorem tryStep_after {steps : List Int} {step : Int}
    (h : tryStep host secret typed after steps = some (some step)) :
    ∀ last ∈ after, last < step := by
  induction steps with
  | nil => cases h
  | cons first rest ih =>
      unfold tryStep at h
      split at h
      next => exact ih h
      next hlater =>
        split at h
        next => cases h
        next =>
          split at h
          next =>
            cases h
            intro last hlast
            rw [Option.mem_def] at hlast
            rw [hlast, Option.any_some, decide_eq_true_eq] at hlater
            omega
          next => exact ih h

/-- A step that is accepted is later than the last that was. -/
theorem verifyTotp_after {step : Int}
    (h : verifyTotp host secret code moment after = some (some step)) :
    ∀ last ∈ after, last < step := by
  unfold verifyTotp at h
  dsimp only at h
  split at h
  next => exact tryStep_after h
  next => cases h

theorem tryStep_some (hsecret : (base32Decode host secret).isSome = true) {steps : List Int}
    (hsteps : ∀ step ∈ steps, 0 ≤ step) :
    (tryStep host secret typed after steps).isSome = true := by
  induction steps with
  | nil => rfl
  | cons first rest ih =>
      have hrest := ih fun step hstep => hsteps step (List.mem_cons_of_mem _ hstep)
      unfold tryStep
      split
      next => exact hrest
      next =>
        obtain ⟨key, hkey⟩ := Option.isSome_iff_exists.1 hsecret
        rw [totpCode, if_pos (hsteps first List.mem_cons_self), hkey]
        dsimp only [Option.map_some]
        split
        next => rfl
        next => exact hrest

/-- Nothing is thrown over a secret that decodes, at a moment past the
first half minute of all. -/
theorem verifyTotp_some (hsecret : (base32Decode host secret).isSome = true)
    (hlate : (30000 : Nat) ≤ moment) :
    (verifyTotp host secret code moment after).isSome = true := by
  have hfits : ∀ step ∈ [totpStep moment - totpSkewSteps, totpStep moment, totpStep moment + totpSkewSteps],
      0 ≤ step := by
    intro step hstep
    have hcurrent : 1 ≤ moment / 1000 / 30 := by
      show (1 : Nat) ≤ moment / 1000 / 30
      omega
    simp only [List.mem_cons, List.not_mem_nil, or_false, totpStep, totpSkewSteps,
      totpPeriodSeconds] at hstep
    omega
  unfold verifyTotp
  dsimp only
  split
  next => exact tryStep_some hsecret hfits
  next => rfl

end Nacre.Factors
