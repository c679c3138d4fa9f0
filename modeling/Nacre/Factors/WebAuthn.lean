/-
WebAuthn as far as the arithmetic goes: core/webauthn.ts.

A throw is `none`: both callers catch every error and drop what it says.
A function that reads gives what it read and the bytes after it; the depth
it may still go to is the recursion.

# The counter

`verifyAssertion` refuses a counter that is not zero and not above the
stored one, and nothing else about it (`verifyAssertion_count`). What it
was given as a counter is what it gives back (`verifyAssertion_signCount`),
and a zero over a stored counter of five passes.
-/
import Nacre.Factors.Totp
import Nacre.Lib.Base64

namespace Nacre.Factors

-- ==================================================================== CBOR

def maxDepth : Nat := 8
def maxEntries : Nat := 64
def maxBytes : Nat := 8192

/-- A key of a map. -/
inductive Label where
  | int (n : Int)
  | text (s : String)
  deriving DecidableEq

inductive Cbor where
  | int (n : Int)
  | bytes (b : List UInt8)
  | text (s : String)
  | array (items : List Cbor)
  | map (entries : List (Label × Cbor))
  | bool (b : Bool)
  | null

/-- Bytes as a number, the first the most significant. -/
def bigEndian (bytes : List UInt8) : Nat := bytes.foldl (fun n byte => n * 256 + byte.toNat) 0

/-- The first `n` of them, if there are that many. -/
def need (n : Nat) (bytes : List UInt8) : Option (List UInt8 × List UInt8) :=
  if n ≤ bytes.length then some (bytes.splitAt n) else none

/-- The major type and the argument. -/
def head : List UInt8 → Option ((Nat × Nat) × List UInt8)
  | [] => none
  | initial :: rest =>
      let major := initial.toNat / 32
      let additional := initial.toNat % 32
      let argument := fun n => (need n rest).map fun (arg, rest) => ((major, bigEndian arg), rest)
      if additional < 24 then some ((major, additional), rest)
      else if additional = 24 then argument 1
      else if additional = 25 then argument 2
      else if additional = 26 then argument 4
      else none

/-- The items of an array. -/
def readItems (read : List UInt8 → Option (Cbor × List UInt8)) :
    Nat → List UInt8 → Option (List Cbor × List UInt8)
  | 0, bytes => some ([], bytes)
  | n + 1, bytes => do
      let (first, bytes) ← read bytes
      let (rest, bytes) ← readItems read n bytes
      some (first :: rest, bytes)

def Cbor.label : Cbor → Option Label
  | .int n => some (.int n)
  | .text s => some (.text s)
  | _ => none

/-- The entries of a map; a key that is there already is refused. -/
def readEntries (read : List UInt8 → Option (Cbor × List UInt8)) :
    Nat → List (Label × Cbor) → List UInt8 → Option (List (Label × Cbor) × List UInt8)
  | 0, out, bytes => some (out, bytes)
  | n + 1, out, bytes => do
      let (first, bytes) ← read bytes
      let key ← first.label
      if out.any (·.1 = key) then none
      else
        let (value, bytes) ← read bytes
        readEntries read n (out ++ [(key, value)]) bytes

/-- Text is UTF-8, or nothing. -/
def readText (n : Nat) (bytes : List UInt8) : Option (Cbor × List UInt8) := do
  let (out, rest) ← need n bytes
  let text ← Js.decode ⟨out.toArray⟩
  some (.text text, rest)

/-- `item`, at the depth that leaves so many levels. -/
def item : Nat → List UInt8 → Option (Cbor × List UInt8)
  | 0, _ => none
  | levels + 1, bytes =>
      match head bytes with
      | none => none
      | some ((major, arg), bytes) =>
          match major with
          | 0 => some (.int arg, bytes)
          | 1 => some (.int (-1 - arg), bytes)
          | 2 =>
              if maxBytes < arg then none
              else (need arg bytes).map fun (out, rest) => (.bytes out, rest)
          | 3 => if maxBytes < arg then none else readText arg bytes
          | 4 =>
              if maxEntries < arg then none
              else (readItems (item levels) arg bytes).map fun (out, rest) => (.array out, rest)
          | 5 =>
              if maxEntries < arg then none
              else (readEntries (item levels) arg [] bytes).map fun (out, rest) => (.map out, rest)
          | 7 =>
              if arg = 20 then some (.bool false, bytes)
              else if arg = 21 then some (.bool true, bytes)
              else if arg = 22 then some (.null, bytes)
              else none
          -- 6 is tags
          | _ => none

/-- Trailing bytes are refused. -/
def decodeCbor (bytes : List UInt8) : Option Cbor := do
  let (value, rest) ← item (maxDepth + 1) bytes
  if rest = [] then some value else none

-- ====================================================== authenticator data

structure AttestedCredential where
  aaguid : List UInt8
  id : List UInt8
  coseKey : List (Label × Cbor)

structure AuthenticatorData where
  rpIdHash : List UInt8
  userPresent : Bool
  userVerified : Bool
  signCount : Nat
  credential : Option AttestedCredential

/-- The counter of authenticator data, four bytes after the flags. -/
def counter (bytes : List UInt8) : Nat := bigEndian ((bytes.drop 33).take 4)

/-- The attested credential, which the key ends unless extensions follow. -/
def parseCredential (bytes : List UInt8) (extensionData : Bool) : Option AttestedCredential :=
  if bytes.length < 55 then none
  else
    let idLength := bigEndian ((bytes.drop 53).take 2)
    if 1023 < idLength then none
    else if bytes.length < 55 + idLength then none
    else do
      let (key, rest) ← item (maxDepth + 1) (bytes.drop (55 + idLength))
      match key with
      | .map coseKey =>
          if !extensionData && rest ≠ [] then none
          else some ⟨(bytes.drop 37).take 16, (bytes.drop 55).take idLength, coseKey⟩
      | _ => none

def parseAuthenticatorData (bytes : List UInt8) : Option AuthenticatorData :=
  if bytes.length < 37 then none
  else
    let raw := bytes.getD 32 0
    let data := fun credential => AuthenticatorData.mk (bytes.take 32) (raw &&& 0x01 ≠ 0)
      (raw &&& 0x04 ≠ 0) (counter bytes) credential
    if raw &&& 0x40 ≠ 0 then
      (parseCredential bytes (raw &&& 0x80 ≠ 0)).map fun credential => data (some credential)
    else some (data none)

-- ========================================================== COSE, as a JWK

def supportedAlgorithms : List Int := [-7, -257, -8]

structure PublicKey where
  alg : Int
  jwk : List (String × String)
  deriving DecidableEq

def b64url (bytes : List UInt8) : String := String.ofList (Base64.encode bytes)

def intAt (key : List (Label × Cbor)) (label : Int) : Option Int :=
  match key.lookup (.int label) with
  | some (.int n) => some n
  | _ => none

def bytesAt (key : List (Label × Cbor)) (label : Int) : Option (List UInt8) :=
  match key.lookup (.int label) with
  | some (.bytes b) => some b
  | _ => none

def coseToPublicKey (key : List (Label × Cbor)) : Option PublicKey := do
  let alg ← intAt key 3
  if alg ∉ supportedAlgorithms then none
  else if alg = -7 then
    if intAt key 1 ≠ some 2 then none
    else if intAt key (-1) ≠ some 1 then none
    else do
      let x ← bytesAt key (-2)
      let y ← bytesAt key (-3)
      some ⟨alg, [("kty", "EC"), ("crv", "P-256"), ("x", b64url x), ("y", b64url y)]⟩
  else if alg = -8 then
    if intAt key 1 ≠ some 1 then none
    else if intAt key (-1) ≠ some 6 then none
    else do
      let x ← bytesAt key (-2)
      some ⟨alg, [("kty", "OKP"), ("crv", "Ed25519"), ("x", b64url x)]⟩
  else if intAt key 1 ≠ some 3 then none
  else do
    let n ← bytesAt key (-1)
    let e ← bytesAt key (-2)
    some ⟨alg, [("kty", "RSA"), ("n", b64url n), ("e", b64url e)]⟩

-- ==================================================== what the client sent

/-- A field that is text. -/
def textAt (data : Json) (name : String) : Option (List UInt16) :=
  match data with
  | .object fields =>
      match fields.lookup (Js.codeUnits name) with
      | some (.string units) => some units
      | _ => none
  | _ => none

/-- `clientDataJSON` is as expected. -/
def readClientData (host : Host) (json : List UInt8) (type challenge : String)
    (origins : List String) : Bool :=
  match (Js.decode ⟨json.toArray⟩).bind host.parse with
  | none => false
  | some data =>
      textAt data "type" = some (Js.codeUnits type)
        && textAt data "challenge" = some (Js.codeUnits challenge)
        && origins.any fun origin => textAt data "origin" = some (Js.codeUnits origin)

-- =========================================================== the ceremonies

structure RelyingParty where
  id : String
  origins : List String

/-- `createHash('sha256').update(rpId).digest()`. -/
def RelyingParty.hash (rp : RelyingParty) : List UInt8 := Sha256.bytes rp.id.toUTF8.toList

structure Registration where
  credentialId : List UInt8
  publicKey : PublicKey
  signCount : Nat
  deriving DecidableEq

def authData (attestation : Cbor) : Option (List UInt8) :=
  match attestation with
  | .map entries =>
      match entries.lookup (.text "authData") with
      | some (.bytes b) => some b
      | _ => none
  | _ => none

def verifyRegistration (host : Host) (rp : RelyingParty)
    (attestationObject clientDataJSON : List UInt8) (challenge : String) :
    Option Registration :=
  if !readClientData host clientDataJSON "webauthn.create" challenge rp.origins then none
  else do
    let bytes ← (decodeCbor attestationObject).bind authData
    let data ← parseAuthenticatorData bytes
    if data.rpIdHash ≠ rp.hash then none
    else if !data.userPresent then none
    else do
      let credential ← data.credential
      let publicKey ← coseToPublicKey credential.coseKey
      some ⟨credential.id, publicKey, data.signCount⟩

structure Assertion where
  signCount : Nat
  userVerified : Bool
  deriving DecidableEq

/-- What a client sends at an assertion. -/
structure Response where
  credentialId : String
  authenticatorData : List UInt8
  clientDataJSON : List UInt8
  signature : List UInt8
  challenge : String
  deriving DecidableEq

def verifyAssertion (host : Host) (rp : RelyingParty) (response : Response)
    (publicKey : PublicKey) (storedSignCount : Nat) : Option Assertion :=
  if !readClientData host response.clientDataJSON "webauthn.get" response.challenge rp.origins then
    none
  else do
    let data ← parseAuthenticatorData response.authenticatorData
    if data.rpIdHash ≠ rp.hash then none
    else if !data.userPresent then none
    else if !host.verifySignature publicKey.alg publicKey.jwk
        (response.authenticatorData ++ Sha256.bytes response.clientDataJSON)
        response.signature then none
    else if data.signCount ≠ 0 ∧ data.signCount ≤ storedSignCount then none
    else some ⟨data.signCount, data.userVerified⟩

-- ============================================================ the counter

variable {host : Host} {rp : RelyingParty} {response : Response} {publicKey : PublicKey}
  {stored : Nat} {assertion : Assertion}

theorem parseAuthenticatorData_signCount {bytes : List UInt8} {data : AuthenticatorData}
    (h : parseAuthenticatorData bytes = some data) : data.signCount = counter bytes := by
  unfold parseAuthenticatorData at h
  dsimp only at h
  split at h
  next => cases h
  next =>
    split at h
    next =>
      obtain ⟨credential, -, rfl⟩ := Option.map_eq_some_iff.1 h
      rfl
    next =>
      cases h
      rfl

/-- What an accepted assertion went through, as far as its counter. -/
theorem verifyAssertion_cases
    (h : verifyAssertion host rp response publicKey stored = some assertion) :
    assertion.signCount = counter response.authenticatorData
      ∧ ¬ (assertion.signCount ≠ 0 ∧ assertion.signCount ≤ stored) := by
  unfold verifyAssertion at h
  split at h
  next => cases h
  next =>
    obtain ⟨data, hdata, h⟩ := Option.bind_eq_some_iff.1 h
    split at h
    next => cases h
    next =>
      split at h
      next => cases h
      next =>
        split at h
        next => cases h
        next =>
          split at h
          next => cases h
          next hcount =>
            cases h
            exact ⟨parseAuthenticatorData_signCount hdata, hcount⟩

/-- The counter given is the counter received. -/
theorem verifyAssertion_signCount
    (h : verifyAssertion host rp response publicKey stored = some assertion) :
    assertion.signCount = counter response.authenticatorData :=
  (verifyAssertion_cases h).1

/-- One that is not zero is above the stored one. -/
theorem verifyAssertion_count
    (h : verifyAssertion host rp response publicKey stored = some assertion)
    (hne : assertion.signCount ≠ 0) : stored < assertion.signCount := by
  have hrule := (verifyAssertion_cases h).2
  omega

end Nacre.Factors
