/-
The second factors of one account: api/src/second-factor.ts, any number of
requests at once.

# What is a step

One statement of a transaction, under READ COMMITTED. An `UPDATE`, a
`DELETE` or a `SELECT … FOR UPDATE` waits for a row that another transaction
has locked and reads it again when it gets it; what a transaction wrote is
committed at its end, and `now()` is when it began. `SELECT … FOR UPDATE`
takes its rows from what was committed when it started and locks them one by
one (`Stage.locking`). The clock that `verify` reads is read when the last of
them is locked, and may be later than `now()`.

`begin` and `issueChallenge` write without having read, so each is one step.

# What is recorded

`log` says what the verifications came to, newest first. A code, a step or a
challenge is taken when it is committed. A wrong code is recorded when it is
evaluated, that is, compared with a factor that is not locked: whether the
transaction then counts it is the question.
-/
import Mathlib.Data.List.Sort
import Nacre.Factors.WebAuthn
import Nacre.Lib.Solo
import Nacre.Lib.Table
import Nacre.Lib.Transition

namespace Nacre.Factors

open Transition
open Nacre.Store (Time)

abbrev FactorId := Nat

-- ================================================================ the rows

def maxFailures : Nat := 5
def lockSeconds : Nat := 15 * 60
def challengeTtlSeconds : Nat := 300
def recoveryCodeCount : Nat := 10

/-- Milliseconds: the clock's unit. -/
def seconds (n : Nat) : Nat := 1000 * n

/-- A row of `user_second_factors` of kind `totp`. -/
structure TotpRow where
  secret : String
  label : String
  createdAt : Time
  confirmed : Bool
  lastStep : Option Int
  failedAttempts : Nat
  lockedUntil : Option Time
  deriving DecidableEq

/-- A row of kind `webauthn`. -/
structure KeyRow where
  label : String
  credentialId : String
  publicKey : PublicKey
  signCount : Nat
  deriving DecidableEq

/-- A row of `user_recovery_codes`, under its hash; the batch tells it from
one that was deleted. -/
structure CodeRow where
  batch : Nat
  usedAt : Option Time
  deriving DecidableEq

inductive Purpose where
  | register
  | authenticate
  deriving DecidableEq

/-- A row of `webauthn_challenges`, under its challenge. -/
structure ChallengeRow where
  purpose : Purpose
  expiresAt : Time
  usedAt : Option Time
  deriving DecidableEq

/-- `locked_until !== null && locked_until > now`. -/
def TotpRow.locked (now : Time) (row : TotpRow) : Bool := row.lockedUntil.any (now < ·)

/-- One more failure; `now()` is when the transaction began. -/
def TotpRow.failed (began : Time) (row : TotpRow) : TotpRow :=
  { row with
    failedAttempts := row.failedAttempts + 1
    lockedUntil :=
      if maxFailures ≤ row.failedAttempts + 1 then some (began + seconds lockSeconds)
      else row.lockedUntil }

def TotpRow.accepted (step : Int) (row : TotpRow) : TotpRow :=
  { row with lastStep := some step, failedAttempts := 0, lockedUntil := none }

/-- A confirmation leaves `locked_until` as it was. -/
def TotpRow.confirmedAt (step : Int) (row : TotpRow) : TotpRow :=
  { row with confirmed := true, lastStep := some step, failedAttempts := 0 }

-- ============================================================ transactions

inductive Request where
  | verify (code : String)
  | confirm (id : FactorId) (code : String)
  | remove (id : FactorId)
  | register (label : String) (attestationObject clientDataJSON : List UInt8)
      (challenge : String)
  | assertion (response : Response)
  deriving DecidableEq

/-- The challenge a request is to spend, and what for. -/
def Request.challenge : Request → Option (String × Purpose)
  | .register _ _ _ challenge => some (challenge, .register)
  | .assertion response => some (response.challenge, .authenticate)
  | _ => none

/-- What a transaction has written and is to commit. -/
inductive Effect where
  | nothing
  | recover (hash : String)
  | accept (id : FactorId) (step : Int)
  | fail (rows : List (FactorId × TotpRow))
  | enrol (id : FactorId) (step : Int) (codes : List String)
  | spend (challenge : String)
  | sign (challenge : String) (id : FactorId) (count : Nat)
  | add (challenge : String) (row : KeyRow) (codes : List String)
  /-- And the recovery codes, if it was the last. -/
  | drop (id : FactorId) (codes : List String)
  deriving DecidableEq

/-- A factor that is proved and written. -/
inductive Enrolment where
  | totp (id : FactorId) (step : Int)
  | key (challenge : String) (row : KeyRow)
  deriving DecidableEq

/-- With the codes minted for it. -/
def Enrolment.effect (codes : List String) : Enrolment → Effect
  | .totp id step => .enrol id step codes
  | .key challenge row => .add challenge row codes

/-- What a transaction has done. -/
inductive Stage where
  | begun
  /-- No recovery code was spent. -/
  | unspent
  /-- The rows that are still to be locked, and those that are. -/
  | locking (rest : List FactorId) (rows : List (FactorId × TotpRow))
  /-- The challenge is spent. -/
  | spent
  /-- The factor is written; recovery codes may be minted. -/
  | proved (held : List FactorId) (enrolment : Enrolment)
  /-- The factor is deleted. -/
  | removed
  | done (held : List FactorId) (effect : Effect)
  deriving DecidableEq

structure Tx where
  began : Time
  request : Request
  stage : Stage
  deriving DecidableEq

/-- It has the factor's row locked. -/
def Tx.holds (id : FactorId) (t : Tx) : Bool :=
  match t.stage with
  | .locking _ rows => rows.any (·.1 = id)
  | .removed => t.request = .remove id
  | .proved held _ => id ∈ held
  | .done held _ => id ∈ held
  | _ => false

def Effect.holdsCode (hash : String) : Effect → Bool
  | .recover hash' => hash' = hash
  | .drop _ codes => hash ∈ codes
  | _ => false

def Tx.holdsCode (hash : String) (t : Tx) : Bool :=
  match t.stage with
  | .done _ effect => effect.holdsCode hash
  | _ => false

def Effect.holdsChallenge (challenge : String) : Effect → Bool
  | .spend challenge' => challenge' = challenge
  | .sign challenge' _ _ => challenge' = challenge
  | .add challenge' _ _ => challenge' = challenge
  | _ => false

def Tx.holdsChallenge (challenge : String) (t : Tx) : Bool :=
  match t.stage with
  | .spent => t.request.challenge.any (·.1 = challenge)
  | .proved _ enrolment => (enrolment.effect []).holdsChallenge challenge
  | .done _ effect => effect.holdsChallenge challenge
  | _ => false

-- =================================================================== state

inductive Event where
  | wrong (time : Time)
  | accepted (id : FactorId) (step : Int)
  | recovered (hash : String) (batch : Nat)
  | spent (challenge : String)
  | signed (id : FactorId) (stored received : Nat)
  deriving DecidableEq

structure World where
  now : Time
  totps : FactorId → Option TotpRow
  keys : FactorId → Option KeyRow
  /-- The ids given out. -/
  ids : List FactorId
  codes : String → Option CodeRow
  /-- The hashes there have been. -/
  hashes : List String
  batch : Nat
  challenges : String → Option ChallengeRow
  txs : List Tx
  log : List Event

/-- The account has no factor, and nobody has asked. -/
def World.new (now : Time) : World where
  now := now
  totps := fun _ => none
  keys := fun _ => none
  ids := []
  codes := fun _ => none
  hashes := []
  batch := 0
  challenges := fun _ => none
  txs := []
  log := []

def init (s : World) : Prop := ∃ now, s = World.new now

inductive Action where
  | tick (elapsed : Time)
  /-- `begin`: a label and a sealed secret. -/
  | enrol (began : Time) (label secret : String)
  | issueChallenge (began : Time) (purpose : Purpose) (challenge : String)
  | ask (request : Request)
  /-- `SELECT … ORDER BY created_at FOR UPDATE` starts: ties are in any
  order. -/
  | select (t : Tx) (order : List FactorId)
  /-- The next statement, with the hashes of the codes it would mint. -/
  | run (t : Tx) (minted : List String)
  /-- The transaction is lost. -/
  | abort (t : Tx)

/-- What this installation is configured with; with no sealing key there
are no codes to compare. -/
structure Deps where
  host : Host
  sealing : Bool
  relyingParty : RelyingParty

def Deps.offersKeys (deps : Deps) : Bool := deps.relyingParty.id ≠ ""

-- ============================================================== statements

def World.confirmed (s : World) (id : FactorId) : Bool := (s.totps id).any (·.confirmed)

/-- The confirmed factors of either kind. -/
def World.factors (s : World) : List FactorId :=
  s.ids.filter fun id => s.confirmed id || (s.keys id).isSome

def World.createdAt (s : World) (id : FactorId) : Time := ((s.totps id).map (·.createdAt)).getD 0

/-- Some other transaction has the row locked. -/
def World.heldBy (s : World) (t : Tx) (id : FactorId) : Bool := (s.txs.erase t).any (·.holds id)

def World.codeHeldBy (s : World) (t : Tx) (hash : String) : Bool :=
  (s.txs.erase t).any (·.holdsCode hash)

def World.challengeHeldBy (s : World) (t : Tx) (challenge : String) : Bool :=
  (s.txs.erase t).any (·.holdsChallenge challenge)

/-- Recovery codes that are not spent. -/
def World.hasCodes (s : World) : Bool :=
  s.hashes.any fun hash => (s.codes hash).any (·.usedAt = none)

/-- The key of a credential. -/
def World.keyOf (s : World) (credentialId : String) : Option FactorId :=
  s.ids.find? fun id => (s.keys id).any (·.credentialId = credentialId)

/-- What a code comes to. -/
inductive Verdict where
  | accepted (id : FactorId) (step : Int)
  | wrong
  /-- No factor was there to compare it with. -/
  | unasked
  /-- An error, after it was compared with another factor or not. -/
  | thrown (compared : Bool)
  deriving DecidableEq

/-- `verifyTotp(openTotpSecret(row.secret, key), code, …)`. -/
def compare (host : Host) (code : String) (now : Time) (row : TotpRow) : Option (Option Int) :=
  (openTotpSecret host row.secret).bind fun secret =>
    verifyTotp host secret code now row.lastStep

/-- The first loop of `verify`. -/
def scan (host : Host) (code : String) (now : Time) :
    List (FactorId × TotpRow) → Bool → Verdict
  | [], compared => if compared then .wrong else .unasked
  | (id, row) :: rest, compared =>
      if row.locked now then scan host code now rest compared
      else
        match compare host code now row with
        | none => .thrown compared
        | some none => scan host code now rest true
        | some (some step) => .accepted id step

/-- The second loop: the rows that were not locked. -/
def failing (began now : Time) (rows : List (FactorId × TotpRow)) : List (FactorId × TotpRow) :=
  (rows.filter fun p => !p.2.locked now).map fun p => (p.1, p.2.failed began)

def World.advance (s : World) (t : Tx) (stage : Stage) : World :=
  { s with txs := { t with stage := stage } :: s.txs.erase t }

def World.drop (s : World) (t : Tx) : World := { s with txs := s.txs.erase t }

def World.record (s : World) (event : Event) : World := { s with log := event :: s.log }

/-- The rest of `verify`, when its rows are locked. -/
def verify (deps : Deps) (s : World) (t : Tx) (code : String)
    (rows : List (FactorId × TotpRow)) : World :=
  match scan deps.host code s.now rows false with
  | .accepted id step => s.advance t (.done (rows.map Prod.fst) (.accept id step))
  | .wrong =>
      (s.advance t (.done (rows.map Prod.fst) (.fail (failing t.began s.now rows)))).record
        (.wrong s.now)
  | .unasked => s.advance t (.done (rows.map Prod.fst) .nothing)
  | .thrown compared => if compared then (s.drop t).record (.wrong s.now) else s.drop t

/-- `spendChallenge`, which waits for the row. -/
def spendChallenge (s : World) (t : Tx) (challenge : String) (purpose : Purpose) :
    Option World :=
  match s.challenges challenge with
  | none => some (s.advance t (.done [] .nothing))
  | some row =>
      if row.purpose = purpose ∧ row.usedAt = none ∧ t.began < row.expiresAt then
        if s.challengeHeldBy t challenge then none else some (s.advance t .spent)
      else some (s.advance t (.done [] .nothing))

/-- The first statement of a transaction. -/
def start (deps : Deps) (s : World) (t : Tx) : Option World :=
  match t.request with
  | .verify code =>
      let hash := hashRecoveryCode deps.host code
      match s.codes hash with
      | none => some (s.advance t .unspent)
      | some row =>
          if row.usedAt = none then
            if s.codeHeldBy t hash then none else some (s.advance t (.done [] (.recover hash)))
          else some (s.advance t .unspent)
  | .confirm id code =>
      if !deps.sealing then some (s.advance t (.done [] .nothing))
      else
        match s.totps id with
        | none => some (s.advance t (.done [] .nothing))
        | some row =>
            if row.confirmed then some (s.advance t (.done [] .nothing))
            else if s.heldBy t id then none
            else
              match compare deps.host code s.now row with
              | none => some (s.drop t)
              | some none => some (s.advance t (.done [id] .nothing))
              | some (some step) => some (s.advance t (.proved [id] (.totp id step)))
  | .remove id =>
      if (s.totps id).isSome || (s.keys id).isSome then
        if s.heldBy t id then none else some (s.advance t .removed)
      else some (s.advance t (.done [] .nothing))
  | .register _ attestationObject clientDataJSON challenge =>
      if deps.offersKeys && (verifyRegistration deps.host deps.relyingParty attestationObject
          clientDataJSON challenge).isSome then
        spendChallenge s t challenge .register
      else some (s.advance t (.done [] .nothing))
  | .assertion response =>
      if deps.offersKeys then spendChallenge s t response.challenge .authenticate
      else some (s.advance t (.done [] .nothing))

/-- What a challenge was spent on. -/
def finish (deps : Deps) (s : World) (t : Tx) : Option World :=
  match t.request with
  | .register label attestationObject clientDataJSON challenge =>
      match verifyRegistration deps.host deps.relyingParty attestationObject clientDataJSON
          challenge with
      | none => none
      | some registration =>
          let row := KeyRow.mk label (b64url registration.credentialId) registration.publicKey
            registration.signCount
          some (s.advance t (.proved [] (.key challenge row)))
  | .assertion response =>
      match s.keyOf response.credentialId with
      | none => some (s.advance t (.done [] (.spend response.challenge)))
      | some id =>
          if s.heldBy t id then none
          else
            match s.keys id with
            | none => none
            | some row =>
                match verifyAssertion deps.host deps.relyingParty response row.publicKey
                    row.signCount with
                | none => some (s.advance t (.done [id] (.spend response.challenge)))
                | some assertion =>
                    some (s.advance t
                      (.done [id] (.sign response.challenge id assertion.signCount)))
  | _ => none

-- ================================================================ the commit

def World.setTotp (s : World) (id : FactorId) (row : TotpRow) : World :=
  { s with totps := Function.update s.totps id (some row) }

/-- The rows of a failure, one after the other. -/
def World.setTotps (s : World) : List (FactorId × TotpRow) → World
  | [] => s
  | (id, row) :: rest => (s.setTotp id row).setTotps rest

/-- The new codes: none of their hashes is there. -/
def World.addCodes (s : World) (codes : List String) : World :=
  { s with
    codes := fun hash => if hash ∈ codes then some ⟨s.batch, none⟩ else s.codes hash
    hashes := codes ++ s.hashes
    batch := s.batch + 1 }

def World.useChallenge (s : World) (challenge : String) (began : Time) : World :=
  { s with
    challenges := Function.update s.challenges challenge
      ((s.challenges challenge).map fun row => { row with usedAt := some began })
    log := .spent challenge :: s.log }

/-- What was written, committed. -/
def World.apply (s : World) (began : Time) : Effect → World
  | .nothing => s
  | .recover hash =>
      match s.codes hash with
      | none => s
      | some row =>
          { s with
            codes := Function.update s.codes hash (some { row with usedAt := some began })
            log := .recovered hash row.batch :: s.log }
  | .accept id step =>
      match s.totps id with
      | none => s
      | some row => (s.setTotp id (row.accepted step)).record (.accepted id step)
  | .fail rows => s.setTotps rows
  | .enrol id step codes =>
      match s.totps id with
      | none => s
      | some row =>
          ((s.setTotp id (row.confirmedAt step)).record (.accepted id step)).addCodes codes
  | .spend challenge => s.useChallenge challenge began
  | .sign challenge id count =>
      match s.keys id with
      | none => s
      | some row =>
          ({ s with keys := Function.update s.keys id (some { row with signCount := count }) }.record
            (.signed id row.signCount count)).useChallenge challenge began
  | .add challenge row codes =>
      ({ s with
          keys := Function.update s.keys s.ids.length (some row)
          ids := s.ids.length :: s.ids }.useChallenge challenge began).addCodes codes
  | .drop id codes =>
      { s with
        totps := Function.update s.totps id none
        keys := Function.update s.keys id none
        codes := fun hash => if hash ∈ codes then none else s.codes hash }

section

variable {s : World} {began : Time} {id : FactorId}

theorem apply_recover {hash : String} {row : CodeRow} (h : s.codes hash = some row) :
    s.apply began (.recover hash) = { s with
      codes := Function.update s.codes hash (some { row with usedAt := some began })
      log := .recovered hash row.batch :: s.log } := by
  unfold World.apply
  dsimp only
  rw [h]

theorem apply_accept {step : Int} {row : TotpRow} (h : s.totps id = some row) :
    s.apply began (.accept id step)
      = (s.setTotp id (row.accepted step)).record (.accepted id step) := by
  unfold World.apply
  dsimp only
  rw [h]

theorem apply_enrol {step : Int} {codes : List String} {row : TotpRow}
    (h : s.totps id = some row) :
    s.apply began (.enrol id step codes)
      = ((s.setTotp id (row.confirmedAt step)).record (.accepted id step)).addCodes codes := by
  unfold World.apply
  dsimp only
  rw [h]

theorem apply_sign {challenge : String} {count : Nat} {row : KeyRow} (h : s.keys id = some row) :
    s.apply began (.sign challenge id count)
      = ({ s with keys := Function.update s.keys id (some { row with signCount := count }) }.record
          (.signed id row.signCount count)).useChallenge challenge began := by
  unfold World.apply
  dsimp only
  rw [h]

end

/-- The unique indexes: the codes to be minted are not there, nor is a key
of that label or of that credential. -/
def Effect.unique (s : World) : Effect → Bool
  | .enrol _ _ codes => codes.all fun hash => s.codes hash = none
  | .add _ row codes =>
      (codes.all fun hash => s.codes hash = none)
        && s.ids.all fun id => (s.keys id).all fun row' =>
          row'.label ≠ row.label && row'.credentialId ≠ row.credentialId
  | _ => true

-- ================================================================== the step

/-- The next statement of a transaction. -/
def runTx (deps : Deps) (s : World) (t : Tx) (minted : List String) : Option World :=
  match t.stage with
  | .begun => start deps s t
  | .unspent =>
      -- with a key, the factors are selected first
      if deps.sealing then none else some (s.advance t (.done [] .nothing))
  | .locking (id :: rest) rows =>
      if s.heldBy t id then none
      else
        match s.totps id with
        | none => some (s.advance t (.locking rest rows))
        | some row =>
            -- what was selected is asked again of the row as it is now
            if row.confirmed then some (s.advance t (.locking rest (rows ++ [(id, row)])))
            else some (s.advance t (.locking rest rows))
  | .locking [] rows =>
      match t.request with
      | .verify code => some (verify deps s t code rows)
      | _ => none
  | .spent => finish deps s t
  | .proved held enrolment =>
      -- the first factor of an account mints its recovery codes
      if s.hasCodes then some (s.advance t (.done held (enrolment.effect [])))
      else if minted.length = recoveryCodeCount ∧ minted.Nodup then
        some (s.advance t (.done held (enrolment.effect minted)))
      else none
  | .removed =>
      match t.request with
      | .remove id =>
          if s.factors.all (· = id) then
            let codes := s.hashes.filter fun hash => (s.codes hash).isSome
            if codes.any (s.codeHeldBy t) then none
            else some (s.advance t (.done [id] (.drop id codes)))
          else some (s.advance t (.done [id] (.drop id [])))
      | _ => none
  | .done _ effect =>
      -- what a unique index refuses is an error
      if effect.unique s then some ((s.drop t).apply t.began effect) else some (s.drop t)

/-- `begin`: an abandoned row of that label is replaced. -/
def enrol (deps : Deps) (s : World) (began : Time) (label secret : String) : Option World :=
  let named := s.ids.filter fun id => (s.totps id).any (·.label = label)
  if deps.sealing ∧ began ≤ s.now
      ∧ named.all fun id => !s.confirmed id && !s.txs.any (·.holds id) then
    some { s with
      totps := Function.update (fun id => if id ∈ named then none else s.totps id) s.ids.length
        (some ⟨secret, label, began, false, none, 0, none⟩)
      ids := s.ids.length :: s.ids }
  else none

def step (deps : Deps) (s : World) : Action → Option World
  | .tick elapsed => some { s with now := s.now + elapsed }
  | .enrol began label secret => enrol deps s began label secret
  | .issueChallenge began purpose challenge =>
      if began ≤ s.now ∧ s.challenges challenge = none then
        some { s with
          challenges := Function.update s.challenges challenge
            (some ⟨purpose, began + seconds challengeTtlSeconds, none⟩) }
      else none
  | .ask request => some { s with txs := ⟨s.now, request, .begun⟩ :: s.txs }
  | .select t order =>
      if t ∈ s.txs ∧ t.stage = .unspent ∧ deps.sealing = true
          ∧ order.Perm (s.ids.filter s.confirmed)
          ∧ order.Pairwise (fun a b => s.createdAt a ≤ s.createdAt b) then
        some (s.advance t (.locking order []))
      else none
  | .run t minted => if t ∈ s.txs then runTx deps s t minted else none
  | .abort t => if t ∈ s.txs then some (s.drop t) else none

end Nacre.Factors
