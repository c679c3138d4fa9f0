/-
One document sent again: when the hash that `queue` stored and the hash
a pass wrote back are one (api/src/adapters.ts `NacreIngest.queue`,
worker/src/main.ts, worker/src/ingest.ts `ingest`).

A re-send of an indexed document is no work exactly when its hash is the
row's, and the row's is the one the pass computed from what it read:
the inline text, the object's bytes through `TextDecoder`, or what a URL
answered.

# Where the two part

`TextDecoder` drops a leading byte order mark, so a text that begins
with one comes back from the bucket without it, and is re-indexed on
every send (`resent_with_mark`). And a row keeps its source while the
hash stays: sent inline, the very text a URL last answered leaves the
row a `url` one, and what the next pass hashes is what the URL answers
then.

`Faithful` is the condition on the row and the request. The other
statements on the row are here so that the row before a send is any row
the program can leave.
-/
import Nacre.Ingest.Source
import Nacre.Lib.Transition

namespace Nacre.Ingest.Resend

open Nacre.Store Transition

variable {μ : Type} [DecidableEq μ]

-- ================================================================= state

structure Config where
  /-- Whether the deployment has object storage. -/
  objects : Bool
  /-- `documentKey` of the document. -/
  key : String
  sidecar : Sidecar
  leaseSeconds : Nat
  maxAttempts : Nat

/-- The document's row, and the bucket. -/
structure Stored (μ : Type) where
  row : Option (Document μ)
  bucket : String → Option Object

def init (s : Stored μ) : Prop := s = ⟨none, fun _ => none⟩

inductive Action (μ : Type) where
  | queue (req : Request μ) (now : Time)
  | updateMetadata (metadata : μ) (now : Time)
  | remove (now : Time)
  | retry (now : Time)
  | claimNext (now : Time)
  /-- The rest of a pass, from the claim to the fenced upsert. -/
  | ingest (chunkCount : Nat) (now : Time)
  | recordFailure (claim : Time) (failure : Failure) (now : Time)
  | claimStranded (now : Time)

/-- The row a request leaves. -/
def sent (req : IngestRequest μ) (now : Time) : Option (Document μ) → Document μ
  | none => queued req now
  | some row => resent req now row

/-- The source a pass over the row parses. -/
def Stored.source (s : Stored μ) (row : Document μ) : Except String Parsable :=
  sourceOf row.sourceType row.sourceRef row.contentType
    ((s.bucket row.sourceRef).map (·.bytes))

/-- The hash a pass over the row writes back, if it gets that far. -/
def Stored.written (cfg : Config) (s : Stored μ) (row : Document μ) : Option String :=
  match s.source row with
  | .error _ => none
  | .ok source => (cfg.sidecar.parse source).map fun text => source.hash text

def step (cfg : Config) (s : Stored μ) : Action μ → Option (Stored μ)
  | .queue req now =>
      (prepare cfg.objects cfg.key req).map fun (row, object) =>
        { row := some (sent row now s.row)
          bucket := match object with
            | none => s.bucket
            | some object => Function.update s.bucket cfg.key (some object) }
  | .updateMetadata metadata now =>
      s.row.map fun row => { s with row := some (retagged metadata now row) }
  | .remove now => s.row.map fun row => { s with row := some (tombstoned now row) }
  | .retry now =>
      (s.row.bind (retried now)).map fun row => { s with row := some row }
  | .claimNext now =>
      (s.row.filter (claimable now)).map fun row =>
        { s with row := some (claimed now row) }
  | .ingest chunkCount now =>
      match s.row.filter (fun row => row.status = .parsing && row.deletedAt = none) with
      | none => none
      | some row =>
          (s.written cfg row).map fun hash =>
            { s with row := some (upserted ⟨hash, none⟩ chunkCount now row) }
  | .recordFailure claim failure now =>
      s.row.map fun row =>
        { s with row := some (failed claim failure cfg.maxAttempts now row) }
  | .claimStranded now =>
      (s.row.filter (expired cfg.leaseSeconds now)).map fun row =>
        { s with row := some (reaped cfg.maxAttempts now row) }

-- ============================================================ the property

/-- Nobody but the worker touches the row. -/
def Working (_ : Stored μ) : Action μ → Prop
  | .queue .. | .updateMetadata .. | .remove .. => False
  | _ => True

instance (s : Stored μ) (a : Action μ) : Decidable (Working s a) := by
  cases a with
  | queue => exact inferInstanceAs (Decidable False)
  | updateMetadata => exact inferInstanceAs (Decidable False)
  | remove => exact inferInstanceAs (Decidable False)
  | _ => exact inferInstanceAs (Decidable True)

/-- The row is indexed: what the response calls `unchanged`, and what no
worker claims. -/
def Stored.indexed (s : Stored μ) : Bool := s.row.any (·.status = .indexed)

/-- Text, or a binary file the edge admitted. -/
def Accepted (req : Request μ) : Prop :=
  match req.source with
  | .content _ => True
  | .url _ => False
  | .binary bytes contentType =>
      ∃ file declared, admitBytes file declared true = .binary bytes contentType

/-- The row keeps its URL: the request's hash is the one it has. -/
def keepsUrl (req : IngestRequest μ) (row : Document μ) : Bool :=
  row.sourceType = "url" && row.contentHash = req.contentHash

/-- A row that keeps its URL still gets the same text from it, and a text
that goes through the bucket begins with no byte order mark (or SHA-256
cannot tell). -/
def Faithful (cfg : Config) (prior : Option (Document μ)) (req : Request μ)
    (row : IngestRequest μ) : Prop :=
  match prior.filter (keepsUrl row) with
  | some before => ∀ text, cfg.sidecar.fetch before.sourceRef = some text →
      contentHash text = row.contentHash
  | none => ∀ text, req.source = .content text → cfg.objects = true →
      (Js.toWellFormed text).toList.head? ≠ some Js.bom
        ∨ contentHash (Js.dropBom (Js.toWellFormed text))
            = contentHash (Js.toWellFormed text)

-- ============================================================ the sources

/-- Where a row's content is, and what its hash says of it. -/
def Sourced (cfg : Config) (row : Document μ) : Prop :=
  row.sourceType = "url"
    ∨ (cfg.objects = true ∧ row.sourceType = "s3" ∧ row.sourceRef = cfg.key)
    ∨ (cfg.objects = false ∧ row.sourceType = "inline"
      ∧ row.contentHash = contentHash row.sourceRef)

variable {cfg : Config} {s s₁ s₂ s₃ : Stored μ} {row row' : Document μ}
  {prior : Option (Document μ)} {req : Request μ} {values : IngestRequest μ}
  {object : Option Object} {now : Time}

/-- What `queue` has ready for a source. -/
inductive Prepared (cfg : Config) : Source → IngestRequest μ → Option Object → Prop
  | object (source : Source) (values : IngestRequest μ) (bytes : ByteArray)
      (hobjects : cfg.objects = true) (htype : values.sourceType = "s3")
      (href : values.sourceRef = cfg.key) (hhash : values.contentHash = bytesHash bytes)
      (hsource : source = .binary bytes values.contentType
        ∨ values.contentType = "text/plain"
          ∧ ∃ text, source = .content text ∧ bytes = Js.encode text) :
      Prepared cfg source values (some ⟨bytes, values.contentType⟩)
  | inline (text : List UInt16) (values : IngestRequest μ)
      (hobjects : cfg.objects = false) (htype : values.sourceType = "inline")
      (hhash : values.contentHash = contentHash values.sourceRef) :
      Prepared cfg (.content text) values none
  | url (url : List UInt16) (values : IngestRequest μ)
      (htype : values.sourceType = "url") : Prepared cfg (.url url) values none

omit [DecidableEq μ] in
theorem prepared (h : prepare cfg.objects cfg.key req = some (values, object)) :
    Prepared cfg req.source values object ∧ values.metadata = req.metadata := by
  unfold prepare at h
  dsimp only at h
  split at h
  next bytes contentType hsource =>
    rw [Option.ite_none_right_eq_some] at h
    obtain ⟨hobjects, h⟩ := h
    cases h
    exact ⟨.object req.source _ bytes hobjects rfl rfl rfl (.inl hsource), rfl⟩
  next text hsource =>
    split at h
    next hobjects =>
      cases h
      exact ⟨.object req.source _ (Js.encode text) hobjects rfl rfl rfl
        (.inr ⟨rfl, text, hsource, rfl⟩), rfl⟩
    next hobjects =>
      cases h
      rw [hsource]
      exact ⟨.inline text _ (Bool.eq_false_iff.2 hobjects) rfl rfl, rfl⟩
  next url hsource =>
    cases h
    rw [hsource]
    exact ⟨.url url _ rfl, rfl⟩

/-- A row that keeps no URL has the source it is sent with. -/
theorem sent_source (now : Time)
    (hkeeps : prior.filter (keepsUrl values) = none) :
    (sent values now prior).sourceType = values.sourceType
        ∧ (sent values now prior).sourceRef = values.sourceRef
      ∨ ∃ row, prior = some row ∧ row.contentHash = values.contentHash
        ∧ row.sourceType ≠ "url" ∧ (sent values now prior).sourceType = row.sourceType
        ∧ (sent values now prior).sourceRef = row.sourceRef := by
  cases prior with
  | none => exact .inl ⟨rfl, rfl⟩
  | some row =>
      by_cases hhash : row.contentHash = values.contentHash
      · right
        refine ⟨row, rfl, hhash, ?_, ?_, ?_⟩
        · intro hurl
          simp [keepsUrl, hurl, hhash] at hkeeps
        · simp [sent, resent, hhash]
        · simp [sent, resent, hhash]
      · left
        simp [sent, resent, hhash]

theorem sent_object (now : Time) (hprior : ∀ row ∈ prior, Sourced cfg row)
    (hkeeps : prior.filter (keepsUrl values) = none) (hobjects : cfg.objects = true)
    (htype : values.sourceType = "s3") (href : values.sourceRef = cfg.key) :
    (sent values now prior).sourceType = "s3"
      ∧ (sent values now prior).sourceRef = cfg.key := by
  rcases sent_source now hkeeps with
    ⟨htype', href'⟩ | ⟨row, rfl, -, hurl, htype', href'⟩
  · exact ⟨htype'.trans htype, href'.trans href⟩
  · rcases hprior row rfl with h | ⟨-, h, hkey⟩ | ⟨h, -⟩
    · exact absurd h hurl
    · exact ⟨htype'.trans h, href'.trans hkey⟩
    · rw [hobjects] at h
      cases h

theorem sent_inline (now : Time) (hprior : ∀ row ∈ prior, Sourced cfg row)
    (hkeeps : prior.filter (keepsUrl values) = none) (hobjects : cfg.objects = false)
    (htype : values.sourceType = "inline")
    (hhash : values.contentHash = contentHash values.sourceRef) :
    (sent values now prior).sourceType = "inline"
      ∧ contentHash (sent values now prior).sourceRef = values.contentHash := by
  rcases sent_source now hkeeps with
    ⟨htype', href'⟩ | ⟨row, rfl, hsame, hurl, htype', href'⟩
  · rw [htype', href']
    exact ⟨htype, hhash.symm⟩
  · rcases hprior row rfl with h | ⟨h, -⟩ | ⟨-, h, hrow⟩
    · exact absurd h hurl
    · rw [hobjects] at h
      cases h
    · rw [htype', href', ← hsame]
      exact ⟨h, hrow.symm⟩

theorem sent_contentHash : (sent values now prior).contentHash = values.contentHash := by
  cases prior with
  | none => rfl
  | some row => rfl

theorem sent_contentType :
    (sent values now prior).contentType = values.contentType := by
  cases prior with
  | none => rfl
  | some row => rfl

theorem sent_metadata : (sent values now prior).metadata = values.metadata := by
  cases prior with
  | none => rfl
  | some row => rfl

theorem sent_deletedAt : (sent values now prior).deletedAt = none := by
  cases prior with
  | none => rfl
  | some row => rfl

omit [DecidableEq μ] in
theorem accepted_binary (h : Accepted req) {bytes : ByteArray} {contentType : String}
    (hsource : req.source = .binary bytes contentType) :
    isBinaryFormat contentType = true := by
  unfold Accepted at h
  rw [hsource] at h
  obtain ⟨file, declared, hadmitted⟩ := h
  exact (admitBytes_binary hadmitted).2.2

theorem sourced_sent (hprior : ∀ row ∈ prior, Sourced cfg row) {source : Source}
    (hready : Prepared cfg source values object) :
    Sourced cfg (sent values now prior) := by
  cases hkeeps : prior.filter (keepsUrl values) with
  | some before =>
      obtain ⟨rfl, hurl⟩ := Option.filter_eq_some_iff.1 hkeeps
      simp only [keepsUrl, Bool.and_eq_true, decide_eq_true_eq] at hurl
      left
      simp [sent, resent, hurl]
  | none =>
      unfold Sourced
      rw [sent_contentHash]
      rcases sent_source now hkeeps with
        ⟨htype', href'⟩ | ⟨row, rfl, hsame, -, htype', href'⟩
      · rw [htype', href']
        cases hready with
        | object _ _ bytes hobjects htype href =>
            exact .inr (.inl ⟨hobjects, htype, href⟩)
        | inline text _ hobjects htype hhash =>
            exact .inr (.inr ⟨hobjects, htype, hhash⟩)
        | url url _ htype => exact .inl htype
      · rw [htype', href', ← hsame]
        exact hprior row rfl

/-- A write that leaves the source and its hash alone. -/
def SameSource (row row' : Document μ) : Prop :=
  row'.sourceType = row.sourceType ∧ row'.sourceRef = row.sourceRef
    ∧ row'.contentHash = row.contentHash

omit [DecidableEq μ] in
theorem Sourced.same (h : Sourced cfg row) (hsame : SameSource row row') :
    Sourced cfg row' := by
  obtain ⟨htype, href, hhash⟩ := hsame
  unfold Sourced
  rw [htype, href, hhash]
  exact h

/-- Everything a pass and the next send of the document read of its row,
its hash aside. -/
structure Kept (row row' : Document μ) : Prop where
  sourceType : row'.sourceType = row.sourceType
  sourceRef : row'.sourceRef = row.sourceRef
  contentType : row'.contentType = row.contentType
  metadata : row'.metadata = row.metadata
  deletedAt : row'.deletedAt = row.deletedAt

omit [DecidableEq μ] in
theorem kept_failed {claim : Time} {failure : Failure} {maxAttempts : Nat} :
    Kept row (failed claim failure maxAttempts now row)
      ∧ (failed claim failure maxAttempts now row).contentHash = row.contentHash := by
  unfold failed
  dsimp only
  split
  next => exact ⟨⟨rfl, rfl, rfl, rfl, rfl⟩, rfl⟩
  next => exact ⟨⟨rfl, rfl, rfl, rfl, rfl⟩, rfl⟩

section Written

omit [DecidableEq μ]

theorem written_inline (h : row.sourceType = "inline") :
    s.written cfg row = some (contentHash row.sourceRef) := by
  simp [Stored.written, Stored.source, sourceOf, h, Sidecar.parse, Parsable.hash]

theorem written_url (h : row.sourceType = "url") :
    s.written cfg row = (cfg.sidecar.fetch row.sourceRef).map contentHash := by
  simp [Stored.written, Stored.source, sourceOf, h, Sidecar.parse, Parsable.hash]

theorem written_text {text : String} {contentType : String}
    (htype : row.sourceType = "s3") (hplain : row.contentType = "text/plain")
    (hobject : s.bucket row.sourceRef = some ⟨text.toUTF8, contentType⟩) :
    s.written cfg row = some (contentHash (Js.dropBom text)) := by
  simp only [Stored.written, Stored.source, sourceOf, htype, hplain, hobject, if_true,
    Option.map_some, not_isBinaryFormat_text, Bool.false_eq_true, if_false,
    Js.decode_toUTF8, Sidecar.parse, Parsable.hash]

theorem written_binary {object : Object} {hash : String}
    (htype : row.sourceType = "s3") (hbinary : isBinaryFormat row.contentType = true)
    (hobject : s.bucket row.sourceRef = some object)
    (h : s.written cfg row = some hash) : hash = bytesHash object.bytes := by
  simp only [Stored.written, Stored.source, sourceOf, htype, hobject, if_true,
    Option.map_some, hbinary] at h
  obtain ⟨text, -, rfl⟩ := Option.map_eq_some_iff.1 h
  rfl

/-- What is written back depends on the source alone. -/
theorem written_kept {s' : Stored μ} (hbucket : s'.bucket = s.bucket)
    (hkept : Kept row row') : s'.written cfg row' = s.written cfg row := by
  unfold Stored.written Stored.source
  rw [hbucket, hkept.sourceType, hkept.sourceRef, hkept.contentType]

end Written

omit [DecidableEq μ] in
theorem Sourced.written (h : Sourced cfg row) (hkept : Kept row row')
    (hwritten : s.written cfg row = some row'.contentHash) : Sourced cfg row' := by
  unfold Sourced at h ⊢
  rw [hkept.sourceType, hkept.sourceRef]
  rcases h with hurl | hobject | ⟨hobjects, hinline, -⟩
  · exact .inl hurl
  · exact .inr (.inl hobject)
  · rw [written_inline hinline] at hwritten
    exact .inr (.inr ⟨hobjects, hinline, (Option.some.inj hwritten).symm⟩)

/-- What a worker's step makes of the row: a hash written back, or the
same hash and no newly indexed row. -/
theorem working_step {a : Action μ} (hok : Working s a)
    (h : step cfg s a = some s₁) :
    s₁.bucket = s.bucket ∧ ∃ row row', s.row = some row ∧ s₁.row = some row'
      ∧ Kept row row' ∧ (s.written cfg row = some row'.contentHash
        ∨ row'.contentHash = row.contentHash
          ∧ (row'.status = .indexed → row.status = .indexed)) := by
  cases a with
  | queue req now => exact hok.elim
  | updateMetadata metadata now => exact hok.elim
  | remove now => exact hok.elim
  | retry now =>
      obtain ⟨row', hrow', rfl⟩ := Option.map_eq_some_iff.1 h
      obtain ⟨row, hrow, hretried⟩ := Option.bind_eq_some_iff.1 hrow'
      unfold retried at hretried
      rw [Option.ite_none_right_eq_some] at hretried
      obtain ⟨-, hretried⟩ := hretried
      cases hretried
      exact ⟨rfl, row, _, hrow, rfl, ⟨rfl, rfl, rfl, rfl, rfl⟩, .inr ⟨rfl, nofun⟩⟩
  | claimNext now =>
      obtain ⟨row, hrow, rfl⟩ := Option.map_eq_some_iff.1 h
      obtain ⟨hrow, -⟩ := Option.filter_eq_some_iff.1 hrow
      exact ⟨rfl, row, _, hrow, rfl, ⟨rfl, rfl, rfl, rfl, rfl⟩, .inr ⟨rfl, nofun⟩⟩
  | ingest chunkCount now =>
      simp only [step] at h
      split at h
      next => cases h
      next row hrow =>
        obtain ⟨hrow, -⟩ := Option.filter_eq_some_iff.1 hrow
        obtain ⟨hash, hhash, rfl⟩ := Option.map_eq_some_iff.1 h
        exact ⟨rfl, row, _, hrow, rfl, ⟨rfl, rfl, rfl, rfl, rfl⟩, .inl hhash⟩
  | recordFailure claim failure now =>
      obtain ⟨row, hrow, rfl⟩ := Option.map_eq_some_iff.1 h
      exact ⟨rfl, row, _, hrow, rfl, kept_failed.1, .inr ⟨kept_failed.2, failed_indexed⟩⟩
  | claimStranded now =>
      obtain ⟨row, hrow, rfl⟩ := Option.map_eq_some_iff.1 h
      obtain ⟨hrow, -⟩ := Option.filter_eq_some_iff.1 hrow
      refine ⟨rfl, row, _, hrow, rfl, ⟨rfl, rfl, rfl, rfl, rfl⟩, .inr ⟨rfl, ?_⟩⟩
      intro hindexed
      unfold reaped at hindexed
      dsimp only at hindexed
      split at hindexed
      next => cases hindexed
      next => cases hindexed

theorem sourced_step {a : Action μ} (h : ∀ row ∈ s.row, Sourced cfg row)
    (hs : step cfg s a = some s₁) : ∀ row ∈ s₁.row, Sourced cfg row := by
  have hworking : Working s a → ∀ row ∈ s₁.row, Sourced cfg row := by
    intro hok row' hrow'
    obtain ⟨-, row, row'', hrow, hrow'', hkept, hhash⟩ := working_step hok hs
    cases hrow'.symm.trans hrow''
    rcases hhash with hwritten | ⟨hsame, -⟩
    · exact (h row hrow).written hkept hwritten
    · exact (h row hrow).same ⟨hkept.sourceType, hkept.sourceRef, hsame⟩
  cases a with
  | queue req now =>
      obtain ⟨⟨values, object⟩, hprepare, rfl⟩ := Option.map_eq_some_iff.1 hs
      intro _ heq
      cases heq
      exact sourced_sent h (prepared hprepare).1
  | updateMetadata metadata now =>
      obtain ⟨row, hrow, rfl⟩ := Option.map_eq_some_iff.1 hs
      intro _ heq
      cases heq
      exact (h row hrow).same ⟨rfl, rfl, rfl⟩
  | remove now =>
      obtain ⟨row, hrow, rfl⟩ := Option.map_eq_some_iff.1 hs
      intro _ heq
      cases heq
      exact (h row hrow).same ⟨rfl, rfl, rfl⟩
  | _ => exact hworking trivial

theorem reachable_sourced (hs : Reachable (step cfg) anyStep init s) :
    ∀ row ∈ s.row, Sourced cfg row := by
  refine hs.invariant (I := fun s => ∀ row ∈ s.row, Sourced cfg row) ?_ ?_
  · intro _ heq row hrow
    subst heq
    cases hrow
  · intro t a t' ht _ ha
    exact sourced_step ht ha

-- ================================================================ the cycle

/-- From a send to any later state the worker alone brought about: the
row is what it was but for the hash, and an indexed row has the hash a
pass over what was sent writes back. -/
theorem working_run (hrow : s₁.row = some row) (hrun : Steps (step cfg) Working s₁ s₂) :
    s₂.bucket = s₁.bucket ∧ ∃ row', s₂.row = some row' ∧ Kept row row'
      ∧ (s₁.written cfg row = some row'.contentHash
        ∨ row'.contentHash = row.contentHash
          ∧ (row'.status = .indexed → row.status = .indexed)) := by
  refine hrun.invariant (I := fun t => t.bucket = s₁.bucket ∧ ∃ row', t.row = some row'
    ∧ Kept row row' ∧ (s₁.written cfg row = some row'.contentHash
      ∨ row'.contentHash = row.contentHash
        ∧ (row'.status = .indexed → row.status = .indexed))) ?_ ?_
  · exact ⟨rfl, row, hrow, ⟨rfl, rfl, rfl, rfl, rfl⟩, .inr ⟨rfl, id⟩⟩
  · intro t a t' hall hok ha
    obtain ⟨hbucket, before, hbefore, hkept, hhash⟩ := hall
    obtain ⟨hbucket', before', after, hbefore', hafter, hkept', hhash'⟩ :=
      working_step hok ha
    cases hbefore.symm.trans hbefore'
    have hall : Kept row after :=
      ⟨hkept'.sourceType.trans hkept.sourceType, hkept'.sourceRef.trans hkept.sourceRef,
        hkept'.contentType.trans hkept.contentType,
        hkept'.metadata.trans hkept.metadata, hkept'.deletedAt.trans hkept.deletedAt⟩
    refine ⟨hbucket'.trans hbucket, after, hafter, hall, ?_⟩
    rcases hhash' with hwritten | ⟨hsame, hindexed⟩
    · rw [written_kept hbucket hkept] at hwritten
      exact .inl hwritten
    · rcases hhash with hwritten | ⟨hold, hbefore'⟩
      · rw [← hsame] at hwritten
        exact .inl hwritten
      · exact .inr ⟨hsame.trans hold, hbefore' ∘ hindexed⟩

/-- A worker leaves an indexed row alone. -/
theorem working_settled (hrow : s₁.row = some row) (hindexed : row.status = .indexed)
    (hrun : Steps (step cfg) Working s₁ s₂) : s₂.row = some row := by
  refine hrun.invariant (I := fun t => t.row = some row) hrow ?_
  intro t a t' ht hok ha
  cases a with
  | queue req now => exact hok.elim
  | updateMetadata metadata now => exact hok.elim
  | remove now => exact hok.elim
  | retry now => simp [step, ht, retried, hindexed] at ha
  | claimNext now => simp [step, ht, claimable, hindexed] at ha
  | ingest chunkCount now => simp [step, ht, Option.filter, hindexed] at ha
  | recordFailure claim failure now =>
      simp only [step, ht, Option.map_some, Option.some.injEq, failed, fence,
        hindexed] at ha
      rw [← ha]
      simp
  | claimStranded now => simp [step, ht, expired, hindexed] at ha

/-- The hash written back against the hash stored. -/
theorem written_eq_iff (hprior : ∀ row ∈ s.row, Sourced cfg row) (hreq : Accepted req)
    (hprepare : prepare cfg.objects cfg.key req = some (values, object))
    (hsend : step cfg s (.queue req now) = some s₁) {hash : String}
    (hwritten : s₁.written cfg (sent values now s.row) = some hash) :
    hash = values.contentHash ↔ Faithful cfg s.row req values := by
  obtain ⟨hready, -⟩ := prepared hprepare
  simp only [step, hprepare, Option.map_some, Option.some.injEq] at hsend
  subst hsend
  unfold Faithful
  split
  next before hkeeps =>
    obtain ⟨hbefore, hurl⟩ := Option.filter_eq_some_iff.1 hkeeps
    simp only [keepsUrl, Bool.and_eq_true, decide_eq_true_eq] at hurl
    have htype : (sent values now s.row).sourceType = "url" := by
      simp [hbefore, sent, resent, hurl]
    have href : (sent values now s.row).sourceRef = before.sourceRef := by
      simp [hbefore, sent, resent, hurl]
    rw [written_url htype, href] at hwritten
    obtain ⟨text, htext, rfl⟩ := Option.map_eq_some_iff.1 hwritten
    constructor
    · intro heq text' htext'
      cases htext.symm.trans htext'
      exact heq
    · intro hall
      exact hall text htext
  next hkeeps =>
    generalize hsource : req.source = source at hready
    cases hready with
    | object _ _ bytes hobjects htype href hhash hkind =>
        obtain ⟨htype', href'⟩ := sent_object now hprior hkeeps hobjects htype href
        have hobject : Function.update s.bucket cfg.key
            (some ⟨bytes, values.contentType⟩) (sent values now s.row).sourceRef
              = some ⟨bytes, values.contentType⟩ := by
          rw [href', Function.update_self]
        rcases hkind with hbinary | ⟨hplain, text, htext, hbytes⟩
        · subst hbinary
          have hformat : isBinaryFormat (sent values now s.row).contentType = true := by
            rw [sent_contentType]
            exact accepted_binary hreq hsource
          rw [written_binary htype' hformat hobject hwritten, hhash]
          refine iff_of_true rfl ?_
          intro text htext
          cases htext
        · subst htext hbytes
          rw [written_text htype' (sent_contentType.trans hplain) hobject] at hwritten
          cases hwritten
          rw [hhash, bytesHash_encode]
          constructor
          · intro heq text' htext' _
            cases htext'
            exact .inr heq
          · intro hall
            rcases hall text rfl hobjects with hnone | heq
            · rw [Js.dropBom_of_head_ne hnone]
            · exact heq
    | inline text _ hobjects htype hhash =>
        obtain ⟨htype', href'⟩ := sent_inline now hprior hkeeps hobjects htype hhash
        rw [written_inline htype', href'] at hwritten
        cases hwritten
        refine iff_of_true rfl ?_
        intro text' _ hobjects'
        rw [hobjects] at hobjects'
        cases hobjects'
    | url url _ htype =>
        unfold Accepted at hreq
        rw [hsource] at hreq
        exact hreq.elim

theorem resent_indexed_iff (hindexed : row.status = .indexed)
    (hmeta : row.metadata = values.metadata) (hlive : row.deletedAt = none) :
    (resent values now row).status = .indexed ↔ row.contentHash = values.contentHash := by
  by_cases hhash : row.contentHash = values.contentHash
  · simp [resent, requeues, hhash, hmeta, hlive, hindexed]
  · simp [resent, requeues, hhash]

/-- A document is sent, indexed by the worker, and sent again: the second
send is no work exactly when the first was none already, or its row and
its text are `Faithful`. -/
theorem resend_unchanged_iff (hs : Reachable (step cfg) anyStep init s)
    (hreq : Accepted req)
    (hprepare : prepare cfg.objects cfg.key req = some (values, object))
    (hsend : step cfg s (.queue req now) = some s₁)
    (hrun : Steps (step cfg) Working s₁ s₂) (hindexed : s₂.indexed = true)
    {later : Time} (hagain : step cfg s₂ (.queue req later) = some s₃) :
    s₃.indexed = true ↔ s₁.indexed = true ∨ Faithful cfg s.row req values := by
  have hrow : s₁.row = some (sent values now s.row) := by
    simp only [step, hprepare, Option.map_some, Option.some.injEq] at hsend
    rw [← hsend]
  obtain ⟨-, row, hrow₂, hkept, hhash⟩ := working_run hrow hrun
  have hstatus : row.status = .indexed := by
    simpa [Stored.indexed, hrow₂] using hindexed
  have hmeta : row.metadata = values.metadata := hkept.metadata.trans sent_metadata
  have hlive : row.deletedAt = none := hkept.deletedAt.trans sent_deletedAt
  have hresent : s₃.indexed = true ↔ (resent values later row).status = .indexed := by
    simp only [step, hprepare, Option.map_some, Option.some.injEq] at hagain
    rw [← hagain, Stored.indexed, hrow₂]
    simp [sent]
  rw [hresent, resent_indexed_iff hstatus hmeta hlive]
  by_cases hfirst : (sent values now s.row).status = .indexed
  · rw [working_settled hrow hfirst hrun] at hrow₂
    cases hrow₂
    have hunchanged : s₁.indexed = true := by simpa [Stored.indexed, hrow] using hfirst
    exact iff_of_true sent_contentHash (.inl hunchanged)
  · have hwork : ¬ s₁.indexed = true := by simpa [Stored.indexed, hrow] using hfirst
    have hwritten := hhash.resolve_right fun h => hfirst (h.2 hstatus)
    rw [or_iff_right hwork]
    exact written_eq_iff (reachable_sourced hs) hreq hprepare hsend hwritten

-- =========================================================== a text document

/-- With object storage, and a sidecar that reaches nothing. -/
def sampleConfig : Config where
  objects := true
  key := documentKey "o" "l" "readme"
  sidecar := ⟨fun _ => none, fun _ _ => none⟩
  leaseSeconds := 60
  maxAttempts := 5

def sampleRequest (text : List UInt16) : Request Nat where
  layerId := "l"
  externalId := "readme"
  source := .content text
  metadata := 0

def emptyWorld : Stored Nat := ⟨none, fun _ => none⟩

/-- "hi". -/
def plain : List UInt16 := [0x68, 0x69]

/-- "hi", after a byte order mark. -/
def marked : List UInt16 := 0xFEFF :: plain

/-- Claimed and indexed. -/
def workRun : List (Action Nat) := [.claimNext 1, .ingest 1 2]

def plainWorld : Stored Nat :=
  (step sampleConfig emptyWorld (.queue (sampleRequest plain) 0)).get (by decide +kernel)

def plainIndexed : Stored Nat :=
  (runWithin (step sampleConfig) Working plainWorld workRun).get (by decide +kernel)

def plainAgain : Stored Nat :=
  (step sampleConfig plainIndexed (.queue (sampleRequest plain) 3)).get
    (by decide +kernel)

theorem resend_unchanged_iff_plain :
    plainWorld.indexed = false ∧ plainIndexed.indexed = true
      ∧ plainAgain.indexed = true := by
  refine ⟨by decide +kernel, by decide +kernel, ?_⟩
  have haccepted : Accepted (sampleRequest plain) := trivial
  refine (resend_unchanged_iff ⟨emptyWorld, rfl, .refl⟩ haccepted rfl
    (Option.some_get _).symm (runWithin_steps (Option.some_get _).symm)
    (by decide +kernel) (Option.some_get _).symm).2 (.inr ?_)
  intro text htext _
  cases htext
  exact .inl (by decide +kernel)

def markedWorld : Stored Nat :=
  (step sampleConfig emptyWorld (.queue (sampleRequest marked) 0)).get
    (by decide +kernel)

def markedIndexed : Stored Nat :=
  (runWithin (step sampleConfig) Working markedWorld workRun).get (by decide +kernel)

/-- The text that begins with a mark is indexed, and queued again by the
same request. -/
theorem resent_with_mark :
    Accepted (sampleRequest marked)
      ∧ step sampleConfig emptyWorld (.queue (sampleRequest marked) 0)
          = some markedWorld
      ∧ Steps (step sampleConfig) Working markedWorld markedIndexed
      ∧ markedIndexed.indexed = true
      ∧ ∃ s, step sampleConfig markedIndexed (.queue (sampleRequest marked) 3) = some s
        ∧ s.indexed = false :=
  ⟨trivial, (Option.some_get _).symm, runWithin_steps (Option.some_get _).symm,
    by decide +kernel,
    (step sampleConfig markedIndexed (.queue (sampleRequest marked) 3)).get
      (by decide +kernel),
    (Option.some_get _).symm, by decide +kernel⟩

end Nacre.Ingest.Resend
