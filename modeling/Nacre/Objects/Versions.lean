/-
Which bytes a pass parses, and under which type.

# What can go wrong

The object is put before the row is written and without the row's lock.
So a put lands between a pass's claim and its `get`, and the pass parses
the new bytes under the old type (`parsed_across_versions`); the puts of
two calls come in one order and their row statements in the other; and a
call whose row statement fails has already replaced the bytes of the
version before.

# The condition

`Alone`: a call's put and its row statement meet no other call of the
document and no pass of it that has claimed and not read; a row
statement fails only where the put replaced nothing that was accepted
under other bytes; and no URL is sent that hashes like the text or the
file it replaces, for then the row keeps its object under the URL's type.
-/
import Nacre.Objects.System

namespace Nacre.Objects

open Nacre.Store Nacre.Ingest Transition

variable {μ : Type} [DecidableEq μ] {cfg : Config} {s s' : World μ} {a : Action μ}

-- ============================================================ the property

/-- What a pass parses is what one accepted call sent, and a call that
fails leaves the bytes of the last accepted version where they were. -/
structure Whole (s : World μ) (a : Action μ) (s' : World μ) : Prop where
  parsed : ∀ r object, a = .get r → s.bucket r.pass.docId = some object →
    ⟨object.bytes, r.contentType⟩ ∈ s.accepted r.pass.docId
  failed : ∀ c version, a = .fail c → s.version c.docId = some version →
    s'.bucket c.docId = some version

/-- No call of the document is in flight. -/
def World.idle (s : World μ) (d : DocId) : Prop := ∀ c ∈ s.calls, c.docId ≠ d

instance (s : World μ) (d : DocId) : Decidable (s.idle d) :=
  inferInstanceAs (Decidable (∀ c ∈ s.calls, c.docId ≠ d))

/-- A URL whose hash a row with an object already has. -/
def World.keepsObject (s : World μ) (c : Call μ) : Bool :=
  c.object.isNone && (s.base.docs c.docId).any fun row =>
    row.sourceType = "s3" && c.values.any (·.contentHash = row.contentHash)

def Alone (s : World μ) : Action μ → Prop
  | .put c => s.idle c.docId ∧ ∀ r ∈ s.reads, r.pass.docId ≠ c.docId
  | .claimNext d => s.idle d
  | .upsert c => s.keepsObject c = false
  | .fail c => c.object = none ∨ s.version c.docId = none
      ∨ c.object = s.version c.docId
  | _ => True

instance (s : World μ) (a : Action μ) : Decidable (Alone s a) := by
  cases a with
  | put c =>
      exact inferInstanceAs
        (Decidable (s.idle c.docId ∧ ∀ r ∈ s.reads, r.pass.docId ≠ c.docId))
  | claimNext d => exact inferInstanceAs (Decidable (s.idle d))
  | upsert c => exact inferInstanceAs (Decidable (_ = _))
  | fail c => exact inferInstanceAs (Decidable (_ ∨ _ ∨ _))
  | _ => exact inferInstanceAs (Decidable True)

-- =========================================================== the invariant

structure Paired (s : World μ) : Prop where
  /-- One call of a document at a time. -/
  single : (s.calls.map Call.docId).Nodup
  /-- What a call has put is there until its row is. -/
  putting : ∀ c ∈ s.calls, c.object ≠ none → s.bucket c.docId = c.object
  /-- Else the bucket has the last accepted version. -/
  stored : ∀ d, s.version d = none ∨ s.bucket d = s.version d
    ∨ ∃ c ∈ s.calls, c.docId = d ∧ c.object ≠ none
  sent : ∀ d version, s.version d = some version → version ∈ s.accepted d
  rows : ∀ d row, s.base.docs d = some row → row.sourceType = "s3" →
    ∃ version, s.version d = some version ∧ version.contentType = row.contentType
  reads : ∀ r ∈ s.reads, s.idle r.pass.docId
    ∧ ∃ version, s.version r.pass.docId = some version
      ∧ version.contentType = r.contentType

omit [DecidableEq μ] in
/-- With no call in flight, what is in the bucket is the last version. -/
theorem Paired.bucket_eq (h : Paired s) {d : DocId} (hidle : s.idle d)
    {version : Object} (hversion : s.version d = some version) :
    s.bucket d = some version := by
  rcases h.stored d with hnone | heq | ⟨c, hc, hd, -⟩
  · rw [hnone] at hversion
    cases hversion
  · rw [heq]
    exact hversion
  · exact absurd hd (hidle c hc)

theorem Paired.mem_erase (h : Paired s) {c c' : Call μ} (hc : c ∈ s.calls)
    (hc' : c' ∈ s.calls.erase c) : c' ∈ s.calls ∧ c'.docId ≠ c.docId := by
  have hnodup : s.calls.Nodup := List.Nodup.of_map _ h.single
  rw [hnodup.mem_erase_iff] at hc'
  refine ⟨hc'.2, fun hd => hc'.1 ?_⟩
  exact List.inj_on_of_nodup_map h.single hc'.2 hc hd

-- ======================================================= what a step keeps

omit [DecidableEq μ] in
/-- The rows are written by something that sends nothing. -/
theorem Paired.descend (h : Paired s) {base : Ingest.World μ}
    (hrows : ∀ d after, base.docs d = some after →
      ∃ before, s.base.docs d = some before ∧ Descends before after) :
    Paired { s with base } where
  single := h.single
  putting := h.putting
  stored := h.stored
  sent := h.sent
  rows d after hafter htype := by
    obtain ⟨before, hbefore, hkeeps⟩ := hrows d after hafter
    rw [hkeeps.sourceType] at htype
    rw [hkeeps.contentType]
    exact h.rows d before hbefore htype
  reads := h.reads

omit [DecidableEq μ] in
theorem stored_self {c : Call μ} (h : c.object ≠ none) :
    s.stored c c.docId = c.object := by
  unfold World.stored
  cases hobject : c.object with
  | none => exact absurd hobject h
  | some object => exact Function.update_self ..

omit [DecidableEq μ] in
theorem stored_ne {c : Call μ} {d : DocId} (h : d ≠ c.docId) :
    s.stored c d = s.bucket d := by
  unfold World.stored
  cases c.object with
  | none => rfl
  | some object => exact Function.update_of_ne h ..

omit [DecidableEq μ] in
theorem Paired.put (h : Paired s) {c : Call μ} (hidle : s.idle c.docId)
    (hreads : ∀ r ∈ s.reads, r.pass.docId ≠ c.docId) :
    Paired { s with bucket := s.stored c, calls := c :: s.calls } where
  single := by
    rw [List.map_cons, List.nodup_cons]
    refine ⟨fun hmem => ?_, h.single⟩
    obtain ⟨c', hc', hd⟩ := List.mem_map.1 hmem
    exact hidle c' hc' hd
  putting c' hc' hobject := by
    rcases List.mem_cons.1 hc' with rfl | hc'
    · exact stored_self hobject
    · show s.stored c c'.docId = c'.object
      rw [stored_ne (hidle c' hc')]
      exact h.putting c' hc' hobject
  stored d := by
    show s.version d = none ∨ s.stored c d = s.version d ∨ _
    by_cases hd : d = c.docId
    · subst hd
      cases hobject : c.object with
      | some object =>
          refine .inr (.inr ⟨c, List.mem_cons_self, rfl, ?_⟩)
          rw [hobject]
          nofun
      | none =>
          have hsame : s.stored c c.docId = s.bucket c.docId := by
            rw [World.stored, hobject]
          rw [hsame]
          rcases h.stored c.docId with hnone | heq | ⟨c', hc', hd', -⟩
          · exact .inl hnone
          · exact .inr (.inl heq)
          · exact absurd hd' (hidle c' hc')
    · rw [stored_ne hd]
      rcases h.stored d with hnone | heq | ⟨c', hc', hd', hobject⟩
      · exact .inl hnone
      · exact .inr (.inl heq)
      · exact .inr (.inr ⟨c', List.mem_cons_of_mem _ hc', hd', hobject⟩)
  sent := h.sent
  rows := h.rows
  reads r hr := by
    obtain ⟨hfree, hversion⟩ := h.reads r hr
    refine ⟨fun c' hc' => ?_, hversion⟩
    rcases List.mem_cons.1 hc' with rfl | hc'
    · exact (hreads r hr).symm
    · exact hfree c' hc'

/-- A call leaves, and its document's object is the last version. -/
theorem Paired.leave (h : Paired s) {c : Call μ} (hc : c ∈ s.calls)
    (hobject : c.object = none ∨ s.version c.docId = none
      ∨ c.object = s.version c.docId) :
    Paired { s with calls := s.calls.erase c } where
  single := h.single.sublist (List.erase_sublist.map _)
  putting c' hc' := h.putting c' (h.mem_erase hc hc').1
  stored d := by
    rcases h.stored d with hnone | heq | ⟨c', hc', hd, hsome⟩
    · exact .inl hnone
    · exact .inr (.inl heq)
    · by_cases hsame : c' = c
      · subst hsame hd
        rcases hobject with hnone | hnone | heq
        · exact absurd hnone hsome
        · exact .inl hnone
        · exact .inr (.inl ((h.putting c' hc hsome).trans heq))
      · exact .inr (.inr ⟨c', (List.mem_erase_of_ne hsame).2 hc', hd, hsome⟩)
  sent := h.sent
  rows := h.rows
  reads r hr := by
    obtain ⟨hfree, hversion⟩ := h.reads r hr
    exact ⟨fun c' hc' => hfree c' (h.mem_erase hc hc').1, hversion⟩

theorem Paired.accept (h : Paired s) {c : Call μ} {values : IngestRequest μ}
    {base : Ingest.World μ} (hc : c ∈ s.calls) (hvalues : c.values = some values)
    (hkeeps : s.keepsObject c = false)
    (hstep : Ingest.Stepped cfg s.base (.queue c.docId values) base) :
    Paired { s with
      base
      calls := s.calls.erase c
      version := Function.update s.version c.docId c.object
      accepted := Function.update s.accepted c.docId
        (c.object.toList ++ s.accepted c.docId) } where
  single := h.single.sublist (List.erase_sublist.map _)
  putting c' hc' := h.putting c' (h.mem_erase hc hc').1
  stored d := by
    show Function.update s.version c.docId c.object d = none
      ∨ s.bucket d = Function.update s.version c.docId c.object d
      ∨ ∃ c' ∈ s.calls.erase c, c'.docId = d ∧ c'.object ≠ none
    by_cases hd : d = c.docId
    · subst hd
      rw [Function.update_self]
      by_cases hobject : c.object = none
      · exact .inl hobject
      · exact .inr (.inl (h.putting c hc hobject))
    · rw [Function.update_of_ne hd]
      rcases h.stored d with hnone | heq | ⟨c', hc', hd', hobject⟩
      · exact .inl hnone
      · exact .inr (.inl heq)
      · have hne : c' ≠ c := by
          intro heq
          subst heq
          exact hd hd'.symm
        exact .inr (.inr ⟨c', (List.mem_erase_of_ne hne).2 hc', hd', hobject⟩)
  sent d version hversion := by
    change Function.update s.version c.docId c.object d = some version at hversion
    show version ∈ Function.update s.accepted c.docId
      (c.object.toList ++ s.accepted c.docId) d
    by_cases hd : d = c.docId
    · subst hd
      rw [Function.update_self] at hversion ⊢
      rw [hversion]
      exact List.mem_cons_self
    · rw [Function.update_of_ne hd] at hversion ⊢
      exact h.sent d version hversion
  rows d after hafter htype := by
    show ∃ version, Function.update s.version c.docId c.object d = some version ∧ _
    rcases queued_step hstep hafter with ⟨hd, hbefore⟩ | ⟨rfl, hcontent, -, hsource⟩
    · rw [Function.update_of_ne hd]
      exact h.rows d after hbefore htype
    · rw [Function.update_self]
      rcases Call.values_cases hvalues with ⟨object, hobject, -, hsame⟩ | ⟨hobject, hurl⟩
      · exact ⟨object, hobject, (hcontent.trans hsame).symm⟩
      -- a URL: the row would be one that keeps its object
      · exfalso
        rcases hsource with hsource | ⟨row, hrow, hhash, hsource⟩
        · rw [htype, hurl] at hsource
          exact absurd hsource (by decide)
        · simp [World.keepsObject, hobject, hrow, hvalues, hhash, ← hsource,
            htype] at hkeeps
  reads r hr := by
    obtain ⟨hfree, hversion⟩ := h.reads r hr
    refine ⟨fun c' hc' => hfree c' (h.mem_erase hc hc').1, ?_⟩
    show ∃ version, Function.update s.version c.docId c.object r.pass.docId
      = some version ∧ _
    rw [Function.update_of_ne (hfree c hc).symm]
    exact hversion

omit [DecidableEq μ] in
/-- Fewer reads, or one more of a document without a call. -/
theorem Paired.withReads (h : Paired s) {reads : List (Read μ)}
    (hreads : ∀ r ∈ reads, r ∈ s.reads ∨ s.idle r.pass.docId
      ∧ ∃ version, s.version r.pass.docId = some version
        ∧ version.contentType = r.contentType) : Paired { s with reads } where
  single := h.single
  putting := h.putting
  stored := h.stored
  sent := h.sent
  rows := h.rows
  reads r hr := by
    rcases hreads r hr with hold | hnew
    · exact h.reads r hold
    · exact hnew

theorem Paired.step (h : Paired s) (hok : Alone s a) (hs : Stepped cfg s a s') :
    Paired s' := by
  cases hs with
  | base b base hpermits hstep =>
      exact h.descend fun d after hafter =>
        descends_step hstep (permits_not_queue hpermits) hafter
  | put c => exact h.put hok.1 hok.2
  | upsert c values base hvalues hc hstep => exact h.accept hc hvalues hok hstep
  | fail c hc => exact h.leave hc hok
  | claimNext d row base hrow hstep =>
      have hdescend : Paired { s with base } := h.descend fun d after hafter =>
        descends_step hstep (fun _ _ h => nomatch h) hafter
      refine hdescend.withReads fun r hr => ?_
      split at hr
      next htype =>
        rcases List.mem_cons.1 hr with rfl | hr
        · exact .inr ⟨hok, h.rows d row hrow htype⟩
        · exact .inl hr
      next => exact .inl hr
  | get r hr => exact h.withReads fun r' hr' => .inl (List.mem_of_mem_erase hr')
  | crash r hr => exact h.withReads fun r' hr' => .inl (List.mem_of_mem_erase hr')

omit [DecidableEq μ] in
theorem paired_init (hs : init s) : Paired s := by
  obtain ⟨base, ⟨now, rfl⟩, rfl⟩ := hs
  refine ⟨List.nodup_nil, ?_, fun d => .inl rfl, ?_, ?_, ?_⟩
  · intro c hc
    cases hc
  · intro d version hversion
    cases hversion
  · intro d row hrow
    cases hrow
  · intro r hr
    cases hr

theorem Paired.whole (h : Paired s) (hok : Alone s a) (hs : Stepped cfg s a s') :
    Whole s a s' where
  parsed r object heq hobject := by
    subst heq
    cases hs with
    | get _ hr =>
        obtain ⟨hidle, version, hversion, htype⟩ := h.reads r hr
        have heq := (h.bucket_eq hidle hversion).symm.trans hobject
        cases heq
        rw [← htype]
        exact h.sent r.pass.docId object hversion
  failed c version heq hversion := by
    subst heq
    have hafter := h.step hok hs
    cases hs with
    | fail _ hc =>
        refine hafter.bucket_eq (fun c' hc' => ?_) hversion
        exact (h.mem_erase hc hc').2

/-- In every run in which every call is alone with its document, a pass
parses what one accepted call sent, and a call that fails leaves the last
accepted version. -/
theorem alone_runs_whole (hs : Reachable (step cfg) Alone init s) (hok : Alone s a)
    (hstep : step cfg s a = some s') : Whole s a s' := by
  have hinv : Paired s := hs.invariant (fun _ => paired_init)
    fun t a t' ht hok ha => ht.step hok (step_inv ha)
  exact hinv.whole hok (step_inv hstep)

-- ============================================================= a document

def sampleWorld : World Nat where
  base := World.empty Nat 0
  bucket _ := none
  calls := []
  reads := []
  version _ := none
  accepted _ := []

theorem init_sampleWorld : init sampleWorld := ⟨World.empty Nat 0, ⟨0, rfl⟩, rfl⟩

def call (source : Source) : Call Nat where
  docId := "key"
  req := { layerId := "l", externalId := "readme", source, metadata := 0 }

/-- The text "hi". -/
def textCall : Call Nat := call (.content [0x68, 0x69])

def fileBytes : ByteArray := "%PDF-1.4".toUTF8

def fileCall : Call Nat := call (.binary fileBytes "application/pdf")

/-- The pass over the text. -/
def textRead : Read Nat := ⟨⟨"key", 0, 0, false⟩, "text/plain"⟩

/-- The text is sent, and claimed. -/
def claimRun : List (Action Nat) :=
  [.put textCall, .upsert textCall, .claimNext "key"]

def claimedWorld : World Nat :=
  (runWithin (step sampleConfig) Alone sampleWorld claimRun).get (by decide +kernel)

theorem alone_runs_whole_parsed :
    Whole claimedWorld (.get textRead)
        ((step sampleConfig claimedWorld (.get textRead)).get (by decide +kernel))
      ∧ claimedWorld.bucket "key" = textCall.object :=
  ⟨alone_runs_whole (reachable_get init_sampleWorld _)
      (show Alone claimedWorld (.get textRead) from trivial) (Option.some_get _).symm,
    by decide +kernel⟩

/-- A file is sent to the same document before the pass gets its bytes. -/
def overtakenWorld : World Nat :=
  (runWithin (step sampleConfig) anyStep sampleWorld (claimRun ++ [.put fileCall])).get
    (by decide +kernel)

/-- The pass parses the file as text. -/
theorem parsed_across_versions :
    ∃ (s s' : World Nat) (a : Action Nat), Reachable (step sampleConfig) anyStep init s
      ∧ step sampleConfig s a = some s' ∧ ¬ Whole s a s' := by
  refine ⟨overtakenWorld, (step sampleConfig overtakenWorld (.get textRead)).get
      (by decide +kernel), .get textRead, reachable_get init_sampleWorld _,
    (Option.some_get _).symm, fun h => ?_⟩
  have hbytes : overtakenWorld.bucket "key" = some ⟨fileBytes, "application/pdf"⟩ := by
    decide +kernel
  have hsent := h.parsed textRead ⟨fileBytes, "application/pdf"⟩ rfl hbytes
  revert hsent
  decide +kernel

end Nacre.Objects
