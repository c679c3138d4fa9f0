/-
The indexing pass (worker/src/ingest.ts), and the stores it writes to
(worker/src/adapters.ts): the rows of `chunks` and the points of the index,
of one organization.

A pass plans what it hands to the stores (`ingest`), and the stores take it
or do not (`Stores.put`): the fence may hold the row off, the index may
refuse some of the points or the sweep, and the transaction may not commit.
The rows are rolled back then, and the points that were taken stay.

Each attempt at the embedding replaces the whole list of chunks, and the
vectors of an attempt are kept with that attempt's chunks (`embedded`): so
the rows and the points of a plan are one to one (`ingest_paired`), and a
point never has the vector of another text than its row's
(`Aligned.put`).
-/
import Nacre.Chunks.Covered
import Nacre.Embedding.Batched
import Nacre.Ingest.Source
import Nacre.Lib.Transition
import Nacre.Text.Bm25

namespace Nacre.Embedding

open Chunks (Chunk ChunkConfig chunk chunkWithin_over DEFAULT_CHUNK_CONFIG
  DEFAULT_EMBED_MAX_TOKENS refusedForLength)
open Json (units)
open Text (SparseVector Tables encodeDocument)
open Transition

def EMBED_SPLIT_ATTEMPTS : Nat := 3

def MIN_EMBED_TOKENS : Nat := 64

-- ================================================================= the ports

structure ParsedDocument (μ : Type) where
  text : List UInt16
  metadata : μ

structure StoredDocument where
  id : String
  contentHash : String
  chunkCount : Nat
  indexed : Bool

structure IngestRequest (μ : Type) where
  orgId : String
  collection : String
  layerId : String
  vectorName : String
  externalId : String
  metadata : μ
  title : Option (List UInt16) := none
  content : Option (List UInt16) := none
  url : Option (List UInt16) := none
  bytes : Option ByteArray := none
  contentType : Option String := none
  chunkConfig : Option ChunkConfig := none
  claim : Option String := none

/-- A chunk with the id of its point. -/
structure PlacedChunk where
  ordinal : Nat
  text : List UInt16
  pointId : String
  deriving DecidableEq

/-- What `documents.upsert` is given. -/
structure Upsert (μ : Type) where
  orgId : String
  layerId : String
  externalId : String
  title : Option (List UInt16)
  contentHash : String
  chunks : List PlacedChunk
  metadata : μ
  claim : Option String

structure Point (β : Type) where
  pointId : String
  ordinal : Nat
  vector : β
  sparse : SparseVector
  docId : String
  deriving DecidableEq

/-- What `vectors.write` is given. -/
structure Write (μ β : Type) where
  orgId : String
  collection : String
  metadata : μ
  layerId : String
  documentId : String
  vectorName : String
  points : List (Point β)

variable {μ β : Type}

/-- `embed attempt` is the call of an attempt, `newId i` the `i`-th id. -/
structure Ports (μ β : Type) where
  parse : Ingest.Source → Except Failure (ParsedDocument μ)
  embed : Nat → List (List UInt16) → Except Failure (List β)
  find : String → String → String → Except Failure (Option StoredDocument)
  newId : Nat → String

-- ================================================================== the pass

/-- The one source of a request. -/
def sourceOf (request : IngestRequest μ) : Except Failure Ingest.Source :=
  let sources := [request.content.isSome, request.url.isSome, request.bytes.isSome].filter id
  if sources.length ≠ 1 then
    .error (units "Error: exactly one of content, url or bytes is required")
  else
    match request.bytes, request.contentType with
    | some bytes, some contentType => .ok (.binary bytes contentType)
    | some _, none =>
        .error (units
          "Error: bytes require a contentType; without one the parser would have to guess")
    | none, _ =>
        match request.content with
        | some content => .ok (.content content)
        | none => .ok (.url (request.url.getD []))

def hashOf (request : IngestRequest μ) (parsed : ParsedDocument μ) : String :=
  match request.bytes with
  | some bytes => Ingest.bytesHash bytes
  | none => Ingest.bytesHash (Js.encode parsed.text)

/-- `chunk`, which is always over. -/
def chunked (text : List UInt16) (config : ChunkConfig) : Except Failure (List Chunk) :=
  let ended := (chunkWithin_over (Nat.lt_succ_self (Chunks.normalize text).length)).2
  match (chunk text config).get (Option.isSome_iff_ne_none.2 ended) with
  | .ok chunks => .ok chunks
  | .error message => .error (units ("Error: " ++ message))

/-- `Math.max(Math.floor(budget / 2), MIN_EMBED_TOKENS)`. -/
def halved (budget : Nat) : Nat := max (budget / 2) MIN_EMBED_TOKENS

/-- The loop of attempts, `left` of them left after this one: the chunks
that were embedded, and their vectors. -/
def embedded (text : List UInt16) (config : ChunkConfig)
    (embed : Nat → List (List UInt16) → Except Failure (List β)) :
    (left budget : Nat) → List Chunk → Except Failure (List Chunk × List β)
  | left, budget, chunks =>
      match embed (EMBED_SPLIT_ATTEMPTS - left) (chunks.map (·.text)) with
      | .ok vectors => .ok (chunks, vectors)
      | .error failure =>
          match left with
          | 0 => .error failure
          | left + 1 =>
              if refusedForLength failure then
                let budget := halved budget
                match chunked text { config with maxTokens := some budget } with
                | .error failure => .error failure
                | .ok chunks => embedded text config embed left budget chunks
              else .error failure

def withPoints (newId : Nat → String) (chunks : List Chunk) : List PlacedChunk :=
  chunks.mapIdx fun i c => ⟨c.ordinal, c.text, newId i⟩

/-- The points of a document: a chunk's vector is the one at its place. -/
def pointsOf (tables : Tables) (placed : List PlacedChunk) (vectors : List β)
    (documentId : String) : List (Point β) :=
  List.zipWith (fun c vector =>
    ⟨c.pointId, c.ordinal, vector, encodeDocument tables c.text, documentId⟩) placed vectors

/-- What a pass hands to the stores, if its document is not there already. -/
inductive Plan (μ β : Type) where
  | unchanged (documentId : String) (chunkCount : Nat)
  | write (upsert : Upsert μ) (points : String → Write μ β)

def planned (request : IngestRequest μ) (parsed : ParsedDocument μ) (hash : String)
    (chunks : List PlacedChunk) (points : String → List (Point β)) : Plan μ β :=
  .write
    { orgId := request.orgId, layerId := request.layerId, externalId := request.externalId
      title := request.title, contentHash := hash, chunks, metadata := parsed.metadata
      claim := request.claim }
    fun documentId =>
      { orgId := request.orgId, collection := request.collection, metadata := request.metadata
        layerId := request.layerId, documentId, vectorName := request.vectorName
        points := points documentId }

/-- The part of a pass from the chunks on. -/
def index (tables : Tables) (request : IngestRequest μ) (ports : Ports μ β)
    (parsed : ParsedDocument μ) (hash : String) : Except Failure (Plan μ β) :=
  let config := request.chunkConfig.getD DEFAULT_CHUNK_CONFIG
  match chunked parsed.text config with
  | .error failure => .error failure
  | .ok [] => .ok (planned request parsed hash [] fun _ => [])
  | .ok chunks =>
      match embedded parsed.text config ports.embed EMBED_SPLIT_ATTEMPTS
          (config.maxTokens.getD DEFAULT_EMBED_MAX_TOKENS) chunks with
      | .error failure => .error failure
      | .ok (chunks, vectors) =>
          if vectors.length ≠ chunks.length then
            .error (units
              s!"Error: embedder returned {vectors.length} vectors for {chunks.length} chunks")
          else
            let placed := withPoints ports.newId chunks
            .ok (planned request parsed hash placed (pointsOf tables placed vectors))

def ingest (tables : Tables) (request : IngestRequest μ) (ports : Ports μ β) :
    Except Failure (Plan μ β) :=
  match sourceOf request with
  | .error failure => .error failure
  | .ok source =>
      match ports.parse source with
      | .error failure => .error failure
      | .ok parsed =>
          let hash := hashOf request parsed
          match ports.find request.orgId request.layerId request.externalId with
          | .error failure => .error failure
          | .ok none => index tables request ports parsed hash
          | .ok (some existing) =>
              if existing.contentHash = hash ∧ existing.indexed = true then
                .ok (.unchanged existing.id existing.chunkCount)
              else index tables request ports parsed hash

-- ================================================================ the stores

/-- A row of `chunks`. -/
structure ChunkRow where
  documentId : String
  chunk : PlacedChunk
  deriving DecidableEq

/-- A point of the index: its vector is in the slot that is named. -/
structure IndexedPoint (β : Type) where
  collection : String
  vectorName : String
  point : Point β
  deriving DecidableEq

structure Stores (β : Type) where
  chunks : List ChunkRow
  points : List (IndexedPoint β)
  deriving DecidableEq

def init (s : Stores β) : Prop := s = ⟨[], []⟩

/-- How a write goes. -/
structure Outcome where
  /-- What the statement returns: nothing when the fence holds it off. -/
  row : Option String
  /-- How many of the points the index takes. -/
  taken : Nat
  swept : Bool
  committed : Bool

/-- A point replaces what has its id in the collection. -/
def upsertPoint (points : List (IndexedPoint β)) (p : IndexedPoint β) : List (IndexedPoint β) :=
  (points.filter fun q => !(q.collection = p.collection && q.point.pointId = p.point.pointId))
    ++ [p]

def upsertPoints (points : List (IndexedPoint β)) (write : Write μ β) (taken : Nat) :
    List (IndexedPoint β) :=
  (write.points.take taken).foldl
    (fun points p => upsertPoint points ⟨write.collection, write.vectorName, p⟩) points

def sweep (points : List (IndexedPoint β)) (collection documentId : String)
    (keep : List String) : List (IndexedPoint β) :=
  points.filter fun q =>
    !(q.collection = collection && q.point.docId = documentId && !keep.contains q.point.pointId)

def replaceChunks (rows : List ChunkRow) (documentId : String) (chunks : List PlacedChunk) :
    List ChunkRow :=
  (rows.filter fun row => row.documentId ≠ documentId)
    ++ chunks.map fun c => ⟨documentId, c⟩

/-- `documents.upsert` with `vectors.write` in its transaction. -/
def Stores.put (s : Stores β) (upsert : Upsert μ) (write : String → Write μ β)
    (outcome : Outcome) : Stores β :=
  match outcome.row with
  | none => s
  | some id =>
      let input := write id
      let points := upsertPoints s.points input outcome.taken
      if outcome.taken < input.points.length then ⟨s.chunks, points⟩
      else if outcome.swept then
        let points := sweep points input.collection input.documentId
          (input.points.map (·.pointId))
        if outcome.committed then ⟨replaceChunks s.chunks id upsert.chunks, points⟩
        else ⟨s.chunks, points⟩
      else ⟨s.chunks, points⟩

/-- A pass, with the answers it gets. -/
structure Pass (μ β : Type) where
  request : IngestRequest μ
  ports : Ports μ β
  outcome : Outcome

def step (tables : Tables) (s : Stores β) (p : Pass μ β) : Option (Stores β) :=
  match ingest tables p.request p.ports with
  | .error _ => some s
  | .ok (.unchanged _ _) => some s
  | .ok (.write upsert write) => some (s.put upsert write p.outcome)

/-- The worker's embedder: the layer's provider looked up, and the texts in
batches. -/
def workerEmbed (limit : Nat) (embedderFor : Nat → Except Failure (Sender β)) (attempt : Nat)
    (texts : List (List UInt16)) : Except Failure (List β) :=
  match embedderFor attempt with
  | .error failure => .error failure
  | .ok send => (embedInBatches texts limit send).result

-- =============================================================== what it says

/-- The point of a chunk of a document. -/
structure Matches (of : List UInt16 → β → Prop) (tables : Tables) (documentId : String)
    (c : PlacedChunk) (p : Point β) : Prop where
  pointId : p.pointId = c.pointId
  ordinal : p.ordinal = c.ordinal
  vector : of c.text p.vector
  sparse : p.sparse = encodeDocument tables c.text
  docId : p.docId = documentId

/-- A point that has a row has the vector of that row's text. -/
def Aligned (of : List UInt16 → β → Prop) (tables : Tables) (s : Stores β) : Prop :=
  ∀ row ∈ s.chunks, ∀ q ∈ s.points, q.point.pointId = row.chunk.pointId →
    Matches of tables row.documentId row.chunk q.point

/-- `newId` returns no id twice, and none that is there. -/
structure Fresh (s : Stores β) (newId : Nat → String) : Prop where
  injective : Function.Injective newId
  chunks : ∀ row ∈ s.chunks, ∀ i, row.chunk.pointId ≠ newId i
  points : ∀ q ∈ s.points, ∀ i, q.point.pointId ≠ newId i

/-- The embedder of a pass answers in order. -/
def Embeds (of : List UInt16 → β → Prop) (limit : Nat) (ports : Ports μ β) : Prop :=
  ∃ embedderFor, ports.embed = workerEmbed limit embedderFor ∧
    ∀ attempt send, embedderFor attempt = .ok send → InOrder of send

/-- What is asked of a pass. -/
def Permitted (of : List UInt16 → β → Prop) (limit : Nat) (s : Stores β) (p : Pass μ β) : Prop :=
  Embeds of limit p.ports ∧ Fresh s p.ports.newId

-- ================================================================== a plan

variable {text : List UInt16} {config : ChunkConfig} {left budget limit : Nat}
  {chunks started : List Chunk} {vectors : List β} {tables : Tables}
  {embed : Nat → List (List UInt16) → Except Failure (List β)}
  {of : List UInt16 → β → Prop} {request : IngestRequest μ} {ports : Ports μ β}
  {parsed : ParsedDocument μ} {hash : String} {upsert : Upsert μ} {write : String → Write μ β}
  {placed : List PlacedChunk} {newId : Nat → String}

/-- The chunks of an attempt, from those of the first. -/
def Attempted (text : List UInt16) (config : ChunkConfig) (budget : Nat) (started : List Chunk)
    (attempt : Nat) (chunks : List Chunk) : Prop :=
  attempt = 0 ∧ chunks = started ∨
    0 < attempt ∧
      chunked text { config with maxTokens := some (halved^[attempt] budget) } = .ok chunks

/-- Vectors are of the chunks of the attempt they come from. -/
theorem embedded_ok (hleft : left ≤ EMBED_SPLIT_ATTEMPTS)
    (h : embedded text config embed left budget started = .ok (chunks, vectors)) :
    ∃ n ≤ left, embed (EMBED_SPLIT_ATTEMPTS - left + n) (chunks.map (·.text)) = .ok vectors ∧
      Attempted text config budget started n chunks := by
  induction left generalizing budget started with
  | zero =>
      rw [embedded] at h
      split at h
      next vectors' hembed =>
        cases h
        exact ⟨0, le_refl _, hembed, .inl ⟨rfl, rfl⟩⟩
      next => cases h
  | succ left ih =>
      rw [embedded] at h
      split at h
      next vectors' hembed =>
        cases h
        exact ⟨0, Nat.zero_le _, hembed, .inl ⟨rfl, rfl⟩⟩
      next failure hembed =>
        dsimp only at h
        split at h
        next =>
          split at h
          next => cases h
          next again hagain =>
            obtain ⟨n, hn, hvectors, hfrom⟩ := ih (by omega) h
            refine ⟨n + 1, by omega, ?_, .inr ⟨Nat.succ_pos n, ?_⟩⟩
            · rw [← hvectors]
              congr 1
              omega
            · rw [Function.iterate_succ_apply]
              rcases hfrom with ⟨rfl, rfl⟩ | ⟨-, hchunked⟩
              · exact hagain
              · exact hchunked
        next => cases h

/-- What a plan is made of. -/
structure Planned (tables : Tables) (request : IngestRequest μ) (ports : Ports μ β)
    (parsed : ParsedDocument μ) (upsert : Upsert μ) (write : String → Write μ β)
    (chunks : List Chunk) (vectors : List β) : Prop where
  count : vectors.length = chunks.length
  /-- Unless there is nothing to embed. -/
  embedded : chunks ≠ [] → ∃ attempt, ports.embed attempt (chunks.map (·.text)) = .ok vectors
  chunked : ∃ maxTokens, chunked parsed.text
    { request.chunkConfig.getD DEFAULT_CHUNK_CONFIG with maxTokens } = .ok chunks
  rows : upsert.chunks = withPoints ports.newId chunks
  points : ∀ id, (write id).points = pointsOf tables upsert.chunks vectors id

theorem index_planned (h : index tables request ports parsed hash = .ok (.write upsert write)) :
    ∃ chunks vectors, Planned tables request ports parsed upsert write chunks vectors := by
  unfold index at h
  dsimp only at h
  split at h
  next => cases h
  next hnone =>
    cases h
    exact ⟨[], [], rfl, fun hne => absurd rfl hne, ⟨_, hnone⟩, rfl, fun id => rfl⟩
  next started hne hstarted =>
    split at h
    next => cases h
    next chunks vectors hembedded =>
      split at h
      next => cases h
      next hcount =>
        rw [not_not] at hcount
        cases h
        obtain ⟨n, -, hvectors, hfrom⟩ := embedded_ok (le_refl _) hembedded
        refine ⟨chunks, vectors, hcount, fun _ => ⟨_, hvectors⟩, ?_, rfl, fun id => rfl⟩
        rcases hfrom with ⟨-, rfl⟩ | ⟨-, hchunked⟩
        · exact ⟨_, hstarted⟩
        · exact ⟨_, hchunked⟩

theorem ingest_planned (h : ingest tables request ports = .ok (.write upsert write)) :
    ∃ source parsed chunks vectors, sourceOf request = .ok source ∧
      ports.parse source = .ok parsed ∧
        Planned tables request ports parsed upsert write chunks vectors := by
  unfold ingest at h
  split at h
  next => cases h
  next source hsource =>
    split at h
    next => cases h
    next parsed hparsed =>
      refine ⟨source, parsed, ?_⟩
      dsimp only at h
      split at h
      next => cases h
      next =>
        obtain ⟨chunks, vectors, hplanned⟩ := index_planned h
        exact ⟨chunks, vectors, hsource, hparsed, hplanned⟩
      next existing hexisting =>
        split at h
        next => cases h
        next =>
          obtain ⟨chunks, vectors, hplanned⟩ := index_planned h
          exact ⟨chunks, vectors, hsource, hparsed, hplanned⟩

/-- The worker's embedder returns the vectors of the texts, in their order. -/
theorem Embeds.forall₂ (h : Embeds of limit ports) (hlimit : 1 ≤ limit) {attempt : Nat}
    {texts : List (List UInt16)} (hembed : ports.embed attempt texts = .ok vectors) :
    List.Forall₂ of texts vectors := by
  obtain ⟨embedderFor, hworker, hin⟩ := h
  rw [hworker, workerEmbed] at hembed
  split at hembed
  next => cases hembed
  next send hsend =>
    exact ((embedInBatches_batched hlimit (hin attempt send hsend)).concatenated _ hembed).2.2

theorem length_withPoints : (withPoints newId chunks).length = chunks.length :=
  List.length_mapIdx

/-- The point at a place is the chunk's that is there. -/
theorem pointsOf_matches (hof : List.Forall₂ of (chunks.map (·.text)) vectors) (id : String) :
    List.Forall₂ (Matches of tables id) (withPoints newId chunks)
      (pointsOf tables (withPoints newId chunks) vectors id) := by
  have hcount := hof.length_eq
  rw [List.length_map] at hcount
  refine List.forall₂_iff_get.2 ⟨?_, fun i hi hi' => ?_⟩
  · rw [pointsOf, List.length_zipWith, length_withPoints]
    omega
  · rw [length_withPoints] at hi
    have hvector := (List.forall₂_iff_get.1 hof).2 i (by rwa [List.length_map]) (by omega)
    simp only [List.get_eq_getElem, List.getElem_map] at hvector
    constructor <;> simp [pointsOf, withPoints, hvector]

theorem ingest_matches (h : ingest tables request ports = .ok (.write upsert write))
    (hlimit : 1 ≤ limit) (hembeds : Embeds of limit ports) (id : String) :
    List.Forall₂ (Matches of tables id) upsert.chunks (write id).points := by
  obtain ⟨source, parsed, chunks, vectors, -, -, hplanned⟩ := ingest_planned h
  have hof : List.Forall₂ of (chunks.map (·.text)) vectors := by
    rcases eq_or_ne chunks [] with rfl | hne
    · rw [List.eq_nil_of_length_eq_zero hplanned.count]
      exact .nil
    · obtain ⟨attempt, hembed⟩ := hplanned.embedded hne
      exact hembeds.forall₂ hlimit hembed
  rw [hplanned.points, hplanned.rows]
  exact pointsOf_matches hof id

/-- Chunks are numbered as they come. -/
theorem chunked_ordinals (h : chunked text config = .ok chunks) :
    chunks.map (·.ordinal) = List.range chunks.length := by
  unfold chunked at h
  dsimp only at h
  split at h
  next chunks' hchunk =>
    cases h
    rw [← Option.some.injEq, Option.some_get] at hchunk
    obtain ⟨-, ⟨-, rfl⟩ | ⟨-, budget, -, -, hnumbered⟩⟩ :=
      Chunks.chunkWithin_ok (Nat.lt_succ_self _) hchunk
    · rfl
    · have hlength : ∀ texts, (Chunks.numbered 0 texts).length = texts.length := fun texts => by
        rw [← List.length_map (·.text), Chunks.texts_numbered]
      rw [hnumbered, Chunks.ordinals_numbered, hlength, List.range_eq_range']
  next => cases h

theorem ingest_ordinals (h : ingest tables request ports = .ok (.write upsert write)) :
    upsert.chunks.map (·.ordinal) = List.range upsert.chunks.length := by
  obtain ⟨source, parsed, chunks, vectors, -, -, hplanned⟩ := ingest_planned h
  obtain ⟨maxTokens, hchunked⟩ := hplanned.chunked
  rw [hplanned.rows, length_withPoints, ← chunked_ordinals hchunked]
  refine List.ext_getElem (by simp [withPoints]) fun i hi hi' => ?_
  simp [withPoints]

theorem ids_withPoints :
    (withPoints newId chunks).map (·.pointId) = (List.range chunks.length).map newId := by
  refine List.ext_getElem (by simp [withPoints]) fun i hi hi' => ?_
  simp [withPoints]

theorem ingest_ids (h : ingest tables request ports = .ok (.write upsert write)) :
    ∃ n, upsert.chunks.map (·.pointId) = (List.range n).map ports.newId := by
  obtain ⟨source, parsed, chunks, vectors, -, -, hplanned⟩ := ingest_planned h
  exact ⟨_, by rw [hplanned.rows, ids_withPoints]⟩

-- ================================================================== a write

variable {s : Stores β} {points : List (IndexedPoint β)} {input : Write μ β} {taken : Nat}
  {q : IndexedPoint β} {id : String}

theorem mem_upsertPoints (h : q ∈ upsertPoints points input taken) :
    q ∈ points ∨ q.point ∈ input.points := by
  have hall : ∀ (ps : List (Point β)) (points : List (IndexedPoint β)),
      q ∈ ps.foldl (fun points p =>
        upsertPoint points ⟨input.collection, input.vectorName, p⟩) points →
      q ∈ points ∨ q.point ∈ ps := by
    intro ps
    induction ps with
    | nil => exact fun points h => .inl h
    | cons p ps ih =>
        intro points h
        rw [List.foldl_cons] at h
        rcases ih _ h with hbefore | hafter
        · rcases List.mem_append.1 hbefore with hkept | hnew
          · exact .inl (List.mem_of_mem_filter hkept)
          · rw [List.mem_singleton.1 hnew]
            exact .inr List.mem_cons_self
        · exact .inr (List.mem_cons_of_mem _ hafter)
  rcases hall _ _ h with hbefore | hnew
  · exact .inl hbefore
  · exact .inr (List.mem_of_mem_take hnew)

/-- A write puts no rows there but its chunks, and no points but its own. -/
theorem mem_put {outcome : Outcome} :
    (∀ row ∈ (s.put upsert write outcome).chunks, row ∈ s.chunks ∨
      ∃ id, outcome.row = some id ∧ row.documentId = id ∧ row.chunk ∈ upsert.chunks) ∧
    ∀ q ∈ (s.put upsert write outcome).points, q ∈ s.points ∨
      ∃ id, outcome.row = some id ∧ q.point ∈ (write id).points := by
  cases hrow : outcome.row with
  | none =>
      rw [Stores.put, hrow]
      exact ⟨fun row h => .inl h, fun q h => .inl h⟩
  | some id =>
      have hpoints : ∀ q ∈ upsertPoints s.points (write id) outcome.taken, q ∈ s.points ∨
          ∃ id', some id = some id' ∧ q.point ∈ (write id').points := fun q h =>
        (mem_upsertPoints h).imp_right fun hnew => ⟨id, rfl, hnew⟩
      rw [Stores.put, hrow]
      dsimp only
      split
      next => exact ⟨fun row h => .inl h, hpoints⟩
      next =>
        split
        next =>
          split
          next =>
            refine ⟨fun row h => ?_, fun q h => hpoints q (List.mem_of_mem_filter h)⟩
            rcases List.mem_append.1 h with hkept | hnew
            · exact .inl (List.mem_of_mem_filter hkept)
            · obtain ⟨c, hc, rfl⟩ := List.mem_map.1 hnew
              exact .inr ⟨id, rfl, rfl, hc⟩
          next => exact ⟨fun row h => .inl h, fun q h => hpoints q (List.mem_of_mem_filter h)⟩
        next => exact ⟨fun row h => .inl h, hpoints⟩

theorem matched_of_mem {ps : List (Point β)} (h : List.Forall₂ (Matches of tables id) placed ps)
    {p : Point β} (hp : p ∈ ps) : ∃ c ∈ placed, Matches of tables id c p := by
  induction h with
  | nil => cases hp
  | cons hmatch hrest ih =>
      rcases List.mem_cons.1 hp with rfl | hlater
      · exact ⟨_, List.mem_cons_self, hmatch⟩
      · obtain ⟨c, hc, hmatched⟩ := ih hlater
        exact ⟨c, List.mem_cons_of_mem _ hc, hmatched⟩

/-- With ids that differ, a point has the id of its own chunk and of no
other. -/
theorem matches_of_id {ps : List (Point β)} (h : List.Forall₂ (Matches of tables id) placed ps)
    (hids : (placed.map (·.pointId)).Nodup) {c : PlacedChunk} (hc : c ∈ placed) {p : Point β}
    (hp : p ∈ ps) (hid : p.pointId = c.pointId) : Matches of tables id c p := by
  obtain ⟨own, hown, hmatch⟩ := matched_of_mem h hp
  have hsame : c = own := List.inj_on_of_nodup_map hids hc hown (hid.symm.trans hmatch.pointId)
  rw [hsame]
  exact hmatch

/-- A write of a permitted pass. -/
theorem Aligned.put (h : Aligned of tables s) (hlimit : 1 ≤ limit) (hembeds : Embeds of limit ports)
    (hfresh : Fresh s ports.newId)
    (hingest : ingest tables request ports = .ok (.write upsert write)) (outcome : Outcome) :
    Aligned of tables (s.put upsert write outcome) := by
  obtain ⟨n, hids⟩ := ingest_ids hingest
  have hnodup : (upsert.chunks.map (·.pointId)).Nodup := by
    rw [hids]
    exact List.nodup_range.map hfresh.injective
  have hnew : ∀ c ∈ upsert.chunks, ∃ i, c.pointId = ports.newId i := by
    intro c hc
    have hmem : c.pointId ∈ (List.range n).map ports.newId := hids ▸ List.mem_map_of_mem hc
    obtain ⟨i, -, hi⟩ := List.mem_map.1 hmem
    exact ⟨i, hi.symm⟩
  obtain ⟨hrows, hpoints⟩ := @mem_put μ β upsert write s outcome
  intro row hrow q hq hid
  rcases hrows row hrow with hold | ⟨id, hid₁, hdoc, hchunk⟩
  · rcases hpoints q hq with hbefore | ⟨id, -, hpoint⟩
    · exact h row hold q hbefore hid
    · -- a point of this write has an id no row had
      obtain ⟨c, hc, hmatch⟩ := matched_of_mem (ingest_matches hingest hlimit hembeds id) hpoint
      obtain ⟨i, hi⟩ := hnew c hc
      exact absurd (hid.symm.trans (hmatch.pointId.trans hi)) (hfresh.chunks row hold i)
  · rcases hpoints q hq with hbefore | ⟨id', hid₂, hpoint⟩
    · obtain ⟨i, hi⟩ := hnew _ hchunk
      exact absurd (hid.trans hi) (hfresh.points q hbefore i)
    · obtain rfl : id = id' := Option.some.inj (hid₁.symm.trans hid₂)
      rw [hdoc]
      exact matches_of_id (ingest_matches hingest hlimit hembeds id) hnodup hchunk hpoint hid

theorem Aligned.step {p : Pass μ β} {s' : Stores β} (h : Aligned of tables s) (hlimit : 1 ≤ limit)
    (hok : Permitted of limit s p) (hstep : step tables s p = some s') : Aligned of tables s' := by
  unfold Embedding.step at hstep
  split at hstep
  next =>
    cases hstep
    exact h
  next =>
    cases hstep
    exact h
  next upsert write hingest =>
    cases hstep
    exact h.put hlimit hok.1 hok.2 hingest p.outcome

-- ============================================================ what is there

/-- The chunks that are stored of a document. -/
def Stores.chunksOf (s : Stores β) (documentId : String) : List PlacedChunk :=
  (s.chunks.filter fun row => row.documentId = documentId).map (·.chunk)

/-- A write that goes through. -/
def Outcome.through (outcome : Outcome) (id : String) (input : Write μ β) : Prop :=
  outcome.row = some id ∧ input.points.length ≤ outcome.taken ∧ outcome.swept = true ∧
    outcome.committed = true

theorem chunksOf_replaced (rows : List ChunkRow) (id : String) (chunks : List PlacedChunk)
    (points : List (IndexedPoint β)) :
    Stores.chunksOf ⟨replaceChunks rows id chunks, points⟩ id = chunks := by
  have hold : (rows.filter fun row => row.documentId ≠ id).filter
      (fun row => row.documentId = id) = [] := by
    rw [List.filter_filter, List.filter_eq_nil_iff]
    simp
  have hnew : (chunks.map (ChunkRow.mk id)).filter (fun row => row.documentId = id)
      = chunks.map (ChunkRow.mk id) := by
    rw [List.filter_eq_self]
    simp
  rw [Stores.chunksOf, replaceChunks, List.filter_append, hold, hnew, List.nil_append,
    List.map_map]
  exact List.map_id _

/-- Points with ids of their own are all there when they are taken. -/
theorem upsertPoints_mem (hids : (input.points.map (·.pointId)).Nodup)
    (htaken : input.points.length ≤ taken) {p : Point β} (hp : p ∈ input.points) :
    (⟨input.collection, input.vectorName, p⟩ : IndexedPoint β) ∈
      upsertPoints points input taken := by
  let put (points : List (IndexedPoint β)) (p : Point β) : List (IndexedPoint β) :=
    upsertPoint points ⟨input.collection, input.vectorName, p⟩
  have hkept : ∀ (ps : List (Point β)) (points : List (IndexedPoint β)) (q : IndexedPoint β),
      (∀ p ∈ ps, q.point.pointId ≠ p.pointId) → q ∈ points → q ∈ ps.foldl put points := by
    intro ps
    induction ps with
    | nil => exact fun points q _ h => h
    | cons p ps ih =>
        intro points q hother h
        obtain ⟨hne, hrest⟩ := List.forall_mem_cons.1 hother
        refine ih _ q hrest (List.mem_append_left _ (List.mem_filter.2 ⟨h, ?_⟩))
        simp [hne]
  have hall : ∀ (ps : List (Point β)) (points : List (IndexedPoint β)),
      (ps.map (·.pointId)).Nodup → ∀ p ∈ ps,
        (⟨input.collection, input.vectorName, p⟩ : IndexedPoint β) ∈ ps.foldl put points := by
    intro ps
    induction ps with
    | nil => exact nofun
    | cons p ps ih =>
        intro points hnodup p' hp'
        rw [List.map_cons, List.nodup_cons] at hnodup
        rcases List.mem_cons.1 hp' with rfl | hlater
        · refine hkept ps _ _ (fun other hother hsame => hnodup.1 ?_)
            (List.mem_append_right _ (List.mem_singleton.2 rfl))
          exact List.mem_map.2 ⟨other, hother, hsame.symm⟩
        · exact ih _ hnodup.2 p' hlater
  rw [upsertPoints, List.take_of_length_le htaken]
  exact hall _ _ hids p hp

/-- After a write that goes through, its chunks are the document's, and its
points are in the index. -/
theorem put_through {outcome : Outcome} (h : outcome.through id (write id))
    (hids : ((write id).points.map (·.pointId)).Nodup) :
    (s.put upsert write outcome).chunksOf id = upsert.chunks ∧
      ∀ p ∈ (write id).points,
        (⟨(write id).collection, (write id).vectorName, p⟩ : IndexedPoint β) ∈
          (s.put upsert write outcome).points := by
  obtain ⟨hrow, htaken, hswept, hcommitted⟩ := h
  rw [Stores.put, hrow]
  dsimp only
  rw [if_neg (Nat.not_lt.2 htaken), if_pos hswept, if_pos hcommitted]
  refine ⟨chunksOf_replaced _ _ _ _, fun p hp => List.mem_filter.2
    ⟨upsertPoints_mem hids htaken hp, ?_⟩⟩
  have hkeep : ((write id).points.map (·.pointId)).contains p.pointId = true :=
    List.contains_iff_mem.2 (List.mem_map_of_mem hp)
  dsimp only
  rw [hkeep, Bool.not_true, Bool.and_false]
  rfl

theorem ids_of_matches {ps : List (Point β)} (h : List.Forall₂ (Matches of tables id) placed ps) :
    ps.map (·.pointId) = placed.map (·.pointId) := by
  induction h with
  | nil => rfl
  | cons hmatch hrest ih => rw [List.map_cons, List.map_cons, ih, hmatch.pointId]

/-- What a permitted pass leaves when its write goes through. -/
theorem permitted_through {p : Pass μ β} (hlimit : 1 ≤ limit) (hok : Permitted of limit s p)
    (hingest : ingest tables p.request p.ports = .ok (.write upsert write))
    (hthrough : p.outcome.through id (write id)) :
    List.Forall₂ (Matches of tables id) ((s.put upsert write p.outcome).chunksOf id)
        (write id).points ∧
      ∀ point ∈ (write id).points,
        (⟨(write id).collection, (write id).vectorName, point⟩ : IndexedPoint β) ∈
          (s.put upsert write p.outcome).points := by
  have hmatches := ingest_matches hingest hlimit hok.1 id
  obtain ⟨n, hids⟩ := ingest_ids hingest
  obtain ⟨hchunks, hpoints⟩ := @put_through μ β upsert write s id p.outcome hthrough (by
    rw [ids_of_matches hmatches, hids]
    exact List.nodup_range.map hok.2.injective)
  rw [hchunks]
  exact ⟨hmatches, hpoints⟩

/-- Every call embeds its texts in batches; what a pass hands to the stores
is one to one; and in every state the passes lead to, a point that has a row
has the vector of that row's text, and a write that goes through leaves the
document's chunks with their points. -/
theorem vectors_aligned (of : List UInt16 → β → Prop) (tables : Tables) (hlimit : 1 ≤ limit) :
    (∀ (texts : List (List UInt16)) (send : Sender β), InOrder of send →
      Batched of texts limit send (embedInBatches texts limit send)) ∧
    (∀ (request : IngestRequest μ) (ports : Ports μ β) (upsert : Upsert μ)
      (write : String → Write μ β), Embeds of limit ports →
      ingest tables request ports = .ok (.write upsert write) →
        upsert.chunks.map (·.ordinal) = List.range upsert.chunks.length ∧
        ∀ id, List.Forall₂ (Matches of tables id) upsert.chunks (write id).points) ∧
    ∀ s : Stores β, Reachable (step (μ := μ) tables) (Permitted of limit) init s →
      Aligned of tables s ∧
      ∀ (p : Pass μ β) (upsert : Upsert μ) (write : String → Write μ β) (id : String),
        Permitted of limit s p → ingest tables p.request p.ports = .ok (.write upsert write) →
        p.outcome.through id (write id) →
          List.Forall₂ (Matches of tables id) ((s.put upsert write p.outcome).chunksOf id)
              (write id).points ∧
            ∀ point ∈ (write id).points,
              (⟨(write id).collection, (write id).vectorName, point⟩ : IndexedPoint β) ∈
                (s.put upsert write p.outcome).points := by
  refine ⟨fun texts send hin => embedInBatches_batched hlimit hin,
    fun request ports upsert write hembeds hingest =>
      ⟨ingest_ordinals hingest, ingest_matches hingest hlimit hembeds⟩,
    fun s hs => ⟨?_, fun p upsert write id hok => permitted_through hlimit hok⟩⟩
  refine hs.invariant ?_ fun t p t' ht hok hstep => ht.step hlimit hok hstep
  rintro s rfl
  exact nofun

def sampleRequest : IngestRequest Unit where
  orgId := "o"
  collection := "c"
  layerId := "l"
  vectorName := "v"
  externalId := "e"
  metadata := ()
  content := some (units "ab cde")
  chunkConfig := some ⟨4, 0, some 512⟩

/-- A text is embedded as its length, and the first attempt is refused. -/
def sampleEmbedder (attempt : Nat) : Except Failure (Sender Nat) :=
  .ok fun _ batch =>
    if attempt = 0 then .error (units "Error: the input is too long")
    else .ok (batch.map List.length)

def samplePass : Pass Unit Nat where
  request := sampleRequest
  ports :=
    { parse := fun
        | .content text => .ok ⟨text, ()⟩
        | _ => .error (units "Error: not text")
      embed := workerEmbed 1 sampleEmbedder
      find := fun _ _ _ => .ok none
      newId := fun i => String.ofList (List.replicate i 'p') }
  outcome := ⟨some "d", 2, true, true⟩

def sampleStores : Stores Nat := (step Text.plainTables ⟨[], []⟩ samplePass).getD ⟨[], []⟩

theorem samplePass_permitted :
    Permitted (fun text vector => vector = text.length) 1 (⟨[], []⟩ : Stores Nat) samplePass := by
  refine ⟨⟨sampleEmbedder, rfl, ?_⟩, ?_, nofun, nofun⟩
  · rintro attempt send hsend k batch vectors hanswer -
    cases hsend
    split at hanswer
    next => cases hanswer
    next =>
      cases hanswer
      exact List.forall₂_map_right_iff.2 (List.forall₂_same.2 fun _ _ => rfl)
  · intro i j hij
    have hlength : (String.ofList (List.replicate i 'p')).length
        = (String.ofList (List.replicate j 'p')).length := congrArg String.length hij
    simpa using hlength

theorem sampleStores_reached : step Text.plainTables ⟨[], []⟩ samplePass = some sampleStores := by
  rfl

theorem vectors_aligned_sample :
    (sampleStores.chunksOf "d").map (·.text) = [units "ab", units "cde"] ∧
      sampleStores.points.map (·.point.vector) = [2, 3] ∧
      Aligned (fun text vector => vector = text.length) Text.plainTables sampleStores := by
  refine ⟨by decide +kernel, by decide +kernel, ?_⟩
  exact ((vectors_aligned (μ := Unit) (fun text (vector : Nat) => vector = text.length)
    Text.plainTables (le_refl 1)).2.2 sampleStores
      ⟨_, rfl, .single ⟨samplePass, samplePass_permitted, sampleStores_reached⟩⟩).1

end Nacre.Embedding
