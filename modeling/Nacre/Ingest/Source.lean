/-
What a document is sent as, where its bytes go, and what a worker makes
of them: the formats the edge admits (core/formats.ts, api/src/server.ts
`admitBytes`), the row and the object of an ingest request
(api/src/adapters.ts `NacreIngest.queue`), the source a pass parses
(worker/src/main.ts), and the hash it writes back (worker/src/ingest.ts
`contentHash`).

The sidecar hands inline text back as it is (services/parser/app.py
`parse_source`). What it fetches, and what it extracts from a binary
format, is a parameter.
-/
import Nacre.Lib.Js
import Nacre.Lib.Sha256
import Nacre.Store.Rows

namespace Nacre.Ingest

open Nacre.Store

-- =============================================================== formats

inductive SignatureFamily where
  | pdf
  | zip
  | rtf
  deriving DecidableEq

structure BinaryFormat where
  contentType : String
  format : String
  family : SignatureFamily
  deriving DecidableEq

def BINARY_FORMATS : List BinaryFormat :=
  [⟨"application/pdf", "pdf", .pdf⟩,
    ⟨"application/vnd.openxmlformats-officedocument.wordprocessingml.document",
      "docx", .zip⟩,
    ⟨"application/vnd.openxmlformats-officedocument.presentationml.presentation",
      "pptx", .zip⟩,
    ⟨"application/vnd.openxmlformats-officedocument.spreadsheetml.sheet", "xlsx",
      .zip⟩,
    ⟨"application/vnd.oasis.opendocument.text", "odt", .zip⟩,
    ⟨"application/vnd.oasis.opendocument.presentation", "odp", .zip⟩,
    ⟨"application/vnd.oasis.opendocument.spreadsheet", "ods", .zip⟩,
    ⟨"application/epub+zip", "epub", .zip⟩,
    ⟨"application/rtf", "rtf", .rtf⟩]

def ALIASES : List (String × String) := [("text/rtf", "application/rtf")]

def SIGNATURES : List (SignatureFamily × List UInt8) :=
  [(.pdf, [0x25, 0x50, 0x44, 0x46, 0x2d]), (.zip, [0x50, 0x4b, 0x03, 0x04]),
    (.rtf, [0x7b, 0x5c, 0x72, 0x74, 0x66])]

def SIGNATURE_NAMES : SignatureFamily → String
  | .pdf => "%PDF- magic"
  | .zip => "ZIP signature of an Office or OpenDocument file"
  | .rtf => "\x7b\\rtf header"

/-- `declared.split(';')[0].trim().toLowerCase()`. The one letter outside
ASCII that has an ASCII lower case is the Kelvin sign, and no type of the
table has a `k`: the ASCII mapping finds the same entries. -/
def mediaType (declared : String) : String :=
  Js.asciiCase.toLowerCase
    (Js.trim (String.ofList (declared.toList.takeWhile (· ≠ ';'))))

def binaryFormat (declared : String) : Option BinaryFormat :=
  let type := mediaType declared
  let canonical := (ALIASES.lookup type).getD type
  BINARY_FORMATS.find? (·.contentType = canonical)

def isBinaryFormat (declared : String) : Bool := (binaryFormat declared).isSome

def signatureFamily (bytes : ByteArray) : Option SignatureFamily :=
  (SIGNATURES.find? fun entry => entry.2.isPrefixOf bytes.data.toList).map (·.1)

/-- The types the refusals name. -/
def acceptedTypes : String :=
  String.intercalate ", " (BINARY_FORMATS.map (·.contentType))

inductive Admitted where
  | content (text : String)
  | binary (bytes : ByteArray) (contentType : String)
  | refusal (reason : String)

def admitBytes (bytes : ByteArray) (declaredType : String) (objectStorage : Bool) :
    Admitted :=
  let declared := mediaType declaredType
  match binaryFormat declared, signatureFamily bytes with
  | some format, family =>
      if family ≠ some format.family then
        .refusal ("The file declares '" ++ format.contentType
          ++ "' but the bytes do not begin with the " ++ SIGNATURE_NAMES format.family
          ++ ". Both must agree; a declared type the bytes contradict is refused "
          ++ "rather than trusted.")
      else if objectStorage = false then
        .refusal ("A " ++ format.format ++ " upload needs object storage, and this "
          ++ "deployment has none configured. Set NACRE_S3_* (endpoint, bucket, "
          ++ "access key, secret key) to enable binary ingest.")
      else .binary bytes format.contentType
  | none, some family =>
      .refusal ("The bytes begin with the " ++ SIGNATURE_NAMES family
        ++ " but the file declares '"
        ++ (if declared = "" then "nothing" else declared)
        ++ "'. Both must agree; declare the document's type rather than relying on "
        ++ "sniffing. Accepted: " ++ acceptedTypes ++ ".")
  | none, none =>
      match Js.decode bytes with
      | some text => .content text
      | none =>
          .refusal ("The uploaded file is not UTF-8 text and declares no binary format "
            ++ "this installation extracts. Accepted, each declared on the file: "
            ++ acceptedTypes ++ ". An image, an archive or a legacy .doc needs an "
            ++ "extractor the parser deliberately does not carry.")

theorem mediaType_mediaType (declared : String) :
    mediaType (mediaType declared) = mediaType declared := by
  generalize hcs : String.ofList (declared.toList.takeWhile (· ≠ ';')) = type
  have hsemi : ∀ c ∈ (Js.trim type).toList, c ≠ ';' := by
    intro c hc
    have hmem : c ∈ type.toList := Js.mem_of_mem_trim hc
    rw [← hcs, String.toList_ofList] at hmem
    simpa using List.mem_takeWhile_imp hmem
  have htrimmed := Js.trimmed_trim type
  have hlower : mediaType declared
      = String.ofList ((Js.trim type).toList.map Char.toLower) := by
    unfold mediaType
    rw [hcs]
    rfl
  rw [hlower]
  generalize (Js.trim type).toList = cs at hsemi htrimmed
  have hclean : (cs.map Char.toLower).takeWhile (· ≠ ';') = cs.map Char.toLower := by
    rw [List.takeWhile_eq_self_iff]
    intro c hc
    obtain ⟨c', hc', rfl⟩ := List.mem_map.1 hc
    rcases Js.toLower_cases c' with heq | hletter
    · rw [heq]
      simpa using hsemi c' hc'
    · have hne : c'.toLower ≠ ';' := by
        intro hsemicolon
        rw [hsemicolon] at hletter
        exact absurd hletter (by decide)
      simpa using hne
  unfold mediaType
  rw [String.toList_ofList, hclean, Js.trim_ofList (Js.trimmed_map_toLower htrimmed)]
  show String.ofList ((String.ofList (cs.map Char.toLower)).toList.map Char.toLower) = _
  rw [String.toList_ofList, List.map_map]
  exact congrArg String.ofList (List.map_congr_left fun c _ => Js.toLower_idem c)

/-- A type of the table that was found is found again. -/
theorem isBinaryFormat_of_found {declared : String} {format : BinaryFormat}
    (h : binaryFormat declared = some format) :
    isBinaryFormat format.contentType = true := by
  unfold binaryFormat at h
  dsimp only at h
  have hmem := List.mem_of_find?_eq_some h
  have hcanonical : format.contentType
      = (ALIASES.lookup (mediaType declared)).getD (mediaType declared) := by
    simpa using List.find?_some h
  have hself : (ALIASES.lookup (mediaType format.contentType)).getD
      (mediaType format.contentType) = format.contentType := by
    cases halias : ALIASES.lookup (mediaType declared) with
    | none =>
        rw [halias, Option.getD_none] at hcanonical
        rw [hcanonical, mediaType_mediaType, halias, Option.getD_none]
    | some canonical =>
        rw [halias, Option.getD_some] at hcanonical
        have hrtf : canonical = "application/rtf" := by
          simp only [ALIASES, List.lookup_cons, List.lookup_nil] at halias
          split at halias
          next => exact (Option.some.inj halias).symm
          next => cases halias
        rw [hcanonical, hrtf]
        simp [mediaType, Js.trim, Js.asciiCase, Js.isTrimmed, ALIASES]
  unfold isBinaryFormat binaryFormat
  dsimp only
  rw [hself]
  exact List.find?_isSome.2 ⟨format, hmem, by simp⟩

theorem not_isBinaryFormat_text : isBinaryFormat "text/plain" = false := by
  decide +kernel

/-- What is admitted as binary is handed on as it came, under a type the
worker knows for one. -/
theorem admitBytes_binary {bytes bytes' : ByteArray} {declared contentType : String}
    {objectStorage : Bool}
    (h : admitBytes bytes declared objectStorage = .binary bytes' contentType) :
    bytes' = bytes ∧ objectStorage = true ∧ isBinaryFormat contentType = true := by
  unfold admitBytes at h
  dsimp only at h
  split at h
  case h_1 format hformat =>
    split at h
    next => cases h
    next =>
      split at h
      next => cases h
      next hstorage =>
        cases h
        exact ⟨rfl, by simpa using hstorage,
          isBinaryFormat_of_found hformat⟩
  case h_2 => cases h
  case h_3 =>
    split at h
    next => cases h
    next => cases h

-- ================================================================= hashes

/-- The hash of a binary source. -/
def bytesHash (bytes : ByteArray) : String := "sha256:" ++ Sha256.hex bytes.data.toList

def contentHash (text : String) : String := bytesHash text.toUTF8

theorem bytesHash_encode (text : List UInt16) :
    bytesHash (Js.encode text) = contentHash (Js.toWellFormed text) := rfl

-- =============================================================== the API

instance (priority := 2000) bytesDecidableEq : DecidableEq ByteArray := ByteArray.instDecidableEq

inductive Source where
  | content (text : List UInt16)
  | url (url : List UInt16)
  | binary (bytes : ByteArray) (contentType : String)
  deriving DecidableEq

/-- An ingest request for one document. -/
structure Request (μ : Type) where
  layerId : String
  externalId : String
  title : Option String := none
  source : Source
  metadata : μ
  deriving DecidableEq

/-- An object of the bucket. -/
structure Object where
  bytes : ByteArray
  contentType : String
  deriving DecidableEq

def documentKey (orgId layerId externalId : String) : String :=
  "org/" ++ orgId ++ "/layer/" ++ layerId ++ "/"
    ++ Sha256.hex externalId.toUTF8.data.toList

variable {μ : Type}

/-- What `queue` writes: the row's values, and the object it puts before
them. A binary source without object storage throws. -/
def prepare (objects : Bool) (key : String) (req : Request μ) :
    Option (IngestRequest μ × Option Object) :=
  let row (sourceType sourceRef hash contentType : String) : IngestRequest μ :=
    { layerId := req.layerId, sourceType, sourceRef, title := req.title
      contentHash := hash, contentType, metadata := req.metadata }
  match req.source with
  | .binary bytes contentType =>
      if objects then
        some (row "s3" key (bytesHash bytes) contentType, some ⟨bytes, contentType⟩)
      else none
  | .content text =>
      if objects then
        some (row "s3" key (bytesHash (Js.encode text)) "text/plain",
          some ⟨Js.encode text, "text/plain"⟩)
      else
        some (row "inline" (Js.toWellFormed text) (bytesHash (Js.encode text))
          "text/plain", none)
  | .url url =>
      some (row "url" (Js.toWellFormed url) (bytesHash (Js.encode url)) "text/plain",
        none)

-- ============================================================ the worker

/-- What a pass hands to the parser. -/
inductive Parsable where
  | url (url : String)
  | content (text : String)
  | bytes (bytes : ByteArray) (contentType : String)

/-- The source of a claimed document, with what the bucket answered for
its key. -/
def sourceOf (sourceType sourceRef contentType : String) (object : Option ByteArray) :
    Except String Parsable :=
  if sourceType = "s3" then
    match object with
    | none => .error ("object " ++ sourceRef ++ " is missing from the bucket")
    | some bytes =>
        if isBinaryFormat contentType then .ok (.bytes bytes contentType)
        else
          match Js.decode bytes with
          | some text => .ok (.content text)
          | none =>
              .error ("object " ++ sourceRef ++ " is not the UTF-8 text that was "
                ++ "stored; the bucket's copy is corrupt")
  else if sourceType = "url" then .ok (.url sourceRef)
  else .ok (.content sourceRef)

/-- The part of the sidecar that is not this repository's: what a URL
answers, and what the extractors find. -/
structure Sidecar where
  fetch : String → Option String
  extract : ByteArray → String → Option String

def Sidecar.parse (sidecar : Sidecar) : Parsable → Option String
  | .url url => sidecar.fetch url
  | .content text => some text
  | .bytes bytes contentType => sidecar.extract bytes contentType

/-- The hash a pass writes back: of the bytes of a binary source, of the
parsed text of any other. -/
def Parsable.hash (parsed : String) : Parsable → String
  | .bytes raw _ => bytesHash raw
  | _ => contentHash parsed

end Nacre.Ingest
