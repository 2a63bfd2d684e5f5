import Cfms.Storage.Multipart

/-!
# Files in S3

`S3FileObject` of `include/providers/storage/s3.py`.  For reading, the position, the object size
and the streaming body are three pieces of state, of which a call may change one and raise, so that
a call returns its outcome with the file afterwards.  For writing, the buffer is cut into parts of
5 MiB wherever the writes begin and end.

S3 answers a range request with the suffix asked for, and a body gives as many bytes as are asked
for or all that remain.  A `Content-Range` header is given as its unit and its numbers.
-/

namespace Cfms.Storage

open Lib

/-! ### Calls and outcomes -/

inductive FileError
  | valueError (message : String)
  | osError (message : String)
  | fileNotFoundError (message : String)
  | unsupportedOperation (message : String)
  | clientError (error : ClientError)
  deriving DecidableEq

/-- What a call returns. -/
inductive FileValue
  | bytes (data : Bytes)
  | position (n : ℕ)
  | none
  deriving DecidableEq

inductive FileCall
  | read (size : ℤ)
  | seek (offset whence : ℤ)
  | tell
  | close
  deriving DecidableEq

abbrev FileOutcome := Except FileError FileValue

def outcomes {S : Type} (call : FileCall → S → FileOutcome × S) : S → List FileCall → List FileOutcome
  | _, [] => []
  | file, c :: rest => (call c file).1 :: outcomes call (call c file).2 rest

def closedFile : FileError := .valueError "I/O operation on closed file"

def invalidWhence (whence : ℤ) : FileError :=
  .valueError s!"invalid whence ({whence}, should be 0, 1 or 2)"

/-! ### Reading from S3 -/

/-- The fields of an `S3FileObject` opened for reading; of a body, what it has still to give. -/
structure ReadFile where
  body : Option Bytes
  position : ℕ
  objectSize : Option ℕ
  closed : Bool

/-- `__init__`. -/
def ReadFile.opened : ReadFile := ⟨none, 0, none, false⟩

structure ContentRange where
  unit : String
  start : ℕ
  last : ℕ
  total : ℕ

/-- The response of `get_object`; `contentRange` is `none` where the header does not parse. -/
structure GetObjectResponse where
  body : Bytes
  contentLength : ℕ
  contentRange : Option ContentRange

def noSuchKey : ClientError := ⟨some "NoSuchKey", some 404⟩

def notFound : ClientError := ⟨some "404", some 404⟩

def invalidRange : ClientError := ⟨some "InvalidRange", some 416⟩

/-- `head_object` at the key. -/
def headObject (stored : Option Bytes) : Except ClientError ℕ :=
  match stored with
  | none => .error notFound
  | some data => .ok data.length

/-- `get_object` at the key, from an offset on if there is a range. -/
def getObject (stored : Option Bytes) (range : Option ℕ) : Except ClientError GetObjectResponse :=
  match stored, range with
  | none, _ => .error noSuchKey
  | some data, none => .ok ⟨data, data.length, none⟩
  | some data, some start =>
    if start < data.length then
      .ok ⟨data.drop start, data.length - start, some ⟨"bytes", start, data.length - 1, data.length⟩⟩
    else .error invalidRange

/-- The handler around the requests of a file. -/
def missingFile (error : ClientError) : FileError :=
  if isNotFoundError error then .fileNotFoundError "No such file" else .clientError error

def loadObjectSize (stored : Option Bytes) (file : ReadFile) : Except FileError ℕ × ReadFile :=
  match file.objectSize with
  | some size => (.ok size, file)
  | none =>
    match headObject stored with
    | .error error => (.error (missingFile error), file)
    | .ok contentLength => (.ok contentLength, { file with objectSize := some contentLength })

def openReadBody (stored : Option Bytes) (file : ReadFile) : Except FileError Bytes × ReadFile :=
  match getObject stored (if file.position = 0 then none else some file.position) with
  | .error error => (.error (missingFile error), file)
  | .ok response =>
    if file.position = 0 then
      (.ok response.body,
        { file with objectSize := some response.contentLength, body := some response.body })
    else
      match response.contentRange with
      | none => (.error (.osError "S3 endpoint returned an invalid byte range"), file)
      | some range =>
        if range.unit ≠ "bytes" ∨ range.start ≠ file.position then
          (.error (.osError "S3 endpoint returned an unexpected byte range"), file)
        else
          (.ok response.body, { file with objectSize := some range.total, body := some response.body })

/-- `body.read`. -/
def readBody (body : Bytes) (size : ℤ) : Bytes := if size < 0 then body else body.take size.toNat

/-- The end of `read`. -/
def readFrom (body : Bytes) (size : ℤ) (file : ReadFile) : FileOutcome × ReadFile :=
  let data := readBody body size
  (.ok (.bytes data),
    { file with body := some (body.drop data.length), position := file.position + data.length })

def ReadFile.read (stored : Option Bytes) (size : ℤ) (file : ReadFile) : FileOutcome × ReadFile :=
  if file.closed then (.error closedFile, file)
  else if size = 0 then (.ok (.bytes []), file)
  else if file.objectSize.any (· ≤ file.position) then (.ok (.bytes []), file)
  else
    match file.body with
    | some body => readFrom body size file
    | none =>
      match openReadBody stored file with
      | (.error error, file) => (.error error, file)
      | (.ok body, file) => readFrom body size file

/-- The target of a `seek`. -/
def seekTarget (stored : Option Bytes) (offset whence : ℤ) (file : ReadFile) :
    Except FileError ℤ × ReadFile :=
  if whence = 0 then (.ok offset, file)
  else if whence = 1 then (.ok (file.position + offset), file)
  else if whence = 2 then
    match loadObjectSize stored file with
    | (.error error, file) => (.error error, file)
    | (.ok size, file) => (.ok (size + offset), file)
  else (.error (invalidWhence whence), file)

/-- The end of `seek`. -/
def moveTo (position : ℕ) (file : ReadFile) : FileOutcome × ReadFile :=
  (.ok (.position position),
    if position ≠ file.position then { file with body := none, position := position } else file)

def ReadFile.seek (stored : Option Bytes) (offset whence : ℤ) (file : ReadFile) :
    FileOutcome × ReadFile :=
  if file.closed then (.error closedFile, file)
  else
    match seekTarget stored offset whence file with
    | (.error error, file) => (.error error, file)
    | (.ok position, file) =>
      if position < 0 then (.error (.valueError s!"negative seek position {position}"), file)
      else if position ≠ 0 ∧ file.objectSize = none then
        match loadObjectSize stored file with
        | (.error error, file) => (.error error, file)
        | (.ok _, file) => moveTo position.toNat file
      else moveTo position.toNat file

def ReadFile.tell (file : ReadFile) : FileOutcome × ReadFile :=
  if file.closed then (.error closedFile, file) else (.ok (.position file.position), file)

def ReadFile.close (file : ReadFile) : FileOutcome × ReadFile := (.ok .none, { file with closed := true })

def ReadFile.call (stored : Option Bytes) : FileCall → ReadFile → FileOutcome × ReadFile
  | .read size => ReadFile.read stored size
  | .seek offset whence => ReadFile.seek stored offset whence
  | .tell => ReadFile.tell
  | .close => ReadFile.close

/-! ### Byte files in memory -/

/-- A byte file in memory, for reading. -/
structure ByteFile where
  contents : Bytes
  position : ℕ
  closed : Bool

def ByteFile.opened (contents : Bytes) : ByteFile := ⟨contents, 0, false⟩

namespace ByteFile

def read (size : ℤ) (file : ByteFile) : FileOutcome × ByteFile :=
  if file.closed then (.error closedFile, file)
  else
    let data := readBody (file.contents.drop file.position) size
    (.ok (.bytes data), { file with position := file.position + data.length })

/-- Where a `seek` leads; `none` for another `whence`. -/
def target (offset whence : ℤ) (file : ByteFile) : Option ℤ :=
  if whence = 0 then some offset
  else if whence = 1 then some (file.position + offset)
  else if whence = 2 then some (file.contents.length + offset)
  else none

/-- A `seek` to before the start is refused, or, where `clamps` says so, a relative one leads to the
start. -/
def seek (clamps : Bool) (offset whence : ℤ) (file : ByteFile) : FileOutcome × ByteFile :=
  if file.closed then (.error closedFile, file)
  else
    match file.target offset whence with
    | none => (.error (invalidWhence whence), file)
    | some position =>
      if position < 0 ∧ (whence = 0 ∨ clamps = false) then
        (.error (.valueError s!"negative seek value {position}"), file)
      else (.ok (.position position.toNat), { file with position := position.toNat })

def tell (file : ByteFile) : FileOutcome × ByteFile :=
  if file.closed then (.error closedFile, file) else (.ok (.position file.position), file)

def close (file : ByteFile) : FileOutcome × ByteFile := (.ok .none, { file with closed := true })

def call (clamps : Bool) : FileCall → ByteFile → FileOutcome × ByteFile
  | .read size => read size
  | .seek offset whence => seek clamps offset whence
  | .tell => tell
  | .close => close

end ByteFile

/-- `io.BytesIO`: a relative `seek` to before the start leads to the start. -/
def clampingFile : FileCall → ByteFile → FileOutcome × ByteFile := ByteFile.call true

/-- A byte file that refuses every `seek` to before its start. -/
def strictFile : FileCall → ByteFile → FileOutcome × ByteFile := ByteFile.call false

/-! ### Writing to S3 -/

/-- The requests that write at the bucket and the key of a file, and what S3 keeps there: of an open
upload its parts, by their numbers, each with its tag, and the object. -/
structure S3 (Service : Type) where
  createMultipartUpload : Service → Except ClientError (UploadId × Service)
  uploadPart : Service → UploadId → ℕ → Bytes → String → Except ClientError (String × Service)
  completeMultipartUpload : Service → UploadId → List (ℕ × String) → Except ClientError Service
  putObject : Service → Bytes → String → Except ClientError Service
  parts : Service → UploadId → Option (ℕ → Option (String × Bytes))
  object : Service → Option Bytes

/-- What S3 documents of these requests.  A part has a number from 1 to 10,000; an upload is completed
from parts in the order of their numbers, of which all but the last have at least 5 MiB. -/
structure S3.Documented {Service : Type} (s3 : S3 Service) (sha256 : Bytes → String) : Prop where
  created : ∀ service, ∃ uploadId service',
    s3.createMultipartUpload service = .ok (uploadId, service') ∧
    s3.parts service' uploadId = some fun _ => none
  kept : ∀ service uploadId parts number body, s3.parts service uploadId = some parts →
    0 < number → number ≤ s3MaxParts → body.length ≤ s3MaxPartSize →
    ∃ etag service', s3.uploadPart service uploadId number body (sha256 body) = .ok (etag, service') ∧
      s3.parts service' uploadId =
        some fun other => if other = number then some (etag, body) else parts other
  refused : ∀ service uploadId number body checksum, s3MaxParts < number →
    ∃ error, s3.uploadPart service uploadId number body checksum = .error error
  completed : ∀ service uploadId parts (listed : List (ℕ × String)) bodies,
    s3.parts service uploadId = some parts → listed ≠ [] →
    (listed.map Prod.fst).Pairwise (· < ·) →
    List.Forall₂ (fun part body => parts part.1 = some (part.2, body)) listed bodies →
    (∀ body ∈ bodies.dropLast, s3MinPartSize ≤ body.length) →
    ∃ service', s3.completeMultipartUpload service uploadId listed = .ok service' ∧
      s3.object service' = some bodies.flatten
  stored : ∀ service body, body.length ≤ s3MaxPartSize →
    ∃ service', s3.putObject service body (sha256 body) = .ok service' ∧
      s3.object service' = some body

/-- The size of a part, in `write`. -/
def writeChunkSize : ℕ := 5 * 1024 * 1024

/-- The fields of an `S3FileObject` opened for writing; of the hasher, what it was fed. -/
structure WriteFile where
  hashed : Bytes
  uploadId : Option UploadId
  parts : List (ℕ × String)
  buffer : Bytes
  partNumber : ℕ

/-- `__init__`. -/
def WriteFile.opened : WriteFile := ⟨[], none, [], [], 1⟩

section

variable {Service : Type} (s3 : S3 Service) (sha256 : Bytes → String)

/-- `_upload_part`, with the upload it belongs to. -/
def WriteFile.uploadPart (file : WriteFile) (uploadId : UploadId) (data : Bytes)
    (service : Service) : Except ClientError (WriteFile × Service) :=
  match s3.uploadPart service uploadId file.partNumber data (sha256 data) with
  | .error error => .error error
  | .ok (etag, service) =>
    .ok ({ file with
      parts := file.parts ++ [(file.partNumber, etag)]
      partNumber := file.partNumber + 1 }, service)

def WriteFile.ensureUpload (file : WriteFile) (service : Service) :
    Except ClientError (UploadId × WriteFile × Service) :=
  match file.uploadId with
  | some uploadId => .ok (uploadId, file, service)
  | none =>
    match s3.createMultipartUpload service with
    | .error error => .error error
    | .ok (uploadId, service) => .ok (uploadId, { file with uploadId := some uploadId }, service)

/-- A round of the loop of `write`. -/
def WriteFile.uploadChunk (file : WriteFile) (service : Service) :
    Except ClientError (WriteFile × Service) :=
  match file.ensureUpload s3 service with
  | .error error => .error error
  | .ok (uploadId, file, service) =>
    match file.uploadPart s3 sha256 uploadId (file.buffer.take writeChunkSize) service with
    | .error error => .error error
    | .ok (file, service) => .ok ({ file with buffer := file.buffer.drop writeChunkSize }, service)

/-- The loop of `write`; a chunk has at least one byte, so the buffer bounds the rounds. -/
def WriteFile.uploadChunks : ℕ → WriteFile × Service → Except ClientError (WriteFile × Service)
  | 0, state => .ok state
  | rounds + 1, (file, service) =>
    if writeChunkSize ≤ file.buffer.length then
      (file.uploadChunk s3 sha256 service).bind (WriteFile.uploadChunks rounds)
    else .ok (file, service)

def WriteFile.write (state : WriteFile × Service) (data : Bytes) :
    Except ClientError (WriteFile × Service) :=
  let buffer := state.1.buffer ++ data
  WriteFile.uploadChunks s3 sha256 buffer.length
    ({ state.1 with buffer := buffer, hashed := state.1.hashed ++ data }, state.2)

def WriteFile.close (state : WriteFile × Service) : Except ClientError Service :=
  match state.1.uploadId with
  | none => s3.putObject state.2 state.1.buffer (sha256 state.1.hashed)
  | some uploadId =>
    if 0 < state.1.buffer.length then
      match state.1.uploadPart s3 sha256 uploadId state.1.buffer state.2 with
      | .error error => .error error
      | .ok (file, service) => s3.completeMultipartUpload service uploadId file.parts
    else s3.completeMultipartUpload state.2 uploadId state.1.parts

/-- Writes one after another, and `close`. -/
def writeAll (service : Service) (writes : List Bytes) : Except ClientError Service :=
  (writes.foldlM (WriteFile.write s3 sha256) (WriteFile.opened, service)).bind
    (WriteFile.close s3 sha256)

end

/-! ### A bucket -/

/-- A bucket in memory, at one key: its open uploads, the next identifier and the object. -/
structure Bucket where
  uploads : Table UploadId (Table ℕ Bytes)
  nextUpload : UploadId
  object : Option Bytes

namespace Bucket

def empty : Bucket := ⟨∅, 0, none⟩

def invalidArgument : ClientError := ⟨some "InvalidArgument", some 400⟩

def entityTooLarge : ClientError := ⟨some "EntityTooLarge", some 400⟩

def entityTooSmall : ClientError := ⟨some "EntityTooSmall", some 400⟩

def badDigest : ClientError := ⟨some "BadDigest", some 400⟩

def invalidPartOrder : ClientError := ⟨some "InvalidPartOrder", some 400⟩

def malformedXML : ClientError := ⟨some "MalformedXML", some 400⟩

section

variable (sha256 etag : Bytes → String)

def uploadPart (bucket : Bucket) (uploadId : UploadId) (number : ℕ) (body : Bytes)
    (checksum : String) : Except ClientError (String × Bucket) :=
  if number = 0 ∨ s3MaxParts < number then .error invalidArgument
  else if s3MaxPartSize < body.length then .error entityTooLarge
  else if sha256 body ≠ checksum then .error badDigest
  else
    match bucket.uploads.lookup uploadId with
    | none => .error noSuchUpload
    | some kept =>
      .ok (etag body,
        { bucket with uploads := bucket.uploads.insert uploadId (kept.insert number body) })

def completeMultipartUpload (bucket : Bucket) (uploadId : UploadId) (listed : List (ℕ × String)) :
    Except ClientError Bucket :=
  match bucket.uploads.lookup uploadId with
  | none => .error noSuchUpload
  | some kept =>
    if listed = [] then .error malformedXML
    else if ¬(listed.map Prod.fst).Pairwise (· < ·) then .error invalidPartOrder
    else
      match listedBodies etag kept listed with
      | none => .error invalidPart
      | some bodies =>
        if bodies.dropLast.any fun body => body.length < s3MinPartSize then .error entityTooSmall
        else
          .ok { bucket with uploads := bucket.uploads.erase uploadId, object := some bodies.flatten }

/-- A bucket with these digests and tags as the S3 of the files above. -/
def s3 : S3 Bucket where
  createMultipartUpload bucket := .ok (bucket.nextUpload,
    { bucket with
      uploads := bucket.uploads.insert bucket.nextUpload ∅
      nextUpload := bucket.nextUpload + 1 })
  uploadPart := uploadPart sha256 etag
  completeMultipartUpload := completeMultipartUpload etag
  putObject bucket body checksum :=
    if s3MaxPartSize < body.length then .error entityTooLarge
    else if sha256 body ≠ checksum then .error badDigest
    else .ok { bucket with object := some body }
  parts bucket uploadId := (bucket.uploads.lookup uploadId).map fun kept number =>
    (kept.lookup number).map fun body => (etag body, body)
  object := Bucket.object

end

end Bucket

end Cfms.Storage
