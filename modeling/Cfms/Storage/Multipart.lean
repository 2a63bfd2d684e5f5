import Cfms.Lib.Json
import Cfms.Lib.Process
import Cfms.Lib.Table
import Mathlib.Data.Rat.Defs

/-!
# Multipart uploads to S3

`S3ResumableUpload` of `include/providers/storage/s3.py`, and the part of
`include/transport/connection.py` that opens an upload, records its session and writes what the
client sends.  They are programs over the calls they make: requests to S3, transactions on the task
row, messages to and from the client.

A checkpoint is the text that `orjson` writes for a value; here it is the value, or a text that is no
JSON.  The spooled buffer is its contents, and `_buffer_size` the number of them.  Closing the buffer
is left out, and so are the checks of a task's status, which only ever raise.
-/

namespace Cfms.Storage

open Lib Lib.Process

abbrev Bytes := List UInt8

abbrev UploadId := ℕ

/-! ### Limits and errors -/

def s3MinPartSize : ℕ := 5 * 1024 * 1024

def s3MaxPartSize : ℕ := 5 * 1024 * 1024 * 1024

def s3MaxParts : ℕ := 10000

/-- What a `ClientError` carries: the error code and the HTTP status of the response. -/
structure ClientError where
  code : Option String
  httpStatusCode : Option ℕ
  deriving DecidableEq

def isNotFoundError (error : ClientError) : Bool :=
  error.code == some "404" || error.code == some "NoSuchKey" || error.code == some "NotFound" ||
    ((error.code == none || error.code == some "") && error.httpStatusCode == some 404)

def isMissingUploadError (error : ClientError) : Bool :=
  isNotFoundError error || error.code == some "NoSuchUpload"

inductive Failure
  | clientError (error : ClientError)
  /-- Any other exception of a call. -/
  | interrupted
  | resumableUploadSizeError
  | valueError (message : String)
  | typeError (message : String)
  | runtimeError (message : String)
  /-- The loop went on for more rounds than there are bytes. -/
  | outOfRounds
  deriving DecidableEq

/-- The exception comes from a call and not from the code. -/
def Failure.isOutside : Failure → Bool
  | .clientError _ | .interrupted => true
  | _ => false

def s3CheckpointSize (fileSize chunkSize : ℕ) : Except Failure ℕ :=
  let minimumSize := max s3MinPartSize ((fileSize + s3MaxParts - 1) / s3MaxParts)
  let checkpointSize := (minimumSize + chunkSize - 1) / chunkSize * chunkSize
  if s3MaxPartSize < checkpointSize then .error .resumableUploadSizeError else .ok checkpointSize

/-! ### Checkpoints -/

/-- A text, by what `orjson.loads` makes of it. -/
inductive CheckpointText
  | json (value : Json)
  | undecodable

/-- An entry of `_parts`. -/
structure Part where
  partNumber : ℕ
  etag : String
  size : ℕ
  deriving DecidableEq

def Part.toJson (part : Part) : Json :=
  .object [("PartNumber", .int part.partNumber), ("ETag", .string part.etag), ("Size", .int part.size)]

/-- `orjson.dumps(self._parts)`. -/
def dumpParts (parts : List Part) : CheckpointText := .json (.array (parts.map Part.toJson))

/-- `part[key]` of a dictionary. -/
def getItem (items : List (String × Json)) (key : String) : Except Failure Json :=
  match items.lookup key with
  | none => .error (.typeError "S3 multipart upload checkpoint is invalid")
  | some value => .ok value

/-- The types of the entries of a part, and their values. -/
def partFields : Json → Json → Json → ℕ → Except Failure Part
  | .int partNumber, .int partSize, .string etag, expectedPartNumber =>
    if partNumber ≠ expectedPartNumber ∨ partSize ≤ 0 then
      .error (.valueError "S3 multipart upload has invalid checkpoint parts")
    else .ok ⟨expectedPartNumber, etag, partSize.toNat⟩
  | _, _, _, _ => .error (.valueError "S3 multipart upload has invalid checkpoint parts")

/-- One round of the loop of `_load_checkpoint`, up to the checks against the file. -/
def loadPart (part : Json) (expectedPartNumber : ℕ) : Except Failure Part :=
  match part with
  | .object items =>
    (getItem items "PartNumber").bind fun partNumber =>
      (getItem items "Size").bind fun partSize =>
        (getItem items "ETag").bind fun etag => partFields partNumber partSize etag expectedPartNumber
  | _ => .error (.typeError "S3 multipart upload checkpoint is invalid")

/-- The loop of `_load_checkpoint`: the parts and the offset. -/
def loadParts (fileSize checkpointSize : ℕ) :
    List Json → ℕ → List Part → ℕ → Except Failure (List Part × ℕ)
  | [], _, loadedParts, offset => .ok (loadedParts, offset)
  | value :: rest, expectedPartNumber, loadedParts, offset =>
    match loadPart value expectedPartNumber with
    | .error failure => .error failure
    | .ok part =>
      let nextOffset := offset + part.size
      if fileSize < nextOffset then
        .error (.valueError "S3 upload progress exceeds the declared file size")
      else
        let isRegularPart := part.size == checkpointSize
        let isFinalPart := part.size < checkpointSize && nextOffset == fileSize
        if !(isRegularPart || isFinalPart) then
          .error (.valueError "S3 multipart upload has invalid checkpoint parts")
        else
          loadParts fileSize checkpointSize rest (expectedPartNumber + 1) (loadedParts ++ [part])
            nextOffset

def loadCheckpoint (fileSize checkpointSize : ℕ) : Option CheckpointText →
    Except Failure (List Part × ℕ)
  | none => .ok ([], 0)
  | some .undecodable => .error (.valueError "S3 multipart upload checkpoint is invalid")
  | some (.json (.array items)) => loadParts fileSize checkpointSize items 1 [] 0
  | some (.json _) => .error (.typeError "S3 multipart upload checkpoint is invalid")

/-! ### Calls -/

inductive Op
  -- S3
  | createMultipartUpload
  | listParts (uploadId : UploadId)
  | headObject
  | uploadPart (uploadId : UploadId) (partNumber : ℕ) (body : Bytes)
  | completeMultipartUpload (uploadId : UploadId) (parts : List (ℕ × String))
  | abortMultipartUpload (uploadId : UploadId)
  | putObject (body : Bytes)
  -- transactions on the task row
  /-- The checkpoint callback. -/
  | recordCheckpoint (checkpointData : CheckpointText)
  | recordStorageSession (sessionId : Option UploadId) (checkpointSize : ℕ)
      (checkpointData : Option CheckpointText)
  -- the client
  | transferFile (fileSize chunkSize offset : ℕ)
  | recv
  | conclude (code : ℕ) (offset : ℕ) (message : String)

@[reducible] def Op.Result : Op → Type
  | .createMultipartUpload => UploadId
  | .headObject => ℕ
  | .uploadPart _ _ _ => String
  | .recv => Bytes
  | _ => Unit

def uploadSignature : Signature := ⟨Op, Op.Result⟩

abbrev Upload (α : Type) := Proc uploadSignature Failure α

def call (op : Op) : Upload op.Result := @Proc.perform uploadSignature Failure op

/-- A step of the code that calls nothing. -/
def compute {α : Type} (result : Except Failure α) : Upload α := .done result

/-! ### The resumable upload -/

structure S3ResumableUpload where
  fileSize : ℕ
  checkpointSize : ℕ
  parts : List Part
  checkpointData : Option CheckpointText
  buffer : Bytes
  completed : Bool
  sessionId : Option UploadId
  offset : ℕ

namespace S3ResumableUpload

/-- `checkpoint_size or _s3_checkpoint_size(file_size, chunk_size)`. -/
def chooseCheckpointSize (fileSize chunkSize : ℕ) : Option ℕ → Except Failure ℕ
  | none | some 0 => s3CheckpointSize fileSize chunkSize
  | some checkpointSize => .ok checkpointSize

/-- The handler around `list_parts`: an upload that is gone may have been completed. -/
def findCompleted (fileSize : ℕ) (error : ClientError) : Upload Unit :=
  if isMissingUploadError error then do
    let contentLength : ℕ ← tryCatch (call .headObject) fun
      | .clientError headError =>
        if isNotFoundError headError then throw (.clientError error)
        else throw (.clientError headError)
      | failure => throw failure
    if contentLength ≠ fileSize then throw (.clientError error)
  else throw (.clientError error)

/-- Whether the stored session is still open; `false` when its upload was completed. -/
def sessionOpen (fileSize : ℕ) (sessionId : UploadId) : Upload Bool :=
  tryCatch
    (do
      call (.listParts sessionId)
      pure true)
    fun
    | .clientError error => do
      findCompleted fileSize error
      pure false
    | failure => throw failure

def init (fileSize chunkSize : ℕ) (sessionId : Option UploadId) (checkpointSize : Option ℕ)
    (checkpointData : Option CheckpointText) : Upload S3ResumableUpload := do
  let checkpointSize ← compute (chooseCheckpointSize fileSize chunkSize checkpointSize)
  let upload : S3ResumableUpload :=
    ⟨fileSize, checkpointSize, [], checkpointData, [], false, none, 0⟩
  if fileSize = 0 then pure upload
  else
    match sessionId with
    | none => do
      let uploadId : UploadId ← call .createMultipartUpload
      pure { upload with sessionId := some uploadId }
    | some sessionId => do
      if ← sessionOpen fileSize sessionId then do
        let (parts, offset) ← compute (loadCheckpoint fileSize checkpointSize checkpointData)
        pure { upload with sessionId := some sessionId, parts := parts, offset := offset }
      else pure { upload with offset := fileSize, completed := true }

def uploadPart (upload : S3ResumableUpload) : Upload S3ResumableUpload :=
  match upload.sessionId with
  | none => throw (.runtimeError "S3 multipart upload has not been initialized")
  | some sessionId => do
    let partNumber := upload.parts.length + 1
    let etag : String ← call (.uploadPart sessionId partNumber upload.buffer)
    let parts := upload.parts ++ [⟨partNumber, etag, upload.buffer.length⟩]
    let checkpointData := dumpParts parts
    call (.recordCheckpoint checkpointData)
    pure { upload with
      parts := parts
      offset := upload.offset + upload.buffer.length
      checkpointData := some checkpointData
      buffer := [] }

def write (upload : S3ResumableUpload) (data : Bytes) : Upload S3ResumableUpload :=
  if upload.completed then throw (.valueError "S3 multipart upload is already complete")
  else
    let upload := { upload with buffer := upload.buffer ++ data }
    if upload.buffer.length = upload.checkpointSize then upload.uploadPart
    else if upload.checkpointSize < upload.buffer.length then
      throw (.valueError "Upload write crossed the S3 checkpoint boundary")
    else pure upload

/-- The end of `finish`. -/
def complete (upload : S3ResumableUpload) : Upload Unit :=
  match upload.sessionId with
  | none => throw (.runtimeError "S3 multipart upload has not been initialized")
  | some sessionId =>
    call (.completeMultipartUpload sessionId
      (upload.parts.map fun part => (part.partNumber, part.etag)))

def finish (upload : S3ResumableUpload) : Upload Unit :=
  if upload.completed then pure ()
  else if upload.fileSize = 0 then call (.putObject [])
  else if upload.offset + upload.buffer.length ≠ upload.fileSize then
    throw (.valueError "S3 multipart upload is incomplete")
  else if upload.buffer ≠ [] then do
    let upload ← upload.uploadPart
    upload.complete
  else upload.complete

def abort (upload : S3ResumableUpload) : Upload Unit :=
  match upload.sessionId with
  | none => pure ()
  | some sessionId =>
    tryCatch (call (.abortMultipartUpload sessionId)) fun
      | .clientError error =>
        if isMissingUploadError error then pure () else throw (.clientError error)
      | failure => throw failure

end S3ResumableUpload

/-! ### Receiving a file -/

/-- The columns of the task row that an upload is resumed from. -/
structure UploadProgress where
  uploadSessionId : Option UploadId
  uploadCheckpointSize : Option ℕ
  uploadCheckpointData : Option CheckpointText

/-- `open_resumable_upload` and the transaction after it, in `_prepare_upload_transfer`. -/
def prepareUpload (fileSize chunkSize : ℕ) (progress : UploadProgress) : Upload S3ResumableUpload := do
  let upload ← S3ResumableUpload.init fileSize chunkSize progress.uploadSessionId
    progress.uploadCheckpointSize progress.uploadCheckpointData
  tryCatch
    (call (.recordStorageSession upload.sessionId upload.checkpointSize upload.checkpointData))
    fun failure => do
      if progress.uploadSessionId.isNone then upload.abort
      throw failure
  pure upload

/-- The loop of `_receive_upload_contents`; a chunk has at least one byte, so the bytes that remain
bound the rounds.  `none` when a chunk has the wrong size. -/
def receiveChunks (fileSize chunkSize : ℕ) :
    ℕ → S3ResumableUpload → ℕ → Upload (Option S3ResumableUpload)
  | rounds, upload, receivedSize =>
    if receivedSize < fileSize then
      match rounds with
      | 0 => throw .outOfRounds
      | rounds + 1 => do
        let data : Bytes ← call .recv
        if data.length ≠ min chunkSize (fileSize - receivedSize) then do
          call (.conclude 400 upload.offset "Invalid upload chunk size")
          pure none
        else do
          let upload ← upload.write data
          receiveChunks fileSize chunkSize rounds upload (receivedSize + data.length)
    else pure (some upload)

/-- One attempt: prepare, receive and finish.  `true` when the file has been received. -/
def receiveUpload (fileSize chunkSize : ℕ) (progress : UploadProgress) : Upload Bool := do
  let upload ← prepareUpload fileSize chunkSize progress
  call (.transferFile fileSize chunkSize upload.offset)
  match ← receiveChunks fileSize chunkSize (fileSize - upload.offset) upload upload.offset with
  | none => pure false
  | some upload => do
    upload.finish
    pure true

/-! ### S3, the task row and the client -/

/-- The uploads that S3 keeps, each with the last body of every part number, the object at the key,
the task row, and how many bytes the client has sent from the offset it was told. -/
structure World where
  uploads : Table UploadId (Table ℕ Bytes)
  object : Option Bytes
  progress : UploadProgress
  sent : ℕ

/-- Nothing was uploaded to the key. -/
def World.initial : World := ⟨∅, none, ⟨none, none, none⟩, 0⟩

/-- The file of the client, the size of its chunks, and the entity tag of a body. -/
structure Client where
  file : Bytes
  chunkSize : ℕ
  etag : Bytes → String

def listedBodies (etag : Bytes → String) (kept : Table ℕ Bytes) :
    List (ℕ × String) → Option (List Bytes)
  | [] => some []
  | (partNumber, tag) :: rest =>
    match kept.lookup partNumber with
    | none => none
    | some body =>
      if etag body = tag then (listedBodies etag kept rest).map (body :: ·) else none

def noSuchUpload : ClientError := ⟨some "NoSuchUpload", some 404⟩

def invalidPart : ClientError := ⟨some "InvalidPart", some 400⟩

/-- What a call does that is carried out; a new upload gets the identifier `fresh`. -/
def perform (client : Client) (fresh : UploadId) (w : World) :
    (op : Op) → Except ClientError (op.Result × World)
  | .createMultipartUpload => .ok (fresh, { w with uploads := w.uploads.insert fresh ∅ })
  | .listParts uploadId =>
    if (w.uploads.lookup uploadId).isSome then .ok ((), w) else .error noSuchUpload
  | .headObject =>
    match w.object with
    | none => .error ⟨some "404", some 404⟩
    | some object => .ok (object.length, w)
  | .uploadPart uploadId partNumber body =>
    match w.uploads.lookup uploadId with
    | none => .error noSuchUpload
    | some kept =>
      .ok (client.etag body,
        { w with uploads := w.uploads.insert uploadId (kept.insert partNumber body) })
  | .completeMultipartUpload uploadId parts =>
    match w.uploads.lookup uploadId with
    | none => .error noSuchUpload
    | some kept =>
      match listedBodies client.etag kept parts with
      | none => .error invalidPart
      | some bodies =>
        .ok ((), { w with uploads := w.uploads.erase uploadId, object := some bodies.flatten })
  | .abortMultipartUpload uploadId =>
    if (w.uploads.lookup uploadId).isSome then
      .ok ((), { w with uploads := w.uploads.erase uploadId })
    else .error noSuchUpload
  | .putObject body => .ok ((), { w with object := some body })
  | .recordCheckpoint checkpointData =>
    .ok ((), { w with progress := { w.progress with uploadCheckpointData := some checkpointData } })
  | .recordStorageSession sessionId checkpointSize checkpointData =>
    .ok ((), { w with progress := ⟨sessionId, some checkpointSize, checkpointData⟩ })
  | .transferFile _ _ offset => .ok ((), { w with sent := offset })
  | .recv =>
    let data := (client.file.drop w.sent).take client.chunkSize
    .ok (data, { w with sent := w.sent + data.length })
  | .conclude _ _ _ => .ok ((), w)

/-- How a call comes out. -/
inductive Answer
  | answer (fresh : UploadId)
  /-- It raises and nothing is done. -/
  | fail (failure : Failure)
  /-- It is carried out and raises all the same. -/
  | lose (fresh : UploadId) (failure : Failure)

/-- A call is answered.  The identifier of a new upload is not the one of an upload that is kept, and
what a call raises is its own. -/
def respond (client : Client) (w : World) (op : Op) :
    Answer → Option (Except Failure op.Result × World)
  | .answer fresh =>
    if (w.uploads.lookup fresh).isSome then none
    else
      match perform client fresh w op with
      | .ok (result, w') => some (.ok result, w')
      | .error error => some (.error (.clientError error), w)
  | .fail failure => if failure.isOutside then some (.error failure, w) else none
  | .lose fresh failure =>
    if (w.uploads.lookup fresh).isSome || !failure.isOutside then none
    else
      match perform client fresh w op with
      | .ok (_, w') => some (.error failure, w')
      | .error error => some (.error (.clientError error), w)

/-! ### Attempt after attempt -/

/-- The attempt that runs or has run last, and the world. -/
structure Attempts where
  attempt : Upload Bool
  world : World

/-- Before the first attempt. -/
def Attempts.initial : Attempts := ⟨.done (.error .interrupted), .initial⟩

inductive AttemptAction
  /-- The attempt before is over or is given up where it stands, and a new one resumes from the
  task row. -/
  | start
  | answer (a : Answer)

def attemptStep (client : Client) (s : Attempts) : AttemptAction → Option Attempts
  | .start =>
    some ⟨receiveUpload client.file.length client.chunkSize s.world.progress, s.world⟩
  | .answer a =>
    (@advance uploadSignature Failure Bool World Answer (respond client) (s.attempt, s.world) a).map
      fun c => ⟨c.1, c.2⟩

end Cfms.Storage
