import Cfms.Lib.Slices
import Cfms.Storage.Multipart
import Mathlib.Algebra.BigOperators.Group.List.Basic

/-!
# An interrupted upload loses nothing

The parts of an upload are the consecutive slices of the file, each of the checkpoint size but the
last.  That is what every checkpoint lists and what S3 keeps under a part number, in whichever
attempt it was sent: a part that is sent again, because its checkpoint was lost, is the same slice.
Chunks divide the checkpoint size, so that the buffer is full exactly when a slice is.
-/

namespace Cfms.Storage

open Lib Lib.Process Lib.Run Lib.Slices List

/-! ### The size of a part -/

/-- What the three roundings leave. -/
structure PartSize (fileSize chunkSize checkpointSize : ℕ) : Prop where
  dvd : chunkSize ∣ checkpointSize
  min_le : s3MinPartSize ≤ checkpointSize
  le_max : checkpointSize ≤ s3MaxPartSize
  le_parts : fileSize ≤ s3MaxParts * checkpointSize

theorem le_roundUp {n m : ℕ} (hm : 0 < m) : n ≤ (n + m - 1) / m * m := by
  have hmod : (n + m - 1) % m < m := Nat.mod_lt _ hm
  have hdiv : m * ((n + m - 1) / m) + (n + m - 1) % m = n + m - 1 := Nat.div_add_mod _ _
  rw [Nat.mul_comm]
  omega

variable {fileSize chunkSize : ℕ}

theorem partSize_of_ok {checkpointSize : ℕ} (hchunk : 0 < chunkSize)
    (h : s3CheckpointSize fileSize chunkSize = .ok checkpointSize) :
    PartSize fileSize chunkSize checkpointSize := by
  simp only [s3CheckpointSize] at h
  split_ifs at h with hmax
  cases h
  have hround : max s3MinPartSize ((fileSize + s3MaxParts - 1) / s3MaxParts) ≤ _ := le_roundUp hchunk
  refine ⟨Nat.dvd_mul_left _ _, (le_max_left _ _).trans hround, not_lt.mp hmax, ?_⟩
  calc fileSize ≤ (fileSize + s3MaxParts - 1) / s3MaxParts * s3MaxParts := le_roundUp (by decide)
    _ = s3MaxParts * ((fileSize + s3MaxParts - 1) / s3MaxParts) := Nat.mul_comm _ _
    _ ≤ _ := Nat.mul_le_mul_left _ ((le_max_right _ _).trans hround)

theorem PartSize.pos {checkpointSize : ℕ}
    (h : PartSize fileSize chunkSize checkpointSize) : 0 < checkpointSize :=
  lt_of_lt_of_le (by decide) h.min_le

/-! ### The parts that a checkpoint lists -/

section

variable (client : Client) (size : ℕ)

/-- The entry of slice `i`. -/
def slicePart (i : ℕ) : Part :=
  ⟨i + 1, client.etag (slice client.file size i), (slice client.file size i).length⟩

def firstParts (k : ℕ) : List Part := (List.range k).map (slicePart client size)

theorem firstParts_succ (k : ℕ) :
    firstParts client size (k + 1) = firstParts client size k ++ [slicePart client size k] := by
  simp [firstParts, range_succ]

theorem length_firstParts (k : ℕ) : (firstParts client size k).length = k := by
  rw [firstParts, length_map, length_range]

theorem sum_firstParts (k : ℕ) :
    ((firstParts client size k).map Part.size).sum = (client.file.take (k * size)).length := by
  induction k with
  | zero => simp [firstParts]
  | succ k ih =>
    rw [firstParts_succ, map_append, sum_append, ih, take_succ_mul]
    simp [slicePart]

variable {client size}

theorem loadPart_toJson {i : ℕ} (hpos : 0 < (slicePart client size i).size) :
    loadPart (slicePart client size i).toJson (i + 1) = .ok (slicePart client size i) := by
  have hsize : ¬((i + 1 : ℕ) : ℤ) ≠ ((i + 1 : ℕ) : ℤ) ∧ ¬((slicePart client size i).size : ℤ) ≤ 0 := by
    exact ⟨fun h => h rfl, by omega⟩
  show partFields (.int (i + 1 : ℕ)) (.int (slicePart client size i).size)
    (.string (slicePart client size i).etag) (i + 1) = _
  rw [partFields, if_neg (not_or.mpr hsize)]
  rfl

theorem loadParts_slices (hsize : 0 < size) (n j : ℕ) (hfits : Fits client.file size (j + n)) :
    loadParts client.file.length size
        ((List.range' j n).map fun i => (slicePart client size i).toJson) (j + 1)
        (firstParts client size j) (client.file.take (j * size)).length =
      .ok (firstParts client size (j + n), (client.file.take ((j + n) * size)).length) := by
  induction n generalizing j with
  | zero => rfl
  | succ n ih =>
    have hj : j * size < client.file.length := hfits j (by omega)
    have hpos : 0 < (slicePart client size j).size := length_slice_pos hsize hj
    have hnext : (client.file.take (j * size)).length + (slicePart client size j).size =
        (client.file.take ((j + 1) * size)).length := by
      rw [take_succ_mul, length_append]
      rfl
    have hle : ¬client.file.length < (client.file.take ((j + 1) * size)).length := by
      rw [length_take]
      omega
    -- a slice is shorter only where the file ends
    have hshape : ((slicePart client size j).size == size ||
        (slicePart client size j).size < size &&
          (client.file.take ((j + 1) * size)).length == client.file.length) = true := by
      have hlen : (slicePart client size j).size = min size (client.file.length - j * size) :=
        length_slice j
      have hsucc : (j + 1) * size = j * size + size := Nat.succ_mul j size
      simp only [Bool.or_eq_true, Bool.and_eq_true, beq_iff_eq, decide_eq_true_eq, length_take]
      omega
    rw [range'_succ, map_cons, loadParts, loadPart_toJson hpos]
    simp only [hnext, if_neg hle, hshape]
    rw [← firstParts_succ, show j + (n + 1) = j + 1 + n by omega]
    exact ih (j + 1) (by rwa [show j + 1 + n = j + (n + 1) by omega])

/-- **A checkpoint of the first parts is accepted**, and the offset is where they end. -/
theorem loadCheckpoint_firstParts (hsize : 0 < size) {k : ℕ} (hfits : Fits client.file size k) :
    loadCheckpoint client.file.length size (some (dumpParts (firstParts client size k))) =
      .ok (firstParts client size k, (client.file.take (k * size)).length) := by
  have hitems : (firstParts client size k).map Part.toJson =
      (range' 0 k).map fun i => (slicePart client size i).toJson := by
    rw [firstParts, map_map, range_eq_range']
    rfl
  have hload := loadParts_slices hsize k 0 (by rwa [Nat.zero_add])
  simp only [Nat.zero_add, Nat.zero_mul] at hload
  rw [dumpParts, hitems]
  exact hload

def Lists (client : Client) (size : ℕ) (text : CheckpointText) : Prop :=
  ∃ k, Fits client.file size k ∧ text = dumpParts (firstParts client size k)

def listed (parts : List Part) : List (ℕ × String) := parts.map fun part => (part.partNumber, part.etag)

end

/-! ### What every call keeps -/

section

variable (client : Client) (size : ℕ)

/-- What S3 keeps are slices, the row lists first parts, and an object is the file. -/
structure Sound (w : World) : Prop where
  checkpointSize : ∀ n, w.progress.uploadCheckpointSize = some n → n = size
  checkpointData : ∀ text, w.progress.uploadCheckpointData = some text → Lists client size text
  kept : ∀ uploadId kept n body, w.uploads.lookup uploadId = some kept →
    kept.lookup n = some body → ∃ i, n = i + 1 ∧ body = slice client.file size i
  object : ∀ object, w.object = some object → object = client.file

/-- The calls that keep it so. -/
def allowedOp : Op → Prop
  | .uploadPart _ n body => ∃ i, n = i + 1 ∧ body = slice client.file size i
  | .completeMultipartUpload _ parts => ∃ k, Fits client.file size k ∧
      client.file.length ≤ k * size ∧ parts = listed (firstParts client size k)
  | .putObject _ => False
  | .recordCheckpoint text => Lists client size text
  | .recordStorageSession _ checkpointSize checkpointData =>
    checkpointSize = size ∧ ∀ text, checkpointData = some text → Lists client size text
  | _ => True

def uploadMachine : Machine uploadSignature Failure World where
  allowed _ op := allowedOp client size op
  answers w op r w' := ∃ a, respond client w op a = some (r, w')

variable {client size} {w w' : World} {op : Op} {a : Answer} {r : Except Failure op.Result}

theorem respond_cases (h : respond client w op a = some (r, w')) :
    (∃ fresh result, perform client fresh w op = .ok (result, w') ∧
      (r = .ok result ∨ ∃ err, err.isOutside = true ∧ r = .error err)) ∨
    (w' = w ∧ ∃ err, err.isOutside = true ∧ r = .error err) := by
  cases a with
  | answer fresh =>
    simp only [respond] at h
    split_ifs at h
    cases hperf : perform client fresh w op with
    | error error =>
      rw [hperf] at h
      cases h
      exact .inr ⟨rfl, _, rfl, rfl⟩
    | ok result =>
      rw [hperf] at h
      cases h
      exact .inl ⟨fresh, result.1, hperf, .inl rfl⟩
  | fail err =>
    simp only [respond] at h
    split_ifs at h with hout
    cases h
    exact .inr ⟨rfl, err, hout, rfl⟩
  | lose fresh err =>
    simp only [respond] at h
    split_ifs at h with href
    have hout : err.isOutside = true := by
      simp only [Bool.or_eq_true, not_or, Bool.not_eq_true', Bool.not_eq_false] at href
      exact href.2
    cases hperf : perform client fresh w op with
    | error error =>
      rw [hperf] at h
      cases h
      exact .inr ⟨rfl, _, rfl, rfl⟩
    | ok result =>
      rw [hperf] at h
      cases h
      exact .inl ⟨fresh, result.1, hperf, .inr ⟨err, hout, rfl⟩⟩

theorem listedBodies_slices {kept : Table ℕ Bytes} {indices : List ℕ} {bodies : List Bytes}
    (hkept : ∀ n body, kept.lookup n = some body → ∃ i, n = i + 1 ∧ body = slice client.file size i)
    (h : listedBodies client.etag kept (listed (indices.map (slicePart client size))) = some bodies) :
    bodies = indices.map (slice client.file size) := by
  induction indices generalizing bodies with
  | nil =>
    cases h
    rfl
  | cons i rest ih =>
    simp only [listed, map_cons, listedBodies] at h
    split at h
    · cases h
    rename_i body hbody
    split_ifs at h
    obtain ⟨tail, htail, rfl⟩ := Option.map_eq_some_iff.mp h
    obtain ⟨j, hij, rfl⟩ := hkept _ _ hbody
    have hji : i = j := Nat.succ.inj hij
    rw [map_cons, ← hji, ih htail]

theorem Sound.setUploads {uploads : Table UploadId (Table ℕ Bytes)} (h : Sound client size w)
    (hkept : ∀ uploadId kept n body, uploads.lookup uploadId = some kept →
      kept.lookup n = some body → ∃ i, n = i + 1 ∧ body = slice client.file size i) :
    Sound client size { w with uploads := uploads } :=
  ⟨h.checkpointSize, h.checkpointData, hkept, h.object⟩

theorem perform_sound {fresh : UploadId} {result : op.Result} (h : Sound client size w)
    (hallow : allowedOp client size op)
    (hperf : perform client fresh w op = .ok (result, w')) : Sound client size w' := by
  cases op with
  | createMultipartUpload =>
    cases hperf
    refine h.setUploads ?_
    intro uploadId kept n body hkept hbody
    rcases Table.lookup_insert_eq_some hkept with ⟨-, rfl⟩ | ⟨-, hold⟩
    · cases hbody
    · exact h.kept uploadId kept n body hold hbody
  | listParts uploadId =>
    simp only [perform] at hperf
    split_ifs at hperf
    cases hperf
    exact h
  | headObject =>
    simp only [perform] at hperf
    split at hperf
    · cases hperf
    · cases hperf
      exact h
  | uploadPart uploadId n body =>
    simp only [perform] at hperf
    split at hperf
    · cases hperf
    rename_i kept hkept
    cases hperf
    refine h.setUploads ?_
    intro uploadId' kept' n' body' hkept' hbody'
    rcases Table.lookup_insert_eq_some hkept' with ⟨-, rfl⟩ | ⟨-, hold⟩
    · rcases Table.lookup_insert_eq_some hbody' with ⟨rfl, rfl⟩ | ⟨-, hold⟩
      · exact hallow
      · exact h.kept uploadId kept n' body' hkept hold
    · exact h.kept uploadId' kept' n' body' hold hbody'
  | completeMultipartUpload uploadId parts =>
    obtain ⟨k, -, hall, rfl⟩ := hallow
    simp only [perform] at hperf
    split at hperf
    · cases hperf
    rename_i kept hkept
    split at hperf
    · cases hperf
    rename_i bodies hbodies
    cases hperf
    have hslices : bodies = (range k).map (slice client.file size) :=
      listedBodies_slices (fun n body hbody => h.kept uploadId kept n body hkept hbody) hbodies
    refine ⟨h.checkpointSize, h.checkpointData, ?_, ?_⟩
    · intro uploadId' kept' n body hkept' hbody
      exact h.kept uploadId' kept' n body (Table.lookup_erase_eq_some hkept').2 hbody
    · intro object hobj
      rw [Option.some.injEq] at hobj
      rw [← hobj, hslices, flatten_slices, take_of_length_le hall]
  | abortMultipartUpload uploadId =>
    simp only [perform] at hperf
    split_ifs at hperf
    cases hperf
    refine h.setUploads ?_
    intro uploadId' kept' n body hkept' hbody
    exact h.kept uploadId' kept' n body (Table.lookup_erase_eq_some hkept').2 hbody
  | putObject body => exact absurd hallow (fun h => h)
  | recordCheckpoint text =>
    cases hperf
    refine ⟨h.checkpointSize, ?_, h.kept, h.object⟩
    intro text' htext
    cases htext
    exact hallow
  | recordStorageSession sessionId checkpointSize checkpointData =>
    cases hperf
    refine ⟨?_, hallow.2, h.kept, h.object⟩
    intro n hn
    cases hn
    exact hallow.1
  | transferFile fileSize chunkSize offset | recv =>
    cases hperf
    exact ⟨h.checkpointSize, h.checkpointData, h.kept, h.object⟩
  | conclude code offset message =>
    cases hperf
    exact h

theorem respond_sound (h : Sound client size w) (hallow : allowedOp client size op)
    (hresp : respond client w op a = some (r, w')) : Sound client size w' := by
  rcases respond_cases hresp with ⟨fresh, result, hperf, -⟩ | ⟨rfl, -⟩
  · exact perform_sound h hallow hperf
  · exact h

end

/-! ### Programs that only raise what a call raised -/

section

variable {client : Client} {size : ℕ} {w w' : World} {α β : Type} {R : α → World → Prop}
  {R' : β → World → Prop}

/-- A condition on the value; an exception comes from a call. -/
def Settles (R : α → World → Prop) : Except Failure α → World → Prop
  | .ok a, w => R a w
  | .error failure, _ => failure.isOutside = true

theorem settles_call {op : Op} {R : op.Result → World → Prop} (hallow : allowedOp client size op)
    (h : ∀ fresh result w', perform client fresh w op = .ok (result, w') → R result w') :
    wp (uploadMachine client size) (call op) (Settles R) w := by
  refine ⟨hallow, ?_⟩
  rintro r w' ⟨a, hresp⟩
  rcases respond_cases hresp with
    ⟨fresh, result, hperf, rfl | ⟨err, hout, rfl⟩⟩ | ⟨-, err, hout, rfl⟩
  · exact h fresh result w' hperf
  · exact hout
  · exact hout

variable {p : Upload α}

theorem settles_bind {f : α → Upload β} (hp : wp (uploadMachine client size) p (Settles R) w)
    (hf : ∀ a w', R a w' → wp (uploadMachine client size) (f a) (Settles R') w') :
    wp (uploadMachine client size) (p >>= f) (Settles R') w := by
  rw [wp_bind]
  refine wp_mono ?_ hp
  intro r w' hr
  cases r with
  | ok a => exact hf a w' hr
  | error err => exact hr

theorem settles_tryCatch {handler : Failure → Upload α}
    (hp : wp (uploadMachine client size) p (Settles R) w)
    (hhand : ∀ err w', err.isOutside = true →
      wp (uploadMachine client size) (handler err) (Settles R) w') :
    wp (uploadMachine client size) (tryCatch p handler) (Settles R) w := by
  rw [wp_tryCatch]
  refine wp_mono ?_ hp
  intro r w' hr
  cases r with
  | ok a => exact hr
  | error err => exact hhand err w' hr

theorem settles_mono {R' : α → World → Prop} (h : ∀ a w', R a w' → R' a w')
    (hp : wp (uploadMachine client size) p (Settles R) w) :
    wp (uploadMachine client size) p (Settles R') w := by
  refine wp_mono ?_ hp
  intro r w' hr
  cases r with
  | ok a => exact h a w' hr
  | error err => exact hr

end

/-! ### An upload that is being written -/

section

variable {client : Client} {size : ℕ} {upload : S3ResumableUpload} {k receivedSize : ℕ} {w : World}

/-- `k` parts are uploaded, and the buffer holds what was received after them. -/
structure Writing (client : Client) (size k receivedSize : ℕ) (upload : S3ResumableUpload) :
    Prop where
  fileSize : upload.fileSize = client.file.length
  checkpointSize : upload.checkpointSize = size
  parts : upload.parts = firstParts client size k
  fits : Fits client.file size k
  completed : upload.completed = false
  session : ∃ sessionId, upload.sessionId = some sessionId
  checkpointData : ∀ text, upload.checkpointData = some text → Lists client size text
  offset : upload.offset = (client.file.take (k * size)).length
  buffer : client.file.take receivedSize = client.file.take (k * size) ++ upload.buffer
  received : receivedSize ≤ client.file.length
  short : upload.buffer.length < size
  aligned : receivedSize < client.file.length → client.chunkSize ∣ upload.buffer.length

theorem Writing.length (h : Writing client size k receivedSize upload) :
    upload.offset + upload.buffer.length = receivedSize := by
  have hlen : (client.file.take receivedSize).length = _ := congrArg List.length h.buffer
  rw [List.length_append, List.length_take, min_eq_left h.received] at hlen
  rw [h.offset, hlen]

theorem Writing.lt (h : Writing client size k receivedSize upload)
    (hmore : receivedSize < client.file.length ∨ upload.buffer ≠ []) :
    k * size < client.file.length := by
  by_contra hall
  have hlen := h.length
  have hrecv := h.received
  rw [h.offset, take_of_length_le (not_lt.mp hall)] at hlen
  rcases hmore with hmore | hmore
  · omega
  · exact hmore (length_eq_zero_iff.mp (by omega))

variable {data : Bytes}

/-- **A full buffer is the next slice**, and it becomes the next part. -/
theorem settles_uploadPart (hsize : 0 < size) {n : ℕ}
    (h : Writing client size k receivedSize upload) (hk : k * size < client.file.length)
    (hrecv : n ≤ client.file.length)
    (hbuf : client.file.take n = client.file.take (k * size) ++ data)
    (hend : data.length = size ∨ n = client.file.length ∧ data.length ≤ size) :
    wp (uploadMachine client size) ({ upload with buffer := data } : S3ResumableUpload).uploadPart
      (Settles fun upload' w' => Writing client size (k + 1) n upload' ∧ w'.sent = w.sent) w := by
  have hslice : data = slice client.file size k := eq_slice hk hbuf hend
  obtain ⟨sessionId, hsess⟩ := h.session
  have hcount : upload.parts.length = k := by rw [h.parts, length_firstParts]
  simp only [hsess]
  refine settles_bind (R := fun etag w' => etag = client.etag data ∧ w'.sent = w.sent)
    (settles_call ⟨k, congrArg (· + 1) hcount, hslice⟩ ?_) ?_
  · intro fresh result w' hperf
    simp only [perform] at hperf
    split at hperf
    · cases hperf
    · cases hperf
      exact ⟨rfl, rfl⟩
  · rintro etag w₁ ⟨rfl, hsent⟩
    have hparts : upload.parts ++ [⟨upload.parts.length + 1, client.etag data, data.length⟩] =
        firstParts client size (k + 1) := by
      rw [firstParts_succ, ← h.parts, hcount, hslice]
      rfl
    have hlists : Lists client size (dumpParts (firstParts client size (k + 1))) :=
      ⟨k + 1, h.fits.succ hk, rfl⟩
    have hoff : client.file.take ((k + 1) * size) = client.file.take (k * size) ++ data := by
      rw [take_succ_mul, hslice]
    rw [hparts]
    refine settles_bind (R := fun _ w' => w'.sent = w.sent) (settles_call hlists ?_) ?_
    · intro fresh result w' hperf
      cases hperf
      exact hsent
    intro _ w₂ hsent₂
    refine ⟨⟨h.fileSize, h.checkpointSize, rfl, h.fits.succ hk, h.completed, ⟨sessionId, rfl⟩,
      ?_, ?_, ?_, hrecv, hsize, fun _ => Nat.dvd_zero _⟩, hsent₂⟩
    · intro text htext
      cases htext
      exact hlists
    · rw [hoff, length_append, ← h.offset]
    · rw [hoff, append_nil, hbuf]

/-- **`write`** of a chunk stays within the checkpoint boundary. -/
theorem settles_write (hsize : PartSize client.file.length client.chunkSize size)
    (h : Writing client size k receivedSize upload) (hmore : receivedSize < client.file.length)
    (hdata : data = (client.file.drop receivedSize).take client.chunkSize) :
    wp (uploadMachine client size) (upload.write data) (Settles fun upload' w' =>
        (∃ k', Writing client size k' (receivedSize + data.length) upload') ∧ w'.sent = w.sent) w := by
  have hlen : data.length = min client.chunkSize (client.file.length - receivedSize) := by
    rw [hdata, length_take, length_drop]
  have hrecv : receivedSize + data.length ≤ client.file.length := by omega
  have hbuf : client.file.take (receivedSize + data.length) =
      client.file.take (k * size) ++ (upload.buffer ++ data) := by
    rw [take_add, h.buffer, append_assoc]
    congr 2
    rw [hdata, take_eq_take_iff, length_take]
    omega
  -- the chunk size divides both, so that there is room for a whole chunk
  have hroom : upload.buffer.length + client.chunkSize ≤ size := by
    obtain ⟨a, ha⟩ := h.aligned hmore
    obtain ⟨b, hb⟩ := hsize.dvd
    have hshort := h.short
    rw [ha, hb] at hshort ⊢
    have hab : a < b := lt_of_mul_lt_mul_left hshort (Nat.zero_le _)
    calc client.chunkSize * a + client.chunkSize = client.chunkSize * (a + 1) := (Nat.mul_succ _ _).symm
      _ ≤ client.chunkSize * b := Nat.mul_le_mul_left _ hab
  rw [S3ResumableUpload.write, if_neg (by rw [h.completed]; exact Bool.false_ne_true)]
  dsimp only
  split_ifs with hfull hcrossed
  · rw [h.checkpointSize] at hfull
    exact settles_mono (fun upload' _ h' => ⟨⟨k + 1, h'.1⟩, h'.2⟩)
      (settles_uploadPart hsize.pos h (h.lt (.inl hmore)) hrecv hbuf (.inl hfull))
  · rw [h.checkpointSize, length_append] at hcrossed
    omega
  · rw [h.checkpointSize, length_append] at hfull hcrossed
    refine ⟨⟨k, h.fileSize, h.checkpointSize, h.parts, h.fits, h.completed, h.session,
      h.checkpointData, h.offset, hbuf, hrecv, ?_, ?_⟩, rfl⟩
    · show (upload.buffer ++ data).length < size
      rw [length_append]
      omega
    · intro hnext
      have hchunk : data.length = client.chunkSize := by omega
      show client.chunkSize ∣ (upload.buffer ++ data).length
      rw [length_append, hchunk]
      exact Nat.dvd_add_self_right.mpr (h.aligned hmore)

theorem settles_receiveChunks (hsize : PartSize client.file.length client.chunkSize size)
    (hchunk : 0 < client.chunkSize) (rounds : ℕ)
    (hrounds : client.file.length - receivedSize ≤ rounds) (hsent : w.sent = receivedSize)
    (h : Writing client size k receivedSize upload) :
    wp (uploadMachine client size)
      (receiveChunks client.file.length client.chunkSize rounds upload receivedSize)
      (Settles fun result _ => ∃ upload' k', result = some upload' ∧
        Writing client size k' client.file.length upload') w := by
  induction rounds generalizing upload k receivedSize w with
  | zero =>
    have hall : receivedSize = client.file.length := by
      have hle := h.received
      omega
    rw [receiveChunks, if_neg (by omega)]
    exact ⟨upload, k, rfl, hall ▸ h⟩
  | succ rounds ih =>
    rw [receiveChunks]
    split_ifs with hmore
    · refine settles_bind (R := fun data w' =>
        data = (client.file.drop receivedSize).take client.chunkSize ∧
          w'.sent = receivedSize + data.length) (settles_call trivial ?_) ?_
      · intro fresh result w' hperf
        cases hperf
        rw [hsent]
        exact ⟨rfl, rfl⟩
      · rintro data w₁ ⟨hdata, hsent₁⟩
        have hlen : data.length = min client.chunkSize (client.file.length - receivedSize) := by
          rw [hdata, length_take, length_drop]
        rw [if_neg (not_not_intro hlen)]
        refine settles_bind (settles_write hsize h hmore hdata) ?_
        rintro upload' w₂ ⟨⟨k', h'⟩, hsent₂⟩
        exact ih (by omega) (hsent₂.trans hsent₁) h'
    · have hall : receivedSize = client.file.length := le_antisymm h.received (not_lt.mp hmore)
      exact ⟨upload, k, rfl, hall ▸ h⟩

theorem settles_complete (h : Writing client size k client.file.length upload)
    (hall : client.file.length ≤ k * size) :
    wp (uploadMachine client size) upload.complete (Settles fun _ w' => w'.object.isSome = true) w := by
  obtain ⟨sessionId, hsess⟩ := h.session
  simp only [S3ResumableUpload.complete, hsess]
  refine settles_call ⟨k, h.fits, hall, congrArg listed h.parts⟩ ?_
  intro fresh result w' hperf
  simp only [perform] at hperf
  split at hperf
  · cases hperf
  split at hperf
  · cases hperf
  · cases hperf
    rfl

theorem settles_finish (hsize : PartSize client.file.length client.chunkSize size)
    (hfile : client.file ≠ []) (h : Writing client size k client.file.length upload) :
    wp (uploadMachine client size) upload.finish (Settles fun _ w' => w'.object.isSome = true) w := by
  have hne : ¬upload.fileSize = 0 := by
    rw [h.fileSize]
    exact fun hzero => hfile (length_eq_zero_iff.mp hzero)
  have hwhole : ¬upload.offset + upload.buffer.length ≠ upload.fileSize := by
    rw [h.fileSize]
    exact not_not_intro h.length
  rw [S3ResumableUpload.finish, if_neg (by rw [h.completed]; exact Bool.false_ne_true)]
  split_ifs with hbuffered
  · refine settles_bind (settles_uploadPart hsize.pos h (h.lt (.inr hbuffered)) le_rfl h.buffer
      (.inr ⟨rfl, h.short.le⟩)) ?_
    rintro upload' w₁ ⟨h', -⟩
    refine settles_complete h' ?_
    have hlen := h.length
    have hshort := h.short
    rw [h.offset, length_take] at hlen
    rw [Nat.succ_mul]
    omega
  · refine settles_complete h ?_
    have hlen := h.length
    rw [h.offset, not_not.mp hbuffered, length_take] at hlen
    simp only [length_nil] at hlen
    omega

/-! ### Opening an upload -/

/-- The upload was completed by an earlier attempt. -/
structure Finished (client : Client) (size : ℕ) (upload : S3ResumableUpload) (w : World) : Prop where
  checkpointSize : upload.checkpointSize = size
  completed : upload.completed = true
  checkpointData : ∀ text, upload.checkpointData = some text → Lists client size text
  offset : upload.offset = client.file.length
  object : w.object.isSome = true

/-- What an attempt starts from. -/
def Opened (client : Client) (size : ℕ) (upload : S3ResumableUpload) (w : World) : Prop :=
  (∃ k, Writing client size k upload.offset upload) ∨ Finished client size upload w

theorem Opened.checkpointSize (h : Opened client size upload w) : upload.checkpointSize = size := by
  rcases h with ⟨k, h⟩ | h
  · exact h.checkpointSize
  · exact h.checkpointSize

theorem Opened.checkpointData (h : Opened client size upload w) :
    ∀ text, upload.checkpointData = some text → Lists client size text := by
  rcases h with ⟨k, h⟩ | h
  · exact h.checkpointData
  · exact h.checkpointData

theorem Opened.congr {w' : World} (h : Opened client size upload w) (hobj : w'.object = w.object) :
    Opened client size upload w' := by
  rcases h with h | ⟨hsize, hcompl, hdata, hoff, hsome⟩
  · exact .inl h
  · exact .inr ⟨hsize, hcompl, hdata, hoff, hobj ▸ hsome⟩

theorem writing_of_parts (hsize : PartSize client.file.length client.chunkSize size)
    (hfits : Fits client.file size k) {sessionId : UploadId} {checkpointData : Option CheckpointText}
    (hdata : ∀ text, checkpointData = some text → Lists client size text) :
    Writing client size k (client.file.take (k * size)).length
      ⟨client.file.length, size, firstParts client size k, checkpointData, [], false, some sessionId,
        (client.file.take (k * size)).length⟩ := by
  refine ⟨rfl, rfl, rfl, hfits, rfl, ⟨sessionId, rfl⟩, hdata, rfl, ?_, ?_, hsize.pos,
    fun _ => Nat.dvd_zero _⟩
  · rw [append_nil, take_eq_take_iff, length_take]
    omega
  · rw [length_take]
    exact min_le_right _ _

theorem settles_sessionOpen (sessionId : UploadId) :
    wp (uploadMachine client size) (S3ResumableUpload.sessionOpen client.file.length sessionId)
      (Settles fun isOpen w' => isOpen = false → w'.object.isSome = true) w := by
  refine settles_tryCatch ?_ ?_
  · refine settles_bind (R := fun _ _ => True) (settles_call trivial fun _ _ _ _ => trivial) ?_
    intro _ w₁ _ hfalse
    cases hfalse
  · intro err w₁ hout
    cases err with
    | clientError error =>
      refine settles_bind (R := fun _ w' => w'.object.isSome = true) ?_ fun _ w₂ hobj _ => hobj
      simp only [S3ResumableUpload.findCompleted]
      split_ifs
      · refine settles_bind (R := fun _ w' => w'.object.isSome = true) (settles_tryCatch ?_ ?_) ?_
        · refine settles_call trivial ?_
          intro fresh result w' hperf
          simp only [perform] at hperf
          split at hperf
          · cases hperf
          rename_i object hobj
          cases hperf
          rw [hobj]
          rfl
        · intro headFailure w₂ hhead
          cases headFailure with
          | clientError headError =>
            dsimp only
            split_ifs <;> rfl
          | interrupted => rfl
          | _ => cases hhead
        · intro contentLength w₂ hobj
          split_ifs
          · rfl
          · exact hobj
      · rfl
    | interrupted => rfl
    | _ => cases hout

/-- **`__init__`** accepts what is recorded. -/
theorem settles_init (hchunk : 0 < client.chunkSize)
    (hok : s3CheckpointSize client.file.length client.chunkSize = .ok size)
    (hfile : client.file ≠ []) (h : Sound client size w) :
    wp (uploadMachine client size)
      (S3ResumableUpload.init client.file.length client.chunkSize w.progress.uploadSessionId
        w.progress.uploadCheckpointSize w.progress.uploadCheckpointData)
      (Settles (Opened client size)) w := by
  have hsize : PartSize client.file.length client.chunkSize size := partSize_of_ok hchunk hok
  have hchosen : S3ResumableUpload.chooseCheckpointSize client.file.length client.chunkSize
      w.progress.uploadCheckpointSize = .ok size := by
    cases hstor : w.progress.uploadCheckpointSize with
    | none => exact hok
    | some n =>
      rw [h.checkpointSize n hstor]
      obtain ⟨m, rfl⟩ := Nat.exists_eq_succ_of_ne_zero hsize.pos.ne'
      rfl
  have hne : ¬client.file.length = 0 := fun hzero => hfile (length_eq_zero_iff.mp hzero)
  have hnone : Fits client.file size 0 := fun i hi => absurd hi (Nat.not_lt_zero i)
  rw [S3ResumableUpload.init, hchosen]
  refine settles_bind (R := fun n _ => n = size) rfl ?_
  rintro n w₁ rfl
  rw [if_neg hne]
  cases hsess : w.progress.uploadSessionId with
  | none =>
    refine settles_bind (R := fun _ _ => True) (settles_call trivial fun _ _ _ _ => trivial) ?_
    intro uploadId w₂ _
    have hwriting : Writing client n 0 (client.file.take (0 * n)).length
        ⟨client.file.length, n, [], w.progress.uploadCheckpointData, [], false, some uploadId,
          (client.file.take (0 * n)).length⟩ :=
      writing_of_parts hsize hnone h.checkpointData
    rw [Nat.zero_mul] at hwriting
    exact .inl ⟨0, hwriting⟩
  | some sessionId =>
    refine settles_bind (settles_sessionOpen sessionId) ?_
    intro isOpen w₂ hobj
    cases isOpen with
    | false => exact .inr ⟨rfl, rfl, h.checkpointData, rfl, hobj rfl⟩
    | true =>
      obtain ⟨k, hfits, hload⟩ : ∃ k, Fits client.file n k ∧
          loadCheckpoint client.file.length n w.progress.uploadCheckpointData =
            .ok (firstParts client n k, (client.file.take (k * n)).length) := by
        cases hdata : w.progress.uploadCheckpointData with
        | none => exact ⟨0, hnone, by rw [Nat.zero_mul]; rfl⟩
        | some text =>
          obtain ⟨k, hfits, rfl⟩ := h.checkpointData text hdata
          exact ⟨k, hfits, loadCheckpoint_firstParts hsize.pos hfits⟩
      rw [hload]
      exact .inl ⟨k, writing_of_parts hsize hfits h.checkpointData⟩

theorem settles_abort (upload : S3ResumableUpload) :
    wp (uploadMachine client size) upload.abort (Settles fun _ _ => True) w := by
  unfold S3ResumableUpload.abort
  split
  · trivial
  refine settles_tryCatch (settles_call trivial fun _ _ _ _ => trivial) ?_
  intro err w₁ hout
  cases err with
  | clientError error =>
    dsimp only
    split_ifs
    · trivial
    · rfl
  | interrupted => rfl
  | _ => cases hout

theorem settles_prepareUpload (hchunk : 0 < client.chunkSize)
    (hok : s3CheckpointSize client.file.length client.chunkSize = .ok size)
    (hfile : client.file ≠ []) (h : Sound client size w) :
    wp (uploadMachine client size)
      (prepareUpload client.file.length client.chunkSize w.progress) (Settles (Opened client size))
      w := by
  refine settles_bind (settles_init hchunk hok hfile h) ?_
  intro upload w₁ hopen
  refine settles_bind (R := fun _ w' => w'.object = w₁.object) (settles_tryCatch ?_ ?_) ?_
  · refine settles_call ⟨hopen.checkpointSize, hopen.checkpointData⟩ ?_
    intro fresh result w' hperf
    cases hperf
    rfl
  · intro err w₂ hout
    split_ifs
    · exact settles_bind (settles_abort upload) fun _ w₃ _ => hout
    · exact hout
  · intro _ w₂ hobj
    exact hopen.congr hobj

/-- **An attempt** receives the file or raises what a call raised. -/
theorem settles_receiveUpload (hchunk : 0 < client.chunkSize)
    (hok : s3CheckpointSize client.file.length client.chunkSize = .ok size)
    (hfile : client.file ≠ []) (h : Sound client size w) :
    wp (uploadMachine client size) (receiveUpload client.file.length client.chunkSize w.progress)
      (Settles fun received w' => received = true ∧ w'.object.isSome = true) w := by
  have hsize : PartSize client.file.length client.chunkSize size := partSize_of_ok hchunk hok
  refine settles_bind (settles_prepareUpload hchunk hok hfile h) ?_
  intro upload w₁ hopen
  refine settles_bind (R := fun _ w' => w'.object = w₁.object ∧ w'.sent = upload.offset)
    (settles_call trivial ?_) ?_
  · intro fresh result w' hperf
    cases hperf
    exact ⟨rfl, rfl⟩
  rintro _ w₂ ⟨hobj, hsent⟩
  rcases hopen with ⟨k, hwriting⟩ | hfin
  · refine settles_bind (settles_receiveChunks hsize hchunk _ le_rfl hsent hwriting) ?_
    rintro _ w₃ ⟨upload', k', rfl, h'⟩
    exact settles_bind (settles_finish hsize hfile h') fun _ w₄ hsome => ⟨rfl, hsome⟩
  · rw [hfin.offset, Nat.sub_self, receiveChunks, if_neg (lt_irrefl _)]
    have hclose : upload.finish = pure () := by
      rw [S3ResumableUpload.finish, if_pos hfin.completed]
    show wp (uploadMachine client size) (upload.finish >>= fun _ => pure true) _ w₂
    rw [hclose]
    refine ⟨rfl, ?_⟩
    rw [hobj]
    exact hfin.object

end

/-! ### Attempt after attempt -/

section

variable {client : Client} {size : ℕ} {s s' : Attempts}

/-- The world is sound, and what is left of the attempt receives the file or is interrupted. -/
structure InStep (client : Client) (size : ℕ) (s : Attempts) : Prop where
  sound : Sound client size s.world
  settles : wp (uploadMachine client size) s.attempt
    (Settles fun received w => received = true ∧ w.object.isSome = true) s.world

theorem inStep_initial : InStep client size .initial := by
  refine ⟨⟨?_, ?_, ?_, ?_⟩, rfl⟩
  · intro n hn
    cases hn
  · intro text htext
    cases htext
  · intro uploadId kept n body hkept
    cases hkept
  · intro object hobj
    cases hobj

theorem InStep.step (hchunk : 0 < client.chunkSize)
    (hok : s3CheckpointSize client.file.length client.chunkSize = .ok size)
    (hfile : client.file ≠ []) {action : AttemptAction} (h : InStep client size s)
    (hstep : attemptStep client s action = some s') : InStep client size s' := by
  cases action with
  | start =>
    cases hstep
    exact ⟨h.sound, settles_receiveUpload hchunk hok hfile h.sound⟩
  | answer a =>
    obtain ⟨c, hadv, rfl⟩ := Option.map_eq_some_iff.mp hstep
    obtain ⟨op, next, r, w, hatt, hresp, rfl⟩ := advance_eq_some.mp hadv
    have hsett := h.settles
    rw [hatt] at hsett
    exact ⟨respond_sound h.sound hsett.1 hresp, hsett.2 r w ⟨a, hresp⟩⟩

/-- The limits of S3 on the part list of a completion, with the bodies under their tags. -/
structure WithinLimits (etag : Bytes → String) (parts : List (ℕ × String)) (bodies : List Bytes) :
    Prop where
  numbered : parts = bodies.mapIdx fun i body => (i + 1, etag body)
  count : bodies.length ≤ s3MaxParts
  min_le : ∀ body ∈ bodies.dropLast, s3MinPartSize ≤ body.length
  le_max : ∀ body ∈ bodies, body.length ≤ s3MaxPartSize

theorem withinLimits_slices (hsize : PartSize client.file.length client.chunkSize size) {k : ℕ}
    (hfits : Fits client.file size k) :
    WithinLimits client.etag (listed (firstParts client size k))
      ((List.range k).map (slice client.file size)) := by
  refine ⟨?_, ?_, ?_, ?_⟩
  · apply ext_getElem
    · simp [listed, firstParts]
    · intro i hi hi'
      simp [listed, firstParts, slicePart]
  · rw [length_map, length_range]
    exact hfits.le hsize.le_parts
  · intro body hbody
    rw [← map_dropLast] at hbody
    obtain ⟨i, hi, rfl⟩ := mem_map.mp hbody
    have hnext : i + 1 < k := by
      cases k with
      | zero => cases hi
      | succ k =>
        rw [range_succ, dropLast_concat, mem_range] at hi
        omega
    -- a slice before the last has its full size
    have hfull := hfits (i + 1) hnext
    rw [Nat.succ_mul] at hfull
    rw [length_slice, min_eq_left (by omega)]
    exact hsize.min_le
  · intro body hbody
    obtain ⟨i, -, rfl⟩ := mem_map.mp hbody
    rw [length_slice]
    exact (min_le_left _ _).trans hsize.le_max

/-- What holds of an upload at every moment. -/
structure Lossless (client : Client) (size : ℕ) (s : Attempts) : Prop where
  /-- An attempt that ends has stored the file, or a call raised.  In particular `write` raises
  nothing of its own, and no checkpoint is refused. -/
  outcome : ∀ r, s.attempt = .done r →
    (r = .ok true ∧ s.world.object = some client.file) ∨
      ∃ failure, failure.isOutside = true ∧ r = .error failure
  /-- The recorded checkpoint is accepted, with the sum of its parts as the offset. -/
  checkpoint : ∀ text, s.world.progress.uploadCheckpointData = some text →
    ∃ parts, text = dumpParts parts ∧
      loadCheckpoint client.file.length size (some text) = .ok (parts, (parts.map Part.size).sum)
  /-- The part list of a completion is within the limits, and its bodies make up the file. -/
  parts : ∀ uploadId parts, s.attempt.next? = some (.completeMultipartUpload uploadId parts) →
    ∃ bodies, WithinLimits client.etag parts bodies ∧ bodies.flatten = client.file
  object : ∀ object, s.world.object = some object → object = client.file

theorem InStep.lossless (hchunk : 0 < client.chunkSize)
    (hok : s3CheckpointSize client.file.length client.chunkSize = .ok size)
    (h : InStep client size s) : Lossless client size s := by
  have hsize : PartSize client.file.length client.chunkSize size := partSize_of_ok hchunk hok
  refine ⟨?_, ?_, ?_, h.sound.object⟩
  · intro r hr
    have hsett := h.settles
    rw [hr] at hsett
    cases r with
    | ok received =>
      obtain ⟨object, hobj⟩ := Option.isSome_iff_exists.mp hsett.2
      refine .inl ⟨congrArg Except.ok hsett.1, ?_⟩
      rw [hobj, h.sound.object object hobj]
    | error err => exact .inr ⟨err, hsett, rfl⟩
  · intro text htext
    obtain ⟨k, hfits, rfl⟩ := h.sound.checkpointData text htext
    refine ⟨firstParts client size k, rfl, ?_⟩
    rw [sum_firstParts]
    exact loadCheckpoint_firstParts hsize.pos hfits
  · intro uploadId parts hnext
    obtain ⟨k, hfits, hall, rfl⟩ := allowed_of_next? h.settles hnext
    refine ⟨_, withinLimits_slices hsize hfits, ?_⟩
    rw [flatten_slices, take_of_length_le hall]

/-- **Multipart resume is lossless.**  Whatever calls raise, before or after they are carried out,
and wherever an attempt is given up for the next one. -/
theorem multipart_resume_lossless (client : Client) (size : ℕ) (hfile : client.file ≠ [])
    (hchunk : 0 < client.chunkSize)
    (hok : s3CheckpointSize client.file.length client.chunkSize = .ok size)
    {actions : List AttemptAction} {s : Attempts}
    (hrun : run (attemptStep client) .initial actions = some s) : Lossless client size s := by
  have hinStep : InStep client size s :=
    run_invariant (C := fun _ _ => True) (fun _ _ _ h _ hstep => h.step hchunk hok hfile hstep)
      inStep_initial (meets_true actions) hrun
  exact hinStep.lossless hchunk hok

/-- A file of one byte; a second part would take 5 MiB. -/
def oneByteClient : Client := ⟨[7], 1, fun body => toString body.length⟩

/-- The first attempt is cut off after its part was stored and before the checkpoint, the second
after S3 has completed the upload; the third finds the object. -/
def interruptedUpload : List AttemptAction :=
  [.start, .answer (.answer 0), .answer (.answer 1), .answer (.answer 1), .answer (.answer 1),
    .answer (.answer 1),
    .start, .answer (.answer 1), .answer (.answer 1), .answer (.answer 1), .answer (.answer 1),
    .answer (.answer 1), .answer (.answer 1), .answer (.lose 1 .interrupted),
    .start, .answer (.answer 1), .answer (.answer 1), .answer (.answer 1), .answer (.answer 1)]

def interruptedAttempts : Attempts :=
  (run (attemptStep oneByteClient) .initial interruptedUpload).getD .initial

theorem interruptedUpload_lossless :
    run (attemptStep oneByteClient) .initial interruptedUpload = some interruptedAttempts ∧
      interruptedAttempts.world.object = some [7] ∧ Lossless oneByteClient 5242880 interruptedAttempts :=
  have hrun := run_eq_some_getD _ (by decide +kernel)
  ⟨hrun, by decide +kernel,
    multipart_resume_lossless oneByteClient 5242880 (by decide) (by decide) (by decide +kernel) hrun⟩

end

end Cfms.Storage
