import Cfms.Storage.FileObject

/-!
# A file in S3 is a byte file

A file opened for reading follows a byte file in memory that refuses to move before its start: the
open body is what lies after the position, and the object size is known as soon as the position has
left the start, so that every range request is for a suffix that is there.  `io.BytesIO` differs in
one kind of call, a relative `seek` to before the start.

What is written is the chunks that are uploaded, followed by the buffer.
-/

namespace Cfms.Storage

open Lib Lib.Run List

/-! ### Reading -/

section

variable {data : Bytes} {file : ReadFile}

def ReadFile.inMemory (file : ReadFile) (data : Bytes) : ByteFile := ⟨data, file.position, file.closed⟩

/-- The three pieces of state are in step. -/
structure Consistent (data : Bytes) (file : ReadFile) : Prop where
  size : file.objectSize = none ∨ file.objectSize = some data.length
  known : file.position ≠ 0 ∨ file.body ≠ none → file.objectSize = some data.length
  body : ∀ rest, file.body = some rest → rest = data.drop file.position

theorem consistent_opened (data : Bytes) : Consistent data .opened := by
  refine ⟨.inl rfl, ?_, ?_⟩
  · rintro (h | h) <;> exact absurd rfl h
  · intro rest hrest
    cases hrest

/-- The outcomes are the same, and so are the files afterwards. -/
structure Follows (data : Bytes) (result : FileOutcome × ReadFile) (expected : FileOutcome × ByteFile) :
    Prop where
  outcome : result.1 = expected.1
  inMemory : result.2.inMemory data = expected.2
  consistent : Consistent data result.2

theorem follows_same {outcome : FileOutcome} (h : Consistent data file) :
    Follows data (outcome, file) (outcome, file.inMemory data) :=
  ⟨rfl, rfl, h⟩

theorem follows_readFrom {size : ℤ} (hsize : file.objectSize = some data.length) :
    Follows data (readFrom (data.drop file.position) size file)
      (.ok (.bytes (readBody (data.drop file.position) size)),
        ⟨data, file.position + (readBody (data.drop file.position) size).length, file.closed⟩) := by
  refine ⟨rfl, rfl, .inr hsize, fun _ => hsize, ?_⟩
  intro rest hrest
  cases hrest
  rw [drop_drop]
  rfl

theorem openReadBody_eq (hmore : file.position ≠ 0 → file.position < data.length) :
    openReadBody (some data) file = (.ok (data.drop file.position),
      { file with objectSize := some data.length, body := some (data.drop file.position) }) := by
  unfold openReadBody
  by_cases hzero : file.position = 0
  · simp [hzero, getObject]
  · simp [hzero, getObject, hmore hzero]

theorem follows_read_nothing {size : ℤ} (h : Consistent data file)
    (hnone : readBody (data.drop file.position) size = []) :
    Follows data (.ok (.bytes []), file) (.ok (.bytes (readBody (data.drop file.position) size)),
        ⟨data, file.position + (readBody (data.drop file.position) size).length, file.closed⟩) := by
  rw [hnone]
  exact follows_same h

theorem follows_read (size : ℤ) (h : Consistent data file) :
    Follows data (file.read (some data) size) ((file.inMemory data).read size) := by
  unfold ReadFile.read ByteFile.read
  by_cases hcl : file.closed = true
  · rw [if_pos hcl, if_pos (show (file.inMemory data).closed = true from hcl)]
    exact follows_same h
  rw [if_neg (show ¬(file.inMemory data).closed = true from hcl)]
  show Follows data _ (.ok (.bytes (readBody (data.drop file.position) size)),
    ⟨data, file.position + (readBody (data.drop file.position) size).length, file.closed⟩)
  split_ifs with hzero hend
  · refine follows_read_nothing h ?_
    rw [hzero]
    rfl
  · refine follows_read_nothing h ?_
    obtain ⟨n, hn, hle⟩ := (Option.any_eq_true _ _).mp hend
    have hlen : data.length ≤ file.position := by
      rcases h.size with hsize | hsize
      · rw [hsize] at hn
        cases hn
      · rw [hsize] at hn
        cases hn
        exact of_decide_eq_true hle
    rw [drop_eq_nil_of_le hlen, readBody, take_nil, ite_self]
  · cases hbody : file.body with
    | some body =>
      have hsize : file.objectSize = some data.length :=
        h.known (.inr (by rw [hbody]; exact Option.some_ne_none _))
      rw [h.body body hbody]
      exact follows_readFrom hsize
    | none =>
      have hmore : file.position ≠ 0 → file.position < data.length := by
        intro hposition
        rw [h.known (.inl hposition), Option.any_some, decide_eq_true_eq] at hend
        exact not_le.mp hend
      rw [openReadBody_eq hmore]
      exact @follows_readFrom data
        { file with objectSize := some data.length, body := some (data.drop file.position) } size rfl

/-! ### Seeking -/

theorem loadObjectSize_eq (h : Consistent data file) :
    loadObjectSize (some data) file = (.ok data.length,
      { file with objectSize := some data.length }) := by
  obtain ⟨body, pos, objectSize, closed⟩ := file
  rcases h.size with hsize | hsize
  · cases hsize
    rfl
  · cases hsize
    rfl

theorem Consistent.loaded (h : Consistent data file) :
    Consistent data { file with objectSize := some data.length } :=
  ⟨.inr rfl, fun _ => rfl, h.body⟩

theorem follows_moveTo (h : Consistent data file) {pos : ℕ}
    (hknown : pos ≠ 0 → file.objectSize = some data.length) :
    Follows data (moveTo pos file) (.ok (.position pos), ⟨data, pos, file.closed⟩) := by
  unfold moveTo
  split_ifs with hmove
  · refine ⟨rfl, rfl, h.size, ?_, ?_⟩
    · rintro (hposition | hbody)
      · exact hknown hposition
      · exact absurd rfl hbody
    · intro rest hrest
      cases hrest
  · rw [not_not.mp hmove]
    exact follows_same h

theorem seekTarget_cases (offset whence : ℤ) (h : Consistent data file) :
    (∃ pos file', seekTarget (some data) offset whence file = (.ok pos, file') ∧
      (file.inMemory data).target offset whence = some pos ∧ Consistent data file' ∧
      file'.inMemory data = file.inMemory data) ∨
    (seekTarget (some data) offset whence file = (.error (invalidWhence whence), file) ∧
      (file.inMemory data).target offset whence = none) := by
  unfold seekTarget ByteFile.target
  split_ifs
  · exact .inl ⟨offset, file, rfl, rfl, h, rfl⟩
  · exact .inl ⟨file.position + offset, file, rfl, rfl, h, rfl⟩
  · rw [loadObjectSize_eq h]
    exact .inl ⟨data.length + offset, _, rfl, rfl, h.loaded, rfl⟩
  · exact .inr ⟨rfl, rfl⟩

theorem follows_seek_ok {pos : ℤ} (h : Consistent data file) : Follows data
      (if pos ≠ 0 ∧ file.objectSize = none then
        match loadObjectSize (some data) file with
        | (.error error, file) => (.error error, file)
        | (.ok _, file) => moveTo pos.toNat file
      else moveTo pos.toNat file)
      (.ok (.position pos.toNat), ⟨data, pos.toNat, file.closed⟩) := by
  split_ifs with hload
  · rw [loadObjectSize_eq h]
    exact follows_moveTo h.loaded fun _ => rfl
  · refine follows_moveTo h ?_
    intro hmoved
    rcases h.size with hsize | hsize
    · exact absurd ⟨by omega, hsize⟩ hload
    · exact hsize

/-- The same outcome, or a `ValueError` on both sides. -/
def Agree : FileOutcome → FileOutcome → Prop
  | .error (.valueError _), .error (.valueError _) => True
  | outcome, expected => outcome = expected

theorem agree_refl (outcome : FileOutcome) : Agree outcome outcome := by
  unfold Agree
  split <;> trivial

structure Simulates (data : Bytes) (result : FileOutcome × ReadFile)
    (expected : FileOutcome × ByteFile) : Prop where
  agree : Agree result.1 expected.1
  inMemory : result.2.inMemory data = expected.2
  consistent : Consistent data result.2

theorem Follows.simulates {result : FileOutcome × ReadFile} {expected : FileOutcome × ByteFile}
    (h : Follows data result expected) : Simulates data result expected :=
  ⟨h.outcome ▸ agree_refl _, h.inMemory, h.consistent⟩

theorem simulates_seek (offset whence : ℤ) (h : Consistent data file) :
    Simulates data (file.seek (some data) offset whence)
      ((file.inMemory data).seek false offset whence) := by
  unfold ReadFile.seek ByteFile.seek
  by_cases hcl : file.closed = true
  · rw [if_pos hcl, if_pos (show (file.inMemory data).closed = true from hcl)]
    exact (follows_same h).simulates
  rw [if_neg hcl, if_neg (show ¬(file.inMemory data).closed = true from hcl)]
  rcases seekTarget_cases offset whence h with
    ⟨pos, file', htgt, hmemory, hcons, hsame⟩ | ⟨htgt, hmemory⟩
  · rw [htgt, hmemory, ← hsame]
    dsimp only
    by_cases hneg : pos < 0
    · rw [if_pos hneg, if_pos ⟨hneg, .inr rfl⟩]
      exact ⟨trivial, rfl, hcons⟩
    · have hallow : ¬(pos < 0 ∧ (whence = 0 ∨ false = false)) := fun hboth => hneg hboth.1
      rw [if_neg hneg, if_neg hallow]
      exact (follows_seek_ok hcons).simulates
  · rw [htgt, hmemory]
    exact (follows_same h).simulates

/-! ### Sequences of calls -/

/-- **One call** on the file in S3 and on the byte file. -/
theorem simulates_call (c : FileCall) (h : Consistent data file) :
    Simulates data (file.call (some data) c) (strictFile c (file.inMemory data)) := by
  cases c with
  | read size => exact (follows_read size h).simulates
  | seek offset whence => exact simulates_seek offset whence h
  | tell =>
    show Simulates data file.tell (file.inMemory data).tell
    unfold ReadFile.tell ByteFile.tell
    by_cases hcl : file.closed = true
    · rw [if_pos hcl, if_pos (show (file.inMemory data).closed = true from hcl)]
      exact (follows_same h).simulates
    · rw [if_neg hcl, if_neg (show ¬(file.inMemory data).closed = true from hcl)]
      exact (follows_same h).simulates
  | close => exact ⟨agree_refl _, rfl, h.size, h.known, h.body⟩

theorem outcomes_strictFile (calls : List FileCall) (h : Consistent data file) :
    List.Forall₂ Agree (outcomes (ReadFile.call (some data)) file calls)
      (outcomes strictFile (file.inMemory data) calls) := by
  induction calls generalizing file with
  | nil => exact .nil
  | cons c rest ih =>
    have hcall := simulates_call c h
    refine .cons hcall.agree ?_
    rw [← hcall.inMemory]
    exact ih hcall.consistent

/-- The call is no relative `seek` to before the start. -/
def ByteFile.staysInRange (file : ByteFile) : FileCall → Bool
  | .seek offset whence =>
    file.closed || whence == 0 || (file.target offset whence).all (0 ≤ ·)
  | _ => true

theorem clampingFile_call (c : FileCall) (ref : ByteFile) :
    (ref.staysInRange c = true ∧ clampingFile c ref = strictFile c ref) ∨
      (ref.staysInRange c = false ∧ ∃ message value,
        (strictFile c ref).1 = .error (.valueError message) ∧ (clampingFile c ref).1 = .ok value) := by
  cases c with
  | read size | tell | close => exact .inl ⟨rfl, rfl⟩
  | seek offset whence =>
    show (ref.staysInRange _ = true ∧ ref.seek true offset whence = ref.seek false offset whence) ∨
      (ref.staysInRange _ = false ∧ ∃ message value,
        (ref.seek false offset whence).1 = .error (.valueError message) ∧
        (ref.seek true offset whence).1 = .ok value)
    unfold ByteFile.seek
    by_cases hcl : ref.closed = true
    · exact .inl ⟨by simp [ByteFile.staysInRange, hcl], by simp [hcl]⟩
    cases htgt : ref.target offset whence with
    | none => exact .inl ⟨by simp [ByteFile.staysInRange, htgt], rfl⟩
    | some pos =>
      by_cases hrange : whence = 0 ∨ 0 ≤ pos
      · refine .inl ⟨by rcases hrange with h | h <;> simp [ByteFile.staysInRange, htgt, h], ?_⟩
        have hsame : (pos < 0 ∧ (whence = 0 ∨ true = false)) ↔
            (pos < 0 ∧ (whence = 0 ∨ false = false)) := by
          constructor
          · rintro ⟨hneg, -⟩
            exact ⟨hneg, .inr rfl⟩
          · rintro ⟨hneg, -⟩
            exact ⟨hneg, .inl (hrange.resolve_right (Int.not_le.mpr hneg))⟩
        simp only [hsame]
      · obtain ⟨hwhence, hneg⟩ := not_or.mp hrange
        have hneg : pos < 0 := Int.not_le.mp hneg
        refine .inr ⟨by simp [ByteFile.staysInRange, htgt, hcl, hwhence, hneg], ?_⟩
        simp [hcl, hwhence, hneg]

/-- **Against `io.BytesIO`.** -/
theorem outcomes_clampingFile (calls : List FileCall) (h : Consistent data file) :
    List.Forall₂ Agree (outcomes (ReadFile.call (some data)) file calls)
        (outcomes clampingFile (file.inMemory data) calls) ↔
      Meets (fun ref c => some (clampingFile c ref).2) (fun ref c => ref.staysInRange c = true)
        (file.inMemory data) calls := by
  induction calls generalizing file with
  | nil => exact iff_of_true .nil trivial
  | cons c rest ih =>
    have hcall := simulates_call c h
    simp only [outcomes, Meets, forall₂_cons, Option.some.injEq, forall_eq']
    rcases clampingFile_call c (file.inMemory data) with
      ⟨hrange, hsame⟩ | ⟨hrange, message, value, hstrict, hclamped⟩
    · rw [hsame, ← hcall.inMemory, ih hcall.consistent]
      exact and_congr_left' (iff_of_true hcall.agree hrange)
    · refine iff_of_false ?_ ?_
      · rintro ⟨hagree, -⟩
        have hraise := hcall.agree
        rw [hstrict] at hraise
        rw [hclamped] at hagree
        -- a call that raises against the strict file does not return
        cases houtc : (file.call (some data) c).1 with
        | ok value' =>
          rw [houtc] at hraise
          cases hraise
        | error error =>
          rw [houtc] at hagree
          cases error <;> cases hagree
      · rintro ⟨htrue, -⟩
        rw [hrange] at htrue
        cases htrue

end

/-! ### Writing -/

section

variable {Service : Type} {s3 : S3 Service} {sha256 : Bytes → String} {file : WriteFile}
  {service : Service} {uploadId : UploadId} {written : Bytes} {chunks : List Bytes}

/-- The parts of the file are those that S3 keeps, with these bodies and numbered from 1 on. -/
structure Kept (s3 : S3 Service) (file : WriteFile) (service : Service) (uploadId : UploadId)
    (bodies : List Bytes) : Prop where
  partNumber : file.partNumber = bodies.length + 1
  numbers : file.parts.map Prod.fst = List.range' 1 bodies.length
  count : bodies.length ≤ s3MaxParts
  parts : ∃ parts, s3.parts service uploadId = some parts ∧
    List.Forall₂ (fun part body => parts part.1 = some (part.2, body)) file.parts bodies

/-- What was written is the chunks that were uploaded and the buffer. -/
structure Written (s3 : S3 Service) (written : Bytes) (chunks : List Bytes) (file : WriteFile)
    (service : Service) : Prop where
  hashed : file.hashed = written
  content : written = chunks.flatten ++ file.buffer
  full : ∀ chunk ∈ chunks, chunk.length = writeChunkSize
  fresh : chunks = [] → file.uploadId = none ∧ file.parts = [] ∧ file.partNumber = 1
  kept : chunks ≠ [] → ∃ uploadId, file.uploadId = some uploadId ∧ Kept s3 file service uploadId chunks

theorem written_opened : Written s3 [] [] .opened service :=
  ⟨rfl, rfl, fun _ h => absurd h not_mem_nil, fun _ => ⟨rfl, rfl, rfl⟩, fun h => absurd rfl h⟩

theorem length_flatten_of_full (hfull : ∀ chunk ∈ chunks, chunk.length = writeChunkSize) :
    chunks.flatten.length = chunks.length * writeChunkSize := by
  induction chunks with
  | nil => simp
  | cons chunk rest ih =>
    rw [flatten_cons, length_append, hfull chunk mem_cons_self,
      ih fun other hother => hfull other (mem_cons_of_mem _ hother), length_cons,
      Nat.succ_mul, Nat.add_comm]

theorem Written.length (h : Written s3 written chunks file service) :
    written.length = chunks.length * writeChunkSize + file.buffer.length := by
  rw [h.content, length_append, length_flatten_of_full h.full]

/-- The numbers of the parts are below the next one. -/
theorem Kept.number_lt (h : Kept s3 file service uploadId chunks) {part : ℕ × String}
    (hpart : part ∈ file.parts) : part.1 < file.partNumber := by
  have hnumber : part.1 ∈ range' 1 chunks.length := by
    rw [← h.numbers]
    exact mem_map_of_mem hpart
  rw [h.partNumber, Nat.add_comm]
  exact (mem_range'_1.mp hnumber).2

/-- A part more keeps the others, unless S3 takes no more of them. -/
theorem Kept.uploadPart (hs3 : s3.Documented sha256) (h : Kept s3 file service uploadId chunks)
    {body : Bytes} (hbody : body.length ≤ s3MaxPartSize) :
    (s3MaxParts < chunks.length + 1 ∧
      ∃ error, file.uploadPart s3 sha256 uploadId body service = .error error) ∨
    ∃ file' service', file.uploadPart s3 sha256 uploadId body service = .ok (file', service') ∧
      file'.buffer = file.buffer ∧ file'.hashed = file.hashed ∧ file'.uploadId = file.uploadId ∧
      Kept s3 file' service' uploadId (chunks ++ [body]) := by
  unfold WriteFile.uploadPart
  by_cases hlimit : s3MaxParts < file.partNumber
  · obtain ⟨error, herror⟩ := hs3.refused service uploadId _ body (sha256 body) hlimit
    rw [herror]
    exact .inl ⟨h.partNumber ▸ hlimit, error, rfl⟩
  obtain ⟨parts, hparts, hkept⟩ := h.parts
  have hpositive : 0 < file.partNumber := by
    rw [h.partNumber]
    exact Nat.succ_pos _
  obtain ⟨etag, service', hok, hparts'⟩ :=
    hs3.kept service uploadId parts _ body hparts hpositive (not_lt.mp hlimit) hbody
  rw [hok]
  refine .inr ⟨_, service', rfl, rfl, rfl, rfl, ?_, ?_, ?_, _, hparts', ?_⟩
  · rw [length_append, length_singleton, h.partNumber]
  · rw [map_append, h.numbers, length_append, length_singleton, range'_1_concat,
      h.partNumber, Nat.add_comm chunks.length]
    rfl
  · rw [length_append, length_singleton, ← h.partNumber]
    exact not_lt.mp hlimit
  · refine rel_append ?_ (.cons (if_pos rfl) .nil)
    -- the earlier parts have other numbers
    refine forall₂_iff_get.mpr ⟨hkept.length_eq, ?_⟩
    intro i hi hi'
    have hother : (file.parts.get ⟨i, hi⟩).1 ≠ file.partNumber :=
      (h.number_lt (get_mem _ _)).ne
    rw [if_neg hother]
    exact hkept.get hi hi'

theorem Kept.complete (hs3 : s3.Documented sha256) (h : Kept s3 file service uploadId chunks)
    (hchunks : chunks ≠ []) (hfull : ∀ body ∈ chunks.dropLast, s3MinPartSize ≤ body.length) :
    ∃ service', s3.completeMultipartUpload service uploadId file.parts = .ok service' ∧
      s3.object service' = some chunks.flatten := by
  obtain ⟨parts, hparts, hkept⟩ := h.parts
  refine hs3.completed service uploadId parts file.parts chunks hparts ?_ ?_ hkept hfull
  · intro hnil
    rw [hnil] at hkept
    exact hchunks (forall₂_nil_left_iff.mp hkept)
  · rw [h.numbers]
    exact pairwise_lt_range'

theorem Written.ensureUpload (hs3 : s3.Documented sha256)
    (h : Written s3 written chunks file service) :
    ∃ uploadId file' service', file.ensureUpload s3 service = .ok (uploadId, file', service') ∧
      file'.buffer = file.buffer ∧ file'.hashed = file.hashed ∧
      file'.uploadId = some uploadId ∧ Kept s3 file' service' uploadId chunks := by
  unfold WriteFile.ensureUpload
  by_cases hempty : chunks = []
  · obtain ⟨hnone, hparts, hnumber⟩ := h.fresh hempty
    obtain ⟨uploadId, service', hok, hopen⟩ := hs3.created service
    subst hempty
    rw [hnone, hok]
    refine ⟨uploadId, _, service', rfl, rfl, rfl, rfl, hnumber, ?_, Nat.zero_le _, _, hopen, ?_⟩
    · rw [hparts]
      rfl
    · rw [hparts]
      exact .nil
  · obtain ⟨uploadId, hsome, hkept⟩ := h.kept hempty
    rw [hsome]
    exact ⟨uploadId, file, service, rfl, rfl, rfl, hsome, hkept⟩

/-- Too much was written for the parts that S3 takes. -/
def TooLong (written : Bytes) : Prop := s3MaxParts * writeChunkSize < written.length

theorem tooLong_append (h : TooLong written) (data : Bytes) : TooLong (written ++ data) := by
  unfold TooLong at h ⊢
  rw [length_append]
  exact Nat.lt_add_right _ h

variable (hs3 : s3.Documented sha256)

include hs3

theorem Written.uploadChunk
    (h : Written s3 written chunks file service) (hfull : writeChunkSize ≤ file.buffer.length) :
    (TooLong written ∧ ∃ error, file.uploadChunk s3 sha256 service = .error error) ∨
    ∃ file' service', file.uploadChunk s3 sha256 service = .ok (file', service') ∧
      file'.buffer = file.buffer.drop writeChunkSize ∧
      Written s3 written (chunks ++ [file.buffer.take writeChunkSize]) file' service' := by
  obtain ⟨uploadId, file₁, service₁, hensure, hbuf, hhash, huplo, hkept⟩ := h.ensureUpload hs3
  have hchunk : (file.buffer.take writeChunkSize).length = writeChunkSize := by
    rw [length_take]
    exact min_eq_left hfull
  have hsize : (file.buffer.take writeChunkSize).length ≤ s3MaxPartSize := by
    rw [hchunk]
    decide
  unfold WriteFile.uploadChunk
  simp only [hensure, hbuf]
  rcases hkept.uploadPart hs3 hsize with
    ⟨hlimit, error, hraise⟩ | ⟨file₂, service₂, hok, hbuf₂, hhash₂, huplo₂, hkept₂⟩
  · refine .inl ⟨?_, error, by simp only [hraise]⟩
    have hlen := h.length
    have hmany : s3MaxParts * writeChunkSize ≤ chunks.length * writeChunkSize :=
      Nat.mul_le_mul_right _ (Nat.lt_succ_iff.mp hlimit)
    have hpos : 0 < writeChunkSize := by decide
    unfold TooLong
    omega
  · have hrest : file₂.buffer = file.buffer := hbuf₂.trans hbuf
    simp only [hok]
    refine .inr ⟨_, _, rfl, congrArg _ hrest, ?_, ?_, ?_, ?_, ?_⟩
    · exact (hhash₂.trans hhash).trans h.hashed
    · show written = _ ++ file₂.buffer.drop writeChunkSize
      rw [hrest, flatten_append, append_assoc, flatten_singleton, take_append_drop]
      exact h.content
    · intro chunk hmem
      rcases mem_append.mp hmem with hold | hnew
      · exact h.full chunk hold
      · rw [mem_singleton.mp hnew]
        exact hchunk
    · intro hempty
      exact absurd hempty (append_ne_nil_of_right_ne_nil _ (cons_ne_nil _ _))
    · intro _
      exact ⟨uploadId, huplo₂.trans huplo, hkept₂.partNumber, hkept₂.numbers, hkept₂.count,
        hkept₂.parts⟩

/-- **The loop of `write`** leaves less than a chunk in the buffer. -/
theorem Written.uploadChunks (rounds : ℕ)
    (hrounds : file.buffer.length ≤ rounds) (h : Written s3 written chunks file service) :
    (TooLong written ∧
      ∃ error, WriteFile.uploadChunks s3 sha256 rounds (file, service) = .error error) ∨
    ∃ file' service' chunks',
      WriteFile.uploadChunks s3 sha256 rounds (file, service) = .ok (file', service') ∧
      Written s3 written chunks' file' service' ∧ file'.buffer.length < writeChunkSize := by
  have hpos : 0 < writeChunkSize := by decide
  induction rounds generalizing file service chunks with
  | zero => exact .inr ⟨file, service, chunks, rfl, h, by omega⟩
  | succ rounds ih =>
    rw [WriteFile.uploadChunks]
    split_ifs with hfull
    · rcases h.uploadChunk hs3 hfull with
        ⟨hlong, error, hraise⟩ | ⟨file₁, service₁, hok, hbuf, hwrit⟩
      · exact .inl ⟨hlong, error, by rw [hraise]; rfl⟩
      · rw [hok]
        refine ih ?_ hwrit
        rw [hbuf, length_drop]
        omega
    · exact .inr ⟨file, service, chunks, rfl, h, not_le.mp hfull⟩

theorem Written.write (h : Written s3 written chunks file service)
    (data : Bytes) :
    (TooLong (written ++ data) ∧
      ∃ error, WriteFile.write s3 sha256 (file, service) data = .error error) ∨
    ∃ file' service' chunks', WriteFile.write s3 sha256 (file, service) data = .ok (file', service') ∧
      Written s3 (written ++ data) chunks' file' service' ∧
      file'.buffer.length < writeChunkSize := by
  refine Written.uploadChunks hs3 _ le_rfl ⟨?_, ?_, h.full, h.fresh, ?_⟩
  · exact congrArg (· ++ data) h.hashed
  · rw [h.content, append_assoc]
  intro hchunks
  obtain ⟨uploadId, huplo, hkept⟩ := h.kept hchunks
  exact ⟨uploadId, huplo, hkept.partNumber, hkept.numbers, hkept.count, hkept.parts⟩

theorem Written.foldlM (writes : List Bytes)
    (hshort : file.buffer.length < writeChunkSize) (h : Written s3 written chunks file service) :
    (TooLong (written ++ writes.flatten) ∧
      ∃ error, writes.foldlM (WriteFile.write s3 sha256) (file, service) = .error error) ∨
    ∃ file' service' chunks',
      writes.foldlM (WriteFile.write s3 sha256) (file, service) = .ok (file', service') ∧
      Written s3 (written ++ writes.flatten) chunks' file' service' ∧
      file'.buffer.length < writeChunkSize := by
  induction writes generalizing file service written chunks with
  | nil =>
    rw [flatten_nil, append_nil]
    exact .inr ⟨file, service, chunks, rfl, h, hshort⟩
  | cons data rest ih =>
    rw [foldlM_cons, flatten_cons, ← append_assoc]
    rcases h.write hs3 data with
      ⟨hlong, error, hraise⟩ | ⟨file₁, service₁, chunks₁, hok, hwrit, hshort₁⟩
    · exact .inl ⟨tooLong_append hlong _, error, by rw [hraise]; rfl⟩
    · rw [hok]
      exact ih hshort₁ hwrit

/-- **`close`** stores what was written, if S3 takes as many parts. -/
theorem Written.close (hshort : file.buffer.length < writeChunkSize)
    (h : Written s3 written chunks file service) :
    (TooLong written ∧ ∃ error, WriteFile.close s3 sha256 (file, service) = .error error) ∨
    (¬TooLong written ∧ ∃ service', WriteFile.close s3 sha256 (file, service) = .ok service' ∧
      s3.object service' = some written) := by
  have hlen := h.length
  have hcont := h.content
  have hsize : file.buffer.length ≤ s3MaxPartSize :=
    hshort.le.trans (show writeChunkSize ≤ s3MaxPartSize by decide)
  have hminimum : ∀ body ∈ chunks, s3MinPartSize ≤ body.length := fun body hbody =>
    (h.full body hbody).ge
  unfold WriteFile.close TooLong
  by_cases hempty : chunks = []
  · obtain ⟨hnone, -, -⟩ := h.fresh hempty
    rw [hempty, flatten_nil, nil_append] at hcont
    obtain ⟨service', hok, hobj⟩ := hs3.stored service file.buffer hsize
    refine .inr ⟨?_, service', ?_, hobj.trans (congrArg some hcont.symm)⟩
    · have hmax : writeChunkSize ≤ s3MaxParts * writeChunkSize := by decide
      rw [hcont]
      omega
    · simp only [hnone]
      rw [h.hashed, hcont]
      exact hok
  · obtain ⟨uploadId, hsome, hkept⟩ := h.kept hempty
    simp only [hsome]
    split_ifs with hbuf
    · rcases hkept.uploadPart hs3 hsize with
        ⟨hlimit, error, hraise⟩ | ⟨file', service₁, hok, -, -, -, hkept'⟩
      · refine .inl ⟨?_, error, by rw [hraise]⟩
        have hmany : s3MaxParts * writeChunkSize ≤ chunks.length * writeChunkSize :=
          Nat.mul_le_mul_right _ (Nat.lt_succ_iff.mp hlimit)
        omega
      · have hne : chunks ++ [file.buffer] ≠ [] :=
          append_ne_nil_of_right_ne_nil _ (cons_ne_nil _ _)
        obtain ⟨service', hcompl, hobj⟩ :=
          hkept'.complete hs3 hne (by rw [dropLast_concat]; exact hminimum)
        refine .inr ⟨?_, service', by rw [hok]; exact hcompl, ?_⟩
        · have hcount := hkept'.count
          rw [length_append] at hcount
          have hmany : (chunks.length + 1) * writeChunkSize ≤ s3MaxParts * writeChunkSize :=
            Nat.mul_le_mul_right _ hcount
          rw [Nat.succ_mul] at hmany
          omega
        · rw [hobj, hcont, flatten_append, flatten_singleton]
    · obtain ⟨service', hcompl, hobj⟩ := hkept.complete hs3 hempty fun body hbody =>
        hminimum body (dropLast_subset _ hbody)
      have hnil : file.buffer = [] := length_eq_zero_iff.mp (by omega)
      refine .inr ⟨?_, service', hcompl, ?_⟩
      · have hmany : chunks.length * writeChunkSize ≤ s3MaxParts * writeChunkSize :=
          Nat.mul_le_mul_right _ hkept.count
        omega
      · rw [hobj, hcont, hnil, append_nil]

/-- **What is written is stored**, unless it is too long for the parts that S3 takes, and then a
write or `close` raises. -/
theorem writeAll_cases (service : Service) (writes : List Bytes) :
    (TooLong writes.flatten ∧ ∃ error, writeAll s3 sha256 service writes = .error error) ∨
    (¬TooLong writes.flatten ∧ ∃ service', writeAll s3 sha256 service writes = .ok service' ∧
      s3.object service' = some writes.flatten) := by
  have hopened : Written s3 [] [] .opened service := written_opened
  have hpos : WriteFile.opened.buffer.length < writeChunkSize := by decide
  rcases hopened.foldlM hs3 writes hpos with
    ⟨hlong, error, hraise⟩ | ⟨file, service₁, chunks, hok, hwrit, hshort⟩
  · exact .inl ⟨hlong, error, by rw [writeAll, hraise]; rfl⟩
  · rw [writeAll, hok]
    exact hwrit.close hs3 hshort

end

/-- **`S3FileObject` is a byte file.** Reading agrees with `io.BytesIO` exactly in the sequences
without a relative `seek` to before the start. Writing and closing stores what was written, as long
as S3 takes as many parts, and raises otherwise. -/
theorem fileObject_is_byteFile (data : Bytes) (calls : List FileCall) {Service : Type}
    (s3 : S3 Service) (sha256 : Bytes → String) (hs3 : s3.Documented sha256) (service : Service)
    (writes : List Bytes) :
    List.Forall₂ Agree (outcomes (ReadFile.call (some data)) .opened calls)
        (outcomes strictFile (.opened data) calls) ∧
      (List.Forall₂ Agree (outcomes (ReadFile.call (some data)) .opened calls)
          (outcomes clampingFile (.opened data) calls) ↔
        Meets (fun ref c => some (clampingFile c ref).2) (fun ref c => ref.staysInRange c = true)
          (.opened data) calls) ∧
      ((writes.flatten.length ≤ s3MaxParts * writeChunkSize ∧ ∃ service',
          writeAll s3 sha256 service writes = .ok service' ∧
          s3.object service' = some writes.flatten) ∨
        (s3MaxParts * writeChunkSize < writes.flatten.length ∧
          ∃ error, writeAll s3 sha256 service writes = .error error)) := by
  refine ⟨outcomes_strictFile calls (consistent_opened data),
    outcomes_clampingFile calls (consistent_opened data), ?_⟩
  rcases writeAll_cases hs3 service writes with ⟨hlong, hraise⟩ | ⟨hshort, hstor⟩
  · exact .inr ⟨hlong, hraise⟩
  · exact .inl ⟨not_lt.mp hshort, hstor⟩

/-! ### A bucket -/

theorem listedBodies_of_forall₂ {etag : Bytes → String} {kept : Table ℕ Bytes}
    {listed : List (ℕ × String)} {bodies : List Bytes}
    (h : List.Forall₂ (fun part body =>
      (kept.lookup part.1).map (fun body => (etag body, body)) = some (part.2, body)) listed bodies) :
    listedBodies etag kept listed = some bodies := by
  induction h with
  | nil => rfl
  | @cons part body listed bodies hpart _ ih =>
    obtain ⟨other, hother, hsame⟩ := Option.map_eq_some_iff.mp hpart
    obtain ⟨htag, rfl⟩ := Prod.mk.inj hsame
    simp only [listedBodies, hother, if_pos htag, ih, Option.map_some]

/-- The bucket in memory behaves as S3 documents. -/
theorem Bucket.documented (sha256 etag : Bytes → String) : (Bucket.s3 sha256 etag).Documented sha256 where
  created bucket := by
    refine ⟨_, _, rfl, ?_⟩
    show ((bucket.uploads.insert bucket.nextUpload ∅).lookup bucket.nextUpload).map _ = _
    rw [AList.lookup_insert]
    rfl
  kept bucket uploadId parts number body hparts hpositive hlimit hsize := by
    obtain ⟨kept, hkept, rfl⟩ := Option.map_eq_some_iff.mp hparts
    refine ⟨etag body,
      { bucket with uploads := bucket.uploads.insert uploadId (kept.insert number body) }, ?_, ?_⟩
    · show Bucket.uploadPart sha256 etag bucket uploadId number body _ = _
      rw [Bucket.uploadPart, if_neg (by omega), if_neg (not_lt.mpr hsize), if_neg (not_not_intro rfl),
        hkept]
    · show ((bucket.uploads.insert uploadId (kept.insert number body)).lookup uploadId).map _ = _
      rw [AList.lookup_insert, Option.map_some]
      refine congrArg some (funext fun other => ?_)
      split_ifs with hother
      · rw [hother, AList.lookup_insert]
        rfl
      · rw [AList.lookup_insert_ne hother]
  refused bucket uploadId number body checksum hlimit := by
    refine ⟨Bucket.invalidArgument, ?_⟩
    show Bucket.uploadPart sha256 etag bucket uploadId number body checksum = _
    rw [Bucket.uploadPart, if_pos (.inr hlimit)]
  completed bucket uploadId parts listed bodies hparts hne horder hlisted hminimum := by
    obtain ⟨kept, hkept, rfl⟩ := Option.map_eq_some_iff.mp hparts
    refine ⟨{ bucket with
      uploads := bucket.uploads.erase uploadId, object := some bodies.flatten }, ?_, rfl⟩
    have hlarge : ¬(bodies.dropLast.any fun body => body.length < s3MinPartSize) = true := by
      rw [any_eq_true]
      rintro ⟨body, hbody, hsmall⟩
      exact absurd (hminimum body hbody) (not_le.mpr (of_decide_eq_true hsmall))
    show Bucket.completeMultipartUpload etag bucket uploadId listed = _
    simp only [Bucket.completeMultipartUpload, hkept, if_neg hne, if_neg (not_not_intro horder),
      listedBodies_of_forall₂ hlisted]
    rw [if_neg hlarge]
  stored bucket body hsize := by
    refine ⟨{ bucket with object := some body }, ?_, rfl⟩
    show (if s3MaxPartSize < body.length then _ else if sha256 body ≠ sha256 body then _ else _) = _
    rw [if_neg (not_lt.mpr hsize), if_neg (not_not_intro rfl)]

/-- The bytes as a text, which stands for a digest in the runs below. -/
def latin1 (data : Bytes) : String := String.ofList (data.map fun byte => Char.ofNat byte.toNat)

/-- Two writes that make a part of 5 MiB and a last one of two bytes, and a read that goes on. -/
theorem fileObject_is_byteFile_twoParts :
    outcomes (ReadFile.call (some [7, 8, 9])) .opened [.seek 1 0, .read 1, .read (-1), .tell] =
        [.ok (.position 1), .ok (.bytes [8]), .ok (.bytes [9]), .ok (.position 3)] ∧
      ∃ bucket, writeAll (Bucket.s3 latin1 latin1) latin1 .empty
          [[1, 2, 3], List.replicate (writeChunkSize - 1) 4] = .ok bucket ∧
        bucket.object = some ([1, 2, 3] ++ List.replicate (writeChunkSize - 1) 4) := by
  obtain ⟨-, -, hwrit⟩ := fileObject_is_byteFile [7, 8, 9]
    [.seek 1 0, .read 1, .read (-1), .tell] (Bucket.s3 latin1 latin1) latin1
    (Bucket.documented latin1 latin1) .empty [[1, 2, 3], replicate (writeChunkSize - 1) 4]
  refine ⟨by decide, ?_⟩
  rcases hwrit with ⟨-, bucket, hok, hobj⟩ | ⟨hlong, -⟩
  · refine ⟨bucket, hok, Eq.trans hobj ?_⟩
    rw [flatten_cons, flatten_singleton]
  · refine absurd hlong (not_lt.mpr ?_)
    rw [flatten_cons, flatten_singleton, length_append, length_replicate]
    show 3 + (writeChunkSize - 1) ≤ s3MaxParts * writeChunkSize
    decide

/-- One step back from the start: `io.BytesIO` stays there, the file in S3 raises.  And one byte
more than S3 takes in parts is not stored. -/
theorem relative_seek_before_start : outcomes (ReadFile.call (some [7])) .opened [.seek (-1) 1] =
        [.error (.valueError "negative seek position -1")] ∧
      outcomes clampingFile (.opened [7]) [.seek (-1) 1] = [.ok (.position 0)] ∧
      ∃ error, writeAll (Bucket.s3 latin1 latin1) latin1 .empty
        [List.replicate (s3MaxParts * writeChunkSize + 1) 0] = .error error := by
  refine ⟨by decide, by decide, ?_⟩
  have hlong : TooLong [replicate (s3MaxParts * writeChunkSize + 1) (0 : UInt8)].flatten := by
    rw [TooLong, flatten_singleton, length_replicate]
    exact Nat.lt_succ_self _
  rcases writeAll_cases (Bucket.documented latin1 latin1) .empty
    [replicate (s3MaxParts * writeChunkSize + 1) 0] with ⟨-, hraise⟩ | ⟨hshort, -⟩
  · exact hraise
  · exact absurd hlong hshort

end Cfms.Storage
