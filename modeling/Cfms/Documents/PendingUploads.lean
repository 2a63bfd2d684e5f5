import Cfms.Documents.CreationLimits
import Cfms.Files.LiveUploads

/-!
# Pending documents

A document is pending for its creator while it has no active revision and an upload task of one of
its revisions is live and not due.  `count_pending_documents` counts these documents.

Everything that happens to upload tasks, files and revisions once they are there takes documents
out of this set and never brings one back: the relation `Withdraws`, proved here for every action on
uploads other than the two that insert one.
-/

namespace Cfms.Documents

open List AList

open Access (Instant)
open Files Files.LiveUploads
open Lib

/-! ### The count -/

/-- The rows that the count reads: the uploads and the creators in `document_metadata`.  The rows
of documents that are gone stay in the second table, where no join finds them. -/
structure DocumentRows where
  uploads : UploadDatabase := {}
  creators : Table String String := ∅

variable (db : UploadDatabase)

/-- `live_upload` of `count_pending_documents`. -/
def hasLiveUpload (documentId : String) (now : Instant) : Bool :=
  (db.liveUploadRows documentId).any fun row => !row.2.task.isDue now

def isPending (documentId : String) (now : Instant) : Bool :=
  !documentHasActiveRevision db documentId && hasLiveUpload db documentId now

/-- The documents that `count_pending_documents` selects. -/
def pendingDocuments (rows : DocumentRows) (creatorId : String) (now : Instant) : List String :=
  rows.uploads.documents.filter fun documentId =>
    rows.creators.lookup documentId == some creatorId && isPending rows.uploads documentId now

def countPendingDocuments (rows : DocumentRows) (creatorId : String) (now : Instant) : ℕ :=
  (pendingDocuments rows creatorId now).length

/-- The ends of the live uploads of the account's documents, those of further revisions included. -/
def liveDeadlines (rows : DocumentRows) (creatorId : String) (now : Instant) : List Instant :=
  rows.uploads.tasks.entries.filterMap fun row =>
    let ofCreator := rows.uploads.revisions.any fun _ revision =>
      revision.fileId == row.2.fileId && rows.uploads.documents.contains revision.documentId &&
        rows.creators.lookup revision.documentId == some creatorId
    if row.2.task.mode == .upload && row.2.task.status.isActive && ofCreator then
      row.2.task.endTime.filter fun endTime => now < endTime
    else none

/-- The `nearest_deadline` of `_pending_limit_decision`. -/
def nearestDeadline (rows : DocumentRows) (creatorId : String) (now : Instant) : Option Instant :=
  (liveDeadlines rows creatorId now).min?

variable {db : UploadDatabase} {docId : String} {now : Instant}

theorem hasLiveUpload_iff : hasLiveUpload db docId now = true ↔
      ∃ id row, db.tasks.lookup id = some row ∧ row.task.mode = .upload ∧
        row.task.status.isActive = true ∧ db.hasRevision docId row.fileId = true ∧
        row.task.isDue now = false := by
  simp only [hasLiveUpload, UploadDatabase.liveUploadRows, any_filter, any_eq_true,
    Bool.and_eq_true, beq_iff_eq, Bool.not_eq_true']
  constructor
  · rintro ⟨⟨id, row⟩, hmem, ⟨⟨hmode, hact⟩, hrev⟩, hdue⟩
    exact ⟨id, row, mem_lookup_iff.mpr hmem, hmode, hact, hrev, hdue⟩
  · rintro ⟨id, row, hrow, hmode, hact, hrev, hdue⟩
    exact ⟨⟨id, row⟩, mem_lookup_iff.mp hrow, ⟨⟨hmode, hact⟩, hrev⟩, hdue⟩

theorem documentHasActiveRevision_iff : documentHasActiveRevision db docId = true ↔
      ∃ id fileId file, db.revisions.lookup id = some ⟨docId, fileId⟩ ∧
        db.files.lookup fileId = some file ∧ file.active = true := by
  rw [documentHasActiveRevision, Table.any_iff]
  constructor
  · intro ⟨id, ⟨doc, fileId⟩, hrow, hp⟩
    simp only [Bool.and_eq_true, beq_iff_eq, Option.any_eq_true] at hp
    obtain ⟨rfl, file, hfile, hact⟩ := hp
    exact ⟨id, fileId, file, hrow, hfile, hact⟩
  · intro ⟨id, fileId, file, hrow, hfile, hact⟩
    exact ⟨id, _, hrow, by simp [hfile, hact]⟩

variable {rows : DocumentRows}

theorem mem_pendingDocuments {creatorId : String} : docId ∈ pendingDocuments rows creatorId now ↔
      docId ∈ rows.uploads.documents ∧ rows.creators.lookup docId = some creatorId ∧
        isPending rows.uploads docId now = true := by
  simp only [pendingDocuments, mem_filter, Bool.and_eq_true, beq_iff_eq]

theorem pendingDocuments_nodup (h : rows.uploads.documents.Nodup)
    (creatorId : String) (now : Instant) : (pendingDocuments rows creatorId now).Nodup :=
  h.filter _

theorem shrinks_finalizeUpload {db' : UploadDatabase} {taskId : String} {sha256 : Option String}
    {size : ℕ} (h : finalizeUpload db taskId sha256 size = some db') : Shrinks db db' := by
  simp only [finalizeUpload, Option.bind_eq_bind, Option.bind_eq_some_iff, Option.pure_def,
    Option.some.injEq] at h
  obtain ⟨row, hrow, file, -, rfl⟩ := h
  have htask : Shrinks db
      (db.updateTask taskId fun _ => (finalizeUploadTask row.task file sha256 size).1) := by
    apply Shrinks.updateTask
    intro row' hrow'
    cases hrow.symm.trans hrow'
    exact fades_finalize row.task file sha256 size
  exact ⟨htask.documents, htask.tasks, htask.revisions⟩

/-! ### What happens to one task -/

/-- The task does not come back to life, and if it is live at `now'` it was not due at `now`. -/
structure FadesBy (now now' : Instant) (task task' : FileTask) : Prop extends Fades task task' where
  due : task'.status.isActive = true → task'.isDue now' = false → task.isDue now = false

section

variable {now now' : Instant} (task : FileTask)

/-- What is not due was not due before. -/
theorem isDue_antitone (hle : now ≤ now') (h : task.isDue now' = false) : task.isDue now = false := by
  unfold FileTask.isDue at h ⊢
  cases hend : task.endTime with
  | none => rfl
  | some endTime =>
    simp only [hend, Option.any_some, decide_eq_false_iff_not, not_le] at h ⊢
    exact hle.trans_lt h

theorem fadesBy_of_endTime {task' : FileTask} (hle : now ≤ now') (hfades : Fades task task')
    (hend : task'.endTime = task.endTime) : FadesBy now now' task task' where
  toFades := hfades
  due _ hdue := by
    rw [FileTask.isDue, hend] at hdue
    exact isDue_antitone task hle hdue

theorem fadesBy_expire (hle : now ≤ now') : FadesBy now now' task (expireFileTaskIfDue task now') := by
  apply fadesBy_of_endTime task hle (fades_expire task now')
  unfold expireFileTaskIfDue
  split <;> rfl

theorem fadesBy_release (hle : now ≤ now') : FadesBy now now' task (releaseFileTask task now') := by
  apply fadesBy_of_endTime task hle (fades_release task now')
  unfold releaseFileTask
  split <;> rfl

theorem fadesBy_cancel : FadesBy now now task (cancelFileTask task) := by
  apply fadesBy_of_endTime task le_rfl (fades_cancel task)
  unfold cancelFileTask
  split <;> rfl

theorem fadesBy_finalize (file : StoredFile) (sha256 : Option String) (size : ℕ) :
    FadesBy now now task (finalizeUploadTask task file sha256 size).1 := by
  apply fadesBy_of_endTime task le_rfl (fades_finalize task file sha256 size)
  have hcompl : (completeFileTask task).endTime = task.endTime := by
    unfold completeFileTask
    split <;> rfl
  unfold finalizeUploadTask
  simp only
  split <;> exact hcompl

theorem fadesBy_claim (hle : now ≤ now') (policy : UploadPolicy) (file : StoredFile)
    (mode : TransferMode) : FadesBy now now' task (claimFileTask policy task file mode now').2 := by
  have hexp := fadesBy_expire task hle
  refine ⟨fades_claim policy task file mode now', ?_⟩
  unfold claimFileTask
  split
  · exact fun _ hdue => isDue_antitone task hle hdue
  simp only
  split
  · exact hexp.due
  rename_i hpend
  split
  · exact hexp.due
  -- the claim goes through, so the task was pending and has not just expired
  intro _ _
  have hst : (expireFileTaskIfDue task now').status = .pending := by
    simpa only [bne_iff_ne, not_not] using hpend
  unfold expireFileTaskIfDue at hst
  split at hst
  · cases hst
  rename_i hkeep
  rw [Bool.and_eq_true, not_and, Bool.not_eq_true] at hkeep
  exact isDue_antitone task hle (hkeep (by rw [hst]; rfl))

end

/-! ### What happens to the rows -/

/-- No document comes to be pending between `now` and `now'`. -/
structure Withdraws (now now' : Instant) (db db' : UploadDatabase) : Prop where
  documents : db'.documents.Sublist db.documents
  live : ∀ documentId ∈ db'.documents, hasLiveUpload db' documentId now' = true →
    hasLiveUpload db documentId now = true
  active : ∀ documentId ∈ db'.documents, documentHasActiveRevision db documentId = true →
    documentHasActiveRevision db' documentId = true

namespace Withdraws

variable {now now' now'' : Instant} {db db' db'' : UploadDatabase}

/-- **What is pending afterwards was pending before.** -/
theorem isPending (h : Withdraws now now' db db') {docId : String}
    (hmem : docId ∈ db'.documents) (hpend : isPending db' docId now' = true) :
    Documents.isPending db docId now = true := by
  rw [Documents.isPending, Bool.and_eq_true, Bool.not_eq_true'] at hpend ⊢
  refine ⟨?_, h.live docId hmem hpend.2⟩
  by_contra hact
  rw [Bool.not_eq_false] at hact
  rw [h.active docId hmem hact] at hpend
  cases hpend.1

/-- No document becomes pending. -/
theorem pendingDocuments_subset (h : Withdraws now now' db db') (creators : Table String String)
    (creatorId : String) :
    pendingDocuments ⟨db', creators⟩ creatorId now' ⊆ pendingDocuments ⟨db, creators⟩ creatorId now := by
  intro docId hmem
  obtain ⟨hdoc, hcreat, hpend⟩ := mem_pendingDocuments.mp hmem
  exact mem_pendingDocuments.mpr ⟨h.documents.subset hdoc, hcreat, h.isPending hdoc hpend⟩

theorem trans (h : Withdraws now now' db db') (h' : Withdraws now' now'' db' db'') :
    Withdraws now now'' db db'' where
  documents := h'.documents.trans h.documents
  live docId hmem hlive :=
    h.live docId (h'.documents.subset hmem) (h'.live docId hmem hlive)
  active docId hmem hact :=
    h'.active docId hmem (h.active docId (h'.documents.subset hmem) hact)

theorem of_tasks (hdocs : db'.documents = db.documents) (hrevs : db'.revisions = db.revisions)
    (hfiles : db'.files = db.files)
    (htasks : ∀ id row', db'.tasks.lookup id = some row' → ∃ row, db.tasks.lookup id = some row ∧
      row'.fileId = row.fileId ∧ FadesBy now now' row.task row'.task) :
    Withdraws now now' db db' where
  documents := by rw [hdocs]
  live docId _ hlive := by
    obtain ⟨id, row', hrow', hmode, hact, hrev, hdue⟩ := hasLiveUpload_iff.mp hlive
    obtain ⟨row, hrow, hfile, hfades⟩ := htasks id row' hrow'
    refine hasLiveUpload_iff.mpr
      ⟨id, row, hrow, hfades.mode ▸ hmode, hfades.active hact, ?_, hfades.due hact hdue⟩
    rw [UploadDatabase.hasRevision, ← hrevs, ← hfile]
    exact hrev
  active docId _ hact := by
    rw [documentHasActiveRevision, hrevs, hfiles]
    exact hact

theorem advance (hle : now ≤ now') (db : UploadDatabase) : Withdraws now now' db db :=
  of_tasks rfl rfl rfl fun _ row hrow =>
    ⟨row, hrow, rfl, fadesBy_of_endTime row.task hle (.refl row.task) rfl⟩

theorem refl (now : Instant) (db : UploadDatabase) : Withdraws now now db db := advance le_rfl db

variable {taskId : String}

/-- A task that only fades makes no document pending. -/
theorem updateTask {f : FileTask → FileTask} (hle : now ≤ now')
    (hf : ∀ row, db.tasks.lookup taskId = some row → FadesBy now now' row.task (f row.task)) :
    Withdraws now now' db (db.updateTask taskId f) := by
  refine of_tasks rfl rfl rfl ?_
  intro id row' hrow'
  obtain ⟨row, hrow, hupdate⟩ := Table.lookup_update_eq_some hrow'
  refine ⟨row, hrow, ?_⟩
  split at hupdate
  · rename_i hid
    subst hid
    rw [hupdate]
    exact ⟨rfl, hf row hrow⟩
  · rw [hupdate]
    exact ⟨rfl, fadesBy_of_endTime row.task hle (.refl row.task) rfl⟩

theorem expire (hle : now ≤ now') (db : UploadDatabase) (taskId : String) :
    Withdraws now now' db (db.updateTask taskId fun task => expireFileTaskIfDue task now') :=
  updateTask hle fun row _ => fadesBy_expire row.task hle

theorem eraseTask (now : Instant) (db : UploadDatabase) (taskId : String) :
    Withdraws now now db { db with tasks := db.tasks.erase taskId } := by
  refine of_tasks rfl rfl rfl ?_
  intro id row hrow
  have hne : id ≠ taskId := by
    intro hid
    subst hid
    rw [lookup_erase] at hrow
    cases hrow
  rw [lookup_erase_ne hne] at hrow
  exact ⟨row, hrow, rfl, fadesBy_of_endTime row.task le_rfl (.refl row.task) rfl⟩

/-- Rows that shrink withdraw documents. -/
theorem of_shrinks (hshr : Shrinks db db') (hdocs : db'.documents.Sublist db.documents)
    (htasks : ∀ id row, db'.tasks.lookup id = some row → db.tasks.lookup id = some row)
    (hkeeps : ∀ docId ∈ db'.documents, ∀ id fileId file,
      db.revisions.lookup id = some ⟨docId, fileId⟩ → db.files.lookup fileId = some file →
        file.active = true → db'.revisions.lookup id = some ⟨docId, fileId⟩ ∧
          db'.files.lookup fileId = some file) : Withdraws now now db db' where
  documents := hdocs
  live docId _ hlive := by
    obtain ⟨id, row, hrow, hmode, hact, hrev, hdue⟩ := hasLiveUpload_iff.mp hlive
    obtain ⟨revId, hrrow⟩ := hasRevision_iff.mp hrev
    exact hasLiveUpload_iff.mpr ⟨id, row, htasks id row hrow, hmode, hact,
        hasRevision_iff.mpr ⟨revId, hshr.revisions revId _ hrrow⟩, hdue⟩
  active docId hmem hact := by
    obtain ⟨id, fileId, file, hrev, hfile, hactiveFile⟩ :=
      documentHasActiveRevision_iff.mp hact
    obtain ⟨hrev', hfile'⟩ := hkeeps docId hmem id fileId file hrev hfile hactiveFile
    exact documentHasActiveRevision_iff.mpr ⟨id, fileId, file, hrev', hfile', hactiveFile⟩

theorem purgeDocument (now : Instant) (db : UploadDatabase) (docId : String) :
    Withdraws now now db (LiveUploads.purgeDocument db docId) := by
  refine of_shrinks (shrinks_purgeDocument db docId) ?_ ?_ ?_
  · exact filter_sublist
  · intro id row hrow
    exact (Table.lookup_delete_eq_some.mp hrow).1
  · intro doc hmem id fileId file hrev hfile _
    have hne : doc ≠ docId := by
      have hfilt := (mem_filter.mp hmem).2
      simpa only [bne_iff_ne] using hfilt
    have hother : (db.revisions.any fun _ rev =>
        rev.documentId != docId && rev.fileId == fileId) = true :=
      Table.any_iff.mpr ⟨id, _, hrev, by simp [hne]⟩
    constructor
    · exact Table.lookup_delete_eq_some.mpr ⟨hrev, by simpa using hne⟩
    · exact Table.lookup_delete_eq_some.mpr ⟨hfile, by simp [hother]⟩

theorem deleteRevisionAndUnreferencedFile (now : Instant) {revId : String} {rev : RevisionRow}
    (hrow : ∀ row, db.revisions.lookup revId = some row → row.fileId = rev.fileId)
    (hinact : ∀ file, db.files.lookup rev.fileId = some file → file.active = false) :
    Withdraws now now db (deleteRevisionAndUnreferencedFile db revId rev) := by
  have hfile_ne : ∀ {fileId file}, db.files.lookup fileId = some file → file.active = true →
      fileId ≠ rev.fileId := by
    intro fileId file hfile hact heq
    rw [heq] at hfile
    rw [hinact file hfile] at hact
    cases hact
  have hid_ne : ∀ {id docId fileId file}, db.revisions.lookup id = some ⟨docId, fileId⟩ →
      db.files.lookup fileId = some file → file.active = true → id ≠ revId := by
    intro id docId fileId file hrev hfile hact heq
    rw [heq] at hrev
    exact hfile_ne hfile hact (hrow _ hrev)
  have hshr := shrinks_deleteRevisionAndUnreferencedFile db revId rev
  unfold LiveUploads.deleteRevisionAndUnreferencedFile at hshr ⊢
  simp only at hshr ⊢
  split at hshr
  · rename_i hlast
    rw [if_pos hlast]
    refine of_shrinks hshr (List.Sublist.refl _) ?_ ?_
    · intro id row h
      exact (Table.lookup_delete_eq_some.mp h).1
    · intro docId _ id fileId file hrev hfile hact
      constructor
      · exact Table.lookup_delete_eq_some.mpr ⟨hrev, by simpa using hid_ne hrev hfile hact⟩
      · exact Table.lookup_delete_eq_some.mpr ⟨hfile, by simpa using hfile_ne hfile hact⟩
  · rename_i hmore
    rw [if_neg hmore]
    refine of_shrinks hshr (List.Sublist.refl _) (fun _ _ h => h) ?_
    intro docId _ id fileId file hrev hfile hact
    exact ⟨Table.lookup_delete_eq_some.mpr ⟨hrev, by simpa using hid_ne hrev hfile hact⟩, hfile⟩

/-! ### The cleanup -/

theorem reclaimRevisions (taskId : String) (now : Instant) (fileId : String)
    (revisions : List ((_ : String) × RevisionRow))
    (hlist : ∀ rev ∈ revisions, rev.2.fileId = fileId)
    (hrows : ∀ rev ∈ revisions, ∀ row, db.revisions.lookup rev.1 = some row → row.fileId = fileId)
    (hinact : ∀ file, db.files.lookup fileId = some file → file.active = false) :
    Withdraws now now db (reclaimRevisions taskId now db revisions) := by
  induction revisions generalizing db with
  | nil => exact refl now db
  | cons rev rest ih =>
    obtain ⟨revId, rev⟩ := rev
    rw [LiveUploads.reclaimRevisions]
    split
    · exact purgeDocument now db rev.documentId
    have hfile : rev.fileId = fileId := hlist _ mem_cons_self
    have hstep : Withdraws now now db
        (LiveUploads.deleteRevisionAndUnreferencedFile db revId rev) := by
      apply deleteRevisionAndUnreferencedFile
      · intro row hrow
        rw [hfile]
        exact hrows _ mem_cons_self row hrow
      · rw [hfile]
        exact hinact
    have hshr := shrinks_deleteRevisionAndUnreferencedFile db revId rev
    refine hstep.trans (ih ?_ ?_ ?_)
    · exact fun other hmem => hlist other (mem_cons_of_mem _ hmem)
    · intro other hmem row hrow
      exact hrows other (mem_cons_of_mem _ hmem) row (hshr.revisions _ _ hrow)
    · intro file hlook
      apply hinact file
      unfold LiveUploads.deleteRevisionAndUnreferencedFile at hlook
      simp only at hlook
      split at hlook
      · exact (Table.lookup_delete_eq_some.mp hlook).1
      · exact hlook

theorem reclaimUpload (now : Instant) (db : UploadDatabase)
    (cand : (_ : String) × LiveUploads.FileTaskRow) :
    Withdraws now now db (LiveUploads.reclaimUpload now db cand) := by
  unfold LiveUploads.reclaimUpload
  split
  · exact refl now db
  rename_i row _
  have hexp : Withdraws now now db
      (db.updateTask cand.1 fun task => expireFileTaskIfDue task now) :=
    expire le_rfl db cand.1
  simp only
  split
  · exact hexp
  split
  · exact hexp
  rename_i hfile
  refine (hexp.trans (eraseTask now _ cand.1)).trans ?_
  apply reclaimRevisions cand.1 now row.fileId
  · intro rev hmem
    simpa using (mem_filter.mp hmem).2
  · intro rev hmem found hfound
    obtain ⟨hmem, hfileId⟩ := mem_filter.mp hmem
    have hrow := mem_lookup_iff.mpr hmem
    cases hfound.symm.trans hrow
    simpa using hfileId
  · intro file hlook
    by_contra hact
    rw [Bool.not_eq_false] at hact
    exact hfile (by
      show (Option.all StoredFile.active (db.files.lookup row.fileId)) = true
      rw [show db.files.lookup row.fileId = some file from hlook]
      exact hact)

/-- A cleanup makes no document pending. -/
theorem reclaimAbandonedUploads (hle : now ≤ now') (db : UploadDatabase)
    (scope : Option (List String)) (limit : Option ℕ) :
    Withdraws now now' db (reclaimAbandonedUploads db now' scope limit) := by
  have hloop : ∀ (candidates : List ((_ : String) × LiveUploads.FileTaskRow)) (db : UploadDatabase),
      Withdraws now' now' db (candidates.foldl (LiveUploads.reclaimUpload now') db) := by
    intro candidates
    induction candidates with
    | nil => exact fun db => refl now' db
    | cons cand rest ih => exact fun db => (reclaimUpload now' db cand).trans (ih _)
  exact (advance hle db).trans (hloop _ db)

/-! ### Requests and transfers -/

theorem queryUpload (hle : now ≤ now') (db : UploadDatabase) (docId : String)
    (mayWrite : Bool) : Withdraws now now' db (queryUpload db docId mayWrite now').2 := by
  unfold LiveUploads.queryUpload
  split
  · exact advance hle db
  split
  · exact advance hle db
  split
  · exact advance hle db
  split
  · exact expire hle db _
  · exact advance hle db
  · exact advance hle db

/-- Nor does the end of an upload. -/
theorem finalizeUpload {sha256 : Option String} {size : ℕ}
    (h : finalizeUpload db taskId sha256 size = some db') : Withdraws now now db db' := by
  simp only [LiveUploads.finalizeUpload, Option.bind_eq_bind, Option.bind_eq_some_iff,
    Option.pure_def, Option.some.injEq] at h
  obtain ⟨row, hrow, file, hfile, rfl⟩ := h
  have htask : Withdraws now now db
      (db.updateTask taskId fun _ => (finalizeUploadTask row.task file sha256 size).1) := by
    apply updateTask le_rfl
    intro row' hrow'
    cases hrow.symm.trans hrow'
    exact fadesBy_finalize row.task file sha256 size
  refine ⟨htask.documents, htask.live, ?_⟩
  intro docId _ hact
  obtain ⟨id, fileId, old, hrev, hold, holdActive⟩ := documentHasActiveRevision_iff.mp hact
  by_cases heq : fileId = row.fileId
  · subst heq
    cases hfile.symm.trans hold
    refine documentHasActiveRevision_iff.mpr ⟨id, row.fileId, _, hrev, lookup_insert _, ?_⟩
    unfold finalizeUploadTask
    simp only
    split
    · exact holdActive
    · rfl
  · exact documentHasActiveRevision_iff.mpr
      ⟨id, fileId, old, hrev, (lookup_insert_ne heq).trans hold, holdActive⟩

end Withdraws

end Cfms.Documents
