import Cfms.Files.Deduplication
import Cfms.Files.TaskOwnership

/-!
# The content in use

Who points at a file, through a live download or through a reference, finds the object with the
digest that the referrer had.  A row whose object may be removed is *spare*: it is inactive, so no
merge moves anything to it, and neither a reference nor a live download points at it.  The merge
makes the source unreferenced, and the check before the removal finds no live transfer.

This file states the law and the invariant behind it, and goes through the transactions that only
let go: nothing new is pointed at a file, and no row that something points at is gone.
-/

namespace Cfms.Files

open Access (Instant)
open Lib Lib.Run

/-! ### The law -/

variable (sha256 : Bytes → String) (s : Server)

def Server.Serves (fileId digest : String) : Prop :=
  ∃ file content, s.db.files.lookup fileId = some file ∧
    s.objects.lookup file.path = some content ∧ sha256 content = digest

variable (db : Database)

def Database.Downloads (fileId : String) : Prop :=
  ∃ id transfer, db.transfers.lookup id = some transfer ∧ transfer.isLiveDownload = true ∧
    transfer.fileId = fileId

def Database.Refers (fileId : String) : Prop :=
  ∃ referrer reference, db.references.lookup referrer = some reference ∧ reference.fileId = fileId

/-- Who points at a file is served, and no row was deleted in use. -/
structure Server.Kept : Prop where
  downloads : ∀ id transfer, s.db.transfers.lookup id = some transfer →
    transfer.isLiveDownload = true → s.Serves sha256 transfer.fileId transfer.digest
  references : ∀ referrer reference, s.db.references.lookup referrer = some reference →
    s.Serves sha256 reference.fileId reference.digest
  rows : s.db.deletedInUse = []

/-- The next step of a worker deletes no row that something points at. -/
def Server.WorkersSpare : Prop :=
  ∀ worker now jitter s', proceed s worker now jitter = some s' → ∀ fileId,
    (s.db.files.lookup fileId).isSome = true → s'.db.files.lookup fileId = none →
      ¬s.db.Downloads fileId ∧ ¬s.db.Refers fileId

def Server.readRow (connection : ℕ) : Option FileRow :=
  (s.issues.lookup connection).bind fun issue => s.db.files.lookup issue.fileId

/-- The object of the row is there, and no worker that found the file without live transfers is
about to remove it. -/
def Server.untouched (file : FileRow) : Bool :=
  (s.objects.lookup file.path).isSome && !s.workers.any fun _ stage => stage.removes file.path

/-- The condition on a step.  A download task is inserted before the storage deletion of its file
has found no live transfer, and an avatar is set before its file is merged. -/
def timely : ServerAction → Bool
  | .createFileTask connection _ _ => (s.readRow connection).all s.untouched
  | .setAvatar connection _ => (s.readRow connection).all fun file => file.stored.active
  | _ => true

/-! ### The invariant -/

/-- No merge chooses the file, and no reference points at it. -/
structure Database.Retired (fileId : String) : Prop where
  inactive : ∀ file, db.files.lookup fileId = some file → file.stored.active = false
  unreferenced : ¬db.Refers fileId

/-- Nothing uses the file. -/
structure Database.Spare (fileId : String) : Prop extends db.Retired fileId where
  idle : ¬db.Downloads fileId

structure Sound : Prop where
  kept : s.Kept sha256
  digests : ∀ id file, s.db.files.lookup id = some file → file.stored.active = true →
    ∃ content, s.objects.lookup file.path = some content ∧
      ∀ digest, file.stored.sha256 = some digest → sha256 content = digest
  paths : ∀ id id' file file', s.db.files.lookup id = some file →
    s.db.files.lookup id' = some file' → file.path = file'.path → id = id'
  retired : ∀ id task, s.db.deduplications.lookup id = some task → task.phase = .storageDelete →
    id ∈ s.tokens ∧ s.db.Retired id
  removing : ∀ worker claim path, s.workers.lookup worker = some (.removing claim path) →
    path ∈ s.tokens ∧ ∀ id file, s.db.files.lookup id = some file → file.path = path → s.db.Spare id
  removals : ∀ path ∈ s.removals,
    path ∈ s.tokens ∧ ∀ id file, s.db.files.lookup id = some file → file.path ≠ path
  /-- What a connection has read was right, and stays so while the object is there. -/
  issues : ∀ connection issue, s.issues.lookup connection = some issue →
    issue.fileId ∈ s.tokens ∧ ∀ file content, s.db.files.lookup issue.fileId = some file →
      s.objects.lookup file.path = some content → sha256 content = issue.digest
  known : ∀ id file, s.db.files.lookup id = some file → id ∈ s.tokens ∧ file.path ∈ s.tokens

variable {sha256 : Bytes → String} {s s' : Server} {db db' : Database}

/-! ### Steps that only let go -/

/-- Nothing new is pointed at a file, no row that something points at is gone, and no further
storage deletion begins. -/
structure Database.Eases (db db' : Database) : Prop where
  files : ∀ id file, db'.files.lookup id = some file → db.files.lookup id = some file
  transfers : ∀ id transfer, db'.transfers.lookup id = some transfer →
    transfer.isLiveDownload = true →
      db'.files.lookup transfer.fileId = db.files.lookup transfer.fileId ∧
        ∃ before, db.transfers.lookup id = some before ∧ before.isLiveDownload = true ∧
          before.fileId = transfer.fileId ∧ before.digest = transfer.digest
  references : ∀ referrer reference, db'.references.lookup referrer = some reference →
    db'.files.lookup reference.fileId = db.files.lookup reference.fileId ∧
      db.references.lookup referrer = some reference
  deduplications : ∀ id task, db'.deduplications.lookup id = some task →
    task.phase = .storageDelete →
      ∃ before, db.deduplications.lookup id = some before ∧ before.phase = .storageDelete
  deletedInUse : db'.deletedInUse = db.deletedInUse

theorem Database.Eases.refl (db : Database) : db.Eases db where
  files _ _ h := h
  transfers _ transfer h hlive := ⟨rfl, transfer, h, hlive, rfl, rfl⟩
  references _ _ h := ⟨rfl, h⟩
  deduplications _ task h hphase := ⟨task, h, hphase⟩
  deletedInUse := rfl

theorem Database.Eases.trans {db'' : Database} (h : db.Eases db') (h' : db'.Eases db'') :
    db.Eases db'' where
  files id file hfile := h.files id file (h'.files id file hfile)
  transfers id transfer htr hlive := by
    obtain ⟨hrow', before', hbef', hlive', hfile', hdig'⟩ :=
      h'.transfers id transfer htr hlive
    obtain ⟨hrow, before, hbef, hlive'', hfile, hdig⟩ := h.transfers id before' hbef' hlive'
    rw [hfile'] at hrow hfile
    exact ⟨hrow'.trans hrow, before, hbef, hlive'', hfile, hdig.trans hdig'⟩
  references referrer reference href := by
    obtain ⟨hrow', href'⟩ := h'.references referrer reference href
    obtain ⟨hrow, hbef⟩ := h.references referrer reference href'
    exact ⟨hrow'.trans hrow, hbef⟩
  deduplications id task htask hphase := by
    obtain ⟨before', hbef', hphase'⟩ := h'.deduplications id task htask hphase
    exact h.deduplications id before' hbef' hphase'
  deletedInUse := h'.deletedInUse.trans h.deletedInUse

variable {fileId : String}

theorem Database.Eases.refers (h : db.Eases db') (hrefers : db'.Refers fileId) :
    db.Refers fileId := by
  obtain ⟨referrer, reference, href, hfile⟩ := hrefers
  exact ⟨referrer, reference, (h.references referrer reference href).2, hfile⟩

theorem Database.Eases.downloads (h : db.Eases db')
    (hdowns : db'.Downloads fileId) : db.Downloads fileId := by
  obtain ⟨id, transfer, htr, hlive, rfl⟩ := hdowns
  obtain ⟨-, before, hbef, hlive', hfile, -⟩ := h.transfers id transfer htr hlive
  exact ⟨id, before, hbef, hlive', hfile⟩

theorem Database.Eases.retired (h : db.Eases db') (hret : db.Retired fileId) :
    db'.Retired fileId where
  inactive file hfile := hret.inactive file (h.files fileId file hfile)
  unreferenced hrefers := hret.unreferenced (h.refers hrefers)

theorem Database.Eases.spare (h : db.Eases db') (hspare : db.Spare fileId) : db'.Spare fileId where
  toRetired := h.retired hspare.toRetired
  idle hdowns := hspare.idle (h.downloads hdowns)

/-- What a server step that only lets go does besides the database. -/
structure Server.Eases (s s' : Server) : Prop where
  db : s.db.Eases s'.db
  objects : s'.objects = s.objects
  tokens : s'.tokens = s.tokens
  removing : ∀ worker claim path, s'.workers.lookup worker = some (.removing claim path) →
    s.workers.lookup worker = some (.removing claim path)
  removals : ∀ path ∈ s'.removals, path ∈ s.removals ∨
    (path ∈ s.tokens ∧ ∀ id file, s'.db.files.lookup id = some file → file.path ≠ path)
  issues : ∀ connection issue, s'.issues.lookup connection = some issue →
    s.issues.lookup connection = some issue

/-- **Letting go keeps the invariant.** -/
theorem Sound.ease (h : Sound sha256 s) (he : s.Eases s') : Sound sha256 s' where
  kept :=
    { downloads := by
        intro id transfer htr hlive
        obtain ⟨hrow, before, hbef, hlive', hfile, hdig⟩ :=
          he.db.transfers id transfer htr hlive
        have hserves := h.kept.downloads id before hbef hlive'
        rw [hfile, hdig] at hserves
        unfold Server.Serves at hserves ⊢
        rw [he.objects, hrow]
        exact hserves
      references := by
        intro referrer reference href
        obtain ⟨hrow, hbef⟩ := he.db.references referrer reference href
        have hserves := h.kept.references referrer reference hbef
        unfold Server.Serves at hserves ⊢
        rw [he.objects, hrow]
        exact hserves
      rows := he.db.deletedInUse.trans h.kept.rows }
  digests id file hfile hact := by
    rw [he.objects]
    exact h.digests id file (he.db.files id file hfile) hact
  paths id id' file file' hfile hfile' hpath :=
    h.paths id id' file file' (he.db.files id file hfile) (he.db.files id' file' hfile') hpath
  retired id task htask hphase := by
    obtain ⟨before, hbef, hphase'⟩ := he.db.deduplications id task htask hphase
    obtain ⟨htoken, hret⟩ := h.retired id before hbef hphase'
    rw [he.tokens]
    exact ⟨htoken, he.db.retired hret⟩
  removing worker claim path hwork := by
    obtain ⟨htoken, hspare⟩ := h.removing worker claim path (he.removing worker claim path hwork)
    rw [he.tokens]
    exact ⟨htoken, fun id file hfile hpath =>
      he.db.spare (hspare id file (he.db.files id file hfile) hpath)⟩
  removals path hpath := by
    rw [he.tokens]
    rcases he.removals path hpath with hbef | hgone
    · obtain ⟨htoken, hunfiled⟩ := h.removals path hbef
      exact ⟨htoken, fun id file hfile => hunfiled id file (he.db.files id file hfile)⟩
    · exact hgone
  issues connection issue hissue := by
    obtain ⟨htoken, hright⟩ := h.issues connection issue (he.issues connection issue hissue)
    rw [he.tokens, he.objects]
    exact ⟨htoken, fun file content hfile => hright file content (he.db.files _ file hfile)⟩
  known id file hfile := by
    rw [he.tokens]
    exact h.known id file (he.db.files id file hfile)

/-! ### Transactions that let go -/

theorem eases_updateDeduplication (db : Database) (fileId : String)
    {f : FileDeduplicationTask → FileDeduplicationTask} (hf : ∀ task, (f task).phase = task.phase) :
    db.Eases (db.updateDeduplication fileId f) :=
  { Database.Eases.refl db with
    deduplications := by
      intro id task htask hphase
      obtain ⟨before, hbef, rfl⟩ := Table.lookup_update_eq_some htask
      refine ⟨before, hbef, ?_⟩
      by_cases hid : id = fileId
      · rw [if_pos hid, hf] at hphase
        exact hphase
      · rw [if_neg hid] at hphase
        exact hphase }

theorem eases_deleteDeduplication (db : Database) (fileId : String) :
    db.Eases (db.deleteDeduplication fileId) :=
  { Database.Eases.refl db with
    deduplications := by
      intro id task htask hphase
      exact ⟨task, (Table.lookup_delete_eq_some.mp htask).1, hphase⟩ }

theorem eases_updateTransfers (db : Database) {f : String → TransferTask → TransferTask}
    (hf : ∀ id transfer, (f id transfer).isLiveDownload = true → transfer.isLiveDownload = true ∧
      transfer.fileId = (f id transfer).fileId ∧ transfer.digest = (f id transfer).digest) :
    db.Eases { db with transfers := db.transfers.update f } :=
  { Database.Eases.refl db with
    transfers := by
      intro id transfer htr hlive
      obtain ⟨before, hbef, rfl⟩ := Table.lookup_update_eq_some htr
      exact ⟨rfl, before, hbef, hf id before hlive⟩ }

theorem eases_deleteTransfers (db : Database) (gone : String → TransferTask → Bool) :
    db.Eases { db with transfers := db.transfers.delete gone } :=
  { Database.Eases.refl db with
    transfers := by
      intro id transfer htr hlive
      exact ⟨rfl, transfer, (Table.lookup_delete_eq_some.mp htr).1, hlive, rfl, rfl⟩ }

theorem eases_deleteReferences (db : Database) (gone : Referrer → Reference → Bool) :
    db.Eases { db with references := db.references.delete gone } :=
  { Database.Eases.refl db with
    references := by
      intro referrer reference href
      exact ⟨rfl, (Table.lookup_delete_eq_some.mp href).1⟩ }

variable {gone : String → Bool}

theorem eases_deleteFiles (h : db.deleteFiles gone = some db')
    (hidle : ∀ id transfer, db.transfers.lookup id = some transfer →
      transfer.isLiveDownload = true → gone transfer.fileId = false) : db.Eases db' := by
  unfold Database.deleteFiles at h
  split at h
  · cases h
  rename_i hrefers
  cases h
  refine ⟨?_, ?_, ?_, ?_, ?_⟩
  · intro id file hfile
    exact (Table.lookup_delete_eq_some.mp hfile).1
  · intro id transfer htr hlive
    obtain ⟨hbef, hstays⟩ := Table.lookup_delete_eq_some.mp htr
    exact ⟨Table.lookup_delete_of_not_gone hstays, transfer, hbef, hlive, rfl, rfl⟩
  · intro referrer reference href
    refine ⟨Table.lookup_delete_of_not_gone ?_, href⟩
    rw [Table.any_iff] at hrefers
    rw [Bool.eq_false_iff]
    intro hgone
    exact hrefers ⟨referrer, reference, href, hgone⟩
  · intro id task htask hphase
    exact ⟨task, (Table.lookup_delete_eq_some.mp htask).1, hphase⟩
  · have hnone : (db.transfers.entries.filter fun row =>
        row.2.isLiveDownload && gone row.2.fileId) = [] := by
      rw [List.filter_eq_nil_iff]
      rintro ⟨id, transfer⟩ hmem hboth
      rw [Bool.and_eq_true] at hboth
      have hstays := hidle id transfer (AList.mem_lookup_iff.mpr hmem) hboth.1
      exact absurd hboth.2 (by rw [hstays]; exact Bool.false_ne_true)
    simp only [hnone, List.map_nil, List.append_nil]

theorem deleteFiles_lookup (h : db.deleteFiles gone = some db')
    {id : String} : db'.files.lookup id = if gone id then none else db.files.lookup id := by
  unfold Database.deleteFiles at h
  split at h
  · cases h
  cases h
  split
  · rename_i hgone
    rw [Option.eq_none_iff_forall_ne_some]
    intro file hfile
    have hstays := (Table.lookup_delete_eq_some.mp hfile).2
    rw [hgone] at hstays
    cases hstays
  · rename_i hstays
    exact Table.lookup_delete_of_not_gone (Bool.eq_false_iff.mpr hstays)

theorem TransferChange.apply_mode (change : TransferChange) (file : StoredFile) (now : Instant)
    (task : FileTask) : (change.apply file now task).mode = task.mode := by
  have hexp : (expireFileTaskIfDue task now).mode = task.mode := by
    unfold expireFileTaskIfDue
    split <;> rfl
  have hrel : ∀ task : FileTask, (releaseFileTask task now).mode = task.mode := by
    intro task
    unfold releaseFileTask
    split <;> rfl
  cases change with
  | claim policy limitAllows =>
    have hclaim : (claimFileTask policy task file .download now).2.mode = task.mode := by
      unfold claimFileTask
      dsimp only
      split
      · rfl
      split
      · exact hexp
      split
      · exact hexp
      show (claimValues policy .download now (expireFileTaskIfDue task now)).mode = task.mode
      unfold claimValues
      split
      · exact hexp
      · exact hexp
    unfold TransferChange.apply claimDownloadTask
    dsimp only
    split
    · rename_i heq
      rw [heq] at hclaim
      exact hclaim
    · rename_i heq
      rw [heq] at hclaim
      cases limitAllows with
      | true => exact hclaim
      | false => exact (hrel _).trans hclaim
  | release => exact hrel task
  | complete =>
    unfold TransferChange.apply completeFileTask
    dsimp only
    split <;> rfl
  | expire => exact hexp

variable {now : Instant}

theorem TransferChange.apply_active {change : TransferChange} {file : StoredFile}
    {task : FileTask} (h : (change.apply file now task).status.isActive = true) :
    task.status.isActive = true := by
  cases change with
  | claim policy limitAllows =>
    have hcases := claimFileTask_cases policy task file .download now
    unfold TransferChange.apply claimDownloadTask at h
    dsimp only at h
    split at h
    · rename_i err after heq
      rw [heq] at hcases
      rcases hcases with ⟨_, -, hsame | ⟨hact, -⟩⟩ | ⟨_, hok, -⟩
      · rw [← hsame]
        exact h
      · exact hact
      · cases hok
    · rename_i claimed after heq
      rw [heq] at hcases
      rcases hcases with ⟨_, herror, -⟩ | ⟨_, -, hpend, -⟩
      · cases herror
      · rw [hpend]
        rfl
  | release =>
    unfold TransferChange.apply releaseFileTask at h
    dsimp only at h
    split at h
    · rename_i hprog
      rw [beq_iff_eq.mp hprog]
      rfl
    · exact h
  | complete =>
    unfold TransferChange.apply completeFileTask at h
    dsimp only at h
    split at h
    · cases h
    · exact h
  | expire =>
    have hcases : (expireFileTaskIfDue task now).status = task.status ∨ _ :=
      expireFileTaskIfDue_status
    rcases hcases with hsame | ⟨hact, -⟩
    · rw [← hsame]
      exact h
    · exact hact

theorem eases_cancelFileTasksForFiles (db : Database) (fileIds : List String) :
    db.Eases (cancelFileTasksForFiles db fileIds) := by
  refine eases_updateTransfers db ?_
  intro id transfer hlive
  by_cases hfile : transfer.fileId ∈ fileIds
  · rw [if_pos hfile] at hlive
    -- a cancelled task is not live, so this one had ended before
    have hact : (cancelFileTask transfer.task).status.isActive = true :=
      (Bool.and_eq_true _ _ ▸ hlive).1
    unfold cancelFileTask at hact
    split at hact
    · cases hact
    · rename_i hended
      exact absurd hact hended
  · simp only [if_neg hfile] at hlive ⊢
    exact ⟨hlive, trivial, trivial⟩

theorem eases_changeTransfer (db : Database) (taskId : String) (change : TransferChange)
    (file : StoredFile) (now : Instant) :
    db.Eases { db with
      transfers := db.transfers.update fun id transfer =>
        if id = taskId then { transfer with task := change.apply file now transfer.task }
        else transfer } := by
  refine eases_updateTransfers db ?_
  intro id transfer hlive
  by_cases hid : id = taskId
  · simp only [if_pos hid] at hlive ⊢
    have hboth := (Bool.and_eq_true _ _).mp hlive
    refine ⟨?_, trivial, trivial⟩
    rw [TransferTask.isLiveDownload, Bool.and_eq_true]
    refine ⟨TransferChange.apply_active hboth.1, ?_⟩
    rw [← change.apply_mode file now transfer.task]
    exact hboth.2
  · simp only [if_neg hid] at hlive ⊢
    exact ⟨hlive, trivial, trivial⟩

theorem deleteReferrers_spec {gone : Referrer → Bool} {paths : List String}
    (h : deleteReferrers db gone = some (paths, db')) :
    db.Eases db' ∧ ∀ path ∈ paths, ∃ id file, db.files.lookup id = some file ∧ file.path = path ∧
      db'.files.lookup id = none := by
  unfold deleteReferrers at h
  obtain ⟨db₁, hdelete, heq⟩ := Option.map_eq_some_iff.mp h
  cases heq
  constructor
  · refine ((eases_deleteTransfers db _).trans (eases_deleteReferences _ _)).trans
      (eases_deleteFiles hdelete ?_)
    intro id transfer htr _
    exact (Table.lookup_delete_eq_some.mp htr).2
  · intro path hpath
    obtain ⟨⟨id, file⟩, hmem, rfl⟩ := List.mem_map.mp hpath
    obtain ⟨hentry, hgone⟩ := List.mem_filter.mp hmem
    refine ⟨id, file, AList.mem_lookup_iff.mpr hentry, rfl, ?_⟩
    rw [deleteFiles_lookup hdelete, if_pos hgone]

variable {claim : ClaimedDeduplicationTask} {task : FileDeduplicationTask}

theorem getClaimedTask_eq_some (h : getClaimedTask db claim = some task) :
    db.deduplications.lookup claim.fileId = some task := (Option.filter_eq_some_iff.mp h).1

theorem storageDeletion_eq_some (h : storageDeletion db claim = some task) :
    db.deduplications.lookup claim.fileId = some task ∧ task.phase = .storageDelete := by
  obtain ⟨htask, hphase⟩ := Option.filter_eq_some_iff.mp h
  exact ⟨getClaimedTask_eq_some htask, beq_iff_eq.mp hphase⟩

theorem not_downloads_of_hasLiveTask (h : hasLiveTask db fileId = false) :
    ¬db.Downloads fileId := by
  rintro ⟨id, transfer, htr, hlive, hfile⟩
  rw [hasLiveTask, Bool.eq_false_iff] at h
  apply h
  rw [Table.any_iff]
  refine ⟨id, transfer, htr, ?_⟩
  rw [hfile, beq_self_eq_true]
  exact ((Bool.and_eq_true _ _).mp hlive).1

theorem eases_claimNextTask (db : Database) (now : Instant) (leaseOwner : String) :
    db.Eases (claimNextTask db now leaseOwner).2 := by
  unfold claimNextTask
  dsimp only
  split
  · exact .refl db
  · exact eases_updateDeduplication db _ fun _ => rfl

theorem eases_rescheduleFailedTask (db : Database) (claim : ClaimedDeduplicationTask)
    (now jitter : Instant) : db.Eases (rescheduleFailedTask db claim now jitter) := by
  unfold rescheduleFailedTask
  split
  · exact .refl db
  · exact eases_updateDeduplication db _ fun _ => rfl

theorem eases_releaseFileDeduplication (db : Database) (fileId : String) (now : Instant) :
    db.Eases (releaseFileDeduplication db fileId now) := by
  refine eases_updateDeduplication db fileId ?_
  intro task
  split <;> rfl

theorem checkStorageDelete_files (db : Database) (claim : ClaimedDeduplicationTask)
    (now : Instant) : (checkStorageDelete db claim now).2.files = db.files := by
  unfold checkStorageDelete
  split
  · rfl
  split
  · rfl
  · split <;> rfl

theorem rescheduleFailedTask_files (db : Database) (claim : ClaimedDeduplicationTask)
    (now jitter : Instant) : (rescheduleFailedTask db claim now jitter).files = db.files := by
  unfold rescheduleFailedTask
  split <;> rfl

/-- The check before the removal lets go.  With a path it has found the file of a task in the
phase of the storage deletion, without live transfers. -/
theorem checkStorageDelete_spec (db : Database) (claim : ClaimedDeduplicationTask) (now : Instant) :
    db.Eases (checkStorageDelete db claim now).2 ∧
      ∀ path, (checkStorageDelete db claim now).1 = some path →
        ∃ source task, db.files.lookup claim.fileId = some source ∧ source.path = path ∧
          db.deduplications.lookup claim.fileId = some task ∧ task.phase = .storageDelete ∧
          ¬db.Downloads claim.fileId := by
  unfold checkStorageDelete
  split
  · exact ⟨.refl db, nofun⟩
  rename_i task htask
  split
  · exact ⟨eases_deleteDeduplication db _, nofun⟩
  rename_i source hsrc
  split
  · exact ⟨eases_updateDeduplication db _ fun _ => rfl, nofun⟩
  rename_i hlive
  refine ⟨eases_updateDeduplication db _ fun _ => rfl, ?_⟩
  rintro path ⟨⟩
  obtain ⟨hlook, hphase⟩ := storageDeletion_eq_some htask
  exact ⟨source, task, hsrc, rfl, hlook, hphase,
    not_downloads_of_hasLiveTask (Bool.eq_false_iff.mpr hlive)⟩

theorem not_deleted_of_files_eq (hfiles : db'.files = db.files)
    (hsome : (db.files.lookup fileId).isSome = true) (hnone : db'.files.lookup fileId = none) :
    False := by
  rw [hfiles] at hnone
  rw [hnone] at hsome
  cases hsome

/-- The last transaction lets go.  A row that it deletes belongs to a task in the phase of the
storage deletion, and no live transfer points at it. -/
theorem finishStorageDelete_spec (h : finishStorageDelete db claim now = some db') :
    db.Eases db' ∧ ∀ fileId, (db.files.lookup fileId).isSome = true →
      db'.files.lookup fileId = none → ¬db.Downloads fileId ∧
        ∃ task, db.deduplications.lookup fileId = some task ∧ task.phase = .storageDelete := by
  unfold finishStorageDelete at h
  split at h
  · cases h
    refine ⟨.refl db, ?_⟩
    intro fileId hsome hnone
    exact (not_deleted_of_files_eq rfl hsome hnone).elim
  · rename_i task htask
    split at h
    · cases h
      refine ⟨eases_deleteDeduplication db _, ?_⟩
      intro fileId hsome hnone
      exact (not_deleted_of_files_eq rfl hsome hnone).elim
    · split at h
      · cases h
        refine ⟨eases_updateDeduplication db _ fun _ => rfl, ?_⟩
        intro fileId hsome hnone
        exact (not_deleted_of_files_eq rfl hsome hnone).elim
      · rename_i hlive
        refine ⟨((eases_deleteDeduplication db claim.fileId).trans
          (eases_deleteTransfers _ _)).trans (eases_deleteFiles h ?_), ?_⟩
        · intro id transfer htr _
          exact (Table.lookup_delete_eq_some.mp htr).2
        · intro fileId hsome hnone
          rw [deleteFiles_lookup h] at hnone
          split at hnone
          · rename_i hgone
            rw [beq_iff_eq.mp hgone]
            obtain ⟨hlook, hphase⟩ := storageDeletion_eq_some htask
            exact ⟨not_downloads_of_hasLiveTask (Bool.eq_false_iff.mpr hlive), task, hlook, hphase⟩
          · have hsame : (db.deleteDeduplication claim.fileId).files = db.files := rfl
            exact (not_deleted_of_files_eq hsame hsome hnone).elim

end Cfms.Files
