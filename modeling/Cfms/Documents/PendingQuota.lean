import Cfms.Documents.PendingUploads

/-!
# The quota of pending documents

Creations and uploads of documents run interleaved.  A creation is one transaction: its first read
fixes what its plain reads see, at the latest the count reads a view of some commit since then; it
then locks the bucket of the account, counts, and keeps the lock until it commits its document.

The lock keeps other creations of the account from committing between the count and the commit.
It does not make the count read the latest commit, and `core.document.upload`, which brings a
document back whose upload has been cancelled or has expired, neither locks nor counts.
-/

namespace Cfms.Documents

open List

open Access (Instant)
open Files Files.LiveUploads
open Lib Lib.Run

/-! ### Transactions -/

/-- The configuration, which does not change during a run. -/
structure QuotaPolicy where
  maxPendingDocumentsPerCreator : ℕ
  risk : RiskPolicies := {}

/-- How far the transaction of a creation is. -/
inductive CreationPhase
  /-- The user and the folder are read. -/
  | reading
  /-- `check_document_creation_limits` has been called at the time and waits for the bucket. -/
  | limiting (now : Instant)
  /-- The check has allowed the creation; the account's bucket is locked. -/
  | admitted
  /-- The check has denied it. -/
  | limited (decision : CreationLimitDecision)
  | created (documentId : String)
  | failed

def CreationPhase.isAdmitted : CreationPhase → Bool
  | .admitted => true
  | _ => false

def CreationPhase.isOver : CreationPhase → Bool
  | .limited _ | .created _ | .failed => true
  | _ => false

/-- A `core.document.create` request in its transaction, with the rows that its plain reads see. -/
structure Creation where
  request : CreationRequest
  view : DocumentRows
  phase : CreationPhase := .reading

structure QuotaState where
  clock : Instant := 0
  uploads : UploadState := {}
  creators : Table String String := ∅
  creations : Table ℕ Creation := ∅

namespace QuotaState

variable (s : QuotaState)

/-- The committed rows. -/
def rows : DocumentRows := ⟨s.uploads.db, s.creators⟩

def setCreation (key : ℕ) (creation : Creation) : QuotaState :=
  { s with creations := s.creations.insert key creation }

/-- A creation of the account holds its bucket and has yet to commit its document. -/
def hasAdmitted (userId : String) : Bool :=
  s.creations.any fun _ creation => creation.phase.isAdmitted && creation.request.userId == userId

end QuotaState

/-! ### Steps -/

inductive QuotaAction
  | begin (key : ℕ) (request : CreationRequest)
  /-- The plain reads see the latest commit from here on. -/
  | refresh (key : ℕ)
  | enter (key : ℕ) (now : Instant)
  | check (key : ℕ) (db : RiskDb)
  | commit (key : ℕ) (documentId : String) (ids : DrawnIds) (policy : UploadPolicy) (now : Instant)
  /-- The transaction ends without a document: a missing permission, a name conflict, an error. -/
  | abort (key : ℕ)
  | upload (action : LiveUploads.UploadAction)

/-- The time that the statement is made at. -/
def uploadTime : LiveUploads.UploadAction → Option Instant
  | .createDocument _ _ _ now | .cleanup _ _ now | .query _ _ now | .insert _ _ _ now
  | .reclaim _ _ now | .claim _ _ _ now | .release _ now | .expire _ now => some now
  | .receive .. | .finalize .. | .cancel .. => none

def isCreateDocument : LiveUploads.UploadAction → Bool
  | .createDocument .. => true
  | _ => false

variable (policy : QuotaPolicy)

/-- `check_document_creation_limits` on the view of the creation. -/
def checkCreation (creation : Creation) (db : RiskDb) (now : Instant) : CreationLimitDecision :=
  (checkDocumentCreationLimits policy.risk policy.maxPendingDocumentsPerCreator
    (countPendingDocuments creation.view creation.request.userId now)
    (nearestDeadline creation.view creation.request.userId now) creation.request now db).1

def checkedPhase (decision : CreationLimitDecision) : CreationPhase :=
  if decision.allowed then .admitted else .limited decision

/-- The clock of a step never goes back. -/
def QuotaState.advance (s : QuotaState) (now : Instant) : Option QuotaState :=
  if s.clock ≤ now then some { s with clock := now } else none

def quotaStep (s : QuotaState) : QuotaAction → Option QuotaState
  | .begin key request =>
    if (s.creations.lookup key).isSome then none
    else some (s.setCreation key { request, view := s.rows })
  | .refresh key => do
    let creation ← s.creations.lookup key
    guard (!creation.phase.isAdmitted && !creation.phase.isOver)
    return s.setCreation key { creation with view := s.rows }
  | .enter key now => do
    let creation ← s.creations.lookup key
    match creation.phase with
    | .reading => (s.advance now).map (·.setCreation key { creation with phase := .limiting now })
    | _ => none
  | .check key db => do
    let creation ← s.creations.lookup key
    match creation.phase with
    | .limiting now =>
      -- another creation of the account that has locked the bucket must end first
      guard (!s.hasAdmitted creation.request.userId)
      let phase := checkedPhase (checkCreation policy creation db now)
      return s.setCreation key { creation with phase }
    | _ => none
  | .commit key documentId ids policy now => do
    let creation ← s.creations.lookup key
    guard creation.phase.isAdmitted
    let s ← s.advance now
    let uploads ← LiveUploads.uploadStep s.uploads (.createDocument documentId policy ids now)
    let s := s.setCreation key { creation with phase := .created documentId }
    return { s with uploads, creators := s.creators.insert documentId creation.request.userId }
  | .abort key => do
    let creation ← s.creations.lookup key
    guard (!creation.phase.isOver)
    return s.setCreation key { creation with phase := .failed }
  | .upload action => do
    guard (!isCreateDocument action)
    let s ← s.advance ((uploadTime action).getD s.clock)
    let uploads ← LiveUploads.uploadStep s.uploads action
    return { s with uploads }

/-! ### The condition -/

def viewIsCurrent (s : QuotaState) (creation : Creation) (now : Instant) : Bool :=
  (pendingDocuments s.rows creation.request.userId s.clock).all fun documentId =>
    (pendingDocuments creation.view creation.request.userId now).contains documentId

/-- The quota of the document's creator has room for the document, counting a creation that has
been admitted, unless the document is pending anyway or cannot be pending. -/
def hasRoom (s : QuotaState) (documentId : String) (now : Instant) : Bool :=
  documentHasActiveRevision s.uploads.db documentId || isPending s.uploads.db documentId now ||
    (s.creators.lookup documentId).all fun creatorId =>
      countPendingDocuments s.rows creatorId now + (s.hasAdmitted creatorId).toNat <
        policy.maxPendingDocumentsPerCreator

variable (db : UploadDatabase)

def insertsUpload (request : UploadRequest) : Bool :=
  (parentFailure db request.documentId request.parentRevisionId).isNone &&
    db.documents.contains request.documentId

/-- The condition on a step: a creation counts on a current view, and a request inserts an upload
only where there is room. -/
def keepsQuota (s : QuotaState) : QuotaAction → Bool
  | .check key _ =>
    match s.creations.lookup key with
    | some ⟨request, view, .limiting now⟩ => viewIsCurrent s ⟨request, view, .limiting now⟩ now
    | _ => true
  | .upload (.insert key _ _ now) =>
    (s.uploads.requests.lookup key).all fun request =>
      !insertsUpload s.uploads.db request || hasRoom policy s request.documentId now
  | _ => true

/-! ### Recorded ids -/

/-- The rows that a creation commits. -/
def DocumentRows.addDocument (rows : DocumentRows) (documentId userId : String) (ids : DrawnIds)
    (task : FileTask) : DocumentRows where
  uploads :=
    { rows.uploads.addUpload documentId ids task with
      documents := documentId :: rows.uploads.documents }
  creators := rows.creators.insert documentId userId

structure Recorded (uploads : UploadState) : Prop where
  documents : ∀ documentId ∈ uploads.db.documents, documentId ∈ uploads.drawn
  revisions : ∀ id row, uploads.db.revisions.lookup id = some row →
    id ∈ uploads.drawn ∧ row.documentId ∈ uploads.drawn ∧ row.fileId ∈ uploads.drawn

namespace Recorded

variable {uploads uploads' : UploadState} {docId : String} {ids : DrawnIds} {task : FileTask}
variable {now : Instant}

theorem shrink (h : Recorded uploads) (hdb : Shrinks uploads.db uploads'.db)
    (hdrawn : uploads'.drawn = uploads.drawn) : Recorded uploads' := by
  rw [show uploads' = { uploads' with drawn := uploads.drawn } by rw [← hdrawn]]
  constructor
  · exact fun docId hmem => h.documents docId (hdb.documents docId hmem)
  · exact fun id row hrow => h.revisions id row (hdb.revisions id row hrow)

theorem draw (h : Recorded uploads) (hdb : uploads'.db = uploads.db)
    (hsub : uploads.drawn ⊆ uploads'.drawn) : Recorded uploads' := by
  constructor
  · intro doc hmem
    rw [hdb] at hmem
    exact hsub (h.documents doc hmem)
  · intro id row hrow
    rw [hdb] at hrow
    obtain ⟨hid, hdocument, hfile⟩ := h.revisions id row hrow
    exact ⟨hsub hid, hsub hdocument, hsub hfile⟩

theorem notMem_of_areFresh {drawn : List String} (h : ids.areFresh drawn = true) :
    ids.fileId ∉ drawn ∧ ids.revisionId ∉ drawn ∧ ids.taskId ∉ drawn := by
  simpa only [DrawnIds.areFresh, Bool.and_eq_true, Bool.not_eq_true', contains_eq_mem,
    decide_eq_false_iff_not, and_assoc] using h

theorem subset_record (ids : DrawnIds) (drawn : List String) : drawn ⊆ ids.record drawn := by
  intro id hid
  simp [DrawnIds.record, hid]

variable (h : Recorded uploads)

include h

theorem addUpload (hdocument : docId ∈ uploads.drawn)
    (requests : Table ℕ UploadRequest) :
    Recorded ⟨uploads.db.addUpload docId ids task, requests, ids.record uploads.drawn⟩ := by
  have hsub := subset_record ids uploads.drawn
  constructor
  · exact fun doc hmem => hsub (h.documents doc hmem)
  intro id row hrow
  cases Table.lookup_insert_eq_some hrow with
  | inl hnew =>
    obtain ⟨rfl, rfl⟩ := hnew
    exact ⟨by simp [DrawnIds.record], hsub hdocument, mem_cons_self⟩
  | inr hold =>
    obtain ⟨hid, hdoc, hfile⟩ := h.revisions id row hold.2
    exact ⟨hsub hid, hsub hdoc, hsub hfile⟩

variable (hfresh : ids.areFresh uploads.drawn = true)

include hfresh

theorem active_addUpload
    {doc : String} (hact : documentHasActiveRevision uploads.db doc = true) :
    documentHasActiveRevision (uploads.db.addUpload docId ids task) doc = true := by
  obtain ⟨hnofile, hnorevision, -⟩ := notMem_of_areFresh hfresh
  obtain ⟨id, fileId, file, hrev, hfile, hact⟩ := documentHasActiveRevision_iff.mp hact
  obtain ⟨hid, -, hfileId⟩ := h.revisions id _ hrev
  have hid_ne : id ≠ ids.revisionId := fun heq => hnorevision (heq ▸ hid)
  have hfile_ne : fileId ≠ ids.fileId := fun heq => hnofile (heq ▸ hfileId)
  refine documentHasActiveRevision_iff.mpr ⟨id, fileId, file, ?_, ?_, hact⟩
  · exact (AList.lookup_insert_ne hid_ne).trans hrev
  · exact (AList.lookup_insert_ne hfile_ne).trans hfile

theorem isPending_addUpload
    {doc : String} (hne : doc ≠ docId)
    (hpend : isPending (uploads.db.addUpload docId ids task) doc now = true) :
    isPending uploads.db doc now = true := by
  rw [isPending, Bool.and_eq_true, Bool.not_eq_true'] at hpend ⊢
  obtain ⟨hinact, hlive⟩ := hpend
  constructor
  · by_contra hact
    rw [Bool.not_eq_false] at hact
    rw [h.active_addUpload hfresh hact] at hinact
    cases hinact
  · obtain ⟨hnofile, -, -⟩ := notMem_of_areFresh hfresh
    obtain ⟨id, row, hrow, hmode, hact, hrev, hdue⟩ := hasLiveUpload_iff.mp hlive
    obtain ⟨revId, hrrow⟩ := hasRevision_iff.mp hrev
    have hold : uploads.db.revisions.lookup revId = some ⟨doc, row.fileId⟩ := by
      cases Table.lookup_insert_eq_some hrrow with
      | inl hnew => exact absurd (RevisionRow.mk.inj hnew.2).1 hne
      | inr hold => exact hold.2
    cases Table.lookup_insert_eq_some hrow with
    | inl hnew =>
      obtain ⟨-, rfl⟩ := hnew
      exact absurd (h.revisions revId _ hold).2.2 hnofile
    | inr hkeep =>
      exact hasLiveUpload_iff.mpr
        ⟨id, row, hkeep.2, hmode, hact, hasRevision_iff.mpr ⟨revId, hold⟩, hdue⟩

theorem mem_pendingDocuments_addDocument {creators : Table String String} {doc userId creatorId}
    (hmem : doc ∈ pendingDocuments
      (DocumentRows.addDocument ⟨uploads.db, creators⟩ docId userId ids task) creatorId now) :
    (doc = docId ∧ creatorId = userId) ∨
      doc ∈ pendingDocuments ⟨uploads.db, creators⟩ creatorId now := by
  obtain ⟨hdocument, hcreator, hpend⟩ := mem_pendingDocuments.mp hmem
  by_cases heq : doc = docId
  · subst heq
    rw [DocumentRows.addDocument, AList.lookup_insert, Option.some.injEq] at hcreator
    exact .inl ⟨rfl, hcreator.symm⟩
  · refine .inr (mem_pendingDocuments.mpr ⟨?_, ?_, ?_⟩)
    · exact (mem_cons.mp hdocument).resolve_left heq
    · exact (AList.lookup_insert_ne heq).symm.trans hcreator
    · exact h.isPending_addUpload hfresh heq hpend

omit hfresh

theorem createDocument (requests : Table ℕ UploadRequest) :
    Recorded
      ⟨{ uploads.db.addUpload docId ids task with
          documents := docId :: uploads.db.documents },
        requests, ids.record (docId :: uploads.drawn)⟩ := by
  have hdraw : Recorded { uploads with drawn := docId :: uploads.drawn } :=
    h.draw rfl (subset_cons_self docId uploads.drawn)
  have hadd : Recorded ⟨uploads.db.addUpload docId ids task, requests,
      ids.record (docId :: uploads.drawn)⟩ := hdraw.addUpload mem_cons_self requests
  constructor
  · intro doc hmem
    cases mem_cons.mp hmem with
    | inl heq =>
      rw [heq]
      exact subset_record ids _ mem_cons_self
    | inr hold => exact hadd.documents doc hold
  · exact hadd.revisions

end Recorded

/-! ### Actions on uploads -/

section

variable {uploads uploads' : UploadState} {now : Instant}

/-- What an action on uploads does to the rows when it does not insert one. -/
structure Subsides (now now' : Instant) (uploads uploads' : UploadState) : Prop where
  shrinks : Shrinks uploads.db uploads'.db
  withdraws : Withdraws now now' uploads.db uploads'.db
  drawn : uploads'.drawn = uploads.drawn

theorem Subsides.updateTask {now' : Instant} (uploads : UploadState) (taskId : String)
    {f : FileTask → FileTask} (hle : now ≤ now') (hf : ∀ task, FadesBy now now' task (f task)) :
    Subsides now now' uploads { uploads with db := uploads.db.updateTask taskId f } where
  shrinks := .updateTask fun row _ => (hf row.task).toFades
  withdraws := .updateTask hle fun row _ => hf row.task
  drawn := rfl

theorem subsides_uploadStep {action : LiveUploads.UploadAction}
    (hcreate : isCreateDocument action = false)
    (hins : ∀ key policy ids time, action ≠ .insert key policy ids time)
    (hle : now ≤ (uploadTime action).getD now)
    (hstep : LiveUploads.uploadStep uploads action = some uploads') :
    Subsides now ((uploadTime action).getD now) uploads uploads' := by
  cases action with
  | createDocument => cases hcreate
  | insert key policy ids time => exact absurd rfl (hins key policy ids time)
  | receive key docId parentRevisionId =>
    simp only [LiveUploads.uploadStep, Option.bind_eq_bind, Option.bind_eq_some_iff, Option.pure_def,
      Option.some.injEq] at hstep
    obtain ⟨requests, -, rfl⟩ := hstep
    exact ⟨.refl _, .refl now _, rfl⟩
  | cleanup key succeeds time =>
    simp only [LiveUploads.uploadStep, Option.bind_eq_bind, Option.bind_eq_some_iff, Option.pure_def,
      Option.some.injEq] at hstep
    obtain ⟨request, -, -, -, rfl⟩ := hstep
    cases succeeds with
    | true => exact ⟨shrinks_reclaimAbandonedUploads _ _ _ _, .reclaimAbandonedUploads hle _ _ _, rfl⟩
    | false => exact ⟨.refl _, .advance hle _, rfl⟩
  | query key mayWrite time =>
    simp only [LiveUploads.uploadStep, Option.bind_eq_bind, Option.bind_eq_some_iff, Option.pure_def,
      Option.some.injEq] at hstep
    obtain ⟨request, -, -, -, rfl⟩ := hstep
    exact ⟨shrinks_queryUpload, .queryUpload hle _ _ _, rfl⟩
  | reclaim scope limit time =>
    cases hstep
    exact ⟨shrinks_reclaimAbandonedUploads _ _ _ _, .reclaimAbandonedUploads hle _ _ _, rfl⟩
  | claim taskId mode policy time =>
    cases hstep
    exact .updateTask uploads taskId hle fun task => fadesBy_claim task hle policy {} mode
  | release taskId time =>
    cases hstep
    exact .updateTask uploads taskId hle fun task => fadesBy_release task hle
  | finalize taskId sha256 size =>
    simp only [LiveUploads.uploadStep, Option.bind_eq_bind, Option.bind_eq_some_iff, Option.pure_def,
      Option.some.injEq] at hstep
    obtain ⟨db, hdb, rfl⟩ := hstep
    exact ⟨shrinks_finalizeUpload hdb, .finalizeUpload hdb, rfl⟩
  | expire taskId time =>
    cases hstep
    exact .updateTask uploads taskId hle fun task => fadesBy_expire task hle
  | cancel taskId =>
    cases hstep
    exact .updateTask uploads taskId le_rfl fun task => fadesBy_cancel task

theorem insertUpload_rows (request : UploadRequest) (policy : UploadPolicy) (ids : DrawnIds)
    (now : Instant) :
    (insertUpload db request policy ids now).2 = db ∨ insertsUpload db request = true ∧
      (insertUpload db request policy ids now).2 =
        db.addUpload request.documentId ids (createUploadTask policy now) := by
  unfold insertUpload insertsUpload
  cases parentFailure db request.documentId request.parentRevisionId with
  | some response => exact .inl rfl
  | none =>
    cases db.documents.contains request.documentId with
    | false => exact .inl rfl
    | true => exact .inr ⟨rfl, rfl⟩

theorem uploadStep_insert {key : ℕ} {policy : UploadPolicy} {ids : DrawnIds}
    (hstep : LiveUploads.uploadStep uploads (.insert key policy ids now) = some uploads') :
    ∃ request, uploads.requests.lookup key = some request ∧ ids.areFresh uploads.drawn = true ∧
      uploads'.drawn = ids.record uploads.drawn ∧
        (uploads'.db = uploads.db ∨ insertsUpload uploads.db request = true ∧
          uploads'.db =
            uploads.db.addUpload request.documentId ids (createUploadTask policy now)) := by
  simp only [LiveUploads.uploadStep, Option.bind_eq_bind, Option.bind_eq_some_iff] at hstep
  obtain ⟨request, hreq, hstep⟩ := hstep
  split at hstep
  · simp only [Option.bind_eq_some_iff, Option.pure_def, Option.some.injEq,
      Option.guard_eq_some'] at hstep
    obtain ⟨-, hfresh, rfl⟩ := hstep
    refine ⟨request, hreq, hfresh, rfl, ?_⟩
    exact insertUpload_rows uploads.db request policy ids now
  · cases hstep

end

/-! ### The invariant -/

/-- Every account is within its quota, counting the document of a creation that has been admitted,
and the bucket of an account is locked by one creation at most. -/
structure WithinQuota (s : QuotaState) : Prop where
  documents : s.uploads.db.documents.Nodup
  recorded : Recorded s.uploads
  exclusive : ∀ key key' creation creation', s.creations.lookup key = some creation →
    s.creations.lookup key' = some creation' → creation.phase.isAdmitted = true →
      creation'.phase.isAdmitted = true → creation.request.userId = creation'.request.userId →
        key = key'
  within : ∀ creatorId, countPendingDocuments s.rows creatorId s.clock +
    (s.hasAdmitted creatorId).toNat ≤ policy.maxPendingDocumentsPerCreator

theorem hasAdmitted_iff {s : QuotaState} {userId : String} :
    s.hasAdmitted userId = true ↔ ∃ key creation, s.creations.lookup key = some creation ∧
      creation.phase.isAdmitted = true ∧ creation.request.userId = userId := by
  simp only [QuotaState.hasAdmitted, Table.any_iff, Bool.and_eq_true, beq_iff_eq]

theorem countPendingDocuments_le {rows rows' : DocumentRows} {creatorId : String}
    {now now' : Instant} (extra : List String) (hnodup : rows'.uploads.documents.Nodup)
    (hsub : pendingDocuments rows' creatorId now' ⊆ extra ++ pendingDocuments rows creatorId now) :
    countPendingDocuments rows' creatorId now' ≤
      extra.length + countPendingDocuments rows creatorId now := by
  have hpend := pendingDocuments_nodup hnodup creatorId now'
  have hle := (subperm_of_subset hpend hsub).length_le
  rwa [length_append] at hle

theorem advance_eq_some {s s' : QuotaState} {now : Instant} (h : s.advance now = some s') :
    s.clock ≤ now ∧ s' = { s with clock := now } := by
  rw [QuotaState.advance] at h
  split at h
  · rename_i hle
    exact ⟨hle, (Option.some.inj h).symm⟩
  · cases h

namespace WithinQuota

variable {policy : QuotaPolicy} {s s' : QuotaState} {key : ℕ} {creation : Creation}

theorem mono (h : WithinQuota policy s) (hdocs : s'.uploads.db.documents.Nodup)
    (hrec : Recorded s'.uploads)
    (hcreations : ∀ key creation, s'.creations.lookup key = some creation →
      creation.phase.isAdmitted = true → s.creations.lookup key = some creation)
    (hpend : ∀ creatorId, pendingDocuments s'.rows creatorId s'.clock ⊆
      pendingDocuments s.rows creatorId s.clock) : WithinQuota policy s' where
  documents := hdocs
  recorded := hrec
  exclusive key key' creation creation' hkey hkey' hadm hadm' :=
    h.exclusive key key' creation creation' (hcreations key creation hkey hadm)
      (hcreations key' creation' hkey' hadm') hadm hadm'
  within creatorId := by
    have hcount := countPendingDocuments_le [] hdocs (hpend creatorId)
    have hadm : (s'.hasAdmitted creatorId).toNat ≤ (s.hasAdmitted creatorId).toNat := by
      apply Bool.toNat_le_toNat
      intro hadm
      obtain ⟨key, creation, hkey, hphase, huser⟩ := hasAdmitted_iff.mp hadm
      exact hasAdmitted_iff.mpr ⟨key, creation, hcreations key creation hkey hphase, hphase, huser⟩
    have hwithin := h.within creatorId
    simp only [length_nil] at hcount
    omega

theorem lookup_setCreation {other : ℕ} {found : Creation}
    (hphase : creation.phase.isAdmitted = false)
    (hfound : (s.setCreation key creation).creations.lookup other = some found)
    (hadm : found.phase.isAdmitted = true) : s.creations.lookup other = some found := by
  cases Table.lookup_insert_eq_some hfound with
  | inl hnew =>
    obtain ⟨-, rfl⟩ := hnew
    rw [hphase] at hadm
    cases hadm
  | inr hold => exact hold.2

theorem setCreation (h : WithinQuota policy s) {now : Instant} (hle : s.clock ≤ now)
    (hphase : creation.phase.isAdmitted = false) :
    WithinQuota policy ({ s with clock := now }.setCreation key creation) := by
  refine h.mono ?_ ?_ ?_ ?_
  · exact h.documents
  · exact h.recorded
  · exact fun other found hfound hadm => lookup_setCreation hphase hfound hadm
  · exact (Withdraws.advance hle s.uploads.db).pendingDocuments_subset s.creators

theorem allow (h : WithinQuota policy s) {now : Instant} {db : RiskDb} {phase : CreationPhase}
    (hfree : s.hasAdmitted creation.request.userId = false)
    (hcur : viewIsCurrent s creation now = true)
    (hallow : (checkCreation policy creation db now).allowed = true) :
    WithinQuota policy (s.setCreation key { creation with phase }) := by
  have hbelow : countPendingDocuments creation.view creation.request.userId now <
      policy.maxPendingDocumentsPerCreator := (checkDocumentCreationLimits_allowed.mp hallow).1
  have hcount : countPendingDocuments s.rows creation.request.userId s.clock ≤
      countPendingDocuments creation.view creation.request.userId now := by
    have hsub : pendingDocuments s.rows creation.request.userId s.clock ⊆
        [] ++ pendingDocuments creation.view creation.request.userId now := by
      simp only [viewIsCurrent, all_eq_true, contains_eq_mem, decide_eq_true_eq] at hcur
      exact hcur
    simpa using countPendingDocuments_le [] h.documents hsub
  have hother : ∀ other found, s.creations.lookup other = some found →
      found.phase.isAdmitted = true → found.request.userId ≠ creation.request.userId := by
    intro other found hfound hadm huser
    rw [hasAdmitted_iff.mpr ⟨other, found, hfound, hadm, huser⟩] at hfree
    cases hfree
  refine ⟨h.documents, h.recorded, ?_, ?_⟩
  · intro one two first second hone htwo hfirst hsnd huser
    cases Table.lookup_insert_eq_some hone with
    | inl hnew =>
      obtain ⟨rfl, rfl⟩ := hnew
      cases Table.lookup_insert_eq_some htwo with
      | inl hnew' => exact hnew'.1.symm
      | inr hold' => exact absurd huser.symm (hother two second hold'.2 hsnd)
    | inr hold =>
      cases Table.lookup_insert_eq_some htwo with
      | inl hnew' =>
        obtain ⟨-, rfl⟩ := hnew'
        exact absurd huser (hother one first hold.2 hfirst)
      | inr hold' => exact h.exclusive one two first second hold.2 hold'.2 hfirst hsnd huser
  · intro creatorId
    by_cases hcreator : creatorId = creation.request.userId
    · have hone := Bool.toNat_le ((s.setCreation key { creation with phase }).hasAdmitted creatorId)
      show countPendingDocuments s.rows creatorId s.clock + _ ≤ _
      rw [hcreator] at hone ⊢
      omega
    · refine le_trans (Nat.add_le_add_left (Bool.toNat_le_toNat ?_) _) (h.within creatorId)
      intro hadm
      obtain ⟨other, found, hfound, hphase, huser⟩ := hasAdmitted_iff.mp hadm
      cases Table.lookup_insert_eq_some hfound with
      | inl hnew =>
        obtain ⟨-, rfl⟩ := hnew
        exact absurd huser.symm hcreator
      | inr hold => exact hasAdmitted_iff.mpr ⟨other, found, hold.2, hphase, huser⟩

theorem subside (h : WithinQuota policy s) {now : Instant} {uploads : UploadState}
    (hsubsides : Subsides s.clock now s.uploads uploads) :
    WithinQuota policy { s with clock := now, uploads } := by
  refine h.mono ?_ ?_ ?_ ?_
  · exact hsubsides.withdraws.documents.nodup h.documents
  · exact h.recorded.shrink hsubsides.shrinks hsubsides.drawn
  · exact fun _ _ hcreat _ => hcreat
  · exact hsubsides.withdraws.pendingDocuments_subset s.creators

section

variable {now : Instant} {docId : String} {ids : DrawnIds} {task : FileTask}

variable (h : WithinQuota policy s)

include h

theorem pendingDocuments_addUpload
    (hfresh : ids.areFresh s.uploads.drawn = true) (creatorId : String) :
    pendingDocuments ⟨s.uploads.db.addUpload docId ids task, s.creators⟩ creatorId now ⊆
      docId :: pendingDocuments s.rows creatorId now := by
  intro doc hmem
  obtain ⟨hdocument, hcreator, hpend⟩ := mem_pendingDocuments.mp hmem
  by_cases heq : doc = docId
  · rw [heq]
    exact mem_cons_self
  · have hold := h.recorded.isPending_addUpload hfresh heq hpend
    exact mem_cons_of_mem _ (mem_pendingDocuments.mpr ⟨hdocument, hcreator, hold⟩)

theorem pendingDocuments_addUpload_subset
    (hfresh : ids.areFresh s.uploads.drawn = true) {creatorId : String}
    (hsame : documentHasActiveRevision s.uploads.db docId = true ∨
      isPending s.uploads.db docId now = true ∨ s.creators.lookup docId ≠ some creatorId) :
    pendingDocuments ⟨s.uploads.db.addUpload docId ids task, s.creators⟩ creatorId now ⊆
      pendingDocuments s.rows creatorId now := by
  intro doc hmem
  obtain ⟨hdocument, hcreator, hpend⟩ := mem_pendingDocuments.mp hmem
  cases mem_cons.mp (h.pendingDocuments_addUpload hfresh creatorId hmem) with
  | inr hold => exact hold
  | inl heq =>
    subst heq
    rcases hsame with hact | hpendingBefore | hother
    · have hkeeps : documentHasActiveRevision (s.uploads.db.addUpload doc ids task) doc =
          true := h.recorded.active_addUpload hfresh hact
      rw [isPending, hkeeps] at hpend
      cases hpend
    · exact mem_pendingDocuments.mpr ⟨hdocument, hcreator, hpendingBefore⟩
    · exact absurd hcreator hother

theorem insert (hle : s.clock ≤ now)
    (hfresh : ids.areFresh s.uploads.drawn = true) (hdocument : docId ∈ s.uploads.db.documents)
    (hroom : hasRoom policy s docId now = true) (requests : Table ℕ UploadRequest) :
    WithinQuota policy
      { s with
        clock := now
        uploads := ⟨s.uploads.db.addUpload docId ids task, requests,
          ids.record s.uploads.drawn⟩ } := by
  have hearlier : ∀ creatorId, pendingDocuments s.rows creatorId now ⊆
      pendingDocuments s.rows creatorId s.clock :=
    (Withdraws.advance hle s.uploads.db).pendingDocuments_subset s.creators
  refine ⟨h.documents, h.recorded.addUpload (h.recorded.documents _ hdocument) requests,
    h.exclusive, ?_⟩
  intro creatorId
  show countPendingDocuments ⟨s.uploads.db.addUpload docId ids task, s.creators⟩ creatorId now +
    (s.hasAdmitted creatorId).toNat ≤ _
  by_cases hsame : documentHasActiveRevision s.uploads.db docId = true ∨
      isPending s.uploads.db docId now = true ∨ s.creators.lookup docId ≠ some creatorId
  · have hsub : pendingDocuments ⟨s.uploads.db.addUpload docId ids task, s.creators⟩ creatorId
        now ⊆ pendingDocuments s.rows creatorId s.clock :=
      List.Subset.trans (h.pendingDocuments_addUpload_subset hfresh hsame) (hearlier creatorId)
    have hcount := countPendingDocuments_le [] h.documents hsub
    have hwithin := h.within creatorId
    simp only [length_nil] at hcount
    omega
  · -- the doc comes to be pending for this creator, whose quota has room
    rw [not_or, not_or, not_not] at hsame
    obtain ⟨hinact, hnotPending, hcreator⟩ := hsame
    simp only [hasRoom, hinact, hnotPending, hcreator, Bool.false_or, Option.all_some,
      decide_eq_true_eq] at hroom
    have hsub : pendingDocuments ⟨s.uploads.db.addUpload docId ids task, s.creators⟩ creatorId
        now ⊆ [docId] ++ pendingDocuments s.rows creatorId now :=
      h.pendingDocuments_addUpload hfresh creatorId
    have hcount := countPendingDocuments_le [docId] h.documents hsub
    simp only [length_singleton] at hcount
    omega

theorem commit (hle : s.clock ≤ now)
    (hcreat : s.creations.lookup key = some creation)
    (hadm : creation.phase.isAdmitted = true) (hnew : docId ∉ s.uploads.drawn)
    (hfresh : ids.areFresh (docId :: s.uploads.drawn) = true) {phase : CreationPhase}
    (hphase : phase.isAdmitted = false) :
    WithinQuota policy
      { clock := now
        uploads := ⟨{ s.uploads.db.addUpload docId ids task with
            documents := docId :: s.uploads.db.documents },
          s.uploads.requests, ids.record (docId :: s.uploads.drawn)⟩
        creators := s.creators.insert docId creation.request.userId
        creations := s.creations.insert key { creation with phase } } := by
  have hfreshOld : ids.areFresh s.uploads.drawn = true := by
    simp only [DrawnIds.areFresh, contains_cons, Bool.and_eq_true, Bool.not_eq_true',
      Bool.or_eq_false_iff] at hfresh ⊢
    exact ⟨⟨hfresh.1.1.2, hfresh.1.2.2⟩, hfresh.2.2⟩
  have hadmits : ∀ other found, (s.creations.insert key { creation with phase }).lookup other =
      some found → found.phase.isAdmitted = true →
        other ≠ key ∧ s.creations.lookup other = some found := by
    intro other found hfound hfoundAdmitted
    cases Table.lookup_insert_eq_some hfound with
    | inl hsame =>
      obtain ⟨-, rfl⟩ := hsame
      exact absurd (hphase.symm.trans hfoundAdmitted) Bool.false_ne_true
    | inr hold => exact hold
  have hnodup : (docId :: s.uploads.db.documents).Nodup :=
    nodup_cons.mpr ⟨fun hmem => hnew (h.recorded.documents _ hmem), h.documents⟩
  refine ⟨hnodup, h.recorded.createDocument _, ?_, ?_⟩
  · intro one two first second hone htwo hfirst hsnd huser
    exact h.exclusive one two first second (hadmits one first hone hfirst).2
      (hadmits two second htwo hsnd).2 hfirst hsnd huser
  · intro creatorId
    have hearlier : pendingDocuments s.rows creatorId now ⊆
        pendingDocuments s.rows creatorId s.clock :=
      (Withdraws.advance hle s.uploads.db).pendingDocuments_subset s.creators creatorId
    have hwithin := h.within creatorId
    have hmem : ∀ doc ∈ pendingDocuments (s.rows.addDocument docId
        creation.request.userId ids task) creatorId now,
        (doc = docId ∧ creatorId = creation.request.userId) ∨
          doc ∈ pendingDocuments s.rows creatorId s.clock := by
      intro doc hmem
      exact (h.recorded.mem_pendingDocuments_addDocument hfreshOld hmem).imp_right fun h => hearlier h
    show countPendingDocuments (s.rows.addDocument docId creation.request.userId ids task)
      creatorId now + _ ≤ _
    by_cases hcreator : creatorId = creation.request.userId
    · -- the account's bucket is not locked any more, and its last place is taken
      have hheld : s.hasAdmitted creatorId = true :=
        hasAdmitted_iff.mpr ⟨key, creation, hcreat, hadm, hcreator.symm⟩
      have hsub : pendingDocuments (s.rows.addDocument docId creation.request.userId ids task)
          creatorId now ⊆ [docId] ++ pendingDocuments s.rows creatorId s.clock := by
        intro doc hdocument
        cases hmem doc hdocument with
        | inl hsame => exact mem_cons.mpr (.inl hsame.1)
        | inr hold => exact mem_cons_of_mem _ hold
      have hcount := countPendingDocuments_le [docId] hnodup hsub
      have hfree : ∀ s' : QuotaState, s'.creations =
          s.creations.insert key { creation with phase } → s'.hasAdmitted creatorId = false := by
        intro s' hs'
        rw [← Bool.not_eq_true, hasAdmitted_iff, hs']
        rintro ⟨other, found, hfound, hfoundAdmitted, huser⟩
        obtain ⟨hne, hfound⟩ := hadmits other found hfound hfoundAdmitted
        exact hne (h.exclusive other key found creation hfound hcreat hfoundAdmitted hadm
          (huser.trans hcreator))
      rw [hfree _ rfl]
      rw [hheld] at hwithin
      simp only [length_singleton, Bool.toNat_true, Bool.toNat_false] at hcount hwithin ⊢
      omega
    · have hsub : pendingDocuments (s.rows.addDocument docId creation.request.userId ids task)
          creatorId now ⊆ pendingDocuments s.rows creatorId s.clock :=
        fun doc hdocument => (hmem doc hdocument).resolve_left fun hsame => hcreator hsame.2
      have hcount := countPendingDocuments_le [] hnodup hsub
      have hkeeps : ∀ s' : QuotaState, s'.creations =
          s.creations.insert key { creation with phase } →
            (s'.hasAdmitted creatorId).toNat ≤ (s.hasAdmitted creatorId).toNat := by
        intro s' hs'
        apply Bool.toNat_le_toNat
        rw [Bool.le_iff_imp, hasAdmitted_iff, hasAdmitted_iff, hs']
        rintro ⟨other, found, hfound, hfoundAdmitted, huser⟩
        exact ⟨other, found, (hadmits other found hfound hfoundAdmitted).2, hfoundAdmitted, huser⟩
      refine le_trans (Nat.add_le_add ?_ (hkeeps _ rfl)) hwithin
      simpa only [length_nil, Nat.zero_add] using hcount

omit h

end

/-- **One step.** -/
theorem step {action : QuotaAction} (h : WithinQuota policy s)
    (hkeeps : keepsQuota policy s action = true) (hstep : quotaStep policy s action = some s') :
    WithinQuota policy s' := by
  cases action with
  | begin key request =>
    rw [quotaStep] at hstep
    split at hstep
    · cases hstep
    · cases hstep
      exact h.setCreation le_rfl rfl
  | refresh key =>
    simp only [quotaStep, Option.bind_eq_bind, Option.bind_eq_some_iff, Option.guard_eq_some',
      Option.pure_def, Option.some.injEq, Bool.and_eq_true, Bool.not_eq_true'] at hstep
    obtain ⟨creation, -, -, hphase, rfl⟩ := hstep
    exact h.setCreation le_rfl hphase.1
  | enter key now =>
    simp only [quotaStep, Option.bind_eq_bind, Option.bind_eq_some_iff] at hstep
    obtain ⟨creation, -, hstep⟩ := hstep
    split at hstep
    · obtain ⟨advanced, hadv, rfl⟩ := Option.map_eq_some_iff.mp hstep
      obtain ⟨hle, rfl⟩ := advance_eq_some hadv
      exact h.setCreation hle rfl
    · cases hstep
  | check key db =>
    simp only [quotaStep, Option.bind_eq_bind, Option.bind_eq_some_iff] at hstep
    obtain ⟨⟨request, view, phase⟩, hcreat, hstep⟩ := hstep
    split at hstep
    · rename_i now hphase
      obtain rfl : phase = .limiting now := hphase
      simp only [Option.bind_eq_some_iff, Option.guard_eq_some', Option.pure_def,
        Option.some.injEq, Bool.not_eq_true'] at hstep
      obtain ⟨-, hfree, rfl⟩ := hstep
      rw [keepsQuota, hcreat] at hkeeps
      unfold checkedPhase
      split
      · rename_i hallow
        exact h.allow hfree hkeeps hallow
      · exact h.setCreation le_rfl rfl
    · cases hstep
  | commit key docId ids uploadPolicy now =>
    simp only [quotaStep, Option.bind_eq_bind, Option.bind_eq_some_iff, Option.guard_eq_some',
      Option.pure_def, Option.some.injEq] at hstep
    obtain ⟨creation, hcreat, -, hadm, advanced, hadv, uploads, huplo, rfl⟩ := hstep
    obtain ⟨hle, rfl⟩ := advance_eq_some hadv
    simp only [LiveUploads.uploadStep] at huplo
    split at huplo
    · cases huplo
    rename_i hguard
    cases huplo
    simp only [Bool.or_eq_true, Bool.not_eq_true', not_or, contains_eq_mem,
      decide_eq_true_eq, Bool.not_eq_false] at hguard
    exact h.commit hle hcreat hadm hguard.1 hguard.2 rfl
  | abort key =>
    simp only [quotaStep, Option.bind_eq_bind, Option.bind_eq_some_iff,
      Option.pure_def, Option.some.injEq] at hstep
    obtain ⟨creation, -, -, -, rfl⟩ := hstep
    exact h.setCreation le_rfl rfl
  | upload action =>
    simp only [quotaStep, Option.bind_eq_bind, Option.bind_eq_some_iff, Option.guard_eq_some',
      Option.pure_def, Option.some.injEq, Bool.not_eq_true'] at hstep
    obtain ⟨-, hcreate, advanced, hadv, uploads, huplo, rfl⟩ := hstep
    obtain ⟨hle, rfl⟩ := advance_eq_some hadv
    by_cases hins : ∃ key policy ids time, action = .insert key policy ids time
    · obtain ⟨key, uploadPolicy, ids, now, rfl⟩ := hins
      obtain ⟨request, hreq, hfresh, hdrawn, hrows⟩ := uploadStep_insert huplo
      rw [keepsQuota, hreq, Option.all_some, Bool.or_eq_true] at hkeeps
      cases hrows with
      | inl hsame =>
        have hrec : Recorded uploads := by
          apply h.recorded.draw hsame
          rw [hdrawn]
          exact Recorded.subset_record ids _
        refine h.mono ?_ hrec (fun _ _ hcreat _ => hcreat) ?_
        · show uploads.db.documents.Nodup
          rw [hsame]
          exact h.documents
        · show ∀ creatorId, pendingDocuments ⟨uploads.db, s.creators⟩ creatorId now ⊆ _
          rw [hsame]
          exact (Withdraws.advance hle s.uploads.db).pendingDocuments_subset s.creators
      | inr hadds =>
        obtain ⟨hinserts, hdb⟩ := hadds
        have hroom := hkeeps.resolve_left (by simp [hinserts])
        have hdocument : request.documentId ∈ s.uploads.db.documents := by
          rw [insertsUpload, Bool.and_eq_true] at hinserts
          exact contains_iff_mem.mp hinserts.2
        obtain ⟨db, requests, drawn⟩ := uploads
        obtain rfl : db = _ := hdb
        obtain rfl : drawn = _ := hdrawn
        exact h.insert hle hfresh hdocument hroom requests
    · simp only [not_exists] at hins
      exact h.subside (subsides_uploadStep hcreate hins hle huplo)

theorem initial (policy : QuotaPolicy) : WithinQuota policy {} := by
  refine ⟨nodup_nil, ⟨nofun, ?_⟩, ?_, ?_⟩
  · intro id row hrow
    exact absurd hrow Table.lookup_empty_ne_some
  · intro key key' creation creation' hcreat
    exact absurd hcreat Table.lookup_empty_ne_some
  · intro creatorId
    exact Nat.zero_le _

end WithinQuota

/-! ### Whole runs -/

/-- **An account has no more pending documents than its quota allows**, in every run in which
creations count on current views and uploads are inserted only where there is room. -/
theorem pending_documents_within_quota {policy : QuotaPolicy} {actions : List QuotaAction}
    {s : QuotaState}
    (hmeets : Meets (quotaStep policy) (fun s a => keepsQuota policy s a = true) {} actions)
    (hrun : run (quotaStep policy) {} actions = some s) (creatorId : String) :
    countPendingDocuments s.rows creatorId s.clock ≤ policy.maxPendingDocumentsPerCreator := by
  have hwithin : WithinQuota policy s :=
    run_invariant (fun _ _ _ h hkeeps hstep => h.step hkeeps hstep) (.initial policy) hmeets hrun
  have hcount := hwithin.within creatorId
  omega

section

/-- A creation from its first read to its commit. -/
def createAlone (key : ℕ) (documentId : String) (ids : DrawnIds) (now : Instant) :
    List QuotaAction :=
  [.begin key ⟨"alice", "10.0.0.1", true, none⟩, .enter key now, .check key {},
    .commit key documentId ids ⟨3600, 86400⟩ now]

def onePending : QuotaPolicy where maxPendingDocumentsPerCreator := 1

/-- The upload of the first document is cancelled before the second document is created. -/
def createAfterCancel : List QuotaAction :=
  createAlone 1 "report" ⟨"file-1", "revision-1", "task-1"⟩ 10 ++
    [.upload (.cancel "task-1")] ++ createAlone 2 "notes" ⟨"file-2", "revision-2", "task-2"⟩ 20

/-- Then an upload of the first document is requested. -/
def uploadAgain : List QuotaAction :=
  [.upload (.receive 3 "report" none), .upload (.cleanup 3 true 30), .upload (.query 3 true 30),
    .upload (.insert 3 ⟨3600, 86400⟩ ⟨"file-3", "revision-3", "task-3"⟩ 30)]

/-- Without the request the account stays within its quota. -/
theorem created_after_cancel_within_quota :
    Meets (quotaStep onePending) (fun s a => keepsQuota onePending s a = true) {}
        createAfterCancel ∧
      run (quotaStep onePending) {} createAfterCancel =
        some ((run (quotaStep onePending) {} createAfterCancel).getD {}) ∧
      countPendingDocuments ((run (quotaStep onePending) {} createAfterCancel).getD {}).rows "alice"
        ((run (quotaStep onePending) {} createAfterCancel).getD {}).clock ≤ 1 := by
  have hmeets : Meets (quotaStep onePending) (fun s a => keepsQuota onePending s a = true) {}
      createAfterCancel := meets_of_meetsBool (by decide +kernel)
  have hrun : run (quotaStep onePending) {} createAfterCancel =
      some ((run (quotaStep onePending) {} createAfterCancel).getD {}) :=
    run_eq_some_getD ({} : QuotaState) (by decide +kernel)
  exact ⟨hmeets, hrun, pending_documents_within_quota hmeets hrun "alice"⟩

/-- With it the account has two pending documents. -/
theorem upload_after_cancel_exceeds_quota :
    ¬ ∀ policy actions s, run (quotaStep policy) {} actions = some s → ∀ creatorId,
      countPendingDocuments s.rows creatorId s.clock ≤ policy.maxPendingDocumentsPerCreator := by
  intro h
  have hrun : run (quotaStep onePending) {} (createAfterCancel ++ uploadAgain) =
      some ((run (quotaStep onePending) {} (createAfterCancel ++ uploadAgain)).getD {}) :=
    run_eq_some_getD ({} : QuotaState) (by decide +kernel)
  have htwo : countPendingDocuments
      ((run (quotaStep onePending) {} (createAfterCancel ++ uploadAgain)).getD {}).rows "alice"
      ((run (quotaStep onePending) {} (createAfterCancel ++ uploadAgain)).getD {}).clock = 2 := by
    decide +kernel
  have hone := h _ _ _ hrun "alice"
  rw [htwo] at hone
  exact absurd hone (by decide)

/-- Two creations of the account, the second of which has made its first read before the first one
commits. -/
def createOverlapping : List QuotaAction :=
  [.begin 2 ⟨"alice", "10.0.0.1", true, none⟩] ++
    createAlone 1 "report" ⟨"file-1", "revision-1", "task-1"⟩ 10 ++
    [.enter 2 20, .check 2 {}, .commit 2 "notes" ⟨"file-2", "revision-2", "task-2"⟩ ⟨3600, 86400⟩ 20]

example : countPendingDocuments
    ((run (quotaStep onePending) {} createOverlapping).getD {}).rows "alice" 20 = 2 := by
  decide +kernel

end

end Cfms.Documents
