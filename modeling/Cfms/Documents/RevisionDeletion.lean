import Cfms.Documents.BulkPurge
import Cfms.Documents.Handlers

/-!
# Deleting a revision

`core.document.delete_revision` takes a revision out of the tree of revisions: its children are
connected to its parent, the transfers of its file are cancelled when nothing else uses the file,
and the revision goes, with the file if no row refers to it any more.

The loop that connects the children assigns `child.parent_revision` while it iterates over
`revision.child_revisions`, and each assignment takes the child out of that collection.  So the
loop passes over every second child (`connectChildren_eq`); the foreign key of those becomes null
when the revision is deleted.
-/

namespace Cfms.Documents

open Access Lib Lib.Chunks List Function
open Files (FileTask FileTaskStatus expireFileTaskIfDue)

/-! ### Iterating over a shrinking collection -/

section

variable {α : Type*}

/-- The elements at even positions. -/
def everyOther : List α → List α
  | [] => []
  | [a] => [a]
  | a :: _ :: rest => a :: everyOther rest

theorem mem_of_mem_everyOther {l : List α} {a : α} (h : a ∈ everyOther l) : a ∈ l := by
  induction l using everyOther.induct with
  | case1 => exact h
  | case2 b => exact h
  | case3 b c rest ih =>
    rw [everyOther, mem_cons] at h
    rcases h with rfl | h
    · exact mem_cons_self
    · exact mem_cons_of_mem _ (mem_cons_of_mem _ (ih h))

end

/-- `for child in children: child.parent = parent`, where the assignment removes the child from the
collection: the iterator goes by the index.  Every round takes an element, so the length bounds the
rounds. -/
def connectChildren (parent : Option String) :
    ℕ → ℕ → List String → (String → Option String) → String → Option String
  | 0, _, _, links => links
  | rounds + 1, index, children, links =>
    match children[index]? with
    | none => links
    | some child =>
      connectChildren parent rounds (index + 1) (children.erase child)
        (Function.update links child parent)

theorem connectChildren_eq (parent : Option String) :
    ∀ (rounds : ℕ) (passed rest : List String) (links : String → Option String),
      (passed ++ rest).Nodup → rest.length ≤ rounds →
      connectChildren parent rounds passed.length (passed ++ rest) links =
        fun id => if id ∈ everyOther rest then parent else links id := by
  intro rounds
  induction rounds with
  | zero =>
    intro passed rest links _ hrest
    rw [length_eq_zero_iff.mp (by omega : rest.length = 0)]
    funext id
    simp [connectChildren, everyOther]
  | succ rounds ih =>
    intro passed rest links hnodup hrest
    match rest with
    | [] =>
      funext id
      simp [connectChildren, everyOther]
    | child :: rest =>
      have hfresh : child ∉ passed := fun hmem =>
        (nodup_append.mp hnodup).2.2 child hmem child mem_cons_self rfl
      have herase : (passed ++ child :: rest).erase child = passed ++ rest := by
        rw [erase_append_right _ hfresh, erase_cons_head]
      have hget : (passed ++ child :: rest)[passed.length]? = some child := by simp
      simp only [connectChildren, hget, herase]
      match rest with
      | [] =>
        have hend : (passed ++ ([] : List String))[passed.length + 1]? = none := by simp
        have hstop : connectChildren parent rounds (passed.length + 1) (passed ++ [])
            (update links child parent) = update links child parent := by
          cases rounds with
          | zero => rfl
          | succ rounds => simp only [connectChildren, hend]
        rw [hstop]
        funext id
        simp only [everyOther, mem_singleton, update_apply]
      | skipped :: rest =>
        -- the iterator has moved past the child that took the place of the removed one
        have hmove : passed ++ skipped :: rest = (passed ++ [skipped]) ++ rest := by simp
        have hlen : passed.length + 1 = (passed ++ [skipped]).length := by simp
        have hnodup' : ((passed ++ [skipped]) ++ rest).Nodup := by
          rw [← hmove, ← herase]
          exact hnodup.erase child
        rw [hmove, hlen, ih _ _ _ hnodup' (by simp at hrest; omega)]
        funext id
        simp only [everyOther, update_apply]
        by_cases hmem : id ∈ everyOther rest
        · simp [hmem]
        · simp [hmem]

variable (store : FileStore) (limits : QueryLimits)

namespace FileStore

/-! ### Tasks and files -/

/-- `session.get(DocumentRevision, id)`. -/
def revision? (id : String) : Option DocumentRevision :=
  store.revisions.find? fun revision => revision.id == id

/-- `document.revisions`. -/
def revisionsOf (documentId : NodeId) : List DocumentRevision :=
  store.revisions.filter fun revision => revision.documentId == documentId

/-- The ids of `revision.child_revisions`. -/
def childRevisions (revisionId : String) : List String :=
  (store.revisions.filter fun revision =>
    store.parentRevisionId revision.id == some revisionId).map DocumentRevision.id

/-- The pending and running tasks of files. -/
def activeTasksOf (fileIds : List String) : List String :=
  (store.fileTasks.entries.filter fun row =>
    fileIds.contains row.2.fileId && row.2.task.status.isActive).map Sigma.fst

/-- `cancel_file_tasks_for_files`, with the ids of the cancelled tasks. -/
def cancelFileTasksForFiles (fileIds : List String) : FileStore × List String :=
  let taskIds := store.activeTasksOf fileIds
  ({ store with
      fileTasks := store.fileTasks.update fun id row =>
        if taskIds.contains id && row.task.status.isActive then
          { row with task := { row.task with status := .cancelled } }
        else row },
    taskIds)

/-- `File.delete` in a session. -/
def deleteFileContent (fileId : String) : FileStore :=
  (store.deleteFileTasks [fileId]).queueDeferredFileDeletion (store.filePath fileId)
    ((store.uploadSessions [fileId]).map Prod.snd)

def deleteRevisionAndUnreferencedFile (store : FileStore) (revision : DocumentRevision) :
    Except StoreError FileStore :=
  if revision.fileId != "" &&
      store.countFileReferences limits [revision.fileId] revision.fileId - 1 == 0 then
    -- the flush deletes the revision before the file that it refers to
    ((store.deleteFileContent revision.fileId).deleteRevisions [revision.id]).deleteFiles
      [revision.fileId]
  else .ok (store.deleteRevisions [revision.id])

/-! ### The handler -/

def connectChildrenOf (revisionId : String) : FileStore :=
  { store with
    parentRevisionId :=
      connectChildren (store.parentRevisionId revisionId) (store.childRevisions revisionId).length 0
        (store.childRevisions revisionId) store.parentRevisionId }

end FileStore

inductive RevisionOutcome
  | refused (code : ℕ) (message : String)
  | raised
  | committed (store : FileStore) (cancelledTaskIds : List String)

namespace FileStore

/-- The transaction of `RequestDeleteRevisionHandler`, once the checks have passed. -/
def commitRevisionDeletion (store : FileStore) (revision : DocumentRevision) : RevisionOutcome :=
  let unreachableFileIds := store.findUnreachableRevisionFileIds limits [revision.id]
  let (cancelled, cancelledTaskIds) :=
    (store.connectChildrenOf revision.id).cancelFileTasksForFiles unreachableFileIds
  match cancelled.deleteRevisionAndUnreferencedFile limits revision with
  | .error _ => .raised
  | .ok store' => .committed store' cancelledTaskIds

/-- `RequestDeleteRevisionHandler`. -/
def requestDeleteRevision (store : FileStore) (actor : Actor) (revisionId : String) :
    RevisionOutcome :=
  match store.revision? revisionId with
  | none => .refused 404 "Revision not found"
  | some revision =>
    -- the row filter hides a deleted document, and the handler reads `None.current_revision_id`
    match store.liveDocument? revision.documentId with
    | none => .raised
    | some document =>
      if document.currentRevisionId == some revision.id ||
          (store.revisionsOf document.id).length == 1 then
        .refused 400 "Cannot delete the current revision"
      else if !actor.holds "delete_revision" then .refused 403 Messages.accessDenied
      else
        match actor.allows store.toDatabase document .write with
        | .error _ => .raised
        | .ok false => .refused 403 Messages.accessDenied
        | .ok true => store.commitRevisionDeletion limits revision

/-- The handler lets the user delete the revision. -/
def mayDeleteRevision (actor : Actor) (revision : DocumentRevision) (document : Node) : Bool :=
  document.notDeleted && document.currentRevisionId != some revision.id &&
    (store.revisionsOf document.id).length != 1 && actor.holds "delete_revision" &&
    (actor.allows store.toDatabase document .write).toOption == some true

/-! ### The store after a deletion -/

def isSoleUse (revision : DocumentRevision) : Bool :=
  (store.revisions.map DocumentRevision.fileId).count revision.fileId +
    store.otherUses.count revision.fileId == 1

/-- What the deletion of a revision leaves. -/
structure RevisionDeleted (revision : DocumentRevision) (store' : FileStore) : Prop where
  revisions : store'.revisions = store.revisions.filter fun other => other.id != revision.id
  nodes : store'.nodes = store.nodes.map
    (clearCurrentWhere fun node => node.currentRevisionId == some revision.id)
  files : store'.files = store.files.filter fun file =>
    !(store.isSoleUse revision && file.id == revision.fileId)
  parentRevisionId : ∀ id, store'.parentRevisionId id =
    (store.parentRevisionId id).filter fun parent => parent != revision.id
  fileTasks : store'.fileTasks = store.fileTasks.delete fun _ row =>
    store.isSoleUse revision && row.fileId == revision.fileId
  revisionCreatedTime : store'.revisionCreatedTime = store.revisionCreatedTime
  otherTables : store'.otherTables = store.otherTables

variable {limits : QueryLimits} {store : FileStore} {rev : DocumentRevision}

theorem revision?_eq_some {id : String} :
    store.revision? id = some rev ↔ rev ∈ store.revisions ∧ rev.id = id := by
  constructor
  · intro h
    exact ⟨mem_of_find?_eq_some h, by simpa using find?_some h⟩
  · rintro ⟨hmem, rfl⟩
    obtain ⟨found, hfound⟩ : ∃ found, store.revision? rev.id = some found :=
      Option.isSome_iff_exists.mp (find?_isSome.mpr ⟨rev, hmem, by simp⟩)
    have hid : found.id = rev.id := by simpa using find?_some hfound
    rw [hfound, inj_on_of_nodup_map store.revisionIds_nodup (mem_of_find?_eq_some hfound) hmem hid]

theorem contains_singleton (a b : String) : [a].contains b = (b == a) := by
  rw [Bool.eq_iff_iff, contains_iff_mem, mem_singleton, beq_iff_eq]

/-- A revision is the only use of its file if no other revision has the file and no other table
refers to it. -/
theorem isSoleUse_iff (hrev : rev ∈ store.revisions) : store.isSoleUse rev = true ↔
      (∀ other ∈ store.revisions, other.fileId = rev.fileId → other = rev) ∧
        rev.fileId ∉ store.otherUses := by
  have hcount : (store.revisions.map DocumentRevision.fileId).count rev.fileId =
      (store.revisions.filter fun other => other.fileId == rev.fileId).length :=
    countP_map.trans countP_eq_length_filter
  have hmem : rev ∈ store.revisions.filter fun other => other.fileId == rev.fileId :=
    mem_filter.mpr ⟨hrev, beq_self_eq_true _⟩
  have hpos := length_pos_of_mem hmem
  have hone : (store.revisions.filter fun other => other.fileId == rev.fileId).length = 1 ↔
      ∀ other ∈ store.revisions, other.fileId = rev.fileId → other = rev := by
    constructor
    · intro hlen other hother hsame
      obtain ⟨only, honly⟩ := length_eq_one_iff.mp hlen
      rw [honly, mem_singleton] at hmem
      have hother' : other ∈ store.revisions.filter fun other => other.fileId == rev.fileId :=
        mem_filter.mpr ⟨hother, beq_iff_eq.mpr hsame⟩
      rw [honly, mem_singleton] at hother'
      exact hother'.trans hmem.symm
    · intro hall
      have hsame := eq_replicate_of_mem (l := store.revisions.filter fun other =>
        other.fileId == rev.fileId) (a := rev) fun other hother =>
          hall other (mem_filter.mp hother).1 (by simpa using (mem_filter.mp hother).2)
      have hnodup : (store.revisions.filter fun other => other.fileId == rev.fileId).Nodup :=
        store.revisionIds_nodup.of_map.filter _
      rw [hsame, nodup_replicate] at hnodup
      omega
  rw [isSoleUse, beq_iff_eq, ← hone, ← count_eq_zero]
  omega

theorem isUsed_of_isSoleUse (hrev : rev ∈ store.revisions)
    (hsole : store.isSoleUse rev = true) (left : FileStore)
    (hrevs : left.revisions = store.revisions.filter fun other => other.id != rev.id)
    (huses : left.otherUses = store.otherUses) : left.isUsed rev.fileId = false := by
  obtain ⟨hothers, hunus⟩ := (isSoleUse_iff hrev).mp hsole
  rw [isUsed, Bool.or_eq_false_iff, hrevs, huses, any_eq_false]
  constructor
  · intro other hmem hfile
    obtain ⟨hother, hid⟩ := mem_filter.mp hmem
    rw [hothers other hother (by simpa using hfile), bne_self_eq_false] at hid
    cases hid
  · simpa using hunus

theorem deleteRevisionAndUnreferencedFile_ok (limits : QueryLimits) (hrev : rev ∈ store.revisions) :
    ∃ store', store.deleteRevisionAndUnreferencedFile limits rev = .ok store' ∧
      RevisionDeleted store rev store' := by
  have hfile := store.revisionFileIds_ne_empty rev hrev
  have hone : 1 ≤ (store.revisions.map DocumentRevision.fileId).count rev.fileId :=
    count_pos_iff.mpr (mem_map_of_mem hrev)
  have hrevs : (store.revisions.filter fun other => !([rev.id].contains other.id)) =
      store.revisions.filter fun other => other.id != rev.id := by
    refine filter_congr fun other _ => ?_
    rw [contains_singleton]
    rfl
  have hnodes : (clearCurrentWhere fun node =>
      node.currentRevisionId.any ([rev.id].contains ·)) =
        clearCurrentWhere fun node => node.currentRevisionId == some rev.id := by
    congr 1
    funext node
    cases node.currentRevisionId with
    | none => rfl
    | some id => simp only [Option.any_some, contains_singleton, Option.some_beq_some]
  have hpars : ∀ id, (store.parentRevisionId id).filter
      (fun parent => !([rev.id].contains parent)) =
        (store.parentRevisionId id).filter fun parent => parent != rev.id := by
    intro id
    congr 1
    funext parent
    rw [contains_singleton]
    rfl
  rw [deleteRevisionAndUnreferencedFile, countFileReferences_apply (nodup_singleton _),
    if_pos mem_cons_self]
  by_cases hsole : store.isSoleUse rev = true
  · have hcount := hsole
    rw [isSoleUse, beq_iff_eq] at hcount
    rw [hcount]
    simp only [bne_iff_ne, ne_eq, hfile, not_false_eq_true, beq_self_eq_true,
      Bool.and_true, if_true]
    rw [deleteFiles, if_neg]
    · refine ⟨_, rfl, hrevs, ?_, ?_, hpars, ?_, rfl, rfl⟩
      · show store.nodes.map _ = store.nodes.map _
        rw [hnodes]
      · show store.files.filter _ = store.files.filter _
        refine filter_congr fun file _ => ?_
        rw [contains_singleton, hsole, Bool.true_and]
      · apply AList.ext
        show (store.fileTasks.entries.filter _).filter _ = store.fileTasks.entries.filter _
        rw [filter_filter]
        refine filter_congr fun row _ => ?_
        show (!([rev.fileId].contains row.2.fileId) && !([rev.fileId].contains row.2.fileId)) =
          !(store.isSoleUse rev && row.2.fileId == rev.fileId)
        rw [contains_singleton, hsole, Bool.true_and, Bool.and_self]
    · rw [Bool.not_eq_true, any_eq_false]
      intro file _ huse
      rw [contains_singleton, Bool.and_eq_true, beq_iff_eq] at huse
      have hunus := isUsed_of_isSoleUse hrev hsole
        ((store.deleteFileContent rev.fileId).deleteRevisions [rev.id]) hrevs rfl
      rw [huse.1, hunus] at huse
      exact Bool.false_ne_true huse.2
  · have hcount : ((store.revisions.map DocumentRevision.fileId).count rev.fileId +
        store.otherUses.count rev.fileId - 1 == 0) = false := by
      rw [isSoleUse, beq_iff_eq] at hsole
      simp only [beq_eq_false_iff_ne]
      omega
    rw [hcount, Bool.and_false]
    refine ⟨_, rfl, hrevs, ?_, ?_, hpars, ?_, rfl, rfl⟩
    · show store.nodes.map _ = store.nodes.map _
      rw [hnodes]
    · show store.files = _
      simp [hsole]
    · apply AList.ext
      show store.fileTasks.entries = store.fileTasks.entries.filter _
      simp [hsole]

/-- The store of a deletion just before the revision goes: its children connected and the transfers
of its file cancelled when nothing else uses the file. -/
def beforeRevisionDelete (limits : QueryLimits) (store : FileStore) (revision : DocumentRevision) :
    FileStore :=
  ((store.connectChildrenOf revision.id).cancelFileTasksForFiles
    (store.findUnreachableRevisionFileIds limits [revision.id])).1

theorem commitRevisionDeletion_ok (limits : QueryLimits) (hrev : rev ∈ store.revisions) :
    ∃ store', store.commitRevisionDeletion limits rev = .committed store'
        (store.activeTasksOf (store.findUnreachableRevisionFileIds limits [rev.id])) ∧
      RevisionDeleted (store.beforeRevisionDelete limits rev) rev store' := by
  have hmem : rev ∈ (store.beforeRevisionDelete limits rev).revisions := hrev
  obtain ⟨store', hstore', hdel⟩ := deleteRevisionAndUnreferencedFile_ok limits hmem
  refine ⟨store', ?_, hdel⟩
  show (match (store.beforeRevisionDelete limits rev).deleteRevisionAndUnreferencedFile limits
    rev with
    | .error _ => RevisionOutcome.raised
    | .ok store' => RevisionOutcome.committed store' _) = _
  rw [hstore']
  rfl

variable {actor : Actor} {revId : String} {store' : FileStore} {tasks : List String}

theorem requestDeleteRevision_of_found {doc : Node} (hrev : store.revision? revId = some rev)
    (hdoc : store.document? rev.documentId = some doc) :
    store.requestDeleteRevision limits actor revId = .committed store' tasks ↔
      store.mayDeleteRevision actor rev doc = true ∧
        store.commitRevisionDeletion limits rev = .committed store' tasks := by
  rw [requestDeleteRevision, hrev, mayDeleteRevision]
  simp only [Database.liveDocument?, hdoc, Option.filter_some]
  by_cases hlive : doc.notDeleted = true
  swap
  · simp [hlive]
  rw [if_pos hlive]
  simp only [hlive]
  by_cases hcur : doc.currentRevisionId = some rev.id
  · simp [hcur]
  by_cases hlast : (store.revisionsOf doc.id).length = 1
  · simp [hlast]
  by_cases hholds : actor.holds "delete_revision" = true
  · rw [if_neg (by simp [hcur, hlast])]
    cases hallows : actor.allows store.toDatabase doc .write with
    | error e => simp [hholds, Except.toOption]
    | ok allowed =>
      cases allowed with
      | false => simp [Except.toOption]
      | true => simp [hholds, hcur, hlast, Except.toOption]
  · simp [hcur, hlast, hholds]

theorem requestDeleteRevision_eq_committed
    (h : store.requestDeleteRevision limits actor revId = .committed store' tasks) :
    ∃ rev doc, store.revision? revId = some rev ∧ store.liveDocument? rev.documentId = some doc ∧
      store.commitRevisionDeletion limits rev = .committed store' tasks := by
  cases hrev : store.revision? revId with
  | none => simp [requestDeleteRevision, hrev] at h
  | some rev =>
    cases hdoc : store.liveDocument? rev.documentId with
    | none => simp [requestDeleteRevision, hrev, hdoc] at h
    | some doc =>
      exact ⟨rev, doc, rfl, hdoc, ((requestDeleteRevision_of_found hrev
        (Option.filter_eq_some_iff.mp hdoc).1).mp h).2⟩

end FileStore

end Cfms.Documents
