import Cfms.Documents.DeletionTree
import Cfms.Documents.Rows

/-!
# The directory and document handlers

The request handlers that create, move, delete, restore and purge nodes.  A handler reads the
database, refuses with a code and a text, or commits a new database.  An exception (a cycle met by
an access check, a violated constraint, a stale row) leaves the database as it was.

Each handler that commits is followed by the equation for the rows it leaves, so that the modules
on the hierarchy never look inside one.
-/

namespace Cfms.Documents

open Access Lib.Climb Lib.RecursiveQuery

/-! ### What a handler returns -/

/-- The user behind a request, the time it is handled, and the setting
`enable_access_recursive_check`. -/
structure Actor where
  user : User
  now : Instant
  recursive : Bool

inductive Outcome
  | refused (code : ℕ) (message : String) (failed : List FailedItem)
  /-- The response describes the live row that holds the name. -/
  | nameConflict
  | raised
  | committed (code : ℕ) (message : String) (db : Database)

namespace Messages

def success := "Success"
def subjectDirectoryNotFound := "Subject directory not found"
def directoryNotFound := "Directory not found"
def documentNotFound := "Document not found"
def deletedDirectoryNotFound := "Deleted directory not found"
def deletedDocumentNotFound := "Deleted document not found"
def targetDirectoryNotFound := "Target directory not found"
def targetDocumentNotFound := "Target document not found"
def documentTitleRequired := "Document title is required"
def accessDenied := "Access denied"
def accessDeniedMoveDocument := "Access denied to move document"
def accessDeniedMoveDirectory := "Access denied to move directory"
def accessDeniedWriteDirectory := "Access denied to write directory"
def permissionDenied := "Permission denied"
def cannotPurgeRootDirectory := "Cannot purge the root directory"
def cannotRestoreRootDirectory := "Cannot restore root directory"
def cannotMoveToSameFolder := "Cannot move to the same folder"
def targetDirectoryNotActive := "Target directory is not active"
def cannotMoveDirectoryIntoSubdirectory := "Cannot move a directory into its own subdirectory"

end Messages

/-- `check_access_requirements` as a handler uses it. -/
def Actor.allows (actor : Actor) (db : Database) (target : Node) (accessType : AccessType) :
    Except ClimbError Bool :=
  checkAccessRequirements db actor.user target accessType actor.recursive actor.now

def Actor.holds (actor : Actor) (permission : String) : Bool :=
  actor.user.allPermissions.contains permission

/-- Go on if the check passes, refuse if it does not, raise if it raises. -/
def requireAccess (check : Except ClimbError Bool) (denied granted : Outcome) : Outcome :=
  match check with
  | .error _ => .raised
  | .ok true => granted
  | .ok false => denied

/-- `x or ROOT_DIRECTORY_ID`. -/
def orRoot : Option NodeId → NodeId
  | none => rootDirectoryId
  | some id => if id = "" then rootDirectoryId else id

/-- `node_name_mutation`: commit unless the name is taken. -/
def commitNamed (code : ℕ) (message : String) (db : Database) : Outcome :=
  if db.activeNamesUnique then .committed code message db else .nameConflict

/-- The loop of `apply_access_rules`, after the rules are attached. -/
def applyAccessRules (actor : Actor) (db : Database) (target : Node) :
    List AccessType → Except ClimbError Bool
  | [] => .ok true
  | accessType :: rest =>
    match actor.allows db target accessType with
    | .error e => .error e
    | .ok false => .ok false
    | .ok true => applyAccessRules actor db target rest

/-- Insert a node, check the name, then check that the user still satisfies the new rules. -/
def createNode (actor : Actor) (db : Database) (node : Node) (submitted : Database.SubmittedRules)
    (upload : Option (DocumentRevision × File)) (message : String) : Outcome :=
  match db.insertNode node submitted upload with
  | none => .raised
  | some db' =>
    if !db'.activeNamesUnique then .nameConflict
    else
      requireAccess (applyAccessRules actor db' node submitted.accessTypes)
        (.refused 403 Messages.accessDenied []) (.committed 200 message db')

/-- Write access to a target folder, or the right to create in the root directory. -/
def requireWrite (actor : Actor) (db : Database) (target : Node) (superPermission : String)
    (denied granted : Outcome) : Outcome :=
  match actor.allows db target .write with
  | .error _ => .raised
  | .ok true => granted
  | .ok false =>
    if target.id == rootDirectoryId && actor.holds superPermission then granted else denied

/-! ### Directories -/

variable (db : Database)

/-- `RequestCreateDirectoryHandler`.  With `exists_ok` the response to a name conflict names the
existing folder; nothing is written in either case. -/
def createDirectory (actor : Actor) (parentId : Option NodeId) (name : String)
    (inheritParent : Bool) (submitted : Database.SubmittedRules) (newId : NodeId) : Outcome :=
  if !actor.holds "create_directory" then
    .refused 403 "You have no permissions to create directories" []
  else
    match db.liveFolder? (orRoot parentId) with
    | none => .refused 404 Messages.directoryNotFound []
    | some parent =>
      requireWrite actor db parent "super_create_directory" (.refused 403 Messages.accessDenied [])
        (createNode actor db
          { id := newId, type := .directory, name := name, parentId := some parent.id,
            inherit := inheritParent, accessRuleSetId := submitted.ruleSet.map (·.id) }
          submitted none "Directory created successfully")

/-- `_mark_nodes_deleted`, and the root of the deletion when it goes too. -/
def markDeleted (nodeIds : List NodeId) (operationId : String) (node : Node) : Node :=
  if nodeIds.contains node.id then
    { node with status := .deleted, statusOperationId := some operationId }
  else node

theorem markDeleted_id (nodeIds : List NodeId) (operationId : String) (node : Node) :
    (markDeleted nodeIds operationId node).id = node.id := by
  unfold markDeleted
  split <;> rfl

/-- The rows a directory deletion marks. -/
def deletionMarks (folderId : NodeId) (analysis : SubtreeAnalysis) : List NodeId :=
  analysis.deletableDocIds ++ analysis.deletableFolderIds ++
    if analysis.protectedFolderIds.length == 0 && analysis.failedItems.length == 0 then [folderId]
    else []

/-- `RequestDeleteDirectoryHandler`. -/
def deleteDirectory (actor : Actor) (folderId : NodeId) (operationId : String) : Outcome :=
  if folderId == rootDirectoryId then .refused 404 Messages.directoryNotFound []
  else
    match db.liveFolder? folderId with
    | none => .refused 404 Messages.directoryNotFound []
    | some folder =>
      if !actor.holds "delete_directory" then .refused 403 Messages.accessDenied []
      else
        requireAccess (actor.allows db folder .write) (.refused 403 Messages.accessDenied [])
          (match fetchSubtreeForDeletion db folderId actor.user actor.now false with
          | .error _ => .raised
          | .ok analysis =>
            let db' := db.mapNodes (markDeleted (deletionMarks folderId analysis) operationId)
              (markDeleted_id _ _)
            if analysis.failedItems.isEmpty then
              .committed 200 "Directory marked as deleted successfully" db'
            else
              .committed 207 ("Directory partially deleted: some items could not be removed due to " ++
                "insufficient permissions.") db')

/-- The folder above through the `parent` relationship, whose load applies the row filter. -/
def parentFolder (folder : Node) : Option Node := folder.parentId.bind db.liveFolder?

/-- The loop of `Folder.is_descendant_of`. -/
def isDescendantOfLoop (db : Database) (ancestorId : NodeId) :
    ℕ → List NodeId → Option Node → Bool
  | 0, _, _ => false
  | _ + 1, _, none => false
  | fuel + 1, visitedIds, some current =>
    if current.id == ancestorId then true
    else if visitedIds.contains current.id then false
    else isDescendantOfLoop db ancestorId fuel (current.id :: visitedIds) (parentFolder db current)

/-- `Folder.is_descendant_of`.  The visited folders are distinct rows, which bounds the loop. -/
def isDescendantOf (folder potentialAncestor : Node) : Bool :=
  isDescendantOfLoop db potentialAncestor.id (db.nodes.length + 1) [] (parentFolder db folder)

/-- The checks of `RequestMoveDirectoryHandler`, which end with the two folders. -/
def moveDirectoryChecks (actor : Actor) (folderId : NodeId) (targetFolderId : Option NodeId)
    (passed : Node → Node → Outcome) : Outcome :=
  if folderId == rootDirectoryId then .refused 404 Messages.directoryNotFound []
  else if !actor.holds "move" then .refused 403 Messages.accessDeniedMoveDirectory []
  else
    match db.liveFolder? folderId with
    | none => .refused 404 Messages.subjectDirectoryNotFound []
    | some folder =>
      requireAccess (actor.allows db folder .move) (.refused 403 Messages.accessDeniedMoveDirectory [])
        (match db.liveFolder? (orRoot targetFolderId) with
        | none => .refused 404 Messages.targetDirectoryNotFound []
        | some targetFolder =>
          requireWrite actor db targetFolder "super_create_directory"
            (.refused 403 Messages.accessDeniedWriteDirectory [])
            (if targetFolder.id == folder.id || isDescendantOf db targetFolder folder then
              .refused 400 Messages.cannotMoveDirectoryIntoSubdirectory []
            else passed folder targetFolder))

/-- Point the row at another folder. -/
def setParent (nodeId parentId : NodeId) (node : Node) : Node :=
  if node.id = nodeId then { node with parentId := some parentId } else node

theorem setParent_id (nodeId parentId : NodeId) (node : Node) :
    (setParent nodeId parentId node).id = node.id := by
  unfold setParent
  split <;> rfl

/-- The commit of a move: both rows must still exist. -/
def moveCommit (nodeId targetFolderId : NodeId) : Outcome :=
  match db.node? nodeId, db.folder? targetFolderId with
  | some _, some _ =>
    commitNamed 200 Messages.success
      (db.mapNodes (setParent nodeId targetFolderId) (setParent_id _ _))
  | _, _ => .raised

/-- `RequestMoveDirectoryHandler`, without another request in between. -/
def moveDirectory (actor : Actor) (folderId : NodeId) (targetFolderId : Option NodeId) : Outcome :=
  moveDirectoryChecks db actor folderId targetFolderId fun folder targetFolder =>
    moveCommit db folder.id targetFolder.id

/-- The bulk update of a restore: the deleted rows of the operation come back. -/
def restoreOperation (operationId : Option String) (node : Node) : Node :=
  if operationId.any (· != "") && node.statusOperationId == operationId && node.status == .deleted then
    { node with status := .ok, statusOperationId := none }
  else node

theorem restoreOperation_id (operationId : Option String) (node : Node) :
    (restoreOperation operationId node).id = node.id := by
  unfold restoreOperation
  split <;> rfl

/-- The restored row itself. -/
def restoreNode (nodeId : NodeId) (name : String) (parentId : NodeId) (node : Node) : Node :=
  if node.id = nodeId then
    { node with status := .ok, statusOperationId := none, name := name, parentId := some parentId }
  else node

theorem restoreNode_id (nodeId : NodeId) (name : String) (parentId : NodeId) (node : Node) :
    (restoreNode nodeId name parentId node).id = node.id := by
  unfold restoreNode
  split <;> rfl

/-- `RequestRestoreDirectoryHandler`; `targetParentId` is `none` when the field is not sent. -/
def restoreDirectory (actor : Actor) (folderId : NodeId) (targetParentId : Option (Option NodeId))
    (newName : Option String) : Outcome :=
  if folderId == rootDirectoryId then .refused 400 Messages.cannotRestoreRootDirectory []
  else if !actor.holds "restore" then .refused 403 Messages.permissionDenied []
  else
    match (db.folder? folderId).filter fun folder => folder.status == .deleted with
    | none => .refused 404 Messages.deletedDirectoryNotFound []
    | some folder =>
      requireAccess (actor.allows db folder .write) (.refused 403 Messages.accessDenied [])
        (match (db.folder? (orRoot (targetParentId.getD folder.parentId))).filter
            fun target => target.status == .ok with
        | none => .refused 409 Messages.targetDirectoryNotActive []
        | some targetParent =>
          requireAccess (actor.allows db targetParent .write)
            (.refused 403 Messages.accessDenied [])
            -- the bulk update already meets the unique constraint, before the row is renamed
            (if !(db.mapNodes (restoreOperation folder.statusOperationId)
                (restoreOperation_id _)).activeNamesUnique then .nameConflict
            else commitNamed 200 Messages.success
              ((db.mapNodes (restoreOperation folder.statusOperationId) (restoreOperation_id _)).mapNodes
                (restoreNode folderId (newName.getD folder.name) targetParent.id)
                (restoreNode_id _ _ _))))

/-! ### Purging a directory -/

/-- The rows that `ON DELETE CASCADE` removes with a folder row. -/
def cascadeNext (node : Node) : List Node :=
  if node.isFolder then db.nodes.filter fun child => child.parentId == some node.id else []

/-- Everything below a folder, deleted or not. -/
def cascadeBelow (folderId : NodeId) : List Node :=
  recursiveRows (cascadeNext db) (db.nodes.filter fun child => child.parentId == some folderId)
    db.nodes.length

/-- The folders whose `children` and `documents` the ORM loads to delete the folder: through the
row filter, and without the folder rows that the bulk delete has removed before. -/
def ormLoadedFolders (folderId : NodeId) (removed : NodeId → Bool) : List Node :=
  recursiveRows
    (fun node => db.folders.filter fun child =>
      child.parentId == some node.id && child.notDeleted && !removed child.id)
    (db.folders.filter fun folder => folder.id == folderId) db.folders.length

/-- The ORM deletes the document itself, and so its revisions first. -/
def ormDeletes (folderId : NodeId) (removed : NodeId → Bool) (doc : Node) : Bool :=
  doc.notDeleted &&
    (ormLoadedFolders db folderId removed).any fun folder => doc.parentId == some folder.id

/-- A document that only a database cascade removes, while revisions still refer to it: the
foreign key `document_revisions.document_id` has no `ON DELETE` action. -/
def revisionsRemain (folderId : NodeId) (removed purgedDocument : NodeId → Bool) : Bool :=
  (cascadeBelow db folderId).any fun doc =>
    doc.isDocument && !purgedDocument doc.id && !ormDeletes db folderId removed doc &&
      db.revisions.any fun revision => revision.documentId == doc.id

/-- The rows gone after `session.delete(folder)`. -/
def purgedWith (folderId : NodeId) (node : Node) : Bool :=
  node.id == folderId || (cascadeBelow db folderId).contains node

/-- `RequestPurgeDirectoryHandler`. -/
def purgeDirectory (actor : Actor) (folderId : NodeId) : Outcome :=
  if folderId == rootDirectoryId then .refused 403 Messages.cannotPurgeRootDirectory []
  else if !actor.holds "purge" then .refused 403 Messages.permissionDenied []
  else
    match db.folder? folderId with
    | none => .refused 404 Messages.directoryNotFound []
    | some folder =>
      if folder.status != .deleted then
        .refused 400 "Directory must be marked as deleted before purging" []
      else
        requireAccess (actor.allows db folder .write) (.refused 403 Messages.accessDenied [])
          (match fetchSubtreeForDeletion db folderId actor.user actor.now true with
          | .error _ => .raised
          | .ok analysis =>
            if !analysis.failedItems.isEmpty then
              .refused 403 ("Some items in the directory cannot be purged due to insufficient " ++
                "permissions") analysis.failedItems
            else if revisionsRemain db folderId (analysis.deletableFolderIds.contains ·)
                (analysis.deletableDocIds.contains ·) then .raised
            else .committed 200 "Directory and all its contents have been permanently purged"
              (db.removeNodes (purgedWith db folderId)))

/-! ### Documents -/

/-- `RequestCreateDocumentHandler`.  `limitAllows` is the verdict of the creation limits. -/
def createDocument (actor : Actor) (folderId : Option NodeId) (title : String)
    (inheritParent limitAllows : Bool) (submitted : Database.SubmittedRules)
    (newId revisionId fileId : String) : Outcome :=
  if title == "" then .refused 400 Messages.documentTitleRequired []
  else if !actor.holds "create_document" then .refused 403 Messages.permissionDenied []
  else
    match db.liveFolder? (orRoot folderId) with
    | none => .refused 404 Messages.targetDirectoryNotFound []
    | some folder =>
      requireWrite actor db folder "super_create_document"
        (.refused 403 Messages.accessDeniedWriteDirectory [])
        (if !limitAllows then
          .refused 429 "Document creation limit exceeded. Please try again later." []
        else
          createNode actor db
            { id := newId, type := .document, name := title, parentId := some folder.id,
              inherit := inheritParent, accessRuleSetId := submitted.ruleSet.map (·.id),
              currentRevisionId := some revisionId }
            submitted (some (⟨revisionId, newId, fileId⟩, ⟨fileId, false⟩))
            "Task successfully created")

/-- `RequestDeleteDocumentHandler`. -/
def deleteDocument (actor : Actor) (documentId : NodeId) (operationId : String) : Outcome :=
  match db.liveDocument? documentId with
  | none => .refused 404 Messages.documentNotFound []
  | some document =>
    if !actor.holds "delete_document" then .refused 403 Messages.accessDenied []
    else
      requireAccess (actor.allows db document .write) (.refused 403 Messages.accessDenied [])
        (.committed 200 "Document successfully deleted"
          (db.mapNodes (markDeleted [documentId] operationId) (markDeleted_id _ _)))

/-- `RequestMoveDocumentHandler`. -/
def moveDocument (actor : Actor) (documentId : NodeId) (targetFolderId : Option NodeId) : Outcome :=
  if !actor.holds "move" then .refused 403 Messages.accessDeniedMoveDocument []
  else
    match db.liveDocument? documentId with
    | none => .refused 404 Messages.targetDocumentNotFound []
    | some document =>
      if document.parentId == some (orRoot targetFolderId) then
        .refused 400 Messages.cannotMoveToSameFolder []
      else
        requireAccess (actor.allows db document .move)
          (.refused 403 Messages.accessDeniedMoveDocument [])
          (match db.liveFolder? (orRoot targetFolderId) with
          | none => .refused 404 Messages.targetDirectoryNotFound []
          | some targetFolder =>
            requireWrite actor db targetFolder "super_create_document"
              (.refused 403 Messages.accessDeniedWriteDirectory [])
              (moveCommit db document.id targetFolder.id))

/-- `RequestRestoreDocumentHandler`; `targetFolderId` is `none` when the field is not sent. -/
def restoreDocument (actor : Actor) (documentId : NodeId) (targetFolderId : Option (Option NodeId))
    (newTitle : Option String) : Outcome :=
  if !actor.holds "restore" then .refused 403 Messages.permissionDenied []
  else
    match (db.document? documentId).filter fun document => document.status == .deleted with
    | none => .refused 404 Messages.deletedDocumentNotFound []
    | some document =>
      requireAccess (actor.allows db document .write) (.refused 403 Messages.accessDenied [])
        (match db.folder? (orRoot (targetFolderId.getD document.parentId)) with
        | none => .refused 404 Messages.targetDirectoryNotFound []
        | some targetFolder =>
          requireAccess (actor.allows db targetFolder .write)
            (.refused 403 Messages.accessDenied [])
            (if targetFolder.status != .ok then
              .refused 409 "Cannot restore: Target folder is deleted. Restore it first." []
            else commitNamed 200 "Document successfully restored"
              (db.mapNodes (restoreNode documentId (newTitle.getD document.name) targetFolder.id)
                (restoreNode_id _ _ _))))

/-- `RequestPurgeDocumentHandler`. -/
def purgeDocument (actor : Actor) (documentId : NodeId) : Outcome :=
  if !actor.holds "purge" then .refused 403 Messages.permissionDenied []
  else
    match db.document? documentId with
    | none => .refused 404 Messages.documentNotFound []
    | some document =>
      if document.status != .deleted then
        .refused 400 "Document must be marked as deleted before purging" []
      else
        requireAccess (actor.allows db document .write) (.refused 403 Messages.accessDenied [])
          (.committed 200 "Document permanently deleted"
            (db.removeNodes fun node => node.id == documentId))

/-! ### Inversion: what a commit says about the state before it -/

section

variable {db db' : Database} {actor : Actor} {code : ℕ} {message : String} {c : ℕ} {m : String}

variable {failed : List FailedItem} {granted : Outcome}

theorem requireAccess_eq_committed {check : Except ClimbError Bool} :
    requireAccess check (.refused c m failed) granted = .committed code message db' ↔
      check = .ok true ∧ granted = .committed code message db' := by
  rcases check with e | b
  · simp [requireAccess]
  · cases b <;> simp [requireAccess]

theorem granted_of_requireWrite {target : Node} {superPermission : String}
    (h : requireWrite actor db target superPermission (.refused c m failed) granted =
      .committed code message db') : granted = .committed code message db' := by
  unfold requireWrite at h
  split at h
  · cases h
  · exact h
  split at h
  · exact h
  · cases h

theorem commitNamed_eq_committed {after : Database}
    (h : commitNamed c m after = .committed code message db') : after = db' := by
  unfold commitNamed at h
  split at h
  · cases h
    rfl
  · cases h

variable {submitted : Database.SubmittedRules}

theorem createNode_committed {node : Node} {upload : Option (DocumentRevision × File)}
    (h : createNode actor db node submitted upload m = .committed code message db') :
    (∀ other ∈ db.nodes, other.id ≠ node.id) ∧ node.id ≠ "" ∧ db'.nodes = db.nodes ++ [node] := by
  unfold createNode at h
  split at h
  · cases h
  rename_i after hins
  split at h
  · cases h
  have hcomm := (requireAccess_eq_committed.mp h).2
  cases hcomm
  exact Database.insertNode_eq_some hins

theorem moveCommit_committed {nodeId targetFolderId : NodeId}
    (h : moveCommit db nodeId targetFolderId = .committed code message db') :
    ∃ node target, db.node? nodeId = some node ∧ db.folder? targetFolderId = some target ∧
      db' = db.mapNodes (setParent nodeId targetFolderId) (setParent_id _ _) := by
  unfold moveCommit at h
  split at h
  · rename_i node target hnode htgt
    exact ⟨node, target, hnode, htgt, (commitNamed_eq_committed h).symm⟩
  · cases h

variable {inheritParent : Bool}

theorem createDirectory_committed {parentId : Option NodeId} {name : String} {newId : NodeId}
    (h : createDirectory db actor parentId name inheritParent submitted newId =
      .committed code message db') :
    ∃ parent node, db.liveFolder? (orRoot parentId) = some parent ∧ node.type = .directory ∧
      node.id = newId ∧ node.parentId = some parent.id ∧ node.status = .ok ∧
      (∀ other ∈ db.nodes, other.id ≠ node.id) ∧ db'.nodes = db.nodes ++ [node] := by
  unfold createDirectory at h
  split at h
  · cases h
  split at h
  · cases h
  rename_i parent hpar
  obtain ⟨hfresh, -, hnodes⟩ := createNode_committed (granted_of_requireWrite h)
  exact ⟨parent, _, hpar, rfl, rfl, rfl, rfl, hfresh, hnodes⟩

variable {folderId : NodeId} {operationId : String}

theorem deleteDirectory_committed
    (h : deleteDirectory db actor folderId operationId = .committed code message db') :
    folderId ≠ rootDirectoryId ∧ ∃ folder analysis, db.liveFolder? folderId = some folder ∧
      fetchSubtreeForDeletion db folderId actor.user actor.now false = .ok analysis ∧
      db' = db.mapNodes (markDeleted (deletionMarks folderId analysis) operationId)
        (markDeleted_id _ _) := by
  unfold deleteDirectory at h
  split at h
  · cases h
  rename_i hroot
  split at h
  · cases h
  rename_i folder hfol
  split at h
  · cases h
  have hgrant := (requireAccess_eq_committed.mp h).2
  split at hgrant
  · cases hgrant
  rename_i analysis han
  refine ⟨by simpa using hroot, folder, analysis, hfol, han, ?_⟩
  split at hgrant <;> cases hgrant <;> rfl

variable {targetFolderId : Option NodeId}

theorem moveDirectoryChecks_committed {passed : Node → Node → Outcome}
    (h : moveDirectoryChecks db actor folderId targetFolderId passed = .committed code message db') :
    folderId ≠ rootDirectoryId ∧ ∃ folder target, db.liveFolder? folderId = some folder ∧
      db.liveFolder? (orRoot targetFolderId) = some target ∧ target.id ≠ folder.id ∧
      isDescendantOf db target folder = false ∧ passed folder target = .committed code message db' := by
  unfold moveDirectoryChecks at h
  split at h
  · cases h
  rename_i hroot
  split at h
  · cases h
  split at h
  · cases h
  rename_i folder hfol
  have hmove := (requireAccess_eq_committed.mp h).2
  split at hmove
  · cases hmove
  rename_i target htgt
  have hwrite := granted_of_requireWrite hmove
  split at hwrite
  · cases hwrite
  rename_i hbelow
  simp only [Bool.or_eq_true, beq_iff_eq, not_or, Bool.not_eq_true] at hbelow
  exact ⟨by simpa using hroot, folder, target, hfol, htgt, hbelow.1, hbelow.2, hwrite⟩

theorem restoreDirectory_committed {targetParentId : Option (Option NodeId)}
    {newName : Option String}
    (h : restoreDirectory db actor folderId targetParentId newName = .committed code message db') :
    folderId ≠ rootDirectoryId ∧ ∃ folder target, db.folder? folderId = some folder ∧
      folder.status = .deleted ∧
      db.folder? (orRoot (targetParentId.getD folder.parentId)) = some target ∧ target.status = .ok ∧
      db' = (db.mapNodes (restoreOperation folder.statusOperationId) (restoreOperation_id _)).mapNodes
        (restoreNode folderId (newName.getD folder.name) target.id) (restoreNode_id _ _ _) := by
  unfold restoreDirectory at h
  split at h
  · cases h
  rename_i hroot
  split at h
  · cases h
  split at h
  · cases h
  rename_i folder hfol
  rw [Option.filter_eq_some_iff, beq_iff_eq] at hfol
  have hwrite := (requireAccess_eq_committed.mp h).2
  split at hwrite
  · cases hwrite
  rename_i target htgt
  rw [Option.filter_eq_some_iff, beq_iff_eq] at htgt
  have hcomm := (requireAccess_eq_committed.mp hwrite).2
  split at hcomm
  · cases hcomm
  · exact ⟨by simpa using hroot, folder, target, hfol.1, hfol.2, htgt.1, htgt.2,
      (commitNamed_eq_committed hcomm).symm⟩

theorem purgeDirectory_eq_committed :
    purgeDirectory db actor folderId = .committed code message db' ↔
      (folderId ≠ rootDirectoryId ∧ actor.holds "purge" = true ∧ ∃ folder,
        db.folder? folderId = some folder ∧ folder.status = .deleted ∧
          actor.allows db folder .write = .ok true) ∧
      (∃ analysis, fetchSubtreeForDeletion db folderId actor.user actor.now true = .ok analysis ∧
        analysis.failedItems = [] ∧
        revisionsRemain db folderId (analysis.deletableFolderIds.contains ·)
          (analysis.deletableDocIds.contains ·) = false) ∧
      code = 200 ∧ message = "Directory and all its contents have been permanently purged" ∧
      db' = db.removeNodes (purgedWith db folderId) := by
  constructor
  · intro h
    unfold purgeDirectory at h
    split at h
    · cases h
    rename_i hroot
    split at h
    · cases h
    rename_i hpurge
    split at h
    · cases h
    rename_i folder hfol
    split at h
    · cases h
    rename_i hst
    obtain ⟨hallows, hgrant⟩ := requireAccess_eq_committed.mp h
    split at hgrant
    · cases hgrant
    rename_i analysis han
    split at hgrant
    · cases hgrant
    rename_i hfail
    split at hgrant
    · cases hgrant
    rename_i hremain
    cases hgrant
    refine ⟨⟨by simpa using hroot, by simpa using hpurge, folder, hfol,
      by simpa using hst, hallows⟩, ⟨analysis, han, by simpa using hfail, ?_⟩,
      rfl, rfl, rfl⟩
    simpa only [Bool.not_eq_true] using hremain
  · rintro ⟨⟨hroot, hpurge, folder, hfol, hst, hallows⟩, ⟨analysis, han, hfail, hremain⟩,
      rfl, rfl, rfl⟩
    have hroot' : (folderId == rootDirectoryId) = false := by simpa using hroot
    unfold purgeDirectory
    simp only [hroot', hpurge, hfol, hst, hallows, han, hfail, hremain, requireAccess,
      Bool.not_true, Bool.false_eq_true, if_false, bne_self_eq_false, List.isEmpty_nil]

theorem createDocument_committed {folderId : Option NodeId} {title : String} {limitAllows : Bool}
    {newId revId fileId : String}
    (h : createDocument db actor folderId title inheritParent limitAllows submitted newId revId
      fileId = .committed code message db') :
    ∃ folder node, db.liveFolder? (orRoot folderId) = some folder ∧ node.type = .document ∧
      node.id = newId ∧ node.parentId = some folder.id ∧ node.status = .ok ∧
      (∀ other ∈ db.nodes, other.id ≠ node.id) ∧ db'.nodes = db.nodes ++ [node] := by
  unfold createDocument at h
  split at h
  · cases h
  split at h
  · cases h
  split at h
  · cases h
  rename_i folder hfol
  have hwrite := granted_of_requireWrite h
  split at hwrite
  · cases hwrite
  · obtain ⟨hfresh, -, hnodes⟩ := createNode_committed hwrite
    exact ⟨folder, _, hfol, rfl, rfl, rfl, rfl, hfresh, hnodes⟩

variable {documentId : NodeId}

theorem deleteDocument_committed
    (h : deleteDocument db actor documentId operationId = .committed code message db') :
    ∃ document, db.liveDocument? documentId = some document ∧
      db' = db.mapNodes (markDeleted [documentId] operationId) (markDeleted_id _ _) := by
  unfold deleteDocument at h
  split at h
  · cases h
  rename_i document hdoc
  split at h
  · cases h
  have hcomm := (requireAccess_eq_committed.mp h).2
  cases hcomm
  exact ⟨document, hdoc, rfl⟩

theorem moveDocument_committed
    (h : moveDocument db actor documentId targetFolderId = .committed code message db') :
    ∃ document target, db.liveDocument? documentId = some document ∧
      db.liveFolder? (orRoot targetFolderId) = some target ∧
      db' = db.mapNodes (setParent document.id target.id) (setParent_id _ _) := by
  unfold moveDocument at h
  split at h
  · cases h
  split at h
  · cases h
  rename_i document hdoc
  split at h
  · cases h
  have hmove := (requireAccess_eq_committed.mp h).2
  split at hmove
  · cases hmove
  rename_i target htgt
  obtain ⟨-, -, -, -, hdb⟩ := moveCommit_committed (granted_of_requireWrite hmove)
  exact ⟨document, target, hdoc, htgt, hdb⟩

theorem restoreDocument_committed {targetFolderId : Option (Option NodeId)}
    {newTitle : Option String}
    (h : restoreDocument db actor documentId targetFolderId newTitle = .committed code message db') :
    ∃ document target, db.document? documentId = some document ∧
      db.folder? target.id = some target ∧ target.status = .ok ∧
      db' = db.mapNodes (restoreNode documentId (newTitle.getD document.name) target.id)
        (restoreNode_id _ _ _) := by
  unfold restoreDocument at h
  split at h
  · cases h
  split at h
  · cases h
  rename_i document hdoc
  rw [Option.filter_eq_some_iff] at hdoc
  have hwrite := (requireAccess_eq_committed.mp h).2
  split at hwrite
  · cases hwrite
  rename_i target htgt
  have hcomm := (requireAccess_eq_committed.mp hwrite).2
  split at hcomm
  · cases hcomm
  rename_i hst
  rw [← Database.folder?_key htgt] at htgt
  exact ⟨document, target, hdoc.1, htgt, by simpa using hst, (commitNamed_eq_committed hcomm).symm⟩

theorem purgeDocument_committed
    (h : purgeDocument db actor documentId = .committed code message db') :
    ∃ document, db.document? documentId = some document ∧
      db' = db.removeNodes fun node => node.id == documentId := by
  unfold purgeDocument at h
  split at h
  · cases h
  split at h
  · cases h
  rename_i document hdoc
  split at h
  · cases h
  have hcomm := (requireAccess_eq_committed.mp h).2
  cases hcomm
  exact ⟨document, hdoc, rfl⟩

end

/-! ### Requests -/

/-- The requests that change the node table, each with its actor and what the server draws. -/
inductive Request
  | createDirectory (actor : Actor) (parentId : Option NodeId) (name : String) (inheritParent : Bool)
      (submitted : Database.SubmittedRules) (newId : NodeId)
  | moveDirectory (actor : Actor) (folderId : NodeId) (targetFolderId : Option NodeId)
  | deleteDirectory (actor : Actor) (folderId : NodeId) (operationId : String)
  | restoreDirectory (actor : Actor) (folderId : NodeId) (targetParentId : Option (Option NodeId))
      (newName : Option String)
  | purgeDirectory (actor : Actor) (folderId : NodeId)
  | createDocument (actor : Actor) (folderId : Option NodeId) (title : String)
      (inheritParent limitAllows : Bool) (submitted : Database.SubmittedRules)
      (newId revisionId fileId : String)
  | moveDocument (actor : Actor) (documentId : NodeId) (targetFolderId : Option NodeId)
  | deleteDocument (actor : Actor) (documentId : NodeId) (operationId : String)
  | restoreDocument (actor : Actor) (documentId : NodeId) (targetFolderId : Option (Option NodeId))
      (newTitle : Option String)
  | purgeDocument (actor : Actor) (documentId : NodeId)

/-- One request, handled without another in between. -/
def handle : Request → Outcome
  | .createDirectory actor parentId name inheritParent submitted newId =>
    createDirectory db actor parentId name inheritParent submitted newId
  | .moveDirectory actor folderId targetFolderId => moveDirectory db actor folderId targetFolderId
  | .deleteDirectory actor folderId operationId => deleteDirectory db actor folderId operationId
  | .restoreDirectory actor folderId targetParentId newName =>
    restoreDirectory db actor folderId targetParentId newName
  | .purgeDirectory actor folderId => purgeDirectory db actor folderId
  | .createDocument actor folderId title inheritParent limitAllows submitted newId revisionId fileId =>
    createDocument db actor folderId title inheritParent limitAllows submitted newId revisionId fileId
  | .moveDocument actor documentId targetFolderId => moveDocument db actor documentId targetFolderId
  | .deleteDocument actor documentId operationId => deleteDocument db actor documentId operationId
  | .restoreDocument actor documentId targetFolderId newTitle =>
    restoreDocument db actor documentId targetFolderId newTitle
  | .purgeDocument actor documentId => purgeDocument db actor documentId

def Outcome.isCommitted : Outcome → Bool
  | .committed _ _ _ => true
  | _ => false

end Cfms.Documents
