import Cfms.Lib.RecursiveQuery
import Mathlib.Data.List.Sort
import Mathlib.Data.Rat.Defs
import Mathlib.Data.String.Basic

/-!
# Staging and restoring nodes

`maintenance/backup/nodes.py`: the rows of `nodes`, `folders` and `documents` of an archive go to a
temporary index, from which nodes are inserted folder by folder, then the documents.  Names and
parents may stand in the rows of `nodes` or, in older archives, in those of `folders` and
`documents`, or there may be no rows of `nodes` at all.

The rows have the columns of one of these generations, with the values that the tables ask for, but
for names and parents.  The target has no nodes, and its constraints are those of the models.
-/

namespace Cfms.Backup

open Lib.RecursiveQuery

/-! ### Rows -/

/-- A field of a JSON row. -/
inductive Field
  | absent
  | null
  | value (s : String)
  deriving DecidableEq

/-- `row.get(field, default)`. -/
def Field.getD : Field → Option String → Option String
  | .absent, default => default
  | .null, _ => none
  | .value s, _ => some s

/-- `row.get(field)`. -/
def Field.get (field : Field) : Option String := field.getD none

/-- A row of `nodes`, as `_decode_row` leaves it. -/
structure NodeRow where
  id : String
  type : String
  name : Option String
  parentId : Option String
  inherit : Bool
  status : ℤ
  statusOperationId : Option String
  deriving DecidableEq

/-- A row of `folders`, with the columns of archives without `nodes`. -/
structure FolderRow where
  id : String
  createdTime : ℚ
  name : Field := .absent
  parentId : Field := .absent
  inherit : Option Bool := none
  status : Option ℤ := none
  statusOperationId : Option String := none

/-- A row of `documents`, with the columns of archives without `nodes`. -/
structure DocumentRow where
  id : String
  createdTime : ℚ
  title : Field := .absent
  folderId : Field := .absent
  inherit : Option Bool := none
  status : Option ℤ := none
  statusOperationId : Option String := none

inductive Subtype
  | folder (row : FolderRow)
  | document (row : DocumentRow)

def directoryType : String := "directory"

def documentType : String := "document"

/-- `ROOT_DIRECTORY_ID`. -/
def rootId : String := "/"

/-- `EntityStatus.DELETED`. -/
def deletedStatus : ℤ := 1

namespace Subtype

def id : Subtype → String
  | .folder row => row.id
  | .document row => row.id

/-- `node_type`. -/
def kind : Subtype → String
  | .folder _ => directoryType
  | .document _ => documentType

/-- `name` or `title`. -/
def legacyName : Subtype → Field
  | .folder row => row.name
  | .document row => row.title

/-- `parent_id` or `folder_id`. -/
def legacyParentId : Subtype → Field
  | .folder row => row.parentId
  | .document row => row.folderId

def createdTime : Subtype → ℚ
  | .folder row => row.createdTime
  | .document row => row.createdTime

def inherit : Subtype → Option Bool
  | .folder row => row.inherit
  | .document row => row.inherit

def status : Subtype → Option ℤ
  | .folder row => row.status
  | .document row => row.status

def statusOperationId : Subtype → Option String
  | .folder row => row.statusOperationId
  | .document row => row.statusOperationId

/-- The parent that is staged for a row of `folders` or `documents`. -/
def stagedParentId (row : Subtype) : Option String :=
  if row.id ≠ rootId then row.legacyParentId.get.or (some rootId) else row.legacyParentId.get

end Subtype

/-- The tables of an archive; `none` for a table that it does not have. -/
structure NodePayload where
  nodes : Option (List NodeRow)
  folders : Option (List FolderRow)
  documents : Option (List DocumentRow)

/-! ### Errors -/

inductive NodeRestoreError
  | duplicateIdentifiers
  | subtypeMismatch (id : String)
  | brokenHierarchy
  | missingFolder (documentId : String)
  | nameConflict (type id : String) (parentId name : Option String)
  /-- An `IntegrityError` of the target for another constraint than the names. -/
  | integrity (constraint : String)
  deriving DecidableEq

/-- `repr(value)`. -/
def quoted : Option String → String
  | some s => s!"'{s}'"
  | none => "None"

/-- The text of a `BackupFormatError`. -/
def NodeRestoreError.message : NodeRestoreError → Option String
  | .duplicateIdentifiers => some "Backup contains duplicate node identifiers"
  | .subtypeMismatch id => some s!"Backup node and subtype rows do not match for {quoted (some id)}"
  | .brokenHierarchy => some "Backup folder hierarchy contains a cycle or missing parent"
  | .missingFolder documentId =>
    some s!"Backup document {quoted (some documentId)} references a missing folder"
  | .nameConflict type id parentId name =>
    some ("Backup contains an active sibling name conflict while restoring " ++
      s!"{type}:{id} under parent {quoted parentId} with name {quoted name}")
  | .integrity _ => none

/-- `isinstance(exc, BackupFormatError)`. -/
def NodeRestoreError.isFormatError (error : NodeRestoreError) : Bool := error.message.isSome

/-! ### The index -/

/-- A row of `staged_nodes`. -/
structure StagedNode where
  node : NodeRow
  parentId : Option String
  subtype : Option Subtype

namespace StagedNode

abbrev id (staged : StagedNode) : String := staged.node.id

abbrev type (staged : StagedNode) : String := staged.node.type

/-- The `WHERE` clause of `_attach_subtype_rows`. -/
def awaits (staged : StagedNode) (row : Subtype) : Bool :=
  staged.id == row.id && staged.type == row.kind && staged.subtype.isNone

def attach (staged : StagedNode) (row : Subtype) : StagedNode where
  node := staged.node
  subtype := some row
  parentId := if staged.id = rootId then staged.parentId else staged.parentId.or row.stagedParentId

/-- No row for the query of invalid nodes. -/
def isValid (staged : StagedNode) : Bool :=
  staged.subtype.any (fun row => row.kind == staged.type) &&
    (staged.type == directoryType || staged.type == documentType)

end StagedNode

variable (index : List StagedNode)

/-- `INSERT INTO staged_nodes`. -/
def insertStaged (staged : StagedNode) : Except NodeRestoreError (List StagedNode) :=
  if index.any fun other => other.id == staged.id then .error .duplicateIdentifiers
  else .ok (index ++ [staged])

/-- The loop over the rows of `nodes`. -/
def stageNodeRow (row : NodeRow) : Except NodeRestoreError (List StagedNode) :=
  insertStaged index { node := row, parentId := row.parentId, subtype := none }

/-- `_attach_subtype_rows`. -/
def attachSubtypeRow (row : Subtype) : Except NodeRestoreError (List StagedNode) :=
  if index.any fun staged => staged.awaits row then
    .ok (index.map fun staged => if staged.awaits row then staged.attach row else staged)
  else .error (.subtypeMismatch row.id)

/-- `_insert_legacy_subtype_rows`. -/
def insertLegacySubtypeRow (row : Subtype) : Except NodeRestoreError (List StagedNode) :=
  let node : NodeRow :=
    { id := row.id
      type := row.kind
      name := row.legacyName.get
      parentId := row.stagedParentId
      inherit := row.inherit.getD true
      status := row.status.getD 0
      statusOperationId := row.statusOperationId }
  insertStaged index { node, parentId := row.stagedParentId, subtype := some row }

def rootNode : NodeRow where
  id := rootId
  type := directoryType
  name := some rootId
  parentId := none
  inherit := true
  status := 0
  statusOperationId := none

def rootFolder : Subtype := .folder { id := rootId, createdTime := 0 }

/-- The root is added to an index that has nodes, or gets its row of `folders`. -/
def addRoot : List StagedNode :=
  if index.isEmpty then index
  else if index.any fun staged => staged.id == rootId then
    index.map fun staged =>
      if staged.awaits rootFolder then { staged with subtype := some rootFolder } else staged
  else index ++ [{ node := rootNode, parentId := none, subtype := some rootFolder }]

def loadNodeIndex (payload : NodePayload) : Except NodeRestoreError (List StagedNode) := do
  let index ← (payload.nodes.getD []).foldlM stageNodeRow []
  let load := if payload.nodes.isSome then attachSubtypeRow else insertLegacySubtypeRow
  let index ← ((payload.folders.getD []).map .folder).foldlM load index
  let index ← ((payload.documents.getD []).map .document).foldlM load index
  let index := addRoot index
  match index.find? fun staged => !staged.isValid with
  | some staged => .error (.subtypeMismatch staged.id)
  | none => return index

/-! ### The target -/

/-- What is inserted into `folders` or `documents`; a document has no current revision yet. -/
structure SubtypeRecord where
  id : String
  createdTime : ℚ
  deriving DecidableEq

structure RestoredTables where
  nodes : List NodeRow := []
  folders : List SubtypeRecord := []
  documents : List SubtypeRecord := []
  deriving DecidableEq

namespace NodeRow

/-- `ck_nodes_root_parent`. -/
def rootParentHolds (row : NodeRow) : Bool :=
  if row.id == rootId then row.parentId.isNone && row.type == directoryType
  else row.parentId.isSome

/-- The generated column `active_name`. -/
def activeName (row : NodeRow) : Option String :=
  if row.status = deletedStatus then none else row.name

/-- The rows violate `uq_nodes_active_parent_name`. -/
def conflicts (row other : NodeRow) : Bool :=
  row.parentId.isSome && row.activeName.isSome && row.parentId == other.parentId &&
    row.activeName == other.activeName

end NodeRow

variable (tables : RestoredTables)

def insertRestoredNode (row : NodeRow) : Except NodeRestoreError RestoredTables :=
  if row.name.isNone then .error (.integrity "nodes.name")
  else if !row.rootParentHolds then .error (.integrity "ck_nodes_root_parent")
  else if tables.nodes.any fun other => other.id == row.id then .error (.integrity "nodes.id")
  else if tables.nodes.any fun other => row.conflicts other then
    .error (.nameConflict row.type row.id row.parentId row.name)
  else if row.parentId.any fun id => !(tables.folders.any fun folder => folder.id == id) then
    .error (.integrity "fk_nodes_parent_id_folders")
  else .ok { tables with nodes := tables.nodes ++ [row] }

/-- `connection.execute(insert(tables["folders"]), folder)`, and the same for `documents`. -/
def insertSubtype (row : Subtype) : Except NodeRestoreError RestoredTables :=
  let record : SubtypeRecord := { id := row.id, createdTime := row.createdTime }
  if !(tables.nodes.any fun node => node.id == row.id) then .error (.integrity "subtype of nodes")
  else
    match row with
    | .folder _ =>
      if tables.folders.any fun other => other.id == row.id then .error (.integrity "folders.id")
      else .ok { tables with folders := tables.folders ++ [record] }
    | .document _ =>
      if tables.documents.any fun other => other.id == row.id then
        .error (.integrity "documents.id")
      else .ok { tables with documents := tables.documents ++ [record] }

/-! ### Restoring -/

def mergeLegacyNamespace (node : NodeRow) (subtype : Subtype) : NodeRow where
  id := node.id
  type := node.type
  name := if node.name.isNone then subtype.legacyName.get else node.name
  parentId :=
    if node.id ≠ rootId ∧ node.parentId = none then subtype.legacyParentId.getD (some rootId)
    else node.parentId
  inherit := node.inherit
  status := node.status
  statusOperationId := node.statusOperationId

/-- The loop bodies of `_restore_indexed_nodes`. -/
def restoreNode (staged : StagedNode) : Except NodeRestoreError RestoredTables :=
  match staged.subtype with
  | none => .error (.subtypeMismatch staged.id)
  | some subtype => do
    let tables ← insertRestoredNode tables (mergeLegacyNamespace staged.node subtype)
    insertSubtype tables subtype

def orderById : List StagedNode :=
  index.insertionSort fun staged other => staged.id ≤ other.id

def directories : List StagedNode :=
  index.filter fun staged => staged.type == directoryType

/-- The anchor of `hierarchy`. -/
def rootDirectories : List StagedNode :=
  (directories index).filter fun staged => staged.id == rootId && staged.parentId.isNone

/-- The directories that the recursive part of `hierarchy` joins to a row. -/
def childDirectories (parent : StagedNode) : List StagedNode :=
  (directories index).filter fun child => child.parentId == some parent.id

def directoriesAtDepth (depth : ℕ) : List StagedNode :=
  rounds (childDirectories index) (rootDirectories index) depth

/-- `folder_rows`.  No depth is larger than the number of nodes. -/
def folderRows : List StagedNode :=
  (List.range (index.length + 1)).flatMap fun depth => orderById (directoriesAtDepth index depth)

def documentRows : List StagedNode :=
  orderById (index.filter fun staged => staged.type == documentType)

/-- The join of the query for missing parents finds a row. -/
def hasFolder (staged : StagedNode) : Bool :=
  (directories index).any fun parent => staged.parentId == some parent.id

def restoreIndexedNodes : Except NodeRestoreError RestoredTables := do
  let tables ← (folderRows index).foldlM restoreNode {}
  if (folderRows index).length ≠ (directories index).length then .error .brokenHierarchy
  else
    match (documentRows index).find? fun staged => !hasFolder index staged with
    | some staged => .error (.missingFolder staged.id)
    | none => (documentRows index).foldlM restoreNode tables

end Cfms.Backup
