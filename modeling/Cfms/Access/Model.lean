import Mathlib.Algebra.Order.Ring.Rat
import Mathlib.Data.List.Nodup

/-!
# The access-control tables

The rows the authorization code reads, under the column names of `include/database/models`.
Text columns whose values the request models and JSON schemas enumerate are inductive types:
node types, entity statuses, access types, the two match modes, the principals of an
object-access entry and the target kinds of a user block.  Instants are compared and never
computed with.

A `Database` carries the primary key of the `nodes` table as a field, and that its identifiers
(`"/"` and random tokens) are not empty.  Rows that belong to a parent row refer to it by
identifier, as the foreign keys do; the ORM collections (`rule.match_groups`, `group.rights`,
`group.groups`) are the rows that refer to the parent.
-/

namespace Cfms.Access

open List

abbrev NodeId := String
abbrev Instant := ℚ

def rootDirectoryId : NodeId := "/"

inductive NodeType
  | document
  | directory
  deriving DecidableEq

inductive EntityStatus
  | ok
  | deleted
  | locked
  deriving DecidableEq

/-- `AVAILABLE_ACCESS_TYPES`. -/
inductive AccessType
  | read
  | write
  | move
  | manage
  deriving DecidableEq

inductive MatchMode
  | all
  | any
  deriving DecidableEq

@[simp] theorem MatchMode.all_beq_any : (MatchMode.all == MatchMode.any) = false := rfl

@[simp] theorem MatchMode.any_beq_all : (MatchMode.any == MatchMode.all) = false := rfl

inductive EntityType
  | user
  | group
  deriving DecidableEq

inductive BlockTargetType
  | all
  | directory
  | document
  deriving DecidableEq

/-- A row of `nodes`, joined with its `folders` or `documents` row. -/
structure Node where
  id : NodeId
  type : NodeType
  name : String
  parentId : Option NodeId
  inherit : Bool := true
  status : EntityStatus := .ok
  statusOperationId : Option String := none
  accessRuleSetId : Option String := none
  currentRevisionId : Option String := none
  deriving DecidableEq

structure CompiledAccessRuleSet where
  id : String
  nodeId : NodeId
  deriving DecidableEq

structure CompiledAccessRule where
  id : ℕ
  ruleSetId : String
  accessType : AccessType
  matchMode : MatchMode
  deriving DecidableEq

structure CompiledAccessRuleGroup where
  id : String
  ruleId : ℕ
  groupIndex : ℕ
  matchMode : MatchMode
  rightsMatchMode : MatchMode
  rightsEmpty : Bool
  groupsMatchMode : MatchMode
  groupsEmpty : Bool
  deriving DecidableEq

structure CompiledAccessRuleRight where
  groupId : String
  permission : String
  deriving DecidableEq

structure CompiledAccessRuleMembership where
  groupId : String
  groupName : String
  deriving DecidableEq

structure ObjectAccessEntry where
  entityType : EntityType
  entityIdentifier : String
  targetType : NodeType
  targetIdentifier : NodeId
  accessType : AccessType
  startTime : Instant
  endTime : Option Instant
  deriving DecidableEq

structure UserBlockEntry where
  blockId : String
  userId : String
  notBefore : Instant
  notAfter : Instant
  targetType : BlockTargetType
  targetId : Option NodeId
  deriving DecidableEq

structure UserBlockSubEntry where
  parentId : String
  blockType : AccessType
  deriving DecidableEq

structure DocumentRevision where
  id : String
  documentId : NodeId
  fileId : String
  deriving DecidableEq

structure File where
  id : String
  active : Bool
  deriving DecidableEq

/-- The acting user: the identifier as text, and the sets `all_permissions` and `all_groups`
at the time of the request. -/
structure User where
  id : String
  allPermissions : List String
  allGroups : List String
  deriving DecidableEq

structure Database where
  nodes : List Node
  nodeIds_nodup : (nodes.map Node.id).Nodup
  nodeIds_ne_empty : ∀ node ∈ nodes, node.id ≠ ""
  ruleSets : List CompiledAccessRuleSet := []
  rules : List CompiledAccessRule := []
  ruleGroups : List CompiledAccessRuleGroup := []
  ruleRights : List CompiledAccessRuleRight := []
  ruleMemberships : List CompiledAccessRuleMembership := []
  objectAccessEntries : List ObjectAccessEntry := []
  userBlockEntries : List UserBlockEntry := []
  userBlockSubEntries : List UserBlockSubEntry := []
  revisions : List DocumentRevision := []
  files : List File := []

/-- The row filter the session adds to every `Folder` and `Document` query. -/
def Node.notDeleted (node : Node) : Bool := node.status != .deleted

def Node.isFolder (node : Node) : Bool := node.type == .directory

def Node.isDocument (node : Node) : Bool := node.type == .document

@[simp] theorem Node.isFolder_iff {node : Node} : node.isFolder = true ↔ node.type = .directory := by
  simp [Node.isFolder]

@[simp] theorem Node.isDocument_iff {node : Node} :
    node.isDocument = true ↔ node.type = .document := by
  simp [Node.isDocument]

@[simp] theorem Node.notDeleted_iff {node : Node} :
    node.notDeleted = true ↔ node.status ≠ .deleted := by
  simp [Node.notDeleted]

variable (db : Database)

namespace Database

/-- All folder rows, soft-deleted ones included. -/
def folders : List Node := db.nodes.filter Node.isFolder

/-- All document rows, soft-deleted ones included. -/
def documents : List Node := db.nodes.filter Node.isDocument

/-- The row with a given identifier. -/
def node? (id : NodeId) : Option Node := db.nodes.find? (fun n => n.id == id)

/-- The folder row with a given identifier, soft-deleted or not. -/
def folder? (id : NodeId) : Option Node := (db.node? id).filter Node.isFolder

def matchGroups (rule : CompiledAccessRule) : List CompiledAccessRuleGroup :=
  db.ruleGroups.filter (fun group => group.ruleId == rule.id)

/-- `group.rights`, as the set of required permissions. -/
def requiredRights (group : CompiledAccessRuleGroup) : List String :=
  (db.ruleRights.filter (fun right => right.groupId == group.id)).map
    CompiledAccessRuleRight.permission

/-- `group.groups`, as the set of required group names. -/
def requiredGroups (group : CompiledAccessRuleGroup) : List String :=
  (db.ruleMemberships.filter (fun membership => membership.groupId == group.id)).map
    CompiledAccessRuleMembership.groupName

end Database

/-! ### Lookups by primary key -/

theorem find?_key_eq_some {l : List Node} (hl : (l.map Node.id).Nodup) {node : Node} :
    l.find? (fun n => n.id == node.id) = some node ↔ node ∈ l := by
  constructor
  · intro h
    exact mem_of_find?_eq_some h
  · intro h
    obtain ⟨found, hfound⟩ : ∃ found, l.find? (fun n => n.id == node.id) = some found :=
      Option.isSome_iff_exists.mp (find?_isSome.mpr ⟨node, h, by simp⟩)
    have hid : found.id = node.id := by simpa using find?_some hfound
    rw [hfound, inj_on_of_nodup_map hl (mem_of_find?_eq_some hfound) h hid]

theorem find?_key_id {l : List Node} {id : NodeId} {node : Node}
    (h : l.find? (fun n => n.id == id) = some node) : node.id = id := by
  simpa using find?_some h

namespace Database

variable {db : Database} {id : NodeId} {node : Node}

theorem node?_eq_some : db.node? id = some node ↔ node ∈ db.nodes ∧ node.id = id := by
  constructor
  · intro h
    exact ⟨mem_of_find?_eq_some h, find?_key_id h⟩
  · rintro ⟨hmem, rfl⟩
    exact (find?_key_eq_some db.nodeIds_nodup).mpr hmem

theorem folder?_eq_some :
    db.folder? id = some node ↔ node ∈ db.nodes ∧ node.id = id ∧ node.type = .directory := by
  simp only [folder?, Option.filter_eq_some_iff, node?_eq_some, Node.isFolder_iff, and_assoc]

theorem eq_of_id_eq {a b : Node} (ha : a ∈ db.nodes) (hb : b ∈ db.nodes) (h : a.id = b.id) :
    a = b := by
  have h₁ : db.node? a.id = some a := node?_eq_some.mpr ⟨ha, rfl⟩
  have h₂ : db.node? a.id = some b := node?_eq_some.mpr ⟨hb, h.symm⟩
  rw [h₁] at h₂
  exact Option.some.inj h₂

theorem find?_id_eq_some {l : List Node} (hl : ∀ n ∈ l, n ∈ db.nodes) :
    l.find? (fun n => n.id == id) = some node ↔ node ∈ l ∧ node.id = id := by
  constructor
  · intro h
    exact ⟨mem_of_find?_eq_some h, find?_key_id h⟩
  · rintro ⟨hmem, rfl⟩
    obtain ⟨found, hfound⟩ : ∃ found, l.find? (fun n => n.id == node.id) = some found :=
      Option.isSome_iff_exists.mp (find?_isSome.mpr ⟨node, hmem, by simp⟩)
    rw [hfound, eq_of_id_eq (hl _ (mem_of_find?_eq_some hfound)) (hl _ hmem) (find?_key_id hfound)]

theorem mem_folders : node ∈ db.folders ↔ node ∈ db.nodes ∧ node.type = .directory := by
  simp [folders]

theorem mem_documents : node ∈ db.documents ↔ node ∈ db.nodes ∧ node.type = .document := by
  simp [documents]

theorem folderIds_nodup (db : Database) : (db.folders.map Node.id).Nodup :=
  db.nodeIds_nodup.sublist (filter_sublist.map Node.id)

end Database

end Cfms.Access
