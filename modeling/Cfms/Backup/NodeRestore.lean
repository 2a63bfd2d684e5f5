import Cfms.Backup.NodeStaging
import Cfms.Lib.Forest

/-!
# Restored hierarchies

A restore of nodes reproduces the staged hierarchy or is refused, unless it comes to a node that the
target does not take: one without a name, or one whose parent is null in its row of `nodes` and in
its older row.
-/

namespace Cfms.Backup

open Lib Lib.Forest Lib.RecursiveQuery List

variable {index : List StagedNode}

/-! ### What should be restored -/

def stagedParent (index : List StagedNode) (id : String) : Option String :=
  (index.find? fun staged => staged.id = id).bind StagedNode.parentId

/-- The name that is restored. -/
def StagedNode.name (staged : StagedNode) : Option String :=
  staged.node.name.or (staged.subtype.bind fun row => row.legacyName.get)

/-- A parent link that leads back to its node. -/
def HasCycle (index : List StagedNode) : Prop :=
  ∃ staged ∈ index, ∃ parentId, staged.parentId = some parentId ∧
    Below (stagedParent index) parentId staged.id

def HasBrokenLink (index : List StagedNode) : Prop :=
  ∃ staged ∈ index, ∃ parentId, staged.parentId = some parentId ∧
    ¬ ∃ parent ∈ index, parent.id = parentId ∧ parent.type = directoryType

/-- Two siblings that are not deleted share a name. -/
def HasNameConflict (index : List StagedNode) : Prop :=
  ∃ staged ∈ index, ∃ other ∈ index, staged.id ≠ other.id ∧ staged.parentId.isSome = true ∧
    staged.parentId = other.parentId ∧ staged.node.status ≠ deletedStatus ∧
    other.node.status ≠ deletedStatus ∧ staged.name.isSome = true ∧ staged.name = other.name

/-- Every staged node is inserted once, under its staged parent, which comes earlier. -/
structure Reproduces (index : List StagedNode) (tables : RestoredTables) : Prop where
  once : (tables.nodes.map NodeRow.id).Perm (index.map StagedNode.id)
  parents : ∀ row ∈ tables.nodes, ∀ staged ∈ index, staged.id = row.id →
    row.parentId = staged.parentId
  earlier : ∀ before row after, tables.nodes = before ++ row :: after →
    ∀ parentId, row.parentId = some parentId → ∃ parent ∈ before, parent.id = parentId

/-- The restore is refused with a `BackupFormatError`, as it must be for a malformed hierarchy, or
reproduces the hierarchy. -/
def RestoredFaithfully (index : List StagedNode) : Prop :=
  match restoreIndexedNodes index with
  | .error error => error.isFormatError = true
  | .ok tables =>
    Reproduces index tables ∧ ¬ HasCycle index ∧ ¬ HasBrokenLink index ∧ ¬ HasNameConflict index

/-! ### When it is restored -/

def StagedNode.merged (staged : StagedNode) : NodeRow :=
  staged.subtype.elim staged.node (mergeLegacyNamespace staged.node)

/-- The target takes the row by itself. -/
def StagedNode.Insertable (staged : StagedNode) : Prop :=
  staged.merged.name.isSome = true ∧
    (staged.id ≠ rootId → staged.merged.parentId.isSome = true)

/-- The folder is reached from the root in this many steps. -/
def AtDepth (index : List StagedNode) (depth : ℕ) (staged : StagedNode) : Prop :=
  staged ∈ directoriesAtDepth index depth

/-- Every folder is reached from the root, and every document lies in a folder. -/
def Connected (index : List StagedNode) : Prop :=
  (∀ staged ∈ directories index, ∃ depth, AtDepth index depth staged) ∧
    ∀ staged ∈ documentRows index, hasFolder index staged = true

/-- Folders are restored by depth and id, and then documents by id. -/
def Precedes (index : List StagedNode) (staged other : StagedNode) : Prop :=
  (∃ depth depth', AtDepth index depth staged ∧ AtDepth index depth' other ∧
      (depth < depth' ∨ depth = depth' ∧ staged.id < other.id)) ∨
    (∃ depth, AtDepth index depth staged) ∧ other ∈ documentRows index ∨
    staged ∈ documentRows index ∧ other ∈ documentRows index ∧ staged.id < other.id

/-- A restore does not come to the node. -/
def OutOfReach (index : List StagedNode) (staged : StagedNode) : Prop :=
  staged ∈ directories index ∧ (∀ depth, ¬ AtDepth index depth staged) ∨
    staged ∈ documentRows index ∧ ¬ Connected index

/-- A restore comes to no node that the target does not take: such nodes are out of reach, or two
nodes that precede them share a name. -/
def StopsEarly (index : List StagedNode) : Prop :=
  ∀ staged ∈ index, ¬ staged.Insertable → OutOfReach index staged ∨
    ∃ first second, Precedes index first staged ∧ Precedes index second staged ∧
      first.id ≠ second.id ∧ second.merged.conflicts first.merged = true

/-! ### The index -/

/-- What the loading of an index establishes. -/
structure IndexSound (index : List StagedNode) : Prop where
  nodup : (index.map StagedNode.id).Nodup
  subtypes : ∀ staged ∈ index, ∃ row, staged.subtype = some row ∧ row.id = staged.id ∧
    row.kind = staged.type
  types : ∀ staged ∈ index, staged.type = directoryType ∨ staged.type = documentType
  root : index ≠ [] → ∃ staged ∈ index, staged.id = rootId
  rootParent : ∀ staged ∈ index, staged.id = rootId → staged.parentId = staged.node.parentId
  parents : ∀ staged ∈ index, staged.id ≠ rootId → ∀ row, staged.subtype = some row →
    staged.parentId = staged.node.parentId.or row.stagedParentId

/-- What holds while rows are staged. -/
structure Staging (index : List StagedNode) : Prop where
  nodup : (index.map StagedNode.id).Nodup
  subtypes : ∀ staged ∈ index, ∀ row, staged.subtype = some row → row.id = staged.id
  rootParent : ∀ staged ∈ index, staged.id = rootId → staged.parentId = staged.node.parentId
  parents : ∀ staged ∈ index, staged.id ≠ rootId → ∀ row, staged.subtype = some row →
    staged.parentId = staged.node.parentId.or row.stagedParentId
  unattached : ∀ staged ∈ index, staged.subtype = none → staged.parentId = staged.node.parentId

variable {index' : List StagedNode} {staged : StagedNode}

/-- A row enters the index when its id is new. -/
theorem insertStaged_ok (h : insertStaged index staged = .ok index') :
    index' = index ++ [staged] ∧ staged.id ∉ index.map StagedNode.id := by
  rw [insertStaged] at h
  split at h
  · cases h
  next hfresh =>
    cases h
    refine ⟨rfl, ?_⟩
    intro hmem
    obtain ⟨other, hother, heq⟩ := mem_map.mp hmem
    exact hfresh (any_eq_true.mpr ⟨other, hother, beq_iff_eq.mpr heq⟩)

/-- The index keeps its invariant when a row enters. -/
theorem Staging.insert (h : Staging index) (hinsert : insertStaged index staged = .ok index')
    (hsubtypes : ∀ row, staged.subtype = some row → row.id = staged.id)
    (hpar : staged.parentId = staged.node.parentId)
    (hleg : staged.id ≠ rootId → ∀ row, staged.subtype = some row →
      staged.parentId = staged.node.parentId.or row.stagedParentId) : Staging index' := by
  obtain ⟨rfl, hfresh⟩ := insertStaged_ok hinsert
  constructor
  case nodup =>
    rw [map_append, nodup_append]
    refine ⟨h.nodup, pairwise_singleton .., ?_⟩
    rintro id hid _ hlast rfl
    rw [map_singleton, mem_singleton] at hlast
    exact hfresh (hlast ▸ hid)
  all_goals
    intro other hother
    rcases mem_append.mp hother with hold | hnew
  case subtypes.inl => exact h.subtypes other hold
  case rootParent.inl => exact h.rootParent other hold
  case parents.inl => exact h.parents other hold
  case unattached.inl => exact h.unattached other hold
  all_goals rw [mem_singleton.mp hnew]
  case subtypes.inr => exact hsubtypes
  case rootParent.inr | unattached.inr => exact fun _ => hpar
  case parents.inr => exact hleg

/-- The index keeps its invariant when rows only get their subtypes. -/
theorem Staging.map {f : StagedNode → StagedNode} (h : Staging index)
    (hnode : ∀ staged, (f staged).node = staged.node)
    (hf : ∀ staged ∈ index, f staged = staged ∨
      ∃ row, (f staged).subtype = some row ∧ row.id = staged.id ∧
        (staged.id = rootId → (f staged).parentId = staged.parentId) ∧
        (staged.id ≠ rootId → (f staged).parentId = staged.node.parentId.or row.stagedParentId)) :
    Staging (index.map f) := by
  have hid : ∀ staged, (f staged).id = staged.id := fun staged => congrArg NodeRow.id (hnode staged)
  constructor
  case nodup =>
    have hids : (index.map f).map StagedNode.id = index.map StagedNode.id := by
      rw [map_map]
      exact map_congr_left fun staged _ => hid staged
    rw [hids]
    exact h.nodup
  all_goals
    intro other hother
    obtain ⟨staged, hmem, rfl⟩ := mem_map.mp hother
    rcases hf staged hmem with hsame | ⟨row, hrow, hrowId, hroot, hpar⟩
  case subtypes.inl =>
    rw [hsame]
    exact h.subtypes staged hmem
  case rootParent.inl =>
    rw [hsame]
    exact h.rootParent staged hmem
  case parents.inl =>
    rw [hsame]
    exact h.parents staged hmem
  case unattached.inl =>
    rw [hsame]
    exact h.unattached staged hmem
  case subtypes.inr =>
    intro other hother
    rw [hrow, Option.some.injEq] at hother
    rw [← hother, hrowId, hid]
  case rootParent.inr =>
    intro hrootId
    rw [hid] at hrootId
    rw [hroot hrootId, hnode, h.rootParent staged hmem hrootId]
  case parents.inr =>
    intro hne other hother
    rw [hrow, Option.some.injEq] at hother
    rw [hid] at hne
    rw [← hother, hnode, hpar hne]
  case unattached.inr =>
    intro hnone
    rw [hrow] at hnone
    cases hnone

theorem exists_of_bind_eq_ok {α β ε : Type} {x : Except ε α} {f : α → Except ε β} {b : β}
    (h : (x >>= f) = .ok b) : ∃ a, x = .ok a ∧ f a = .ok b := by
  cases x with
  | error error => cases h
  | ok a => exact ⟨a, rfl, h⟩

theorem foldlM_preserves {α β ε : Type*} {f : β → α → Except ε β} {P : β → Prop}
    (hstep : ∀ b a b', P b → f b a = .ok b' → P b') {rows : List α} {b b' : β} (hb : P b)
    (h : rows.foldlM f b = .ok b') : P b' := by
  induction rows generalizing b with
  | nil =>
    cases h
    exact hb
  | cons row rows ih =>
    rw [foldlM_cons] at h
    cases hrow : f b row with
    | error error =>
      rw [hrow] at h
      cases h
    | ok middle =>
      rw [hrow] at h
      exact ih (hstep b row middle hb hrow) h

theorem Staging.start : Staging [] where
  nodup := .nil
  subtypes _ h := absurd h not_mem_nil
  rootParent _ h := absurd h not_mem_nil
  parents _ h := absurd h not_mem_nil
  unattached _ h := absurd h not_mem_nil

theorem Staging.stageNodeRow {row : NodeRow} (h : Staging index)
    (hrow : stageNodeRow index row = .ok index') : Staging index' := by
  refine h.insert hrow ?_ rfl ?_
  · intro other hother
    cases hother
  · intro _ other hother
    cases hother

variable {row : Subtype}

theorem Staging.insertLegacySubtypeRow (h : Staging index)
    (hrow : insertLegacySubtypeRow index row = .ok index') : Staging index' := by
  refine h.insert hrow ?_ rfl ?_
  · intro other hother
    cases hother
    rfl
  · intro _ other hother
    cases hother
    cases row.stagedParentId <;> rfl

theorem awaits_iff : staged.awaits row = true ↔
      staged.id = row.id ∧ staged.type = row.kind ∧ staged.subtype = none := by
  simp [StagedNode.awaits, and_assoc]

theorem Staging.attachSubtypeRow (h : Staging index)
    (hrow : attachSubtypeRow index row = .ok index') : Staging index' := by
  rw [Backup.attachSubtypeRow] at hrow
  split at hrow
  · cases hrow
    apply h.map
    · intro staged
      split <;> rfl
    · intro staged hmem
      split
      next hawaits =>
        obtain ⟨hid, -, hnone⟩ := awaits_iff.mp hawaits
        refine Or.inr ⟨row, rfl, hid.symm, ?_, ?_⟩
        · exact fun hroot => if_pos hroot
        intro hne
        rw [← h.unattached staged hmem hnone]
        exact if_neg hne
      next => exact Or.inl rfl
  · cases hrow

theorem Staging.addRoot (h : Staging index) : Staging (addRoot index) := by
  rw [Backup.addRoot]
  split
  · exact h
  split
  · apply h.map
    · intro staged
      split <;> rfl
    · intro staged hmem
      split
      next hawaits =>
        obtain ⟨hid, -, -⟩ := awaits_iff.mp hawaits
        exact Or.inr ⟨rootFolder, rfl, hid.symm, fun _ => rfl, fun hne => absurd hid hne⟩
      next => exact Or.inl rfl
  next hroot =>
    have hinsert : insertStaged index
        { node := rootNode, parentId := none, subtype := some rootFolder } = .ok _ :=
      if_neg hroot
    refine h.insert hinsert ?_ rfl (fun hne => absurd rfl hne)
    intro other hother
    cases hother
    rfl

/-- An index that is not empty has the root. -/
theorem root_of_addRoot (h : addRoot index ≠ []) :
    ∃ staged ∈ addRoot index, staged.id = rootId := by
  rw [addRoot] at h ⊢
  split at h
  next hempty => exact absurd (isEmpty_iff.mp hempty) h
  next hnonempty =>
    rw [if_neg hnonempty]
    split
    next hroot =>
      obtain ⟨staged, hmem, hid⟩ := any_eq_true.mp hroot
      refine ⟨_, mem_map_of_mem hmem, ?_⟩
      split <;> exact beq_iff_eq.mp hid
    next => exact ⟨_, mem_append_right _ (mem_singleton_self _), rfl⟩

/-- **What `load` accepts is sound**: unique ids, subtypes with their nodes, agreeing parents. -/
theorem indexSound_of_load {payload : NodePayload} (h : loadNodeIndex payload = .ok index) :
    IndexSound index := by
  obtain ⟨staged, hstaged, h⟩ := exists_of_bind_eq_ok h
  obtain ⟨withFolders, hfols, h⟩ := exists_of_bind_eq_ok h
  obtain ⟨withDocuments, hdocs, h⟩ := exists_of_bind_eq_ok h
  have hload : ∀ index row index', Staging index →
      (if payload.nodes.isSome then attachSubtypeRow else insertLegacySubtypeRow) index row =
        .ok index' → Staging index' := by
    intro index row index' hindex hrow
    split at hrow
    · exact hindex.attachSubtypeRow hrow
    · exact hindex.insertLegacySubtypeRow hrow
  have hstaging : Staging withDocuments :=
    foldlM_preserves hload (foldlM_preserves hload
      (foldlM_preserves (fun _ _ _ => Staging.stageNodeRow) Staging.start hstaged) hfols) hdocs
  have hindex := hstaging.addRoot
  dsimp only at h
  split at h
  · cases h
  next hvalid =>
    cases h
    -- Every node passes the query for invalid nodes.
    have hisValid : ∀ staged ∈ addRoot withDocuments, staged.isValid = true := by
      intro staged hmem
      simpa using find?_eq_none.mp hvalid staged hmem
    constructor
    case nodup => exact hindex.nodup
    case subtypes =>
      intro staged hmem
      have hvalid := hisValid staged hmem
      rw [StagedNode.isValid, Bool.and_eq_true, Option.any_eq_true] at hvalid
      obtain ⟨⟨row, hrow, hkind⟩, -⟩ := hvalid
      exact ⟨row, hrow, hindex.subtypes staged hmem row hrow, beq_iff_eq.mp hkind⟩
    case types =>
      intro staged hmem
      have hvalid := hisValid staged hmem
      rw [StagedNode.isValid, Bool.and_eq_true, Bool.or_eq_true, beq_iff_eq, beq_iff_eq] at hvalid
      exact hvalid.2
    case root => exact root_of_addRoot
    case rootParent => exact hindex.rootParent
    case parents => exact hindex.parents

/-! ### The order of the restore -/

section

variable {staged : StagedNode}

theorem mem_directories :
    staged ∈ directories index ↔ staged ∈ index ∧ staged.type = directoryType := by
  rw [directories, mem_filter, beq_iff_eq]

theorem mem_orderById : staged ∈ orderById index ↔ staged ∈ index :=
  (perm_insertionSort _ index).mem_iff

theorem mem_documentRows :
    staged ∈ documentRows index ↔ staged ∈ index ∧ staged.type = documentType := by
  rw [documentRows, mem_orderById, mem_filter, beq_iff_eq]

theorem mem_rootDirectories : staged ∈ rootDirectories index ↔
      staged ∈ directories index ∧ staged.id = rootId ∧ staged.parentId = none := by
  simp [rootDirectories]

theorem mem_childDirectories {parent : StagedNode} : staged ∈ childDirectories index parent ↔
      staged ∈ directories index ∧ staged.parentId = some parent.id := by
  rw [childDirectories, mem_filter, beq_iff_eq]

variable {depth : ℕ}

/-- A directory is one level below its parent. -/
theorem atDepth_succ : AtDepth index (depth + 1) staged ↔
      ∃ parent, AtDepth index depth parent ∧ staged ∈ directories index ∧
        staged.parentId = some parent.id := by
  simp only [AtDepth, directoriesAtDepth, mem_rounds_succ, mem_childDirectories]

theorem AtDepth.mem_directories (h : AtDepth index depth staged) : staged ∈ directories index := by
  cases depth with
  | zero => exact (mem_rootDirectories.mp h).1
  | succ depth =>
    obtain ⟨-, -, hmem, -⟩ := atDepth_succ.mp h
    exact hmem

variable {other : StagedNode}

theorem IndexSound.eq_of_id (hindex : IndexSound index)
    (hstaged : staged ∈ index) (hother : other ∈ index) (h : staged.id = other.id) :
    staged = other :=
  inj_on_of_nodup_map hindex.nodup hstaged hother h

/-- A directory has one depth. -/
theorem AtDepth.unique (hindex : IndexSound index) {depth' : ℕ}
    (h : AtDepth index depth staged) (h' : AtDepth index depth' staged) : depth = depth' := by
  induction depth generalizing depth' staged with
  | zero =>
    cases depth' with
    | zero => rfl
    | succ depth' =>
      obtain ⟨-, -, hnone⟩ := mem_rootDirectories.mp h
      obtain ⟨parent, -, -, hpar⟩ := atDepth_succ.mp h'
      rw [hnone] at hpar
      cases hpar
  | succ depth ih =>
    obtain ⟨parent, hdepth, -, hpar⟩ := atDepth_succ.mp h
    cases depth' with
    | zero =>
      obtain ⟨-, -, hnone⟩ := mem_rootDirectories.mp h'
      rw [hnone] at hpar
      cases hpar
    | succ depth' =>
      obtain ⟨parent', hdepth', -, hpar'⟩ := atDepth_succ.mp h'
      rw [hpar, Option.some.injEq] at hpar'
      have heq := hindex.eq_of_id (Backup.mem_directories.mp hdepth.mem_directories).1
        (Backup.mem_directories.mp hdepth'.mem_directories).1 hpar'
      rw [ih hdepth (heq ▸ hdepth')]

theorem directory_ne_document (h : staged ∈ directories index) : staged ∉ documentRows index := by
  intro hdoc
  have hdir := (mem_directories.mp h).2
  rw [(mem_documentRows.mp hdoc).2] at hdir
  exact absurd hdir (by decide)

/-- The folders of the plan are those that a chain of parents joins to the root. -/
theorem mem_folderRows : staged ∈ folderRows index ↔ ∃ depth, AtDepth index depth staged := by
  constructor
  · intro h
    obtain ⟨depth, -, hmem⟩ := mem_flatMap.mp h
    exact ⟨depth, mem_orderById.mp hmem⟩
  · rintro ⟨depth, h⟩
    have hrows : ∀ other, Derivable (childDirectories index) (rootDirectories index) other →
        other ∈ index := by
      intro other hother
      obtain ⟨depth, hdepth⟩ := derivable_iff_mem_rounds.mp hother
      exact (mem_directories.mp (AtDepth.mem_directories hdepth)).1
    obtain ⟨depth, hlt, hdepth⟩ := exists_round_lt hrows (derivable_iff_mem_rounds.mpr ⟨depth, h⟩)
    exact mem_flatMap.mpr ⟨depth, mem_range.mpr (by omega), mem_orderById.mpr hdepth⟩

/-- Of two rows one at most comes before the other. -/
theorem Precedes.asymm (hindex : IndexSound index)
    (h : Precedes index staged other) : ¬ Precedes index other staged := by
  intro h'
  rcases h with ⟨j, k, hj, hk, hjk⟩ | ⟨⟨j, hj⟩, hother⟩ | ⟨hstaged, hother, hlt⟩
  · rcases h' with ⟨j', k', hj', hk', hjk'⟩ | ⟨-, hstaged⟩ | ⟨hother, -, -⟩
    · obtain rfl := hj.unique hindex hk'
      obtain rfl := hk.unique hindex hj'
      rcases hjk with hlt | ⟨rfl, hid⟩ <;> rcases hjk' with hlt' | ⟨heq, hid'⟩
      · omega
      · omega
      · omega
      · exact lt_asymm hid hid'
    · exact directory_ne_document hj.mem_directories hstaged
    · exact directory_ne_document hk.mem_directories hother
  · rcases h' with ⟨j', -, hj', -, -⟩ | ⟨⟨j', hj'⟩, -⟩ | ⟨-, hstaged, -⟩
    · exact directory_ne_document hj'.mem_directories hother
    · exact directory_ne_document hj'.mem_directories hother
    · exact directory_ne_document hj.mem_directories hstaged
  · rcases h' with ⟨-, k', -, hk', -⟩ | ⟨⟨j', hj'⟩, -⟩ | ⟨-, -, hlt'⟩
    · exact directory_ne_document hk'.mem_directories hstaged
    · exact directory_ne_document hj'.mem_directories hother
    · exact lt_asymm hlt hlt'

theorem pairwise_orderById (h : (index.map StagedNode.id).Nodup) :
    (orderById index).Pairwise fun staged other => staged.id < other.id := by
  have hsort : (orderById index).Pairwise fun staged other => staged.id ≤ other.id :=
    pairwise_insertionSort _ index
  have hdist : (orderById index).Pairwise fun staged other => staged.id ≠ other.id :=
    pairwise_map.mp (((perm_insertionSort _ index).map StagedNode.id).nodup_iff.mpr h)
  exact (hsort.and hdist).imp fun h => lt_of_le_of_ne h.1 h.2

variable (hindex : IndexSound index)

include hindex

theorem nodup_filter_ids (p : StagedNode → Bool) :
    ((index.filter p).map StagedNode.id).Nodup :=
  hindex.nodup.sublist (filter_sublist.map _)

theorem nodup_directoriesAtDepth (depth : ℕ) :
    ((directoriesAtDepth index depth).map StagedNode.id).Nodup := by
  have hdirs : ((directories index).map StagedNode.id).Nodup := nodup_filter_ids hindex _
  induction depth with
  | zero => exact hdirs.sublist (filter_sublist.map _)
  | succ depth ih =>
    show (((directoriesAtDepth index depth).flatMap (childDirectories index)).map _).Nodup
    rw [map_flatMap, nodup_flatMap]
    refine ⟨fun _ _ => hdirs.sublist (filter_sublist.map _), ?_⟩
    -- Children of different folders differ, since each node has one parent.
    refine (pairwise_map.mp ih).imp ?_
    intro parent parent' hne id hid hid'
    obtain ⟨child, hchild, rfl⟩ := mem_map.mp hid
    obtain ⟨child', hchild', heq⟩ := mem_map.mp hid'
    obtain ⟨hmem, hpar⟩ := mem_childDirectories.mp hchild
    obtain ⟨hmem', hpar'⟩ := mem_childDirectories.mp hchild'
    rw [hindex.eq_of_id (mem_directories.mp hmem').1 (mem_directories.mp hmem).1 heq, hpar,
      Option.some.injEq] at hpar'
    exact hne hpar'

/-- The folders come level by level, and by id within a level. -/
theorem pairwise_folderRows :
    (folderRows index).Pairwise (Precedes index) := by
  rw [folderRows, pairwise_flatMap]
  constructor
  · intro depth _
    refine (pairwise_orderById (nodup_directoriesAtDepth hindex depth)).imp_of_mem ?_
    intro staged other hstaged hother hlt
    exact Or.inl ⟨depth, depth, mem_orderById.mp hstaged, mem_orderById.mp hother,
      Or.inr ⟨rfl, hlt⟩⟩
  · refine pairwise_lt_range.imp ?_
    intro depth depth' hlt staged hstaged other hother
    exact Or.inl ⟨depth, depth', mem_orderById.mp hstaged, mem_orderById.mp hother, Or.inl hlt⟩

/-- The documents come by id. -/
theorem pairwise_documentRows :
    (documentRows index).Pairwise (Precedes index) := by
  refine (pairwise_orderById (nodup_filter_ids hindex _)).imp_of_mem ?_
  intro staged other hstaged hother hlt
  exact Or.inr (Or.inr ⟨hstaged, hother, hlt⟩)

/-- What comes before a row stands before it in the plan. -/
theorem mem_of_precedes {before after : List StagedNode}
    (horder : (before ++ staged :: after).Pairwise (Precedes index))
    (hmem : other ∈ before ++ staged :: after) (h : Precedes index other staged) :
    other ∈ before := by
  obtain ⟨-, hafter, -⟩ := pairwise_append.mp horder
  rcases mem_append.mp hmem with hbef | hrest
  · exact hbef
  rcases mem_cons.mp hrest with rfl | hlater
  · exact absurd h (h.asymm hindex)
  · exact absurd h (Precedes.asymm hindex ((pairwise_cons.mp hafter).1 other hlater))

omit hindex

theorem precedes_of_mem {before after : List StagedNode}
    (horder : (before ++ staged :: after).Pairwise (Precedes index)) (h : other ∈ before) :
    Precedes index other staged :=
  (pairwise_append.mp horder).2.2 other h staged mem_cons_self

end

/-! ### Inserting one node -/

section

variable {staged : StagedNode}

theorem merged_of_subtype {row : Subtype} (h : staged.subtype = some row) :
    staged.merged = mergeLegacyNamespace staged.node row := by
  rw [StagedNode.merged, h]
  rfl

theorem merged_id (staged : StagedNode) : staged.merged.id = staged.id := by
  cases h : staged.subtype with
  | none => rw [StagedNode.merged, h]; rfl
  | some row => rw [merged_of_subtype h]; rfl

theorem merged_status (staged : StagedNode) : staged.merged.status = staged.node.status := by
  cases h : staged.subtype with
  | none => rw [StagedNode.merged, h]; rfl
  | some row => rw [merged_of_subtype h]; rfl

theorem merged_name (staged : StagedNode) : staged.merged.name = staged.name := by
  cases h : staged.subtype with
  | none =>
    rw [StagedNode.merged, StagedNode.name, h]
    exact Option.or_none.symm
  | some row =>
    rw [merged_of_subtype h, StagedNode.name, h]
    cases hname : staged.node.name <;> simp [mergeLegacyNamespace, hname]

/-- Merging a legacy row keeps the parent. -/
theorem IndexSound.merged_parentId (hindex : IndexSound index)
    (hmem : staged ∈ index) (h : staged.Insertable) : staged.merged.parentId = staged.parentId := by
  obtain ⟨row, hrow, hid, -⟩ := hindex.subtypes staged hmem
  rw [StagedNode.Insertable, merged_of_subtype hrow] at h
  rw [merged_of_subtype hrow]
  by_cases hroot : staged.id = rootId
  · rw [hindex.rootParent staged hmem hroot]
    exact if_neg fun hne => hne.1 hroot
  · have hpar := h.2 hroot
    rw [hindex.parents staged hmem hroot row hrow]
    cases hnode : staged.node.parentId with
    | some parentId => simp [mergeLegacyNamespace, hnode]
    | none =>
      have hleg : (mergeLegacyNamespace staged.node row).parentId =
          row.legacyParentId.getD (some rootId) := if_pos ⟨hroot, hnode⟩
      have hrowId : row.id ≠ rootId := hid ▸ hroot
      rw [hleg] at hpar ⊢
      rw [Subtype.stagedParentId, if_pos hrowId]
      cases hfield : row.legacyParentId with
      | absent | value parentId => rfl
      | null =>
        rw [hfield] at hpar
        cases hpar

theorem conflicts_comm (row other : NodeRow) : row.conflicts other = other.conflicts row := by
  rw [Bool.eq_iff_iff]
  simp only [NodeRow.conflicts, Bool.and_eq_true, beq_iff_eq]
  constructor
  all_goals
    rintro ⟨⟨⟨hpar, hname⟩, hpars⟩, hnames⟩
    exact ⟨⟨⟨hpars ▸ hpar, hnames ▸ hname⟩, hpars.symm⟩, hnames.symm⟩

structure Holds (done : List StagedNode) (tables : RestoredTables) : Prop where
  nodes : tables.nodes = done.map StagedNode.merged
  folders : ∀ id, (∃ record ∈ tables.folders, record.id = id) ↔
    ∃ staged ∈ done, staged.type = directoryType ∧ staged.id = id
  documents : ∀ id, (∃ record ∈ tables.documents, record.id = id) ↔
    ∃ staged ∈ done, staged.type = documentType ∧ staged.id = id

theorem Holds.start : Holds [] {} := by
  constructor <;> simp

/-- Nothing that the tables hold has the name of the node. -/
def FreeName (done : List StagedNode) (staged : StagedNode) : Prop :=
  ∀ other ∈ done, staged.merged.conflicts other.merged = false

theorem any_id_eq_false {done : List StagedNode} (h : ∀ other ∈ done, other.id ≠ staged.id) :
    ((done.map StagedNode.merged).any fun other => other.id == staged.merged.id) = false := by
  rw [any_eq_false]
  intro row hrow
  obtain ⟨other, hother, rfl⟩ := mem_map.mp hrow
  rw [merged_id, merged_id, beq_iff_eq]
  exact h other hother

/-- A row that breaks a constraint is refused. -/
theorem restoreNode_of_not_insertable {tables : RestoredTables}
    (hsubtype : staged.subtype.isSome = true) (h : ¬ staged.Insertable) :
    ∃ constraint, restoreNode tables staged = .error (.integrity constraint) := by
  obtain ⟨row, hrow⟩ := Option.isSome_iff_exists.mp hsubtype
  rw [StagedNode.Insertable, merged_of_subtype hrow] at h
  simp only [restoreNode, hrow, insertRestoredNode]
  cases hname : (mergeLegacyNamespace staged.node row).name with
  | none => exact ⟨_, rfl⟩
  | some name =>
    rw [hname] at h
    simp only [Option.isSome_some, true_and, Classical.not_imp, Bool.not_eq_true,
      Option.isSome_eq_false_iff, Option.isNone_iff_eq_none] at h
    obtain ⟨hroot, hpar⟩ := h
    have hcheck : (mergeLegacyNamespace staged.node row).rootParentHolds = false := by
      rw [NodeRow.rootParentHolds, if_neg (by simpa [mergeLegacyNamespace] using hroot), hpar]
      rfl
    rw [hcheck]
    exact ⟨_, rfl⟩

section

variable {done : List StagedNode} {tables : RestoredTables} {staged : StagedNode}
  (hindex : IndexSound index) (hmem : staged ∈ index) (hholds : Holds done tables)
  (hfresh : ∀ other ∈ done, other.id ≠ staged.id) (hins : staged.Insertable)
  (hroot : staged.id = rootId → staged.parentId = none ∧ staged.type = directoryType)

include hindex hmem hholds hfresh hins hroot

/-- The checks of an insertion, in the order in which they are made. -/
theorem insertRestoredNode_eq : insertRestoredNode tables staged.merged =
      if (tables.nodes.any fun other => staged.merged.conflicts other) then
        .error (.nameConflict staged.merged.type staged.merged.id staged.merged.parentId
          staged.merged.name)
      else if staged.parentId.any fun id => !(tables.folders.any fun folder => folder.id == id) then
        .error (.integrity "fk_nodes_parent_id_folders")
      else .ok { tables with nodes := tables.nodes ++ [staged.merged] } := by
  obtain ⟨name, hname⟩ := Option.isSome_iff_exists.mp hins.1
  have hparId := hindex.merged_parentId hmem hins
  have hcheck : staged.merged.rootParentHolds = true := by
    rw [NodeRow.rootParentHolds, merged_id, hparId]
    by_cases hid : staged.id = rootId
    · obtain ⟨hnone, htype⟩ := hroot hid
      obtain ⟨row, hrow, -⟩ := hindex.subtypes staged hmem
      have htype' : staged.merged.type = directoryType := by
        rw [merged_of_subtype hrow]
        exact htype
      rw [hid, hnone, htype']
      rfl
    · rw [if_neg (by simpa using hid), ← hparId]
      exact hins.2 hid
  rw [insertRestoredNode, hname, hcheck, hholds.nodes, any_id_eq_false hfresh, hparId]
  rfl

/-- A name that is taken under the parent is refused. -/
theorem restoreNode_of_conflict (h : ¬ FreeName done staged) : ∃ type id parentId name,
      restoreNode tables staged = .error (.nameConflict type id parentId name) := by
  obtain ⟨row, hrow, -⟩ := hindex.subtypes staged hmem
  have hany : (tables.nodes.any fun other => staged.merged.conflicts other) = true := by
    simp only [FreeName, not_forall, Bool.not_eq_false] at h
    obtain ⟨other, hother, hconf⟩ := h
    rw [hholds.nodes]
    exact any_eq_true.mpr ⟨_, mem_map_of_mem hother, hconf⟩
  have hinsert := insertRestoredNode_eq hindex hmem hholds hfresh hins hroot
  rw [hany, merged_of_subtype hrow] at hinsert
  simp only [restoreNode, hrow, hinsert]
  exact ⟨_, _, _, _, rfl⟩

/-- A row with a free name and a restored parent goes in. -/
theorem restoreNode_of_free (h : FreeName done staged)
    (hpar : ∀ parentId, staged.parentId = some parentId →
      ∃ parent ∈ done, parent.type = directoryType ∧ parent.id = parentId) :
    ∃ tables', restoreNode tables staged = .ok tables' ∧ Holds (done ++ [staged]) tables' := by
  obtain ⟨row, hrow, hid, hkind⟩ := hindex.subtypes staged hmem
  have hany : (tables.nodes.any fun other => staged.merged.conflicts other) = false := by
    rw [hholds.nodes, any_eq_false]
    intro other hother
    obtain ⟨node, hnode, rfl⟩ := mem_map.mp hother
    rw [h node hnode]
    exact Bool.false_ne_true
  have hforeign : (staged.parentId.any fun id =>
      !(tables.folders.any fun folder => folder.id == id)) = false := by
    cases hparId : staged.parentId with
    | none => rfl
    | some parentId =>
      obtain ⟨record, hrec, hrecordId⟩ := (hholds.folders parentId).mpr (hpar _ hparId)
      rw [Option.any_some, Bool.not_eq_false', any_eq_true]
      exact ⟨record, hrec, beq_iff_eq.mpr hrecordId⟩
  have hinsert := insertRestoredNode_eq hindex hmem hholds hfresh hins hroot
  rw [hany, hforeign, merged_of_subtype hrow] at hinsert
  have hstep : restoreNode tables staged =
      insertSubtype { tables with nodes := tables.nodes ++ [staged.merged] } row := by
    rw [merged_of_subtype hrow]
    simp only [restoreNode, hrow, hinsert]
    rfl
  have hnode : ((tables.nodes ++ [staged.merged]).any fun node => node.id == staged.id) = true := by
    rw [any_append, any_cons, merged_id, beq_self_eq_true, Bool.true_or, Bool.or_true]
  rw [hstep]
  cases row with
  | folder folder =>
    have hnew : (tables.folders.any fun other => other.id == staged.id) = false := by
      rw [any_eq_false]
      intro record hrec
      rw [beq_iff_eq]
      intro heq
      obtain ⟨other, hother, -, hotherId⟩ := (hholds.folders staged.id).mp ⟨record, hrec, heq⟩
      exact hfresh other hother hotherId
    have htype : staged.type = directoryType := hkind.symm
    have hinserted : insertSubtype { tables with nodes := tables.nodes ++ [staged.merged] }
        (.folder folder) =
        .ok { tables with
          nodes := tables.nodes ++ [staged.merged]
          folders := tables.folders ++ [⟨(Subtype.folder folder).id, folder.createdTime⟩] } := by
      simp only [insertSubtype, hid, hnode, hnew]
      rfl
    refine ⟨_, hinserted, ?_⟩
    constructor
    case nodes => rw [hholds.nodes, map_append, map_singleton]
    case folders =>
      intro id
      have hold := hholds.folders id
      simp only [mem_append, mem_singleton, or_and_right, exists_or, exists_eq_left,
        hold, htype, true_and, hid]
    case documents =>
      intro id
      have hne : ¬ (directoryType = documentType ∧ staged.id = id) := by
        rintro ⟨heq, -⟩
        exact absurd heq (by decide)
      simp only [mem_append, mem_singleton, or_and_right, exists_or, exists_eq_left,
        hholds.documents id, htype, hne, or_false]
  | document doc =>
    have hnew : (tables.documents.any fun other => other.id == staged.id) = false := by
      rw [any_eq_false]
      intro record hrec
      rw [beq_iff_eq]
      intro heq
      obtain ⟨other, hother, -, hotherId⟩ := (hholds.documents staged.id).mp ⟨record, hrec, heq⟩
      exact hfresh other hother hotherId
    have htype : staged.type = documentType := hkind.symm
    have hinserted : insertSubtype { tables with nodes := tables.nodes ++ [staged.merged] }
        (.document doc) =
        .ok { tables with
          nodes := tables.nodes ++ [staged.merged]
          documents := tables.documents ++ [⟨(Subtype.document doc).id, doc.createdTime⟩] } := by
      simp only [insertSubtype, hid, hnode, hnew]
      rfl
    refine ⟨_, hinserted, ?_⟩
    constructor
    case nodes => rw [hholds.nodes, map_append, map_singleton]
    case folders =>
      intro id
      have hne : ¬ (documentType = directoryType ∧ staged.id = id) := by
        rintro ⟨heq, -⟩
        exact absurd heq (by decide)
      simp only [mem_append, mem_singleton, or_and_right, exists_or, exists_eq_left,
        hholds.folders id, htype, hne, or_false]
    case documents =>
      intro id
      simp only [mem_append, mem_singleton, or_and_right, exists_or, exists_eq_left,
        hholds.documents id, htype, true_and, hid]

end

end

end Cfms.Backup
