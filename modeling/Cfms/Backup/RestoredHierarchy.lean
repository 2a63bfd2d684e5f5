import Cfms.Backup.NodeRestore
import Mathlib.Data.List.Pairwise

/-!
# When a restore reproduces the hierarchy

The loops of `_restore_indexed_nodes` insert their nodes, or end at the first node that the target
does not take or whose name is taken.  So a restore is faithful if and only if it stops before it
comes to a node that the target does not take.
-/

namespace Cfms.Backup

open Lib Lib.Forest List

variable {index : List StagedNode}

/-! ### One loop -/

/-- No two nodes share a name. -/
def FreeNames (done : List StagedNode) : Prop :=
  done.Pairwise fun staged other => other.merged.conflicts staged.merged = false

instance : Std.Symm fun staged other : StagedNode =>
    other.merged.conflicts staged.merged = false where
  symm _ _ h := (conflicts_comm ..).trans h

variable {done : List StagedNode} {staged other : StagedNode}

theorem FreeNames.free (h : FreeNames done)
    (hstaged : staged ∈ done) (hother : other ∈ done) (hne : staged.id ≠ other.id) :
    other.merged.conflicts staged.merged = false :=
  h.forall hstaged hother fun heq => hne (congrArg _ heq)

/-- How a loop over `rows` ends that begins when the tables hold `done`. -/
inductive LoopOutcome (done rows : List StagedNode) : Except NodeRestoreError RestoredTables → Prop
  | inserted {tables : RestoredTables} (hholds : Holds (done ++ rows) tables)
      (hins : ∀ staged ∈ rows, staged.Insertable) (hnames : FreeNames (done ++ rows)) :
      LoopOutcome done rows (.ok tables)
  | refused {before after : List StagedNode} {staged : StagedNode} {constraint : String}
      (hrows : rows = before ++ staged :: after) (href : ¬ staged.Insertable)
      (hnames : FreeNames (done ++ before)) : LoopOutcome done rows (.error (.integrity constraint))
  | taken {before after : List StagedNode} {staged other : StagedNode} {type id : String}
      {parentId name : Option String} (hrows : rows = before ++ staged :: after)
      (hins : ∀ staged' ∈ before ++ [staged], staged'.Insertable)
      (hother : other ∈ done ++ before)
      (hconf : staged.merged.conflicts other.merged = true) :
      LoopOutcome done rows (.error (.nameConflict type id parentId name))

/-- What a loop relies on: its nodes are new, the root has no parent, and parents come earlier. -/
structure LoopReady (index done rows : List StagedNode) : Prop where
  subset : ∀ staged ∈ rows, staged ∈ index
  distinct : (done ++ rows).Pairwise fun staged other => staged.id ≠ other.id
  root : ∀ staged ∈ rows, staged.id = rootId →
    staged.parentId = none ∧ staged.type = directoryType
  parents : ∀ before staged after, rows = before ++ staged :: after →
    ∀ parentId, staged.parentId = some parentId →
      ∃ parent ∈ done ++ before, parent.type = directoryType ∧ parent.id = parentId

variable {rows : List StagedNode}

theorem LoopReady.tail
    (h : LoopReady index done (staged :: rows)) : LoopReady index (done ++ [staged]) rows where
  subset other hother := h.subset other (mem_cons_of_mem _ hother)
  distinct := by
    rw [append_assoc]
    exact h.distinct
  root other hother := h.root other (mem_cons_of_mem _ hother)
  parents before other after hrows := by
    rw [append_assoc]
    exact h.parents (staged :: before) other after (by rw [hrows]; rfl)

theorem LoopReady.fresh
    (h : LoopReady index done (staged :: rows)) : ∀ other ∈ done, other.id ≠ staged.id :=
  fun other hother =>
    (pairwise_append.mp h.distinct).2.2 other hother staged mem_cons_self

theorem loopOutcome (hindex : IndexSound index)
    {tables : RestoredTables} (hready : LoopReady index done rows) (hholds : Holds done tables)
    (hnames : FreeNames done) : LoopOutcome done rows (rows.foldlM restoreNode tables) := by
  induction rows generalizing done tables with
  | nil =>
    refine .inserted ?_ (fun _ h => absurd h not_mem_nil) ?_
    · rw [append_nil]
      exact hholds
    · rw [append_nil]
      exact hnames
  | cons staged rows ih =>
    have hmem := hready.subset staged mem_cons_self
    have hroot := hready.root staged mem_cons_self
    rw [foldlM_cons]
    by_cases hins : staged.Insertable
    · by_cases hfree : FreeName done staged
      · obtain ⟨tables', hstep, hholds'⟩ := restoreNode_of_free hindex hmem hholds hready.fresh
          hins hroot hfree fun parentId hparId => by
            obtain ⟨parent, hpar, hfound⟩ := hready.parents [] staged rows rfl parentId hparId
            rw [append_nil] at hpar
            exact ⟨parent, hpar, hfound⟩
        have hnames' : FreeNames (done ++ [staged]) := by
          refine pairwise_append.mpr ⟨hnames, pairwise_singleton .., ?_⟩
          intro other hother last hlast
          rw [mem_singleton.mp hlast]
          exact hfree other hother
        rw [hstep]
        show LoopOutcome done (staged :: rows) (rows.foldlM restoreNode tables')
        have houtc := ih hready.tail hholds' hnames'
        generalize rows.foldlM restoreNode tables' = result at houtc ⊢
        cases houtc with
        | inserted hholds hrest hnames =>
          rw [append_assoc] at hholds hnames
          refine .inserted hholds ?_ hnames
          intro other hother
          rcases mem_cons.mp hother with rfl | hlater
          · exact hins
          · exact hrest other hlater
        | @refused before after other constraint hrows href hnames =>
          rw [append_assoc] at hnames
          exact .refused (show staged :: rows = (staged :: before) ++ other :: after by rw [hrows]; rfl)
            href hnames
        | @taken before after other first type id parentId name hrows hrest hother hconf =>
          rw [append_assoc] at hother
          refine .taken (show staged :: rows = (staged :: before) ++ other :: after by rw [hrows]; rfl)
            ?_ hother hconf
          intro node hnode
          rcases mem_cons.mp hnode with rfl | hlater
          · exact hins
          · exact hrest node hlater
      · obtain ⟨type, id, parentId, name, hstep⟩ :=
          restoreNode_of_conflict hindex hmem hholds hready.fresh hins hroot hfree
        rw [hstep]
        simp only [FreeName, not_forall, Bool.not_eq_false] at hfree
        obtain ⟨other, hother, hconf⟩ := hfree
        refine .taken (show staged :: rows = [] ++ staged :: rows from rfl) ?_
          (mem_append_left _ hother) hconf
        intro node hnode
        rw [mem_singleton.mp hnode]
        exact hins
    · obtain ⟨row, hrow, -⟩ := hindex.subtypes staged hmem
      obtain ⟨constraint, hstep⟩ := restoreNode_of_not_insertable (by rw [hrow]; rfl) hins
      rw [hstep]
      refine .refused (show staged :: rows = [] ++ staged :: rows from rfl) hins ?_
      rw [append_nil]
      exact hnames

/-! ### The two loops -/

variable {depth : ℕ}

theorem mem_of_reached (h : AtDepth index depth staged) :
    staged ∈ index := (mem_directories.mp h.mem_directories).1

theorem exists_root_of_atDepth (h : AtDepth index depth staged) : ∃ root, AtDepth index 0 root := by
  induction depth generalizing staged with
  | zero => exact ⟨staged, h⟩
  | succ depth ih =>
    obtain ⟨parent, hpar, -⟩ := atDepth_succ.mp h
    exact ih hpar

theorem root_of_reached (hindex : IndexSound index) {folder : StagedNode}
    (hfol : AtDepth index depth folder) (hmem : staged ∈ index) (hid : staged.id = rootId) :
    staged.parentId = none ∧ staged.type = directoryType := by
  obtain ⟨root, hroot⟩ := exists_root_of_atDepth hfol
  obtain ⟨hdir, hrootId, hnone⟩ := mem_rootDirectories.mp hroot
  obtain ⟨hrootMem, htype⟩ := mem_directories.mp hdir
  rw [hindex.eq_of_id hmem hrootMem (hid.trans hrootId.symm)]
  exact ⟨hnone, htype⟩

theorem exists_parent_of_atDepth {parentId : String}
    (h : AtDepth index depth staged) (hparId : staged.parentId = some parentId) :
    ∃ parent ∈ folderRows index, parent.id = parentId ∧ Precedes index parent staged := by
  cases depth with
  | zero =>
    obtain ⟨-, -, hnone⟩ := mem_rootDirectories.mp h
    rw [hnone] at hparId
    cases hparId
  | succ depth =>
    obtain ⟨parent, hpar, -, hlink⟩ := atDepth_succ.mp h
    rw [hlink, Option.some.injEq] at hparId
    exact ⟨parent, mem_folderRows.mpr ⟨depth, hpar⟩, hparId,
      Or.inl ⟨depth, depth + 1, hpar, h, Or.inl (Nat.lt_succ_self depth)⟩⟩

theorem folder_of_mem_folderRows (h : staged ∈ folderRows index) :
    staged ∈ index ∧ staged.type = directoryType := by
  obtain ⟨depth, hdepth⟩ := mem_folderRows.mp h
  exact mem_directories.mp hdepth.mem_directories

theorem ne_of_precedes (hindex : IndexSound index)
    (hstaged : staged ∈ index) (hother : other ∈ index) (h : Precedes index staged other) :
    staged.id ≠ other.id := by
  intro hid
  obtain rfl := hindex.eq_of_id hstaged hother hid
  exact h.asymm hindex h

theorem folders_ready (hindex : IndexSound index) : LoopReady index [] (folderRows index) where
  subset staged h := (folder_of_mem_folderRows h).1
  distinct := (pairwise_folderRows hindex).imp_of_mem fun hstaged hother h =>
    ne_of_precedes hindex (folder_of_mem_folderRows hstaged).1 (folder_of_mem_folderRows hother).1 h
  root staged h hid := by
    obtain ⟨depth, hdepth⟩ := mem_folderRows.mp h
    exact root_of_reached hindex hdepth (mem_of_reached hdepth) hid
  parents before staged after hrows parentId hparId := by
    have hmem : staged ∈ folderRows index := by
      rw [hrows]
      exact mem_append_right _ mem_cons_self
    obtain ⟨depth, hdepth⟩ := mem_folderRows.mp hmem
    obtain ⟨parent, hpar, hid, hprecedes⟩ := exists_parent_of_atDepth hdepth hparId
    have horder := pairwise_folderRows hindex
    have htype := (folder_of_mem_folderRows hpar).2
    rw [hrows] at horder hpar
    exact ⟨parent, mem_of_precedes hindex horder hpar hprecedes, htype, hid⟩

theorem pairwise_rows (hindex : IndexSound index) :
    (folderRows index ++ documentRows index).Pairwise (Precedes index) :=
  pairwise_append.mpr ⟨pairwise_folderRows hindex, pairwise_documentRows hindex,
    fun _ hfol _ hdoc => Or.inr (Or.inl ⟨mem_folderRows.mp hfol, hdoc⟩)⟩

theorem mem_index_of_mem_rows
    (h : staged ∈ folderRows index ++ documentRows index) : staged ∈ index := by
  rcases mem_append.mp h with hfol | hdoc
  · exact (folder_of_mem_folderRows hfol).1
  · exact (mem_documentRows.mp hdoc).1

theorem exists_folder (hconn : Connected index) (h : staged ∈ documentRows index) :
    ∃ parent ∈ folderRows index, staged.parentId = some parent.id := by
  obtain ⟨parent, hpar, hlink⟩ := any_eq_true.mp (hconn.2 staged h)
  exact ⟨parent, mem_folderRows.mpr (hconn.1 parent hpar), beq_iff_eq.mp hlink⟩

theorem documents_ready (hindex : IndexSound index) (hconn : Connected index) :
    LoopReady index (folderRows index) (documentRows index) where
  subset staged h := (mem_documentRows.mp h).1
  distinct := (pairwise_rows hindex).imp_of_mem fun hstaged hother h =>
    ne_of_precedes hindex (mem_index_of_mem_rows hstaged) (mem_index_of_mem_rows hother) h
  root staged h hid := by
    obtain ⟨parent, hpar, -⟩ := exists_folder hconn h
    obtain ⟨depth, hdepth⟩ := mem_folderRows.mp hpar
    exact root_of_reached hindex hdepth (mem_documentRows.mp h).1 hid
  parents before staged after hrows parentId hparId := by
    have hmem : staged ∈ documentRows index := by
      rw [hrows]
      exact mem_append_right _ mem_cons_self
    obtain ⟨parent, hpar, hlink⟩ := exists_folder hconn hmem
    rw [hlink, Option.some.injEq] at hparId
    exact ⟨parent, mem_append_left _ hpar, (folder_of_mem_folderRows hpar).2, hparId⟩

/-! ### What a restore that ends has done -/

section

variable (hindex : IndexSound index) (hconn : Connected index)

include hindex hconn

variable {staged : StagedNode}

theorem mem_rows_iff : staged ∈ folderRows index ++ documentRows index ↔ staged ∈ index := by
  constructor
  · exact mem_index_of_mem_rows
  intro hmem
  rcases hindex.types staged hmem with hdir | hdoc
  · exact mem_append_left _ (mem_folderRows.mpr (hconn.1 staged (mem_directories.mpr ⟨hmem, hdir⟩)))
  · exact mem_append_right _ (mem_documentRows.mpr ⟨hmem, hdoc⟩)

theorem rows_perm : (folderRows index ++ documentRows index).Perm index := by
  have hnodup : (folderRows index ++ documentRows index).Nodup :=
    (documents_ready hindex hconn).distinct.imp fun hne heq => hne (congrArg _ heq)
  exact (perm_ext_iff_of_nodup hnodup (List.Nodup.of_map _ hindex.nodup)).mpr fun _ =>
    mem_rows_iff hindex hconn

theorem exists_parent (hmem : staged ∈ index) {parentId : String}
    (hparId : staged.parentId = some parentId) :
    ∃ parent ∈ folderRows index, parent.id = parentId ∧ Precedes index parent staged := by
  rcases mem_append.mp ((mem_rows_iff hindex hconn).mpr hmem) with hfol | hdoc
  · obtain ⟨depth, hdepth⟩ := mem_folderRows.mp hfol
    exact exists_parent_of_atDepth hdepth hparId
  · obtain ⟨parent, hpar, hlink⟩ := exists_folder hconn hdoc
    rw [hlink, Option.some.injEq] at hparId
    exact ⟨parent, hpar, hparId, Or.inr (Or.inl ⟨mem_folderRows.mp hpar, hdoc⟩)⟩

theorem reproduces {tables : RestoredTables}
    (hholds : Holds (folderRows index ++ documentRows index) tables)
    (hins : ∀ staged ∈ index, staged.Insertable) : Reproduces index tables where
  once := by
    have hids : (folderRows index ++ documentRows index).map (NodeRow.id ∘ StagedNode.merged) =
        (folderRows index ++ documentRows index).map StagedNode.id :=
      map_congr_left fun staged _ => merged_id staged
    rw [hholds.nodes, map_map, hids]
    exact (rows_perm hindex hconn).map _
  parents row hrow staged hmem hid := by
    rw [hholds.nodes] at hrow
    obtain ⟨other, hother, rfl⟩ := mem_map.mp hrow
    have hotherMem := mem_index_of_mem_rows hother
    rw [merged_id] at hid
    obtain rfl := hindex.eq_of_id hmem hotherMem hid
    exact hindex.merged_parentId hmem (hins staged hmem)
  earlier before row after hnodes parentId hparId := by
    rw [hholds.nodes] at hnodes
    obtain ⟨before', rest, hrows, rfl, hrest⟩ := map_eq_append_iff.mp hnodes
    obtain ⟨staged, after', rfl, rfl, rfl⟩ := map_eq_cons_iff.mp hrest
    have hmem : staged ∈ index := mem_index_of_mem_rows (by
      rw [hrows]
      exact mem_append_right _ mem_cons_self)
    rw [hindex.merged_parentId hmem (hins staged hmem)] at hparId
    obtain ⟨parent, hpar, hid, hprecedes⟩ := exists_parent hindex hconn hmem hparId
    have horder := pairwise_rows hindex
    have hparentMem := mem_append_left (documentRows index) hpar
    rw [hrows] at horder hparentMem
    refine ⟨_, mem_map_of_mem (mem_of_precedes hindex horder hparentMem hprecedes), ?_⟩
    rw [merged_id, hid]

theorem not_hasBrokenLink : ¬ HasBrokenLink index := by
  rintro ⟨staged, hmem, parentId, hparId, hnone⟩
  obtain ⟨parent, hpar, hid, -⟩ := exists_parent hindex hconn hmem hparId
  obtain ⟨hparentMem, htype⟩ := folder_of_mem_folderRows hpar
  exact hnone ⟨parent, hparentMem, hid, htype⟩

omit hconn in
theorem stagedParent_eq (hmem : staged ∈ index) :
    stagedParent index staged.id = staged.parentId := by
  rw [stagedParent]
  cases hfound : index.find? fun other => other.id = staged.id with
  | none => exact absurd (decide_eq_true rfl) (find?_eq_none.mp hfound staged hmem)
  | some other =>
    have hid : other.id = staged.id := by simpa using find?_some hfound
    rw [hindex.eq_of_id (mem_of_find?_eq_some hfound) hmem hid]
    rfl

omit hconn in
theorem folder_below_root {depth : ℕ} (h : AtDepth index depth staged) :
    Below (stagedParent index) staged.id rootId := by
  induction depth generalizing staged with
  | zero =>
    rw [(mem_rootDirectories.mp h).2.1]
    exact Below.refl _
  | succ depth ih =>
    obtain ⟨parent, hpar, -, hlink⟩ := atDepth_succ.mp h
    exact Below.head ((stagedParent_eq hindex (mem_of_reached h)).trans hlink) (ih hpar)

theorem below_root (hmem : staged ∈ index) : Below (stagedParent index) staged.id rootId := by
  rcases mem_append.mp ((mem_rows_iff hindex hconn).mpr hmem) with hfol | hdoc
  · obtain ⟨depth, hdepth⟩ := mem_folderRows.mp hfol
    exact folder_below_root hindex hdepth
  · obtain ⟨parent, hpar, hlink⟩ := exists_folder hconn hdoc
    obtain ⟨depth, hdepth⟩ := mem_folderRows.mp hpar
    exact Below.head ((stagedParent_eq hindex hmem).trans hlink) (folder_below_root hindex hdepth)

theorem not_hasCycle : ¬ HasCycle index := by
  rintro ⟨staged, hmem, parentId, hparId, hcycle⟩
  have htop : stagedParent index rootId = none := by
    obtain ⟨root, hroot, hrootId⟩ := hindex.root (ne_nil_of_mem hmem)
    obtain ⟨parent, hpar, -⟩ := exists_parent hindex hconn hmem hparId
    obtain ⟨depth, hdepth⟩ := mem_folderRows.mp hpar
    rw [← hrootId, stagedParent_eq hindex hroot]
    exact (root_of_reached hindex hdepth hroot hrootId).1
  exact not_cycle_of_below htop (below_root hindex hconn hmem)
    ⟨parentId, (stagedParent_eq hindex hmem).trans hparId, hcycle⟩

theorem not_hasNameConflict (hins : ∀ staged ∈ index, staged.Insertable)
    (hnames : FreeNames (folderRows index ++ documentRows index)) : ¬ HasNameConflict index := by
  rintro ⟨staged, hmem, other, hother, hne, hpar, hpars, hst, hst', hname, hsame⟩
  have hfree := hnames.free ((mem_rows_iff hindex hconn).mpr hother)
    ((mem_rows_iff hindex hconn).mpr hmem) hne.symm
  have hmerged := hindex.merged_parentId hmem (hins staged hmem)
  have hmerged' := hindex.merged_parentId hother (hins other hother)
  rw [NodeRow.conflicts, NodeRow.activeName, NodeRow.activeName, merged_status, merged_status,
    if_neg hst, if_neg hst', merged_name, merged_name, hmerged, hmerged', ← hpars,
    ← hsame, hpar, hname] at hfree
  simp at hfree

end

/-! ### Nodes that the target does not take -/

theorem not_stopsEarly {visited : List StagedNode} (hmem : staged ∈ index)
    (href : ¬ staged.Insertable) (hreach : ¬ OutOfReach index staged)
    (hnames : FreeNames visited)
    (hvis : ∀ other, Precedes index other staged → other ∈ visited) : ¬ StopsEarly index := by
  intro hstops
  rcases hstops staged hmem href with hout | ⟨first, second, hfirst, hsnd, hne, hconf⟩
  · exact hreach hout
  · rw [hnames.free (hvis first hfirst) (hvis second hsnd) hne] at hconf
    cases hconf

theorem reached_of_precedes_folder (h : Precedes index other staged)
    (hfol : staged ∈ directories index) : other ∈ folderRows index := by
  rcases h with ⟨depth, -, hdepth, -⟩ | ⟨-, hdoc⟩ | ⟨-, hdoc, -⟩
  · exact mem_folderRows.mpr ⟨depth, hdepth⟩
  · exact absurd hdoc (directory_ne_document hfol)
  · exact absurd hdoc (directory_ne_document hfol)

theorem mem_rows_of_precedes (h : Precedes index other staged) :
    other ∈ folderRows index ++ documentRows index := by
  rcases h with ⟨depth, -, hdepth, -⟩ | ⟨hfol, -⟩ | ⟨hdoc, -⟩
  · exact mem_append_left _ (mem_folderRows.mpr ⟨depth, hdepth⟩)
  · exact mem_append_left _ (mem_folderRows.mpr hfol)
  · exact mem_append_right _ hdoc

variable {before after : List StagedNode}

theorem mem_after (hins : ∀ staged' ∈ before ++ [staged], staged'.Insertable)
    (hmem : other ∈ before ++ staged :: after) (href : ¬ other.Insertable) : other ∈ after := by
  rcases mem_append.mp hmem with hbef | hrest
  · exact absurd (hins other (mem_append_left _ hbef)) href
  rcases mem_cons.mp hrest with rfl | hafter
  · exact absurd (hins other (mem_append_right _ (mem_singleton_self _))) href
  · exact hafter

variable (hindex : IndexSound index)

include hindex

theorem stopsEarly_of_taken_folder
    (hrows : folderRows index = before ++ staged :: after)
    (hins : ∀ staged' ∈ before ++ [staged], staged'.Insertable) (hother : other ∈ before)
    (hconf : staged.merged.conflicts other.merged = true) : StopsEarly index := by
  have horder := pairwise_folderRows hindex
  rw [hrows] at horder
  have hotherRow : other ∈ folderRows index := hrows ▸ mem_append_left _ hother
  have hstagedRow : staged ∈ folderRows index :=
    hrows ▸ mem_append_right _ mem_cons_self
  have hne := ne_of_precedes hindex (folder_of_mem_folderRows hotherRow).1
    (folder_of_mem_folderRows hstagedRow).1 (precedes_of_mem horder hother)
  intro node hmem href
  rcases hindex.types node hmem with hdir | hdoc
  · by_cases hreached : node ∈ folderRows index
    · rw [hrows] at hreached
      have hafter := mem_after hins hreached href
      obtain ⟨-, hrest, hcross⟩ := pairwise_append.mp horder
      exact Or.inr ⟨other, staged, hcross other hother node (mem_cons_of_mem _ hafter),
        (pairwise_cons.mp hrest).1 node hafter, hne, hconf⟩
    · refine Or.inl (Or.inl ⟨mem_directories.mpr ⟨hmem, hdir⟩, ?_⟩)
      exact fun depth hdepth => hreached (mem_folderRows.mpr ⟨depth, hdepth⟩)
  · have hrow := mem_documentRows.mpr ⟨hmem, hdoc⟩
    exact Or.inr ⟨other, staged, Or.inr (Or.inl ⟨mem_folderRows.mp hotherRow, hrow⟩),
      Or.inr (Or.inl ⟨mem_folderRows.mp hstagedRow, hrow⟩), hne, hconf⟩

theorem stopsEarly_of_not_connected
    (hins : ∀ staged ∈ folderRows index, staged.Insertable)
    (hconn : ¬ Connected index) : StopsEarly index := by
  intro node hmem href
  rcases hindex.types node hmem with hdir | hdoc
  · refine Or.inl (Or.inl ⟨mem_directories.mpr ⟨hmem, hdir⟩, ?_⟩)
    intro depth hdepth
    exact href (hins node (mem_folderRows.mpr ⟨depth, hdepth⟩))
  · exact Or.inl (Or.inr ⟨mem_documentRows.mpr ⟨hmem, hdoc⟩, hconn⟩)

theorem stopsEarly_of_taken_document (hconn : Connected index)
    (hfols : ∀ staged ∈ folderRows index, staged.Insertable)
    (hrows : documentRows index = before ++ staged :: after)
    (hins : ∀ staged' ∈ before ++ [staged], staged'.Insertable)
    (hother : other ∈ folderRows index ++ before)
    (hconf : staged.merged.conflicts other.merged = true) : StopsEarly index := by
  have horder := pairwise_rows hindex
  rw [hrows, ← append_assoc] at horder
  have hotherRow : other ∈ folderRows index ++ documentRows index := by
    rw [hrows, ← append_assoc]
    exact mem_append_left _ hother
  have hstagedMem : staged ∈ documentRows index :=
    hrows ▸ mem_append_right _ mem_cons_self
  have hne := ne_of_precedes hindex (mem_index_of_mem_rows hotherRow)
    (mem_documentRows.mp hstagedMem).1 (precedes_of_mem horder hother)
  intro node hmem href
  rcases mem_append.mp ((mem_rows_iff hindex hconn).mpr hmem) with hfol | hdoc
  · exact absurd (hfols node hfol) href
  rw [hrows] at hdoc
  have hafter := mem_after hins hdoc href
  obtain ⟨-, hrest, hcross⟩ := pairwise_append.mp horder
  exact Or.inr ⟨other, staged, hcross other hother node (mem_cons_of_mem _ hafter),
    (pairwise_cons.mp hrest).1 node hafter, hne, hconf⟩

theorem folders_reached_iff :
    (folderRows index).length = (directories index).length ↔
      ∀ staged ∈ directories index, ∃ depth, AtDepth index depth staged := by
  have hnodup : (folderRows index).Nodup :=
    (folders_ready hindex).distinct.imp fun hne heq => hne (congrArg _ heq)
  have hsub : folderRows index ⊆ directories index := fun _ h =>
    mem_directories.mpr (folder_of_mem_folderRows h)
  have hsubperm := List.Nodup.subperm hnodup hsub
  constructor
  · intro hlen staged hmem
    exact mem_folderRows.mp ((hsubperm.perm_of_length_le hlen.ge).mem_iff.mpr hmem)
  · intro hreached
    have hdirs : (directories index).Nodup :=
      (List.Nodup.of_map _ hindex.nodup).sublist filter_sublist
    have hle := (List.Nodup.subperm hdirs fun staged hmem =>
      mem_folderRows.mpr (hreached staged hmem)).length_le
    exact le_antisymm hsubperm.length_le hle

theorem documents_faithful_iff (hconn : Connected index)
    {tables : RestoredTables} (hholds : Holds (folderRows index) tables)
    (hfols : ∀ staged ∈ folderRows index, staged.Insertable)
    (hnames : FreeNames (folderRows index)) :
    (match (documentRows index).foldlM restoreNode tables with
      | .error error => error.isFormatError = true
      | .ok tables =>
        Reproduces index tables ∧ ¬ HasCycle index ∧ ¬ HasBrokenLink index ∧
          ¬ HasNameConflict index) ↔ StopsEarly index := by
  have houtc := loopOutcome hindex (documents_ready hindex hconn) hholds hnames
  generalize (documentRows index).foldlM restoreNode tables = result at houtc
  cases houtc with
  | @refused before after staged constraint hrows href hnames =>
    refine iff_of_false (fun h => Bool.false_ne_true h) ?_
    have hrow : staged ∈ documentRows index := by
      rw [hrows]
      exact mem_append_right _ mem_cons_self
    refine not_stopsEarly (mem_documentRows.mp hrow).1 href ?_ hnames ?_
    · rintro (⟨hdir, -⟩ | ⟨-, hbroken⟩)
      · exact directory_ne_document hdir hrow
      · exact hbroken hconn
    · intro other hother
      have horder := pairwise_rows hindex
      have hmem := mem_rows_of_precedes hother
      rw [hrows, ← append_assoc] at horder hmem
      exact mem_of_precedes hindex horder hmem hother
  | taken hrows hins hother hconf =>
    exact iff_of_true rfl (stopsEarly_of_taken_document hindex hconn hfols hrows hins hother hconf)
  | inserted hholds hdocs hnames =>
    have hins : ∀ staged ∈ index, staged.Insertable := by
      intro staged hmem
      rcases mem_append.mp ((mem_rows_iff hindex hconn).mpr hmem) with hfol | hdoc
      · exact hfols staged hfol
      · exact hdocs staged hdoc
    refine iff_of_true ?_ fun staged hmem href => absurd (hins staged hmem) href
    exact ⟨reproduces hindex hconn hholds hins, not_hasCycle hindex hconn,
      not_hasBrokenLink hindex hconn, not_hasNameConflict hindex hconn hins hnames⟩

/-- A restore of a loaded index is refused or reproduces the hierarchy if and only if it stops
before it comes to a node without a name or parent. -/
theorem restoredFaithfully_iff_of_sound :
    RestoredFaithfully index ↔ StopsEarly index := by
  rw [RestoredFaithfully, restoreIndexedNodes]
  have houtc := loopOutcome hindex (folders_ready hindex) Holds.start List.Pairwise.nil
  generalize (folderRows index).foldlM restoreNode {} = result at houtc
  cases houtc with
  | @refused before after staged constraint hrows href hnames =>
    refine iff_of_false (fun h => Bool.false_ne_true h) ?_
    have hrow : staged ∈ folderRows index := by
      rw [hrows]
      exact mem_append_right _ mem_cons_self
    obtain ⟨depth, hdepth⟩ := mem_folderRows.mp hrow
    refine not_stopsEarly (mem_of_reached hdepth) href ?_ hnames ?_
    · rintro (⟨-, hnone⟩ | ⟨hdoc, -⟩)
      · exact hnone depth hdepth
      · exact directory_ne_document hdepth.mem_directories hdoc
    · intro other hother
      have horder := pairwise_folderRows hindex
      have hreached := reached_of_precedes_folder hother hdepth.mem_directories
      rw [hrows] at horder hreached
      exact mem_of_precedes hindex horder hreached hother
  | taken hrows hins hother hconf =>
    exact iff_of_true rfl (stopsEarly_of_taken_folder hindex hrows hins hother hconf)
  | @inserted tables hholds hfols hnames =>
    dsimp only [bind, Except.bind]
    by_cases hlen : (folderRows index).length = (directories index).length
    · rw [if_neg (not_not.mpr hlen)]
      have hreached := (folders_reached_iff hindex).mp hlen
      cases hfind : (documentRows index).find? fun staged => !hasFolder index staged with
      | some staged =>
        refine iff_of_true rfl (stopsEarly_of_not_connected hindex hfols ?_)
        intro hconn
        have hmiss := find?_some hfind
        rw [hconn.2 staged (mem_of_find?_eq_some hfind)] at hmiss
        cases hmiss
      | none =>
        have hconn : Connected index := ⟨hreached, fun staged hmem => by
          simpa using find?_eq_none.mp hfind staged hmem⟩
        exact documents_faithful_iff hindex hconn hholds hfols hnames
    · rw [if_pos hlen]
      refine iff_of_true rfl (stopsEarly_of_not_connected hindex hfols ?_)
      exact fun hconn => hlen ((folders_reached_iff hindex).mpr hconn.1)

omit hindex

/-- **Restores of nodes.** A restore is refused with a format error, as it must be for cycles,
broken links and conflicting names, or reproduces the staged hierarchy, if and only if it stops
before it comes to a node whose name is missing or whose parent is null in both of its rows. -/
theorem restoredFaithfully_iff {payload : NodePayload} (h : loadNodeIndex payload = .ok index) :
    RestoredFaithfully index ↔ StopsEarly index :=
  restoredFaithfully_iff_of_sound (indexSound_of_load h)

theorem not_faithful_of_integrity {constraint : String}
    (h : restoreIndexedNodes index = .error (.integrity constraint)) :
    ¬ RestoredFaithfully index := by
  rw [RestoredFaithfully, h]
  exact Bool.false_ne_true

/-- A root and one folder whose parent stands in `folders`. -/
def payloadWithParent (parentId : Field) : NodePayload where
  nodes := some
    [⟨"/", "directory", none, none, true, 0, none⟩, ⟨"a", "directory", none, none, true, 0, none⟩]
  folders := some
    [{ id := "/", createdTime := 1, name := .value "/", parentId := .null },
      { id := "a", createdTime := 2, name := .value "Archive", parentId }]
  documents := some []

/-- The folder lies in the root, whether its old row says so or has no parent. -/
theorem restoredFaithfully_absent_parent :
    ∃ index, loadNodeIndex (payloadWithParent .absent) = .ok index ∧
      (RestoredFaithfully index ↔ StopsEarly index) :=
  ⟨_, rfl, restoredFaithfully_iff (show loadNodeIndex (payloadWithParent .absent) = .ok _ from rfl)⟩

/-- An explicitly null parent is staged as the root and inserted as null. -/
theorem null_parent_not_restored : ∃ index, loadNodeIndex (payloadWithParent .null) = .ok index ∧
      index.map (fun staged => (staged.id, staged.parentId)) = [("/", none), ("a", some "/")] ∧
      restoreIndexedNodes index = .error (.integrity "ck_nodes_root_parent") ∧
      ¬ RestoredFaithfully index := by
  refine ⟨_, rfl, rfl, (fun hintegrity => ⟨hintegrity, not_faithful_of_integrity hintegrity⟩) ?_⟩
  decide +kernel

end Cfms.Backup
