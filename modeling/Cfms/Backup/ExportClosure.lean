import Cfms.Backup.Export
import Mathlib.SetTheory.Cardinal.Order

/-!
# Exports are closed under references

The tables of a component refer to tables of the same component, of one that it depends on, or to
`files`.  So the referenced table is exported.  Most tables are exported whole.  Where a filter
applies, it is made of the references themselves: the files and comments that exported tables name,
and for compiled rules the row that the filter of the referring table has found.
-/

namespace Cfms.Backup

open Lib.Relational Migration List

/-! ### Which tables are exported -/

def componentNames (component : BackupComponent) : List String :=
  component.tables.map TableName.name ++
    (extensionData.filter fun entry => entry.2 = component).map fun entry => entry.1.name

theorem tables_covered : ∀ name ∈ backupTableNames, name = .files ∨
    ∃ component : BackupComponent, name ∈ component.tables := by decide

theorem componentTables_subset : ∀ component : BackupComponent, ∀ name ∈ component.tables,
    name ∈ backupTableNames := by decide

section

variable {sel : Option BackupExportSelection} {name : String}

theorem component_of_mem_exportedNames (h : name ∈ exportedNames sel) :
    name = "files" ∨ ∃ component ∈ selectionComponents sel, name ∈ componentNames component := by
  rcases mem_append.mp h with h | h
  · obtain ⟨table, htable, rfl⟩ := mem_map.mp h
    have hcases : table = .files ∨ ∃ component ∈ selectionComponents sel,
        table ∈ component.tables := by
      cases sel with
      | none =>
        rcases tables_covered table htable with hfiles | ⟨component, hcomp⟩
        · exact .inl hfiles
        · exact .inr ⟨component, Finset.mem_univ component, hcomp⟩
      | some sel =>
        have hsel := (mem_filter.mp htable).2
        rw [Bool.or_eq_true, Bool.and_eq_true, beq_iff_eq, decide_eq_true_iff] at hsel
        exact hsel.imp And.right id
    rcases hcases with rfl | ⟨component, hcomp, hmem⟩
    · exact .inl rfl
    · exact .inr ⟨component, hcomp, mem_append_left _ (mem_map_of_mem hmem)⟩
  · obtain ⟨entry, hentry, rfl⟩ := mem_map.mp h
    rw [mem_filter, decide_eq_true_iff] at hentry
    refine .inr ⟨entry.2, hentry.2, mem_append_right _ (mem_map_of_mem ?_)⟩
    exact mem_filter.mpr ⟨hentry.1, decide_eq_true rfl⟩

variable {component : BackupComponent}

theorem mem_exportedNames
    (hcomp : component ∈ selectionComponents sel) (h : name ∈ componentNames component) :
    name ∈ exportedNames sel := by
  rcases mem_append.mp h with h | h
  · obtain ⟨table, htable, rfl⟩ := mem_map.mp h
    refine mem_append_left _ (mem_map_of_mem ?_)
    exact mem_exportedTableNames hcomp htable (componentTables_subset component table htable)
  · obtain ⟨entry, hentry, rfl⟩ := mem_map.mp h
    rw [mem_filter, decide_eq_true_iff] at hentry
    refine mem_append_right _ (mem_map_of_mem ?_)
    exact mem_filter.mpr ⟨hentry.1, decide_eq_true (hentry.2 ▸ hcomp)⟩

theorem files_mem_exportedNames (h : .accounts ∈ selectionComponents sel ∨
    .documentLibrary ∈ selectionComponents sel) : "files" ∈ exportedNames sel := by
  refine mem_append_left _ (mem_map.mpr ⟨.files, ?_, rfl⟩)
  cases sel with
  | none => exact mem_cons_self
  | some sel =>
    refine mem_filter.mpr ⟨mem_cons_self, ?_⟩
    have hfiles : (decide (.accounts ∈ selectionComponents (some sel)) ||
        decide (.documentLibrary ∈ selectionComponents (some sel))) = true := by
      rwa [Bool.or_eq_true, decide_eq_true_iff, decide_eq_true_iff]
    rw [hfiles]
    rfl

theorem dependencies_subset (h : component ∈ selectionComponents sel) :
    component.dependencies ⊆ selectionComponents sel := by
  cases sel with
  | none => exact Finset.subset_univ _
  | some sel =>
    intro dependency hdep
    rw [selectionComponents, ← addDependencies_resolve]
    exact Finset.mem_union_right _ (Finset.mem_biUnion.mpr ⟨component, h, hdep⟩)

end

/-! ### Which tables refer to which -/

theorem names_nodup : (allTables.map TableSpec.name).Nodup := by decide

variable {T : TableSpec}

theorem specOf_eq_some {name : String} (h : specOf name = some T) : T ∈ allTables ∧ T.name = name :=
  ⟨mem_of_find?_eq_some h,
    of_decide_eq_true (find?_some (p := fun other : TableSpec => other.name = name) h)⟩

theorem specOf_of_mem (hT : T ∈ allTables) : specOf T.name = some T := by
  cases hfound : specOf T.name with
  | none => exact absurd (find?_eq_none.mp hfound T hT) (by simp)
  | some T' =>
    obtain ⟨hT', hname⟩ := specOf_eq_some hfound
    rw [inj_on_of_nodup_map names_nodup hT' hT hname]

def Refers (T : TableSpec) (column table referred : String) : Prop :=
  ∃ c ∈ T.columns, c.name = column ∧ c.references = some (table, referred)

theorem refers_of_mem {key : ForeignKey} (h : key ∈ T.foreignKeys) :
    ∃ column table referred, key = ⟨[column], table, [referred]⟩ ∧ Refers T column table referred := by
  obtain ⟨c, hc, hkey⟩ := mem_filterMap.mp h
  obtain ⟨⟨table, referred⟩, hrefs, rfl⟩ := Option.map_eq_some_iff.mp hkey
  exact ⟨c.name, table, referred, rfl, c, hc, rfl, hrefs⟩

def allReferences (T : TableSpec) (test : String → String → String → Bool) : Bool :=
  T.columns.all fun c => c.references.all fun reference => test c.name reference.1 reference.2

theorem Refers.test {column table referred : String}
    {test : String → String → String → Bool} (h : Refers T column table referred)
    (hall : allReferences T test = true) : test column table referred = true := by
  obtain ⟨c, hc, rfl, hrefs⟩ := h
  have hc := all_eq_true.mp hall c hc
  rwa [hrefs, Option.all_some] at hc

theorem files_refersToNothing : (specOf "files").all
    (fun T => allReferences T fun _ _ _ => false) = true := by decide

theorem referred_isStored : allTables.all (fun T => allReferences T fun _ table referred =>
    (specOf table).any fun T' => (storedColumns T').contains referred &&
      referred != "access_rule_set_id") = true := by decide +kernel

/-- **The references of a component stay in it, in those it depends on, and in the files.** -/
theorem components_closed : ∀ component : BackupComponent, (componentNames component).all
    (fun name => (specOf name).all fun T => allReferences T fun _ table _ =>
      (table == "files" && (component == .accounts || component == .documentLibrary)) ||
        decide (∃ other ∈ insert component component.dependencies, table ∈ componentNames other)) =
          true := by decide +kernel

/-- The tables with a `WHERE` clause. -/
def filteredTables : List String :=
  ["files", "object_access_entries", "comments", "compiled_access_rule_sets",
    "compiled_access_rules", "compiled_access_rule_groups", "compiled_access_rule_memberships",
    "compiled_access_rule_rights"]

/-- The references to them: the component and the name of the table, the column, and the referred
table and column. -/
def filteredReferences : List (BackupComponent × String × String × String × String) :=
  [(.accounts, "users", "avatar_id", "files", "id"),
    (.documentLibrary, "document_revisions", "file_id", "files", "id"),
    (.accounts, "users", "status_comment_id", "comments", "comment_id"),
    (.accounts, "userblock_entries", "reason_comment_id", "comments", "comment_id"),
    (.bannedSubnets, "banned_subnets", "reason_comment_id", "comments", "comment_id"),
    (.documentLibrary, "nodes", "access_rule_set_id", "compiled_access_rule_sets", "id"),
    (.documentLibrary, "compiled_access_rules", "rule_set_id", "compiled_access_rule_sets", "id"),
    (.documentLibrary, "compiled_access_rule_groups", "rule_id", "compiled_access_rules", "id"),
    (.documentLibrary, "compiled_access_rule_memberships", "group_id",
      "compiled_access_rule_groups", "id"),
    (.documentLibrary, "compiled_access_rule_rights", "group_id", "compiled_access_rule_groups",
      "id")]

theorem filteredReferences_complete : ∀ component : BackupComponent, (componentNames component).all
    (fun name => (specOf name).all fun T => allReferences T fun column table referred =>
      !filteredTables.contains table ||
        filteredReferences.contains (component, name, column, table, referred)) = true := by
  decide +kernel

def ruleTables : List TableSpec :=
  [compiledAccessRuleSetsTable, compiledAccessRulesTable, compiledAccessRuleGroupsTable,
    compiledAccessRuleMembershipsTable, compiledAccessRuleRightsTable]

theorem specOf_ruleTable (h : T ∈ ruleTables) : specOf T.name = some T := by
  simp only [ruleTables, mem_cons, not_mem_nil, or_false] at h
  rcases h with rfl | rfl | rfl | rfl | rfl <;> rfl

/-! ### Exported rows -/

section

variable {α : Type} [DecidableEq α] {order : String → KeyOrder (Value α)}
  {sel : Option BackupExportSelection} {db : Database (Value α)} {v : Value α}

variable {T : TableSpec} {row : Row (Value α)}

theorem mem_exportedRows : row ∈ exportedRows order sel db T ↔
      ∃ r ∈ db T.name, isSelected sel db T.name r = true ∧ selectedColumns db T r = row := by
  rw [exportedRows, mem_map]
  simp only [(orderBy_perm _ _ _).mem_iff, mem_filter, and_assoc]

theorem mem_exportedTables (hT : T ∈ allTables) :
    row ∈ exportedTables order sel db T.name ↔ T.name ∈ exportedNames sel ∧
      ∃ r ∈ db T.name, isSelected sel db T.name r = true ∧ selectedColumns db T r = row := by
  rw [exportedTables, specOf_of_mem hT]
  dsimp only
  split
  · next hexpo =>
    rw [mem_exportedRows]
    exact (and_iff_right (contains_iff_mem.mp hexpo)).symm
  · next hexpo =>
    constructor
    · exact fun h => absurd h not_mem_nil
    · exact fun h => absurd (contains_iff_mem.mpr h.1) hexpo

variable {r : Row (Value α)} {column : String}

theorem eq_of_selectedColumns (h : selectedColumns db T r column = some v) : r column = some v := by
  rw [selectedColumns] at h
  split_ifs at h
  · exact h
  · exact h

theorem selectedColumns_eq
    (hstor : column ∈ storedColumns T) (hcolumn : column ≠ "access_rule_set_id") :
    selectedColumns db T r column = r column := by
  rw [selectedColumns, if_pos (contains_iff_mem.mpr hstor), if_neg fun h => hcolumn h.2]

theorem isIn_of_selectedColumns
    (h : selectedColumns db nodesTable r "access_rule_set_id" = some v) :
    isIn (some v) (activeCompiledRuleSetIds db) = true := by
  have hvalue := eq_of_selectedColumns h
  rw [selectedColumns] at h
  split_ifs at h with hstor hnode hact
  · rwa [hvalue] at hact
  · exact absurd ⟨rfl, rfl⟩ hnode

variable {table : String}

omit [DecidableEq α] in
theorem mem_valuesIn (hrow : row ∈ db table)
    (hvalue : row column = some v) : some v ∈ valuesIn db table column := by
  refine mem_filter.mpr ⟨mem_map.mpr ⟨row, hrow, hvalue⟩, rfl⟩

theorem isSelected_of_not_filtered (h : table ∉ filteredTables)
    (row : Row (Value α)) : isSelected sel db table row = true := by
  simp only [filteredTables, mem_cons, not_mem_nil, or_false, not_or] at h
  obtain ⟨h₁, h₂, h₃, h₄, h₅, h₆, h₇, h₈⟩ := h
  rw [isSelected, exportTableFilter, compiledAccessRuleFilter]
  · simp
  all_goals assumption

/-- What a filter keeps: the row that a value of an exported row refers to. -/
def KeepsReferenced (selection : Option BackupExportSelection) (db : Database (Value α))
    (table referred : String) (v : Value α) : Prop :=
  ∃ other ∈ db table, other referred = some v ∧ isSelected selection db table other = true

variable {other : Row (Value α)}

theorem keepsReferenced_file (hvalue : some v ∈ selectedFileIds (selectionComponents sel) db)
    (hother : other ∈ db "files") (hid : other "id" = some v) :
    KeepsReferenced sel db "files" "id" v := by
  refine ⟨other, hother, hid, ?_⟩
  have hfilt : exportTableFilter (selectionComponents sel) db "files" other = true := by
    show isIn (other "id") _ = true
    rwa [hid, isIn_some]
  rw [isSelected, hfilt, Bool.or_true]
  rfl

theorem keepsReferenced_comment
    (hvalue : some v ∈ commentReferences (selectionComponents sel) db)
    (hother : other ∈ db "comments") (hid : other "comment_id" = some v) :
    KeepsReferenced sel db "comments" "comment_id" v := by
  refine ⟨other, hother, hid, ?_⟩
  have hfilt : exportTableFilter (selectionComponents sel) db "comments" other = true := by
    show isIn (other "comment_id") _ = true
    rwa [hid, isIn_some]
  rw [isSelected, hfilt, Bool.or_true]
  rfl

theorem isSelected_compiled (h : table ∈ ruleTables.map TableSpec.name) (row : Row (Value α)) :
    isSelected sel db table row = compiledAccessRuleFilter db table row := by
  have hfilt : exportTableFilter (selectionComponents sel) db table row = true := by
    simp only [ruleTables, map_cons, map_nil, mem_cons, not_mem_nil, or_false] at h
    rcases h with rfl | rfl | rfl | rfl | rfl <;> rfl
  rw [isSelected, hfilt, Bool.or_true, Bool.true_and]

theorem keepsReferenced_ruleSet (hvalue : isIn (some v) (activeCompiledRuleSetIds db) = true) :
    KeepsReferenced sel db "compiled_access_rule_sets" "id" v := by
  obtain ⟨ruleSet, hruleSet, hid⟩ := mem_map.mp (isIn_some.mp hvalue)
  refine ⟨ruleSet, (mem_filter.mp hruleSet).1, hid, ?_⟩
  rw [isSelected_compiled (by decide)]
  show isIn (ruleSet "id") _ = true
  rwa [hid]

theorem keepsReferenced_rule (hvalue : isIn (some v) (activeCompiledRuleIds db) = true) :
    KeepsReferenced sel db "compiled_access_rules" "id" v := by
  obtain ⟨rule, hrule, hid⟩ := mem_map.mp (isIn_some.mp hvalue)
  rw [mem_filter] at hrule
  exact ⟨rule, hrule.1, hid, (isSelected_compiled (by decide) rule).trans hrule.2⟩

theorem keepsReferenced_group (hvalue : isIn (some v) (activeCompiledRuleGroupIds db) = true) :
    KeepsReferenced sel db "compiled_access_rule_groups" "id" v := by
  obtain ⟨group, hgroup, hid⟩ := mem_map.mp (isIn_some.mp hvalue)
  rw [mem_filter] at hgroup
  exact ⟨group, hgroup.1, hid, (isSelected_compiled (by decide) group).trans hgroup.2⟩

variable {component : BackupComponent} {referred : String}

variable (hcomp : component ∈ selectionComponents sel)

include hcomp

/-- **The filter of a referenced table keeps what an exported row refers to.** -/
theorem keepsReferenced
    (href : (component, T.name, column, table, referred) ∈ filteredReferences)
    (hT : T ∈ allTables) (hr : r ∈ db T.name)
    (hsel : isSelected sel db T.name r = true)
    (hv : selectedColumns db T r column = some v) (hother : other ∈ db table)
    (hid : other referred = some v) : KeepsReferenced sel db table referred v := by
  have hvalue : r column = some v := eq_of_selectedColumns hv
  have hspec := specOf_of_mem hT
  generalize T.name = name at *
  simp only [filteredReferences, mem_cons, not_mem_nil, or_false] at href
  rcases href with ⟨rfl, rfl, rfl, rfl, rfl⟩ | ⟨rfl, rfl, rfl, rfl, rfl⟩ | ⟨rfl, rfl, rfl, rfl, rfl⟩ |
    ⟨rfl, rfl, rfl, rfl, rfl⟩ | ⟨rfl, rfl, rfl, rfl, rfl⟩ | ⟨rfl, rfl, rfl, rfl, rfl⟩ |
    ⟨rfl, rfl, rfl, rfl, rfl⟩ | ⟨rfl, rfl, rfl, rfl, rfl⟩ | ⟨rfl, rfl, rfl, rfl, rfl⟩ |
    ⟨rfl, rfl, rfl, rfl, rfl⟩
  · -- avatars
    refine keepsReferenced_file ?_ hother hid
    rw [selectedFileIds, if_pos hcomp]
    exact mem_append_left _ (mem_valuesIn hr hvalue)
  · -- files of revisions
    refine keepsReferenced_file ?_ hother hid
    rw [selectedFileIds, if_pos hcomp]
    exact mem_append_right _ (mem_valuesIn hr hvalue)
  · refine keepsReferenced_comment ?_ hother hid
    rw [commentReferences, if_pos hcomp]
    exact mem_append_left _ (mem_append_left _ (mem_valuesIn hr hvalue))
  · refine keepsReferenced_comment ?_ hother hid
    rw [commentReferences, if_pos hcomp]
    exact mem_append_left _ (mem_append_right _ (mem_valuesIn hr hvalue))
  · refine keepsReferenced_comment ?_ hother hid
    rw [commentReferences, if_pos hcomp]
    exact mem_append_right _ (mem_valuesIn hr hvalue)
  · -- an active rule set that a node names
    have hnodes : T = nodesTable := Option.some.inj (hspec.symm.trans rfl)
    rw [hnodes] at hv
    exact keepsReferenced_ruleSet (isIn_of_selectedColumns hv)
  · rw [isSelected_compiled (by decide)] at hsel
    exact keepsReferenced_ruleSet (hvalue ▸ hsel)
  · rw [isSelected_compiled (by decide)] at hsel
    exact keepsReferenced_rule (hvalue ▸ hsel)
  all_goals
    rw [isSelected_compiled (by decide)] at hsel
    exact keepsReferenced_group (hvalue ▸ hsel)

theorem referenced_mem_exportedNames
    (hT : T ∈ allTables) (hname : T.name ∈ componentNames component)
    (href : Refers T column table referred) : table ∈ exportedNames sel := by
  have hcl := all_eq_true.mp (components_closed component) T.name hname
  rw [specOf_of_mem hT, Option.all_some] at hcl
  have htable := href.test hcl
  rw [Bool.or_eq_true, Bool.and_eq_true, Bool.or_eq_true, beq_iff_eq, beq_iff_eq, beq_iff_eq,
    decide_eq_true_iff] at htable
  rcases htable with ⟨rfl, hfiles⟩ | ⟨other, hother, hmem⟩
  · refine files_mem_exportedNames (hfiles.imp ?_ ?_)
    · rintro rfl
      exact hcomp
    · rintro rfl
      exact hcomp
  · refine mem_exportedNames ?_ hmem
    rcases Finset.mem_insert.mp hother with rfl | hdep
    · exact hcomp
    · exact dependencies_subset hcomp hdep

theorem keepsReferenced_of_refers
    (hT : T ∈ allTables) (hname : T.name ∈ componentNames component)
    (href : Refers T column table referred) (hr : r ∈ db T.name)
    (hsel : isSelected sel db T.name r = true)
    (hv : selectedColumns db T r column = some v) (hother : other ∈ db table)
    (hid : other referred = some v) : KeepsReferenced sel db table referred v := by
  by_cases hfiltered : table ∈ filteredTables
  · have hcompl := all_eq_true.mp (filteredReferences_complete component) T.name hname
    rw [specOf_of_mem hT, Option.all_some] at hcompl
    have htable := href.test hcompl
    rw [contains_iff_mem.mpr hfiltered, Bool.not_true, Bool.false_or, contains_iff_mem] at htable
    exact keepsReferenced hcomp htable hT hr hsel hv hother hid
  · exact ⟨other, hother, hid, isSelected_of_not_filtered hfiltered other⟩

omit hcomp

/-- **Exported rows refer to exported rows.** -/
theorem exportedTables_closed (hdb : SatisfiesForeignKeys db) :
    SatisfiesForeignKeys (exportedTables order sel db) := by
  intro T hT row hrow key hkey
  obtain ⟨column, table, referred, rfl, href⟩ := refers_of_mem hkey
  rw [holds_single_iff]
  intro v hv
  obtain ⟨hname, r, hr, hsel, rfl⟩ := (mem_exportedTables hT).mp hrow
  rcases component_of_mem_exportedNames hname with hfiles | ⟨component, hcomp, hmem⟩
  · have hnothing := files_refersToNothing
    rw [← hfiles, specOf_of_mem hT, Option.all_some] at hnothing
    exact absurd (href.test hnothing) Bool.false_ne_true
  · obtain ⟨other, hother, hid⟩ := holds_single_iff.mp (hdb T hT r hr _ hkey) v
      (eq_of_selectedColumns hv)
    obtain ⟨kept, hkept, hkeptId, hkeptSelected⟩ :=
      keepsReferenced_of_refers hcomp hT hmem href hr hsel hv hother hid
    -- the referenced column is exported as it is
    have hany := href.test (all_eq_true.mp referred_isStored T hT)
    obtain ⟨T', hspec, hstor⟩ := (Option.any_eq_true _ _).mp hany
    obtain ⟨hT', rfl⟩ := specOf_eq_some hspec
    rw [Bool.and_eq_true, contains_iff_mem, bne_iff_ne] at hstor
    refine ⟨selectedColumns db T' kept, (mem_exportedTables hT').mpr ⟨?_, kept, hkept, hkeptSelected,
      rfl⟩, (selectedColumns_eq hstor.1 hstor.2).trans hkeptId⟩
    exact referenced_mem_exportedNames hcomp hT hmem href

end

/-! ### The rules of a node -/

section

variable {α : Type} [DecidableEq α] {order : String → KeyOrder (Value α)}
  {sel : Option BackupExportSelection} {source : SourceDatabase α}
  {nodeId : Option (Value α)}

theorem active_of_isIn {ruleSet : Row (Value α)}
    (hruleSet : ruleSet ∈ source.rows "compiled_access_rule_sets")
    (h : isIn (ruleSet "id") (activeCompiledRuleSetIds source.rows) = true) :
    ∃ node ∈ source.rows "nodes", isActiveFor ruleSet node = true := by
  obtain ⟨hmem, hsome⟩ := isIn_iff.mp h
  obtain ⟨v, hv⟩ := Option.isSome_iff_exists.mp hsome
  obtain ⟨found, hfound, hid⟩ := mem_map.mp hmem
  obtain ⟨hfound, hact⟩ := mem_filter.mp hfound
  have hspec : specOf "compiled_access_rule_sets" = some compiledAccessRuleSetsTable := rfl
  have hkey := source.primaryKeys compiledAccessRuleSetsTable (specOf_eq_some hspec).1
  obtain rfl : found = ruleSet :=
    eq_of_conflicts hkey hfound hruleSet (conflicts_single (hid.trans hv) hv)
  rw [Bool.and_eq_true] at hact
  exact any_eq_true.mp hact.1

variable {T : TableSpec} {written : Row (Value α)}

theorem mem_exportedRuleTable (hlib : .documentLibrary ∈ selectionComponents sel)
    (hT : T ∈ ruleTables) :
    written ∈ exportedTables order sel source.rows T.name ↔
      ∃ row ∈ source.rows T.name, compiledAccessRuleFilter source.rows T.name row = true ∧
        selectedColumns source.rows T row = written := by
  have hcomp : ∀ name ∈ ruleTables.map TableSpec.name,
      name ∈ componentNames .documentLibrary := by decide
  have hname : T.name ∈ ruleTables.map TableSpec.name := mem_map_of_mem hT
  rw [mem_exportedTables (specOf_eq_some (specOf_ruleTable hT)).1,
    and_iff_right (mem_exportedNames hlib (hcomp T.name hname))]
  simp only [isSelected_compiled hname]

variable {db : Database (Value α)} {parent : TableSpec} {column : String} {row : Row (Value α)}

theorem compiledFilter_part (hpart : (T, column, parent) ∈ ruleParts) {parentRow : Row (Value α)}
    (hpar : parentRow ∈ db parent.name)
    (hsel : compiledAccessRuleFilter db parent.name parentRow = true)
    (hsame : sameValue (row column) (parentRow "id") = true) :
    compiledAccessRuleFilter db T.name row = true := by
  obtain ⟨hvalue, hsome⟩ := sameValue_iff.mp hsame
  have hid : row column ∈ ((db parent.name).filter
      (compiledAccessRuleFilter db parent.name)).map fun other => other "id" :=
    mem_map.mpr ⟨parentRow, mem_filter.mpr ⟨hpar, hsel⟩, hvalue.symm⟩
  simp only [ruleParts, mem_cons, not_mem_nil, or_false] at hpart
  rcases hpart with ⟨rfl, rfl, rfl⟩ | ⟨rfl, rfl, rfl⟩ | ⟨rfl, rfl, rfl⟩
  all_goals
    exact isIn_iff.mpr ⟨hid, hsome⟩

theorem parts_stored (hpart : (T, column, parent) ∈ ruleParts) (db : Database (Value α)) :
    T ∈ ruleTables ∧ ∀ row, selectedColumns db T row column = row column ∧
      selectedColumns db parent row "id" = row "id" := by
  simp only [ruleParts, mem_cons, not_mem_nil, or_false] at hpart
  rcases hpart with ⟨rfl, rfl, rfl⟩ | ⟨rfl, rfl, rfl⟩ | ⟨rfl, rfl, rfl⟩
  all_goals
    refine ⟨by simp [ruleTables], fun row => ⟨?_, ?_⟩⟩
    · exact selectedColumns_eq (by decide) (by decide)
    · exact selectedColumns_eq (by decide) (by decide)

variable {rule : Row (Value α)}

theorem IsActiveRuleOf.selected
    (h : IsActiveRuleOf db nodeId rule) : rule ∈ db "compiled_access_rules" ∧
      isIn (rule "rule_set_id") (activeCompiledRuleSetIds db) = true := by
  obtain ⟨hrule, ruleSet, hruleSet, node, hnode, hrefers, hact, -⟩ := h
  obtain ⟨hvalue, hsome⟩ := sameValue_iff.mp hrefers
  refine ⟨hrule, isIn_iff.mpr ⟨mem_map.mpr ⟨ruleSet, ?_, hvalue.symm⟩, hsome⟩⟩
  rw [mem_filter, Bool.and_eq_true, any_eq_true, any_eq_true]
  exact ⟨hruleSet, ⟨node, hnode, hact⟩, rule, hrule, hrefers⟩

theorem IsRulePart.selected (h : IsRulePart db (IsActiveRuleOf db nodeId) T row) :
    row ∈ db T.name ∧ compiledAccessRuleFilter db T.name row = true := by
  induction h with
  | rule h => exact h.selected
  | part hpart hpar hrow hsame ih =>
    exact ⟨hrow, compiledFilter_part hpart ih.1 ih.2 hsame⟩

theorem isRulePart_exported {IsRule : Row (Value α) → Prop}
    (hlib : .documentLibrary ∈ selectionComponents sel)
    (hrule : ∀ written, IsRule written ↔ ∃ rule, IsActiveRuleOf source.rows nodeId rule ∧
      selectedColumns source.rows compiledAccessRulesTable rule = written) :
    IsRulePart (exportedTables order sel source.rows) IsRule T written ↔
      ∃ row, IsRulePart source.rows (IsActiveRuleOf source.rows nodeId) T row ∧
        selectedColumns source.rows T row = written := by
  constructor
  · intro h
    induction h with
    | rule h =>
      obtain ⟨rule, hact, hwrit⟩ := (hrule _).mp h
      exact ⟨rule, .rule hact, hwrit⟩
    | part hpart hpar hwrit hsame ih =>
      obtain ⟨parentRow, hprow, rfl⟩ := ih
      obtain ⟨hT, hstor⟩ := parts_stored hpart source.rows
      obtain ⟨row, hrow, hsel, rfl⟩ := (mem_exportedRuleTable hlib hT).mp hwrit
      rw [(hstor row).1, (hstor parentRow).2] at hsame
      exact ⟨row, .part hpart hprow hrow hsame, rfl⟩
  · rintro ⟨row, h, rfl⟩
    induction h with
    | rule h => exact .rule ((hrule _).mpr ⟨_, h, rfl⟩)
    | @part T parent column row parentRow hpart hpar hrow hsame ih =>
      obtain ⟨hT, hstor⟩ := parts_stored hpart source.rows
      have hsel := (IsRulePart.part hpart hpar hrow hsame).selected.2
      refine .part hpart ih ((mem_exportedRuleTable hlib hT).mpr ⟨row, hrow, hsel, rfl⟩) ?_
      rwa [(hstor row).1, (hstor parentRow).2]

theorem IsActiveRuleOf.isRuleOf (h : IsActiveRuleOf db nodeId rule) : IsRuleOf db nodeId rule := by
  obtain ⟨hrule, ruleSet, hruleSet, node, -, hrefers, hact, hnode⟩ := h
  rw [isActiveFor, Bool.and_eq_true] at hact
  exact ⟨hrule, ruleSet, hruleSet, hrefers, sameValue_trans hact.2 hnode⟩

theorem active_of_exported (hlib : .documentLibrary ∈ selectionComponents sel)
    (h : IsRuleOf (exportedTables order sel source.rows) nodeId written) :
    ∃ rule, IsActiveRuleOf source.rows nodeId rule ∧
      selectedColumns source.rows compiledAccessRulesTable rule = written := by
  obtain ⟨hwrit, writtenSet, hwrittenSet, hrefers, howned⟩ := h
  obtain ⟨rule, hrule, -, rfl⟩ :=
    (mem_exportedRuleTable hlib (T := compiledAccessRulesTable) (by simp [ruleTables])).mp hwrit
  obtain ⟨ruleSet, hruleSet, hsel, rfl⟩ :=
    (mem_exportedRuleTable hlib (T := compiledAccessRuleSetsTable) (by simp [ruleTables])).mp
      hwrittenSet
  obtain ⟨node, hnode, hact⟩ := active_of_isIn hruleSet hsel
  have hown := hact
  rw [isActiveFor, Bool.and_eq_true] at hown
  exact ⟨rule, ⟨hrule, ruleSet, hruleSet, node, hnode, hrefers, hact,
    sameValue_trans (sameValue_symm hown.2) howned⟩, rfl⟩

theorem selectedColumns_active {node : Row (Value α)}
    (h : isIn (node "access_rule_set_id") (activeCompiledRuleSetIds db) = true) :
    selectedColumns db nodesTable node "access_rule_set_id" = node "access_rule_set_id" := by
  have hstor : (storedColumns nodesTable).contains "access_rule_set_id" = true := by decide
  rw [selectedColumns, if_pos hstor, if_pos ⟨rfl, rfl⟩, if_pos h]

variable (hlib : .documentLibrary ∈ selectionComponents sel)

include hlib

theorem IsActiveRuleOf.exported
    (h : IsActiveRuleOf source.rows nodeId rule) :
    IsActiveRuleOf (exportedTables order sel source.rows) nodeId
      (selectedColumns source.rows compiledAccessRulesTable rule) := by
  have hsel := h.selected.2
  obtain ⟨hrule, ruleSet, hruleSet, node, hnode, hrefers, hact, hid⟩ := h
  have hset : isIn (ruleSet "id") (activeCompiledRuleSetIds source.rows) = true :=
    (sameValue_iff.mp hrefers).1 ▸ hsel
  have hown := hact
  rw [isActiveFor, Bool.and_eq_true] at hown
  have hptr : isIn (node "access_rule_set_id") (activeCompiledRuleSetIds source.rows) = true :=
    (sameValue_iff.mp hown.1).1 ▸ hset
  have hspec : specOf "nodes" = some nodesTable := rfl
  refine ⟨?_, selectedColumns source.rows compiledAccessRuleSetsTable ruleSet, ?_,
    selectedColumns source.rows nodesTable node, ?_, ?_, ?_, ?_⟩
  · exact (mem_exportedRuleTable hlib (T := compiledAccessRulesTable) (by simp [ruleTables])).mpr
      ⟨rule, hrule, hsel, rfl⟩
  · exact (mem_exportedRuleTable hlib (T := compiledAccessRuleSetsTable)
      (by simp [ruleTables])).mpr ⟨ruleSet, hruleSet, hset, rfl⟩
  · exact (mem_exportedTables (specOf_eq_some hspec).1).mpr
      ⟨mem_exportedNames hlib (by decide), node, hnode,
        isSelected_of_not_filtered (by decide) node, rfl⟩
  · rwa [selectedColumns_eq (by decide) (by decide), selectedColumns_eq (by decide) (by decide)]
  · rw [isActiveFor, selectedColumns_active hptr]
    exact hact
  · rwa [selectedColumns_eq (by decide) (by decide)]

theorem isRuleOf_exported :
    IsRuleOf (exportedTables order sel source.rows) nodeId written ↔
      ∃ rule, IsActiveRuleOf source.rows nodeId rule ∧
        selectedColumns source.rows compiledAccessRulesTable rule = written := by
  constructor
  · exact active_of_exported hlib
  · rintro ⟨rule, hrule, rfl⟩
    exact (hrule.exported hlib).isRuleOf

theorem isActiveRuleOf_exported :
    IsActiveRuleOf (exportedTables order sel source.rows) nodeId written ↔
      ∃ rule, IsActiveRuleOf source.rows nodeId rule ∧
        selectedColumns source.rows compiledAccessRulesTable rule = written := by
  constructor
  · exact fun h => active_of_exported hlib h.isRuleOf
  · rintro ⟨rule, hrule, rfl⟩
    exact hrule.exported hlib

omit hlib

/-! ### Main result -/

/-- **Whatever the selection, exported rows refer to exported rows; and the exported rules of a node,
with all their parts, are those of its own active rule set.** -/
theorem export_closed (order : String → KeyOrder (Value α))
    (sel : Option BackupExportSelection) (source : SourceDatabase α)
    (hsrc : SatisfiesForeignKeys source.rows) :
    SatisfiesForeignKeys (exportedTables order sel source.rows) ∧
      (.documentLibrary ∈ selectionComponents sel →
        ∀ (nodeId : Option (Value α)) (T : TableSpec) (written : Row (Value α)),
          (IsRulePart (exportedTables order sel source.rows)
              (IsRuleOf (exportedTables order sel source.rows) nodeId) T written ↔
            ∃ row, IsRulePart source.rows (IsActiveRuleOf source.rows nodeId) T row ∧
              selectedColumns source.rows T row = written) ∧
          (IsRulePart (exportedTables order sel source.rows)
              (IsActiveRuleOf (exportedTables order sel source.rows) nodeId) T written ↔
            ∃ row, IsRulePart source.rows (IsActiveRuleOf source.rows nodeId) T row ∧
              selectedColumns source.rows T row = written)) := by
  refine ⟨exportedTables_closed hsrc, fun hlib nodeId T written => ⟨?_, ?_⟩⟩
  · exact isRulePart_exported hlib fun _ => isRuleOf_exported hlib
  · exact isRulePart_exported hlib fun _ => isActiveRuleOf_exported hlib

end

def rowOf (values : List (String × Value Empty)) : Row (Value Empty) := fun column =>
  values.lookup column

/-- A folder with a rule, in a database that holds nothing else. -/
def ruledFolder : SourceDatabase Empty where
  rows
    | "nodes" => [rowOf [("id", .text "folder"), ("access_rule_set_id", .integer 1)]]
    | "compiled_access_rule_sets" => [rowOf [("id", .integer 1), ("node_id", .text "folder")]]
    | "compiled_access_rules" => [rowOf [("id", .integer 1), ("rule_set_id", .integer 1)]]
    | _ => []
  primaryKeys := by decide +kernel

theorem ruledFolder_foreignKeys : SatisfiesForeignKeys ruledFolder.rows := by
  unfold SatisfiesForeignKeys
  decide +kernel

def libraryOnly : BackupExportSelection := ⟨{.documentLibrary}, Finset.singleton_nonempty _⟩

theorem ruledFolder_export : ∃ order : String → KeyOrder (Value Empty),
    SatisfiesForeignKeys (exportedTables order (some libraryOnly) ruledFolder.rows) ∧
      ∃ written, IsRulePart (exportedTables order (some libraryOnly) ruledFolder.rows)
        (IsActiveRuleOf (exportedTables order (some libraryOnly) ruledFolder.rows)
          (some (.text "folder"))) compiledAccessRulesTable written := by
  obtain ⟨_, -⟩ := exists_wellFoundedLT (List (Option (Value Empty)))
  let keyOrder : KeyOrder (Value Empty) :=
    { le := fun a b => decide (a ≤ b)
      total := fun a b => by simpa using le_total a b
      trans := fun a b c => by simpa using fun h h' => le_trans h h'
      antisymm := fun a b => by simpa using fun h h' => le_antisymm h h' }
  obtain ⟨hcl, hrules⟩ := export_closed (fun _ => keyOrder) (some libraryOnly) ruledFolder
    ruledFolder_foreignKeys
  have hrule : IsActiveRuleOf ruledFolder.rows (some (.text "folder"))
      (rowOf [("id", .integer 1), ("rule_set_id", .integer 1)]) :=
    ⟨mem_cons_self, _, mem_cons_self, _, mem_cons_self, rfl, rfl, rfl⟩
  exact ⟨fun _ => keyOrder, hcl, _, (hrules (by decide) _ _ _).2.mpr ⟨_, .rule hrule, rfl⟩⟩

end Cfms.Backup
