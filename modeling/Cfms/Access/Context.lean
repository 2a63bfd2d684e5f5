import Cfms.Access.Evaluation
import Cfms.Lib.RecursiveQuery
import Mathlib.Data.List.Dedup

/-!
# Access checks on a prefetched context

`check_access_requirements` loads what the evaluator may need for one target: the ancestors found
by a recursive query that stops at folders without inheritance, their entries, rules and blocks.
The query itself reads the raw tables, but the folders are then loaded through the session, whose
row filter drops the ones in `DELETED` status.  The evaluator stops at the first folder missing
from its map, so a deleted ancestor hides itself and everything above it.

`checkAccessRequirements_eq` states the verdict of the check: the full evaluation over the part
of the inherited chain below the first deleted folder.
-/

namespace Cfms.Access

open Lib.Climb Lib.RecursiveQuery List Database

/-! ### Loading the context -/

variable (db : Database)

/-- The anchor of `anc`; a row of the table is read off one folder, which stands for it. -/
def ancAnchor (seedFolderIds : List NodeId) : List Node :=
  db.folders.filter fun folder => seedFolderIds.contains folder.id

/-- The recursive part of `anc`. -/
def ancNext (anc : Node) : List Node :=
  if anc.inherit then db.folders.filter fun folder => some folder.id == anc.parentId else []

/-- Step A of `_fetch_ancestors_and_oae`. -/
def allAncestorIds (seedFolderIds : List NodeId) : List NodeId :=
  ((recursiveRows (ancNext db) (ancAnchor db seedFolderIds) db.folders.length).map Node.id).dedup

/-- The entries of step C that a target keeps. -/
def contextEntries (allTargetIds : List NodeId) (now : Instant)
    (entityIdentifiers : Option (List String)) (accessType : Option AccessType) :
    NodeId → List ObjectAccessEntry := fun target =>
  db.objectAccessEntries.filter fun entry =>
    entry.targetIdentifier == target && allTargetIds.contains entry.targetIdentifier &&
      entry.activeAt now &&
      (match entityIdentifiers with
        | none => true
        | some identifiers => identifiers.contains entry.entityIdentifier) &&
      match accessType with
      | none => true
      | some requested => entry.accessType == requested

/-- `_fetch_ancestors_and_oae`: the loaded ancestor folders and the entries by target. -/
def fetchAncestorsAndOae (seedFolderIds extraTargetIds excludeFolderIds : List NodeId)
    (now : Instant) (entityIdentifiers : Option (List String)) (accessType : Option AccessType) :
    List Node × (NodeId → List ObjectAccessEntry) :=
  if seedFolderIds.isEmpty then
    ([], contextEntries db extraTargetIds now entityIdentifiers accessType)
  else
    let ancestorIds := allAncestorIds db seedFolderIds
    let pureAncestorIds := ancestorIds.filter fun id => !excludeFolderIds.contains id
    let ancestorFolders := db.folders.filter fun folder =>
      folder.notDeleted && pureAncestorIds.contains folder.id
    (ancestorFolders,
      contextEntries db (extraTargetIds ++ ancestorIds) now entityIdentifiers accessType)

/-- The starting folder of one target: `{x.parent_id for x in targets if x.parent_id}`. -/
def seedFolderIds (target : Node) : List NodeId := (target.parentId.filter (· != "")).toList

/-- `load_document_access_context`, for one document. -/
def loadDocumentAccessContext (document : Node) (now : Instant) :
    List Node × (NodeId → List ObjectAccessEntry) :=
  fetchAncestorsAndOae db (seedFolderIds document) [document.id] [] now none none

/-- `load_user_folder_access_context`, for one folder. -/
def loadUserFolderAccessContext (folder : Node) (user : User) (accessType : AccessType)
    (now : Instant) : List Node × (NodeId → List ObjectAccessEntry) :=
  fetchAncestorsAndOae db (seedFolderIds folder) [folder.id] [folder.id] now
    (some (user.id :: user.allGroups)) (some accessType)

variable (user : User)

/-- The folders `check_access_requirements` passes on, and the entries. -/
def accessContext (target : Node) (accessType : AccessType) (now : Instant) :
    List Node × (NodeId → List ObjectAccessEntry) :=
  match target.type with
  | .document => loadDocumentAccessContext db target now
  | .directory =>
    let context := loadUserFolderAccessContext db target user accessType now
    (target :: context.1, context.2)

/-- The arguments `check_access_requirements` prepares for the evaluator. -/
def requirementArguments (target : Node) (accessType : AccessType) (recursive : Bool)
    (now : Instant) : EvaluationArguments where
  allFolders := (accessContext db user target accessType now).1
  oaeByTarget := (accessContext db user target accessType now).2
  recursive := recursive
  compiledRulesByTarget := some (fetchCompiledAccessRulesForTargets db
    ((target.type, target.id) ::
      (accessContext db user target accessType now).1.map fun folder => (.directory, folder.id))
    (some accessType))
  isGloballyBlocked := (prefetchUserBlocks db user accessType now).1
  blockedIds := (prefetchUserBlocks db user accessType now).2

def checkAccessRequirements (target : Node) (accessType : AccessType) (recursive : Bool)
    (now : Instant) : Except ClimbError Bool :=
  checkAccessForObject db (requirementArguments db user target accessType recursive now) user
    accessType target

/-! ### What is loaded -/

section

variable {db : Database} {target : Node} {seeds : List NodeId} {folder : Node}

theorem mem_folders_of_derivable
    (h : Derivable (ancNext db) (ancAnchor db seeds) folder) : folder ∈ db.folders := by
  cases h with
  | anchor hmem => exact (mem_filter.mp hmem).1
  | @next anc _ _ hmem =>
    unfold ancNext at hmem
    cases hinh : anc.inherit with
    | false => simp [hinh] at hmem
    | true =>
      rw [hinh] at hmem
      exact (mem_filter.mp hmem).1

variable {id : NodeId}

theorem mem_allAncestorIds : id ∈ allAncestorIds db seeds ↔
      ∃ folder, Derivable (ancNext db) (ancAnchor db seeds) folder ∧ folder.id = id := by
  rw [allAncestorIds, mem_dedup, mem_map]
  refine exists_congr ?_
  intro folder
  rw [mem_recursiveRows_iff (fun _ => mem_folders_of_derivable) (Nat.le_succ _)]

theorem mem_allAncestorIds_of_mem_chain (hdb : db.Acyclic) (htgt : target ∈ db.nodes)
    (hfol : folder ∈ inheritedChain db target) :
    folder.id ∈ allAncestorIds db (seedFolderIds target) := by
  have hderivable : Derivable (ancNext db) (ancAnchor db (seedFolderIds target)) folder := by
    refine (hdb.climbs_inheritedChain htgt).forall_mem
      (P := Derivable (ancNext db) (ancAnchor db (seedFolderIds target))) ?_ ?_ folder hfol
    · intro id first hid hlook
      obtain ⟨hmem, rfl, htype⟩ := folder?_eq_some.mp hlook
      have hpar : target.parentId = some first.id := by
        rcases inheritedParent_eq_or target with h | h
        · rwa [h] at hid
        · rw [h] at hid; cases hid
      refine Derivable.anchor (mem_filter.mpr ⟨mem_folders.mpr ⟨hmem, htype⟩, ?_⟩)
      simp [seedFolderIds, hpar, db.nodeIds_ne_empty first hmem]
    · intro below id above hbelow hid hlook
      obtain ⟨hmem, rfl, htype⟩ := folder?_eq_some.mp hlook
      refine Derivable.next hbelow ?_
      unfold inheritedParent at hid
      cases hinh : below.inherit with
      | false => simp [hinh] at hid
      | true =>
        rw [hinh, if_pos rfl] at hid
        rw [ancNext, hinh]
        exact mem_filter.mpr ⟨mem_folders.mpr ⟨hmem, htype⟩, by simp [hid]⟩
  exact mem_allAncestorIds.mpr ⟨folder, hderivable, rfl⟩

theorem allAncestorIds_nil : allAncestorIds db [] = [] := by
  have hempty : ∀ f, ¬ Derivable (ancNext db) (ancAnchor db []) f := by
    intro f hf
    induction hf with
    | anchor h => simp [ancAnchor] at h
    | next _ _ ih => exact ih
  refine eq_nil_iff_forall_not_mem.mpr ?_
  intro id hmem
  obtain ⟨folder, hderivable, -⟩ := mem_allAncestorIds.mp hmem
  exact hempty folder hderivable

theorem fetchAncestorsAndOae_eq (seeds extra exclude : List NodeId) (now : Instant)
    (identifiers : Option (List String)) (accessType : Option AccessType) :
    fetchAncestorsAndOae db seeds extra exclude now identifiers accessType =
      (db.folders.filter fun folder => folder.notDeleted &&
          ((allAncestorIds db seeds).filter fun id => !exclude.contains id).contains folder.id,
        contextEntries db (extra ++ allAncestorIds db seeds) now identifiers accessType) := by
  unfold fetchAncestorsAndOae
  cases seeds with
  | nil => simp [allAncestorIds_nil]
  | cons seed rest => rfl

variable {now : Instant}

theorem mem_fetchAncestorsAndOae {extra exclude : List NodeId}
    {identifiers : Option (List String)} {accessType : Option AccessType} :
    folder ∈ (fetchAncestorsAndOae db seeds extra exclude now identifiers accessType).1 ↔
      folder ∈ db.folders ∧ folder.notDeleted = true ∧ folder.id ∈ allAncestorIds db seeds ∧
        folder.id ∉ exclude := by
  rw [fetchAncestorsAndOae_eq]
  simp [mem_filter]

theorem mem_accessContext {user : User} {accessType : AccessType} :
    folder ∈ (accessContext db user target accessType now).1 ↔
      (target.type = .directory ∧ folder = target) ∨
        (folder ∈ db.folders ∧ folder.notDeleted = true ∧
          folder.id ∈ allAncestorIds db (seedFolderIds target) ∧
          (target.type = .directory → folder.id ≠ target.id)) := by
  unfold accessContext loadDocumentAccessContext loadUserFolderAccessContext
  cases htype : target.type with
  | document =>
    simp only [mem_fetchAncestorsAndOae, not_mem_nil, not_false_eq_true, reduceCtorEq,
      false_and, false_or, false_implies]
  | directory =>
    simp only [mem_cons, mem_fetchAncestorsAndOae, not_mem_nil, or_false, true_and, true_implies]

theorem requirementArguments_folderMap (accessType : AccessType) (recursive : Bool) (now : Instant)
    (hdb : db.Acyclic) (htgt : target ∈ db.nodes)
    (hid : ∀ folder, db.folder? id = some folder → folder ∈ inheritedChain db target) :
    (requirementArguments db user target accessType recursive now).folderMap id =
      restrict Node.notDeleted db.folder? id := by
  have hctx : ∀ n ∈ (accessContext db user target accessType now).1, n ∈ db.nodes := by
    intro n hn
    rcases mem_accessContext.mp hn with ⟨-, rfl⟩ | ⟨hfol, -⟩
    · exact htgt
    · exact (mem_folders.mp hfol).1
  have hself : target ∉ inheritedChain db target ∨ target.type ≠ .directory := by
    by_cases htype : target.type = .directory
    · left
      exact (hdb.climbs_inheritedChain htgt).not_mem_self Node.id
        (fun _ _ h => folder?_key h)
        (folder?_eq_some.mpr ⟨htgt, rfl, htype⟩)
    · exact Or.inr htype
  refine Option.ext ?_
  intro folder
  show (accessContext db user target accessType now).1.find? (fun n => n.id == id) = some folder ↔ _
  rw [find?_id_eq_some hctx, mem_accessContext, restrict, Option.filter_eq_some_iff,
    folder?_eq_some]
  constructor
  · rintro ⟨⟨htype, rfl⟩ | ⟨hfol, hlive, -, -⟩, hfid⟩
    · have hchain := hid folder (folder?_eq_some.mpr ⟨htgt, hfid, htype⟩)
      rcases hself with h | h
      · exact absurd hchain h
      · exact absurd htype h
    · obtain ⟨hmem, htype⟩ := mem_folders.mp hfol
      exact ⟨⟨hmem, hfid, htype⟩, hlive⟩
  · rintro ⟨⟨hmem, hfid, htype⟩, hlive⟩
    have hchain := hid folder (folder?_eq_some.mpr ⟨hmem, hfid, htype⟩)
    refine ⟨Or.inr ⟨mem_folders.mpr ⟨hmem, htype⟩, hlive,
      mem_allAncestorIds_of_mem_chain hdb htgt hchain, ?_⟩, hfid⟩
    intro hdir heq
    obtain rfl := eq_of_id_eq hmem htgt heq
    rcases hself with h | h
    · exact h hchain
    · exact h hdir

theorem climbs_requirementArguments (accessType : AccessType) (recursive : Bool) (now : Instant)
    (hdb : db.Acyclic) (htgt : target ∈ db.nodes) :
    Climbs (requirementArguments db user target accessType recursive now).folderMap inheritedParent
      (inheritedParent target) ((inheritedChain db target).takeWhile Node.notDeleted) := by
  have hchain := hdb.climbs_inheritedChain htgt
  refine (hchain.restrict Node.notDeleted).congr ?_ ?_
  · intro id hid
    refine requirementArguments_folderMap user accessType recursive now hdb htgt ?_
    intro folder hfol
    rw [hid] at hchain
    exact hchain.mem_start hfol
  · intro below hbelow id hid
    refine requirementArguments_folderMap user accessType recursive now hdb htgt ?_
    intro folder hfol
    exact hchain.mem_up (takeWhile_subset _ hbelow) hid hfol

end

/-! ### The context decides as the full tables do -/

section

variable {db : Database} {target : Node} (user : User) (accessType : AccessType) (now : Instant)

variable {id : NodeId}

variable {requested : Option AccessType}

theorem any_contextEntries {targets : List NodeId} (hid : id ∈ targets)
    {identifiers : Option (List String)}
    {test : ObjectAccessEntry → Bool}
    (hentity : ∀ ids, identifiers = some ids → ∀ entry, test entry = true →
      ids.contains entry.entityIdentifier = true)
    (haccess : ∀ t, requested = some t → ∀ entry, test entry = true → (entry.accessType == t) = true) :
    (contextEntries db targets now identifiers requested id).any test =
      (activeEntriesByTarget db now id).any test := by
  rw [contextEntries, activeEntriesByTarget, any_filter, any_filter]
  congr 1
  funext entry
  cases htest : test entry with
  | false => rw [Bool.and_false, Bool.and_false]
  | true =>
    by_cases htgt : entry.targetIdentifier = id
    · have hmem : targets.contains entry.targetIdentifier = true := by simpa [htgt] using hid
      rw [hmem]
      cases identifiers with
      | none =>
        cases requested with
        | none => simp
        | some t => simp only [haccess t rfl entry htest, Bool.and_true]
      | some ids =>
        cases requested with
        | none => simp only [hentity ids rfl entry htest, Bool.and_true]
        | some t =>
          simp only [hentity ids rfl entry htest, haccess t rfl entry htest, Bool.and_true]
    · have hne : (entry.targetIdentifier == id) = false := by simpa using htgt
      simp only [hne, Bool.false_and]

theorem any_accessContext (hid : id = target.id ∨ id ∈ allAncestorIds db (seedFolderIds target))
    (test : ObjectAccessEntry → Bool)
    (htest : ∀ entry, test entry = true →
      entry.entityIdentifier ∈ user.id :: user.allGroups ∧ entry.accessType = accessType) :
    ((accessContext db user target accessType now).2 id).any test =
      (activeEntriesByTarget db now id).any test := by
  have htargets : id ∈ [target.id] ++ allAncestorIds db (seedFolderIds target) := by
    simpa using hid
  unfold accessContext loadDocumentAccessContext loadUserFolderAccessContext
  cases target.type with
  | document =>
    simp only [fetchAncestorsAndOae_eq]
    refine any_contextEntries now htargets ?_ ?_
    · intro ids h
      cases h
    · intro t h
      cases h
  | directory =>
    simp only [fetchAncestorsAndOae_eq]
    refine any_contextEntries now htargets ?_ ?_
    · intro ids h entry hentry
      cases h
      simpa using (htest entry hentry).1
    · intro t h entry hentry
      cases h
      simpa using (htest entry hentry).2

variable (recursive : Bool) {node : Node}

theorem granted_requirementArguments
    (hnode : node.id = target.id ∨ node.id ∈ allAncestorIds db (seedFolderIds target)) :
    granted (requirementArguments db user target accessType recursive now) user accessType node =
      granted (fullEvaluation db user accessType now) user accessType node := by
  have huser : ∀ entry, userEntryMatches user accessType node entry = true →
      entry.entityIdentifier ∈ user.id :: user.allGroups ∧ entry.accessType = accessType := by
    intro entry hentry
    simp only [userEntryMatches, Bool.and_eq_true, beq_iff_eq] at hentry
    simp [hentry]
  have hgroup : ∀ entry, groupEntryMatches user accessType node entry = true →
      entry.entityIdentifier ∈ user.id :: user.allGroups ∧ entry.accessType = accessType := by
    intro entry hentry
    simp only [groupEntryMatches, Bool.and_eq_true, beq_iff_eq, contains_iff_mem] at hentry
    simp [hentry]
  rw [granted, granted]
  simp only [requirementArguments, fullEvaluation, any_accessContext user accessType now hnode _ huser,
    any_accessContext user accessType now hnode _ hgroup]

theorem fetchCompiledAccessRulesForTargets_eq {targets targets' : List (NodeType × NodeId)}
    {type : NodeType} (h : (type, id) ∈ targets)
    (h' : (type, id) ∈ targets') :
    fetchCompiledAccessRulesForTargets db targets requested type id =
      fetchCompiledAccessRulesForTargets db targets' requested type id := by
  simp only [fetchCompiledAccessRulesForTargets, h, h']

theorem admits_requirementArguments (hmem : node ∈ db.nodes)
    (hents : node.id = target.id ∨ node.id ∈ allAncestorIds db (seedFolderIds target))
    (hrules : node = target ∨
      node.type = .directory ∧ node ∈ (accessContext db user target accessType now).1) :
    admits db (requirementArguments db user target accessType recursive now) user accessType node =
      admits db (fullEvaluation db user accessType now) user accessType node := by
  have hload : (node.type, node.id) ∈ (target.type, target.id) ::
      (accessContext db user target accessType now).1.map
        fun folder => ((.directory : NodeType), folder.id) := by
    rcases hrules with rfl | ⟨htype, hctx⟩
    · exact mem_cons_self
    · rw [htype]
      exact mem_cons_of_mem _ (mem_map.mpr ⟨node, hctx, rfl⟩)
  have hall : (node.type, node.id) ∈ db.nodes.map fun n => (n.type, n.id) :=
    mem_map.mpr ⟨node, hmem, rfl⟩
  rw [admits, admits, granted_requirementArguments user accessType now recursive hents]
  simp only [EvaluationArguments.rulesAllow, requirementArguments, fullEvaluation,
    compiledRulesAllowFromMap, fetchCompiledAccessRulesForTargets_eq hload hall]

/-- The folders that the check consults: the inherited chain below the first deleted one. -/
def consultedChain (db : Database) (target : Node) : List Node :=
  (inheritedChain db target).takeWhile Node.notDeleted

/-- **The verdict of a check on the prefetched context.** -/
theorem checkAccessRequirements_eq (hdb : db.Acyclic) (htgt : target ∈ db.nodes) :
    checkAccessRequirements db user target accessType true now =
      .ok (verdict db (fullEvaluation db user accessType now) user accessType
        (consultedChain db target) target) := by
  have hobj := admits_requirementArguments user accessType now true htgt (Or.inl rfl) (Or.inl rfl)
  have hgrant : granted (requirementArguments db user target accessType true now) user accessType
        target = granted (fullEvaluation db user accessType now) user accessType target :=
    granted_requirementArguments user accessType now true (Or.inl rfl)
  have hfols : (consultedChain db target).all
        (admits db (requirementArguments db user target accessType true now) user accessType) =
      (consultedChain db target).all
        (admits db (fullEvaluation db user accessType now) user accessType) := by
    rw [Bool.eq_iff_iff, all_eq_true, all_eq_true]
    refine forall₂_congr ?_
    intro folder hfol
    have hchain : folder ∈ inheritedChain db target := takeWhile_subset _ hfol
    have hlive : folder.notDeleted = true := mem_takeWhile_imp hfol
    obtain ⟨hmem, htype⟩ := folder_of_mem_inheritedChain hdb htgt hchain
    have hid := mem_allAncestorIds_of_mem_chain hdb htgt hchain
    rw [admits_requirementArguments user accessType now true hmem (Or.inr hid)]
    by_cases heq : folder = target
    · exact Or.inl heq
    refine Or.inr ⟨htype, mem_accessContext.mpr (Or.inr ⟨mem_folders.mpr ⟨hmem, htype⟩,
      hlive, hid, ?_⟩)⟩
    intro _ hsame
    exact heq (eq_of_id_eq hmem htgt hsame)
  rw [checkAccessRequirements, checkAccessForObject_eq db user accessType rfl
    (climbs_requirementArguments user accessType true now hdb htgt)]
  show Except.ok (verdict db (requirementArguments db user target accessType true now) user
    accessType (consultedChain db target) target) = _
  rw [verdict, hobj, hgrant, hfols]
  rfl

/-- The check stops at a deleted folder, passes everything below it without a grant on the
target itself, and that folder or one above it refuses the user. -/
def hiddenByDeletedAncestor (db : Database) (user : User) (accessType : AccessType) (now : Instant)
    (target : Node) : Bool :=
  let args := fullEvaluation db user accessType now
  !args.isGloballyBlocked && admits db args user accessType target &&
    !granted args user accessType target &&
    (consultedChain db target).all (admits db args user accessType) &&
    !((inheritedChain db target).dropWhile Node.notDeleted).all (admits db args user accessType)

/-- **The prefetched check agrees with the full evaluation exactly when no refusal stands at or
above a deleted ancestor that the rest of the chain leads to.** -/
theorem access_requirements_agree_iff (hdb : db.Acyclic) (htgt : target ∈ db.nodes) :
    checkAccessRequirements db user target accessType true now =
        checkAccessForObject db (fullEvaluation db user accessType now) user accessType target ↔
      hiddenByDeletedAncestor db user accessType now target = false := by
  have hsplit : (inheritedChain db target).all
        (admits db (fullEvaluation db user accessType now) user accessType) =
      ((consultedChain db target).all
          (admits db (fullEvaluation db user accessType now) user accessType) &&
        ((inheritedChain db target).dropWhile Node.notDeleted).all
          (admits db (fullEvaluation db user accessType now) user accessType)) := by
    rw [consultedChain, ← all_append, takeWhile_append_dropWhile]
  rw [checkAccessRequirements_eq user accessType now hdb htgt,
    fullEvaluation_eq user accessType now hdb htgt, verdict, verdict, hsplit,
    hiddenByDeletedAncestor]
  cases (fullEvaluation db user accessType now).isGloballyBlocked <;>
    cases admits db (fullEvaluation db user accessType now) user accessType target <;>
    cases granted (fullEvaluation db user accessType now) user accessType target <;>
    cases (consultedChain db target).all
      (admits db (fullEvaluation db user accessType now) user accessType) <;>
    cases ((inheritedChain db target).dropWhile Node.notDeleted).all
      (admits db (fullEvaluation db user accessType now) user accessType) <;>
    decide

end

/-! ### A restrictive rule on a deleted folder -/

def deletedDocument : Node :=
  { id := "d", type := .document, name := "d", parentId := some "a", status := .deleted }

/-- The deleted folder `a` asks readers for the group `staff`; the document `d` inherits from it. -/
def deletedFolderDatabase : Database where
  nodes := [{ id := "/", type := .directory, name := "/", parentId := none },
    { id := "a", type := .directory, name := "a", parentId := some "/", status := .deleted,
      accessRuleSetId := some "s" }, deletedDocument]
  nodeIds_nodup := by decide
  nodeIds_ne_empty := by decide
  ruleSets := [⟨"s", "a"⟩]
  rules := [⟨0, "s", .read, .all⟩]
  ruleGroups := [⟨"g", 0, 0, .all, .all, true, .all, false⟩]
  ruleMemberships := [⟨"g", "staff"⟩]

def guestUser : User := ⟨"guest", [], []⟩

def staffUser : User := ⟨"clerk", [], ["staff"]⟩

/-- A guest passes the check although the folder's rule refuses guests. -/
theorem access_requirements_ignore_deleted_folder :
    deletedFolderDatabase.Acyclic ∧ deletedDocument ∈ deletedFolderDatabase.nodes ∧
      checkAccessRequirements deletedFolderDatabase guestUser deletedDocument .read true 0 =
        .ok true ∧
      checkAccessForObject deletedFolderDatabase
        (fullEvaluation deletedFolderDatabase guestUser .read 0) guestUser .read deletedDocument =
        .ok false := by
  decide

/-- For a member of the group the deleted folder hides nothing. -/
theorem access_requirements_agree_for_staff :
    checkAccessRequirements deletedFolderDatabase staffUser deletedDocument .read true 0 =
      checkAccessForObject deletedFolderDatabase
        (fullEvaluation deletedFolderDatabase staffUser .read 0) staffUser .read deletedDocument :=
  (access_requirements_agree_iff staffUser .read 0 (by decide) (by decide)).mpr (by decide)

end Cfms.Access
