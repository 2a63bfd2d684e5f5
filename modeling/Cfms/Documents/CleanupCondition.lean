import Cfms.Documents.CleanupSafety

/-!
# When a cleanup is safe

The removals of a cleanup follow from its input.  The call visits the inactive files of the abandoned
tasks in turn (`visitedFiles`), and takes the revisions of a file one by one, until one belongs to a
document that is purged.  `Harmless` is the condition on the input under which nothing in use is lost.

A file whose revisions belong to a purged document and to others besides is left half way, so that
which revisions go depends on what was purged before.  Where no visited file is of that kind
(`PurgedAlone`), the condition is exact.
-/

namespace Cfms.Documents

open Access Lib List

variable (store : FileStore) (now : Instant)

namespace FileStore

/-! ### The condition -/

/-- The document has no active revision and no live upload. -/
def Purgeable (documentId : NodeId) : Prop :=
  store.documentHasActiveRevision documentId = false ∧ ¬store.HasLiveUpload documentId now

/-- If a document of the file is purged, the file is of that document only. -/
def PurgedAlone (fileId : String) : Prop :=
  ∀ rev ∈ store.revisionsWith fileId, store.Purgeable now rev.documentId →
    ∀ other ∈ store.revisionsWith fileId, other.documentId = rev.documentId

/-- The revisions of the visited files, in the order of the call. -/
def visitedRevisions (files : List String) : List DocumentRevision :=
  files.flatMap store.revisionsWith

/-- The document has a live upload on a file that was not visited before. -/
def HasLiveUploadOutside (earlier : List String) (documentId : NodeId) : Prop :=
  ∃ taskId row, store.fileTasks.lookup taskId = some row ∧ row.isLiveUpload now = true ∧
    row.fileId ∉ earlier ∧ store.hasRevision documentId row.fileId = true

/-- A cleanup that visits these files loses nothing that is in use. -/
structure Harmless (files : List String) : Prop where
  /-- A visited file with a live upload has uses other than revisions. -/
  tasks : ∀ file ∈ files, store.FileHasLiveUpload file now → file ∈ store.otherUses
  /-- A document with a live upload, when the call comes to a file of it, has an active revision or a
  live upload that is still to come. -/
  documents : ∀ earlier file later, files = earlier ++ file :: later →
    (file ∈ earlier → ¬store.PurgedAlone now file) →
    ∀ revision ∈ store.revisionsWith file, store.HasLiveUpload revision.documentId now →
      store.documentHasActiveRevision revision.documentId = true ∨
        store.HasLiveUploadOutside now earlier revision.documentId
  /-- No climb passes a document that is purged. -/
  purges : ∀ id document, store.document? id = some document →
    store.documentHasActiveRevision id = true →
    store.getLatestRevision document ≠ store.newestActiveRevision id →
    ∀ climbed ∈ store.climbedRevisions document, store.Purgeable now climbed.documentId →
      ∀ revision ∈ store.visitedRevisions files, revision.documentId ≠ climbed.documentId
  /-- A climb loses revisions from its start only. -/
  climbs : ∀ id document, store.document? id = some document →
    store.documentHasActiveRevision id = true →
    store.getLatestRevision document ≠ store.newestActiveRevision id →
    ∀ below climbed above, store.climbedRevisions document = below ++ climbed :: above →
      ∀ earlier later, store.visitedRevisions files = earlier ++ climbed :: later →
        climbed.documentId = id ∧ document.notDeleted = true ∧
          ∀ revision ∈ below, revision ∈ earlier ∧ store.PurgedAlone now revision.fileId

/-! ### What a run has done by a removal -/

section

variable {store store₀ store' : FileStore} {now : Instant} {files earlier : List String}
  {log removals : List (FileStore × Removal)} {revisions : List DocumentRevision}

theorem mem_revisionsWith {fileId : String} {rev : DocumentRevision} :
    rev ∈ store.revisionsWith fileId ↔ rev ∈ store.revisions ∧ rev.fileId = fileId := by
  rw [revisionsWith, mem_filter, beq_iff_eq]

/-- No document with a live upload was purged. -/
def KeepsUploads (store : FileStore) (now : Instant) (log : List (FileStore × Removal)) : Prop :=
  ∀ id, .document id ∈ log.map Prod.snd → ¬store.HasLiveUpload id now

/-- Where a run stands when it has visited the earlier files. -/
structure Reached (store₀ : FileStore) (now : Instant) (earlier : List String)
    (log : List (FileStore × Removal)) (store : FileStore) : Prop where
  reclaims : Reclaims now store₀ log store
  gone : ∀ revision ∈ store₀.revisions, revision ∉ store.revisions →
    revision.fileId ∈ earlier ∨ .document revision.documentId ∈ log.map Prod.snd
  cleared : store₀.KeepsUploads now log → ∀ revision ∈ store.revisions,
    store₀.PurgedAlone now revision.fileId → revision.fileId ∉ earlier

/-- A removal of a run that visits the files: the revision it comes to, and what is gone by then. -/
structure Turn (store₀ : FileStore) (now : Instant) (files : List String)
    (log : List (FileStore × Removal)) (entry : FileStore × Removal) (revision : DocumentRevision)
    (earlier : List String) : Prop where
  visited : ∃ later, files = earlier ++ revision.fileId :: later
  mem : revision ∈ entry.1.revisions
  removal : entry.2 = .revision revision ∨ entry.2 = .document revision.documentId
  gone : ∀ other ∈ store₀.revisions, other ∉ entry.1.revisions →
    other.fileId ∈ earlier ∨ other.fileId = revision.fileId ∨
      .document other.documentId ∈ log.map Prod.snd
  cleared : store₀.KeepsUploads now log → ∀ other ∈ entry.1.revisions,
    store₀.PurgedAlone now other.fileId → other.fileId ∉ earlier ∧
      ∀ below above, store₀.revisionsWith revision.fileId = below ++ revision :: above → other ∉ below

/-- Every removal of a part of a run has its turn. -/
def Turns (store₀ : FileStore) (now : Instant) (files : List String) :
    List (FileStore × Removal) → List (FileStore × Removal) → Prop
  | _, [] => True
  | log, entry :: rest =>
    (∃ rev earlier, Turn store₀ now files log entry rev earlier) ∧
      Turns store₀ now files (log ++ [entry]) rest

theorem turns_append {first rest : List (FileStore × Removal)}
    (h : Turns store₀ now files log first) (h' : Turns store₀ now files (log ++ first) rest) :
    Turns store₀ now files log (first ++ rest) := by
  induction first generalizing log with
  | nil =>
    rw [append_nil] at h'
    exact h'
  | cons entry first ih =>
    refine ⟨h.1, ih h.2 ?_⟩
    rw [append_assoc]
    exact h'

theorem Turns.turn {entry : FileStore × Removal} {before after : List (FileStore × Removal)}
    (h : Turns store₀ now files log (before ++ entry :: after)) :
    ∃ rev earlier, Turn store₀ now files (log ++ before) entry rev earlier := by
  induction before generalizing log with
  | nil =>
    rw [append_nil]
    exact h.1
  | cons first before ih =>
    have hturn := ih h.2
    rw [append_assoc] at hturn
    exact hturn

theorem KeepsUploads.left {rest : List (FileStore × Removal)}
    (h : store.KeepsUploads now (log ++ rest)) : store.KeepsUploads now log := by
  intro id hid
  refine h id ?_
  rw [map_append]
  exact mem_append_left _ hid

/-- The removed revisions, by the removals. -/
theorem Reclaims.removed (h : Reclaims now store removals store') {rev : DocumentRevision}
    (hrev : rev ∈ store.revisions) (hgone : rev ∉ store'.revisions) :
    .revision rev ∈ removals.map Prod.snd ∨ .document rev.documentId ∈ removals.map Prod.snd := by
  induction h with
  | done store => exact absurd hrev hgone
  | tasks hstep _ ih =>
    obtain ⟨_, _, rfl⟩ := hstep.rows
    exact ih hrev hgone
  | @removal store store₁ _ removal _ hstep _ ih =>
    by_cases hnext : rev ∈ store₁.revisions
    · exact (ih hnext hgone).imp (mem_cons_of_mem _) (mem_cons_of_mem _)
    cases hstep with
    | document _ _ hpurge =>
      right
      rw [hpurge.mem_revisions] at hnext
      rw [not_not.mp fun hne => hnext ⟨hrev, hne⟩]
      exact mem_cons_self
    | @revision deleted _ hdel _ _ hrows =>
      left
      rw [hrows.mem_revisions] at hnext
      have hid := not_not.mp fun hne => hnext ⟨hrev, hne⟩
      rw [inj_on_of_nodup_map store.revisionIds_nodup hrev hdel hid]
      exact mem_cons_self

theorem Reclaims.revisionsHaveDocuments (h : Reclaims now store removals store')
    (hkeys : store.RevisionsHaveDocuments) : store'.RevisionsHaveDocuments := by
  induction h with
  | done store => exact hkeys
  | tasks hstep _ ih => exact ih (hstep.revisionsHaveDocuments hkeys)
  | removal hstep _ ih => exact ih (hstep.revisionsHaveDocuments hkeys)

/-- A document with a revision left was not purged. -/
theorem Reclaims.not_purged (h : Reclaims now store removals store')
    (hkeys : store.RevisionsHaveDocuments) {rev : DocumentRevision}
    (hrev : rev ∈ store'.revisions) :
    .document rev.documentId ∉ removals.map Prod.snd :=
  (h.document?_isSome.mp (h.revisionsHaveDocuments hkeys rev hrev)).2

theorem removes_purgeable {id : NodeId} (h : Reclaims now store₀ log store)
    (hremoves : Removes now store (.document id) store') (hkeeps : ¬store₀.HasLiveUpload id now) :
    store₀.Purgeable now id := by
  cases hremoves with
  | document hnone _ _ => exact ⟨(h.documentHasActiveRevision_eq id).symm.trans hnone, hkeeps⟩

section

variable {file : String} {later : List String} {rev : DocumentRevision}
  {rest : List DocumentRevision}

/-- A revision that is still to come is not before the one whose turn it is. -/
theorem turn_of_coming {removal : Removal} (hfiles : files = earlier ++ file :: later)
    (hgone : ∀ other ∈ store₀.revisions, other ∉ store.revisions →
      other.fileId ∈ earlier ∨ other.fileId = file ∨ .document other.documentId ∈ log.map Prod.snd)
    (hclr : store₀.KeepsUploads now log → ∀ other ∈ store.revisions,
      store₀.PurgedAlone now other.fileId → other.fileId ∉ earlier)
    (hsub : (rev :: rest).Sublist (store₀.revisionsWith file))
    (hrest : ∀ other, other ∈ rev :: rest ↔ other ∈ store.revisions ∧ other.fileId = file)
    (hrem : removal = .revision rev ∨ removal = .document rev.documentId) :
    Turn store₀ now files log (store, removal) rev earlier := by
  obtain ⟨hmem, rfl⟩ := (hrest rev).mp mem_cons_self
  refine ⟨⟨later, hfiles⟩, hmem, hrem, hgone, fun hkeeps other hother halone =>
    ⟨hclr hkeeps other hother halone, fun below above hsplit hbelow => ?_⟩⟩
  have hnodup : (store₀.revisionsWith rev.fileId).Nodup :=
    store₀.revisionIds_nodup.of_map.filter _
  have hsame : other.fileId = rev.fileId := (mem_revisionsWith.mp
    (by rw [hsplit]; exact mem_append_left _ hbelow)).2
  have hcoming : other ∈ rev :: rest := (hrest other).mpr ⟨hother, hsame⟩
  rw [hsplit] at hsub hnodup
  obtain ⟨-, -, hdisj⟩ := nodup_append.mp hnodup
  have hnotin : rev ∉ below := fun hin => hdisj _ hin _ mem_cons_self rfl
  have hafter : (rev :: rest).Sublist (rev :: above) := by
    obtain ⟨left, right, happend, hleft, hright⟩ := sublist_append_iff.mp hsub
    cases left with
    | nil =>
      rw [happend]
      exact hright
    | cons first left =>
      cases happend
      exact absurd (hleft.subset mem_cons_self) hnotin
  exact hdisj _ hbelow _ (hafter.subset hcoming) rfl

/-- **The loop over the revisions of a file.** -/
theorem Loops.turns (hfiles : files = earlier ++ file :: later)
    (h : Loops now revisions store removals store') (hrecl : Reclaims now store₀ log store)
    (hgone : ∀ other ∈ store₀.revisions, other ∉ store.revisions →
      other.fileId ∈ earlier ∨ other.fileId = file ∨ .document other.documentId ∈ log.map Prod.snd)
    (hclr : store₀.KeepsUploads now log → ∀ other ∈ store.revisions,
      store₀.PurgedAlone now other.fileId → other.fileId ∉ earlier)
    (hsub : revisions.Sublist (store₀.revisionsWith file))
    (hrest : ∀ other, other ∈ revisions ↔ other ∈ store.revisions ∧ other.fileId = file) :
    Turns store₀ now files log removals ∧
      Reached store₀ now (earlier ++ [file]) (log ++ removals) store' := by
  induction h generalizing log with
  | done store =>
    rw [append_nil]
    refine ⟨trivial, hrecl, fun other hother hnot => ?_, fun hkeeps other hother halone => ?_⟩
    · rcases hgone other hother hnot with hbef | hsame | hpurge
      · exact .inl (mem_append_left _ hbef)
      · exact .inl (by rw [hsame]; exact mem_append_cons_self)
      · exact .inr hpurge
    · intro hvis
      rcases mem_append.mp hvis with hbef | hsame
      · exact hclr hkeeps other hother halone hbef
      · exact not_mem_nil ((hrest other).mpr ⟨hother, mem_singleton.mp hsame⟩)
  | @purge rev rest store store' hstep =>
    obtain ⟨hmem, rfl⟩ := (hrest rev).mp mem_cons_self
    refine ⟨⟨⟨rev, earlier, turn_of_coming hfiles hgone hclr hsub hrest (.inr rfl)⟩, trivial⟩,
      hrecl.append (.removal hstep (.done _)), fun other hother hnot => ?_,
      fun hkeeps other hother halone => ?_⟩
    · rw [map_append]
      by_cases hstays : other ∈ store.revisions
      · refine .inr (mem_append_right _ ?_)
        rcases (Reclaims.removal hstep (.done store')).removed hstays hnot with hdel | hpurge
        · cases mem_singleton.mp hdel
        · exact hpurge
      · rcases hgone other hother hstays with hbef | hsame | hpurge
        · exact .inl (mem_append_left _ hbef)
        · exact .inl (by rw [hsame]; exact mem_append_cons_self)
        · exact .inr (mem_append_left _ hpurge)
    · intro hvis
      have hold := (hstep.revisions other hother).1
      rcases mem_append.mp hvis with hbef | hsame
      · exact hclr hkeeps.left other hold halone hbef
      rw [mem_singleton] at hsame
      rw [hsame] at halone
      have hpur := removes_purgeable hrecl hstep
        (hkeeps _ (by rw [map_append]; exact mem_append_cons_self))
      have hdoc := halone rev (mem_revisionsWith.mpr ⟨hrecl.sublist.subset hmem, rfl⟩) hpur other
        (mem_revisionsWith.mpr ⟨hrecl.sublist.subset hold, hsame⟩)
      cases hstep with
      | document _ _ hpurge => exact (hpurge.mem_revisions.mp hother).2 hdoc
  | @delete rev rest store store₁ store' removals hstep hloop ih =>
    obtain ⟨hmem, hfile⟩ := (hrest rev).mp mem_cons_self
    have hnodup : (rev :: rest).Nodup :=
      (store₀.revisionIds_nodup.of_map.filter _).sublist hsub
    have hleft : ∀ other, other ∈ store₁.revisions ↔ other ∈ store.revisions ∧ other ≠ rev := by
      intro other
      cases hstep with
      | revision _ _ _ hdel =>
        rw [hdel.mem_revisions]
        refine and_congr_right fun hother => not_congr ⟨fun hid => ?_, fun heq => by rw [heq]⟩
        exact inj_on_of_nodup_map store.revisionIds_nodup hother hmem hid
    obtain ⟨hturns, hreach⟩ := ih (hrecl.append (.removal hstep (.done _)))
      (fun other hother hnot => by
        by_cases hstays : other ∈ store.revisions
        · right
          left
          rw [not_not.mp fun hne => hnot ((hleft other).mpr ⟨hstays, hne⟩)]
          exact hfile
        · refine (hgone other hother hstays).imp_right (Or.imp_right fun hpurge => ?_)
          rw [map_append]
          exact mem_append_left _ hpurge)
      (fun hkeeps other hother => hclr hkeeps.left other ((hleft other).mp hother).1)
      ((sublist_cons_self _ _).trans hsub)
      (fun other => by
        rw [hleft other]
        constructor
        · intro hother
          have hboth := (hrest other).mp (mem_cons_of_mem _ hother)
          exact ⟨⟨hboth.1, fun heq => (nodup_cons.mp hnodup).1 (heq ▸ hother)⟩, hboth.2⟩
        · rintro ⟨⟨hother, hne⟩, hsame⟩
          exact (mem_cons.mp ((hrest other).mpr ⟨hother, hsame⟩)).resolve_left hne)
    rw [append_assoc] at hreach
    exact ⟨⟨⟨rev, earlier, turn_of_coming hfiles hgone hclr hsub hrest (.inl rfl)⟩, hturns⟩, hreach⟩

end

/-- **The loop over the tasks.** -/
theorem Visits.turns {later : List String} (h : Visits now later store removals store')
    (hfiles : files = earlier ++ later) (hreach : Reached store₀ now earlier log store) :
    Turns store₀ now files log removals ∧ Reached store₀ now files (log ++ removals) store' := by
  induction h generalizing earlier log with
  | done store =>
    rw [append_nil] at hfiles ⊢
    exact ⟨trivial, hfiles ▸ hreach⟩
  | tasks hstep _ ih =>
    refine ih hfiles ⟨?_, ?_, ?_⟩
    · rw [← append_nil log]
      exact hreach.reclaims.append (.tasks hstep (.done _))
    · obtain ⟨_, _, rfl⟩ := hstep.rows
      exact hreach.gone
    · obtain ⟨_, _, rfl⟩ := hstep.rows
      exact hreach.cleared
  | @visit file later store store₁ store' removals removals' hloop _ ih =>
    have hsub : (store.revisionsWith file).Sublist (store₀.revisionsWith file) :=
      hreach.reclaims.sublist.filter _
    obtain ⟨hturns, hnext⟩ := hloop.turns hfiles hreach.reclaims
      (fun other hother hnot => (hreach.gone other hother hnot).imp_right Or.inr)
      hreach.cleared hsub (fun other => mem_revisionsWith)
    obtain ⟨hturns', hlast⟩ := ih (by rw [hfiles, append_assoc]; rfl) hnext
    rw [append_assoc] at hlast
    exact ⟨turns_append hturns hturns', hlast⟩

theorem Visits.turns_of_start (h : Visits now files store removals store') :
    Turns store now files [] removals ∧ Reached store now files removals store' :=
  h.turns rfl ⟨.done store, fun _ hrev hnot => absurd hrev hnot,
    fun _ _ _ _ => not_mem_nil⟩

variable {doc : Node} {id : NodeId}

theorem climbedRevisions_nodup (hacyc : store.Acyclic) (doc : Node) :
    (store.climbedRevisions doc).Nodup := by
  obtain ⟨l, hl⟩ := hacyc.exists_ancestry doc.currentRevisionId
  have hnodup := Climb.Climbs.keys_nodup DocumentRevision.id (fun _ _ => revision?_id) hl
  rw [climbedRevisions, hl.climb_eq (Nat.lt_succ_of_le hl.length_le)]
  exact hnodup.of_map.sublist (takeWhile_sublist _)

/-- A climb starts at the current revision. -/
theorem current_of_climbedRevisions {first : DocumentRevision} {rest : List DocumentRevision}
    (h : store.climbedRevisions doc = first :: rest) :
    doc.currentRevisionId = some first.id := by
  rw [climbedRevisions] at h
  cases hcur : doc.currentRevisionId with
  | none =>
    rw [hcur] at h
    cases h
  | some id =>
    rw [hcur, Climb.climb] at h
    cases hfound : store.revision? id with
    | none =>
      rw [hfound] at h
      cases h
    | some rev =>
      rw [hfound, takeWhile_cons] at h
      split at h
      · cases h
        rw [revision?_id hfound]
      · cases h

/-- The place of a revision among the visited ones, from its turn. -/
theorem Turn.visitedRevisions_eq {entry : FileStore × Removal} {rev : DocumentRevision}
    (h : Turn store now files log entry rev earlier) (hrev : rev ∈ store.revisions) :
    ∃ below above later, store.revisionsWith rev.fileId = below ++ rev :: above ∧
      store.visitedRevisions files = (store.visitedRevisions earlier ++ below) ++ rev :: later := by
  obtain ⟨later, hvis⟩ := h.visited
  obtain ⟨below, above, hsplit⟩ := append_of_mem (mem_revisionsWith.mpr ⟨hrev, rfl⟩)
  refine ⟨below, above, above ++ store.visitedRevisions later, hsplit, ?_⟩
  rw [visitedRevisions, hvis, flatMap_append, flatMap_cons, hsplit]
  simp [visitedRevisions]

theorem mem_visitedRevisions {rev : DocumentRevision} : rev ∈ store.visitedRevisions files ↔
      rev ∈ store.revisions ∧ rev.fileId ∈ files := by
  rw [visitedRevisions, mem_flatMap]
  constructor
  · rintro ⟨file, hfile, hmem⟩
    obtain ⟨hrev, rfl⟩ := mem_revisionsWith.mp hmem
    exact ⟨hrev, hfile⟩
  · rintro ⟨hrev, hfile⟩
    exact ⟨_, hfile, mem_revisionsWith.mpr ⟨hrev, rfl⟩⟩

/-! ### The condition is enough -/

section

variable (hharm : store.Harmless now files) (h : Visits now files store removals store')

include hharm h

variable (hkeys : store.RevisionsHaveDocuments)

include hkeys

omit hkeys

end

/-! ### The condition is needed -/

theorem append_cons_unique {α : Type*} {a : α} {x y u v : List α} (hx : a ∉ x) (hy : a ∉ y)
    (h : x ++ a :: u = y ++ a :: v) : x = y := by
  rcases append_eq_append_iff.mp h with ⟨l, hl, hrest⟩ | ⟨l, hl, hrest⟩
  · cases l with
    | nil => rw [hl, append_nil]
    | cons b l =>
      cases hrest
      exact absurd (by rw [hl]; exact mem_append_cons_self) hy
  · cases l with
    | nil => rw [hl, append_nil]
    | cons b l =>
      cases hrest
      exact absurd (by rw [hl]; exact mem_append_cons_self) hx

theorem mem_of_append_cons_eq {α : Type*} {a b : α} {x y u v : List α} (ha : a ∉ x) (hne : a ≠ b)
    (h : x ++ b :: u = y ++ a :: v) : b ∈ y := by
  rcases append_eq_append_iff.mp h with ⟨l, hl, hrest⟩ | ⟨l, hl, hrest⟩
  · cases l with
    | nil =>
      cases hrest
      exact absurd rfl hne
    | cons c l =>
      cases hrest
      rw [hl]
      exact mem_append_cons_self
  · cases l with
    | nil =>
      cases hrest
      exact absurd rfl hne
    | cons c l =>
      cases hrest
      exact absurd (by rw [hl]; exact mem_append_cons_self) ha

theorem Turns.left {first rest : List (FileStore × Removal)}
    (h : Turns store₀ now files log (first ++ rest)) : Turns store₀ now files log first := by
  induction first generalizing log with
  | nil => trivial
  | cons entry first ih => exact ⟨h.1, ih h.2⟩

/-- The turn of a deleted revision. -/
theorem Turns.deleted {rev : DocumentRevision} (hturns : Turns store now files [] removals)
    (h : .revision rev ∈ removals.map Prod.snd) :
    ∃ before entry after earlier, removals = before ++ entry :: after ∧
      entry.2 = .revision rev ∧ Turn store now files before entry rev earlier := by
  obtain ⟨entry, hentry, heq⟩ := mem_map.mp h
  obtain ⟨before, after, rfl⟩ := append_of_mem hentry
  obtain ⟨visited, earlier, hturn⟩ := hturns.turn
  refine ⟨before, entry, after, earlier, rfl, heq, ?_⟩
  rcases hturn.removal with hrem | hrem
  · rw [heq] at hrem
    cases hrem
    exact hturn
  · rw [heq] at hrem
    cases hrem

theorem Turns.purged {docId : NodeId} (hturns : Turns store now files [] removals)
    (h : .document docId ∈ removals.map Prod.snd) :
    ∃ before entry after rev earlier, removals = before ++ entry :: after ∧
      entry.2 = .document docId ∧ rev.documentId = docId ∧
      Turn store now files before entry rev earlier := by
  obtain ⟨entry, hentry, heq⟩ := mem_map.mp h
  obtain ⟨before, after, rfl⟩ := append_of_mem hentry
  obtain ⟨rev, earlier, hturn⟩ := hturns.turn
  refine ⟨before, entry, after, rev, earlier, rfl, heq, ?_, hturn⟩
  rcases hturn.removal with hrem | hrem
  · rw [heq] at hrem
    cases hrem
  · rw [heq] at hrem
    cases hrem
    rfl

section

variable (hkeys : store.RevisionsHaveDocuments) (hacyc : store.Acyclic)
  (hdoc : store.document? id = some doc) (hhas : store.documentHasActiveRevision id = true)

include hkeys hacyc hdoc hhas

/-- A run that does not cut a climb takes its revisions one by one. -/
theorem Turns.deleted_of_climbed (hturns : Turns store now files [] removals)
    (h : Reclaims now store removals store') (hspared : removals.any (cutsLatest id) = false)
    {climbed : DocumentRevision} (hclimbed : climbed ∈ store.climbedRevisions doc)
    (hgone : climbed ∉ store'.revisions) : .revision climbed ∈ removals.map Prod.snd := by
  have hmem := mem_of_climbedRevisions hacyc hclimbed
  rcases h.removed hmem hgone with hdel | hpurge
  · exact hdel
  obtain ⟨before, entry, after, rev, earlier, rfl, hentry, hsame, hturn⟩ := hturns.purged hpurge
  obtain ⟨hrun, -⟩ := h.split rfl
  rw [any_append, Bool.or_eq_false_iff, any_cons, Bool.or_eq_false_iff] at hspared
  obtain ⟨hbef, hcut, -⟩ := hspared
  obtain ⟨current, hfollows⟩ := hrun.follows hacyc hdoc hhas hbef
  rw [cutsLatest, hfollows.found, Option.any_some, hentry, removalCuts, any_eq_false] at hcut
  obtain ⟨gone, hclimb, hnot⟩ := hfollows.climb
  rw [hclimb, mem_append] at hclimbed
  rcases hclimbed with hbelow | hcoming
  · rcases hrun.removed hmem (hnot climbed hbelow) with hdel | hpurge'
    · rw [map_append]
      exact mem_append_left _ hdel
    · rw [← hsame] at hpurge'
      exact absurd hpurge' (hrun.not_purged hkeys hturn.mem)
  · exact absurd (beq_self_eq_true _) (hcut climbed hcoming)

end

section

variable (halone : ∀ file ∈ files, store.PurgedAlone now file)
  (h : Visits now files store removals store')

include halone h

/-- Every visited revision is gone in the end. -/
theorem Visits.gone (hkeeps : store.KeepsUploads now removals) {rev : DocumentRevision}
    (hvis : rev ∈ store.visitedRevisions files) : rev ∉ store'.revisions := fun hmem =>
  have hfile := (mem_visitedRevisions.mp hvis).2
  h.turns_of_start.2.cleared hkeeps rev hmem (halone _ hfile) hfile

theorem Spares.documents_harmless (hspares : Spares now store removals) {earlier later : List String}
    {file : String} (hfiles : files = earlier ++ file :: later)
    (hfirst : file ∈ earlier → ¬store.PurgedAlone now file) {rev : DocumentRevision}
    (hrev : rev ∈ store.revisionsWith file)
    (hlive : store.HasLiveUpload rev.documentId now) :
    store.documentHasActiveRevision rev.documentId = true ∨
      store.HasLiveUploadOutside now earlier rev.documentId := by
  obtain ⟨hmem, rfl⟩ := mem_revisionsWith.mp hrev
  have hfile : rev.fileId ∈ files := by
    rw [hfiles]
    exact mem_append_cons_self
  have hgone := h.gone halone hspares.documents (mem_visitedRevisions.mpr ⟨hmem, hfile⟩)
  have hdel := (h.reclaims.removed hmem hgone).resolve_right
    fun hpurge => hspares.documents _ hpurge hlive
  obtain ⟨before, entry, after, earlier', rfl, hentry, hturn⟩ := h.turns_of_start.1.deleted hdel
  have hkeeps : store.KeepsUploads now before := KeepsUploads.left hspares.documents
  obtain ⟨hrun, store₁, hremoves, -⟩ := h.reclaims.split rfl
  obtain ⟨later', hfiles'⟩ := hturn.visited
  have hsame : earlier = earlier' := append_cons_unique (fun hin => hfirst hin (halone _ hfile))
    (hturn.cleared hkeeps rev hturn.mem (halone _ hfile)).1 (hfiles.symm.trans hfiles')
  rw [hentry] at hremoves
  cases hremoves with
  | revision _ _ hkept _ =>
    rw [hrun.documentHasActiveRevision_eq] at hkept
    refine hkept.imp_right ?_
    rintro ⟨taskId, row, hrow, hrowLive, hhas⟩
    obtain ⟨tie, htie, hboth⟩ := any_eq_true.mp hhas
    refine ⟨taskId, row, hrun.liveTask hrow hrowLive, hrowLive, fun hin => ?_,
      any_eq_true.mpr ⟨tie, hrun.sublist.subset htie, hboth⟩⟩
    rw [Bool.and_eq_true, beq_iff_eq, beq_iff_eq] at hboth
    rw [← hboth.2] at hin
    have htieFile : tie.fileId ∈ files := by
      rw [hfiles]
      exact mem_append_left _ hin
    exact (hturn.cleared hkeeps tie htie (halone _ htieFile)).1 (hsame ▸ hin)

variable (hkeys : store.RevisionsHaveDocuments) (hacyc : store.Acyclic)

include hkeys hacyc

theorem Spares.purges_harmless (hspares : Spares now store removals)
    (hdoc : store.document? id = some doc)
    (hhas : store.documentHasActiveRevision id = true)
    (hdiff : store.getLatestRevision doc ≠ store.newestActiveRevision id)
    {climbed : DocumentRevision} (hclimbed : climbed ∈ store.climbedRevisions doc)
    (hpur : store.Purgeable now climbed.documentId) {rev : DocumentRevision}
    (hvis : rev ∈ store.visitedRevisions files) :
    rev.documentId ≠ climbed.documentId := by
  intro hsame
  have hspared : removals.any (cutsLatest id) = false := Bool.eq_false_iff.mpr fun hcuts =>
    hdiff (hspares.latest id doc hdoc hhas hcuts)
  -- no rev of the doc is deleted
  have hkept : ∀ {other : DocumentRevision}, other.documentId = climbed.documentId →
      .revision other ∉ removals.map Prod.snd := by
    intro other hother hdel
    obtain ⟨before, entry, after, -, rfl, hentry, -⟩ := h.turns_of_start.1.deleted hdel
    obtain ⟨hrun, store₁, hremoves, -⟩ := h.reclaims.split rfl
    rw [hentry] at hremoves
    cases hremoves with
    | revision _ _ hkept _ =>
      rw [hother, hrun.documentHasActiveRevision_eq, hpur.1] at hkept
      exact hpur.2 (hrun.hasLiveUpload (hkept.resolve_left Bool.false_ne_true))
  have hgone := h.gone halone hspares.documents hvis
  have hpurge := (h.reclaims.removed (mem_visitedRevisions.mp hvis).1 hgone).resolve_left
    (hkept hsame)
  have hclimbedGone : climbed ∉ store'.revisions := fun hmem =>
    h.reclaims.not_purged hkeys hmem (hsame ▸ hpurge)
  exact hkept rfl (Turns.deleted_of_climbed hkeys hacyc hdoc hhas h.turns_of_start.1
    h.reclaims hspared hclimbed hclimbedGone)

theorem Spares.climbs_harmless (hspares : Spares now store removals)
    (hdoc : store.document? id = some doc)
    (hhas : store.documentHasActiveRevision id = true)
    (hdiff : store.getLatestRevision doc ≠ store.newestActiveRevision id)
    {below above : List DocumentRevision} {climbed : DocumentRevision}
    (hclimb : store.climbedRevisions doc = below ++ climbed :: above)
    {earlier later : List DocumentRevision}
    (hvis : store.visitedRevisions files = earlier ++ climbed :: later) :
    climbed.documentId = id ∧ doc.notDeleted = true ∧
      ∀ rev ∈ below, rev ∈ earlier ∧ store.PurgedAlone now rev.fileId := by
  have hspared : removals.any (cutsLatest id) = false := Bool.eq_false_iff.mpr fun hcuts =>
    hdiff (hspares.latest id doc hdoc hhas hcuts)
  have hturns := h.turns_of_start.1
  have hclimbed : climbed ∈ store.climbedRevisions doc := by
    rw [hclimb]
    exact mem_append_cons_self
  have hgone := h.gone halone hspares.documents (by rw [hvis]; exact mem_append_cons_self)
  obtain ⟨before, entry, after, _, rfl, hentry, hturn⟩ := hturns.deleted
    (Turns.deleted_of_climbed hkeys hacyc hdoc hhas hturns h.reclaims hspared hclimbed hgone)
  obtain ⟨hrun, -⟩ := h.reclaims.split rfl
  rw [any_append, Bool.or_eq_false_iff, any_cons, Bool.or_eq_false_iff] at hspared
  obtain ⟨hbef, hcut, -⟩ := hspared
  obtain ⟨current, hfollows⟩ := hrun.follows hacyc hdoc hhas hbef
  obtain ⟨gone, hsplit, hnot⟩ := hfollows.climb
  have hcoming : climbed ∈ entry.1.climbedRevisions current := by
    rw [hsplit, mem_append] at hclimbed
    exact hclimbed.resolve_left fun hin => hnot climbed hin hturn.mem
  -- the removal does not cut the climb, so the doc shows the rev
  have hpass : ((entry.1.climbedRevisions current).any fun other => other.id == climbed.id) = true :=
    any_eq_true.mpr ⟨climbed, hcoming, beq_self_eq_true _⟩
  rw [cutsLatest, hfollows.found, Option.any_some, hentry, removalCuts, hpass, Bool.true_and,
    Bool.not_eq_false', showsRevision] at hcut
  simp only [Bool.and_eq_true, beq_iff_eq] at hcut
  obtain ⟨⟨⟨hown, -⟩, hdel⟩, hcur⟩ := hcut
  obtain ⟨-, hid, -⟩ := Database.document?_eq_some.mp hfollows.found
  refine ⟨hown.symm.trans hid, hfollows.notDeleted.symm.trans hdel, ?_⟩
  have hbelow : gone = below := by
    have hnodup := climbedRevisions_nodup hacyc doc
    rw [hclimb] at hnodup
    obtain ⟨first, rest, hfirst⟩ := exists_cons_of_ne_nil (ne_nil_of_mem hcoming)
    have hsame : first = climbed := by
      have hstart := current_of_climbedRevisions hfirst
      rw [hcur] at hstart
      exact (inj_on_of_nodup_map entry.1.revisionIds_nodup hturn.mem
        (mem_of_climbedRevisions (hrun.acyclic hacyc)
          (by rw [hfirst]; exact mem_cons_self)) (Option.some.inj hstart)).symm
    rw [hsame] at hfirst
    rw [hfirst] at hsplit
    refine append_cons_unique (fun hin => hnot climbed hin hturn.mem) (fun hin => ?_)
      (hsplit.symm.trans hclimb)
    exact (nodup_append.mp hnodup).2.2 _ hin _ mem_cons_self rfl
  intro rev hrev
  have hrgone : rev ∉ entry.1.revisions := hnot rev (hbelow ▸ hrev)
  have hrevisionClimbed : rev ∈ store.climbedRevisions doc := by
    rw [hclimb]
    exact mem_append_left _ hrev
  obtain ⟨first, entry', rest, earlier', rfl, -, hturn'⟩ := hturns.left.deleted
    (Turns.deleted_of_climbed hkeys hacyc hdoc hhas hturns.left hrun hbef
      hrevisionClimbed hrgone)
  obtain ⟨hrun', store₁, hremoves, hrest⟩ := hrun.split rfl
  have hstays : climbed ∈ entry'.1.revisions :=
    hremoves.sublist.subset (hrest.sublist.subset hturn.mem)
  have hfile : rev.fileId ∈ files := by
    obtain ⟨_, hfiles⟩ := hturn'.visited
    rw [hfiles]
    exact mem_append_cons_self
  have hclimbedFile : climbed.fileId ∈ files := by
    obtain ⟨_, hfiles⟩ := hturn.visited
    rw [hfiles]
    exact mem_append_cons_self
  have hkeeps : store.KeepsUploads now first := by
    have hall := hspares.documents
    rw [append_assoc] at hall
    exact KeepsUploads.left hall
  obtain ⟨hlater, hnotBelow⟩ := hturn'.cleared hkeeps climbed hstays (halone _ hclimbedFile)
  obtain ⟨lower, _, _, hpart, hplace⟩ := hturn'.visitedRevisions_eq (hrun'.sublist.subset hturn'.mem)
  refine ⟨mem_of_append_cons_eq ?_ ?_ (hplace.symm.trans hvis), halone _ hfile⟩
  · rw [mem_append, not_or]
    exact ⟨fun hin => hlater (mem_visitedRevisions.mp hin).2, hnotBelow _ _ hpart⟩
  · rintro rfl
    exact hrgone hturn.mem

theorem CleanupSafe.harmless (hvis : ∀ file ∈ files, ∃ rev ∈ store.revisions,
    rev.fileId = file) (hsafe : CleanupSafe now store store') : store.Harmless now files := by
  have hspares := (h.reclaims.safe_iff hacyc hkeys).mp hsafe
  refine ⟨?_, ?_, ?_, ?_⟩
  · rintro file hfile ⟨taskId, row, hrow, hlive, rfl⟩
    have hkept := hsafe.liveTasks taskId row hrow hlive
    obtain ⟨rev, hrev, hsame⟩ := hvis _ hfile
    have hused := h.reclaims.isUsed hkept hlive (by
      rw [isUsed, Bool.or_eq_true]
      exact .inl (any_eq_true.mpr ⟨rev, hrev, beq_iff_eq.mpr hsame⟩))
    rw [isUsed, h.reclaims.otherUses_eq, Bool.or_eq_true, any_eq_true, contains_iff_mem] at hused
    refine hused.resolve_left ?_
    rintro ⟨other, hother, hfile'⟩
    rw [beq_iff_eq] at hfile'
    exact h.gone halone hspares.documents
      (mem_visitedRevisions.mpr ⟨h.reclaims.sublist.subset hother, hfile' ▸ hfile⟩) hother
  · intro earlier file later hfiles hfirst rev hrev hlive
    exact hspares.documents_harmless halone h hfiles hfirst hrev hlive
  · intro id doc hdoc hhas hdiff climbed hclimbed hpur rev hrev
    exact hspares.purges_harmless halone h hkeys hacyc hdoc hhas hdiff hclimbed hpur hrev
  · intro id doc hdoc hhas hdiff below climbed above hclimb earlier later hvis'
    exact hspares.climbs_harmless halone h hkeys hacyc hdoc hhas hdiff hclimb hvis'

end

end

variable {current : String}

end FileStore

end Cfms.Documents
