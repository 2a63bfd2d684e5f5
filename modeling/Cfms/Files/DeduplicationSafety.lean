import Cfms.Files.ContentInUse

/-!
# Deduplication keeps the content in use

The steps that do more than let go: the merge, the removal of an object, a completed upload, the
issue of a download and a new avatar.  Then the invariant holds along runs.

One thing can point at a spare file all the same: a download that was issued from a read before
the merge.  When its task is inserted after the check, the object is removed under it.  An avatar
that was read before the merge is not even looked for.  As long as no task is inserted and no
avatar is set so late, nothing in use is taken away.
-/

namespace Cfms.Files

open List Option AList

open Access (Instant)
open Lib Lib.Run

variable {sha256 : Bytes → String} {s s' : Server} {db db' : Database}

/-! ### The merge -/

structure Duplicate (db : Database) (sourceId canonicalId : String) (source : FileRow) : Prop where
  lookup : db.files.lookup sourceId = some source
  active : source.stored.active = true
  ne : canonicalId ≠ sourceId
  canonical : ∃ canonical digest, db.files.lookup canonicalId = some canonical ∧
    canonical.stored.active = true ∧ canonical.stored.sha256 = some digest ∧
    source.stored.sha256 = some digest

theorem matchingFiles_head {sha256 : String} {row : Sigma fun _ : String => FileRow}
    (h : (matchingFiles db sha256).head? = some row) :
    db.files.lookup row.1 = some row.2 ∧ row.2.stored.sha256 = some sha256 ∧
      row.2.stored.active = true := by
  have hmem : row ∈ matchingFiles db sha256 := mem_of_mem_head? h
  rw [matchingFiles, mem_insertionSort, mem_filter, Bool.and_eq_true] at hmem
  obtain ⟨hentry, hsha256, hact⟩ := hmem
  exact ⟨mem_lookup_iff.mpr hentry, beq_iff_eq.mp hsha256, hact⟩

theorem processMerge_cases (db : Database) (claim : ClaimedDeduplicationTask) (now : Instant) :
    (db.Eases (processMerge db claim now).2 ∧ (processMerge db claim now).2.files = db.files) ∨
      ∃ canonicalId source, Duplicate db claim.fileId canonicalId source ∧
        (processMerge db claim now).2 = mergeInto db claim.fileId canonicalId source now := by
  unfold processMerge
  split
  · exact .inl ⟨.refl db, rfl⟩
  split
  · exact .inl ⟨.refl db, rfl⟩
  split
  · exact .inl ⟨eases_deleteDeduplication db _, rfl⟩
  rename_i source hsrc
  obtain ⟨hlook, hact⟩ := filter_eq_some_iff.mp hsrc
  split
  · exact .inl ⟨eases_deleteDeduplication db _, rfl⟩
  rename_i digest hdig
  have hsha256 := (filter_eq_some_iff.mp hdig).1
  split
  · exact .inl ⟨eases_deleteDeduplication db _, rfl⟩
  rename_i canonical hcan
  obtain ⟨hrow, hrowDigest, hrowActive⟩ := matchingFiles_head hcan
  split
  · exact .inl ⟨eases_deleteDeduplication db _, rfl⟩
  rename_i hne
  exact .inr ⟨canonical.1, source, ⟨hlook, hact, hne, canonical.2, digest, hrow,
    hrowActive, hrowDigest, hsha256⟩, rfl⟩

section

variable {sourceId canonicalId : String} {source : FileRow} {now : Instant}

theorem mergedRow_path (id : String) (row : FileRow) :
    (mergedRow sourceId canonicalId source id row).path = row.path ∧
      (mergedRow sourceId canonicalId source id row).stored.sha256 = row.stored.sha256 := by
  unfold mergedRow
  split
  · exact ⟨rfl, rfl⟩
  split
  · exact ⟨rfl, rfl⟩
  · exact ⟨rfl, rfl⟩

variable {id : String} {row : FileRow}

theorem mergedRow_active (h : (mergedRow sourceId canonicalId source id row).stored.active = true) :
    row.stored.active = true := by
  unfold mergedRow at h
  split at h
  · exact h
  split at h
  · cases h
  · exact h

theorem lookup_mergeInto
    (h : (mergeInto db sourceId canonicalId source now).files.lookup id = some row) :
    ∃ before, db.files.lookup id = some before ∧ before.path = row.path ∧
      before.stored.sha256 = row.stored.sha256 ∧
      (row.stored.active = true → before.stored.active = true) := by
  obtain ⟨before, hbef, rfl⟩ := Table.lookup_update_eq_some h
  have hkept : (mergedRow sourceId canonicalId source id before).path = before.path ∧ _ :=
    mergedRow_path id before
  obtain ⟨hpath, hsha256⟩ := hkept
  exact ⟨before, hbef, hpath.symm, hsha256.symm, mergedRow_active⟩

variable {fileId : String} {digest : String}

theorem serves_mergeInto (h : s.Serves sha256 fileId digest) :
    Server.Serves sha256 { s with db := mergeInto s.db sourceId canonicalId source now } fileId
      digest := by
  obtain ⟨file, content, hfile, hcont, hdig⟩ := h
  refine ⟨mergedRow sourceId canonicalId source fileId file, content, ?_, ?_, hdig⟩
  · show (s.db.files.update _).lookup fileId = _
    rw [Table.lookup_update, hfile]
    rfl
  · rw [(mergedRow_path fileId file).1]
    exact hcont

theorem Duplicate.serves (hdup : Duplicate s.db sourceId canonicalId source) (h : Sound sha256 s)
    (hserves : s.Serves sha256 sourceId digest) :
    s.Serves sha256 canonicalId digest := by
  obtain ⟨canonical, sha, hcan, hact, hsha, hsourceSha⟩ := hdup.canonical
  obtain ⟨file, content, hfile, hcont, rfl⟩ := hserves
  rw [hdup.lookup, some.injEq] at hfile
  subst hfile
  obtain ⟨content', hcont', hright⟩ := h.digests sourceId source hdup.lookup hdup.active
  rw [hcont, some.injEq] at hcont'
  subst hcont'
  obtain ⟨copy, hcopy, hcopyRight⟩ := h.digests canonicalId canonical hcan hact
  refine ⟨canonical, copy, hcan, hcopy, ?_⟩
  rw [hcopyRight sha hsha, hright sha hsourceSha]

theorem refers_mergeInto (h : (mergeInto db sourceId canonicalId source now).Refers fileId) :
    fileId = canonicalId ∨ (fileId ≠ sourceId ∧ db.Refers fileId) := by
  obtain ⟨referrer, reference, href, rfl⟩ := h
  obtain ⟨before, hbef, rfl⟩ := Table.lookup_update_eq_some href
  unfold redirectReference
  split
  · exact .inl rfl
  · rename_i hother
    exact .inr ⟨hother, referrer, before, hbef, rfl⟩

theorem transfer_mergeInto {transfer : TransferTask}
    (h : (mergeInto db sourceId canonicalId source now).transfers.lookup id = some transfer)
    (hlive : transfer.isLiveDownload = true) :
    ∃ before, db.transfers.lookup id = some before ∧ before.isLiveDownload = true ∧
      before.digest = transfer.digest ∧
      (transfer.fileId = before.fileId ∨
        (before.fileId = sourceId ∧ transfer.fileId = canonicalId)) := by
  obtain ⟨hupdated, -⟩ := Table.lookup_delete_eq_some.mp h
  obtain ⟨before, hbef, rfl⟩ := Table.lookup_update_eq_some hupdated
  refine ⟨before, hbef, ?_⟩
  unfold redirectDownload at hlive ⊢
  split
  · rename_i hmoved
    rw [if_pos hmoved] at hlive
    exact ⟨hlive, rfl, .inr ⟨hmoved.1, rfl⟩⟩
  · rename_i hother
    rw [if_neg hother] at hlive
    exact ⟨hlive, rfl, .inl rfl⟩

variable (hdup : Duplicate db sourceId canonicalId source)

include hdup

theorem Duplicate.retired
    (h : db.Retired fileId) : (mergeInto db sourceId canonicalId source now).Retired fileId where
  inactive row hrow := by
    obtain ⟨before, hbef, -, -, hact⟩ := lookup_mergeInto hrow
    have hinact := h.inactive before hbef
    rw [Bool.eq_false_iff] at hinact ⊢
    exact fun hrowActive => hinact (hact hrowActive)
  unreferenced hrefers := by
    rcases refers_mergeInto hrefers with rfl | ⟨-, hbef⟩
    · obtain ⟨canonical, -, hcan, hact, -⟩ := hdup.canonical
      rw [h.inactive canonical hcan] at hact
      cases hact
    · exact h.unreferenced hbef

theorem Duplicate.spare
    (h : db.Spare fileId) : (mergeInto db sourceId canonicalId source now).Spare fileId where
  toRetired := hdup.retired h.toRetired
  idle := by
    rintro ⟨id, transfer, htr, hlive, rfl⟩
    obtain ⟨before, hbef, hlive', -, hsame | ⟨-, hmoved⟩⟩ := transfer_mergeInto htr hlive
    · exact h.idle ⟨id, before, hbef, hlive', hsame.symm⟩
    obtain ⟨canonical, -, hcan, hact, -⟩ := hdup.canonical
    rw [hmoved] at h
    rw [h.inactive canonical hcan] at hact
    cases hact

theorem Duplicate.source_retired :
    (mergeInto db sourceId canonicalId source now).Retired sourceId where
  inactive row hrow := by
    obtain ⟨before, -, rfl⟩ := Table.lookup_update_eq_some hrow
    unfold mergedRow
    rw [if_neg hdup.ne.symm, if_pos rfl]
  unreferenced hrefers := by
    rcases refers_mergeInto hrefers with hsame | ⟨hne, -⟩
    · exact hdup.ne hsame.symm
    · exact hne rfl

omit hdup

/-- **The merge keeps the invariant.** -/
theorem Sound.merge (h : Sound sha256 s) (hdup : Duplicate s.db sourceId canonicalId source) :
    Sound sha256 { s with db := mergeInto s.db sourceId canonicalId source now } where
  kept :=
    { downloads := by
        intro id transfer htr hlive
        obtain ⟨before, hbef, hlive', hdig, hsame | ⟨hsrc, hmoved⟩⟩ :=
          transfer_mergeInto htr hlive
        · have hserves := h.kept.downloads id before hbef hlive'
          rw [← hsame, hdig] at hserves
          exact serves_mergeInto hserves
        · have hserves := h.kept.downloads id before hbef hlive'
          rw [hsrc, hdig] at hserves
          rw [hmoved]
          exact serves_mergeInto (hdup.serves h hserves)
      references := by
        intro referrer reference href
        obtain ⟨before, hbef, rfl⟩ := Table.lookup_update_eq_some href
        have hserves := h.kept.references referrer before hbef
        unfold redirectReference
        split
        · rename_i hsrc
          rw [hsrc] at hserves
          exact serves_mergeInto (hdup.serves h hserves)
        · exact serves_mergeInto hserves
      rows := h.kept.rows }
  digests id row hrow hact := by
    obtain ⟨before, hbef, hpath, hsha256, hbeforeActive⟩ := lookup_mergeInto hrow
    rw [← hpath, ← hsha256]
    exact h.digests id before hbef (hbeforeActive hact)
  paths id id' row row' hrow hrow' hpath := by
    obtain ⟨before, hbef, hbeforePath, -⟩ := lookup_mergeInto hrow
    obtain ⟨before', hbef', hbeforePath', -⟩ := lookup_mergeInto hrow'
    exact h.paths id id' before before' hbef hbef'
      (hbeforePath.trans (hpath.trans hbeforePath'.symm))
  retired id task htask hphase := by
    obtain ⟨before, hbef, rfl⟩ := Table.lookup_update_eq_some htask
    by_cases hid : id = sourceId
    · rw [hid]
      exact ⟨(h.known sourceId source hdup.lookup).1, hdup.source_retired⟩
    · rw [if_neg hid] at hphase
      obtain ⟨htoken, hretired⟩ := h.retired id before hbef hphase
      exact ⟨htoken, hdup.retired hretired⟩
  removing worker claim path hwork := by
    obtain ⟨htoken, hspare⟩ := h.removing worker claim path hwork
    refine ⟨htoken, ?_⟩
    intro id row hrow hpath
    obtain ⟨before, hbef, hbeforePath, -⟩ := lookup_mergeInto hrow
    exact hdup.spare (hspare id before hbef (hbeforePath.trans hpath))
  removals path hpath := by
    obtain ⟨htoken, hunfiled⟩ := h.removals path hpath
    refine ⟨htoken, ?_⟩
    intro id row hrow
    obtain ⟨before, hbef, hbeforePath, -⟩ := lookup_mergeInto hrow
    rw [← hbeforePath]
    exact hunfiled id before hbef
  issues connection issue hissue := by
    obtain ⟨htoken, hright⟩ := h.issues connection issue hissue
    refine ⟨htoken, ?_⟩
    intro row content hrow hcont
    obtain ⟨before, hbef, hbeforePath, -⟩ := lookup_mergeInto hrow
    rw [← hbeforePath] at hcont
    exact hright before content hbef hcont
  known id row hrow := by
    obtain ⟨before, hbef, hbeforePath, -⟩ := lookup_mergeInto hrow
    rw [← hbeforePath]
    exact h.known id before hbef

end

/-! ### Objects and stages -/

variable {path : String}

/-- **The removal of an object keeps the invariant**, when only spare rows have its path. -/
theorem Sound.removeObject (h : Sound sha256 s)
    (hspare : ∀ id file, s.db.files.lookup id = some file → file.path = path → s.db.Spare id) :
    Sound sha256 { s with objects := s.objects.delete fun p _ => p == path } := by
  have hstays : ∀ file : FileRow, file.path ≠ path →
      (s.objects.delete fun p _ => p == path).lookup file.path = s.objects.lookup file.path :=
    fun file hne => Table.lookup_delete_of_not_gone (beq_eq_false_iff_ne.mpr hne)
  have hserves : ∀ fileId digest, s.Serves sha256 fileId digest → ¬s.db.Spare fileId →
      Server.Serves sha256 { s with objects := s.objects.delete fun p _ => p == path } fileId
        digest := by
    rintro fileId digest ⟨file, content, hfile, hcont, hdig⟩ hused
    have hne : file.path ≠ path := fun hpath => hused (hspare fileId file hfile hpath)
    exact ⟨file, content, hfile, (hstays file hne).trans hcont, hdig⟩
  exact { h with
      kept :=
        { downloads := fun id transfer htr hlive =>
            hserves _ _ (h.kept.downloads id transfer htr hlive)
              fun hsp => hsp.idle ⟨id, transfer, htr, hlive, rfl⟩
          references := fun referrer reference href =>
            hserves _ _ (h.kept.references referrer reference href)
              fun hsp => hsp.unreferenced ⟨referrer, reference, href, rfl⟩
          rows := h.kept.rows }
      digests := by
        intro id file hfile hact
        have hne : file.path ≠ path := by
          intro hpath
          rw [(hspare id file hfile hpath).inactive file hfile] at hact
          cases hact
        obtain ⟨content, hcont, hright⟩ := h.digests id file hfile hact
        exact ⟨content, (hstays file hne).trans hcont, hright⟩
      issues := by
        intro connection issue hissue
        obtain ⟨htoken, hright⟩ := h.issues connection issue hissue
        exact ⟨htoken, fun file content hfile hcont =>
          hright file content hfile (Table.lookup_delete_eq_some.mp hcont).1⟩ }

variable {worker : ℕ} {stage : Stage} {claim : ClaimedDeduplicationTask}

theorem removing_setStage {w : ℕ}
    (h : (s.setStage worker stage).workers.lookup w = some (.removing claim path)) :
    (w = worker ∧ stage = .removing claim path) ∨
      s.workers.lookup w = some (.removing claim path) := by
  rcases Table.lookup_insert_eq_some h with ⟨rfl, hstage⟩ | ⟨-, hbef⟩
  · exact .inl ⟨rfl, hstage.symm⟩
  · exact .inr hbef

theorem Server.Eases.setStage (h : s.Eases s') (worker : ℕ)
    (hstage : ∀ claim path, stage ≠ .removing claim path) : s.Eases (s'.setStage worker stage) :=
  { h with
    removing := by
      intro w claim path hremoving
      rcases removing_setStage hremoving with ⟨-, hsame⟩ | hbef
      · exact absurd hsame (hstage claim path)
      · exact h.removing w claim path hbef }

theorem Server.eases_db (s : Server) (h : s.db.Eases db') : s.Eases { s with db := db' } where
  db := h
  objects := rfl
  tokens := rfl
  removing _ _ _ hwork := hwork
  removals _ hpath := .inl hpath
  issues _ _ hissue := hissue

theorem Server.Eases.refl (s : Server) : s.Eases s := s.eases_db (.refl s.db)

theorem Sound.setRemoving (h : Sound sha256 s) (worker : ℕ) (claim : ClaimedDeduplicationTask)
    (htoken : path ∈ s.tokens)
    (hspare : ∀ id file, s.db.files.lookup id = some file → file.path = path → s.db.Spare id) :
    Sound sha256 (s.setStage worker (.removing claim path)) :=
  { h with
    kept := ⟨h.kept.downloads, h.kept.references, h.kept.rows⟩
    removing := by
      intro w claim' path' hremoving
      rcases removing_setStage hremoving with ⟨-, hsame⟩ | hbef
      · cases hsame
        exact ⟨htoken, hspare⟩
      · exact h.removing w claim' path' hbef }

/-! ### What is pointed at files -/

variable {file : FileRow}

theorem removes_of_removing (huntouched : s.untouched file = true)
    (hwork : s.workers.lookup worker = some (.removing claim path)) : path ≠ file.path := by
  rintro rfl
  rw [Server.untouched, Bool.and_eq_true, Bool.not_eq_true', Bool.eq_false_iff] at huntouched
  apply huntouched.2
  rw [Table.any_iff]
  exact ⟨worker, _, hwork, beq_self_eq_true _⟩

variable {taskId : String}

/-- **A download task in time.** -/
theorem Sound.addDownload (h : Sound sha256 s) {transfer : TransferTask}
    (hfile : s.db.files.lookup transfer.fileId = some file)
    (huntouched : s.untouched file = true)
    (hright : ∀ content, s.objects.lookup file.path = some content →
      sha256 content = transfer.digest) :
    Sound sha256
      { s with db := { s.db with transfers := s.db.transfers.insert taskId transfer } } :=
  { h with
    kept :=
      { downloads := by
          intro id transfer' htr hlive
          rcases Table.lookup_insert_eq_some htr with ⟨-, rfl⟩ | ⟨-, hbef⟩
          · obtain ⟨content, hcont⟩ :=
              isSome_iff_exists.mp ((Bool.and_eq_true _ _).mp huntouched).1
            exact ⟨file, content, hfile, hcont, hright content hcont⟩
          · exact h.kept.downloads id transfer' hbef hlive
        references := h.kept.references
        rows := h.kept.rows }
    retired := by
      intro id task htask hphase
      obtain ⟨htoken, hretired⟩ := h.retired id task htask hphase
      exact ⟨htoken, hretired.inactive, hretired.unreferenced⟩
    removing := by
      intro worker claim path hwork
      obtain ⟨htoken, hspare⟩ := h.removing worker claim path hwork
      refine ⟨htoken, ?_⟩
      intro id row hrow hpath
      have hsp := hspare id row hrow hpath
      refine ⟨⟨hsp.inactive, hsp.unreferenced⟩, ?_⟩
      rintro ⟨id', transfer', htr, hlive, rfl⟩
      rcases Table.lookup_insert_eq_some htr with ⟨-, rfl⟩ | ⟨-, hbef⟩
      · have hsame : row = file := some.inj (hrow.symm.trans hfile)
        rw [hsame] at hpath
        exact removes_of_removing huntouched hwork hpath.symm
      · exact hsp.idle ⟨id', transfer', hbef, hlive, rfl⟩ }

variable {referrer : Referrer} {reference : Reference}

theorem refers_insert {fileId : String}
    (h : Database.Refers { db with references := db.references.insert referrer reference } fileId) :
    fileId = reference.fileId ∨ db.Refers fileId := by
  obtain ⟨referrer', reference', href, rfl⟩ := h
  rcases Table.lookup_insert_eq_some href with ⟨-, rfl⟩ | ⟨-, hbef⟩
  · exact .inl rfl
  · exact .inr ⟨referrer', reference', hbef, rfl⟩

/-- **A reference to an active file.** -/
theorem Sound.addReference (h : Sound sha256 s) (hfile : s.db.files.lookup reference.fileId = some file)
    (hact : file.stored.active = true)
    (hright : ∀ content, s.objects.lookup file.path = some content →
      sha256 content = reference.digest) :
    Sound sha256
      { s with db := { s.db with references := s.db.references.insert referrer reference } } := by
  have hretired : ∀ id, s.db.Retired id → Database.Retired
      { s.db with references := s.db.references.insert referrer reference } id := by
    intro id hret
    refine ⟨hret.inactive, ?_⟩
    intro hrefers
    rcases refers_insert hrefers with rfl | hbef
    · rw [hret.inactive file hfile] at hact
      cases hact
    · exact hret.unreferenced hbef
  exact { h with
      kept :=
        { downloads := h.kept.downloads
          references := by
            intro referrer' reference' href
            rcases Table.lookup_insert_eq_some href with ⟨-, rfl⟩ | ⟨-, hbef⟩
            · obtain ⟨content, hcont, -⟩ := h.digests _ file hfile hact
              exact ⟨file, content, hfile, hcont, hright content hcont⟩
            · exact h.kept.references referrer' reference' hbef
          rows := h.kept.rows }
      retired := by
        intro id task htask hphase
        obtain ⟨htoken, hret⟩ := h.retired id task htask hphase
        exact ⟨htoken, hretired id hret⟩
      removing := by
        intro worker claim path hwork
        obtain ⟨htoken, hspare⟩ := h.removing worker claim path hwork
        refine ⟨htoken, ?_⟩
        intro id row hrow hpath
        have hsp := hspare id row hrow hpath
        exact ⟨hretired id hsp.toRetired, hsp.idle⟩ }

/-! ### Uploads and reads -/

variable {connection : ℕ}

theorem Sound.read (h : Sound sha256 s) (href : s.db.references.lookup referrer = some reference) :
    Sound sha256 { s with issues := s.issues.insert connection reference } :=
  { h with
    kept := ⟨h.kept.downloads, h.kept.references, h.kept.rows⟩
    issues := by
      intro connection' issue hissue
      rcases Table.lookup_insert_eq_some hissue with ⟨-, rfl⟩ | ⟨-, hbef⟩
      · obtain ⟨file, content, hfile, hcont, hdig⟩ := h.kept.references referrer _ href
        refine ⟨(h.known _ file hfile).1, ?_⟩
        intro file' content' hfile' hcont'
        cases hfile.symm.trans hfile'
        cases hcont.symm.trans hcont'
        exact hdig
      · exact h.issues connection' issue hbef }

theorem Sound.schedule (h : Sound sha256 s) (fileId : String) (now : Instant) :
    Sound sha256 { s with db := scheduleFileDeduplication s.db fileId now } :=
  { h with
    kept := ⟨h.kept.downloads, h.kept.references, h.kept.rows⟩
    retired := by
      intro id task htask hphase
      rcases Table.lookup_insert_eq_some htask with ⟨-, rfl⟩ | ⟨-, hbef⟩
      · cases hphase
      · obtain ⟨htoken, hretired⟩ := h.retired id task hbef hphase
        exact ⟨htoken, hretired.inactive, hretired.unreferenced⟩
    removing := by
      intro worker claim path hwork
      obtain ⟨htoken, hspare⟩ := h.removing worker claim path hwork
      refine ⟨htoken, ?_⟩
      intro id file hfile hpath
      have hsp := hspare id file hfile hpath
      exact ⟨⟨hsp.inactive, hsp.unreferenced⟩, hsp.idle⟩ }

/-- The server after an upload, before the deduplication is scheduled. -/
def Server.uploaded (s : Server) (sha256 : Bytes → String) (upload : CompletedUpload) : Server :=
  { s with
    db :=
      { s.db with
        files := s.db.files.insert upload.fileId
          ⟨upload.path, upload.createdTime, (upload.finalized sha256).2⟩
        references := s.db.references.insert (.revision upload.documentId upload.revisionId)
          ⟨upload.fileId, sha256 upload.content⟩
        transfers := s.db.transfers.insert upload.taskId
          ⟨upload.fileId, (upload.finalized sha256).1, sha256 upload.content⟩ }
    objects := s.objects.insert upload.path upload.content
    tokens := upload.fileId :: upload.path :: s.tokens }

variable {now : Instant} {upload : CompletedUpload}

theorem completeUpload_eq_some (h : completeUpload sha256 s upload now = some s') :
    upload.fileId ∉ s.tokens ∧ upload.path ∉ s.tokens ∧
      (upload.finalized sha256).1.status = .completed ∧
      (s' = s.uploaded sha256 upload ∨ s' = { s.uploaded sha256 upload with
          db := scheduleFileDeduplication (s.uploaded sha256 upload).db upload.fileId now }) := by
  unfold completeUpload at h
  split at h
  · cases h
  rename_i hfresh
  rw [not_or, not_or, not_not] at hfresh
  obtain ⟨references, hrefs, h⟩ := bind_eq_some_iff.mp h
  obtain ⟨transfers, htrs, h⟩ := bind_eq_some_iff.mp h
  obtain ⟨-, rfl⟩ := Table.insertNew_eq_some hrefs
  obtain ⟨-, rfl⟩ := Table.insertNew_eq_some htrs
  refine ⟨hfresh.1, hfresh.2.1, hfresh.2.2, ?_⟩
  cases h
  split
  · exact .inr rfl
  · exact .inl rfl

theorem finalized_stored (h : (upload.finalized sha256).1.status = .completed) :
    (upload.finalized sha256).2.active = true ∧
      (upload.finalized sha256).2.sha256 = upload.storedDigest sha256 := by
  unfold CompletedUpload.finalized finalizeUploadTask at h ⊢
  dsimp only at h ⊢
  split
  · rename_i hother
    rw [if_pos hother] at h
    rw [h] at hother
    cases hother
  · exact ⟨rfl, rfl⟩

section

variable {upload : CompletedUpload} (h : Sound sha256 s) (hfile : upload.fileId ∉ s.tokens)
  (hpath : upload.path ∉ s.tokens)
include h hfile hpath

variable {id : String}

omit hfile in
theorem lookup_uploaded {file : FileRow}
    (hlook : (s.uploaded sha256 upload).db.files.lookup id = some file) :
    (id = upload.fileId ∧ file = ⟨upload.path, upload.createdTime, (upload.finalized sha256).2⟩) ∨
      (id ≠ upload.fileId ∧ file.path ≠ upload.path ∧ s.db.files.lookup id = some file) := by
  rcases Table.lookup_insert_eq_some hlook with hnew | ⟨hne, hbef⟩
  · exact .inl hnew
  refine .inr ⟨hne, ?_, hbef⟩
  intro hsame
  have htoken := (h.known id file hbef).2
  rw [hsame] at htoken
  exact hpath htoken

theorem serves_uploaded {fileId digest : String} (hserves : s.Serves sha256 fileId digest) :
    (s.uploaded sha256 upload).Serves sha256 fileId digest := by
  obtain ⟨file, content, hlook, hcont, hdig⟩ := hserves
  obtain ⟨hidToken, hpathToken⟩ := h.known fileId file hlook
  refine ⟨file, content, ?_, ?_, hdig⟩
  · have hne : fileId ≠ upload.fileId := by
      rintro rfl
      exact hfile hidToken
    exact (lookup_insert_ne hne).trans hlook
  · have hne : file.path ≠ upload.path := by
      intro hsame
      rw [hsame] at hpathToken
      exact hpath hpathToken
    exact (lookup_insert_ne hne).trans hcont

theorem retired_uploaded (htoken : id ∈ s.tokens) (hretired : s.db.Retired id) :
    (s.uploaded sha256 upload).db.Retired id where
  inactive file hlook := by
    rcases lookup_uploaded h hpath hlook with ⟨rfl, -⟩ | ⟨-, -, hbef⟩
    · exact absurd htoken hfile
    · exact hretired.inactive file hbef
  unreferenced hrefers := by
    obtain ⟨referrer, reference, href, rfl⟩ := hrefers
    rcases Table.lookup_insert_eq_some href with ⟨-, rfl⟩ | ⟨-, hbef⟩
    · exact hfile htoken
    · exact hretired.unreferenced ⟨referrer, reference, hbef, rfl⟩

/-- **A completed upload keeps the invariant.** -/
theorem Sound.complete (hcompl : (upload.finalized sha256).1.status = .completed) :
    Sound sha256 (s.uploaded sha256 upload) := by
  obtain ⟨hact, hstor⟩ := finalized_stored hcompl
  have hold : ∀ {token}, token ∈ s.tokens → token ∈ (s.uploaded sha256 upload).tokens :=
    fun htoken => mem_cons_of_mem _ (mem_cons_of_mem _ htoken)
  have hnotLive : ∀ {id transfer}, (s.uploaded sha256 upload).db.transfers.lookup id =
      some transfer → transfer.isLiveDownload = true → s.db.transfers.lookup id = some transfer := by
    intro id transfer htr hlive
    rcases Table.lookup_insert_eq_some htr with ⟨-, rfl⟩ | ⟨-, hbef⟩
    · rw [TransferTask.isLiveDownload, TransferTask.isLive, hcompl] at hlive
      cases hlive
    · exact hbef
  refine ⟨⟨?_, ?_, h.kept.rows⟩, ?_, ?_, ?_, ?_, ?_, ?_, ?_⟩
  · intro id transfer htr hlive
    exact serves_uploaded h hfile hpath (h.kept.downloads id transfer (hnotLive htr hlive) hlive)
  · intro referrer reference href
    rcases Table.lookup_insert_eq_some href with ⟨-, rfl⟩ | ⟨-, hbef⟩
    · exact ⟨_, upload.content, lookup_insert _, lookup_insert _, rfl⟩
    · exact serves_uploaded h hfile hpath (h.kept.references referrer reference hbef)
  · intro id file hlook hfileActive
    rcases lookup_uploaded h hpath hlook with ⟨-, rfl⟩ | ⟨-, hne, hbef⟩
    · refine ⟨upload.content, lookup_insert _, ?_⟩
      intro digest hdig
      rw [hstor, CompletedUpload.storedDigest] at hdig
      split at hdig
      · exact some.inj hdig
      · cases hdig
    · obtain ⟨content, hcont, hright⟩ := h.digests id file hbef hfileActive
      exact ⟨content, (lookup_insert_ne hne).trans hcont, hright⟩
  · intro id id' file file' hlook hlook' hsame
    rcases lookup_uploaded h hpath hlook with ⟨rfl, rfl⟩ | ⟨-, hne, hbef⟩
    · rcases lookup_uploaded h hpath hlook' with ⟨rfl, -⟩ | ⟨-, hne', -⟩
      · rfl
      · exact absurd hsame.symm hne'
    · rcases lookup_uploaded h hpath hlook' with ⟨-, rfl⟩ | ⟨-, -, hbef'⟩
      · exact absurd hsame hne
      · exact h.paths id id' file file' hbef hbef' hsame
  · intro id task htask hphase
    obtain ⟨htoken, hretired⟩ := h.retired id task htask hphase
    exact ⟨hold htoken, retired_uploaded h hfile hpath htoken hretired⟩
  · intro worker claim path hwork
    obtain ⟨htoken, hspare⟩ := h.removing worker claim path hwork
    refine ⟨hold htoken, ?_⟩
    intro id file hlook hsame
    rcases lookup_uploaded h hpath hlook with ⟨-, rfl⟩ | ⟨-, -, hbef⟩
    · subst hsame
      exact absurd htoken hpath
    · have hsp := hspare id file hbef hsame
      refine ⟨retired_uploaded h hfile hpath (h.known id file hbef).1 hsp.toRetired, ?_⟩
      rintro ⟨id', transfer, htr, hlive, hpoints⟩
      exact hsp.idle ⟨id', transfer, hnotLive htr hlive, hlive, hpoints⟩
  · intro path hrem
    obtain ⟨htoken, hunfiled⟩ := h.removals path hrem
    refine ⟨hold htoken, ?_⟩
    intro id file hlook
    rcases lookup_uploaded h hpath hlook with ⟨-, rfl⟩ | ⟨-, -, hbef⟩
    · rintro rfl
      exact hpath htoken
    · exact hunfiled id file hbef
  · intro connection issue hissue
    obtain ⟨htoken, hright⟩ := h.issues connection issue hissue
    refine ⟨hold htoken, ?_⟩
    intro file content hlook hcont
    rcases lookup_uploaded h hpath hlook with ⟨hnew, -⟩ | ⟨-, hne, hbef⟩
    · rw [hnew] at htoken
      exact absurd htoken hfile
    · exact hright file content hbef ((lookup_insert_ne hne).symm.trans hcont)
  · intro id file hlook
    rcases lookup_uploaded h hpath hlook with ⟨rfl, rfl⟩ | ⟨-, -, hbef⟩
    · exact ⟨mem_cons_self, mem_cons_of_mem _ mem_cons_self⟩
    · obtain ⟨hid, hfilePath⟩ := h.known id file hbef
      exact ⟨hold hid, hold hfilePath⟩

end

/-! ### Steps and runs -/

theorem Server.eases_endIssue (s : Server) (connection : ℕ) : s.Eases (s.endIssue connection) :=
  { Server.Eases.refl s with
    issues := fun _ _ hissue => (Table.lookup_delete_eq_some.mp hissue).1 }

variable (h : Sound sha256 s)

include h

theorem Sound.createFileTask
    (htimely : (s.readRow connection).all s.untouched = true)
    (hstep : createFileTask s connection taskId now = some s') : Sound sha256 s' := by
  obtain ⟨issue, hissue, hstep⟩ := bind_eq_some_iff.mp hstep
  have hended := h.ease (s.eases_endIssue connection)
  split at hstep
  · cases hstep
    exact hended
  · rename_i hrow
    obtain ⟨file, hfile⟩ := ne_none_iff_exists'.mp
      (fun hnone => hrow (isNone_iff_eq_none.mpr hnone))
    obtain ⟨transfers, htrs, hstep⟩ := bind_eq_some_iff.mp hstep
    obtain ⟨-, rfl⟩ := Table.insertNew_eq_some htrs
    cases hstep
    rw [Server.readRow, hissue, bind_some, hfile] at htimely
    exact hended.addDownload (s := s.endIssue connection) hfile htimely
      fun content hcont => (h.issues connection issue hissue).2 file content hfile hcont

theorem Sound.setAvatar {userId : String}
    (htimely : (s.readRow connection).all (fun file => file.stored.active) = true)
    (hstep : setAvatar s connection userId = some s') : Sound sha256 s' := by
  obtain ⟨issue, hissue, hstep⟩ := bind_eq_some_iff.mp hstep
  have hended := h.ease (s.eases_endIssue connection)
  split at hstep
  · cases hstep
    exact hended
  · rename_i hrow
    obtain ⟨file, hfile⟩ := ne_none_iff_exists'.mp
      (fun hnone => hrow (isNone_iff_eq_none.mpr hnone))
    cases hstep
    rw [Server.readRow, hissue, bind_some, hfile] at htimely
    exact hended.addReference (s := s.endIssue connection) hfile htimely
      fun content hcont => (h.issues connection issue hissue).2 file content hfile hcont

theorem Sound.changeTransfer {change : TransferChange}
    (hstep : changeTransfer s taskId change now = some s') : Sound sha256 s' := by
  obtain ⟨transfer, -, hstep⟩ := bind_eq_some_iff.mp hstep
  obtain ⟨file, -, hstep⟩ := bind_eq_some_iff.mp hstep
  cases hstep
  exact h.ease (s.eases_db (eases_changeTransfer s.db taskId change file.stored now))

theorem Sound.deleteReferrers {gone : Referrer → Bool}
    (hbef : s.db.Eases db) (hstep : s.deleteWith (deleteReferrers db gone) = some s') :
    Sound sha256 s' := by
  obtain ⟨⟨paths, db'⟩, hdelete, rfl⟩ := map_eq_some_iff.mp hstep
  obtain ⟨heases, hpaths⟩ := deleteReferrers_spec hdelete
  have hdb := hbef.trans heases
  refine h.ease { s.eases_db hdb with removals := ?_ }
  intro path hpath
  rcases mem_append.mp hpath with hold | hnew
  · exact .inl hold
  right
  obtain ⟨id, file, hfile, rfl, hgone⟩ := hpaths path hnew
  have hlook := hbef.files id file hfile
  refine ⟨(h.known id file hlook).2, ?_⟩
  -- another row has another path, and this row is gone
  intro id' file' hfile' hsame
  obtain rfl := h.paths id' id file' file (hdb.files id' file' hfile') hlook hsame
  rw [hgone] at hfile'
  cases hfile'

theorem Sound.check (worker : ℕ) (claim : ClaimedDeduplicationTask)
    (now : Instant) :
    Sound sha256 ({ s with db := (checkStorageDelete s.db claim now).2 }.setStage worker
      (match (checkStorageDelete s.db claim now).1 with
        | none => .idle
        | some path => .removing claim path)) := by
  obtain ⟨heases, hfound⟩ := checkStorageDelete_spec s.db claim now
  generalize checkStorageDelete s.db claim now = outcome at heases hfound
  obtain ⟨found, db'⟩ := outcome
  cases found with
  | none => exact h.ease ((s.eases_db heases).setStage worker nofun)
  | some path =>
    obtain ⟨source, task, hsrc, rfl, htask, hphase, hidle⟩ := hfound path rfl
    have hspare : s.db.Spare claim.fileId :=
      ⟨(h.retired claim.fileId task htask hphase).2, hidle⟩
    refine (h.ease (s.eases_db heases)).setRemoving worker claim
      (h.known claim.fileId source hsrc).2 ?_
    intro id file hfile hpath
    obtain rfl := h.paths id claim.fileId file source (heases.files id file hfile) hsrc hpath
    exact heases.spare hspare

/-- **The next step of a worker keeps the invariant.** -/
theorem Sound.proceed {jitter : Instant}
    (hstep : proceed s worker now jitter = some s') : Sound sha256 s' := by
  unfold Files.proceed at hstep
  split at hstep
  · cases hstep
  · cases hstep
    refine h.ease ((Server.Eases.refl s).setStage worker ?_)
    intro claim path
    split
    · nofun
    · split <;> nofun
  · rename_i claim _
    cases hstep
    have hmerged : Sound sha256 { s with db := (processMerge s.db claim now).2 } := by
      rcases processMerge_cases s.db claim now with ⟨heases, -⟩ | ⟨canonicalId, source, hdup, heq⟩
      · exact h.ease (s.eases_db heases)
      · rw [heq]
        exact h.merge hdup
    refine hmerged.ease ((Server.Eases.refl _).setStage worker ?_)
    intro claim path
    split <;> nofun
  · cases hstep
    exact h.check worker _ now
  · rename_i claim path hstage
    cases hstep
    have hwork : s.workers.lookup worker = some (.removing claim path) := by
      unfold Server.stage at hstage
      cases hlook : s.workers.lookup worker with
      | none =>
        rw [hlook] at hstage
        cases hstage
      | some stage =>
        rw [hlook] at hstage
        exact congrArg some hstage
    exact (h.removeObject (h.removing worker claim path hwork).2).ease
      ((Server.Eases.refl _).setStage worker nofun)
  · rename_i claim _
    split at hstep
    · cases hstep
      exact h.ease ((Server.Eases.refl s).setStage worker nofun)
    · rename_i db' hfin
      cases hstep
      exact h.ease ((s.eases_db (finishStorageDelete_spec hfin).1).setStage worker nofun)
  · cases hstep
    exact h.ease ((s.eases_db (eases_rescheduleFailedTask s.db _ now jitter)).setStage worker nofun)

omit h

theorem afterRaise_ne_removing {stage' : Stage} (h : stage.afterRaise = some stage')
    (claim : ClaimedDeduplicationTask) (path : String) : stage' ≠ .removing claim path := by
  rintro rfl
  cases stage <;> cases h

/-- **Every step in time keeps the invariant.** -/
theorem Sound.step (h : Sound sha256 s) {action : ServerAction} (htimely : timely s action = true)
    (hstep : serverStep sha256 s action = some s') : Sound sha256 s' := by
  cases action with
  | completeUpload upload now =>
    obtain ⟨hfile, hpath, hcompl, rfl | rfl⟩ := completeUpload_eq_some hstep
    · exact h.complete hfile hpath hcompl
    · exact (h.complete hfile hpath hcompl).schedule upload.fileId now
  | releaseFileDeduplication fileId now =>
    cases hstep
    exact h.ease (s.eases_db (eases_releaseFileDeduplication s.db fileId now))
  | readReference connection referrer =>
    obtain ⟨reference, href, rfl⟩ := map_eq_some_iff.mp hstep
    exact h.read href
  | createFileTask connection taskId now => exact h.createFileTask htimely hstep
  | setAvatar connection userId => exact h.setAvatar htimely hstep
  | changeTransfer taskId change now => exact h.changeTransfer hstep
  | deleteDocument unreachable =>
    cases hstep
    exact h.ease (s.eases_db (eases_cancelFileTasksForFiles s.db unreachable))
  | deleteRevision docId revId unreachable =>
    exact h.deleteReferrers (eases_cancelFileTasksForFiles s.db unreachable) hstep
  | purgeDocuments docIds => exact h.deleteReferrers (.refl s.db) hstep
  | removeDeferred path =>
    simp only [serverStep] at hstep
    split at hstep
    · rename_i hpath
      cases hstep
      have hspare : ∀ id file, s.db.files.lookup id = some file → file.path = path →
          s.db.Spare id :=
        fun id file hfile hsame => absurd hsame ((h.removals path hpath).2 id file hfile)
      have hremoved := h.removeObject hspare
      exact hremoved.ease { Server.Eases.refl _ with
        removals := fun _ hmem => .inl (mem_of_mem_erase hmem) }
    · cases hstep
  | claim worker now leaseOwner =>
    simp only [serverStep] at hstep
    split at hstep
    · have heases := eases_claimNextTask s.db now leaseOwner
      split at hstep
      · cases hstep
      rename_i claim db' hclaim
      cases hstep
      rw [hclaim] at heases
      exact h.ease ((s.eases_db heases).setStage worker nofun)
    · cases hstep
  | proceed worker now jitter => exact h.proceed hstep
  | raises worker =>
    obtain ⟨stage, hstage, rfl⟩ := map_eq_some_iff.mp hstep
    exact h.ease ((Server.Eases.refl s).setStage worker (afterRaise_ne_removing hstage))
  | crash worker =>
    cases hstep
    exact h.ease ((Server.Eases.refl s).setStage worker nofun)

theorem Sound.workersSpare (h : Sound sha256 s) : s.WorkersSpare := by
  intro worker now jitter s' hstep fileId hsome hnone
  unfold Files.proceed at hstep
  split at hstep
  · cases hstep
  · cases hstep
    exact (not_deleted_of_files_eq rfl hsome hnone).elim
  · rename_i claim _
    cases hstep
    rcases processMerge_cases s.db claim now with ⟨-, hfiles⟩ | ⟨canonicalId, source, -, heq⟩
    · exact (not_deleted_of_files_eq hfiles hsome hnone).elim
    obtain ⟨file, hfile⟩ := isSome_iff_exists.mp hsome
    have hmerged : (processMerge s.db claim now).2.files.lookup fileId = none := hnone
    rw [heq, mergeInto, Table.lookup_update, hfile] at hmerged
    cases hmerged
  · cases hstep
    exact (not_deleted_of_files_eq (checkStorageDelete_files s.db _ now) hsome hnone).elim
  · cases hstep
    exact (not_deleted_of_files_eq rfl hsome hnone).elim
  · split at hstep
    · cases hstep
      exact (not_deleted_of_files_eq rfl hsome hnone).elim
    · rename_i db' hfin
      cases hstep
      obtain ⟨hidle, task, htask, hphase⟩ := (finishStorageDelete_spec hfin).2 fileId hsome hnone
      exact ⟨hidle, (h.retired fileId task htask hphase).2.unreferenced⟩
  · cases hstep
    exact (not_deleted_of_files_eq (rescheduleFailedTask_files s.db _ now jitter) hsome hnone).elim

theorem sound_empty : Sound sha256 {} where
  kept :=
    { downloads := fun _ _ h => absurd h Table.lookup_empty_ne_some
      references := fun _ _ h => absurd h Table.lookup_empty_ne_some
      rows := rfl }
  digests _ _ h := absurd h Table.lookup_empty_ne_some
  paths _ _ _ _ h := absurd h Table.lookup_empty_ne_some
  retired _ _ h := absurd h Table.lookup_empty_ne_some
  removing _ _ _ h := absurd h Table.lookup_empty_ne_some
  removals _ h := absurd h not_mem_nil
  issues _ _ h := absurd h Table.lookup_empty_ne_some
  known _ _ h := absurd h Table.lookup_empty_ne_some

/-- **Deduplication takes no content away from anyone using it**, along every run in which no
download task and no avatar is pointed at a file too late. -/
theorem deduplication_keeps_content (sha256 : Bytes → String) (actions : List ServerAction)
    (htimely : Meets (serverStep sha256) (fun s action => timely s action = true) {} actions)
    {s : Server} (hrun : run (serverStep sha256) {} actions = some s) :
    s.Kept sha256 ∧ s.WorkersSpare := by
  have hsound : Sound sha256 s :=
    run_invariant (fun _ _ _ h htimely hstep => h.step htimely hstep) sound_empty htimely hrun
  exact ⟨hsound.kept, hsound.workersSpare⟩

/-- The digest of the three bytes `abc`. -/
def abcSha256 (content : Bytes) : String :=
  if content = [97, 98, 99] then "ba7816bf8f01cfea414140de5dae2223b00361a396177a9cb410ff61f20015ad"
  else ""

/-- An upload of `abc`. -/
def abcUpload (name : String) (createdTime : Instant) : CompletedUpload where
  fileId := "file " ++ name
  path := "content/files/" ++ name
  createdTime := createdTime
  documentId := "document " ++ name
  revisionId := "revision " ++ name
  taskId := "upload " ++ name
  task := { mode := .upload, status := .inProgress, startTime := 0, endTime := none }
  content := [97, 98, 99]
  declared := true

/-- Two uploads of the same content; the younger one is released for its merge, and a connection
has read its revision. -/
def duplicateUploads : List ServerAction :=
  [.completeUpload (abcUpload "a" 0) 0, .completeUpload (abcUpload "b" 1) 1,
    .readReference 0 (.revision "document b" "revision b"), .releaseFileDeduplication "file b" 2]

/-- A download runs during the merge.  The storage deletion waits for its end. -/
def patientDeletion : List ServerAction :=
  duplicateUploads ++
    [.createFileTask 0 "download" 2, .changeTransfer "download" (.claim ⟨0, 0⟩ true) 3,
      .claim 0 3 "lease", .proceed 0 3 0, .proceed 0 3 0, .proceed 0 3 0,
      .changeTransfer "download" .complete 4, .claim 0 5 "next lease", .proceed 0 5 0,
      .proceed 0 5 0, .proceed 0 5 0, .proceed 0 5 0]

/-- The server after the storage deletion. -/
def deduplicatedServer : Server := (run (serverStep abcSha256) {} patientDeletion).getD {}

theorem patientDeletion_keeps_content :
    run (serverStep abcSha256) {} patientDeletion = some deduplicatedServer ∧
      (deduplicatedServer.db.files.lookup "file b").isNone = true ∧
      (deduplicatedServer.Kept abcSha256 ∧ deduplicatedServer.WorkersSpare) := by
  have hrun : run (serverStep abcSha256) {} patientDeletion = some deduplicatedServer :=
    run_eq_some_getD _ (by decide +kernel)
  exact ⟨hrun, by decide +kernel, deduplication_keeps_content abcSha256 patientDeletion
    (meets_of_meetsBool (by decide +kernel)) hrun⟩

/-- The task of the download is inserted between the check and the removal. -/
def lateTask : List ServerAction :=
  duplicateUploads ++
    [.claim 0 3 "lease", .proceed 0 3 0, .proceed 0 3 0, .proceed 0 3 0,
      .createFileTask 0 "download" 3, .proceed 0 3 0]

/-- The server after the removal. -/
def lateServer : Server := (run (serverStep abcSha256) {} lateTask).getD {}

/-- A pending download is left without its object. -/
theorem lateTask_loses_content :
    run (serverStep abcSha256) {} lateTask = some lateServer ∧ ¬lateServer.Kept abcSha256 := by
  refine ⟨run_eq_some_getD _ (by decide +kernel), ?_⟩
  intro hkept
  have hserves := hkept.downloads "download"
    ⟨"file b", { mode := .download, startTime := 3, endTime := some 3603 }, abcSha256 [97, 98, 99]⟩
    (by decide +kernel) rfl
  obtain ⟨file, content, hfile, hcont, -⟩ := hserves
  have hremoved : (lateServer.db.files.lookup "file b").bind
      (fun file => lateServer.objects.lookup file.path) = none := by decide +kernel
  rw [hfile, bind_some, hcont] at hremoved
  cases hremoved

end Cfms.Files
