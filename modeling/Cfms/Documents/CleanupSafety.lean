import Cfms.Documents.UploadCleanup

/-!
# Safety of the cleanup

A cleanup must not touch what is in use: active files, documents with an active revision or with a
live upload, the live uploads themselves, and the effective revision of every document that has one
(`CleanupSafe`).

Active files and documents with an active revision are safe in every call.  The rest can be lost in
two ways.  A deleted revision can lie in the middle of a climb of `get_latest_revision`, since its
children are not connected to its parent; and the file of a deleted revision can have another, live
upload.  `Reclaims.safe_iff` says what that means for the removals of a run.
-/

namespace Cfms.Documents

open Access Lib Lib.Climb List

variable (store : FileStore) (now : Instant)

namespace FileStore

/-! ### Climbs without some of the revisions -/

/-- Revisions went, with the links to them. -/
structure Thinned (gone : String → Bool) (store' : FileStore) : Prop where
  revisions : store'.revisions = store.revisions.filter fun revision => !gone revision.id
  active : ∀ revision ∈ store'.revisions, store'.isActive revision = store.isActive revision
  parent : ∀ revision ∈ store'.revisions,
    store'.upRevision revision = (store.upRevision revision).filter fun id => !gone id
  createdTime : store'.revisionCreatedTime = store.revisionCreatedTime

section

variable {store store' : FileStore} {gone : String → Bool}

theorem Thinned.revision?_eq (h : Thinned store gone store') (id : String) :
    store'.revision? id = if gone id then none else store.revision? id := by
  rw [revision?, h.revisions, find?_filter]
  split
  · rename_i hid
    rw [find?_eq_none]
    intro other _ hother
    simp only [beq_iff_eq, decide_eq_true_eq] at hother
    rw [hother.2, hid] at hother
    exact Bool.false_ne_true hother.1
  · rename_i hid
    congr 1
    funext other
    by_cases hother : other.id = id
    · simp [hother, hid]
    · simp [hother]

variable {l : List DocumentRevision}

theorem Thinned.ancestry (h : Thinned store gone store') {start : Option String}
    (hl : store.Ancestry start l) :
    store'.Ancestry (start.filter fun id => !gone id) (l.takeWhile fun rev => !gone rev.id) := by
  induction hl with
  | top => exact Climbs.top
  | @missing id hnone =>
    cases hid : gone id with
    | true =>
      simp only [Option.filter_some, hid]
      exact Climbs.top
    | false =>
      simp only [Option.filter_some, hid]
      exact Climbs.missing (by rw [h.revision?_eq, hid]; exact hnone)
  | @step id rev rest hrev _ ih =>
    obtain ⟨hmem, rfl⟩ := revision?_eq_some.mp hrev
    cases hid : gone rev.id with
    | true =>
      simp only [Option.filter_some, hid, takeWhile_cons]
      exact Climbs.top
    | false =>
      have hleft : rev ∈ store'.revisions := by
        rw [h.revisions, mem_filter]
        exact ⟨hmem, by rw [hid]; rfl⟩
      simp only [Option.filter_some, hid, takeWhile_cons]
      refine Climbs.step (by rw [h.revision?_eq, hid]; exact hrev) ?_
      rw [h.parent rev hleft]
      exact ih

theorem find?_takeWhile_not_gone
    (hinact : ∀ rev ∈ l, gone rev.id = true → store.isActive rev = false) :
    (l.takeWhile fun rev => !gone rev.id).find? store.isActive =
      if (l.takeWhile fun rev => !store.isActive rev).any fun rev =>
        gone rev.id then none
      else l.find? store.isActive := by
  induction l with
  | nil => rfl
  | cons rev rest ih =>
    have hrest := ih fun other hother => hinact other (mem_cons_of_mem _ hother)
    cases hact : store.isActive rev with
    | true =>
      have hid : gone rev.id = false := by
        rw [Bool.eq_false_iff]
        intro hid
        rw [hinact rev mem_cons_self hid] at hact
        cases hact
      simp [hid, hact]
    | false =>
      cases hid : gone rev.id with
      | true => simp [hid, hact]
      | false =>
        simp only [takeWhile_cons, hid, hact, Bool.not_false, if_true, any_cons, find?_cons]
        exact hrest

theorem takeWhile_takeWhile_eq {α : Type*} {p q q' : α → Bool} {l : List α}
    (hsame : ∀ a ∈ l.takeWhile p, q' a = q a) (hkept : ∀ a ∈ l.takeWhile q, p a = true) :
    (l.takeWhile p).takeWhile q' = l.takeWhile q := by
  induction l with
  | nil => rfl
  | cons a l ih =>
    by_cases hq : q a = true
    · have hp : p a = true := hkept a (by rw [takeWhile_cons_of_pos hq]; exact mem_cons_self)
      rw [takeWhile_cons_of_pos hp] at hsame ⊢
      rw [takeWhile_cons_of_pos hq] at hkept ⊢
      rw [takeWhile_cons_of_pos ((hsame a mem_cons_self).trans hq),
        ih (fun b hb => hsame b (mem_cons_of_mem _ hb))
          (fun b hb => hkept b (mem_cons_of_mem _ hb))]
    · rw [takeWhile_cons_of_neg hq]
      by_cases hp : p a = true
      · rw [takeWhile_cons_of_pos hp] at hsame ⊢
        exact takeWhile_cons_of_neg (by rw [hsame a mem_cons_self]; exact hq)
      · rw [takeWhile_cons_of_neg hp]
        rfl

variable (h : Thinned store gone store')

include h

theorem Thinned.newestActiveRevision_eq
    (hinact : ∀ rev ∈ store.revisions, gone rev.id = true →
      store.isActive rev = false) {docId : NodeId}
    (hhas : store.documentHasActiveRevision docId = true) :
    store'.newestActiveRevision docId = store.newestActiveRevision docId := by
  have hrows : (store'.revisionsOf docId).filter store'.isActive =
      (store.revisionsOf docId).filter store.isActive := by
    rw [revisionsOf, revisionsOf, h.revisions, filter_filter, filter_filter, filter_filter]
    refine filter_congr fun rev hrev => ?_
    cases hgone : gone rev.id with
    | true => rw [hinact rev hrev hgone]; simp
    | false =>
      rw [h.active rev (by rw [h.revisions, mem_filter, hgone]; exact ⟨hrev, rfl⟩)]
      simp
  obtain ⟨active, hact, hboth⟩ := any_eq_true.mp hhas
  rw [Bool.and_eq_true] at hboth
  have hmem : active ∈ (store.revisionsOf docId).filter store.isActive :=
    mem_filter.mpr ⟨mem_filter.mpr ⟨hact, hboth.1⟩, hboth.2⟩
  rw [newestActiveRevision, newestActiveRevision, hrows, h.createdTime, if_neg, if_neg]
  · rw [List.isEmpty_iff]
    exact ne_nil_of_mem (mem_of_mem_filter hmem)
  · rw [← hrows] at hmem
    rw [List.isEmpty_iff]
    exact ne_nil_of_mem (mem_of_mem_filter hmem)

theorem Thinned.acyclic (hacyc : store.Acyclic) :
    store'.Acyclic := by
  obtain ⟨rank, hrank⟩ := hacyc
  refine ⟨rank, fun rev hrev parent hpar => ?_⟩
  have hlink := h.parent rev hrev
  rw [upRevision, hpar] at hlink
  have hmem : rev ∈ store.revisions := by
    rw [h.revisions] at hrev
    exact (mem_filter.mp hrev).1
  exact hrank rev hmem parent (Option.filter_eq_some_iff.mp hlink.symm).1

theorem Thinned.isActive_of_ancestry {start : Option String}
    (hl : store.Ancestry start l) :
    ∀ rev ∈ l.takeWhile fun rev => !gone rev.id, store'.isActive rev = store.isActive rev := by
  intro rev hrev
  refine h.active rev ?_
  rw [h.revisions, mem_filter]
  have hkept := mem_takeWhile_imp (p := fun rev : DocumentRevision => !gone rev.id) hrev
  exact ⟨hl.mem_revisions ((takeWhile_sublist _).subset hrev), hkept⟩

/-- A climb that passes none of the revisions that went is as before. -/
theorem Thinned.climbedRevisions_eq (hacyc : store.Acyclic)
    {doc doc' : Node}
    (hcur : doc'.currentRevisionId = doc.currentRevisionId.filter fun id => !gone id)
    (hkept : ∀ climbed ∈ store.climbedRevisions doc, gone climbed.id = false) :
    store'.climbedRevisions doc' = store.climbedRevisions doc := by
  obtain ⟨l, hl⟩ := hacyc.exists_ancestry doc.currentRevisionId
  have hl' := h.ancestry hl
  rw [← hcur] at hl'
  have hclimb := hl.climb_eq (Nat.lt_succ_of_le hl.length_le)
  rw [climbedRevisions, hclimb] at hkept
  rw [climbedRevisions, climbedRevisions, hclimb, hl'.climb_eq (Nat.lt_succ_of_le hl'.length_le)]
  refine takeWhile_takeWhile_eq (fun rev hrev => ?_) (fun rev hrev => ?_)
  · rw [h.isActive_of_ancestry hl rev hrev]
  · rw [hkept rev hrev]
    rfl

theorem Thinned.getLatestRevision_eq (hacyc : store.Acyclic)
    (hinact : ∀ rev ∈ store.revisions, gone rev.id = true →
      store.isActive rev = false) (doc doc' : Node)
    (hid : doc'.id = doc.id)
    (hcur : doc'.currentRevisionId = doc.currentRevisionId.filter fun id => !gone id)
    (hhas : store.documentHasActiveRevision doc.id = true) :
    store'.getLatestRevision doc' = if (store.climbedRevisions doc).any fun rev => gone rev.id then
        store.newestActiveRevision doc.id
      else store.getLatestRevision doc := by
  obtain ⟨l, hl⟩ := hacyc.exists_ancestry doc.currentRevisionId
  have hl' := h.ancestry hl
  rw [← hcur] at hl'
  rw [hl'.getLatestRevision_eq, ← head?_filter,
    filter_congr (h.isActive_of_ancestry hl), head?_filter,
    find?_takeWhile_not_gone (fun rev hrev => hinact rev (hl.mem_revisions hrev)),
    hid, h.newestActiveRevision_eq hinact hhas, climbedRevisions,
    hl.climb_eq (Nat.lt_succ_of_le hl.length_le), hl.getLatestRevision_eq]
  by_cases hcuts : ((l.takeWhile fun rev => !store.isActive rev).any fun rev =>
      gone rev.id) = true
  · rw [if_pos hcuts, if_pos hcuts]
  · rw [if_neg hcuts, if_neg hcuts]

end

/-! ### The effective revisions after a removal -/

/-- The removal takes a revision that `get_latest_revision` climbs through, and the document is not
moved past it. -/
def removalCuts (document : Node) : Removal → Bool
  | .document documentId =>
    (store.climbedRevisions document).any fun climbed => climbed.documentId == documentId
  | .revision revision =>
    (store.climbedRevisions document).any (fun climbed => climbed.id == revision.id) &&
      !showsRevision document revision

section

variable {store store' : FileStore} {now : Instant}

variable {docId : NodeId} {rev : DocumentRevision}

theorem purgesRevision_eq (hrev : rev ∈ store.revisions) :
    store.purgesRevision [docId] rev.id = (rev.documentId == docId) := by
  rw [Bool.eq_iff_iff, purgesRevision, any_eq_true, beq_iff_eq]
  constructor
  · rintro ⟨other, hother, hboth⟩
    rw [Bool.and_eq_true, contains_singleton, beq_iff_eq, beq_iff_eq] at hboth
    rw [← inj_on_of_nodup_map store.revisionIds_nodup hother hrev hboth.2]
    exact hboth.1
  · intro hdoc
    exact ⟨rev, hrev, by simp [hdoc]⟩

theorem Purged.thinned (h : Purged store [docId] store') :
    Thinned store (store.purgesRevision [docId]) store' where
  revisions := by
    rw [h.revisions]
    refine filter_congr fun rev hrev => ?_
    rw [purgesRevision_eq hrev, contains_singleton]
  active _ hrev := h.isActive_eq hrev
  parent := h.parentRevisionId
  createdTime := h.revisionCreatedTime

theorem RevisionDeleted.thinned (hrev : rev ∈ store.revisions)
    (h : RevisionDeleted (store.withCurrentPassed rev) rev store') :
    Thinned store (fun id => id == rev.id) store' where
  revisions := h.revisions
  active other hother := h.isActive_eq (by exact hrev) hother
  parent other _ := h.parentRevisionId other.id
  createdTime := h.revisionCreatedTime

theorem inactive_of_purgesRevision (hnone : store.documentHasActiveRevision docId = false) :
    ∀ rev ∈ store.revisions, store.purgesRevision [docId] rev.id = true →
      store.isActive rev = false := by
  intro rev hrev hgone
  rw [purgesRevision_eq hrev] at hgone
  rw [documentHasActiveRevision, any_eq_false] at hnone
  simpa [hgone] using hnone rev hrev

theorem inactive_of_eq (hrev : rev ∈ store.revisions) (hinact : store.isActive rev = false) :
    ∀ other ∈ store.revisions, (other.id == rev.id) = true → store.isActive other = false := by
  intro other hother hid
  rw [beq_iff_eq] at hid
  rw [inj_on_of_nodup_map store.revisionIds_nodup hother hrev hid]
  exact hinact

variable {removal : Removal}

theorem Removes.thinned (h : Removes now store removal store') : ∃ gone, Thinned store gone store' ∧
      ∀ rev ∈ store.revisions, gone rev.id = true → store.isActive rev = false := by
  cases h with
  | document hnone _ hpurge => exact ⟨_, hpurge.thinned, inactive_of_purgesRevision hnone⟩
  | revision hrev hinact _ hdel =>
    exact ⟨_, hdel.thinned hrev, inactive_of_eq hrev hinact⟩

theorem clearCurrentWhere_current (gone : String → Bool) (doc : Node) :
    (clearCurrentWhere (fun node => node.currentRevisionId.any gone) doc).currentRevisionId =
      doc.currentRevisionId.filter fun id => !gone id := by
  rw [clearCurrentWhere]
  cases hcur : doc.currentRevisionId with
  | none => simp [hcur]
  | some id =>
    cases hgone : gone id with
    | true => simp [hgone, Option.filter_some]
    | false => simp [hgone, hcur, Option.filter_some]

theorem clearCurrentWhere_eq (id : String) (doc : Node) :
    (clearCurrentWhere (fun node => node.currentRevisionId == some id) doc).currentRevisionId =
      doc.currentRevisionId.filter fun other => !(other == id) := by
  have hclear : (fun node : Node => node.currentRevisionId == some id) =
      fun node => node.currentRevisionId.any (· == id) := by
    funext node
    cases node.currentRevisionId <;> rfl
  rw [hclear]
  exact clearCurrentWhere_current (· == id) doc

theorem ancestry_parentRevision {l : List DocumentRevision}
    (hl : store.Ancestry (store.upRevision rev) l) :
    store.Ancestry ((store.parentRevision rev).map DocumentRevision.id) l := by
  rw [parentRevision]
  cases hup : store.upRevision rev with
  | none =>
    rw [hup] at hl
    exact hl
  | some parent =>
    rw [hup] at hl
    rw [Option.bind_some]
    cases hpar : store.revision? parent with
    | none =>
      cases hl with
      | missing _ => exact Climbs.top
      | step hfound _ =>
        rw [hpar] at hfound
        cases hfound
    | some found =>
      rw [Option.map_some, revision?_id hpar]
      exact hl

variable {doc : Node}

variable (hrev : rev ∈ store.revisions)

include hrev

/-- The climb of a document that shows the revision, and the climb past it. -/
theorem ancestry_of_shows (hacyc : store.Acyclic)
    (hshows : showsRevision doc rev = true) :
    ∃ l, store.Ancestry doc.currentRevisionId (rev :: l) ∧ store.Ancestry
        (passCurrent (store.parentRevision rev) rev doc).currentRevisionId l ∧
      ∀ other ∈ l, (other.id == rev.id) = false := by
  have hcur : doc.currentRevisionId = some rev.id := by
    simp only [showsRevision, Bool.and_eq_true, beq_iff_eq] at hshows
    exact hshows.2
  have hfound : store.revision? rev.id = some rev :=
    revision?_eq_some.mpr ⟨hrev, rfl⟩
  obtain ⟨l, hl⟩ := hacyc.exists_ancestry (store.upRevision rev)
  refine ⟨l, ?_, ?_, ?_⟩
  · rw [hcur]
    exact Climbs.step hfound hl
  · rw [passCurrent, if_pos hshows]
    exact ancestry_parentRevision hl
  · intro other hother
    have hnotin : rev ∉ l :=
      hl.not_mem_self DocumentRevision.id (fun _ _ => revision?_id) hfound
    rw [beq_eq_false_iff_ne]
    intro hid
    rw [inj_on_of_nodup_map store.revisionIds_nodup (hl.mem_revisions hother) hrev hid] at hother
    exact hnotin hother

/-- The climb of a document that shows the deleted revision goes on from its parent. -/
theorem RevisionDeleted.climb_of_shows (hinact : store.isActive rev = false)
    (h : RevisionDeleted (store.withCurrentPassed rev) rev store')
    (hacyc : store.Acyclic) (hshows : showsRevision doc rev = true) :
    store.climbedRevisions doc = rev :: store'.climbedRevisions (store.afterRevision rev doc) := by
  obtain ⟨l, hwhole, hpass, hkept⟩ := ancestry_of_shows hrev hacyc hshows
  have hclimb : store.climbedRevisions (passCurrent (store.parentRevision rev) rev doc) =
        l.takeWhile fun other => !store.isActive other := by
    rw [climbedRevisions, hpass.climb_eq (Nat.lt_succ_of_le hpass.length_le)]
  -- the doc as the session sees it before the flush
  have hafter : store'.climbedRevisions (store.afterRevision rev doc) =
      store.climbedRevisions (passCurrent (store.parentRevision rev) rev doc) := by
    refine (h.thinned hrev).climbedRevisions_eq hacyc (clearCurrentWhere_eq _ _) ?_
    rw [hclimb]
    exact fun other hother => hkept other ((takeWhile_sublist _).subset hother)
  rw [hafter, hclimb, climbedRevisions, hwhole.climb_eq (Nat.lt_succ_of_le hwhole.length_le),
    takeWhile_cons_of_pos (by rw [hinact]; rfl)]

theorem RevisionDeleted.latest_of_shows (hinact : store.isActive rev = false)
    (h : RevisionDeleted (store.withCurrentPassed rev) rev store')
    (hacyc : store.Acyclic) (hshows : showsRevision doc rev = true)
    (hhas : store.documentHasActiveRevision doc.id = true) :
    store'.getLatestRevision (store.afterRevision rev doc) =
      store.getLatestRevision doc := by
  obtain ⟨l, hwhole, hpass, hkept⟩ := ancestry_of_shows hrev hacyc hshows
  have hspared : ((l.takeWhile fun other => !store.isActive other).any fun other =>
      other.id == rev.id) = false := by
    rw [any_eq_false]
    intro other hother
    rw [hkept other ((takeWhile_sublist _).subset hother)]
    exact Bool.false_ne_true
  rw [(h.thinned hrev).getLatestRevision_eq hacyc (inactive_of_eq hrev hinact)
      (passCurrent (store.parentRevision rev) rev doc)
      (store.afterRevision rev doc) (clearCurrentWhere_id _ _) (clearCurrentWhere_eq _ _)
      (by rw [passCurrent_id]; exact hhas),
    climbedRevisions, hpass.climb_eq (Nat.lt_succ_of_le hpass.length_le), hspared,
    if_neg Bool.false_ne_true, hpass.getLatestRevision_eq, hwhole.getLatestRevision_eq,
    find?_cons, hinact, passCurrent_id]

theorem RevisionDeleted.latest_of_not_shows (hinact : store.isActive rev = false)
    (h : RevisionDeleted (store.withCurrentPassed rev) rev store')
    (hacyc : store.Acyclic) (hshows : showsRevision doc rev = false)
    (hhas : store.documentHasActiveRevision doc.id = true) :
    store'.getLatestRevision (store.afterRevision rev doc) =
      if (store.climbedRevisions doc).any fun climbed => climbed.id == rev.id then
        store.newestActiveRevision doc.id
      else store.getLatestRevision doc := by
  have hsame : passCurrent (store.parentRevision rev) rev doc = doc :=
    if_neg (by rw [hshows]; exact Bool.false_ne_true)
  rw [afterRevision, hsame]
  exact (h.thinned hrev).getLatestRevision_eq hacyc (inactive_of_eq hrev hinact)
    doc _ (clearCurrentWhere_id _ _) (clearCurrentWhere_eq _ _) hhas

omit hrev

theorem mem_of_climbedRevisions (hacyc : store.Acyclic) {climbed : DocumentRevision}
    (h : climbed ∈ store.climbedRevisions doc) : climbed ∈ store.revisions := by
  obtain ⟨l, hl⟩ := hacyc.exists_ancestry doc.currentRevisionId
  rw [climbedRevisions, hl.climb_eq (Nat.lt_succ_of_le hl.length_le)] at h
  exact hl.mem_revisions ((takeWhile_sublist _).subset h)

theorem clearCurrentWhere_notDeleted (clear : Node → Bool) (node : Node) :
    (clearCurrentWhere clear node).notDeleted = node.notDeleted := by
  unfold clearCurrentWhere
  split <;> rfl

theorem afterRevision_notDeleted (doc : Node) :
    (store.afterRevision rev doc).notDeleted = doc.notDeleted := by
  rw [afterRevision, clearCurrentWhere_notDeleted, passCurrent]
  split <;> rfl

/-- After a removal a document with an active revision is there, and has the same effective revision
or, when the climb was cut, the newest active one.  A removal that does not cut the climb takes
nothing of it, or its first revision. -/
theorem Removes.latest (h : Removes now store removal store') (hacyc : store.Acyclic) {id : NodeId}
    (hdoc : store.document? id = some doc)
    (hhas : store.documentHasActiveRevision id = true) :
    ∃ doc', store'.document? id = some doc' ∧
      doc'.notDeleted = doc.notDeleted ∧ store'.getLatestRevision doc' =
        (if store.removalCuts doc removal then store.newestActiveRevision id
        else store.getLatestRevision doc) ∧
      (store.removalCuts doc removal = false →
        store'.climbedRevisions doc' = store.climbedRevisions doc ∨
        ∃ rev, removal = .revision rev ∧
          store.climbedRevisions doc = rev :: store'.climbedRevisions doc') := by
  obtain ⟨-, rfl, -⟩ := Database.document?_eq_some.mp hdoc
  cases h with
  | @document docId _ hnone _ hpurge =>
    have hne : doc.id ≠ docId := by
      rintro rfl
      rw [hhas] at hnone
      cases hnone
    have hgone : ∀ climbed ∈ store.climbedRevisions doc,
        store.purgesRevision [docId] climbed.id = (climbed.documentId == docId) :=
      fun climbed hmem => purgesRevision_eq (mem_of_climbedRevisions hacyc hmem)
    have hcuts : (store.climbedRevisions doc).any (fun climbed =>
        store.purgesRevision [docId] climbed.id) =
          store.removalCuts doc (.document docId) := by
      rw [removalCuts, Bool.eq_iff_iff, any_eq_true, any_eq_true]
      refine exists_congr fun climbed => and_congr_right fun hmem => ?_
      rw [hgone climbed hmem]
    refine ⟨_, by rw [hpurge.document?_eq, if_neg hne, hdoc]; rfl,
      clearCurrentWhere_notDeleted _ _, ?_, fun hspared => .inl ?_⟩
    · rw [hpurge.thinned.getLatestRevision_eq hacyc (inactive_of_purgesRevision hnone) doc _
        (clearCurrentWhere_id _ _) (clearCurrentWhere_current _ _) hhas, hcuts]
    · refine hpurge.thinned.climbedRevisions_eq hacyc (clearCurrentWhere_current _ _) ?_
      rw [← hcuts, any_eq_false] at hspared
      exact fun climbed hmem => Bool.eq_false_iff.mpr (hspared climbed hmem)
  | @revision rev _ hrev hinact _ hdel =>
    refine ⟨store.afterRevision rev doc, by rw [hdel.document?_eq, hdoc]; rfl,
      afterRevision_notDeleted _, ?_⟩
    rw [removalCuts]
    cases hshows : showsRevision doc rev with
    | true =>
      rw [Bool.not_true, Bool.and_false, if_neg Bool.false_ne_true]
      exact ⟨hdel.latest_of_shows hrev hinact hacyc hshows hhas, fun _ =>
        .inr ⟨rev, rfl, hdel.climb_of_shows hrev hinact hacyc hshows⟩⟩
    | false =>
      rw [Bool.not_false, Bool.and_true]
      refine ⟨hdel.latest_of_not_shows hrev hinact hacyc hshows hhas, fun hspared => .inl ?_⟩
      have hsame : passCurrent (store.parentRevision rev) rev doc = doc :=
        if_neg (by rw [hshows]; exact Bool.false_ne_true)
      rw [any_eq_false] at hspared
      rw [afterRevision, hsame]
      refine (hdel.thinned hrev).climbedRevisions_eq hacyc (clearCurrentWhere_eq _ _) ?_
      exact fun climbed hmem => Bool.eq_false_iff.mpr (hspared climbed hmem)

end

/-! ### What a cleanup must leave alone -/

def FileHasLiveUpload (fileId : String) (now : Instant) : Prop :=
  ∃ taskId row, store.fileTasks.lookup taskId = some row ∧ row.isLiveUpload now = true ∧
    row.fileId = fileId

/-- Nothing that is in use is lost. -/
structure CleanupSafe (store store' : FileStore) : Prop where
  activeFiles : ∀ file ∈ store.files, file.active = true →
    file ∈ store'.files ∧
      ∀ revision ∈ store.revisions, revision.fileId = file.id → revision ∈ store'.revisions
  documents : ∀ id, (store.document? id).isSome = true →
    store.documentHasActiveRevision id = true ∨ store.HasLiveUpload id now →
    (store'.document? id).isSome = true
  liveTasks : ∀ taskId row, store.fileTasks.lookup taskId = some row →
    row.isLiveUpload now = true → store'.fileTasks.lookup taskId = some row
  latest : ∀ id document, store.document? id = some document →
    store.documentHasActiveRevision id = true →
    ∃ document', store'.document? id = some document' ∧
      store'.getLatestRevision document' = store.getLatestRevision document

/-- The removal deletes the only use of a file that has a live upload. -/
def TakesUpload (entry : FileStore × Removal) : Prop :=
  ∃ rev, entry.2 = .revision rev ∧ entry.1.FileHasLiveUpload rev.fileId now ∧
    entry.1.isSoleUse rev = true

/-- The removal cuts the climb to the effective revision of the document. -/
def cutsLatest (id : NodeId) (entry : FileStore × Removal) : Bool :=
  (entry.1.document? id).any fun document => entry.1.removalCuts document entry.2

/-- The removals of a call spare the uploads, their documents and the effective revisions. -/
structure Spares (store : FileStore) (removals : List (FileStore × Removal)) : Prop where
  tasks : ∀ entry ∈ removals, ¬TakesUpload now entry
  documents : ∀ id, .document id ∈ removals.map Prod.snd → ¬store.HasLiveUpload id now
  latest : ∀ id document, store.document? id = some document →
    store.documentHasActiveRevision id = true → removals.any (cutsLatest id) = true →
    store.getLatestRevision document = store.newestActiveRevision id

/-! ### What one removal leaves -/

section

variable {store store' : FileStore} {now : Instant} {removal : Removal}

theorem Thinned.documentHasActiveRevision_eq {gone : String → Bool} (h : Thinned store gone store')
    (hinact : ∀ rev ∈ store.revisions, gone rev.id = true →
      store.isActive rev = false) (id : NodeId) :
    store'.documentHasActiveRevision id = store.documentHasActiveRevision id := by
  rw [Bool.eq_iff_iff, documentHasActiveRevision, documentHasActiveRevision, any_eq_true,
    any_eq_true]
  simp only [Bool.and_eq_true]
  constructor
  · rintro ⟨rev, hrev, hdoc, hact⟩
    rw [h.active rev hrev] at hact
    rw [h.revisions] at hrev
    exact ⟨rev, (mem_filter.mp hrev).1, hdoc, hact⟩
  · rintro ⟨rev, hrev, hdoc, hact⟩
    have hleft : rev ∈ store'.revisions := by
      rw [h.revisions, mem_filter]
      refine ⟨hrev, ?_⟩
      rw [Bool.not_eq_true', Bool.eq_false_iff]
      intro hgone
      rw [hinact rev hrev hgone] at hact
      cases hact
    exact ⟨rev, hleft, hdoc, by rw [h.active rev hleft]; exact hact⟩

variable (h : Removes now store removal store')

include h

theorem Removes.documentHasActiveRevision_eq (id : NodeId) :
    store'.documentHasActiveRevision id = store.documentHasActiveRevision id := by
  obtain ⟨gone, hthinned, hinact⟩ := h.thinned
  exact hthinned.documentHasActiveRevision_eq hinact id

variable {id : NodeId}

theorem Removes.newestActiveRevision_eq
    (hhas : store.documentHasActiveRevision id = true) :
    store'.newestActiveRevision id = store.newestActiveRevision id := by
  obtain ⟨gone, hthinned, hinact⟩ := h.thinned
  exact hthinned.newestActiveRevision_eq hinact hhas

theorem Removes.acyclic (hacyc : store.Acyclic) :
    store'.Acyclic := by
  obtain ⟨gone, hthinned, -⟩ := h.thinned
  exact hthinned.acyclic hacyc

omit h

variable {file : File}

theorem isActive_of_file (hfile : file ∈ store.files) {rev : DocumentRevision}
    (hsame : rev.fileId = file.id) : store.isActive rev = file.active := by
  obtain ⟨found, hfound⟩ : ∃ found, store.files.find? (fun other => other.id == rev.fileId) =
      some found := by
    refine Option.isSome_iff_exists.mp (find?_isSome.mpr ⟨file, hfile, ?_⟩)
    simp [hsame]
  have hid : found.id = rev.fileId := by simpa using find?_some hfound
  rw [isActive, hfound, inj_on_of_nodup_map store.fileIds_nodup
    (mem_of_find?_eq_some hfound) hfile (hid.trans hsame)]
  rfl

variable (h : Removes now store removal store')

include h

theorem Removes.activeFiles
    (hfile : file ∈ store.files) (hact : file.active = true) :
    file ∈ store'.files ∧
      ∀ rev ∈ store.revisions, rev.fileId = file.id → rev ∈ store'.revisions := by
  constructor
  · cases h with
    | @document docId _ hnone _ hpurge =>
      rw [hpurge.files, mem_filter, Bool.not_eq_true', Bool.eq_false_iff]
      refine ⟨hfile, fun hspare => ?_⟩
      obtain ⟨⟨rev, hrev, hdoc, hsame⟩, -⟩ := isSpare_iff.mp hspare
      rw [documentHasActiveRevision, any_eq_false] at hnone
      have hdead := hnone rev hrev
      rw [isActive_of_file hfile hsame, hact] at hdead
      exact hdead (by simpa using mem_singleton.mp hdoc)
    | @revision rev _ hrev hinact _ hdel =>
      rw [hdel.files, mem_filter, Bool.not_eq_true', Bool.eq_false_iff]
      refine ⟨hfile, fun hgone => ?_⟩
      rw [Bool.and_eq_true, beq_iff_eq] at hgone
      rw [isActive_of_file hfile hgone.2.symm, hact] at hinact
      cases hinact
  · intro rev hrev hsame
    obtain ⟨gone, hthinned, hinact⟩ := h.thinned
    rw [hthinned.revisions, mem_filter, Bool.not_eq_true', Bool.eq_false_iff]
    refine ⟨hrev, fun hgone => ?_⟩
    have hdead := hinact rev hrev hgone
    rw [isActive_of_file hfile hsame, hact] at hdead
    cases hdead

theorem Removes.document?_isSome :
    (store'.document? id).isSome = true ↔
      (store.document? id).isSome = true ∧ removal ≠ .document id := by
  cases h with
  | @document docId _ _ _ hpurge =>
    rw [hpurge.document?_eq]
    split
    · rename_i hid
      subst hid
      simp
    · rename_i hid
      rw [Option.isSome_map]
      refine (and_iff_left ?_).symm
      intro heq
      cases heq
      exact hid rfl
  | revision _ _ _ hdel =>
    rw [hdel.document?_eq, Option.isSome_map]
    refine (and_iff_left ?_).symm
    intro heq
    cases heq

/-- Which live uploads a removal takes: those of the file of a deleted revision, when nothing else
uses the file. -/
theorem Removes.liveTask {taskId : String} {row : FileTaskRow}
    (hrow : store.fileTasks.lookup taskId = some row) (hlive : row.isLiveUpload now = true) :
    store'.fileTasks.lookup taskId = some row ↔ ∀ rev, removal = .revision rev →
        (store.isSoleUse rev && row.fileId == rev.fileId) = false := by
  cases h with
  | @document docId _ _ hnone hpurge =>
    rw [hpurge.tasks_lookup]
    refine iff_of_true ⟨hrow, ?_⟩ ?_
    · rw [Bool.eq_false_iff, Ne, isSpare_iff]
      rintro ⟨⟨rev, hrev, hdoc, hsame⟩, -⟩
      refine hnone ⟨taskId, row, hrow, hlive, any_eq_true.mpr ⟨rev, hrev, ?_⟩⟩
      simp [mem_singleton.mp hdoc, hsame]
    · intro rev heq
      cases heq
  | @revision rev _ _ _ _ hdel =>
    rw [hdel.tasks_lookup]
    constructor
    · rintro ⟨-, hkept⟩ other heq
      cases heq
      exact hkept
    · intro hkept
      exact ⟨hrow, hkept rev rfl⟩

theorem Removes.sublist :
    store'.revisions.Sublist store.revisions := by
  cases h with
  | document _ _ hpurge =>
    rw [hpurge.revisions]
    exact filter_sublist
  | revision _ _ _ hdel =>
    rw [hdel.revisions]
    exact filter_sublist

theorem Removes.otherUses_eq :
    store'.otherUses = store.otherUses := by
  cases h with
  | document _ _ hpurge => rw [otherUses, otherUses, hpurge.otherTables]
  | revision _ _ _ hdel =>
    rw [otherUses, hdel.otherTables]
    rfl

/-- A file whose tasks stay is still used. -/
theorem Removes.isUsed {taskId : String} {row : FileTaskRow}
    (hrow : store'.fileTasks.lookup taskId = some row) (hused : store.isUsed row.fileId = true) :
    store'.isUsed row.fileId = true := by
  rw [FileStore.isUsed, Bool.or_eq_true, contains_iff_mem] at *
  rw [h.otherUses_eq]
  by_cases hother : row.fileId ∈ store.otherUses
  · exact .inr hother
  left
  obtain ⟨tie, htie, hsame⟩ := any_eq_true.mp (hused.resolve_right hother)
  rw [beq_iff_eq] at hsame
  rw [any_eq_true]
  by_contra hnone
  cases h with
  | @document docId _ _ _ hpurge =>
    -- every rev of the file goes with the doc, so the file does
    have hspare : store.isSpare [docId] row.fileId = true := by
      have hall : ∀ rev ∈ store.revisions, rev.fileId = row.fileId → rev.documentId ∈ [docId] := by
        intro rev hrev hfile
        by_contra hkept
        rw [mem_singleton] at hkept
        exact hnone ⟨rev, hpurge.mem_revisions.mpr ⟨hrev, hkept⟩, beq_iff_eq.mpr hfile⟩
      exact isSpare_iff.mpr ⟨⟨tie, htie, hall tie htie hsame, hsame⟩, hall, hother⟩
    rw [(hpurge.tasks_lookup.mp hrow).2] at hspare
    cases hspare
  | @revision rev _ hrev _ _ hdel =>
    have hall : ∀ other ∈ store.revisions, other.fileId = row.fileId → other = rev := by
      intro other hmem hfile
      by_contra hne
      refine hnone ⟨other, hdel.mem_revisions.mpr ⟨hmem, fun hid => hne ?_⟩, beq_iff_eq.mpr hfile⟩
      exact inj_on_of_nodup_map store.revisionIds_nodup hmem hrev hid
    have hfile : row.fileId = rev.fileId := by rw [← hall tie htie hsame, hsame]
    have hsole : store.isSoleUse rev = true :=
      (isSoleUse_iff hrev).mpr ⟨fun other hmem hother => hall other hmem (hother.trans hfile.symm),
        hfile ▸ hother⟩
    have hkept := (hdel.tasks_lookup.mp hrow).2
    rw [hsole, hfile, beq_self_eq_true] at hkept
    cases hkept

end

/-! ### Changes of tasks -/

section

variable {store store' : FileStore} {now : Instant}

theorem TasksChanged.firstActive_eq (h : TasksChanged now store store') (fuel : ℕ)
    (start : Option String) : store'.firstActive fuel start = store.firstActive fuel start := by
  induction fuel generalizing start with
  | zero => rfl
  | succ fuel ih =>
    cases start with
    | none => rfl
    | some id =>
      simp only [firstActive, ih]
      obtain ⟨_, _, rfl⟩ := h.rows
      rfl

theorem TasksChanged.getLatestRevision_eq (h : TasksChanged now store store') (doc : Node) :
    store'.getLatestRevision doc = store.getLatestRevision doc := by
  rw [getLatestRevision, h.firstActive_eq]
  obtain ⟨_, _, rfl⟩ := h.rows
  rfl

end

/-! ### What a call leaves -/

section

variable {store store' : FileStore} {now : Instant} {removals : List (FileStore × Removal)}

variable (h : Reclaims now store removals store')

include h

theorem Reclaims.activeFiles {file : File}
    (hfile : file ∈ store.files) (hact : file.active = true) :
    file ∈ store'.files ∧
      ∀ rev ∈ store.revisions, rev.fileId = file.id → rev ∈ store'.revisions := by
  induction h with
  | done store => exact ⟨hfile, fun rev hrev _ => hrev⟩
  | tasks hstep _ ih =>
    obtain ⟨_, _, rfl⟩ := hstep.rows
    exact ih hfile
  | removal hstep _ ih =>
    obtain ⟨hfile', hrevs⟩ := hstep.activeFiles hfile hact
    obtain ⟨hfile'', hrevs'⟩ := ih hfile'
    exact ⟨hfile'', fun rev hrev hsame =>
      hrevs' rev (hrevs rev hrev hsame) hsame⟩

variable {id : NodeId}

theorem Reclaims.document?_isSome :
    (store'.document? id).isSome = true ↔
      (store.document? id).isSome = true ∧ .document id ∉ removals.map Prod.snd := by
  induction h with
  | done store => simp
  | tasks hstep _ ih =>
    obtain ⟨_, _, rfl⟩ := hstep.rows
    exact ih
  | @removal _ _ _ removal _ hstep _ ih =>
    rw [ih, hstep.document?_isSome, map_cons, mem_cons, not_or, and_assoc]
    simp only [eq_comm]

/-- A run up to one of its removals, and from it on. -/
theorem Reclaims.split {entry : FileStore × Removal} {before after : List (FileStore × Removal)}
    (hsplit : removals = before ++ entry :: after) :
    Reclaims now store before entry.1 ∧
      ∃ store₁, Removes now entry.1 entry.2 store₁ ∧ Reclaims now store₁ after store' := by
  induction h generalizing before with
  | done store => exact absurd hsplit.symm (append_ne_nil_of_right_ne_nil _ (cons_ne_nil _ _))
  | tasks hstep _ ih =>
    obtain ⟨hbef, hafter⟩ := ih hsplit
    exact ⟨.tasks hstep hbef, hafter⟩
  | removal hstep hrun ih =>
    cases before with
    | nil =>
      cases hsplit
      exact ⟨.done _, _, hstep, hrun⟩
    | cons first before =>
      obtain ⟨rfl, hrest⟩ := cons.inj hsplit
      obtain ⟨hbef, hafter⟩ := ih hrest
      exact ⟨.removal hstep hbef, hafter⟩

/-- What task changes do not concern and every removal keeps, a run keeps. -/
theorem Reclaims.keeps {P : FileStore → Prop}
    (htasks : ∀ (store : FileStore) fileTasks pendingDeleteFiles, P store →
      P { store with fileTasks, pendingDeleteFiles })
    (hstep : ∀ {store removal store'}, Removes now store removal store' → P store → P store')
    (hstart : P store) : P store' := by
  induction h with
  | done store => exact hstart
  | tasks hchg _ ih =>
    obtain ⟨_, _, rfl⟩ := hchg.rows
    exact ih (htasks _ _ _ hstart)
  | removal hrem _ ih => exact ih (hstep hrem hstart)

theorem Reclaims.acyclic (hacyc : store.Acyclic) :
    store'.Acyclic :=
  h.keeps (fun _ _ _ hacyc => hacyc) Removes.acyclic hacyc

theorem Reclaims.documentHasActiveRevision_eq (id : NodeId) :
    store'.documentHasActiveRevision id = store.documentHasActiveRevision id :=
  h.keeps (P := fun later => later.documentHasActiveRevision id = _) (fun _ _ _ hsame => hsame)
    (fun hrem hsame => (hrem.documentHasActiveRevision_eq id).trans hsame) rfl

theorem Reclaims.sublist :
    store'.revisions.Sublist store.revisions :=
  h.keeps (P := fun later => later.revisions.Sublist _) (fun _ _ _ hsub => hsub)
    (fun hrem hsub => hrem.sublist.trans hsub) (Sublist.refl _)

theorem Reclaims.otherUses_eq :
    store'.otherUses = store.otherUses :=
  h.keeps (P := fun later => later.otherUses = _) (fun _ _ _ hsame => hsame)
    (fun hrem hsame => hrem.otherUses_eq.trans hsame) rfl

variable {doc : Node}

/-- A document with an active revision stays, and has the effective revision it had, or the newest
active one when its climb was cut. -/
theorem Reclaims.latest (hacyc : store.Acyclic)
    (hdoc : store.document? id = some doc)
    (hhas : store.documentHasActiveRevision id = true) :
    ∃ doc', store'.document? id = some doc' ∧ store'.getLatestRevision doc' =
        if removals.any (cutsLatest id) then store.newestActiveRevision id
        else store.getLatestRevision doc := by
  induction h generalizing doc with
  | done store => exact ⟨doc, hdoc, rfl⟩
  | tasks hstep _ ih =>
    have hlatest := hstep.getLatestRevision_eq doc
    obtain ⟨_, _, rfl⟩ := hstep.rows
    obtain ⟨last, hlast, hlat⟩ := ih hacyc hdoc hhas
    exact ⟨last, hlast, hlatest ▸ hlat⟩
  | @removal store _ _ removal _ hstep _ ih =>
    obtain ⟨next, hnext, -, hfirst, -⟩ := hstep.latest hacyc hdoc hhas
    obtain ⟨last, hlast, hlat⟩ := ih (hstep.acyclic hacyc) hnext
      ((hstep.documentHasActiveRevision_eq id).trans hhas)
    rw [hstep.newestActiveRevision_eq hhas, hfirst] at hlat
    refine ⟨last, hlast, hlat.trans ?_⟩
    have hcuts : cutsLatest id (store, removal) = store.removalCuts doc removal := by
      rw [cutsLatest, hdoc]
      rfl
    rw [any_cons, hcuts]
    cases store.removalCuts doc removal with
    | true => rw [Bool.true_or, if_pos rfl, ite_self]
    | false => rw [Bool.false_or, if_neg Bool.false_ne_true]

omit h

/-- What is left of a climb: the revisions that a run has taken from its start are gone. -/
structure Follows (store : FileStore) (document : Node) (id : NodeId) (store' : FileStore)
    (document' : Node) : Prop where
  found : store'.document? id = some document'
  notDeleted : document'.notDeleted = document.notDeleted
  climb : ∃ gone, store.climbedRevisions document = gone ++ store'.climbedRevisions document' ∧
    ∀ revision ∈ gone, revision ∉ store'.revisions

variable (h : Reclaims now store removals store')

include h

theorem Reclaims.follows (hacyc : store.Acyclic)
    (hdoc : store.document? id = some doc)
    (hhas : store.documentHasActiveRevision id = true)
    (hspared : removals.any (cutsLatest id) = false) :
    ∃ doc', Follows store doc id store' doc' := by
  induction h generalizing doc with
  | done store => exact ⟨doc, hdoc, rfl, [], rfl, fun _ hnil => absurd hnil not_mem_nil⟩
  | tasks hstep _ ih =>
    obtain ⟨_, _, rfl⟩ := hstep.rows
    obtain ⟨last, hlast⟩ := ih hacyc hdoc hhas hspared
    exact ⟨last, hlast.found, hlast.notDeleted, hlast.climb⟩
  | @removal store _ _ removal _ hstep hrun ih =>
    rw [any_cons, Bool.or_eq_false_iff, cutsLatest, hdoc] at hspared
    obtain ⟨next, hnext, hdel, -, hclimb⟩ := hstep.latest hacyc hdoc hhas
    obtain ⟨last, hlast⟩ := ih (hstep.acyclic hacyc) hnext
      ((hstep.documentHasActiveRevision_eq id).trans hhas) hspared.2
    obtain ⟨gone, hgone, hnot⟩ := hlast.climb
    refine ⟨last, hlast.found, hlast.notDeleted.trans hdel, ?_⟩
    rcases hclimb hspared.1 with hsame | ⟨rev, rfl, hfirst⟩
    · exact ⟨gone, hsame.symm.trans hgone, hnot⟩
    refine ⟨rev :: gone, by rw [hfirst, hgone, cons_append], ?_⟩
    rintro other hother hmem
    rcases mem_cons.mp hother with rfl | hother
    · cases hstep with
      | revision _ _ _ hdel =>
        exact (hdel.mem_revisions.mp (hrun.sublist.subset hmem)).2 rfl
    · exact hnot other hother hmem

variable {taskId : String} {row : FileTaskRow}

theorem Reclaims.liveTask
    (hrow : store'.fileTasks.lookup taskId = some row)
    (hlive : row.isLiveUpload now = true) : store.fileTasks.lookup taskId = some row := by
  induction h with
  | done store => exact hrow
  | tasks hstep _ ih => exact (hstep.live taskId row hlive).mp (ih hrow)
  | removal hstep _ ih => exact hstep.tasks (ih hrow)

theorem Reclaims.hasLiveUpload
    (hlive : store'.HasLiveUpload id now) : store.HasLiveUpload id now := by
  obtain ⟨taskId, row, hrow, hrowLive, hhas⟩ := hlive
  obtain ⟨rev, hrev, hboth⟩ := any_eq_true.mp hhas
  exact ⟨taskId, row, h.liveTask hrow hrowLive, hrowLive,
    any_eq_true.mpr ⟨rev, h.sublist.subset hrev, hboth⟩⟩

/-- The live uploads stay if no removal takes one. -/
theorem Reclaims.liveTasks
    (hspares : ∀ entry ∈ removals, ¬TakesUpload now entry)
    (hrow : store.fileTasks.lookup taskId = some row) (hlive : row.isLiveUpload now = true) :
    store'.fileTasks.lookup taskId = some row := by
  induction h with
  | done store => exact hrow
  | tasks hstep _ ih => exact ih hspares ((hstep.live taskId row hlive).mpr hrow)
  | removal hstep _ ih =>
    refine ih (fun entry hentry => hspares entry (mem_cons_of_mem _ hentry))
      ((hstep.liveTask hrow hlive).mpr fun rev heq => ?_)
    rw [Bool.eq_false_iff]
    intro htaken
    rw [Bool.and_eq_true, beq_iff_eq] at htaken
    exact hspares _ mem_cons_self ⟨rev, heq, ⟨taskId, row, hrow, hlive, htaken.2⟩, htaken.1⟩

theorem Reclaims.isUsed
    (hrow : store'.fileTasks.lookup taskId = some row) (hlive : row.isLiveUpload now = true)
    (hused : store.isUsed row.fileId = true) : store'.isUsed row.fileId = true := by
  induction h with
  | done store => exact hused
  | tasks hstep _ ih =>
    obtain ⟨_, _, rfl⟩ := hstep.rows
    exact ih hrow hused
  | removal hstep hrun ih => exact ih hrow (hstep.isUsed (hrun.liveTask hrow hlive) hused)

/-- **A run** is safe exactly when its removals spare the uploads, their documents and the effective
revisions. -/
theorem Reclaims.safe_iff (hacyc : store.Acyclic)
    (hkeys : store.RevisionsHaveDocuments) :
    CleanupSafe now store store' ↔ Spares now store removals := by
  constructor
  · intro hsafe
    refine ⟨?_, ?_, ?_⟩
    · rintro entry hentry ⟨rev, heq, ⟨taskId, row, hrow, hlive, hfile⟩, hsole⟩
      obtain ⟨before, after, hsplit⟩ := append_of_mem hentry
      obtain ⟨hbef, store₁, hrem, hafter⟩ := h.split hsplit
      have hkept := hsafe.liveTasks taskId row (hbef.liveTask hrow hlive) hlive
      have hstays := (hrem.liveTask hrow hlive).mp (hafter.liveTask hkept hlive) rev heq
      rw [hsole, hfile, beq_self_eq_true] at hstays
      cases hstays
    · intro id hpurge hlive
      have hdoc : (store.document? id).isSome = true := by
        obtain ⟨taskId, row, -, -, hhas⟩ := hlive
        obtain ⟨rev, hrev, hboth⟩ := any_eq_true.mp hhas
        rw [Bool.and_eq_true, beq_iff_eq] at hboth
        rw [← hboth.1]
        exact hkeys rev hrev
      exact (h.document?_isSome.mp (hsafe.documents id hdoc (.inr hlive))).2 hpurge
    · intro id doc hdoc hhas hcuts
      obtain ⟨last, hlast, hlat⟩ := h.latest hacyc hdoc hhas
      obtain ⟨last', hlast', hsame⟩ := hsafe.latest id doc hdoc hhas
      rw [hlast] at hlast'
      cases hlast'
      rw [hcuts] at hlat
      exact hsame.symm.trans hlat
  · intro hspares
    refine ⟨fun file hfile hact => h.activeFiles hfile hact, ?_, ?_, ?_⟩
    · rintro id hdoc (hhas | hlive)
      · obtain ⟨doc, hfound⟩ := Option.isSome_iff_exists.mp hdoc
        obtain ⟨last, hlast, -⟩ := h.latest hacyc hfound hhas
        exact Option.isSome_iff_exists.mpr ⟨last, hlast⟩
      · exact h.document?_isSome.mpr ⟨hdoc, fun hpurge => hspares.documents id hpurge hlive⟩
    · intro taskId row hrow hlive
      exact h.liveTasks hspares.tasks hrow hlive
    · intro id doc hdoc hhas
      obtain ⟨last, hlast, hlat⟩ := h.latest hacyc hdoc hhas
      refine ⟨last, hlast, hlat.trans ?_⟩
      split
      · rename_i hcuts
        exact (hspares.latest id doc hdoc hhas hcuts).symm
      · rfl

end

end FileStore

end Cfms.Documents
