import Cfms.Documents.RevisionDeletion
import Cfms.Lib.Largest

/-!
# The effective revision of a document

`Document.get_latest_revision` climbs from the current revision to the first revision whose file is
active, and falls back to the newest active revision of the document.  So the revision in effect
need not be the current one: while an upload is pending it is an ancestor.

`core.document.delete_revision` protects the current revision only, and connects only every other
child of the deleted revision.  `delete_revision_keeps_effective_iff` says exactly when a deletion
leaves the effective revision alone.
-/

namespace Cfms.Documents

open Access Lib Lib.Climb List

inductive LatestRevisionError
  /-- `RuntimeError`: "A document cannot have no revisions." -/
  | noRevisions
  /-- `NoActiveRevisionsError`: "No active revisions found." -/
  | noActiveRevisions
  /-- The climb does not end. -/
  | endless
  deriving DecidableEq

variable (store : FileStore)

namespace FileStore

/-! ### `get_latest_revision` -/

/-- `revision.active`. -/
def isActive (revision : DocumentRevision) : Bool :=
  (store.files.find? fun file => file.id == revision.fileId).any File.active

/-- `revision.parent_revision`, by its id. -/
def upRevision (revision : DocumentRevision) : Option String :=
  store.parentRevisionId revision.id

def firstActive (store : FileStore) :
    ℕ → Option String → Except LatestRevisionError (Option DocumentRevision)
  | 0, _ => .error .endless
  | _ + 1, none => .ok none
  | fuel + 1, some id =>
    match store.revision? id with
    | none => .ok none
    | some revision =>
      if store.isActive revision then .ok (some revision)
      else store.firstActive fuel (store.upRevision revision)

def newestActiveRevision (documentId : NodeId) : Except LatestRevisionError DocumentRevision :=
  if (store.revisionsOf documentId).isEmpty then .error .noRevisions
  else
    match largest (fun revision => store.revisionCreatedTime revision.id)
        ((store.revisionsOf documentId).filter store.isActive) with
    | none => .error .noActiveRevisions
    | some revision => .ok revision

def getLatestRevision (document : Node) : Except LatestRevisionError DocumentRevision :=
  match store.firstActive (store.revisions.length + 1) document.currentRevisionId with
  | .error e => .error e
  | .ok (some revision) => .ok revision
  | .ok none => store.newestActiveRevision document.id

/-- The links to parents form a forest. -/
def Acyclic : Prop :=
  ∃ rank : String → ℕ, ∀ revision ∈ store.revisions, ∀ parent,
    store.parentRevisionId revision.id = some parent → rank parent < rank revision.id

/-! ### Climbs in a forest -/

/-- The revisions from a given one up, all of them. -/
abbrev Ancestry : Option String → List DocumentRevision → Prop :=
  Climbs store.revision? store.upRevision

variable {store : FileStore} {revision : DocumentRevision}

theorem revision?_id {id : String}
    (h : store.revision? id = some revision) : revision.id = id := (revision?_eq_some.mp h).2

theorem Acyclic.exists_ancestry (hacyc : store.Acyclic) (start : Option String) :
    ∃ l, store.Ancestry start l := by
  obtain ⟨rank, hrank⟩ := hacyc
  have hfrom : ∀ n id, rank id < n → ∃ l, store.Ancestry (some id) l := by
    intro n
    induction n with
    | zero => exact fun id hid => absurd hid (Nat.not_lt_zero _)
    | succ n ih =>
      intro id hid
      cases hrev : store.revision? id with
      | none => exact ⟨[], Climbs.missing hrev⟩
      | some revision =>
        obtain ⟨hmem, rfl⟩ := revision?_eq_some.mp hrev
        cases hpar : store.upRevision revision with
        | none => exact ⟨[revision], Climbs.step hrev (by rw [hpar]; exact Climbs.top)⟩
        | some parent =>
          have hlt := hrank revision hmem parent hpar
          obtain ⟨l, hl⟩ := ih parent (by omega)
          exact ⟨revision :: l, Climbs.step hrev (by rw [hpar]; exact hl)⟩
  cases start with
  | none => exact ⟨[], Climbs.top⟩
  | some id => exact hfrom _ id (Nat.lt_succ_self _)

variable {start : Option String} {l : List DocumentRevision}

theorem Ancestry.length_le (h : store.Ancestry start l) : l.length ≤ store.revisions.length :=
  Climbs.length_le DocumentRevision.id (fun _ _ => revision?_id)
    (fun _ _ hrev => (revision?_eq_some.mp hrev).1) h

theorem Ancestry.mem_revisions (h : store.Ancestry start l) (hrev : revision ∈ l) :
    revision ∈ store.revisions := by
  obtain ⟨id, hlook⟩ := h.lookup_isSome hrev
  exact (revision?_eq_some.mp hlook).1

theorem Ancestry.firstActive_eq (h : store.Ancestry start l) {fuel : ℕ} (hfuel : l.length < fuel) :
    store.firstActive fuel start = .ok (l.find? store.isActive) := by
  induction h generalizing fuel with
  | top =>
    obtain ⟨n, rfl⟩ : ∃ n, fuel = n + 1 := ⟨fuel - 1, by omega⟩
    rfl
  | missing hnone =>
    obtain ⟨n, rfl⟩ : ∃ n, fuel = n + 1 := ⟨fuel - 1, by omega⟩
    simp only [firstActive, hnone, find?_nil]
  | @step id revision rest hrev _ ih =>
    rw [length_cons] at hfuel
    obtain ⟨n, rfl⟩ : ∃ n, fuel = n + 1 := ⟨fuel - 1, by omega⟩
    simp only [firstActive, hrev, find?_cons]
    cases store.isActive revision with
    | true => rfl
    | false => exact ih (by omega)

theorem Ancestry.getLatestRevision_eq {document : Node}
    (h : store.Ancestry document.currentRevisionId l) :
    store.getLatestRevision document = match l.find? store.isActive with
      | some revision => .ok revision
      | none => store.newestActiveRevision document.id := by
  have hlen := h.length_le
  rw [getLatestRevision, h.firstActive_eq (by omega)]
  cases l.find? store.isActive <;> rfl

/-! ### The newest active revision without some others -/

variable {documentId : NodeId} {latest : DocumentRevision}

theorem newestActiveRevision_eq {store' : FileStore} {keep : DocumentRevision → Bool}
    (hrevs : store'.revisions = store.revisions.filter keep)
    (hact : ∀ revision ∈ store'.revisions, store'.isActive revision = store.isActive revision)
    (htime : store'.revisionCreatedTime = store.revisionCreatedTime)
    (hlat : store.newestActiveRevision documentId = .ok latest) (hkeep : keep latest = true) :
    store'.newestActiveRevision documentId = .ok latest := by
  have hrows : (store'.revisionsOf documentId).filter store'.isActive =
      ((store.revisionsOf documentId).filter store.isActive).filter keep := by
    rw [revisionsOf, revisionsOf, hrevs, filter_filter, filter_filter, filter_filter, filter_filter]
    refine filter_congr fun revision hrev => ?_
    by_cases hstay : keep revision = true
    · rw [hact revision (by rw [hrevs]; exact mem_filter.mpr ⟨hrev, hstay⟩), hstay]
      simp [Bool.and_comm]
    · rw [Bool.not_eq_true] at hstay
      simp [hstay]
  rw [newestActiveRevision] at hlat ⊢
  split at hlat
  · cases hlat
  split at hlat
  · cases hlat
  rename_i found hfound
  cases hlat
  have hfound' := largest_filter hfound hkeep
  rw [← hrows, ← htime] at hfound'
  have hmem := List.mem_of_mem_filter (largest_mem hfound')
  rw [if_neg (by rw [List.isEmpty_iff]; exact List.ne_nil_of_mem hmem), hfound']

theorem newestActiveRevision_mem
    (hlat : store.newestActiveRevision documentId = .ok latest) : latest ∈ store.revisions := by
  rw [newestActiveRevision] at hlat
  split at hlat
  · cases hlat
  split at hlat
  · cases hlat
  rename_i found hfound
  cases hlat
  exact mem_of_mem_filter (mem_of_mem_filter (largest_mem hfound))

/-! ### The climb after a deletion -/

/-- The children that the loop of the deletion passes over. -/
def skippedChildren (store : FileStore) (revisionId : String) : List String :=
  (store.childRevisions revisionId).filter fun id =>
    !(everyOther (store.childRevisions revisionId)).contains id

/-- The inactive revisions that `get_latest_revision` climbs through. -/
def climbedRevisions (store : FileStore) (document : Node) : List DocumentRevision :=
  (climb store.revision? store.upRevision (store.revisions.length + 1)
    document.currentRevisionId).takeWhile fun revision => !store.isActive revision

/-- The climb reaches the revision from a child that the deletion does not connect. -/
def cutsClimb (store : FileStore) (revision : DocumentRevision) (document : Node) : Bool :=
  (store.climbedRevisions document).any fun climbed =>
    (store.skippedChildren revision.id).contains climbed.id

/-- What is left of the forest when a revision has been deleted. -/
structure RevisionGone (store : FileStore) (revision : DocumentRevision) (store' : FileStore) :
    Prop where
  revisions : store'.revisions = store.revisions.filter fun other => other.id != revision.id
  active : ∀ other ∈ store'.revisions, store'.isActive other = store.isActive other
  parent : ∀ other ∈ store'.revisions, store'.upRevision other =
    if (store.skippedChildren revision.id).contains other.id then none
    else if store.upRevision other = some revision.id then store.upRevision revision
    else store.upRevision other
  createdTime : store'.revisionCreatedTime = store.revisionCreatedTime

section

variable {store' : FileStore} {revision : DocumentRevision}

theorem RevisionGone.revision?_eq (h : RevisionGone store revision store') (id : String) :
    store'.revision? id = if id = revision.id then none else store.revision? id := by
  rw [revision?, h.revisions, find?_filter]
  split
  · rename_i hid
    rw [find?_eq_none]
    intro other _
    simp [hid]
  · rename_i hid
    congr 1
    funext other
    by_cases hother : other.id = id
    · simp [hother, hid]
    · simp [hother]

/-- Where the climb goes on when it would come to the deleted revision. -/
def pastRevision (store : FileStore) (revision : DocumentRevision) (start : Option String) :
    Option String :=
  if start = some revision.id then store.upRevision revision else start

theorem skippedChildren_up {other : DocumentRevision}
    (hskip : (store.skippedChildren revision.id).contains other.id = true) :
    store.upRevision other = some revision.id := by
  rw [contains_iff_mem, skippedChildren, mem_filter, childRevisions, mem_map] at hskip
  obtain ⟨⟨child, hchild, hid⟩, -⟩ := hskip
  rw [mem_filter, beq_iff_eq] at hchild
  rw [upRevision, ← hid]
  exact hchild.2

theorem RevisionGone.firstActive_eq (h : RevisionGone store revision store')
    (hself : store.upRevision revision ≠ some revision.id)
    (hmem : revision ∈ store.revisions) {start : Option String} {l : List DocumentRevision}
    (hl : store.Ancestry start l) (hfirst : l.find? store.isActive ≠ some revision) {fuel : ℕ}
    (hfuel : (l.filter fun other => other.id != revision.id).length < fuel) :
    store'.firstActive fuel (store.pastRevision revision start) =
      .ok (if (l.takeWhile fun other => !store.isActive other).any fun other =>
            (store.skippedChildren revision.id).contains other.id then none
          else l.find? store.isActive) := by
  have hpast : ∀ id, id ≠ revision.id → store.pastRevision revision (some id) = some id := by
    intro id hid
    rw [pastRevision, if_neg (by simpa using hid)]
  induction hl generalizing fuel with
  | top =>
    obtain ⟨n, rfl⟩ : ∃ n, fuel = n + 1 := ⟨fuel - 1, by omega⟩
    rfl
  | @missing id hnone =>
    have hid : id ≠ revision.id := by
      rintro rfl
      rw [revision?_eq_some.mpr ⟨hmem, rfl⟩] at hnone
      cases hnone
    obtain ⟨n, rfl⟩ : ∃ n, fuel = n + 1 := ⟨fuel - 1, by omega⟩
    rw [hpast id hid]
    simp [firstActive, h.revision?_eq, hnone]
  | @step id climbed rest hclimbed hrest ih =>
    obtain ⟨hclimbedMem, rfl⟩ := revision?_eq_some.mp hclimbed
    by_cases hid : climbed.id = revision.id
    · have hself' : climbed = revision :=
        inj_on_of_nodup_map store.revisionIds_nodup hclimbedMem hmem hid
      subst hself'
      -- the deleted revision is not active, as it is not the first active one
      have hinact : store.isActive climbed = false := by
        cases hact : store.isActive climbed with
        | true => exact absurd (by rw [find?_cons, hact]) hfirst
        | false => rfl
      have hnotSkipped : (store.skippedChildren climbed.id).contains climbed.id = false := by
        rw [Bool.eq_false_iff]
        exact fun hskip => hself (skippedChildren_up hskip)
      have hstart : store.pastRevision climbed (some climbed.id) =
          store.pastRevision climbed (store.upRevision climbed) := by
        rw [pastRevision, if_pos rfl, pastRevision, if_neg hself]
      rw [filter_cons_of_neg (by simp)] at hfuel
      rw [find?_cons, hinact] at hfirst
      rw [hstart, ih hfirst hfuel, takeWhile_cons_of_pos (by simp [hinact]), any_cons,
        hnotSkipped, Bool.false_or, find?_cons, hinact]
    · rw [filter_cons_of_pos (by simp [hid]), length_cons] at hfuel
      obtain ⟨n, rfl⟩ : ∃ n, fuel = n + 1 := ⟨fuel - 1, by omega⟩
      have hleft : climbed ∈ store'.revisions := by
        rw [h.revisions, mem_filter]
        exact ⟨hclimbedMem, by simp [hid]⟩
      rw [hpast _ hid]
      simp only [firstActive, h.revision?_eq, hid, if_false, hclimbed, h.active climbed hleft]
      cases hact : store.isActive climbed with
      | true => simp [hact]
      | false =>
        rw [find?_cons, hact] at hfirst ⊢
        rw [takeWhile_cons_of_pos (by simp [hact]), any_cons]
        rw [h.parent climbed hleft]
        cases hskip : (store.skippedChildren revision.id).contains climbed.id with
        | true =>
          obtain ⟨k, rfl⟩ : ∃ k, n = k + 1 := ⟨n - 1, by omega⟩
          simp [firstActive]
        | false =>
          exact ih hfirst (by omega)

end

/-! ### The deletion of a revision -/

theorem childRevisions_nodup (store : FileStore) (revId : String) :
    (store.childRevisions revId).Nodup :=
  store.revisionIds_nodup.sublist (filter_sublist.map DocumentRevision.id)

theorem mem_childRevisions (revId : String) {other : DocumentRevision}
    (hother : other ∈ store.revisions) :
    other.id ∈ store.childRevisions revId ↔ store.upRevision other = some revId := by
  rw [childRevisions, mem_map, upRevision]
  constructor
  · rintro ⟨child, hchild, hid⟩
    rw [mem_filter, beq_iff_eq] at hchild
    rw [← hid]
    exact hchild.2
  · intro hup
    exact ⟨other, mem_filter.mpr ⟨hother, by simpa using hup⟩, rfl⟩

theorem connectChildrenOf_parent (store : FileStore) (revId id : String) :
    (store.connectChildrenOf revId).parentRevisionId id =
      if id ∈ everyOther (store.childRevisions revId) then store.parentRevisionId revId
      else store.parentRevisionId id :=
  congrFun (connectChildren_eq _ _ [] (store.childRevisions revId) store.parentRevisionId
    (store.childRevisions_nodup revId) le_rfl) id

section

variable {limits : QueryLimits} {store' : FileStore} {revision : DocumentRevision}

theorem RevisionDeleted.isActive_eq (h : RevisionDeleted store revision store')
    (hrev : revision ∈ store.revisions) {other : DocumentRevision}
    (hother : other ∈ store'.revisions) : store'.isActive other = store.isActive other := by
  have hstays : (store.isSoleUse revision && other.fileId == revision.fileId) = false := by
    rw [Bool.eq_false_iff]
    intro hsame
    rw [Bool.and_eq_true] at hsame
    have hunus := isUsed_of_isSoleUse hrev hsame.1 store' h.revisions
      (by rw [otherUses, h.otherTables]; rfl)
    rw [isUsed, Bool.or_eq_false_iff, any_eq_false] at hunus
    exact hunus.1 other hother (by simpa using hsame.2)
  rw [isActive, h.files, find?_filter]
  congr 2
  funext file
  by_cases hfile : file.id = other.fileId
  · simp [hfile, hstays]
  · simp [hfile]

theorem RevisionDeleted.gone
    (h : RevisionDeleted (store.beforeRevisionDelete limits revision) revision store')
    (hrev : revision ∈ store.revisions)
    (hself : store.upRevision revision ≠ some revision.id) :
    RevisionGone store revision store' := by
  have hrevs : store'.revisions =
      store.revisions.filter fun other => other.id != revision.id := h.revisions
  have hmem : ∀ other ∈ store'.revisions, other ∈ store.revisions ∧ other.id ≠ revision.id := by
    intro other hother
    rw [hrevs, mem_filter] at hother
    exact ⟨hother.1, by simpa using hother.2⟩
  refine ⟨hrevs, fun other hother => ?_, fun other hother => ?_, h.revisionCreatedTime⟩
  · exact h.isActive_eq (by exact hrev) hother
  obtain ⟨hother, hid⟩ := hmem other hother
  have hchild := mem_childRevisions revision.id hother
  have hlink : (store.beforeRevisionDelete limits revision).parentRevisionId other.id = _ :=
    connectChildrenOf_parent store revision.id other.id
  have hkept : ∀ parent : Option String, parent ≠ some revision.id →
      parent.filter (fun parent => parent != revision.id) = parent := by
    intro parent hpar
    cases parent with
    | none => rfl
    | some parent => simpa using hpar
  rw [upRevision, h.parentRevisionId, hlink]
  by_cases heven : other.id ∈ everyOther (store.childRevisions revision.id)
  · have hup := hchild.mp (mem_of_mem_everyOther heven)
    have hskip : (store.skippedChildren revision.id).contains other.id = false := by
      simp [skippedChildren, heven]
    simp only [heven, hskip, hup]
    exact hkept _ hself
  · rw [if_neg heven]
    by_cases hup : store.upRevision other = some revision.id
    · have hskip : (store.skippedChildren revision.id).contains other.id = true := by
        simp [skippedChildren, heven, hchild.mpr hup]
      rw [hskip, show store.parentRevisionId other.id = some revision.id from hup]
      simp
    · have hskip : (store.skippedChildren revision.id).contains other.id = false :=
        Bool.eq_false_iff.mpr fun hskip => hup (skippedChildren_up hskip)
      rw [hskip, if_neg hup]
      exact hkept _ hup

theorem Ancestry.filter_length_lt {start : Option String} {l : List DocumentRevision}
    (hl : store.Ancestry start l)
    (hrevs : store'.revisions = store.revisions.filter fun other => other.id != revision.id) :
    (l.filter fun other => other.id != revision.id).length < store'.revisions.length + 1 := by
  have hnodup : (l.map DocumentRevision.id).Nodup :=
    Climbs.keys_nodup DocumentRevision.id (fun _ _ => revision?_id) hl
  have hsub : (l.filter fun other => other.id != revision.id) ⊆ store'.revisions := by
    intro other hother
    obtain ⟨hmem, hid⟩ := mem_filter.mp hother
    rw [hrevs]
    exact mem_filter.mpr ⟨hl.mem_revisions hmem, hid⟩
  have hsubperm := subperm_of_subset (hnodup.of_map.filter _) hsub
  exact Nat.lt_succ_of_le hsubperm.length_le

def KeepsEffective (limits : QueryLimits) (store : FileStore) (actor : Actor)
    (revision : DocumentRevision) (document : Node) : Prop :=
  ∀ store' tasks,
    store.requestDeleteRevision limits actor revision.id = .committed store' tasks →
    store.getLatestRevision document ≠ .ok revision ∧
      ∀ latest, store.getLatestRevision document = .ok latest →
        ∃ document', store'.liveDocument? document.id = some document' ∧
          store'.getLatestRevision document' = .ok latest

variable {document : Node}

/-- After a deletion the document has the same effective revision, or the newest active one when the
climb was cut. -/
theorem RevisionGone.getLatestRevision_eq (h : RevisionGone store revision store')
    (hacyc : store.Acyclic) (hrev : revision ∈ store.revisions)
    (hcur : document.currentRevisionId ≠ some revision.id)
    (hlat : store.getLatestRevision document ≠ .ok revision) :
    store'.getLatestRevision document = match if store.cutsClimb revision document then none
        else ((climb store.revision? store.upRevision (store.revisions.length + 1)
          document.currentRevisionId).find? store.isActive) with
      | some latest => .ok latest
      | none => store'.newestActiveRevision document.id := by
  obtain ⟨l, hl⟩ := hacyc.exists_ancestry document.currentRevisionId
  obtain ⟨rank, hrank⟩ := hacyc
  have hself : store.upRevision revision ≠ some revision.id := fun hup =>
    absurd (hrank revision hrev _ hup) (lt_irrefl _)
  have hclimb := hl.climb_eq (Nat.lt_succ_of_le hl.length_le)
  have hfirst : l.find? store.isActive ≠ some revision := by
    intro hfound
    rw [hl.getLatestRevision_eq, hfound] at hlat
    exact hlat rfl
  have hpast : store.pastRevision revision document.currentRevisionId =
      document.currentRevisionId := if_neg hcur
  have hafter := h.firstActive_eq hself hrev hl hfirst (hl.filter_length_lt h.revisions)
  rw [hpast] at hafter
  rw [getLatestRevision, hafter, cutsClimb, climbedRevisions, hclimb]
  split
  · rename_i heq
    cases heq
  · rename_i latest heq
    rw [Except.ok.injEq] at heq
    rw [heq]
  · rename_i heq
    rw [Except.ok.injEq] at heq
    rw [heq]

theorem RevisionDeleted.liveDocument?_eq
    (h : RevisionDeleted (store.beforeRevisionDelete limits revision) revision store')
    {id : NodeId} (hdoc : store.liveDocument? id = some document)
    (hcur : document.currentRevisionId ≠ some revision.id) :
    store'.liveDocument? id = some document := by
  obtain ⟨⟨hmem, hid, htype⟩, hst⟩ := Database.liveDocument?_eq_some.mp hdoc
  refine Database.liveDocument?_eq_some.mpr ⟨⟨?_, hid, htype⟩, hst⟩
  rw [h.nodes, mem_map]
  refine ⟨document, hmem, ?_⟩
  simp [clearCurrentWhere, hcur]

theorem Ancestry.find?_of_up {start : Option String} {l : List DocumentRevision}
    (hl : store.Ancestry start l) (hrev : store.revision? revision.id = some revision)
    (hact : store.isActive revision = true) {climbed : DocumentRevision}
    (hclimbed : climbed ∈ l.takeWhile fun other => !store.isActive other)
    (hup : store.upRevision climbed = some revision.id) : l.find? store.isActive = some revision := by
  induction hl with
  | top | missing _ => simp at hclimbed
  | @step id first rest _ hrest ih =>
    cases hfirst : store.isActive first with
    | true => simp [hfirst] at hclimbed
    | false =>
      rw [takeWhile_cons_of_pos (by simp [hfirst]), mem_cons] at hclimbed
      rw [find?_cons, hfirst]
      rcases hclimbed with rfl | hclimbed
      · rw [hup] at hrest
        cases hrest with
        | missing hnone => rw [hrev] at hnone; cases hnone
        | step hfound _ =>
          rw [hrev] at hfound
          cases hfound
          simp [hact]
      · exact ih hclimbed

theorem isActive_of_cutsClimb (hacyc : store.Acyclic)
    (hrev : store.revision? revision.id = some revision)
    (hlat : store.getLatestRevision document ≠ .ok revision)
    (hcuts : store.cutsClimb revision document = true) : store.isActive revision = false := by
  obtain ⟨l, hl⟩ := hacyc.exists_ancestry document.currentRevisionId
  rw [cutsClimb, climbedRevisions, hl.climb_eq (Nat.lt_succ_of_le hl.length_le),
    any_eq_true] at hcuts
  obtain ⟨climbed, hclimbed, hskip⟩ := hcuts
  rw [Bool.eq_false_iff]
  intro hact
  have hfound := hl.find?_of_up hrev hact hclimbed (skippedChildren_up hskip)
  rw [hl.getLatestRevision_eq, hfound] at hlat
  exact hlat rfl

theorem RevisionGone.newestActiveRevision_eq_ok (h : RevisionGone store revision store')
    (hrev : revision ∈ store.revisions) (hinact : store.isActive revision = false)
    {documentId : NodeId} {latest : DocumentRevision}
    (hlat : store'.newestActiveRevision documentId = .ok latest) :
    store.newestActiveRevision documentId = .ok latest := by
  have hrows : (store'.revisionsOf documentId).filter store'.isActive =
      (store.revisionsOf documentId).filter store.isActive := by
    rw [revisionsOf, revisionsOf, h.revisions, filter_filter, filter_filter, filter_filter]
    refine filter_congr fun other hother => ?_
    by_cases hid : other.id = revision.id
    · rw [inj_on_of_nodup_map store.revisionIds_nodup hother hrev hid, hinact]
      simp
    · have hleft : other ∈ store'.revisions := by
        rw [h.revisions]
        exact mem_filter.mpr ⟨hother, by simpa using hid⟩
      rw [h.active other hleft]
      simp [hid]
  rw [newestActiveRevision] at hlat ⊢
  split at hlat
  · cases hlat
  rw [hrows, h.createdTime] at hlat
  split at hlat
  · cases hlat
  rename_i found hfound
  have hmem := List.mem_of_mem_filter (largest_mem hfound)
  rw [if_neg (by rw [List.isEmpty_iff]; exact List.ne_nil_of_mem hmem)]
  exact hlat

/-- A deletion that the checks let pass keeps the effective revision exactly when it is another one
and, if the climb is cut below it, is the newest active revision. -/
theorem delete_revision_keeps_effective_iff (limits : QueryLimits) (store : FileStore)
    (hacyc : store.Acyclic) (actor : Actor) (revision : DocumentRevision) (document : Node)
    (hrev : store.revision? revision.id = some revision)
    (hdoc : store.document? revision.documentId = some document) :
    KeepsEffective limits store actor revision document ↔
      (store.mayDeleteRevision actor revision document = true →
        store.getLatestRevision document ≠ .ok revision ∧
          (store.cutsClimb revision document = true →
            store.getLatestRevision document = store.newestActiveRevision document.id)) := by
  have hmem := (revision?_eq_some.mp hrev).1
  have hself : store.upRevision revision ≠ some revision.id := by
    obtain ⟨rank, hrank⟩ := hacyc
    exact fun hup => absurd (hrank revision hmem _ hup) (lt_irrefl _)
  obtain ⟨left, hleft, hdel⟩ := commitRevisionDeletion_ok limits hmem
  have hgone := hdel.gone hmem hself
  -- what the checks say about the document
  have hcheck : store.mayDeleteRevision actor revision document = true →
      document.currentRevisionId ≠ some revision.id ∧
        left.liveDocument? document.id = some document := by
    intro hmay
    simp only [mayDeleteRevision, Bool.and_eq_true, bne_iff_ne] at hmay
    have hid := (Database.document?_eq_some.mp hdoc).2.1
    refine ⟨hmay.1.1.1.2, hdel.liveDocument?_eq ?_ hmay.1.1.1.2⟩
    rw [hid]
    exact Option.filter_eq_some_iff.mpr ⟨hdoc, hmay.1.1.1.1⟩
  have hcomm : ∀ store' tasks,
      store.requestDeleteRevision limits actor revision.id = .committed store' tasks ↔
        store.mayDeleteRevision actor revision document = true ∧ left = store' ∧
          store.activeTasksOf (store.findUnreachableRevisionFileIds limits [revision.id]) = tasks := by
    intro store' tasks
    rw [requestDeleteRevision_of_found hrev hdoc, hleft, RevisionOutcome.committed.injEq]
  constructor
  · intro hkeeps hmay
    obtain ⟨hcur, hlive⟩ := hcheck hmay
    obtain ⟨hlat, hsame⟩ := hkeeps left _ ((hcomm left _).mpr ⟨hmay, rfl, rfl⟩)
    refine ⟨hlat, fun hcuts => ?_⟩
    obtain ⟨l, hl⟩ := hacyc.exists_ancestry document.currentRevisionId
    cases hres : store.getLatestRevision document with
    | error e =>
      rw [hl.getLatestRevision_eq] at hres
      split at hres
      · cases hres
      · exact hres.symm
    | ok latest =>
      obtain ⟨document', hlive', hafter⟩ := hsame latest hres
      rw [hlive] at hlive'
      cases hlive'
      rw [hgone.getLatestRevision_eq hacyc hmem hcur hlat, hcuts] at hafter
      exact (hgone.newestActiveRevision_eq_ok hmem
        (isActive_of_cutsClimb hacyc hrev hlat hcuts) hafter).symm
  · intro hcond store' tasks hstep
    obtain ⟨hmay, rfl, -⟩ := (hcomm store' tasks).mp hstep
    obtain ⟨hcur, hlive⟩ := hcheck hmay
    obtain ⟨hlat, hcut⟩ := hcond hmay
    refine ⟨hlat, fun latest hres => ⟨document, hlive, ?_⟩⟩
    have hother : latest ≠ revision := by
      rintro rfl
      exact hlat hres
    -- the newest active revision stays when it is the effective one
    have hnew : store.newestActiveRevision document.id = .ok latest →
        left.newestActiveRevision document.id = .ok latest := by
      intro hnew
      have hid : latest.id ≠ revision.id := fun hid => hother
        (inj_on_of_nodup_map store.revisionIds_nodup (newestActiveRevision_mem hnew) hmem hid)
      exact newestActiveRevision_eq hgone.revisions hgone.active hgone.createdTime hnew
        (by simpa using hid)
    rw [hgone.getLatestRevision_eq hacyc hmem hcur hlat]
    obtain ⟨l, hl⟩ := hacyc.exists_ancestry document.currentRevisionId
    rw [hl.climb_eq (Nat.lt_succ_of_le hl.length_le)]
    by_cases hcuts : store.cutsClimb revision document = true
    · rw [if_pos hcuts]
      exact hnew ((hcut hcuts).symm.trans hres)
    · rw [if_neg hcuts]
      rw [hl.getLatestRevision_eq] at hres
      cases hfound : l.find? store.isActive with
      | some found =>
        rw [hfound] at hres
        exact hres
      | none =>
        rw [hfound] at hres
        exact hnew hres

end

/-! ### A report with its revisions -/

def owner : Actor := ⟨⟨"owner", ["delete_revision"], []⟩, 10, true⟩

def report (currentRevisionId : String) : Node :=
  { id := "report", type := .document, name := "report", parentId := some "/",
    currentRevisionId := some currentRevisionId }

def oldRevision : DocumentRevision := ⟨"old", "report", "oldFile"⟩

def reportStore (uploaded : Bool) : FileStore where
  nodes := [{ id := "/", type := .directory, name := "/", parentId := none }, report "new"]
  nodeIds_nodup := by decide
  nodeIds_ne_empty := by decide
  revisions := [oldRevision, ⟨"new", "report", "newFile"⟩]
  files := [⟨"oldFile", true⟩, ⟨"newFile", uploaded⟩]
  revisionIds_nodup := by decide
  fileIds_nodup := by simp
  revisionFileIds_ne_empty := by decide
  revisionCreatedTime := fun id => if id = "old" then 1 else 2
  parentRevisionId := fun id => if id = "new" then some "old" else none
  tableNames_nodup := by decide

theorem reportStore_acyclic (uploaded : Bool) : (reportStore uploaded).Acyclic := by
  refine ⟨fun id => if id = "new" then 1 else 0, fun revision hrev parent hpar => ?_⟩
  simp only [reportStore, mem_cons, not_mem_nil, or_false] at hrev hpar
  rcases hrev with rfl | rfl
  · cases hpar
  simp only [if_true, Option.some.injEq] at hpar
  subst hpar
  decide

/-- After the upload the old revision can go. -/
theorem uploaded_keepsEffective :
    KeepsEffective queryLimits (reportStore true) owner oldRevision (report "new") :=
  (delete_revision_keeps_effective_iff queryLimits (reportStore true) (reportStore_acyclic true) owner
    oldRevision (report "new") (by decide) (by decide)).mpr fun _ =>
      ⟨by decide, fun hcuts => absurd hcuts (by decide)⟩

/-- While the upload is pending the old revision is in effect, and the request deletes it. -/
theorem pending_deletes_effective :
    (reportStore false).getLatestRevision (report "new") = .ok oldRevision ∧
      ¬ KeepsEffective queryLimits (reportStore false) owner oldRevision (report "new") := by
  have hlat : (reportStore false).getLatestRevision (report "new") = .ok oldRevision := by decide
  refine ⟨hlat, fun hkeeps => ?_⟩
  obtain ⟨left, hleft, -⟩ := commitRevisionDeletion_ok queryLimits
    (show oldRevision ∈ (reportStore false).revisions by decide)
  have hfound : (reportStore false).revision? "old" = some oldRevision := by decide
  have hreport : (reportStore false).document? oldRevision.documentId = some (report "new") := by
    decide
  have hmay : (reportStore false).mayDeleteRevision owner oldRevision (report "new") = true := by
    decide
  have hcomm := (requestDeleteRevision_of_found hfound hreport).mpr ⟨hmay, hleft⟩
  exact (hkeeps left _ hcomm).1 hlat

end FileStore

end Cfms.Documents
