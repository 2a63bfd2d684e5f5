import Cfms.Documents.PendingQuota

/-!
# The delay of a full quota

Where the pending documents of an account have reached the quota, `_pending_limit_decision` announces
the time until the nearest deadline of its live uploads, rounded up to whole seconds.  The count leaves
out the documents that have an active revision and takes uploads without an end; the query for the
deadline does neither.  So the nearest deadline may belong to a document that is not counted, or there
may be none.
-/

namespace Cfms.Documents

open Access (Instant)
open Files Files.LiveUploads
open Lib Lib.Run

/-- A denial with the scope `pending_documents`. -/
def pendingDenial (limit : ℕ) (retryAfterSeconds : ℤ) : CreationLimitDecision :=
  { allowed := false, scope := some "pending_documents", limit := some limit
    retryAfterSeconds := some retryAfterSeconds }

/-- A pending document whose uploads end no later than the time until the end of any live upload of
the account, rounded up to whole seconds, is over. -/
def endsFirst (rows : DocumentRows) (creatorId : String) (now : Instant) : Prop :=
  ∃ docId ∈ pendingDocuments rows creatorId now,
    ∀ row ∈ rows.uploads.liveUploadRows docId, row.2.task.isDue now = false →
      ∃ endTime, row.2.task.endTime = some endTime ∧
        ∀ other ∈ liveDeadlines rows creatorId now, endTime ≤ now + ⌈other - now⌉

section

variable {policies : RiskPolicies} {limit pendingCount : ℕ}
  {deadline : Option Instant} {request : CreationRequest} {db : RiskDb} {rows : DocumentRows}
  {creatorId docId : String} {now t : Instant} {r : ℤ}

theorem retryAfterSeconds_of_pendingDenial
    (h : (checkDocumentCreationLimits policies limit pendingCount deadline request now db).1 =
      pendingDenial limit r) : r = max 1 ⌈deadline.getD (now + 1) - now⌉ := by
  have hpend : ∀ decision : CreationLimitDecision, decision.allowed = true →
      (pendingLimitDecision deadline now pendingCount limit).getD decision = pendingDenial limit r →
        r = max 1 ⌈deadline.getD (now + 1) - now⌉ := by
    intro decision hallow hdec
    unfold pendingLimitDecision at hdec
    split at hdec
    · rw [Option.getD_none] at hdec
      rw [hdec] at hallow
      cases hallow
    · have hretry := congrArg CreationLimitDecision.retryAfterSeconds hdec
      exact (Option.some.inj hretry).symm
  unfold checkDocumentCreationLimits at h
  cases hbypass : request.bypassRateLimit with
  | true =>
    simp only [hbypass] at h
    exact hpend _ rfl h
  | false =>
    simp only [hbypass] at h
    -- a bucket's denial has a risk level, which a denial of the quota has not
    cases hden : (consumeCreation policies limit pendingCount request now db).2.1 with
    | nil =>
      simp only [hden] at h
      exact hpend _ rfl h
    | cons first rest =>
      cases hmode : policies.creation.mode with
      | observe =>
        simp only [hden, hmode] at h
        exact hpend _ rfl h
      | enforce =>
        simp only [hden, hmode] at h
        have hlevel := congrArg CreationLimitDecision.riskLevel h
        cases hlevel

theorem pendingDocuments_later (hle : now ≤ t) : pendingDocuments rows creatorId t =
      (pendingDocuments rows creatorId now).filter fun docId =>
        isPending rows.uploads docId t := by
  rw [pendingDocuments, pendingDocuments, List.filter_filter]
  apply List.filter_congr
  intro docId hmem
  cases hpend : isPending rows.uploads docId t with
  | false => simp
  | true =>
    have hnow : isPending rows.uploads docId now = true :=
      (Withdraws.advance hle rows.uploads).isPending hmem hpend
    simp [hnow]

theorem countPendingDocuments_lt_iff (hle : now ≤ t) :
    countPendingDocuments rows creatorId t < countPendingDocuments rows creatorId now ↔
      ∃ docId ∈ pendingDocuments rows creatorId now, isPending rows.uploads docId t = false := by
  rw [countPendingDocuments, countPendingDocuments, pendingDocuments_later hle,
    List.length_filter_lt_length_iff_exists]
  simp only [Bool.not_eq_true]

theorem isPending_eq_false_iff (h : docId ∈ pendingDocuments rows creatorId now) :
    isPending rows.uploads docId t = false ↔
      ∀ row ∈ rows.uploads.liveUploadRows docId, row.2.task.isDue t = true := by
  obtain ⟨-, -, hpend⟩ := mem_pendingDocuments.mp h
  rw [isPending, Bool.and_eq_true] at hpend
  simp [isPending, hpend.1, hasLiveUpload]

theorem mem_liveDeadlines (h : docId ∈ pendingDocuments rows creatorId now)
    {row : (_ : String) × LiveUploads.FileTaskRow} (hrow : row ∈ rows.uploads.liveUploadRows docId)
    {endTime : Instant} (hend : row.2.task.endTime = some endTime) (hlater : now < endTime) :
    endTime ∈ liveDeadlines rows creatorId now := by
  obtain ⟨hdoc, hcreat, -⟩ := mem_pendingDocuments.mp h
  obtain ⟨hmem, hlive⟩ := List.mem_filter.mp hrow
  simp only [Bool.and_eq_true] at hlive
  obtain ⟨⟨hmode, hact⟩, hrev⟩ := hlive
  obtain ⟨revId, hlook⟩ := hasRevision_iff.mp hrev
  refine List.mem_filterMap.mpr ⟨row, hmem, ?_⟩
  have hof : (rows.uploads.revisions.any fun _ rev =>
      rev.fileId == row.2.fileId && rows.uploads.documents.contains rev.documentId &&
        rows.creators.lookup rev.documentId == some creatorId) = true :=
    Table.any_iff.mpr ⟨revId, _, hlook, by simp [hdoc, hcreat]⟩
  simp only [hmode, hact, hof, Bool.and_self, if_true, hend]
  exact Option.filter_eq_some_iff.mpr ⟨rfl, decide_eq_true hlater⟩

/-- The deadlines are later than the time of the query. -/
theorem lt_of_mem_liveDeadlines {other : Instant} (h : other ∈ liveDeadlines rows creatorId now) :
    now < other := by
  obtain ⟨row, -, hrow⟩ := List.mem_filterMap.mp h
  dsimp only at hrow
  split at hrow
  · exact of_decide_eq_true (Option.filter_eq_some_iff.mp hrow).2
  · cases hrow

/-- The announced delay is the shortest one that the live uploads would have. -/
theorem le_delay_iff {endTime other : Instant} (hmem : other ∈ liveDeadlines rows creatorId now) :
    endTime ≤ now + (max 1 ⌈(nearestDeadline rows creatorId now).getD (now + 1) - now⌉ : ℤ) ↔
      ∀ other ∈ liveDeadlines rows creatorId now, endTime ≤ now + ⌈other - now⌉ := by
  cases hnearest : nearestDeadline rows creatorId now with
  | none =>
    rw [nearestDeadline, List.min?_eq_none_iff] at hnearest
    rw [hnearest] at hmem
    cases hmem
  | some nearest =>
    obtain ⟨hnearest, hleast⟩ := List.min?_eq_some_iff.mp hnearest
    have hone : 1 ≤ ⌈nearest - now⌉ :=
      Int.one_le_ceil_iff.mpr (sub_pos.mpr (lt_of_mem_liveDeadlines hnearest))
    rw [Option.getD_some, max_eq_right hone]
    constructor
    · intro hle other hother
      have hceil : ⌈nearest - now⌉ ≤ ⌈other - now⌉ :=
        Int.ceil_mono (sub_le_sub_right (hleast other hother) now)
      exact hle.trans (add_le_add_right (Int.cast_le.mpr hceil) now)
    · exact fun h => h nearest hnearest

/-- **The announced delay frees a slot exactly where an upload that counts ends first.** -/
theorem pending_delay_frees_iff (hcount : countPendingDocuments rows request.userId now = limit)
    (hden : (checkDocumentCreationLimits policies limit
      (countPendingDocuments rows request.userId now) (nearestDeadline rows request.userId now)
      request now db).1 = pendingDenial limit r) :
    (∀ t ≥ now + r, countPendingDocuments rows request.userId t < limit) ↔
      endsFirst rows request.userId now := by
  have hr := retryAfterSeconds_of_pendingDenial hden
  have hlaterNow : now ≤ now + r := by
    have hone : 1 ≤ r := hr ▸ le_max_left 1 _
    exact le_add_of_nonneg_right (Int.cast_nonneg (zero_le_one.trans hone))
  have hdue : ∀ docId ∈ pendingDocuments rows request.userId now,
      (∀ row ∈ rows.uploads.liveUploadRows docId, row.2.task.isDue (now + r) = true) ↔
        ∀ row ∈ rows.uploads.liveUploadRows docId, row.2.task.isDue now = false →
          ∃ endTime, row.2.task.endTime = some endTime ∧
            ∀ other ∈ liveDeadlines rows request.userId now, endTime ≤ now + ⌈other - now⌉ := by
    intro docId hmem
    refine forall₂_congr fun row hrow => ?_
    unfold FileTask.isDue
    cases hend : row.2.task.endTime with
    | none => simp
    | some endTime =>
      simp only [Option.any_some, decide_eq_true_eq, decide_eq_false_iff_not, not_le,
        Option.some.injEq, exists_eq_left']
      constructor
      · intro hle hlater
        exact (le_delay_iff (mem_liveDeadlines hmem hrow hend hlater)).mp (hr ▸ hle)
      · intro h
        by_cases hlater : now < endTime
        · exact hr ▸ (le_delay_iff (mem_liveDeadlines hmem hrow hend hlater)).mpr (h hlater)
        · exact (not_lt.mp hlater).trans hlaterNow
  have hfree : (∀ t ≥ now + r, countPendingDocuments rows request.userId t < limit) ↔
      countPendingDocuments rows request.userId (now + r) < limit := by
    constructor
    · exact fun h => h (now + r) le_rfl
    intro h t ht
    rw [countPendingDocuments, pendingDocuments_later ht]
    exact (List.length_filter_le _ _).trans_lt h
  rw [hfree, ← hcount, countPendingDocuments_lt_iff hlaterNow]
  refine exists_congr fun docId => and_congr_right fun hmem => ?_
  rw [isPending_eq_false_iff hmem, hdue docId hmem]

end

/-! ### A new revision of a finished document -/

/-- The first document is uploaded, a second revision of it is on its way until 80, and a second
document until 3630. -/
def reviseThenCreate : List QuotaAction :=
  createAlone 1 "report" ⟨"file-1", "revision-1", "task-1"⟩ 10 ++
    [.upload (.claim "task-1" .upload ⟨3600, 86400⟩ 11), .upload (.finalize "task-1" none 7),
      .upload (.receive 3 "report" (some (some "revision-1"))), .upload (.cleanup 3 true 20),
      .upload (.query 3 true 20),
      .upload (.insert 3 ⟨60, 86400⟩ ⟨"file-3", "revision-3", "task-3"⟩ 20)] ++
    createAlone 2 "notes" ⟨"file-2", "revision-2", "task-2"⟩ 30

def revised : QuotaState := (run (quotaStep onePending) {} reviseThenCreate).getD {}

theorem revised_run : run (quotaStep onePending) {} reviseThenCreate = some revised :=
  run_eq_some_getD ({} : QuotaState) (by decide +kernel)

theorem revised_denied : (checkDocumentCreationLimits {} 1
    (countPendingDocuments revised.rows "alice" 40) (nearestDeadline revised.rows "alice" 40)
      ⟨"alice", "10.0.0.1", true, none⟩ 40 {}).1 = pendingDenial 1 40 := by
  have hcount : countPendingDocuments revised.rows "alice" 40 = 1 := by decide +kernel
  have hdl : nearestDeadline revised.rows "alice" 40 = some 80 := by decide +kernel
  with_unfolding_all rfl

/-- The delay ends with the upload of the revision, when the second document is still pending. -/
theorem pending_delay_frees_nothing :
    ¬ ∀ policy actions s, run (quotaStep policy) {} actions = some s →
      ∀ (request : CreationRequest) db now (r : ℤ), s.clock ≤ now →
        countPendingDocuments s.rows request.userId now = policy.maxPendingDocumentsPerCreator →
        (checkDocumentCreationLimits policy.risk policy.maxPendingDocumentsPerCreator
            (countPendingDocuments s.rows request.userId now)
            (nearestDeadline s.rows request.userId now) request now db).1 =
          pendingDenial policy.maxPendingDocumentsPerCreator r →
        ∀ t ≥ now + r, countPendingDocuments s.rows request.userId t <
          policy.maxPendingDocumentsPerCreator := by
  intro h
  have hcount : countPendingDocuments revised.rows "alice" 40 = 1 := by decide +kernel
  have hclock : revised.clock ≤ 40 := by decide +kernel
  have hfreed := h onePending reviseThenCreate revised revised_run ⟨"alice", "10.0.0.1", true, none⟩
    {} 40 40
    hclock hcount revised_denied 80 (by decide +kernel)
  have hstill : countPendingDocuments revised.rows "alice" 80 = 1 := by decide +kernel
  exact absurd hstill hfreed.ne

/-- The condition fails there. -/
theorem revised_not_endsFirst : ¬ endsFirst revised.rows "alice" 40 := by
  have hcount : countPendingDocuments revised.rows "alice" 40 = 1 := by decide +kernel
  have hiff := @pending_delay_frees_iff {} 1 ⟨"alice", "10.0.0.1", true, none⟩
    {} revised.rows 40 40 hcount
    revised_denied
  intro hends
  have hstill : countPendingDocuments revised.rows "alice" 80 = 1 := by decide +kernel
  exact absurd hstill (hiff.mpr hends 80 (by decide +kernel)).ne

end Cfms.Documents
