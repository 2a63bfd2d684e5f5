import Cfms.Files.Transfer

/-!
# Uploads against the local storage provider

The world of one upload task: its rows, the object at the path of its file, and the open
`LocalResumableUpload`.  `respondLocal` answers the calls of `receive_file` in it.

Between two calls the task may expire or be cancelled.  A call that raises may still have had an
effect: a transaction is rolled back, a removal may have happened, and opening, writing or flushing
may leave any bytes at the path.
-/

namespace Cfms.Files

open Access (Instant)
open Lib.Process

structure World where
  rows : Rows
  /-- What is stored at the path. -/
  object : Option Bytes := none
  uploadOpen : Bool := false
  received : Bytes := []
  /-- The finalization of this attempt has committed. -/
  committed : Bool := false
  deriving DecidableEq

inductive Interrupt
  | expire (now : Instant)
  | cancel
  deriving DecidableEq

/-- How a call is answered, as far as the world does not decide it. -/
structure Answer where
  interrupt : Option Interrupt := none
  moment : Moment
  raises : Option Failure := none
  /-- After a call that raises: what it left at the path, or that a removal happened. -/
  left : Option Bytes := none
  /-- The frame that arrives. -/
  frame : Option Bytes := none
  /-- The last status check is old, or the task was signalled. -/
  due : Bool := false
  /-- The idle deadline has passed. -/
  passed : Bool := false

def Interrupt.apply (interrupt : Interrupt) (task : FileTask) : FileTask :=
  match interrupt with
  | .expire now => expireFileTaskIfDue task now
  | .cancel => cancelFileTask task

def World.interrupted (w : World) : Option Interrupt → World
  | none => w
  | some interrupt => { w with rows := { w.rows with task := interrupt.apply w.rows.task } }

/-- The exceptions a call can raise.  `FileTaskEnded` is raised by the transfer itself, a wait that
times out is tried again, the clock does not fail, and a closed upload closes at once. -/
def canRaise (w : World) : Op → Failure → Bool
  | _, .fileTaskEnded _ => false
  | .recv, .timeoutError => false
  | .checkDue, _ | .deadlinePassed, _ => false
  | .finish, _ | .close, _ => w.uploadOpen
  | _, _ => true

/-- The world after a call that raises. -/
def disturbed (w : World) (left : Option Bytes) : Op → World
  | .openUpload _ _ _ | .write _ | .finish | .close =>
    match left with
    | some bytes => { w with object := some bytes }
    | none => w
  | .remove | .abort => if left.isSome then { w with object := none } else w
  | _ => w

/-- The result of the finalization that completes the upload. -/
def commits : (op : Op) → op.Result → Bool
  | .finalize _ _, some .completed => true
  | _, _ => false

/-- `LocalResumableUpload.offset` after opening: whole chunks, or everything. -/
def resumeOffset (existingSize fileSize chunkSize : ℕ) : ℕ :=
  if existingSize = fileSize then fileSize else existingSize - existingSize % chunkSize

variable (sha256 : Bytes → String)

/-- A call that is not made to raise from outside. -/
def answerLocal (w : World) (a : Answer) :
    (op : Op) → Option (Except Failure op.Result × World)
  | .send _ => some (.ok (), w)
  | .recv => some (.ok a.frame, { w with received := w.received ++ a.frame.getD [] })
  | .checkDue => some (.ok a.due, w)
  | .deadlinePassed => some (.ok a.passed, w)
  | .abortResumableUpload _ => some (.ok (), w)
  | .remove => some (.ok (), { w with object := none })
  | .makedirs => some (.ok (), w)
  | .openUpload fileSize chunkSize _ =>
    let existing := w.object.getD []
    if existing.length > fileSize then some (.error .other, w)
    else
      let offset := resumeOffset existing.length fileSize chunkSize
      some (.ok ⟨offset, none, some chunkSize, none⟩,
        { w with object := some (existing.take offset), uploadOpen := true })
  | .write data => some (.ok (), { w with object := w.object.map (· ++ data) })
  | .finish => some (.ok (), { w with uploadOpen := false })
  | .close => some (.ok (), { w with uploadOpen := false })
  | .abort => some (.ok (), { w with object := none, uploadOpen := false })
  | .getsize =>
    match w.object with
    | some bytes => some (.ok bytes.length, w)
    | none => some (.error .other, w)
  | .storageSha256 =>
    match w.object with
    | some bytes => some (.ok (sha256 bytes), w)
    | none => some (.error .other, w)
  | .uploadCompletedHook => some (.ok (), w)
  | op =>
    (transact a.moment w.rows op).map fun outcome =>
      (.ok outcome.1, { w with rows := outcome.2, committed := w.committed || commits op outcome.1 })

/-- The answer to a call of an upload, and the world it leaves. -/
def respondLocal (w : World) (op : Op) (a : Answer) : Option (Except Failure op.Result × World) :=
  match a.raises with
  | some failure =>
    if canRaise w op failure then
      some (.error failure, disturbed (w.interrupted a.interrupt) a.left op)
    else none
  | none => answerLocal sha256 (w.interrupted a.interrupt) a op

section

variable {w : World} {interrupt : Option Interrupt}

@[simp] theorem interrupted_object : (w.interrupted interrupt).object = w.object := by
  cases interrupt <;> rfl

@[simp] theorem interrupted_uploadOpen : (w.interrupted interrupt).uploadOpen = w.uploadOpen := by
  cases interrupt <;> rfl

@[simp] theorem interrupted_received : (w.interrupted interrupt).received = w.received := by
  cases interrupt <;> rfl

@[simp] theorem interrupted_committed : (w.interrupted interrupt).committed = w.committed := by
  cases interrupt <;> rfl

theorem interrupted_task (w : World) (interrupt : Option Interrupt) :
    ∃ status, (w.interrupted interrupt).rows.task = { w.rows.task with status := status } := by
  cases interrupt with
  | none => exact ⟨w.rows.task.status, rfl⟩
  | some interrupt =>
    cases interrupt with
    | expire now =>
      show ∃ status, expireFileTaskIfDue w.rows.task now = _
      unfold expireFileTaskIfDue
      split
      · exact ⟨.expired, rfl⟩
      · exact ⟨w.rows.task.status, rfl⟩
    | cancel =>
      show ∃ status, cancelFileTask w.rows.task = _
      unfold cancelFileTask
      split
      · exact ⟨.cancelled, rfl⟩
      · exact ⟨w.rows.task.status, rfl⟩

end

/-- The calls that are transactions. -/
def Op.isTransaction : Op → Bool
  | .updateFileSize _ => true
  | op => op.isTaskTransaction

variable {sha256 : Bytes → String} {w w' : World} {a : Answer} {op : Op}

variable {r : Except Failure op.Result}

theorem answerLocal_transaction (hop : op.isTransaction = true)
    (h : answerLocal sha256 w a op = some (r, w')) :
    ∃ v rows, transact a.moment w.rows op = some (v, rows) ∧ r = .ok v ∧
      w' = { w with rows := rows, committed := w.committed || commits op v } := by
  have hmap : (transact a.moment w.rows op).map (fun outcome => (Except.ok outcome.1,
      { w with rows := outcome.2, committed := w.committed || commits op outcome.1 })) =
        some (r, w') := by
    cases op <;> first | exact h | cases hop
  obtain ⟨⟨v, rows⟩, htransact, houtc⟩ := Option.map_eq_some_iff.mp hmap
  cases houtc
  exact ⟨v, rows, htransact, rfl, rfl⟩

theorem answerLocal_error
    {err : Failure} (h : answerLocal sha256 w a op = some (.error err, w')) : w' = w := by
  cases htrans : op.isTransaction with
  | true =>
    obtain ⟨v, rows, -, hr, -⟩ := answerLocal_transaction htrans h
    cases hr
  | false =>
    cases op
    case openUpload fileSize chunkSize prior | getsize | storageSha256 =>
      dsimp only [answerLocal] at h
      split at h <;> cases h
      rfl
    all_goals
      first
      | (cases htrans; done)
      | cases h

theorem respondLocal_cases (h : respondLocal sha256 w op a = some (r, w')) :
    (∃ err, canRaise w op err = true ∧ r = .error err ∧
        w' = disturbed (w.interrupted a.interrupt) a.left op) ∨
      answerLocal sha256 (w.interrupted a.interrupt) a op = some (r, w') := by
  unfold respondLocal at h
  split at h
  · rename_i err _
    split at h
    · rename_i hraise
      cases h
      exact Or.inl ⟨err, hraise, rfl, rfl⟩
    · cases h
  · exact Or.inr h

/-- The finalization has committed after the answer. -/
def committedAfter (committed : Bool) (op : Op) : Except Failure op.Result → Bool
  | .ok result => committed || commits op result
  | .error _ => committed

section

variable {sha256 : Bytes → String} {w w' : World} {op : Op} {a : Answer}
  {r : Except Failure op.Result}

theorem commits_of_not_transaction (hop : op.isTransaction = false) (v : op.Result) :
    commits op v = false := by
  cases op <;> first | rfl | cases hop

theorem answerLocal_not_transaction (hop : op.isTransaction = false)
    (h : answerLocal sha256 w a op = some (r, w')) :
    w'.rows = w.rows ∧ w'.committed = w.committed := by
  cases op
  case openUpload fileSize chunkSize prior | getsize | storageSha256 =>
    dsimp only [answerLocal] at h
    split at h <;> cases h <;> exact ⟨rfl, rfl⟩
  all_goals
    first
    | (cases hop; done)
    | (cases h; done)
    | (cases h; exact ⟨rfl, rfl⟩)

theorem disturbed_rows (left : Option Bytes) (op : Op) : (disturbed w left op).rows = w.rows := by
  unfold disturbed
  split <;> first | rfl | (split <;> rfl)

theorem disturbed_committed (left : Option Bytes) (op : Op) :
    (disturbed w left op).committed = w.committed := by
  unfold disturbed
  split <;> first | rfl | (split <;> rfl)

/-- What a call does to the rows: a transaction on the row as the interrupts left it, or
nothing. -/
theorem respondLocal_rows (h : respondLocal sha256 w op a = some (r, w')) :
    w'.rows = (w.interrupted a.interrupt).rows ∨
      ∃ v, r = .ok v ∧ transact a.moment (w.interrupted a.interrupt).rows op = some (v, w'.rows) := by
  rcases respondLocal_cases h with ⟨err, -, -, rfl⟩ | hans
  · exact Or.inl (disturbed_rows _ _)
  cases htrans : op.isTransaction with
  | true =>
    obtain ⟨v, rows, htransact, rfl, rfl⟩ := answerLocal_transaction htrans hans
    exact Or.inr ⟨v, rfl, htransact⟩
  | false => exact Or.inl (answerLocal_not_transaction htrans hans).1

theorem respondLocal_transaction {v : op.Result} (hop : op.isTransaction = true)
    (h : respondLocal sha256 w op a = some (.ok v, w')) :
    transact a.moment (w.interrupted a.interrupt).rows op = some (v, w'.rows) := by
  rcases respondLocal_cases h with ⟨err, -, hr, -⟩ | hans
  · cases hr
  obtain ⟨v', rows, htransact, hr, rfl⟩ := answerLocal_transaction hop hans
  cases hr
  exact htransact

theorem respondLocal_committed (h : respondLocal sha256 w op a = some (r, w')) :
    w'.committed = committedAfter w.committed op r := by
  rcases respondLocal_cases h with ⟨err, -, rfl, rfl⟩ | hans
  · rw [disturbed_committed, interrupted_committed]
    rfl
  · cases htrans : op.isTransaction with
    | true =>
      obtain ⟨v, rows, -, rfl, rfl⟩ := answerLocal_transaction htrans hans
      show ((w.interrupted a.interrupt).committed || commits op v) = _
      rw [interrupted_committed]
      rfl
    | false =>
      rw [(answerLocal_not_transaction htrans hans).2, interrupted_committed]
      cases r with
      | error err => rfl
      | ok v =>
        show _ = (w.committed || commits op v)
        rw [commits_of_not_transaction htrans v, Bool.or_false]

theorem respondLocal_not_ended {err : Failure}
    (h : respondLocal sha256 w op a = some (.error err, w')) (status : FileTaskStatus) :
    err ≠ .fileTaskEnded status := by
  rintro rfl
  rcases respondLocal_cases h with ⟨err, hraise, hr, -⟩ | hans
  · cases hr
    cases op <;> cases hraise
  · cases htrans : op.isTransaction with
    | true =>
      obtain ⟨v, rows, -, hr, -⟩ := answerLocal_transaction htrans hans
      cases hr
    | false =>
      cases op
      case openUpload fileSize chunkSize prior | getsize | storageSha256 =>
        dsimp only [answerLocal] at hans
        split at hans <;> cases hans
      all_goals
        first
        | (cases htrans; done)
        | cases hans

end

/-! ### A new task and plain answers -/

def newUpload : World where
  rows := ⟨{ mode := .upload, startTime := 0, endTime := none }, {}⟩

/-- Nothing happens but the call. -/
def calm : Answer where
  moment := ⟨⟨0, 0⟩, 0, true⟩

/-- The call raises because the connection is gone. -/
def disconnected : Answer := { calm with raises := some .connectionError }

/-- A frame of `n` bytes arrives. -/
def frameOf (n : ℕ) : Answer := { calm with frame := some (List.replicate n 0) }

end Cfms.Files
