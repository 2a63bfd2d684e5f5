import Cfms.Access.Context
import Cfms.Access.RuleTables
import Cfms.Lib.Run

/-!
# Replacing the access rules of a node

`set_access_rules` compiles the submitted rules, locks the row of the node, adds the new rule set,
lets the node point at it by an update that asks for the old pointer, and deletes the other rule sets
of the node.  `apply_access_rules` does the same and then checks that the acting user still has every
kind of access that the rules speak about.  The caller commits or rolls back; an error on the way
rolls back.

The statements of any number of such transactions are interleaved here, one transaction at a time for
each node.  What a transaction has written is seen by itself alone until it commits: its changes are
a draft, and its queries read the draft on top of what is committed.
-/

namespace Cfms.Access

open Lib Lib.Run

/-! ### Updates of the node's row -/

variable (db : Database)

namespace Database

/-- `target.inherit = inherit_parent`. -/
def setInherit (target : NodeId) (inherit : Bool) : Database :=
  db.mapNodes (fun node => if node.id = target then { node with inherit } else node)
    fun node => by split <;> rfl

/-- The rows that the update of the pointer asks for. -/
def pointerRows (target : NodeId) (targetType : NodeType) (oldRuleSetId : Option String) :
    List Node :=
  db.nodes.filter fun node =>
    node.id == target && node.type == targetType && node.accessRuleSetId == oldRuleSetId

/-- `update_query.update({Node.access_rule_set_id: new_rule_set_id})`, when it has found the row of the
target. -/
def setPointer (target : NodeId) (newRuleSetId : Option String) : Database :=
  db.mapNodes
    (fun node => if node.id = target then { node with accessRuleSetId := newRuleSetId } else node)
    fun node => by split <;> rfl

end Database

/-! ### Calls -/

/-- The arguments of a call; only `apply_access_rules` has an acting user. -/
structure RuleCall where
  target : NodeId
  targetType : NodeType
  accessRules : AccessRules
  inheritParent : Bool
  user : Option User

/-- What a call has written when `set_access_rules` returns. -/
structure RuleDraft where
  newRuleSet : Option KeyedRuleSet
  /-- The rule sets that the clean-up has deleted. -/
  removed : List String

/-- A check of `apply_access_rules` that the user has passed, with the number of calls that had been
committed by then. -/
structure PassedCheck where
  accessType : AccessType
  now : Instant
  version : ℕ
  deriving DecidableEq

/-- Where a call stands that holds the lock of its node. -/
inductive ReplacementPhase
  | locked (oldRuleSetId : Option String)
  | inserted (oldRuleSetId : Option String) (newRuleSet : Option KeyedRuleSet)
  | swung (newRuleSet : Option KeyedRuleSet)
  /-- `set_access_rules` has returned; these checks are done and these are left. -/
  | checking (draft : RuleDraft) (passed : List PassedCheck) (remaining : List AccessType)
  /-- `apply_access_rules` has returned `False`. -/
  | denied (draft : RuleDraft)

structure OpenCall where
  call : RuleCall
  compiledRules : List LoadedRule
  phase : ReplacementPhase

namespace RuleCall

/-- The database as the call sees it once its rule set is flushed. -/
def inserted (call : RuleCall) (newRuleSet : Option KeyedRuleSet) (db : Database) : Database :=
  match newRuleSet with
  | none => db.setInherit call.target call.inheritParent
  | some ruleSet => (db.setInherit call.target call.inheritParent).insertRuleSet ruleSet

def swung (call : RuleCall) (newRuleSet : Option KeyedRuleSet) (db : Database) : Database :=
  (call.inserted newRuleSet db).setPointer call.target (newRuleSet.map KeyedRuleSet.id)

def view (call : RuleCall) (draft : RuleDraft) (db : Database) : Database :=
  (call.swung draft.newRuleSet db).deleteRuleSets fun ruleSet => draft.removed.contains ruleSet.id

/-- `cleanup_query`. -/
def oldRuleSetIds (call : RuleCall) (newRuleSet : Option KeyedRuleSet) (db : Database) :
    List String :=
  ((call.swung newRuleSet db).ruleSets.filter fun ruleSet =>
    ruleSet.nodeId == call.target &&
      newRuleSet.all fun new => ruleSet.id != new.id).map CompiledAccessRuleSet.id

/-- The access types that the loop of `apply_access_rules` goes through. -/
def checkedAccessTypes (call : RuleCall) : List AccessType :=
  if call.user.isSome then listedAccessTypes call.accessRules else []

end RuleCall

/-- The rule set that a call has added so far. -/
def ReplacementPhase.newRuleSet : ReplacementPhase → Option KeyedRuleSet
  | .locked _ => none
  | .inserted _ newRuleSet => newRuleSet
  | .swung newRuleSet => newRuleSet
  | .checking draft _ _ => draft.newRuleSet
  | .denied draft => draft.newRuleSet

def OpenCall.keys (callOpen : OpenCall) : List RowKey := keysOf callOpen.phase.newRuleSet.toList

/-! ### Transactions -/

/-- The committed database, the calls that hold a lock under the nodes they have locked, the
committed calls from the last to the first, and the errors raised. -/
structure RuleServer where
  stored : Database
  calls : Table NodeId OpenCall
  committed : List RuleCall
  raised : List AccessRulesError

def RuleServer.initial (start : Database) : RuleServer := ⟨start, ∅, [], []⟩

/-- The next statement of an open call. -/
inductive CallAction
  | insert (drawn : DrawnIds)
  | swing
  | cleanUp
  | check (now : Instant)
  | commit
  | rollback

inductive RuleEvent
  | start (call : RuleCall)
  | act (target : NodeId) (action : CallAction)

/-- What a statement comes to. -/
inductive CallOutcome
  | proceed (phase : ReplacementPhase)
  | raise (error : AccessRulesError)
  | commit (draft : RuleDraft)
  | rollback
  /-- It is not the turn of this statement. -/
  | impossible

variable (s : RuleServer)

namespace RuleServer

/-- Keys that neither a committed row nor a row of an open call has. -/
def keysFree (keys : List RowKey) : Bool :=
  keys.all fun key =>
    !(s.stored.ruleSets.any (fun row => key == .ruleSet row.id) ||
      s.stored.rules.any (fun row => key == .rule row.id) ||
      s.stored.ruleGroups.any (fun row => key == .group row.id) ||
      s.calls.any fun _ callOpen => callOpen.keys.contains key)

/-- The flush of the new rule set.  The engine numbers the rules in their order. -/
def insertOutcome (callOpen : OpenCall) (oldRuleSetId : Option String) (drawn : DrawnIds) :
    CallOutcome :=
  if callOpen.compiledRules.isEmpty then .proceed (.inserted oldRuleSetId none)
  else
    let newRuleSet := keyRuleSet drawn callOpen.call.target callOpen.compiledRules
    if newRuleSet.keys.Nodup ∧ s.keysFree newRuleSet.keys = true then
      if newRuleSet.Numbered then .proceed (.inserted oldRuleSetId (some newRuleSet)) else .impossible
    else .raise .keyTaken

/-- The update of the pointer. -/
def swingOutcome (call : RuleCall) (oldRuleSetId : Option String) (newRuleSet : Option KeyedRuleSet) :
    CallOutcome :=
  if ((call.inserted newRuleSet s.stored).pointerRows call.target call.targetType
      oldRuleSetId).length ≠ 1 then .raise .changedConcurrently
  else .proceed (.swung newRuleSet)

/-- One pass of the loop of `apply_access_rules`. -/
def checkOutcome (recursive : Bool) (s : RuleServer) (call : RuleCall) (draft : RuleDraft)
    (passed : List PassedCheck) (accessType : AccessType) (remaining : List AccessType)
    (now : Instant) : CallOutcome :=
  match call.user, (call.view draft s.stored).node? call.target with
  | some user, some target =>
    match checkAccessRequirements (call.view draft s.stored) user target accessType recursive now with
    | .error error => .raise (.check error)
    | .ok false => .proceed (.denied draft)
    | .ok true =>
      .proceed (.checking draft (passed ++ [⟨accessType, now, s.committed.length⟩]) remaining)
  | _, _ => .impossible

/-- What the next statement of a call comes to. -/
def outcome (recursive : Bool) (s : RuleServer) (callOpen : OpenCall) : CallAction → CallOutcome
  | .insert drawn =>
    match callOpen.phase with
    | .locked oldRuleSetId => s.insertOutcome callOpen oldRuleSetId drawn
    | _ => .impossible
  | .swing =>
    match callOpen.phase with
    | .inserted oldRuleSetId newRuleSet => s.swingOutcome callOpen.call oldRuleSetId newRuleSet
    | _ => .impossible
  | .cleanUp =>
    match callOpen.phase with
    | .swung newRuleSet =>
      .proceed (.checking ⟨newRuleSet, callOpen.call.oldRuleSetIds newRuleSet s.stored⟩ []
        callOpen.call.checkedAccessTypes)
    | _ => .impossible
  | .check now =>
    match callOpen.phase with
    | .checking draft passed (accessType :: remaining) =>
      s.checkOutcome recursive callOpen.call draft passed accessType remaining now
    | _ => .impossible
  | .commit =>
    match callOpen.phase with
    | .checking draft _ [] => .commit draft
    | .denied draft => .commit draft
    | _ => .impossible
  | .rollback => .rollback

def raise (error : AccessRulesError) : RuleServer :=
  { s with raised := s.raised ++ [error] }

/-- An open call after a statement; a call that ends gives its lock back. -/
def settle (target : NodeId) (callOpen : OpenCall) :
    CallOutcome → Option RuleServer
  | .proceed phase => some { s with calls := s.calls.insert target { callOpen with phase } }
  | .raise error => some ({ s with calls := s.calls.erase target }.raise error)
  | .commit draft =>
    some
      { s with
        stored := callOpen.call.view draft s.stored
        calls := s.calls.erase target
        committed := callOpen.call :: s.committed }
  | .rollback => some { s with calls := s.calls.erase target }
  | .impossible => none

/-- `set_access_rules` up to the lock.  The lock waits for the call that holds it. -/
def start (validator : RuleValidator) (s : RuleServer) (call : RuleCall) : Option RuleServer :=
  match compileRules validator call.accessRules with
  | .error error => some (s.raise error)
  | .ok compiledRules =>
    if (s.calls.lookup call.target).isSome then none
    else
      match s.stored.nodes.find? fun node => node.id == call.target && node.type == call.targetType with
      | none => some (s.raise .targetGone)
      | some node =>
        some
          { s with
            calls := s.calls.insert call.target ⟨call, compiledRules, .locked node.accessRuleSetId⟩ }

def step (validator : RuleValidator) (recursive : Bool) (s : RuleServer) :
    RuleEvent → Option RuleServer
  | .start call => s.start validator call
  | .act target action =>
    (s.calls.lookup target).bind fun callOpen =>
      s.settle target callOpen (s.outcome recursive callOpen action)

end RuleServer

end Cfms.Access
