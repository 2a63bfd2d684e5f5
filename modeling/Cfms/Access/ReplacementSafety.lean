import Cfms.Access.RuleLedger

/-!
# Access rules are replaced exactly

Over any interleaving of the calls, the committed tables hold one rule set for each node whose last
committed call has submitted rules, with exactly these rules, and nothing else.

The invariant is the `Ledger` of the committed state together with what is known of every open call.
The draft of a call is made while the call holds the lock of its node, so that no commit of another
call touches the rule sets it is about (`OpenCall.Sound.afterCommit`).  The checks of
`apply_access_rules` read more than the node, though: the folders above it, which other calls may
hold.  They stay true on what the call sees until a call on one of these folders commits: before and
after any other commit the two views agree on the node and above it (`view_agreeOn`).
-/

namespace Cfms.Access

open Lib Lib.OwnedRows Lib.Run List

/-! ### Open calls -/

/-- The draft of a call when `set_access_rules` has returned. -/
structure DraftSound (sets : List KeyedRuleSet) (call : RuleCall) (draft : RuleDraft) : Prop where
  newSet : NewSetSound sets call draft.newRuleSet
  removed : draft.removed = ownedIds sets call.target

def PassedCheck.HoldsOn (check : PassedCheck) (recursive : Bool) (db : Database) (call : RuleCall) :
    Prop :=
  ∃ user target, call.user = some user ∧ db.node? call.target = some target ∧
    checkAccessRequirements db user target check.accessType recursive check.now = .ok true

/-- No call on a folder above the node has been committed since the check. -/
def PassedCheck.NotOvertaken (check : PassedCheck) (start : Database) (committed : List RuleCall)
    (call : RuleCall) : Prop :=
  ∀ other ∈ committed.take (committed.length - check.version),
    ¬ start.Above other.target call.target

/-- The checks done so far hold on what the call sees, as long as they are not overtaken. -/
structure ChecksSound (start : Database) (recursive : Bool) (stored : Database)
    (committed : List RuleCall) (call : RuleCall) (draft : RuleDraft) (passed : List PassedCheck)
    (remaining : List AccessType) : Prop where
  earlier : ∀ check ∈ passed, check.version ≤ committed.length
  holds : ∀ check ∈ passed, check.NotOvertaken start committed call →
    check.HoldsOn recursive (call.view draft stored) call
  all : passed.map PassedCheck.accessType ++ remaining = call.checkedAccessTypes

def PhaseSound (start : Database) (recursive : Bool) (stored : Database)
    (committed : List RuleCall) (sets : List KeyedRuleSet) (call : RuleCall) :
    ReplacementPhase → Prop
  | .locked oldRuleSetId => oldRuleSetId = (setOf sets call.target).map KeyedRuleSet.id
  | .inserted oldRuleSetId newRuleSet =>
    oldRuleSetId = (setOf sets call.target).map KeyedRuleSet.id ∧ NewSetSound sets call newRuleSet
  | .swung newRuleSet => NewSetSound sets call newRuleSet
  | .checking draft passed remaining =>
    DraftSound sets call draft ∧
      ChecksSound start recursive stored committed call draft passed remaining
  | .denied draft => DraftSound sets call draft

structure OpenCall.Sound (start : Database) (recursive : Bool) (stored : Database)
    (committed : List RuleCall) (sets : List KeyedRuleSet) (callOpen : OpenCall) : Prop where
  compiled : callOpen.compiledRules = submittedRules callOpen.call.accessRules
  node : ∃ node ∈ start.nodes,
    node.id = callOpen.call.target ∧ node.type = callOpen.call.targetType
  phase : PhaseSound start recursive stored committed sets callOpen.call callOpen.phase

/-- **The invariant of the server.** -/
structure Consistent (start : Database) (recursive : Bool) (s : RuleServer)
    (sets : List KeyedRuleSet) : Prop where
  ledger : Ledger start s.stored s.committed sets
  calls : ∀ target callOpen, s.calls.lookup target = some callOpen →
    callOpen.call.target = target ∧ callOpen.Sound start recursive s.stored s.committed sets
  apart : ∀ target other callOpen otherOpen, target ≠ other →
    s.calls.lookup target = some callOpen → s.calls.lookup other = some otherOpen →
      ∀ key ∈ callOpen.keys, key ∉ otherOpen.keys
  raised : AccessRulesError.changedConcurrently ∉ s.raised

/-- What a statement may come to. -/
def OutcomeSound (start : Database) (recursive : Bool) (s : RuleServer) (sets : List KeyedRuleSet)
    (callOpen : OpenCall) (action : CallAction) : CallOutcome → Prop
  | .proceed phase => PhaseSound start recursive s.stored s.committed sets callOpen.call phase ∧
      ∀ key ∈ keysOf phase.newRuleSet.toList, key ∈ callOpen.keys ∨
        ∀ target otherOpen, s.calls.lookup target = some otherOpen → key ∉ otherOpen.keys
  | .raise error => error ≠ .changedConcurrently
  | .commit draft => action = .commit ∧ DraftSound sets callOpen.call draft ∧
      callOpen.phase.newRuleSet = draft.newRuleSet
  | .rollback => True
  | .impossible => True

/-! ### Statements -/

section

variable {start : Database} {recursive : Bool} {s : RuleServer} {sets : List KeyedRuleSet}
  {callOpen : OpenCall}

variable {key : RowKey} {db : Database}

theorem mem_keysOf (h : key ∈ keysOf sets) (hdb : Holds db sets) :
    (∃ row ∈ db.ruleSets, key = .ruleSet row.id) ∨ (∃ row ∈ db.rules, key = .rule row.id) ∨
      ∃ row ∈ db.ruleGroups, key = .group row.id := by
  obtain ⟨ruleSet, hset, hkey⟩ := mem_flatMap.mp h
  rw [KeyedRuleSet.keys, mem_append, mem_cons, mem_map, mem_map] at hkey
  rcases hkey with (rfl | ⟨rule, hrule, rfl⟩) | ⟨group, hgroup, rfl⟩
  · refine .inl ⟨ruleSet.row, ?_, rfl⟩
    rw [hdb.ruleSets]
    exact mem_map_of_mem hset
  · refine .inr (.inl ⟨rule.row ruleSet.id, ?_, rfl⟩)
    rw [hdb.rules]
    exact mem_flatMap.mpr ⟨ruleSet, hset, mem_map_of_mem hrule⟩
  · obtain ⟨rule, hrule, hgroup⟩ := mem_flatMap.mp hgroup
    refine .inr (.inr ⟨group.row rule.id, ?_, rfl⟩)
    rw [hdb.ruleGroups]
    exact mem_flatMap.mpr ⟨ruleSet, hset, mem_flatMap.mpr ⟨rule, hrule, mem_map_of_mem hgroup⟩⟩

theorem keysFree_spec (hdb : Holds s.stored sets) {keys : List RowKey} (h : s.keysFree keys = true)
    (hkey : key ∈ keys) :
    key ∉ keysOf sets ∧ ∀ target callOpen, s.calls.lookup target = some callOpen →
      key ∉ callOpen.keys := by
  have hfree := all_eq_true.mp h key hkey
  rw [Bool.not_eq_true', Bool.or_eq_false_iff, Bool.or_eq_false_iff, Bool.or_eq_false_iff,
    any_eq_false, any_eq_false, any_eq_false] at hfree
  obtain ⟨⟨⟨hruleSets, hrules⟩, hgrps⟩, hcalls⟩ := hfree
  constructor
  · intro hmem
    rcases mem_keysOf hmem hdb with ⟨row, hrow, hsame⟩ | ⟨row, hrow, hsame⟩ | ⟨row, hrow, hsame⟩
    · exact hruleSets row hrow (beq_iff_eq.mpr hsame)
    · exact hrules row hrow (beq_iff_eq.mpr hsame)
    · exact hgrps row hrow (beq_iff_eq.mpr hsame)
  · intro target callOpen hlook hmem
    have hany : s.calls.any (fun _ callOpen => callOpen.keys.contains key) = true :=
      Table.any_iff.mpr ⟨target, callOpen, hlook, contains_iff_mem.mpr hmem⟩
    rw [hcalls] at hany
    cases hany

variable {call : RuleCall}

theorem newSetSound_none (h : submittedRules call.accessRules = []) :
    NewSetSound sets call none where
  target := fun _ hnone => nomatch hnone
  sound := fun _ hnone => nomatch hnone
  loaded := h.symm
  keys := nodup_nil
  fresh := fun _ hkey => nomatch hkey

theorem keysOf_some (ruleSet : KeyedRuleSet) : keysOf (some ruleSet).toList = ruleSet.keys :=
  flatMap_singleton _ _

theorem newSetSound_keyRuleSet {drawn : DrawnIds} {compiled : List LoadedRule}
    (hcomp : compiled = submittedRules call.accessRules) (hne : compiled ≠ [])
    (hnum : (keyRuleSet drawn call.target compiled).Numbered)
    (hkeys : (keyRuleSet drawn call.target compiled).keys.Nodup)
    (hfresh : ∀ key ∈ (keyRuleSet drawn call.target compiled).keys, key ∉ keysOf sets) :
    NewSetSound sets call (some (keyRuleSet drawn call.target compiled)) where
  target := by
    intro ruleSet hruleSet
    rw [← Option.some.inj hruleSet]
    rfl
  sound := by
    intro ruleSet hruleSet
    rw [← Option.some.inj hruleSet]
    refine ⟨hnum, fun hnil => hne ?_⟩
    rw [← loaded_keyRuleSet drawn call.target compiled, hnil]
    rfl
  loaded := (loaded_keyRuleSet drawn call.target compiled).trans hcomp
  keys := by rwa [keysOf_some]
  fresh := by rwa [keysOf_some]

theorem insertOutcome_sound (h : Holds s.stored sets)
    (hcomp : callOpen.compiledRules = submittedRules callOpen.call.accessRules)
    {oldRuleSetId : Option String}
    (hlock : PhaseSound start recursive s.stored s.committed sets callOpen.call
      (.locked oldRuleSetId))
    (drawn : DrawnIds) :
    OutcomeSound start recursive s sets callOpen (.insert drawn)
      (s.insertOutcome callOpen oldRuleSetId drawn) := by
  unfold RuleServer.insertOutcome
  split
  · rename_i hempty
    refine ⟨⟨hlock, newSetSound_none ?_⟩, fun _ hkey => nomatch hkey⟩
    rw [← hcomp, isEmpty_iff.mp hempty]
  · rename_i hrules
    dsimp only
    split
    · rename_i hkeys
      split
      · rename_i hnum
        refine ⟨⟨hlock, newSetSound_keyRuleSet hcomp ?_ hnum hkeys.1 ?_⟩, ?_⟩
        · exact fun hnil => hrules (isEmpty_iff.mpr hnil)
        · exact fun key hkey => (keysFree_spec h hkeys.2 hkey).1
        intro key hkey
        rw [ReplacementPhase.newRuleSet, keysOf_some] at hkey
        exact .inr (keysFree_spec h hkeys.2 hkey).2
      · trivial
    · exact AccessRulesError.noConfusion

theorem nodes_inserted (call : RuleCall) (newRuleSet : Option KeyedRuleSet) (db : Database) :
    (call.inserted newRuleSet db).nodes = db.nodes.map fun node =>
      if node.id = call.target then { node with inherit := call.inheritParent } else node := by
  cases newRuleSet <;> rfl

theorem pointerRows_of_mem {row : Node} (hrow : row ∈ db.nodes) :
    db.pointerRows row.id row.type row.accessRuleSetId = [row] := by
  rw [← RowNumber.filter_key_eq_singleton db.nodeIds_nodup hrow]
  refine filter_congr fun other hother => ?_
  rw [Bool.eq_iff_iff, Bool.and_eq_true, Bool.and_eq_true, beq_iff_eq, beq_iff_eq, beq_iff_eq,
    beq_iff_eq]
  constructor
  · exact fun hboth => hboth.1.1.symm
  intro hid
  obtain rfl := Database.eq_of_id_eq hrow hother hid
  exact ⟨⟨rfl, rfl⟩, rfl⟩

theorem pointerRows_inserted (h : Ledger start s.stored s.committed sets)
    (hnode : ∃ node ∈ start.nodes, node.id = call.target ∧ node.type = call.targetType)
    (newRuleSet : Option KeyedRuleSet) :
    ((call.inserted newRuleSet s.stored).pointerRows call.target call.targetType
      ((setOf sets call.target).map KeyedRuleSet.id)).length = 1 := by
  obtain ⟨node, hmem, hid, htype⟩ := hnode
  let row : Node := { currentNode s.committed sets node with inherit := call.inheritParent }
  have hrow : row ∈ (call.inserted newRuleSet s.stored).nodes := by
    rw [nodes_inserted, h.nodes, map_map]
    refine mem_map.mpr ⟨node, hmem, ?_⟩
    exact if_pos hid
  have hptr : row.accessRuleSetId = (setOf sets call.target).map KeyedRuleSet.id := by
    rw [← hid]
    rfl
  have hone := pointerRows_of_mem hrow
  rw [show row.id = call.target from hid, show row.type = call.targetType from htype, hptr] at hone
  rw [hone]
  rfl

theorem swingOutcome_eq (h : Ledger start s.stored s.committed sets)
    (hnode : ∃ node ∈ start.nodes, node.id = call.target ∧ node.type = call.targetType)
    (newRuleSet : Option KeyedRuleSet) :
    s.swingOutcome call ((setOf sets call.target).map KeyedRuleSet.id) newRuleSet =
      .proceed (.swung newRuleSet) := by
  unfold RuleServer.swingOutcome
  rw [if_neg]
  exact fun hne => hne (pointerRows_inserted h hnode newRuleSet)

variable {draft : RuleDraft} {passed : List PassedCheck} {remaining : List AccessType}

theorem ChecksSound.concat {check : PassedCheck}
    (h : ChecksSound start recursive s.stored s.committed call draft passed
      (check.accessType :: remaining))
    (hversion : check.version = s.committed.length)
    (hholds : check.HoldsOn recursive (call.view draft s.stored) call) :
    ChecksSound start recursive s.stored s.committed call draft (passed ++ [check]) remaining where
  earlier := by
    intro other hother
    rcases mem_append.mp hother with hother | hother
    · exact h.earlier other hother
    · rw [mem_singleton.mp hother]
      exact hversion.le
  holds := by
    intro other hother hcur
    rcases mem_append.mp hother with hother | hother
    · exact h.holds other hother hcur
    · rw [mem_singleton.mp hother]
      exact hholds
  all := by
    rw [← h.all, map_append, append_assoc]
    rfl

theorem checkOutcome_sound {access : AccessType}
    (hphase : callOpen.phase = .checking draft passed (access :: remaining))
    (hdraft : DraftSound sets callOpen.call draft)
    (hchecks : ChecksSound start recursive s.stored s.committed callOpen.call draft passed
      (access :: remaining))
    (now : Instant) :
    OutcomeSound start recursive s sets callOpen (.check now)
      (s.checkOutcome recursive callOpen.call draft passed access remaining now) := by
  have hkeys : keysOf draft.newRuleSet.toList = callOpen.keys := by
    rw [OpenCall.keys, hphase]
    rfl
  unfold RuleServer.checkOutcome
  split
  · rename_i user target huser htgt
    split
    · exact AccessRulesError.noConfusion
    · exact ⟨hdraft, fun key hkey => .inl (hkeys ▸ hkey)⟩
    rename_i hcheck
    exact ⟨⟨hdraft, hchecks.concat rfl ⟨user, target, huser, htgt, hcheck⟩⟩,
      fun key hkey => .inl (hkeys ▸ hkey)⟩
  · trivial

/-- **What the next statement of a call comes to.** -/
theorem outcome_sound (h : Ledger start s.stored s.committed sets)
    (hopen : callOpen.Sound start recursive s.stored s.committed sets) (action : CallAction) :
    OutcomeSound start recursive s sets callOpen action (s.outcome recursive callOpen action) := by
  obtain ⟨call, compiledRules, phase⟩ := callOpen
  obtain ⟨hcomp, hnode, hphase⟩ := hopen
  dsimp only at hcomp hnode hphase
  cases action with
  | insert drawn =>
    cases phase with
    | locked oldRuleSetId => exact insertOutcome_sound h.holds hcomp hphase drawn
    | inserted _ _ | swung _ | checking _ _ _ | denied _ => trivial
  | swing =>
    cases phase with
    | inserted oldRuleSetId newRuleSet =>
      obtain ⟨rfl, hnew⟩ := hphase
      show OutcomeSound start recursive s sets _ .swing (s.swingOutcome call _ newRuleSet)
      rw [swingOutcome_eq h hnode newRuleSet]
      exact ⟨hnew, fun key hkey => .inl hkey⟩
    | locked _ | swung _ | checking _ _ _ | denied _ => trivial
  | cleanUp =>
    cases phase with
    | swung newRuleSet =>
      refine ⟨⟨⟨hphase, oldRuleSetIds_eq h.holds hphase⟩, ?_, ?_, ?_⟩, fun key hkey => .inl hkey⟩
      · exact fun _ hcheck => nomatch hcheck
      · exact fun _ hcheck => nomatch hcheck
      · rfl
    | locked _ | inserted _ _ | checking _ _ _ | denied _ => trivial
  | check now =>
    cases phase with
    | checking draft passed remaining =>
      cases remaining with
      | nil => trivial
      | cons access remaining => exact checkOutcome_sound rfl hphase.1 hphase.2 now
    | locked _ | inserted _ _ | swung _ | denied _ => trivial
  | commit =>
    cases phase with
    | checking draft passed remaining =>
      cases remaining with
      | nil => exact ⟨rfl, hphase.1, rfl⟩
      | cons access remaining => trivial
    | denied draft => exact ⟨rfl, hphase, rfl⟩
    | locked _ | inserted _ _ | swung _ => trivial
  | rollback => trivial

end

/-! ### Steps -/

namespace Consistent

variable {start : Database} {recursive : Bool} {s : RuleServer} {sets : List KeyedRuleSet}
  {target : NodeId} {callOpen : OpenCall}

variable (h : Consistent start recursive s sets)

include h

theorem insertCall (htgt : callOpen.call.target = target)
    (hsound : callOpen.Sound start recursive s.stored s.committed sets)
    (hkeys : ∀ key ∈ callOpen.keys, ∀ other otherOpen, other ≠ target →
      s.calls.lookup other = some otherOpen → key ∉ otherOpen.keys) :
    Consistent start recursive { s with calls := s.calls.insert target callOpen } sets where
  ledger := h.ledger
  calls := by
    intro other otherOpen hlook
    rcases Table.lookup_insert_eq_some hlook with ⟨rfl, rfl⟩ | ⟨-, hold⟩
    · exact ⟨htgt, hsound⟩
    · exact h.calls other otherOpen hold
  apart := by
    intro first second firstOpen secondOpen hne hfirst hsnd key hkey
    rcases Table.lookup_insert_eq_some hfirst with ⟨rfl, rfl⟩ | ⟨hfirstNe, hfirstOld⟩
    · rcases Table.lookup_insert_eq_some hsnd with ⟨rfl, rfl⟩ | ⟨hsecondNe, hsecondOld⟩
      · exact absurd rfl hne
      · exact hkeys key hkey second secondOpen hsecondNe hsecondOld
    · rcases Table.lookup_insert_eq_some hsnd with ⟨rfl, rfl⟩ | ⟨hsecondNe, hsecondOld⟩
      · exact fun hmem => hkeys key hmem first firstOpen hfirstNe hfirstOld hkey
      · exact h.apart first second firstOpen secondOpen hne hfirstOld hsecondOld key hkey
  raised := h.raised

theorem eraseCall (target : NodeId) :
    Consistent start recursive { s with calls := s.calls.erase target } sets where
  ledger := h.ledger
  calls := fun other otherOpen hlook => h.calls other otherOpen (Table.lookup_erase_eq_some hlook).2
  apart := by
    intro first second firstOpen secondOpen hne hfirst hsnd
    exact h.apart first second firstOpen secondOpen hne (Table.lookup_erase_eq_some hfirst).2
      (Table.lookup_erase_eq_some hsnd).2
  raised := h.raised

theorem raise {error : AccessRulesError}
    (herror : error ≠ .changedConcurrently) : Consistent start recursive (s.raise error) sets where
  ledger := h.ledger
  calls := h.calls
  apart := h.apart
  raised := by
    intro hmem
    rcases mem_append.mp hmem with hmem | hmem
    · exact h.raised hmem
    · exact herror (mem_singleton.mp hmem).symm

omit h

end Consistent

section

variable {start : Database} {recursive : Bool} {stored : Database} {committed : List RuleCall}
  {sets : List KeyedRuleSet} {call other : RuleCall} {draft : RuleDraft}
  {newRuleSet : Option KeyedRuleSet}

theorem keysOf_replaceSet {key : RowKey} (h : key ∈ keysOf (replaceSet sets call.target newRuleSet)) :
    key ∈ keysOf sets ∨ key ∈ keysOf newRuleSet.toList := by
  obtain ⟨ruleSet, hset, hkey⟩ := mem_flatMap.mp h
  rcases mem_replaceRow.mp hset with ⟨hset, -⟩ | hadded
  · exact .inl (mem_flatMap.mpr ⟨ruleSet, hset, hkey⟩)
  · exact .inr (mem_flatMap.mpr ⟨ruleSet, Option.mem_toList.mpr hadded, hkey⟩)

theorem NewSetSound.replaceSet (h : NewSetSound sets other newRuleSet)
    (happart : ∀ key ∈ keysOf newRuleSet.toList, key ∉ keysOf draft.newRuleSet.toList) :
    NewSetSound (replaceSet sets call.target draft.newRuleSet) other newRuleSet where
  target := h.target
  sound := h.sound
  loaded := h.loaded
  keys := h.keys
  fresh := by
    intro key hkey hmem
    rcases keysOf_replaceSet hmem with hold | hadded
    · exact h.fresh key hkey hold
    · exact happart key hkey hadded

theorem ownedIds_replaceSet (hnew : NewSetSound sets call draft.newRuleSet)
    (hne : other.target ≠ call.target) :
    ownedIds (replaceSet sets call.target draft.newRuleSet) other.target =
      ownedIds sets other.target := by
  have hkept : (sets.filter fun ruleSet => ruleSet.nodeId != call.target).filter
      (fun ruleSet => ruleSet.nodeId == other.target) =
        sets.filter fun ruleSet => ruleSet.nodeId == other.target := by
    rw [filter_filter]
    refine filter_congr fun ruleSet _ => ?_
    cases hother : ruleSet.nodeId == other.target with
    | false => rfl
    | true => rw [beq_iff_eq.mp hother, bne_iff_ne.mpr hne, Bool.true_and]
  have hadded : draft.newRuleSet.toList.filter
      (fun ruleSet => ruleSet.nodeId == other.target) = [] := by
    refine filter_eq_nil_iff.mpr fun ruleSet hset => ?_
    rw [beq_iff_eq, hnew.target ruleSet (Option.mem_toList.mp hset)]
    exact hne.symm
  rw [ownedIds, Cfms.Access.replaceSet, replaceRow, filter_append, hkept, hadded,
    append_nil, ownedIds]

theorem tables_view (call : RuleCall) (draft : RuleDraft) (db : Database) :
    (call.view draft db).objectAccessEntries = db.objectAccessEntries ∧
      (call.view draft db).userBlockEntries = db.userBlockEntries ∧
      (call.view draft db).userBlockSubEntries = db.userBlockSubEntries := by
  unfold RuleCall.view RuleCall.swung RuleCall.inserted
  cases draft.newRuleSet <;> exact ⟨rfl, rfl, rfl⟩

variable {start : Database} {otherDraft : RuleDraft}

/-- What an open call sees before and after the commit of a call that is not on a folder above its
node. -/
theorem view_agreeOn (h : Ledger start stored committed sets)
    (hcall : ∃ node ∈ start.nodes, node.id = call.target)
    (hdraft : DraftSound sets call draft) (hother : ∃ node ∈ start.nodes, node.id = other.target)
    (hotherDraft : DraftSound sets other otherDraft)
    (hotherDraft' : DraftSound (replaceSet sets call.target draft.newRuleSet) other otherDraft)
    (hne : other.target ≠ call.target) (hapart : ¬ start.Above call.target other.target) :
    AgreeOn (fun id => id = other.target ∨ start.Above id other.target)
      (other.view otherDraft stored) (other.view otherDraft (call.view draft stored)) := by
  have hbef := h.commit hother hotherDraft.newSet hotherDraft.removed
  have hafter := (h.commit hcall hdraft.newSet hdraft.removed).commit hother hotherDraft'.newSet
    hotherDraft'.removed
  have hids : ∀ id, id = other.target ∨ start.Above id other.target → id ≠ call.target := by
    rintro id (hid | habove) rfl
    · exact hne hid.symm
    · exact hapart habove
  obtain ⟨hents, hblocks, hsubBlocks⟩ := tables_view call draft stored
  obtain ⟨hents₁, hblocks₁, hsubBlocks₁⟩ := tables_view other otherDraft stored
  obtain ⟨hents₂, hblocks₂, hsubBlocks₂⟩ :=
    tables_view other otherDraft (call.view draft stored)
  refine hbef.agreeOn hafter ?_ ?_ ?_ ?_ ?_ ?_
  · rintro node hnode (hid | habove) parent hpar
    · exact .inr (hid ▸ .parent hnode hpar)
    · exact .inr (.up habove hnode hpar)
  · intro id hid
    by_cases htgt : id = other.target
    · rw [htgt, hotherDraft.newSet.setOf_self, hotherDraft.newSet.setOf_self]
    · rw [hotherDraft.newSet.setOf_of_ne htgt, hotherDraft.newSet.setOf_of_ne htgt,
        hdraft.newSet.setOf_of_ne (hids id hid)]
  · intro id hid
    by_cases htgt : id = other.target
    · rw [htgt, lastCall_cons_self, lastCall_cons_self]
    · rw [lastCall_cons_of_ne htgt, lastCall_cons_of_ne htgt, lastCall_cons_of_ne (hids id hid)]
  · rw [hents₁, hents₂, hents]
  · rw [hblocks₁, hblocks₂, hblocks]
  · rw [hsubBlocks₁, hsubBlocks₂, hsubBlocks]

theorem PassedCheck.HoldsOn.congr {db db' : Database} {A : NodeId → Prop} {check : PassedCheck}
    (h : check.HoldsOn recursive db call) (hagree : AgreeOn A db db') (hA : A call.target) :
    check.HoldsOn recursive db' call := by
  obtain ⟨user, target, huser, htgt, hcheck⟩ := h
  obtain ⟨hmem, hid⟩ := Database.node?_eq_some.mp htgt
  rw [← hid] at hA
  refine ⟨user, target, huser, Database.node?_eq_some.mpr ⟨hagree.mem hmem hA, hid⟩, ?_⟩
  rw [hagree.check user _ recursive _ hmem hA]
  exact hcheck

theorem OpenCall.Sound.afterCommit {otherOpen : OpenCall}
    (h : otherOpen.Sound start recursive stored committed sets)
    (hledger : Ledger start stored committed sets)
    (hcall : ∃ node ∈ start.nodes, node.id = call.target)
    (hdraft : DraftSound sets call draft) (hne : otherOpen.call.target ≠ call.target)
    (happart : ∀ key ∈ otherOpen.keys, key ∉ keysOf draft.newRuleSet.toList) :
    otherOpen.Sound start recursive (call.view draft stored) (call :: committed)
      (replaceSet sets call.target draft.newRuleSet) := by
  obtain ⟨other, compiledRules, phase⟩ := otherOpen
  obtain ⟨hcomp, hnode, hphase⟩ := h
  have hset := hdraft.newSet.setOf_of_ne hne sets
  have hids := ownedIds_replaceSet hdraft.newSet hne
  refine ⟨hcomp, hnode, ?_⟩
  cases phase with
  | locked oldRuleSetId =>
    show oldRuleSetId = (setOf _ other.target).map KeyedRuleSet.id
    rw [hset]
    exact hphase
  | inserted oldRuleSetId newRuleSet =>
    obtain ⟨hold, hnewSet⟩ := hphase
    refine ⟨?_, hnewSet.replaceSet happart⟩
    rw [hset]
    exact hold
  | swung newRuleSet => exact NewSetSound.replaceSet hphase happart
  | checking otherDraft passed remaining =>
    obtain ⟨hotherDraft, hchecks⟩ := hphase
    have hotherDraft' : DraftSound (replaceSet sets call.target draft.newRuleSet) other otherDraft :=
      ⟨hotherDraft.newSet.replaceSet happart, hotherDraft.removed.trans hids.symm⟩
    refine ⟨hotherDraft', ?_, ?_, hchecks.all⟩
    · exact fun check hcheck => (hchecks.earlier check hcheck).trans (Nat.le_succ _)
    -- the commit is among those that the check must not be overtaken by
    intro check hcheck hclear
    have hlen : (call :: committed).length - check.version = committed.length - check.version + 1 :=
      Nat.succ_sub (hchecks.earlier check hcheck)
    rw [PassedCheck.NotOvertaken, hlen] at hclear
    have hholds := hchecks.holds check hcheck fun earlier hearlier =>
      hclear earlier (mem_cons_of_mem _ hearlier)
    obtain ⟨node, hmem, hid, -⟩ := hnode
    exact hholds.congr (view_agreeOn hledger hcall hdraft ⟨node, hmem, hid⟩ hotherDraft
      hotherDraft' hne (hclear call mem_cons_self)) (.inl rfl)
  | denied otherDraft =>
    obtain ⟨hnewSet, hrem⟩ := hphase
    exact ⟨hnewSet.replaceSet happart, hrem.trans hids.symm⟩

/-- **A commit.** -/
theorem Consistent.commit {start : Database} {s : RuleServer} {target : NodeId}
    {callOpen : OpenCall} (h : Consistent start recursive s sets)
    (hlook : s.calls.lookup target = some callOpen)
    (hdraft : DraftSound sets callOpen.call draft)
    (hphase : callOpen.phase.newRuleSet = draft.newRuleSet) :
    Consistent start recursive { s with
        stored := callOpen.call.view draft s.stored
        calls := s.calls.erase target
        committed := callOpen.call :: s.committed }
      (replaceSet sets callOpen.call.target draft.newRuleSet) := by
  obtain ⟨htgt, hopen⟩ := h.calls target callOpen hlook
  obtain ⟨node, hnode, hid, -⟩ := hopen.node
  refine ⟨?_, ?_, ?_, h.raised⟩
  · exact h.ledger.commit ⟨node, hnode, hid⟩ hdraft.newSet hdraft.removed
  · intro other otherOpen hother
    obtain ⟨hne, hother⟩ := Table.lookup_erase_eq_some hother
    obtain ⟨hotherTarget, hsound⟩ := h.calls other otherOpen hother
    refine ⟨hotherTarget, hsound.afterCommit h.ledger ⟨node, hnode, hid⟩ hdraft ?_ ?_⟩
    · rw [hotherTarget, htgt]
      exact hne
    · rw [← hphase]
      exact h.apart other target otherOpen callOpen hne hother hlook
  · intro first second firstOpen secondOpen hne hfirst hsnd
    exact h.apart first second firstOpen secondOpen hne (Table.lookup_erase_eq_some hfirst).2
      (Table.lookup_erase_eq_some hsnd).2

end

/-! ### Runs -/

section

variable {validator : RuleValidator} {start : Database} {recursive : Bool} {s s' : RuleServer}
  {sets : List KeyedRuleSet}

theorem Consistent.startCall (h : Consistent start recursive s sets) {call : RuleCall}
    (hstep : s.start validator call = some s') : Consistent start recursive s' sets := by
  unfold RuleServer.start at hstep
  split at hstep
  · rename_i error herror
    cases hstep
    refine h.raise ?_
    obtain ⟨access, rfl | rfl | rfl⟩ := compileRules_eq_error herror
    all_goals
      exact AccessRulesError.noConfusion
  · rename_i compiledRules hcomp
    split at hstep
    · cases hstep
    split at hstep
    · cases hstep
      exact h.raise AccessRulesError.noConfusion
    · rename_i node hnode
      cases hstep
      have hmem := mem_of_find?_eq_some hnode
      have hfound := find?_some hnode
      rw [Bool.and_eq_true, beq_iff_eq, beq_iff_eq] at hfound
      rw [h.ledger.nodes] at hmem
      obtain ⟨first, hfirst, rfl⟩ := mem_map.mp hmem
      refine h.insertCall rfl ⟨compileRules_eq_ok hcomp, ⟨first, hfirst, hfound⟩, ?_⟩
        fun _ hkey => nomatch hkey
      show (setOf sets first.id).map KeyedRuleSet.id = _
      rw [show first.id = call.target from hfound.1]

variable {event : RuleEvent}

/-- **Every step keeps the invariant.** -/
theorem Consistent.step (h : Consistent start recursive s sets)
    (hstep : s.step validator recursive event = some s') :
    ∃ sets', Consistent start recursive s' sets' := by
  cases event with
  | start call => exact ⟨sets, h.startCall hstep⟩
  | act target action =>
    obtain ⟨callOpen, hlook, hsettle⟩ := Option.bind_eq_some_iff.mp hstep
    obtain ⟨htgt, hopen⟩ := h.calls target callOpen hlook
    have houtc := outcome_sound h.ledger hopen action
    cases hres : s.outcome recursive callOpen action with
    | proceed phase =>
      rw [hres] at houtc hsettle
      cases hsettle
      obtain ⟨hphase, hkeys⟩ := houtc
      refine ⟨sets, h.insertCall htgt ⟨hopen.compiled, hopen.node, hphase⟩ ?_⟩
      intro key hkey other otherOpen hother hotherLookup
      rcases hkeys key hkey with hown | hfree
      · exact h.apart target other callOpen otherOpen hother.symm hlook hotherLookup key hown
      · exact hfree other otherOpen hotherLookup
    | raise error =>
      rw [hres] at houtc hsettle
      cases hsettle
      exact ⟨sets, (h.eraseCall target).raise houtc⟩
    | commit draft =>
      rw [hres] at houtc hsettle
      cases hsettle
      exact ⟨_, h.commit hlook houtc.2.1 houtc.2.2⟩
    | rollback =>
      rw [hres] at hsettle
      cases hsettle
      exact ⟨sets, h.eraseCall target⟩
    | impossible =>
      rw [hres] at hsettle
      cases hsettle

theorem consistent_initial (h : start.WithoutRules) :
    Consistent start recursive (.initial start) [] where
  ledger := Ledger.initial h
  calls := fun _ _ hlook => absurd hlook Table.lookup_empty_ne_some
  apart := fun _ _ _ _ _ hlook => absurd hlook Table.lookup_empty_ne_some
  raised := fun hmem => nomatch hmem

theorem consistent_run (h : start.WithoutRules) {events : List RuleEvent}
    (hrun : run (RuleServer.step validator recursive) (.initial start) events = some s) :
    ∃ sets, Consistent start recursive s sets := by
  refine run_invariant (I := fun s => ∃ sets, Consistent start recursive s sets) ?_
    ⟨[], consistent_initial h⟩ (meets_true events) hrun
  rintro t event t' ⟨sets, ht⟩ - hstep
  exact ht.step hstep

/-! ### What the runs keep -/

/-- The access rules of a node are those of the last committed call for it. -/
structure RulesReplaced (start : Database) (s : RuleServer) (node : Node) : Prop where
  one : (s.stored.ruleSets.filter fun ruleSet => ruleSet.nodeId == node.id).length ≤ 1
  pointed : ∀ ruleSet ∈ s.stored.ruleSets, ruleSet.nodeId = node.id →
    node.accessRuleSetId = some ruleSet.id ∧
      ∃ rule ∈ s.stored.rules, rule.ruleSetId = ruleSet.id
  null : (∀ ruleSet ∈ s.stored.ruleSets, ruleSet.nodeId ≠ node.id) → node.accessRuleSetId = none
  rules : (getCompiledAccessRules s.stored node.type node.id).map (loadRule s.stored) =
    currentRules s.committed node.id
  inherit : ∀ call, lastCall s.committed node.id = some call → node.inherit = call.inheritParent
  untouched : lastCall s.committed node.id = none → node ∈ start.nodes

variable {node : Node}

theorem currentNode_mem {stored : Database} {committed : List RuleCall}
    (h : Ledger start stored committed sets) (hnode : node ∈ stored.nodes) :
    ∃ first ∈ start.nodes, node = currentNode committed sets first := by
  rw [h.nodes] at hnode
  obtain ⟨first, hfirst, rfl⟩ := mem_map.mp hnode
  exact ⟨first, hfirst, rfl⟩

theorem Ledger.rulesReplaced (h : Ledger start s.stored s.committed sets)
    (hstart : start.WithoutRules) (hnode : node ∈ s.stored.nodes) : RulesReplaced start s node := by
  obtain ⟨first, hfirst, heq⟩ := currentNode_mem h hnode
  have hid : node.id = first.id := by rw [heq]; rfl
  have hptr := h.pointer_eq hnode
  have hmem : ∀ row ∈ s.stored.ruleSets, ∃ ruleSet ∈ sets, ruleSet.row = row := by
    intro row hrow
    rw [h.holds.ruleSets] at hrow
    exact mem_map.mp hrow
  refine ⟨?_, ?_, ?_, ?_, ?_, ?_⟩
  · rw [h.holds.ruleSets, filter_map, length_map]
    exact length_filter_owner_le h.owners
  · intro row hrow howner
    obtain ⟨ruleSet, hset, rfl⟩ := hmem row hrow
    have hsetOf : setOf sets node.id = some ruleSet :=
      (rowOf_eq_some h.owners).mpr ⟨hset, howner⟩
    refine ⟨by rw [hptr, hsetOf]; rfl, ?_⟩
    obtain ⟨rule, hrule⟩ := exists_mem_of_ne_nil _ (h.sound ruleSet hset).nonempty
    refine ⟨rule.row ruleSet.id, ?_, rfl⟩
    rw [h.holds.rules]
    exact mem_flatMap.mpr ⟨ruleSet, hset, mem_map_of_mem hrule⟩
  · intro hnone
    cases hsetOf : setOf sets node.id with
    | none => rw [hptr, hsetOf, Option.map_none]
    | some ruleSet =>
      obtain ⟨hset, howner⟩ := (rowOf_eq_some h.owners).mp hsetOf
      refine absurd howner (hnone ruleSet.row ?_)
      rw [h.holds.ruleSets]
      exact mem_map_of_mem hset
  · rw [← h.rules node.id]
    cases hsetOf : setOf sets node.id with
    | none =>
      rw [hsetOf] at hptr
      rw [getCompiledAccessRules_of_none hnode hptr]
      rfl
    | some ruleSet =>
      rw [hsetOf] at hptr
      obtain ⟨hset, howner⟩ := (rowOf_eq_some h.owners).mp hsetOf
      exact getCompiledAccessRules_of_set h.holds h.keys hset (h.sound ruleSet hset).numbered hnode
        howner hptr
  · intro call hlast
    rw [hid] at hlast
    rw [heq]
    show (lastCall s.committed first.id).elim _ _ = _
    rw [hlast]
    rfl
  · intro hlast
    have hrules := h.rules node.id
    rw [currentRules, hlast] at hrules
    have hnone : setOf sets node.id = none := by
      cases hsetOf : setOf sets node.id with
      | none => rfl
      | some ruleSet =>
        rw [hsetOf] at hrules
        have hset := ((rowOf_eq_some h.owners).mp hsetOf).1
        exact absurd (map_eq_nil_iff.mp hrules) (h.sound ruleSet hset).nonempty
    rw [hid] at hlast hnone
    have hsame : node = first := by
      rw [heq, currentNode, hlast, hnone, Option.map_none, ← hstart.pointers first hfirst]
      rfl
    rw [hsame]
    exact hfirst

theorem Ledger.rule_active (h : Ledger start s.stored s.committed sets) {rule : CompiledAccessRule}
    (hrule : rule ∈ s.stored.rules) : ∃ node ∈ s.stored.nodes,
      rule ∈ getCompiledAccessRules s.stored node.type node.id := by
  have hmem := hrule
  rw [h.holds.rules] at hmem
  obtain ⟨ruleSet, hset, hrow⟩ := mem_flatMap.mp hmem
  obtain ⟨first, hfirst, howner⟩ := h.owned ruleSet hset
  have hnode : currentNode s.committed sets first ∈ s.stored.nodes := by
    rw [h.nodes]
    exact mem_map_of_mem hfirst
  have hptr : (currentNode s.committed sets first).accessRuleSetId = some ruleSet.id := by
    show (setOf sets first.id).map KeyedRuleSet.id = _
    rw [setOf, (rowOf_eq_some h.owners).mpr ⟨hset, howner.symm⟩]
    rfl
  have hsetRow : ruleSet.row ∈ s.stored.ruleSets := by
    rw [h.holds.ruleSets]
    exact mem_map_of_mem hset
  refine ⟨_, hnode, ?_⟩
  rw [getCompiledAccessRules, mem_insertionSort, activeRules, mem_filter]
  refine ⟨hrule, (activeCompiledRuleConditions_iff hnode rule).mpr ⟨ruleSet.row, hsetRow, ?_⟩⟩
  exact ⟨mem_singleton.mp (KeyedRuleSet.ruleSetId_mem hrow), howner.symm, hptr⟩

def RuleEvent.commits : RuleEvent → Bool
  | .act _ .commit => true
  | _ => false

theorem Consistent.step_of_not_commits (h : Consistent start recursive s sets)
    (hstep : s.step validator recursive event = some s') (hevent : event.commits = false) :
    s'.stored = s.stored ∧ s'.committed = s.committed := by
  cases event with
  | start call =>
    change s.start validator call = some s' at hstep
    unfold RuleServer.start at hstep
    split at hstep
    · cases hstep
      exact ⟨rfl, rfl⟩
    · split at hstep
      · cases hstep
      · split at hstep
        all_goals
          cases hstep
          exact ⟨rfl, rfl⟩
  | act target action =>
    obtain ⟨callOpen, hlook, hsettle⟩ := Option.bind_eq_some_iff.mp hstep
    have houtc := outcome_sound h.ledger (h.calls target callOpen hlook).2 action
    cases hres : s.outcome recursive callOpen action with
    | proceed phase | raise error | rollback =>
      rw [hres] at hsettle
      cases hsettle
      exact ⟨rfl, rfl⟩
    | commit draft =>
      rw [hres] at houtc
      rw [houtc.1] at hevent
      cases hevent
    | impossible =>
      rw [hres] at hsettle
      cases hsettle

/-- `apply_access_rules` has returned `True`, and its transaction is about to be committed. -/
def RuleServer.Returns (s : RuleServer) (target : NodeId) (callOpen : OpenCall)
    (passed : List PassedCheck) : Prop :=
  s.calls.lookup target = some callOpen ∧ callOpen.call.user.isSome = true ∧
    ∃ draft, callOpen.phase = .checking draft passed []

theorem Consistent.commit_checks (h : Consistent start recursive s sets) {target : NodeId}
    {callOpen : OpenCall} {passed : List PassedCheck} (hret : s.Returns target callOpen passed)
    (hstep : s.step validator recursive (.act target .commit) = some s') :
    passed.map PassedCheck.accessType = listedAccessTypes callOpen.call.accessRules ∧
      ∀ check ∈ passed, check.NotOvertaken start s.committed callOpen.call →
        check.HoldsOn recursive s'.stored callOpen.call := by
  obtain ⟨hlook, huser, draft, hphase⟩ := hret
  have hopen := (h.calls target callOpen hlook).2.phase
  rw [hphase] at hopen
  obtain ⟨-, hchecks⟩ := hopen
  have hsettle : s.settle target callOpen (s.outcome recursive callOpen .commit) = some s' := by
    rw [RuleServer.step, hlook] at hstep
    exact hstep
  rw [RuleServer.outcome, hphase] at hsettle
  cases hsettle
  constructor
  · rw [← append_nil (passed.map PassedCheck.accessType), hchecks.all,
      RuleCall.checkedAccessTypes, if_pos huser]
  · exact hchecks.holds

end

/-- **Setting access rules replaces them exactly.** A node has the rules of its last committed call,
and where `apply_access_rules` has returned `True` the user keeps what was checked, unless a call on
a folder above the node has been committed since the check. -/
theorem access_rules_replaced (validator : RuleValidator) (recursive : Bool) {start : Database}
    (hstart : start.WithoutRules)
    {events : List RuleEvent} {s : RuleServer}
    (hrun : run (RuleServer.step validator recursive) (.initial start) events = some s) :
    s.stored.nodes.map Node.id = start.nodes.map Node.id ∧
      (∀ node ∈ s.stored.nodes, RulesReplaced start s node) ∧
      (∀ rule ∈ s.stored.rules, ∃ node ∈ s.stored.nodes,
        rule ∈ getCompiledAccessRules s.stored node.type node.id) ∧
      (∀ event s', s.step validator recursive event = some s' → event.commits = false →
        s'.stored = s.stored ∧ s'.committed = s.committed) ∧
      ∀ target callOpen passed s', s.Returns target callOpen passed →
        s.step validator recursive (.act target .commit) = some s' →
          passed.map PassedCheck.accessType = listedAccessTypes callOpen.call.accessRules ∧
            ∀ check ∈ passed, check.NotOvertaken start s.committed callOpen.call →
              check.HoldsOn recursive s'.stored callOpen.call := by
  obtain ⟨sets, h⟩ := consistent_run hstart hrun
  refine ⟨?_, ?_, ?_, ?_, ?_⟩
  · rw [h.ledger.nodes, map_map]
    rfl
  · exact fun node hnode => h.ledger.rulesReplaced hstart hnode
  · exact fun rule hrule => h.ledger.rule_active hrule
  · exact fun event s' hstep hevent => h.step_of_not_commits hstep hevent
  · exact fun target callOpen passed s' hret hstep => h.commit_checks hret hstep

/-! ### Two folders below the root -/

def reportsFolder : Database where
  nodes :=
    [{ id := "/", type := .directory, name := "/", parentId := none, inherit := false },
      { id := "reports", type := .directory, name := "Reports", parentId := some "/" },
      { id := "archive", type := .directory, name := "Archive", parentId := some "/" }]
  nodeIds_nodup := by decide
  nodeIds_ne_empty := by decide

/-- The schema's decision on lists of rules. -/
def shapeValidator : RuleValidator where
  validate := fun value _ => value.array?.any fun items => items.all fun item => (readRule item).isSome
  sound := by
    intro rules hvalid
    cases rules with
    | array items => exact ⟨items, rfl, List.all_eq_true.mp hvalid⟩
    | null | bool _ | int _ | float _ | string _ | tuple _ | object _ => cases hvalid

def readableBy (group : String) : AccessRules :=
  [("read", .array [.object [("match", .string "all"), ("match_groups", .array
    [.object [("groups", .object [("require", .array [.string group])])]])]])]

/-- A user lets the members of one of his groups read a folder. -/
def readableCall (target : NodeId) (inheritParent : Bool) (user group : String) : RuleCall where
  target := target
  targetType := .directory
  accessRules := readableBy group
  inheritParent := inheritParent
  user := some ⟨user, [], [group]⟩

def readableByStaff : RuleCall := readableCall "reports" true "alice" "staff"

def readableBySysop : RuleCall := readableCall "/" false "bob" "sysop"

def readableByArchivist : RuleCall := readableCall "archive" true "carol" "archivist"

def drawnFrom (token : String) (first : ℕ) : DrawnIds where
  ruleSet := token
  rule := fun index => first + index
  group := fun _ _ => token

/-- The statements of a call that lists one access type, up to its commit. -/
def callUpToCommit (call : RuleCall) (drawn : DrawnIds) : List RuleEvent :=
  [.start call, .act call.target (.insert drawn), .act call.target .swing,
    .act call.target .cleanUp, .act call.target (.check 0)]

/-- The first call, and all of another one before its commit. -/
def overlappingCalls (other : RuleCall) : List RuleEvent :=
  callUpToCommit readableByStaff (drawnFrom "a" 1) ++ callUpToCommit other (drawnFrom "b" 2) ++
    [.act other.target .commit]

/-- The first call before its commit. -/
def staffOpen : OpenCall where
  call := readableByStaff
  compiledRules := submittedRules (readableBy "staff")
  phase := .checking
    ⟨some (keyRuleSet (drawnFrom "a" 1) "reports" (submittedRules (readableBy "staff"))), []⟩
    [⟨.read, 0, 0⟩] []

/-- The other call is committed between the check and the commit. -/
def overlappedServer (other : RuleCall) : RuleServer where
  stored := other.view
    ⟨some (keyRuleSet (drawnFrom "b" 2) other.target (submittedRules other.accessRules)), []⟩
    reportsFolder
  calls := AList.insert "reports" staffOpen ∅
  committed := [other]
  raised := []

theorem reportsFolder_withoutRules : reportsFolder.WithoutRules :=
  ⟨rfl, rfl, rfl, rfl, rfl, by decide⟩

theorem archive_not_above : ¬ reportsFolder.Above "archive" "reports" := by
  have hpars : ∀ row ∈ reportsFolder.nodes, row.parentId ≠ some "archive" := by decide
  intro habove
  generalize ("reports" : NodeId) = below at habove
  cases habove with
  | parent hrow hpar | up _ hrow hpar => exact hpars _ hrow hpar

/-- A call on the folder beside it leaves the user the access that was checked before. -/
theorem access_rules_replaced_reports :
    ∃ s', (overlappedServer readableByArchivist).step shapeValidator true
        (.act "reports" .commit) = some s' ∧
      (∀ node ∈ (overlappedServer readableByArchivist).stored.nodes,
        RulesReplaced reportsFolder (overlappedServer readableByArchivist) node) ∧
        (⟨.read, 0, 0⟩ : PassedCheck).HoldsOn true s'.stored readableByStaff := by
  have hrun : run (RuleServer.step shapeValidator true) (.initial reportsFolder)
      (overlappingCalls readableByArchivist) = some (overlappedServer readableByArchivist) := rfl
  obtain ⟨-, hnodes, -, -, hcomm⟩ :=
    access_rules_replaced shapeValidator true reportsFolder_withoutRules hrun
  have hret : (overlappedServer readableByArchivist).Returns "reports" staffOpen
      [⟨.read, 0, 0⟩] := ⟨rfl, rfl, _, rfl⟩
  refine ⟨_, rfl, hnodes, ?_⟩
  refine (hcomm "reports" staffOpen _ _ hret rfl).2 _ (mem_singleton_self _) ?_
  intro other hother
  rw [mem_singleton.mp hother]
  exact archive_not_above

/-- The call that was overtaken is committed as well. -/
def overtakenCommitted : RuleServer where
  stored := readableByStaff.view
    ⟨some (keyRuleSet (drawnFrom "a" 1) "reports" (submittedRules (readableBy "staff"))), []⟩
    (overlappedServer readableBySysop).stored
  calls := ∅
  committed := [readableByStaff, readableBySysop]
  raised := []

/-- The user does not always pass the checks after the commit: the second call is on the folder
above. -/
theorem committed_checks_overtaken : ¬ ∀ (validator : RuleValidator) (recursive : Bool)
    (start : Database) (events : List RuleEvent) (s s' : RuleServer) (target : NodeId)
    (callOpen : OpenCall) (passed : List PassedCheck), start.WithoutRules →
      run (RuleServer.step validator recursive) (.initial start) events = some s →
        s.Returns target callOpen passed →
          s.step validator recursive (.act target .commit) = some s' →
            ∀ check ∈ passed, check.HoldsOn recursive s'.stored callOpen.call := by
  intro hclaim
  have hrun : run (RuleServer.step shapeValidator true) (.initial reportsFolder)
      (overlappingCalls readableBySysop) = some (overlappedServer readableBySysop) := rfl
  have hret : (overlappedServer readableBySysop).Returns "reports" staffOpen
      [⟨.read, 0, 0⟩] := ⟨rfl, rfl, _, rfl⟩
  obtain ⟨user, target, huser, htgt, hcheck⟩ := hclaim shapeValidator true reportsFolder _ _
    overtakenCommitted "reports" staffOpen _ reportsFolder_withoutRules hrun hret rfl _
    (mem_singleton_self _)
  cases huser
  have hden : (overtakenCommitted.stored.node? "reports").map (fun row =>
      checkAccessRequirements overtakenCommitted.stored ⟨"alice", [], ["staff"]⟩ row .read true 0) =
        some (Except.ok false) := rfl
  rw [show overtakenCommitted.stored.node? "reports" = some target from htgt, Option.map_some,
    Option.some.injEq] at hden
  cases hcheck.symm.trans hden

end Cfms.Access
