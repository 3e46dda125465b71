import RustApi.World

/-!
# The policy engine

`PolicyEngine`'s mutations and the admin command `import_s3`. Each changes the
enforced policy through casbin and announces what changed to the feed. The two are
separate calls: the announcement follows a change that is already persisted.
-/

namespace RustApi

open Lib

/-- A management call of casbin that changes the policy. -/
inductive Change where
  | addPolicy (rule : List String)
  | removePolicy (sub obj act : String)
  | addGroupingPolicy (link : List String)
  | removeGroupingPolicy (user group : String)
  | removeFilteredGroupingPolicy (group : String)
  deriving DecidableEq, Repr

/-- Issue the call; the answer says whether the model changed. -/
def Change.perform : Change → M Bool
  | .addPolicy rule => onPolicy (.addPolicy rule)
  | .removePolicy sub obj act => onPolicy (.removePolicy sub obj act)
  | .addGroupingPolicy link => onPolicy (.addGroupingPolicy link)
  | .removeGroupingPolicy user group => onPolicy (.removeGroupingPolicy user group)
  | .removeFilteredGroupingPolicy group => onPolicy (.removeFilteredGroupingPolicy group)

namespace PolicyEngine

/-- `announce`, with the feed wired. -/
def announce (op : WalOp) : M Unit := onWal (.append op)

/-- The shape of the single mutations: an effective change is announced, any other is not. -/
def mutateThenAnnounce (c : Change) (op : WalOp) : M Bool := do
  let success ← c.perform
  if success then announce op
  pure success

def addRule (sub obj : String) (act : Action) : M Bool :=
  mutateThenAnnounce (.addPolicy [sub, obj, act.text]) (.policyRuleAdd sub obj act.text)

def removeRule (sub obj : String) (act : Action) : M Bool :=
  mutateThenAnnounce (.removePolicy sub obj act.text) (.policyRuleRemove sub obj act.text)

def assignGroup (userId group : String) : M Bool :=
  mutateThenAnnounce (.addGroupingPolicy [userId, group]) (.groupAdd userId group)

def removeFromGroup (userId group : String) : M Bool :=
  mutateThenAnnounce (.removeGroupingPolicy userId group) (.groupRemove userId group)

def deleteGroup (group : String) : M Bool :=
  mutateThenAnnounce (.removeFilteredGroupingPolicy group) (.groupDelete group)

/-! ### Bootstrap -/

/-- `SUPERADMIN_ROLE`. -/
def superadminRole : String := "superadmin"

/-- The rights that `ensure_superadmin_rules` seeds. -/
def superadminRights : List (String × Action) :=
  [("rules", .read), ("rules", .write), ("user_groups", .read), ("user_groups", .write)]

/-- `ensure_superadmin_rules` over the rights that are left; returns the added ones. -/
def ensureSuperadminRules : List (String × Action) → M (List (String × Action))
  | [] => pure []
  | (obj, act) :: rest => do
    let success ← (Change.addPolicy [superadminRole, obj, act.text]).perform
    let added ← ensureSuperadminRules rest
    pure (if success then (obj, act) :: added else added)

/-- The loop that announces seeded rights. -/
def announceRights : List (String × Action) → M Unit
  | [] => pure ()
  | (obj, act) :: rest => do
    announce (.policyRuleAdd superadminRole obj act.text)
    announceRights rest

def claimSuperadmin (userId : String) : M Bool := do
  let users ← onPolicy (.getUsersForRole superadminRole)
  if ¬ users.isEmpty then
    let repaired ← ensureSuperadminRules superadminRights
    announceRights repaired
    pure false
  else
    -- The answer is dropped: the link is announced even if the store had its row already.
    let _ ← (Change.addGroupingPolicy [userId, superadminRole]).perform
    let seeded ← ensureSuperadminRules superadminRights
    announce (.groupAdd userId superadminRole)
    announceRights seeded
    pure true

end PolicyEngine

/-! ### Import -/

/-- `PolicyDump`. -/
structure PolicyDump where
  p : List (List String)
  g : List (List String)
  deriving DecidableEq, Repr

/-- `ImportReport`. -/
structure ImportReport where
  rulesAdded : Nat
  groupsAdded : Nat
  duplicates : Nat
  deriving DecidableEq, Repr

namespace PolicyAdmin

/-- A loop of `import_s3`. A row that was new is counted by `count` and announced. -/
def importEach (add : List String → Change) (op : List String → WalOp)
    (count : ImportReport → ImportReport) : List (List String) → ImportReport → M ImportReport
  | [], report => pure report
  | row :: rest, report => do
    let added ← (add row).perform
    if added then
      onWal (.append (op row))
      importEach add op count rest (count report)
    else importEach add op count rest { report with duplicates := report.duplicates + 1 }

def importRules : List (List String) → ImportReport → M ImportReport :=
  importEach .addPolicy
    (fun rule => .policyRuleAdd (rule.getD 0 "") (rule.getD 1 "") (rule.getD 2 ""))
    fun report => { report with rulesAdded := report.rulesAdded + 1 }

def importGroups : List (List String) → ImportReport → M ImportReport :=
  importEach .addGroupingPolicy (fun link => .groupAdd (link.getD 0 "") (link.getD 1 ""))
    fun report => { report with groupsAdded := report.groupsAdded + 1 }

/-- `import_s3`. The store is opened with an enforcer of its own. -/
def importS3 (dump : PolicyDump) : M ImportReport := do
  onPolicy .openStore
  let report ← importRules dump.p ⟨0, 0, 0⟩
  importGroups dump.g report

end PolicyAdmin

end RustApi
