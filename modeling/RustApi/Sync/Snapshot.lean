import RustApi.World

/-!
# Replica snapshots

`SnapshotManager`: the filtered copy of the master for one subject, the full
rebuild that diffs it into the live replica, and the incremental replay of feed
entries. Every function is a program of atomic calls; loops whose length the
source does not bound take fuel.
-/

namespace RustApi

open Lib

namespace Snapshot

/-- `APPLIED_KEY`. -/
def appliedKey : String := "sync:applied"

/-- `MAX_REPLAY_OPS`. -/
def maxReplayOps : Nat := 1000

/-- `MAX_POLICY_REPLAY_FILES`. -/
def maxPolicyReplayFiles : Nat := 1000

/-- `ApplyOutcome`. -/
inductive ApplyOutcome where
  | applied
  | needsFullRebuild
  deriving DecidableEq, Repr

/-- `ReplayOutcome`. -/
inductive ReplayOutcome where
  | advanced (seq : Nat)
  | needsFullRebuild
  deriving DecidableEq, Repr

/-! ### Visibility -/

/-- The loop of `visible_rows`: each row is authorized on its own. -/
def authorizedRows (sub : String) : List (String × String) → M (List (String × String))
  | [] => pure []
  | (ty, rid) :: rows => do
    let policy ← onPolicy .authorizer
    let out ← authorizedRows sub rows
    pure (if Policy.authorizeRow policy sub ty rid .read then (ty, rid) :: out else out)

def visibleRows (sub fileId : String) : M (List (String × String)) := do
  let rows ← onStore .master (.rowsForFile fileId)
  authorizedRows sub rows

def canRead (sub fileId : String) : M Bool := do
  match ← onStore .master (.getFile fileId) with
  | none => pure false
  | some rec =>
    -- the owner needs no row
    if rec.ownerSub = sub then pure true
    else do
      let rows ← visibleRows sub fileId
      pure !rows.isEmpty

/-! ### The filtered copy -/

/-- `next_file`: the next record of the walk, and the keys skipped on the way. -/
def nextFile : Nat → KvPages Value → M (Option FileRecord × List String × KvPages Value)
  | 0, _ => Prog.fail .outOfFuel
  | fuel + 1, scan => do
    let (kv, scan) ← KvPages.next (fun cursor => onStore .master (.page cursor)) scan
    match kv with
    | none => pure (none, [], scan)
    | some e =>
      match FsStore.metaRow FsStore.filesPrefix FsStore.Value.asFile e with
      -- a key of another family
      | none => nextFile fuel scan
      | some (.ok rec) => pure (some rec, [], scan)
      -- the walk goes on, and the caller refuses the copy at its end
      | some (.error key) => do
        let (rec, undecodable, scan) ← nextFile fuel scan
        pure (rec, key :: undecodable, scan)

/-- Attach the visible rows of one file in the scratch store. -/
def attachRows (fileId : String) : List (String × String) → Kv Value → Except Error (Kv Value)
  | [], dst => .ok dst
  | (ty, rid) :: rows, dst =>
    match FsStore.attach ty rid fileId dst with
    | .error e => .error e
    | .ok (_, dst) => attachRows fileId rows dst

/-- The body of the `copy_filtered` loop for one record. -/
def copyRecord (sub : String) (rec : FileRecord) (dst : Kv Value) : M (Kv Value) := do
  let rows ← visibleRows sub rec.id
  -- neither owned nor granted through a row
  if rec.ownerSub ≠ sub ∧ rows = [] then pure dst
  else do
    let dst := FsStore.saveFile rec dst
    -- a file without rows has no count to rebuild
    let info ← onStore .master (.getRefInfo rec.id)
    if RefInfo.count info > 0 then Prog.lift (attachRows rec.id rows dst) else pure dst

def copyLoop (fuel : Nat) (sub : String) :
    Nat → KvPages Value → List String → Kv Value → M (List String × Kv Value)
  | 0, _, _, _ => Prog.fail .outOfFuel
  | n + 1, scan, undecodable, dst => do
    let (rec, skipped, scan) ← nextFile fuel scan
    match rec with
    | none => pure (undecodable ++ skipped, dst)
    | some rec => do
      let dst ← copyRecord sub rec dst
      copyLoop fuel sub n scan (undecodable ++ skipped) dst

/-- `copy_filtered` into a fresh scratch store: the keys that did not decode, and what
    was written. -/
def copyFiltered (fuel : Nat) (sub : String) : M (List String × Kv Value) :=
  copyLoop fuel sub fuel KvPages.new [] ∅

/-! ### The full rebuild -/

/-- `load_applied`. A marker that does not decode counts as absent. -/
def loadApplied (sub : String) : M (Option Nat) := do
  match ← onStore (.replica sub) (.getBytes appliedKey) with
  | some (.applied seq) => pure (some seq)
  | _ => pure none

/-- `next_data_key`: step over the coverage marker. -/
def nextDataKey (sub : String) : Nat → KvPages Value → M (Option (String × Value) × KvPages Value)
  | 0, _ => Prog.fail .outOfFuel
  | fuel + 1, live => do
    let (kv, live) ← KvPages.next (fun cursor => onStore (.replica sub) (.page cursor)) live
    match kv with
    | none => pure (none, live)
    | some e => if e.1 ≠ appliedKey then pure (some e, live) else nextDataKey sub fuel live

/-- What one iteration of the diff stages for the key at hand on each side. -/
def diffStep : Option (String × Value) → Option (String × Value) → List (Kv.Write Value)
  | none, none => []
  | some a, none => [.put a.1 a.2]
  | none, some b => [.delete b.1]
  | some a, some b =>
    match compare a.1 b.1 with
    | .lt => [.put a.1 a.2]
    | .gt => [.delete b.1]
    | .eq => if a.2 ≠ b.2 then [.put a.1 a.2] else []

/-- The loop of `build_full`. Each iteration takes the next key of both sides. -/
def diffLoop (fuel : Nat) (sub : String) (scratch : Kv Value) :
    Nat → KvPages Value → KvPages Value → List (Kv.Write Value) → M (List (Kv.Write Value))
  | 0, _, _, _ => Prog.fail .outOfFuel
  | n + 1, desired, live, staged => do
    let (a, desired) := KvPages.nextIn scratch desired
    let (b, live) ← nextDataKey sub fuel live
    if a = none ∧ b = none then pure staged
    else diffLoop fuel sub scratch n desired live (staged ++ diffStep a b)

def buildFull (fuel : Nat) (sub : String) : M Nat := do
  -- the head first: what is appended later is replayed again
  let head : Nat ← onWal .head
  let (undecodable, scratch) ← copyFiltered fuel sub
  -- an unread row would be deleted from the replica
  if undecodable ≠ [] then
    Prog.fail (.fs (.internal ("full rebuild refused: " ++ toString undecodable.length ++
      " file metadata rows did not decode")))
  else do
    let staged ← diffLoop fuel sub scratch fuel KvPages.new KvPages.new []
    let applied ← loadApplied sub
    -- nothing changed and nothing new is covered: no commit
    if staged.isEmpty ∧ applied = some head then pure head
    else do
      let _ ← onStore (.replica sub) (.commit (staged ++ [.put appliedKey (.applied head)]))
      pure head

/-! ### Replay -/

/-- `resync_file`. -/
def resyncFile (sub rowType rowId fileId : String) : M Unit := do
  match ← onStore .master (.getFile fileId) with
  -- a file that the master does not have any more
  | none => onStore (.replica sub) (.deleteFile fileId)
  | some rec => do
    let readable ← canRead sub fileId
    if ¬ readable then onStore (.replica sub) (.deleteFile fileId)
    else do
      let _ ← onStore (.replica sub) (.saveFile rec)
      let policy ← onPolicy .authorizer
      if Policy.authorizeRow policy sub rowType rowId .read then do
        let _ ← onStore (.replica sub) (.attach rowType rowId fileId)
        pure ()
      else do
        let _ ← onStore (.replica sub) (.detach rowType rowId fileId)
        pure ()

def resyncFiles (sub rowType rowId : String) : List String → M Unit
  | [] => pure ()
  | fileId :: files => do
    let _ ← resyncFile sub rowType rowId fileId
    resyncFiles sub rowType rowId files

/-- The row loop that `apply_membership_op` and `apply_group_delete` share; `total` counts
    the files seen so far. -/
def resyncRows (sub : String) : List (String × String) → Nat → M ApplyOutcome
  | [], _ => pure .applied
  | (ty, rid) :: rows, total => do
    let files ← onStore .master (.filesForRow ty rid)
    -- a rebuild is cheaper than that many files one by one
    if total + List.length files > maxPolicyReplayFiles then pure .needsFullRebuild
    else do
      let _ ← resyncFiles sub ty rid files
      resyncRows sub rows (total + List.length files)

def applyRuleOp (sub ruleSub obj act : String) : M ApplyOutcome :=
  if ¬ Policy.isRead act then pure .applied
  else
    match Policy.splitRowObj obj with
    | none => pure .applied
    | some (ty, rid) => do
      let policy ← onPolicy .authorizer
      if ruleSub ≠ sub ∧ ruleSub ∉ Policy.implicitGroups policy sub then pure .applied
      else resyncRows sub [(ty, rid)] 0

def applyMembershipOp (sub user group : String) : M ApplyOutcome :=
  if user ≠ sub then pure .applied
  else do
    let policy ← onPolicy .authorizer
    resyncRows sub (Policy.readRowsForGroup policy group) 0

def applyGroupDelete (sub group : String) : M ApplyOutcome := do
  let policy ← onPolicy .authorizer
  let rows := Policy.readRowsForGroup policy group
  if rows = [] then pure .applied else resyncRows sub rows 0

def applyOp (sub : String) : WalOp → M ApplyOutcome
  | .fileCreate rec => do
    if ← canRead sub rec.id then
      let _ ← onStore (.replica sub) (.saveFile rec)
      pure .applied
    else pure .applied
  | .fileDelete fileId => do
    let _ ← onStore (.replica sub) (.deleteFile fileId)
    pure .applied
  | .attach rowType rowId fileId => do
    match ← onStore .master (.getFile fileId) with
    -- a later entry says that the file was deleted
    | none => pure .applied
    | some rec =>
      if ← canRead sub fileId then
        let _ ← onStore (.replica sub) (.saveFile rec)
        let policy ← onPolicy .authorizer
        if Policy.authorizeRow policy sub rowType rowId .read then
          let _ ← onStore (.replica sub) (.attach rowType rowId fileId)
          pure .applied
        else pure .applied
      else pure .applied
  | .detach rowType rowId fileId => do
    let _ ← onStore (.replica sub) (.detach rowType rowId fileId)
    pure .applied
  | .policyAdd _ => pure .needsFullRebuild
  | .policyRemove _ => pure .needsFullRebuild
  | .policyRuleAdd ruleSub obj act => applyRuleOp sub ruleSub obj act
  | .policyRuleRemove ruleSub obj act => applyRuleOp sub ruleSub obj act
  | .groupAdd user group => applyMembershipOp sub user group
  | .groupRemove user group => applyMembershipOp sub user group
  | .groupDelete group => applyGroupDelete sub group

def applyEntries (sub : String) : List WalEntry → M ApplyOutcome
  | [] => pure .applied
  | entry :: entries => do
    match ← applyOp sub entry.op with
    | .needsFullRebuild => pure .needsFullRebuild
    | .applied => applyEntries sub entries

def replay (head : Nat) (sub : String) : M ReplayOutcome := do
  match ← loadApplied sub with
  | none => pure .needsFullRebuild
  | some applied =>
    -- the feed has rewound, or the marker outlived the entries it covers
    if applied > head then pure .needsFullRebuild
    else if applied = head then pure (.advanced applied)
    else do
      let entries ← onWal (.range (applied + 1) head)
      if List.length entries > maxReplayOps ∨
          (List.any entries fun e => WalOp.isLegacyPolicyMark (WalEntry.op e)) = true then
        pure .needsFullRebuild
      else do
        match ← applyEntries sub entries with
        | .needsFullRebuild => pure .needsFullRebuild
        | .applied => do
          -- the marker moves once, behind the last entry
          let _ ← onStore (.replica sub) (.setBytes appliedKey (.applied head))
          pure (.advanced head)

end Snapshot

end RustApi
