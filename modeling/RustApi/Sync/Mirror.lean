import RustApi.Fs.Relations
import RustApi.Fs.System
import RustApi.Sync.Snapshot

/-!
# The RAM mirror of the master

`FsStore::new_mirrored` serves the point reads and the family scans of the snapshot manager
from a cache; the paged walk goes to the store. `build_full` refreshes the cache before it
reads, `replay` does not.

## Main results

- `mirror_transparent`: while no replay asks for something that the mirror has kept and the
  master has changed since, the manager does the same as over a plain store.
- `replay_reads_stale`: once a flush of the master has made a refresh warm the relations, an
  attachment that comes after the refresh is not replayed.
-/

namespace RustApi

open Lib

/-! ### Reads -/

/-- A read that the mirror serves: `get_one` of a key, or `scan_prefix` of a family. -/
inductive MirrorRead where
  | key (k : String)
  | family (p : String)
  deriving DecidableEq

/-- The keys that the read is about. -/
def MirrorRead.covers : MirrorRead → String → Bool
  | .key k, a => decide (a = k)
  | .family p, a => decide (p ≤ a) && decide (a ≤ FsStore.prefixScanEnd p)

/-- The rows that the read returns from a store. -/
def MirrorRead.rows (q : MirrorRead) (kv : Kv Value) : Kv Value := kv.filter fun k _ => q.covers k

/-- The read of a store call that goes to the mirror; the page walk and the writes do not. -/
def FsCall.mirrored : FsCall → Option MirrorRead
  | .getSession id => some (.key (FsStore.sessionKey id))
  | .loadMultipart uploadId => some (.key (FsStore.multipartKey uploadId))
  | .getFile id => some (.key (FsStore.fileKey id))
  | .getRefInfo fileId => some (.key (FsStore.refsKey fileId))
  | .rowsForFile _ => some (.family FsStore.relPrefix)
  | .filesForRow rowType rowId => some (.family (FsStore.relPrefixForRow rowType rowId))
  | .listFiles => some (.family FsStore.filesPrefix)
  | .listSessions => some (.family FsStore.uploadsPrefix)
  | _ => none

theorem MirrorRead.get_rows (k : String) (kv : Kv Value) :
    (MirrorRead.rows (.key k) kv)[k]? = kv[k]? := by
  rw [rows, Std.ExtTreeMap.getElem?_filter']
  cases kv[k]? <;> simp [covers]

theorem MirrorRead.scan_rows (p : String) (kv : Kv Value) :
    FsStore.scanPrefix p (MirrorRead.rows (.family p) kv) = FsStore.scanPrefix p kv := by
  simp only [FsStore.scanPrefix, Kv.getsBytes, rows, Std.ExtTreeMap.toList_filter, List.filter_filter]
  refine List.filter_congr fun e _ => ?_
  simp [covers]

/-- A read is answered alike from the rows it is about, and it writes nothing. -/
theorem FsCall.exec_rows {c : FsCall} {q : MirrorRead} (read : c.mirrored = some q) (now : Int)
    (kv : Kv Value) : (c.exec now (q.rows kv)).1 = (c.exec now kv).1 ∧ (c.exec now kv).2 = kv := by
  cases c with
  | getSession id =>
    obtain rfl := Option.some.inj read
    refine ⟨?_, rfl⟩
    simp only [exec, FsStore.getSession, MirrorRead.get_rows]
  | loadMultipart u =>
    obtain rfl := Option.some.inj read
    refine ⟨?_, rfl⟩
    simp only [exec, FsStore.loadMultipart, MirrorRead.get_rows]
  | getFile f =>
    obtain rfl := Option.some.inj read
    refine ⟨?_, rfl⟩
    simp only [exec, FsStore.getFile, MirrorRead.get_rows]
  | getRefInfo f =>
    obtain rfl := Option.some.inj read
    refine ⟨?_, rfl⟩
    simp only [exec, FsStore.getRefInfo, MirrorRead.get_rows]
  | rowsForFile f =>
    obtain rfl := Option.some.inj read
    refine ⟨?_, rfl⟩
    simp only [exec, FsStore.rowsForFile, MirrorRead.scan_rows]
  | filesForRow ty rid =>
    obtain rfl := Option.some.inj read
    refine ⟨?_, rfl⟩
    simp only [exec, FsStore.filesForRow, MirrorRead.scan_rows]
  | listFiles =>
    obtain rfl := Option.some.inj read
    refine ⟨?_, rfl⟩
    simp only [exec, FsStore.listFiles, FsStore.listMeta, MirrorRead.scan_rows]
  | listSessions =>
    obtain rfl := Option.some.inj read
    refine ⟨?_, rfl⟩
    simp only [exec, FsStore.listSessions, FsStore.listMeta, MirrorRead.scan_rows]
  | _ => cases read

/-! ### The mirror -/

/-- `CachedOxKvStore` over the master: what it has kept of a read, and how it opens, answers a
    read and converges. `flushed` is what a flush of the master, which changes its SST set, means
    for the next refresh. -/
structure Mirror where
  State : Type
  opened : State
  kept : State → MirrorRead → Option (Kv Value)
  read : MirrorRead → Kv Value → State → Kv Value × State
  refresh : Kv Value → State → State
  flushed : State → State

namespace Mirror

variable (m : Mirror)

/-- What the mirror has kept of a read is what the master answers. -/
def Fresh (kv : Kv Value) (s : m.State) (q : MirrorRead) : Prop :=
  ∀ rows, m.kept s q = some rows → rows = q.rows kv

/-- What is documented: it starts with nothing and warms on a miss, a miss falls through to the
    store, and after a refresh the reads reflect every write before it. What it has kept may be
    served although the master has changed. -/
structure Documented : Prop where
  opened : ∀ q, m.kept m.opened q = none
  refreshed : ∀ kv s q, m.Fresh kv (m.refresh kv s) q
  answers : ∀ q kv s, (m.read q kv s).1 = q.rows kv ∨ m.kept s q = some (m.read q kv s).1
  warms : ∀ q q' kv s, m.Fresh kv s q' → m.Fresh kv (m.read q kv s).2 q'

/-- A call of the snapshot manager, when its master store has the mirror. -/
def exec : (c : Call) → World × m.State → Except Error c.Ans × (World × m.State)
  | .fs .master c, (w, s) =>
    match c.mirrored with
    | some q => ((c.exec w.clock (m.read q w.master s).1).1, (w, (m.read q w.master s).2))
    | none => (((Call.fs .master c).exec w).1, (((Call.fs .master c).exec w).2, s))
  | c, (w, s) => ((c.exec w).1, ((c.exec w).2, s))

end Mirror

/-! ### Runs of the manager -/

def Call.mirrored : Call → Option MirrorRead
  | .fs .master c => c.mirrored
  | _ => none

/-- The reads of the mirror that a run of a program asks for. -/
def asked {α : Type} : M α → World → List MirrorRead
  | .ret _, _ => []
  | .call c next, w => c.mirrored.toList ++ asked (next (c.exec w).1) (c.exec w).2

/-- Calls of the snapshot manager. They do not write the master. -/
def Call.Snapshots : Call → Prop
  | .fs .master (.getFile _) | .fs .master (.getRefInfo _) | .fs .master (.rowsForFile _)
  | .fs .master (.filesForRow ..) | .fs .master (.page _) | .fs (.replica _) _ | .wal _
  | .policy .authorizer => True
  | _ => False

theorem Call.Snapshots.master {c : Call} (snapshots : c.Snapshots) (w : World) :
    (c.exec w).2.master = w.master := by
  cases c with
  | fs side c =>
    cases side with
    | replica sub => rfl
    | master => cases c <;> first | rfl | cases snapshots
  | wal c => rfl
  | policy c => rfl
  | _ => cases snapshots

/-- Nor does a run of them. -/
theorem run_master {α : Type} {p : M α} (only : p.Only Call.Snapshots) (w : World) :
    (p.runOn w).2.master = w.master := by
  induction p generalizing w with
  | ret r => rfl
  | call c next ih => exact (ih _ (only.2 _) _).trans (only.1.master w)

namespace Mirror

variable {m : Mirror} {α : Type}

/-- A call whose read is fresh is answered as by the store. -/
theorem Documented.exec_eq (doc : m.Documented) (c : Call) (w : World) (s : m.State)
    (fresh : ∀ q, c.mirrored = some q → m.Fresh w.master s q) :
    (m.exec c (w, s)).1 = (c.exec w).1 ∧ (m.exec c (w, s)).2.1 = (c.exec w).2 ∧
      ∀ q, m.Fresh w.master s q → m.Fresh w.master (m.exec c (w, s)).2.2 q := by
  cases c with
  | fs side c =>
    cases side with
    | replica sub => exact ⟨rfl, rfl, fun _ current => current⟩
    | master =>
      cases read : c.mirrored with
      | none =>
        have plain : m.exec (.fs .master c) (w, s) =
            (((Call.fs .master c).exec w).1, (((Call.fs .master c).exec w).2, s)) := by
          simp only [exec, read]
        -- a call that the mirror does not serve goes to the store
        rw [plain]
        exact ⟨rfl, rfl, fun _ current => current⟩
      | some q =>
        obtain ⟨same, quiet⟩ := FsCall.exec_rows read w.clock w.master
        have rows : (m.read q w.master s).1 = q.rows w.master := by
          -- the mirror reads through, or answers with rows that are still current
          rcases doc.answers q w.master s with through | kept
          · exact through
          · exact fresh q read _ kept
        simp only [exec, read, Call.exec, World.fsStore, rows, quiet]
        exact ⟨same, rfl, fun q' current => doc.warms q q' w.master s current⟩
  | _ => exact ⟨rfl, rfl, fun _ current => current⟩

/-- A run whose reads are fresh does what it does over the plain store, and what was fresh before
    it is fresh after it. -/
theorem Documented.run_eq (doc : m.Documented) {p : M α} (only : p.Only Call.Snapshots) (w : World)
    (s : m.State) (fresh : ∀ q ∈ asked p w, m.Fresh w.master s q) :
    (p.run m.exec (w, s)).1 = (p.runOn w).1 ∧ (p.run m.exec (w, s)).2.1 = (p.runOn w).2 ∧
      ∀ q, m.Fresh w.master s q → m.Fresh w.master (p.run m.exec (w, s)).2.2 q := by
  induction p generalizing w s with
  | ret r => exact ⟨rfl, rfl, fun _ current => current⟩
  | call c next ih =>
    obtain ⟨answer, world, current⟩ := doc.exec_eq c w s fun q read =>
      fresh q (List.mem_append_left _ (by rw [read]; exact List.mem_singleton_self q))
    have master := only.1.master w
    have rest := ih (c.exec w).1 (only.2 _) (c.exec w).2 (m.exec c (w, s)).2.2 fun q later => by
      rw [master]
      exact current q (fresh q (List.mem_append_right _ later))
    rw [← world, Prod.mk.eta] at rest
    simp only [Prog.run, M.runOn, answer, world, master] at rest ⊢
    exact ⟨rest.1, rest.2.1, fun q before => rest.2.2 q (current q before)⟩

end Mirror

namespace Snapshot

/-! ### The manager does not write the master -/

private theorem authorizedRows_snapshots (sub : String) (rows : List (String × String)) :
    (authorizedRows sub rows).Only Call.Snapshots := by
  induction rows with
  | nil => trivial
  | cons row rows ih =>
    refine ⟨trivial, ?_⟩
    rintro (e | policy)
    · trivial
    · exact Prog.only_bind (p := authorizedRows sub rows) ih fun _ => trivial

private theorem visibleRows_snapshots (sub f : String) :
    (visibleRows sub f).Only Call.Snapshots := by
  refine ⟨trivial, ?_⟩
  rintro (e | rows)
  · trivial
  · exact authorizedRows_snapshots sub rows

private theorem canRead_snapshots (sub f : String) : (canRead sub f).Only Call.Snapshots := by
  refine ⟨trivial, ?_⟩
  rintro (e | _ | rec)
  · trivial
  · trivial
  change Prog.Only _ (if _ then _ else _ : M Bool)
  split
  · trivial
  · exact Prog.only_bind (visibleRows_snapshots sub f) fun _ => trivial

private theorem write_snapshots {sub : String} (c : FsCall) :
    (onStore (.replica sub) c).Only Call.Snapshots := ⟨trivial, fun _ => trivial⟩

private theorem resyncFile_snapshots (sub ty rid f : String) :
    (resyncFile sub ty rid f).Only Call.Snapshots := by
  refine ⟨trivial, ?_⟩
  rintro (e | _ | rec)
  · trivial
  · exact write_snapshots _
  refine Prog.only_bind (p := canRead sub f) (canRead_snapshots sub f) fun readable => ?_
  split
  · exact write_snapshots _
  refine Prog.only_bind (write_snapshots (.saveFile rec)) fun _ => ⟨trivial, ?_⟩
  rintro (e | policy)
  · trivial
  change Prog.Only _ (if _ then _ else _ : M Unit)
  split
  · exact Prog.only_bind (write_snapshots (.attach ty rid f)) fun _ => trivial
  · exact Prog.only_bind (write_snapshots (.detach ty rid f)) fun _ => trivial

private theorem resyncFiles_snapshots (sub ty rid : String) (files : List String) :
    (resyncFiles sub ty rid files).Only Call.Snapshots := by
  induction files with
  | nil => trivial
  | cons f files ih => exact Prog.only_bind (resyncFile_snapshots sub ty rid f) fun _ => ih

private theorem resyncRows_snapshots (sub : String) (rows : List (String × String)) (total : Nat) :
    (resyncRows sub rows total).Only Call.Snapshots := by
  induction rows generalizing total with
  | nil => trivial
  | cons row rows ih =>
    refine ⟨trivial, ?_⟩
    rintro (e | files)
    · trivial
    change Prog.Only _ (if _ then _ else _ : M ApplyOutcome)
    split
    · trivial
    · exact Prog.only_bind (resyncFiles_snapshots sub row.1 row.2 files) fun _ => ih _

private theorem applyRuleOp_snapshots (sub ruleSub obj act : String) :
    (applyRuleOp sub ruleSub obj act).Only Call.Snapshots := by
  unfold applyRuleOp
  split
  · trivial
  split
  · trivial
  refine ⟨trivial, ?_⟩
  rintro (e | policy)
  · trivial
  change Prog.Only _ (if _ then _ else _ : M ApplyOutcome)
  split
  · trivial
  · exact resyncRows_snapshots sub _ 0

private theorem applyMembershipOp_snapshots (sub user group : String) :
    (applyMembershipOp sub user group).Only Call.Snapshots := by
  unfold applyMembershipOp
  split
  · trivial
  refine ⟨trivial, ?_⟩
  rintro (e | policy)
  · trivial
  · exact resyncRows_snapshots sub _ 0

private theorem applyOp_snapshots (sub : String) (op : WalOp) :
    (applyOp sub op).Only Call.Snapshots := by
  cases op with
  | fileCreate rec =>
    refine Prog.only_bind (canRead_snapshots sub rec.id) fun readable => ?_
    split
    · exact Prog.only_bind (write_snapshots (.saveFile rec)) fun _ => trivial
    · trivial
  | fileDelete f => exact Prog.only_bind (write_snapshots (.deleteFile f)) fun _ => trivial
  | attach ty rid f =>
    refine ⟨trivial, ?_⟩
    rintro (e | _ | rec)
    · trivial
    · trivial
    refine Prog.only_bind (p := canRead sub f) (canRead_snapshots sub f) fun readable => ?_
    split
    · refine Prog.only_bind (write_snapshots (.saveFile rec)) fun _ => ⟨trivial, ?_⟩
      rintro (e | policy)
      · trivial
      change Prog.Only _ (if _ then _ else _ : M ApplyOutcome)
      split
      · exact Prog.only_bind (write_snapshots (.attach ty rid f)) fun _ => trivial
      · trivial
    · trivial
  | detach ty rid f => exact Prog.only_bind (write_snapshots (.detach ty rid f)) fun _ => trivial
  | policyAdd obj => trivial
  | policyRemove obj => trivial
  | policyRuleAdd ruleSub obj act => exact applyRuleOp_snapshots sub ruleSub obj act
  | policyRuleRemove ruleSub obj act => exact applyRuleOp_snapshots sub ruleSub obj act
  | groupAdd user group => exact applyMembershipOp_snapshots sub user group
  | groupRemove user group => exact applyMembershipOp_snapshots sub user group
  | groupDelete group =>
    refine ⟨trivial, ?_⟩
    rintro (e | policy)
    · trivial
    change Prog.Only _ (if _ then _ else _ : M ApplyOutcome)
    split
    · trivial
    · exact resyncRows_snapshots sub _ 0

private theorem applyEntries_snapshots (sub : String) (entries : List WalEntry) :
    (applyEntries sub entries).Only Call.Snapshots := by
  induction entries with
  | nil => trivial
  | cons entry entries ih =>
    refine Prog.only_bind (applyOp_snapshots sub entry.op) fun outcome => ?_
    cases outcome with
    | applied => exact ih
    | needsFullRebuild => trivial

private theorem loadApplied_snapshots (sub : String) :
    (loadApplied sub).Only Call.Snapshots := by
  refine ⟨trivial, ?_⟩
  rintro (e | found)
  · trivial
  · cases found with
    | none => trivial
    | some v => cases v <;> trivial

theorem replay_snapshots (head : Nat) (sub : String) :
    (replay head sub).Only Call.Snapshots := by
  refine Prog.only_bind (loadApplied_snapshots sub) fun marker => ?_
  cases marker with
  | none => trivial
  | some applied =>
    change Prog.Only _ (if _ then _ else if _ then _ else _ : M ReplayOutcome)
    split
    · trivial
    split
    · trivial
    refine ⟨trivial, ?_⟩
    rintro (e | entries)
    · trivial
    change Prog.Only _ (if _ then _ else _ : M ReplayOutcome)
    split
    · trivial
    refine Prog.only_bind (applyEntries_snapshots sub entries) fun outcome => ?_
    cases outcome with
    | applied => exact Prog.only_bind (write_snapshots (.setBytes _ _)) fun _ => trivial
    | needsFullRebuild => trivial

end Snapshot

namespace Snapshot

/-- `build_full` after it has read the head. -/
def buildAt (fuel : Nat) (sub : String) (head : Nat) : M Nat := do
  let (undecodable, scratch) ← copyFiltered fuel sub
  if undecodable ≠ [] then
    Prog.fail (.fs (.internal ("full rebuild refused: " ++ toString undecodable.length ++
      " file metadata rows did not decode")))
  else do
    let staged ← diffLoop fuel sub scratch fuel KvPages.new KvPages.new []
    let applied ← loadApplied sub
    if staged.isEmpty ∧ applied = some head then pure head
    else do
      let _ ← onStore (.replica sub) (.commit (staged ++ [.put appliedKey (.applied head)]))
      pure head

theorem buildFull_eq (fuel : Nat) (sub : String) :
    buildFull fuel sub = (onWal .head >>= fun head : Nat => buildAt fuel sub head) := rfl

private theorem next_snapshots {side : Side} {scan : KvPages Value}
    (page : ∀ cursor, Call.Snapshots (.fs side (.page cursor))) :
    (KvPages.next (fun cursor => onStore side (.page cursor)) scan).Only Call.Snapshots := by
  unfold KvPages.next
  split
  · trivial
  split
  · trivial
  · exact ⟨page _, fun r => by cases r <;> trivial⟩

private theorem nextFile_snapshots (fuel : Nat) (scan : KvPages Value) :
    (nextFile fuel scan).Only Call.Snapshots := by
  induction fuel generalizing scan with
  | zero => trivial
  | succ fuel ih =>
    refine Prog.only_bind (next_snapshots fun _ => trivial) ?_
    rintro ⟨_ | e, scan⟩
    · trivial
    · dsimp only
      split
      · exact ih scan
      · trivial
      · exact Prog.only_bind (ih scan) fun _ => trivial

private theorem copyRecord_snapshots (sub : String) (rec : FileRecord) (dst : Kv Value) :
    (copyRecord sub rec dst).Only Call.Snapshots := by
  refine Prog.only_bind (visibleRows_snapshots sub rec.id) fun rows => ?_
  split
  · trivial
  refine ⟨trivial, ?_⟩
  rintro (e | info)
  · trivial
  change Prog.Only _ (if _ then _ else _ : M (Kv Value))
  split <;> trivial

private theorem copyLoop_snapshots (fuel : Nat) (sub : String) (n : Nat) (scan : KvPages Value)
    (undecodable : List String) (dst : Kv Value) :
    (copyLoop fuel sub n scan undecodable dst).Only Call.Snapshots := by
  induction n generalizing scan undecodable dst with
  | zero => trivial
  | succ n ih =>
    refine Prog.only_bind (nextFile_snapshots fuel scan) fun ⟨rec, skipped, scan⟩ => ?_
    cases rec with
    | none => trivial
    | some rec => exact Prog.only_bind (copyRecord_snapshots sub rec dst) fun dst => ih _ _ _

private theorem nextDataKey_snapshots (sub : String) (fuel : Nat) (live : KvPages Value) :
    (nextDataKey sub fuel live).Only Call.Snapshots := by
  induction fuel generalizing live with
  | zero => trivial
  | succ fuel ih =>
    refine Prog.only_bind (next_snapshots fun _ => trivial) fun ⟨kv, live⟩ => ?_
    cases kv with
    | none => trivial
    | some e =>
      change Prog.Only _ (if _ then _ else _ : M (Option (String × Value) × KvPages Value))
      split
      · trivial
      · exact ih live

private theorem diffLoop_snapshots (fuel : Nat) (sub : String) (scratch : Kv Value) (n : Nat)
    (desired live : KvPages Value) (staged : List (Kv.Write Value)) :
    (diffLoop fuel sub scratch n desired live staged).Only Call.Snapshots := by
  induction n generalizing desired live staged with
  | zero => trivial
  | succ n ih =>
    refine Prog.only_bind (nextDataKey_snapshots sub fuel live) fun ⟨b, live⟩ => ?_
    change Prog.Only _ (if (KvPages.nextIn scratch desired).1 = none ∧ b = none then pure staged
      else diffLoop fuel sub scratch n (KvPages.nextIn scratch desired).2 live
        (staged ++ diffStep (KvPages.nextIn scratch desired).1 b) : M (List (Kv.Write Value)))
    by_cases ended : (KvPages.nextIn scratch desired).1 = none ∧ b = none
    · rw [if_pos ended]
      trivial
    · rw [if_neg ended]
      exact ih _ _ _

theorem buildAt_snapshots (fuel : Nat) (sub : String) (head : Nat) :
    (buildAt fuel sub head).Only Call.Snapshots := by
  refine Prog.only_bind (copyLoop_snapshots fuel sub fuel _ _ _) fun ⟨undecodable, scratch⟩ => ?_
  change Prog.Only _ (if _ then _ else _ : M Nat)
  split
  · trivial
  refine Prog.only_bind (diffLoop_snapshots fuel sub scratch fuel _ _ _) fun staged => ?_
  refine Prog.only_bind (loadApplied_snapshots sub) fun applied => ?_
  split
  · trivial
  · exact Prog.only_bind (write_snapshots (.commit _)) fun _ => trivial

end Snapshot

/-- `build_full`: after the head was read the mirror converges, and the rebuild goes on. -/
def Mirror.buildFull (m : Mirror) (fuel : Nat) (sub : String) (t : World × m.State) :
    Except Error Nat × (World × m.State) :=
  match (onWal .head).run m.exec t with
  | (.error e, t) => (.error e, t)
  | (.ok (head : Nat), (w, s)) =>
    (Snapshot.buildAt fuel sub head).run m.exec (w, m.refresh w.master s)

/-- A rebuild reads nothing stale, whatever the mirror has kept, and leaves nothing stale when it
    has got past the head. -/
theorem Mirror.Documented.buildFull_eq {m : Mirror} (doc : m.Documented) (fuel : Nat) (sub : String)
    (w : World) (s : m.State) :
    (m.buildFull fuel sub (w, s)).2.1 = ((Snapshot.buildFull fuel sub).runOn w).2 ∧
      ∀ head, Wal.head w.wal = .ok head → ∀ q, m.Fresh (m.buildFull fuel sub (w, s)).2.1.master
        (m.buildFull fuel sub (w, s)).2.2 q := by
  have sampled : (onWal .head).run m.exec (w, s) = (Wal.head w.wal, (w, s)) := rfl
  rw [Snapshot.buildFull_eq]
  simp only [Mirror.buildFull, sampled]
  cases read : Wal.head w.wal with
  | error e =>
    rw [M.runOn_bind_of_error ((run_walHead w).trans (congrArg (·, w) read))]
    exact ⟨rfl, fun _ bad => nomatch bad⟩
  | ok head =>
    rw [M.runOn_bind_of_ok ((run_walHead w).trans (congrArg (·, w) read))]
    have only := Snapshot.buildAt_snapshots fuel sub head
    obtain ⟨-, world, fresh⟩ := doc.run_eq only w (m.refresh w.master s) fun q _ =>
      doc.refreshed w.master s q
    refine ⟨world, fun _ _ q => ?_⟩
    simp only [world, run_master only]
    exact fresh q (doc.refreshed w.master s q)

/-! ### Any sequence of calls -/

/-- A call on the master or of the manager, or a flush of the master. -/
inductive MirrorStep where
  | engine (op : FsOp)
  | replay (head : Nat) (sub : String)
  | build (sub : String)
  | flush

section Steps

variable (bucket : String) (fuel : Nat) (m : Mirror)

/-- The call, when the manager reads through a plain store. -/
def MirrorStep.plain : MirrorStep → World → World
  | .engine op, w => ((op.prog bucket).runOn w).2
  | .replay head sub, w => ((Snapshot.replay head sub).runOn w).2
  | .build sub, w => ((Snapshot.buildFull fuel sub).runOn w).2
  | .flush, w => w

/-- The call, when the manager reads through the mirror. The engine has a store of its own. -/
def MirrorStep.mirrored : MirrorStep → World × m.State → World × m.State
  | .engine op, (w, s) => (((op.prog bucket).runOn w).2, s)
  | .replay head sub, t => ((Snapshot.replay head sub).run m.exec t).2
  | .build sub, t => (m.buildFull fuel sub t).2
  | .flush, (w, s) => (w, m.flushed s)

/-- A replay asks for nothing that the mirror has kept and that the master has changed since. -/
def MirrorStep.Current : MirrorStep → World × m.State → Prop
  | .replay head sub, (w, s) => ∀ q ∈ asked (Snapshot.replay head sub) w, m.Fresh w.master s q
  | _, _ => True

/-- Each call of the sequence meets `Current` where it starts. -/
def AllCurrent : List MirrorStep → World × m.State → Prop
  | [], _ => True
  | step :: steps, t =>
    step.Current m t ∧ AllCurrent steps (step.mirrored bucket fuel m t)

end Steps

theorem MirrorStep.mirrored_eq {bucket : String} {fuel : Nat} {m : Mirror} (doc : m.Documented)
    (step : MirrorStep) (w : World) (s : m.State) (current : step.Current m (w, s)) :
    (step.mirrored bucket fuel m (w, s)).1 = step.plain bucket fuel w := by
  cases step with
  | engine op => rfl
  | replay head sub => exact (doc.run_eq (Snapshot.replay_snapshots head sub) w s current).2.1
  | build sub => exact (doc.buildFull_eq fuel sub w s).1
  | flush => rfl

/-- **The mirror does not show**. After every sequence of calls in which each replay is current,
    the world, the replicas with it, is the one that a plain store leads to. -/
theorem mirror_transparent {bucket : String} {fuel : Nat} {m : Mirror} (doc : m.Documented)
    (steps : List MirrorStep) (w : World) (current : AllCurrent bucket fuel m steps (w, m.opened)) :
    (steps.foldl (fun t step => step.mirrored bucket fuel m t) (w, m.opened)).1 =
      steps.foldl (fun w step => step.plain bucket fuel w) w := by
  have from_any : ∀ s : m.State, AllCurrent bucket fuel m steps (w, s) →
      (steps.foldl (fun t step => step.mirrored bucket fuel m t) (w, s)).1 =
        steps.foldl (fun w step => step.plain bucket fuel w) w := by
    clear current
    induction steps generalizing w with
    | nil => exact fun _ _ => rfl
    | cons step steps ih =>
      rintro s ⟨here, later⟩
      rw [List.foldl_cons, List.foldl_cons, ← step.mirrored_eq doc w s here]
      exact ih _ _ later
  exact from_any m.opened current

/-! ### A stale read -/

/-- What a mirror in `WarmMode::Lazy` holds: the rows of the reads that it has kept, the ranges that
    it was asked for, and whether the SST set has changed since the last refresh. -/
structure LazyMirror where
  rows : MirrorRead → Option (Kv Value)
  asked : List MirrorRead
  changed : Bool

namespace LazyMirror

/-- A miss falls through. A key is warm from then on; a range is kept once a refresh warms it. -/
def read (q : MirrorRead) (kv : Kv Value) (s : LazyMirror) : Kv Value × LazyMirror :=
  match s.rows q with
  | some rows => (rows, s)
  | none =>
    match q with
    | .key k => (q.rows kv, { s with rows := Function.update s.rows (.key k) (some (q.rows kv)) })
    | .family p => (q.rows kv, { s with asked := .family p :: s.asked })

/-- The replay of the log brings what is kept up to date. A full re-warm, after a change of the SST
    set, also warms the ranges that were asked for. -/
def refresh (kv : Kv Value) (s : LazyMirror) : LazyMirror where
  rows q := if (s.rows q).isSome || s.changed && s.asked.contains q then some (q.rows kv) else none
  asked := s.asked
  changed := false

end LazyMirror

def lazyMirror : Mirror where
  State := LazyMirror
  opened := ⟨fun _ => none, [], false⟩
  kept s q := s.rows q
  read := LazyMirror.read
  refresh := LazyMirror.refresh
  flushed s := { s with changed := true }

theorem lazyMirror_documented : lazyMirror.Documented where
  opened _ := rfl
  refreshed kv s q rows kept := by
    change (LazyMirror.refresh kv s).rows q = some rows at kept
    simp only [LazyMirror.refresh] at kept
    split at kept
    · exact (Option.some.inj kept).symm
    · cases kept
  answers q kv s := by
    change (LazyMirror.read q kv s).1 = _ ∨ LazyMirror.rows s q = some (LazyMirror.read q kv s).1
    cases kept : LazyMirror.rows s q with
    | none =>
      left
      cases q <;> simp [LazyMirror.read, kept]
    | some rows =>
      right
      simp [LazyMirror.read, kept]
  warms q q' kv s fresh rows kept := by
    change (LazyMirror.read q kv s).2.rows q' = some rows at kept
    cases before : LazyMirror.rows s q with
    | some rows' =>
      simp only [LazyMirror.read, before] at kept
      exact fresh rows kept
    | none =>
      cases q with
      | key k =>
        simp only [LazyMirror.read, before] at kept
        -- the key that was read is warm now, with what the master holds
        rcases update_eq_some.mp kept with ⟨rfl, rfl⟩ | ⟨-, old⟩
        · rfl
        · exact fresh rows old
      | family p =>
        simp only [LazyMirror.read, before] at kept
        exact fresh rows kept

/-- `carol`'s replica is built, the master flushes, and the next rebuild warms the relations. Then
    `bob` attaches the file, and `carol` polls. -/
def attachedSince : List MirrorStep :=
  [.build "carol", .flush, .build "carol", .engine (.attach "order" "7" "f" "bob"),
    .replay 1 "carol"]

/-- The replay finds the relations that the mirror warmed before the attachment. -/
theorem replay_reads_stale :
    ¬ ∀ (bucket : String) (fuel : Nat) (m : Mirror) (steps : List MirrorStep) (w : World)
      (sub : String), m.Documented →
      (steps.foldl (fun t step => step.mirrored bucket fuel m t) (w, m.opened)).1.replicas sub =
        (steps.foldl (fun w step => step.plain bucket fuel w) w).replicas sub := by
  intro claim
  have same := claim "b" 8 lazyMirror attachedSince orderWorld "carol" lazyMirror_documented
  have plain : FsStore.fileKey "f" ∈ (attachedSince.foldl (fun w step => step.plain "b" 8 w)
      orderWorld).replicas "carol" := by decide +kernel
  have mirrored : FsStore.fileKey "f" ∉ (attachedSince.foldl
      (fun t step => step.mirrored "b" 8 lazyMirror t)
        (orderWorld, lazyMirror.opened)).1.replicas "carol" := by decide +kernel
  exact mirrored (same ▸ plain)

-- without a flush no range is warm, and the replay falls through
example : FsStore.fileKey "f" ∈ ([.build "carol", .build "carol",
    .engine (.attach "order" "7" "f" "bob"), .replay 1 "carol"].foldl
      (fun t (step : MirrorStep) => step.mirrored "b" 8 lazyMirror t)
        (orderWorld, lazyMirror.opened)).1.replicas "carol" := by decide +kernel

/-- `alice` has a rebuild before `carol` polls. -/
def refreshedSince : List MirrorStep :=
  [.build "carol", .flush, .build "carol", .engine (.attach "order" "7" "f" "bob"),
    .build "alice", .replay 1 "carol"]

theorem mirror_transparent_refreshed :
    (refreshedSince.foldl (fun t step => step.mirrored "b" 8 lazyMirror t)
      (orderWorld, lazyMirror.opened)).1 =
        refreshedSince.foldl (fun w step => step.plain "b" 8 w) orderWorld := by
  refine mirror_transparent lazyMirror_documented refreshedSince orderWorld ⟨trivial, trivial,
    trivial, trivial, trivial, fun q _ => ?_, trivial⟩
  exact (lazyMirror_documented.buildFull_eq 8 "alice" _ _).2 1 (by decide +kernel) q

end RustApi
