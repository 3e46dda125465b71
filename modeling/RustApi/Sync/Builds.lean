import RustApi.Lib.Pool
import RustApi.Sync.Snapshot
import Mathlib

/-!
# The build queue

`BuildQueue` with its in-flight set, the requests that claim a subject in `advance`,
and the workers of `BuildPool` that run the queued rebuilds. A `BuildClaim` is held by
a request, travels with a queued job or is held by a worker, and its destructor takes
the subject out of the set. Requests and workers can be dropped wherever they wait.

## Main result

`single_builder`: in every state of every run a subject is in flight exactly when one
claim for it is alive, so no two replays or rebuilds of one subject run at once.
-/

namespace RustApi

open Lib

/-- `FsError::is_fencing_loss`. -/
def Error.isFencingLoss : Error → Bool
  | .fs (.fenced _) => true
  | _ => false

/-- `BuildJob`, with the claim it carries. -/
structure BuildJob where
  sub : String
  head : Nat
  deriving DecidableEq, Repr

/-- `AdvanceOutcome`. -/
structure AdvanceOutcome where
  appliedSeq : Nat
  pending : Bool
  deriving DecidableEq, Repr

/-- What a worker gets from the channel before its timeout. -/
inductive Received where
  | job (j : BuildJob)
  | closed
  | timeout
  deriving DecidableEq, Repr

/-! ### Calls -/

/-- Calls of the manager and of its pool. `work` marks the calls of a replay or of a
    rebuild for a subject, and `base` the others on the stores and the feed; `release` is
    the destructor of a claim and `reply` the value that `advance` returns. -/
inductive BuildCall where
  | base (c : Call)
  | work (sub : String) (c : Call)
  | claim (sub : String)
  | release (sub : String)
  | dispatch (sub : String) (head : Nat)
  | recv
  | isCancelled
  | reply (out : AdvanceOutcome)

@[reducible] def BuildCall.Ans : BuildCall → Type
  | .base c => c.Ans
  | .work _ c => c.Ans
  | .claim _ => Bool
  | .dispatch .. => Bool
  | .recv => Received
  | .isCancelled => Bool
  | _ => Unit

structure BuildWorld where
  base : World
  inflight : Finset String
  queue : List BuildJob
  receiving : Bool
  cancelled : Bool

/-- Dropping jobs drops their claims. -/
def BuildWorld.dropJobs (inflight : Finset String) (jobs : List BuildJob) : Finset String :=
  jobs.foldl (fun set job => set.erase job.sub) inflight

def BuildCall.exec : (c : BuildCall) → BuildWorld → Except Error c.Ans × BuildWorld
  | .base c, w => ((c.exec w.base).1, { w with base := (c.exec w.base).2 })
  | .work _ c, w => ((c.exec w.base).1, { w with base := (c.exec w.base).2 })
  | .claim sub, w =>
    if sub ∈ w.inflight then (.ok false, w)
    else (.ok true, { w with inflight := insert sub w.inflight })
  | .release sub, w => (.ok (), { w with inflight := w.inflight.erase sub })
  | .dispatch sub head, w =>
    -- Without a receiver the job comes back inside the error and is dropped there.
    if w.receiving then (.ok true, { w with queue := w.queue ++ [⟨sub, head⟩] })
    else (.ok false, { w with inflight := w.inflight.erase sub })
  | .recv, w =>
    match w.queue with
    | job :: queue => (.ok (.job job), { w with queue := queue })
    | [] => (.ok (if w.receiving then .timeout else .closed), w)
  | .isCancelled, w => (.ok w.cancelled, w)
  | .reply _, w => (.ok (), w)

def BuildCall.mayFail : BuildCall → Error → Prop
  | .base c, _ => c.mayFail = true
  | .work _ c, _ => c.mayFail = true
  | _, _ => False

/-! ### Requests and workers -/

abbrev BuildM (α : Type) : Type := Prog BuildCall.Ans Error α

namespace Builds

def onBuild (c : BuildCall) : BuildM c.Ans := Prog.perform c

/-- Calls of the manager that belong to no build. -/
def outside {α : Type} : M α → BuildM α
  | .ret r => .ret r
  | .call c next => .call (.base c) fun r => outside (next r)

/-- The calls of a replay or of a rebuild for `sub`. -/
def working {α : Type} (sub : String) : M α → BuildM α
  | .ret r => .ret r
  | .call c next => .call (.work sub c) fun r => working sub (next r)

def advance (sub : String) : BuildM AdvanceOutcome := do
  let head ← outside (onWal .head)
  let applied ← outside (Snapshot.loadApplied sub)
  if applied = some head then pure ⟨head, false⟩
  else do
    let claimed ← onBuild (.claim sub)
    if claimed = false then pure ⟨applied.getD 0, true⟩
    else do
      match ← (working sub (Snapshot.replay head sub)).attempt with
      | .ok (.advanced seq) => do
        let _ ← onBuild (.release sub)
        pure ⟨seq, false⟩
      | .ok .needsFullRebuild => do
        let _ ← onBuild (.dispatch sub head)
        let applied ← outside (Snapshot.loadApplied sub)
        pure ⟨applied.getD 0, true⟩
      | .error e => do
        let _ ← onBuild (.release sub)
        if e.isFencingLoss then
          match ← outside (Snapshot.loadApplied sub) with
          | none => Prog.fail e
          | some seq => pure ⟨seq, false⟩
        else Prog.fail e

/-- A task of `BuildPool::spawn`, for any number of turns of its loop. The claim goes with
    the job when the turn ends, however the rebuild ended. -/
def worker (fuel : Nat) : Nat → BuildM Unit
  | 0 => pure ()
  | n + 1 => do
    if (← onBuild .isCancelled) = true then pure ()
    else do
      match ← onBuild .recv with
      | .closed => pure ()
      | .timeout => worker fuel n
      | .job job => do
        if (← onBuild .isCancelled) = true then onBuild (.release job.sub)
        else do
          let _ ← (working job.sub (Snapshot.buildFull fuel job.sub)).attempt
          let _ ← onBuild (.release job.sub)
          worker fuel n

end Builds

inductive BuildOp where
  | advance (sub : String)
  | worker (fuel turns : Nat)
  deriving DecidableEq

def BuildOp.prog : BuildOp → BuildM Unit
  | .advance sub => do
    let out ← Builds.advance sub
    Builds.onBuild (.reply out)
  | .worker fuel turns => Builds.worker fuel turns

/-- The claim that a request or a worker holds after one more answer. -/
def BuildCall.claimAfter (held : Option String) : (c : BuildCall) → Except Error c.Ans → Option String
  | .claim sub, .ok true => some sub
  | .release _, _ => none
  | .dispatch .., _ => none
  | .recv, .ok (.job job) => some job.sub
  | _, _ => held

/-- The claim that is alive in a request or a worker. -/
def heldClaim (past : List (Event BuildCall.Ans Error)) : Option String :=
  past.foldl (fun held e => e.1.claimAfter held e.2) none

/-- The log is kept and may have grown. -/
def Wal.Grows (kv kv' : Kv WalValue) : Prop :=
  ∀ entries, Wal.Log kv entries → ∃ more, Wal.Log kv' (entries ++ more)

/-- What happens around requests and workers: others use the stores and the feed, the pool
    is cancelled, or the receiver goes away with the jobs in it. -/
inductive BuildEnv (w : BuildWorld) : BuildWorld → Prop where
  | others (base : World) (feed : Wal.Grows w.base.wal base.wal) : BuildEnv w { w with base := base }
  | cancel : BuildEnv w { w with cancelled := true }
  | close : BuildEnv w { w with
      receiving := false, queue := [], inflight := BuildWorld.dropJobs w.inflight w.queue }

def buildSystem : System BuildCall.Ans Error BuildWorld BuildOp where
  exec := BuildCall.exec
  enabled := fun _ _ => True
  mayFail := BuildCall.mayFail
  mayDrop := fun _ => True
  drop := fun _ past w =>
    match heldClaim past with
    | none => w
    | some sub => { w with inflight := w.inflight.erase sub }
  env := BuildEnv
  prog := BuildOp.prog

abbrev BuildPool : Type := Pool BuildCall.Ans Error BuildWorld BuildOp

/-- A new queue in front of any stores, with or without a pool that drains it. -/
def buildPool (base : World) (receiving : Bool) : BuildPool :=
  ⟨⟨base, ∅, [], receiving, false⟩, fun _ => none⟩

/-! ### What a claim allows -/

/-- A build runs under the claim for its subject, and nobody takes a second claim. -/
@[reducible] def claimProtocol : Prog.Protocol BuildCall.Ans Error where
  State := Option String
  allowed held c :=
    match c with
    | .work sub _ => held = some sub
    | .claim _ => held = none
    | .release sub => held = some sub
    | .dispatch sub _ => held = some sub
    | .recv => held = none
    | _ => True
  possible c r :=
    match c with
    | .base _ => True
    | .work .. => True
    | _ => ∀ e, r ≠ .error e
  track held c r := c.claimAfter held r

namespace Builds

private theorem outside_conf {α : Type} {held : Option String}
    {post : Option String → Except Error α → Prop} (p : M α) (holds : ∀ r, post held r) :
    (outside p).Conf claimProtocol post held := by
  induction p with
  | ret r => exact holds r
  | call c next ih => exact ⟨trivial, fun r _ => ih r⟩

private theorem working_conf {α : Type} {sub : String}
    {post : Option String → Except Error α → Prop} (p : M α) (holds : ∀ r, post (some sub) r) :
    (working sub p).Conf claimProtocol post (some sub) := by
  induction p with
  | ret r => exact holds r
  | call c next ih => exact ⟨rfl, fun r _ => ih r⟩

private theorem advance_conf (sub : String) :
    (advance sub).Conf claimProtocol (fun held _ => held = none) none := by
  refine Prog.conf_bind.mpr (outside_conf _ ?_)
  rintro (e | head)
  · rfl
  refine Prog.conf_bind.mpr (outside_conf _ ?_)
  rintro (e | applied)
  · rfl
  dsimp only
  split
  · rfl
  refine Prog.conf_bind.mpr ⟨rfl, ?_⟩
  rintro (e | claimed) possible
  · exact (possible e rfl).elim
  -- without the claim nothing is released; with it every way out releases it
  cases claimed with
  | false => rfl
  | true =>
    refine Prog.conf_bind.mpr (Prog.conf_attempt.mpr (working_conf _ ?_))
    intro r
    match r with
    | .ok (.advanced seq) => exact ⟨rfl, fun r _ => by cases r <;> rfl⟩
    | .ok .needsFullRebuild =>
      refine Prog.conf_seq rfl (fun _ => rfl) fun sent => ?_
      refine Prog.conf_bind.mpr (outside_conf _ ?_)
      rintro (e | applied)
      · rfl
      · rfl
    | .error e =>
      refine Prog.conf_seq rfl (fun _ => rfl) fun _ => ?_
      change (if e.isFencingLoss = true then _ else Prog.fail e : BuildM _).Conf claimProtocol _ none
      split
      · refine Prog.conf_bind.mpr (outside_conf _ ?_)
        rintro (e' | (_ | seq))
        · rfl
        · rfl
        · rfl
      · rfl

private theorem worker_conf (fuel n : Nat) :
    (worker fuel n).Conf claimProtocol (fun held _ => held = none) none := by
  induction n with
  | zero => rfl
  | succ n ih =>
    refine Prog.conf_bind.mpr ⟨trivial, ?_⟩
    rintro (e | (_ | _)) -
    · rfl
    · refine Prog.conf_bind.mpr ⟨rfl, ?_⟩
      rintro (e | (job | _ | _)) -
      · rfl
      · refine Prog.conf_bind.mpr ⟨trivial, ?_⟩
        rintro (e | (_ | _)) possible
        · exact (possible e rfl).elim
        · refine Prog.conf_bind.mpr (Prog.conf_attempt.mpr (working_conf _ ?_))
          intro r
          refine Prog.conf_seq rfl (fun _ => rfl) fun _ => ?_
          exact ih
        · exact ⟨rfl, fun r _ => by cases r <;> rfl⟩
      · rfl
      · exact ih
    · rfl

end Builds

private theorem buildOp_conf (op : BuildOp) :
    op.prog.Conf claimProtocol (fun held _ => held = none) none := by
  cases op with
  | advance sub =>
    refine Prog.conf_bind.mpr ((Builds.advance_conf sub).mono ?_)
    rintro held (e | out) rfl
    · rfl
    · exact ⟨trivial, fun r _ => by cases r <;> rfl⟩
  | worker fuel turns => exact Builds.worker_conf fuel turns

/-! ### Live claims -/

/-- Where a claim is alive: in a request or a worker, or in the queue. -/
inductive Location where
  | proc (pid : Nat)
  | queued (i : Nat)
  deriving DecidableEq

/-- The claim for `sub` that is alive at a place. -/
def Holds (s : BuildPool) (sub : String) : Location → Prop
  | .proc pid => ∃ p, s.procs pid = some p ∧ heldClaim p.past = some sub
  | .queued i => (s.world.queue[i]?).map (·.sub) = some sub

/-- A replay or a rebuild for `sub` is about to make its next call. -/
def Building (s : BuildPool) (sub : String) (pid : Nat) : Prop :=
  ∃ p c next, s.procs pid = some p ∧ p.rest = .call (.work sub c) next

/-- The in-flight set has exactly the subjects with a claim, and no subject has two.
    `held` is the claim of each request and worker. -/
structure Claims (inflight : Finset String) (queue : List BuildJob) (held : Nat → Option String) :
    Prop where
  listed : ∀ sub, sub ∈ inflight ↔ sub ∈ queue.map (·.sub) ∨ ∃ pid, held pid = some sub
  queued : (queue.map (·.sub)).Nodup
  apart : ∀ pid sub, held pid = some sub → sub ∉ queue.map (·.sub)
  single : ∀ pid pid' sub, held pid = some sub → held pid' = some sub → pid = pid'

namespace Claims

variable {inflight : Finset String} {queue : List BuildJob} {held : Nat → Option String}
  {pid : Nat} {sub : String}

/-- A claim that nobody has can be given to `pid`. -/
private theorem single_of_taken (claims : Claims inflight queue held)
    (free : ∀ q, held q ≠ some sub) {q q' : Nat} {other : String}
    (found : Function.update held pid (some sub) q = some other)
    (found' : Function.update held pid (some sub) q' = some other) : q = q' := by
  refine single_update (K := fun claim key : String => claim = key) ?_ ?_ found found' rfl rfl
  · rintro p p' _ _ key here there rfl rfl
    exact claims.single p p' _ here there
  · rintro p _ key - here rfl rfl
    exact free p here

/-- Who has a claim after `pid` took the one for `sub`. -/
private theorem held_of_taken {other : String} (idle : held pid = none) :
    (∃ q, Function.update held pid (some sub) q = some other) ↔
      other = sub ∨ ∃ q, held q = some other := by
  constructor
  · rintro ⟨q, found⟩
    rcases update_eq_some.mp found with ⟨-, rfl⟩ | ⟨-, found⟩
    · exact .inl rfl
    · exact .inr ⟨q, found⟩
  · rintro (rfl | ⟨q, found⟩)
    · exact ⟨pid, Function.update_self ..⟩
    · exact ⟨q, update_fresh idle found⟩

/-- `claim` on a subject that is not in flight. -/
theorem take (claims : Claims inflight queue held) (idle : held pid = none)
    (free : sub ∉ inflight) :
    Claims (insert sub inflight) queue (Function.update held pid (some sub)) := by
  rw [claims.listed, not_or, not_exists] at free
  refine ⟨?_, claims.queued, ?_, ?_⟩
  · intro other
    rw [Finset.mem_insert, claims.listed, held_of_taken idle, or_left_comm]
  · intro q other found
    rcases update_eq_some.mp found with ⟨-, rfl⟩ | ⟨-, found⟩
    · exact free.1
    · exact claims.apart q other found
  · exact fun q q' other found found' => claims.single_of_taken free.2 found found'

/-- Once `pid` gave its claim away, nobody else has one for that subject. -/
private theorem held_of_given {other : String} {q : Nat}
    (found : Function.update held pid none q = some other) : q ≠ pid ∧ held q = some other := by
  by_cases same : q = pid
  · subst same
    simp at found
  · rw [Function.update_of_ne same] at found
    exact ⟨same, found⟩

private theorem single_of_given (claims : Claims inflight queue held) {q q' : Nat} {other : String}
    (found : Function.update held pid none q = some other)
    (found' : Function.update held pid none q' = some other) : q = q' :=
  claims.single q q' other (held_of_given found).2 (held_of_given found').2

/-- The destructor of the claim that `pid` holds. -/
theorem release (claims : Claims inflight queue held) (taken : held pid = some sub) :
    Claims (inflight.erase sub) queue (Function.update held pid none) := by
  refine ⟨?_, claims.queued, ?_, fun q q' other => claims.single_of_given⟩
  · intro other
    rw [Finset.mem_erase, claims.listed]
    constructor
    · rintro ⟨differs, inQueue | ⟨q, found⟩⟩
      · exact .inl inQueue
      · refine .inr ⟨q, ?_⟩
        rw [Function.update_of_ne]
        · exact found
        · rintro rfl
          rw [taken] at found
          exact differs (Option.some.inj found).symm
    · rintro (inQueue | ⟨q, found⟩)
      · refine ⟨?_, .inl inQueue⟩
        rintro rfl
        exact claims.apart pid other taken inQueue
      · obtain ⟨differs, found⟩ := held_of_given found
        refine ⟨?_, .inr ⟨q, found⟩⟩
        rintro rfl
        exact differs (claims.single q pid other found taken)
  · intro q other found
    exact claims.apart q other (held_of_given found).2

/-- `dispatch` moves the claim into the queue. -/
theorem send (claims : Claims inflight queue held) (taken : held pid = some sub) (head : Nat) :
    Claims inflight (queue ++ [⟨sub, head⟩]) (Function.update held pid none) := by
  refine ⟨?_, ?_, ?_, fun q q' other => claims.single_of_given⟩
  · intro other
    rw [claims.listed, List.map_append, List.mem_append]
    constructor
    · rintro (inQueue | ⟨q, found⟩)
      · exact .inl (.inl inQueue)
      · by_cases same : q = pid
        · subst same
          rw [taken] at found
          exact .inl (.inr (by simp [Option.some.inj found]))
        · exact .inr ⟨q, by rwa [Function.update_of_ne same]⟩
    · rintro ((inQueue | last) | ⟨q, found⟩)
      · exact .inl inQueue
      · rw [List.map_singleton, List.mem_singleton] at last
        exact .inr ⟨pid, last ▸ taken⟩
      · exact .inr ⟨q, (held_of_given found).2⟩
  · rw [List.map_append, List.map_singleton, List.nodup_append]
    refine ⟨claims.queued, List.nodup_singleton _, ?_⟩
    rintro a inQueue b last rfl
    cases List.mem_singleton.mp last
    exact claims.apart pid _ taken inQueue
  · intro q other found
    obtain ⟨differs, found⟩ := held_of_given found
    rw [List.map_append, List.mem_append, not_or, List.map_singleton, List.mem_singleton]
    refine ⟨claims.apart q other found, ?_⟩
    rintro rfl
    exact differs (claims.single q pid other found taken)

/-- A worker takes the first job with its claim. -/
theorem receive {job : BuildJob} (claims : Claims inflight (job :: queue) held)
    (idle : held pid = none) :
    Claims inflight queue (Function.update held pid (some job.sub)) := by
  have distinct := List.nodup_cons.mp claims.queued
  have first : ∀ q, held q ≠ some job.sub := fun q found =>
    claims.apart q job.sub found (by simp)
  refine ⟨?_, distinct.2, ?_, ?_⟩
  · intro other
    rw [claims.listed, List.map_cons, List.mem_cons, held_of_taken idle, or_assoc, or_left_comm]
  · intro q other found
    rcases update_eq_some.mp found with ⟨-, rfl⟩ | ⟨-, found⟩
    · exact distinct.1
    · exact fun inQueue => claims.apart q other found (List.mem_cons_of_mem _ inQueue)
  · exact fun q q' other found found' => claims.single_of_taken first found found'

private theorem mem_dropJobs (jobs : List BuildJob) (set : Finset String) (sub : String) :
    sub ∈ BuildWorld.dropJobs set jobs ↔ sub ∈ set ∧ sub ∉ jobs.map (·.sub) := by
  induction jobs generalizing set with
  | nil => simp [BuildWorld.dropJobs]
  | cons job jobs ih =>
    have unfolded : BuildWorld.dropJobs set (job :: jobs) =
      BuildWorld.dropJobs (set.erase job.sub) jobs := rfl
    rw [unfolded, ih, Finset.mem_erase, List.map_cons, List.mem_cons]
    tauto

/-- The receiver goes away with the jobs in it. -/
theorem close (claims : Claims inflight queue held) :
    Claims (BuildWorld.dropJobs inflight queue) [] held := by
  refine ⟨?_, List.nodup_nil, fun _ _ _ => List.not_mem_nil, claims.single⟩
  intro sub
  rw [mem_dropJobs, claims.listed]
  constructor
  · rintro ⟨inQueue | found, gone⟩
    · exact absurd inQueue gone
    · exact .inr found
  · rintro (bad | ⟨q, found⟩)
    · cases bad
    · exact ⟨.inr ⟨q, found⟩, claims.apart q sub found⟩

end Claims

/-! ### Whole runs -/

section Steps

variable {w : BuildWorld} {view : Nat → Option (BuildOp × Option String)} {pid : Nat}
  {op : BuildOp}

/-- The claims of the requests and workers that are observed. -/
private def heldIn (view : Nat → Option (BuildOp × Option String)) (pid : Nat) : Option String :=
  (view pid).bind (·.2)

private theorem heldIn_update (x : Option String) :
    heldIn (Function.update view pid (some (op, x))) = Function.update (heldIn view) pid x := by
  funext q
  by_cases same : q = pid
  · subst same
    simp [heldIn]
  · simp [heldIn, same]

private theorem heldIn_erase :
    heldIn (Function.update view pid none) = Function.update (heldIn view) pid none := by
  funext q
  by_cases same : q = pid
  · subst same
    simp [heldIn]
  · simp [heldIn, same]

/-- Nothing changes for a process that keeps what it holds. -/
private theorem heldIn_same {held : Option String} (here : heldIn view pid = held) :
    Function.update (heldIn view) pid held = heldIn view := by
  rw [← here, Function.update_eq_self]

end Steps

private theorem claims_call {w : BuildWorld} {view : Nat → Option (BuildOp × Option String)}
    {pid : Nat} {op : BuildOp} {held : Option String} {c : BuildCall}
    (here : view pid = some (op, held)) (allowed : claimProtocol.allowed held c)
    (claims : Claims w.inflight w.queue (heldIn view)) :
    Claims (c.exec w).2.inflight (c.exec w).2.queue
      (heldIn (Function.update view pid (some (op, c.claimAfter held (c.exec w).1)))) := by
  have mine : heldIn view pid = held := by simp [heldIn, here]
  have same : Claims w.inflight w.queue
      (heldIn (Function.update view pid (some (op, held)))) := by
    rw [heldIn_update, ← mine, Function.update_eq_self]
    exact claims
  cases c with
  | base c => exact same
  | work sub c => exact same
  | claim sub =>
    by_cases taken : sub ∈ w.inflight
    · simp only [BuildCall.exec, if_pos taken]
      exact same
    · simp only [BuildCall.exec, if_neg taken, heldIn_update]
      exact claims.take (mine.trans allowed) taken
  | release sub =>
    rw [heldIn_update]
    exact claims.release (mine.trans allowed)
  | dispatch sub head =>
    rw [heldIn_update]
    -- a job that nobody will receive is dropped with its claim
    cases open_ : w.receiving with
    | true =>
      simp only [BuildCall.exec, open_, if_true]
      exact claims.send (mine.trans allowed) head
    | false =>
      simp only [BuildCall.exec, open_]
      exact claims.release (mine.trans allowed)
  | recv =>
    cases jobs : w.queue with
    | nil =>
      have answer : BuildCall.exec .recv w = (.ok (if w.receiving then .timeout else .closed), w) := by
        simp only [BuildCall.exec, jobs]
      rw [answer]
      cases w.receiving with
      | true => exact same
      | false => exact same
    | cons job queue =>
      have answer : BuildCall.exec .recv w = (.ok (.job job), { w with queue := queue }) := by
        simp only [BuildCall.exec, jobs]
      rw [answer, heldIn_update]
      rw [jobs] at claims
      exact claims.receive (mine.trans allowed)
  | isCancelled => exact same
  | reply out => exact same

private theorem claims_preserved :
    buildSystem.Preserves claimProtocol (fun _ => none) (fun _ _ => True)
      (fun _ w view => Claims w.inflight w.queue (heldIn view)) where
  answers c w := by
    cases c with
    | base c => trivial
    | work sub c => trivial
    | claim sub =>
      simp only [buildSystem, BuildCall.exec]
      split
      · exact fun _ bad => nomatch bad
      · exact fun _ bad => nomatch bad
    | dispatch sub head =>
      simp only [buildSystem, BuildCall.exec]
      split
      · exact fun _ bad => nomatch bad
      · exact fun _ bad => nomatch bad
    | recv =>
      simp only [buildSystem, BuildCall.exec]
      split
      · exact fun _ bad => nomatch bad
      · exact fun _ bad => nomatch bad
    | release sub => exact fun _ bad => nomatch bad
    | isCancelled => exact fun _ bad => nomatch bad
    | reply out => exact fun _ bad => nomatch bad
  faults c e mayFail := by
    cases c with
    | base c => trivial
    | work sub c => trivial
    | _ => exact mayFail.elim
  spawn := by
    intro h s pid op _ free claims
    rw [heldIn_update, heldIn_same]
    · exact claims
    · simp [heldIn, Prog.Protocol.view, free]
  env := by
    intro h s w _ move claims
    cases move with
    | others base feed => exact claims
    | cancel => exact claims
    | close => exact claims.close
  call := fun _ _ _ _ _ _ _ here allowed _ claims => claims_call here allowed claims
  fault := by
    intro h s pid op held c e _ here _ mayFail claims
    have kept : claimProtocol.track held c (.error e) = held := by
      cases c with
      | release sub => exact mayFail.elim
      | dispatch sub head => exact mayFail.elim
      | _ => rfl
    rw [kept, heldIn_update, heldIn_same]
    · exact claims
    · simp [heldIn, here]
  drop := by
    intro h s pid op past _ here _ claims
    -- whoever is dropped gives back what it holds, if anything
    have mine : heldIn (claimProtocol.view (fun _ => none) s) pid = heldClaim past := by
      rw [heldIn, here]
      rfl
    rw [heldIn_erase]
    cases held : heldClaim past with
    | none =>
      rw [heldIn_same (mine.trans held)]
      simp only [buildSystem, held]
      exact claims
    | some sub =>
      simp only [buildSystem, held]
      exact claims.release (mine.trans held)

/-! ### One builder for a subject -/

private theorem heldIn_view (s : BuildPool) (pid : Nat) :
    heldIn (claimProtocol.view (fun _ => none) s) pid = (s.procs pid).bind (heldClaim ·.past) := by
  simp only [heldIn, Prog.Protocol.view]
  cases s.procs pid with
  | none => rfl
  | some p => rfl

private theorem holds_proc {s : BuildPool} {sub : String} {pid : Nat} :
    Holds s sub (.proc pid) ↔ heldIn (claimProtocol.view (fun _ => none) s) pid = some sub := by
  rw [heldIn_view, Option.bind_eq_some_iff]
  rfl

private theorem holds_single {s : BuildPool}
    (claims : Claims s.world.inflight s.world.queue (heldIn (claimProtocol.view (fun _ => none) s)))
    {sub : String} {a b : Location} (first : Holds s sub a) (second : Holds s sub b) : a = b := by
  have member : ∀ i, Holds s sub (.queued i) → sub ∈ s.world.queue.map (·.sub) := by
    intro i at_i
    rw [Holds, ← List.getElem?_map] at at_i
    exact List.mem_of_getElem? at_i
  match a, b with
  | .proc pid, .proc pid' =>
    rw [claims.single pid pid' sub (holds_proc.mp first) (holds_proc.mp second)]
  | .proc pid, .queued i =>
    exact absurd (member i second) (claims.apart pid sub (holds_proc.mp first))
  | .queued i, .proc pid =>
    exact absurd (member i first) (claims.apart pid sub (holds_proc.mp second))
  | .queued i, .queued j =>
    rw [Holds, ← List.getElem?_map] at first second
    obtain ⟨inside, -⟩ := List.getElem?_eq_some_iff.mp first
    rw [(List.getElem?_inj inside claims.queued).mp (first.trans second.symm)]

private theorem holds_of_inflight {s : BuildPool}
    (claims : Claims s.world.inflight s.world.queue (heldIn (claimProtocol.view (fun _ => none) s)))
    {sub : String} : sub ∈ s.world.inflight ↔ ∃ place, Holds s sub place := by
  rw [claims.listed]
  constructor
  · rintro (inQueue | ⟨pid, found⟩)
    · obtain ⟨i, at_i⟩ := List.mem_iff_getElem?.mp inQueue
      exact ⟨.queued i, by rwa [Holds, ← List.getElem?_map]⟩
    · exact ⟨.proc pid, holds_proc.mpr found⟩
  · rintro ⟨pid | i, found⟩
    · exact .inr ⟨pid, holds_proc.mp found⟩
    · rw [Holds, ← List.getElem?_map] at found
      exact .inl (List.mem_of_getElem? found)

/-- **Single builder**. In every state of every run, with requests and workers that are
    dropped anywhere, failed calls, a pool that is cancelled and a receiver that goes away:
    - a subject is in flight exactly when one claim for it is alive, and never two are;
    - at most one replay or rebuild of a subject is running, and it holds the claim;
    - what has ended holds no claim, and a subject without a claim can be claimed. -/
theorem single_builder (base : World) (receiving : Bool)
    {h : List (Label BuildCall Error BuildOp)} {t : BuildPool}
    (run : buildSystem.Trace (fun _ _ => True) (buildPool base receiving) h t) (sub : String) :
    (sub ∈ t.world.inflight ↔ ∃! place, Holds t sub place) ∧
      (∀ a b, Holds t sub a → Holds t sub b → a = b) ∧
      (∀ pid, Building t sub pid → Holds t sub (.proc pid)) ∧
      (∀ pid pid', Building t sub pid → Building t sub pid' → pid = pid') ∧
      (∀ pid p r, t.procs pid = some p → p.rest = .ret r → ¬ Holds t sub (.proc pid)) ∧
      ((∀ place, ¬ Holds t sub place) →
        (BuildCall.exec (.claim sub) t.world).1 = .ok true) := by
  obtain ⟨obeyed, claims⟩ := System.invariant_of_trace (fun _ _ op _ => buildOp_conf op)
    claims_preserved run (System.obeyed_of_no_procs _)
    ⟨fun _ => by simp [heldIn, buildPool, Prog.Protocol.view], List.nodup_nil,
      fun _ _ bad => (by cases bad), fun _ _ _ bad => by cases bad⟩
  have single : ∀ a b, Holds t sub a → Holds t sub b → a = b := fun _ _ => holds_single claims
  have building : ∀ pid, Building t sub pid → Holds t sub (.proc pid) := by
    rintro pid ⟨p, c, next, found, at_work⟩
    have conf := obeyed pid p found
    rw [at_work] at conf
    exact ⟨p, found, conf.1⟩
  refine ⟨?_, single, building, ?_, ?_, ?_⟩
  · rw [holds_of_inflight claims]
    constructor
    · rintro ⟨place, found⟩
      exact ⟨place, found, fun other other_found => single other place other_found found⟩
    · rintro ⟨place, found, -⟩
      exact ⟨place, found⟩
  · intro pid pid' first second
    cases single _ _ (building pid first) (building pid' second)
    rfl
  · rintro pid p r found ended ⟨p', found', held⟩
    cases found.symm.trans found'
    have conf := obeyed pid p found
    rw [ended] at conf
    exact absurd (held.symm.trans conf) (by simp)
  · intro free
    have absent : sub ∉ t.world.inflight := by
      rw [holds_of_inflight claims]
      rintro ⟨place, found⟩
      exact free place found
    simp [BuildCall.exec, absent]

/-- How to follow a schedule of requests and workers. -/
def buildScheduler : buildSystem.Scheduler (fun _ _ => True) where
  enabled _ _ := true
  mayFail
    | .base c, _ => c.mayFail
    | .work _ c, _ => c.mayFail
    | _, _ => false
  mayDrop _ := true
  tick _ w := { w with cancelled := true }
  check _ _ := true
  enabled_sound _ _ _ := trivial
  mayFail_sound c e taken := by
    cases c with
    | base c => exact taken
    | work sub c => exact taken
    | _ => cases taken
  mayDrop_sound _ _ := trivial
  tick_sound _ _ := .cancel
  check_sound _ _ _ := trivial

/-- A first request for a replica that was never built: the rebuild is queued. -/
def queuedBuild : List (System.Move Error BuildOp) :=
  .spawn 0 (.advance "u") :: List.replicate 5 (.call 0)

theorem single_builder_queued :
    let t := ((buildScheduler.play queuedBuild [] (buildPool (.init toString) true)).get
      (by decide +kernel)).2
    Holds t "u" (.queued 0) ∧ "u" ∈ t.world.inflight := by
  intro t
  have queued : Holds t "u" (.queued 0) := by
    change (t.world.queue[0]?).map (·.sub) = some "u"
    decide +kernel
  have single := single_builder (.init toString) true
    (buildScheduler.trace_of_play queuedBuild (buildPool (.init toString) true)
      (by decide +kernel)) "u"
  exact ⟨queued, single.1.mpr ⟨_, queued, fun place held => single.2.1 place _ held queued⟩⟩

end RustApi
