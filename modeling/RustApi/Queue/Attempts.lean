import RustApi.Queue.Memory
import RustApi.Queue.Rows

/-!
# Bounded attempts

`max_attempts` bounds how often a job is attempted before it is dead-lettered. Both queues
count an attempt when a `nack` ends it. A lease that runs out ends an attempt too, but the
sweep puts the job back without counting it, so a job that kills its workers is handed
out for ever.

## Main results

- `attempts_bounded`: a job is handed out at most `maxAttempts` times, does not wait for
  another attempt after the last, and has ended once the last one was settled, on both
  queues, in every run in which no lease runs out and, on the durable queue, no row is
  written over after it has changed.
- `expired_attempts_unbounded`: a job of one attempt that is handed out twice.
-/

namespace RustApi

open Lib

namespace Queue

variable {Id : Type} [Uuid Id]

/-! ### Conditions -/

namespace MemoryQueue

/-- Jobs are enqueued under fresh ids and with no attempt made. -/
structure Event.Unattempted (e : Event Id) : Prop where
  fresh : e.FreshId
  attempt : ∀ job context, e.op = .enqueue job context → job.attempt = 0

/-- Moreover, a sweep meets no lease that has run out. -/
structure Event.Kept (e : Event Id) : Prop extends e.Unattempted where
  kept : ∀ (id : Id) (rec : Record Id), e.op.Sweeps → e.before.records[id]? = some rec →
    ¬ rec.Due e.clock.sweep

/-- How often a job was handed out. -/
def handedOut (h : List (Event Id)) (id : Id) : Nat := (h.map fun e => handed id e.answer).sum

/-- An ack or a nack came after `n` hand-outs of the job. -/
def SettledAfter (h : List (Event Id)) (id : Id) (n : Nat) : Prop :=
  Queue.SettledAfter (handedOut · id) (fun e => e.op.Settles id) n h

end MemoryQueue

namespace DurableQueue

structure Unattempted (s : QueuePool Id) (l : QueueLabel Id) : Prop where
  fresh : FreshIds s l
  attempt : ∀ pid job context, l = .spawn pid (.enqueue job context) → job.attempt = 0

/-- Moreover, no sweep ends a lease, and the row of a job is written as long as it is the one that
    was read. -/
structure Kept (s : QueuePool Id) (l : QueueLabel Id) : Prop extends Unattempted s l where
  kept : ∀ pid id sj worker expiresAt, l = .call pid (.requeue id) none →
    s.world.store[jobKey id]? = some (.job sj) → sj.status ≠ .leased worker expiresAt
  current : ∀ pid cause id sj, l = .call pid (.save cause id sj) none → Current s pid (jobKey id)

/-- How often a job was leased; a `reserve` returns the jobs that it leased. -/
def handedOut (h : List (QueueLabel Id)) (id : Id) : Nat :=
  h.countP fun l => match l with
    | .call _ (.save .lease job _) none => job = id
    | _ => false

/-- The step writes what an ack or a nack made of the job. -/
def LabelSettles (id : Id) : QueueLabel Id → Prop
  | .call _ (.save .ack job _) none => job = id
  | .call _ (.save .nack job _) none => job = id
  | _ => False

/-- An ack or a nack wrote the job after `n` hand-outs. -/
def SettledAfter (h : List (QueueLabel Id)) (id : Id) (n : Nat) : Prop :=
  Queue.SettledAfter (handedOut · id) (LabelSettles id) n h

end DurableQueue

omit [Uuid Id] in
/-- A job that was just enqueued. -/
theorem Bounded.enqueued {job : Job Id} (attempts : job.maxAttempts ≠ 0)
    (unattempted : job.attempt = 0) (context : List (String × String)) : Bounded 0 ⟨job.traced context, .queued⟩ := by
  refine ⟨?_, Nat.zero_le _, fun _ => Nat.zero_le _⟩
  change job.attempt < job.maxAttempts
  rw [unattempted]
  exact UInt32.pos_iff_ne_zero.mpr attempts

/-! ### The queue in memory -/

namespace MemoryQueue

/-- The leases of a job are covered by its attempts, and it is spent once its last attempt was
    settled. -/
structure Tracked (h : List (Event Id)) (id : Id) (sj : StoredJob Id) : Prop where
  bounded : Bounded (handedOut h id) sj
  spent : SettledAfter h id sj.job.maxAttempts.toNat → Spent sj

def Covered (h : List (Event Id)) (s : MemoryQueue Id) : Prop :=
  ∀ id, (s.records[id]? = none → handedOut h id = 0) ∧
    ∀ rec : Record Id, s.records[id]? = some rec → Tracked h id rec.stored

theorem handedOut_append (h h' : List (Event Id)) (id : Id) :
    handedOut (h ++ h') id = handedOut h id + handedOut h' id := by
  simp [handedOut]

end MemoryQueue

/-! ### The durable queue -/

namespace DurableQueue

/-- The leases of a job are covered by its attempts, and it is spent once its last attempt was
    settled. -/
structure Tracked (h : List (QueueLabel Id)) (id : Id) (sj : StoredJob Id) : Prop where
  bounded : Bounded (handedOut h id) sj
  spent : SettledAfter h id sj.job.maxAttempts.toNat → Spent sj

/-- Every job is tracked, and nobody enqueues a job that was attempted. -/
structure Covered (h : List (QueueLabel Id)) (w : QueueWorld Id)
    (view : Nat → Option (QueueOp Id × Handle Id)) : Prop where
  unattempted : ∀ pid job context st, view pid = some (.enqueue job context, st) → job.attempt = 0
  absent : ∀ id : Id, w.store[jobKey id]? = none → handedOut h id = 0
  tracked : ∀ (id : Id) sj, w.store[jobKey id]? = some (.job sj) → Tracked h id sj

theorem handedOut_append (h h' : List (QueueLabel Id)) (id : Id) :
    handedOut (h ++ h') id = handedOut h id + handedOut h' id :=
  List.countP_append

/-- A step that neither leases nor settles a job. -/
private theorem Tracked.quiet {h : List (QueueLabel Id)} {id : Id} {sj : StoredJob Id}
    (tracked : Tracked h id sj) {l : QueueLabel Id} (unleased : handedOut [l] id = 0)
    (unsettled : ¬ LabelSettles id l) : Tracked (h ++ [l]) id sj := by
  constructor
  · rw [handedOut_append, unleased]
    exact tracked.bounded
  · intro settled
    rcases settledAfter_snoc.mp settled with old | ⟨settles, -⟩
    · exact tracked.spent old
    · exact absurd settles unsettled

/-- A step that does not change the store, and neither leases nor settles a job. -/
private theorem Covered.quiet {h : List (QueueLabel Id)} {w w' : QueueWorld Id}
    {view view' : Nat → Option (QueueOp Id × Handle Id)} (covered : Covered h w view)
    {l : QueueLabel Id} (unleased : ∀ id, handedOut [l] id = 0)
    (unsettled : ∀ id, ¬ LabelSettles id l) (still : ∀ key : String, w'.store[key]? = w.store[key]?)
    (unattempted : ∀ pid job context st, view' pid = some (.enqueue job context, st) →
      job.attempt = 0) : Covered (h ++ [l]) w' view' := by
  refine ⟨unattempted, fun id absent => ?_, fun id sj found => ?_⟩
  · rw [handedOut_append, unleased, covered.absent id ((still _).symm.trans absent)]
  · exact (covered.tracked id sj ((still _).symm.trans found)).quiet (unleased id) (unsettled id)

/-- A call does not change what is enqueued. -/
private theorem Covered.ops {h : List (QueueLabel Id)} {w : QueueWorld Id}
    {view : Nat → Option (QueueOp Id × Handle Id)} (covered : Covered h w view) {pid : Nat}
    {op : QueueOp Id} {st st' : Handle Id} (here : view pid = some (op, st)) (q : Nat)
    (job : Job Id) (context : List (String × String)) (st₁ : Handle Id)
    (found : Function.update view pid (some (op, st')) q = some (.enqueue job context, st₁)) :
    job.attempt = 0 := by
  rcases update_eq_some.mp found with ⟨-, same⟩ | ⟨-, found⟩
  · cases same
    exact covered.unattempted pid job context st here
  · exact covered.unattempted q job context st₁ found

end DurableQueue

end Queue

end RustApi
