import RustApi.Queue.Durable
import RustApi.Queue.Memory

/-!
# Workers

`QueueWorker`: the loop that reserves a batch of jobs and processes them one after the other,
with a task beside the handler that extends the lease. Any number of workers share a queue with
callers that enqueue jobs and ask for their status; a handler takes as long as it likes, a worker
may die at any point, which its extender outlives, and a lease may run out while its job is still
being handled.

## Main result

`outcomes_earned`: a job is reported as succeeded, failed or dead for what a handler returned
for it, or for want of one, and a handler sees the job that was enqueued.
-/

namespace RustApi

open Lib

namespace Queue

variable {Id : Type} [Uuid Id]

/-! ### The worker -/

/-- `QueueWorker`. A handler counts with its kind; what it returns is up to it. -/
structure QueueWorker where
  handlers : List String
  workerId : String
  batchSize : Nat
  lease : Nat
  deriving DecidableEq, Repr

/-- `new`. -/
def QueueWorker.new (handlers : List String) (workerId : String) : QueueWorker :=
  ⟨handlers, workerId, 4, 30⟩

def QueueWorker.handlerFor (w : QueueWorker) (kind : String) : Option String :=
  w.handlers.find? (· = kind)

/-- What `handle` returns, with the text of its error. -/
abbrev Handled : Type := Except String (Option (List UInt8))

/-- Where a worker is in `run`. -/
inductive WorkerState (Id : Type) where
  | looking
  | batch (jobs : List (LeasedJob Id))
  | handling (job : Job Id) (rest : List (LeasedJob Id))
  | settling (job : Job Id) (result : Handled) (rest : List (LeasedJob Id))
  | stopped
  deriving DecidableEq

/-- The jobs that a worker holds. -/
def WorkerState.jobs : WorkerState Id → List (Job Id)
  | .batch jobs => jobs.map (·.job)
  | .handling job rest => job :: rest.map (·.job)
  | .settling job _ rest => job :: rest.map (·.job)
  | _ => []

/-- The jobs of an answer to `reserve`. An error is an empty batch: the worker looks again. -/
def reserved : Except (QueueError Id) (QueueAnswer Id) → List (LeasedJob Id)
  | .ok (.leased jobs) => jobs
  | _ => []

/-- The last call of `process`, after the handler. -/
def settlement (job : Job Id) : Handled → QueueOp Id
  | .ok result => .ack job.id result
  | .error e => .nack job.id e (.retry 1)

/-- The call of `process` for a job that no handler takes. -/
def refusal (job : Job Id) : QueueOp Id := .nack job.id "no handler for kind" .noRetry

/-! ### Workers on a queue -/

/-- The queue, the workers, and the tasks that extend a lease. -/
structure Workers (Id : Type) [Uuid Id] (n : Nat) where
  queue : MemoryQueue Id
  states : Fin n → WorkerState Id
  extenders : List (Fin n × Job Id)

inductive WorkerEvent (Id : Type) [Uuid Id] (n : Nat) where
  | called (op : QueueOp Id) (answer : Except (QueueError Id) (QueueAnswer Id))
  | invoked (w : Fin n) (job : Job Id)
  | returned (w : Fin n) (job : Job Id) (result : Handled)
  | quiet

variable {n : Nat}

namespace Workers

/-- The queue answers a call, after which a worker is in another state. -/
def call (s : Workers Id n) (op : QueueOp Id) (clock : Readings) (w : Fin n)
    (state : WorkerState Id) : Workers Id n :=
  ⟨(s.queue.call op clock).2, Function.update s.states w state, s.extenders⟩

def turn (s : Workers Id n) (w : Fin n) (state : WorkerState Id) : Workers Id n :=
  { s with states := Function.update s.states w state }

variable (config : Fin n → QueueWorker)

inductive Step (s : Workers Id n) : WorkerEvent Id n → Workers Id n → Prop
  | reserve (w : Fin n) (op : QueueOp Id) (clock : Readings) : s.states w = .looking →
      op = .reserve (config w).workerId (config w).batchSize (config w).lease →
      Step s (.called op (s.queue.call op clock).1)
        (s.call op clock w (.batch (reserved (s.queue.call op clock).1)))
  | look (w : Fin n) : s.states w = .batch [] → Step s .quiet (s.turn w .looking)
  | refuse (w : Fin n) (leased : LeasedJob Id) (rest : List (LeasedJob Id)) (clock : Readings) :
      s.states w = .batch (leased :: rest) → (config w).handlerFor leased.job.kind = none →
      Step s (.called (refusal leased.job) (s.queue.call (refusal leased.job) clock).1)
        (s.call (refusal leased.job) clock w (.batch rest))
  | invoke (w : Fin n) (leased : LeasedJob Id) (rest : List (LeasedJob Id)) (kind : String) :
      s.states w = .batch (leased :: rest) → (config w).handlerFor leased.job.kind = some kind →
      Step s (.invoked w leased.job)
        { s.turn w (.handling leased.job rest) with extenders := (w, leased.job) :: s.extenders }
  | extend (w : Fin n) (job : Job Id) (op : QueueOp Id) (clock : Readings) :
      (w, job) ∈ s.extenders → op = .extendLease job.id (config w).lease →
      Step s (.called op (s.queue.call op clock).1) (s.call op clock w (s.states w))
  | handled (w : Fin n) (job : Job Id) (rest : List (LeasedJob Id)) (result : Handled) :
      s.states w = .handling job rest →
      Step s (.returned w job result) (s.turn w (.settling job result rest))
  -- the extender is waited for first; an error of this call is logged and nothing else
  | settle (w : Fin n) (job : Job Id) (rest : List (LeasedJob Id)) (result : Handled)
      (clock : Readings) : s.states w = .settling job result rest →
      Step s (.called (settlement job result) (s.queue.call (settlement job result) clock).1)
        { s.call (settlement job result) clock w (.batch rest) with
          extenders := s.extenders.erase (w, job) }
  -- the extender of a worker that dies with a handler goes on
  | stop (w : Fin n) : Step s .quiet (s.turn w .stopped)
  | enqueue (job : Job Id) (context : List (String × String)) (clock : Readings) :
      Step s (.called (.enqueue job context) (s.queue.call (.enqueue job context) clock).1)
        { s with queue := (s.queue.call (.enqueue job context) clock).2 }
  | status (id : Id) (clock : Readings) :
      Step s (.called (.status id) (s.queue.call (.status id) clock).1)
        { s with queue := (s.queue.call (.status id) clock).2 }

inductive Run (s : Workers Id n) : List (WorkerEvent Id n) → Workers Id n → Prop
  | start : Run s [] s
  | step {past : List (WorkerEvent Id n)} {t u : Workers Id n} {e : WorkerEvent Id n} :
      Run s past t → Step config t e u → Run s (past ++ [e]) u

end Workers

/-! ### What is the same about a job -/

/-- The jobs differ in their attempts at most: in the count and in when the next is due. -/
def Job.SameWork (a b : Job Id) : Prop :=
  a = { b with attempt := a.attempt, scheduledAt := a.scheduledAt }

omit [Uuid Id] in
theorem Job.SameWork.refl (a : Job Id) : a.SameWork a := rfl

omit [Uuid Id] in
theorem Job.SameWork.trans {a b c : Job Id} (ab : a.SameWork b) (bc : b.SameWork c) :
    a.SameWork c := by
  unfold SameWork at *
  rw [ab, bc]

omit [Uuid Id] in
theorem Job.SameWork.symm {a b : Job Id} (ab : a.SameWork b) : b.SameWork a := by
  unfold SameWork at *
  rw [ab]

omit [Uuid Id] in
theorem Suffers.sameWork {sj sj' : StoredJob Id} {d : Deed} (suffers : Suffers sj d sj') :
    sj'.job.SameWork sj.job := by
  cases suffers with
  | nack =>
    unfold StoredJob.nacked
    split
    · exact .refl _
    · split
      · exact .refl _
      · rfl
  | lease | expire | ack | extend => exact .refl _

omit [Uuid Id] in
theorem Lives.sameWork {sj sj' : StoredJob Id} {deeds : List Deed} (life : Lives sj deeds sj') :
    sj'.job.SameWork sj.job := by
  induction life with
  | nil => exact .refl _
  | snoc _ suffers ih => exact suffers.sameWork.trans ih

omit [Uuid Id] in
/-- Without an ack or a nack a job only ends up as ended when it was. -/
theorem Lives.ended_of_unsettled {sj sj' : StoredJob Id} {deeds : List Deed}
    (life : Lives sj deeds sj') (unsettled : ∀ d ∈ deeds, ¬ d.Settles)
    (ended : sj'.status.Ended) : sj' = sj := by
  cases life with
  | nil => rfl
  | @snoc _ _ d _ _ suffers =>
    have not := unsettled d (by simp)
    cases suffers with
    | ack | nack => exact absurd trivial not
    | lease | expire | extend => exact ended.elim

omit [Uuid Id] in
@[simp] theorem Record.swept_job (now : Int) (rec : Record Id) : (rec.swept now).job = rec.job := by
  unfold swept
  split
  · split <;> rfl
  · rfl

/-- A job that `reserve` hands out is that of a record. -/
theorem MemoryQueue.mem_leaseAll {worker : String} {expiresAt : Int} {ids : List Id}
    {s : MemoryQueue Id} {leased : LeasedJob Id}
    (mem : leased ∈ (leaseAll worker expiresAt ids s).1) :
    ∃ (id : Id) (rec : Record Id), s.records[id]? = some rec ∧ leased.job = rec.job := by
  induction ids generalizing s with
  | nil => cases mem
  | cons id ids ih =>
    simp only [leaseAll] at mem
    split at mem
    next => exact ih mem
    next rec found =>
      rcases List.mem_cons.mp mem with rfl | mem
      · exact ⟨id, rec, found, rfl⟩
      · obtain ⟨k, rec', found', same⟩ := ih mem
        rw [get_put] at found'
        split at found'
        · cases found'
          exact ⟨id, rec, found, same⟩
        · exact ⟨k, rec', found', same⟩

theorem MemoryQueue.mem_reserved {s : MemoryQueue Id} {worker : String} {limit lease : Nat}
    {clock : Readings} {leased : LeasedJob Id}
    (mem : leased ∈ reserved (s.call (.reserve worker limit lease) clock).1) :
    ∃ (id : Id) (rec : Record Id), s.records[id]? = some rec ∧ leased.job = rec.job := by
  obtain ⟨id, rec, found, same⟩ := mem_leaseAll mem
  rw [get_sweepExpired] at found
  obtain ⟨old, there, rfl⟩ := Option.map_eq_some_iff.mp found
  exact ⟨id, old, there, by simpa using same⟩

/-! ### What a status is owed to -/

section Earned

variable {config : Fin n → QueueWorker}

/-- The queue took the job. -/
def Took (past : List (WorkerEvent Id n)) (first : Job Id) (context : List (String × String)) :
    Prop :=
  .called (.enqueue first context) (.ok (.id first.id)) ∈ past

/-- The job was enqueued, up to its attempts. -/
def Enqueued (past : List (WorkerEvent Id n)) (job : Job Id) : Prop :=
  ∃ first context, Took past first context ∧ job.SameWork (first.traced context)

/-- No id was given to two jobs. -/
def DistinctIds (past : List (WorkerEvent Id n)) : Prop :=
  ∀ first context first' context', Took past first context → Took past first' context' →
    first.id = first'.id → first = first' ∧ context = context'

/-- A job has succeeded or died by what a handler returned for it, and failed because a worker
    had no handler for it. -/
def Earned (config : Fin n → QueueWorker) (past : List (WorkerEvent Id n)) (id : Id) :
    JobStatus → Prop
  | .succeeded result _ => ∃ w job, job.id = id ∧ Enqueued past job ∧
      .returned w job (.ok result) ∈ past
  | .dead error _ => ∃ w job, job.id = id ∧ Enqueued past job ∧
      .returned w job (.error error) ∈ past
  | .failed error _ => error = "no handler for kind" ∧
      ∃ w job, job.id = id ∧ Enqueued past job ∧ (config w).handlerFor job.kind = none
  | _ => True

/-- What holds of the records. -/
structure HonestRecord (config : Fin n → QueueWorker) (past : List (WorkerEvent Id n)) (id : Id)
    (rec : Record Id) : Prop where
  enqueued : Enqueued past rec.job
  earned : Earned config past id rec.status

structure Honest (config : Fin n → QueueWorker) (past : List (WorkerEvent Id n))
    (s : Workers Id n) : Prop where
  keyed : s.queue.Keyed
  records : ∀ (id : Id) rec, s.queue.records[id]? = some rec → HonestRecord config past id rec
  held : ∀ w, ∀ job ∈ (s.states w).jobs, Enqueued past job
  invoked : ∀ w job rest, s.states w = .handling job rest → .invoked w job ∈ past
  returned : ∀ w job result rest, s.states w = .settling job result rest →
    .returned w job result ∈ past

theorem Enqueued.mono {past : List (WorkerEvent Id n)} {job : Job Id} (e : WorkerEvent Id n)
    (enqueued : Enqueued past job) : Enqueued (past ++ [e]) job := by
  obtain ⟨first, context, took, same⟩ := enqueued
  exact ⟨first, context, List.mem_append_left _ took, same⟩

/-- With fresh ids a job is told by its id. -/
theorem DistinctIds.sameWork {past : List (WorkerEvent Id n)} (fresh : DistinctIds past) {a b : Job Id}
    (left : Enqueued past a) (right : Enqueued past b) (same : a.id = b.id) : a.SameWork b := by
  obtain ⟨first, context, took, work⟩ := left
  obtain ⟨first', context', took', work'⟩ := right
  have named : first.id = first'.id := by
    rw [work, work'] at same
    exact same
  obtain ⟨rfl, rfl⟩ := fresh first context first' context' took took' named
  exact work.trans work'.symm

theorem Earned.mono {past : List (WorkerEvent Id n)} {id : Id} {status : JobStatus}
    (e : WorkerEvent Id n) (earned : Earned config past id status) :
    Earned config (past ++ [e]) id status := by
  cases status with
  | succeeded result =>
    obtain ⟨w, job, same, enqueued, mem⟩ := earned
    exact ⟨w, job, same, enqueued.mono e, List.mem_append_left _ mem⟩
  | dead error =>
    obtain ⟨w, job, same, enqueued, mem⟩ := earned
    exact ⟨w, job, same, enqueued.mono e, List.mem_append_left _ mem⟩
  | failed error =>
    obtain ⟨text, w, job, same, enqueued, unhandled⟩ := earned
    exact ⟨text, w, job, same, enqueued.mono e, unhandled⟩
  | queued | leased => trivial

theorem HonestRecord.mono {past : List (WorkerEvent Id n)} {id : Id} {rec : Record Id}
    (e : WorkerEvent Id n) (honest : HonestRecord config past id rec) :
    HonestRecord config (past ++ [e]) id rec :=
  ⟨honest.enqueued.mono e, honest.earned.mono e⟩

omit [Uuid Id] in
/-- How `nack` may leave a job. -/
theorem StoredJob.nacked_cases (sj : StoredJob Id) (error : String) (retry : RetryPolicy)
    (now : Int) : (sj.nacked error retry now).status = .queued ∨
      retry = .noRetry ∧ (sj.nacked error retry now).status = .failed error now ∨
      retry ≠ .noRetry ∧ (sj.nacked error retry now).status = .dead error now := by
  cases retry with
  | noRetry => exact .inr (.inl ⟨rfl, rfl⟩)
  | retry delay =>
    unfold StoredJob.nacked
    split
    next bad => cases bad
    next delay' _ =>
      split
      · exact .inr (.inr ⟨by simp, rfl⟩)
      · exact .inl rfl

/-- The result of an ack, and the error of a nack, that a call may write. -/
def Pays (config : Fin n → QueueWorker) (past : List (WorkerEvent Id n)) : QueueOp Id → Prop
  | .ack id result => ∃ w job, job.id = id ∧ Enqueued past job ∧
      .returned w job (.ok result) ∈ past
  | .nack id error .noRetry => error = "no handler for kind" ∧
      ∃ w job, job.id = id ∧ Enqueued past job ∧ (config w).handlerFor job.kind = none
  | .nack id error (.retry _) => ∃ w job, job.id = id ∧ Enqueued past job ∧
      .returned w job (.error error) ∈ past
  | _ => True

/-- **Step lemma**. A call that pays for what it writes keeps the records honest. -/
theorem honest_call {past : List (WorkerEvent Id n)} {q : MemoryQueue Id} (keyed : q.Keyed)
    (honest : ∀ (id : Id) rec, q.records[id]? = some rec → HonestRecord config past id rec)
    (op : QueueOp Id) (clock : Readings) (pays : Pays config past op) (id : Id) (rec : Record Id)
    (found : (q.call op clock).2.records[id]? = some rec) :
    HonestRecord config (past ++ [.called op (q.call op clock).1]) id rec := by
  rcases MemoryQueue.call_record keyed found with
    ⟨old, deeds, before, treated⟩ | ⟨job, context, rfl, rfl, -, took, rfl⟩
  · -- a record that was there keeps its work, and only a settlement of it can end it
    have was := honest id old before
    have enqueued : Enqueued past rec.job := by
      obtain ⟨first, context, took, same⟩ := was.enqueued
      exact ⟨first, context, took, treated.life.sameWork.trans same⟩
    refine ⟨enqueued.mono _, Earned.mono _ ?_⟩
    by_cases settles : op.Settles id
    · cases op with
      | ack job result =>
        obtain rfl : job = id := settles
        simp only [MemoryQueue.call, MemoryQueue.ack, before, MemoryQueue.get_put, if_pos] at found
        cases found
        exact pays
      | nack job error retry =>
        obtain rfl : job = id := settles
        simp only [MemoryQueue.call, MemoryQueue.nack, before, MemoryQueue.get_put, if_pos] at found
        cases found
        have stored := old.nacked_stored error retry clock.now
        have status : (old.nacked error retry clock.now).status =
          (old.stored.nacked error retry clock.now).status := congrArg (·.status) stored
        rw [status]
        rcases old.stored.nacked_cases error retry clock.now with
          queued | ⟨rfl, failed⟩ | ⟨again, dead⟩
        · rw [queued]
          trivial
        · rw [failed]
          exact pays
        · rw [dead]
          cases retry with
          | noRetry => exact absurd rfl again
          | retry delay => exact pays
      | enqueue | reserve | extendLease | status => exact settles.elim
    · by_cases ended : rec.status.Ended
      · -- it had ended before
        have same := treated.life.ended_of_unsettled
          (fun d mem bad => settles (treated.settled d mem bad)) ended
        have status : rec.status = old.status := congrArg (·.status) same
        rw [status]
        exact was.earned
      · cases shown : rec.status with
        | queued | leased => trivial
        | succeeded | failed | dead => exact absurd (shown ▸ trivial) ended
  · exact ⟨⟨job, context, by simp [Took, took], .refl _⟩, trivial⟩

/-- A worker may hold the state: its jobs were enqueued, its handler was called, and what it
    settles was returned. -/
structure MayHold (past : List (WorkerEvent Id n)) (w : Fin n) (state : WorkerState Id) : Prop where
  held : ∀ job ∈ state.jobs, Enqueued past job
  invoked : ∀ job rest, state = .handling job rest → .invoked w job ∈ past
  returned : ∀ job result rest, state = .settling job result rest → .returned w job result ∈ past

theorem Honest.mayHold {past : List (WorkerEvent Id n)} {s : Workers Id n}
    (honest : Honest config past s) (e : WorkerEvent Id n) (w : Fin n) :
    MayHold (past ++ [e]) w (s.states w) :=
  ⟨fun job mem => (honest.held w job mem).mono e,
    fun job rest here => List.mem_append_left _ (honest.invoked w job rest here),
    fun job result rest here => List.mem_append_left _ (honest.returned w job result rest here)⟩

/-- Between two jobs a worker only holds what is left of its batch. -/
theorem MayHold.batch {past : List (WorkerEvent Id n)} (w : Fin n) {jobs : List (LeasedJob Id)}
    (held : ∀ job ∈ jobs.map (·.job), Enqueued past job) : MayHold past w (.batch jobs) :=
  ⟨held, by simp, by simp⟩

/-- A step of one worker, and maybe of the queue. -/
theorem Honest.turn {past : List (WorkerEvent Id n)} {s : Workers Id n}
    (honest : Honest config past s) (e : WorkerEvent Id n) (w : Fin n) (state : WorkerState Id)
    (q : MemoryQueue Id) (extenders : List (Fin n × Job Id)) (keyed : q.Keyed)
    (records : ∀ (id : Id) rec, q.records[id]? = some rec →
      HonestRecord config (past ++ [e]) id rec)
    (may : MayHold (past ++ [e]) w state) :
    Honest config (past ++ [e]) ⟨q, Function.update s.states w state, extenders⟩ := by
  have all : ∀ v, MayHold (past ++ [e]) v (Function.update s.states w state v) := by
    intro v
    rw [Function.update_apply]
    split
    next same => exact same ▸ may
    next => exact honest.mayHold e v
  exact ⟨keyed, records, fun v => (all v).held, fun v => (all v).invoked, fun v => (all v).returned⟩

theorem Honest.called {past : List (WorkerEvent Id n)} {s : Workers Id n}
    (honest : Honest config past s) (op : QueueOp Id) (clock : Readings)
    (pays : Pays config past op) (w : Fin n) (state : WorkerState Id)
    (extenders : List (Fin n × Job Id))
    (may : MayHold (past ++ [.called op (s.queue.call op clock).1]) w state) :
    Honest config (past ++ [.called op (s.queue.call op clock).1])
      ⟨(s.queue.call op clock).2, Function.update s.states w state, extenders⟩ :=
  honest.turn _ w state _ extenders (honest.keyed.call op clock)
    (honest_call honest.keyed honest.records op clock pays) may

theorem Honest.step {past : List (WorkerEvent Id n)} {s t : Workers Id n} {e : WorkerEvent Id n}
    (honest : Honest config past s) (step : Workers.Step config s e t) :
    Honest config (past ++ [e]) t := by
  have records := fun (e : WorkerEvent Id n) (id : Id) (rec : Record Id)
    (found : s.queue.records[id]? = some rec) => (honest.records id rec found).mono e
  cases step with
  | reserve w op clock looking eq =>
    subst eq
    refine honest.called (.reserve _ _ _) clock trivial w _ _ (.batch w fun job mem => ?_)
    -- a job that is handed out was enqueued, since the queue has a record of it
    obtain ⟨leased, here, rfl⟩ := List.mem_map.mp mem
    obtain ⟨id, rec, found, same⟩ := MemoryQueue.mem_reserved here
    rw [same]
    exact (honest.records id rec found).enqueued.mono _
  | look w here =>
    exact honest.turn _ w _ _ _ honest.keyed (records _)
      ⟨by simp [WorkerState.jobs], by simp, by simp⟩
  | refuse w leased rest clock here unhandled =>
    have held := honest.held w
    simp only [here, WorkerState.jobs, List.map_cons, List.forall_mem_cons] at held
    exact honest.called (refusal leased.job) clock
      ⟨rfl, w, leased.job, rfl, held.1, unhandled⟩ w _ _
      (.batch w fun job mem => (held.2 job mem).mono _)
  | invoke w leased rest kind here handler =>
    have held := honest.held w
    rw [here] at held
    refine honest.turn _ w _ _ _ honest.keyed (records _)
      ⟨fun job mem => (held job mem).mono _, fun job rest' same => ?_, by simp⟩
    cases same
    simp
  | extend w job op clock here eq =>
    subst eq
    exact honest.called (.extendLease _ _) clock trivial w _ s.extenders (honest.mayHold _ w)
  | handled w job rest result here =>
    have held := honest.held w
    rw [here] at held
    refine honest.turn _ w _ _ _ honest.keyed (records _)
      ⟨fun job mem => (held job mem).mono _, by simp, fun job' result' rest' same => ?_⟩
    cases same
    simp
  | settle w job rest result clock here =>
    have held := honest.held w
    have returned := honest.returned w job result rest here
    simp only [here, WorkerState.jobs, List.forall_mem_cons] at held
    refine honest.called (settlement job result) clock ?_ w _ _
      (.batch w fun job mem => (held.2 job mem).mono _)
    -- either way the worker settles what its handler has returned
    cases result with
    | ok result => exact ⟨w, job, rfl, held.1, returned⟩
    | error e => exact ⟨w, job, rfl, held.1, returned⟩
  | stop w =>
    exact honest.turn _ w _ _ _ honest.keyed (records _)
      ⟨by simp [WorkerState.jobs], by simp, by simp⟩
  | enqueue job context clock =>
    exact ⟨honest.keyed.call _ clock,
      honest_call honest.keyed honest.records _ clock trivial,
      fun w => (honest.mayHold _ w).held, fun w => (honest.mayHold _ w).invoked,
      fun w => (honest.mayHold _ w).returned⟩
  | status id clock =>
    exact ⟨honest.keyed.call _ clock,
      honest_call honest.keyed honest.records _ clock trivial,
      fun w => (honest.mayHold _ w).held, fun w => (honest.mayHold _ w).invoked,
      fun w => (honest.mayHold _ w).returned⟩

theorem honest_run {s t : Workers Id n} {past : List (WorkerEvent Id n)}
    (empty : s.queue = .new) (looking : ∀ w, s.states w = .looking)
    (run : Workers.Run config s past t) : Honest config past t := by
  induction run with
  | start =>
    refine ⟨empty ▸ MemoryQueue.keyed_new, ?_, by simp [looking, WorkerState.jobs],
      by simp [looking], by simp [looking]⟩
    intro id rec found
    rw [empty, MemoryQueue.new, Std.ExtTreeMap.getElem?_empty] at found
    cases found
  | step _ step ih => exact ih.step step

/-- What an event tells of its job is true: a handler is called with a job that was enqueued, of a
    kind that the worker has a handler for, and returns only after it was called. -/
def Truthful (config : Fin n → QueueWorker) (past : List (WorkerEvent Id n)) :
    WorkerEvent Id n → Prop
  | .invoked w job => Enqueued past job ∧ (config w).handlerFor job.kind ≠ none
  | .returned w job _ => .invoked w job ∈ past
  | _ => True

theorem Truthful.mono {past : List (WorkerEvent Id n)} {e : WorkerEvent Id n}
    (next : WorkerEvent Id n) (truthful : Truthful config past e) :
    Truthful config (past ++ [next]) e := by
  cases e with
  | invoked w job => exact ⟨truthful.1.mono next, truthful.2⟩
  | returned w job result => exact List.mem_append_left _ truthful
  | called | quiet => trivial

theorem truthful_step {past : List (WorkerEvent Id n)} {s t : Workers Id n} {e : WorkerEvent Id n}
    (honest : Honest config past s) (step : Workers.Step config s e t) :
    Truthful config past e := by
  cases step with
  | invoke w leased rest kind here handler =>
    refine ⟨honest.held w _ ?_, by simp [handler]⟩
    simp [here, WorkerState.jobs]
  | handled w job rest result here => exact honest.invoked w job rest here
  | reserve | look | refuse | extend | settle | stop | enqueue | status => trivial

/-- **A status is earned**. In every run of any number of workers with any handlers, among calls
    that enqueue and ask: each record holds a job that was enqueued; it has succeeded with a result
    that a handler returned for a job under its id, died with an error that a handler returned for
    one, or failed because a worker has no handler of its kind; where no id was given twice, that
    is the job of the record; and handlers are called with jobs as they were enqueued, of a kind
    they are for. -/
theorem outcomes_earned {s t : Workers Id n} {past : List (WorkerEvent Id n)}
    (empty : s.queue = .new) (looking : ∀ w, s.states w = .looking)
    (run : Workers.Run config s past t) :
    (∀ (id : Id) rec, t.queue.records[id]? = some rec →
      Enqueued past rec.job ∧ Earned config past id rec.status ∧
      (DistinctIds past → ∀ job, job.id = id → Enqueued past job → job.SameWork rec.job)) ∧
    ∀ e ∈ past, Truthful config past e := by
  refine ⟨fun id rec found => ?_, ?_⟩
  · have whole := honest_run empty looking run
    have honest := whole.records id rec found
    refine ⟨honest.enqueued, honest.earned, fun fresh job named enqueued => ?_⟩
    exact fresh.sameWork enqueued honest.enqueued (named.trans (whole.keyed id rec found).symm)
  · induction run with
    | start => simp
    | step before step ih =>
      intro e mem
      rcases List.mem_append.mp mem with old | new
      · exact (ih e old).mono _
      · obtain rfl := List.mem_singleton.mp new
        exact (truthful_step (honest_run empty looking before) step).mono _

end Earned

/-! ### One delivery -/

def parcel : Job String := ⟨"j", "mail", [], 0, 0, 1, 0, 0, none, ∅⟩

/-- One worker that handles mail. -/
def mailer : Fin 1 → QueueWorker := fun _ => .new ["mail"] "w1"

/-- The parcel waits in the queue. -/
def mailPosted : Workers String 1 :=
  ⟨(MemoryQueue.new.call (.enqueue parcel []) ⟨0, 0⟩).2, fun _ => .looking, []⟩

/-- The worker has the parcel in its batch. -/
def mailHeld : Workers String 1 :=
  mailPosted.call (.reserve "w1" 4 30) ⟨0, 0⟩ 0 (.batch [⟨parcel, 30⟩])

/-- The handler has returned. -/
def mailHandled : Workers String 1 :=
  { mailHeld.turn 0 (.handling parcel []) with extenders := [(0, parcel)] }.turn 0
    (.settling parcel (.ok none) [])

def mailDone : Workers String 1 :=
  { mailHandled.call (.ack "j" none) ⟨1, 1⟩ 0 (.batch []) with
    extenders := mailHandled.extenders.erase (0, parcel) }

def mailEvents : List (WorkerEvent String 1) :=
  [.called (.enqueue parcel []) (.ok (.id "j")),
    .called (.reserve "w1" 4 30) (.ok (.leased [⟨parcel, 30⟩])), .invoked 0 parcel,
    .returned 0 parcel (.ok none), .called (.ack "j" none) (.ok .done)]

theorem mailRun : Workers.Run mailer ⟨.new, fun _ => .looking, []⟩ mailEvents mailDone := by
  have posted : Workers.Step mailer ⟨.new, fun _ => .looking, []⟩
      (.called (.enqueue parcel []) (.ok (.id "j"))) mailPosted := by
    have answer : (MemoryQueue.new.call (.enqueue parcel []) ⟨0, 0⟩).1 = .ok (.id "j") := by
      decide +kernel
    rw [← answer]
    exact .enqueue parcel [] ⟨0, 0⟩
  have held : Workers.Step mailer mailPosted
      (.called (.reserve "w1" 4 30) (.ok (.leased [⟨parcel, 30⟩]))) mailHeld := by
    have answer : (mailPosted.queue.call (.reserve "w1" 4 30) ⟨0, 0⟩).1 =
        .ok (.leased [⟨parcel, 30⟩]) := by decide +kernel
    have step := Workers.Step.reserve 0 (.reserve "w1" 4 30) ⟨0, 0⟩
      (show mailPosted.states 0 = .looking from rfl) (show _ = QueueOp.reserve (mailer 0).workerId
        (mailer 0).batchSize (mailer 0).lease from rfl)
    rwa [answer] at step
  have done : Workers.Step mailer mailHandled (.called (.ack "j" none) (.ok .done)) mailDone := by
    have answer : (mailHandled.queue.call (.ack "j" none) ⟨1, 1⟩).1 = .ok .done := by decide +kernel
    rw [← answer]
    exact .settle 0 parcel [] (.ok none) ⟨1, 1⟩ rfl
  exact ((((Workers.Run.start.step posted).step held).step
    (.invoke 0 ⟨parcel, 30⟩ [] "mail" rfl (by decide +kernel))).step
      (.handled 0 parcel [] (.ok none) rfl)).step done

/-- The parcel is reported as delivered, since its handler returned. -/
theorem outcomes_earned_parcel : (Enqueued mailEvents parcel ∧
      Earned mailer mailEvents "j" (.succeeded none 1) ∧
      (DistinctIds mailEvents → ∀ job, job.id = "j" → Enqueued mailEvents job → job.SameWork parcel)) ∧
    ∀ e ∈ mailEvents, Truthful mailer mailEvents e :=
  ⟨(outcomes_earned rfl (fun _ => rfl) mailRun).1 "j"
    ⟨parcel, .succeeded none 1, none, none, none, none, some 1⟩ (by decide +kernel),
    (outcomes_earned rfl (fun _ => rfl) mailRun).2⟩

end Queue

end RustApi
