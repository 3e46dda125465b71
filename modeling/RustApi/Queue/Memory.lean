import RustApi.Queue.Jobs

/-!
# The in-memory queue

`MemoryQueue` keeps a record for each job behind a mutex, so that a call is one step
on its state. A call reads the clock twice, once to sweep the leases that ran out and
once for itself; the two readings, and those of different calls, need not agree.

## Main results

- `MemoryQueue.call_lives`: what any call does to a record is a life of its job.
- `MemoryQueue.call_record`: a record was treated by the call or its job was enqueued.
-/

namespace RustApi

open Lib

namespace Queue

variable {Id : Type} [Uuid Id]

/-- `Record`. -/
structure Record (Id : Type) where
  job : Job Id
  status : JobStatus
  worker : Option String
  leaseExpiresAt : Option Int
  result : Option (List UInt8)
  error : Option String
  finishedAt : Option Int
  deriving DecidableEq

/-- `State`. -/
structure MemoryQueue (Id : Type) [Uuid Id] where
  records : Std.ExtTreeMap Id (Record Id) compare
  idempotency : Kv Id

/-- The clock as one call reads it: in `sweep_expired`, and for itself. -/
structure Readings where
  sweep : Int
  now : Int
  deriving DecidableEq, Repr

/-- What a call returns, and the queue that it leaves. -/
abbrev Outcome (Id : Type) [Uuid Id] : Type :=
  Except (QueueError Id) (QueueAnswer Id) × MemoryQueue Id

namespace Record

/-- A job that waits for its first lease. -/
def new (job : Job Id) : Record Id := ⟨job, .queued, none, none, none, none, none⟩

/-- `sweep_expired`, for one record. -/
def swept (now : Int) (rec : Record Id) : Record Id :=
  match rec.status with
  | .leased _ expiresAt =>
    if expiresAt ≤ now then { rec with status := .queued, worker := none, leaseExpiresAt := none }
    else rec
  | _ => rec

def leasedTo (rec : Record Id) (worker : String) (expiresAt : Int) : Record Id :=
  { rec with
    status := .leased worker expiresAt
    worker := some worker
    leaseExpiresAt := some expiresAt }

def acked (rec : Record Id) (result : Option (List UInt8)) (finished : Int) : Record Id :=
  { rec with
    status := .succeeded result finished
    result := result
    finishedAt := some finished
    worker := none
    leaseExpiresAt := none }

def nacked (rec : Record Id) (error : String) (retry : RetryPolicy) (finished : Int) : Record Id :=
  match retry with
  | .noRetry =>
    { rec with
      status := .failed error finished
      error := some error
      finishedAt := some finished
      worker := none
      leaseExpiresAt := none }
  | .retry delay =>
    let attempt := rec.job.attempt
    if rec.job.maxAttempts ≤ saturatingAdd attempt 1 then
      { rec with
        status := .dead error finished
        error := some error
        finishedAt := some finished
        worker := none
        leaseExpiresAt := none }
    else
      { rec with
        job := { rec.job with
          attempt := saturatingAdd attempt 1
          scheduledAt := addI64 finished (asI64 delay) }
        status := .queued
        error := some error
        worker := none
        leaseExpiresAt := none }

/-- The branch of `extend_lease` for a lease that has not run out. -/
def extended (rec : Record Id) (expiresAt : Int) : Record Id :=
  { rec with
    status := .leased (rec.worker.getD "") expiresAt
    leaseExpiresAt := some expiresAt }

/-- The part of a record that decides what the queue does with it. -/
def stored (rec : Record Id) : StoredJob Id := ⟨rec.job, rec.status⟩

end Record

namespace MemoryQueue

def new : MemoryQueue Id := ⟨∅, ∅⟩

def put (s : MemoryQueue Id) (id : Id) (rec : Record Id) : MemoryQueue Id :=
  { s with records := s.records.insert id rec }

def sweepExpired (now : Int) (s : MemoryQueue Id) : MemoryQueue Id :=
  { s with records := s.records.map fun _ rec => rec.swept now }

def enqueue (job : Job Id) (context : List (String × String)) (s : MemoryQueue Id) : Outcome Id :=
  if job.maxAttempts = 0 then (.error (.invalid "max_attempts must be positive"), s)
  else
    let job := job.traced context
    match job.idempotencyKey with
    | some key =>
      match s.idempotency[key]? with
      | some existing => (.ok (.id existing), s)
      | none => (.ok (.id job.id),
          { s with idempotency := s.idempotency.insert key job.id }.put job.id (.new job))
    | none => (.ok (.id job.id), s.put job.id (.new job))

/-- The jobs that `reserve` may lease, best first. -/
def candidates (now : Int) (s : MemoryQueue Id) : List (Id × Record Id) :=
  (s.records.toList.filter fun e =>
      decide (e.2.status = .queued) && decide (e.2.job.scheduledAt ≤ now)).insertionSort
    fun a b => Before a.2.job b.2.job

/-- The loop of `reserve`. -/
def leaseAll (worker : String) (expiresAt : Int) :
    List Id → MemoryQueue Id → List (LeasedJob Id) × MemoryQueue Id
  | [], s => ([], s)
  | id :: ids, s =>
    match s.records[id]? with
    | none => leaseAll worker expiresAt ids s
    | some rec =>
      let (out, s) := leaseAll worker expiresAt ids (s.put id (rec.leasedTo worker expiresAt))
      (⟨rec.job, expiresAt⟩ :: out, s)

def reserve (worker : String) (limit lease : Nat) (clock : Readings) (s : MemoryQueue Id) :
    Outcome Id :=
  let s := s.sweepExpired clock.sweep
  let ids := ((s.candidates clock.now).take limit).map (·.1)
  let (out, s) := leaseAll worker (addI64 clock.now (asI64 lease)) ids s
  (.ok (.leased out), s)

def ack (id : Id) (result : Option (List UInt8)) (clock : Readings) (s : MemoryQueue Id) :
    Outcome Id :=
  match s.records[id]? with
  | none => (.error (.notFound id), s)
  | some rec => (.ok .done, s.put id (rec.acked result clock.now))

def nack (id : Id) (error : String) (retry : RetryPolicy) (clock : Readings) (s : MemoryQueue Id) :
    Outcome Id :=
  match s.records[id]? with
  | none => (.error (.notFound id), s)
  | some rec => (.ok .done, s.put id (rec.nacked error retry clock.now))

def extendLease (id : Id) (lease : Nat) (clock : Readings) (s : MemoryQueue Id) : Outcome Id :=
  let s := s.sweepExpired clock.sweep
  match s.records[id]? with
  | none => (.error (.notFound id), s)
  | some rec =>
    match rec.status with
    | .leased _ expiresAt =>
      if expiresAt ≤ clock.now then (.error .leaseExpired, s)
      else (.ok .done, s.put id (rec.extended (addI64 clock.now (asI64 lease))))
    | _ => (.error .alreadyLeased, s)

def status (id : Id) (clock : Readings) (s : MemoryQueue Id) : Outcome Id :=
  let s := s.sweepExpired clock.sweep
  match s.records[id]? with
  | none => (.error (.notFound id), s)
  | some rec => (.ok (.status rec.status), s)

/-- One call, which holds the mutex from its first to its last access. -/
def call (op : QueueOp Id) (clock : Readings) (s : MemoryQueue Id) : Outcome Id :=
  match op with
  | .enqueue job context => s.enqueue job context
  | .reserve worker limit lease => s.reserve worker limit lease clock
  | .ack id result => s.ack id result clock
  | .nack id error retry => s.nack id error retry clock
  | .extendLease id lease => s.extendLease id lease clock
  | .status id => s.status id clock

/-! ### Runs -/

/-- A call in a run, with the queue it was made on. -/
structure Event (Id : Type) [Uuid Id] where
  before : MemoryQueue Id
  op : QueueOp Id
  clock : Readings

def Event.answer (e : Event Id) : Except (QueueError Id) (QueueAnswer Id) :=
  (e.before.call e.op e.clock).1

def Event.after (e : Event Id) : MemoryQueue Id := (e.before.call e.op e.clock).2

/-- Runs of calls that meet `cond`, a condition on the queue before a call and on the call. -/
inductive Run (cond : Event Id → Prop) (s : MemoryQueue Id) :
    List (Event Id) → MemoryQueue Id → Prop where
  | nil : Run cond s [] s
  | snoc {h t op clock} (run : Run cond s h t) (met : cond ⟨t, op, clock⟩) :
      Run cond s (h ++ [⟨t, op, clock⟩]) (t.call op clock).2

theorem Run.append {cond : Event Id → Prop} {s t u : MemoryQueue Id} {h h' : List (Event Id)}
    (first : Run cond s h t) (rest : Run cond t h' u) : Run cond s (h ++ h') u := by
  induction rest with
  | nil => rwa [List.append_nil]
  | snoc _ met ih =>
    rw [← List.append_assoc]
    exact ih.snoc met

/-- Make the calls of a list one after the other. -/
def play : List (QueueOp Id × Readings) → MemoryQueue Id → List (Event Id) × MemoryQueue Id
  | [], s => ([], s)
  | (op, clock) :: calls, s =>
    (⟨s, op, clock⟩ :: (play calls (s.call op clock).2).1, (play calls (s.call op clock).2).2)

/-- Calls that meet the condition are a run. -/
theorem run_play {cond : Event Id → Prop} {check : Event Id → Bool}
    (sound : ∀ e, check e = true → cond e) (calls : List (QueueOp Id × Readings))
    (s : MemoryQueue Id) (ok : (play calls s).1.all check = true) :
    Run cond s (play calls s).1 (play calls s).2 := by
  induction calls generalizing s with
  | nil => exact .nil
  | cons c calls ih =>
    simp only [play, List.all_cons, Bool.and_eq_true] at ok
    have first : Run cond s ([] ++ [⟨s, c.1, c.2⟩]) (s.call c.1 c.2).2 := Run.nil.snoc (sound _ ok.1)
    exact first.append (ih _ ok.2)

/-- Jobs are enqueued under fresh ids. -/
def Event.FreshId (e : Event Id) : Prop :=
  ∀ job context, e.op = .enqueue job context → e.before.records[job.id]? = none

def Event.freshCheck (e : Event Id) : Bool :=
  match e.op with
  | .enqueue job _ => (e.before.records[job.id]?).isNone
  | _ => true

theorem Event.freshCheck_sound (e : Event Id) (ok : e.freshCheck = true) : e.FreshId := by
  intro job context enqueued
  rw [freshCheck, enqueued] at ok
  exact Option.isNone_iff_eq_none.mp ok

end MemoryQueue

/-- A lease of the record has run out. -/
def Record.Due (now : Int) (rec : Record Id) : Prop :=
  ∃ worker expiresAt, rec.status = .leased worker expiresAt ∧ expiresAt ≤ now

/-! ### What a call does to one record -/

omit [Uuid Id] in
theorem Record.nacked_stored (rec : Record Id) (error : String) (retry : RetryPolicy) (now : Int) :
    (rec.nacked error retry now).stored = rec.stored.nacked error retry now := by
  cases retry with
  | noRetry => rfl
  | retry delay =>
    by_cases last : rec.job.maxAttempts ≤ saturatingAdd rec.job.attempt 1
    · simp [nacked, StoredJob.nacked, stored, last]
    · simp [nacked, StoredJob.nacked, stored, last]

omit [Uuid Id] in
/-- The sweep ends a lease that has run out and nothing else. -/
theorem Record.swept_lives (now : Int) (rec : Record Id) :
    rec.swept now = rec ∨
      rec.Due now ∧ Suffers rec.stored .expire (rec.swept now).stored := by
  unfold swept
  split
  next worker expiresAt leased =>
    split
    next due => exact .inr ⟨⟨worker, expiresAt, leased, due⟩, .expire leased⟩
    next => exact .inl rfl
  next => exact .inl rfl

namespace MemoryQueue

theorem get_put (s : MemoryQueue Id) (id k : Id) (rec : Record Id) :
    (s.put id rec).records[k]? = if id = k then some rec else s.records[k]? := by
  simp [put, Std.ExtTreeMap.getElem?_insert]

theorem get_sweepExpired (now : Int) (s : MemoryQueue Id) (k : Id) :
    (s.sweepExpired now).records[k]? = s.records[k]?.map (Record.swept now) :=
  Std.ExtTreeMap.getElem?_map

/-- Records stand under the id of their job. -/
def Keyed (s : MemoryQueue Id) : Prop :=
  ∀ id (rec : Record Id), s.records[id]? = some rec → rec.job.id = id

theorem mem_candidates {now : Int} {s : MemoryQueue Id} {id : Id} {rec : Record Id}
    (member : (id, rec) ∈ s.candidates now) : s.records[id]? = some rec ∧ rec.status = .queued := by
  simp only [candidates, List.mem_insertionSort, List.mem_filter, Bool.and_eq_true,
    decide_eq_true_eq] at member
  exact ⟨Std.ExtTreeMap.mem_toList_iff_getElem?_eq_some.mp member.1, member.2.1⟩

theorem nodup_candidates (now : Int) (s : MemoryQueue Id) (limit : Nat) :
    (((s.candidates now).take limit).map (·.1)).Nodup := by
  have distinct : (s.records.toList.map (·.1)).Nodup := by
    rw [List.Nodup, List.pairwise_map]
    exact Std.ExtTreeMap.distinct_keys_toList.imp fun apart same =>
      apart (Std.LawfulEqCmp.compare_eq_iff_eq.mpr same)
  have kept : ((s.candidates now).map (·.1)).Nodup := by
    refine (((List.perm_insertionSort _ _).map _).nodup_iff).mpr ?_
    exact distinct.sublist (List.filter_sublist.map _)
  exact kept.sublist ((List.take_sublist limit _).map _)

/-- The loop leases the listed records and leaves the others alone. -/
theorem leaseAll_records {worker : String} {expiresAt : Int} {ids : List Id} (distinct : ids.Nodup)
    (s : MemoryQueue Id) (k : Id) :
    (leaseAll worker expiresAt ids s).2.records[k]? =
      if k ∈ ids then s.records[k]?.map (·.leasedTo worker expiresAt) else s.records[k]? := by
  induction ids generalizing s with
  | nil => rfl
  | cons id ids ih =>
    obtain ⟨first, distinct⟩ := List.nodup_cons.mp distinct
    simp only [leaseAll]
    split
    next absent =>
      rw [ih distinct]
      by_cases same : k = id
      · subst same
        simp [first, absent]
      · simp [same]
    next rec found =>
      simp only
      rw [ih distinct, get_put]
      by_cases same : k = id
      · subst same
        simp [first, found]
      · simp [same, Ne.symm same]

/-- Each listed job is handed out once. -/
theorem leaseAll_handed {worker : String} {expiresAt : Int} {ids : List Id} (distinct : ids.Nodup)
    {s : MemoryQueue Id} (keyed : s.Keyed) (k : Id) :
    handed k (.ok (.leased (leaseAll worker expiresAt ids s).1)) =
      if k ∈ ids ∧ s.records[k]?.isSome then 1 else 0 := by
  induction ids generalizing s with
  | nil => rfl
  | cons id ids ih =>
    obtain ⟨first, distinct⟩ := List.nodup_cons.mp distinct
    simp only [leaseAll]
    split
    next absent =>
      rw [ih distinct keyed]
      by_cases same : k = id
      · subst same
        simp [first, absent]
      · simp [same]
    next rec found =>
      have named := keyed id rec found
      -- the lease keeps the id under which the record stands
      have keyed' : (s.put id (rec.leasedTo worker expiresAt)).Keyed := by
        intro k rec' found'
        rw [get_put] at found'
        split at found'
        next same =>
          cases found'
          exact named.trans same
        next => exact keyed k rec' found'
      have rest := ih distinct keyed'
      simp only [handed, List.countP_cons] at rest ⊢
      rw [rest, get_put, named]
      by_cases same : id = k
      · subst same
        simp [first, found]
      · simp [same, Ne.symm same]

/-- What a call does to a record of the queue: a life of its job. Leases are handed out, an
    ack or nack of this job settles it, and only a sweep ends a lease, which has run out. -/
structure Treated (id : Id) (op : QueueOp Id) (clock : Readings) (handed : Nat)
    (rec rec' : Record Id) (deeds : List Deed) : Prop where
  life : Lives rec.stored deeds rec'.stored
  granted : leases deeds = handed
  settled : ∀ d ∈ deeds, d.Settles → op.Settles id
  due : .expire ∈ deeds → op.Sweeps ∧ rec.Due clock.sweep

omit [Uuid Id] in
theorem Treated.none {id : Id} {op : QueueOp Id} {clock : Readings} {rec : Record Id} :
    Treated id op clock 0 rec rec [] :=
  ⟨.nil, rfl, fun _ bad => (nomatch bad), fun bad => (nomatch bad)⟩

omit [Uuid Id] in
/-- The sweep before a call. -/
theorem Treated.swept (id : Id) (op : QueueOp Id) (sweeps : op.Sweeps) (clock : Readings)
    (rec : Record Id) :
    ∃ deeds, Treated id op clock 0 rec (rec.swept clock.sweep) deeds := by
  rcases rec.swept_lives clock.sweep with same | ⟨due, ended⟩
  · rw [same]
    exact ⟨[], .none⟩
  · exact ⟨[.expire], ended.lives, rfl, by simp [Deed.Settles], fun _ => ⟨sweeps, due⟩⟩

omit [Uuid Id] in
/-- A deed after the sweep, which is not itself the end of a lease. -/
theorem Treated.then {id : Id} {op : QueueOp Id} {clock : Readings} {rec rec' rec'' : Record Id}
    {deeds : List Deed} {d : Deed} (treated : Treated id op clock 0 rec rec' deeds)
    (suffers : Suffers rec'.stored d rec''.stored) (settled : d.Settles → op.Settles id)
    (kept : d ≠ .expire) : Treated id op clock (leases [d]) rec rec'' (deeds ++ [d]) := by
  refine ⟨treated.life.snoc suffers, ?_, ?_, ?_⟩
  · rw [leases_append, treated.granted, Nat.zero_add]
  · intro e member
    rcases List.mem_append.mp member with old | new
    · exact treated.settled e old
    · cases List.mem_singleton.mp new
      exact settled
  · intro member
    rcases List.mem_append.mp member with old | new
    · exact treated.due old
    · exact absurd (List.mem_singleton.mp new).symm kept

theorem Keyed.sweepExpired {s : MemoryQueue Id} (keyed : s.Keyed) (now : Int) :
    (s.sweepExpired now).Keyed := by
  intro id rec found
  rw [get_sweepExpired] at found
  obtain ⟨old, there, rfl⟩ := Option.map_eq_some_iff.mp found
  rcases old.swept_lives now with same | ⟨-, ended⟩
  · rw [same]
    exact keyed id old there
  · exact ended.id_eq.trans (keyed id old there)

/-- A deed at the record under `job`, after the sweep. -/
private theorem put_treated {s : MemoryQueue Id} {op : QueueOp Id} {clock : Readings} {id job : Id}
    {rec swept old new : Record Id} {deeds : List Deed} {d : Deed}
    (treated : Treated id op clock 0 rec swept deeds) (found : s.records[id]? = some swept)
    (there : s.records[job]? = some old) (suffers : Suffers old.stored d new.stored)
    (settled : d.Settles → op.Settles job) (kept : d ≠ .expire) (unleased : leases [d] = 0) :
    ∃ rec' deeds, (s.put job new).records[id]? = some rec' ∧
      Treated id op clock 0 rec rec' deeds := by
  rw [get_put]
  split
  next same =>
    subst same
    cases there.symm.trans found
    refine ⟨new, deeds ++ [d], rfl, ?_⟩
    have done := treated.then suffers settled kept
    rwa [unleased] at done
  next => exact ⟨swept, deeds, found, treated⟩

/-- What `enqueue` can do: refuse the job, find its key, or store it under its key. -/
theorem enqueue_cases (job : Job Id) (context : List (String × String)) (s : MemoryQueue Id) :
    (job.maxAttempts = 0 ∧
        s.enqueue job context = (.error (.invalid "max_attempts must be positive"), s)) ∨
      (∃ key existing, job.idempotencyKey = some key ∧ s.idempotency[key]? = some existing ∧
        s.enqueue job context = (.ok (.id existing), s)) ∨
      job.maxAttempts ≠ 0 ∧ (∀ key, job.idempotencyKey = some key → s.idempotency[key]? = none) ∧
        s.enqueue job context = (.ok (.id job.id),
          ({ s with idempotency := match job.idempotencyKey with
              | some key => s.idempotency.insert key job.id
              | none => s.idempotency } : MemoryQueue Id).put job.id (.new (job.traced context))) := by
  by_cases attempts : job.maxAttempts = 0
  · exact .inl ⟨attempts, if_pos attempts⟩
  · right
    unfold enqueue
    rw [if_neg attempts]
    simp only [Job.traced_idempotencyKey, Job.traced_id]
    cases keyed : job.idempotencyKey with
    | none => exact .inr ⟨attempts, fun _ bad => (nomatch bad), rfl⟩
    | some key =>
      cases known : s.idempotency[key]? with
      | some existing => exact .inl ⟨key, existing, rfl, known, by simp only [known]⟩
      | none =>
        refine .inr ⟨attempts, ?_, by simp only [known]⟩
        rintro _ ⟨⟩
        exact known

/-- A call treats every record it finds, unless it puts a new one in its place. -/
theorem call_lives {s : MemoryQueue Id} (keyed : s.Keyed) (op : QueueOp Id) (clock : Readings)
    {id : Id} {rec : Record Id} (found : s.records[id]? = some rec)
    (kept : ∀ job context, op = .enqueue job context → job.id ≠ id) :
    ∃ rec' deeds, (s.call op clock).2.records[id]? = some rec' ∧
      Treated id op clock (handed id (s.call op clock).1) rec rec' deeds := by
  have swept : (s.sweepExpired clock.sweep).records[id]? = some (rec.swept clock.sweep) := by
    rw [get_sweepExpired, found]
    rfl
  cases op with
  | enqueue job context =>
    have other := kept job context rfl
    change ∃ rec' deeds, (s.enqueue job context).2.records[id]? = _ ∧
      Treated id _ clock (handed id (s.enqueue job context).1) rec rec' deeds
    rcases s.enqueue_cases job context with ⟨-, same⟩ | ⟨_, _, -, -, same⟩ | ⟨-, -, stored⟩
    · rw [same]
      exact ⟨rec, [], found, .none⟩
    · rw [same]
      exact ⟨rec, [], found, .none⟩
    · rw [stored]
      refine ⟨rec, [], ?_, .none⟩
      rw [get_put, if_neg other]
      exact found
  | reserve worker limit lease =>
    obtain ⟨deeds, treated⟩ := Treated.swept id (.reserve worker limit lease) trivial clock rec
    have distinct := nodup_candidates clock.now (s.sweepExpired clock.sweep) limit
    simp only [call, reserve]
    -- the sweep comes first, then the lease of those picked: two deeds at most
    rw [leaseAll_records distinct, leaseAll_handed distinct (keyed.sweepExpired _), swept]
    split
    next picked =>
      obtain ⟨⟨_, rec'⟩, member, rfl⟩ := List.mem_map.mp picked
      obtain ⟨there, queued⟩ := mem_candidates (List.mem_of_mem_take member)
      cases swept.symm.trans there
      simp only [picked, Option.isSome_some, and_self, if_true]
      refine ⟨_, _, rfl, treated.then (d := .lease worker (addI64 clock.now (asI64 lease))) ?_ False.elim
        (by simp)⟩
      exact .lease queued
    next passed =>
      simp only [passed, false_and, if_false]
      exact ⟨_, deeds, rfl, treated⟩
  | ack job result =>
    simp only [call, ack]
    split
    next => exact ⟨rec, [], found, .none⟩
    next old there => exact put_treated .none found there .ack (fun _ => rfl) (by simp) rfl
  | nack job error retry =>
    simp only [call, nack]
    split
    next => exact ⟨rec, [], found, .none⟩
    next old there =>
      refine put_treated (d := .nack error retry clock.now) .none found there ?_ (fun _ => rfl)
        (by simp) rfl
      rw [old.nacked_stored error retry clock.now]
      exact .nack
  | extendLease job lease =>
    obtain ⟨deeds, treated⟩ := Treated.swept id (.extendLease job lease) trivial clock rec
    simp only [call, extendLease]
    split
    next => exact ⟨_, deeds, swept, treated⟩
    next old there =>
      split
      next worker expiresAt leased =>
        split
        next => exact ⟨_, deeds, swept, treated⟩
        next => exact put_treated treated swept there (.extend leased) False.elim (by simp) rfl
      next => exact ⟨_, deeds, swept, treated⟩
  | status job =>
    obtain ⟨deeds, treated⟩ := Treated.swept id (.status job) trivial clock rec
    simp only [call, status]
    split
    next => exact ⟨_, deeds, swept, treated⟩
    next => exact ⟨_, deeds, swept, treated⟩

/-- Only an enqueue makes a record. -/
theorem call_absent {s : MemoryQueue Id} {op : QueueOp Id} {clock : Readings} {id : Id}
    (absent : s.records[id]? = none) (other : ∀ job context, op ≠ .enqueue job context) :
    (s.call op clock).2.records[id]? = none := by
  have swept : (s.sweepExpired clock.sweep).records[id]? = none := by
    rw [get_sweepExpired, absent]
    rfl
  -- a record that is written was found before
  have put : ∀ {t : MemoryQueue Id} {k : Id} {old : Record Id} (new : Record Id),
      t.records[id]? = none → t.records[k]? = some old → (t.put k new).records[id]? = none := by
    intro t k old new absent there
    rw [get_put, if_neg]
    · exact absent
    · rintro rfl
      cases absent.symm.trans there
  cases op with
  | enqueue job context => exact absurd rfl (other job context)
  | reserve worker limit lease =>
    simp only [call, reserve]
    rw [leaseAll_records (nodup_candidates _ _ _), swept]
    simp
  | ack job result =>
    simp only [call, ack]
    split
    next => exact absent
    next old there => exact put _ absent there
  | nack job error retry =>
    simp only [call, nack]
    split
    next => exact absent
    next old there => exact put _ absent there
  | extendLease job lease =>
    simp only [call, extendLease]
    split
    next => exact swept
    next old there =>
      split
      · split
        · exact swept
        · exact put _ swept there
      · exact swept
  | status job =>
    simp only [call, status]
    split
    · exact swept
    · exact swept

/-- Where a record comes from: it was treated by the call, or its job was enqueued. -/
theorem call_record {s : MemoryQueue Id} (keyed : s.Keyed) {op : QueueOp Id} {clock : Readings}
    {id : Id} {rec' : Record Id} (found : (s.call op clock).2.records[id]? = some rec') :
    (∃ rec deeds, s.records[id]? = some rec ∧
        Treated id op clock (handed id (s.call op clock).1) rec rec' deeds) ∨
      ∃ job context, op = .enqueue job context ∧ job.id = id ∧ job.maxAttempts ≠ 0 ∧
        (s.call op clock).1 = .ok (.id id) ∧
        rec' = .new (job.traced context) := by
  -- an enqueue may put a new record; no other call makes one
  by_cases enqueued : ∃ job context, op = .enqueue job context
  · obtain ⟨job, context, rfl⟩ := enqueued
    change (s.enqueue job context).2.records[id]? = some rec' at found
    change (∃ rec deeds, _ ∧ Treated id _ clock (handed id (s.enqueue job context).1) rec rec' deeds) ∨
      ∃ job' context', _ ∧ _ ∧ _ ∧ (s.enqueue job context).1 = _ ∧ _
    rcases s.enqueue_cases job context with ⟨-, same⟩ | ⟨_, _, -, -, same⟩ | ⟨attempts, -, stored⟩
    · rw [same] at found ⊢
      exact .inl ⟨rec', [], found, .none⟩
    · rw [same] at found ⊢
      exact .inl ⟨rec', [], found, .none⟩
    · rw [stored] at found ⊢
      simp only [get_put] at found
      split at found
      next named =>
        cases found
        exact .inr ⟨job, context, rfl, named, attempts, by rw [named], rfl⟩
      next => exact .inl ⟨rec', [], found, .none⟩
  · have other : ∀ job context, op ≠ .enqueue job context :=
      fun job context same => enqueued ⟨job, context, same⟩
    cases before : s.records[id]? with
    | none =>
      rw [call_absent before other] at found
      cases found
    | some rec =>
      obtain ⟨rec'', deeds, after, treated⟩ :=
        call_lives keyed op clock before fun job context same => absurd same (other job context)
      cases after.symm.trans found
      exact .inl ⟨rec, deeds, rfl, treated⟩

theorem Keyed.call {s : MemoryQueue Id} (keyed : s.Keyed) (op : QueueOp Id) (clock : Readings) :
    (s.call op clock).2.Keyed := by
  intro id rec' found
  rcases call_record keyed found with ⟨rec, deeds, before, treated⟩ | ⟨job, _, -, named, -, -, rfl⟩
  · exact treated.life.id_eq.trans (keyed id rec before)
  · exact named

theorem Run.keyed {cond : Event Id → Prop} {s t : MemoryQueue Id} {h : List (Event Id)}
    (run : Run cond s h t) (keyed : s.Keyed) : t.Keyed := by
  induction run with
  | nil => exact keyed
  | snoc _ _ ih => exact ih.call _ _

theorem keyed_new : (new : MemoryQueue Id).Keyed := by
  intro id rec found
  rw [new, Std.ExtTreeMap.getElem?_empty] at found
  cases found

end MemoryQueue

end Queue

end RustApi
