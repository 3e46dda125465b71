import RustApi.Queue.Memory
import RustApi.Queue.Rows

/-!
# The two queues agree

A call of the durable queue that nothing disturbs against the same call of the queue
in memory. The rows of the one mirror the records of the other; every call keeps this
and answers alike, so that any sequence of calls does.

Both sort the jobs that they may lease by a stable sort, so that ties are broken by the
order in which the jobs are listed: by id in memory, by the text of the id in the store.

## Main results

- `Follows.call`, `Mirrors.call`: one call keeps the mirror and answers alike.
- `queues_agree`: any calls, one at a time, are answered alike.
-/

namespace RustApi

open Lib

namespace Queue

variable {Id : Type} [Uuid Id]

/-! ### Undisturbed calls -/

/-- The accesses of a call that is alone: each reading of the clock shows the next of the
    listed times. -/
def QueueCall.alone : (c : QueueCall Id) → QueueWorld Id × List Int →
    Except (QueueError Id) c.Ans × QueueWorld Id × List Int
  | .now, (w, time :: times) => (.ok time, { w with clock := time }, times)
  | c, (w, times) => ((c.exec w).1, (c.exec w).2, times)

/-- The readings of the clock that a call can take, in their order. -/
def QueueOp.readings (clock : Readings) : QueueOp Id → List Int
  | .enqueue .. => []
  | .reserve .. => [clock.sweep, clock.now]
  | .ack .. => [clock.now]
  | .nack .. => [clock.now]
  | .extendLease .. => [clock.sweep, clock.now]
  | .status _ => [clock.sweep]

/-- One call on healthy storage, with nobody else about. -/
def DurableQueue.callAlone (op : QueueOp Id) (clock : Readings) (w : QueueWorld Id) :
    Except (QueueError Id) (QueueAnswer Id) × QueueWorld Id :=
  let out := (DurableQueue.call op).run QueueCall.alone (w, op.readings clock)
  (out.1, out.2.1)

/-- What calls that are made one after the other return. -/
def DurableQueue.answers : List (QueueOp Id × Readings) → QueueWorld Id →
    List (Except (QueueError Id) (QueueAnswer Id))
  | [], _ => []
  | (op, clock) :: calls, w =>
    (callAlone op clock w).1 :: answers calls (callAlone op clock w).2

def MemoryQueue.answers : List (QueueOp Id × Readings) → MemoryQueue Id →
    List (Except (QueueError Id) (QueueAnswer Id))
  | [], _ => []
  | (op, clock) :: calls, s => (s.call op clock).1 :: answers calls (s.call op clock).2

/-! ### The mirror -/

/-- The record names the worker of its lease, which `extend_lease` gives back. -/
def Record.Held (rec : Record Id) : Prop :=
  ∀ worker expiresAt, rec.status = .leased worker expiresAt → rec.worker = some worker

/-- The rows of the store are the records and the keys of the queue in memory. -/
structure Mirrors (kv : Kv (QueueRow Id)) (s : MemoryQueue Id) : Prop where
  jobs : ∀ id : Id, kv[jobKey id]? = s.records[id]?.map fun rec : Record Id => .job rec.stored
  keys : ∀ key : String,
    kv[idempotencyKey key]? = s.idempotency[key]?.map fun id : Id => .text (Uuid.format id)
  named : ∀ (key : String) row, kv[key]? = some row →
    (∃ id : Id, key = jobKey id) ∨ ∃ k, key = idempotencyKey k
  keyed : s.Keyed
  held : ∀ (id : Id) (rec : Record Id), s.records[id]? = some rec → rec.Held

theorem Mirrors.empty : Mirrors (∅ : Kv (QueueRow Id)) MemoryQueue.new where
  jobs id := by simp [MemoryQueue.new]
  keys key := by simp [MemoryQueue.new]
  named key row bad := by simp at bad
  keyed := MemoryQueue.keyed_new
  held id rec bad := by simp [MemoryQueue.new] at bad

/-- A job is written on both sides. -/
theorem Mirrors.put {kv : Kv (QueueRow Id)} {s : MemoryQueue Id} (mirrors : Mirrors kv s) {id : Id}
    (rec : Record Id) (named : rec.job.id = id) (held : rec.Held) :
    Mirrors (kv.insert (jobKey id) (.job rec.stored)) (s.put id rec) where
  jobs k := by
    rw [Kv.get_insert, MemoryQueue.get_put]
    by_cases same : id = k
    · rw [if_pos same, if_pos (congrArg jobKey same)]
      rfl
    · rw [if_neg same, if_neg fun keys => same (jobKey_injective keys)]
      exact mirrors.jobs k
  keys key := by
    rw [Kv.get_insert, if_neg (jobKey_ne_idempotencyKey id key)]
    exact mirrors.keys key
  named key row found := by
    rw [Kv.get_insert] at found
    split at found
    next same => exact .inl ⟨id, same.symm⟩
    next => exact mirrors.named key row found
  keyed k rec' found := by
    rw [MemoryQueue.get_put] at found
    split at found
    next same =>
      cases found
      exact named.trans same
    next => exact mirrors.keyed k rec' found
  held k rec' found := by
    rw [MemoryQueue.get_put] at found
    split at found
    next =>
      cases found
      exact held
    next => exact mirrors.held k rec' found

/-- An idempotency key is written on both sides. -/
theorem Mirrors.know {kv : Kv (QueueRow Id)} {s : MemoryQueue Id} (mirrors : Mirrors kv s)
    (key : String) (id : Id) :
    Mirrors (kv.insert (idempotencyKey key) (.text (Uuid.format id)))
      { s with idempotency := s.idempotency.insert key id } where
  jobs k := by
    rw [Kv.get_insert, if_neg (jobKey_ne_idempotencyKey k key).symm]
    exact mirrors.jobs k
  keys k := by
    rw [Kv.get_insert, Kv.get_insert]
    by_cases same : key = k
    · rw [if_pos same, if_pos (congrArg idempotencyKey same)]
      rfl
    · rw [if_neg same, if_neg fun keys => same (idempotencyKey_injective keys)]
      exact mirrors.keys k
  named k row found := by
    rw [Kv.get_insert] at found
    split at found
    next same => exact .inr ⟨key, same.symm⟩
    next => exact mirrors.named k row found
  keyed := mirrors.keyed
  held := mirrors.held

/-! ### Parts of a call -/

/-- From a store that mirrors `s`, a part of a call returns `r` and leaves a store that
    mirrors `s'`. It takes the readings of `times` down to `rest`. -/
def Follows {α : Type} (p : QueueM Id α) (times : List Int) (s : MemoryQueue Id)
    (r : Except (QueueError Id) α) (rest : List Int) (s' : MemoryQueue Id) : Prop :=
  ∀ w : QueueWorld Id, Mirrors w.store s →
    ∃ w', p.run QueueCall.alone (w, times) = (r, w', rest) ∧ Mirrors w'.store s'

namespace Follows

variable {α β : Type} {s s' s'' : MemoryQueue Id} {t t' t'' : List Int}

theorem pure (a : α) : Follows (Pure.pure a) t s (.ok a) t s :=
  fun w mirrors => ⟨w, rfl, mirrors⟩

theorem fail (e : QueueError Id) : Follows (Prog.fail e : QueueM Id α) t s (.error e) t s :=
  fun w mirrors => ⟨w, rfl, mirrors⟩

theorem bind {p : QueueM Id α} {f : α → QueueM Id β} {a : α} {r : Except (QueueError Id) β}
    (first : Follows p t s (.ok a) t' s') (next : Follows (f a) t' s' r t'' s'') :
    Follows (p >>= f) t s r t'' s'' := by
  intro w mirrors
  obtain ⟨v, ran, mirrors'⟩ := first w mirrors
  rw [Prog.run_bind_of_ok QueueCall.alone f ran]
  exact next v mirrors'

theorem map {p : QueueM Id α} {a : α} (f : α → β) (first : Follows p t s (.ok a) t' s') :
    Follows (p >>= fun a => Pure.pure (f a)) t s (.ok (f a)) t' s' :=
  first.bind (.pure _)

theorem bind_error {p : QueueM Id α} (f : α → QueueM Id β) {e : QueueError Id}
    (first : Follows p t s (.error e) t' s') : Follows (p >>= f) t s (.error e) t' s' := by
  intro w mirrors
  obtain ⟨v, ran, mirrors'⟩ := first w mirrors
  refine ⟨v, ?_, mirrors'⟩
  rw [Prog.run_bind, ran]

/-- What follows a scan may depend on the rows, as far as they mirror the records. -/
theorem scan {f : Kv (QueueRow Id) → QueueM Id β} {r : Except (QueueError Id) β}
    (next : ∀ kv, Mirrors kv s → Follows (f kv) t s r t' s') :
    Follows (onQueue .scan >>= f) t s r t' s' := by
  intro w mirrors
  exact next w.store mirrors w mirrors

theorem now (time : Int) : Follows (onQueue .now) (time :: t) s (.ok time) t s :=
  fun w mirrors => ⟨{ w with clock := time }, rfl, mirrors⟩

theorem get (key : String) (row : Option (QueueRow Id))
    (found : ∀ kv, Mirrors kv s → kv[key]? = row) : Follows (onQueue (.get key)) t s (.ok row) t s :=
  fun w mirrors => ⟨w, by rw [← found w.store mirrors]; rfl, mirrors⟩

theorem save (cause : Cause) {id : Id} (rec : Record Id) (named : rec.job.id = id)
    (held : rec.Held) :
    Follows (onQueue (.save cause id rec.stored)) t s (.ok ()) t (s.put id rec) :=
  fun w mirrors => ⟨w.put (jobKey id) (.job rec.stored), rfl, mirrors.put rec named held⟩

end Follows

/-! ### The sweep -/

/-- The lease of a record ends, whenever it would have run out. -/
def Record.released (rec : Record Id) : Record Id :=
  match rec.status with
  | .leased .. => { rec with status := .queued, worker := none, leaseExpiresAt := none }
  | _ => rec

omit [Uuid Id] in
theorem Record.released_released (rec : Record Id) : rec.released.released = rec.released := by
  obtain ⟨_, status, _⟩ := rec
  cases status <;> rfl

omit [Uuid Id] in
theorem Record.Held.released {rec : Record Id} (held : rec.Held) : rec.released.Held := by
  unfold Record.released
  split
  next => exact fun _ _ bad => nomatch bad
  next => exact held

omit [Uuid Id] in
theorem Record.released_job (rec : Record Id) : rec.released.job = rec.job := by
  unfold released
  split <;> rfl

omit [Uuid Id] in
/-- A sweep releases the leases that have run out. -/
theorem Record.swept_eq (now : Int) (rec : Record Id) :
    (rec.Due now → rec.swept now = rec.released) ∧ (¬ rec.Due now → rec.swept now = rec) := by
  obtain ⟨job, status, worker, leaseExpiresAt, result, error, finishedAt⟩ := rec
  cases status with
  | leased holder expiresAt =>
    constructor
    · rintro ⟨_, _, ⟨⟩, due⟩
      exact if_pos due
    · intro undue
      exact if_neg fun due => undue ⟨holder, expiresAt, rfl, due⟩
  | _ => exact ⟨fun ⟨_, _, bad, _⟩ => (nomatch bad), fun _ => rfl⟩

/-- What one transaction of the sweep does to the queue in memory. -/
def MemoryQueue.release (id : Id) (s : MemoryQueue Id) : MemoryQueue Id :=
  match s.records[id]? with
  | some rec => s.put id rec.released
  | none => s

theorem MemoryQueue.put_self {s : MemoryQueue Id} {id : Id} {rec : Record Id}
    (found : s.records[id]? = some rec) : s.put id rec = s := by
  have records : (s.put id rec).records = s.records := by
    refine Std.ExtTreeMap.ext_getElem? fun {k} => ?_
    rw [get_put]
    split
    next same => rw [← same, found]
    next => rfl
  exact congrArg (fun r => { s with records := r }) records

theorem MemoryQueue.get_release (s : MemoryQueue Id) (id k : Id) :
    (s.release id).records[k]? =
      if id = k then s.records[k]?.map Record.released else s.records[k]? := by
  unfold release
  split
  next rec found =>
    rw [get_put]
    by_cases same : id = k
    · subst same
      rw [if_pos rfl, if_pos rfl, found]
      rfl
    · rw [if_neg same, if_neg same]
  next absent =>
    by_cases same : id = k
    · subst same
      rw [if_pos rfl, absent]
      rfl
    · rw [if_neg same]

@[simp] theorem MemoryQueue.release_idempotency (s : MemoryQueue Id) (id : Id) :
    (s.release id).idempotency = s.idempotency := by
  unfold release
  split <;> rfl

theorem MemoryQueue.get_releaseAll (ids : List Id) (s : MemoryQueue Id) (k : Id) :
    (ids.foldl (fun s id => s.release id) s).records[k]? =
      if k ∈ ids then s.records[k]?.map Record.released else s.records[k]? := by
  induction ids generalizing s with
  | nil => rfl
  | cons id ids ih =>
    rw [List.foldl_cons, ih, get_release]
    by_cases same : id = k
    · subst same
      -- a row that is listed twice is released once
      cases s.records[id]? with
      | none => simp
      | some rec => simp [Record.released_released]
    · simp [same, Ne.symm same]

theorem MemoryQueue.releaseAll_idempotency (ids : List Id) (s : MemoryQueue Id) :
    (ids.foldl (fun s id => s.release id) s).idempotency = s.idempotency := by
  induction ids generalizing s with
  | nil => rfl
  | cons id ids ih => rw [List.foldl_cons, ih, release_idempotency]

/-- Releasing the leases that have run out is the sweep. -/
theorem MemoryQueue.releaseAll_eq_sweep {s : MemoryQueue Id} {now : Int} {ids : List Id}
    (due : ∀ id, id ∈ ids ↔ ∃ rec, s.records[id]? = some rec ∧ rec.Due now) :
    ids.foldl (fun s id => s.release id) s = s.sweepExpired now := by
  have records : (ids.foldl (fun s id => s.release id) s).records =
      (s.sweepExpired now).records := by
    refine Std.ExtTreeMap.ext_getElem? fun {k} => ?_
    rw [get_releaseAll, get_sweepExpired]
    cases found : s.records[k]? with
    | none => simp
    | some rec =>
      by_cases ended : rec.Due now
      · rw [if_pos ((due k).mpr ⟨rec, found, ended⟩)]
        exact congrArg some ((rec.swept_eq now).1 ended).symm
      · rw [if_neg]
        · exact congrArg some ((rec.swept_eq now).2 ended).symm
        · intro listed
          obtain ⟨other, there, bad⟩ := (due k).mp listed
          cases found.symm.trans there
          exact ended bad
  have keys := releaseAll_idempotency ids s
  cases found : ids.foldl (fun s id => s.release id) s with
  | mk r i =>
    rw [found] at records keys
    cases records
    cases keys
    rfl

theorem Mirrors.requeue {w : QueueWorld Id} {s : MemoryQueue Id} (mirrors : Mirrors w.store s)
    (id : Id) : Mirrors (w.requeue id).store (s.release id) := by
  have row := mirrors.jobs id
  unfold QueueWorld.requeue MemoryQueue.release
  rw [row]
  cases found : s.records[id]? with
  | none => exact mirrors
  | some rec =>
    have named : rec.released.job.id = id := by
      rw [rec.released_job]
      exact mirrors.keyed id rec found
    have put := mirrors.put _ named (mirrors.held id rec found).released
    have kept := MemoryQueue.put_self found
    obtain ⟨job, status, worker, leaseExpiresAt, result, error, finishedAt⟩ := rec
    cases status with
    | leased => exact put
    | _ =>
      -- the transaction leaves a row that is not leased
      have same : Mirrors w.store (s.put id _) := kept.symm ▸ mirrors
      exact same

/-- The ids under which a mirrored store is swept are those whose lease has run out. -/
theorem Mirrors.expired {kv : Kv (QueueRow Id)} {s : MemoryQueue Id} (mirrors : Mirrors kv s)
    (now : Int) (id : Id) :
    id ∈ kv.toList.filterMap (DurableQueue.expiredId now) ↔
      ∃ rec, s.records[id]? = some rec ∧ rec.Due now := by
  have row := mirrors.jobs id
  rw [List.mem_filterMap]
  constructor
  · rintro ⟨⟨key, found⟩, listed, chosen⟩
    rw [Kv.mem_toList] at listed
    rcases mirrors.named key found listed with ⟨k, rfl⟩ | ⟨k, rfl⟩
    · have strip : Text.stripStart "job:" (jobKey k) = some (Uuid.format k) :=
        Text.stripStart_iff.mpr rfl
      rw [mirrors.jobs k] at listed
      obtain ⟨rec, there, rfl⟩ := Option.map_eq_some_iff.mp listed
      simp only [DurableQueue.expiredId, strip, Record.stored] at chosen
      split at chosen
      next worker expiresAt leased =>
        obtain ⟨due, parsed⟩ := Option.ite_none_right_eq_some.mp chosen
        rw [Uuid.parse_format] at parsed
        cases parsed
        exact ⟨rec, there, worker, expiresAt, leased, due⟩
      next => cases chosen
    · rw [mirrors.keys k] at listed
      obtain ⟨_, -, rfl⟩ := Option.map_eq_some_iff.mp listed
      simp [DurableQueue.expiredId] at chosen
  · rintro ⟨rec, there, worker, expiresAt, leased, due⟩
    rw [there] at row
    refine ⟨(jobKey id, .job rec.stored), Kv.mem_toList.mpr row, ?_⟩
    have strip : Text.stripStart "job:" (jobKey id) = some (Uuid.format id) :=
      Text.stripStart_iff.mpr rfl
    simp only [DurableQueue.expiredId, strip, Record.stored, leased, if_pos due]
    exact Uuid.parse_format id

theorem Follows.requeueAll (ids : List Id) (t : List Int) (s : MemoryQueue Id) :
    Follows (DurableQueue.requeueAll ids) t s (.ok ()) t
      (ids.foldl (fun s id => s.release id) s) := by
  induction ids generalizing s with
  | nil => exact .pure ()
  | cons id ids ih =>
    have first : Follows (onQueue (.requeue id)) t s (.ok ()) t (s.release id) :=
      fun w mirrors => ⟨w.requeue id, rfl, mirrors.requeue id⟩
    exact first.bind (ih _)

theorem Follows.sweepExpired (time : Int) (t : List Int) (s : MemoryQueue Id) :
    Follows DurableQueue.sweepExpired (time :: t) s (.ok ()) t (s.sweepExpired time) := by
  refine .scan fun kv mirrors => (Follows.now time).bind ?_
  rw [← MemoryQueue.releaseAll_eq_sweep (mirrors.expired time)]
  exact .requeueAll _ t s

/-! ### Calls of one job -/

theorem Follows.load {s : MemoryQueue Id} {id : Id} {rec : Record Id} (t : List Int)
    (found : s.records[id]? = some rec) :
    Follows (DurableQueue.load id) t s (.ok rec.stored) t s := by
  refine (Follows.get (jobKey id) (some (.job rec.stored)) fun kv mirrors => ?_).bind
    (.pure _)
  rw [mirrors.jobs, found]
  rfl

theorem Follows.load_none {s : MemoryQueue Id} {id : Id} (t : List Int)
    (absent : s.records[id]? = none) :
    Follows (DurableQueue.load id) t s (.error (.notFound id)) t s := by
  refine (Follows.get (jobKey id) none fun kv mirrors => ?_).bind (.fail _)
  rw [mirrors.jobs, absent]
  rfl

/-- A call that settles a job. -/
theorem Follows.settle {s : MemoryQueue Id} (keyed : s.Keyed) (cause : Cause) (id : Id)
    (write : StoredJob Id → Int → StoredJob Id) (change : Record Id → Int → Record Id)
    (stores : ∀ rec now, (change rec now).stored = write rec.stored now)
    (named : ∀ rec now, (change rec now).job.id = rec.job.id)
    (held : ∀ rec now, (change rec now).Held) (now : Int) :
    ∃ rest, Follows (do
        let sj ← DurableQueue.load id
        let finished ← onQueue .now
        onQueue (.save cause id (write sj finished))) [now] s
      (match s.records[id]? with | none => .error (.notFound id) | some _ => .ok ()) rest
      (match s.records[id]? with | none => s | some rec => s.put id (change rec now)) := by
  cases found : s.records[id]? with
  | none => exact ⟨[now], .bind_error _ (.load_none _ found)⟩
  | some rec =>
    refine ⟨[], (Follows.load _ found).bind ((Follows.now now).bind ?_)⟩
    rw [← stores rec now]
    exact .save cause _ ((named rec now).trans (keyed id rec found)) (held rec now)

/-! ### Enqueue -/

theorem Follows.known (key : Option String) (t : List Int) (s : MemoryQueue Id) :
    Follows (DurableQueue.known key) t s (.ok (key.bind fun k => s.idempotency[k]?)) t s := by
  match key with
  | none => exact .pure none
  | some key =>
    have get := Follows.get (s := s) (t := t) (idempotencyKey key)
      (s.idempotency[key]?.map fun id => .text (Uuid.format id)) fun kv mirrors => mirrors.keys key
    refine get.bind ?_
    rw [Option.bind_some]
    cases s.idempotency[key]? with
    | none => exact .pure none
    | some id =>
      change Follows (Pure.pure (Uuid.parse (Uuid.format id))) t s _ t s
      rw [Uuid.parse_format]
      exact .pure _

/-- The transaction of `enqueue`: the job, and then its key. -/
theorem Follows.insert (job : Job Id) (t : List Int) (s : MemoryQueue Id) :
    Follows (onQueue (.insert ⟨job, .queued⟩)) t s (.ok ()) t
      (({ s with idempotency := match job.idempotencyKey with
          | some key => s.idempotency.insert key job.id
          | none => s.idempotency } : MemoryQueue Id).put job.id (.new job)) := by
  intro w mirrors
  refine ⟨w.insert ⟨job, .queued⟩, rfl, ?_⟩
  have put := mirrors.put (.new job) rfl fun _ _ bad => nomatch bad
  unfold QueueWorld.insert
  dsimp only
  cases job.idempotencyKey with
  | none => exact put
  | some key => exact put.know key job.id

theorem Follows.enqueue (job : Job Id) (context : List (String × String)) (t : List Int)
    (s : MemoryQueue Id) :
    Follows (DurableQueue.call (.enqueue job context)) t s (s.enqueue job context).1 t
      (s.enqueue job context).2 := by
  change Follows (DurableQueue.enqueue job context >>= fun id => Pure.pure (QueueAnswer.id id)) _ _ _ _ _
  unfold DurableQueue.enqueue
  have known := Follows.known (job.traced context).idempotencyKey t s
  rcases s.enqueue_cases job context with ⟨none, same⟩ | ⟨key, existing, keyed, found, same⟩ |
    ⟨attempts, unknown, same⟩
  · rw [same, if_pos none]
    exact .bind_error _ (.fail _)
  · have attempts : job.maxAttempts ≠ 0 := by
      intro none
      unfold MemoryQueue.enqueue at same
      rw [if_pos none] at same
      cases same
    rw [same, if_neg attempts]
    have present :
        ((job.traced context).idempotencyKey.bind fun k => s.idempotency[k]?) = some existing := by
      rw [Job.traced_idempotencyKey, keyed, Option.bind_some, found]
    rw [present] at known
    exact (known.bind (.pure existing)).map _
  · rw [same, if_neg attempts]
    have absent : ((job.traced context).idempotencyKey.bind fun k => s.idempotency[k]?) = none := by
      rw [Job.traced_idempotencyKey]
      cases keyed : job.idempotencyKey with
      | none => rfl
      | some key => exact unknown key keyed
    rw [absent] at known
    refine (known.bind ((Follows.insert (job.traced context) t s).bind ?_)).map _
    -- the depth is scanned and forgotten
    intro w mirrors
    exact ⟨w, rfl, mirrors⟩

/-! ### Reserve -/

/-- Rows are listed in the order of their ids. -/
theorem lt_of_jobKey_lt (ordered : StrictMono (Uuid.format : Id → String)) {a b : Id}
    (before : jobKey a < jobKey b) : a < b := by
  have mono : ∀ {a b : Id}, a < b → jobKey a < jobKey b := by
    intro a b less
    have text := ordered less
    rw [String.lt_iff_toList_lt] at text
    rw [jobKey, jobKey, String.lt_iff_toList_lt, String.toList_append, String.toList_append]
    exact List.append_left_lt text
  rcases lt_trichotomy a b with less | same | more
  · exact less
  · exact absurd (same ▸ before) (lt_irrefl _)
  · exact absurd (before.trans (mono more)) (lt_irrefl _)

/-- The jobs that may be leased, as the store lists them and as memory does. -/
theorem Mirrors.ready {kv : Kv (QueueRow Id)} {s : MemoryQueue Id} (mirrors : Mirrors kv s)
    (ordered : StrictMono (Uuid.format : Id → String)) (now : Int) :
    kv.toList.filterMap (DurableQueue.candidate now) =
      (s.records.toList.filter fun e =>
        decide (e.2.status = .queued) && decide (e.2.job.scheduledAt ≤ now)).map (·.2.stored) := by
  -- both lists go up the ids of their jobs, so that they are equal when they have the same
  -- members: the keys of the rows are ordered as the ids are
  let Earlier : StoredJob Id → StoredJob Id → Prop := fun a b => a.job.id < b.job.id
  have : Std.Irrefl Earlier := ⟨fun a => lt_irrefl a.job.id⟩
  have : Std.Antisymm Earlier := ⟨fun a b ab ba => absurd (ab.trans ba) (lt_irrefl a.job.id)⟩
  have row : ∀ (key : String) sj, (key, QueueRow.job sj) ∈ kv.toList →
      ∃ rec, s.records[sj.job.id]? = some rec ∧ sj = rec.stored ∧ key = jobKey sj.job.id := by
    intro key sj listed
    rw [Kv.mem_toList] at listed
    rcases mirrors.named key _ listed with ⟨id, rfl⟩ | ⟨k, rfl⟩
    · rw [mirrors.jobs id] at listed
      obtain ⟨rec, there, same⟩ := Option.map_eq_some_iff.mp listed
      cases same
      have keyed : rec.stored.job.id = id := mirrors.keyed id rec there
      exact ⟨rec, keyed.symm ▸ there, rfl, keyed.symm ▸ rfl⟩
    · rw [mirrors.keys k] at listed
      obtain ⟨_, -, bad⟩ := Option.map_eq_some_iff.mp listed
      cases bad
  -- what the durable queue picks from a row
  have chosen : ∀ (e : String × QueueRow Id) sj, DurableQueue.candidate now e = some sj ↔
      e.2 = .job sj ∧ Text.startsWith "job:" e.1 ∧ sj.status = .queued ∧
        sj.job.scheduledAt ≤ now := by
    rintro ⟨key, found⟩ sj
    cases found with
    | text => simp [DurableQueue.candidate]
    | job other =>
      simp only [DurableQueue.candidate, Option.ite_none_right_eq_some, Option.some.injEq,
        QueueRow.job.injEq]
      constructor
      · rintro ⟨ready, rfl⟩
        exact ⟨rfl, ready⟩
      · rintro ⟨rfl, ready⟩
        exact ⟨ready, rfl⟩
  refine List.Pairwise.eq_of_mem_iff (r := Earlier) ?_ ?_ fun sj => ?_
  · rw [List.pairwise_filterMap]
    refine (Kv.toList_sorted kv).imp_of_mem ?_
    rintro ⟨key, found⟩ ⟨key', found'⟩ listed listed' before sj here sj' here'
    obtain ⟨rfl, -⟩ := (chosen _ _).mp here
    obtain ⟨rfl, -⟩ := (chosen _ _).mp here'
    obtain ⟨-, -, -, rfl⟩ := row key sj listed
    obtain ⟨-, -, -, rfl⟩ := row key' sj' listed'
    exact lt_of_jobKey_lt ordered before
  · rw [List.pairwise_map]
    refine List.Pairwise.filter _ ?_
    refine (Std.ExtTreeMap.ordered_keys_toList (t := s.records)).imp_of_mem ?_
    rintro ⟨id, rec⟩ ⟨id', rec'⟩ listed listed' before
    rw [Std.ExtTreeMap.mem_toList_iff_getElem?_eq_some] at listed listed'
    change rec.job.id < rec'.job.id
    rw [mirrors.keyed id rec listed, mirrors.keyed id' rec' listed']
    exact compare_lt_iff_lt.mp before
  · simp only [List.mem_filterMap, List.mem_map, List.mem_filter, Bool.and_eq_true,
      decide_eq_true_eq, chosen]
    constructor
    · rintro ⟨⟨key, _⟩, listed, rfl, -, ready⟩
      obtain ⟨rec, there, rfl, -⟩ := row key sj listed
      exact ⟨(_, rec), ⟨Std.ExtTreeMap.mem_toList_iff_getElem?_eq_some.mpr there, ready⟩, rfl⟩
    · rintro ⟨⟨id, rec⟩, ⟨listed, ready⟩, rfl⟩
      rw [Std.ExtTreeMap.mem_toList_iff_getElem?_eq_some] at listed
      refine ⟨(jobKey id, .job rec.stored), Kv.mem_toList.mpr ?_, rfl, ?_, ready⟩
      · rw [mirrors.jobs id, listed]
        rfl
      · exact Text.startsWith_append _ _

/-- Both sort the jobs alike, and stably. -/
theorem Mirrors.candidates {kv : Kv (QueueRow Id)} {s : MemoryQueue Id} (mirrors : Mirrors kv s)
    (ordered : StrictMono (Uuid.format : Id → String)) (now : Int) :
    ((kv.toList.filterMap (DurableQueue.candidate now)).insertionSort
        fun a b => Before a.job b.job) = (s.candidates now).map (·.2.stored) := by
  rw [mirrors.ready ordered now, MemoryQueue.candidates,
    List.map_insertionSort _ (fun a b : StoredJob Id => Before a.job b.job)]
  exact fun _ _ _ _ => Iff.rfl

/-- The loops of `reserve` write the same leases. -/
theorem Follows.leaseAll (worker : String) (expiresAt : Int) (t : List Int)
    {jobs : List (Id × Record Id)} (distinct : (jobs.map (·.1)).Nodup) {s : MemoryQueue Id}
    (keyed : s.Keyed) (listed : ∀ e ∈ jobs, s.records[e.1]? = some e.2) :
    Follows (DurableQueue.leaseAll worker expiresAt (jobs.map (·.2.stored))) t s
      (.ok (MemoryQueue.leaseAll worker expiresAt (jobs.map (·.1)) s).1) t
      (MemoryQueue.leaseAll worker expiresAt (jobs.map (·.1)) s).2 := by
  induction jobs generalizing s with
  | nil => exact .pure []
  | cons e jobs ih =>
    obtain ⟨id, rec⟩ := e
    have here : s.records[id]? = some rec := listed (id, rec) List.mem_cons_self
    have named : rec.job.id = id := keyed id rec here
    obtain ⟨fresh, distinct⟩ := List.nodup_cons.mp distinct
    have held : (rec.leasedTo worker expiresAt).Held := by
      rintro _ _ ⟨⟩
      rfl
    have saved := Follows.save (t := t) (s := s) .lease (rec.leasedTo worker expiresAt) named held
    have keyed' : (s.put id (rec.leasedTo worker expiresAt)).Keyed := by
      intro k other found
      rw [MemoryQueue.get_put] at found
      split at found
      next same =>
        cases found
        exact named.trans same
      next => exact keyed k other found
    have rest := ih distinct keyed' fun e member => by
      rw [MemoryQueue.get_put, if_neg]
      · exact listed e (List.mem_cons_of_mem _ member)
      · intro same
        rw [same] at fresh
        exact fresh (List.mem_map_of_mem (f := (·.1)) member)
    simp only [List.map_cons, DurableQueue.leaseAll, MemoryQueue.leaseAll, here]
    rw [show rec.stored.job.id = id from named]
    exact saved.bind (rest.bind (.pure _))

omit [Uuid Id] in
theorem Record.nacked_held (rec : Record Id) (error : String) (retry : RetryPolicy) (now : Int) :
    (rec.nacked error retry now).Held := by
  unfold nacked
  split
  · exact fun _ _ bad => nomatch bad
  · dsimp only
    split
    · exact fun _ _ bad => nomatch bad
    · exact fun _ _ bad => nomatch bad

omit [Uuid Id] in
theorem Record.Held.swept {rec : Record Id} (held : rec.Held) (now : Int) :
    (rec.swept now).Held := by
  by_cases due : rec.Due now
  · rw [(rec.swept_eq now).1 due]
    exact held.released
  · rw [(rec.swept_eq now).2 due]
    exact held

theorem Follows.reserve (ordered : StrictMono (Uuid.format : Id → String)) (worker : String)
    (limit lease : Nat) (clock : Readings) {s : MemoryQueue Id} (keyed : s.Keyed) :
    Follows (DurableQueue.call (.reserve worker limit lease)) [clock.sweep, clock.now] s
      (s.reserve worker limit lease clock).1 [] (s.reserve worker limit lease clock).2 := by
  have keyed' := keyed.sweepExpired clock.sweep
  refine Follows.bind (a := (MemoryQueue.leaseAll worker (addI64 clock.now (asI64 lease))
    ((((s.sweepExpired clock.sweep).candidates clock.now).take limit).map (·.1))
    (s.sweepExpired clock.sweep)).1) ?_ (.pure _)
  refine (Follows.sweepExpired clock.sweep [clock.now] s).bind ?_
  refine .scan fun kv mirrors => (Follows.now clock.now).bind ?_
  rw [mirrors.candidates ordered clock.now]
  dsimp only
  rw [← List.map_take]
  exact .leaseAll worker _ [] (MemoryQueue.nodup_candidates _ _ _) keyed' fun e member =>
    (MemoryQueue.mem_candidates (List.mem_of_mem_take member)).1

theorem Follows.extendLease (id : Id) (lease : Nat) (clock : Readings) {s : MemoryQueue Id}
    (keyed : s.Keyed) (held' : ∀ (id : Id) (rec : Record Id),
      (s.sweepExpired clock.sweep).records[id]? = some rec → rec.Held) :
    ∃ rest, Follows (DurableQueue.call (.extendLease id lease)) [clock.sweep, clock.now] s
      (s.extendLease id lease clock).1 rest (s.extendLease id lease clock).2 := by
  have swept := Follows.sweepExpired clock.sweep [clock.now] s
  change ∃ rest, Follows (DurableQueue.extendLease id lease >>= fun _ => Pure.pure .done) _ s
    (s.extendLease id lease clock).1 rest (s.extendLease id lease clock).2
  unfold MemoryQueue.extendLease
  dsimp only
  cases found : (s.sweepExpired clock.sweep).records[id]? with
  | none => exact ⟨_, .bind_error _ (swept.bind (.bind_error _ (.load_none _ found)))⟩
  | some rec =>
    have named := keyed.sweepExpired clock.sweep id rec found
    have holds := held' id rec found
    obtain ⟨job, status, holder, leaseExpiresAt, result, error, finishedAt⟩ := rec
    cases status with
    | leased worker expiresAt =>
      have read : ∀ {r : Except (QueueError Id) Unit} {s' : MemoryQueue Id},
          Follows (if expiresAt ≤ clock.now then Prog.fail .leaseExpired
            else onQueue (.save .extend id ⟨job, .leased worker (addI64 clock.now (asI64 lease))⟩)) []
            (s.sweepExpired clock.sweep) r [] s' →
          Follows (DurableQueue.extendLease id lease) [clock.sweep, clock.now] s r [] s' :=
        fun last => swept.bind ((Follows.load _ found).bind ((Follows.now clock.now).bind last))
      dsimp only
      by_cases ended : expiresAt ≤ clock.now
      · rw [if_pos ended] at read ⊢
        exact ⟨_, .bind_error _ (read (.fail _))⟩
      · rw [if_neg ended] at read ⊢
        -- memory gives the lease back to the worker it remembers
        cases holds worker expiresAt rfl
        let rec' : Record Id := ⟨job, .leased worker expiresAt, some worker, leaseExpiresAt,
          result, error, finishedAt⟩
        have saved := Follows.save (t := []) (s := s.sweepExpired clock.sweep) .extend
          (rec'.extended (addI64 clock.now (asI64 lease))) named (by rintro _ _ ⟨⟩; rfl)
        exact ⟨_, .map _ (read saved)⟩
    | _ => exact ⟨_, .bind_error _ (swept.bind ((Follows.load _ found).bind
        ((Follows.now clock.now).bind (.fail _))))⟩

/-! ### Every call -/

/-- A call that nothing disturbs does to the store what it does to the queue in memory. -/
theorem Follows.call (ordered : StrictMono (Uuid.format : Id → String)) (op : QueueOp Id)
    (clock : Readings) {s : MemoryQueue Id} (keyed : s.Keyed)
    (held : ∀ (id : Id) (rec : Record Id), s.records[id]? = some rec → rec.Held) :
    ∃ rest, Follows (DurableQueue.call op) (op.readings clock) s (s.call op clock).1 rest
      (s.call op clock).2 := by
  have held' : ∀ (id : Id) (rec : Record Id),
      (s.sweepExpired clock.sweep).records[id]? = some rec → rec.Held := by
    intro id rec found
    rw [MemoryQueue.get_sweepExpired] at found
    obtain ⟨old, there, rfl⟩ := Option.map_eq_some_iff.mp found
    exact (held id old there).swept clock.sweep
  cases op with
  | enqueue job context => exact ⟨[], .enqueue job context [] s⟩
  | reserve worker limit lease => exact ⟨[], .reserve ordered worker limit lease clock keyed⟩
  | ack id result =>
    obtain ⟨rest, settled⟩ := Follows.settle keyed .ack id
      (fun sj now => { sj with status := .succeeded result now })
      (fun rec now => rec.acked result now) (fun _ _ => rfl) (fun _ _ => rfl)
      (fun _ _ _ _ bad => nomatch bad) clock.now
    refine ⟨rest, ?_⟩
    simp only [MemoryQueue.call, MemoryQueue.ack]
    cases found : s.records[id]? with
    | none =>
      rw [found] at settled
      exact settled.bind_error _
    | some rec =>
      rw [found] at settled
      exact settled.map _
  | nack id error retry =>
    obtain ⟨rest, settled⟩ := Follows.settle keyed .nack id
      (fun sj now => sj.nacked error retry now)
      (fun rec now => rec.nacked error retry now) (fun rec now => rec.nacked_stored error retry now)
      (fun rec now => (congrArg (·.job.id) (rec.nacked_stored error retry now)).trans
        (rec.stored.nacked_id error retry now))
      (fun rec now => rec.nacked_held error retry now) clock.now
    refine ⟨rest, ?_⟩
    simp only [MemoryQueue.call, MemoryQueue.nack]
    cases found : s.records[id]? with
    | none =>
      rw [found] at settled
      exact settled.bind_error _
    | some rec =>
      rw [found] at settled
      exact settled.map _
  | extendLease id lease => exact Follows.extendLease id lease clock keyed held'
  | status id =>
    have swept := Follows.sweepExpired clock.sweep [] s
    change ∃ rest, Follows (DurableQueue.status id >>= fun status => Pure.pure (.status status)) _ s
      (s.status id clock).1 rest (s.status id clock).2
    unfold MemoryQueue.status
    dsimp only
    cases found : (s.sweepExpired clock.sweep).records[id]? with
    | none => exact ⟨_, .bind_error _ (swept.bind (.bind_error _ (.load_none _ found)))⟩
    | some rec => exact ⟨_, (swept.bind ((Follows.load _ found).map _)).map _⟩

theorem Mirrors.call (ordered : StrictMono (Uuid.format : Id → String)) {w : QueueWorld Id}
    {s : MemoryQueue Id} (mirrors : Mirrors w.store s) (op : QueueOp Id) (clock : Readings) :
    (DurableQueue.callAlone op clock w).1 = (s.call op clock).1 ∧
      Mirrors (DurableQueue.callAlone op clock w).2.store (s.call op clock).2 := by
  obtain ⟨rest, follows⟩ := Follows.call ordered op clock mirrors.keyed mirrors.held
  obtain ⟨v, ran, mirrors'⟩ := follows w mirrors
  unfold DurableQueue.callAlone
  rw [ran]
  exact ⟨rfl, mirrors'⟩

theorem Mirrors.answers (ordered : StrictMono (Uuid.format : Id → String))
    (calls : List (QueueOp Id × Readings)) {w : QueueWorld Id} {s : MemoryQueue Id}
    (mirrors : Mirrors w.store s) :
    DurableQueue.answers calls w = MemoryQueue.answers calls s := by
  induction calls generalizing w s with
  | nil => rfl
  | cons c calls ih =>
    obtain ⟨same, mirrors'⟩ := mirrors.call ordered c.1 c.2
    change _ :: _ = _ :: _
    rw [same, ih mirrors']

/-- Calls that are made one at a time, with the same readings of the clock, are answered alike
    by both queues. -/
theorem queues_agree (ordered : StrictMono (Uuid.format : Id → String)) (start : Int)
    (calls : List (QueueOp Id × Readings)) :
    DurableQueue.answers calls ⟨∅, start⟩ = MemoryQueue.answers calls MemoryQueue.new :=
  Mirrors.answers ordered calls .empty

/-- Two equal jobs, one lease that runs out and one that is extended. -/
def sharedCalls : List (QueueOp String × Readings) :=
  let job : String → Job String := fun id => ⟨id, "mail", [], 0, 0, 2, 0, 0, some id, ∅⟩
  [(.enqueue (job "b") [], ⟨0, 0⟩), (.enqueue (job "a") [], ⟨0, 0⟩),
    (.reserve "w" 2 10, ⟨1, 1⟩), (.extendLease "a" 20, ⟨5, 5⟩), (.status "b", ⟨11, 11⟩),
    (.nack "a" "no" (.retry 3), ⟨12, 12⟩), (.ack "b" none, ⟨12, 12⟩)]

theorem queues_agree_shared :
    StrictMono (Uuid.format : String → String) ∧
      DurableQueue.answers sharedCalls ⟨∅, 0⟩ = MemoryQueue.answers sharedCalls MemoryQueue.new :=
  ⟨strictMono_id, queues_agree strictMono_id 0 sharedCalls⟩

end Queue

end RustApi
