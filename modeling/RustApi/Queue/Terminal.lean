import RustApi.Queue.Memory
import RustApi.Queue.Rows

/-!
# Terminal states

A job that has succeeded, failed or died should stay so. Neither `ack` nor `nack` asks
for the status of the job it settles, so a worker whose lease ran out can put a job that
another one has finished back into the queue. `extend_lease` does ask.

## Main results

- `ended_absorbing`: a job that has ended stays as it is, on both queues, in every run in
  which no ack or nack comes to a job that has ended and, on the durable queue, no row is
  written over after it has changed.
- `late_nack_requeues`: a run in which a late nack puts a finished job back.
-/

namespace RustApi

open Lib

namespace Queue

variable {Id : Type} [Uuid Id]

/-! ### Conditions -/

namespace MemoryQueue

/-- Ids are fresh, and an ack or nack comes to a job that has not ended. -/
structure Event.Timely (e : Event Id) : Prop where
  fresh : e.FreshId
  unsettled : ∀ id (rec : Record Id), e.op.Settles id → e.before.records[id]? = some rec →
    ¬ rec.status.Ended

/-- In the runs under a condition, a job that has ended keeps its status and is not handed
    out again. -/
def Absorbs (cond : Event Id → Prop) : Prop :=
  ∀ h s h' t id (rec : Record Id), Run cond (new : MemoryQueue Id) h s → Run cond s h' t →
    s.records[id]? = some rec → rec.status.Ended →
    (∃ rec', t.records[id]? = some rec' ∧ rec'.status = rec.status) ∧
      ∀ e ∈ h', handed id e.answer = 0

end MemoryQueue

namespace DurableQueue

/-- Ids are fresh, an ack or nack reads a job that has not ended, and a row of a job is written
    as long as it is the one that was read. -/
structure Timely (s : QueuePool Id) (l : QueueLabel Id) : Prop where
  fresh : FreshIds s l
  unsettled : ∀ pid p id sj, l = .call pid (.get (jobKey id)) none → s.procs pid = some p →
    p.op.Settles id → s.world.store[jobKey id]? = some (.job sj) → ¬ sj.status.Ended
  current : ∀ pid cause id sj, l = .call pid (.save cause id sj) none → Current s pid (jobKey id)

/-- In the runs under a condition, a job that has ended keeps its row and is not leased again. -/
def Absorbs (cond : QueuePool Id → QueueLabel Id → Prop) : Prop :=
  ∀ h s h' t id sj, queueSystem.Trace cond emptyQueue h s → queueSystem.Trace cond s h' t →
    s.world.store[jobKey id]? = some (.job sj) → sj.status.Ended →
    t.world.store[jobKey id]? = some (.job sj) ∧
      ∀ pid sj', .call pid (.save .lease id sj') none ∉ h'

end DurableQueue

/-! ### The queue in memory -/

/-- No call touches a job that has ended. -/
private theorem memory_step {s : MemoryQueue Id} (keyed : s.Keyed) {op : QueueOp Id}
    {clock : Readings} (timely : (⟨s, op, clock⟩ : MemoryQueue.Event Id).Timely) {id : Id}
    {rec : Record Id} (found : s.records[id]? = some rec) (ended : rec.status.Ended) :
    (∃ rec', (s.call op clock).2.records[id]? = some rec' ∧ rec'.status = rec.status) ∧
      handed id (s.call op clock).1 = 0 := by
  obtain ⟨rec', deeds, after, treated⟩ := MemoryQueue.call_lives keyed op clock found
    fun job context same named => by
      have absent := timely.fresh job context same
      rw [named] at absent
      cases absent.symm.trans found
  have unsettled : ∀ d ∈ deeds, ¬ d.Settles := fun d member settles =>
    timely.unsettled id rec (treated.settled d member settles) found ended
  obtain ⟨rfl, same⟩ := treated.life.of_ended ended unsettled
  exact ⟨⟨rec', after, congrArg StoredJob.status same⟩, treated.granted.symm⟩

private theorem memory_absorbs : MemoryQueue.Absorbs (@MemoryQueue.Event.Timely Id _) := by
  intro h s h' t id rec run rest found ended
  have keyed := run.keyed MemoryQueue.keyed_new
  suffices kept : t.Keyed ∧ (∃ rec', t.records[id]? = some rec' ∧ rec'.status = rec.status) ∧
      ∀ e ∈ h', handed id e.answer = 0 from kept.2
  induction rest with
  | nil => exact ⟨keyed, ⟨rec, found, rfl⟩, fun _ bad => (nomatch bad)⟩
  | @snoc h' t op clock _ met ih =>
    obtain ⟨keyed', ⟨rec', there, same⟩, unhanded⟩ := ih
    have ended' : rec'.status.Ended := same.symm ▸ ended
    obtain ⟨⟨rec'', after, same'⟩, zero⟩ := memory_step keyed' met there ended'
    refine ⟨keyed'.call op clock, ⟨rec'', after, same'.trans same⟩, fun e member => ?_⟩
    rcases List.mem_append.mp member with old | new
    · exact unhanded e old
    · cases List.mem_singleton.mp new
      exact zero

/-! ### The durable queue -/

/-- A call that settles a job has not read it as ended. -/
def Unsettled (view : Nat → Option (QueueOp Id × Handle Id)) : Prop :=
  ∀ pid op st id sj, view pid = some (op, st) → op.Settles id →
    st.seen (jobKey id) = some (.job sj) → ¬ sj.status.Ended

private theorem unsettled_preserved :
    queueSystem.Preserves queueProtocol Handle.start
      (fun (s : QueuePool Id) l => DurableQueue.Timely s l ∧
        Tidy s.world (queueProtocol.view Handle.start s))
      fun _ _ view => Unsettled view where
  answers _ _ := trivial
  faults _ _ _ := trivial
  spawn := by
    intro h s pid op _ _ unsettled q op₁ st id sj found
    rcases update_eq_some.mp found with ⟨-, ⟨⟩⟩ | ⟨-, found⟩
    · exact fun _ bad => nomatch bad
    · exact unsettled q op₁ st id sj found
  env := fun _ _ _ _ _ unsettled => unsettled
  call := by
    intro h s pid op st c met here allowed _ unsettled q op₁ st₁ id sj found settles read
    rcases update_eq_some.mp found with ⟨-, ⟨⟩⟩ | ⟨-, found⟩
    · change (queueProtocol.track st c (c.exec s.world).1).seen (jobKey id) = _ at read
      -- what the handle has seen is old, or the row that a call of the step read
      rcases track_seen st c s.world (jobKey id) with same | ⟨rfl | rfl, row⟩
      · exact unsettled pid op st id sj here settles (same.symm.trans read)
      · rw [← met.2.op pid op st here] at settles
        exact absurd settles (allowed id)
      · obtain ⟨p, there, rfl, -⟩ := queueProtocol.view_eq_some.mp here
        exact met.1.unsettled pid p id sj rfl there settles (row.symm.trans read)
    · exact unsettled q op₁ st₁ id sj found settles read
  fault := by
    intro h s pid op st c e _ here _ _ unsettled
    rw [track_error, Function.update_eq_self_iff.mpr here.symm]
    exact unsettled
  drop := fun _ _ _ _ _ _ _ _ unsettled q op st id sj found =>
    unsettled q op st id sj (of_update_none found)

private theorem unsettled_of_trace {h : List (QueueLabel Id)} {s : QueuePool Id}
    (run : queueSystem.Trace DurableQueue.Timely emptyQueue h s) :
    Unsettled (queueProtocol.view Handle.start s) :=
  (System.invariant_of_trace (fun _ _ op _ => DurableQueue.prog_conf op)
    unsettled_preserved (System.Trace.assume (fun _ _ run => (tidy_of_trace run).2) run)
    (System.obeyed_of_no_procs _) fun _ _ _ _ _ bad => nomatch bad).2

/-- A row of a job that has ended is not saved. -/
private theorem not_saved {s : QueuePool Id} (sound : Sound s)
    (unsettled : Unsettled (queueProtocol.view Handle.start s)) {pid : Nat} {op : QueueOp Id}
    {st : Handle Id} {id : Id} {sj : StoredJob Id}
    (here : queueProtocol.view Handle.start s pid = some (op, st))
    (found : s.world.store[jobKey id]? = some (.job sj)) (ended : sj.status.Ended) {cause : Cause}
    {sj' : StoredJob Id} (saves : st.Saves cause id sj') (current : Current s pid (jobKey id)) :
    False := by
  obtain ⟨old, d, there, of, suffers⟩ := saves.suffers sound.tidy here current
  cases there.symm.trans found
  have settles := suffers.settles ended
  refine unsettled pid op st id sj here ?_ ((current.seen here).trans found) ended
  rw [← sound.tidy.op pid op st here]
  refine saves.settles ?_
  cases d with
  | ack => cases cause <;> first | exact .inl rfl | exact of.elim
  | nack => cases cause <;> first | exact .inr rfl | exact of.elim
  | _ => exact settles.elim

/-- No step touches the row of a job that has ended. -/
private theorem durable_step {s t : QueuePool Id} {l : QueueLabel Id} (sound : Sound s)
    (unsettled : Unsettled (queueProtocol.view Handle.start s))
    (timely : DurableQueue.Timely s l) (step : queueSystem.Step s l t) {id : Id}
    {sj : StoredJob Id} (found : s.world.store[jobKey id]? = some (.job sj))
    (ended : sj.status.Ended) :
    t.world.store[jobKey id]? = some (.job sj) ∧
      ∀ pid sj', l ≠ .call pid (.save .lease id sj') none := by
  cases step with
  | spawn free => exact ⟨found, fun _ _ bad => (nomatch bad)⟩
  | fault at_call mayFail => exact ⟨found, fun _ _ bad => (nomatch bad)⟩
  | drop at_call mayDrop => exact ⟨found, fun _ _ bad => (nomatch bad)⟩
  | env move =>
    obtain ⟨clock, -, rfl⟩ := move
    exact ⟨found, fun _ _ bad => (nomatch bad)⟩
  | @call pid op past c next at_call enabled =>
    have here : queueProtocol.view Handle.start s pid = some (op, _) :=
      queueProtocol.view_eq_some.mpr ⟨_, at_call, rfl, rfl⟩
    have allowed := (sound.obeyed pid _ at_call).1
    have seen := fun key sj read => (sound.tidy.seen pid op _ here key sj read).1
    refine ⟨?_, ?_⟩
    · -- the effects that could touch the row: a requeue needs a lease, an insert an absent row,
      -- and a save is the one that `not_saved` rules out
      rcases exec_store allowed seen s.world (jobKey id) with
        same | ⟨_, _, _, _, -, -, before, leased, -⟩ |
        ⟨new, -, inserts, ⟨keys, -⟩ | ⟨_, -, keys, -⟩⟩ |
        ⟨_, _, _, _, _, rfl, keys, -, -, -, -, -, -⟩
      · exact same.trans found
      · cases found.symm.trans before
        rw [leased] at ended
        exact ended.elim
      · have absent := (sound.unborn.insert sound.tidy here inserts).2
        rw [← keys, found] at absent
        cases absent
      · exact absurd keys (jobKey_ne_idempotencyKey _ _)
      · cases jobKey_injective keys
        exact (not_saved sound unsettled here found ended allowed (timely.current _ _ _ _ rfl)).elim
    · rintro _ sj' same
      cases same
      exact not_saved sound unsettled here found ended allowed (timely.current _ _ _ _ rfl)

private theorem durable_absorbs : DurableQueue.Absorbs (@DurableQueue.Timely Id _) := by
  intro h s h' t id sj run rest found ended
  induction rest with
  | nil => exact ⟨found, fun _ _ bad => (nomatch bad)⟩
  | @snoc h' t l u rest met step ih =>
    obtain ⟨there, unleased⟩ := ih
    obtain ⟨after, other⟩ := durable_step
      (sound_of_trace (fun _ _ met => met.fresh) (run.append rest))
      (unsettled_of_trace (run.append rest)) met step there ended
    refine ⟨after, fun pid sj' member => ?_⟩
    rcases List.mem_append.mp member with old | new
    · exact unleased pid sj' old
    · exact other pid sj' (List.mem_singleton.mp new).symm

/-- **Terminal states are absorbing**, on both queues, as long as acks and nacks come to jobs
    that have not ended and rows are written as they were read. -/
theorem ended_absorbing :
    MemoryQueue.Absorbs (@MemoryQueue.Event.Timely Id _) ∧
      DurableQueue.Absorbs (@DurableQueue.Timely Id _) :=
  ⟨memory_absorbs, durable_absorbs⟩

/-! ### A job that comes back -/

/-- A job of three attempts. -/
def mail : Job String := ⟨"j", "mail", [], 0, 0, 3, 0, 0, none, ∅⟩

/-- The lease of `w1` runs out, `w2` takes the job over and finishes it. -/
def takenOver : List (QueueOp String × Readings) :=
  [(.enqueue mail [], ⟨0, 0⟩), (.reserve "w1" 1 30, ⟨0, 0⟩), (.reserve "w2" 1 30, ⟨40, 40⟩),
    (.ack "j" none, ⟨41, 41⟩)]

/-- The queue on which `w2` has finished the job of `w1`. -/
def finishedQueue : MemoryQueue String := (MemoryQueue.play takenOver .new).2

/-- The same calls on the durable queue, each of them uninterrupted. -/
def takenOverRun : List (System.Move (QueueError String) (QueueOp String)) :=
  .spawn 0 (.enqueue mail []) :: List.replicate 3 (.call 0) ++
    .spawn 1 (.reserve "w1" 1 30) :: List.replicate 6 (.call 1) ++
    .env 40 :: .spawn 2 (.reserve "w2" 1 30) :: List.replicate 7 (.call 2) ++
    .spawn 3 (.ack "j" none) :: List.replicate 4 (.call 3)

/-- How to follow a schedule of fresh ids. -/
def freshScheduler (pids : List Nat) :
    queueSystem.Scheduler (System.Confined pids (@FreshIds String _)) :=
  queueScheduler (freshCheck pids) fun _ _ ok => freshCheck_sound ok

theorem takenOverRun_played :
    ((freshScheduler [0, 1, 2, 3, 4]).play takenOverRun [] emptyQueue).isSome = true := by
  decide +kernel

/-- The durable queue on which `w2` has finished the job of `w1`. -/
def finishedPool : QueuePool String :=
  (((freshScheduler [0, 1, 2, 3, 4]).play takenOverRun [] emptyQueue).get takenOverRun_played).2

/-- Now `w1` gives its job up. -/
def lateNack : List (System.Move (QueueError String) (QueueOp String)) :=
  .spawn 4 (.nack "j" "timed out" (.retry 0)) :: List.replicate 4 (.call 4)

theorem lateNack_played :
    ((freshScheduler [0, 1, 2, 3, 4]).play lateNack [] finishedPool).isSome = true := by
  decide +kernel

private theorem finishedPool_idle (pid : Nat) (away : pid ∉ [0, 1, 2, 3, 4]) :
    finishedPool.procs pid = none :=
  ((freshScheduler [0, 1, 2, 3, 4]).trace_of_play takenOverRun _ takenOverRun_played).of_confined
    (fun _ _ => rfl) |>.2 pid away

/-- A late nack puts a job that has succeeded back into either queue. -/
theorem late_nack_requeues :
    ¬ MemoryQueue.Absorbs (@MemoryQueue.Event.FreshId String _) ∧
      ¬ DurableQueue.Absorbs (@FreshIds String _) := by
  constructor
  · intro claim
    obtain ⟨⟨rec', there, same⟩, -⟩ := claim _ finishedQueue _
      (finishedQueue.call (.nack "j" "timed out" (.retry 0)) ⟨42, 42⟩).2 "j"
      ⟨mail, .succeeded none 41, none, none, none, none, some 41⟩
      (MemoryQueue.run_play MemoryQueue.Event.freshCheck_sound takenOver .new (by decide +kernel))
      (MemoryQueue.run_play MemoryQueue.Event.freshCheck_sound
        [(.nack "j" "timed out" (.retry 0), ⟨42, 42⟩)] finishedQueue (by decide +kernel))
      (by decide +kernel) trivial
    -- the nack answers the claim with a row that is queued again
    have requeued : ((finishedQueue.call (.nack "j" "timed out" (.retry 0))
        ⟨42, 42⟩).2.records["j"]?).map (·.status) = some .queued := by decide +kernel
    rw [there, Option.map_some, same] at requeued
    cases requeued
  · intro claim
    have run := (freshScheduler [0, 1, 2, 3, 4]).trace_of_play takenOverRun _ takenOverRun_played
    have rest := (freshScheduler [0, 1, 2, 3, 4]).trace_of_play lateNack _ lateNack_played
    obtain ⟨kept, -⟩ := claim _ finishedPool _ _ "j" ⟨mail, .succeeded none 40⟩
      (run.of_confined fun _ _ => rfl).1 (rest.of_confined finishedPool_idle).1
      (by decide +kernel) trivial
    have requeued : ((((freshScheduler [0, 1, 2, 3, 4]).play lateNack [] finishedPool).get
        lateNack_played).2.world.store[jobKey "j"]?).map (fun row => match row with
          | .job sj => decide (sj.status = .queued)
          | .text _ => false) = some true := by decide +kernel
    rw [kept] at requeued
    cases requeued

/-! ### A job that stays finished -/

/-- How to see that a call in memory is timely. -/
def MemoryQueue.Event.timelyCheck (e : MemoryQueue.Event Id) : Bool :=
  let awaited := fun id => (e.before.records[id]?).all fun rec => !decide rec.status.Ended
  e.freshCheck && match e.op with
    | .ack id _ => awaited id
    | .nack id _ _ => awaited id
    | _ => true

theorem MemoryQueue.Event.timelyCheck_sound (e : MemoryQueue.Event Id)
    (ok : e.timelyCheck = true) : e.Timely := by
  simp only [timelyCheck, Bool.and_eq_true] at ok
  refine ⟨freshCheck_sound e ok.1, fun id rec settles found => ?_⟩
  have checked := ok.2
  cases op : e.op with
  | ack job result =>
    rw [op] at settles checked
    cases settles
    simpa [found] using checked
  | nack job error retry =>
    rw [op] at settles checked
    cases settles
    simpa [found] using checked
  | _ =>
    rw [op] at settles
    exact settles.elim

/-- How to see that a step on the durable queue is timely. -/
def timelyCheck (pids : List Nat) (s : QueuePool Id) (l : QueueLabel Id) : Bool :=
  freshCheck pids s l && match l with
    | .call _ (.get key) none => (s.world.store[key]?).all fun row => match row with
      | .job sj => !decide sj.status.Ended
      | .text _ => true
    | .call pid (.save _ id _) none => (s.procs pid).all fun p =>
      decide ((handle p).seen (jobKey id) = s.world.store[jobKey id]?)
    | _ => true

theorem timelyCheck_sound {pids : List Nat} {s : QueuePool Id} {l : QueueLabel Id}
    (ok : timelyCheck pids s l = true) : System.Confined pids DurableQueue.Timely s l := by
  simp only [timelyCheck, Bool.and_eq_true] at ok
  obtain ⟨few, fresh⟩ := freshCheck_sound ok.1
  refine ⟨few, fun outside => ⟨fresh outside, ?_, ?_⟩⟩
  · rintro pid p id sj rfl - - found
    simpa [found] using ok.2
  · rintro pid cause id sj rfl p there
    simpa [there] using ok.2

def timelyScheduler (pids : List Nat) :
    queueSystem.Scheduler (System.Confined pids (@DurableQueue.Timely String _)) :=
  queueScheduler (timelyCheck pids) fun _ _ ok => timelyCheck_sound ok

theorem takenOverRun_timely :
    ((timelyScheduler [0, 1, 2, 3, 4]).play takenOverRun [] emptyQueue).isSome = true := by
  decide +kernel

/-- The durable queue after a timely run. -/
def timelyPool : QueuePool String :=
  (((timelyScheduler [0, 1, 2, 3, 4]).play takenOverRun [] emptyQueue).get takenOverRun_timely).2

/-- A later `reserve` finds nothing. -/
def laterReserve : List (System.Move (QueueError String) (QueueOp String)) :=
  .spawn 4 (.reserve "w1" 1 30) :: List.replicate 5 (.call 4)

theorem laterReserve_played :
    ((timelyScheduler [0, 1, 2, 3, 4]).play laterReserve [] timelyPool).isSome = true := by
  decide +kernel

theorem ended_absorbing_later :
    (∃ rec', (finishedQueue.call (.reserve "w1" 1 30) ⟨50, 50⟩).2.records["j"]? = some rec' ∧
        rec'.status = .succeeded none 41) ∧
      (((timelyScheduler [0, 1, 2, 3, 4]).play laterReserve [] timelyPool).get
        laterReserve_played).2.world.store[jobKey "j"]? =
          some (.job ⟨mail, .succeeded none 40⟩) := by
  obtain ⟨memory, durable⟩ := @ended_absorbing String _
  constructor
  · exact (memory _ finishedQueue _ _ "j" ⟨mail, .succeeded none 41, none, none, none, none, some 41⟩
      (MemoryQueue.run_play MemoryQueue.Event.timelyCheck_sound takenOver .new (by decide +kernel))
      (MemoryQueue.run_play MemoryQueue.Event.timelyCheck_sound
        [(.reserve "w1" 1 30, ⟨50, 50⟩)] finishedQueue (by decide +kernel))
      (by decide +kernel) trivial).1
  · obtain ⟨run, idle⟩ := ((timelyScheduler [0, 1, 2, 3, 4]).trace_of_play takenOverRun _
      takenOverRun_timely).of_confined fun _ _ => rfl
    have rest := ((timelyScheduler [0, 1, 2, 3, 4]).trace_of_play laterReserve _
      laterReserve_played).of_confined idle
    exact (durable _ timelyPool _ _ "j" ⟨mail, .succeeded none 40⟩ run rest.1 (by decide +kernel)
      trivial).1

end Queue

end RustApi
