import RustApi.Queue.Rows

/-!
# Exclusive delivery

A lease hands a job of the durable queue to one worker until it runs out. `reserve` scans
for queued jobs in one step and writes their leases in later ones without looking again,
so two of them can lease the same job. The sweep does look again before it puts a job
back, at the status but not at the time.

## Main results

- `leases_exclusive`: when a job is leased, every earlier lease of it has run out or the job
  was nacked, in every run in which a lease is written over the row that was read and a
  sweep ends a lease that has run out.
- `leased_twice`: a run in which two workers lease one job at the same time.
-/

namespace RustApi

open Lib

namespace Queue

variable {Id : Type} [Uuid Id]

/-! ### Leases of a run -/

/-- When the lease of a job runs out, after one more step. A lease sets the time, an extension can
    put it off, a nack gives the job back, and an ack changes nothing. -/
def heldAfter (id : Id) (held : Option Int) : QueueLabel Id → Option Int
  | .call _ (.save cause job sj) none =>
    if job = id then
      match cause, sj.status with
      | .lease, .leased _ expiresAt => some expiresAt
      | .extend, .leased _ expiresAt => some (max (held.getD expiresAt) expiresAt)
      | .nack, _ => none
      | _, _ => held
    else held
  | _ => held

/-- When the last lease of a job runs out that was not given back. -/
def holding (h : List (QueueLabel Id)) (id : Id) : Option Int := h.foldl (heldAfter id) none

theorem holding_append (h : List (QueueLabel Id)) (l : QueueLabel Id) (id : Id) :
    holding (h ++ [l]) id = heldAfter id (holding h id) l := by
  simp [holding]

namespace DurableQueue

/-- Ids are fresh, a lease and its extension are written over the row that was read, an extension
    does not cut the lease short, and a sweep only ends a lease that has run out. -/
structure Orderly (s : QueuePool Id) (l : QueueLabel Id) : Prop where
  fresh : FreshIds s l
  lease : ∀ pid id sj, l = .call pid (.save .lease id sj) none → Current s pid (jobKey id)
  extend : ∀ pid id sj, l = .call pid (.save .extend id sj) none → Current s pid (jobKey id) ∧
    ∀ old holder before worker expiresAt, s.world.store[jobKey id]? = some (.job old) →
      old.status = .leased holder before → sj.status = .leased worker expiresAt →
      before ≤ expiresAt
  sweep : ∀ pid id sj worker expiresAt, l = .call pid (.requeue id) none →
    s.world.store[jobKey id]? = some (.job sj) → sj.status = .leased worker expiresAt →
    expiresAt ≤ s.world.clock

/-- In the runs under a condition, a job is only leased when its last lease has run out, if it was
    not given back. -/
def Excludes (cond : QueuePool Id → QueueLabel Id → Prop) : Prop :=
  ∀ h s t pid id sj expiresAt, queueSystem.Trace cond emptyQueue h s →
    cond s (.call pid (.save .lease id sj) none) →
    queueSystem.Step s (.call pid (.save .lease id sj) none) t →
    holding h id = some expiresAt → expiresAt ≤ s.world.clock

/-! ### The invariant -/

/-- The row of a job respects the last lease of it. -/
structure Respects (h : List (QueueLabel Id)) (w : QueueWorld Id) (id : Id) : Prop where
  present : holding h id ≠ none → w.store[jobKey id]? ≠ none
  queued : ∀ sj expiresAt, holding h id = some expiresAt →
    w.store[jobKey id]? = some (.job sj) → sj.status = .queued → expiresAt ≤ w.clock
  leased : ∀ sj worker ends expiresAt, holding h id = some expiresAt →
    w.store[jobKey id]? = some (.job sj) → sj.status = .leased worker ends → expiresAt ≤ ends

/-- A step that does not concern the job. -/
private theorem Respects.quiet {h : List (QueueLabel Id)} {w w' : QueueWorld Id} {id : Id}
    (respects : Respects h w id) {l : QueueLabel Id}
    (unheld : heldAfter id (holding h id) l = holding h id)
    (still : w'.store[jobKey id]? = w.store[jobKey id]?) (later : w.clock ≤ w'.clock) :
    Respects (h ++ [l]) w' id := by
  refine ⟨?_, ?_, ?_⟩
  · rw [holding_append, unheld, still]
    exact respects.present
  · intro sj expiresAt
    rw [holding_append, unheld, still]
    exact fun held row queued => Int.le_trans (respects.queued sj expiresAt held row queued) later
  · intro sj worker ends expiresAt
    rw [holding_append, unheld, still]
    exact respects.leased sj worker ends expiresAt

/-- A step that writes the row of the job. -/
private theorem Respects.write {h : List (QueueLabel Id)} {w : QueueWorld Id} {id : Id}
    {l : QueueLabel Id} {sj : StoredJob Id} (row : w.store[jobKey id]? = some (.job sj))
    (queued : ∀ expiresAt, heldAfter id (holding h id) l = some expiresAt → sj.status = .queued →
      expiresAt ≤ w.clock)
    (leased : ∀ worker ends expiresAt, heldAfter id (holding h id) l = some expiresAt →
      sj.status = .leased worker ends → expiresAt ≤ ends) : Respects (h ++ [l]) w id := by
  refine ⟨fun _ => ?_, ?_, ?_⟩
  · rw [row]
    exact Option.some_ne_none _
  · intro sj' expiresAt held row'
    cases row.symm.trans row'
    exact queued expiresAt ((holding_append h l id).symm.trans held)
  · intro sj' worker ends expiresAt held row'
    cases row.symm.trans row'
    exact leased worker ends expiresAt ((holding_append h l id).symm.trans held)

private theorem respects_call {h : List (QueueLabel Id)} {s : QueuePool Id} {pid : Nat}
    {op : QueueOp Id} {st : Handle Id} {c : QueueCall Id} (orderly : Orderly s (.call pid c none))
    (sound : Sound s) (here : queueProtocol.view Handle.start s pid = some (op, st))
    (allowed : queueProtocol.allowed st c) {id : Id} (respects : Respects h s.world id) :
    Respects (h ++ [.call pid c none]) (c.exec s.world).2 id := by
  have seen := fun key sj read => (sound.tidy.seen pid op st here key sj read).1
  -- only a save moves what is held; the other writes meet it with the end of a lease
  by_cases saved : ∃ cause sj', c = .save cause id sj'
  · obtain ⟨cause, sj', rfl⟩ := saved
    have row : ((QueueCall.save cause id sj').exec s.world).2.store[jobKey id]? =
        some (.job sj') := by
      simp [QueueCall.exec]
    obtain ⟨-, sj, d, -, of, suffers⟩ := allowed.id_eq seen
    cases cause with
    | lease =>
      cases suffers with
      | lease queued =>
        refine .write row (fun _ _ bad => by cases bad) ?_
        rintro _ _ expiresAt held ⟨⟩
        simp only [heldAfter, if_true, Option.some.injEq] at held
        exact Int.le_of_eq held.symm
      | _ => exact of.elim
    | ack =>
      cases suffers with
      | ack => exact .write row (fun _ _ bad => by cases bad) fun _ _ _ _ bad => by cases bad
      | _ => exact of.elim
    | nack =>
      refine .write row (fun _ held => ?_) fun _ _ _ held => ?_
      · simp [heldAfter] at held
      · simp [heldAfter] at held
    | extend =>
      obtain ⟨current, longer⟩ := orderly.extend pid id sj' rfl
      obtain ⟨sj, d, before, of, suffers⟩ := Handle.Saves.suffers sound.tidy here allowed current
      cases suffers with
      | @extend holder ends worker expiresAt leased =>
        refine .write row (fun _ _ bad => by cases bad) ?_
        rintro _ _ x held ⟨⟩
        simp only [heldAfter, if_true, Option.some.injEq] at held
        rw [← held]
        refine max_le ?_ (Int.le_refl _)
        -- what was held ends with the lease in the row, and so before the new one
        cases holds : holding h id with
        | none => exact Int.le_refl _
        | some y =>
          exact Int.le_trans (respects.leased sj holder ends y holds before leased)
            (longer sj holder ends worker expiresAt before leased rfl)
      | _ => exact of.elim
  · have unheld : heldAfter id (holding h id) (.call pid c none) = holding h id := by
      cases c with
      | save cause job sj' =>
        refine if_neg ?_
        rintro rfl
        exact saved ⟨cause, sj', rfl⟩
      | _ => rfl
    rcases exec_store allowed seen s.world (jobKey id) with
      same | ⟨job, sj, worker, expiresAt, rfl, keys, before, leased, after⟩ |
      ⟨new, rfl, inserts, ⟨keys, after⟩ | ⟨_, -, keys, -⟩⟩ |
      ⟨_, _, _, _, _, rfl, keys, -, -, -, -, -, -⟩
    · exact respects.quiet unheld same (Int.le_of_eq (exec_clock c s.world).symm)
    · -- the lease that the sweep ends has run out
      refine .write after ?_ fun _ _ _ _ bad => by cases bad
      intro x held _
      rw [unheld] at held
      rw [exec_clock]
      refine Int.le_trans (respects.leased sj worker expiresAt x held before leased) ?_
      rw [keys] at before
      exact orderly.sweep pid job sj worker expiresAt rfl before leased
    · -- a job that was never stored was never leased
      have absent := (sound.unborn.insert sound.tidy here inserts).2
      rw [← keys] at absent
      have never : heldAfter id (holding h id) (.call pid (.insert new) none) = none := by
        rw [unheld]
        by_contra held
        exact respects.present held absent
      refine .write after (fun x held => ?_) fun _ _ x held => ?_
      · cases never.symm.trans held
      · cases never.symm.trans held
    · exact absurd keys (jobKey_ne_idempotencyKey _ _)
    · cases jobKey_injective keys
      exact absurd ⟨_, _, rfl⟩ saved

private theorem respects_preserved (id : Id) :
    queueSystem.Preserves queueProtocol Handle.start
      (fun (s : QueuePool Id) l => Orderly s l ∧ Sound s) fun h w _ => Respects h w id where
  answers _ _ := trivial
  faults _ _ _ := trivial
  spawn := fun _ _ _ _ _ _ respects => respects.quiet rfl rfl (Int.le_refl _)
  env := by
    rintro h s w - ⟨clock, later, rfl⟩ respects
    exact respects.quiet rfl rfl later
  call := fun _ _ _ _ _ _ met here allowed _ respects =>
    respects_call met.1 met.2 here allowed respects
  fault := fun _ _ _ _ _ c _ _ _ _ _ respects => by
    refine respects.quiet ?_ rfl (Int.le_refl _)
    cases c <;> rfl
  drop := fun _ _ _ _ _ _ _ _ respects => respects.quiet rfl rfl (Int.le_refl _)

end DurableQueue

/-- **Exclusive delivery**. In an orderly run, when a job is leased, its last lease has run out or
    the job was given back by a nack. What a `reserve` returns, it has leased
    (`leased_of_answered`). -/
theorem leases_exclusive : DurableQueue.Excludes (@DurableQueue.Orderly Id _) := by
  intro h s t pid id sj' expiresAt run orderly step held
  have known := System.Trace.assume (fun _ _ => sound_of_trace fun _ _ met => met.fresh) run
  have sound := sound_of_trace (fun _ _ met => met.fresh) run
  have respects := (System.invariant_of_trace (fun _ _ op _ => DurableQueue.prog_conf op)
    (DurableQueue.respects_preserved id) known (System.obeyed_of_no_procs _)
    ⟨fun bad => absurd rfl bad, fun _ _ bad => (nomatch bad), fun _ _ _ _ bad => (nomatch bad)⟩).2
  cases step with
  | call at_call enabled =>
    have here : queueProtocol.view Handle.start s pid = some (_, _) :=
      queueProtocol.view_eq_some.mpr ⟨_, at_call, rfl, rfl⟩
    obtain ⟨sj, d, row, of, suffers⟩ := Handle.Saves.suffers sound.tidy here
      (sound.obeyed pid _ at_call).1 (orderly.lease pid id sj' rfl)
    cases suffers with
    | lease queued => exact respects.queued sj expiresAt held row queued
    | _ => exact of.elim

/-! ### A job that is leased twice -/

/-- How to follow a schedule of fresh ids. -/
def exclusiveScheduler (pids : List Nat) :
    queueSystem.Scheduler (System.Confined pids (@FreshIds String _)) :=
  queueScheduler (freshCheck pids) fun _ _ ok => freshCheck_sound ok

/-- A job that waits. -/
def letter : Job String := ⟨"j", "mail", [], 0, 0, 3, 0, 0, none, ∅⟩

/-- Both workers scan the queue before either leases its job, and `w1` does so first. -/
def racingReserves : List (System.Move (QueueError String) (QueueOp String)) :=
  .spawn 0 (.enqueue letter []) :: List.replicate 3 (.call 0) ++
    .spawn 1 (.reserve "w1" 1 30) :: List.replicate 4 (.call 1) ++
    .spawn 2 (.reserve "w2" 1 30) :: List.replicate 4 (.call 2) ++ [.call 1, .call 1]

theorem racingReserves_played :
    ((exclusiveScheduler [0, 1, 2]).play racingReserves [] emptyQueue).isSome = true := by
  decide +kernel

/-- `w1` has returned with the job, and `w2` is about to lease it. -/
def racingPool : QueuePool String :=
  (((exclusiveScheduler [0, 1, 2]).play racingReserves [] emptyQueue).get racingReserves_played).2

/-- `w2` leases the job of `w1`, whose lease has just begun. -/
theorem leased_twice : ¬ DurableQueue.Excludes (@FreshIds String _) := by
  intro claim
  have run := (exclusiveScheduler [0, 1, 2]).trace_of_play racingReserves _ racingReserves_played
  have moved : ((exclusiveScheduler [0, 1, 2]).move racingPool (.call 2)).map (·.1) =
      some (.call 2 (.save .lease "j" ⟨letter, .leased "w2" 30⟩) none) := by decide +kernel
  obtain ⟨⟨l, t⟩, move, rfl⟩ := Option.map_eq_some_iff.mp moved
  have held : holding (((exclusiveScheduler [0, 1, 2]).play racingReserves [] emptyQueue).get
      racingReserves_played).1 "j" = some 30 := by decide +kernel
  have refused := claim _ racingPool t 2 "j" _ 30 (run.of_confined fun _ _ => rfl).1
    (fun _ _ _ bad => (nomatch bad)) (System.Scheduler.step_of_move move) held
  exact absurd refused (by decide +kernel)

/-! ### A job that is handed on -/

/-- How to see that a step is orderly; there is nothing to extend. -/
def orderlyCheck (pids : List Nat) (s : QueuePool Id) (l : QueueLabel Id) : Bool :=
  freshCheck pids s l && match l with
    | .call pid (.save .lease id _) none => (s.procs pid).all fun p =>
      decide ((handle p).seen (jobKey id) = s.world.store[jobKey id]?)
    | .call _ (.save .extend _ _) none => false
    | .call _ (.requeue id) none => (s.world.store[jobKey id]?).all fun row => match row with
      | .job ⟨_, .leased _ expiresAt⟩ => decide (expiresAt ≤ s.world.clock)
      | _ => true
    | _ => true

theorem orderlyCheck_sound {pids : List Nat} {s : QueuePool Id} {l : QueueLabel Id}
    (ok : orderlyCheck pids s l = true) : System.Confined pids DurableQueue.Orderly s l := by
  simp only [orderlyCheck, Bool.and_eq_true] at ok
  obtain ⟨few, fresh⟩ := freshCheck_sound ok.1
  refine ⟨few, fun outside => ⟨fresh outside, ?_, ?_, ?_⟩⟩
  · rintro pid id sj rfl p there
    simpa [there] using ok.2
  · rintro pid id sj rfl
    exact absurd ok.2 Bool.false_ne_true
  · rintro pid id ⟨job, _⟩ worker expiresAt rfl found ⟨⟩
    simpa [found] using ok.2

def orderlyScheduler (pids : List Nat) :
    queueSystem.Scheduler (System.Confined pids (@DurableQueue.Orderly String _)) :=
  queueScheduler (orderlyCheck pids) fun _ _ ok => orderlyCheck_sound ok

/-- The lease of `w1` runs out before `w2` looks for work. -/
def handedOn : List (System.Move (QueueError String) (QueueOp String)) :=
  .spawn 0 (.enqueue letter []) :: List.replicate 3 (.call 0) ++
    .spawn 1 (.reserve "w1" 1 30) :: List.replicate 6 (.call 1) ++
    .env 40 :: .spawn 2 (.reserve "w2" 1 30) :: List.replicate 5 (.call 2)

theorem handedOn_played :
    ((orderlyScheduler [0, 1, 2]).play handedOn [] emptyQueue).isSome = true := by
  decide +kernel

/-- `w2` is about to lease the job that `w1` has lost. -/
def handedOnPool : QueuePool String :=
  (((orderlyScheduler [0, 1, 2]).play handedOn [] emptyQueue).get handedOn_played).2

theorem leases_exclusive_handed_on : 30 ≤ handedOnPool.world.clock := by
  have run := (orderlyScheduler [0, 1, 2]).trace_of_play handedOn _ handedOn_played
  obtain ⟨known, idle⟩ := run.of_confined fun _ _ => rfl
  have moved : ((orderlyScheduler [0, 1, 2]).move handedOnPool (.call 2)).map (fun m =>
      (m.1, (orderlyScheduler [0, 1, 2]).check handedOnPool m.1)) =
      some (.call 2 (.save .lease "j" ⟨letter, .leased "w2" 70⟩) none, true) := by decide +kernel
  obtain ⟨⟨l, t⟩, move, same⟩ := Option.map_eq_some_iff.mp moved
  obtain ⟨rfl, ok⟩ := Prod.mk.inj same
  have held : holding (((orderlyScheduler [0, 1, 2]).play handedOn [] emptyQueue).get
      handedOn_played).1 "j" = some 30 := by decide +kernel
  exact leases_exclusive _ handedOnPool t 2 "j" _ 30 known
    (((orderlyScheduler [0, 1, 2]).check_sound _ _ ok).2 idle)
    (System.Scheduler.step_of_move move) held

end Queue

end RustApi
