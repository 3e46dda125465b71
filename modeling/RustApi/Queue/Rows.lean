import RustApi.Queue.Durable

/-!
# The rows of the durable queue

What a step of any call does to the store, and what holds of the rows in every run:
a job stands under its id, and no other job is stored under it.

## Main results

- `exec_store`: a step ends the lease of a row, stores a new job, or writes a row as the
  call read it after something happened to the job.
- `tidy_of_trace`, `unborn_of_trace`: the rows in every state of a run.
-/

namespace RustApi

open Lib

namespace Queue

variable {Id : Type} [Uuid Id]

/-! ### The row of a job -/

omit [Uuid Id] in
@[simp] theorem QueueWorld.put_store (w : QueueWorld Id) (key : String) (row : QueueRow Id) :
    (w.put key row).store = w.store.insert key row := rfl

theorem jobKey_injective {a b : Id} (same : jobKey a = jobKey b) : a = b := by
  have text : Uuid.format a = Uuid.format b := by
    simpa [jobKey, String.ext_iff] using same
  have parsed := congrArg (Uuid.parse : String → Option Id) text
  rw [Uuid.parse_format, Uuid.parse_format] at parsed
  exact Option.some.inj parsed

theorem jobKey_ne_idempotencyKey (id : Id) (key : String) : jobKey id ≠ idempotencyKey key := by
  intro same
  have first := congrArg (fun s => s.toList.head?) same
  simp [jobKey, idempotencyKey] at first

theorem idempotencyKey_injective {a b : String} (same : idempotencyKey a = idempotencyKey b) :
    a = b := by
  simpa [idempotencyKey, String.ext_iff] using same

/-- A transaction of the sweep only ends the lease of its own row. -/
theorem get_requeue (w : QueueWorld Id) (id : Id) (key : String) :
    (w.requeue id).store[key]? = w.store[key]? ∨
      key = jobKey id ∧ ∃ sj worker expiresAt, w.store[key]? = some (.job sj) ∧
        sj.status = .leased worker expiresAt ∧
        (w.requeue id).store[key]? = some (.job { sj with status := .queued }) := by
  unfold QueueWorld.requeue
  split
  next sj found =>
    split
    next worker expiresAt leased =>
      rw [QueueWorld.put_store, Kv.get_insert]
      by_cases same : jobKey id = key
      · subst same
        exact .inr ⟨rfl, sj, worker, expiresAt, found, leased, if_pos rfl⟩
      · exact .inl (if_neg same)
    next => exact .inl rfl
  next => exact .inl rfl

/-- Jobs stand under their ids, in the store and in what was read of it, and no row that was
    read is gone. -/
structure Tidy (w : QueueWorld Id) (view : Nat → Option (QueueOp Id × Handle Id)) : Prop where
  rows : ∀ (key : String) sj, w.store[key]? = some (.job sj) → key = jobKey sj.job.id
  op : ∀ pid op st, view pid = some (op, st) → st.op = op
  seen : ∀ pid op st, view pid = some (op, st) →
    ∀ key sj, st.seen key = some (.job sj) → key = jobKey sj.job.id ∧ w.store[key]? ≠ none

/-- A row that is saved stands under the id of its job. -/
theorem Handle.Saves.id_eq {st : Handle Id} {cause : Cause} {id : Id} {sj' : StoredJob Id}
    (saves : st.Saves cause id sj')
    (seen : ∀ key sj, st.seen key = some (.job sj) → key = jobKey sj.job.id) :
    sj'.job.id = id ∧ ∃ sj d, st.seen (jobKey id) = some (.job sj) ∧ cause.Of d ∧
      Suffers sj d sj' := by
  obtain ⟨sj, d, key, read, of, suffers, leased, other⟩ := saves.read
  have named : id = sj.job.id := by
    by_cases lease : cause = .lease
    · exact leased lease
    · exact jobKey_injective ((other lease).symm.trans (seen key sj read))
  refine ⟨suffers.id_eq.trans named.symm, sj, d, ?_, of, suffers⟩
  rw [named, ← seen key sj read]
  exact read

/-- Only the environment moves the clock. -/
theorem exec_clock (c : QueueCall Id) (w : QueueWorld Id) : (c.exec w).2.clock = w.clock := by
  cases c with
  | requeue id =>
    simp only [QueueCall.exec, QueueWorld.requeue]
    split
    · split <;> rfl
    · rfl
  | insert sj =>
    simp only [QueueCall.exec, QueueWorld.insert]
    split <;> rfl
  | _ => rfl

/-- What one step does to the store, seen from one key. -/
theorem exec_store {st : Handle Id} {c : QueueCall Id} (allowed : queueProtocol.allowed st c)
    (seen : ∀ key sj, st.seen key = some (.job sj) → key = jobKey sj.job.id)
    (w : QueueWorld Id) (key : String) :
    (c.exec w).2.store[key]? = w.store[key]? ∨
      (∃ id sj worker expiresAt, c = .requeue id ∧ key = jobKey id ∧
        w.store[key]? = some (.job sj) ∧ sj.status = .leased worker expiresAt ∧
        (c.exec w).2.store[key]? = some (.job { sj with status := .queued })) ∨
      (∃ sj, c = .insert sj ∧ st.Inserts sj ∧
        (key = jobKey sj.job.id ∧ (c.exec w).2.store[key]? = some (.job sj) ∨
          ∃ k, sj.job.idempotencyKey = some k ∧ key = idempotencyKey k ∧
            (c.exec w).2.store[key]? = some (.text (Uuid.format sj.job.id)))) ∨
      ∃ cause id sj' sj d, c = .save cause id sj' ∧ key = jobKey id ∧ sj'.job.id = id ∧
        st.seen key = some (.job sj) ∧ cause.Of d ∧ Suffers sj d sj' ∧
        (cause = .ack ∨ cause = .nack → st.op.Settles id) ∧
        (c.exec w).2.store[key]? = some (.job sj') := by
  cases c with
  | now => exact .inl rfl
  | scan => exact .inl rfl
  | get _ => exact .inl rfl
  | answered _ _ => exact .inl rfl
  | requeue id =>
    rcases get_requeue w id key with same | ⟨rfl, sj, worker, expiresAt, found, leased, after⟩
    · exact .inl same
    · exact .inr (.inl ⟨id, sj, worker, expiresAt, rfl, rfl, found, leased, after⟩)
  | insert sj =>
    -- the job row first; the key row is put over it when the job has a key
    have into : (w.put (jobKey sj.job.id) (.job sj)).store[key]? = w.store[key]? ∨
        key = jobKey sj.job.id ∧
          (w.put (jobKey sj.job.id) (.job sj)).store[key]? = some (.job sj) := by
      rw [QueueWorld.put_store, Kv.get_insert]
      by_cases same : jobKey sj.job.id = key
      · exact .inr ⟨same.symm, if_pos same⟩
      · exact .inl (if_neg same)
    simp only [QueueCall.exec, QueueWorld.insert]
    split
    next k keyed =>
      rw [QueueWorld.put_store, Kv.get_insert]
      by_cases same : idempotencyKey k = key
      · exact .inr (.inr (.inl ⟨sj, rfl, allowed, .inr ⟨k, keyed, same.symm, if_pos same⟩⟩))
      · rw [if_neg same]
        exact into.imp id fun there => .inr (.inl ⟨sj, rfl, allowed, .inl there⟩)
    next => exact into.imp id fun there => .inr (.inl ⟨sj, rfl, allowed, .inl there⟩)
  | save cause id sj' =>
    obtain ⟨named, sj, d, read, of, suffers⟩ := allowed.id_eq seen
    simp only [QueueCall.exec, QueueWorld.put_store, Kv.get_insert]
    by_cases same : jobKey id = key
    · subst same
      exact .inr (.inr (.inr ⟨cause, id, sj', sj, d, rfl, rfl, named, read, of, suffers,
        allowed.settles, if_pos rfl⟩))
    · exact .inl (if_neg same)

/-- No step removes a row. -/
theorem exec_present {st : Handle Id} {c : QueueCall Id} (allowed : queueProtocol.allowed st c)
    (seen : ∀ key sj, st.seen key = some (.job sj) → key = jobKey sj.job.id)
    {w : QueueWorld Id} {key : String} (present : w.store[key]? ≠ none) :
    (c.exec w).2.store[key]? ≠ none := by
  rcases exec_store allowed seen w key with same | ⟨_, _, _, _, -, -, -, -, after⟩ |
    ⟨_, -, -, ⟨-, after⟩ | ⟨_, -, -, after⟩⟩ | ⟨_, _, _, _, _, -, -, -, -, -, -, -, after⟩
  · rwa [same]
  all_goals
    rw [after]
    exact Option.some_ne_none _

/-- A call knows a row as it is when it scans the store or reads this row. -/
theorem track_seen (st : Handle Id) (c : QueueCall Id) (w : QueueWorld Id) (key : String) :
    (queueProtocol.track st c (c.exec w).1).seen key = st.seen key ∨
      (c = .scan ∨ c = .get key) ∧
        (queueProtocol.track st c (c.exec w).1).seen key = w.store[key]? := by
  cases c with
  | scan => exact .inr ⟨.inl rfl, rfl⟩
  | get k =>
    by_cases same : key = k
    · subst same
      exact .inr ⟨.inr rfl, Function.update_self ..⟩
    · exact .inl (Function.update_of_ne same ..)
  | save cause id sj =>
    cases cause with
    | lease =>
      obtain ⟨job, status⟩ := sj
      cases status <;> exact .inl rfl
    | _ => exact .inl rfl
  | _ => exact .inl rfl

theorem track_op (st : Handle Id) (c : QueueCall Id) (r : Except (QueueError Id) c.Ans) :
    (queueProtocol.track st c r).op = st.op := by
  cases c with
  | save cause id sj =>
    cases cause with
    | lease =>
      obtain ⟨job, status⟩ := sj
      cases status <;> cases r <;> rfl
    | _ => rfl
  | _ => cases r <;> rfl

theorem track_error (st : Handle Id) (c : QueueCall Id) (e : QueueError Id) :
    queueProtocol.track st c (.error e) = st := by
  cases c with
  | save cause id sj =>
    cases cause with
    | lease =>
      obtain ⟨job, status⟩ := sj
      cases status <;> rfl
    | _ => rfl
  | _ => rfl

theorem Tidy.preserved {cond : QueuePool Id → QueueLabel Id → Prop} :
    queueSystem.Preserves queueProtocol Handle.start cond fun _ w view => Tidy w view where
  answers _ _ := trivial
  faults _ _ _ := trivial
  spawn := by
    intro h s pid op _ _ tidy
    refine ⟨tidy.rows, ?_, ?_⟩
    · intro q op₁ st found
      rcases update_eq_some.mp found with ⟨-, ⟨⟩⟩ | ⟨-, found⟩
      · rfl
      · exact tidy.op q op₁ st found
    · intro q op₁ st found
      rcases update_eq_some.mp found with ⟨-, ⟨⟩⟩ | ⟨-, found⟩
      · exact fun _ _ bad => nomatch bad
      · exact tidy.seen q op₁ st found
  env := by
    rintro h s w - ⟨clock, -, rfl⟩ tidy
    exact ⟨tidy.rows, tidy.op, tidy.seen⟩
  call := by
    intro h s pid op st c _ here allowed _ tidy
    have seen : ∀ key sj, st.seen key = some (.job sj) → key = jobKey sj.job.id :=
      fun key sj read => (tidy.seen pid op st here key sj read).1
    have effect := exec_store allowed seen s.world
    refine ⟨?_, ?_, ?_⟩
    · intro key sj found
      change (c.exec s.world).2.store[key]? = _ at found
      -- the row was there, or the one write of the step put it under its own key
      rcases effect key with same | ⟨id, old, _, _, -, rfl, before, -, after⟩ |
        ⟨new, -, -, ⟨rfl, after⟩ | ⟨_, -, -, after⟩⟩ |
        ⟨_, id, new, _, _, -, rfl, named, -, -, -, -, after⟩
      · exact tidy.rows key sj (same.symm.trans found)
      · cases after.symm.trans found
        exact tidy.rows _ old before
      · cases after.symm.trans found
        rfl
      · cases after.symm.trans found
      · cases after.symm.trans found
        rw [named]
    · intro q op₁ st₁ found
      rcases update_eq_some.mp found with ⟨-, ⟨⟩⟩ | ⟨-, found⟩
      · exact (track_op st c _).trans (tidy.op pid op st here)
      · exact tidy.op q op₁ st₁ found
    · intro q op₁ st₁ found key sj read
      rcases update_eq_some.mp found with ⟨-, ⟨⟩⟩ | ⟨-, found⟩
      · change (queueProtocol.track st c (c.exec s.world).1).seen key = _ at read
        -- what was seen before, or the row that this call has read
        rcases track_seen st c s.world key with same | ⟨-, same⟩
        · obtain ⟨keyed, present⟩ := tidy.seen pid op st here key sj (same.symm.trans read)
          exact ⟨keyed, exec_present allowed seen present⟩
        · have there := same.symm.trans read
          refine ⟨tidy.rows key sj there, exec_present allowed seen ?_⟩
          rw [there]
          exact Option.some_ne_none _
      · obtain ⟨keyed, present⟩ := tidy.seen q op₁ st₁ found key sj read
        exact ⟨keyed, exec_present allowed seen present⟩
  fault := by
    intro h s pid op st c e _ here _ _ tidy
    rw [track_error, Function.update_eq_self_iff.mpr here.symm]
    exact tidy
  drop := by
    intro h s pid op past _ _ _ tidy
    exact ⟨tidy.rows, fun q op₁ st₁ found => tidy.op q op₁ st₁ (of_update_none found),
      fun q op₁ st₁ found => tidy.seen q op₁ st₁ (of_update_none found)⟩

/-- In every run from the empty queue the store is tidy. -/
theorem tidy_of_trace {cond : QueuePool Id → QueueLabel Id → Prop} {h : List (QueueLabel Id)}
    {s : QueuePool Id} (run : queueSystem.Trace cond emptyQueue h s) :
    queueProtocol.Obeyed Handle.start (fun _ _ _ => True) s ∧
      Tidy s.world (queueProtocol.view Handle.start s) :=
  System.invariant_of_trace (fun _ _ op _ => DurableQueue.prog_conf op) Tidy.preserved run
    (System.obeyed_of_no_procs _)
    ⟨fun _ _ bad => by simp [emptyQueue] at bad, fun _ _ _ bad => (nomatch bad),
      fun _ _ _ bad => (nomatch bad)⟩

/-! ### Fresh ids -/

/-- A job is enqueued under an id that no stored job has and no running call enqueues. -/
def FreshIds (s : QueuePool Id) (l : QueueLabel Id) : Prop :=
  ∀ pid job context, l = .spawn pid (.enqueue job context) →
    s.world.store[jobKey job.id]? = none ∧
      ∀ q p other trace, s.procs q = some p → p.op = .enqueue other trace → other.id ≠ job.id

/-- A job that was not stored yet has no row, and nobody else enqueues it. -/
structure Unborn (w : QueueWorld Id) (view : Nat → Option (QueueOp Id × Handle Id)) : Prop where
  absent : ∀ pid job context st, view pid = some (.enqueue job context, st) →
    st.stored = false → w.store[jobKey job.id]? = none
  apart : ∀ p q job job' context context' st st', view p = some (.enqueue job context, st) →
    view q = some (.enqueue job' context', st') → job.id = job'.id → p = q

/-- The job of an `insert` has no row. -/
theorem Unborn.insert {w : QueueWorld Id} {view : Nat → Option (QueueOp Id × Handle Id)}
    (unborn : Unborn w view) (tidy : Tidy w view) {pid : Nat} {op : QueueOp Id} {st : Handle Id}
    {sj : StoredJob Id} (here : view pid = some (op, st)) (inserts : st.Inserts sj) :
    (∃ job context, op = .enqueue job context ∧ job.id = sj.job.id ∧ job.maxAttempts ≠ 0 ∧
      sj = ⟨job.traced context, .queued⟩) ∧ w.store[jobKey sj.job.id]? = none := by
  obtain ⟨job, context, same, attempts, rfl⟩ := inserts.job
  have enqueued : op = .enqueue job context := (tidy.op pid op st here).symm.trans same
  subst enqueued
  exact ⟨⟨job, context, rfl, rfl, attempts, rfl⟩, unborn.absent pid job context st here inserts.once⟩

/-- An `enqueue` stays unborn by every step but its own `insert`. -/
theorem track_stored {st : Handle Id} {c : QueueCall Id} {r : Except (QueueError Id) c.Ans}
    (unstored : (queueProtocol.track st c r).stored = false) : st.stored = false := by
  cases c with
  | save cause id sj =>
    cases cause with
    | lease =>
      obtain ⟨job, status⟩ := sj
      cases status <;> cases r <;> exact unstored
    | _ => exact unstored
  | insert sj =>
    cases r with
    | error e => exact unstored
    | ok a => cases unstored
  | _ => cases r <;> exact unstored

/-- A job is stored by an `insert`. -/
theorem stored_of_track {st : Handle Id} {c : QueueCall Id} {r : Except (QueueError Id) c.Ans}
    (stored : (queueProtocol.track st c r).stored = true) :
    st.stored = true ∨ ∃ sj, c = .insert sj := by
  cases c with
  | save cause id sj =>
    cases cause with
    | lease =>
      obtain ⟨job, status⟩ := sj
      cases status <;> cases r <;> exact .inl stored
    | _ => exact .inl stored
  | insert sj => exact .inr ⟨sj, rfl⟩
  | _ => cases r <;> exact .inl stored

/-- Enqueues stay apart when the one that is set carries an id that no other row carries. -/
private theorem Unborn.apart_update {w : QueueWorld Id}
    {view : Nat → Option (QueueOp Id × Handle Id)} (unborn : Unborn w view) {pid : Nat}
    {op : QueueOp Id} {st : Handle Id}
    (new : ∀ q job job' context context' st', q ≠ pid →
      view q = some (.enqueue job context, st') → op = .enqueue job' context' → job.id ≠ job'.id) :
    ∀ p q job job' context context' st₁ st₂,
      Function.update view pid (some (op, st)) p = some (.enqueue job context, st₁) →
      Function.update view pid (some (op, st)) q = some (.enqueue job' context', st₂) →
      job.id = job'.id → p = q := by
  intro p q job job' context context' st₁ st₂ found found' same
  refine single_update (K := fun (row : QueueOp Id × Handle Id) id =>
    ∃ job context, row.1 = .enqueue job context ∧ job.id = id) ?_ ?_ found found'
    ⟨job, context, rfl, same⟩ ⟨job', context', rfl, rfl⟩
  · rintro b c ⟨_, st₃⟩ ⟨_, st₄⟩ _ here there ⟨job₁, context₁, rfl, rfl⟩ ⟨job₂, context₂, rfl, ids⟩
    exact unborn.apart b c job₁ job₂ context₁ context₂ st₃ st₄ here there ids.symm
  · rintro b ⟨_, st₃⟩ _ apart here ⟨job₁, context₁, mine, rfl⟩ ⟨job₂, context₂, rfl, ids⟩
    exact new b job₂ job₁ context₂ context₁ st₃ apart here mine ids

/-- The conditions of a run in which ids are fresh, with what is known of its states. -/
def Fresh (s : QueuePool Id) (l : QueueLabel Id) : Prop :=
  FreshIds s l ∧ Tidy s.world (queueProtocol.view Handle.start s)

theorem Unborn.preserved {cond : QueuePool Id → QueueLabel Id → Prop}
    (fresh : ∀ s l, cond s l → Fresh s l) :
    queueSystem.Preserves queueProtocol Handle.start cond fun _ w view => Unborn w view where
  answers _ _ := trivial
  faults _ _ _ := trivial
  spawn := by
    intro h s pid op met free unborn
    -- a fresh id has no row, and no other enqueue in flight carries it
    have new : ∀ job context, op = .enqueue job context → s.world.store[jobKey job.id]? = none ∧
        ∀ q other trace st, queueProtocol.view Handle.start s q = some (.enqueue other trace, st) →
          other.id ≠ job.id := by
      rintro job context rfl
      obtain ⟨absent, apart⟩ := (fresh s _ met).1 pid job context rfl
      refine ⟨absent, fun q other trace st found => ?_⟩
      obtain ⟨p, there, op, -⟩ := queueProtocol.view_eq_some.mp found
      exact apart q p other trace there op
    refine ⟨?_, ?_⟩
    · intro q job context st found
      rcases update_eq_some.mp found with ⟨-, same⟩ | ⟨-, found⟩
      · cases same
        exact fun _ => (new job context rfl).1
      · exact unborn.absent q job context st found
    · refine unborn.apart_update ?_
      rintro q job job' context context' st - found rfl same
      exact (new job' context' rfl).2 q job context st found same
  env := by
    rintro h s w - ⟨clock, -, rfl⟩ unborn
    exact ⟨unborn.absent, unborn.apart⟩
  call := by
    intro h s pid op st c met here allowed _ unborn
    have tidy := (fresh s _ met).2
    have seen : ∀ key sj, st.seen key = some (.job sj) → key = jobKey sj.job.id :=
      fun key sj read => (tidy.seen pid op st here key sj read).1
    -- a row that appears is that of the caller's own job
    have stays : ∀ q job context st₁,
        queueProtocol.view Handle.start s q = some (.enqueue job context, st₁) →
        st₁.stored = false → (q = pid → ∀ sj, c ≠ .insert sj) →
        (c.exec s.world).2.store[jobKey job.id]? = none := by
      intro q job context st₁ found unstored other
      have absent := unborn.absent q job context st₁ found unstored
      rcases exec_store allowed seen s.world (jobKey job.id) with
        same | ⟨_, _, _, _, -, -, before, -, -⟩ | ⟨new, rfl, inserts, ⟨keys, -⟩ | ⟨_, -, keys, -⟩⟩ |
        ⟨_, _, _, old, _, -, -, -, read, -, -, -, -⟩
      · exact same.trans absent
      · cases absent.symm.trans before
      · obtain ⟨⟨job', context', rfl, named, -, -⟩, -⟩ := unborn.insert tidy here inserts
        have mine := unborn.apart q pid job job' context context' st₁ st found here
          ((jobKey_injective keys).trans named.symm)
        exact absurd rfl (other mine new)
      · exact absurd keys (jobKey_ne_idempotencyKey _ _)
      · exact absurd absent (tidy.seen pid op st here _ old read).2
    refine ⟨?_, ?_⟩
    · intro q job context st₁ found unstored
      rcases update_eq_some.mp found with ⟨rfl, same⟩ | ⟨apart, found⟩
      · cases same
        -- an enqueue that inserts is no longer unstored, so it is not the one at hand
        refine stays q job context st here (track_stored unstored) fun _ sj inserts => ?_
        subst inserts
        cases unstored
      · exact stays q job context st₁ found unstored fun mine => absurd mine apart
    · refine unborn.apart_update ?_
      rintro q job job' context context' st₁ apart found rfl same
      exact apart (unborn.apart q pid job job' context context' st₁ st found here same)
  fault := by
    intro h s pid op st c e _ here _ _ unborn
    rw [track_error, Function.update_eq_self_iff.mpr here.symm]
    exact unborn
  drop := by
    intro h s pid op past _ _ _ unborn
    exact ⟨fun q job context st found => unborn.absent q job context st (of_update_none found),
      fun p q job job' context context' st st' found found' =>
        unborn.apart p q job job' context context' st st' (of_update_none found)
          (of_update_none found')⟩

/-- In every run from the empty queue whose ids are fresh, they are fresh in every state. -/
theorem unborn_of_trace {cond : QueuePool Id → QueueLabel Id → Prop}
    (fresh : ∀ s l, cond s l → FreshIds s l) {h : List (QueueLabel Id)} {s : QueuePool Id}
    (run : queueSystem.Trace cond emptyQueue h s) :
    Unborn s.world (queueProtocol.view Handle.start s) :=
  (System.invariant_of_trace (fun _ _ op _ => DurableQueue.prog_conf op)
    (Unborn.preserved fun s l met => ⟨fresh s l met.1, met.2⟩)
    (System.Trace.assume (fun _ _ run => (tidy_of_trace run).2) run) (System.obeyed_of_no_procs _)
    ⟨fun _ _ _ _ bad => (nomatch bad), fun _ _ _ _ _ _ _ _ bad => (nomatch bad)⟩).2

/-! ### What is known of a run -/

/-- What holds in every state of a run with fresh ids. -/
structure Sound (s : QueuePool Id) : Prop where
  obeyed : queueProtocol.Obeyed Handle.start (fun _ _ _ => True) s
  tidy : Tidy s.world (queueProtocol.view Handle.start s)
  unborn : Unborn s.world (queueProtocol.view Handle.start s)

theorem sound_of_trace {cond : QueuePool Id → QueueLabel Id → Prop}
    (fresh : ∀ s l, cond s l → FreshIds s l) {h : List (QueueLabel Id)} {s : QueuePool Id}
    (run : queueSystem.Trace cond emptyQueue h s) : Sound s :=
  ⟨(tidy_of_trace run).1, (tidy_of_trace run).2, unborn_of_trace fresh run⟩

theorem Current.seen {s : QueuePool Id} {pid : Nat} {key : String} (current : Current s pid key)
    {op : QueueOp Id} {st : Handle Id}
    (here : queueProtocol.view Handle.start s pid = some (op, st)) :
    st.seen key = s.world.store[key]? := by
  obtain ⟨p, there, -, rfl⟩ := queueProtocol.view_eq_some.mp here
  exact current p there

/-- A row that is saved while it is current suffers the deed for which it is saved. -/
theorem Handle.Saves.suffers {s : QueuePool Id}
    (tidy : Tidy s.world (queueProtocol.view Handle.start s)) {pid : Nat} {op : QueueOp Id}
    {st : Handle Id} (here : queueProtocol.view Handle.start s pid = some (op, st)) {cause : Cause}
    {id : Id} {sj' : StoredJob Id} (saves : st.Saves cause id sj')
    (current : Current s pid (jobKey id)) :
    ∃ sj d, s.world.store[jobKey id]? = some (.job sj) ∧ cause.Of d ∧ Suffers sj d sj' := by
  obtain ⟨-, sj, d, read, of, suffers⟩ := saves.id_eq fun key sj seen =>
    (tidy.seen pid op st here key sj seen).1
  exact ⟨sj, d, (current.seen here).symm.trans read, of, suffers⟩

/-- Every job that a `reserve` is going to return was leased by it. -/
def Leased (h : List (QueueLabel Id)) (view : Nat → Option (QueueOp Id × Handle Id)) : Prop :=
  ∀ pid op st, view pid = some (op, st) → ∀ leased ∈ st.leased, ∃ id worker,
    .call pid (.save .lease id ⟨leased.job, .leased worker leased.leaseExpiresAt⟩) none ∈ h

private theorem leased_preserved {cond : QueuePool Id → QueueLabel Id → Prop} :
    queueSystem.Preserves queueProtocol Handle.start cond fun h _ view => Leased h view where
  answers _ _ := trivial
  faults _ _ _ := trivial
  spawn := by
    intro h s pid op _ _ leased q op₁ st found job member
    rcases update_eq_some.mp found with ⟨-, ⟨⟩⟩ | ⟨-, found⟩
    · cases member
    · obtain ⟨id, worker, old⟩ := leased q op₁ st found job member
      exact ⟨id, worker, List.mem_append_left _ old⟩
  env := by
    intro h s w _ _ leased q op st found job member
    obtain ⟨id, worker, old⟩ := leased q op st found job member
    exact ⟨id, worker, List.mem_append_left _ old⟩
  call := by
    intro h s pid op st c _ here _ _ leased q op₁ st₁ found job member
    -- what was handed out earlier was saved earlier
    have before : ∀ q op₂ st₂, queueProtocol.view Handle.start s q = some (op₂, st₂) →
        job ∈ st₂.leased → ∃ id worker, .call q
          (.save .lease id ⟨job.job, .leased worker job.leaseExpiresAt⟩) none ∈
            h ++ [.call pid c none] := by
      intro q op₂ st₂ found member
      obtain ⟨id, worker, old⟩ := leased q op₂ st₂ found job member
      exact ⟨id, worker, List.mem_append_left _ old⟩
    rcases update_eq_some.mp found with ⟨rfl, same⟩ | ⟨-, found⟩
    · cases same
      cases c with
      | save cause id sj =>
        cases cause with
        | lease =>
          obtain ⟨new, status⟩ := sj
          cases status with
          | leased worker expiresAt =>
            rcases List.mem_append.mp member with old | new
            · exact before _ _ _ here old
            · cases List.mem_singleton.mp new
              exact ⟨id, worker, by simp⟩
          | _ => exact before _ _ _ here member
        | _ => exact before _ _ _ here member
      | _ => exact before _ _ _ here member
    · exact before _ _ _ found member
  fault := by
    intro h s pid op st c e _ here _ _ leased q op₁ st₁ found job member
    rw [track_error, Function.update_eq_self_iff.mpr here.symm] at found
    obtain ⟨id, worker, old⟩ := leased q op₁ st₁ found job member
    exact ⟨id, worker, List.mem_append_left _ old⟩
  drop := by
    intro h s pid op past _ _ _ leased q op₁ st found job member
    obtain ⟨id, worker, old⟩ := leased q op₁ st (of_update_none found) job member
    exact ⟨id, worker, List.mem_append_left _ old⟩

/-- A `reserve` has written a lease for every job that it returns. -/
theorem leased_of_answered {cond : QueuePool Id → QueueLabel Id → Prop} {h : List (QueueLabel Id)}
    {s t : QueuePool Id} (run : queueSystem.Trace cond emptyQueue h s) {pid : Nat}
    {op : QueueOp Id} {jobs : List (LeasedJob Id)}
    (step : queueSystem.Step s (.call pid (.answered op (.ok (.leased jobs))) none) t) :
    ∀ leased ∈ jobs, ∃ id worker,
      .call pid (.save .lease id ⟨leased.job, .leased worker leased.leaseExpiresAt⟩) none ∈ h := by
  obtain ⟨obeyed, leased⟩ := System.invariant_of_trace
    (fun _ _ op _ => DurableQueue.prog_conf op) leased_preserved run
    (System.obeyed_of_no_procs _) fun _ _ _ bad => nomatch bad
  cases step with
  | call at_call enabled =>
    have same : jobs = _ := (obeyed pid _ at_call).1.2
    rw [same]
    exact leased pid _ _ (queueProtocol.view_eq_some.mpr ⟨_, at_call, rfl, rfl⟩)

/-! ### Runs of some calls -/

/-- How to see that a run of some calls enqueues fresh ids. -/
def freshCheck (pids : List Nat) (s : QueuePool Id) : QueueLabel Id → Bool
  | .spawn pid (.enqueue job _) =>
    decide (pid ∈ pids) && (s.world.store[jobKey job.id]?).isNone && pids.all fun q =>
      (s.procs q).all fun p => match p.op with
        | .enqueue other _ => decide (other.id ≠ job.id)
        | _ => true
  | .spawn pid _ => decide (pid ∈ pids)
  | _ => true

theorem freshCheck_sound {pids : List Nat} {s : QueuePool Id} {l : QueueLabel Id}
    (ok : freshCheck pids s l = true) : System.Confined pids FreshIds s l := by
  constructor
  · rintro pid op rfl
    cases op with
    | enqueue job context =>
      simp only [freshCheck, Bool.and_eq_true, decide_eq_true_eq] at ok
      exact ok.1.1
    | _ => exact of_decide_eq_true ok
  · rintro outside pid job context rfl
    simp only [freshCheck, Bool.and_eq_true, Option.isNone_iff_eq_none, List.all_eq_true] at ok
    refine ⟨ok.1.2, fun q p other trace there same => ?_⟩
    have member : q ∈ pids := by
      by_contra away
      cases (outside q away).symm.trans there
    have checked := ok.2 q member
    rw [there, Option.all_some, same] at checked
    exact of_decide_eq_true checked

end Queue

end RustApi
