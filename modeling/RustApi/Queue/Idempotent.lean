import RustApi.Queue.Memory
import RustApi.Queue.Rows

/-!
# Idempotent enqueue

A producer that retries an `enqueue` gives the job an idempotency key, and all its
calls should return the one job that was created. The queue in memory looks the key up
and stores it under one mutex. The durable queue looks it up first and stores it in a
later transaction, which does not look again, so two producers can both find it absent.

## Main results

- `enqueue_idempotent`: at most one job is created for a key, and every enqueue with the
  key returns it, in all runs of the queue in memory, and in the runs of the durable queue
  in which the key is stored as long as it is still as it was looked up.
- `enqueued_twice`: a run in which two jobs are created for one key.
-/

namespace RustApi

open Lib

namespace Queue

variable {Id : Type} [Uuid Id]

/-! ### A key and its job -/

/-- The history of a key: `stored` is the id under it, and the steps of the history may create a
    job for it or return the id of one. -/
structure KeyLog {α : Type} (creates returns : α → Id → Prop) (stored : Option Id)
    (h : List α) : Prop where
  absent : stored = none → ∀ e ∈ h, ∀ id, ¬ creates e id
  found : ∀ id, stored = some id → ∃ c ∈ h, creates c id
  once : h.Pairwise fun a b => ¬ ((∃ id, creates a id) ∧ ∃ id, creates b id)
  returned : ∀ e ∈ h, ∀ id, returns e id → ∃ c ∈ h, creates c id

namespace KeyLog

variable {α : Type} {creates returns : α → Id → Prop} {stored : Option Id} {h : List α} {e : α}

omit [Uuid Id] in
theorem nil : KeyLog creates returns (none : Option Id) [] :=
  ⟨fun _ _ bad => (nomatch bad), fun _ bad => (nomatch bad), List.Pairwise.nil,
    fun _ bad => (nomatch bad)⟩

omit [Uuid Id] in
/-- A step that creates nothing, and returns only what was created. -/
theorem quiet (log : KeyLog creates returns stored h) (uncreated : ∀ id, ¬ creates e id)
    (known : ∀ id, returns e id → ∃ c ∈ h, creates c id) :
    KeyLog creates returns stored (h ++ [e]) := by
  refine ⟨?_, ?_, ?_, ?_⟩
  · intro absent c member id
    rcases List.mem_append.mp member with old | new
    · exact log.absent absent c old id
    · cases List.mem_singleton.mp new
      exact uncreated id
  · intro id found
    obtain ⟨c, member, made⟩ := log.found id found
    exact ⟨c, List.mem_append_left _ member, made⟩
  · refine List.pairwise_append.mpr ⟨log.once, List.pairwise_singleton .., ?_⟩
    rintro a - b new ⟨-, id, made⟩
    cases List.mem_singleton.mp new
    exact uncreated id made
  · intro c member id answer
    have old : ∃ c ∈ h, creates c id := by
      rcases List.mem_append.mp member with old | new
      · exact log.returned c old id answer
      · cases List.mem_singleton.mp new
        exact known id answer
    obtain ⟨c, member, made⟩ := old
    exact ⟨c, List.mem_append_left _ member, made⟩

omit [Uuid Id] in
/-- A step that creates the job of a key that nothing is stored under. -/
theorem create (log : KeyLog creates returns none h) {id : Id} (made : creates e id)
    (own : ∀ other, returns e other → other = id) :
    KeyLog creates returns (some id) (h ++ [e]) := by
  refine ⟨fun bad => (nomatch bad), ?_, ?_, ?_⟩
  · rintro _ ⟨⟩
    exact ⟨e, by simp, made⟩
  · refine List.pairwise_append.mpr ⟨log.once, List.pairwise_singleton .., ?_⟩
    rintro a member b - ⟨⟨other, before⟩, -⟩
    exact log.absent rfl a member other before
  · intro c member other answer
    rcases List.mem_append.mp member with old | new
    · obtain ⟨c, member, before⟩ := log.returned c old other answer
      exact ⟨c, List.mem_append_left _ member, before⟩
    · cases List.mem_singleton.mp new
      cases own other answer
      exact ⟨e, by simp, made⟩

end KeyLog

/-! ### Creations -/

namespace MemoryQueue

/-- The call has created the job `id` for a key: an enqueue with a key changes the queue only
    when it stores its job. -/
def Event.Creates (key : String) (e : Event Id) (id : Id) : Prop :=
  ∃ job context, e.op = .enqueue job context ∧ job.idempotencyKey = some key ∧ job.id = id ∧
    e.after ≠ e.before

/-- The call is an enqueue with the key and returns `id`. -/
def Event.Returns (key : String) (e : Event Id) (id : Id) : Prop :=
  ∃ job context, e.op = .enqueue job context ∧ job.idempotencyKey = some key ∧
    e.answer = .ok (.id id)

/-- In the runs under a condition, there is at most one job for a key, and every enqueue with the
    key that succeeds returns it. -/
def EnqueuesOnce (cond : Event Id → Prop) : Prop :=
  ∀ h s key, Run cond (new : MemoryQueue Id) h s →
    (h.Pairwise fun a b => ¬ ((∃ id, a.Creates key id) ∧ ∃ id, b.Creates key id)) ∧
      ∀ e ∈ h, ∀ id, e.Returns key id → ∃ c ∈ h, c.Creates key id

end MemoryQueue

namespace DurableQueue

/-- The step has created the job `id` for a key. -/
def Creates (key : String) (l : QueueLabel Id) (id : Id) : Prop :=
  ∃ pid sj, l = .call pid (.insert sj) none ∧ sj.job.idempotencyKey = some key ∧ sj.job.id = id

/-- An enqueue with the key returns `id`. -/
def Returns (key : String) (l : QueueLabel Id) (id : Id) : Prop :=
  ∃ pid job context, l = .call pid (.answered (.enqueue job context) (.ok (.id id))) none ∧
    job.idempotencyKey = some key

/-- A key is stored as long as its row is the one that was read. -/
def Unraced (s : QueuePool Id) (l : QueueLabel Id) : Prop :=
  ∀ pid sj key, l = .call pid (.insert sj) none → sj.job.idempotencyKey = some key →
    Current s pid (idempotencyKey key)

def EnqueuesOnce (cond : QueuePool Id → QueueLabel Id → Prop) : Prop :=
  ∀ h s key, queueSystem.Trace cond emptyQueue h s →
    (h.Pairwise fun a b => ¬ ((∃ id, Creates key a id) ∧ ∃ id, Creates key b id)) ∧
      ∀ l ∈ h, ∀ id, Returns key l id → ∃ c ∈ h, Creates key c id

end DurableQueue

/-! ### The queue in memory -/

namespace MemoryQueue

theorem leaseAll_idempotency (worker : String) (expiresAt : Int) (ids : List Id)
    (s : MemoryQueue Id) : (leaseAll worker expiresAt ids s).2.idempotency = s.idempotency := by
  induction ids generalizing s with
  | nil => rfl
  | cons id ids ih =>
    simp only [leaseAll]
    split
    · exact ih s
    · exact ih _

/-- Only an enqueue stores a key. -/
theorem call_idempotency (s : MemoryQueue Id) {op : QueueOp Id} (clock : Readings)
    (other : ∀ job context, op ≠ .enqueue job context) :
    (s.call op clock).2.idempotency = s.idempotency := by
  cases op with
  | enqueue job context => exact absurd rfl (other job context)
  | reserve worker limit lease => exact leaseAll_idempotency ..
  | ack job result =>
    simp only [call, ack]
    split <;> rfl
  | nack job error retry =>
    simp only [call, nack]
    split <;> rfl
  | extendLease job lease =>
    simp only [call, extendLease]
    split
    · rfl
    · split
      · split <;> rfl
      · rfl
  | status job =>
    simp only [call, status]
    split <;> rfl

private theorem log_call {key : String} {h : List (Event Id)} {s : MemoryQueue Id}
    (log : KeyLog (Event.Creates key) (Event.Returns key) s.idempotency[key]? h) (op : QueueOp Id)
    (clock : Readings) :
    KeyLog (Event.Creates key) (Event.Returns key) (s.call op clock).2.idempotency[key]?
      (h ++ [⟨s, op, clock⟩]) := by
  by_cases enqueued : ∃ job context, op = .enqueue job context
  · obtain ⟨job, context, rfl⟩ := enqueued
    change KeyLog _ _ (s.enqueue job context).2.idempotency[key]? _
    -- refused, answered from the key, or stored
    rcases s.enqueue_cases job context with ⟨-, same⟩ | ⟨k, existing, keyed, known, same⟩ |
      ⟨-, unknown, stored⟩
    · rw [same]
      refine log.quiet ?_ ?_
      · rintro id ⟨_, _, -, -, -, changed⟩
        exact changed (congrArg Prod.snd same)
      · rintro id ⟨_, _, -, -, answer⟩
        cases (congrArg Prod.fst same).symm.trans answer
    · rw [same]
      refine log.quiet ?_ ?_
      · rintro id ⟨_, _, -, -, -, changed⟩
        exact changed (congrArg Prod.snd same)
      · rintro id ⟨_, _, ⟨⟩, keyed', answer⟩
        cases keyed.symm.trans keyed'
        cases (congrArg Prod.fst same).symm.trans answer
        exact log.found _ known
    · -- a job without the key, or with another one, does not concern the log
      by_cases mine : job.idempotencyKey = some key
      · have absent := unknown key mine
        have after : (s.enqueue job context).2.idempotency[key]? = some job.id := by
          rw [stored]
          simp [put, mine]
        rw [absent] at log
        rw [after]
        refine log.create ⟨job, context, rfl, mine, rfl, fun same => ?_⟩ ?_
        · have still : (s.enqueue job context).2.idempotency[key]? = s.idempotency[key]? :=
            congrArg (fun q : MemoryQueue Id => q.idempotency[key]?) same
          rw [after, absent] at still
          cases still
        · rintro other ⟨_, _, ⟨⟩, -, answer⟩
          cases (congrArg Prod.fst stored).symm.trans answer
          rfl
      · have still : (s.enqueue job context).2.idempotency[key]? = s.idempotency[key]? := by
          rw [stored]
          cases keyed : job.idempotencyKey with
          | none => rfl
          | some k =>
            rw [keyed, Option.some.injEq] at mine
            exact (Kv.get_insert _ _ _ _).trans (if_neg mine)
        rw [still]
        refine log.quiet ?_ ?_
        · rintro id ⟨_, _, ⟨⟩, keyed, -⟩
          exact mine keyed
        · rintro id ⟨_, _, ⟨⟩, keyed, -⟩
          exact absurd keyed mine
  · have other : ∀ job context, op ≠ .enqueue job context :=
      fun job context same => enqueued ⟨job, context, same⟩
    rw [call_idempotency s clock other]
    refine log.quiet ?_ ?_
    · rintro id ⟨job, context, same, -⟩
      exact other job context same
    · rintro id ⟨job, context, same, -⟩
      exact absurd same (other job context)

private theorem memory_once : EnqueuesOnce (fun _ : Event Id => True) := by
  intro h s key run
  suffices log : KeyLog (Event.Creates key) (Event.Returns key) s.idempotency[key]? h from
    ⟨log.once, log.returned⟩
  induction run with
  | nil =>
    rw [new, Std.ExtTreeMap.getElem?_empty]
    exact .nil
  | snoc _ _ ih => exact log_call ih _ _

end MemoryQueue

/-! ### The durable queue -/

namespace DurableQueue

/-- What is known of a key: its row is that of the only job created for it, and so is every row
    that a call has read. -/
structure Keyed (key : String) (h : List (QueueLabel Id)) (w : QueueWorld Id)
    (view : Nat → Option (QueueOp Id × Handle Id)) : Prop where
  log : ∃ stored : Option Id, w.store[idempotencyKey key]? = stored.map (.text ∘ Uuid.format) ∧
    KeyLog (Creates key) (Returns key) stored h
  seen : ∀ pid op st row, view pid = some (op, st) → st.seen (idempotencyKey key) = some row →
    ∃ id, row = .text (Uuid.format id) ∧ ∃ c ∈ h, Creates key c id
  own : ∀ pid job context st, view pid = some (.enqueue job context, st) → st.stored = true →
    job.idempotencyKey = some key → ∃ c ∈ h, Creates key c job.id

/-- The row of a key names a job that was created for it. -/
private theorem Keyed.row {key : String} {h : List (QueueLabel Id)} {w : QueueWorld Id}
    {view : Nat → Option (QueueOp Id × Handle Id)} (keyed : Keyed key h w view)
    {row : QueueRow Id} (found : w.store[idempotencyKey key]? = some row) :
    ∃ id, row = .text (Uuid.format id) ∧ ∃ c ∈ h, Creates key c id := by
  obtain ⟨stored, there, log⟩ := keyed.log
  obtain ⟨id, rfl, rfl⟩ := Option.map_eq_some_iff.mp (there.symm.trans found)
  exact ⟨id, rfl, log.found id rfl⟩

omit [Uuid Id] in
private theorem grow {key : String} {h : List (QueueLabel Id)} {id : Id} (l : QueueLabel Id)
    (old : ∃ c ∈ h, Creates key c id) : ∃ c ∈ h ++ [l], Creates key c id := by
  obtain ⟨c, member, made⟩ := old
  exact ⟨c, List.mem_append_left _ member, made⟩

/-- A step that is no `insert` for the key. -/
private theorem Keyed.quiet {key : String} {h : List (QueueLabel Id)} {w w' : QueueWorld Id}
    {view view' : Nat → Option (QueueOp Id × Handle Id)} (keyed : Keyed key h w view)
    {l : QueueLabel Id} (still : w'.store[idempotencyKey key]? = w.store[idempotencyKey key]?)
    (uncreated : ∀ id, ¬ Creates key l id)
    (known : ∀ id, Returns key l id → ∃ c ∈ h, Creates key c id)
    (seen : ∀ pid op st row, view' pid = some (op, st) →
      st.seen (idempotencyKey key) = some row →
        ∃ id, row = .text (Uuid.format id) ∧ ∃ c ∈ h, Creates key c id)
    (own : ∀ pid job context st, view' pid = some (.enqueue job context, st) → st.stored = true →
      job.idempotencyKey = some key → ∃ c ∈ h, Creates key c job.id) :
    Keyed key (h ++ [l]) w' view' := by
  obtain ⟨stored, there, log⟩ := keyed.log
  refine ⟨⟨stored, still.trans there, log.quiet uncreated known⟩, ?_, ?_⟩
  · intro pid op st row found read
    obtain ⟨id, same, old⟩ := seen pid op st row found read
    exact ⟨id, same, grow l old⟩
  · intro pid job context st found born mine
    exact grow l (own pid job context st found born mine)

/-- What an enqueue returns was created, by itself or as it has read. -/
private theorem Keyed.answers {key : String} {h : List (QueueLabel Id)} {w : QueueWorld Id}
    {view : Nat → Option (QueueOp Id × Handle Id)} (keyed : Keyed key h w view) {pid : Nat}
    {op : QueueOp Id} {st : Handle Id} (here : view pid = some (op, st)) (named : st.op = op)
    {job : Job Id} {context : List (String × String)} {id : Id} (same : op = .enqueue job context)
    (mine : job.idempotencyKey = some key) (answers : st.Answers (.ok (.id id))) :
    ∃ c ∈ h, Creates key c id := by
  subst same
  obtain ⟨job', context', same, ⟨stored, rfl⟩ | ⟨-, k, text, keyed', read, parsed⟩⟩ := answers
  · cases named.symm.trans same
    exact keyed.own pid job context st here stored mine
  · cases named.symm.trans same
    cases mine.symm.trans keyed'
    obtain ⟨other, same, made⟩ := keyed.seen pid _ st _ here read
    cases same
    rw [Uuid.parse_format, Option.some.injEq] at parsed
    exact parsed ▸ made

private theorem keyed_call {key : String} {h : List (QueueLabel Id)} {s : QueuePool Id} {pid : Nat}
    {op : QueueOp Id} {st : Handle Id} {c : QueueCall Id} (unraced : Unraced s (.call pid c none))
    (tidy : Tidy s.world (queueProtocol.view Handle.start s))
    (here : queueProtocol.view Handle.start s pid = some (op, st))
    (allowed : queueProtocol.allowed st c)
    (keyed : Keyed key h s.world (queueProtocol.view Handle.start s)) :
    Keyed key (h ++ [.call pid c none]) (c.exec s.world).2
      (Function.update (queueProtocol.view Handle.start s) pid
        (some (op, queueProtocol.track st c (c.exec s.world).1))) := by
  have named := tidy.op pid op st here
  have read : ∀ q op₁ st₁ row,
      Function.update (queueProtocol.view Handle.start s) pid
        (some (op, queueProtocol.track st c (c.exec s.world).1)) q = some (op₁, st₁) →
      st₁.seen (idempotencyKey key) = some row →
        ∃ id, row = .text (Uuid.format id) ∧ ∃ c ∈ h, Creates key c id := by
    intro q op₁ st₁ row found seen
    rcases update_eq_some.mp found with ⟨-, same⟩ | ⟨-, found⟩
    · cases same
      rcases track_seen st c s.world (idempotencyKey key) with same | ⟨-, same⟩
      · exact keyed.seen pid op st row here (same.symm.trans seen)
      · exact keyed.row (same.symm.trans seen)
    · exact keyed.seen q op₁ st₁ row found seen
  -- the one call that creates under the key is an insert of a job that carries it
  by_cases mine : ∃ sj, c = .insert sj ∧ sj.job.idempotencyKey = some key
  · obtain ⟨sj, rfl, mine⟩ := mine
    have inserts : st.Inserts sj := allowed
    have current := (unraced pid sj key rfl mine).seen here
    obtain ⟨stored, there, log⟩ := keyed.log
    have absent : stored = none := by
      -- a row under the key is the text of an id, which the look-up would have returned
      cases stored with
      | none => rfl
      | some id =>
        have unknown := inserts.unknown key (Uuid.format id) mine (current.trans there)
        rw [Uuid.parse_format] at unknown
        cases unknown
    subst absent
    have made : Creates key (.call pid (.insert sj) none) sj.job.id := ⟨pid, sj, rfl, mine, rfl⟩
    refine ⟨⟨some sj.job.id, ?_, log.create made ?_⟩, ?_, ?_⟩
    · simp [QueueCall.exec, QueueWorld.insert, mine]
    · rintro other ⟨_, _, _, same, -⟩
      cases same
    · intro q op₁ st₁ row found seen
      obtain ⟨id, same, old⟩ := read q op₁ st₁ row found seen
      exact ⟨id, same, grow _ old⟩
    · intro q job context st₁ found born keyed'
      rcases update_eq_some.mp found with ⟨-, same⟩ | ⟨-, found⟩
      · cases same
        obtain ⟨job', context', same, -, rfl⟩ := inserts.job
        cases named.symm.trans same
        exact ⟨_, by simp, made⟩
      · exact grow _ (keyed.own q job context st₁ found born keyed')
  · have seen := fun key sj read => (tidy.seen pid op st here key sj read).1
    refine keyed.quiet ?_ ?_ ?_ read ?_
    · -- no other write reaches the row of the key
      rcases exec_store allowed seen s.world (idempotencyKey key) with
        same | ⟨_, _, _, _, -, keys, -⟩ | ⟨sj, rfl, -, ⟨keys, -⟩ | ⟨k, keyed', keys, -⟩⟩ |
        ⟨_, _, _, _, _, -, keys, -⟩
      · exact same
      · exact absurd keys.symm (jobKey_ne_idempotencyKey _ _)
      · exact absurd keys.symm (jobKey_ne_idempotencyKey _ _)
      · cases idempotencyKey_injective keys
        exact absurd ⟨sj, rfl, keyed'⟩ mine
      · exact absurd keys.symm (jobKey_ne_idempotencyKey _ _)
    · rintro id ⟨_, sj, same, keyed', -⟩
      cases same
      exact mine ⟨sj, rfl, keyed'⟩
    · rintro id ⟨_, job, context, same, keyed'⟩
      cases same
      exact keyed.answers here named (named.symm.trans allowed.1.symm) keyed' allowed.2
    · intro q job context st₁ found born keyed'
      rcases update_eq_some.mp found with ⟨-, same⟩ | ⟨-, found⟩
      · cases same
        rcases stored_of_track born with before | ⟨sj, rfl⟩
        · exact keyed.own pid job context st here before keyed'
        · have inserts : st.Inserts sj := allowed
          obtain ⟨job', context', same, -, rfl⟩ := inserts.job
          cases named.symm.trans same
          exact absurd ⟨_, rfl, keyed'⟩ mine
      · exact keyed.own q job context st₁ found born keyed'

private theorem keyed_preserved (key : String) :
    queueSystem.Preserves queueProtocol Handle.start
      (fun (s : QueuePool Id) l => Unraced s l ∧
        Tidy s.world (queueProtocol.view Handle.start s)) (Keyed key) where
  answers _ _ := trivial
  faults _ _ _ := trivial
  spawn := by
    intro h s pid op _ _ keyed
    -- no key is bound by the start of a request
    refine keyed.quiet rfl ?_ ?_ ?_ ?_
    · rintro id ⟨_, _, same, -⟩
      cases same
    · rintro id ⟨_, _, _, same, -⟩
      cases same
    · intro q op₁ st row found read
      rcases update_eq_some.mp found with ⟨-, ⟨⟩⟩ | ⟨-, found⟩
      · cases read
      · exact keyed.seen q op₁ st row found read
    · intro q job context st found born mine
      rcases update_eq_some.mp found with ⟨-, ⟨⟩⟩ | ⟨-, found⟩
      · cases born
      · exact keyed.own q job context st found born mine
  env := by
    rintro h s w - ⟨clock, -, rfl⟩ keyed
    refine keyed.quiet rfl ?_ ?_ keyed.seen keyed.own
    · rintro id ⟨_, _, same, -⟩
      cases same
    · rintro id ⟨_, _, _, same, -⟩
      cases same
  call := fun _ _ _ _ _ _ met here allowed _ keyed => keyed_call met.1 met.2 here allowed keyed
  fault := by
    intro h s pid op st c e _ here _ _ keyed
    rw [track_error, Function.update_eq_self_iff.mpr here.symm]
    refine keyed.quiet rfl ?_ ?_ keyed.seen keyed.own
    · rintro id ⟨_, _, same, -⟩
      cases same
    · rintro id ⟨_, _, _, same, -⟩
      cases same
  drop := by
    intro h s pid op past _ _ _ keyed
    refine keyed.quiet rfl ?_ ?_
      (fun q op₁ st row found => keyed.seen q op₁ st row (of_update_none found))
      fun q job context st found => keyed.own q job context st (of_update_none found)
    · rintro id ⟨_, _, same, -⟩
      cases same
    · rintro id ⟨_, _, _, same, -⟩
      cases same

private theorem durable_once : EnqueuesOnce (@Unraced Id _) := by
  intro h s key run
  obtain ⟨stored, -, log⟩ := (System.invariant_of_trace (fun _ _ op _ => prog_conf op)
    (keyed_preserved key) (System.Trace.assume (fun _ _ run => (tidy_of_trace run).2) run)
    (System.obeyed_of_no_procs _)
    ⟨⟨none, by simp [emptyQueue], .nil⟩, fun _ _ _ _ bad => (nomatch bad),
      fun _ _ _ _ bad => (nomatch bad)⟩).2.log
  exact ⟨log.once, log.returned⟩

end DurableQueue

/-- **Idempotent enqueue**: in memory always, and on the durable queue as long as no other
    enqueue stores the key between the look-up and the transaction of one. -/
theorem enqueue_idempotent :
    MemoryQueue.EnqueuesOnce (fun _ : MemoryQueue.Event Id => True) ∧
      DurableQueue.EnqueuesOnce (@DurableQueue.Unraced Id _) :=
  ⟨MemoryQueue.memory_once, DurableQueue.durable_once⟩

/-! ### Two jobs for one key -/

/-- A job for the key `"k"`. -/
def keyedJob (id : String) : Job String := ⟨id, "mail", [], 0, 0, 3, 0, 0, some "k", ∅⟩

/-- How to follow any schedule. -/
def anyQueueScheduler : queueSystem.Scheduler fun (_ : QueuePool String) _ => True :=
  queueScheduler (fun _ _ => true) fun _ _ _ => trivial

/-- Both producers look the key up before either stores its job. -/
def racingEnqueues : List (System.Move (QueueError String) (QueueOp String)) :=
  [.spawn 1 (.enqueue (keyedJob "a") []), .spawn 2 (.enqueue (keyedJob "b") []), .call 1, .call 2,
    .call 1, .call 2]

theorem racingEnqueues_played :
    (anyQueueScheduler.play racingEnqueues [] emptyQueue).isSome = true := by decide +kernel

/-- Two jobs are created for one key. -/
theorem enqueued_twice :
    ¬ (MemoryQueue.EnqueuesOnce (fun _ : MemoryQueue.Event String => True) ∧
      DurableQueue.EnqueuesOnce fun (_ : QueuePool String) _ => True) := by
  rintro ⟨-, claim⟩
  have run := anyQueueScheduler.trace_of_play racingEnqueues emptyQueue racingEnqueues_played
  have steps : ((anyQueueScheduler.play racingEnqueues [] emptyQueue).get
      racingEnqueues_played).1 =
      [.spawn 1 (.enqueue (keyedJob "a") []), .spawn 2 (.enqueue (keyedJob "b") []),
        .call 1 (.get "idemp:k") none, .call 2 (.get "idemp:k") none,
        .call 1 (.insert ⟨keyedJob "a", .queued⟩) none,
        .call 2 (.insert ⟨keyedJob "b", .queued⟩) none] := by decide +kernel
  have once := (claim _ _ "k" run).1
  rw [steps] at once
  simp only [List.pairwise_cons] at once
  exact once.2.2.2.2.1 _ List.mem_cons_self
    ⟨⟨"a", 1, ⟨keyedJob "a", .queued⟩, rfl, rfl, rfl⟩,
      ⟨"b", 2, ⟨keyedJob "b", .queued⟩, rfl, rfl, rfl⟩⟩

/-! ### One job for one key -/

/-- How to see that a key is stored over the row that was read. -/
def unracedCheck (s : QueuePool Id) : QueueLabel Id → Bool
  | .call pid (.insert sj) none => match sj.job.idempotencyKey with
    | some key => (s.procs pid).all fun p =>
      decide ((handle p).seen (idempotencyKey key) = s.world.store[idempotencyKey key]?)
    | none => true
  | _ => true

theorem unracedCheck_sound (s : QueuePool Id) (l : QueueLabel Id) (ok : unracedCheck s l = true) :
    DurableQueue.Unraced s l := by
  rintro pid sj key rfl keyed p there
  simpa [unracedCheck, keyed, there] using ok

def unracedScheduler : queueSystem.Scheduler (@DurableQueue.Unraced String _) :=
  queueScheduler unracedCheck unracedCheck_sound

/-- The second producer starts when the first has returned. -/
def repeatedEnqueue : List (System.Move (QueueError String) (QueueOp String)) :=
  .spawn 1 (.enqueue (keyedJob "a") []) :: List.replicate 4 (.call 1) ++
    .spawn 2 (.enqueue (keyedJob "b") []) :: List.replicate 2 (.call 2)

theorem repeatedEnqueue_played :
    (unracedScheduler.play repeatedEnqueue [] emptyQueue).isSome = true := by decide +kernel

/-- The second producer gets a job that was created for its key. -/
theorem enqueue_idempotent_repeated :
    (∃ c ∈ (MemoryQueue.play [(.enqueue (keyedJob "a") [], ⟨0, 0⟩),
        (.enqueue (keyedJob "b") [], ⟨1, 1⟩)] .new).1, c.Creates "k" "a") ∧
      ∃ c ∈ ((unracedScheduler.play repeatedEnqueue [] emptyQueue).get repeatedEnqueue_played).1,
        DurableQueue.Creates "k" c "a" := by
  obtain ⟨memory, durable⟩ := @enqueue_idempotent String _
  constructor
  · refine (memory _ _ "k" (@MemoryQueue.run_play String _ (fun _ => True) (fun _ => true)
      (fun _ _ => trivial) _ _ rfl)).2 _ (List.mem_cons_of_mem _ List.mem_cons_self) "a"
      ⟨keyedJob "b", [], rfl, rfl, ?_⟩
    decide +kernel
  · have run := unracedScheduler.trace_of_play repeatedEnqueue emptyQueue repeatedEnqueue_played
    refine (durable _ _ "k" run).2
      (.call 2 (.answered (.enqueue (keyedJob "b") []) (.ok (.id "a"))) none) ?_ "a"
      ⟨2, keyedJob "b", [], rfl, rfl⟩
    decide +kernel

end Queue

end RustApi
