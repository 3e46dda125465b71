import RustApi.Lib.Pool
import RustApi.Lib.Text
import RustApi.Queue.Jobs

/-!
# The durable queue

`DurableQueue` keeps a row for each job, and one for each idempotency key, in the
store. A call reads and writes the store in several steps, between which other calls
take theirs; only a transaction is one step. A call may fail at each of its accesses,
and a worker may die at any of them.

## Main results

- `DurableQueue.prog_conf`: what every call reads before it writes, whatever happens
  between its accesses.
-/

namespace RustApi

open Lib

namespace Queue

variable {Id : Type} [Uuid Id]

/-! ### Rows -/

/-- What stands under a key: a `StoredJob`, or the text of an id. -/
inductive QueueRow (Id : Type) where
  | job (stored : StoredJob Id)
  | text (text : String)
  deriving DecidableEq

def jobKey (id : Id) : String := "job:" ++ Uuid.format id

def idempotencyKey (key : String) : String := "idemp:" ++ key

/-- Why the row of a job is written. -/
inductive Cause where
  | lease
  | ack
  | nack
  | extend
  deriving DecidableEq, Repr

/-- The accesses of a call. `requeue` is the transaction of `sweep_expired` and `insert` that of
    `enqueue`; `answered` is what the call returns. -/
inductive QueueCall (Id : Type) where
  | now
  | scan
  | get (key : String)
  | requeue (id : Id)
  | insert (stored : StoredJob Id)
  | save (cause : Cause) (id : Id) (stored : StoredJob Id)
  | answered (op : QueueOp Id) (answer : Except (QueueError Id) (QueueAnswer Id))
  deriving DecidableEq

/-- A scan answers the whole store, to be read in the order of its keys. -/
@[reducible] def QueueCall.Ans {Id : Type} : QueueCall Id → Type
  | .now => Int
  | .scan => Kv (QueueRow Id)
  | .get _ => Option (QueueRow Id)
  | _ => Unit

structure QueueWorld (Id : Type) where
  store : Kv (QueueRow Id)
  clock : Int

def QueueWorld.put (w : QueueWorld Id) (key : String) (row : QueueRow Id) : QueueWorld Id :=
  { w with store := w.store.insert key row }

/-- The transaction of `sweep_expired`: the row is read again, and its status again, but not
    the time. -/
def QueueWorld.requeue (id : Id) (w : QueueWorld Id) : QueueWorld Id :=
  match w.store[jobKey id]? with
  | some (.job sj) =>
    match sj.status with
    | .leased .. => w.put (jobKey id) (.job { sj with status := .queued })
    | _ => w
  | _ => w

/-- The transaction of `enqueue`. -/
def QueueWorld.insert (sj : StoredJob Id) (w : QueueWorld Id) : QueueWorld Id :=
  let w := w.put (jobKey sj.job.id) (.job sj)
  match sj.job.idempotencyKey with
  | some key => w.put (idempotencyKey key) (.text (Uuid.format sj.job.id))
  | none => w

def QueueCall.exec : (c : QueueCall Id) → QueueWorld Id →
    Except (QueueError Id) c.Ans × QueueWorld Id
  | .now, w => (.ok w.clock, w)
  | .scan, w => (.ok w.store, w)
  | .get key, w => (.ok w.store[key]?, w)
  | .requeue id, w => (.ok (), w.requeue id)
  | .insert sj, w => (.ok (), w.insert sj)
  | .save _ id sj, w => (.ok (), w.put (jobKey id) (.job sj))
  | .answered .., w => (.ok (), w)

abbrev QueueM (Id α : Type) : Type := Prog (@QueueCall.Ans Id) (QueueError Id) α

def onQueue (c : QueueCall Id) : QueueM Id c.Ans := Prog.perform c

namespace DurableQueue

/-! ### Calls of the queue -/

/-- The id under which a scanned row is swept, if its lease has run out. -/
def expiredId (now : Int) (e : String × QueueRow Id) : Option Id :=
  match Text.stripStart "job:" e.1, e.2 with
  | some id, .job sj =>
    match sj.status with
    | .leased _ expiresAt => if expiresAt ≤ now then Uuid.parse id else none
    | _ => none
  | _, _ => none

def requeueAll : List Id → QueueM Id Unit
  | [] => pure ()
  | id :: ids => do
    let _ ← onQueue (.requeue id)
    requeueAll ids

def sweepExpired : QueueM Id Unit := do
  let kvs ← onQueue .scan
  let now ← onQueue .now
  requeueAll (kvs.toList.filterMap (expiredId now))

def load (id : Id) : QueueM Id (StoredJob Id) := do
  match ← onQueue (.get (jobKey id)) with
  | none => Prog.fail (.notFound id)
  | some (.job sj) => pure sj
  | some (.text _) => Prog.fail (.store "expected a stored job")

/-- The look-up of `enqueue`. Text that is not an id counts as no key. -/
def known : Option String → QueueM Id (Option Id)
  | none => pure none
  | some key => do
    match ← onQueue (.get (idempotencyKey key)) with
    | some (.text id) => pure (Uuid.parse id)
    | _ => pure none

def enqueue (job : Job Id) (context : List (String × String)) : QueueM Id Id :=
  if job.maxAttempts = 0 then Prog.fail (.invalid "max_attempts must be positive")
  else do
    let job := job.traced context
    match ← known job.idempotencyKey with
    | some id => pure id
    | none => do
      let _ ← onQueue (.insert ⟨job, .queued⟩)
      -- the depth for telemetry
      let _ ← (onQueue .scan).attempt
      pure job.id

/-- The job of a scanned row, if `reserve` may lease it. -/
def candidate (now : Int) (e : String × QueueRow Id) : Option (StoredJob Id) :=
  match e.2 with
  | .job sj =>
    if Text.startsWith "job:" e.1 ∧ sj.status = .queued ∧ sj.job.scheduledAt ≤ now then some sj
    else none
  | .text _ => none

/-- The loop of `reserve`. -/
def leaseAll (worker : String) (expiresAt : Int) :
    List (StoredJob Id) → QueueM Id (List (LeasedJob Id))
  | [] => pure []
  | sj :: sjs => do
    let _ ← onQueue (.save .lease sj.job.id { sj with status := .leased worker expiresAt })
    let out ← leaseAll worker expiresAt sjs
    pure (⟨sj.job, expiresAt⟩ :: out)

def reserve (worker : String) (limit lease : Nat) : QueueM Id (List (LeasedJob Id)) := do
  sweepExpired
  let kvs ← onQueue .scan
  let now ← onQueue .now
  let candidates := (kvs.toList.filterMap (candidate now)).insertionSort
    fun a b => Before a.job b.job
  leaseAll worker (addI64 now (asI64 lease)) (candidates.take limit)

def ack (id : Id) (result : Option (List UInt8)) : QueueM Id Unit := do
  let sj ← load id
  let finished ← onQueue .now
  onQueue (.save .ack id { sj with status := .succeeded result finished })

def nack (id : Id) (error : String) (retry : RetryPolicy) : QueueM Id Unit := do
  let sj ← load id
  let finished ← onQueue .now
  onQueue (.save .nack id (sj.nacked error retry finished))

def extendLease (id : Id) (lease : Nat) : QueueM Id Unit := do
  sweepExpired
  let sj ← load id
  let now ← onQueue .now
  match sj.status with
  | .leased worker expiresAt =>
    if expiresAt ≤ now then Prog.fail .leaseExpired
    else onQueue (.save .extend id { sj with status := .leased worker (addI64 now (asI64 lease)) })
  | _ => Prog.fail .alreadyLeased

def status (id : Id) : QueueM Id JobStatus := do
  sweepExpired
  let sj ← load id
  pure sj.status

/-- One call of `JobQueue`. -/
def call : QueueOp Id → QueueM Id (QueueAnswer Id)
  | .enqueue job context => do
    let id ← enqueue job context
    pure (.id id)
  | .reserve worker limit lease => do
    let jobs ← reserve worker limit lease
    pure (.leased jobs)
  | .ack id result => do
    ack id result
    pure .done
  | .nack id error retry => do
    nack id error retry
    pure .done
  | .extendLease id lease => do
    extendLease id lease
    pure .done
  | .status id => do
    let status ← status id
    pure (.status status)

def prog (op : QueueOp Id) : QueueM Id Unit := do
  let answer ← (call op).attempt
  onQueue (.answered op answer)

end DurableQueue

/-- An access of the store can fail. -/
def QueueCall.mayFail : QueueCall Id → QueueError Id → Prop
  | .now, _ => False
  | .answered .., _ => False
  | _, e => ∃ text, e = .store text

/-- Any number of calls. The clock moves forward, and a caller may die anywhere. -/
def queueSystem : System (@QueueCall.Ans Id) (QueueError Id) (QueueWorld Id) (QueueOp Id)
    where
  exec := QueueCall.exec
  enabled := fun _ _ => True
  mayFail := QueueCall.mayFail
  mayDrop := fun _ => True
  drop := fun _ _ w => w
  env := fun w w' => ∃ clock, w.clock ≤ clock ∧ w' = { w with clock := clock }
  prog := DurableQueue.prog

abbrev QueuePool (Id : Type) : Type :=
  Pool (@QueueCall.Ans Id) (QueueError Id) (QueueWorld Id) (QueueOp Id)

abbrev QueueLabel (Id : Type) : Type := Label (QueueCall Id) (QueueError Id) (QueueOp Id)

/-- An empty queue. -/
def emptyQueue : QueuePool Id := ⟨⟨∅, 0⟩, fun _ => none⟩

/-! ### What a call has read -/

/-- The rows as a call read them last, and whether an `enqueue` has stored its job. -/
structure Handle (Id : Type) where
  op : QueueOp Id
  seen : String → Option (QueueRow Id)
  stored : Bool
  leased : List (LeasedJob Id)

/-- A deed for which a row is written. -/
def Cause.Of : Cause → Deed → Prop
  | .lease, .lease .. => True
  | .ack, .ack .. => True
  | .nack, .nack .. => True
  | .extend, .extend .. => True
  | _, _ => False

/-- The row that is written is the row that was read, after one deed. -/
structure Handle.Saves (st : Handle Id) (cause : Cause) (id : Id) (sj' : StoredJob Id) : Prop where
  read : ∃ sj d key, st.seen key = some (.job sj) ∧ cause.Of d ∧ Suffers sj d sj' ∧
    (cause = .lease → id = sj.job.id) ∧ (cause ≠ .lease → key = jobKey id)
  settles : cause = .ack ∨ cause = .nack → st.op.Settles id

/-- The job that an `enqueue` stores. Its key was absent, or held no id. -/
structure Handle.Inserts (st : Handle Id) (sj : StoredJob Id) : Prop where
  once : st.stored = false
  job : ∃ job context, st.op = .enqueue job context ∧ job.maxAttempts ≠ 0 ∧
    sj = ⟨job.traced context, .queued⟩
  unknown : ∀ key text, sj.job.idempotencyKey = some key →
    st.seen (idempotencyKey key) = some (.text text) → (Uuid.parse text : Option Id) = none

/-- An `enqueue` returns the id of the job it stored or the one it read, and a `reserve` the
    jobs it leased. -/
def Handle.Answers (st : Handle Id) : Except (QueueError Id) (QueueAnswer Id) → Prop
  | .ok (.id id) => ∃ job context, st.op = .enqueue job context ∧
      ((st.stored = true ∧ id = job.id) ∨ (st.stored = false ∧ ∃ key text,
        job.idempotencyKey = some key ∧ st.seen (idempotencyKey key) = some (.text text) ∧
          Uuid.parse text = some id))
  | .ok (.leased jobs) => jobs = st.leased
  | _ => True

@[reducible] def queueProtocol : Prog.Protocol (@QueueCall.Ans Id) (QueueError Id) where
  State := Handle Id
  allowed st c :=
    match c with
    | .scan => ∀ id, ¬ st.op.Settles id
    | .insert sj => st.Inserts sj
    | .save cause id sj => st.Saves cause id sj
    | .answered op answer => op = st.op ∧ st.Answers answer
    | _ => True
  possible _ _ := True
  track st c r :=
    match c, r with
    | .scan, .ok kvs => { st with seen := fun key => kvs[key]? }
    | .get key, .ok row => { st with seen := Function.update st.seen key row }
    | .insert _, .ok _ => { st with stored := true }
    | .save .lease _ ⟨job, .leased _ expiresAt⟩, .ok _ =>
      { st with leased := st.leased ++ [⟨job, expiresAt⟩] }
    | _, _ => st

def Handle.start (op : QueueOp Id) : Handle Id := ⟨op, fun _ => none, false, []⟩

/-- What a call has read. -/
def handle (p : Proc (@QueueCall.Ans Id) (QueueError Id) (QueueOp Id)) : Handle Id :=
  queueProtocol.observe (.start p.op) p.past

/-- The row is still as the call has read it. -/
def Current (s : QueuePool Id) (pid : Nat) (key : String) : Prop :=
  ∀ p, s.procs pid = some p → (handle p).seen key = s.world.store[key]?

/-! ### Conformance -/

namespace DurableQueue

/-- A part of a call that only reads. -/
private def Reads (st st' : Handle Id) : Prop :=
  st'.op = st.op ∧ st'.stored = st.stored ∧ st'.leased = st.leased

private theorem requeueAll_conf (ids : List Id) (st : Handle Id) :
    (requeueAll ids).Conf queueProtocol (fun st' _ => st' = st) st := by
  induction ids with
  | nil => rfl
  | cons id ids ih =>
    refine Prog.conf_seq trivial (fun _ => rfl) fun _ => ?_
    exact ih

private theorem sweepExpired_conf (st : Handle Id) (unsettling : ∀ id, ¬ st.op.Settles id) :
    (sweepExpired : QueueM Id Unit).Conf queueProtocol (fun st' _ => Reads st st') st := by
  refine Prog.conf_seq unsettling (fun _ => ⟨rfl, rfl, rfl⟩) fun kvs => ?_
  refine Prog.conf_seq trivial (fun _ => ⟨rfl, rfl, rfl⟩) fun now => ?_
  exact (requeueAll_conf _ _).mono fun st' _ same => same ▸ ⟨rfl, rfl, rfl⟩

/-- A job that was loaded is the row as it was read. -/
private theorem load_conf (id : Id) (st : Handle Id) :
    (load id).Conf queueProtocol (fun st' r => Reads st st' ∧
      ∀ sj, r = .ok sj → st'.seen (jobKey id) = some (.job sj)) st := by
  refine Prog.conf_seq trivial (fun _ => ⟨⟨rfl, rfl, rfl⟩, fun _ bad => (nomatch bad)⟩)
    fun row => ?_
  match row with
  | none => exact ⟨⟨rfl, rfl, rfl⟩, fun _ bad => (nomatch bad)⟩
  | some (.job sj) =>
    refine ⟨⟨rfl, rfl, rfl⟩, ?_⟩
    rintro _ ⟨⟩
    exact Function.update_self ..
  | some (.text text) => exact ⟨⟨rfl, rfl, rfl⟩, fun _ bad => (nomatch bad)⟩

private theorem known_conf (key : Option String) (st : Handle Id) :
    (known key : QueueM Id (Option Id)).Conf queueProtocol (fun st' r => Reads st st' ∧
      (∀ id, r = .ok (some id) → ∃ k text, key = some k ∧
        st'.seen (idempotencyKey k) = some (.text text) ∧ Uuid.parse text = some id) ∧
      (r = .ok none → ∀ k text, key = some k →
        st'.seen (idempotencyKey k) = some (.text text) → (Uuid.parse text : Option Id) = none))
      st := by
  match key with
  | none =>
    exact ⟨⟨rfl, rfl, rfl⟩, fun _ bad => (nomatch bad), fun _ _ _ bad => (nomatch bad)⟩
  | some key =>
    refine Prog.conf_seq trivial
      (fun _ => ⟨⟨rfl, rfl, rfl⟩, fun _ bad => (nomatch bad), fun bad => (nomatch bad)⟩)
      fun row => ?_
    have here : (Function.update st.seen (idempotencyKey key) row) (idempotencyKey key) = row :=
      Function.update_self ..
    -- only a text row that parses is an answer; anything else leaves the job unknown
    match row with
    | none =>
      refine ⟨⟨rfl, rfl, rfl⟩, fun _ bad => (nomatch bad), ?_⟩
      rintro - _ text ⟨⟩ found
      cases here.symm.trans found
    | some (.job sj) =>
      refine ⟨⟨rfl, rfl, rfl⟩, fun _ bad => (nomatch bad), ?_⟩
      rintro - _ text ⟨⟩ found
      cases here.symm.trans found
    | some (.text text) =>
      refine ⟨⟨rfl, rfl, rfl⟩, ?_, ?_⟩
      · intro id read
        exact ⟨key, text, rfl, here, Except.ok.inj read⟩
      · rintro read _ _ ⟨⟩ found
        cases here.symm.trans found
        exact Except.ok.inj read

private theorem enqueue_conf (job : Job Id) (context : List (String × String)) :
    (enqueue job context).Conf queueProtocol (fun st r => st.op = .enqueue job context ∧
      ∀ id, r = .ok id → st.Answers (.ok (.id id))) (.start (.enqueue job context)) := by
  unfold enqueue
  split
  · exact ⟨rfl, fun _ bad => (nomatch bad)⟩
  next attempts =>
    refine Prog.conf_bind.mpr ((known_conf _ _).mono ?_)
    rintro st r ⟨⟨op, stored, -⟩, found, unknown⟩
    match r with
    | .error e => exact ⟨op, fun _ bad => (nomatch bad)⟩
    | .ok (some id) =>
      refine ⟨op, ?_⟩
      rintro _ ⟨⟩
      exact ⟨job, context, op, .inr ⟨stored, found id rfl⟩⟩
    | .ok none =>
      refine Prog.conf_seq ⟨stored, ⟨job, context, op, attempts, rfl⟩, unknown rfl⟩
        (fun _ => ⟨op, fun _ bad => (nomatch bad)⟩) fun _ => ?_
      refine Prog.conf_bind.mpr ⟨fun id settles => ?_, fun r _ => ?_⟩
      · change st.op.Settles id at settles
        rw [op] at settles
        exact settles
      · -- the scan that follows is for telemetry: the job is stored whether it fails or not
        have done : ∀ st' : Handle Id, st'.op = st.op → st'.stored = true →
            st'.op = .enqueue job context ∧
              ∀ id, (Except.ok job.id : Except (QueueError Id) Id) = .ok id →
                st'.Answers (.ok (.id id)) := by
          rintro st' same stored'
          refine ⟨same.trans op, ?_⟩
          rintro _ ⟨⟩
          exact ⟨job, context, same.trans op, .inl ⟨stored', rfl⟩⟩
        cases r with
        | error e => exact done _ rfl rfl
        | ok kvs => exact done _ rfl rfl

/-- The loop of `reserve` leases rows that were scanned as queued. -/
private theorem leaseAll_conf (worker : String) (expiresAt : Int) (sjs : List (StoredJob Id))
    (st : Handle Id)
    (scanned : ∀ sj ∈ sjs, sj.status = .queued ∧ ∃ key, st.seen key = some (.job sj)) :
    (leaseAll worker expiresAt sjs).Conf queueProtocol (fun st' r => st'.op = st.op ∧
      ∀ out, r = .ok out → st'.leased = st.leased ++ out) st := by
  induction sjs generalizing st with
  | nil =>
    refine ⟨rfl, ?_⟩
    rintro _ ⟨⟩
    exact (List.append_nil _).symm
  | cons sj sjs ih =>
    obtain ⟨queued, key, seen⟩ := scanned sj List.mem_cons_self
    refine Prog.conf_bind.mpr ⟨⟨⟨sj, .lease worker expiresAt, key, seen, trivial, .lease queued,
      fun _ => rfl, fun bad => absurd rfl bad⟩, fun bad => ?_⟩, ?_⟩
    · rcases bad with bad | bad
      · cases bad
      · cases bad
    rintro (e | _) -
    · exact ⟨rfl, fun _ bad => (nomatch bad)⟩
    -- the lease that was just saved is the first of those handed out
    refine Prog.conf_bind.mpr ((ih { st with leased := st.leased ++ [⟨sj.job, expiresAt⟩] }
      fun sj' member => scanned sj' (List.mem_cons_of_mem _ member)).mono ?_)
    rintro st' (e | out) ⟨op, leased⟩
    · exact ⟨op, fun _ bad => (nomatch bad)⟩
    · refine ⟨op, ?_⟩
      rintro _ ⟨⟩
      rw [leased out rfl]
      exact List.append_assoc ..

private theorem reserve_conf (worker : String) (limit lease : Nat) :
    (reserve worker limit lease : QueueM Id _).Conf queueProtocol
      (fun st r => st.op = .reserve worker limit lease ∧
        ∀ jobs, r = .ok jobs → st.Answers (.ok (.leased jobs)))
      (.start (.reserve worker limit lease)) := by
  refine Prog.conf_bind.mpr ((sweepExpired_conf (.start (.reserve worker limit lease))
    fun _ bad => bad).mono ?_)
  rintro st (e | _) ⟨op, -, leased⟩
  · exact ⟨op, fun _ bad => (nomatch bad)⟩
  refine Prog.conf_bind.mpr ⟨?_, ?_⟩
  · intro id settles
    change st.op.Settles id at settles
    rw [op] at settles
    exact settles
  rintro (e | kvs) -
  · exact ⟨op, fun _ bad => (nomatch bad)⟩
  refine Prog.conf_seq trivial (fun _ => ⟨op, fun _ bad => (nomatch bad)⟩) fun now => ?_
  refine (leaseAll_conf _ _ _ _ ?_).mono ?_
  · intro sj member
    have listed := List.mem_of_mem_take member
    rw [List.mem_insertionSort, List.mem_filterMap] at listed
    obtain ⟨⟨key, row⟩, there, chosen⟩ := listed
    rw [Kv.mem_toList] at there
    match row with
    | .text _ => cases chosen
    | .job sj' =>
      -- the scan filtered by status, so each chosen row was seen as queued
      obtain ⟨⟨-, queued, -⟩, same⟩ := Option.ite_none_right_eq_some.mp chosen
      cases same
      exact ⟨queued, key, there⟩
  · rintro st' r ⟨op', out⟩
    refine ⟨op'.trans op, ?_⟩
    rintro jobs same
    have grown := out jobs same
    change st'.leased = st.leased ++ jobs at grown
    rw [leased] at grown
    exact grown.symm

/-- A call that settles a job: it loads the row, reads the clock and writes. -/
private theorem settle_conf (op : QueueOp Id) (cause : Cause) {id : Id} (settles : op.Settles id)
    (named : cause ≠ .lease) (write : StoredJob Id → Int → StoredJob Id)
    (does : ∀ sj now, ∃ d, cause.Of d ∧ Suffers sj d (write sj now)) :
    (do let sj ← load id
        let now ← onQueue .now
        onQueue (.save cause id (write sj now)) : QueueM Id Unit).Conf queueProtocol
      (fun st _ => st.op = op) (.start op) := by
  refine Prog.conf_bind.mpr ((load_conf id _).mono ?_)
  rintro st (e | sj) ⟨⟨same, -, -⟩, read⟩
  · exact same
  refine Prog.conf_seq trivial (fun _ => same) fun now => ?_
  obtain ⟨d, of, suffers⟩ := does sj now
  refine ⟨⟨⟨sj, d, _, read sj rfl, of, suffers, fun bad => absurd bad named, fun _ => rfl⟩,
    fun _ => ?_⟩, fun r _ => ?_⟩
  · change (st.op).Settles id
    rw [same]
    exact settles
  · cases cause with
    | lease => exact absurd rfl named
    | _ => cases r <;> exact same

private theorem extendLease_conf (id : Id) (lease : Nat) :
    (extendLease id lease).Conf queueProtocol (fun st _ => st.op = .extendLease id lease)
      (.start (.extendLease id lease)) := by
  refine Prog.conf_bind.mpr ((sweepExpired_conf (.start (.extendLease id lease))
    fun _ bad => bad).mono ?_)
  rintro st (e | _) ⟨op, -, -⟩
  · exact op
  refine Prog.conf_bind.mpr ((load_conf id st).mono ?_)
  rintro st' (e | sj) ⟨⟨op', -, -⟩, read⟩
  · exact op'.trans op
  refine Prog.conf_seq trivial (fun _ => op'.trans op) fun now => ?_
  obtain ⟨job, status⟩ := sj
  cases status with
  | leased worker expiresAt =>
    change (if expiresAt ≤ now then _ else _ : QueueM Id Unit).Conf queueProtocol _ _
    split
    · exact op'.trans op
    · refine ⟨⟨⟨_, .extend worker (addI64 now (asI64 lease)), _, read _ rfl, trivial, .extend rfl,
        fun bad => (nomatch bad), fun _ => rfl⟩, fun bad => ?_⟩, fun r _ => ?_⟩
      · rcases bad with bad | bad
        · cases bad
        · cases bad
      · cases r <;> exact op'.trans op
  | _ => exact op'.trans op

private theorem status_conf (id : Id) :
    (status id).Conf queueProtocol (fun st _ => st.op = .status id) (.start (.status id)) := by
  refine Prog.conf_bind.mpr ((sweepExpired_conf (.start (.status id))
    fun _ bad => bad).mono ?_)
  rintro st (e | _) ⟨op, -, -⟩
  · exact op
  refine Prog.conf_bind.mpr ((load_conf id st).mono ?_)
  rintro st' (e | sj) ⟨⟨op', -, -⟩, -⟩
  · exact op'.trans op
  · exact op'.trans op

private theorem call_conf (op : QueueOp Id) :
    (call op).Conf queueProtocol (fun st r => st.op = op ∧ st.Answers r) (.start op) := by
  cases op with
  | enqueue job context =>
    refine Prog.conf_bind.mpr ((enqueue_conf job context).mono ?_)
    rintro st (e | id) ⟨op, answers⟩
    · exact ⟨op, trivial⟩
    · exact ⟨op, answers id rfl⟩
  | reserve worker limit lease =>
    refine Prog.conf_bind.mpr ((reserve_conf worker limit lease).mono ?_)
    rintro st (e | jobs) ⟨op, answers⟩
    · exact ⟨op, trivial⟩
    · exact ⟨op, answers jobs rfl⟩
  | ack id result =>
    refine Prog.conf_bind.mpr ((settle_conf (.ack id result) .ack rfl (by decide)
      (fun sj now => { sj with status := .succeeded result now })
      fun sj now => ⟨.ack result now, trivial, .ack⟩).mono ?_)
    rintro st (e | _) op
    · exact ⟨op, trivial⟩
    · exact ⟨op, trivial⟩
  | nack id error retry =>
    refine Prog.conf_bind.mpr ((settle_conf (.nack id error retry) .nack rfl (by decide)
      (fun sj now => sj.nacked error retry now)
      fun sj now => ⟨.nack error retry now, trivial, .nack⟩).mono ?_)
    rintro st (e | _) op
    · exact ⟨op, trivial⟩
    · exact ⟨op, trivial⟩
  | extendLease id lease =>
    refine Prog.conf_bind.mpr ((extendLease_conf id lease).mono ?_)
    rintro st (e | _) op
    · exact ⟨op, trivial⟩
    · exact ⟨op, trivial⟩
  | status id =>
    refine Prog.conf_bind.mpr ((status_conf id).mono ?_)
    rintro st (e | _) op
    · exact ⟨op, trivial⟩
    · exact ⟨op, trivial⟩

theorem prog_conf (op : QueueOp Id) :
    (prog op).Conf queueProtocol (fun _ _ => True) (.start op) := by
  refine Prog.conf_bind.mpr (Prog.conf_attempt.mpr ((call_conf op).mono ?_))
  rintro st r ⟨same, answers⟩
  exact ⟨⟨same.symm, answers⟩, fun _ _ => trivial⟩

end DurableQueue

/-! ### Scheduled runs -/

/-- Ids that are their own text. -/
instance : Uuid String where
  format := id
  parse := some
  parse_format _ := rfl

/-- How to follow a schedule in which no access fails. -/
def queueScheduler {cond : QueuePool Id → QueueLabel Id → Prop}
    (check : QueuePool Id → QueueLabel Id → Bool) (sound : ∀ s l, check s l = true → cond s l) :
    queueSystem.Scheduler cond where
  enabled _ _ := true
  mayFail _ _ := false
  mayDrop _ := true
  tick n w := { w with clock := w.clock + n }
  check := check
  enabled_sound _ _ _ := trivial
  mayFail_sound _ _ bad := nomatch bad
  mayDrop_sound _ _ := trivial
  tick_sound n _ := ⟨_, Int.le_add_of_nonneg_right (Int.natCast_nonneg n), rfl⟩
  check_sound := sound

end Queue

end RustApi
