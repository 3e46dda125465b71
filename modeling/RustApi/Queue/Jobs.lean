import RustApi.Lib.Kv
import Mathlib

/-!
# Jobs and their lives

The values of the job queue, which both backends share, and what can happen to one
job: it is leased, its lease runs out or is extended, and its holder acknowledges or
rejects it. A life is a list of such deeds. The backends differ in how they come to a
deed; what a deed does to the job they have in common.

## Main results

- `Lives.of_ended`: a job that has ended only changes by an ack or a nack.
- `Bounded.lives`, `Bounded.le_maxAttempts`: in a life in which no lease runs out, a job is
  leased at most `maxAttempts` times and does not wait for another lease after the last.
-/

namespace RustApi

open Lib

namespace Queue

/-- `uuid::Uuid`: ordered ids whose text form can be read back. -/
class Uuid (Id : Type) extends LinearOrder Id where
  format : Id → String
  parse : String → Option Id
  parse_format : ∀ id, parse (format id) = some id

instance Uuid.transCmp {Id : Type} [Uuid Id] : Std.TransCmp (compare : Id → Id → Ordering) :=
  inferInstance

/-! ### Values -/

/-- `Job`. -/
structure Job (Id : Type) where
  id : Id
  kind : String
  payload : List UInt8
  priority : Int32
  attempt : UInt32
  maxAttempts : UInt32
  createdAt : Int
  scheduledAt : Int
  idempotencyKey : Option String
  headers : Kv String
  deriving DecidableEq

/-- `JobStatus`. -/
inductive JobStatus where
  | queued
  | leased (worker : String) (expiresAt : Int)
  | succeeded (result : Option (List UInt8)) (finishedAt : Int)
  | failed (error : String) (finishedAt : Int)
  | dead (error : String) (finishedAt : Int)
  deriving DecidableEq, Repr

/-- `LeasedJob`. -/
structure LeasedJob (Id : Type) where
  job : Job Id
  leaseExpiresAt : Int
  deriving DecidableEq

/-- `StoredJob`: a job with its status, which is all that a backend has to remember. -/
structure StoredJob (Id : Type) where
  job : Job Id
  status : JobStatus
  deriving DecidableEq

/-- `RetryPolicy`. A duration is its whole seconds. -/
inductive RetryPolicy where
  | noRetry
  | retry (delay : Nat)
  deriving DecidableEq, Repr

/-- `QueueError`, as far as the backends here return it. -/
inductive QueueError (Id : Type) where
  | store (text : String)
  | notFound (id : Id)
  | alreadyLeased
  | leaseExpired
  | invalid (text : String)
  deriving DecidableEq, Repr

/-- The calls of `JobQueue`. `context` is the trace context of the caller of `enqueue`. -/
inductive QueueOp (Id : Type) where
  | enqueue (job : Job Id) (context : List (String × String))
  | reserve (worker : String) (limit lease : Nat)
  | ack (id : Id) (result : Option (List UInt8))
  | nack (id : Id) (error : String) (retry : RetryPolicy)
  | extendLease (id : Id) (lease : Nat)
  | status (id : Id)
  deriving DecidableEq

/-- What a call returns. -/
inductive QueueAnswer (Id : Type) where
  | id (id : Id)
  | leased (jobs : List (LeasedJob Id))
  | done
  | status (status : JobStatus)
  deriving DecidableEq

/-- How often an answer hands out a job. -/
def handed {Id : Type} [DecidableEq Id] (id : Id) : Except (QueueError Id) (QueueAnswer Id) → Nat
  | .ok (.leased jobs) => jobs.countP fun leased => leased.job.id = id
  | _ => 0

/-- The call tells how a job ended. -/
def QueueOp.Settles {Id : Type} (id : Id) : QueueOp Id → Prop
  | .ack job _ => job = id
  | .nack job _ _ => job = id
  | _ => False

/-- The call first sweeps the leases that ran out. -/
def QueueOp.Sweeps {Id : Type} : QueueOp Id → Prop
  | .reserve .. => True
  | .extendLease .. => True
  | .status _ => True
  | _ => False

/-- `as i64`, for the whole seconds of a duration. -/
def asI64 (secs : Nat) : Int := Int.bmod secs (2 ^ 64)

/-- `+` of `i64`, which wraps around. -/
def addI64 (a b : Int) : Int := Int.bmod (a + b) (2 ^ 64)

/-- `u32::saturating_add`. -/
def saturatingAdd (a b : UInt32) : UInt32 := if a + b < a then 0xFFFFFFFF else a + b

/-- `inject_trace_context`: the propagator sets its entries one by one. -/
def injectTraceContext (context : List (String × String)) (headers : Kv String) : Kv String :=
  context.foldl (fun headers e => headers.insert e.1 e.2) headers

/-- The job as `enqueue` stores it, with the trace context of the caller. -/
def Job.traced {Id : Type} (job : Job Id) (context : List (String × String)) : Job Id :=
  { job with headers := injectTraceContext context job.headers }

@[simp] theorem Job.traced_id {Id : Type} (job : Job Id) (context : List (String × String)) :
    (job.traced context).id = job.id := rfl

@[simp] theorem Job.traced_idempotencyKey {Id : Type} (job : Job Id)
    (context : List (String × String)) :
    (job.traced context).idempotencyKey = job.idempotencyKey := rfl

/-- The order of `reserve`: higher priorities first, older jobs first among equals. -/
def Before {Id : Type} (a b : Job Id) : Prop :=
  b.priority < a.priority ∨ b.priority = a.priority ∧ a.createdAt ≤ b.createdAt

instance {Id : Type} (a b : Job Id) : Decidable (Before a b) :=
  inferInstanceAs (Decidable (_ ∨ _))

/-- The job has finished: `Succeeded`, `Failed` or `Dead`. -/
def JobStatus.Ended : JobStatus → Prop
  | .queued => False
  | .leased .. => False
  | _ => True

instance : (status : JobStatus) → Decidable status.Ended
  | .queued => isFalse id
  | .leased .. => isFalse id
  | .succeeded .. => isTrue trivial
  | .failed .. => isTrue trivial
  | .dead .. => isTrue trivial

/-! ### Deeds -/

variable {Id : Type}

/-- What a `nack` makes of a job. -/
def StoredJob.nacked (sj : StoredJob Id) (error : String) (retry : RetryPolicy) (now : Int) :
    StoredJob Id :=
  match retry with
  | .noRetry => { sj with status := .failed error now }
  | .retry delay =>
    if sj.job.maxAttempts ≤ saturatingAdd sj.job.attempt 1 then
      { sj with status := .dead error now }
    else
      { job := { sj.job with
          attempt := saturatingAdd sj.job.attempt 1
          scheduledAt := addI64 now (asI64 delay) }
        status := .queued }

/-- What can happen to one job. -/
inductive Deed where
  | lease (worker : String) (expiresAt : Int)
  | expire
  | ack (result : Option (List UInt8)) (now : Int)
  | nack (error : String) (retry : RetryPolicy) (now : Int)
  | extend (worker : String) (expiresAt : Int)
  deriving DecidableEq

/-- A deed by somebody who says how the job ended. -/
def Deed.Settles : Deed → Prop
  | .ack .. => True
  | .nack .. => True
  | _ => False

/-- What a deed does to a job that can suffer it. Neither ack nor nack asks for a status. -/
inductive Suffers : StoredJob Id → Deed → StoredJob Id → Prop where
  | lease {sj worker expiresAt} (queued : sj.status = .queued) :
      Suffers sj (.lease worker expiresAt) { sj with status := .leased worker expiresAt }
  | expire {sj worker expiresAt} (leased : sj.status = .leased worker expiresAt) :
      Suffers sj .expire { sj with status := .queued }
  | ack {sj result now} : Suffers sj (.ack result now) { sj with status := .succeeded result now }
  | nack {sj error retry now} : Suffers sj (.nack error retry now) (sj.nacked error retry now)
  | extend {sj holder before worker expiresAt} (leased : sj.status = .leased holder before) :
      Suffers sj (.extend worker expiresAt) { sj with status := .leased worker expiresAt }

/-- A life of a job. -/
inductive Lives (sj : StoredJob Id) : List Deed → StoredJob Id → Prop where
  | nil : Lives sj [] sj
  | snoc {deeds sj' d sj''} (life : Lives sj deeds sj') (suffers : Suffers sj' d sj'') :
      Lives sj (deeds ++ [d]) sj''

theorem Lives.append {sj sj' sj'' : StoredJob Id} {early late : List Deed}
    (first : Lives sj early sj') (rest : Lives sj' late sj'') : Lives sj (early ++ late) sj'' := by
  induction rest with
  | nil => rwa [List.append_nil]
  | snoc _ suffers ih =>
    rw [← List.append_assoc]
    exact ih.snoc suffers

theorem Suffers.lives {sj sj' : StoredJob Id} {d : Deed} (suffers : Suffers sj d sj') :
    Lives sj [d] sj' :=
  Lives.nil.snoc suffers

@[simp] theorem StoredJob.nacked_id (sj : StoredJob Id) (error : String) (retry : RetryPolicy)
    (now : Int) : (sj.nacked error retry now).job.id = sj.job.id := by
  unfold nacked
  split
  · rfl
  · split <;> rfl

theorem Suffers.id_eq {sj sj' : StoredJob Id} {d : Deed} (suffers : Suffers sj d sj') :
    sj'.job.id = sj.job.id := by
  cases suffers with
  | nack => exact sj.nacked_id _ _ _
  | _ => rfl

theorem Lives.id_eq {sj sj' : StoredJob Id} {deeds : List Deed} (life : Lives sj deeds sj') :
    sj'.job.id = sj.job.id := by
  induction life with
  | nil => rfl
  | snoc _ suffers ih => rw [suffers.id_eq, ih]

/-- A job that has ended only takes notice of an ack or a nack. -/
theorem Suffers.settles {sj sj' : StoredJob Id} {d : Deed} (suffers : Suffers sj d sj')
    (ended : sj.status.Ended) : d.Settles := by
  cases suffers with
  | lease queued =>
    rw [queued] at ended
    exact ended.elim
  | expire leased =>
    rw [leased] at ended
    exact ended.elim
  | ack => trivial
  | nack => trivial
  | extend leased =>
    rw [leased] at ended
    exact ended.elim

/-- A job that has ended stays as it is until somebody settles it again. -/
theorem Lives.of_ended {sj sj' : StoredJob Id} {deeds : List Deed} (life : Lives sj deeds sj')
    (ended : sj.status.Ended) (unsettled : ∀ d ∈ deeds, ¬ d.Settles) : deeds = [] ∧ sj' = sj := by
  induction life with
  | nil => exact ⟨rfl, rfl⟩
  | @snoc _ _ d _ _ suffers ih =>
    obtain ⟨-, rfl⟩ := ih fun e member => unsettled e (List.mem_append_left _ member)
    exact absurd (suffers.settles ended) (unsettled d (by simp))

/-! ### Attempts -/

/-- How often a job was leased. -/
def leases (deeds : List Deed) : Nat :=
  deeds.countP fun d => match d with
    | .lease .. => true
    | _ => false

@[simp] theorem leases_nil : leases [] = 0 := rfl

@[simp] theorem leases_append (early late : List Deed) :
    leases (early ++ late) = leases early + leases late := by
  simp [leases]

/-- The leases of a job are covered by the attempts it counts; the attempt that a lease
    begins is only counted when it fails. -/
structure Bounded (granted : Nat) (sj : StoredJob Id) : Prop where
  room : sj.job.attempt < sj.job.maxAttempts
  counted : granted ≤ sj.job.attempt.toNat + 1
  queued : sj.status = .queued → granted ≤ sj.job.attempt.toNat

theorem saturatingAdd_one {a b : UInt32} (room : ¬ b ≤ saturatingAdd a 1) :
    (saturatingAdd a 1).toNat = a.toNat + 1 := by
  unfold saturatingAdd at room ⊢
  split at room
  next =>
    -- every number is at most the saturated one
    refine absurd ?_ room
    have := b.toNat_lt
    rw [UInt32.le_iff_toNat_le]
    change b.toNat ≤ 4294967295
    omega
  next steady =>
    rw [if_neg steady]
    rw [UInt32.lt_iff_toNat_lt, UInt32.toNat_add] at steady
    rw [UInt32.toNat_add]
    have := a.toNat_lt
    change ¬ (a.toNat + 1) % 2 ^ 32 < a.toNat at steady
    change (a.toNat + 1) % 2 ^ 32 = a.toNat + 1
    omega

/-- Every deed but the end of a lease keeps the leases covered. -/
theorem Bounded.suffers {granted : Nat} {sj sj' : StoredJob Id} {d : Deed}
    (bounded : Bounded granted sj) (suffers : Suffers sj d sj') (kept : d ≠ .expire) :
    Bounded (granted + leases [d]) sj' := by
  cases suffers with
  | lease queued =>
    exact ⟨bounded.room, Nat.succ_le_succ (bounded.queued queued), fun bad => (nomatch bad)⟩
  | expire => exact absurd rfl kept
  | ack => exact ⟨bounded.room, bounded.counted, fun bad => (nomatch bad)⟩
  | @nack error retry now =>
    cases retry with
    | noRetry => exact ⟨bounded.room, bounded.counted, fun bad => (nomatch bad)⟩
    | retry delay =>
      simp only [StoredJob.nacked]
      split
      next => exact ⟨bounded.room, bounded.counted, fun bad => (nomatch bad)⟩
      next room =>
        have next := saturatingAdd_one room
        have counted := bounded.counted
        refine ⟨UInt32.not_le.mp room, ?_, fun _ => ?_⟩
        · change granted + 0 ≤ (saturatingAdd sj.job.attempt 1).toNat + 1
          omega
        · change granted + 0 ≤ (saturatingAdd sj.job.attempt 1).toNat
          omega
  | extend leased => exact ⟨bounded.room, bounded.counted, fun bad => (nomatch bad)⟩

theorem Bounded.lives {granted : Nat} {sj sj' : StoredJob Id} {deeds : List Deed}
    (bounded : Bounded granted sj) (life : Lives sj deeds sj') (kept : Deed.expire ∉ deeds) :
    Bounded (granted + leases deeds) sj' := by
  induction life with
  | nil => exact bounded
  | @snoc deeds _ d _ _ suffers ih =>
    simp only [List.mem_append, List.mem_singleton, not_or] at kept
    rw [leases_append, ← Nat.add_assoc]
    exact (ih kept.1).suffers suffers (Ne.symm kept.2)

/-- The attempt that the job is leased for is its last one. -/
theorem Bounded.last {granted : Nat} {sj : StoredJob Id} (bounded : Bounded granted sj)
    (all : granted = sj.job.maxAttempts.toNat) :
    sj.job.maxAttempts ≤ saturatingAdd sj.job.attempt 1 := by
  by_contra room
  have next := saturatingAdd_one room
  have less := UInt32.lt_iff_toNat_lt.mp (UInt32.not_le.mp room)
  have counted := bounded.counted
  omega

/-- The job has ended with its last attempt, and a `nack` does not queue it again. -/
structure Spent (sj : StoredJob Id) : Prop where
  ended : sj.status.Ended
  last : sj.job.maxAttempts ≤ saturatingAdd sj.job.attempt 1

/-- Whoever settles the last attempt ends the job. -/
theorem Suffers.spent_of_last {sj sj' : StoredJob Id} {d : Deed} (suffers : Suffers sj d sj')
    (settles : d.Settles) (last : sj.job.maxAttempts ≤ saturatingAdd sj.job.attempt 1) :
    Spent sj' := by
  cases suffers with
  | ack => exact ⟨trivial, last⟩
  | @nack error retry now =>
    cases retry with
    | noRetry => exact ⟨trivial, last⟩
    | retry delay =>
      simp only [StoredJob.nacked, if_pos last]
      exact ⟨trivial, last⟩
  | _ => exact settles.elim

theorem Spent.suffers {sj sj' : StoredJob Id} {d : Deed} (spent : Spent sj)
    (suffers : Suffers sj d sj') : Spent sj' :=
  suffers.spent_of_last (suffers.settles spent.ended) spent.last

theorem Spent.lives {sj sj' : StoredJob Id} {deeds : List Deed} (spent : Spent sj)
    (life : Lives sj deeds sj') : Spent sj' := by
  induction life with
  | nil => exact spent
  | snoc _ suffers ih => exact ih.suffers suffers

/-- After `n` hand-outs, counted by `handedOut`, an event that settles the job. -/
def SettledAfter {Event : Type} (handedOut : List Event → Nat) (settles : Event → Prop) (n : Nat)
    (h : List Event) : Prop :=
  ∃ early e late, h = early ++ e :: late ∧ settles e ∧ handedOut early = n

theorem settledAfter_snoc {Event : Type} {handedOut : List Event → Nat} {settles : Event → Prop}
    {n : Nat} {h : List Event} {e : Event} :
    SettledAfter handedOut settles n (h ++ [e]) ↔
      SettledAfter handedOut settles n h ∨ settles e ∧ handedOut h = n := by
  constructor
  · rintro ⟨early, e', late, same, settled, counted⟩
    rcases List.eq_nil_or_concat late with rfl | ⟨late, l, rfl⟩
    · obtain ⟨rfl, last⟩ := List.append_inj' same rfl
      cases last
      exact .inr ⟨settled, counted⟩
    · have split : h ++ [e] = (early ++ e' :: late) ++ [l] := by simp [same]
      obtain ⟨rfl, -⟩ := List.append_inj' split rfl
      exact .inl ⟨early, e', late, rfl, settled, counted⟩
  · rintro (⟨early, e', late, rfl, settled, counted⟩ | ⟨settled, counted⟩)
    · exact ⟨early, e', late ++ [e], by simp, settled, counted⟩
    · exact ⟨h, e, [], rfl, settled, counted⟩

end Queue

end RustApi
