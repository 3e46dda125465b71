import RustApi.Lib.Pool

/-!
# The writer lease

`WriterLease`: one small object in the bucket says who may write. A process creates
it, takes a stale one over by compare-and-set, renews it and deletes it. Any number of
processes run at once, one object store request at a time, with pauses of any length
between two requests and with clocks that agree.

## Main results

- `lease_exclusive`: while a process holds the lease, nobody else acquires it and its
  own renewal does not report it lost, provided that no request meets one of three
  windows (`Orderly`).
- `lease_taken_from_holder`: a run in which a live lease is taken over.
- `acquire_respects_age_iff`: when an acquisition judges the age of a record rightly, with
  clocks that need not agree.
-/

namespace RustApi

open Lib

namespace Lease

/-! ### Records -/

/-- `LeaseRecord`. The `{hostname}:{uuid}` of a process is a fresh number. -/
structure LeaseRecord where
  instanceId : Nat
  claimedAt : Int
  renewedAt : Int
  ttlSecs : Nat
  pid : Nat
  deriving DecidableEq, Repr

/-- `LeaseRecord::is_live_at`. The subtraction is checked, and an age that does not fit an
    unsigned number counts as stale. -/
def LeaseRecord.isLiveAt (rec : LeaseRecord) (now : Int) : Bool :=
  let age := now - rec.renewedAt
  if age < -2 ^ 63 ∨ 2 ^ 63 ≤ age then true else decide (0 ≤ age ∧ age < rec.ttlSecs)

/-- The age that `acquire` reports: an `i64` subtraction that is not checked. -/
def wrappingAge (now : Int) (held : LeaseRecord) : Int := Int.bmod (now - held.renewedAt) (2 ^ 64)

/-- `LeaseError`. -/
inductive LeaseError where
  | held (instanceId pid : Nat) (age : Int) (ttl wait : Nat)
  | corrupt
  | io (detail : String)
  deriving DecidableEq, Repr

/-- `LeaseError::held`. -/
def LeaseError.ofRecord (rec : LeaseRecord) (age : Int) : LeaseError :=
  let wait := if 0 ≤ age ∧ age ≤ rec.ttlSecs then rec.ttlSecs - age.toNat else 0
  .held rec.instanceId rec.pid age rec.ttlSecs (min wait (2 ^ 63 - 1))

/-- `WriterLease`: the record as the process wrote it last, and whether it was lost. -/
structure WriterLease where
  record : LeaseRecord
  lost : Bool
  deriving DecidableEq, Repr

/-- The body of the lease object. -/
inductive Body where
  | record (rec : LeaseRecord)
  | raw (bytes : List UInt8)
  deriving DecidableEq, Repr

/-! ### Requests -/

/-- Requests to the object store, the clock and the id of a process. `releasing` marks the
    call of `release`, and `renewed` is what `renew` returned. -/
inductive LeaseCall where
  | now
  | newInstance
  | get
  | create (rec : LeaseRecord)
  | update (version : Nat) (rec : LeaseRecord)
  | overwrite (rec : LeaseRecord)
  | delete
  | releasing
  | renewed (ok : Bool)
  deriving DecidableEq

/-- A conditional write answers whether its precondition held. -/
@[reducible] def LeaseCall.Ans : LeaseCall → Type
  | .now => Int
  | .newInstance => Nat
  | .get => Option (Body × Nat)
  | .create _ => Bool
  | .update .. => Bool
  | _ => Unit

/-- The lease object with its version. Every write gets a new version. -/
structure LeaseWorld where
  stored : Option (Body × Nat)
  nextVersion : Nat
  nextInstance : Nat
  clock : Int

def LeaseWorld.write (w : LeaseWorld) (rec : LeaseRecord) : LeaseWorld :=
  { w with stored := some (.record rec, w.nextVersion), nextVersion := w.nextVersion + 1 }

def LeaseCall.exec : (c : LeaseCall) → LeaseWorld → Except LeaseError c.Ans × LeaseWorld
  | .now, w => (.ok w.clock, w)
  | .newInstance, w => (.ok w.nextInstance, { w with nextInstance := w.nextInstance + 1 })
  | .get, w => (.ok w.stored, w)
  | .create rec, w => if w.stored = none then (.ok true, w.write rec) else (.ok false, w)
  | .update version rec, w =>
    if w.stored.map (·.2) = some version then (.ok true, w.write rec) else (.ok false, w)
  | .overwrite rec, w => (.ok (), w.write rec)
  | .delete, w => (.ok (), { w with stored := none })
  | .releasing, w => (.ok (), w)
  | .renewed _, w => (.ok (), w)

abbrev LeaseM (α : Type) : Type := Prog LeaseCall.Ans LeaseError α

def onLease (c : LeaseCall) : LeaseM c.Ans := Prog.perform c

/-! ### Calls of the lease -/

/-- `fetch`. -/
def fetch : LeaseM (Option (LeaseRecord × Nat)) := do
  match ← onLease .get with
  | none => pure none
  | some (.record rec, version) => pure (some (rec, version))
  | some (.raw _, _) => Prog.fail .corrupt

def acquire (ttlSecs pid : Nat) : LeaseM WriterLease := do
  let now ← onLease .now
  let instanceId ← onLease .newInstance
  let record : LeaseRecord := ⟨instanceId, now, now, ttlSecs, pid⟩
  let created ← onLease (.create record)
  if created = true then pure ⟨record, false⟩
  else do
    match ← fetch with
    | none => Prog.fail (.io "lease vanished between create and read")
    | some (held, version) =>
      if held.isLiveAt now then Prog.fail (.ofRecord held (wrappingAge now held))
      else do
        let taken ← onLease (.update version record)
        if taken = true then pure ⟨record, false⟩
        else do
          match ← fetch with
          | none => Prog.fail (.io "lease vanished during take-over")
          | some (winner, _) => Prog.fail (.ofRecord winner 0)

/-- The write of `renew`, which replaces whatever is there. -/
def rewrite (lease : WriterLease) : LeaseM (Bool × WriterLease) := do
  let now ← onLease .now
  let record := { lease.record with renewedAt := now }
  let _ ← onLease (.overwrite record)
  pure (true, { lease with record := record })

def renew (lease : WriterLease) : LeaseM (Bool × WriterLease) :=
  if lease.lost then pure (false, lease)
  else do
    match ← fetch.attempt with
    | .ok (some (current, _)) =>
      if current.instanceId ≠ lease.record.instanceId then pure (false, { lease with lost := true })
      else rewrite lease
    | .ok none => rewrite lease
    | .error _ => pure (false, { lease with lost := true })

def release (lease : WriterLease) : LeaseM Unit := do
  match ← fetch.attempt with
  | .ok (some (current, _)) =>
    if current.instanceId ≠ lease.record.instanceId then pure () else onLease .delete
  | .ok none => onLease .delete
  | .error _ => pure ()

/-! ### Processes -/

/-- What a process does with the lease it acquired. -/
inductive LeaseStep where
  | renew
  | release
  deriving DecidableEq

def runScript : List LeaseStep → WriterLease → LeaseM Unit
  | [], _ => pure ()
  | .renew :: script, lease => do
    let (ok, lease) ← renew lease
    let _ ← onLease (.renewed ok)
    runScript script lease
  | .release :: script, lease => do
    let _ ← onLease .releasing
    let _ ← release lease
    runScript script lease

/-- A process: one acquisition, then renewals and releases in any order. -/
structure LeaseOp where
  ttlSecs : Nat
  pid : Nat
  script : List LeaseStep
  deriving DecidableEq

def LeaseOp.prog (op : LeaseOp) : LeaseM Unit := do
  let lease ← acquire op.ttlSecs op.pid
  runScript op.script lease

/-- Any number of processes. The clock that they share moves forward, every request
    succeeds, and a process may crash anywhere. -/
def leaseSystem : System LeaseCall.Ans LeaseError LeaseWorld LeaseOp where
  exec := LeaseCall.exec
  enabled := fun _ _ => True
  mayFail := fun _ _ => False
  mayDrop := fun _ => True
  drop := fun _ _ w => w
  env := fun w w' => ∃ clock, w.clock ≤ clock ∧ w' = { w with clock := clock }
  prog := LeaseOp.prog

abbrev LeasePool : Type := Pool LeaseCall.Ans LeaseError LeaseWorld LeaseOp

/-! ### Tenure -/

/-- What a process has done: its instance, the time it sampled last, the time of its last
    acquisition or renewal, the record it judged before a take-over, whether it called
    `release`, and whether it saw the lease with somebody else. -/
structure Tenure where
  ttl : Nat
  me : Option Nat
  now : Option Int
  since : Option Int
  judged : Option (LeaseRecord × Nat)
  releasing : Bool
  lost : Bool

/-- The record is written by this process under the time it sampled last. -/
def Tenure.Writes (st : Tenure) (rec : LeaseRecord) : Prop :=
  st.me = some rec.instanceId ∧ rec.ttlSecs = st.ttl ∧ st.now = some rec.renewedAt

/-- A read of the lease: judged by an acquisition, compared by a renewal. -/
def Tenure.read (st : Tenure) : Option (Body × Nat) → Tenure
  | none => st
  | some (.record rec, version) =>
    if st.since = none then
      if st.judged = none then { st with judged := some (rec, version) } else st
    else if st.me = some rec.instanceId then st else { st with lost := true }
  | some (.raw _, _) => if st.since = none then st else { st with lost := true }

@[reducible] def leaseProtocol : Prog.Protocol LeaseCall.Ans LeaseError where
  State := Tenure
  allowed st c :=
    match c with
    | .now => st.judged = none ∨ st.since ≠ none
    | .newInstance => st.since = none
    | .create rec => st.since = none ∧ st.lost = false ∧ st.Writes rec
    | .update version rec => st.since = none ∧ st.lost = false ∧ st.Writes rec ∧
        ∃ held, st.judged = some (held, version) ∧ held.isLiveAt rec.renewedAt = false
    | .overwrite rec => st.since ≠ none ∧ (st.releasing = true ∨ st.lost = false) ∧ st.Writes rec
    | .delete => st.releasing = true
    | .renewed ok => ok = false → st.lost = true
    | _ => True
  possible _ r := ∃ a, r = .ok a
  track st c r :=
    match c, r with
    | .now, .ok n => { st with now := some n }
    | .newInstance, .ok i => { st with me := some i }
    | .get, .ok v => st.read v
    | .create rec, .ok true => { st with since := some rec.renewedAt }
    | .update _ rec, .ok true => { st with since := some rec.renewedAt }
    | .overwrite rec, .ok _ => { st with since := some rec.renewedAt }
    | .releasing, _ => { st with releasing := true }
    | _, _ => st

def LeaseOp.start (op : LeaseOp) : Tenure := ⟨op.ttlSecs, none, none, none, none, false, false⟩

/-- The tenure of a process. -/
def tenure (p : Proc LeaseCall.Ans LeaseError LeaseOp) : Tenure :=
  leaseProtocol.observe p.op.start p.past

/-- The lease was acquired or renewed less than its ttl ago and `release` was not called. -/
def Tenure.Holding (st : Tenure) (clock : Int) : Prop :=
  st.releasing = false ∧ ∃ r, st.since = some r ∧ clock - r < st.ttl

/-! ### Conformance -/

/-- The lease in memory agrees with the tenure. -/
private structure Owns (st : Tenure) (lease : WriterLease) : Prop where
  since : st.since ≠ none
  me : st.me = some lease.record.instanceId
  ttl : lease.record.ttlSecs = st.ttl
  lost : lease.lost = true → st.lost = true
  kept : lease.lost = false → st.releasing = true ∨ st.lost = false

private theorem fetch_conf {st : Tenure}
    {post : Tenure → Except LeaseError (Option (LeaseRecord × Nat)) → Prop}
    (absent : post st (.ok none))
    (found : ∀ rec version, post (st.read (some (.record rec, version))) (.ok (some (rec, version))))
    (corrupt : ∀ bytes version, post (st.read (some (.raw bytes, version))) (.error .corrupt)) :
    fetch.Conf leaseProtocol post st := by
  refine Prog.conf_bind.mpr ⟨trivial, ?_⟩
  rintro _ ⟨v, rfl⟩
  match v with
  | none => exact absent
  | some (.record rec, version) => exact found rec version
  | some (.raw bytes, version) => exact corrupt bytes version

private theorem acquire_conf (op : LeaseOp) :
    (acquire op.ttlSecs op.pid).Conf leaseProtocol
      (fun st r => ∀ lease, r = .ok lease → Owns st lease) op.start := by
  refine Prog.conf_bind.mpr ⟨.inl rfl, ?_⟩
  rintro _ ⟨now, rfl⟩
  refine Prog.conf_bind.mpr ⟨rfl, ?_⟩
  rintro _ ⟨i, rfl⟩
  refine Prog.conf_bind.mpr ⟨⟨rfl, rfl, rfl, rfl, rfl⟩, ?_⟩
  rintro _ ⟨_ | _, rfl⟩
  · refine Prog.conf_bind.mpr (fetch_conf ?_ ?_ ?_)
    · exact fun _ bad => nomatch bad
    · intro held version
      change (if held.isLiveAt now = true then _ else _ : LeaseM WriterLease).Conf leaseProtocol _ _
      split
      · exact fun _ bad => nomatch bad
      -- a record that is no longer live is replaced at the version that was read
      next stale =>
        refine Prog.conf_bind.mpr
          ⟨⟨rfl, rfl, ⟨rfl, rfl, rfl⟩, held, rfl, by simpa using stale⟩, ?_⟩
        rintro _ ⟨_ | _, rfl⟩
        · refine Prog.conf_bind.mpr (fetch_conf ?_ ?_ ?_)
          · exact fun _ bad => nomatch bad
          · exact fun _ _ _ bad => nomatch bad
          · exact fun _ _ _ bad => nomatch bad
        · rintro lease ⟨⟩
          exact ⟨by simp, rfl, rfl, fun bad => (nomatch bad), fun _ => .inr rfl⟩
    · exact fun _ _ _ bad => nomatch bad
  · rintro lease ⟨⟩
    exact ⟨by simp, rfl, rfl, fun bad => (nomatch bad), fun _ => .inr rfl⟩

/-- What `renew` leaves: the lease it returns, and `false` only for a lease that was lost. -/
private def Renewed (st : Tenure) (r : Except LeaseError (Bool × WriterLease)) : Prop :=
  ∀ ok lease, r = .ok (ok, lease) → Owns st lease ∧ (ok = false → st.lost = true)

private theorem rewrite_conf {st : Tenure} {lease : WriterLease} (owns : Owns st lease)
    (held : lease.lost = false) : (rewrite lease).Conf leaseProtocol Renewed st := by
  refine Prog.conf_bind.mpr ⟨.inr owns.since, ?_⟩
  rintro _ ⟨now, rfl⟩
  refine Prog.conf_bind.mpr ⟨⟨owns.since, owns.kept held, owns.me, owns.ttl, rfl⟩, ?_⟩
  rintro _ ⟨_, rfl⟩
  rintro ok lease' ⟨⟩
  exact ⟨⟨by simp, owns.me, owns.ttl, owns.lost, owns.kept⟩, fun bad => nomatch bad⟩

/-- A read by the holder keeps everything but the news that the lease is lost. -/
private theorem read_of_since {st : Tenure} (since : st.since ≠ none) (v : Option (Body × Nat)) :
    st.read v = st ∨ st.read v = { st with lost := true } := by
  match v with
  | none => exact .inl rfl
  | some (.record rec, version) =>
    simp only [Tenure.read, if_neg since]
    split
    · exact .inl rfl
    · exact .inr rfl
  | some (.raw bytes, version) =>
    right
    simp only [Tenure.read, if_neg since]

private theorem lost_conf {st : Tenure} {lease : WriterLease} (owns : Owns st lease) :
    (pure (false, { lease with lost := true }) : LeaseM _).Conf leaseProtocol Renewed
      { st with lost := true } := by
  rintro ok lease' ⟨⟩
  exact ⟨⟨owns.since, owns.me, owns.ttl, fun _ => rfl, fun bad => (nomatch bad)⟩, fun _ => rfl⟩

private theorem renew_conf {st : Tenure} {lease : WriterLease} (owns : Owns st lease) :
    (renew lease).Conf leaseProtocol Renewed st := by
  rw [renew]
  split
  next lost =>
    rintro ok lease' ⟨⟩
    exact ⟨owns, fun _ => owns.lost lost⟩
  next held =>
    rw [Bool.not_eq_true] at held
    refine Prog.conf_bind.mpr (Prog.conf_attempt.mpr (fetch_conf ?_ ?_ ?_))
    · exact rewrite_conf owns held
    · intro rec version
      change (if rec.instanceId ≠ lease.record.instanceId then _ else _ : LeaseM _).Conf
        leaseProtocol Renewed _
      simp only [Tenure.read, if_neg owns.since]
      by_cases mine : rec.instanceId = lease.record.instanceId
      · rw [if_neg (not_not.mpr mine), if_pos (owns.me.trans (congrArg some mine.symm))]
        exact rewrite_conf owns held
      · rw [if_pos mine, if_neg (fun same => mine (Option.some.inj (same.symm.trans owns.me)))]
        exact lost_conf owns
    · intro bytes version
      simp only [Tenure.read, if_neg owns.since]
      exact lost_conf owns

private theorem release_conf {st : Tenure} {lease : WriterLease} (owns : Owns st lease)
    (releasing : st.releasing = true) :
    (release lease).Conf leaseProtocol (fun st' _ => Owns st' lease) st := by
  have after : ∀ v, Owns (st.read v) lease ∧ (st.read v).releasing = true := by
    intro v
    rcases read_of_since owns.since v with same | lost
    · rw [same]
      exact ⟨owns, releasing⟩
    · rw [lost]
      exact ⟨⟨owns.since, owns.me, owns.ttl, fun _ => rfl, fun _ => .inl releasing⟩, releasing⟩
  refine Prog.conf_bind.mpr (Prog.conf_attempt.mpr (fetch_conf ?_ ?_ ?_))
  · exact ⟨releasing, fun _ _ => owns⟩
  · intro rec version
    change (if rec.instanceId ≠ lease.record.instanceId then _ else _ : LeaseM Unit).Conf
      leaseProtocol _ _
    split
    · exact (after _).1
    · exact ⟨(after (some (.record rec, version))).2,
        fun _ _ => (after (some (.record rec, version))).1⟩
  · exact fun bytes version => (after _).1

private theorem script_conf (script : List LeaseStep) {st : Tenure} {lease : WriterLease}
    (owns : Owns st lease) : (runScript script lease).Conf leaseProtocol (fun _ _ => True) st := by
  induction script generalizing st lease with
  | nil => trivial
  | cons step script ih =>
    cases step with
    | renew =>
      refine Prog.conf_bind.mpr ((renew_conf owns).mono ?_)
      rintro st' (e | ⟨ok, lease'⟩) renewed
      · trivial
      · obtain ⟨owns', lost⟩ := renewed ok lease' rfl
        refine Prog.conf_bind.mpr ⟨lost, ?_⟩
        rintro _ ⟨_, rfl⟩
        exact ih owns'
    | release =>
      refine Prog.conf_bind.mpr ⟨trivial, ?_⟩
      rintro _ ⟨_, rfl⟩
      have moved : Owns { st with releasing := true } lease :=
        ⟨owns.since, owns.me, owns.ttl, owns.lost, fun _ => .inl rfl⟩
      refine Prog.conf_bind.mpr ((release_conf moved rfl).mono ?_)
      rintro st' (e | _) owns'
      · trivial
      · exact ih owns'

private theorem prog_conf (op : LeaseOp) :
    op.prog.Conf leaseProtocol (fun _ _ => True) op.start := by
  refine Prog.conf_bind.mpr ((acquire_conf op).mono ?_)
  rintro st (e | lease) owns
  · trivial
  · exact script_conf op.script (owns lease rfl)

/-! ### The windows -/

/-- The three windows that a run must not meet:
    - an acquisition that samples the time, and then reads a record renewed after that;
    - a renewal that overwrites the record of another instance;
    - a release that deletes the record of another instance. -/
def Orderly (s : LeasePool) : Label LeaseCall LeaseError LeaseOp → Prop
  | .call pid .get none => ∀ p now rec version, s.procs pid = some p →
      (tenure p).since = none → (tenure p).judged = none → (tenure p).now = some now →
      s.world.stored = some (.record rec, version) → rec.renewedAt ≤ now
  | .call _ (.overwrite rec) none => ∀ other version,
      s.world.stored = some (.record other, version) → other.instanceId = rec.instanceId
  | .call pid .delete none => ∀ p other version, s.procs pid = some p →
      s.world.stored = some (.record other, version) → (tenure p).me = some other.instanceId
  | _ => True

/-! ### The invariant -/

/-- What holds of one process. A holder's record is the stored one, and a process that saw
    the lease with somebody else holds it no more. -/
structure Sound (w : LeaseWorld) (st : Tenure) : Prop where
  issued : ∀ i, st.me = some i → i < w.nextInstance
  sampled : ∀ n, st.now = some n → n ≤ w.clock
  ordered : ∀ r, st.since = some r → ∃ n, st.now = some n ∧ r ≤ n
  judged : ∀ rec version, st.judged = some (rec, version) → version < w.nextVersion ∧
    (∀ body, w.stored = some (body, version) → body = .record rec) ∧
    (st.since = none → ∀ n, st.now = some n → rec.renewedAt ≤ n)
  kept : ∀ r, st.since = some r → st.releasing = false → w.clock - r < st.ttl →
    ∃ rec version, w.stored = some (.record rec, version) ∧ st.me = some rec.instanceId ∧
      r ≤ rec.renewedAt ∧ rec.ttlSecs = st.ttl
  expired : st.lost = true → ¬ st.Holding w.clock

structure Exclusive (w : LeaseWorld) (view : Nat → Option (LeaseOp × Tenure)) : Prop where
  version : ∀ body v, w.stored = some (body, v) → v < w.nextVersion
  sound : ∀ pid op st, view pid = some (op, st) → Sound w st
  distinct : ∀ pid pid' op op' st st' i, view pid = some (op, st) → view pid' = some (op', st') →
    st.me = some i → st'.me = some i → pid = pid'

section Steps

variable {w w' : LeaseWorld} {view : Nat → Option (LeaseOp × Tenure)} {pid : Nat} {op : LeaseOp}
  {st st' : Tenure} {rec : LeaseRecord}

/-- The record of a holder is the stored one. -/
theorem Sound.stored (sound : Sound w st) (holding : st.Holding w.clock) :
    ∃ rec version, w.stored = some (.record rec, version) ∧ st.me = some rec.instanceId ∧
      rec.ttlSecs = st.ttl ∧ w.clock - rec.renewedAt < rec.ttlSecs := by
  obtain ⟨active, r, since, young⟩ := holding
  obtain ⟨rec, version, stored, me, later, ttl⟩ := sound.kept r since active young
  exact ⟨rec, version, stored, me, ttl, by rw [ttl]; omega⟩

/-- A write keeps what holds of every process that holds no lease. -/
private theorem Sound.write (sound : Sound w st) (free : ¬ st.Holding w.clock) (rec : LeaseRecord) :
    Sound (w.write rec) st := by
  refine ⟨sound.issued, sound.sampled, sound.ordered, ?_, ?_, sound.expired⟩
  · intro held version found
    obtain ⟨old, -, earlier⟩ := sound.judged held version found
    refine ⟨Nat.lt_succ_of_lt old, ?_, earlier⟩
    intro body stored
    -- the new version is none that was seen before
    have same : w.nextVersion = version := congrArg (·.2) (Option.some.inj stored)
    omega
  · exact fun r since active young => absurd ⟨active, r, since, young⟩ free

private theorem Sound.delete (sound : Sound w st) (free : ¬ st.Holding w.clock) :
    Sound { w with stored := none } st := by
  refine ⟨sound.issued, sound.sampled, sound.ordered, ?_, ?_, sound.expired⟩
  · intro held version found
    obtain ⟨old, -, earlier⟩ := sound.judged held version found
    exact ⟨old, fun _ bad => (nomatch bad), earlier⟩
  · exact fun r since active young => absurd ⟨active, r, since, young⟩ free

/-- The process that wrote its record holds the lease from the time it sampled. -/
private theorem Sound.claim (sound : Sound w st) (writes : st.Writes rec)
    (unlost : st.releasing = true ∨ st.lost = false) :
    Sound (w.write rec) { st with since := some rec.renewedAt } := by
  obtain ⟨me, ttl, now⟩ := writes
  refine ⟨sound.issued, sound.sampled, ?_, ?_, ?_, ?_⟩
  · rintro r ⟨⟩
    exact ⟨_, now, Int.le_refl _⟩
  · intro held version found
    obtain ⟨old, -, -⟩ := sound.judged held version found
    refine ⟨Nat.lt_succ_of_lt old, ?_, fun bad => (nomatch bad)⟩
    intro body stored
    have same : w.nextVersion = version := congrArg (·.2) (Option.some.inj stored)
    omega
  · rintro r ⟨⟩ - -
    exact ⟨rec, w.nextVersion, rfl, me, Int.le_refl _, ttl⟩
  · rintro lost ⟨active, -⟩
    rcases unlost with releasing | unlost
    · rw [show st.releasing = false from active] at releasing
      cases releasing
    · rw [show st.lost = true from lost] at unlost
      cases unlost

/-- Nobody but the owner of the stored record holds the lease. -/
private theorem Exclusive.free_of_stored (exclusive : Exclusive w view)
    (here : view pid = some (op, st))
    (mine : ∀ other version, w.stored = some (.record other, version) →
      st.me = some other.instanceId) {q : Nat} {op₁ : LeaseOp} {st₁ : Tenure} (differs : q ≠ pid)
    (found : view q = some (op₁, st₁)) : ¬ st₁.Holding w.clock := by
  intro holding
  obtain ⟨other, version, stored, me, -, -⟩ := (exclusive.sound q _ _ found).stored holding
  exact differs (exclusive.distinct q pid _ _ _ _ _ found here me (mine other version stored))

/-- A step that leaves the instances as they were. -/
private theorem Exclusive.step (exclusive : Exclusive w view) (here : view pid = some (op, st))
    (version : ∀ body v, w'.stored = some (body, v) → v < w'.nextVersion)
    (others : ∀ q op₁ st₁, q ≠ pid → view q = some (op₁, st₁) → Sound w' st₁)
    (sound : Sound w' st') (me : st'.me = st.me) :
    Exclusive w' (Function.update view pid (some (op, st'))) := by
  refine ⟨version, ?_, ?_⟩
  · intro q op₁ st₁ found
    rcases update_eq_some.mp found with ⟨-, ⟨⟩⟩ | ⟨differs, found⟩
    · exact sound
    · exact others q op₁ st₁ differs found
  · have before : ∀ q op₁ st₁ i, Function.update view pid (some (op, st')) q = some (op₁, st₁) →
        st₁.me = some i → ∃ op₂ st₂, view q = some (op₂, st₂) ∧ st₂.me = some i := by
      intro q op₁ st₁ i found mine
      rcases update_eq_some.mp found with ⟨rfl, ⟨⟩⟩ | ⟨-, found⟩
      · exact ⟨op, st, here, me ▸ mine⟩
      · exact ⟨op₁, st₁, found, mine⟩
    intro q q' op₁ op₂ st₁ st₂ i found found' mine mine'
    obtain ⟨_, _, found, mine⟩ := before q _ _ i found mine
    obtain ⟨_, _, found', mine'⟩ := before q' _ _ i found' mine'
    exact exclusive.distinct q q' _ _ _ _ i found found' mine mine'

/-- A step that leaves the world as it was. -/
private theorem Exclusive.quiet (exclusive : Exclusive w view) (here : view pid = some (op, st))
    (sound : Sound w st') (me : st'.me = st.me) :
    Exclusive w (Function.update view pid (some (op, st'))) :=
  exclusive.step here exclusive.version (fun q op₁ st₁ _ found => exclusive.sound q op₁ st₁ found)
    sound me

/-- The new instance is none that was issued before. -/
private theorem Exclusive.newInstance (exclusive : Exclusive w view)
    (here : view pid = some (op, st)) (idle : st.since = none) :
    Exclusive { w with nextInstance := w.nextInstance + 1 }
      (Function.update view pid (some (op, { st with me := some w.nextInstance }))) := by
  have sound := exclusive.sound pid _ _ here
  have grown : ∀ st₁, Sound w st₁ →
      Sound { w with nextInstance := w.nextInstance + 1 } st₁ := fun st₁ old =>
    ⟨fun i me => Nat.lt_succ_of_lt (old.issued i me), old.sampled, old.ordered, old.judged,
      old.kept, old.expired⟩
  refine ⟨exclusive.version, ?_, ?_⟩
  · intro q op₁ st₁ found
    rcases update_eq_some.mp found with ⟨-, ⟨⟩⟩ | ⟨-, found⟩
    · refine ⟨?_, sound.sampled, sound.ordered, sound.judged, ?_, ?_⟩
      · rintro i ⟨⟩
        exact Nat.lt_succ_self _
      · intro r since
        cases idle.symm.trans since
      · rintro - ⟨-, r, since, -⟩
        cases idle.symm.trans since
    · exact grown st₁ (exclusive.sound q _ _ found)
  · have fresh : ∀ q op₁ st₁, view q = some (op₁, st₁) →
        st₁.me ≠ some w.nextInstance := fun q op₁ st₁ found me =>
      absurd ((exclusive.sound q _ _ found).issued _ me) (Nat.lt_irrefl _)
    intro q q' op₁ op₂ st₁ st₂ i found found' me me'
    refine single_update (K := fun (row : LeaseOp × Tenure) i => row.2.me = some i) ?_ ?_
      found found' me me'
    · exact fun p p' _ _ i => exclusive.distinct p p' _ _ _ _ i
    · rintro p ⟨op₃, st₃⟩ _ - there ⟨⟩
      exact fresh p op₃ st₃ there

/-- Whoever releases deletes its own record, and nobody else holds the lease by that one. -/
private theorem Exclusive.delete (exclusive : Exclusive w view) (here : view pid = some (op, st))
    (mine : ∀ other version, w.stored = some (.record other, version) →
      st.me = some other.instanceId) (releasing : st.releasing = true) :
    Exclusive { w with stored := none } (Function.update view pid (some (op, st))) := by
  have sound := exclusive.sound pid _ _ here
  refine exclusive.step here (fun _ _ bad => (nomatch bad)) ?_ (sound.delete ?_) rfl
  · intro q op₁ st₁ differs found
    exact (exclusive.sound q _ _ found).delete (exclusive.free_of_stored here mine differs found)
  · rintro ⟨active, -⟩
    rw [releasing] at active
    cases active

/-- A write of its own record, when nobody else holds the lease. -/
private theorem Exclusive.write (exclusive : Exclusive w view) (here : view pid = some (op, st))
    (writes : st.Writes rec) (unlost : st.releasing = true ∨ st.lost = false)
    (free : ∀ q op₁ st₁, q ≠ pid → view q = some (op₁, st₁) → ¬ st₁.Holding w.clock) :
    Exclusive (w.write rec)
      (Function.update view pid (some (op, { st with since := some rec.renewedAt }))) := by
  refine exclusive.step here ?_ ?_ ((exclusive.sound pid _ _ here).claim writes unlost) rfl
  · rintro body v ⟨⟩
    exact Nat.lt_succ_self _
  · intro q op₁ st₁ differs found
    exact (exclusive.sound q _ _ found).write (free q op₁ st₁ differs found) rec

/-- A record that is not live has outlived its ttl, unless it is from the future. -/
theorem ttl_le_of_stale {now : Int} (stale : rec.isLiveAt now = false) (past : rec.renewedAt ≤ now) :
    rec.ttlSecs ≤ now - rec.renewedAt := by
  rw [LeaseRecord.isLiveAt] at stale
  split at stale
  · cases stale
  · rw [decide_eq_false_iff_not] at stale
    omega

/-- A take-over that goes through replaces a record that its owner holds no more. -/
private theorem Exclusive.free_of_update (exclusive : Exclusive w view)
    (here : view pid = some (op, st)) (writes : st.Writes rec) (idle : st.since = none)
    {held : LeaseRecord} {version : Nat} (judged : st.judged = some (held, version))
    (stale : held.isLiveAt rec.renewedAt = false) (current : w.stored.map (·.2) = some version)
    {q : Nat} {op₁ : LeaseOp} {st₁ : Tenure} (found : view q = some (op₁, st₁)) :
    ¬ st₁.Holding w.clock := by
  intro holding
  have sound := exclusive.sound pid _ _ here
  obtain ⟨-, unchanged, earlier⟩ := sound.judged held version judged
  obtain ⟨other, v, stored, -, -, young⟩ := (exclusive.sound q _ _ found).stored holding
  rw [stored] at current
  cases Option.some.inj current
  cases unchanged _ stored
  have old := ttl_le_of_stale stale (earlier idle _ writes.2.2)
  have reached := sound.sampled _ writes.2.2
  omega

private theorem Exclusive.read {s : LeasePool} {pid : Nat} {op : LeaseOp} {st : Tenure}
    (exclusive : Exclusive s.world (leaseProtocol.view LeaseOp.start s))
    (here : leaseProtocol.view LeaseOp.start s pid = some (op, st))
    (met : Orderly s (.call pid .get none)) : Sound s.world (st.read s.world.stored) := by
  have sound := exclusive.sound pid _ _ here
  obtain ⟨p, found, -, observed⟩ := leaseProtocol.view_eq_some.mp here
  have seen : tenure p = st := observed
  match stored : s.world.stored with
  | none => exact sound
  | some (.record rec, version) =>
    simp only [Tenure.read]
    by_cases idle : st.since = none
    · rw [if_pos idle]
      split
      -- the first read before the lease is what an update will be judged by
      next unjudged =>
        refine ⟨sound.issued, sound.sampled, sound.ordered, ?_, sound.kept, sound.expired⟩
        rintro held v ⟨⟩
        refine ⟨exclusive.version _ _ stored, ?_, ?_⟩
        · intro body again
          rw [stored] at again
          cases again
          rfl
        · intro _ n now
          exact met p n rec version found (seen ▸ idle) (seen ▸ unjudged) (seen ▸ now) stored
      next => exact sound
    · rw [if_neg idle]
      split
      next => exact sound
      -- somebody else's record: whoever reads it has lost the lease, and does not hold it
      next other =>
        refine ⟨sound.issued, sound.sampled, sound.ordered, sound.judged, sound.kept, ?_⟩
        intro _ holding
        obtain ⟨rec', v, again, me, -, -⟩ := sound.stored holding
        rw [stored] at again
        cases again
        exact other me
  | some (.raw bytes, version) =>
    simp only [Tenure.read]
    split
    · exact sound
    · refine ⟨sound.issued, sound.sampled, sound.ordered, sound.judged, sound.kept, ?_⟩
      intro _ holding
      obtain ⟨rec', v, again, -, -, -⟩ := sound.stored holding
      rw [stored] at again
      cases again

private theorem Tenure.read_me (st : Tenure) (v : Option (Body × Nat)) : (st.read v).me = st.me := by
  unfold Tenure.read
  split
  · rfl
  · split
    · split <;> rfl
    · split <;> rfl
  · split <;> rfl

end Steps

private theorem exclusive_call {s : LeasePool} {pid : Nat} {op : LeaseOp} {st : Tenure}
    {c : LeaseCall} (met : Orderly s (.call pid c none))
    (here : leaseProtocol.view LeaseOp.start s pid = some (op, st))
    (allowed : leaseProtocol.allowed st c)
    (exclusive : Exclusive s.world (leaseProtocol.view LeaseOp.start s)) :
    Exclusive (c.exec s.world).2 (Function.update (leaseProtocol.view LeaseOp.start s) pid
      (some (op, leaseProtocol.track st c (c.exec s.world).1))) := by
  have sound := exclusive.sound pid _ _ here
  have same := exclusive.quiet here sound rfl
  cases c with
  | now =>
    refine exclusive.quiet here ⟨sound.issued, ?_, ?_, ?_, sound.kept, sound.expired⟩ rfl
    · rintro n ⟨⟩
      exact Int.le_refl _
    · intro r since
      obtain ⟨n, now, later⟩ := sound.ordered r since
      exact ⟨_, rfl, Int.le_trans later (sound.sampled n now)⟩
    · intro rec version judged
      rcases allowed with unjudged | since
      · cases unjudged.symm.trans judged
      · obtain ⟨old, unchanged, -⟩ := sound.judged rec version judged
        exact ⟨old, unchanged, fun idle => absurd idle since⟩
  | newInstance => exact exclusive.newInstance here allowed
  | get => exact exclusive.quiet here (exclusive.read here met) (st.read_me _)
  | create rec =>
    obtain ⟨idle, unlost, writes⟩ := allowed
    by_cases absent : s.world.stored = none
    · simp only [LeaseCall.exec, if_pos absent]
      refine exclusive.write here writes (.inr unlost) ?_
      intro q op₁ st₁ _ found holding
      -- a holder would have its record in the store, and there is none
      obtain ⟨_, _, stored, -⟩ := (exclusive.sound q _ _ found).stored holding
      rw [absent] at stored
      cases stored
    · simp only [LeaseCall.exec, if_neg absent]
      exact same
  | update version rec =>
    obtain ⟨idle, unlost, writes, held, judged, stale⟩ := allowed
    by_cases current : s.world.stored.map (·.2) = some version
    · simp only [LeaseCall.exec, if_pos current]
      -- the version has not moved since the record was judged stale
      exact exclusive.write here writes (.inr unlost) fun q op₁ st₁ _ found =>
        exclusive.free_of_update here writes idle judged stale current found
    · simp only [LeaseCall.exec, if_neg current]
      exact same
  | overwrite rec =>
    obtain ⟨-, unlost, writes⟩ := allowed
    refine exclusive.write here writes unlost fun q op₁ st₁ differs found =>
      exclusive.free_of_stored here ?_ differs found
    intro other version stored
    rw [writes.1, met other version stored]
  | delete =>
    obtain ⟨p, found, -, observed⟩ := leaseProtocol.view_eq_some.mp here
    refine exclusive.delete here (fun other version stored => ?_) allowed
    have seen : tenure p = st := observed
    exact seen ▸ met p other version found stored
  | releasing =>
    refine exclusive.quiet here ⟨sound.issued, sound.sampled, sound.ordered, sound.judged, ?_, ?_⟩ rfl
    · exact fun _ _ bad => (nomatch bad)
    · rintro - ⟨bad, -⟩
      cases bad
  | renewed ok => exact same

private theorem exclusive_preserved :
    leaseSystem.Preserves leaseProtocol LeaseOp.start Orderly (fun _ => Exclusive) where
  answers c w := by
    cases c with
    | create rec =>
      simp only [leaseSystem, LeaseCall.exec]
      split
      · exact ⟨_, rfl⟩
      · exact ⟨_, rfl⟩
    | update version rec =>
      simp only [leaseSystem, LeaseCall.exec]
      split
      · exact ⟨_, rfl⟩
      · exact ⟨_, rfl⟩
    | _ => exact ⟨_, rfl⟩
  faults _ _ bad := bad.elim
  spawn := by
    intro h s pid op _ _ exclusive
    refine ⟨exclusive.version, ?_, ?_⟩
    · intro q op₁ st₁ found
      rcases update_eq_some.mp found with ⟨-, ⟨⟩⟩ | ⟨-, found⟩
      · exact ⟨fun _ bad => (nomatch bad), fun _ bad => (nomatch bad), fun _ bad => (nomatch bad),
          fun _ _ bad => (nomatch bad), fun _ bad => (nomatch bad), fun bad => (nomatch bad)⟩
      · exact exclusive.sound q _ _ found
    · intro q q' op₁ op₂ st₁ st₂ i found found' me me'
      refine single_update (K := fun (row : LeaseOp × Tenure) i => row.2.me = some i) ?_ ?_
        found found' me me'
      · exact fun p p' _ _ i => exclusive.distinct p p' _ _ _ _ i
      · rintro p row i - - ⟨⟩
  env := by
    rintro h s w - ⟨clock, later, rfl⟩ exclusive
    -- the clock only moves on, which ends leases and starts none
    refine ⟨exclusive.version, ?_, exclusive.distinct⟩
    intro q op₁ st₁ found
    have old := exclusive.sound q _ _ found
    refine ⟨old.issued, fun n now => Int.le_trans (old.sampled n now) later, old.ordered, old.judged,
      ?_, ?_⟩
    · intro r since active young
      exact old.kept r since active (Int.lt_of_le_of_lt (Int.sub_le_sub_right later r) young)
    · rintro lost ⟨active, r, since, young⟩
      exact old.expired lost
        ⟨active, r, since, Int.lt_of_le_of_lt (Int.sub_le_sub_right later r) young⟩
  call := fun _ _ _ _ _ _ met here allowed _ exclusive =>
    exclusive_call met here allowed exclusive
  fault := fun _ _ _ _ _ _ _ _ _ _ bad => bad.elim
  drop := by
    intro h s pid op past _ _ _ exclusive
    exact ⟨exclusive.version,
      fun q op₁ st₁ found => exclusive.sound q op₁ st₁ (of_update_none found),
      fun q q' op₁ op₂ st₁ st₂ i found found' => exclusive.distinct q q' op₁ op₂ st₁ st₂ i
        (of_update_none found) (of_update_none found')⟩

/-! ### Mutual exclusion -/

/-- The process holds the lease: it acquired or last renewed it less than its ttl ago and
    has not called `release`. -/
def Holds (s : LeasePool) (pid : Nat) : Prop :=
  ∃ p, s.procs pid = some p ∧ (tenure p).Holding s.world.clock

/-- The request with which an `acquire` returns a lease. -/
def Acquires (c : LeaseCall) (w : LeaseWorld) : Prop :=
  (∃ rec, c = .create rec ∧ w.stored = none) ∨
    ∃ version rec, c = .update version rec ∧ w.stored.map (·.2) = some version

/-- **Mutual exclusion**. In every run that meets none of the three windows, while a process
    holds the lease no other process acquires it, and the holder's own renewal does not
    report it lost. -/
theorem lease_exclusive {w : LeaseWorld}
    (current : ∀ body version, w.stored = some (body, version) → version < w.nextVersion)
    {h : List (Label LeaseCall LeaseError LeaseOp)} {s : LeasePool}
    (run : leaseSystem.Trace Orderly ⟨w, fun _ => none⟩ h s) {pid : Nat} (holds : Holds s pid) :
    (∀ other c t, other ≠ pid → leaseSystem.Step s (.call other c none) t →
        ¬ Acquires c s.world) ∧
      ∀ t, ¬ leaseSystem.Step s (.call pid (.renewed false) none) t := by
  obtain ⟨obeyed, exclusive⟩ := System.invariant_of_trace (fun _ _ op _ => prog_conf op)
    exclusive_preserved run (System.obeyed_of_no_procs _)
    ⟨current, fun _ _ _ bad => (nomatch bad), fun _ _ _ _ _ _ _ bad => (nomatch bad)⟩
  obtain ⟨p, found, holding⟩ := holds
  have here : leaseProtocol.view LeaseOp.start s pid = some (p.op, tenure p) :=
    leaseProtocol.view_eq_some.mpr ⟨p, found, rfl, rfl⟩
  have sound := exclusive.sound pid _ _ here
  constructor
  · intro other c t differs step acquires
    cases step with
    | call at_call enabled =>
      have seen : leaseProtocol.view LeaseOp.start s other = some (_, _) :=
        leaseProtocol.view_eq_some.mpr ⟨_, at_call, rfl, rfl⟩
      have allowed := (obeyed other _ at_call).1
      rcases acquires with ⟨rec, rfl, absent⟩ | ⟨version, rec, rfl, same⟩
      · obtain ⟨_, _, stored, -⟩ := sound.stored holding
        rw [absent] at stored
        cases stored
      · obtain ⟨idle, -, writes, held, judged, stale⟩ := allowed
        exact exclusive.free_of_update seen writes idle judged stale same here holding
  · intro t step
    cases step with
    | call at_call enabled =>
      have allowed := (obeyed pid _ at_call).1
      cases found.symm.trans at_call
      exact sound.expired (allowed rfl) holding

/-! ### A live lease is taken -/

/-- How to follow a schedule of processes. -/
def leaseScheduler : leaseSystem.Scheduler (fun _ _ => True) where
  enabled _ _ := true
  mayFail _ _ := false
  mayDrop _ := true
  tick n w := { w with clock := w.clock + n }
  check _ _ := true
  enabled_sound _ _ _ := trivial
  mayFail_sound _ _ bad := nomatch bad
  mayDrop_sound _ _ := trivial
  tick_sound n _ := ⟨_, Int.le_add_of_nonneg_right (Int.natCast_nonneg n), rfl⟩
  check_sound _ _ _ := trivial

/-- A bucket without a lease. -/
def emptyBucket : LeasePool := ⟨⟨none, 0, 0, 0⟩, fun _ => none⟩

/-- Process 1 samples the time and pauses. One second later process 0 acquires the lease;
    process 1 fails to create it and reads the record of process 0. -/
def takenRun : List (System.Move LeaseError LeaseOp) :=
  [.spawn 1 ⟨60, 11, []⟩, .call 1, .call 1, .env 1,
    .spawn 0 ⟨60, 10, []⟩, .call 0, .call 0, .call 0, .call 1, .call 1]

private theorem takenRun_played :
    (leaseScheduler.play takenRun [] emptyBucket).isSome = true := by decide +kernel

private def takenPool : LeasePool := ((leaseScheduler.play takenRun [] emptyBucket).get takenRun_played).2

/-- The record is from the future of process 1, so its age is negative and counts as stale:
    process 1 takes over the lease that process 0 acquired in this very second. -/
theorem lease_taken_from_holder :
    ¬ ∀ (w : LeaseWorld) (h : List (Label LeaseCall LeaseError LeaseOp)) (s : LeasePool) (pid : Nat),
      (∀ body version, w.stored = some (body, version) → version < w.nextVersion) →
      leaseSystem.Trace (fun _ _ => True) ⟨w, fun _ => none⟩ h s → Holds s pid →
      (∀ other c t, other ≠ pid → leaseSystem.Step s (.call other c none) t →
          ¬ Acquires c s.world) ∧
        ∀ t, ¬ leaseSystem.Step s (.call pid (.renewed false) none) t := by
  intro claim
  have holds : Holds takenPool 0 := by
    have seen : (takenPool.procs 0).map (fun p => ((tenure p).releasing, (tenure p).since,
        (tenure p).ttl, takenPool.world.clock)) = some (false, some 1, 60, 1) := by decide +kernel
    obtain ⟨p, found, same⟩ := Option.map_eq_some_iff.mp seen
    simp only [Prod.mk.injEq] at same
    exact ⟨p, found, same.1, 1, same.2.1, by rw [same.2.2.1, same.2.2.2]; decide⟩
  have next : (leaseScheduler.move takenPool (.call 1)).map (·.1) =
      some (.call 1 (.update 0 ⟨0, 0, 0, 60, 11⟩) none) := by decide +kernel
  obtain ⟨⟨l, t⟩, moved, rfl⟩ := Option.map_eq_some_iff.mp next
  have exclusive := claim ⟨none, 0, 0, 0⟩ _ takenPool 0 (fun _ _ bad => (nomatch bad))
    (leaseScheduler.trace_of_play takenRun emptyBucket takenRun_played) holds
  exact exclusive.1 1 _ t (by decide) (System.Scheduler.step_of_move moved)
    (.inr ⟨0, _, rfl, by decide +kernel⟩)

/-- How to follow a schedule without renewals and releases. -/
def orderlyScheduler : leaseSystem.Scheduler Orderly where
  enabled := leaseScheduler.enabled
  mayFail := leaseScheduler.mayFail
  mayDrop := leaseScheduler.mayDrop
  tick := leaseScheduler.tick
  check s l :=
    match l with
    | .call pid .get none => (s.procs pid).all fun p =>
        match (tenure p).now, s.world.stored with
        | some now, some (.record rec, _) => decide (rec.renewedAt ≤ now)
        | _, _ => true
    | .call _ (.overwrite _) none => false
    | .call _ .delete none => false
    | _ => true
  enabled_sound := leaseScheduler.enabled_sound
  mayFail_sound := leaseScheduler.mayFail_sound
  mayDrop_sound := leaseScheduler.mayDrop_sound
  tick_sound := leaseScheduler.tick_sound
  check_sound s l ok := by
    unfold Orderly
    split
    · intro p now rec version found _ _ sampled stored
      simpa [found, sampled, stored] using ok
    · cases ok
    · cases ok
    · trivial

/-- Process 0 acquires the lease, and process 1 fails to create it. -/
def refusedRun : List (System.Move LeaseError LeaseOp) :=
  [.spawn 0 ⟨60, 10, [.renew]⟩, .call 0, .call 0, .call 0,
    .spawn 1 ⟨60, 11, []⟩, .call 1, .call 1, .call 1, .call 1]

private theorem refusedRun_played :
    (orderlyScheduler.play refusedRun [] emptyBucket).isSome = true := by decide +kernel

theorem lease_exclusive_refused :
    let s := ((orderlyScheduler.play refusedRun [] emptyBucket).get refusedRun_played).2
    Holds s 0 ∧
      (∀ other c t, other ≠ 0 → leaseSystem.Step s (.call other c none) t → ¬ Acquires c s.world) ∧
      ∀ t, ¬ leaseSystem.Step s (.call 0 (.renewed false) none) t := by
  intro s
  have holds : Holds s 0 := by
    have seen : (s.procs 0).map (fun p => ((tenure p).releasing, (tenure p).since,
        (tenure p).ttl, s.world.clock)) = some (false, some 0, 60, 0) := by decide +kernel
    obtain ⟨p, found, same⟩ := Option.map_eq_some_iff.mp seen
    simp only [Prod.mk.injEq] at same
    exact ⟨p, found, same.1, 0, same.2.1, by rw [same.2.2.1, same.2.2.2]; decide⟩
  exact ⟨holds, lease_exclusive (w := ⟨none, 0, 0, 0⟩) (fun _ _ bad => (nomatch bad))
    (orderlyScheduler.trace_of_play refusedRun emptyBucket refusedRun_played) holds⟩

/-! ### Clocks that disagree -/

/-- What `acquire` does where a record lies, when nobody disturbs it: it refuses and leaves the
    record while it is live, and takes it over when it is not. -/
theorem acquire_run (ttlSecs pid : Nat) {w : LeaseWorld} {rec : LeaseRecord} {version : Nat}
    (stored : w.stored = some (.record rec, version)) :
    (rec.isLiveAt w.clock = true →
      (acquire ttlSecs pid).run LeaseCall.exec w =
        (.error (.ofRecord rec (wrappingAge w.clock rec)),
          { w with nextInstance := w.nextInstance + 1 })) ∧
    (rec.isLiveAt w.clock = false →
      ((acquire ttlSecs pid).run LeaseCall.exec w).1 =
        .ok ⟨⟨w.nextInstance, w.clock, w.clock, ttlSecs, pid⟩, false⟩) := by
  obtain ⟨found, nextVersion, nextInstance, clock⟩ := w
  cases stored
  constructor
  · intro live
    simp only [acquire, fetch, onLease, Prog.run_bind, Prog.run_perform, LeaseCall.exec,
      reduceCtorEq, if_false, Bool.false_eq_true, Prog.run_pure, live, if_true, Prog.run_fail]
  · intro stale
    simp only [acquire, fetch, onLease, Prog.run_bind, Prog.run_perform, LeaseCall.exec,
      reduceCtorEq, if_false, Bool.false_eq_true, Prog.run_pure, stale, Option.map_some, if_true]

/-- `acquire` refuses where the record is younger than its time to live, and only takes over one
    that is as old. -/
def RespectsAge (ttlSecs pid : Nat) (w : LeaseWorld) (rec : LeaseRecord) : Prop :=
  (w.clock - rec.renewedAt < rec.ttlSecs →
    (∃ age, ((acquire ttlSecs pid).run LeaseCall.exec w).1 = .error (.ofRecord rec age)) ∧
      ((acquire ttlSecs pid).run LeaseCall.exec w).2.stored = w.stored) ∧
  ((∃ lease, ((acquire ttlSecs pid).run LeaseCall.exec w).1 = .ok lease) →
    rec.ttlSecs ≤ w.clock - rec.renewedAt)

/-- The age of a record is respected, whatever its holder's clock showed, unless it is negative
    and fits an `i64`. -/
theorem acquire_respects_age_iff (ttlSecs pid : Nat) {w : LeaseWorld} {rec : LeaseRecord}
    {version : Nat} (stored : w.stored = some (.record rec, version)) :
    RespectsAge ttlSecs pid w rec ↔
      (0 ≤ w.clock - rec.renewedAt ∨ w.clock - rec.renewedAt < -2 ^ 63) := by
  obtain ⟨refuses, takes⟩ := acquire_run ttlSecs pid stored
  have live_iff : rec.isLiveAt w.clock = true ↔ w.clock - rec.renewedAt < -2 ^ 63 ∨
      2 ^ 63 ≤ w.clock - rec.renewedAt ∨
      0 ≤ w.clock - rec.renewedAt ∧ w.clock - rec.renewedAt < rec.ttlSecs := by
    unfold LeaseRecord.isLiveAt
    grind
  constructor
  · intro respects
    by_contra ahead
    have young : w.clock - rec.renewedAt < rec.ttlSecs := by omega
    have stale : rec.isLiveAt w.clock = false := by
      rw [Bool.eq_false_iff, Ne, live_iff]
      omega
    obtain ⟨⟨age, refused⟩, -⟩ := respects.1 young
    cases (takes stale).symm.trans refused
  · intro known
    cases live : rec.isLiveAt w.clock with
    | true =>
      rw [RespectsAge, refuses live]
      exact ⟨fun _ => ⟨⟨_, rfl⟩, rfl⟩, fun ⟨_, bad⟩ => (nomatch bad)⟩
    | false =>
      have old : rec.ttlSecs ≤ w.clock - rec.renewedAt := by
        rw [Bool.eq_false_iff, Ne, live_iff] at live
        omega
      exact ⟨fun young => absurd young (Int.not_lt.mpr old), fun _ => old⟩

/-- The holder's clock is a second ahead. -/
def aheadRecord : LeaseRecord := ⟨0, 100, 101, 60, 10⟩

def aheadBucket : LeaseWorld := ⟨some (.record aheadRecord, 0), 1, 1, 100⟩

theorem acquire_takes_lease_ahead : ¬ RespectsAge 60 11 aheadBucket aheadRecord := by
  intro respects
  obtain ⟨⟨age, refused⟩, -⟩ := respects.1 (by decide)
  have taken := (acquire_run 60 11 (w := aheadBucket) rfl).2 (by decide)
  cases taken.symm.trans refused

/-- At the end of its time to live a lease is taken over. -/
theorem acquire_respects_age_expired :
    RespectsAge 60 11 { aheadBucket with clock := 161 } aheadRecord :=
  (acquire_respects_age_iff 60 11 rfl).mpr (by decide)

end Lease

end RustApi
