import RustApi.Fs.Immutable

/-!
# Expiry against completion

The session pass of a sweep reads an expired session again under its lock and removes
what the upload has stored: the object of a single-part session, the staged parts of a
multipart one. A completion commits the record before it drops the session, so both can
be there at once.

## Main results

- `expiry_spares_files`: in every run in which no sweep meets an expired single-part
  session whose file is committed, expiring a session deletes the object of no file.
- `expiry_destroys_file`: a run in which it does.
-/

namespace RustApi

open Lib

/-- No sweep reads, under its lock, an expired single-part session whose file is committed. -/
def Unfiled (s : FsPool) : Label Call Error FsOp → Prop
  | .call pid (.fs .master (.getSession id)) none => ∀ p, s.procs pid = some p → p.op = .sweep →
    (uploadOf p).held = some id → ∀ row, FsStore.getSession id s.world.master = .ok (some row) →
      row.s3UploadId = none → row.isExpired (uploadOf p).now Gc.ttlSecs = true →
      ¬ FsStore.HasRecord id s.world.master
  | _ => True

/-! ### The lock keeps the file uncommitted -/

/-- The session that a sweep is about to expire by a delete has no record. -/
def Unclaimed (kv : Kv Value) (st : Upload) : Prop :=
  st.op = .sweep → ∀ row, st.seen = some row → row.s3UploadId = none →
    row.isExpired st.now Gc.ttlSecs = true → ¬ FsStore.HasRecord row.id kv

structure Expiring (w : World) (view : Nat → Option (FsOp × Upload)) : Prop where
  locked : Locked w view
  unclaimed : ∀ pid op st, view pid = some (op, st) → Unclaimed w.master st

section Steps

variable {w w' : World} {view : Nat → Option (FsOp × Upload)} {pid : Nat} {op : FsOp}
  {st st' : Upload}

/-- What a request has seen only changes by reading or writing the session row. -/
private theorem Unclaimed.of_same {kv : Kv Value} (before : Unclaimed kv st)
    (op : st'.op = st.op) (now : st'.now = st.now)
    (seen : st'.seen = st.seen ∨ st'.seen = none) : Unclaimed kv st' := by
  intro sweep row found single expired
  rcases seen with same | none
  · exact before (op ▸ sweep) row (same ▸ found) single (now ▸ expired)
  · rw [none] at found
    cases found

private theorem Expiring.step (expiring : Expiring w view)
    (locked : Locked w' (Function.update view pid (some (op, st'))))
    (others : ∀ q op₁ st₁, q ≠ pid → view q = some (op₁, st₁) → Unclaimed w.master st₁ →
      Unclaimed w'.master st₁)
    (mine : Unclaimed w'.master st') :
    Expiring w' (Function.update view pid (some (op, st'))) := by
  refine ⟨locked, fun q op₁ st₁ found => ?_⟩
  rcases update_eq_some.mp found with ⟨-, ⟨⟩⟩ | ⟨other, old⟩
  · exact mine
  · exact others q op₁ st₁ other old (expiring.unclaimed q op₁ st₁ old)

private theorem Unclaimed.mono {kv kv' : Kv Value} (before : Unclaimed kv st)
    (records : ∀ f, FsStore.HasRecord f kv' → FsStore.HasRecord f kv) : Unclaimed kv' st :=
  fun sweep row seen single expired record =>
    before sweep row seen single expired (records _ record)

/-- A step that writes no record. -/
private theorem Expiring.quiet (expiring : Expiring w view)
    (locked : Locked w' (Function.update view pid (some (op, st'))))
    (files : ∀ f, FsStore.getFile f w'.master = FsStore.getFile f w.master)
    (mine : Unclaimed w.master st') :
    Expiring w' (Function.update view pid (some (op, st'))) := by
  have records : ∀ f, FsStore.HasRecord f w'.master → FsStore.HasRecord f w.master :=
    fun f ⟨rec, found⟩ => ⟨rec, (files f).symm.trans found⟩
  exact expiring.step locked (fun _ _ _ _ _ before => before.mono records) (mine.mono records)

/-- A file is committed under the lock of its session, which no sweep holds then. -/
private theorem Expiring.saveFile (expiring : Expiring w view) (here : view pid = some (op, st))
    {rec : FileRecord} (complete : ∃ f req sub, st.op = .completeUpload f req sub)
    (held : st.held = some rec.id)
    (locked : Locked { w with master := FsStore.saveFile rec w.master }
      (Function.update view pid (some (op, { st with filed := true })))) :
    Expiring { w with master := FsStore.saveFile rec w.master }
      (Function.update view pid (some (op, { st with filed := true }))) := by
  refine expiring.step locked ?_ ?_
  · rintro q op₁ st₁ other old before sweep row seen single expired ⟨rec', found⟩
    obtain ⟨heldRow, -⟩ := expiring.locked.seen q op₁ st₁ row old seen
    have apart : rec.id ≠ row.id := by
      intro same
      exact other (expiring.locked.alone q pid op₁ op st₁ st row.id old here heldRow (same ▸ held))
    rw [FsStore.getFile_saveFile, if_neg apart] at found
    exact before sweep row seen single expired ⟨rec', found⟩
  · intro sweep
    obtain ⟨f, req, sub, op'⟩ := complete
    exact nomatch op'.symm.trans sweep

/-- A session is rewritten with the age and the kind it had. -/
private theorem Expiring.saveSession (expiring : Expiring w view) (here : view pid = some (op, st))
    {row : UploadSession} (allowed : st.MaySave row)
    (locked : Locked { w with master := FsStore.saveSession row w.master }
      (Function.update view pid (some (op,
        if st.held = none then { st with fresh := none } else { st with seen := some row })))) :
    Expiring { w with master := FsStore.saveSession row w.master } (Function.update view pid
      (some (op, if st.held = none then { st with fresh := none }
        else { st with seen := some row }))) := by
  have mine := expiring.unclaimed pid op st here
  refine expiring.quiet locked (FsStore.getFile_saveSession row w.master) ?_
  rcases allowed with ⟨idle, -⟩ | ⟨s₀, seen₀, id, -, uploadId, created⟩
  · rw [if_pos idle]
    exact mine.of_same rfl rfl (.inl rfl)
  · obtain ⟨held, -⟩ := expiring.locked.seen pid op st s₀ here seen₀
    rw [if_neg (by rw [held]; exact Option.some_ne_none _)]
    intro sweep row' seen single expired record
    obtain rfl : row = row' := Option.some.inj seen
    refine mine sweep s₀ seen₀ (uploadId ▸ single) ?_ (id ▸ record)
    rwa [UploadSession.isExpired, created] at expired

/-- A sweep reads a session again under its lock. -/
private theorem Expiring.getSession (expiring : Expiring w view) (here : view pid = some (op, st))
    (id : String)
    (met : st.op = .sweep → st.held = some id → ∀ row,
      FsStore.getSession id w.master = .ok (some row) → row.s3UploadId = none →
        row.isExpired st.now Gc.ttlSecs = true → ¬ FsStore.HasRecord id w.master)
    (locked : Locked w (Function.update view pid (some (op,
      uploadProtocol.track st (.fs .master (.getSession id)) (FsStore.getSession id w.master))))) :
    Expiring w (Function.update view pid (some (op,
      uploadProtocol.track st (.fs .master (.getSession id))
        (FsStore.getSession id w.master)))) := by
  have mine := expiring.unclaimed pid op st here
  refine expiring.quiet locked (fun _ => rfl) ?_
  cases read : FsStore.getSession id w.master with
  | error e => exact mine
  | ok found =>
    simp only
    split
    next held =>
      intro sweep row seen single expired
      obtain rfl : found = some row := seen
      obtain ⟨rfl, -⟩ := expiring.locked.own.session id row read
      -- the one read that the condition of the run is about
      exact met sweep held row read single expired
    next =>
      split
      · exact mine.of_same rfl rfl (.inl rfl)
      · exact mine

end Steps

private theorem expiring_call {s : FsPool} {pid : Nat} {op : FsOp} {st : Upload} {c : Call}
    (met : Unfiled s (.call pid c none))
    (here : uploadProtocol.view Upload.start s pid = some (op, st))
    (allowed : uploadProtocol.allowed st c) (enabled : c.enabled s.world)
    (expiring : Expiring s.world (uploadProtocol.view Upload.start s)) :
    Expiring (c.exec s.world).2 (Function.update (uploadProtocol.view Upload.start s) pid
      (some (op, uploadProtocol.track st c (c.exec s.world).1))) := by
  have locked := expiring.locked.call here allowed enabled
  have mine := expiring.unclaimed pid op st here
  cases c with
  | fs side c =>
    cases side with
    | replica sub => cases c <;> cases allowed
    | master =>
      cases c with
      | saveFile rec => exact expiring.saveFile here allowed.1 allowed.2.1 locked
      | saveSession row => exact expiring.saveSession here allowed locked
      | deleteFile f =>
        -- fewer records: what was unclaimed stays so
        have records : ∀ g, FsStore.HasRecord g (FsStore.deleteFile f s.world.master) →
            FsStore.HasRecord g s.world.master := fun g => .of_deleteFile
        exact expiring.step locked (fun _ _ _ _ _ before => before.mono records)
          (mine.mono records)
      | getSession id =>
        refine expiring.getSession here id (fun sweep held => ?_) locked
        obtain ⟨p, at_pid, rfl, rfl⟩ := uploadProtocol.view_eq_some.mp here
        exact met p at_pid ((expiring.locked.op pid _ _ here).symm.trans sweep) held
      | getFile f =>
        refine expiring.quiet locked (fun _ => rfl) ?_
        rcases st.track_getFile f (Call.exec (.fs .master (.getFile f)) s.world).1 with
          same | ⟨same, -⟩
        · rw [same]
          exact mine
        · rw [same]
          exact mine.of_same rfl rfl (.inl rfl)
      | deleteSession id session =>
        exact expiring.quiet locked (FsStore.getFile_deleteSession id session s.world.master)
          (mine.of_same rfl rfl (.inr rfl))
      | filesForRow ty rid => cases allowed
      | page cursor => cases allowed
      | getBytes k => cases allowed
      | setBytes k v => cases allowed
      | commit ws => cases allowed
      | _ =>
        exact expiring.quiet locked (fun f => FsCall.getFile_exec f ⟨st, allowed⟩
          (fun _ bad => nomatch bad) fun _ bad => nomatch bad) (mine.of_same rfl rfl (.inl rfl))
  | s3 c =>
    refine expiring.quiet locked
      (fun f => congrArg (FsStore.getFile f) (S3Call.exec_apart c s.world).1) ?_
    cases c <;> exact mine.of_same rfl rfl (.inl rfl)
  | wal c => exact expiring.quiet locked (fun _ => rfl) (mine.of_same rfl rfl (.inl rfl))
  | policy c =>
    exact expiring.quiet locked (fun _ => rfl) (mine.of_same rfl rfl (.inl rfl))
  | lock id => exact expiring.quiet locked (fun _ => rfl) (mine.of_same rfl rfl (.inr rfl))
  | unlock id =>
    exact expiring.quiet locked (fun _ => rfl) (mine.of_same rfl rfl (.inr rfl))
  | now =>
    refine expiring.quiet locked (fun _ => rfl) ?_
    -- A sweep reads the clock before it takes its first lock.
    intro sweep row seen
    obtain ⟨held, -⟩ := expiring.locked.seen pid op st row here seen
    rw [(allowed sweep).1] at held
    cases held
  | uuid => exact expiring.quiet locked (fun _ => rfl) (mine.of_same rfl rfl (.inl rfl))

private theorem expiring_preserved (bucket : String) :
    (fsSystem bucket).Preserves uploadProtocol Upload.start Unfiled (fun _ => Expiring) where
  answers c w := c.answered_exec w
  faults _ _ mayFail := Call.answered_fault mayFail
  spawn := by
    intro h s pid op _ _ expiring
    exact expiring.step expiring.locked.spawn (fun _ _ _ _ _ before => before)
      fun _ _ seen => nomatch seen
  env := by
    rintro h s w - around expiring
    have locked := expiring.locked.env around
    obtain ⟨clock, enforcer, -, rfl⟩ := around
    exact ⟨locked, expiring.unclaimed⟩
  call := fun _ _ _ _ _ _ met here allowed enabled expiring =>
    expiring_call met here allowed enabled expiring
  fault := by
    intro h s pid op st c e _ here _ mayFail expiring
    have mine := expiring.unclaimed pid op st here
    refine expiring.quiet (expiring.locked.fault (e := e) here mayFail) (fun _ => rfl) ?_
    rcases st.track_error e (Call.answered_fault (e := e) mayFail) with same | same
    · rw [same]
      exact mine
    · rw [same]
      exact mine.of_same rfl rfl (.inl rfl)
  drop := fun _ _ _ _ _ _ _ bad _ => nomatch bad

/-! ### Expiry -/

/-- **Expiry spares files**. In every run of requests and sweeps in which no sweep reads under its
    lock an expired single-part session whose file is committed, a delete of the session pass
    removes the object of no file. -/
theorem expiry_spares_files (bucket : String) {w : World} (own : FsStore.OwnKeys w.master)
    {h : List (Label Call Error FsOp)} {s t : FsPool} {pid : Nat} {key : String}
    {p : Proc Call.Ans Error FsOp}
    (run : (fsSystem bucket).Trace Unfiled (fsPool w) h s)
    (step : (fsSystem bucket).Step s (.call pid (.s3 (.deleteObject key)) none) t)
    (at_pid : s.procs pid = some p) (sweep : p.op = .sweep)
    (expiring : (uploadOf p).held ≠ none) {f : String} {rec : FileRecord}
    (record : FsStore.getFile f s.world.master = .ok (some rec)) : rec.s3Key ≠ key := by
  have start : Expiring w (uploadProtocol.view Upload.start (fsPool w)) :=
    ⟨.start own, fun _ _ _ bad => nomatch bad⟩
  obtain ⟨obeyed, kept⟩ := System.invariant_of_trace (fun _ _ op _ => fsOp_conf bucket op)
    (expiring_preserved bucket) run (System.obeyed_of_no_procs _) start
  cases step with
  | @call _ op past c next at_call enabled =>
    obtain rfl : _ = p := Option.some.inj (at_call.symm.trans at_pid)
    have here : uploadProtocol.view Upload.start s pid =
        some (op, uploadProtocol.observe (Upload.start op) past) :=
      uploadProtocol.view_eq_some.mpr ⟨_, at_call, rfl, rfl⟩
    have allowed := (obeyed pid _ at_call).1
    change Upload.MayDelete _ _ at allowed
    have op' := (kept.locked.op pid _ _ here).trans sweep
    obtain ⟨id, held⟩ := Option.ne_none_iff_exists'.mp expiring
    change Upload.held (uploadProtocol.observe (Upload.start op) past) = some id at held
    rw [Upload.MayDelete, op', held] at allowed
    obtain ⟨row, seen, single, rfl, expired⟩ := allowed
    -- an expired session that the sweep saw has no record, and the key is the one of its id
    have free := kept.unclaimed pid _ _ here op' row seen single expired
    obtain ⟨-, named, -⟩ := kept.locked.seen pid _ _ row here seen
    rintro same
    rw [(kept.locked.own.record f rec record).2, named] at same
    exact free (objectKey_inj.mp same ▸ ⟨rec, record⟩)

/-! ### Runs -/

/-- Only requests on uploads, deletions and sweeps are started. -/
def ExpiryRuns (_ : FsPool) : Label Call Error FsOp → Prop
  | .spawn _ (.attach ..) | .spawn _ (.detach ..) => False
  | _ => True

def expiryScheduler (bucket : String) : (fsSystem bucket).Scheduler ExpiryRuns :=
  worldScheduler
    (fun _ l => match l with
      | .spawn _ (.attach ..) | .spawn _ (.detach ..) => false
      | _ => true)
    (by
      rintro s l ok
      unfold ExpiryRuns
      split <;> simp_all)

/-- The part is uploaded, the completion commits the record and fails to announce it, and after
    the time to live a sweep comes to the session. -/
def failedAnnounce : List (System.Move Error FsOp) :=
  .spawn 0 (partOf [1, 1, 1, 1]) :: List.replicate 6 (.call 0) ++
    .spawn 1 (.completeUpload "f" ⟨"scan.pdf", "application/pdf"⟩ "alice") ::
    List.replicate 5 (.call 1) ++ .fault 1 storeFault :: .call 1 ::
    .env 100000 :: .spawn 2 .sweep :: List.replicate 5 (.call 2)

private theorem failedAnnounce_played :
    ((expiryScheduler "b").play failedAnnounce [] (fsPool uploadWorld)).isSome = true := by
  decide +kernel

/-- The record and the expired session of one file are both there. -/
def filedAndExpired : FsPool :=
  (((expiryScheduler "b").play failedAnnounce [] (fsPool uploadWorld)).get failedAnnounce_played).2

/-- The sweep deletes the only object of a committed file. -/
theorem expiry_destroys_file :
    ¬ ∀ (bucket : String) (w : World) (h : List (Label Call Error FsOp)) (s t : FsPool) (pid : Nat)
      (key : String) (p : Proc Call.Ans Error FsOp) (f : String) (rec : FileRecord),
      FsStore.OwnKeys w.master → (fsSystem bucket).Trace ExpiryRuns (fsPool w) h s →
      (fsSystem bucket).Step s (.call pid (.s3 (.deleteObject key)) none) t →
      s.procs pid = some p → p.op = .sweep → (uploadOf p).held ≠ none →
      FsStore.getFile f s.world.master = .ok (some rec) → rec.s3Key ≠ key := by
  intro claim
  have run := (expiryScheduler "b").trace_of_play failedAnnounce _ failedAnnounce_played
  have sweeps : (filedAndExpired.procs 2).map (fun p => (p.op, (uploadOf p).held)) =
      some (.sweep, some "f") := by decide +kernel
  obtain ⟨p, at_2, same⟩ := Option.map_eq_some_iff.mp sweeps
  obtain ⟨sweep, held⟩ := Prod.mk.inj same
  have moved : ((expiryScheduler "b").move filedAndExpired (.call 2)).map (·.1) =
      some (.call 2 (.s3 (.deleteObject "files/f")) none) := by decide +kernel
  obtain ⟨⟨l, t⟩, move, rfl⟩ := Option.map_eq_some_iff.mp moved
  have stored : FsStore.getFile "f" filedAndExpired.world.master =
      .ok (some ⟨"f", "scan.pdf", "application/pdf", 4, "files/f", "alice", 0⟩) := by decide +kernel
  exact claim "b" uploadWorld _ filedAndExpired t 2 "files/f" p "f" _ uploadWorld_own run
    (System.Scheduler.step_of_move move) at_2 sweep (by rw [held]; exact Option.some_ne_none _)
    stored rfl

/-- `alice` has started an upload and `bob` has a file. -/
def abandonedWorld : World :=
  { uploadWorld with
    master := FsStore.saveFile ⟨"g", "plan.txt", "text/plain", 4, "files/g", "bob", 0⟩
      uploadWorld.master }

theorem abandonedWorld_own : FsStore.OwnKeys abandonedWorld.master := by
  refine ⟨fun id s found => ?_, fun f rec found => ?_⟩
  · exact uploadWorld_own.session id s ((FsStore.getSession_saveFile _ _ id).symm.trans found)
  · rw [show abandonedWorld.master = FsStore.saveFile _ uploadWorld.master from rfl,
      FsStore.getFile_saveFile] at found
    split at found
    next same =>
      cases found
      exact ⟨same, same ▸ (by decide)⟩
    next => exact uploadWorld_own.record f rec found

/-- How to follow a schedule in which no sweep meets a committed file. -/
def unfiledScheduler (bucket : String) : (fsSystem bucket).Scheduler Unfiled :=
  worldScheduler
    (fun s l => match l with
      | .call _ (.fs .master (.getSession id)) none =>
        decide (FsStore.getFile id s.world.master = .ok none)
      | _ => true)
    (by
      rintro s l ok
      unfold Unfiled
      split
      next pid id =>
        have absent := of_decide_eq_true (p := FsStore.getFile id s.world.master = .ok none) ok
        rintro p - - - row - - - ⟨rec, found⟩
        cases absent.symm.trans found
      next => trivial)

/-- A sweep comes to the abandoned upload. -/
def abandonedSweep : List (System.Move Error FsOp) :=
  .env 100000 :: .spawn 2 .sweep :: List.replicate 5 (.call 2)

theorem abandonedSweep_played :
    ((unfiledScheduler "b").play abandonedSweep [] (fsPool abandonedWorld)).isSome = true := by
  decide +kernel

/-- The state in which the sweep deletes the object of the abandoned upload. -/
def abandonedAndExpired : FsPool :=
  (((unfiledScheduler "b").play abandonedSweep [] (fsPool abandonedWorld)).get
    abandonedSweep_played).2

theorem expiry_spares_files_abandoned :
    ∃ t : FsPool, (fsSystem "b").Step abandonedAndExpired
        (.call 2 (.s3 (.deleteObject "files/f")) none) t ∧ "files/g" ≠ "files/f" := by
  have run := (unfiledScheduler "b").trace_of_play abandonedSweep _ abandonedSweep_played
  have sweeps : (abandonedAndExpired.procs 2).map (fun p => (p.op, (uploadOf p).held)) =
      some (.sweep, some "f") := by decide +kernel
  obtain ⟨p, at_2, same⟩ := Option.map_eq_some_iff.mp sweeps
  obtain ⟨sweep, held⟩ := Prod.mk.inj same
  have moved : ((unfiledScheduler "b").move abandonedAndExpired (.call 2)).map (·.1) =
      some (.call 2 (.s3 (.deleteObject "files/f")) none) := by decide +kernel
  obtain ⟨⟨l, t⟩, move, rfl⟩ := Option.map_eq_some_iff.mp moved
  have stored : FsStore.getFile "g" abandonedAndExpired.world.master =
      .ok (some ⟨"g", "plan.txt", "text/plain", 4, "files/g", "bob", 0⟩) := by decide +kernel
  have step := System.Scheduler.step_of_move move
  exact ⟨t, step, expiry_spares_files "b" abandonedWorld_own run step at_2 sweep
    (by rw [held]; exact Option.some_ne_none _) stored⟩

end RustApi
