import RustApi.Fs.Uploads

/-!
# Completed bytes

A single-part upload puts its object outside the session lock, between its first read of
the session and the merge. Any number of part uploads, completions and cancels run at
the same time.

## Main results

- `completed_bytes_kept`: in every run in which no session of a committed file is deleted
  while a part upload goes on to put its object, no part upload changes the bytes of a
  completed file.
- `late_put_replaces_bytes`: a run in which one does.
-/

namespace RustApi

open Lib

/-- The record is there and the session is gone. -/
def FsStore.Closed (f : String) (kv : Kv Value) : Prop :=
  FsStore.HasRecord f kv ∧ FsStore.getSession f kv = .ok none

/-- The requests of one upload, once it has been started. -/
def FsOp.Uploads : FsOp → Prop
  | .uploadPart .. | .completeUpload .. | .cancelUpload .. => True
  | _ => False

instance : (op : FsOp) → Decidable op.Uploads
  | .uploadPart .. | .completeUpload .. | .cancelUpload .. => .isTrue trivial
  | .attach .. | .detach .. | .deleteFile .. | .initUpload .. | .sweep => .isFalse id

/-- No session of a committed file is deleted while a part upload that has read the session goes
    on to put its object. -/
def Drained (s : FsPool) : Label Call Error FsOp → Prop
  | .spawn _ op => op.Uploads
  | .call _ (.fs .master (.deleteSession f _)) none => FsStore.HasRecord f s.world.master →
    ∀ pid p, s.procs pid = some p → (uploadOf p).pending ≠ some (objectKey f)
  | _ => True

/-! ### Closed files stay closed -/

theorem objectKey_inj {a b : String} : objectKey a = objectKey b ↔ a = b := by simp [objectKey]

/-- Nobody goes on to put the object of a closed file, and what a request knows about records
    is true. -/
structure Sealed (w : World) (view : Nat → Option (FsOp × Upload)) : Prop where
  locked : Locked w view
  uploads : ∀ pid op st, view pid = some (op, st) → op.Uploads ∧ st.fresh = none
  filed : ∀ pid op st id, view pid = some (op, st) → st.filed = true → st.held = some id →
    FsStore.HasRecord id w.master
  done : ∀ pid op st f, view pid = some (op, st) → st.done = some f → FsStore.Closed f w.master
  pending : ∀ pid op st f, view pid = some (op, st) → FsStore.Closed f w.master →
    st.pending ≠ some (objectKey f)

section Steps

variable {w w' : World} {view : Nat → Option (FsOp × Upload)} {pid : Nat} {op : FsOp}
  {st st' : Upload}

/-- A step after which the closed files are the same, or one more that nobody puts. -/
private theorem Sealed.step (sealed : Sealed w view) (here : view pid = some (op, st))
    (locked : Locked w' (Function.update view pid (some (op, st')))) (fresh : st'.fresh = none)
    (records : ∀ f, FsStore.HasRecord f w.master → FsStore.HasRecord f w'.master)
    (closed : ∀ f, FsStore.Closed f w.master → FsStore.Closed f w'.master)
    (quiet : ∀ f, FsStore.Closed f w'.master → FsStore.Closed f w.master ∨
      ∀ q op₁ st₁, view q = some (op₁, st₁) → st₁.pending ≠ some (objectKey f))
    (filed : ∀ id, st'.filed = true → st'.held = some id → FsStore.HasRecord id w'.master)
    (done : ∀ f, st'.done = some f → FsStore.Closed f w'.master)
    (pending : ∀ f, st'.pending = some (objectKey f) → st.pending = some (objectKey f) ∨
      ¬ FsStore.Closed f w'.master) :
    Sealed w' (Function.update view pid (some (op, st'))) := by
  have unput : ∀ q op₁ st₁ f, view q = some (op₁, st₁) → FsStore.Closed f w'.master →
      st₁.pending ≠ some (objectKey f) := by
    intro q op₁ st₁ f found shut
    rcases quiet f shut with old | none
    · exact sealed.pending q op₁ st₁ f found old
    · exact none q op₁ st₁ found
  refine ⟨locked, ?_, ?_, ?_, ?_⟩
  · intro q op₁ st₁ found
    rcases update_eq_some.mp found with ⟨-, ⟨⟩⟩ | ⟨-, old⟩
    · exact ⟨(sealed.uploads pid op st here).1, fresh⟩
    · exact sealed.uploads q op₁ st₁ old
  · intro q op₁ st₁ id found isFiled held
    rcases update_eq_some.mp found with ⟨-, ⟨⟩⟩ | ⟨-, old⟩
    · exact filed id isFiled held
    · exact records id (sealed.filed q op₁ st₁ id old isFiled held)
  · intro q op₁ st₁ f found isDone
    rcases update_eq_some.mp found with ⟨-, ⟨⟩⟩ | ⟨-, old⟩
    · exact done f isDone
    · exact closed f (sealed.done q op₁ st₁ f old isDone)
  · intro q op₁ st₁ f found shut put
    rcases update_eq_some.mp found with ⟨-, ⟨⟩⟩ | ⟨-, old⟩
    · rcases pending f put with before | opened
      · exact unput pid op st f here shut before
      · exact opened shut
    · exact unput q op₁ st₁ f old shut put

/-- A step that changes no session and no record. -/
private theorem Sealed.quiet (sealed : Sealed w view) (here : view pid = some (op, st))
    (locked : Locked w' (Function.update view pid (some (op, st'))))
    (sessions : ∀ id, FsStore.getSession id w'.master = FsStore.getSession id w.master)
    (files : ∀ f, FsStore.getFile f w'.master = FsStore.getFile f w.master)
    (fresh : st'.fresh = st.fresh)
    (filed : ∀ id, st'.filed = true → st'.held = some id →
      st.filed = true ∧ st.held = some id ∨ FsStore.HasRecord id w.master)
    (done : ∀ f, st'.done = some f → st.done = some f ∨ FsStore.Closed f w.master)
    (pending : ∀ f, st'.pending = some (objectKey f) → st.pending = some (objectKey f) ∨
      ¬ FsStore.Closed f w.master) :
    Sealed w' (Function.update view pid (some (op, st'))) := by
  have records : ∀ f, FsStore.HasRecord f w'.master ↔ FsStore.HasRecord f w.master := by
    intro f
    simp only [FsStore.HasRecord, files]
  have closed : ∀ f, FsStore.Closed f w'.master ↔ FsStore.Closed f w.master := by
    intro f
    simp only [FsStore.Closed, records, sessions]
  refine sealed.step here locked (fresh.trans (sealed.uploads pid op st here).2)
    (fun f => (records f).mpr) (fun f => (closed f).mpr) (fun f shut => .inl ((closed f).mp shut))
    ?_ ?_ ?_
  · intro id isFiled held
    rw [records]
    rcases filed id isFiled held with ⟨before, same⟩ | new
    · exact sealed.filed pid op st id here before same
    · exact new
  · intro f isDone
    rw [closed]
    rcases done f isDone with before | new
    · exact sealed.done pid op st f here before
    · exact new
  · intro f put
    rw [closed]
    exact pending f put

/-- Only a session that is there is saved, so no file loses or gains its closed state. -/
private theorem Sealed.saveSession (sealed : Sealed w view) (here : view pid = some (op, st))
    {row : UploadSession} (allowed : st.MaySave row)
    (locked : Locked { w with master := FsStore.saveSession row w.master }
      (Function.update view pid (some (op,
        if st.held = none then { st with fresh := none } else { st with seen := some row })))) :
    Sealed { w with master := FsStore.saveSession row w.master } (Function.update view pid
      (some (op, if st.held = none then { st with fresh := none }
        else { st with seen := some row }))) := by
  have stale := (sealed.uploads pid op st here).2
  obtain ⟨-, fresh, -⟩ | ⟨s₀, seen, id, -⟩ := allowed
  · -- no init is among the requests, so nobody has an id for a first save
    rw [stale] at fresh
    cases fresh
  obtain ⟨held, -, s₁, present⟩ := sealed.locked.seen pid op st s₀ here seen
  rw [if_neg (by rw [held]; exact Option.some_ne_none _)] at locked ⊢
  have records : ∀ f, FsStore.HasRecord f (FsStore.saveSession row w.master) ↔
      FsStore.HasRecord f w.master := by
    intro f
    simp only [FsStore.HasRecord, FsStore.getFile_saveSession]
  have closed : ∀ f, FsStore.Closed f (FsStore.saveSession row w.master) ↔
      FsStore.Closed f w.master := by
    intro f
    rw [FsStore.Closed, FsStore.Closed, records, FsStore.getSession_saveSession]
    split
    next same =>
      subst same
      rw [id, present]
      simp
    next => exact Iff.rfl
  refine sealed.step here locked stale (fun f => (records f).mpr) (fun f => (closed f).mpr)
    (fun f shut => .inl ((closed f).mp shut)) ?_ ?_ fun f put => .inl put
  · intro id isFiled held
    exact (records id).mpr (sealed.filed pid op st id here isFiled held)
  · intro f isDone
    exact (closed f).mpr (sealed.done pid op st f here isDone)

/-- A session goes, and if its file is committed then the file is closed from now on. -/
private theorem Sealed.deleteSession (sealed : Sealed w view) (here : view pid = some (op, st))
    {id : String} {session : Option UploadSession}
    (allowed : st.held = some id ∨ ∃ s, st.seen = some s ∧ s.id = id)
    (drained : FsStore.HasRecord id w.master →
      ∀ q op₁ st₁, view q = some (op₁, st₁) → st₁.pending ≠ some (objectKey id))
    (locked : Locked { w with master := FsStore.deleteSession id session w.master }
      (Function.update view pid (some (op,
        { st with seen := none, done := if st.filed then some id else st.done })))) :
    Sealed { w with master := FsStore.deleteSession id session w.master } (Function.update view pid
      (some (op, { st with seen := none, done := if st.filed then some id else st.done }))) := by
  have held : st.held = some id := by
    rcases allowed with held | ⟨s, seen, rfl⟩
    · exact held
    · exact (sealed.locked.seen pid op st s here seen).1
  have records : ∀ f, FsStore.HasRecord f (FsStore.deleteSession id session w.master) ↔
      FsStore.HasRecord f w.master := by
    intro f
    simp only [FsStore.HasRecord, FsStore.getFile_deleteSession]
  have closed : ∀ f, FsStore.Closed f (FsStore.deleteSession id session w.master) ↔
      FsStore.HasRecord f w.master ∧ (f = id ∨ FsStore.getSession f w.master = .ok none) := by
    intro f
    rw [FsStore.Closed, records, FsStore.getSession_deleteSession]
    by_cases same : f = id <;> simp [same]
  refine sealed.step here locked (sealed.uploads pid op st here).2 (fun f => (records f).mpr)
    (fun f shut => (closed f).mpr ⟨shut.1, .inr shut.2⟩) ?_ ?_ ?_ fun f put => .inl put
  · intro f shut
    -- the file that is closed now has no put left, and the others were closed before
    obtain ⟨record, rfl | absent⟩ := (closed f).mp shut
    · exact .inr (drained record)
    · exact .inl ⟨record, absent⟩
  · intro id' isFiled held'
    exact (records id').mpr (sealed.filed pid op st id' here isFiled held')
  · intro f isDone
    simp only at isDone
    split at isDone
    next isFiled =>
      cases isDone
      exact (closed id).mpr ⟨sealed.filed pid op st id here isFiled held, .inl rfl⟩
    next =>
      obtain ⟨record, absent⟩ := sealed.done pid op st f here isDone
      exact (closed f).mpr ⟨record, .inr absent⟩

/-- A record is saved while its session is there. -/
private theorem Sealed.saveFile (sealed : Sealed w view) (here : view pid = some (op, st))
    {rec : FileRecord}
    (allowed : st.held = some rec.id ∧ ∃ s, st.seen = some s ∧ rec.s3Key = s.s3Key)
    (locked : Locked { w with master := FsStore.saveFile rec w.master }
      (Function.update view pid (some (op, { st with filed := true })))) :
    Sealed { w with master := FsStore.saveFile rec w.master }
      (Function.update view pid (some (op, { st with filed := true }))) := by
  obtain ⟨held, s, seen, -⟩ := allowed
  obtain ⟨held', -, s₁, present⟩ := sealed.locked.seen pid op st s here seen
  obtain own : rec.id = s.id := Option.some.inj (held.symm.trans held')
  have records : ∀ f, FsStore.HasRecord f w.master →
      FsStore.HasRecord f (FsStore.saveFile rec w.master) := by
    rintro f ⟨rec', found⟩
    by_cases same : rec.id = f
    · exact ⟨rec, (FsStore.getFile_saveFile rec _ f).trans (if_pos same)⟩
    · exact ⟨rec', ((FsStore.getFile_saveFile rec _ f).trans (if_neg same)).trans found⟩
  have closed : ∀ f, FsStore.Closed f w.master →
      FsStore.Closed f (FsStore.saveFile rec w.master) := fun f ⟨record, absent⟩ =>
    ⟨records f record, (FsStore.getSession_saveFile rec _ f).trans absent⟩
  refine sealed.step here locked (sealed.uploads pid op st here).2 records closed ?_ ?_ ?_
    fun f put => .inl put
  · rintro f ⟨⟨rec', found⟩, absent⟩
    rw [FsStore.getSession_saveFile] at absent
    rw [FsStore.getFile_saveFile] at found
    split at found
    next same =>
      -- the session is still there, so this file is not closed yet
      rw [← same, own, present] at absent
      cases absent
    next => exact .inl ⟨⟨rec', found⟩, absent⟩
  · intro id _ held''
    obtain rfl : rec.id = id := Option.some.inj (held.symm.trans held'')
    exact ⟨rec, (FsStore.getFile_saveFile rec _ _).trans (if_pos rfl)⟩
  · intro f isDone
    exact closed f (sealed.done pid op st f here isDone)

private theorem Sealed.same (sealed : Sealed w view) (here : view pid = some (op, st))
    (locked : Locked w (Function.update view pid (some (op, st)))) :
    Sealed w (Function.update view pid (some (op, st))) :=
  sealed.quiet here locked (fun _ => rfl) (fun _ => rfl) rfl
    (fun _ isFiled held => .inl ⟨isFiled, held⟩) (fun _ isDone => .inl isDone) fun _ put => .inl put

/-- A session row was read: without the lock it may lead to a put, under the lock an absent row
    tells that the file is closed. -/
private theorem Sealed.getSession (sealed : Sealed w view) (here : view pid = some (op, st))
    (id : String) (locked : Locked w (Function.update view pid (some (op,
      uploadProtocol.track st (.fs .master (.getSession id)) (FsStore.getSession id w.master))))) :
    Sealed w (Function.update view pid (some (op,
      uploadProtocol.track st (.fs .master (.getSession id))
        (FsStore.getSession id w.master)))) := by
  cases read : FsStore.getSession id w.master with
  | error e =>
    rw [read] at locked
    exact sealed.same here locked
  | ok found =>
    rw [read] at locked
    simp only at locked ⊢
    split at locked
    next held =>
      rw [if_pos held]
      refine sealed.quiet here locked (fun _ => rfl) (fun _ => rfl) rfl
        (fun _ isFiled held => .inl ⟨isFiled, held⟩) (fun f isDone => ?_) fun _ put => .inl put
      simp only at isDone
      split at isDone
      next alone =>
        cases isDone
        exact .inr ⟨sealed.filed pid op st id here alone.2 held, alone.1 ▸ read⟩
      next => exact .inl isDone
    next other =>
      rw [if_neg other]
      split at locked
      next idle =>
        rw [if_pos idle]
        refine sealed.quiet here locked (fun _ => rfl) (fun _ => rfl) rfl
          (fun _ isFiled held => .inl ⟨isFiled, held⟩) (fun _ isDone => .inl isDone)
          fun f put => .inr fun shut => ?_
        -- The object of a session that was just read belongs to no closed file.
        obtain ⟨row, rfl, putOf⟩ := Option.bind_eq_some_iff.mp put
        have key := st.op.putOf_eq_some putOf
        rw [(sealed.locked.own.session id row read).2] at key
        obtain rfl := objectKey_inj.mp key
        rw [shut.2] at read
        cases read
      next busy =>
        rw [if_neg busy]
        exact sealed.same here locked

private theorem Sealed.getFile (sealed : Sealed w view) (here : view pid = some (op, st))
    (f : String) (locked : Locked w (Function.update view pid (some (op,
      uploadProtocol.track st (.fs .master (.getFile f)) (FsStore.getFile f w.master))))) :
    Sealed w (Function.update view pid (some (op,
      uploadProtocol.track st (.fs .master (.getFile f)) (FsStore.getFile f w.master)))) := by
  rcases st.track_getFile f (FsStore.getFile f w.master) with same | ⟨same, held, rec, read⟩
  · rw [same] at locked ⊢
    exact sealed.same here locked
  · rw [same] at locked ⊢
    refine sealed.quiet here locked (fun _ => rfl) (fun _ => rfl) rfl
      (fun id _ held' => .inr ?_) (fun _ isDone => .inl isDone) fun _ put => .inl put
    obtain rfl : f = id := Option.some.inj (held.symm.trans held')
    exact ⟨rec, read⟩

end Steps

private theorem sealed_call {s : FsPool} {pid : Nat} {op : FsOp} {st : Upload} {c : Call}
    (met : Drained s (.call pid c none))
    (here : uploadProtocol.view Upload.start s pid = some (op, st))
    (allowed : uploadProtocol.allowed st c) (enabled : c.enabled s.world)
    (sealed : Sealed s.world (uploadProtocol.view Upload.start s)) :
    Sealed (c.exec s.world).2 (Function.update (uploadProtocol.view Upload.start s) pid
      (some (op, uploadProtocol.track st c (c.exec s.world).1))) := by
  have locked := sealed.locked.call here allowed enabled
  have mine : st.op.Uploads := by
    rw [sealed.locked.op pid op st here]
    exact (sealed.uploads pid op st here).1
  -- The state after a call that teaches nothing about records, sessions and puts.
  have still : ∀ {w' : World} {st' : Upload},
      Locked w' (Function.update (uploadProtocol.view Upload.start s) pid (some (op, st'))) →
      (∀ id, FsStore.getSession id w'.master = FsStore.getSession id s.world.master) →
      (∀ f, FsStore.getFile f w'.master = FsStore.getFile f s.world.master) →
      st'.fresh = st.fresh ∧ st'.done = st.done ∧ (st'.pending = st.pending ∨ st'.pending = none) →
      (st'.filed = true → st.filed = true ∧ st'.held = st.held) →
      Sealed w' (Function.update (uploadProtocol.view Upload.start s) pid (some (op, st'))) := by
    rintro w' st' locked sessions files ⟨fresh, done, pending⟩ filed
    refine sealed.quiet here locked sessions files fresh ?_ ?_ ?_
    · intro id isFiled held
      exact .inl ⟨(filed isFiled).1, (filed isFiled).2 ▸ held⟩
    · intro f isDone
      exact .inl (done ▸ isDone)
    · intro f put
      rcases pending with same | none
      · exact .inl (same ▸ put)
      · rw [none] at put
        cases put
  cases c with
  | fs side c =>
    cases side with
    | replica sub => cases c <;> cases allowed
    | master =>
      cases c with
      | saveSession row => exact sealed.saveSession here allowed locked
      | deleteSession id session =>
        refine sealed.deleteSession here allowed (fun record q op₁ st₁ found => ?_) locked
        obtain ⟨p, at_q, rfl, rfl⟩ := uploadProtocol.view_eq_some.mp found
        exact met record q p at_q
      | saveFile rec => exact sealed.saveFile here allowed.2 locked
      | deleteFile f =>
        rcases allowed with sweep | ⟨g, sub, delete⟩
        · rw [sweep] at mine
          exact mine.elim
        · rw [delete] at mine
          exact mine.elim
      | getSession id => exact sealed.getSession here id locked
      | getFile f => exact sealed.getFile here f locked
      | filesForRow ty rid => cases allowed
      | page cursor => cases allowed
      | getBytes k => cases allowed
      | setBytes k v => cases allowed
      | commit ws => cases allowed
      | _ =>
        exact still locked
          (fun id => FsCall.getSession_exec id ⟨st, allowed⟩ (fun _ bad => nomatch bad)
            fun _ _ bad => nomatch bad)
          (fun f => FsCall.getFile_exec f ⟨st, allowed⟩ (fun _ bad => nomatch bad)
            fun _ bad => nomatch bad) ⟨rfl, rfl, .inl rfl⟩ fun isFiled => ⟨isFiled, rfl⟩
  | s3 c =>
    have master := (S3Call.exec_apart c s.world).1
    have sessions := fun id => congrArg (FsStore.getSession id) master
    have files := fun f => congrArg (FsStore.getFile f) master
    cases c with
    | putObject key body =>
      exact still locked sessions files ⟨rfl, rfl, .inr rfl⟩ fun isFiled => ⟨isFiled, rfl⟩
    | _ => exact still locked sessions files ⟨rfl, rfl, .inl rfl⟩ fun isFiled => ⟨isFiled, rfl⟩
  | wal c =>
    exact still locked (fun _ => rfl) (fun _ => rfl) ⟨rfl, rfl, .inl rfl⟩ fun f => ⟨f, rfl⟩
  | policy c =>
    exact still locked (fun _ => rfl) (fun _ => rfl) ⟨rfl, rfl, .inl rfl⟩ fun f => ⟨f, rfl⟩
  | lock id =>
    exact still locked (fun _ => rfl) (fun _ => rfl) ⟨rfl, rfl, .inl rfl⟩ fun bad => nomatch bad
  | unlock id =>
    exact still locked (fun _ => rfl) (fun _ => rfl) ⟨rfl, rfl, .inl rfl⟩ fun bad => nomatch bad
  | now =>
    exact still locked (fun _ => rfl) (fun _ => rfl) ⟨rfl, rfl, .inl rfl⟩ fun f => ⟨f, rfl⟩
  | uuid =>
    obtain ⟨req, sub, init⟩ := allowed
    rw [init] at mine
    exact mine.elim

private theorem sealed_preserved (bucket : String) :
    (fsSystem bucket).Preserves uploadProtocol Upload.start Drained (fun _ => Sealed) where
  answers c w := c.answered_exec w
  faults _ _ mayFail := Call.answered_fault mayFail
  spawn := by
    intro h s pid op uploads _ sealed
    refine ⟨sealed.locked.spawn, ?_, ?_, ?_, ?_⟩
    · intro q op₁ st₁ found
      rcases update_eq_some.mp found with ⟨-, ⟨⟩⟩ | ⟨-, old⟩
      · exact ⟨uploads, rfl⟩
      · exact sealed.uploads q op₁ st₁ old
    · intro q op₁ st₁ id found isFiled held
      rcases update_eq_some.mp found with ⟨-, ⟨⟩⟩ | ⟨-, old⟩
      · cases held
      · exact sealed.filed q op₁ st₁ id old isFiled held
    · intro q op₁ st₁ f found isDone
      rcases update_eq_some.mp found with ⟨-, ⟨⟩⟩ | ⟨-, old⟩
      · cases isDone
      · exact sealed.done q op₁ st₁ f old isDone
    · intro q op₁ st₁ f found shut
      rcases update_eq_some.mp found with ⟨-, ⟨⟩⟩ | ⟨-, old⟩
      · exact fun put => nomatch put
      · exact sealed.pending q op₁ st₁ f old shut
  env := by
    rintro h s w - around sealed
    have locked := sealed.locked.env around
    obtain ⟨clock, enforcer, -, rfl⟩ := around
    exact ⟨locked, sealed.uploads, sealed.filed, sealed.done, sealed.pending⟩
  call := fun _ _ _ _ _ _ met here allowed enabled sealed =>
    sealed_call met here allowed enabled sealed
  fault := by
    intro h s pid op st c e _ here _ mayFail sealed
    have locked := sealed.locked.fault (e := e) here mayFail
    rcases st.track_error e (Call.answered_fault (e := e) mayFail) with same | same
    · rw [same] at locked ⊢
      exact sealed.same here locked
    · rw [same] at locked ⊢
      exact sealed.quiet here locked (fun _ => rfl) (fun _ => rfl) rfl
        (fun _ isFiled held => .inl ⟨isFiled, held⟩) (fun _ isDone => .inl isDone)
        fun _ put => nomatch put
  drop := fun _ _ _ _ _ _ _ bad _ => nomatch bad

/-! ### Completed files -/

/-- A completion of `f` has returned Ok. -/
def Completed (s : FsPool) (f : String) : Prop :=
  ∃ pid p req sub, s.procs pid = some p ∧ p.op = .completeUpload f req sub ∧
    p.rest.result = some (.ok ())

/-- The step is one of a part upload. -/
def PartUpload (s : FsPool) : Label Call Error FsOp → Prop
  | .call pid _ _ => ∃ p f slot body declared checksum sub, s.procs pid = some p ∧
      p.op = .uploadPart f slot body declared checksum sub
  | _ => False

/-- Requests of the object store that change no object. -/
theorem S3Call.objects_exec {c : S3Call} {w : World} (put : ∀ key body, c ≠ .putObject key body)
    (delete : ∀ key, c ≠ .deleteObject key)
    (complete : ∀ key id parts, c ≠ .completeMultipart key id parts) :
    (c.exec w).2.objects = w.objects := by
  cases c with
  | putObject key body => exact absurd rfl (put key body)
  | deleteObject key => exact absurd rfl (delete key)
  | completeMultipart key id parts => exact absurd rfl (complete key id parts)
  | putPart id idx body =>
    simp only [S3Call.exec]
    split <;> rfl
  | abortMultipart id =>
    simp only [S3Call.exec]
    split <;> rfl
  | recordPart id idx content =>
    simp only [S3Call.exec]
    split <;> rfl
  | removeStateOf bucket key id =>
    simp only [S3Call.exec]
    split
    · rfl
    · split <;> rfl
  | _ => rfl

/-- **Completed bytes are kept**. In every run of part uploads, completions and cancels in which
    no session of a committed file is deleted while a part upload goes on to put its object,
    once a completion of `f` has returned Ok no step of a part upload changes the bytes stored
    under the key of its record. -/
theorem completed_bytes_kept (bucket : String) {w : World} (own : FsStore.OwnKeys w.master)
    {h : List (Label Call Error FsOp)} {s t : FsPool} {l : Label Call Error FsOp}
    (run : (fsSystem bucket).Trace Drained (fsPool w) h s) {f : String} (completed : Completed s f)
    (step : (fsSystem bucket).Step s l t) (part : PartUpload s l) {rec : FileRecord}
    (record : FsStore.getFile f s.world.master = .ok (some rec)) :
    t.world.objects[rec.s3Key]? = s.world.objects[rec.s3Key]? := by
  have start : Sealed w (uploadProtocol.view Upload.start (fsPool w)) :=
    ⟨.start own, fun _ _ _ bad => (nomatch bad), fun _ _ _ _ bad => (nomatch bad),
      fun _ _ _ _ bad => (nomatch bad), fun _ _ _ _ bad => (nomatch bad)⟩
  obtain ⟨obeyed, sealed⟩ := System.invariant_of_trace (fun _ _ op _ => fsOp_conf bucket op)
    (sealed_preserved bucket) run (System.obeyed_of_no_procs _) start
  -- The completion left the record and no session.
  have shut : FsStore.Closed f s.world.master := by
    obtain ⟨q, ⟨op, past, rest⟩, req, sub, at_q, rfl, result⟩ := completed
    have done := obeyed q _ at_q
    cases rest with
    | call c next => cases result
    | ret r =>
      obtain rfl : r = .ok () := Option.some.inj result
      exact sealed.done q _ _ f (uploadProtocol.view_eq_some.mpr ⟨_, at_q, rfl, rfl⟩) done
  have key := (sealed.locked.own.record f rec record).2
  cases step with
  | @call pid op past c next at_call enabled =>
    obtain ⟨p, g, slot, body, declared, checksum, sub, at_pid, isPart⟩ := part
    obtain rfl : _ = p := Option.some.inj (at_call.symm.trans at_pid)
    have here : uploadProtocol.view Upload.start s pid =
        some (op, uploadProtocol.observe (Upload.start op) past) :=
      uploadProtocol.view_eq_some.mpr ⟨_, at_call, rfl, rfl⟩
    have allowed := (obeyed pid _ at_call).1
    have op' := (sealed.locked.op pid _ _ here).trans isPart
    cases c with
    | s3 c =>
      cases c with
      | putObject key' body =>
        have other : key' ≠ rec.s3Key := by
          rintro rfl
          -- a put is allowed only to the key that the request announced
          exact sealed.pending pid _ _ f here shut (key ▸ allowed)
        exact (Kv.get_insert _ _ _ _).trans (if_neg other)
      | deleteObject key' =>
        change Upload.MayDelete _ _ at allowed
        rw [Upload.MayDelete, op'] at allowed
        exact allowed.elim
      | completeMultipart key' id parts =>
        obtain ⟨⟨g', req, sub', complete⟩, -⟩ := allowed
        exact nomatch op'.symm.trans complete
      | _ => exact congrArg (·[rec.s3Key]?) (S3Call.objects_exec (w := s.world)
          (fun _ _ bad => nomatch bad) (fun _ bad => nomatch bad) fun _ _ _ bad => nomatch bad)
    | fs side c => cases side <;> rfl
    | _ => rfl
  | fault at_call mayFail => rfl
  | spawn free => cases part
  | drop at_call mayDrop => cases part
  | env move => cases part

/-! ### Runs -/

/-- Only part uploads, completions and cancels are started. -/
def UploadsOnly (_ : FsPool) : Label Call Error FsOp → Prop
  | .spawn _ op => op.Uploads
  | _ => True

/-- `alice` has started a single-part upload of four bytes. -/
def uploadWorld : World :=
  { World.init (fun _ => "id") with
    master := (∅ : Kv Value).insert (FsStore.sessionKey "f")
      (.session ⟨"f", 4, 4, 1, none, "files/f", "alice", 0, [none], [none]⟩) }

theorem uploadWorld_own : FsStore.OwnKeys uploadWorld.master := by
  refine ⟨fun id s found => ?_, fun f rec found => ?_⟩
  · by_cases same : "f" = id
    · subst same
      cases found
      decide
    · have absent : uploadWorld.master[FsStore.sessionKey id]? = none := by
        simp [uploadWorld, same]
      simp [FsStore.getSession, absent] at found
  · have absent : uploadWorld.master[FsStore.fileKey f]? = none := by
      simp [uploadWorld, (FsStore.fileKey_ne_sessionKey f "f").symm]
    simp [FsStore.getFile, absent] at found

/-- How to follow a schedule of uploads. -/
def uploadsScheduler (bucket : String) : (fsSystem bucket).Scheduler UploadsOnly :=
  worldScheduler
    (fun _ l => match l with
      | .spawn _ op => decide op.Uploads
      | _ => true)
    (by
      rintro s (⟨pid, op⟩ | ⟨pid, c, fault⟩ | pid | -) ok
      · exact of_decide_eq_true (p := op.Uploads) ok
      · trivial
      · trivial
      · trivial)

/-- One upload of the part `body`. -/
def partOf (body : Bytes) : FsOp := .uploadPart "f" 0 [.ok body] none none "alice"

/-- The part is uploaded; a second upload reads the session, and then the first is completed. -/
def completeDuringUpload : List (System.Move Error FsOp) :=
  .spawn 0 (partOf [1, 1, 1, 1]) :: List.replicate 6 (.call 0) ++
    .spawn 1 (partOf [2, 2, 2, 2]) :: .call 1 ::
    .spawn 2 (.completeUpload "f" ⟨"scan.pdf", "application/pdf"⟩ "alice") ::
    List.replicate 9 (.call 2)

private theorem completeDuringUpload_played :
    ((uploadsScheduler "b").play completeDuringUpload [] (fsPool uploadWorld)).isSome = true := by
  decide +kernel

/-- The state in which the completion has returned and the second upload goes on. -/
def lateUpload : FsPool :=
  (((uploadsScheduler "b").play completeDuringUpload [] (fsPool uploadWorld)).get
    completeDuringUpload_played).2

/-- The second upload puts its body over the object of the completed file. -/
theorem late_put_replaces_bytes :
    ¬ ∀ (bucket : String) (w : World) (h : List (Label Call Error FsOp)) (s t : FsPool)
      (l : Label Call Error FsOp) (f : String) (rec : FileRecord), FsStore.OwnKeys w.master →
      (fsSystem bucket).Trace UploadsOnly (fsPool w) h s → Completed s f →
      (fsSystem bucket).Step s l t → PartUpload s l →
      FsStore.getFile f s.world.master = .ok (some rec) →
      t.world.objects[rec.s3Key]? = s.world.objects[rec.s3Key]? := by
  intro claim
  have run := (uploadsScheduler "b").trace_of_play completeDuringUpload _
    completeDuringUpload_played
  have ended : (lateUpload.procs 2).map (fun p => (p.op, p.rest.result)) =
      some (.completeUpload "f" ⟨"scan.pdf", "application/pdf"⟩ "alice", some (.ok ())) := by
    decide +kernel
  obtain ⟨p, at_2, same⟩ := Option.map_eq_some_iff.mp ended
  obtain ⟨op, result⟩ := Prod.mk.inj same
  have uploading : (lateUpload.procs 1).map (·.op) = some (partOf [2, 2, 2, 2]) := by
    decide +kernel
  obtain ⟨q, at_1, isPart⟩ := Option.map_eq_some_iff.mp uploading
  have stored : FsStore.getFile "f" lateUpload.world.master =
      .ok (some ⟨"f", "scan.pdf", "application/pdf", 4, "files/f", "alice", 0⟩) := by decide +kernel
  have moved : ((uploadsScheduler "b").move lateUpload (.call 1)).map
      (fun r => (r.1, r.2.world.objects["files/f"]?)) =
        some (.call 1 (.s3 (.putObject "files/f" [2, 2, 2, 2])) none, some ⟨[2, 2, 2, 2], 0⟩) := by
    decide +kernel
  obtain ⟨⟨l, t⟩, move, same⟩ := Option.map_eq_some_iff.mp moved
  obtain ⟨rfl, after⟩ := Prod.mk.inj same
  have before : lateUpload.world.objects["files/f"]? = some ⟨[1, 1, 1, 1], 0⟩ := by decide +kernel
  -- the last step puts the bytes of the second upload over those that were completed
  have kept := claim "b" uploadWorld _ lateUpload t _ "f" _ uploadWorld_own run
    ⟨2, p, _, _, at_2, op, result⟩ (System.Scheduler.step_of_move move)
    ⟨q, _, _, _, _, _, _, at_1, isPart⟩ stored
  exact absurd (after.symm.trans (kept.trans before)) (by decide)

/-- How to check `Drained` when only the processes `pids` are there. -/
def drainedCheck (pids : List Nat) (s : FsPool) : Label Call Error FsOp → Bool
  | .spawn pid op => decide (pid ∈ pids) && decide op.Uploads
  | .call _ (.fs .master (.deleteSession f _)) none =>
    pids.all fun q => (s.procs q).all fun p => decide ((uploadOf p).pending ≠ some (objectKey f))
  | _ => true

theorem drainedCheck_sound (pids : List Nat) (s : FsPool) (l : Label Call Error FsOp)
    (ok : drainedCheck pids s l = true) : System.Confined pids Drained s l := by
  refine ⟨?_, fun outside => ?_⟩
  · rintro pid op rfl
    exact of_decide_eq_true (Bool.and_eq_true_iff.mp ok).1
  unfold drainedCheck at ok
  split at ok
  next pid op => exact of_decide_eq_true (p := op.Uploads) (Bool.and_eq_true_iff.mp ok).2
  next pid f session =>
    intro _ q p at_q
    by_cases mem : q ∈ pids
    · have here := List.all_eq_true.mp ok q mem
      rw [at_q] at here
      exact of_decide_eq_true here
    · rw [outside q mem] at at_q
      cases at_q
  next spawn delete =>
    unfold Drained
    split
    · exact absurd rfl (spawn _ _)
    · exact absurd rfl (delete _ _ _)
    · trivial

def drainedScheduler (bucket : String) (pids : List Nat) :
    (fsSystem bucket).Scheduler (System.Confined pids Drained) :=
  worldScheduler (drainedCheck pids) (drainedCheck_sound pids)

/-- The part is uploaded and completed, and then another upload reads the session. -/
def uploadThenComplete : List (System.Move Error FsOp) :=
  .spawn 0 (partOf [1, 1, 1, 1]) :: List.replicate 6 (.call 0) ++
    .spawn 2 (.completeUpload "f" ⟨"scan.pdf", "application/pdf"⟩ "alice") ::
    List.replicate 9 (.call 2) ++ [.spawn 1 (partOf [2, 2, 2, 2])]

theorem uploadThenComplete_played :
    ((drainedScheduler "b" [0, 1, 2]).play uploadThenComplete [] (fsPool uploadWorld)).isSome =
      true := by decide +kernel

/-- The state in which the completion has returned before another upload starts. -/
def earlyUpload : FsPool :=
  (((drainedScheduler "b" [0, 1, 2]).play uploadThenComplete [] (fsPool uploadWorld)).get
    uploadThenComplete_played).2

theorem completed_bytes_kept_read :
    ∃ t : FsPool, (fsSystem "b").Step earlyUpload
        (.call 1 (.fs .master (.getSession "f")) none) t ∧
      t.world.objects["files/f"]? = earlyUpload.world.objects["files/f"]? := by
  have run := ((drainedScheduler "b" [0, 1, 2]).trace_of_play uploadThenComplete _
    uploadThenComplete_played).of_confined (fun _ _ => rfl)
  have ended : (earlyUpload.procs 2).map (fun p => (p.op, p.rest.result)) =
      some (.completeUpload "f" ⟨"scan.pdf", "application/pdf"⟩ "alice", some (.ok ())) := by
    decide +kernel
  obtain ⟨p, at_2, same⟩ := Option.map_eq_some_iff.mp ended
  obtain ⟨op, result⟩ := Prod.mk.inj same
  have uploading : (earlyUpload.procs 1).map (·.op) = some (partOf [2, 2, 2, 2]) := by
    decide +kernel
  obtain ⟨q, at_1, isPart⟩ := Option.map_eq_some_iff.mp uploading
  have stored : FsStore.getFile "f" earlyUpload.world.master =
      .ok (some ⟨"f", "scan.pdf", "application/pdf", 4, "files/f", "alice", 0⟩) := by decide +kernel
  have moved : ((drainedScheduler "b" [0, 1, 2]).move earlyUpload (.call 1)).map (·.1) =
      some (.call 1 (.fs .master (.getSession "f")) none) := by decide +kernel
  obtain ⟨⟨l, t⟩, move, rfl⟩ := Option.map_eq_some_iff.mp moved
  have step := System.Scheduler.step_of_move move
  exact ⟨t, step, completed_bytes_kept "b" uploadWorld_own run.1 ⟨2, p, _, _, at_2, op, result⟩
    step ⟨q, _, _, _, _, _, _, at_1, isPart⟩ stored⟩

end RustApi
