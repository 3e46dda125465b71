import RustApi.Fs.Ledger

/-!
# Every multipart record has a session

A record holds a live upload of the object store, and only the sessions are ever scanned. The
session is written before the record and deleted together with it, so the one place where a
record could be left alone is the gap between the two writes of an init.

## Main result

- `multipart_reachable`: in every run in which clients name only sessions whose init has
  returned and no init takes as long as the TTL, the session of each record is there.
-/

namespace RustApi

open Lib

/-- An init has returned this id. -/
def Returned (s : FsPool) (f : String) : Prop :=
  ∃ pid p req sub, s.procs pid = some p ∧ p.op = .initUpload req sub ∧
    p.rest.result = some (.ok ()) ∧ (workOf p).file = some f

/-- No init has been at work for the TTL of the session it has stamped. -/
def Prompt (s : FsPool) : Prop :=
  ∀ pid p req sub t, s.procs pid = some p → p.op = .initUpload req sub → p.rest.result = none →
    (workOf p).now = some t → s.world.clock - t < Gc.ttlSecs

/-- Uploads, completions and cancels name a session that an init has returned, and no init is
    slow. -/
def Careful (s : FsPool) (l : Label Call Error FsOp) : Prop :=
  Prompt s ∧ ∀ pid op f, l = .spawn pid op → op ≠ .sweep → op.Names f → Returned s f

/-- An init is done with the session `f`. -/
def Settled (view : Nat → Option (FsOp × Work)) (f : String) : Prop :=
  ∃ pid op st, view pid = some (op, st) ∧ st.saved = true ∧ st.limbo = false ∧ st.file = some f

/-- The session of the upload is there. -/
def Backed (w : World) (u : String) : Prop :=
  ∃ f row, FsStore.getSession f w.master = .ok (some row) ∧ row.s3UploadId = some u

/-- Records have sessions, also those that are about to be written. -/
structure Accounted (w : World) (view : Nat → Option (FsOp × Work)) : Prop where
  drawn : ∀ pid op st, view pid = some (op, st) → st.file ≠ none →
    ∃ req sub, op = .initUpload req sub
  clock : ∀ pid op st t, view pid = some (op, st) → st.now = some t → t ≤ w.clock
  named : ∀ pid op st f, view pid = some (op, st) → op ≠ .sweep → op.Names f → Settled view f
  records : ∀ u, FsStore.loadMultipart u w.master ≠ .ok none → Backed w u
  limbo : ∀ u, InLimbo view u → Backed w u

section Steps

variable {w w' : World} {view : Nat → Option (FsOp × Work)} {pid : Nat} {op : FsOp} {st st' : Work}

theorem Settled.mono {f : String} (settled : Settled view f) (here : view pid = some (op, st))
    (kept : st.saved = true → st.limbo = false →
      st'.saved = true ∧ st'.limbo = false ∧ st'.file = st.file) :
    Settled (Function.update view pid (some (op, st'))) f := by
  obtain ⟨q, op₁, st₁, there, saved, shut, file⟩ := settled
  by_cases mine : q = pid
  · subst mine
    rw [here] at there
    cases there
    obtain ⟨saved', shut', file'⟩ := kept saved shut
    exact ⟨q, op, st', by simp, saved', shut', file'.trans file⟩
  · exact ⟨q, op₁, st₁, by simp [mine, there], saved, shut, file⟩

/-- A step that keeps the sessions, and adds a record only to a session that is there. -/
theorem Accounted.step (accounted : Accounted w view) (here : view pid = some (op, st))
    (clock : w.clock ≤ w'.clock)
    (now : ∀ t, st'.now = some t → st.now = some t ∨ t = w.clock)
    (file : st'.file = none ∨ ∃ req sub, op = .initUpload req sub)
    (kept : st.saved = true → st.limbo = false →
      st'.saved = true ∧ st'.limbo = false ∧ st'.file = st.file)
    (backed : ∀ u, Backed w u →
      Backed w' u ∨ FsStore.loadMultipart u w'.master = .ok none ∧ ¬ InLimbo view u)
    (records : ∀ u, FsStore.loadMultipart u w'.master ≠ .ok none →
      FsStore.loadMultipart u w.master ≠ .ok none ∨ st.limbo = true ∧ st.upload = some u)
    (limbo : ∀ u, st'.limbo = true → st'.upload = some u →
      st.limbo = true ∧ st.upload = some u ∨ Backed w' u) :
    Accounted w' (Function.update view pid (some (op, st'))) := by
  have stays : ∀ u, InLimbo view u → Backed w' u := fun u isOpen =>
    (backed u (accounted.limbo u isOpen)).resolve_right fun gone => gone.2 isOpen
  refine ⟨?_, ?_, ?_, ?_, ?_⟩
  · intro q op₁ st₁ found drew
    rcases update_eq_some.mp found with ⟨-, ⟨⟩⟩ | ⟨-, old⟩
    · exact file.resolve_left drew
    · exact accounted.drawn q op₁ st₁ old drew
  · intro q op₁ st₁ t found read
    rcases update_eq_some.mp found with ⟨rfl, ⟨⟩⟩ | ⟨-, old⟩
    · rcases now t read with before | rfl
      · exact (accounted.clock q op st t here before).trans clock
      · exact clock
    · exact (accounted.clock q op₁ st₁ t old read).trans clock
  · intro q op₁ st₁ f found client names
    refine Settled.mono ?_ here kept
    rcases update_eq_some.mp found with ⟨rfl, ⟨⟩⟩ | ⟨-, old⟩
    · exact accounted.named q op st f here client names
    · exact accounted.named q op₁ st₁ f old client names
  · intro u stored
    rcases records u stored with before | ⟨isOpen, upload⟩
    · exact (backed u (accounted.records u before)).resolve_right fun gone => stored gone.1
    · exact stays u ⟨pid, op, st, here, isOpen, upload⟩
  · rintro u ⟨q, op₁, st₁, found, isOpen, upload⟩
    rcases update_eq_some.mp found with ⟨rfl, ⟨⟩⟩ | ⟨-, old⟩
    · rcases limbo u isOpen upload with ⟨before, same⟩ | there
      · exact stays u ⟨q, op, st, here, before, same⟩
      · exact there
    · exact stays u ⟨q, op₁, st₁, old, isOpen, upload⟩

/-- A step that takes no session away and adds no record. -/
theorem Accounted.still (accounted : Accounted w view) (here : view pid = some (op, st))
    (same : st'.now = st.now ∧ st'.file = st.file ∧ st'.upload = st.upload ∧ st'.saved = st.saved)
    (limbo : st'.limbo = true → st.limbo = true) (clock : w'.clock = w.clock)
    (backed : ∀ u, Backed w u → Backed w' u)
    (records : ∀ u, FsStore.loadMultipart u w.master = .ok none →
      FsStore.loadMultipart u w'.master = .ok none) :
    Accounted w' (Function.update view pid (some (op, st'))) := by
  obtain ⟨now, file, upload, saved⟩ := same
  refine accounted.step here clock.ge (fun t read => .inl (now ▸ read)) ?_ ?_
    (fun u there => .inl (backed u there)) (fun u stored => .inl fun gone => stored (records u gone))
    fun u isOpen drew => .inl ⟨limbo isOpen, upload ▸ drew⟩
  · rw [file]
    exact or_iff_not_imp_left.mpr (accounted.drawn pid op st here)
  · intro wasSaved shut
    refine ⟨saved.trans wasSaved, Bool.eq_false_iff.mpr fun isOpen => ?_, file⟩
    cases shut.symm.trans (limbo isOpen)

/-! ### Writes -/

/-- The session of an init, with its upload. -/
theorem Accounted.openSession (accounted : Accounted w view) (ledger : Ledger w view)
    (here : view pid = some (op, st)) {s : UploadSession} (opens : st.Opens s) :
    Accounted { w with master := FsStore.saveSession s w.master } (Function.update view pid
      (some (op, { st with saved := true, limbo := s.s3UploadId.isSome }))) := by
  obtain ⟨unsaved, file, upload, -⟩ := opens
  have rows := FsStore.getSession_saveSession s w.master
  have loads := FsStore.loadMultipart_saveSession s w.master
  refine accounted.step here le_rfl (fun t read => .inl read) ?_ ?_ ?_
    (fun u stored => .inl fun gone => stored ((loads u).trans gone)) ?_
  · exact .inr (accounted.drawn pid op st here (by rw [file]; exact Option.some_ne_none _))
  · intro saved
    cases unsaved.symm.trans saved
  · rintro u ⟨f, row, found, drew⟩
    obtain ⟨rfl, -⟩ := ledger.sessions f row found
    refine .inl ⟨row.id, row, (rows row.id).trans ((if_neg ?_).trans found), drew⟩
    exact ledger.unused here unsaved file found
  · intro u isOpen drew
    exact .inr ⟨s.id, s, (rows s.id).trans (if_pos rfl), upload.symm.trans drew⟩

/-- The session of a merged part has the same upload. -/
theorem Accounted.mergeSession (accounted : Accounted w view) (ledger : Ledger w view)
    (here : view pid = some (op, st)) {s : UploadSession} (merges : st.Merges s) :
    Accounted { w with master := FsStore.saveSession s w.master } (Function.update view pid
      (some (op, { st with row := some s, read := some s, window := false, merged := true }))) := by
  obtain ⟨s₀, slot, etag, checksum, row, rfl, -⟩ := merges
  obtain ⟨-, -, found₀⟩ := (ledger.knows pid op st here).row s₀ row
  have rows := FsStore.getSession_saveSession (FsEngine.withPart s₀ slot etag checksum) w.master
  have loads := FsStore.loadMultipart_saveSession (FsEngine.withPart s₀ slot etag checksum) w.master
  refine accounted.still here ⟨rfl, rfl, rfl, rfl⟩ id rfl ?_ fun u gone => (loads u).trans gone
  rintro u ⟨f, row, found, drew⟩
  by_cases same : s₀.id = f
  · subst same
    obtain rfl : s₀ = row := Option.some.inj (Except.ok.inj (found₀.symm.trans found))
    exact ⟨s₀.id, _, (rows s₀.id).trans (if_pos rfl), drew⟩
  · exact ⟨f, row, (rows f).trans ((if_neg same).trans found), drew⟩

/-- The first write of a record: the init has saved its session. -/
theorem Accounted.openRecord (accounted : Accounted w view) (here : view pid = some (op, st))
    {m : PersistedMultipart} (isOpen : st.limbo = true) (upload : st.upload = some m.uploadId) :
    Accounted { w with master := FsStore.saveMultipart m w.master } (Function.update view pid
      (some (op, { st with limbo := false }))) := by
  have rows := FsStore.getSession_saveMultipart m w.master
  have loads := FsStore.loadMultipart_saveMultipart m w.master
  refine accounted.step here le_rfl (fun t read => .inl read) ?_ (fun saved _ => ⟨saved, rfl, rfl⟩)
    ?_ ?_ fun u bad => nomatch bad
  · exact or_iff_not_imp_left.mpr (accounted.drawn pid op st here)
  · rintro u ⟨f, row, found, drew⟩
    exact .inl ⟨f, row, (rows f).trans found, drew⟩
  · intro u stored
    by_cases same : m.uploadId = u
    · exact .inr ⟨isOpen, same ▸ upload⟩
    · exact .inl fun gone => stored ((loads u).trans ((if_neg same).trans gone))

/-- A record that was read under the lock is written again. -/
theorem Accounted.mergeRecord (accounted : Accounted w view) (ledger : Ledger w view)
    (here : view pid = some (op, st)) {m : PersistedMultipart} (records : st.Records m) :
    Accounted { w with master := FsStore.saveMultipart m w.master } (Function.update view pid
      (some (op, { st with record := some (some m), window := true }))) := by
  obtain ⟨r, slot, etag, record, rfl, -⟩ := records
  obtain ⟨-, -, t, u₀, -, -, -, found₀⟩ := (ledger.knows pid op st here).record _ record
  obtain ⟨rfl, -⟩ := ledger.records u₀ r found₀
  have rows := FsStore.getSession_saveMultipart
    { r with parts := insertPart r.parts slot etag } w.master
  have loads := FsStore.loadMultipart_saveMultipart
    { r with parts := insertPart r.parts slot etag } w.master
  refine accounted.still here ⟨rfl, rfl, rfl, rfl⟩ id rfl ?_ fun u gone => (loads u).trans ?_
  · rintro u ⟨f, row, found, drew⟩
    exact ⟨f, row, (rows f).trans found, drew⟩
  · refine (if_neg ?_).trans gone
    rintro rfl
    cases found₀.symm.trans gone

/-- A session goes with its record, and no init is about to write that. -/
theorem Accounted.deleteSession (accounted : Accounted w view) (ledger : Ledger w view)
    (here : view pid = some (op, st)) {id : String} {session : Option UploadSession}
    (prompt : ∀ q op₁ st₁ t, view q = some (op₁, st₁) → st₁.limbo = true → st₁.now = some t →
      w.clock - t < Gc.ttlSecs)
    (drops : st.Drops id session) :
    Accounted { w with master := FsStore.deleteSession id session w.master }
      (Function.update view pid (some (op, { st with row := none }))) := by
  obtain ⟨-, touches, rfl, s, row, expired⟩ := drops
  have knows := ledger.knows pid op st here
  have sameOp := ledger.op pid op st here
  obtain ⟨held, read, found₀⟩ := knows.row s row
  obtain rfl : id = s.id := Option.some.inj ((touches.held knows).symm.trans held)
  -- the init of the session has written its record, or will not
  have settled : ∀ u, s.s3UploadId = some u → ¬ InLimbo view u := by
    rintro u upload ⟨q, op₁, st₁, there, isOpen, drew⟩
    obtain ⟨p, op₂, st₂, born, saved, file, upload₂, now⟩ := (ledger.sessions s.id s found₀).2.born
    obtain rfl := ledger.drawn.uploads.alone p q u
      ((fieldBy_of _ born).trans (upload₂.trans upload)) ((fieldBy_of _ there).trans drew)
    rw [there] at born
    cases born
    by_cases sweep : op = .sweep
    · obtain ⟨t, at_t, late⟩ := expired (sameOp.trans sweep)
      have ran := accounted.clock pid op st t here at_t
      have quick := prompt p op₁ st₁ _ there isOpen now
      have slow : t - s.createdAt > Gc.ttlSecs := of_decide_eq_true late
      omega
    · obtain ⟨p', op₃, st₃, returned, -, shut, file₃⟩ :=
        accounted.named pid op st s.id here sweep (sameOp ▸ knows.names s.id held)
      obtain rfl := ledger.drawn.files.alone p' p s.id ((fieldBy_of _ returned).trans file₃)
        ((fieldBy_of _ there).trans file)
      rw [there] at returned
      cases returned
      cases shut.symm.trans isOpen
  have rows := FsStore.getSession_deleteSession s.id st.read w.master
  have loads := FsStore.loadMultipart_deleteSession s.id st.read w.master
  refine accounted.step here le_rfl (fun t read => .inl read) ?_
    (fun saved shut => ⟨saved, shut, rfl⟩) ?_ ?_ fun u isOpen drew => .inl ⟨isOpen, drew⟩
  · exact or_iff_not_imp_left.mpr (accounted.drawn pid op st here)
  · rintro u ⟨f, row, found, drew⟩
    by_cases same : f = s.id
    · subst same
      obtain rfl : s = row := Option.some.inj (Except.ok.inj (found₀.symm.trans found))
      refine .inr ⟨(loads u).trans (if_pos ?_), settled u drew⟩
      simp [read, drew]
    · exact .inl ⟨f, row, (rows f).trans ((if_neg same).trans found), drew⟩
  · intro u stored
    refine .inl fun gone => stored ((loads u).trans ?_)
    split
    · rfl
    · exact gone

end Steps

/-! ### Any call -/

theorem Accounted.mute {w : World} {view : Nat → Option (FsOp × Work)} {pid : Nat} {op : FsOp}
    {st : Work} {c : Call} (accounted : Accounted w view) (here : view pid = some (op, st))
    (mute : c.Mute st.op) :
    Accounted (c.exec w).2 (Function.update view pid
      (some (op, workProtocol.track st c (c.exec w).1))) := by
  obtain ⟨rows, loads⟩ := mute.rows w
  rw [mute.quiet.2]
  refine accounted.still here ⟨rfl, rfl, rfl, rfl⟩ id (mute.clock w) ?_ fun u gone => (loads u).trans gone
  rintro u ⟨f, row, found, drew⟩
  exact ⟨f, row, (rows f).trans found, drew⟩

/-- A step that only learns something. -/
theorem Accounted.learn {w : World} {view : Nat → Option (FsOp × Work)} {pid : Nat} {op : FsOp}
    {st st' : Work} (accounted : Accounted w view) (here : view pid = some (op, st)) {w' : World}
    (same : st'.now = st.now ∧ st'.file = st.file ∧ st'.upload = st.upload ∧ st'.saved = st.saved)
    (limbo : st'.limbo = true → st.limbo = true)
    (apart : w'.master = w.master ∧ w'.clock = w.clock) :
    Accounted w' (Function.update view pid (some (op, st'))) := by
  refine accounted.still here same limbo apart.2 ?_ fun u gone => ?_
  · rintro u ⟨f, row, found, drew⟩
    exact ⟨f, row, apart.1 ▸ found, drew⟩
  · rw [apart.1]
    exact gone

/-- A call on the store writes a row of the caller's own upload, takes rows away, or reads. -/
private theorem Accounted.onMaster {w : World} {view : Nat → Option (FsOp × Work)} {pid : Nat}
    {op : FsOp} {st : Work} {c : FsCall} (accounted : Accounted w view) (ledger : Ledger w view)
    (prompt : ∀ q op₁ st₁ t, view q = some (op₁, st₁) → st₁.limbo = true → st₁.now = some t →
      w.clock - t < Gc.ttlSecs)
    (here : view pid = some (op, st)) (allowed : workProtocol.allowed st (.fs .master c)) :
    Accounted (Call.exec (.fs .master c) w).2 (Function.update view pid
      (some (op, workProtocol.track st (.fs .master c) (Call.exec (.fs .master c) w).1))) := by
  cases c with
  | saveSession s =>
    simp only at allowed
    simp only [Call.exec, FsCall.exec, World.fsStore, World.setFsStore]
    split at allowed
    next idle =>
      rw [if_pos idle]
      exact accounted.openSession ledger here allowed
    next busy =>
      rw [if_neg busy]
      exact accounted.mergeSession ledger here allowed
  | getSession f =>
    change Accounted w (Function.update view pid (some (op, workProtocol.track st
      (.fs .master (.getSession f)) (FsStore.getSession f w.master))))
    cases FsStore.getSession f w.master with
    | error e => exact accounted.learn here ⟨rfl, rfl, rfl, rfl⟩ id ⟨rfl, rfl⟩
    | ok found =>
      simp only
      split <;> exact accounted.learn here ⟨rfl, rfl, rfl, rfl⟩ id ⟨rfl, rfl⟩
  | deleteSession f session => exact accounted.deleteSession ledger here prompt allowed
  | saveMultipart m =>
    simp only at allowed
    simp only [Call.exec, FsCall.exec, World.fsStore, World.setFsStore]
    split at allowed
    next idle =>
      rw [if_pos idle]
      exact accounted.openRecord here allowed.1 allowed.2.1
    next busy =>
      rw [if_neg busy]
      exact accounted.mergeRecord ledger here allowed
  | loadMultipart u =>
    change Accounted w (Function.update view pid (some (op, workProtocol.track st
      (.fs .master (.loadMultipart u)) (FsStore.loadMultipart u w.master))))
    cases FsStore.loadMultipart u w.master with
    | error e => exact accounted.learn here ⟨rfl, rfl, rfl, rfl⟩ id ⟨rfl, rfl⟩
    | ok found =>
      simp only
      split
      · exact accounted.learn here ⟨rfl, rfl, rfl, rfl⟩ id ⟨rfl, rfl⟩
      split <;> exact accounted.learn here ⟨rfl, rfl, rfl, rfl⟩ id ⟨rfl, rfl⟩
  | deleteMultipart u =>
    -- the sessions stay, and a record that was gone stays gone
    refine accounted.still here ⟨rfl, rfl, rfl, rfl⟩ id rfl ?_ fun v gone => ?_
    · rintro v ⟨f, row, found, drew⟩
      exact ⟨f, row, (FsStore.getSession_deleteMultipart u w.master f).trans found, drew⟩
    · refine (FsStore.loadMultipart_deleteMultipart u w.master v).trans ?_
      split
      · rfl
      · exact gone
  | setBytes k v => cases allowed
  | commit ws => cases allowed
  | _ => exact accounted.mute here trivial

/-- An id is drawn by an init that has saved nothing yet. -/
private theorem Accounted.draw {w : World} {view : Nat → Option (FsOp × Work)} {pid : Nat}
    {op : FsOp} {st st' : Work} (accounted : Accounted w view) (ledger : Ledger w view)
    (here : view pid = some (op, st)) (allowed : workProtocol.allowed st .uuid)
    (now : st'.now = st.now) (limbo : st'.limbo = st.limbo) :
    Accounted { w with issued := w.issued + 1 } (Function.update view pid (some (op, st'))) := by
  obtain ⟨unsaved, -, req, sub, init⟩ := allowed
  have shut : st.limbo ≠ true := fun isOpen => by
    cases unsaved.symm.trans ((ledger.knows pid op st here).limbo isOpen).1
  refine accounted.step here le_rfl (fun t read => .inl (now ▸ read))
    (.inr ⟨req, sub, (ledger.op pid op st here).symm.trans init⟩) ?_ (fun u there => .inl there)
    (fun u stored => .inl stored) fun u isOpen => absurd (limbo ▸ isOpen) shut
  intro saved
  cases unsaved.symm.trans saved

private theorem Accounted.call {w : World} {view : Nat → Option (FsOp × Work)} {pid : Nat}
    {op : FsOp} {st : Work} {c : Call} (accounted : Accounted w view) (ledger : Ledger w view)
    (prompt : ∀ q op₁ st₁ t, view q = some (op₁, st₁) → st₁.limbo = true → st₁.now = some t →
      w.clock - t < Gc.ttlSecs)
    (here : view pid = some (op, st)) (allowed : workProtocol.allowed st c) :
    Accounted (c.exec w).2 (Function.update view pid
      (some (op, workProtocol.track st c (c.exec w).1))) := by
  cases c with
  | fs side c =>
    cases side with
    | replica sub => cases allowed
    | master => exact accounted.onMaster ledger prompt here allowed
  | s3 c =>
    cases c with
    | getState u =>
      by_cases idle : st.op.slot = none
      · simp only [Call.exec, S3Call.exec]
        cases w.states[u]? with
        | none =>
          simp only [if_pos idle]
          exact accounted.learn here ⟨rfl, rfl, rfl, rfl⟩ (fun bad => by cases bad) ⟨rfl, rfl⟩
        | some state => exact accounted.learn here ⟨rfl, rfl, rfl, rfl⟩ id ⟨rfl, rfl⟩
      · exact accounted.mute here idle
    | _ => exact accounted.mute here trivial
  | wal c => exact accounted.mute here trivial
  | policy c => exact accounted.mute here trivial
  | lock f => exact accounted.learn here ⟨rfl, rfl, rfl, rfl⟩ id ⟨rfl, rfl⟩
  | unlock f => exact accounted.learn here ⟨rfl, rfl, rfl, rfl⟩ id ⟨rfl, rfl⟩
  | now =>
    refine accounted.step here le_rfl ?_ ?_ (fun saved shut => ⟨saved, shut, rfl⟩)
      (fun u there => .inl there) (fun u stored => .inl stored)
      fun u isOpen drew => .inl ⟨isOpen, drew⟩
    · rintro _ ⟨⟩
      exact .inr rfl
    · exact or_iff_not_imp_left.mpr (accounted.drawn pid op st here)
  | uuid =>
    simp only [Call.exec]
    split <;> exact accounted.draw ledger here allowed rfl rfl

private theorem accounted_preserved (bucket : String) :
    (fsSystem bucket).Preserves workProtocol Work.start
      (fun s l => Careful s l ∧ workProtocol.Obeyed Work.start FsOp.Works s ∧
        Ledger s.world (workProtocol.view Work.start s)) (fun _ => Accounted) where
  answers c w := c.answered_exec w
  faults _ _ mayFail := Call.answered_fault mayFail
  spawn := by
    rintro h s pid op ⟨⟨-, returned⟩, obeyed, -⟩ free ⟨drawn, clock, named, records, limbo⟩
    have others : ∀ q op₁ st₁, workProtocol.view Work.start s q = some (op₁, st₁) →
        Function.update (workProtocol.view Work.start s) pid (some (op, Work.start op)) q =
          some (op₁, st₁) :=
      fun _ _ _ there => update_fresh (workProtocol.view_eq_none.mpr free) there
    have settled : ∀ f, Settled (workProtocol.view Work.start s) f → Settled (Function.update
        (workProtocol.view Work.start s) pid (some (op, Work.start op))) f := by
      rintro f ⟨q, op₁, st₁, there, facts⟩
      exact ⟨q, op₁, st₁, others q op₁ st₁ there, facts⟩
    refine ⟨?_, ?_, ?_, records, ?_⟩
    · intro q op₁ st₁ found drew
      rcases update_eq_some.mp found with ⟨-, ⟨⟩⟩ | ⟨-, old⟩
      · exact absurd rfl drew
      · exact drawn q op₁ st₁ old drew
    · intro q op₁ st₁ t found read
      rcases update_eq_some.mp found with ⟨-, ⟨⟩⟩ | ⟨-, old⟩
      · cases read
      · exact clock q op₁ st₁ t old read
    · intro q op₁ st₁ f found client names
      refine settled f ?_
      rcases update_eq_some.mp found with ⟨-, ⟨⟩⟩ | ⟨-, old⟩
      · obtain ⟨p, ⟨op', past, rest⟩, req, sub, at_p, rfl, result, file⟩ :=
          returned pid op f rfl client names
        have done := obeyed p _ at_p
        cases rest with
        | call c next => cases result
        | ret r =>
          obtain rfl : r = .ok () := Option.some.inj result
          exact ⟨p, _, _, workProtocol.view_eq_some.mpr ⟨_, at_p, rfl, rfl⟩,
            (done.2.2 rfl).2 req sub rfl, done.1, file⟩
      · exact named q op₁ st₁ f old client names
    · rintro u ⟨q, op₁, st₁, found, isOpen, drew⟩
      rcases update_eq_some.mp found with ⟨-, ⟨⟩⟩ | ⟨-, old⟩
      · cases isOpen
      · exact limbo u ⟨q, op₁, st₁, old, isOpen, drew⟩
  env := by
    rintro h s w - ⟨clock, enforcer, later, rfl⟩ ⟨drawn, ran, named, records, limbo⟩
    exact ⟨drawn, fun q op st t there read => (ran q op st t there read).trans later, named,
      records, limbo⟩
  call := by
    rintro h s pid op st c ⟨⟨prompt, -⟩, obeyed, ledger⟩ here allowed - accounted
    refine accounted.call ledger ?_ here allowed
    intro q op₁ st₁ t there isOpen read
    -- who is in limbo is an init that has not returned
    have drew : st₁.file ≠ none := by
      obtain ⟨saved, u, upload, -⟩ := (ledger.knows q op₁ st₁ there).limbo isOpen
      obtain ⟨f, row, found, owns⟩ := accounted.limbo u ⟨q, op₁, st₁, there, isOpen, upload⟩
      obtain ⟨p, op₂, st₂, born, -, file, upload₂, -⟩ := (ledger.sessions f row found).2.born
      obtain rfl := ledger.drawn.uploads.alone p q u
        ((fieldBy_of _ born).trans (upload₂.trans owns)) ((fieldBy_of _ there).trans upload)
      rw [there] at born
      cases born
      rw [file]
      exact Option.some_ne_none _
    obtain ⟨req, sub, rfl⟩ := accounted.drawn q op₁ st₁ there drew
    obtain ⟨⟨op', past, rest⟩, at_q, init, rfl⟩ := workProtocol.view_eq_some.mp there
    refine prompt q _ req sub t at_q init ?_ read
    cases rest with
    | call c next => rfl
    | ret r => cases (obeyed q _ at_q).1.symm.trans isOpen
  fault := by
    rintro h s pid op st c e - here - mayFail accounted
    rcases st.track_fault e mayFail with same | same | same
    · rw [same]
      exact accounted.learn here ⟨rfl, rfl, rfl, rfl⟩ id ⟨rfl, rfl⟩
    · rw [same]
      exact accounted.learn here ⟨rfl, rfl, rfl, rfl⟩ id ⟨rfl, rfl⟩
    · rw [same]
      exact accounted.learn here ⟨rfl, rfl, rfl, rfl⟩ (fun bad => by cases bad) ⟨rfl, rfl⟩
  drop _ _ _ _ _ _ _ mayDrop _ := mayDrop.elim

/-- **Every record is reachable**. In every run from a store without uploads, whatever fails, each
    multipart record row has a session row that names its upload. -/
theorem multipart_reachable {bucket : String} {w : World} (none : FsStore.NoUploads w.master)
    (ids : Function.Injective w.supply) {h : List (Label Call Error FsOp)} {s : FsPool}
    (run : (fsSystem bucket).Trace Careful (fsPool w) h s) {u : String}
    (stored : FsStore.multipartKey u ∈ s.world.master) :
    ∃ row, FsStore.getSession row.id s.world.master = .ok (some row) ∧ row.s3UploadId = some u := by
  have start : Accounted w (workProtocol.view Work.start (fsPool w)) :=
    ⟨fun _ _ _ bad => (nomatch bad), fun _ _ _ _ bad => (nomatch bad),
      fun _ _ _ _ bad => (nomatch bad), fun u stored => absurd (none.loadMultipart u) stored,
      fun _ ⟨_, _, _, bad, _⟩ => (nomatch bad)⟩
  have accounted := (System.invariant_of_trace (fun _ _ op _ => fsOp_works bucket op)
    (accounted_preserved bucket) (run.assume fun _ _ run => ledger_of_trace none ids run)
    (System.obeyed_of_no_procs _) start).2
  obtain ⟨v, value⟩ := Kv.mem_iff_get.mp stored
  obtain ⟨f, row, found, names⟩ := accounted.records u fun gone => by
    cases v <;> simp [FsStore.loadMultipart, value] at gone
  obtain ⟨rfl, -⟩ := (ledger_of_trace none ids run).2.sessions f row found
  exact ⟨row, found, names⟩

/-! ### A run -/

/-- The request is an init that has returned `f`. -/
def returnedBy (f : String) (p : Proc Call.Ans Error FsOp) : Bool :=
  match p.op with
  | .initUpload .. => decide (p.rest.result = some (.ok ())) && decide ((workOf p).file = some f)
  | _ => false

/-- The request is not an init that is at work for the TTL. -/
def promptBy (clock : Int) (p : Proc Call.Ans Error FsOp) : Bool :=
  match p.op, (workOf p).now with
  | .initUpload .., some t => p.rest.result.isSome || decide (clock - t < Gc.ttlSecs)
  | _, _ => true

/-- How to check `Careful` when only the processes `pids` are there. -/
def carefulCheck (pids : List Nat) (s : FsPool) (l : Label Call Error FsOp) : Bool :=
  (pids.all fun q => (s.procs q).all (promptBy s.world.clock)) &&
    match l with
    | .spawn pid op => decide (pid ∈ pids) &&
      match op with
      | .uploadPart f _ _ _ _ _ | .completeUpload f _ _ | .cancelUpload f _ =>
        pids.any fun q => (s.procs q).any (returnedBy f)
      | _ => true
    | _ => true

theorem returned_of_any {pids : List Nat} {s : FsPool} {f : String}
    (found : (pids.any fun q => (s.procs q).any (returnedBy f)) = true) : Returned s f := by
  obtain ⟨q, -, here⟩ := List.any_eq_true.mp found
  obtain ⟨⟨op, past, rest⟩, at_q, returned⟩ := (Option.any_eq_true _ _).mp here
  cases op with
  | initUpload req sub =>
    obtain ⟨result, file⟩ := Bool.and_eq_true_iff.mp returned
    exact ⟨q, _, req, sub, at_q, rfl, of_decide_eq_true result, of_decide_eq_true file⟩
  | _ => cases returned

theorem carefulCheck_sound (pids : List Nat) (s : FsPool) (l : Label Call Error FsOp)
    (ok : carefulCheck pids s l = true) : System.Confined pids Careful s l := by
  obtain ⟨prompt, spawns⟩ := Bool.and_eq_true_iff.mp ok
  refine ⟨?_, fun outside => ⟨?_, ?_⟩⟩
  · rintro pid op rfl
    exact of_decide_eq_true (Bool.and_eq_true_iff.mp spawns).1
  · rintro q ⟨op, past, rest⟩ req sub t at_q rfl running read
    by_cases mem : q ∈ pids
    · have here := List.all_eq_true.mp prompt q mem
      rw [at_q] at here
      have here' : promptBy s.world.clock ⟨.initUpload req sub, past, rest⟩ = true := here
      simp only [promptBy, read, running] at here'
      simpa using here'
    · rw [outside q mem] at at_q
      cases at_q
  · rintro pid op f rfl client names
    have named := (Bool.and_eq_true_iff.mp spawns).2
    cases op with
    | uploadPart g slot body declared checksum sub =>
      obtain rfl : f = g := names
      exact returned_of_any named
    | completeUpload g req sub =>
      obtain rfl : f = g := names
      exact returned_of_any named
    | cancelUpload g sub =>
      obtain rfl : f = g := names
      exact returned_of_any named
    | sweep => exact absurd rfl client
    | _ => cases names

def carefulScheduler (bucket : String) (pids : List Nat) :
    (fsSystem bucket).Scheduler (System.Confined pids Careful) :=
  worldScheduler (carefulCheck pids) (carefulCheck_sound pids)

/-- `alice` starts an upload in two parts and uploads the second one; a later sweep looks at it. -/
def sweptUpload : List (System.Move Error FsOp) :=
  .spawn 0 (.initUpload ⟨1025, 1024, 2⟩ "alice") :: List.replicate 8 (.call 0) ++
    .spawn 1 (.uploadPart "ii" 1 [.ok [7]] none none "alice") :: List.replicate 12 (.call 1) ++
      .env 3600 :: .spawn 2 .sweep :: List.replicate 6 (.call 2)

theorem sweptUpload_played : ((carefulScheduler "b" [0, 1, 2]).play sweptUpload []
    (fsPool (World.init longIds))).isSome = true := by
  decide +kernel

theorem multipart_reachable_swept : ∃ row, FsStore.getSession row.id
    (((carefulScheduler "b" [0, 1, 2]).play sweptUpload [] (fsPool (World.init longIds))).get
      sweptUpload_played).2.world.master = .ok (some row) ∧ row.s3UploadId = some "ostore-iiii" := by
  have run := (((carefulScheduler "b" [0, 1, 2]).trace_of_play sweptUpload _
    sweptUpload_played).of_confined fun _ _ => rfl).1
  exact multipart_reachable FsStore.noUploads_empty longIds_injective run (by decide +kernel)

end RustApi
