import RustApi.Fs.Sessions
import RustApi.Lib.Locks

/-!
# Whose rows they are

Every session row belongs to the one init that wrote it first, and after it only a holder of
its lock writes it. A multipart record is written first by the init of its session and then
under the lock of that session. So what a request has read under the lock stays true as long
as it holds the lock.

## Main result

`ledger_of_trace`: in every state of every run from an empty store the requests know what is
there (`Ledger`).
-/

namespace RustApi

open Lib

/-- What each request has in one of its fields. -/
def fieldBy (field : Work → Option String) (view : Nat → Option (FsOp × Work)) (pid : Nat) :
    Option String :=
  (view pid).bind fun p => field p.2

/-- The lock that each request holds. -/
abbrev heldBy (view : Nat → Option (FsOp × Work)) : Nat → Option String := fieldBy Work.held view

/-- An init has saved a session with these values. -/
def Born (view : Nat → Option (FsOp × Work)) (f : String) (u : Option String) (t : Int) : Prop :=
  ∃ pid op st, view pid = some (op, st) ∧ st.saved = true ∧ st.file = some f ∧ st.upload = u ∧
    st.now = some t

/-- A row of a session that an init has saved. -/
structure Original (view : Nat → Option (FsOp × Work)) (s : UploadSession) : Prop where
  born : Born view s.id s.s3UploadId s.createdAt
  single : s.fileTotalParts = 1 → s.s3UploadId = none

/-- An init is about to write the record of this upload. -/
def InLimbo (view : Nat → Option (FsOp × Work)) (u : String) : Prop :=
  ∃ pid op st, view pid = some (op, st) ∧ st.limbo = true ∧ st.upload = some u

/-- Names that are made of issued ids, each of them for one request. -/
structure Issued (w : World) (mark : String → String) (names : Nat → Option String) : Prop where
  issued : ∀ pid a, names pid = some a → ∃ n < w.issued, mark (w.supply n) = a
  alone : ∀ p q a, names p = some a → names q = some a → p = q

/-- The ids that the inits have drawn. -/
structure Drawn (w : World) (view : Nat → Option (FsOp × Work)) : Prop where
  distinct : Function.Injective w.supply
  files : Issued w id (fieldBy Work.file view)
  uploads : Issued w ("ostore-" ++ ·) (fieldBy Work.upload view)

/-- What one request knows is true. -/
structure Work.Knows (w : World) (view : Nat → Option (FsOp × Work)) (st : Work) : Prop where
  names : ∀ id, st.held = some id → st.op.Names id
  target : ∀ t, st.target = some t → st.op.Names t.id ∧ Original view t
  ensured : st.ensured = true →
    ∃ t u, st.target = some t ∧ t.s3UploadId = some u ∧ ¬ InLimbo view u
  row : ∀ s, st.row = some s → st.held = some s.id ∧ st.read = some s ∧
    FsStore.getSession s.id w.master = .ok (some s)
  record : ∀ r, st.record = some r → st.op.slot ≠ none ∧ st.ensured = true ∧ ∃ t u,
    st.target = some t ∧ st.held = some t.id ∧ t.s3UploadId = some u ∧
      FsStore.loadMultipart u w.master = .ok r
  limbo : st.limbo = true → st.saved = true ∧ ∃ u, st.upload = some u ∧
    ∀ m, FsStore.loadMultipart u w.master ≠ .ok (some m)

/-- The rows belong to inits, and every request knows what is there. -/
structure Ledger (w : World) (view : Nat → Option (FsOp × Work)) : Prop where
  op : ∀ pid op st, view pid = some (op, st) → st.op = op
  drawn : Drawn w view
  holding : Holding w.locks (heldBy view)
  sessions : ∀ id s, FsStore.getSession id w.master = .ok (some s) → s.id = id ∧ Original view s
  records : ∀ u m, FsStore.loadMultipart u w.master = .ok (some m) → m.uploadId = u ∧
    ∃ pid op st, view pid = some (op, st) ∧ st.saved = true ∧ st.upload = some u
  knows : ∀ pid op st, view pid = some (op, st) → Work.Knows w view st

/-! ### Ids -/

section Ids

variable {w w' : World} {view : Nat → Option (FsOp × Work)} {pid : Nat} {op : FsOp} {st st' : Work}

theorem fieldBy_of (field : Work → Option String) (here : view pid = some (op, st)) :
    fieldBy field view pid = field st := by
  simp [fieldBy, here]

theorem fieldBy_update (field : Work → Option String) :
    fieldBy field (Function.update view pid (some (op, st'))) =
      Function.update (fieldBy field view) pid (field st') := by
  funext q
  by_cases same : q = pid
  · subst same
    simp [fieldBy]
  · simp [fieldBy, same]

theorem fieldBy_still {field : Work → Option String} (here : view pid = some (op, st))
    (same : field st' = field st) :
    fieldBy field (Function.update view pid (some (op, st'))) = fieldBy field view := by
  rw [fieldBy_update, same, ← fieldBy_of field here, Function.update_eq_self]

theorem Issued.later {mark : String → String} {names : Nat → Option String}
    (issued : Issued w mark names) (ids : w'.supply = w.supply ∧ w.issued ≤ w'.issued) :
    Issued w' mark names := by
  refine ⟨fun q a named => ?_, issued.alone⟩
  obtain ⟨n, lt, rfl⟩ := issued.issued q a named
  exact ⟨n, lt.trans_le ids.2, by rw [ids.1]⟩

/-- A fresh id makes a new name. -/
theorem Issued.draw {mark : String → String} {names : Nat → Option String}
    (issued : Issued w mark names) (distinct : Function.Injective w.supply)
    (marks : Function.Injective mark) (pid : Nat) :
    Issued { w with issued := w.issued + 1 } mark
      (Function.update names pid (some (mark (w.supply w.issued)))) := by
  have new : ∀ q, names q ≠ some (mark (w.supply w.issued)) := by
    intro q named
    obtain ⟨n, lt, same⟩ := issued.issued q _ named
    exact lt.ne (distinct (marks same))
  constructor
  · intro q a named
    rcases update_eq_some.mp named with ⟨-, rfl⟩ | ⟨-, named⟩
    · exact ⟨w.issued, Nat.lt_succ_self _, rfl⟩
    · obtain ⟨n, lt, rfl⟩ := issued.issued q a named
      exact ⟨n, lt.trans (Nat.lt_succ_self _), rfl⟩
  · intro p q a named named'
    rcases update_eq_some.mp named with ⟨mine, rfl⟩ | ⟨-, old⟩
    · rcases update_eq_some.mp named' with ⟨mine', -⟩ | ⟨-, old'⟩
      · exact mine.trans mine'.symm
      · exact absurd old' (new q)
    · rcases update_eq_some.mp named' with ⟨-, rfl⟩ | ⟨-, old'⟩
      · exact absurd old (new p)
      · exact issued.alone p q a old old'

theorem Issued.still {mark : String → String} {field : Work → Option String}
    (issued : Issued w mark (fieldBy field view)) (here : view pid = some (op, st))
    (same : field st' = field st) :
    Issued w mark (fieldBy field (Function.update view pid (some (op, st')))) := by
  rwa [fieldBy_still here same]

theorem Drawn.still (drawn : Drawn w view) (here : view pid = some (op, st))
    (same : st'.file = st.file ∧ st'.upload = st.upload)
    (ids : w'.supply = w.supply ∧ w.issued ≤ w'.issued) :
    Drawn w' (Function.update view pid (some (op, st'))) :=
  ⟨ids.1 ▸ drawn.distinct, (drawn.files.later ids).still here same.1,
    (drawn.uploads.later ids).still here same.2⟩

/-- A session id tells the upload. -/
theorem Drawn.same_upload (drawn : Drawn w view) {f : String} {u v : Option String} {t t' : Int}
    (one : Born view f u t) (other : Born view f v t') : u = v ∧ t = t' := by
  obtain ⟨p, op₁, st₁, here, -, file, rfl, now⟩ := one
  obtain ⟨q, op₂, st₂, there, -, file', rfl, now'⟩ := other
  obtain rfl := drawn.files.alone p q f ((fieldBy_of _ here).trans file)
    ((fieldBy_of _ there).trans file')
  rw [here] at there
  cases there
  exact ⟨rfl, Option.some.inj (now.symm.trans now')⟩

/-- An upload tells the session id. -/
theorem Drawn.same_file (drawn : Drawn w view) {f g u : String} {t t' : Int}
    (one : Born view f (some u) t) (other : Born view g (some u) t') : f = g := by
  obtain ⟨p, op₁, st₁, here, -, file, upload, -⟩ := one
  obtain ⟨q, op₂, st₂, there, -, file', upload', -⟩ := other
  obtain rfl := drawn.uploads.alone p q u ((fieldBy_of _ here).trans upload)
    ((fieldBy_of _ there).trans upload')
  rw [here] at there
  cases there
  exact Option.some.inj (file.symm.trans file')

end Ids

/-! ### One step -/

section Steps

variable {w w' : World} {view : Nat → Option (FsOp × Work)} {pid : Nat} {op : FsOp} {st st' : Work}

/-- What an init has saved stays so. -/
def Work.Keeps (st st' : Work) : Prop :=
  st.saved = true → st'.saved = true ∧ st'.file = st.file ∧ st'.upload = st.upload ∧
    st'.now = st.now

theorem Born.mono {f : String} {u : Option String} {t : Int} (here : view pid = some (op, st))
    (kept : st.Keeps st') (born : Born view f u t) :
    Born (Function.update view pid (some (op, st'))) f u t := by
  obtain ⟨q, op₁, st₁, there, saved, file, upload, now⟩ := born
  by_cases same : q = pid
  · subst same
    rw [here] at there
    cases there
    obtain ⟨saved', file', upload', now'⟩ := kept saved
    exact ⟨q, op, st', by simp, saved', file'.trans file, upload'.trans upload, now'.trans now⟩
  · exact ⟨q, op₁, st₁, by simp [same, there], saved, file, upload, now⟩

theorem Original.mono {s : UploadSession} (here : view pid = some (op, st))
    (kept : st.Keeps st') (original : Original view s) :
    Original (Function.update view pid (some (op, st'))) s :=
  ⟨original.born.mono here kept, original.single⟩

/-- An upload whose session is there does not get into limbo again. -/
theorem Drawn.settled (drawn : Drawn w' (Function.update view pid (some (op, st'))))
    (here : view pid = some (op, st))
    (limbo : ∀ u, st'.limbo = true → st'.upload = some u →
      st.limbo = true ∧ st.upload = some u ∨ st.saved = false) {t : UploadSession} {u : String}
    (original : Original view t) (upload : t.s3UploadId = some u) (settled : ¬ InLimbo view u) :
    ¬ InLimbo (Function.update view pid (some (op, st'))) u := by
  rintro ⟨q, op₁, st₁, there, open', upload₁⟩
  rcases update_eq_some.mp there with ⟨rfl, ⟨⟩⟩ | ⟨-, there⟩
  · rcases limbo u open' upload₁ with ⟨before, mine⟩ | unsaved
    · exact settled ⟨q, op, st, here, before, mine⟩
    · -- the upload of a saved session was drawn by its own init
      obtain ⟨p, op₂, st₂, born, saved, -, upload₂, -⟩ := original.born
      have away : p ≠ q := by
        rintro rfl
        rw [here] at born
        cases born
        rw [unsaved] at saved
        cases saved
      have there' : Function.update view q (some (op, st')) p = some (op₂, st₂) := by
        simp [away, born]
      exact away (drawn.uploads.alone p q u ((fieldBy_of _ there').trans (upload₂.trans upload))
        ((fieldBy_of _ there).trans upload₁))
  · exact settled ⟨q, op₁, st₁, there, open', upload₁⟩

/-- A step of `pid`: what the others know stays true when the step changes only rows that `pid`
    has locked, or that nobody has seen, and what `pid` knows is shown anew. -/
theorem Ledger.step (ledger : Ledger w view) (here : view pid = some (op, st))
    (same : st'.op = st.op) (drawn : Drawn w' (Function.update view pid (some (op, st'))))
    (holding : Holding w'.locks (heldBy (Function.update view pid (some (op, st')))))
    (kept : st.Keeps st')
    (limbo : ∀ u, st'.limbo = true → st'.upload = some u →
      st.limbo = true ∧ st.upload = some u ∨ st.saved = false)
    (rows : ∀ s, FsStore.getSession s.id w.master = .ok (some s) → st.held ≠ some s.id →
      FsStore.getSession s.id w'.master = .ok (some s))
    (loads : ∀ t u, Original view t → t.s3UploadId = some u → ¬ InLimbo view u →
      st.held ≠ some t.id → FsStore.loadMultipart u w'.master = FsStore.loadMultipart u w.master)
    (unwritten : ∀ q op₁ st₁ u, q ≠ pid → view q = some (op₁, st₁) → st₁.limbo = true →
      st₁.upload = some u → ∀ m, FsStore.loadMultipart u w'.master = .ok (some m) →
      FsStore.loadMultipart u w.master = .ok (some m))
    (sessions : ∀ id s, FsStore.getSession id w'.master = .ok (some s) → s.id = id ∧
      Original (Function.update view pid (some (op, st'))) s)
    (records : ∀ u m, FsStore.loadMultipart u w'.master = .ok (some m) → m.uploadId = u ∧
      ∃ q op₁ st₁, Function.update view pid (some (op, st')) q = some (op₁, st₁) ∧
        st₁.saved = true ∧ st₁.upload = some u)
    (own : Work.Knows w' (Function.update view pid (some (op, st'))) st') :
    Ledger w' (Function.update view pid (some (op, st'))) := by
  refine ⟨?_, drawn, holding, sessions, records, ?_⟩
  · intro q op₁ st₁ found
    rcases update_eq_some.mp found with ⟨rfl, ⟨⟩⟩ | ⟨-, old⟩
    · exact same.trans (ledger.op q op st here)
    · exact ledger.op q op₁ st₁ old
  intro q op₁ st₁ found
  rcases update_eq_some.mp found with ⟨-, ⟨⟩⟩ | ⟨other, old⟩
  · exact own
  have knows := ledger.knows q op₁ st₁ old
  -- the lock of another request is not the one that `pid` holds
  have apart : ∀ id, st₁.held = some id → st.held ≠ some id := by
    intro id held mine
    exact other (ledger.holding.alone q pid id ((fieldBy_of _ old).trans held)
      ((fieldBy_of _ here).trans mine))
  refine ⟨knows.names, ?_, ?_, ?_, ?_, ?_⟩
  · intro t target
    obtain ⟨names, original⟩ := knows.target t target
    exact ⟨names, original.mono here kept⟩
  · intro ensured
    obtain ⟨t, u, target, upload, settled⟩ := knows.ensured ensured
    exact ⟨t, u, target, upload,
      drawn.settled here limbo (knows.target t target).2 upload settled⟩
  · intro s row
    obtain ⟨held, read, found⟩ := knows.row s row
    exact ⟨held, read, rows s found (apart s.id held)⟩
  · intro r record
    obtain ⟨slot, ensured, t, u, target, held, upload, found⟩ := knows.record r record
    obtain ⟨t', u', target', upload', settled⟩ := knows.ensured ensured
    obtain rfl := Option.some.inj (target.symm.trans target')
    obtain rfl := Option.some.inj (upload.symm.trans upload')
    refine ⟨slot, ensured, t, u, target, held, upload, Eq.trans ?_ found⟩
    exact loads t u (knows.target t target).2 upload settled (apart t.id held)
  · intro open'
    obtain ⟨saved, u, upload, absent⟩ := knows.limbo open'
    exact ⟨saved, u, upload, fun m written =>
      absent m (unwritten q op₁ st₁ u other old open' upload m written)⟩

/-- A step that writes no session row and no multipart record. -/
theorem Ledger.still (ledger : Ledger w view) (here : view pid = some (op, st))
    (same : st'.op = st.op) (drawn : Drawn w' (Function.update view pid (some (op, st'))))
    (holding : Holding w'.locks (heldBy (Function.update view pid (some (op, st')))))
    (kept : st.Keeps st')
    (limbo : st'.limbo = true → st.limbo = true ∧ st'.upload = st.upload)
    (rows : ∀ id, FsStore.getSession id w'.master = FsStore.getSession id w.master)
    (loads : ∀ u, FsStore.loadMultipart u w'.master = FsStore.loadMultipart u w.master)
    (own : Work.Knows w view st') : Ledger w' (Function.update view pid (some (op, st'))) := by
  have inLimbo : ∀ u, InLimbo (Function.update view pid (some (op, st'))) u → InLimbo view u := by
    rintro u ⟨q, op₁, st₁, found, open', upload⟩
    rcases update_eq_some.mp found with ⟨rfl, ⟨⟩⟩ | ⟨-, old⟩
    · obtain ⟨before, upload'⟩ := limbo open'
      exact ⟨q, op, st, here, before, upload' ▸ upload⟩
    · exact ⟨q, op₁, st₁, old, open', upload⟩
  refine ledger.step here same drawn holding kept ?_ ?_ (fun _ u _ _ _ _ => loads u) ?_ ?_ ?_ ?_
  · intro u open' upload
    obtain ⟨before, upload'⟩ := limbo open'
    exact .inl ⟨before, upload' ▸ upload⟩
  · intro s found _
    rw [rows]
    exact found
  · intro _ _ _ u _ _ _ _ m written
    rwa [loads] at written
  · intro id s found
    rw [rows] at found
    obtain ⟨own, original⟩ := ledger.sessions id s found
    exact ⟨own, original.mono here kept⟩
  · intro u m found
    rw [loads] at found
    obtain ⟨own, q, op₁, st₁, there, saved, upload⟩ := ledger.records u m found
    refine ⟨own, ?_⟩
    by_cases mine : q = pid
    · subst mine
      rw [here] at there
      cases there
      obtain ⟨saved', -, upload', -⟩ := kept saved
      exact ⟨q, op, st', by simp, saved', upload'.trans upload⟩
    · exact ⟨q, op₁, st₁, by simp [mine, there], saved, upload⟩
  · refine ⟨own.names, ?_, ?_, ?_, ?_, ?_⟩
    · intro t target
      obtain ⟨names, original⟩ := own.target t target
      exact ⟨names, original.mono here kept⟩
    · intro ensured
      obtain ⟨t, u, target, upload, settled⟩ := own.ensured ensured
      exact ⟨t, u, target, upload, fun open' => settled (inLimbo u open')⟩
    · intro s row
      obtain ⟨held, read, found⟩ := own.row s row
      exact ⟨held, read, (rows s.id).trans found⟩
    · intro r record
      obtain ⟨slot, ensured, t, u, target, held, upload, found⟩ := own.record r record
      exact ⟨slot, ensured, t, u, target, held, upload, (loads u).trans found⟩
    · intro open'
      obtain ⟨saved, u, upload, absent⟩ := own.limbo open'
      exact ⟨saved, u, upload, fun m found => absent m ((loads u).symm.trans found)⟩

/-- A call that changes nothing that is known. -/
theorem Ledger.quiet (ledger : Ledger w view) (here : view pid = some (op, st))
    (ids : w'.supply = w.supply ∧ w.issued ≤ w'.issued) (locks : w'.locks = w.locks)
    (rows : ∀ id, FsStore.getSession id w'.master = FsStore.getSession id w.master)
    (loads : ∀ u, FsStore.loadMultipart u w'.master = FsStore.loadMultipart u w.master) :
    Ledger w' (Function.update view pid (some (op, st))) :=
  ledger.still here rfl (ledger.drawn.still here ⟨rfl, rfl⟩ ids)
    (by rw [locks, heldBy, fieldBy_still here rfl]; exact ledger.holding) (fun saved => ⟨saved, rfl, rfl, rfl⟩)
    (fun open' => ⟨open', rfl⟩) rows loads (ledger.knows pid op st here)

theorem Ledger.lock (ledger : Ledger w view) (here : view pid = some (op, st)) {id : String}
    (names : st.op.Names id) (free : id ∉ w.locks) :
    Ledger { w with locks := id :: w.locks } (Function.update view pid (some (op,
      { st with held := some id, row := none, read := none, record := none }))) := by
  have knows := ledger.knows pid op st here
  refine ledger.still here rfl (ledger.drawn.still here ⟨rfl, rfl⟩ ⟨rfl, le_rfl⟩) ?_
    (fun saved => ⟨saved, rfl, rfl, rfl⟩) (fun open' => ⟨open', rfl⟩) (fun _ => rfl)
    (fun _ => rfl) ⟨?_, knows.target, knows.ensured, fun _ bad => (nomatch bad),
      fun _ bad => (nomatch bad), knows.limbo⟩
  · rw [heldBy, fieldBy_update]
    exact ledger.holding.lock free
  · rintro _ ⟨⟩
    exact names

theorem Ledger.unlock (ledger : Ledger w view) (here : view pid = some (op, st)) {id : String}
    (held : st.held = some id) :
    Ledger { w with locks := w.locks.erase id } (Function.update view pid (some (op,
      { st with held := none, row := none, read := none, record := none, window := false }))) := by
  have knows := ledger.knows pid op st here
  refine ledger.still here rfl (ledger.drawn.still here ⟨rfl, rfl⟩ ⟨rfl, le_rfl⟩) ?_
    (fun saved => ⟨saved, rfl, rfl, rfl⟩) (fun open' => ⟨open', rfl⟩) (fun _ => rfl)
    (fun _ => rfl) ⟨fun _ bad => (nomatch bad), knows.target, knows.ensured,
      fun _ bad => (nomatch bad), fun _ bad => (nomatch bad), knows.limbo⟩
  rw [heldBy, fieldBy_update]
  exact ledger.holding.unlock ((fieldBy_of _ here).trans held)

/-- A call that changes no row and no lock. -/
theorem Ledger.learn (ledger : Ledger w view) (here : view pid = some (op, st))
    (same : st'.op = st.op ∧ st'.held = st.held)
    (drawn : Drawn w' (Function.update view pid (some (op, st')))) (kept : st.Keeps st')
    (limbo : st'.limbo = true → st.limbo = true ∧ st'.upload = st.upload)
    (locks : w'.locks = w.locks) (master : w'.master = w.master) (own : Work.Knows w view st') :
    Ledger w' (Function.update view pid (some (op, st'))) := by
  refine ledger.still here same.1 drawn ?_ kept limbo (fun _ => by rw [master])
    (fun _ => by rw [master]) own
  rw [locks, heldBy, fieldBy_still here same.2]
  exact ledger.holding

/-- A fresh id is nobody's. -/
theorem Ledger.uuid (ledger : Ledger w view) (here : view pid = some (op, st))
    (unsaved : st.saved = false) :
    Ledger { w with issued := w.issued + 1 } (Function.update view pid (some (op,
      workProtocol.track st .uuid (.ok (w.supply w.issued))))) := by
  have knows := ledger.knows pid op st here
  have drawn := ledger.drawn
  have ids : w.supply = w.supply ∧ w.issued ≤ w.issued + 1 := ⟨rfl, Nat.le_succ _⟩
  have kept : ∀ st', st.Keeps st' := fun st' saved => by
    rw [unsaved] at saved
    cases saved
  have shut : ∀ {P : Prop}, st.limbo = true → P := fun open' => by
    have saved := (knows.limbo open').1
    rw [unsaved] at saved
    cases saved
  simp only
  split
  · refine ledger.learn here ⟨rfl, rfl⟩ ⟨drawn.distinct, ?_, ?_⟩ (kept _) shut rfl rfl
      ⟨knows.names, knows.target, knows.ensured, knows.row, knows.record, shut⟩
    · rw [fieldBy_update]
      exact drawn.files.draw drawn.distinct Function.injective_id pid
    · exact (drawn.uploads.later ids).still here rfl
  · refine ledger.learn here ⟨rfl, rfl⟩ ⟨drawn.distinct, ?_, ?_⟩ (kept _) shut rfl rfl
      ⟨knows.names, knows.target, knows.ensured, knows.row, knows.record, shut⟩
    · exact (drawn.files.later ids).still here rfl
    · rw [fieldBy_update]
      exact drawn.uploads.draw drawn.distinct (fun a b same => by simpa using same) pid

theorem Ledger.now (ledger : Ledger w view) (here : view pid = some (op, st))
    (unsaved : st.saved = false) (t : Int) :
    Ledger w (Function.update view pid (some (op, { st with now := some t }))) := by
  have knows := ledger.knows pid op st here
  exact ledger.learn here ⟨rfl, rfl⟩ (ledger.drawn.still here ⟨rfl, rfl⟩ ⟨rfl, le_rfl⟩)
    (fun saved => by rw [unsaved] at saved; cases saved) (fun open' => ⟨open', rfl⟩) rfl rfl
    ⟨knows.names, knows.target, knows.ensured, knows.row, knows.record, knows.limbo⟩

/-! ### Reads -/

theorem Work.Touches.held (knows : Work.Knows w view st) {id : String} (touches : st.Touches id) :
    st.held = some id := by
  rcases touches with mine | ⟨s, row, rfl⟩
  · exact mine
  · exact (knows.row s row).1

theorem Ledger.getSession (ledger : Ledger w view) (here : view pid = some (op, st)) {id : String}
    (allowed : workProtocol.allowed st (.fs .master (.getSession id))) :
    Ledger w (Function.update view pid (some (op, workProtocol.track st
      (.fs .master (.getSession id)) (FsStore.getSession id w.master)))) := by
  have knows := ledger.knows pid op st here
  cases read : FsStore.getSession id w.master with
  | error e => exact ledger.quiet here ⟨rfl, le_rfl⟩ rfl (fun _ => rfl) fun _ => rfl
  | ok found =>
    simp only at allowed ⊢
    split at allowed
    next idle =>
      rw [if_pos idle]
      obtain ⟨names, first⟩ := allowed
      -- what is ensured is ensured for a target, and there is none yet
      have unsure : st.ensured ≠ true := fun sure => by
        obtain ⟨t, u, target, -⟩ := knows.ensured sure
        rw [first] at target
        cases target
      refine ledger.learn here ⟨rfl, rfl⟩ (ledger.drawn.still here ⟨rfl, rfl⟩ ⟨rfl, le_rfl⟩)
        (fun saved => ⟨saved, rfl, rfl, rfl⟩) (fun open' => ⟨open', rfl⟩) rfl rfl
        ⟨knows.names, ?_, fun sure => absurd sure unsure, knows.row,
          fun r record => absurd (knows.record r record).2.1 unsure, knows.limbo⟩
      rintro t rfl
      obtain ⟨rfl, original⟩ := ledger.sessions id t read
      exact ⟨names, original⟩
    next busy =>
      rw [if_neg busy]
      have held := allowed.held knows
      refine ledger.learn here ⟨rfl, rfl⟩ (ledger.drawn.still here ⟨rfl, rfl⟩ ⟨rfl, le_rfl⟩)
        (fun saved => ⟨saved, rfl, rfl, rfl⟩) (fun open' => ⟨open', rfl⟩) rfl rfl
        ⟨knows.names, knows.target, knows.ensured, fun s row => ?_, knows.record, knows.limbo⟩
      cases before : st.row with
      | none =>
        simp only [before] at row
        obtain rfl : found = some s := row
        obtain ⟨rfl, -⟩ := ledger.sessions id s read
        exact ⟨held, rfl, read⟩
      | some s₀ =>
        simp only [before] at row
        obtain rfl : s₀ = s := Option.some.inj row
        -- the row has not changed since it was found first
        obtain ⟨held', -, found'⟩ := knows.row s₀ before
        obtain rfl := Option.some.inj (held.symm.trans held')
        exact ⟨held', Except.ok.inj (read.symm.trans found'), found'⟩

/-- A part is uploaded to one session only. -/
theorem FsOp.Names.unique {op : FsOp} {f g : String} (part : op.slot ≠ none) (one : op.Names f)
    (other : op.Names g) : f = g := by
  cases op with
  | uploadPart id slot body declared checksum sub => exact one.trans other.symm
  | _ => exact absurd rfl part

theorem Ledger.loadMultipart (ledger : Ledger w view) (here : view pid = some (op, st))
    {u : String} (allowed : workProtocol.allowed st (.fs .master (.loadMultipart u))) :
    Ledger w (Function.update view pid (some (op, workProtocol.track st
      (.fs .master (.loadMultipart u)) (FsStore.loadMultipart u w.master)))) := by
  have knows := ledger.knows pid op st here
  have same : Ledger w (Function.update view pid (some (op, st))) :=
    ledger.quiet here ⟨rfl, le_rfl⟩ rfl (fun _ => rfl) fun _ => rfl
  cases read : FsStore.loadMultipart u w.master with
  | error e => exact same
  | ok found =>
    simp only
    split
    · exact same
    next part =>
    obtain ⟨sure, t, target, upload⟩ := allowed part
    split
    next idle =>
      refine ledger.learn here ⟨rfl, rfl⟩ (ledger.drawn.still here ⟨rfl, rfl⟩ ⟨rfl, le_rfl⟩)
        (fun saved => ⟨saved, rfl, rfl, rfl⟩) (fun open' => ⟨open', rfl⟩) rfl rfl
        ⟨knows.names, knows.target, fun ensured => ?_, knows.row, fun r record => ?_, knows.limbo⟩
      · rcases Bool.or_eq_true_iff.mp ensured with before | now
        · exact knows.ensured before
        · obtain ⟨m, rfl⟩ := Option.isSome_iff_exists.mp now
          -- while an init is in limbo its record is not there
          refine ⟨t, u, target, upload, ?_⟩
          rintro ⟨q, op₁, st₁, there, open', upload'⟩
          obtain ⟨-, v, drew, absent⟩ := (ledger.knows q op₁ st₁ there).limbo open'
          obtain rfl := Option.some.inj (drew.symm.trans upload')
          exact absent m read
      · obtain ⟨-, -, t', u', -, held, -⟩ := knows.record r record
        rw [idle] at held
        cases held
    next busy =>
      refine ledger.learn here ⟨rfl, rfl⟩ (ledger.drawn.still here ⟨rfl, rfl⟩ ⟨rfl, le_rfl⟩)
        (fun saved => ⟨saved, rfl, rfl, rfl⟩) (fun open' => ⟨open', rfl⟩) rfl rfl
        ⟨knows.names, knows.target, knows.ensured, knows.row, ?_, knows.limbo⟩
      rintro _ ⟨⟩
      obtain ⟨id, held⟩ := Option.ne_none_iff_exists'.mp busy
      obtain rfl := FsOp.Names.unique part (knows.names id held) (knows.target t target).1
      exact ⟨part, sure busy, t, u, target, held, upload, read⟩

/-- An init that gives up, or has written its record, is out of limbo. -/
theorem Ledger.leave (ledger : Ledger w view) (here : view pid = some (op, st)) :
    Ledger w (Function.update view pid (some (op, { st with limbo := false }))) := by
  have knows := ledger.knows pid op st here
  exact ledger.learn here ⟨rfl, rfl⟩ (ledger.drawn.still here ⟨rfl, rfl⟩ ⟨rfl, le_rfl⟩)
    (fun saved => ⟨saved, rfl, rfl, rfl⟩) (fun bad => nomatch bad) rfl rfl
    ⟨knows.names, knows.target, knows.ensured, knows.row, knows.record, fun bad => nomatch bad⟩

/-! ### Writes -/

/-- Only the rows, and how far an init is, may be different. -/
structure Work.Alike (st st' : Work) : Prop where
  op : st'.op = st.op
  held : st'.held = st.held
  now : st'.now = st.now
  file : st'.file = st.file
  upload : st'.upload = st.upload
  target : st'.target = st.target
  ensured : st'.ensured = st.ensured
  saved : st.saved = true → st'.saved = true

/-- A write to the store. -/
theorem Ledger.write (ledger : Ledger w view) (here : view pid = some (op, st))
    (alike : st.Alike st') {kv : Kv Value}
    (limbo : st'.limbo = true → st.limbo = true ∨ st.saved = false)
    (rows : ∀ s, FsStore.getSession s.id w.master = .ok (some s) → st.held ≠ some s.id →
      FsStore.getSession s.id kv = .ok (some s))
    (loads : ∀ t u, Original view t → t.s3UploadId = some u → ¬ InLimbo view u →
      st.held ≠ some t.id → FsStore.loadMultipart u kv = FsStore.loadMultipart u w.master)
    (unwritten : ∀ q op₁ st₁ u, q ≠ pid → view q = some (op₁, st₁) → st₁.limbo = true →
      st₁.upload = some u → ∀ m, FsStore.loadMultipart u kv = .ok (some m) →
      FsStore.loadMultipart u w.master = .ok (some m))
    (sessions : ∀ id s, FsStore.getSession id kv = .ok (some s) → s.id = id ∧
      (Original view s ∨ Original (Function.update view pid (some (op, st'))) s))
    (records : ∀ u m, FsStore.loadMultipart u kv = .ok (some m) → m.uploadId = u ∧
      ∃ q op₁ st₁, view q = some (op₁, st₁) ∧ st₁.saved = true ∧ st₁.upload = some u)
    (row : ∀ s, st'.row = some s → st.held = some s.id ∧ st'.read = some s ∧
      FsStore.getSession s.id kv = .ok (some s))
    (record : ∀ r, st'.record = some r → st.op.slot ≠ none ∧ st.ensured = true ∧ ∃ t u,
      st.target = some t ∧ st.held = some t.id ∧ t.s3UploadId = some u ∧
        FsStore.loadMultipart u kv = .ok r)
    (open' : st'.limbo = true → st'.saved = true ∧ ∃ u, st.upload = some u ∧
      ∀ m, FsStore.loadMultipart u kv ≠ .ok (some m)) :
    Ledger { w with master := kv } (Function.update view pid (some (op, st'))) := by
  have knows := ledger.knows pid op st here
  have kept : st.Keeps st' := fun saved => ⟨alike.saved saved, alike.file, alike.upload, alike.now⟩
  have drawn' : Drawn { w with master := kv } (Function.update view pid (some (op, st'))) :=
    ledger.drawn.still here ⟨alike.file, alike.upload⟩ ⟨rfl, le_rfl⟩
  have limbo' : ∀ u, st'.limbo = true → st'.upload = some u →
      st.limbo = true ∧ st.upload = some u ∨ st.saved = false := fun u isOpen upload =>
    (limbo isOpen).imp_left fun before => ⟨before, alike.upload ▸ upload⟩
  have holding : Holding w.locks (heldBy (Function.update view pid (some (op, st')))) := by
    rw [heldBy, fieldBy_still here alike.held]
    exact ledger.holding
  refine ledger.step here alike.op drawn' holding kept limbo' rows loads unwritten ?_ ?_ ?_
  · intro id s found
    obtain ⟨own, old | new⟩ := sessions id s found
    · exact ⟨own, old.mono here kept⟩
    · exact ⟨own, new⟩
  · intro u m found
    obtain ⟨own, q, op₁, st₁, there, saved, upload⟩ := records u m found
    refine ⟨own, ?_⟩
    by_cases mine : q = pid
    · subst mine
      rw [here] at there
      cases there
      exact ⟨q, op, st', by simp, alike.saved saved, alike.upload.trans upload⟩
    · exact ⟨q, op₁, st₁, by simp [mine, there], saved, upload⟩
  · refine ⟨?_, ?_, ?_, ?_, ?_, ?_⟩
    · rw [alike.held, alike.op]
      exact knows.names
    · rw [alike.target, alike.op]
      intro t target
      obtain ⟨names, original⟩ := knows.target t target
      exact ⟨names, original.mono here kept⟩
    · rw [alike.target, alike.ensured]
      intro ensured
      obtain ⟨t, u, target, upload, settled⟩ := knows.ensured ensured
      exact ⟨t, u, target, upload, drawn'.settled here limbo' (knows.target t target).2 upload
        settled⟩
    · rw [alike.held]
      exact row
    · rw [alike.held, alike.target, alike.ensured, alike.op]
      exact record
    · rw [alike.upload]
      exact open'

/-- Only an init that has saved its session names the upload of a session. -/
theorem Drawn.saved_of_upload (drawn : Drawn w view) (here : view pid = some (op, st))
    {q : Nat} {op₁ : FsOp} {st₁ : Work} {u : String} (there : view q = some (op₁, st₁))
    (saved : st₁.saved = true) (upload₁ : st₁.upload = some u) (upload : st.upload = some u) :
    st.saved = true := by
  obtain rfl := drawn.uploads.alone q pid u ((fieldBy_of _ there).trans upload₁)
    ((fieldBy_of _ here).trans upload)
  rw [here] at there
  cases there
  exact saved

/-- An unsaved session is the first with its id. -/
theorem Ledger.unused (ledger : Ledger w view) (here : view pid = some (op, st))
    (unsaved : st.saved = false) {s : UploadSession} (file : st.file = some s.id)
    {s' : UploadSession} (found : FsStore.getSession s'.id w.master = .ok (some s')) :
    s.id ≠ s'.id := by
  intro same
  obtain ⟨⟨q, op₁, st₁, there, saved, file₁, -⟩, -⟩ := (ledger.sessions _ _ found).2
  obtain rfl := ledger.drawn.files.alone q pid s.id ((fieldBy_of _ there).trans (same ▸ file₁))
    ((fieldBy_of _ here).trans file)
  rw [here] at there
  cases there
  rw [unsaved] at saved
  cases saved

theorem Ledger.openSession (ledger : Ledger w view) (here : view pid = some (op, st))
    {s : UploadSession} (idle : st.held = none) (opens : st.Opens s) :
    Ledger { w with master := FsStore.saveSession s w.master } (Function.update view pid
      (some (op, { st with saved := true, limbo := s.s3UploadId.isSome }))) := by
  obtain ⟨unsaved, file, upload, now, single, -⟩ := opens
  have knows := ledger.knows pid op st here
  have loads := FsStore.loadMultipart_saveSession s w.master
  refine ledger.write here ?_ (fun _ => .inr unsaved) ?_ (fun _ u _ _ _ _ => loads u) ?_ ?_ ?_ ?_
    ?_ fun isOpen => ⟨?_, ?_⟩
  · exact ⟨rfl, rfl, rfl, rfl, rfl, rfl, rfl, fun _ => rfl⟩
  · intro s' found _
    exact (FsStore.getSession_saveSession s w.master s'.id).trans
      ((if_neg (ledger.unused here unsaved file found)).trans found)
  · intro _ _ _ u _ _ _ _ m written
    exact (loads u).symm.trans written
  · intro id s' found
    rw [FsStore.getSession_saveSession] at found
    split at found
    next same =>
      cases found
      -- the one row that is new was just written by its init
      exact ⟨same, .inr ⟨⟨pid, op, _, Function.update_self pid _ view, rfl, file, upload, now⟩,
        single⟩⟩
    next =>
      obtain ⟨own, original⟩ := ledger.sessions id s' found
      exact ⟨own, .inl original⟩
  · intro u m found
    exact ledger.records u m ((loads u).symm.trans found)
  · intro s' row
    have held := (knows.row s' row).1
    rw [idle] at held
    cases held
  · intro r record
    obtain ⟨-, -, t, u, -, held, -⟩ := knows.record r record
    rw [idle] at held
    cases held
  · rfl
  · obtain ⟨u, drew⟩ := Option.isSome_iff_exists.mp isOpen
    refine ⟨u, upload.trans drew, fun m found => ?_⟩
    -- a record of the upload would belong to an init that has saved its session
    obtain ⟨-, q, op₁, st₁, there, saved, drew₁⟩ := ledger.records u m ((loads u).symm.trans found)
    have saved' := ledger.drawn.saved_of_upload here there saved drew₁ (upload.trans drew)
    rw [unsaved] at saved'
    cases saved'

/-- A row that was read under the lock is written with more in it. -/
theorem Ledger.mergeSession (ledger : Ledger w view) (here : view pid = some (op, st))
    {s : UploadSession} (merges : st.Merges s) :
    Ledger { w with master := FsStore.saveSession s w.master } (Function.update view pid
      (some (op, { st with row := some s, read := some s, window := false, merged := true }))) := by
  obtain ⟨s₀, slot, etag, checksum, row, rfl, -, -, -⟩ := merges
  have knows := ledger.knows pid op st here
  obtain ⟨held, -, found⟩ := knows.row s₀ row
  have rows := FsStore.getSession_saveSession (FsEngine.withPart s₀ slot etag checksum) w.master
  have loads := FsStore.loadMultipart_saveSession (FsEngine.withPart s₀ slot etag checksum) w.master
  refine ledger.write here ?_ .inl ?_ (fun _ u _ _ _ _ => loads u) ?_ ?_ ?_ ?_ ?_ ?_
  · exact ⟨rfl, rfl, rfl, rfl, rfl, rfl, rfl, fun saved => saved⟩
  · intro s' there away
    refine (rows s'.id).trans ((if_neg ?_).trans there)
    intro same
    exact away (held.trans (congrArg some same))
  · intro _ _ _ u _ _ _ _ m written
    exact (loads u).symm.trans written
  · intro id s' there
    rw [rows] at there
    split at there
    next same =>
      cases there
      obtain ⟨born, single⟩ := (ledger.sessions s₀.id s₀ found).2
      exact ⟨same, .inl ⟨born, single⟩⟩
    next =>
      obtain ⟨own, original⟩ := ledger.sessions id s' there
      exact ⟨own, .inl original⟩
  · intro u m there
    exact ledger.records u m ((loads u).symm.trans there)
  · rintro _ ⟨⟩
    exact ⟨held, rfl, (rows _).trans (if_pos rfl)⟩
  · intro r record
    obtain ⟨slot', ensured, t, u, target, held', upload, there⟩ := knows.record r record
    exact ⟨slot', ensured, t, u, target, held', upload, (loads u).trans there⟩
  · intro isOpen
    obtain ⟨saved, u, upload, absent⟩ := knows.limbo isOpen
    exact ⟨saved, u, upload, fun m there => absent m ((loads u).symm.trans there)⟩

/-- The first write of a record, without a part. -/
theorem Ledger.openRecord (ledger : Ledger w view) (here : view pid = some (op, st))
    {m : PersistedMultipart} (idle : st.held = none) (open' : st.limbo = true)
    (upload : st.upload = some m.uploadId) :
    Ledger { w with master := FsStore.saveMultipart m w.master } (Function.update view pid
      (some (op, { st with limbo := false }))) := by
  have knows := ledger.knows pid op st here
  have rows := FsStore.getSession_saveMultipart m w.master
  have loads := FsStore.loadMultipart_saveMultipart m w.master
  refine ledger.write here ?_ ?_ (fun s found _ => (rows s.id).trans found) ?_ ?_ ?_ ?_ ?_ ?_ ?_
  · exact ⟨rfl, rfl, rfl, rfl, rfl, rfl, rfl, fun saved => saved⟩
  · exact fun bad => nomatch bad
  · intro t u _ _ settled _
    refine (loads u).trans (if_neg ?_)
    rintro rfl
    -- until this write the upload was in limbo, so nobody relied on its record
    exact settled ⟨pid, op, st, here, open', upload⟩
  · intro q op₁ st₁ u other there _ upload₁ m' written
    refine ((loads u).trans (if_neg ?_)).symm.trans written
    rintro rfl
    exact other (ledger.drawn.uploads.alone q pid _ ((fieldBy_of _ there).trans upload₁)
      ((fieldBy_of _ here).trans upload))
  · intro id s found
    obtain ⟨own, original⟩ := ledger.sessions id s ((rows id).symm.trans found)
    exact ⟨own, .inl original⟩
  · intro u m' written
    rw [loads] at written
    split at written
    next same =>
      cases written
      exact ⟨same, pid, op, st, here, (knows.limbo open').1, same ▸ upload⟩
    next => exact ledger.records u m' written
  · intro s row
    obtain ⟨held, read, found⟩ := knows.row s row
    exact ⟨held, read, (rows s.id).trans found⟩
  · intro r record
    obtain ⟨-, -, t, u, -, held, -⟩ := knows.record r record
    rw [idle] at held
    cases held
  · exact fun bad => nomatch bad

section Locked

variable {s : UploadSession} {u : String}

/-- Nobody else who knows the upload holds the lock of another session of it. -/
theorem Ledger.not_shared (ledger : Ledger w view) (original : Original view s)
    (upload : s.s3UploadId = some u) {t : UploadSession} (original' : Original view t)
    (upload' : t.s3UploadId = some u) : t.id = s.id := by
  obtain ⟨born, -⟩ := original
  obtain ⟨born', -⟩ := original'
  rw [upload] at born
  rw [upload'] at born'
  exact ledger.drawn.same_file born' born

/-- The row under the lock is one of the session that was read before. -/
theorem Ledger.row_target (ledger : Ledger w view) (here : view pid = some (op, st))
    (part : st.op.slot ≠ none) (row : st.row = some s) {t : UploadSession}
    (target : st.target = some t) : t.id = s.id ∧ t.s3UploadId = s.s3UploadId := by
  have knows := ledger.knows pid op st here
  obtain ⟨held, -, found⟩ := knows.row s row
  obtain ⟨names, born, -⟩ := knows.target t target
  have same := FsOp.Names.unique part names (knows.names s.id held)
  rw [same] at born
  exact ⟨same, (ledger.drawn.same_upload born (ledger.sessions s.id s found).2.born).1⟩

/-- The record of a locked session takes a part. -/
theorem Ledger.mergeRecord (ledger : Ledger w view) (here : view pid = some (op, st))
    {m : PersistedMultipart} (records : st.Records m) :
    Ledger { w with master := FsStore.saveMultipart m w.master } (Function.update view pid
      (some (op, { st with record := some (some m), window := true }))) := by
  obtain ⟨r, slot, etag, record, rfl, -, -, -⟩ := records
  have knows := ledger.knows pid op st here
  obtain ⟨part, ensured, t, u, target, held, upload, found⟩ := knows.record _ record
  obtain ⟨t', u', target', upload', settled⟩ := knows.ensured ensured
  obtain rfl := Option.some.inj (target.symm.trans target')
  obtain rfl := Option.some.inj (upload.symm.trans upload')
  obtain ⟨rfl, names⟩ := ledger.records u r found
  have original := (knows.target t target).2
  have rows := FsStore.getSession_saveMultipart
    { r with parts := insertPart r.parts slot etag } w.master
  have loads := FsStore.loadMultipart_saveMultipart
    { r with parts := insertPart r.parts slot etag } w.master
  refine ledger.write here ?_ .inl (fun s found _ => (rows s.id).trans found) ?_ ?_ ?_ ?_ ?_ ?_ ?_
  · exact ⟨rfl, rfl, rfl, rfl, rfl, rfl, rfl, fun saved => saved⟩
  · intro t' u original' upload' _ away
    refine (loads u).trans (if_neg ?_)
    rintro rfl
    -- two sessions of one upload are one, and this one is locked
    exact away (held.trans (congrArg some (ledger.not_shared original upload original' upload').symm))
  · intro q op₁ st₁ u _ there open' upload' m written
    refine ((loads u).trans (if_neg ?_)).symm.trans written
    rintro rfl
    exact settled ⟨q, op₁, st₁, there, open', upload'⟩
  · intro id s found
    obtain ⟨own, original⟩ := ledger.sessions id s ((rows id).symm.trans found)
    exact ⟨own, .inl original⟩
  · intro u m written
    rw [loads] at written
    split at written
    next same =>
      cases written
      exact ⟨same, same ▸ names⟩
    next => exact ledger.records u m written
  · intro s row
    obtain ⟨held, read, found⟩ := knows.row s row
    exact ⟨held, read, (rows s.id).trans found⟩
  · rintro _ ⟨⟩
    exact ⟨part, ensured, t, r.uploadId, target, held, upload, (loads _).trans (if_pos rfl)⟩
  · intro isOpen
    obtain ⟨saved, u, drew, absent⟩ := knows.limbo isOpen
    refine ⟨saved, u, drew, fun m written => absent m (((loads u).trans (if_neg ?_)).symm.trans
      written)⟩
    rintro rfl
    exact settled ⟨pid, op, st, here, isOpen, drew⟩

/-- The rows of a locked session that are deleted are nobody else's. -/
theorem Ledger.remove (ledger : Ledger w view) (here : view pid = some (op, st))
    (alike : st.Alike st') (limbo : st'.limbo = st.limbo) (idle : st.op.slot = none)
    (row : st.row = some s) {kv : Kv Value}
    (rows : ∀ id, FsStore.getSession id kv = FsStore.getSession id w.master ∨
      id = s.id ∧ FsStore.getSession id kv = .ok none)
    (loads : ∀ u, FsStore.loadMultipart u kv = FsStore.loadMultipart u w.master ∨
      s.s3UploadId = some u ∧ FsStore.loadMultipart u kv = .ok none)
    (seen : ∀ s', st'.row = some s' → st.row = some s' ∧ st'.read = st.read ∧
      FsStore.getSession s'.id kv = FsStore.getSession s'.id w.master)
    (record : st'.record = st.record) :
    Ledger { w with master := kv } (Function.update view pid (some (op, st'))) := by
  have knows := ledger.knows pid op st here
  obtain ⟨held, -, found⟩ := knows.row s row
  have original := (ledger.sessions s.id s found).2
  -- rows only go away, and only those of the session that is locked
  have fewer : ∀ u m, FsStore.loadMultipart u kv = .ok (some m) →
      FsStore.loadMultipart u w.master = .ok (some m) := by
    intro u m there
    rcases loads u with same | ⟨-, gone⟩
    · exact same.symm.trans there
    · cases gone.symm.trans there
  refine ledger.write here alike (fun isOpen => .inl (limbo ▸ isOpen)) ?_ ?_ ?_ ?_ ?_ ?_ ?_ ?_
  · intro s' there away
    rcases rows s'.id with same | ⟨same, -⟩
    · exact same.trans there
    · exact absurd (held.trans (congrArg some same.symm)) away
  · intro t u original' upload' _ away
    rcases loads u with same | ⟨upload, -⟩
    · exact same
    · exact absurd (held.trans (congrArg some
        (ledger.not_shared original upload original' upload').symm)) away
  · exact fun _ _ _ u _ _ _ _ m there => fewer u m there
  · intro id s' there
    rcases rows id with same | ⟨-, gone⟩
    · obtain ⟨own, original'⟩ := ledger.sessions id s' (same.symm.trans there)
      exact ⟨own, .inl original'⟩
    · cases gone.symm.trans there
  · exact fun u m there => ledger.records u m (fewer u m there)
  · intro s' row'
    obtain ⟨before, read, same⟩ := seen s' row'
    obtain ⟨held', read', there⟩ := knows.row s' before
    exact ⟨held', read.trans read', same.trans there⟩
  · intro r isRecord
    exact absurd idle (knows.record r (record ▸ isRecord)).1
  · intro isOpen
    obtain ⟨saved, u, drew, absent⟩ := knows.limbo (limbo ▸ isOpen)
    exact ⟨alike.saved saved, u, drew, fun m there => absent m (fewer u m there)⟩

theorem Ledger.deleteMultipart (ledger : Ledger w view) (here : view pid = some (op, st))
    (idle : st.op.slot = none) (row : st.row = some s) (upload : s.s3UploadId = some u) :
    Ledger { w with master := FsStore.deleteMultipart u w.master }
      (Function.update view pid (some (op, st))) := by
  refine ledger.remove here ⟨rfl, rfl, rfl, rfl, rfl, rfl, rfl, fun saved => saved⟩ rfl idle row
    (fun id => .inl (FsStore.getSession_deleteMultipart u w.master id)) (fun v => ?_)
    (fun s' row' => ⟨row', rfl, FsStore.getSession_deleteMultipart u w.master s'.id⟩) rfl
  rw [FsStore.loadMultipart_deleteMultipart]
  split
  next same => exact .inr ⟨same ▸ upload, rfl⟩
  next => exact .inl rfl

/-- A session is deleted with the record of its upload. -/
theorem Ledger.deleteSession (ledger : Ledger w view) (here : view pid = some (op, st))
    {id : String} {session : Option UploadSession} (drops : st.Drops id session) :
    Ledger { w with master := FsStore.deleteSession id session w.master }
      (Function.update view pid (some (op, { st with row := none }))) := by
  obtain ⟨idle, touches, rfl, s, row, -⟩ := drops
  have knows := ledger.knows pid op st here
  obtain ⟨held, read, -⟩ := knows.row s row
  obtain rfl := Option.some.inj ((touches.held knows).symm.trans held)
  refine ledger.remove here ?_ ?_ idle row (fun g => ?_) (fun v => ?_) ?_ ?_
  · exact ⟨rfl, rfl, rfl, rfl, rfl, rfl, rfl, fun saved => saved⟩
  · rfl
  · rw [FsStore.getSession_deleteSession]
    split
    next same => exact .inr ⟨same, rfl⟩
    next => exact .inl rfl
  · rw [FsStore.loadMultipart_deleteSession, read]
    split
    next same => exact .inr ⟨same, rfl⟩
    next => exact .inl rfl
  · exact fun _ bad => nomatch bad
  · rfl

end Locked

end Steps

/-! ### Any call -/

/-- A call that is not about the rows of an upload leaves them alone. -/
theorem Call.Mute.rows {op : FsOp} {c : Call} (mute : c.Mute op) (w : World) :
    (∀ id, FsStore.getSession id (c.exec w).2.master = FsStore.getSession id w.master) ∧
      ∀ u, FsStore.loadMultipart u (c.exec w).2.master = FsStore.loadMultipart u w.master := by
  cases c with
  | fs side c =>
    cases side with
    | replica sub => cases mute
    | master =>
      have same {k : String} := FsCall.mute_exec mute w.clock w.master (k := k)
      exact ⟨fun id => FsStore.getSession_congr (same (FsStore.not_isMarker_sessionKey id)
          fun f => ⟨FsStore.fileKey_ne_sessionKey f id, FsStore.refsKey_ne_sessionKey f id⟩),
        fun u => FsStore.loadMultipart_congr (same (FsStore.not_isMarker_multipartKey u)
          fun f => ⟨FsStore.fileKey_ne_multipartKey f u, FsStore.refsKey_ne_multipartKey f u⟩)⟩
  | s3 c =>
    have master := (S3Call.exec_apart c w).1
    exact ⟨fun id => congrArg (FsStore.getSession id) master,
      fun u => congrArg (FsStore.loadMultipart u) master⟩
  | wal c => exact ⟨fun _ => rfl, fun _ => rfl⟩
  | policy c => exact ⟨fun _ => rfl, fun _ => rfl⟩
  | _ => cases mute

theorem Call.Mute.clock {op : FsOp} {c : Call} (mute : c.Mute op) (w : World) :
    (c.exec w).2.clock = w.clock := by
  cases c with
  | fs side c =>
    cases side with
    | replica sub => cases mute
    | master => rfl
  | s3 c => exact (S3Call.exec_apart c w).2.2
  | wal c => rfl
  | policy c => rfl
  | _ => cases mute

/-- It takes no lock, and ids only from the supply. -/
theorem Call.Mute.apart {op : FsOp} {c : Call} (mute : c.Mute op) (w : World) :
    (c.exec w).2.locks = w.locks ∧ (c.exec w).2.supply = w.supply ∧
      w.issued ≤ (c.exec w).2.issued := by
  cases c with
  | fs side c =>
    cases side with
    | replica sub => cases mute
    | master => exact ⟨rfl, rfl, le_rfl⟩
  | s3 c => exact ⟨(S3Call.exec_apart c w).2.1, S3Call.ids_exec c w⟩
  | wal c => exact ⟨rfl, rfl, le_rfl⟩
  | policy c => exact ⟨rfl, rfl, le_rfl⟩
  | _ => cases mute

theorem Ledger.mute {w : World} {view : Nat → Option (FsOp × Work)} {pid : Nat} {op : FsOp}
    {st : Work} {c : Call} (ledger : Ledger w view) (here : view pid = some (op, st))
    (mute : c.Mute st.op) :
    Ledger (c.exec w).2 (Function.update view pid
      (some (op, workProtocol.track st c (c.exec w).1))) := by
  obtain ⟨locks, ids⟩ := mute.apart w
  obtain ⟨rows, loads⟩ := mute.rows w
  rw [mute.quiet.2]
  exact ledger.quiet here ids locks rows loads

/-- Every allowed call keeps the ledger. -/
theorem Ledger.call {w : World} {view : Nat → Option (FsOp × Work)} {pid : Nat} {op : FsOp}
    {st : Work} {c : Call} (ledger : Ledger w view) (here : view pid = some (op, st))
    (allowed : workProtocol.allowed st c) (enabled : c.enabled w) :
    Ledger (c.exec w).2 (Function.update view pid
      (some (op, workProtocol.track st c (c.exec w).1))) := by
  cases c with
  | fs side c =>
    cases side with
    | replica sub => cases allowed
    | master =>
      cases c with
      | saveSession s =>
        simp only at allowed
        simp only [Call.exec, FsCall.exec, World.fsStore, World.setFsStore]
        split at allowed
        next idle =>
          rw [if_pos idle]
          exact ledger.openSession here idle allowed
        next busy =>
          rw [if_neg busy]
          exact ledger.mergeSession here allowed
      | getSession id => exact ledger.getSession here allowed
      | deleteSession id session => exact ledger.deleteSession here allowed
      | saveMultipart m =>
        simp only at allowed
        simp only [Call.exec, FsCall.exec, World.fsStore, World.setFsStore]
        split at allowed
        next idle =>
          rw [if_pos idle]
          exact ledger.openRecord here idle allowed.1 allowed.2.1
        next busy =>
          rw [if_neg busy]
          exact ledger.mergeRecord here allowed
      | loadMultipart u => exact ledger.loadMultipart here allowed
      | deleteMultipart u =>
        -- who completes or cancels holds the lock of the session that it has read
        obtain ⟨idle, s, row, upload⟩ := allowed
        exact ledger.deleteMultipart here idle row upload
      | setBytes k v => cases allowed
      | commit ws => cases allowed
      | _ => exact ledger.mute here trivial
  | s3 c =>
    cases c with
    | getState u =>
      by_cases idle : st.op.slot = none
      · have left := ledger.leave here
        have same := ledger.quiet here ⟨rfl, le_rfl⟩ rfl (fun _ => rfl) fun _ => rfl
        simp only [Call.exec, S3Call.exec]
        cases w.states[u]? with
        | none =>
          simp only [if_pos idle]
          exact left
        | some state => exact same
      · exact ledger.mute here idle
    | _ => exact ledger.mute here trivial
  | wal c => exact ledger.mute here trivial
  | policy c => exact ledger.mute here trivial
  | lock id => exact ledger.lock here allowed.1 enabled
  | unlock id => exact ledger.unlock here allowed.1
  | now => exact ledger.now here allowed w.clock
  | uuid => exact ledger.uuid here allowed.1

/-- A call that failed leaves at most a mark. -/
theorem Work.track_fault (st : Work) {c : Call} (e : Error) (mayFail : c.mayFail = true) :
    workProtocol.track st c (.error e) = st ∨
      workProtocol.track st c (.error e) = { st with failed := true } ∨
      workProtocol.track st c (.error e) = { st with limbo := false } := by
  cases c with
  | fs side c =>
    cases side with
    | replica sub => exact .inl rfl
    | master =>
      cases c with
      | saveSession s => exact .inr (.inl rfl)
      | saveMultipart m => exact .inr (.inr rfl)
      | _ => exact .inl rfl
  | s3 c =>
    cases c with
    | getState u => cases mayFail
    | _ => exact .inl rfl
  | lock id => cases mayFail
  | unlock id => cases mayFail
  | _ => exact .inl rfl

theorem Ledger.fault {w : World} {view : Nat → Option (FsOp × Work)} {pid : Nat} {op : FsOp}
    {st : Work} {c : Call} {e : Error} (ledger : Ledger w view) (here : view pid = some (op, st))
    (mayFail : c.mayFail = true) :
    Ledger w (Function.update view pid (some (op, workProtocol.track st c (.error e)))) := by
  rcases st.track_fault e mayFail with same | same | same
  · rw [same]
    exact ledger.quiet here ⟨rfl, le_rfl⟩ rfl (fun _ => rfl) fun _ => rfl
  · have knows := ledger.knows pid op st here
    rw [same]
    exact ledger.learn here ⟨rfl, rfl⟩ (ledger.drawn.still here ⟨rfl, rfl⟩ ⟨rfl, le_rfl⟩)
      (fun saved => ⟨saved, rfl, rfl, rfl⟩) (fun isOpen => ⟨isOpen, rfl⟩) rfl rfl
      ⟨knows.names, knows.target, knows.ensured, knows.row, knows.record, knows.limbo⟩
  · rw [same]
    exact ledger.leave here

theorem Ledger.spawn {w : World} {view : Nat → Option (FsOp × Work)} {pid : Nat} {op : FsOp}
    (ledger : Ledger w view) (free : view pid = none) :
    Ledger w (Function.update view pid (some (op, Work.start op))) := by
  have fields : ∀ field : Work → Option String, field (Work.start op) = none →
      fieldBy field (Function.update view pid (some (op, Work.start op))) = fieldBy field view := by
    intro field none
    rw [fieldBy_update, none, Function.update_eq_self_iff]
    simp [fieldBy, free]
  have others : ∀ q op₁ st₁, view q = some (op₁, st₁) →
      Function.update view pid (some (op, Work.start op)) q = some (op₁, st₁) :=
    fun _ _ _ there => update_fresh free there
  have original : ∀ s, Original view s →
      Original (Function.update view pid (some (op, Work.start op))) s := by
    rintro s ⟨⟨q, op₁, st₁, there, facts⟩, single⟩
    exact ⟨⟨q, op₁, st₁, others q op₁ st₁ there, facts⟩, single⟩
  refine ⟨?_, ⟨ledger.drawn.distinct, ?_, ?_⟩, ?_, ?_, ?_, ?_⟩
  · intro q op₁ st₁ found
    rcases update_eq_some.mp found with ⟨-, ⟨⟩⟩ | ⟨-, old⟩
    · rfl
    · exact ledger.op q op₁ st₁ old
  · rw [fields _ rfl]
    exact ledger.drawn.files
  · rw [fields _ rfl]
    exact ledger.drawn.uploads
  · rw [heldBy, fields _ rfl]
    exact ledger.holding
  · intro id s found
    exact (ledger.sessions id s found).imp_right (original s)
  · intro u m found
    obtain ⟨own, q, op₁, st₁, there, facts⟩ := ledger.records u m found
    exact ⟨own, q, op₁, st₁, others q op₁ st₁ there, facts⟩
  · intro q op₁ st₁ found
    rcases update_eq_some.mp found with ⟨-, ⟨⟩⟩ | ⟨-, old⟩
    · exact ⟨fun _ bad => (nomatch bad), fun _ bad => (nomatch bad), fun bad => (nomatch bad),
        fun _ bad => (nomatch bad), fun _ bad => (nomatch bad), fun bad => (nomatch bad)⟩
    have knows := ledger.knows q op₁ st₁ old
    refine ⟨knows.names, fun t target => (knows.target t target).imp_right (original t),
      fun ensured => ?_, knows.row, knows.record, knows.limbo⟩
    obtain ⟨t, u, target, upload, settled⟩ := knows.ensured ensured
    refine ⟨t, u, target, upload, ?_⟩
    rintro ⟨q', op₂, st₂, there, isOpen, upload'⟩
    rcases update_eq_some.mp there with ⟨-, ⟨⟩⟩ | ⟨-, there⟩
    · cases isOpen
    · exact settled ⟨q', op₂, st₂, there, isOpen, upload'⟩

/-- The clock and the policy are not in the ledger. -/
theorem Ledger.env {w w' : World} {view : Nat → Option (FsOp × Work)} (ledger : Ledger w view)
    (around : World.Around w w') : Ledger w' view := by
  obtain ⟨clock, enforcer, -, rfl⟩ := around
  obtain ⟨op, ⟨distinct, ⟨files, file⟩, ⟨uploads, upload⟩⟩, holding, sessions, records, knows⟩ :=
    ledger
  refine ⟨op, ⟨distinct, ⟨files, file⟩, ⟨uploads, upload⟩⟩, holding, sessions, records, ?_⟩
  intro q op₁ st₁ there
  obtain ⟨names, target, ensured, row, record, limbo⟩ := knows q op₁ st₁ there
  exact ⟨names, target, ensured, row, record, limbo⟩

theorem ledger_preserved (bucket : String) (cond : FsPool → Label Call Error FsOp → Prop) :
    (fsSystem bucket).Preserves workProtocol Work.start cond (fun _ => Ledger) where
  answers c w := c.answered_exec w
  faults _ _ mayFail := Call.answered_fault mayFail
  spawn := by
    intro h s pid op _ free ledger
    exact ledger.spawn (workProtocol.view_eq_none.mpr free)
  env := fun _ _ _ _ around ledger => ledger.env around
  call := fun _ _ _ _ _ _ _ here allowed enabled ledger => ledger.call here allowed enabled
  fault := fun _ _ _ _ _ _ _ _ here _ mayFail ledger => ledger.fault here mayFail
  drop := fun _ _ _ _ _ _ _ bad _ => nomatch bad

/-- A store in which no upload is in flight. -/
structure FsStore.NoUploads (kv : Kv Value) : Prop where
  session : ∀ id, FsStore.sessionKey id ∉ kv
  multipart : ∀ u, FsStore.multipartKey u ∉ kv

theorem FsStore.noUploads_empty : FsStore.NoUploads (∅ : Kv Value) :=
  ⟨fun _ => by simp, fun _ => by simp⟩

theorem FsStore.NoUploads.getSession {kv : Kv Value} (none : FsStore.NoUploads kv) (id : String) :
    FsStore.getSession id kv = .ok .none := by
  simp [FsStore.getSession, Kv.not_mem_iff_get.mp (none.session id)]

theorem FsStore.NoUploads.loadMultipart {kv : Kv Value} (none : FsStore.NoUploads kv)
    (u : String) : FsStore.loadMultipart u kv = .ok .none := by
  simp [FsStore.loadMultipart, Kv.not_mem_iff_get.mp (none.multipart u)]

/-- **The ledger**: in every state of every run that starts without uploads and draws each id
    once, what the requests know is true. -/
theorem ledger_of_trace {bucket : String} {cond : FsPool → Label Call Error FsOp → Prop} {w : World}
    (none : FsStore.NoUploads w.master) (ids : Function.Injective w.supply)
    {h : List (Label Call Error FsOp)} {s : FsPool}
    (run : (fsSystem bucket).Trace cond (fsPool w) h s) :
    workProtocol.Obeyed Work.start FsOp.Works s ∧
      Ledger s.world (workProtocol.view Work.start s) := by
  refine System.invariant_of_trace (fun _ _ op _ => fsOp_works bucket op)
    (ledger_preserved bucket cond) run (System.obeyed_of_no_procs _) ?_
  refine ⟨fun _ _ _ bad => (nomatch bad), ⟨ids, ?_, ?_⟩, ?_, ?_, ?_, fun _ _ _ bad => (nomatch bad)⟩
  · exact ⟨fun _ _ bad => (nomatch bad), fun _ _ _ bad => (nomatch bad)⟩
  · exact ⟨fun _ _ bad => (nomatch bad), fun _ _ _ bad => (nomatch bad)⟩
  · exact ⟨fun _ _ bad => (nomatch bad), fun _ _ _ bad => (nomatch bad)⟩
  · intro id s found
    cases (none.getSession id).symm.trans found
  · intro u m found
    cases (none.loadMultipart u).symm.trans found

end RustApi
