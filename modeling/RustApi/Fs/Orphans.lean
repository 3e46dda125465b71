import RustApi.Fs.Immutable

/-!
# The orphan-byte pass

The sweep scans the sessions, then the files, and lists the objects last, while uploads
go on. The key of an upload moves from its session to its record, and the record is
written while the session is still there, so one of the two scans names every key that
was in use when the sweep began. What began later is younger than the sweep.

## Main result

- `orphan_pass_spares_live`: in every run the orphan-byte pass deletes the object of no
  session and of no file, and it deletes nothing when a row of either scan did not decode.
-/

namespace RustApi

open Lib

/-- The id is still to come, or an init has taken it and not used it yet. -/
def Virgin (w : World) (view : Nat → Option (FsOp × Upload)) (id : String) : Prop :=
  (∃ m, w.issued ≤ m ∧ w.supply m = id) ∨
    ∃ pid op st, view pid = some (op, st) ∧ st.fresh = some id

/-- Nothing is stored under the id. -/
structure Unused (w : World) (id : String) : Prop where
  session : ¬ FsStore.HasSession id w.master
  record : ¬ FsStore.HasRecord id w.master
  object : w.objects[objectKey id]? = none

/-- The keys that the scans of a sweep name. -/
def Upload.named (st : Upload) : List String :=
  (st.sessions.elim [] fun scan => scan.records.map (·.s3Key)) ++
    st.files.elim [] fun scan => scan.records.map (·.s3Key)

/-- The object of the id is named by a scan, or it is not older than the sweep. -/
def Upload.Safe (w : World) (st : Upload) (id : String) : Prop :=
  objectKey id ∈ st.named ∨
    ∀ o, w.objects[objectKey id]? = some o → st.now ≤ o.lastModified

/-- What the scans of a sweep say about the sessions and the files of later moments. -/
structure Scanned (w : World) (st : Upload) : Prop where
  clock : st.timed = true → st.now ≤ w.clock
  timed : st.sessions ≠ none → st.timed = true
  order : st.files ≠ none → st.sessions ≠ none
  last : st.listed ≠ none → st.files ≠ none
  session : ∀ id, st.sessions ≠ none → FsStore.HasSession id w.master → st.Safe w id
  record : ∀ id, st.files ≠ none → FsStore.HasRecord id w.master → st.Safe w id
  listed : ∀ id entries, st.listed = some entries →
    FsStore.HasSession id w.master ∨ FsStore.HasRecord id w.master →
      ∀ e ∈ entries, e.key = objectKey id →
        objectKey id ∈ st.named ∨ st.now ≤ e.lastModified

/-- The ids of uploads are fresh, and every sweep covers what is in use. -/
structure Sparing (w : World) (view : Nat → Option (FsOp × Upload)) : Prop where
  locked : Locked w view
  ids : Function.Injective w.supply
  fresh : ∀ pid op st id, view pid = some (op, st) → st.fresh = some id →
    (∀ m, w.issued ≤ m → w.supply m ≠ id) ∧
      ∀ q op₁ st₁, view q = some (op₁, st₁) → st₁.fresh = some id → q = pid
  unused : ∀ id, Virgin w view id → Unused w id
  unput : ∀ id pid op st, Virgin w view id → view pid = some (op, st) →
    st.pending ≠ some (objectKey id)
  unlisted : ∀ id pid op st entries, Virgin w view id → view pid = some (op, st) →
    st.listed = some entries → ∀ e ∈ entries, e.key ≠ objectKey id
  covered : ∀ pid op st, view pid = some (op, st) → st.op = .sweep → Scanned w st

/-! ### One step -/

section Steps

variable {w w' : World} {view : Nat → Option (FsOp × Upload)} {pid : Nat} {op : FsOp}
  {st st' : Upload}

/-- How a step may change what is stored: a session appears under an id that nobody used, a record
    only beside its session, and an object is put now. -/
structure Moved (w w' : World) (view : Nat → Option (FsOp × Upload)) : Prop where
  clock : w.clock ≤ w'.clock
  supply : w'.supply = w.supply
  issued : w.issued ≤ w'.issued
  session : ∀ id, FsStore.HasSession id w'.master → FsStore.HasSession id w.master ∨
    Virgin w view id ∧ w'.objects = w.objects
  record : ∀ id, FsStore.HasRecord id w'.master →
    FsStore.HasRecord id w.master ∨ FsStore.HasSession id w.master
  object : ∀ id o, w'.objects[objectKey id]? = some o →
    w.objects[objectKey id]? = some o ∨ ¬ Virgin w view id ∧ w.clock ≤ o.lastModified

theorem Upload.Safe.moved {id : String} (safe : st.Safe w id) (late : st.now ≤ w.clock)
    (moved : Moved w w' view) : st.Safe w' id := by
  rcases safe with named | young
  · exact .inl named
  · refine .inr fun o found => ?_
    rcases moved.object id o found with old | ⟨-, put⟩
    · exact young o old
    · exact late.trans put

/-- What a sweep knows stays true whatever the others do. -/
theorem Scanned.moved (covered : Scanned w st) (moved : Moved w w' view)
    (unused : ∀ id, Virgin w view id → w.objects[objectKey id]? = none)
    (unlisted : ∀ id entries, Virgin w view id → st.listed = some entries →
      ∀ e ∈ entries, e.key ≠ objectKey id) : Scanned w' st := by
  have late : st.sessions ≠ none → st.now ≤ w.clock := fun scanned =>
    covered.clock (covered.timed scanned)
  have session : ∀ id, st.sessions ≠ none → FsStore.HasSession id w'.master → st.Safe w' id := by
    intro id scanned here
    rcases moved.session id here with old | ⟨new, same⟩
    · exact (covered.session id scanned old).moved (late scanned) moved
    · -- A new session has no object yet.
      refine .inr fun o found => ?_
      rw [same, unused id new] at found
      cases found
  refine ⟨fun timed => (covered.clock timed).trans moved.clock, covered.timed, covered.order,
    covered.last, session, ?_, ?_⟩
  · intro id scanned here
    rcases moved.record id here with old | filed
    · exact (covered.record id scanned old).moved (late (covered.order scanned)) moved
    · have before := covered.order scanned
      exact (covered.session id before filed).moved (late before) moved
  · intro id entries listed here e mem key
    have before : FsStore.HasSession id w.master ∨ FsStore.HasRecord id w.master ∨
        Virgin w view id := by
      rcases here with session | record
      · rcases moved.session id session with old | ⟨new, -⟩
        · exact .inl old
        · exact .inr (.inr new)
      · rcases moved.record id record with old | filed
        · exact .inr (.inl old)
        · exact .inl filed
    rcases before with session | record | new
    · exact covered.listed id entries listed (.inl session) e mem key
    · exact covered.listed id entries listed (.inr record) e mem key
    · exact absurd key (unlisted id entries new listed e mem)

/-- The id that was just taken is nobody else's, and it does not come again. -/
private theorem Sparing.taken (sparing : Sparing w view) (here : view pid = some (op, st))
    (moved : Moved w w' view)
    (fresh : ∀ id, st'.fresh = some id → st.fresh = some id ∨
      id = w.supply w.issued ∧ w'.issued = w.issued + 1) {q : Nat} {op₁ : FsOp} {st₁ : Upload}
    {id : String} (found : Function.update view pid (some (op, st')) q = some (op₁, st₁))
    (taken : st₁.fresh = some id) :
    (∀ m, w'.issued ≤ m → w'.supply m ≠ id) ∧
      ∀ r op₂ st₂, Function.update view pid (some (op, st')) r = some (op₂, st₂) →
        st₂.fresh = some id → r = q := by
  have next : id = w.supply w.issued → w'.issued = w.issued + 1 →
      (∀ m, w'.issued ≤ m → w'.supply m ≠ id) ∧
        ∀ r op₂ st₂, view r = some (op₂, st₂) → st₂.fresh ≠ some id := by
    rintro rfl issued
    refine ⟨fun m later same => ?_, fun r op₂ st₂ found₂ taken₂ =>
      (sparing.fresh r op₂ st₂ _ found₂ taken₂).1 _ le_rfl rfl⟩
    rw [moved.supply] at same
    have := sparing.ids same
    omega
  have old : ∀ r op₂ st₂, view r = some (op₂, st₂) → st₂.fresh = some id →
      (∀ m, w'.issued ≤ m → w'.supply m ≠ id) ∧
        ∀ r' op₃ st₃, view r' = some (op₃, st₃) → st₃.fresh = some id → r' = r := by
    intro r op₂ st₂ found₂ taken₂
    obtain ⟨never, own⟩ := sparing.fresh r op₂ st₂ id found₂ taken₂
    exact ⟨fun m later => moved.supply ▸ never m (moved.issued.trans later), own⟩
  rcases update_eq_some.mp found with ⟨rfl, ⟨⟩⟩ | ⟨-, known⟩
  · rcases fresh id taken with before | ⟨same, issued⟩
    · obtain ⟨never, own⟩ := old q op st here before
      refine ⟨never, fun r op₂ st₂ found₂ taken₂ => ?_⟩
      rcases update_eq_some.mp found₂ with ⟨rfl, -⟩ | ⟨-, found₂⟩
      · rfl
      · exact own r op₂ st₂ found₂ taken₂
    · obtain ⟨never, nobody⟩ := next same issued
      refine ⟨never, fun r op₂ st₂ found₂ taken₂ => ?_⟩
      rcases update_eq_some.mp found₂ with ⟨rfl, -⟩ | ⟨-, found₂⟩
      · rfl
      · exact absurd taken₂ (nobody r op₂ st₂ found₂)
  · obtain ⟨never, own⟩ := old q op₁ st₁ known taken
    refine ⟨never, fun r op₂ st₂ found₂ taken₂ => ?_⟩
    rcases update_eq_some.mp found₂ with ⟨rfl, ⟨⟩⟩ | ⟨-, found₂⟩
    · rcases fresh id taken₂ with before | ⟨same, issued⟩
      · exact own _ op st here before
      · exact absurd taken ((next same issued).2 q op₁ st₁ known)
    · exact own r op₂ st₂ found₂ taken₂

/-- A step of the request `pid`, whose new knowledge is `st'`. -/
private theorem Sparing.step (sparing : Sparing w view) (here : view pid = some (op, st))
    (locked : Locked w' (Function.update view pid (some (op, st')))) (moved : Moved w w' view)
    (fresh : ∀ id, st'.fresh = some id → st.fresh = some id ∨
      id = w.supply w.issued ∧ w'.issued = w.issued + 1)
    (used : ∀ id, FsStore.HasSession id w'.master → FsStore.HasSession id w.master ∨
      ¬ Virgin w' (Function.update view pid (some (op, st'))) id)
    (pending : ∀ id, st'.pending = some (objectKey id) →
      st.pending = some (objectKey id) ∨ FsStore.HasSession id w.master)
    (listed : ∀ entries, st'.listed = some entries → st.listed = some entries ∨
      ∀ e ∈ entries, ∀ id, e.key = objectKey id → w.objects[objectKey id]? ≠ none)
    (covered : Scanned w' st → st'.op = .sweep → Scanned w' st') (sameOp : st'.op = st.op) :
    Sparing w' (Function.update view pid (some (op, st'))) := by
  -- No id becomes unused again.
  have virgin : ∀ id, Virgin w' (Function.update view pid (some (op, st'))) id →
      Virgin w view id := by
    rintro id (⟨m, later, same⟩ | ⟨q, op₁, st₁, found, taken⟩)
    · exact .inl ⟨m, moved.issued.trans later, moved.supply ▸ same⟩
    · rcases update_eq_some.mp found with ⟨-, ⟨⟩⟩ | ⟨-, old⟩
      · rcases fresh id taken with before | ⟨rfl, -⟩
        · exact .inr ⟨pid, op, st, here, before⟩
        · exact .inl ⟨w.issued, le_rfl, rfl⟩
      · exact .inr ⟨q, op₁, st₁, old, taken⟩
  have unlisted : ∀ id q op₁ st₁ entries, Virgin w view id → view q = some (op₁, st₁) →
      st₁.listed = some entries → ∀ e ∈ entries, e.key ≠ objectKey id :=
    sparing.unlisted
  have keeps : ∀ q op₁ st₁, view q = some (op₁, st₁) → st₁.op = .sweep → Scanned w' st₁ :=
    fun q op₁ st₁ found sweep => (sparing.covered q op₁ st₁ found sweep).moved moved
      (fun id new => (sparing.unused id new).object)
      fun id entries new => unlisted id q op₁ st₁ entries new found
  refine ⟨locked, moved.supply ▸ sparing.ids, ?_, ?_, ?_, ?_, ?_⟩
  · exact fun q op₁ st₁ id found taken => sparing.taken here moved fresh found taken
  · intro id new
    obtain ⟨session, record, object⟩ := sparing.unused id (virgin id new)
    refine ⟨fun here => ?_, fun here => ?_, ?_⟩
    · rcases used id here with old | taken
      · exact session old
      · exact taken new
    · rcases moved.record id here with old | filed
      · exact record old
      · exact session filed
    · cases found : w'.objects[objectKey id]? with
      | none => rfl
      | some o =>
        rcases moved.object id o found with old | ⟨taken, -⟩
        · rw [object] at old
          cases old
        · exact absurd (virgin id new) taken
  · intro id q op₁ st₁ new found put
    rcases update_eq_some.mp found with ⟨-, ⟨⟩⟩ | ⟨-, old⟩
    · rcases pending id put with before | session
      · exact sparing.unput id pid op st (virgin id new) here before
      · exact (sparing.unused id (virgin id new)).session session
    · exact sparing.unput id q op₁ st₁ (virgin id new) old put
  · intro id q op₁ st₁ entries new found lists e mem key
    rcases update_eq_some.mp found with ⟨-, ⟨⟩⟩ | ⟨-, old⟩
    · rcases listed entries lists with before | objects
      · exact unlisted id pid op st entries (virgin id new) here before e mem key
      · exact objects e mem id key (sparing.unused id (virgin id new)).object
    · exact unlisted id q op₁ st₁ entries (virgin id new) old lists e mem key
  · intro q op₁ st₁ found sweep
    rcases update_eq_some.mp found with ⟨-, ⟨⟩⟩ | ⟨-, old⟩
    · exact covered (keeps pid op st here (sameOp ▸ sweep)) sweep
    · exact keeps q op₁ st₁ old sweep

/-- The same request with the same id in reserve and the same scans. -/
structure Upload.Alike (st st' : Upload) : Prop where
  op : st'.op = st.op
  fresh : st'.fresh = st.fresh
  timed : st'.timed = st.timed
  now : st'.now = st.now
  sessions : st'.sessions = st.sessions
  files : st'.files = st.files
  listed : st'.listed = st.listed

private theorem Scanned.alike (covered : Scanned w st) (alike : st.Alike st') : Scanned w st' := by
  obtain ⟨op, held, seen, filed, done, pending, fresh, timed, now, sessions, files, listed⟩ := st
  obtain ⟨op', held', seen', filed', done', pending', fresh', timed', now', sessions', files',
    listed'⟩ := st'
  obtain ⟨rfl, rfl, rfl, rfl, rfl, rfl, rfl⟩ := alike
  exact ⟨covered.clock, covered.timed, covered.order, covered.last, covered.session,
    covered.record, covered.listed⟩

/-- A step that teaches no sweep anything and stores no new session. -/
private theorem Sparing.quiet (sparing : Sparing w view) (here : view pid = some (op, st))
    (locked : Locked w' (Function.update view pid (some (op, st')))) (moved : Moved w w' view)
    (sessions : ∀ id, FsStore.HasSession id w'.master → FsStore.HasSession id w.master)
    (alike : st.Alike st')
    (pending : ∀ id, st'.pending = some (objectKey id) →
      st.pending = some (objectKey id) ∨ FsStore.HasSession id w.master) :
    Sparing w' (Function.update view pid (some (op, st'))) :=
  sparing.step here locked moved (fun _ taken => .inl (alike.fresh ▸ taken))
    (fun id here => .inl (sessions id here)) pending (fun _ lists => .inl (alike.listed ▸ lists))
    (fun covered _ => covered.alike alike) alike.op

/-- A step that adds no session, no record and no object. -/
private theorem Moved.less (clock : w'.clock = w.clock) (supply : w'.supply = w.supply)
    (issued : w.issued ≤ w'.issued)
    (sessions : ∀ id, FsStore.HasSession id w'.master → FsStore.HasSession id w.master)
    (records : ∀ id, FsStore.HasRecord id w'.master → FsStore.HasRecord id w.master)
    (objects : ∀ (k : String) o, w'.objects[k]? = some o → w.objects[k]? = some o) :
    Moved w w' view :=
  ⟨clock.ge, supply, issued, fun id here => .inl (sessions id here),
    fun id here => .inl (records id here), fun _ o found => .inl (objects _ o found)⟩

private theorem Moved.refl : Moved w w view :=
  .less rfl rfl le_rfl (fun _ here => here) (fun _ here => here) fun _ _ found => found

/-- An object is put under the key of a session that has been there. -/
private theorem Moved.put {key : String} {body : Bytes} {w₁ : World}
    (used : ∀ id, key = objectKey id → ¬ Virgin w view id)
    (stored : w₁ = { w with
      uploads := w₁.uploads
      objects := w.objects.insert key ⟨body, w.clock⟩ }) :
    Moved w w₁ view := by
  refine ⟨?_, ?_, ?_, ?_, ?_, ?_⟩
  all_goals rw [stored]
  · exact fun id here => .inl here
  · exact fun id here => .inl here
  · intro id o found
    rw [Kv.get_insert] at found
    split at found
    next same =>
      cases found
      exact .inr ⟨used id same, le_rfl⟩
    next => exact .inl found

/-- An init stores its session under the id it has taken. -/
private theorem Sparing.saveSession (sparing : Sparing w view) (here : view pid = some (op, st))
    {row : UploadSession} (allowed : st.MaySave row)
    (locked : Locked { w with master := FsStore.saveSession row w.master }
      (Function.update view pid (some (op,
        if st.held = none then { st with fresh := none } else { st with seen := some row })))) :
    Sparing { w with master := FsStore.saveSession row w.master } (Function.update view pid
      (some (op, if st.held = none then { st with fresh := none }
        else { st with seen := some row }))) := by
  have records : ∀ f, FsStore.HasRecord f (FsStore.saveSession row w.master) →
      FsStore.HasRecord f w.master :=
    fun f ⟨rec, found⟩ => ⟨rec, (FsStore.getFile_saveSession row w.master f).symm.trans found⟩
  have sessions : ∀ id, FsStore.HasSession id (FsStore.saveSession row w.master) →
      row.id = id ∨ FsStore.HasSession id w.master := by
    rintro id ⟨s, found⟩
    rw [FsStore.getSession_saveSession] at found
    split at found
    next same => exact .inl same
    next => exact .inr ⟨s, found⟩
  rcases allowed with ⟨idle, fresh, -⟩ | ⟨s₀, seen, id, -⟩
  · rw [if_pos idle] at locked ⊢
    have new : Virgin w view row.id := .inr ⟨pid, op, st, here, fresh⟩
    obtain ⟨never, own⟩ := sparing.fresh pid op st row.id here fresh
    refine sparing.step here locked ⟨le_rfl, rfl, le_rfl, fun id here => ?_,
      fun id here => .inl (records id here), fun id o found => .inl found⟩ ?_ (fun id here => ?_)
      (fun id put => .inl put) (fun entries lists => .inl lists) ?_ rfl
    · rcases sessions id here with rfl | old
      · exact .inr ⟨new, rfl⟩
      · exact .inl old
    · exact fun id taken => nomatch taken
    · rcases sessions id here with rfl | old
      · refine .inr ?_
        rintro (⟨m, later, same⟩ | ⟨q, op₁, st₁, found, taken⟩)
        · exact never m later same
        · rcases update_eq_some.mp found with ⟨-, ⟨⟩⟩ | ⟨other, old⟩
          · cases taken
          · exact other (own q op₁ st₁ old taken)
      · exact .inl old
    · exact fun covered _ => ⟨covered.clock, covered.timed, covered.order, covered.last,
        covered.session, covered.record, covered.listed⟩
  · obtain ⟨held, -, present⟩ := sparing.locked.seen pid op st s₀ here seen
    rw [if_neg (by rw [held]; exact Option.some_ne_none _)] at locked ⊢
    have old : ∀ id, FsStore.HasSession id (FsStore.saveSession row w.master) →
        FsStore.HasSession id w.master := by
      intro g stored
      rcases sessions g stored with rfl | old
      · exact id ▸ present
      · exact old
    exact sparing.quiet here locked
      (.less rfl rfl le_rfl old records fun _ _ found => found) old
      ⟨rfl, rfl, rfl, rfl, rfl, rfl, rfl⟩ fun _ put => .inl put

/-- A record is stored beside its session. -/
private theorem Sparing.saveFile (sparing : Sparing w view) (here : view pid = some (op, st))
    {rec : FileRecord}
    (allowed : st.held = some rec.id ∧ ∃ s, st.seen = some s ∧ rec.s3Key = s.s3Key)
    (locked : Locked { w with master := FsStore.saveFile rec w.master }
      (Function.update view pid (some (op, { st with filed := true })))) :
    Sparing { w with master := FsStore.saveFile rec w.master }
      (Function.update view pid (some (op, { st with filed := true }))) := by
  obtain ⟨held, s, seen, -⟩ := allowed
  obtain ⟨held', -, present⟩ := sparing.locked.seen pid op st s here seen
  obtain own : rec.id = s.id := Option.some.inj (held.symm.trans held')
  have sessions : ∀ id, FsStore.HasSession id (FsStore.saveFile rec w.master) →
      FsStore.HasSession id w.master :=
    fun id ⟨row, found⟩ => ⟨row, (FsStore.getSession_saveFile rec w.master id).symm.trans found⟩
  refine sparing.quiet here locked ⟨le_rfl, rfl, le_rfl, fun id here => .inl (sessions id here),
    ?_, fun id o found => .inl found⟩ sessions ⟨rfl, rfl, rfl, rfl, rfl, rfl, rfl⟩
    fun _ put => .inl put
  rintro id ⟨rec', found⟩
  rw [FsStore.getFile_saveFile] at found
  split at found
  next same => exact .inr (same ▸ own ▸ present)
  next => exact .inl ⟨rec', found⟩

/-- A step that stores nothing: the request learns something about what is stored. -/
private theorem Sparing.learn (sparing : Sparing w view) (here : view pid = some (op, st))
    (locked : Locked w (Function.update view pid (some (op, st'))))
    (same : st'.op = st.op ∧ st'.fresh = st.fresh ∧ st'.pending = st.pending)
    (listed : ∀ entries, st'.listed = some entries → st.listed = some entries ∨
      ∀ e ∈ entries, ∀ id, e.key = objectKey id → w.objects[objectKey id]? ≠ none)
    (covered : Scanned w st → st'.op = .sweep → Scanned w st') :
    Sparing w (Function.update view pid (some (op, st'))) :=
  sparing.step here locked .refl (fun _ taken => .inl (same.2.1 ▸ taken))
    (fun _ here => .inl here) (fun _ put => .inl (same.2.2 ▸ put)) listed covered same.1

/-- A call that changes no row and no object. -/
private theorem Sparing.still (sparing : Sparing w view) (here : view pid = some (op, st))
    (locked : Locked w' (Function.update view pid (some (op, st'))))
    (same : w'.clock = w.clock ∧ w'.supply = w.supply ∧ w'.issued = w.issued ∧
      w'.objects = w.objects)
    (sessions : ∀ id, FsStore.getSession id w'.master = FsStore.getSession id w.master)
    (files : ∀ f, FsStore.getFile f w'.master = FsStore.getFile f w.master)
    (alike : st.Alike st')
    (pending : ∀ id, st'.pending = some (objectKey id) →
      st.pending = some (objectKey id) ∨ FsStore.HasSession id w.master) :
    Sparing w' (Function.update view pid (some (op, st'))) := by
  obtain ⟨clock, supply, issued, objects⟩ := same
  have before : ∀ id, FsStore.HasSession id w'.master → FsStore.HasSession id w.master := by
    rintro id ⟨row, found⟩
    exact ⟨row, (sessions id).symm.trans found⟩
  refine sparing.quiet here locked (.less clock supply issued.ge before ?_
    fun k o found => objects ▸ found) before alike pending
  rintro f ⟨rec, found⟩
  exact ⟨rec, (files f).symm.trans found⟩

/-- A call that neither reads nor writes what is stored. -/
private theorem Sparing.apart (sparing : Sparing w view) (here : view pid = some (op, st))
    (locked : Locked w' (Function.update view pid (some (op, st'))))
    (same : w'.clock = w.clock ∧ w'.supply = w.supply ∧ w'.issued = w.issued ∧
      w'.objects = w.objects)
    (master : w'.master = w.master) (alike : st.Alike st') (pending : st'.pending = st.pending) :
    Sparing w' (Function.update view pid (some (op, st'))) :=
  sparing.still here locked same (fun _ => by rw [master]) (fun _ => by rw [master]) alike
    fun _ put => .inl (pending ▸ put)

/-- A delete of rows. -/
private theorem Sparing.delete (sparing : Sparing w view) (here : view pid = some (op, st))
    {master : Kv Value}
    (locked : Locked { w with master := master } (Function.update view pid (some (op, st'))))
    (sessions : ∀ id, FsStore.HasSession id master → FsStore.HasSession id w.master)
    (records : ∀ f, FsStore.HasRecord f master → FsStore.HasRecord f w.master)
    (alike : st.Alike st') (pending : st'.pending = st.pending) :
    Sparing { w with master := master } (Function.update view pid (some (op, st'))) :=
  sparing.quiet here locked (.less rfl rfl le_rfl sessions records fun _ _ found => found) sessions
    alike fun _ put => .inl (pending ▸ put)

/-- A request that reads a session outside of its lock may be about to put the object of it. -/
private theorem Sparing.readSession (sparing : Sparing w view) (here : view pid = some (op, st))
    {id : String} {r : Except Error (Option UploadSession)}
    (read : FsStore.getSession id w.master = r)
    (locked : Locked w (Function.update view pid
      (some (op, uploadProtocol.track st (.fs .master (.getSession id)) r)))) :
    Sparing w (Function.update view pid
      (some (op, uploadProtocol.track st (.fs .master (.getSession id)) r))) := by
  cases r with
  | error e =>
    exact sparing.apart here locked ⟨rfl, rfl, rfl, rfl⟩ rfl ⟨rfl, rfl, rfl, rfl, rfl, rfl, rfl⟩ rfl
  | ok found =>
    simp only at locked ⊢
    split at locked
    next held =>
      rw [if_pos held]
      exact sparing.apart here locked ⟨rfl, rfl, rfl, rfl⟩ rfl
        ⟨rfl, rfl, rfl, rfl, rfl, rfl, rfl⟩ rfl
    next other =>
      rw [if_neg other]
      split at locked
      next idle =>
        rw [if_pos idle]
        refine sparing.still here locked ⟨rfl, rfl, rfl, rfl⟩ (fun _ => rfl) (fun _ => rfl)
          ⟨rfl, rfl, rfl, rfl, rfl, rfl, rfl⟩ fun g put => .inr ?_
        -- The object to be put belongs to the session that was read.
        obtain ⟨s, rfl, putOf⟩ := Option.bind_eq_some_iff.mp put
        have key := st.op.putOf_eq_some putOf
        rw [(sparing.locked.own.session id s read).2] at key
        exact objectKey_inj.mp key ▸ ⟨s, read⟩
      next busy =>
        rw [if_neg busy]
        exact sparing.apart here locked ⟨rfl, rfl, rfl, rfl⟩ rfl
          ⟨rfl, rfl, rfl, rfl, rfl, rfl, rfl⟩ rfl

/-- A read of a file teaches a request at most that the record is there. -/
private theorem Upload.alike_getFile (st : Upload) (f : String)
    (r : Except Error (Option FileRecord)) :
    st.Alike (uploadProtocol.track st (.fs .master (.getFile f)) r) ∧
      (uploadProtocol.track st (.fs .master (.getFile f)) r).pending = st.pending := by
  rcases st.track_getFile f r with same | ⟨same, -⟩
  · rw [same]
    exact ⟨⟨rfl, rfl, rfl, rfl, rfl, rfl, rfl⟩, rfl⟩
  · rw [same]
    exact ⟨⟨rfl, rfl, rfl, rfl, rfl, rfl, rfl⟩, rfl⟩

/-- The scan of the sessions names the key of every session. -/
private theorem Scanned.listSessions (covered : Scanned w st) (own : FsStore.OwnKeys w.master)
    (timed : st.timed = true) (first : st.sessions = none) :
    Scanned w { st with sessions := some (FsStore.listSessions w.master) } := by
  have noFiles : st.files = none := by
    by_contra scanned
    exact covered.order scanned first
  have noListing : st.listed = none := by
    by_contra listed
    exact covered.last listed noFiles
  refine ⟨covered.clock, fun _ => timed, fun _ => Option.some_ne_none _, covered.last, ?_, ?_, ?_⟩
  · rintro id - ⟨row, found⟩
    refine .inl (List.mem_append_left _ (List.mem_map.mpr ⟨row, ?_, (own.session id row found).2⟩))
    refine FsStore.mem_listSessions.mpr ⟨FsStore.sessionKey id, ?_, FsStore.metaKey_sessionKey id⟩
    exact FsStore.getSession_eq_some.mp found
  · exact fun id scanned => absurd noFiles scanned
  · intro id entries listed
    rw [show st.listed = some entries from listed] at noListing
    cases noListing

/-- The scan of the files names the key of every file. -/
private theorem Scanned.listFiles (covered : Scanned w st) (own : FsStore.OwnKeys w.master)
    (second : st.sessions ≠ none ∧ st.files = none) :
    Scanned w { st with files := some (FsStore.listFiles w.master) } := by
  have noListing : st.listed = none := by
    by_contra listed
    exact covered.last listed second.2
  have more : ∀ key ∈ st.named,
      key ∈ Upload.named { st with files := some (FsStore.listFiles w.master) } := by
    intro key mem
    rw [Upload.named, second.2] at mem
    exact List.mem_append_left _ (by simpa using mem)
  refine ⟨covered.clock, covered.timed, fun _ => second.1, fun _ => Option.some_ne_none _,
    ?_, ?_, ?_⟩
  · intro id scanned here
    exact (covered.session id scanned here).imp (more _) fun young => young
  · rintro id - ⟨rec, found⟩
    refine .inl (List.mem_append_right _ (List.mem_map.mpr ⟨rec, ?_, (own.record id rec found).2⟩))
    refine FsStore.mem_listFiles.mpr ⟨FsStore.fileKey id, ?_, FsStore.metaKey_fileKey id⟩
    exact FsStore.getFile_eq_some.mp found
  · intro id entries listed
    rw [show st.listed = some entries from listed] at noListing
    cases noListing

/-- The objects that `listKeys` answers. -/
private theorem mem_listKeys {start : String} {e : ListedKey}
    (mem : e ∈ (w.objects.toList.filter fun e => Text.startsWith start e.1).map fun e =>
      (⟨e.1, e.2.lastModified⟩ : ListedKey)) :
    ∃ o, w.objects[e.key]? = some o ∧ o.lastModified = e.lastModified := by
  obtain ⟨⟨k, o⟩, found, rfl⟩ := List.mem_map.mp mem
  exact ⟨o, Kv.mem_toList.mp (List.mem_filter.mp found).1, rfl⟩

/-- The listing of the objects shows how old each one is. -/
private theorem Scanned.listKeys (covered : Scanned w st) (third : st.files ≠ none)
    {entries : List ListedKey} (listed : ∀ e ∈ entries, ∃ o, w.objects[e.key]? = some o ∧
      o.lastModified = e.lastModified) : Scanned w { st with listed := some entries } := by
  refine ⟨covered.clock, covered.timed, covered.order, fun _ => third, covered.session,
    covered.record, ?_⟩
  rintro id _ ⟨⟩ here e mem key
  have safe : st.Safe w id := here.elim (covered.session id (covered.order third))
    (covered.record id third)
  refine safe.imp (fun named => named) fun young => ?_
  obtain ⟨o, found, same⟩ := listed e mem
  exact same ▸ young o (key ▸ found)

end Steps

private theorem sparing_s3 {w : World} {view : Nat → Option (FsOp × Upload)} {pid : Nat}
    {op : FsOp} {st : Upload} {c : S3Call} (sparing : Sparing w view)
    (here : view pid = some (op, st)) (allowed : uploadProtocol.allowed st (.s3 c))
    (locked : Locked (Call.exec (.s3 c) w).2 (Function.update view pid
      (some (op, uploadProtocol.track st (.s3 c) (Call.exec (.s3 c) w).1)))) :
    Sparing (Call.exec (.s3 c) w).2 (Function.update view pid
      (some (op, uploadProtocol.track st (.s3 c) (Call.exec (.s3 c) w).1))) := by
  obtain ⟨master, -, clock⟩ := S3Call.exec_apart c w
  obtain ⟨supply, issued⟩ := S3Call.ids_exec c w
  have sessions : ∀ id, FsStore.HasSession id (c.exec w).2.master →
      FsStore.HasSession id w.master := fun id here => master ▸ here
  have records : ∀ id, FsStore.HasRecord id (c.exec w).2.master →
      FsStore.HasRecord id w.master := fun id here => master ▸ here
  have fewer : (∀ (k : String) o, (c.exec w).2.objects[k]? = some o → w.objects[k]? = some o) →
      Moved w (c.exec w).2 view := .less clock supply issued sessions records
  have same := S3Call.objects_exec (c := c) (w := w)
  cases c with
  | putObject key body =>
    -- a key that is put belongs to an upload under way, so its id is not a new one
    have used : ∀ id, key = objectKey id → ¬ Virgin w view id := by
      rintro id rfl new
      exact sparing.unput id pid op st new here allowed
    exact sparing.quiet here locked (.put used rfl) sessions ⟨rfl, rfl, rfl, rfl, rfl, rfl, rfl⟩
      fun id put => by cases put
  | completeMultipart key id parts =>
    obtain ⟨-, row, seen, rfl⟩ := allowed
    obtain ⟨-, key, present⟩ := sparing.locked.seen pid op st row here seen
    refine sparing.quiet here locked ?_ sessions ⟨rfl, rfl, rfl, rfl, rfl, rfl, rfl⟩
      fun id put => .inl put
    -- nor is the id of a session that is there
    have used : ∀ g, row.s3Key = objectKey g → ¬ Virgin w view g := by
      rintro g same new
      obtain rfl := objectKey_inj.mp (key.symm.trans same)
      exact (sparing.unused _ new).session present
    simp only [Call.exec, S3Call.exec]
    split
    · exact .refl
    · split
      · exact .refl
      · exact .put used rfl
  | deleteObject key =>
    refine sparing.quiet here locked (fewer fun k o found => ?_) sessions
      ⟨rfl, rfl, rfl, rfl, rfl, rfl, rfl⟩ fun id put => .inl put
    change (w.objects.erase key)[k]? = some o at found
    rw [Kv.get_erase] at found
    split at found
    · cases found
    · exact found
  | listKeys start =>
    refine sparing.learn here locked ⟨rfl, rfl, rfl⟩ ?_
      fun covered _ => covered.listKeys allowed.1 fun e mem => mem_listKeys mem
    rintro _ ⟨⟩
    refine .inr fun e mem id key absent => ?_
    obtain ⟨o, found, -⟩ := mem_listKeys mem
    rw [key, absent] at found
    cases found
  | _ =>
    refine sparing.quiet here locked (fewer fun k o found => ?_) sessions
      ⟨rfl, rfl, rfl, rfl, rfl, rfl, rfl⟩ fun id put => .inl put
    rwa [← same (fun _ _ bad => by cases bad) (fun _ bad => by cases bad)
      fun _ _ _ bad => by cases bad]

private theorem sparing_fs {w : World} {view : Nat → Option (FsOp × Upload)} {pid : Nat}
    {op : FsOp} {st : Upload} {c : FsCall} (sparing : Sparing w view)
    (here : view pid = some (op, st)) (allowed : uploadProtocol.allowed st (.fs .master c))
    (locked : Locked (Call.exec (.fs .master c) w).2 (Function.update view pid
      (some (op, uploadProtocol.track st (.fs .master c) (Call.exec (.fs .master c) w).1)))) :
    Sparing (Call.exec (.fs .master c) w).2 (Function.update view pid
      (some (op, uploadProtocol.track st (.fs .master c) (Call.exec (.fs .master c) w).1))) := by
  cases c with
  | saveSession row => exact sparing.saveSession here allowed locked
  | saveFile rec => exact sparing.saveFile here allowed.2 locked
  | deleteSession id session =>
    have sessions : ∀ g, FsStore.HasSession g (FsStore.deleteSession id session w.master) →
        FsStore.HasSession g w.master := by
      rintro g ⟨row, found⟩
      rw [FsStore.getSession_deleteSession] at found
      split at found
      · cases found
      · exact ⟨row, found⟩
    refine sparing.delete here locked sessions ?_ ⟨rfl, rfl, rfl, rfl, rfl, rfl, rfl⟩ rfl
    rintro f ⟨rec, found⟩
    exact ⟨rec, (FsStore.getFile_deleteSession id session w.master f).symm.trans found⟩
  | deleteFile f =>
    have sessions : ∀ g, FsStore.HasSession g (FsStore.deleteFile f w.master) →
        FsStore.HasSession g w.master := by
      rintro g ⟨row, found⟩
      exact ⟨row, (FsStore.getSession_deleteFile f w.master g).symm.trans found⟩
    exact sparing.delete here locked sessions (fun g => FsStore.HasRecord.of_deleteFile)
      ⟨rfl, rfl, rfl, rfl, rfl, rfl, rfl⟩ rfl
  | getSession id => exact sparing.readSession here rfl locked
  | getFile f =>
    obtain ⟨alike, pending⟩ := st.alike_getFile f (FsStore.getFile f w.master)
    exact sparing.apart here locked ⟨rfl, rfl, rfl, rfl⟩ rfl alike pending
  | listSessions =>
    exact sparing.learn here locked ⟨rfl, rfl, rfl⟩ (fun _ lists => .inl lists)
      fun covered _ => covered.listSessions sparing.locked.own allowed.1 allowed.2
  | listFiles =>
    exact sparing.learn here locked ⟨rfl, rfl, rfl⟩ (fun _ lists => .inl lists)
      fun covered _ => covered.listFiles sparing.locked.own allowed
  | filesForRow ty rid => cases allowed
  | page cursor => cases allowed
  | getBytes k => cases allowed
  | setBytes k v => cases allowed
  | commit ws => cases allowed
  | _ =>
    -- The relations and the rows of the multiparts: neither a session nor a record.
    exact sparing.still here locked ⟨rfl, rfl, rfl, rfl⟩
      (fun id => FsCall.getSession_exec id ⟨st, allowed⟩ (fun _ bad => by cases bad)
        fun _ _ bad => by cases bad)
      (fun f => FsCall.getFile_exec f ⟨st, allowed⟩ (fun _ bad => by cases bad)
        fun _ bad => by cases bad) ⟨rfl, rfl, rfl, rfl, rfl, rfl, rfl⟩ fun _ put => .inl put

private theorem sparing_call {w : World} {view : Nat → Option (FsOp × Upload)} {pid : Nat}
    {op : FsOp} {st : Upload} {c : Call} (sparing : Sparing w view)
    (here : view pid = some (op, st)) (allowed : uploadProtocol.allowed st c)
    (enabled : c.enabled w) :
    Sparing (c.exec w).2 (Function.update view pid
      (some (op, uploadProtocol.track st c (c.exec w).1))) := by
  have locked := sparing.locked.call here allowed enabled
  cases c with
  | fs side c =>
    cases side with
    | replica sub => cases c <;> cases allowed
    | master => exact sparing_fs sparing here allowed locked
  | s3 c => exact sparing_s3 sparing here allowed locked
  | wal | policy | lock | unlock =>
    exact sparing.apart here locked ⟨rfl, rfl, rfl, rfl⟩ rfl
      ⟨rfl, rfl, rfl, rfl, rfl, rfl, rfl⟩ rfl
  | now =>
    refine sparing.learn here locked ⟨rfl, rfl, rfl⟩ (fun _ lists => .inl lists) ?_
    -- The clock is read before the first scan.
    intro covered sweep
    obtain ⟨-, first⟩ := allowed sweep
    have unscanned : ¬ st.sessions ≠ none := not_not.mpr first
    exact ⟨fun _ => le_rfl, fun _ => rfl, covered.order, covered.last,
      fun id scanned => absurd scanned unscanned,
      fun id scanned => absurd (covered.order scanned) unscanned,
      fun id entries listed => absurd (covered.order (covered.last (by
        rw [show st.listed = some entries from listed]; exact Option.some_ne_none _))) unscanned⟩
  | uuid =>
    refine sparing.step here locked (.less rfl rfl (Nat.le_succ _) (fun _ here => here)
      (fun _ here => here) fun _ _ found => found) ?_ (fun _ here => .inl here)
      (fun _ put => .inl put) (fun _ lists => .inl lists) (fun covered _ => ?_) rfl
    · intro id taken
      change (st.fresh <|> some w.fresh.1) = some id at taken
      cases before : st.fresh with
      | none =>
        rw [before] at taken
        exact .inr ⟨(Option.some.inj taken).symm, rfl⟩
      | some old =>
        rw [before] at taken
        exact .inl taken
    · exact ⟨covered.clock, covered.timed, covered.order, covered.last, covered.session,
        covered.record, covered.listed⟩

/-- Every run. -/
def AnyRun (_ : FsPool) (_ : Label Call Error FsOp) : Prop := True

private theorem sparing_preserved (bucket : String) :
    (fsSystem bucket).Preserves uploadProtocol Upload.start AnyRun (fun _ => Sparing) where
  answers c w := c.answered_exec w
  faults _ _ mayFail := Call.answered_fault mayFail
  spawn := by
    intro h s pid op _ free sparing
    -- A request starts without an id of its own, and it has scanned nothing.
    have virgin : ∀ id, Virgin s.world (Function.update (uploadProtocol.view Upload.start s) pid
        (some (op, Upload.start op))) id →
        Virgin s.world (uploadProtocol.view Upload.start s) id := by
      rintro id (later | ⟨q, op₁, st₁, found, taken⟩)
      · exact .inl later
      · rcases update_eq_some.mp found with ⟨-, ⟨⟩⟩ | ⟨-, old⟩
        · cases taken
        · exact .inr ⟨q, op₁, st₁, old, taken⟩
    refine ⟨sparing.locked.spawn, sparing.ids, ?_, fun id new => sparing.unused id (virgin id new),
      ?_, ?_, ?_⟩
    · intro q op₁ st₁ id found taken
      rcases update_eq_some.mp found with ⟨-, ⟨⟩⟩ | ⟨-, old⟩
      · cases taken
      · obtain ⟨never, own⟩ := sparing.fresh q op₁ st₁ id old taken
        refine ⟨never, fun r op₂ st₂ found₂ taken₂ => ?_⟩
        rcases update_eq_some.mp found₂ with ⟨-, ⟨⟩⟩ | ⟨-, old₂⟩
        · cases taken₂
        · exact own r op₂ st₂ old₂ taken₂
    · intro id q op₁ st₁ new found
      rcases update_eq_some.mp found with ⟨-, ⟨⟩⟩ | ⟨-, old⟩
      · exact fun put => nomatch put
      · exact sparing.unput id q op₁ st₁ (virgin id new) old
    · intro id q op₁ st₁ entries new found listed
      rcases update_eq_some.mp found with ⟨-, ⟨⟩⟩ | ⟨-, old⟩
      · cases listed
      · exact sparing.unlisted id q op₁ st₁ entries (virgin id new) old listed
    · intro q op₁ st₁ found sweep
      rcases update_eq_some.mp found with ⟨-, ⟨⟩⟩ | ⟨-, old⟩
      · exact ⟨fun bad => (nomatch bad), fun bad => absurd rfl bad, fun bad => absurd rfl bad,
          fun bad => absurd rfl bad, fun _ bad => absurd rfl bad, fun _ bad => absurd rfl bad,
          fun _ _ bad => nomatch bad⟩
      · exact sparing.covered q op₁ st₁ old sweep
  env := by
    rintro h s w - around sparing
    have locked := sparing.locked.env around
    obtain ⟨clock, enforcer, later, rfl⟩ := around
    refine ⟨locked, sparing.ids, sparing.fresh, fun id new => ?_, sparing.unput, sparing.unlisted,
      fun q op st found sweep => ?_⟩
    · obtain ⟨session, record, object⟩ := sparing.unused id new
      exact ⟨session, record, object⟩
    · have moved : Moved s.world { s.world with clock := clock, enforcer := enforcer }
          (uploadProtocol.view Upload.start s) :=
        ⟨later, rfl, le_rfl, fun id here => .inl here, fun id here => .inl here,
          fun id o found => .inl found⟩
      exact (sparing.covered q op st found sweep).moved moved
        (fun id new => (sparing.unused id new).object)
        fun id entries new => sparing.unlisted id q op st entries new found
  call := fun _ _ _ _ _ _ _ here allowed enabled sparing =>
    sparing_call sparing here allowed enabled
  fault := by
    intro h s pid op st c e _ here _ mayFail sparing
    refine sparing.quiet here (sparing.locked.fault (e := e) here mayFail) .refl
      (fun _ here => here) ?_ ?_
    · rcases st.track_error e (Call.answered_fault (e := e) mayFail) with same | same
      · rw [same]
        exact ⟨rfl, rfl, rfl, rfl, rfl, rfl, rfl⟩
      · rw [same]
        exact ⟨rfl, rfl, rfl, rfl, rfl, rfl, rfl⟩
    · intro id put
      rcases st.track_error e (Call.answered_fault (e := e) mayFail) with same | same
      · exact .inl (same ▸ put)
      · rw [same] at put
        cases put
  drop := fun _ _ _ _ _ _ _ bad _ => nomatch bad

/-! ### The pass -/

/-- **The orphan-byte pass spares what is live**. When a sweep makes a delete of its byte pass, in
    any run from a store in which the ids to come are unused, the key it deletes is that of no
    session and of no file, and every row of both its scans did decode. -/
theorem orphan_pass_spares_live (bucket : String) {w : World} (own : FsStore.OwnKeys w.master)
    (ids : Function.Injective w.supply) (unused : ∀ m, w.issued ≤ m → Unused w (w.supply m))
    {h : List (Label Call Error FsOp)} {s t : FsPool} {pid : Nat} {key : String}
    {p : Proc Call.Ans Error FsOp}
    (run : (fsSystem bucket).Trace AnyRun (fsPool w) h s)
    (step : (fsSystem bucket).Step s (.call pid (.s3 (.deleteObject key)) none) t)
    (at_pid : s.procs pid = some p) (sweep : p.op = .sweep)
    (bytes : (uploadOf p).held = none ∧ (uploadOf p).listed ≠ none) :
    (∀ id row, FsStore.getSession id s.world.master = .ok (some row) → row.s3Key ≠ key) ∧
      (∀ f rec, FsStore.getFile f s.world.master = .ok (some rec) → rec.s3Key ≠ key) ∧
      ∃ sessions files, (uploadOf p).sessions = some sessions ∧ (uploadOf p).files = some files ∧
        sessions.undecodable = [] ∧ files.undecodable = [] := by
  have start : Sparing w (uploadProtocol.view Upload.start (fsPool w)) := by
    -- at the start no process has drawn an id
    have virgin : ∀ id, Virgin w (uploadProtocol.view Upload.start (fsPool w)) id →
        Unused w id := by
      rintro id (⟨m, later, rfl⟩ | ⟨q, op, st, bad, -⟩)
      · exact unused m later
      · cases bad
    exact ⟨.start own, ids, fun _ _ _ _ bad => (nomatch bad), virgin,
      fun _ _ _ _ _ bad => (nomatch bad), fun _ _ _ _ _ _ bad => (nomatch bad),
      fun _ _ _ bad => nomatch bad⟩
  obtain ⟨obeyed, kept⟩ := System.invariant_of_trace (fun _ _ op _ => fsOp_conf bucket op)
    (sparing_preserved bucket) run (System.obeyed_of_no_procs _) start
  cases step with
  | @call _ op past c next at_call enabled =>
    obtain rfl : _ = p := Option.some.inj (at_call.symm.trans at_pid)
    have here : uploadProtocol.view Upload.start s pid =
        some (op, uploadProtocol.observe (Upload.start op) past) :=
      uploadProtocol.view_eq_some.mpr ⟨_, at_call, rfl, rfl⟩
    have allowed := (obeyed pid _ at_call).1
    change Upload.MayDelete _ _ at allowed
    have op' := (kept.locked.op pid _ _ here).trans sweep
    have covered := kept.covered pid _ _ here op'
    obtain ⟨idle, scanned⟩ := bytes
    obtain ⟨entries, listed⟩ := Option.ne_none_iff_exists'.mp scanned
    change Upload.held (uploadProtocol.observe (Upload.start op) past) = none at idle
    change Upload.listed (uploadProtocol.observe (Upload.start op) past) = some entries at listed
    rw [Upload.MayDelete, op', idle, listed] at allowed
    obtain ⟨sessions, files, scan₁, scan₂, decoded₁, decoded₂, unnamed, e, mem, rfl, old⟩ := allowed
    have live : ∀ id, FsStore.HasSession id s.world.master ∨ FsStore.HasRecord id s.world.master →
        objectKey id ≠ e.key := by
      intro id here same
      -- what is live now was named by a listing, or its object is younger than the listing
      rcases covered.listed id entries listed here e mem same.symm with named | young
      · rw [Upload.named, scan₁, scan₂, same] at named
        exact unnamed named
      · have fresh := (Int.sub_nonpos_of_le young).trans (show 0 ≤ Gc.ttlSecs by decide)
        exact not_lt.mpr fresh old
    refine ⟨fun id row found => ?_, fun f rec found => ?_, sessions, files, scan₁, scan₂,
      decoded₁, decoded₂⟩
    · rw [(kept.locked.own.session id row found).2]
      exact live id (.inl ⟨row, found⟩)
    · rw [(kept.locked.own.record f rec found).2]
      exact live f (.inr ⟨rec, found⟩)

/-! ### A run -/

def anyScheduler (bucket : String) : (fsSystem bucket).Scheduler AnyRun :=
  worldScheduler (fun _ _ => true) fun _ _ _ => trivial

/-- `alice` has started an upload, `bob` has a file, and an object is left of an earlier upload. -/
def leftoverWorld : World :=
  { World.init longIds with
    master := ((∅ : Kv Value).insert (FsStore.sessionKey "f")
      (.session ⟨"f", 4, 4, 1, none, "files/f", "alice", 100000, [none], [none]⟩)).insert
        (FsStore.fileKey "g") (.file ⟨"g", "plan.txt", "text/plain", 4, "files/g", "bob", 100000⟩)
    objects := ((∅ : Kv Object).insert "files/g" ⟨[1], 0⟩).insert "files/x" ⟨[2], 0⟩
    clock := 100000 }

theorem leftoverWorld_session {id : String} {row : UploadSession}
    (found : FsStore.getSession id leftoverWorld.master = .ok (some row)) :
    id = "f" ∧ row.id = "f" ∧ row.s3Key = "files/f" := by
  rw [FsStore.getSession_eq_some] at found
  by_cases same : "f" = id
  · subst same
    cases found
    exact ⟨rfl, rfl, rfl⟩
  · simp [leftoverWorld, FsStore.sessionKey_inj, same,
      FsStore.fileKey_ne_sessionKey] at found

theorem leftoverWorld_record {f : String} {rec : FileRecord}
    (found : FsStore.getFile f leftoverWorld.master = .ok (some rec)) :
    f = "g" ∧ rec.id = "g" ∧ rec.s3Key = "files/g" := by
  rw [FsStore.getFile_eq_some] at found
  by_cases same : "g" = f
  · subst same
    cases found
    exact ⟨rfl, rfl, rfl⟩
  · simp [leftoverWorld, FsStore.fileKey_inj, same,
      (FsStore.fileKey_ne_sessionKey _ _).symm] at found

theorem leftoverWorld_own : FsStore.OwnKeys leftoverWorld.master := by
  refine ⟨fun id row found => ?_, fun f rec found => ?_⟩
  · obtain ⟨rfl, own, key⟩ := leftoverWorld_session found
    exact ⟨own, key.trans (by decide)⟩
  · obtain ⟨rfl, own, key⟩ := leftoverWorld_record found
    exact ⟨own, key.trans (by decide)⟩

theorem leftoverWorld_unused (m : Nat) : Unused leftoverWorld (leftoverWorld.supply m) := by
  have long : ∀ id, longIds m = id → 1 < id.length := by
    rintro _ rfl
    rw [longIds_length]
    omega
  refine ⟨fun ⟨row, found⟩ => ?_, fun ⟨rec, found⟩ => ?_, ?_⟩
  · exact absurd (long "f" (leftoverWorld_session found).1) (by decide)
  · exact absurd (long "g" (leftoverWorld_record found).1) (by decide)
  · have apart : ∀ id, id.length ≤ 1 → objectKey id ≠ objectKey (longIds m) := fun id short same =>
      absurd (long id (objectKey_inj.mp same).symm) (by omega)
    have g := apart "g" (by decide)
    have x := apart "x" (by decide)
    change ((_ : Kv Object)[objectKey (longIds m)]?) = none
    rw [show leftoverWorld.objects = ((∅ : Kv Object).insert (objectKey "g") ⟨[1], 0⟩).insert
      (objectKey "x") ⟨[2], 0⟩ by rfl, Kv.get_insert, if_neg x, Kv.get_insert, if_neg g]
    rfl

/-- The sweep comes to its byte pass. -/
def leftoverSweep : List (System.Move Error FsOp) := .spawn 0 .sweep :: List.replicate 8 (.call 0)

theorem leftoverSweep_played :
    ((anyScheduler "b").play leftoverSweep [] (fsPool leftoverWorld)).isSome = true := by
  decide +kernel

/-- The state in which the sweep deletes the object that nobody has. -/
def leftover : FsPool :=
  (((anyScheduler "b").play leftoverSweep [] (fsPool leftoverWorld)).get leftoverSweep_played).2

theorem orphan_pass_spares_live_leftover :
    ∃ t : FsPool, (fsSystem "b").Step leftover (.call 0 (.s3 (.deleteObject "files/x")) none) t ∧
      (∀ id row, FsStore.getSession id leftover.world.master = .ok (some row) →
        row.s3Key ≠ "files/x") ∧
      ∀ f rec, FsStore.getFile f leftover.world.master = .ok (some rec) →
        rec.s3Key ≠ "files/x" := by
  have run := (anyScheduler "b").trace_of_play leftoverSweep _ leftoverSweep_played
  have sweeps : (leftover.procs 0).map (fun p => (p.op, (uploadOf p).held,
      (uploadOf p).listed.isSome)) = some (.sweep, none, true) := by decide +kernel
  obtain ⟨p, at_0, same⟩ := Option.map_eq_some_iff.mp sweeps
  obtain ⟨sweep, same⟩ := Prod.mk.inj same
  obtain ⟨idle, listed⟩ := Prod.mk.inj same
  have moved : ((anyScheduler "b").move leftover (.call 0)).map (·.1) =
      some (.call 0 (.s3 (.deleteObject "files/x")) none) := by decide +kernel
  obtain ⟨⟨l, t⟩, move, rfl⟩ := Option.map_eq_some_iff.mp moved
  have step := System.Scheduler.step_of_move move
  obtain ⟨sessions, files, -⟩ := orphan_pass_spares_live "b" leftoverWorld_own longIds_injective
    (fun m _ => leftoverWorld_unused m) run step at_0 sweep
    ⟨idle, Option.isSome_iff_ne_none.mp listed⟩
  exact ⟨t, step, sessions, files⟩

end RustApi
