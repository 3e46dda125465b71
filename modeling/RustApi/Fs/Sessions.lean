import RustApi.Fs.Uploads

/-!
# Sessions and multipart records

An upload in several parts has two rows: its session and its multipart record. A request
that touches them works under a protocol: which row it may write, given what it has read
under the lock of the session, and in which order (`fsOp_works`).
-/

namespace RustApi

open Lib

/-! ### What a request works on -/

/-- The part that a request uploads. -/
def FsOp.slot : FsOp → Option Nat
  | .uploadPart _ partIndex _ _ _ _ => some partIndex
  | _ => none

/-- The sessions that a request may read and lock. -/
def FsOp.Names : FsOp → String → Prop
  | .uploadPart f _ _ _ _ _, id | .completeUpload f _ _, id | .cancelUpload f _, id => id = f
  | .sweep, _ => True
  | _, _ => False

/-- What a request has read and written. An init has drawn the id `file` and, for a multipart
    upload, `upload`; it has `saved` its session, and is in `limbo` until it has tried to write
    the record. An upload has read the session `target` first and found its record (`ensured`).
    Under the lock `held`, `row` is the session row that was found first or written last, `read`
    what was read or written last, and `record` the record. In the `window` the record has the
    part and the session row has not; `merged` says that the row got it, and `failed` that a
    write of the row did not succeed. -/
structure Work where
  op : FsOp
  held : Option String
  now : Option Int
  file : Option String
  upload : Option String
  saved : Bool
  limbo : Bool
  target : Option UploadSession
  ensured : Bool
  row : Option UploadSession
  read : Option UploadSession
  record : Option (Option PersistedMultipart)
  window : Bool
  merged : Bool
  failed : Bool

namespace Work

def start (op : FsOp) : Work :=
  ⟨op, none, none, none, none, false, false, none, false, none, none, none, false, false, false⟩

variable (st : Work)

/-- The first row of a session, with no part. -/
def Opens (s : UploadSession) : Prop :=
  st.saved = false ∧ st.file = some s.id ∧ st.upload = s.s3UploadId ∧ st.now = some s.createdAt ∧
    (s.fileTotalParts = 1 → s.s3UploadId = none) ∧ ∀ e ∈ s.etags, e = none

/-- The record of the upload has the part, or there is none. -/
def Noted (slot : Nat) (etag : String) : Prop :=
  ∃ t, st.target = some t ∧ (t.fileTotalParts = 1 ∨ st.ensured = true ∧
    (st.record = some none ∨ ∃ m, st.record = some (some m) ∧ m.parts.lookup slot = some etag))

/-- The session row with the part, after the record. -/
def Merges (s : UploadSession) : Prop :=
  ∃ s₀ slot etag checksum, st.row = some s₀ ∧ s = FsEngine.withPart s₀ slot etag checksum ∧
    slot < s₀.etags.length ∧ st.op.slot = some slot ∧ st.Noted slot etag

/-- The record with the part, before the session row. -/
def Records (m : PersistedMultipart) : Prop :=
  ∃ r slot etag, st.record = some (some r) ∧ m = { r with parts := insertPart r.parts slot etag } ∧
    st.op.slot = some slot ∧ st.ensured = true ∧ st.row ≠ none

/-- The session under the lock. -/
def Touches (id : String) : Prop := st.held = some id ∨ ∃ s, st.row = some s ∧ s.id = id

/-- A session is deleted with the row that was read last, by a sweep only when it is expired. -/
def Drops (id : String) (session : Option UploadSession) : Prop :=
  st.op.slot = none ∧ st.Touches id ∧ session = st.read ∧ ∃ s, st.row = some s ∧
    (st.op = .sweep → ∃ t, st.now = some t ∧ s.isExpired t Gc.ttlSecs = true)

end Work

@[reducible] def workProtocol : Prog.Protocol Call.Ans Error where
  State := Work
  possible c r := c.Answered r
  allowed st
    | .lock id => st.op.Names id ∧ st.window = false
    | .unlock id => st.held = some id ∧ (st.window = true → st.failed = true)
    | .uuid => st.saved = false ∧ (st.file = none ∨ st.upload = none) ∧
      ∃ req sub, st.op = .initUpload req sub
    | .now => st.saved = false
    | .fs .master (.getSession id) =>
      if st.held = none then st.op.Names id ∧ st.target = none else st.Touches id
    | .fs .master (.saveSession s) => if st.held = none then st.Opens s else st.Merges s
    | .fs .master (.loadMultipart u) => st.op.slot ≠ none →
      (st.held ≠ none → st.ensured = true) ∧ ∃ t, st.target = some t ∧ t.s3UploadId = some u
    | .fs .master (.saveMultipart m) =>
      if st.held = none then st.limbo = true ∧ st.upload = some m.uploadId ∧ m.parts = []
      else st.Records m
    | .fs .master (.deleteMultipart u) =>
      st.op.slot = none ∧ ∃ s, st.row = some s ∧ s.s3UploadId = some u
    | .fs .master (.deleteSession id session) => st.Drops id session
    | .fs .master (.setBytes ..) | .fs .master (.commit _) | .fs (.replica _) _ => False
    | .fs .master _ => True
    | _ => True
  track st
    | .lock id, _ => { st with held := some id, row := none, read := none, record := none }
    | .unlock _, _ =>
      { st with held := none, row := none, read := none, record := none, window := false }
    | .uuid, .ok id =>
      if st.file = none then { st with file := some id }
      else { st with upload := some ("ostore-" ++ id) }
    | .now, .ok t => { st with now := some t }
    | .fs .master (.getSession _), .ok found =>
      if st.held = none then { st with target := found }
      else { st with row := st.row <|> found, read := found }
    | .fs .master (.saveSession s), .ok _ =>
      if st.held = none then { st with saved := true, limbo := s.s3UploadId.isSome }
      else { st with row := some s, read := some s, window := false, merged := true }
    | .fs .master (.saveSession _), .error _ => { st with failed := true }
    | .fs .master (.loadMultipart _), .ok found =>
      if st.op.slot = none then st
      else if st.held = none then { st with ensured := st.ensured || found.isSome }
      else { st with record := some found }
    | .fs .master (.saveMultipart m), .ok _ =>
      if st.held = none then { st with limbo := false }
      else { st with record := some (some m), window := true }
    | .fs .master (.saveMultipart _), .error _ => { st with limbo := false }
    | .fs .master (.deleteSession ..), .ok _ => { st with row := none }
    | .s3 (.getState _), .ok none | .s3 (.getState _), .error _ =>
      if st.op.slot = none then { st with limbo := false } else st
    | _, _ => st

/-- What a request has done so far. -/
def workOf (p : Proc Call.Ans Error FsOp) : Work :=
  workProtocol.observe (Work.start p.op) p.past

/-- At its end no request is in limbo or in the window; an upload that returned was merged, and
    an init that returned saved its session. -/
def FsOp.Works (op : FsOp) (st : Work) (r : Except Error Unit) : Prop :=
  st.limbo = false ∧ st.window = false ∧
    (r = .ok () → (op.slot ≠ none → st.merged = true) ∧
      ∀ req sub, op = .initUpload req sub → st.saved = true)

/-! ### Calls that do nothing to the rows of an upload -/

/-- Calls that the protocol always allows for `op` and does not notice. -/
def Call.Mute (op : FsOp) : Call → Prop
  | .fs .master (.loadMultipart _) => op.slot = none
  | .s3 (.getState _) => op.slot ≠ none
  | .fs .master (.saveSession _) | .fs .master (.getSession _) | .fs .master (.deleteSession ..)
  | .fs .master (.saveMultipart _) | .fs .master (.deleteMultipart _)
  | .fs .master (.setBytes ..) | .fs .master (.commit _) | .fs (.replica _) _ => False
  | .fs .master _ | .s3 _ | .wal _ | .policy _ => True
  | .lock _ | .unlock _ | .now | .uuid => False

theorem Call.Mute.quiet {c : Call} {st : Work} (mute : c.Mute st.op) :
    workProtocol.allowed st c ∧ ∀ r, workProtocol.track st c r = st := by
  cases c with
  | fs side c =>
    cases side with
    | replica sub => cases mute
    | master =>
      cases c with
      | loadMultipart u =>
        have idle : st.op.slot = none := mute
        refine ⟨fun busy => absurd idle busy, ?_⟩
        rintro (e | found)
        · rfl
        · exact if_pos idle
      | _ => first | exact ⟨trivial, fun _ => rfl⟩ | cases mute
  | s3 c =>
    cases c with
    | getState u =>
      have busy : st.op.slot ≠ none := mute
      refine ⟨trivial, ?_⟩
      rintro (e | _ | state)
      · exact if_neg busy
      · exact if_neg busy
      · rfl
    | _ => exact ⟨trivial, fun _ => rfl⟩
  | wal c => exact ⟨trivial, fun _ => rfl⟩
  | policy c => exact ⟨trivial, fun _ => rfl⟩
  | _ => cases mute

/-- They write no session row and no multipart record. -/
theorem FsCall.mute_exec {op : FsOp} {c : FsCall} (mute : Call.Mute op (.fs .master c)) (now : Int)
    (kv : Kv Value) {k : String} (plain : ¬ FsStore.IsMarker k)
    (apart : ∀ f, FsStore.fileKey f ≠ k ∧ FsStore.refsKey f ≠ k) :
    (c.exec now kv).2[k]? = kv[k]? := by
  cases c with
  | saveFile rec => exact (Kv.get_insert _ _ _ _).trans (if_neg (apart rec.id).1)
  | deleteFile f =>
    refine (FsStore.get_deleteFile f kv k).trans (if_neg ?_)
    rintro (marker | same | same)
    · exact plain marker.1
    · exact (apart f).1 same.symm
    · exact (apart f).2 same.symm
  | attach ty rid f =>
    simp only [FsCall.exec]
    split
    next done => exact FsStore.get_attach_ok done (apart f).2.symm plain
    · rfl
  | detach ty rid f =>
    simp only [FsCall.exec]
    split
    next done =>
      rw [FsStore.detach_ok done _ (apart f).2.symm, if_neg]
      rintro rfl
      exact plain (FsStore.isMarker_relKey ty rid f)
    · rfl
  | saveSession s => cases mute
  | deleteSession id session => cases mute
  | saveMultipart m => cases mute
  | deleteMultipart u => cases mute
  | setBytes k v => cases mute
  | commit ws => cases mute
  | _ => rfl

/-! ### Programs that do nothing to them -/

section Mute

variable {op : FsOp} (bucket : String)

theorem Call.Checks.mute {c : Call} (checks : c.Checks) : c.Mute op := by
  cases c with
  | fs side c =>
    cases side with
    | replica sub => cases checks
    | master => cases c <;> first | exact trivial | cases checks
  | policy c => trivial
  | _ => cases checks

theorem restoreMultipart_mute (record : PersistedMultipart) :
    (S3.restoreMultipart record).Only (Call.Mute op) := by
  unfold S3.restoreMultipart
  split
  · trivial
  · exact ⟨trivial, fun _ => trivial⟩

theorem ensureMultipart_mute (idle : op.slot = none) (uploadId : String) :
    (FsEngine.ensureMultipart uploadId).Only (Call.Mute op) := by
  refine ⟨idle, ?_⟩
  rintro (e | _ | record)
  · trivial
  · trivial
  · exact restoreMultipart_mute record

theorem uploadPart_mute (busy : op.slot ≠ none) (key uploadId : String) (partNumber : Int)
    (body : Bytes) : (S3.uploadPart bucket key uploadId partNumber body).Only (Call.Mute op) := by
  unfold S3.uploadPart
  split
  · trivial
  refine ⟨busy, ?_⟩
  rintro (e | _ | state)
  · trivial
  · trivial
  change Prog.Only _ (if _ then _ else _ : M String)
  split
  · trivial
  refine ⟨trivial, ?_⟩
  rintro (e | etag)
  · trivial
  · exact ⟨trivial, fun r => by cases r <;> trivial⟩

theorem completeMultipartUpload_mute (key uploadId : String) (etags : List String) :
    (S3.completeMultipartUpload bucket key uploadId etags).Only (Call.Mute op) := by
  refine ⟨trivial, ?_⟩
  rintro (e | _ | state)
  · trivial
  · trivial
  change Prog.Only _ (if _ then _ else if _ then _ else _ : M Unit)
  split
  · trivial
  split
  · trivial
  refine Prog.only_bind (p := (Prog.lift _ : M (List String))) trivial fun _ => ?_
  exact ⟨trivial, fun _ => trivial⟩

theorem abortSessionUpload_mute (idle : op.slot = none) (session : UploadSession) :
    (FsEngine.abortSessionUpload bucket session).Only (Call.Mute op) := by
  unfold FsEngine.abortSessionUpload
  split
  · exact ⟨trivial, fun _ => trivial⟩
  next uploadId _ =>
  refine ⟨idle, ?_⟩
  rintro (e | _ | record)
  · trivial
  · trivial
  refine Prog.only_bind (p := FsEngine.ensureMultipart uploadId)
    (ensureMultipart_mute idle uploadId) fun _ => ?_
  have aborts : (S3.abortMultipartUpload bucket session.s3Key uploadId).Only (Call.Mute op) := by
    refine ⟨trivial, ?_⟩
    rintro (e | _ | state)
    · trivial
    · trivial
    · exact ⟨trivial, fun _ => trivial⟩
  refine Prog.only_bind (Prog.only_attempt aborts) fun r => ?_
  split <;> trivial

theorem announce_mute (entry : WalOp) : (FsEngine.announce entry).Only (Call.Mute op) :=
  ⟨trivial, fun _ => trivial⟩

private theorem attach_mute (ty rid f sub : String) :
    (FsEngine.attach ty rid f sub).Only (Call.Mute op) := by
  refine Prog.only_bind ((FsEngine.requireWrite_checks sub ty rid).mono fun _ => Call.Checks.mute) fun _ => ?_
  refine ⟨trivial, ?_⟩
  rintro (e | _ | rec)
  · trivial
  · trivial
  refine ⟨trivial, ?_⟩
  rintro (e | count)
  · trivial
  · exact ⟨trivial, fun r => by cases r <;> trivial⟩

private theorem detach_mute (ty rid f sub : String) :
    (FsEngine.detach ty rid f sub).Only (Call.Mute op) := by
  refine Prog.only_bind ((FsEngine.requireWrite_checks sub ty rid).mono fun _ => Call.Checks.mute) fun _ => ?_
  refine ⟨trivial, ?_⟩
  rintro (e | count)
  · trivial
  · exact ⟨trivial, fun r => by cases r <;> trivial⟩

private theorem deleteFile_mute (f sub : String) :
    (FsEngine.deleteFile f sub).Only (Call.Mute op) := by
  refine ⟨trivial, ?_⟩
  rintro (e | _ | rec)
  · trivial
  · trivial
  change Prog.Only _ (FsEngine.mayDelete rec f sub >>= _)
  refine Prog.only_bind ((FsEngine.mayDelete_checks rec f sub).mono fun _ => Call.Checks.mute)
    fun permitted => ?_
  cases permitted with
  | false => trivial
  | true =>
    refine Prog.only_bind (announce_mute _) fun _ => ⟨trivial, ?_⟩
    rintro (e | gone)
    · trivial
    · exact ⟨trivial, fun _ => trivial⟩

private theorem sweepFile_mute (now : Int) (rec : FileRecord) :
    (Gc.sweepFile now rec).Only (Call.Mute op) := by
  refine Prog.only_bind (Prog.only_attempt ⟨trivial, fun _ => trivial⟩) fun info => ?_
  rcases info with e | info
  · trivial
  change Prog.Only _ (if _ then _ else if _ then _ else _ : M Bool)
  split
  · trivial
  split
  · trivial
  refine Prog.only_bind (Prog.only_attempt ⟨trivial, fun _ => trivial⟩) fun deleted => ?_
  rcases deleted with e | deleted
  · trivial
  refine Prog.only_bind (Prog.only_attempt (announce_mute _)) fun announced => ?_
  rcases announced with e | announced
  · trivial
  · exact ⟨trivial, fun r => by cases r <;> trivial⟩

private theorem sweepFiles_mute (now : Int) (files : List FileRecord) (cleaned : Nat) :
    (Gc.sweepFiles now files cleaned).Only (Call.Mute op) := by
  induction files generalizing cleaned with
  | nil => trivial
  | cons rec files ih => exact Prog.only_bind (sweepFile_mute now rec) fun _ => ih _

private theorem orphanPass_mute (now : Int) (sessions : FsStore.RecordScan UploadSession)
    (files : FsStore.RecordScan FileRecord) (cleaned : Nat) :
    (Gc.orphanPass now sessions files cleaned).Only (Call.Mute op) := by
  unfold Gc.orphanPass
  split
  · trivial
  refine Prog.only_bind (Prog.only_attempt ⟨trivial, fun _ => trivial⟩) fun listed => ?_
  rcases listed with e | listed
  · trivial
  change (Gc.sweepObjects now _ listed cleaned).Only _
  induction listed generalizing cleaned with
  | nil => trivial
  | cons entry listed ih =>
    refine Prog.only_bind ?_ fun _ => ih _
    unfold Gc.sweepObject
    split
    · trivial
    refine Prog.only_bind (Prog.only_attempt ⟨trivial, fun _ => trivial⟩) fun deleted => ?_
    rcases deleted with e | deleted <;> trivial

end Mute

/-! ### Conformance -/

section Conformance

variable (bucket : String)

private theorem works_of_idle {op : FsOp} (idle : op.slot = none)
    (client : ∀ req sub, op ≠ .initUpload req sub) (st : Work) (limbo : st.limbo = false)
    (window : st.window = false) (r : Except Error Unit) : op.Works st r :=
  ⟨limbo, window, fun _ => ⟨fun busy => absurd idle busy, fun req sub init =>
    absurd init (client req sub)⟩⟩

/-- Nothing but the rows that were read under the lock is different. -/
private def Work.Reread (st st' : Work) : Prop := ∃ row read, st' = { st with row := row, read := read }

private theorem deleteSession_works {st : Work} {id : String} {s : UploadSession}
    (idle : st.op.slot = none) (held : st.held ≠ none) (touches : st.Touches id)
    (row : st.row = some s)
    (expired : st.op = .sweep → ∃ t, st.now = some t ∧ s.isExpired t Gc.ttlSecs = true) :
    (FsEngine.deleteSession id).Conf workProtocol (fun st' _ => st.Reread st') st := by
  refine ⟨?_, ?_⟩
  · change if st.held = none then _ else st.Touches id
    rwa [if_neg held]
  rintro (e | found) -
  · exact ⟨st.row, st.read, rfl⟩
  simp only [if_neg held, row]
  refine ⟨⟨idle, ?_, rfl, s, rfl, expired⟩, ?_⟩
  · rcases touches with mine | ⟨s', there, own⟩
    · exact .inl mine
    · exact .inr ⟨s, rfl, (Option.some.inj (row.symm.trans there)) ▸ own⟩
  · rintro (e | gone) -
    · exact ⟨_, _, rfl⟩
    · exact ⟨_, _, rfl⟩

/-- What a client's request does under the lock of its session. -/
private theorem locked_works {op : FsOp} {f : String} {body : M Unit} (names : op.Names f)
    (idle : op.slot = none) (client : ∀ req sub, op ≠ .initUpload req sub)
    (inside : body.Conf workProtocol (fun st _ => st.held = some f ∧ st.limbo = false ∧
      st.window = false) { Work.start op with held := some f }) :
    (withSession f body).Conf workProtocol op.Works (Work.start op) := by
  refine withSession_conf (fun _ _ answered => answered) ⟨names, rfl⟩ (inside.mono ?_)
  rintro st r ⟨held, limbo, window⟩
  refine ⟨⟨held, fun bad => ?_⟩, works_of_idle idle client _ (by exact limbo) rfl r⟩
  rw [window] at bad
  cases bad

private theorem cancelUpload_works (f sub : String) :
    (FsEngine.cancelUpload bucket f sub).Conf workProtocol (FsOp.Works (.cancelUpload f sub))
      (Work.start (.cancelUpload f sub)) := by
  refine locked_works rfl rfl (fun _ _ bad => nomatch bad) ⟨.inl rfl, ?_⟩
  rintro (e | _ | session) -
  · exact ⟨rfl, rfl, rfl⟩
  · exact ⟨rfl, rfl, rfl⟩
  change Prog.Conf _ _ (if UploadSession.ownerSub session ≠ sub then Prog.fail (.fs .forbidden)
    else if session.s3UploadId.isSome then _ else _ : M Unit) _
  split
  · exact ⟨rfl, rfl, rfl⟩
  have deletes : (FsEngine.deleteSession f).Conf workProtocol (fun st _ => st.held = some f ∧
      st.limbo = false ∧ st.window = false)
      { Work.start (.cancelUpload f sub) with
        held := some f, row := some session, read := some session } := by
    refine (deleteSession_works rfl (Option.some_ne_none f) (.inl rfl) rfl
      fun bad => by cases bad).mono ?_
    rintro _ r ⟨row, read, rfl⟩
    exact ⟨rfl, rfl, rfl⟩
  split
  next multipart =>
    exact (abortSessionUpload_mute bucket rfl session).conf_bind (fun _ mute => mute.quiet)
      (fun _ => ⟨rfl, rfl, rfl⟩) fun _ => deletes
  next => exact deletes

/-- Under the lock the object is assembled, and of the rows only the record goes. -/
private theorem assemble_works {st : Work} {session : UploadSession} (idle : st.op.slot = none)
    (row : st.row = some session) :
    (FsEngine.assemble bucket session).Conf workProtocol (fun st' _ => st' = st) st := by
  unfold FsEngine.assemble
  split
  · rfl
  split
  · rfl
  next uploadId multipart =>
  refine (ensureMultipart_mute idle uploadId).conf_bind (fun _ mute => mute.quiet)
    (fun _ => rfl) fun _ => ?_
  refine (completeMultipartUpload_mute bucket session.s3Key uploadId _).conf_bind
    (fun _ mute => mute.quiet) (fun _ => rfl) fun _ => ?_
  refine ⟨⟨idle, session, row, multipart⟩, ?_⟩
  rintro (e | gone) - <;> rfl

private theorem completeUpload_works (f : String) (req : CompleteRequest) (sub : String) :
    (FsEngine.completeUpload bucket f req sub).Conf workProtocol
      (FsOp.Works (.completeUpload f req sub)) (Work.start (.completeUpload f req sub)) := by
  have deletes (t : Option Int) (session : UploadSession) :
      (FsEngine.deleteSession f).Conf workProtocol (fun st _ => st.held = some f ∧
        st.limbo = false ∧ st.window = false)
        { Work.start (.completeUpload f req sub) with
          held := some f, now := t, row := some session, read := some session } := by
    refine (deleteSession_works rfl (Option.some_ne_none f) (.inl rfl) rfl
      fun bad => by cases bad).mono ?_
    rintro _ r ⟨row, read, rfl⟩
    exact ⟨rfl, rfl, rfl⟩
  refine locked_works rfl rfl (fun _ _ bad => nomatch bad) ⟨trivial, ?_⟩
  rintro (e | committed) -
  · exact ⟨rfl, rfl, rfl⟩
  refine ⟨.inl rfl, ?_⟩
  rintro (e | session) -
  · exact ⟨rfl, rfl, rfl⟩
  cases committed with
  | some rec =>
    change Prog.Conf _ _ (if FileRecord.ownerSub rec ≠ sub then Prog.fail (.fs .forbidden)
      else match session with
        | none => pure ()
        | some _ => do
          let _ ← FsEngine.announce (.fileCreate rec)
          FsEngine.deleteSession f : M Unit) _
    split
    · exact ⟨rfl, rfl, rfl⟩
    cases session with
    | none => exact ⟨rfl, rfl, rfl⟩
    | some session =>
      refine ⟨trivial, ?_⟩
      rintro (e | announced) -
      · exact ⟨rfl, rfl, rfl⟩
      · exact deletes none session
  | none =>
    cases session with
    | none => exact ⟨rfl, rfl, rfl⟩
    | some session =>
    change Prog.Conf _ _ (if UploadSession.ownerSub session ≠ sub then Prog.fail (.fs .forbidden)
      else if session.etags.any Option.isNone then
        Prog.fail (.fs (.badRequest "not all parts uploaded"))
      else _ : M Unit) _
    split
    · exact ⟨rfl, rfl, rfl⟩
    split
    · exact ⟨rfl, rfl, rfl⟩
    refine Prog.conf_bind.mpr ((assemble_works bucket rfl rfl).mono ?_)
    rintro _ (e | assembled) rfl
    · exact ⟨rfl, rfl, rfl⟩
    refine ⟨rfl, ?_⟩
    rintro _ ⟨t, rfl⟩
    refine ⟨trivial, ?_⟩
    rintro (e | saved) -
    · exact ⟨rfl, rfl, rfl⟩
    refine ⟨trivial, ?_⟩
    rintro (e | announced) -
    · exact ⟨rfl, rfl, rfl⟩
    · exact deletes (some t) session

/-- An init has drawn its ids; from here it writes the session and then the record. -/
private theorem openUpload_saves (req : InitRequest) (sub id : String) (uploadId : Option String)
    (single : req.fileTotalParts = 1 → uploadId = none) :
    (FsEngine.openUpload bucket req sub id uploadId).Conf workProtocol
      (fun st r => st.limbo = false ∧ st.window = false ∧
        ∀ id, r = .ok id → st.saved = true ∧ st.file = some id)
      { Work.start (.initUpload req sub) with file := some id, upload := uploadId } := by
  refine ⟨rfl, ?_⟩
  rintro _ ⟨t, rfl⟩
  refine ⟨⟨rfl, rfl, rfl, rfl, single, fun e mem => (List.mem_replicate.mp mem).2⟩, ?_⟩
  rintro (e | saved) -
  · exact ⟨rfl, rfl, fun _ bad => nomatch bad⟩
  have returned : ∀ id', (Except.ok id : Except Error String) = .ok id' →
      true = true ∧ some id = some id' := by
    rintro _ ⟨⟩
    exact ⟨rfl, rfl⟩
  cases uploadId with
  | none => exact ⟨rfl, rfl, returned⟩
  | some uploadId =>
    refine ⟨trivial, ?_⟩
    rintro (e | _ | state) answered
    · exact ⟨rfl, rfl, fun _ bad => nomatch bad⟩
    · exact ⟨rfl, rfl, fun _ bad => nomatch bad⟩
    refine ⟨⟨rfl, rfl, rfl⟩, ?_⟩
    rintro (e | kept) -
    · exact ⟨rfl, rfl, fun _ bad => nomatch bad⟩
    · exact ⟨rfl, rfl, returned⟩

/-- The id that an init returns is the one it has drawn for its session. -/
theorem initUpload_works (req : InitRequest) (sub : String) :
    (FsEngine.initUpload bucket req sub).Conf workProtocol (fun st r => st.limbo = false ∧
      st.window = false ∧ ∀ id, r = .ok id → st.saved = true ∧ st.file = some id)
      (Work.start (.initUpload req sub)) := by
  rw [FsEngine.initUpload_eq]
  cases valid : req.validate with
  | error e => exact ⟨rfl, rfl, fun _ bad => nomatch bad⟩
  | ok u =>
  refine ⟨⟨rfl, .inl rfl, req, sub, rfl⟩, ?_⟩
  rintro _ ⟨id, rfl⟩
  change Prog.Conf _ _ (if req.fileTotalParts = 1 then _ else _ : M String) _
  split
  · exact openUpload_saves bucket req sub id none fun _ => rfl
  next several =>
  refine ⟨trivial, ?_⟩
  rintro (e | backend) -
  · exact ⟨rfl, rfl, fun _ bad => nomatch bad⟩
  refine ⟨⟨rfl, .inr rfl, req, sub, rfl⟩, ?_⟩
  rintro _ ⟨u, rfl⟩
  refine ⟨trivial, ?_⟩
  rintro (e | kept) -
  · exact ⟨rfl, rfl, fun _ bad => nomatch bad⟩
  exact openUpload_saves bucket req sub id (some ("ostore-" ++ u)) fun single =>
    absurd single several

/-! ### Parts -/

/-- An upload that has read its session, and found its record when it has several parts. -/
private def uploading (f : String) (slot : Nat) (body : List (Except Error Bytes))
    (declared : Option Nat) (checksum : Option String) (sub : String) (target : UploadSession)
    (ensured : Bool) : Work :=
  { Work.start (.uploadPart f slot body declared checksum sub) with
    target := some target, ensured := ensured }

section Part

variable {f : String} {slot : Nat} {body : List (Except Error Bytes)} {declared : Option Nat}
  {checksum : Option String} {sub : String} {target : UploadSession} {ensured : Bool}

private theorem mergePart_works {uploadId : Option String} (etag : String)
    (known : uploadId = none ∧ target.fileTotalParts = 1 ∨
      ∃ u, uploadId = some u ∧ ensured = true ∧ target.s3UploadId = some u) :
    (FsEngine.mergePart f slot uploadId etag checksum sub).Conf workProtocol
      (FsOp.Works (.uploadPart f slot body declared checksum sub))
      (uploading f slot body declared checksum sub target ensured) := by
  have failed : ∀ (st : Work) (e : Error), st.held = some f → st.limbo = false →
      st.window = false ∨ st.failed = true →
      workProtocol.allowed st (.unlock f) ∧
        (FsOp.Works (.uploadPart f slot body declared checksum sub))
          (workProtocol.track st (.unlock f) (.ok ())) (.error e) := by
    rintro st e held limbo settled
    refine ⟨⟨held, fun bad => ?_⟩, limbo, rfl, fun bad => nomatch bad⟩
    rcases settled with shut | failed
    · rw [shut] at bad
      cases bad
    · exact failed
  refine withSession_conf (fun _ _ answered => answered) ⟨rfl, rfl⟩ ⟨.inl rfl, ?_⟩
  rintro (e | _ | session) -
  · exact failed _ e rfl rfl (.inl rfl)
  · exact failed _ _ rfl rfl (.inl rfl)
  change Prog.Conf _ _ (if session.ownerSub ≠ sub then Prog.fail (.fs .forbidden)
    else if slot ≥ session.etags.length then
      Prog.fail (.fs (.badRequest "part index out of bounds"))
    else do
      let _ ← FsEngine.mergeRecord uploadId slot etag
      onStore .master (.saveSession (FsEngine.withPart session slot etag checksum)) : M Unit) _
  split
  · exact failed _ _ rfl rfl (.inl rfl)
  split
  · exact failed _ _ rfl rfl (.inl rfl)
  next inside =>
  -- The row is written last, once the record has the part or is known not to be there.
  have saves : ∀ (record : Option (Option PersistedMultipart)) (window : Bool),
      (target.fileTotalParts = 1 ∨ ensured = true ∧ (record = some none ∨
        ∃ m, record = some (some m) ∧ m.parts.lookup slot = some etag)) →
      (onStore .master (.saveSession (FsEngine.withPart session slot etag checksum))).Conf
        workProtocol (fun st r => workProtocol.allowed st (.unlock f) ∧
          FsOp.Works (.uploadPart f slot body declared checksum sub)
            (workProtocol.track st (.unlock f) (.ok ())) r)
        { uploading f slot body declared checksum sub target ensured with
          held := some f, row := some session, read := some session, record := record,
          window := window } := by
    intro record window noted
    refine ⟨⟨session, slot, etag, checksum, rfl, rfl, not_le.mp inside, rfl, target, rfl,
      noted⟩, ?_⟩
    rintro (e | saved) -
    · exact failed _ e rfl rfl (.inr rfl)
    · exact ⟨⟨rfl, fun bad => nomatch bad⟩, rfl, rfl, fun _ => ⟨fun _ => rfl, fun _ _ bad =>
        nomatch bad⟩⟩
  rcases known with ⟨rfl, single⟩ | ⟨u, rfl, rfl, multipart⟩
  · exact saves none false (.inl single)
  refine ⟨fun _ => ⟨fun _ => rfl, target, rfl, multipart⟩, ?_⟩
  rintro (e | _ | record) -
  · exact failed _ e rfl rfl (.inl rfl)
  · exact saves (some none) false (.inr ⟨rfl, .inl rfl⟩)
  refine ⟨⟨record, slot, etag, rfl, rfl, rfl, rfl, Option.some_ne_none _⟩, ?_⟩
  rintro (e | kept) -
  · exact failed _ e rfl rfl (.inl rfl)
  · refine saves _ true (.inr ⟨rfl, .inr ⟨_, rfl, ?_⟩⟩)
    simp [insertPart]

end Part

private theorem uploadPart_works (f : String) (slot : Nat) (body : List (Except Error Bytes))
    (declared : Option Nat) (checksum : Option String) (sub : String) :
    (FsEngine.uploadPart bucket f slot body declared checksum sub).Conf workProtocol
      (FsOp.Works (.uploadPart f slot body declared checksum sub))
      (Work.start (.uploadPart f slot body declared checksum sub)) := by
  refine ⟨⟨rfl, rfl⟩, ?_⟩
  rintro (e | _ | session) -
  · exact ⟨rfl, rfl, fun bad => nomatch bad⟩
  · exact ⟨rfl, rfl, fun bad => nomatch bad⟩
  change Prog.Conf workProtocol _ (if session.ownerSub ≠ sub then Prog.fail (.fs .forbidden)
    else if slot ≥ session.fileTotalParts then
      Prog.fail (.fs (.badRequest "part index out of bounds"))
    else _ : M Unit) (uploading f slot body declared checksum sub session false)
  split
  · exact ⟨rfl, rfl, fun bad => nomatch bad⟩
  split
  · exact ⟨rfl, rfl, fun bad => nomatch bad⟩
  cases fits : FsEngine.checkDeclared session slot declared with
  | error e => exact ⟨rfl, rfl, fun bad => nomatch bad⟩
  | ok u =>
  cases read : FsEngine.readBody session slot body [] with
  | error e => exact ⟨rfl, rfl, fun bad => nomatch bad⟩
  | ok bytes =>
  change Prog.Conf _ _ (if session.fileTotalParts = 1 then _ else _ : M Unit) _
  split
  next single =>
    refine ⟨trivial, ?_⟩
    rintro (e | stored) -
    · exact ⟨rfl, rfl, fun bad => nomatch bad⟩
    · exact mergePart_works "put" (.inl ⟨rfl, single⟩)
  next several =>
    cases multipart : session.s3UploadId with
    | none => exact ⟨rfl, rfl, fun bad => nomatch bad⟩
    | some uploadId =>
      refine ⟨fun _ => ⟨fun bad => absurd rfl bad, session, rfl, multipart⟩, ?_⟩
      rintro (e | _ | record) -
      · exact ⟨rfl, rfl, fun bad => nomatch bad⟩
      · exact ⟨rfl, rfl, fun bad => nomatch bad⟩
      refine (restoreMultipart_mute record).conf_bind (fun _ mute => mute.quiet)
        (fun _ => ⟨rfl, rfl, fun bad => nomatch bad⟩) fun _ => ?_
      have busy : FsOp.slot (.uploadPart f slot body declared checksum sub) ≠ none :=
        Option.some_ne_none slot
      refine (uploadPart_mute bucket busy session.s3Key uploadId _
        bytes).conf_bind (fun _ mute => mute.quiet)
        (fun _ => ⟨rfl, rfl, fun bad => nomatch bad⟩) fun etag => ?_
      exact mergePart_works etag (.inr ⟨uploadId, rfl, rfl, multipart⟩)

/-! ### The sweep -/

/-- A sweep between two locks. -/
private def sweepingAt (n : Int) : Work := { Work.start .sweep with now := some n }

private theorem sweepSession_works (n : Int) (listed : UploadSession) :
    (Gc.sweepSession bucket n listed).Conf workProtocol (fun st _ => st = sweepingAt n)
      (sweepingAt n) := by
  refine withSession_conf (fun _ _ answered => answered) ⟨trivial, rfl⟩ ⟨.inl rfl, ?_⟩
  rintro (e | _ | row) -
  · exact ⟨⟨rfl, fun bad => nomatch bad⟩, rfl⟩
  · exact ⟨⟨rfl, fun bad => nomatch bad⟩, rfl⟩
  change Prog.Conf _ _ (if ¬ row.isExpired n Gc.ttlSecs = true then pure false else _ : M Bool) _
  split
  · exact ⟨⟨rfl, fun bad => nomatch bad⟩, rfl⟩
  next expired =>
  refine (Prog.only_attempt (abortSessionUpload_mute bucket rfl row)).conf_bind
    (fun _ mute => mute.quiet) (fun _ => ⟨⟨rfl, fun bad => nomatch bad⟩, rfl⟩) fun r => ?_
  cases r with
  | error e => exact ⟨⟨rfl, fun bad => nomatch bad⟩, rfl⟩
  | ok aborted =>
    refine Prog.conf_bind.mpr ((deleteSession_works rfl (Option.some_ne_none listed.id)
      (.inr ⟨row, rfl, rfl⟩) rfl fun _ => ⟨n, rfl, not_not.mp expired⟩).mono ?_)
    rintro _ (e | gone) ⟨row, read, rfl⟩
    · exact ⟨⟨rfl, fun bad => nomatch bad⟩, rfl⟩
    · exact ⟨⟨rfl, fun bad => nomatch bad⟩, rfl⟩

private theorem sweepSessions_works (n : Int) (listed : List UploadSession) (cleaned : Nat) :
    (Gc.sweepSessions bucket n listed cleaned).Conf workProtocol (fun st _ => st = sweepingAt n)
      (sweepingAt n) := by
  induction listed generalizing cleaned with
  | nil => rfl
  | cons s listed ih =>
    refine Prog.conf_bind.mpr ((sweepSession_works bucket n s).mono ?_)
    rintro _ (e | done) rfl
    · rfl
    · exact ih _

private theorem sweepOnce_works :
    (Gc.sweepOnce bucket).Conf workProtocol (fun st _ => st.limbo = false ∧ st.window = false)
      (Work.start .sweep) := by
  refine Prog.conf_bind.mpr ⟨rfl, ?_⟩
  rintro _ ⟨n, rfl⟩
  refine Prog.conf_seq trivial (fun _ => ⟨rfl, rfl⟩) fun sessions => ?_
  refine Prog.conf_seq trivial (fun _ => ⟨rfl, rfl⟩) fun files => ?_
  refine Prog.conf_bind.mpr ((sweepSessions_works bucket n _ 0).mono ?_)
  rintro _ (e | cleaned) rfl
  · exact ⟨rfl, rfl⟩
  refine (sweepFiles_mute n _ cleaned).conf_bind (fun _ mute => mute.quiet)
    (fun _ => ⟨rfl, rfl⟩) fun cleaned' => ?_
  refine ((orphanPass_mute n sessions files cleaned').conf fun _ mute => mute.quiet).mono ?_
  rintro _ r rfl
  exact ⟨rfl, rfl⟩

/-- Every request and every sweep works under the protocol. -/
theorem fsOp_works (op : FsOp) : (op.prog bucket).Conf workProtocol op.Works (Work.start op) := by
  -- a request that is mute from its start to its end
  have muted {p : M Unit} (idle : op.slot = none) (client : ∀ req sub, op ≠ .initUpload req sub)
      (only : p.Only (Call.Mute op)) : p.Conf workProtocol op.Works (Work.start op) := by
    refine (only.conf fun _ mute => mute.quiet).mono ?_
    rintro _ r rfl
    exact works_of_idle idle client _ rfl rfl r
  cases op with
  | attach ty rid f sub =>
    exact muted rfl (fun _ _ bad => nomatch bad) (Prog.only_bind (attach_mute ty rid f sub)
      fun _ => trivial)
  | detach ty rid f sub =>
    exact muted rfl (fun _ _ bad => nomatch bad) (Prog.only_bind (detach_mute ty rid f sub)
      fun _ => trivial)
  | deleteFile f sub => exact muted rfl (fun _ _ bad => nomatch bad) (deleteFile_mute f sub)
  | initUpload req sub =>
    refine Prog.conf_bind.mpr ((initUpload_works bucket req sub).mono ?_)
    rintro st (e | id) ⟨limbo, window, saved⟩
    · exact ⟨limbo, window, fun bad => nomatch bad⟩
    · exact ⟨limbo, window, fun _ => ⟨fun bad => absurd rfl bad, fun _ _ _ =>
        (saved id rfl).1⟩⟩
  | uploadPart f slot body declared checksum sub =>
    exact uploadPart_works bucket f slot body declared checksum sub
  | completeUpload f req sub => exact completeUpload_works bucket f req sub
  | cancelUpload f sub => exact cancelUpload_works bucket f sub
  | sweep =>
    refine Prog.conf_bind.mpr ((sweepOnce_works bucket).mono ?_)
    rintro st (e | n) ⟨limbo, window⟩
    · exact ⟨limbo, window, fun bad => nomatch bad⟩
    · exact ⟨limbo, window, fun _ => ⟨fun bad => absurd rfl bad, fun _ _ bad => nomatch bad⟩⟩

end Conformance

end RustApi
