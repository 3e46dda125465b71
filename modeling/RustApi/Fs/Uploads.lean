import RustApi.Fs.System

/-!
# Uploads under their locks

What a request knows while it runs: the session lock it holds, the session row it read
under that lock, whether the file is committed, and, for a sweep, its scans. Every
request obeys one protocol over this knowledge (`fsOp_conf`), and the knowledge about
the locked session stays true as long as the lock is held (`Locked`).
-/

namespace RustApi

open Lib

/-! ### What a request knows -/

/-- What a request knows. `seen` is the session row that was read or written last under the lock
    `held`, `filed` says that the record of that id is there, and `done` that it is there without
    a session. `pending` is the object that a single-part upload goes on to put, and `fresh` the
    id that an init has taken and not used yet. `timed` says that `now` was read from the clock.
    The others belong to a sweep. -/
structure Upload where
  op : FsOp
  held : Option String
  seen : Option UploadSession
  filed : Bool
  done : Option String
  pending : Option String
  fresh : Option String
  timed : Bool
  now : Int
  sessions : Option (FsStore.RecordScan UploadSession)
  files : Option (FsStore.RecordScan FileRecord)
  listed : Option (List ListedKey)

/-- The object that `upload_part` goes on to put once it has read `s`: that of a single-part
    session whose checks it passes. -/
def FsOp.putOf : FsOp → UploadSession → Option String
  | .uploadPart _ partIndex body declaredLen _ callerSub, s =>
    if s.ownerSub ≠ callerSub ∨ partIndex ≥ s.fileTotalParts ∨ s.fileTotalParts ≠ 1 then none
    else
      match FsEngine.checkDeclared s partIndex declaredLen,
        FsEngine.readBody s partIndex body [] with
      | .ok _, .ok _ => some s.s3Key
      | _, _ => none
  | _, _ => none

theorem FsOp.putOf_eq_some {op : FsOp} {s : UploadSession} {key : String}
    (put : op.putOf s = some key) : s.s3Key = key := by
  unfold putOf at put
  split at put
  · split at put
    · cases put
    split at put
    · exact Option.some.inj put
    · cases put
  · cases put

/-- The name of the object of a file. -/
def objectKey (id : String) : String := Gc.fileBytesPrefix ++ id

/-- An object that neither scan of the sweep names and that was old when it was listed. -/
def Upload.Orphan (st : Upload) (entries : List ListedKey) (key : String) : Prop :=
  ∃ sessions files, st.sessions = some sessions ∧ st.files = some files ∧
    sessions.undecodable = [] ∧ files.undecodable = [] ∧
    key ∉ sessions.records.map (·.s3Key) ++ files.records.map (·.s3Key) ∧
    ∃ e ∈ entries, e.key = key ∧ Gc.ttlSecs < st.now - e.lastModified

/-- The objects that a request may delete: in the session pass that of an expired single-part
    session, in the byte pass an orphan. -/
def Upload.MayDelete (st : Upload) (key : String) : Prop :=
  match st.op, st.held, st.listed with
  | .sweep, some _, _ => ∃ s, st.seen = some s ∧ s.s3UploadId = none ∧ s.s3Key = key ∧
      s.isExpired st.now Gc.ttlSecs = true
  | .sweep, none, none => True
  | .sweep, none, some entries => st.Orphan entries key
  | .deleteFile .., _, _ => True
  | _, _, _ => False

/-- The session rows that a request may write: its own fresh one, or the one it has seen. -/
def Upload.MaySave (st : Upload) (s : UploadSession) : Prop :=
  st.held = none ∧ st.fresh = some s.id ∧ s.s3Key = objectKey s.id ∨
    ∃ s₀, st.seen = some s₀ ∧ s.id = s₀.id ∧ s.s3Key = s₀.s3Key ∧
      s.s3UploadId = s₀.s3UploadId ∧ s.createdAt = s₀.createdAt

@[reducible] def uploadProtocol : Prog.Protocol Call.Ans Error where
  State := Upload
  possible c r := c.Answered r
  allowed st
    | .lock _ => st.held = none
    | .unlock id => st.held = some id
    | .uuid => ∃ req sub, st.op = .initUpload req sub
    | .fs .master (.saveSession s) => st.MaySave s
    | .fs .master (.deleteSession id _) =>
      st.held = some id ∨ ∃ s, st.seen = some s ∧ s.id = id
    | .fs .master (.saveFile rec) => (∃ f req sub, st.op = .completeUpload f req sub) ∧
      st.held = some rec.id ∧ ∃ s, st.seen = some s ∧ rec.s3Key = s.s3Key
    | .fs .master (.deleteFile _) => st.op = .sweep ∨ ∃ f sub, st.op = .deleteFile f sub
    | .fs .master (.getSession _) | .fs .master (.saveMultipart _) | .fs .master (.loadMultipart _)
    | .fs .master (.deleteMultipart _) | .fs .master (.getFile _) | .fs .master (.getRefInfo _)
    | .fs .master (.attach ..) | .fs .master (.detach ..)
    | .fs .master (.rowsForFile _) => True
    | .fs .master .listSessions => st.timed = true ∧ st.sessions = none
    | .fs .master .listFiles => st.sessions ≠ none ∧ st.files = none
    | .fs .. => False
    | .s3 (.putObject key _) => st.pending = some key
    | .s3 (.completeMultipart key _ _) =>
      (∃ f req sub, st.op = .completeUpload f req sub) ∧ ∃ s, st.seen = some s ∧ s.s3Key = key
    | .s3 (.deleteObject key) => st.MayDelete key
    | .s3 (.listKeys _) => st.files ≠ none ∧ st.listed = none
    | .now => st.op = .sweep → st.held = none ∧ st.sessions = none
    | .policy .authorizer => True
    | .policy _ => False
    | _ => True
  track st
    | .lock id, _ => { st with held := some id, seen := none, filed := false }
    | .unlock _, _ => { st with held := none, seen := none, filed := false }
    | .uuid, .ok id => { st with fresh := st.fresh <|> some id }
    | .now, .ok t => { st with timed := true, now := t }
    | .fs .master (.getSession id), .ok found =>
      if st.held = some id then
        { st with seen := found, done := if found = none ∧ st.filed then some id else st.done }
      else if st.held = none then { st with pending := found.bind st.op.putOf }
      else st
    | .fs .master (.saveSession s), .ok _ =>
      if st.held = none then { st with fresh := none } else { st with seen := some s }
    | .fs .master (.deleteSession id _), .ok _ =>
      { st with seen := none, done := if st.filed then some id else st.done }
    | .fs .master (.getFile id), .ok (some _) =>
      if st.held = some id then { st with filed := true } else st
    | .fs .master (.saveFile _), .ok _ => { st with filed := true }
    | .fs .master .listSessions, .ok scan => { st with sessions := some scan }
    | .fs .master .listFiles, .ok scan => { st with files := some scan }
    | .s3 (.putObject ..), _ => { st with pending := none }
    | .s3 (.listKeys _), .ok entries => { st with listed := some entries }
    | _, _ => st

/-- What a request knows when it starts. -/
def Upload.start (op : FsOp) : Upload :=
  ⟨op, none, none, false, none, none, none, false, 0, none, none, none⟩

/-- What a request knows after its past. -/
def uploadOf (p : Proc Call.Ans Error FsOp) : Upload :=
  uploadProtocol.observe (Upload.start p.op) p.past

/-- A completed upload left its record and no session. -/
def FsOp.Finished : FsOp → Upload → Except Error Unit → Prop
  | .completeUpload f _ _, st, .ok _ => st.done = some f
  | _, _, _ => True

/-! ### Calls that teach nothing -/

/-- Calls that the protocol always allows and that change no knowledge. -/
def Call.Plain : Call → Prop
  | .fs .master (.getRefInfo _) | .fs .master (.rowsForFile _) | .fs .master (.loadMultipart _)
  | .fs .master (.saveMultipart _) | .fs .master (.deleteMultipart _)
  | .fs .master (.attach ..) | .fs .master (.detach ..) => True
  | .s3 (.createMultipart _) | .s3 (.putPart ..) | .s3 (.abortMultipart _) | .s3 (.getState _)
  | .s3 (.insertState ..) | .s3 (.recordPart ..) | .s3 (.removeState _)
  | .s3 (.removeStateOf ..) => True
  | .wal _ => True
  | .policy .authorizer => True
  | _ => False

theorem Call.Plain.quiet {c : Call} (plain : c.Plain) (st : Upload) :
    uploadProtocol.allowed st c ∧ ∀ r, uploadProtocol.track st c r = st := by
  cases c with
  | fs side c =>
    cases side with
    | replica sub => cases plain
    | master => cases c <;> first | exact ⟨trivial, fun _ => rfl⟩ | cases plain
  | s3 c => cases c <;> first | exact ⟨trivial, fun _ => rfl⟩ | cases plain
  | policy c => cases c <;> first | exact ⟨trivial, fun _ => rfl⟩ | cases plain
  | wal c => exact ⟨trivial, fun _ => rfl⟩
  | _ => cases plain

namespace FsEngine

theorem ensureMultipart_plain (uploadId : String) : (ensureMultipart uploadId).Only Call.Plain := by
  refine ⟨trivial, ?_⟩
  rintro (e | _ | record)
  · trivial
  · trivial
  · change Prog.Only _ (S3.restoreMultipart record)
    unfold S3.restoreMultipart
    split
    · trivial
    · exact ⟨trivial, fun _ => trivial⟩

theorem mergeRecord_plain (uploadId : Option String) (slot : Nat) (etag : String) :
    (mergeRecord uploadId slot etag).Only Call.Plain := by
  cases uploadId with
  | none => trivial
  | some uploadId =>
    refine ⟨trivial, ?_⟩
    rintro (e | _ | record)
    · trivial
    · trivial
    · exact ⟨trivial, fun _ => trivial⟩

theorem uploadPart_plain (bucket key uploadId : String) (partNumber : Int) (body : Bytes) :
    (S3.uploadPart bucket key uploadId partNumber body).Only Call.Plain := by
  unfold S3.uploadPart
  split
  · trivial
  refine ⟨trivial, ?_⟩
  rintro (e | _ | state)
  · trivial
  · trivial
  · change Prog.Only _ (if _ then _ else _ : M String)
    split
    · trivial
    refine ⟨trivial, ?_⟩
    rintro (e | etag)
    · trivial
    refine ⟨trivial, ?_⟩
    rintro (e | done) <;> trivial

/-- The upload of a multipart session is aborted without a delete. -/
theorem abortSessionUpload_plain (bucket : String) {session : UploadSession}
    (multipart : session.s3UploadId.isSome = true) :
    (abortSessionUpload bucket session).Only Call.Plain := by
  unfold abortSessionUpload
  split
  next single => simp [single] at multipart
  next uploadId _ =>
    refine ⟨trivial, ?_⟩
    rintro (e | _ | record)
    · trivial
    · trivial
    refine Prog.only_bind (p := ensureMultipart uploadId) (ensureMultipart_plain uploadId)
      fun _ => ?_
    refine Prog.only_bind (Prog.only_attempt
      (p := S3.abortMultipartUpload bucket session.s3Key uploadId) ⟨trivial, ?_⟩) fun r => ?_
    · rintro (e | _ | state)
      · trivial
      · trivial
      · exact ⟨trivial, fun _ => trivial⟩
    · split <;> trivial

end FsEngine

/-! ### Conformance -/

section Conformance

variable (bucket : String)

private theorem mergePart_conf {st : Upload} (idle : st.held = none) (f : String) (slot : Nat)
    (uploadId : Option String) (etag : String) (checksum : Option String) (sub : String) :
    (FsEngine.mergePart f slot uploadId etag checksum sub).Conf uploadProtocol
      (fun _ _ => True) st := by
  refine withSession_conf (fun _ _ answered => answered) idle ⟨trivial, ?_⟩
  rintro (e | found) -
  · exact ⟨rfl, trivial⟩
  cases found with
  | none =>
    simp only [if_true]
    exact ⟨rfl, trivial⟩
  | some session =>
    simp only [if_true]
    change Prog.Conf _ _ (if session.ownerSub ≠ sub then Prog.fail (.fs .forbidden)
      else if slot ≥ session.etags.length then
        Prog.fail (.fs (.badRequest "part index out of bounds"))
      else _ : M Unit) _
    split
    · exact ⟨rfl, trivial⟩
    split
    · exact ⟨rfl, trivial⟩
    refine (FsEngine.mergeRecord_plain uploadId slot etag).conf_bind (fun _ plain => plain.quiet _)
      (fun _ => ⟨rfl, trivial⟩) fun _ => ?_
    refine ⟨.inr ⟨session, rfl, rfl, rfl, rfl, rfl⟩, ?_⟩
    rintro (e | saved) -
    · exact ⟨rfl, trivial⟩
    · exact ⟨rfl, trivial⟩

private theorem uploadPart_conf (f : String) (slot : Nat) (body : List (Except Error Bytes))
    (declared : Option Nat) (checksum : Option String) (sub : String) :
    (FsEngine.uploadPart bucket f slot body declared checksum sub).Conf uploadProtocol
      (fun _ _ => True) (Upload.start (.uploadPart f slot body declared checksum sub)) := by
  refine ⟨trivial, ?_⟩
  rintro (e | _ | session) -
  · trivial
  · trivial
  change Prog.Conf _ _ (if session.ownerSub ≠ sub then Prog.fail (.fs .forbidden)
    else if slot ≥ session.fileTotalParts then
      Prog.fail (.fs (.badRequest "part index out of bounds"))
    else _ : M Unit) _
  split
  · trivial
  next own =>
  split
  · trivial
  next inside =>
  cases fits : FsEngine.checkDeclared session slot declared with
  | error e => trivial
  | ok u =>
  cases read : FsEngine.readBody session slot body [] with
  | error e => trivial
  | ok bytes =>
  change Prog.Conf _ _ (if session.fileTotalParts = 1 then _ else _ : M Unit) _
  split
  next single =>
    have put : FsOp.putOf (.uploadPart f slot body declared checksum sub) session =
        some session.s3Key := by
      have passes : ¬ (session.ownerSub ≠ sub ∨ slot ≥ session.fileTotalParts ∨
          session.fileTotalParts ≠ 1) := by
        rintro (other | out | multi)
        · exact own other
        · exact inside out
        · exact multi single
      simp only [FsOp.putOf, if_neg passes, fits, read]
    refine ⟨put, ?_⟩
    rintro (e | stored) -
    · trivial
    · exact mergePart_conf rfl f slot none "put" checksum sub
  next multi =>
    cases session.s3UploadId with
    | none => trivial
    | some uploadId =>
      refine (FsEngine.ensureMultipart_plain uploadId).conf_bind (fun _ plain => plain.quiet _)
        (fun _ => trivial) fun _ => ?_
      refine (FsEngine.uploadPart_plain bucket session.s3Key uploadId _ bytes).conf_bind
        (fun _ plain => plain.quiet _) (fun _ => trivial) fun etag => ?_
      exact mergePart_conf rfl f slot (some uploadId) etag checksum sub

/-- Under its lock a session is deleted, and the delete tells that the file stands alone. -/
private theorem deleteSession_conf {st : Upload} {f : String} (held : st.held = some f) :
    (FsEngine.deleteSession f).Conf uploadProtocol
      (fun st' r => st'.held = some f ∧ (st.filed = true → r = .ok () → st'.done = some f)) st := by
  refine ⟨trivial, ?_⟩
  rintro (e | session) -
  · exact ⟨held, fun _ bad => nomatch bad⟩
  simp only [held, if_true]
  refine ⟨.inl rfl, ?_⟩
  rintro (e | gone) -
  · exact ⟨rfl, fun _ bad => nomatch bad⟩
  · exact ⟨rfl, fun filed _ => if_pos filed⟩

private theorem assemble_conf {st : Upload} {session : UploadSession}
    (complete : ∃ f req sub, st.op = .completeUpload f req sub) (seen : st.seen = some session) :
    (FsEngine.assemble bucket session).Conf uploadProtocol (fun st' _ => st' = st) st := by
  unfold FsEngine.assemble
  split
  · rfl
  cases session.s3UploadId with
  | none => rfl
  | some uploadId =>
  refine (FsEngine.ensureMultipart_plain uploadId).conf_bind (fun _ plain => plain.quiet _)
    (fun _ => rfl) fun _ => ?_
  refine Prog.conf_bind.mpr (Prog.Conf.mono
    (show Prog.Conf uploadProtocol (fun st' _ => st' = st) _ st from ?_) ?_)
  · refine ⟨trivial, ?_⟩
    rintro (e | _ | state) -
    · rfl
    · rfl
    change Prog.Conf _ _ (if _ then _ else _ : M Unit) _
    split
    · rfl
    split
    · rfl
    cases S3.orderedParts state.parts 0 (session.etags.filterMap id) with
    | error e => rfl
    | ok ordered => exact ⟨⟨complete, session, seen, rfl⟩, fun _ _ => rfl⟩
  · rintro st' (e | done) rfl
    · rfl
    · exact ⟨trivial, fun _ _ => rfl⟩

private theorem completeUpload_conf (f : String) (req : CompleteRequest) (sub : String) :
    (FsEngine.completeUpload bucket f req sub).Conf uploadProtocol
      (FsOp.Finished (.completeUpload f req sub)) (Upload.start (.completeUpload f req sub)) := by
  refine withSession_conf (fun _ _ answered => answered) rfl ⟨trivial, ?_⟩
  rintro (e | _ | rec) -
  · exact ⟨rfl, trivial⟩
  · refine ⟨trivial, ?_⟩
    rintro (e | _ | session) -
    · exact ⟨rfl, trivial⟩
    · simp only [if_true]
      exact ⟨rfl, trivial⟩
    change Prog.Conf _ _ (if UploadSession.ownerSub session ≠ sub then Prog.fail (.fs .forbidden)
      else if session.etags.any Option.isNone then
        Prog.fail (.fs (.badRequest "not all parts uploaded"))
      else _ : M Unit) _
    simp only [if_true]
    split
    · exact ⟨rfl, trivial⟩
    split
    · exact ⟨rfl, trivial⟩
    refine Prog.conf_bind.mpr ((assemble_conf bucket ⟨f, req, sub, rfl⟩ rfl).mono ?_)
    rintro _ (e | assembled) rfl
    · exact ⟨rfl, trivial⟩
    refine ⟨fun bad => (nomatch bad), ?_⟩
    rintro _ ⟨t, rfl⟩
    -- the record is saved for the session that was read under the lock
    refine ⟨⟨⟨f, req, sub, rfl⟩, rfl, session, rfl, rfl⟩, ?_⟩
    rintro (e | saved) -
    · exact ⟨rfl, trivial⟩
    refine ⟨trivial, ?_⟩
    rintro (e | announced) -
    · exact ⟨rfl, trivial⟩
    refine (deleteSession_conf rfl).mono ?_
    rintro st (e | gone) ⟨held, done⟩
    · exact ⟨held, trivial⟩
    · exact ⟨held, done rfl rfl⟩
  · simp only [if_true]
    refine ⟨trivial, ?_⟩
    rintro (e | session) -
    · exact ⟨rfl, trivial⟩
    -- the record is there already: this completion is a repetition
    change Prog.Conf _ _ (if FileRecord.ownerSub rec ≠ sub then Prog.fail (.fs .forbidden)
      else match session with
        | none => pure ()
        | some _ => do
          let _ ← FsEngine.announce (.fileCreate rec)
          FsEngine.deleteSession f : M Unit) _
    simp only [if_true]
    split
    · exact ⟨rfl, trivial⟩
    cases session with
    | none => exact ⟨rfl, rfl⟩
    | some session =>
      refine ⟨trivial, ?_⟩
      rintro (e | announced) -
      · exact ⟨rfl, trivial⟩
      refine (deleteSession_conf rfl).mono ?_
      rintro st (e | gone) ⟨held, done⟩
      · exact ⟨held, trivial⟩
      · exact ⟨held, done rfl rfl⟩

private theorem cancelUpload_conf (f sub : String) :
    (FsEngine.cancelUpload bucket f sub).Conf uploadProtocol (fun _ _ => True)
      (Upload.start (.cancelUpload f sub)) := by
  refine withSession_conf (fun _ _ answered => answered) rfl ⟨trivial, ?_⟩
  rintro (e | _ | session) -
  · exact ⟨rfl, trivial⟩
  · simp only [if_true]
    exact ⟨rfl, trivial⟩
  change Prog.Conf _ _ (if UploadSession.ownerSub session ≠ sub then Prog.fail (.fs .forbidden)
    else if session.s3UploadId.isSome then _ else _ : M Unit) _
  simp only [if_true]
  split
  · exact ⟨rfl, trivial⟩
  split
  next multipart =>
    refine (FsEngine.abortSessionUpload_plain bucket multipart).conf_bind
      (fun _ plain => plain.quiet _) (fun _ => ⟨rfl, trivial⟩) fun _ => ?_
    exact (deleteSession_conf rfl).mono fun st r done => ⟨done.1, trivial⟩
  next => exact (deleteSession_conf rfl).mono fun st r done => ⟨done.1, trivial⟩

private theorem openUpload_conf (req : InitRequest) (sub id : String) (uploadId : Option String)
    (st : Upload) (idle : st.held = none) (client : st.op ≠ .sweep) (fresh : st.fresh = some id) :
    (FsEngine.openUpload bucket req sub id uploadId).Conf uploadProtocol (fun _ _ => True) st := by
  refine ⟨fun sweep => absurd sweep client, ?_⟩
  rintro _ ⟨t, rfl⟩
  refine ⟨.inl ⟨idle, fresh, rfl⟩, ?_⟩
  rintro (e | saved) -
  · trivial
  cases uploadId with
  | none => trivial
  | some uploadId =>
    refine ⟨trivial, ?_⟩
    rintro (e | _ | state) -
    · trivial
    · trivial
    refine ⟨trivial, ?_⟩
    rintro (e | kept) - <;> trivial

private theorem initUpload_conf (req : InitRequest) (sub : String) :
    (FsEngine.initUpload bucket req sub).Conf uploadProtocol (fun _ _ => True)
      (Upload.start (.initUpload req sub)) := by
  have client : FsOp.initUpload req sub ≠ .sweep := by simp
  rw [FsEngine.initUpload_eq]
  cases valid : req.validate with
  | error e => trivial
  | ok u =>
  refine ⟨⟨req, sub, rfl⟩, ?_⟩
  rintro _ ⟨id, rfl⟩
  change Prog.Conf _ _ (if req.fileTotalParts = 1 then _ else _ : M String) _
  split
  · exact openUpload_conf bucket req sub id none _ rfl client rfl
  refine ⟨trivial, ?_⟩
  rintro (e | backend) -
  · trivial
  refine ⟨⟨req, sub, rfl⟩, ?_⟩
  rintro _ ⟨u, rfl⟩
  refine ⟨trivial, ?_⟩
  rintro (e | kept) -
  · trivial
  exact openUpload_conf bucket req sub id (some ("ostore-" ++ u)) _ rfl client rfl

private theorem checks_quiet {c : Call} (check : c.Checks) {st : Upload} (idle : st.held = none) :
    uploadProtocol.allowed st c ∧ ∀ r, uploadProtocol.track st c r = st := by
  cases c with
  | policy c => cases c <;> first | exact ⟨trivial, fun _ => rfl⟩ | cases check
  | fs side c =>
    cases side with
    | replica sub => cases check
    | master =>
      cases c with
      | getFile f =>
        refine ⟨trivial, ?_⟩
        rintro (e | _ | rec)
        · rfl
        · rfl
        · simp only [uploadProtocol, idle, reduceCtorEq, if_false]
      | getRefInfo f => exact ⟨trivial, fun _ => rfl⟩
      | rowsForFile f => exact ⟨trivial, fun _ => rfl⟩
      | _ => cases check
  | _ => cases check

private theorem deleteFile_conf (f sub : String) :
    (FsEngine.deleteFile f sub).Conf uploadProtocol (fun _ _ => True)
      (Upload.start (.deleteFile f sub)) := by
  refine ⟨trivial, ?_⟩
  rintro (e | _ | rec) -
  · trivial
  · trivial
  simp only [Upload.start, reduceCtorEq, if_false]
  refine (FsEngine.mayDelete_checks rec f sub).conf_bind (fun _ check => checks_quiet check rfl)
    (fun _ => trivial) fun permitted => ?_
  cases permitted with
  | false => trivial
  | true =>
    refine ⟨trivial, ?_⟩
    rintro (e | announced) -
    · trivial
    refine ⟨.inr ⟨f, sub, rfl⟩, ?_⟩
    rintro (e | gone) -
    · trivial
    exact ⟨trivial, fun _ _ => trivial⟩

private theorem attach_conf (ty rid f sub : String) :
    (FsEngine.attach ty rid f sub).Conf uploadProtocol (fun _ _ => True)
      (Upload.start (.attach ty rid f sub)) := by
  refine (FsEngine.requireWrite_checks sub ty rid).conf_bind
    (fun _ check => checks_quiet check rfl) (fun _ => trivial) fun _ => ?_
  refine ⟨trivial, ?_⟩
  rintro (e | _ | rec) -
  · trivial
  · trivial
  refine ⟨trivial, ?_⟩
  rintro (e | count) -
  · trivial
  refine ⟨trivial, ?_⟩
  rintro (e | done) - <;> trivial

private theorem detach_conf (ty rid f sub : String) :
    (FsEngine.detach ty rid f sub).Conf uploadProtocol (fun _ _ => True)
      (Upload.start (.detach ty rid f sub)) := by
  refine (FsEngine.requireWrite_checks sub ty rid).conf_bind
    (fun _ check => checks_quiet check rfl) (fun _ => trivial) fun _ => ?_
  refine ⟨trivial, ?_⟩
  rintro (e | count) -
  · trivial
  refine ⟨trivial, ?_⟩
  rintro (e | done) - <;> trivial

/-! ### The sweep -/

/-- A sweep between two locks. -/
private def sweeping (n : Int) (sessions : Option (FsStore.RecordScan UploadSession))
    (files : Option (FsStore.RecordScan FileRecord)) (listed : Option (List ListedKey)) : Upload :=
  ⟨.sweep, none, none, false, none, none, none, true, n, sessions, files, listed⟩

private theorem sweepSession_conf (n : Int) (sessions : Option (FsStore.RecordScan UploadSession))
    (files : Option (FsStore.RecordScan FileRecord)) (s : UploadSession) :
    (Gc.sweepSession bucket n s).Conf uploadProtocol
      (fun st _ => st = sweeping n sessions files none) (sweeping n sessions files none) := by
  -- Under the lock only the session row is read and written, and no record is looked at.
  have leave : ∀ seen : Option UploadSession, uploadProtocol.track
      { sweeping n sessions files none with held := some s.id, seen := seen }
      (.unlock s.id) (.ok ()) = sweeping n sessions files none := fun _ => rfl
  refine withSession_conf (fun _ _ answered => answered) rfl ⟨trivial, ?_⟩
  rintro (e | _ | row) -
  · exact ⟨rfl, leave none⟩
  · simp only [if_true, sweeping, Bool.false_eq_true, and_false, if_false]
    exact ⟨rfl, leave none⟩
  change Prog.Conf _ _ (if ¬ row.isExpired n Gc.ttlSecs = true then pure false else _ : M Bool) _
  simp only [if_true, sweeping, Bool.false_eq_true, and_false, if_false]
  split
  · exact ⟨rfl, leave (some row)⟩
  next expired =>
  have deletes : (FsEngine.deleteSession row.id >>= fun _ => pure true : M Bool).Conf uploadProtocol
      (fun st _ => uploadProtocol.allowed st (.unlock s.id) ∧
        uploadProtocol.track st (.unlock s.id) (.ok ()) = sweeping n sessions files none)
      { sweeping n sessions files none with held := some s.id, seen := some row } := by
    refine ⟨trivial, ?_⟩
    rintro (e | again) -
    · exact ⟨rfl, leave _⟩
    by_cases own : s.id = row.id
    · simp only [own, if_true, sweeping, Bool.false_eq_true, and_false, if_false]
      refine ⟨.inl rfl, ?_⟩
      rintro (e | gone) -
      · exact ⟨rfl, rfl⟩
      · exact ⟨rfl, rfl⟩
    · simp only [Option.some.injEq, own, if_false, reduceCtorEq]
      refine ⟨.inr ⟨row, rfl, rfl⟩, ?_⟩
      rintro (e | gone) -
      · exact ⟨rfl, leave _⟩
      · exact ⟨rfl, leave _⟩
  unfold FsEngine.abortSessionUpload
  split
  next single =>
    refine ⟨⟨row, rfl, single, rfl, not_not.mp expired⟩, ?_⟩
    rintro (e | deleted) -
    · exact ⟨rfl, leave (some row)⟩
    · exact deletes
  next uploadId multipart =>
    have plain := FsEngine.abortSessionUpload_plain bucket
      (show row.s3UploadId.isSome = true by simp [multipart])
    unfold FsEngine.abortSessionUpload at plain
    rw [multipart] at plain
    refine (Prog.only_attempt plain).conf_bind (fun _ plain => plain.quiet _)
      (fun _ => ⟨rfl, leave (some row)⟩) fun r => ?_
    cases r with
    | error e => exact ⟨rfl, leave (some row)⟩
    | ok done => exact deletes

private theorem sweepSessions_conf (n : Int)
    (sessions : Option (FsStore.RecordScan UploadSession))
    (files : Option (FsStore.RecordScan FileRecord)) (rest : List UploadSession) (cleaned : Nat) :
    (Gc.sweepSessions bucket n rest cleaned).Conf uploadProtocol
      (fun st _ => st = sweeping n sessions files none) (sweeping n sessions files none) := by
  induction rest generalizing cleaned with
  | nil => rfl
  | cons s rest ih =>
    refine Prog.conf_bind.mpr ((sweepSession_conf bucket n sessions files s).mono ?_)
    rintro st (e | done) rfl
    · rfl
    · exact ih _

private theorem sweepFile_conf (n : Int) (sessions : Option (FsStore.RecordScan UploadSession))
    (files : Option (FsStore.RecordScan FileRecord)) (f : FileRecord) :
    (Gc.sweepFile n f).Conf uploadProtocol
      (fun st _ => st = sweeping n sessions files none) (sweeping n sessions files none) := by
  refine Prog.conf_bind.mpr (Prog.conf_attempt.mpr ⟨trivial, ?_⟩)
  rintro (e | info) -
  · rfl
  change Prog.Conf _ _ (if RefInfo.count info ≠ 0 then pure false
    else if n - (RefInfo.orphanSince info).getD f.createdAt ≤ Gc.ttlSecs then pure false
    else _ : M Bool) _
  split
  · rfl
  split
  · rfl
  refine Prog.conf_bind.mpr (Prog.conf_attempt.mpr ⟨trivial, ?_⟩)
  rintro (e | deleted) -
  · rfl
  refine Prog.conf_bind.mpr (Prog.conf_attempt.mpr ⟨trivial, ?_⟩)
  rintro (e | announced) -
  · rfl
  refine ⟨.inl rfl, ?_⟩
  rintro (e | gone) - <;> rfl

private theorem sweepFiles_conf (n : Int) (sessions : Option (FsStore.RecordScan UploadSession))
    (files : Option (FsStore.RecordScan FileRecord)) (rest : List FileRecord) (cleaned : Nat) :
    (Gc.sweepFiles n rest cleaned).Conf uploadProtocol
      (fun st _ => st = sweeping n sessions files none) (sweeping n sessions files none) := by
  induction rest generalizing cleaned with
  | nil => rfl
  | cons f rest ih =>
    refine Prog.conf_bind.mpr ((sweepFile_conf n sessions files f).mono ?_)
    rintro st (e | done) rfl
    · rfl
    · exact ih _

/-- The byte pass deletes only what was listed, old, and named by neither scan. -/
private theorem sweepObjects_conf {n : Int} {sessions : FsStore.RecordScan UploadSession}
    {files : FsStore.RecordScan FileRecord} {listed : List ListedKey}
    (decoded : sessions.undecodable = [] ∧ files.undecodable = []) (rest : List ListedKey)
    (inside : ∀ e ∈ rest, e ∈ listed) (cleaned : Nat) :
    (Gc.sweepObjects n (sessions.records.map (·.s3Key) ++ files.records.map (·.s3Key)) rest
      cleaned).Conf uploadProtocol (fun _ _ => True)
      (sweeping n (some sessions) (some files) (some listed)) := by
  induction rest generalizing cleaned with
  | nil => trivial
  | cons entry rest ih =>
    have later := ih fun e mem => inside e (.tail _ mem)
    refine Prog.conf_bind.mpr ?_
    unfold Gc.sweepObject
    split
    · exact later _
    next spared =>
    have old : Gc.ttlSecs < n - entry.lastModified := by
      by_contra young
      exact spared (.inr (not_lt.mp young))
    refine Prog.conf_bind.mpr (Prog.conf_attempt.mpr ⟨⟨sessions, files, rfl, rfl, decoded.1,
      decoded.2, fun live => spared (.inl live), entry, inside entry (.head _), rfl, old⟩, ?_⟩)
    rintro (e | deleted) -
    · exact later _
    · exact later _

private theorem sweepOnce_conf :
    (Gc.sweepOnce bucket).Conf uploadProtocol (fun _ _ => True) (Upload.start .sweep) := by
  refine Prog.conf_bind.mpr ⟨fun _ => ⟨rfl, rfl⟩, ?_⟩
  rintro _ ⟨n, rfl⟩
  refine Prog.conf_seq ⟨rfl, rfl⟩ (fun _ => trivial) fun sessions => ?_
  refine Prog.conf_seq ⟨Option.some_ne_none _, rfl⟩ (fun _ => trivial) fun files => ?_
  refine Prog.conf_bind.mpr
    ((sweepSessions_conf bucket n (some sessions) (some files) _ 0).mono ?_)
  rintro _ (e | cleaned) rfl
  · trivial
  refine Prog.conf_bind.mpr
    ((sweepFiles_conf n (some sessions) (some files) _ cleaned).mono ?_)
  rintro _ (e | cleaned') rfl
  · trivial
  change (Gc.orphanPass n sessions files cleaned').Conf _ _ _
  unfold Gc.orphanPass
  split
  · trivial
  next decoded =>
  refine Prog.conf_bind.mpr (Prog.conf_attempt.mpr ⟨⟨Option.some_ne_none _, rfl⟩, ?_⟩)
  rintro (e | listed) -
  · trivial
  · have none : sessions.undecodable = [] ∧ files.undecodable = [] := by
      simpa using decoded
    exact sweepObjects_conf none listed (fun _ mem => mem) _

/-- Every request and every sweep obeys the protocol. -/
theorem fsOp_conf (op : FsOp) :
    (op.prog bucket).Conf uploadProtocol op.Finished (Upload.start op) := by
  cases op with
  | attach ty rid f sub =>
    exact Prog.conf_bind.mpr ((attach_conf ty rid f sub).mono fun _ r _ => by cases r <;> trivial)
  | detach ty rid f sub =>
    exact Prog.conf_bind.mpr ((detach_conf ty rid f sub).mono fun _ r _ => by cases r <;> trivial)
  | deleteFile f sub => exact deleteFile_conf f sub
  | initUpload req sub =>
    exact Prog.conf_bind.mpr ((initUpload_conf bucket req sub).mono fun _ r _ => by
      cases r <;> trivial)
  | uploadPart f slot body declared checksum sub =>
    exact uploadPart_conf bucket f slot body declared checksum sub
  | completeUpload f req sub => exact completeUpload_conf bucket f req sub
  | cancelUpload f sub => exact cancelUpload_conf bucket f sub
  | sweep =>
    exact Prog.conf_bind.mpr ((sweepOnce_conf bucket).mono fun _ r _ => by cases r <;> trivial)

end Conformance

/-! ### Rows of sessions and of files -/

namespace FsStore

/-- A session lies under its id and a record under its, and the object of both is named after
    the id. -/
structure OwnKeys (kv : Kv Value) : Prop where
  session : ∀ id s, getSession id kv = .ok (some s) → s.id = id ∧ s.s3Key = objectKey id
  record : ∀ id rec, getFile id kv = .ok (some rec) → rec.id = id ∧ rec.s3Key = objectKey id

end FsStore

/-- A record is noted only under the lock of its file. -/
theorem Upload.track_getFile (st : Upload) (f : String) (r : Except Error (Option FileRecord)) :
    uploadProtocol.track st (.fs .master (.getFile f)) r = st ∨
      uploadProtocol.track st (.fs .master (.getFile f)) r = { st with filed := true } ∧
        st.held = some f ∧ ∃ rec, r = .ok (some rec) := by
  rcases r with e | _ | rec
  · exact .inl rfl
  · exact .inl rfl
  · simp only
    split
    next held => exact .inr ⟨rfl, held, rec, rfl⟩
    next => exact .inl rfl

/-- Calls that touch no session row. -/
theorem FsCall.getSession_exec {c : FsCall} {now : Int} {kv : Kv Value} (id : String)
    (allowed : ∃ st, uploadProtocol.allowed st (.fs .master c))
    (save : ∀ s, c ≠ .saveSession s) (delete : ∀ id s, c ≠ .deleteSession id s) :
    FsStore.getSession id (c.exec now kv).2 = FsStore.getSession id kv := by
  obtain ⟨st, allowed⟩ := allowed
  cases c with
  | saveSession s => exact absurd rfl (save s)
  | deleteSession id s => exact absurd rfl (delete id s)
  | saveMultipart m => exact FsStore.getSession_saveMultipart m kv id
  | deleteMultipart u => exact FsStore.getSession_deleteMultipart u kv id
  | saveFile rec => exact FsStore.getSession_saveFile rec kv id
  | deleteFile f => exact FsStore.getSession_deleteFile f kv id
  | attach ty rid f =>
    simp only [FsCall.exec]
    split
    next n kv' done =>
      exact FsStore.getSession_congr (FsStore.get_attach_ok done
        (FsStore.refsKey_ne_sessionKey f id).symm (FsStore.not_isMarker_sessionKey id))
    · rfl
  | detach ty rid f =>
    simp only [FsCall.exec]
    split
    next n kv' done =>
      refine FsStore.getSession_congr ?_
      rw [FsStore.detach_ok done _ (FsStore.refsKey_ne_sessionKey f id).symm, if_neg]
      exact FsStore.ne_of_isMarker (FsStore.isMarker_relKey ty rid f)
        (FsStore.not_isMarker_sessionKey id)
    · rfl
  | filesForRow ty rid => cases allowed
  | page cursor => cases allowed
  | getBytes k => cases allowed
  | setBytes k v => cases allowed
  | commit ws => cases allowed
  | _ => rfl

/-- Calls that touch no record. -/
theorem FsCall.getFile_exec {c : FsCall} {now : Int} {kv : Kv Value} (f : String)
    (allowed : ∃ st, uploadProtocol.allowed st (.fs .master c))
    (save : ∀ rec, c ≠ .saveFile rec) (delete : ∀ id, c ≠ .deleteFile id) :
    FsStore.getFile f (c.exec now kv).2 = FsStore.getFile f kv := by
  obtain ⟨st, allowed⟩ := allowed
  cases c with
  | saveFile rec => exact absurd rfl (save rec)
  | deleteFile id => exact absurd rfl (delete id)
  | saveSession s => exact FsStore.getFile_saveSession s kv f
  | deleteSession id s => exact FsStore.getFile_deleteSession id s kv f
  | saveMultipart m => exact FsStore.getFile_saveMultipart m kv f
  | deleteMultipart u => exact FsStore.getFile_deleteMultipart u kv f
  | attach ty rid g =>
    simp only [FsCall.exec]
    split
    next n kv' done => exact FsStore.getFile_attach done f
    · rfl
  | detach ty rid g =>
    simp only [FsCall.exec]
    split
    next n kv' done => exact FsStore.getFile_detach done f
    · rfl
  | filesForRow ty rid => cases allowed
  | page cursor => cases allowed
  | getBytes k => cases allowed
  | setBytes k v => cases allowed
  | commit ws => cases allowed
  | _ => rfl

/-! ### What is known stays true under the lock -/

/-- Nobody else holds a lock that is held, and the row that was seen under it is still there. -/
structure Locked (w : World) (view : Nat → Option (FsOp × Upload)) : Prop where
  op : ∀ pid op st, view pid = some (op, st) → st.op = op
  held : ∀ pid op st id, view pid = some (op, st) → st.held = some id → id ∈ w.locks
  alone : ∀ p q op₁ op₂ st₁ st₂ id, view p = some (op₁, st₁) → view q = some (op₂, st₂) →
    st₁.held = some id → st₂.held = some id → p = q
  own : FsStore.OwnKeys w.master
  seen : ∀ pid op st s, view pid = some (op, st) → st.seen = some s →
    st.held = some s.id ∧ s.s3Key = objectKey s.id ∧ FsStore.HasSession s.id w.master

section Steps

variable {w w' : World} {view : Nat → Option (FsOp × Upload)} {pid : Nat} {op : FsOp}
  {st st' : Upload}

/-- A step that takes or gives back no lock. -/
private theorem Locked.keep (locked : Locked w view) (here : view pid = some (op, st))
    (same : st'.op = st.op ∧ st'.held = st.held) (locks : w'.locks = w.locks)
    (own : FsStore.OwnKeys w'.master)
    (rows : ∀ id, st.held ≠ some id → FsStore.HasSession id w.master →
      FsStore.HasSession id w'.master)
    (mine : ∀ s, st'.seen = some s →
      st.held = some s.id ∧ s.s3Key = objectKey s.id ∧ FsStore.HasSession s.id w'.master) :
    Locked w' (Function.update view pid (some (op, st'))) := by
  have before : ∀ {q op₁ st₁}, Function.update view pid (some (op, st')) q = some (op₁, st₁) →
      ∃ st₂, view q = some (op₁, st₂) ∧ st₁.op = st₂.op ∧ st₁.held = st₂.held := by
    intro q op₁ st₁ found
    rcases update_eq_some.mp found with ⟨rfl, ⟨⟩⟩ | ⟨-, found⟩
    · exact ⟨st, here, same⟩
    · exact ⟨st₁, found, rfl, rfl⟩
  refine ⟨?_, ?_, ?_, own, ?_⟩
  · intro q op₁ st₁ found
    obtain ⟨st₂, old, op, -⟩ := before found
    exact op.trans (locked.op q op₁ st₂ old)
  · intro q op₁ st₁ id found held
    obtain ⟨st₂, old, -, same⟩ := before found
    rw [locks]
    exact locked.held q op₁ st₂ id old (same ▸ held)
  · intro p q op₁ op₂ st₁ st₂ id first second held₁ held₂
    obtain ⟨st₃, old₁, -, same₁⟩ := before first
    obtain ⟨st₄, old₂, -, same₂⟩ := before second
    exact locked.alone p q op₁ op₂ st₃ st₄ id old₁ old₂ (same₁ ▸ held₁) (same₂ ▸ held₂)
  · intro q op₁ st₁ s found seen
    rcases update_eq_some.mp found with ⟨rfl, ⟨⟩⟩ | ⟨other, found⟩
    · rw [same.2]
      exact mine s seen
    · obtain ⟨held, key, row⟩ := locked.seen q op₁ st₁ s found seen
      refine ⟨held, key, rows s.id (fun held' => other ?_) row⟩
      -- whoever has seen another session holds its lock, which is not the one of the step
      exact locked.alone q pid op₁ op st₁ st s.id found here held held'

/-- A step that writes no session and no record. -/
private theorem Locked.quiet (locked : Locked w view) (here : view pid = some (op, st))
    (same : st'.op = st.op ∧ st'.held = st.held) (locks : w'.locks = w.locks)
    (sessions : ∀ id, FsStore.getSession id w'.master = FsStore.getSession id w.master)
    (records : ∀ f, FsStore.getFile f w'.master = FsStore.getFile f w.master)
    (mine : ∀ s, st'.seen = some s → st.seen = some s ∨
      st.held = some s.id ∧ FsStore.getSession s.id w.master = .ok (some s)) :
    Locked w' (Function.update view pid (some (op, st'))) := by
  have rows : ∀ id, FsStore.HasSession id w'.master ↔ FsStore.HasSession id w.master := by
    intro id
    simp only [FsStore.HasSession, sessions]
  refine locked.keep here same locks ⟨?_, ?_⟩ (fun id _ => (rows id).mpr) fun s seen => ?_
  · intro id s found
    exact locked.own.session id s (sessions id ▸ found)
  · intro f rec found
    exact locked.own.record f rec (records f ▸ found)
  · rw [rows]
    rcases mine s seen with old | ⟨held, read⟩
    · exact locked.seen pid op st s here old
    · exact ⟨held, (locked.own.session _ s read).2, s, read⟩

/-- A step that leaves the index and the locks alone, and what the request knows. -/
private theorem Locked.aside (locked : Locked w view) (here : view pid = some (op, st))
    (master : w'.master = w.master) (locks : w'.locks = w.locks)
    (same : st'.op = st.op ∧ st'.held = st.held ∧ st'.seen = st.seen) :
    Locked w' (Function.update view pid (some (op, st'))) :=
  locked.quiet here ⟨same.1, same.2.1⟩ locks (fun id => congrArg (FsStore.getSession id) master)
    (fun f => congrArg (FsStore.getFile f) master) fun _ seen => .inl (same.2.2 ▸ seen)

private theorem Locked.saveSession (locked : Locked w view) (here : view pid = some (op, st))
    {s : UploadSession} (allowed : st.MaySave s) :
    Locked { w with master := FsStore.saveSession s w.master } (Function.update view pid
      (some (op, if st.held = none then { st with fresh := none }
        else { st with seen := some s }))) := by
  have key : s.s3Key = objectKey s.id := by
    -- a new session takes its key from its id, a later save keeps the key that it read
    rcases allowed with ⟨-, -, key⟩ | ⟨s₀, seen, id, same, -, -⟩
    · exact key
    · rw [same, id]
      exact (locked.seen pid op st s₀ here seen).2.1
  have rows : ∀ id, FsStore.HasSession id w.master →
      FsStore.HasSession id (FsStore.saveSession s w.master) := by
    rintro id ⟨s', found⟩
    by_cases same : s.id = id
    · exact ⟨s, (FsStore.getSession_saveSession s _ id).trans (if_pos same)⟩
    · exact ⟨s', ((FsStore.getSession_saveSession s _ id).trans (if_neg same)).trans found⟩
  refine locked.keep here (by split <;> exact ⟨rfl, rfl⟩) rfl ⟨?_, ?_⟩ (fun id _ => rows id) ?_
  · intro id s' found
    rw [FsStore.getSession_saveSession] at found
    split at found
    next same =>
      cases found
      exact ⟨same, same ▸ key⟩
    next => exact locked.own.session id s' found
  · intro f rec found
    exact locked.own.record f rec ((FsStore.getFile_saveSession s w.master f).symm.trans found)
  · intro s' seen
    split at seen
    next idle =>
      obtain ⟨held, -⟩ := locked.seen pid op st s' here seen
      rw [idle] at held
      cases held
    next busy =>
      cases seen
      rcases allowed with ⟨idle, -⟩ | ⟨s₀, seen, id, -⟩
      · exact absurd idle busy
      · refine ⟨id ▸ (locked.seen pid op st s₀ here seen).1, key, s, ?_⟩
        exact (FsStore.getSession_saveSession s _ _).trans (if_pos rfl)

private theorem Locked.deleteSession (locked : Locked w view) (here : view pid = some (op, st))
    {id : String} {session : Option UploadSession}
    (allowed : st.held = some id ∨ ∃ s, st.seen = some s ∧ s.id = id)
    (same : st'.op = st.op ∧ st'.held = st.held) (forgot : st'.seen = none) :
    Locked { w with master := FsStore.deleteSession id session w.master }
      (Function.update view pid (some (op, st'))) := by
  have held : st.held = some id := by
    rcases allowed with held | ⟨s, seen, rfl⟩
    · exact held
    · exact (locked.seen pid op st s here seen).1
  have files := FsStore.getFile_deleteSession id session w.master
  refine locked.keep here same rfl ⟨?_, ?_⟩ ?_ ?_
  · intro g s found
    rw [FsStore.getSession_deleteSession] at found
    split at found
    · cases found
    · exact locked.own.session g s found
  · intro f rec found
    exact locked.own.record f rec ((files f).symm.trans found)
  · rintro g other ⟨s, found⟩
    refine ⟨s, (FsStore.getSession_deleteSession id session w.master g).trans
      ((if_neg ?_).trans found)⟩
    rintro rfl
    exact other held
  · intro s seen
    rw [forgot] at seen
    cases seen

private theorem Locked.saveFile (locked : Locked w view) (here : view pid = some (op, st))
    {rec : FileRecord}
    (allowed : st.held = some rec.id ∧ ∃ s, st.seen = some s ∧ rec.s3Key = s.s3Key) :
    Locked { w with master := FsStore.saveFile rec w.master }
      (Function.update view pid (some (op, { st with filed := true }))) := by
  obtain ⟨held, s, seen, same⟩ := allowed
  have key : rec.s3Key = objectKey rec.id := by
    obtain ⟨held', key, -⟩ := locked.seen pid op st s here seen
    obtain own : rec.id = s.id := Option.some.inj (held.symm.trans held')
    rw [same, key, own]
  have sessions := FsStore.getSession_saveFile rec w.master
  refine locked.keep here ⟨rfl, rfl⟩ rfl ⟨?_, ?_⟩ ?_ ?_
  · intro id s' found
    exact locked.own.session id s' ((sessions id).symm.trans found)
  · intro f rec' found
    rw [FsStore.getFile_saveFile] at found
    split at found
    next same =>
      cases found
      exact ⟨same, same ▸ key⟩
    next => exact locked.own.record f rec' found
  · rintro id - ⟨s', found⟩
    exact ⟨s', (sessions id).trans found⟩
  · intro s' seen'
    obtain ⟨held', key', s₁, found⟩ := locked.seen pid op st s' here seen'
    exact ⟨held', key', s₁, (sessions s'.id).trans found⟩

private theorem Locked.deleteFile (locked : Locked w view) (here : view pid = some (op, st))
    (f : String) : Locked { w with master := FsStore.deleteFile f w.master }
      (Function.update view pid (some (op, st))) := by
  have sessions := FsStore.getSession_deleteFile f w.master
  refine locked.keep here ⟨rfl, rfl⟩ rfl ⟨?_, ?_⟩ ?_ ?_
  · intro id s found
    exact locked.own.session id s ((sessions id).symm.trans found)
  · intro g rec found
    by_cases same : g = f
    · subst same
      simp [FsStore.getFile, FsStore.get_deleteFile] at found
    · exact locked.own.record g rec ((FsStore.getFile_deleteFile same w.master).symm.trans found)
  · rintro id - ⟨s, found⟩
    exact ⟨s, (sessions id).trans found⟩
  · intro s seen
    obtain ⟨held, key, s₁, found⟩ := locked.seen pid op st s here seen
    exact ⟨held, key, s₁, (sessions s.id).trans found⟩

/-- Who takes a lock that nobody has, or none at all, shares it with nobody. -/
private theorem Locked.alone_update (locked : Locked w view)
    (new : ∀ q op₁ st₁ id, view q = some (op₁, st₁) → st'.held = some id → st₁.held ≠ some id)
    {p q : Nat} {op₁ op₂ : FsOp} {st₁ st₂ : Upload} {id : String}
    (first : Function.update view pid (some (op, st')) p = some (op₁, st₁))
    (second : Function.update view pid (some (op, st')) q = some (op₂, st₂))
    (held₁ : st₁.held = some id) (held₂ : st₂.held = some id) : p = q := by
  refine single_update (K := fun (row : FsOp × Upload) id => row.2.held = some id) ?_ ?_
    first second held₁ held₂
  · exact fun p q _ _ id => locked.alone p q _ _ _ _ id
  · exact fun q row id _ found mine => new q row.1 row.2 id found mine

private theorem Locked.lock (locked : Locked w view) (here : view pid = some (op, st)) {id : String}
    (free : id ∉ w.locks) :
    Locked { w with locks := id :: w.locks } (Function.update view pid
      (some (op, { st with held := some id, seen := none, filed := false }))) := by
  refine ⟨?_, ?_, ?_, locked.own, ?_⟩
  · intro q op₁ st₁ found
    rcases update_eq_some.mp found with ⟨rfl, ⟨⟩⟩ | ⟨-, found⟩
    · exact locked.op q op st here
    · exact locked.op q op₁ st₁ found
  · intro q op₁ st₁ id' found held
    rcases update_eq_some.mp found with ⟨rfl, ⟨⟩⟩ | ⟨-, found⟩
    · obtain rfl := Option.some.inj held
      exact List.mem_cons_self
    · exact List.mem_cons_of_mem _ (locked.held q op₁ st₁ id' found held)
  · -- The lock was free, so nobody else had it.
    have others : ∀ q op₁ st₁, view q = some (op₁, st₁) → st₁.held ≠ some id :=
      fun q op₁ st₁ found held => free (locked.held q op₁ st₁ id found held)
    intro p q op₁ op₂ st₁ st₂ id' first second held₁ held₂
    refine locked.alone_update ?_ first second held₁ held₂
    rintro q op₃ st₃ _ found ⟨⟩
    exact others q op₃ st₃ found
  · intro q op₁ st₁ s found seen
    rcases update_eq_some.mp found with ⟨rfl, ⟨⟩⟩ | ⟨-, found⟩
    · cases seen
    · exact locked.seen q op₁ st₁ s found seen

private theorem Locked.unlock (locked : Locked w view) (here : view pid = some (op, st))
    {id : String} (mine : st.held = some id) :
    Locked { w with locks := w.locks.erase id } (Function.update view pid
      (some (op, { st with held := none, seen := none, filed := false }))) := by
  refine ⟨?_, ?_, ?_, locked.own, ?_⟩
  · intro q op₁ st₁ found
    rcases update_eq_some.mp found with ⟨rfl, ⟨⟩⟩ | ⟨-, found⟩
    · exact locked.op q op st here
    · exact locked.op q op₁ st₁ found
  · intro q op₁ st₁ id' found held
    rcases update_eq_some.mp found with ⟨rfl, ⟨⟩⟩ | ⟨other, found⟩
    · cases held
    · -- one holder for each lock, so the others hold different ones
      have apart : id' ≠ id := by
        rintro rfl
        exact other (locked.alone q pid op₁ op st₁ st id' found here held mine)
      exact (List.mem_erase_of_ne apart).mpr (locked.held q op₁ st₁ id' found held)
  · intro p q op₁ op₂ st₁ st₂ id' first second held₁ held₂
    exact locked.alone_update (fun _ _ _ _ _ bad => by cases bad) first second held₁ held₂
  · intro q op₁ st₁ s found seen
    rcases update_eq_some.mp found with ⟨rfl, ⟨⟩⟩ | ⟨-, found⟩
    · cases seen
    · exact locked.seen q op₁ st₁ s found seen

end Steps

/-- Every allowed call keeps what is known under the locks. -/
theorem Locked.call {w : World} {view : Nat → Option (FsOp × Upload)} {pid : Nat} {op : FsOp}
    {st : Upload} {c : Call} (locked : Locked w view) (here : view pid = some (op, st))
    (allowed : uploadProtocol.allowed st c) (enabled : c.enabled w) :
    Locked (c.exec w).2 (Function.update view pid
      (some (op, uploadProtocol.track st c (c.exec w).1))) := by
  cases c with
  | fs side c =>
    cases side with
    | replica sub => cases c <;> cases allowed
    | master =>
      cases c with
      | saveSession s => exact locked.saveSession here allowed
      | deleteSession id session => exact locked.deleteSession here allowed ⟨rfl, rfl⟩ rfl
      | saveFile rec => exact locked.saveFile here allowed.2
      | deleteFile f => exact locked.deleteFile here f
      | getSession id =>
        have same : ∀ r, (uploadProtocol.track st (.fs .master (.getSession id)) r).op = st.op ∧
            (uploadProtocol.track st (.fs .master (.getSession id)) r).held = st.held := by
          rintro (e | found)
          · exact ⟨rfl, rfl⟩
          · simp only
            split
            · exact ⟨rfl, rfl⟩
            · split <;> exact ⟨rfl, rfl⟩
        -- what is read under the lock is what the store holds
        refine locked.quiet here (same _) rfl (fun _ => rfl) (fun _ => rfl) fun s seen => ?_
        cases read : FsStore.getSession id w.master with
        | error e =>
          simp only [Call.exec, FsCall.exec, World.fsStore, read] at seen
          exact .inl seen
        | ok found =>
          simp only [Call.exec, FsCall.exec, World.fsStore, read] at seen
          split at seen
          next held =>
            obtain rfl : found = some s := seen
            obtain ⟨rfl, -⟩ := locked.own.session id s read
            exact .inr ⟨held, read⟩
          · split at seen <;> exact .inl seen
      | getFile f =>
        rcases st.track_getFile f (Call.exec (.fs .master (.getFile f)) w).1 with same | ⟨same, -⟩
        · rw [same]
          exact locked.aside here rfl rfl ⟨rfl, rfl, rfl⟩
        · rw [same]
          exact locked.aside here rfl rfl ⟨rfl, rfl, rfl⟩
      | listFiles => exact locked.aside here rfl rfl ⟨rfl, rfl, rfl⟩
      | listSessions => exact locked.aside here rfl rfl ⟨rfl, rfl, rfl⟩
      | filesForRow ty rid => cases allowed
      | page cursor => cases allowed
      | getBytes k => cases allowed
      | setBytes k v => cases allowed
      | commit ws => cases allowed
      | _ =>
        exact locked.quiet here ⟨rfl, rfl⟩ rfl
          (fun id => FsCall.getSession_exec id ⟨st, allowed⟩ (fun _ bad => by cases bad)
            fun _ _ bad => by cases bad)
          (fun f => FsCall.getFile_exec f ⟨st, allowed⟩ (fun _ bad => by cases bad)
            fun _ bad => by cases bad) fun s seen => .inl seen
  | s3 c =>
    obtain ⟨master, locks, -⟩ := S3Call.exec_apart c w
    cases c with
    | listKeys start => exact locked.aside here master locks ⟨rfl, rfl, rfl⟩
    | putObject key body => exact locked.aside here master locks ⟨rfl, rfl, rfl⟩
    | _ => exact locked.aside here master locks ⟨rfl, rfl, rfl⟩
  | wal c => exact locked.aside here rfl rfl ⟨rfl, rfl, rfl⟩
  | policy c => exact locked.aside here rfl rfl ⟨rfl, rfl, rfl⟩
  | lock id => exact locked.lock here enabled
  | unlock id => exact locked.unlock here allowed
  | now => exact locked.aside here rfl rfl ⟨rfl, rfl, rfl⟩
  | uuid => exact locked.aside here rfl rfl ⟨rfl, rfl, rfl⟩

/-- A call that failed teaches nothing. -/
theorem Upload.track_error (st : Upload) {c : Call} (e : Error) (answered : c.Answered (.error e)) :
    uploadProtocol.track st c (.error e) = st ∨
      uploadProtocol.track st c (.error e) = { st with pending := none } := by
  cases c with
  | fs side c =>
    cases side with
    | replica sub => exact .inl rfl
    | master => cases c <;> exact .inl rfl
  | s3 c => cases c <;> first | exact .inl rfl | exact .inr rfl
  | lock id => cases answered
  | unlock id => cases answered
  | _ => exact .inl rfl

theorem Locked.fault {w : World} {view : Nat → Option (FsOp × Upload)} {pid : Nat} {op : FsOp}
    {st : Upload} {c : Call} {e : Error} (locked : Locked w view) (here : view pid = some (op, st))
    (mayFail : c.mayFail = true) :
    Locked w (Function.update view pid (some (op, uploadProtocol.track st c (.error e)))) := by
  have same := st.track_error e (Call.answered_fault (e := e) mayFail)
  refine locked.quiet here ?_ rfl (fun _ => rfl) (fun _ => rfl) fun s seen => .inl ?_
  · rcases same with same | same <;> rw [same] <;> exact ⟨rfl, rfl⟩
  · rcases same with same | same <;> rw [same] at seen <;> exact seen

theorem Locked.spawn {w : World} {view : Nat → Option (FsOp × Upload)} {pid : Nat} {op : FsOp}
    (locked : Locked w view) :
    Locked w (Function.update view pid (some (op, Upload.start op))) := by
  refine ⟨?_, ?_, ?_, locked.own, ?_⟩
  · intro q op₁ st₁ found
    rcases update_eq_some.mp found with ⟨-, ⟨⟩⟩ | ⟨-, old⟩
    · rfl
    · exact locked.op q op₁ st₁ old
  · intro q op₁ st₁ id found held
    rcases update_eq_some.mp found with ⟨-, ⟨⟩⟩ | ⟨-, old⟩
    · cases held
    · exact locked.held q op₁ st₁ id old held
  · intro p q op₁ op₂ st₁ st₂ id first second held₁ held₂
    exact locked.alone_update (fun _ _ _ _ _ bad => by cases bad) first second held₁ held₂
  · intro q op₁ st₁ s found seen
    rcases update_eq_some.mp found with ⟨-, ⟨⟩⟩ | ⟨-, old⟩
    · cases seen
    · exact locked.seen q op₁ st₁ s old seen

theorem Locked.env {w w' : World} {view : Nat → Option (FsOp × Upload)} (locked : Locked w view)
    (around : World.Around w w') : Locked w' view := by
  obtain ⟨clock, enforcer, -, rfl⟩ := around
  exact ⟨locked.op, locked.held, locked.alone, locked.own, locked.seen⟩

/-- Before the first request nothing is known. -/
theorem Locked.start {w : World} (own : FsStore.OwnKeys w.master) :
    Locked w (uploadProtocol.view Upload.start (fsPool w)) :=
  ⟨fun _ _ _ bad => (nomatch bad), fun _ _ _ _ bad => (nomatch bad),
    fun _ _ _ _ _ _ _ bad => (nomatch bad), own, fun _ _ _ _ bad => (nomatch bad)⟩

end RustApi
