import RustApi.Fs.System

/-!
# Completion under retry

The owner of an upload whose parts are all recorded repeats `complete_upload` until it
returns. An attempt that meets a failing call ends there, and the next one starts from
what it has left.

## Main results

- `retry_converges_iff`: the repeated call returns with the record committed and
  announced exactly when the backend held all the recorded parts of a multipart upload and
  no attempt was the one that assembled the object and then failed before the record was
  written.
- `retry_strands`: an upload whose object is there and whose owner can neither complete
  it nor be told so.
-/

namespace RustApi

open Lib

namespace FsEngine

/-- The end of a completion, and all that a retry has to do once the record is committed. -/
def finish (f : String) (rec : FileRecord) : M Unit := do
  let _ ← announce (.fileCreate rec)
  deleteSession f

/-- The completion of an assembled upload. -/
def commit (f : String) (req : CompleteRequest) (s : UploadSession) : M Unit := do
  let createdAt ← Prog.perform Call.now
  let record : FileRecord := ⟨f, req.name, req.mimetype, s.fileSize, s.s3Key, s.ownerSub, createdAt⟩
  let _ ← onStore .master (.saveFile record)
  finish f record

/-- `complete_upload` on a committed record, with the session that is left. -/
def completeAgain (f sub : String) (rec : FileRecord) : Option UploadSession → M Unit
  | none => if rec.ownerSub ≠ sub then Prog.fail (.fs .forbidden) else pure ()
  | some _ => if rec.ownerSub ≠ sub then Prog.fail (.fs .forbidden) else finish f rec

/-- `complete_upload` on a session without a record. -/
def completeFirst (bucket f : String) (req : CompleteRequest) (sub : String) (s : UploadSession) :
    M Unit :=
  if s.ownerSub ≠ sub then Prog.fail (.fs .forbidden)
  else if s.etags.any Option.isNone then Prog.fail (.fs (.badRequest "not all parts uploaded"))
  else do
    let _ ← assemble bucket s
    commit f req s

/-- What `complete_upload` does with the two rows that it has read. -/
def completeRows (bucket f : String) (req : CompleteRequest) (sub : String) :
    Option FileRecord → Option UploadSession → M Unit
  | some rec, session => completeAgain f sub rec session
  | none, none => Prog.fail (.fs (.notFound "upload session not found"))
  | none, some s => completeFirst bucket f req sub s

/-- What `complete_upload` does under its lock. -/
def completeLocked (bucket f : String) (req : CompleteRequest) (sub : String) : M Unit := do
  let committed ← onStore .master (.getFile f)
  let session ← onStore .master (.getSession f)
  completeRows bucket f req sub committed session

theorem completeUpload_eq (bucket f : String) (req : CompleteRequest) (sub : String) :
    completeUpload bucket f req sub = withSession f (completeLocked bucket f req sub) := by
  unfold completeUpload completeLocked
  congr 1
  refine congrArg _ (funext fun committed => congrArg _ (funext fun session => ?_))
  cases committed <;> cases session <;> rfl

/-! ### Every failed call ends the completion -/

theorem deleteSession_strict (f : String) : (deleteSession f).Strict :=
  Prog.strict_bind (Prog.strict_perform _) fun _ => Prog.strict_perform _

theorem finish_strict (f : String) (rec : FileRecord) : (finish f rec).Strict :=
  Prog.strict_bind (Prog.strict_perform _) fun _ => deleteSession_strict f

theorem ensureMultipart_strict (uploadId : String) : (ensureMultipart uploadId).Strict := by
  refine Prog.strict_bind (Prog.strict_perform _) ?_
  rintro (_ | record)
  · trivial
  · change Prog.Strict (if _ then _ else _ : M Unit)
    split
    · trivial
    · exact Prog.strict_perform _

theorem completeMultipartUpload_strict (bucket key uploadId : String) (etags : List String) :
    (S3.completeMultipartUpload bucket key uploadId etags).Strict := by
  refine Prog.strict_bind (Prog.strict_perform _) ?_
  rintro (_ | state)
  · trivial
  · change Prog.Strict (if _ then _ else if _ then _ else _ : M Unit)
    split
    · trivial
    split
    · trivial
    refine Prog.strict_bind (p := (Prog.lift _ : M (List String))) trivial fun _ => ?_
    exact Prog.strict_perform _

theorem assemble_strict (bucket : String) (s : UploadSession) : (assemble bucket s).Strict := by
  unfold assemble
  split
  · trivial
  cases s.s3UploadId with
  | none => trivial
  | some uploadId =>
    refine Prog.strict_bind (ensureMultipart_strict uploadId) fun _ => ?_
    exact Prog.strict_bind (completeMultipartUpload_strict ..) fun _ => Prog.strict_perform _

theorem completeLocked_strict (bucket f : String) (req : CompleteRequest) (sub : String) :
    (completeLocked bucket f req sub).Strict := by
  refine Prog.strict_bind (Prog.strict_perform _) fun committed => ?_
  refine Prog.strict_bind (Prog.strict_perform _) fun session => ?_
  rcases committed with _ | rec <;> rcases session with _ | s
  · trivial
  · change Prog.Strict (if _ then _ else if _ then _ else _ : M Unit)
    split
    · trivial
    split
    · trivial
    refine Prog.strict_bind (assemble_strict bucket s) fun _ => ?_
    refine Prog.strict_bind (Prog.strict_perform _) fun createdAt => ?_
    exact Prog.strict_bind (Prog.strict_perform _) fun _ => finish_strict f _
  · change Prog.Strict (if _ then _ else _ : M Unit)
    split <;> trivial
  · change Prog.Strict (if _ then _ else _ : M Unit)
    split
    · trivial
    · exact finish_strict f rec

end FsEngine

/-! ### Where an upload stands -/

section Phases

variable (bucket f : String) (s : UploadSession)

/-- The record that a completion of the session writes. -/
def UploadSession.Commits (rec : FileRecord) : Prop :=
  rec.id = f ∧ rec.size = s.fileSize ∧ rec.s3Key = s.s3Key ∧ rec.ownerSub = s.ownerSub

/-- The durable record of a multipart session, with the parts that the session has. -/
structure Staged (kv : Kv Value) (record : PersistedMultipart) : Prop where
  uploadId : s.s3UploadId = some record.uploadId
  row : FsStore.loadMultipart record.uploadId kv = .ok (some record)
  place : record.bucket = bucket ∧ record.key = s.s3Key
  named : bucket ≠ "" ∧ s.s3Key ≠ ""
  count : record.parts.length = s.etags.length
  part : ∀ i etag, s.etags[i]? = some (some etag) → record.parts.lookup i = some etag

/-- Nothing is committed, and all parts are recorded: in the session row, and for a multipart
    upload in its record. -/
structure Recorded (kv : Kv Value) (feed : Kv WalValue) : Prop where
  session : FsStore.getSession f kv = .ok (some s)
  parts : s.etags.any Option.isNone = false
  uncommitted : FsStore.getFile f kv = .ok none
  log : ∃ entries, Wal.Log feed entries
  staged : s.fileTotalParts ≠ 1 → ∃ record, Staged bucket s kv record

/-- The backend holds the upload, with every part under the etag that the session has for it. -/
def HeldParts (uploads : Kv BackendUpload) (record : PersistedMultipart) : Prop :=
  ∃ up, uploads[record.s3UploadId]? = some up ∧ ∀ i etag, s.etags[i]? = some (some etag) →
    ∃ body, (i, etag, body) ∈ up.parts

/-- The backend can assemble the object of a multipart upload. -/
def Joinable (kv : Kv Value) (uploads : Kv BackendUpload) : Prop :=
  s.fileTotalParts = 1 ∨ ∃ record, Staged bucket s kv record ∧ HeldParts s uploads record

/-- The backend cannot assemble the object, or not any more, and the record that would say that it
    is there is missing. -/
structure Stranded (kv : Kv Value) (uploads : Kv BackendUpload) : Prop where
  session : FsStore.getSession f kv = .ok (some s)
  parts : s.etags.any Option.isNone = false
  uncommitted : FsStore.getFile f kv = .ok none
  multipart : s.fileTotalParts ≠ 1
  gone : ∃ u, s.s3UploadId = some u ∧ (FsStore.loadMultipart u kv = .ok none ∨
    ∃ record, Staged bucket s kv record ∧ ¬ HeldParts s uploads record)

/-- The record is there and so is the session. -/
structure Committed (kv : Kv Value) (feed : Kv WalValue) (rec : FileRecord) : Prop where
  session : FsStore.HasSession f kv
  record : FsStore.getFile f kv = .ok (some rec)
  own : s.Commits f rec
  log : ∃ entries, Wal.Log feed entries

/-- The record is there and announced, and the session is gone. -/
structure Finished (kv : Kv Value) (feed : Kv WalValue) (rec : FileRecord) : Prop where
  session : FsStore.getSession f kv = .ok none
  record : FsStore.getFile f kv = .ok (some rec)
  own : s.Commits f rec
  log : ∃ entries, Wal.Log feed entries ∧ .fileCreate rec ∈ entries.map (·.op)

inductive Phase where
  | recorded
  | stranded
  | committed
  | finished
  deriving DecidableEq, Repr

def Phase.Holds (w : World) : Phase → Prop
  | .recorded => Recorded bucket f s w.master w.wal ∧ Joinable bucket s w.master w.uploads
  | .stranded => Stranded bucket f s w.master w.uploads
  | .committed => ∃ rec, Committed f s w.master w.wal rec
  | .finished => ∃ rec, Finished f s w.master w.wal rec

/-- The phases in which a completion that starts in a phase makes its calls that may fail. A
    multipart one reads the file, the session and its record, completes the upload in the
    backend, deletes the record and saves the file; then the feed is written and the session
    read and deleted. -/
def Phase.path (single : Bool) : Phase → List Phase
  | .recorded =>
    if single then List.replicate 3 .recorded ++ List.replicate 3 .committed
    else List.replicate 4 .recorded ++ List.replicate 2 .stranded ++ List.replicate 3 .committed
  | .stranded => []
  | .committed => List.replicate 5 .committed
  | .finished => List.replicate 2 .finished

/-- The phase in which a completion without a fault ends. -/
def Phase.last : Phase → Phase
  | .stranded => .stranded
  | _ => .finished

/-- The phase that is left when the call after `k` others fails. -/
def Phase.after (single : Bool) (phase : Phase) (k : Nat) : Phase :=
  (phase.path single).getD k phase.last

theorem Phase.Holds.of_same {phase : Phase} {w w' : World} (holds : phase.Holds bucket f s w)
    (master : w'.master = w.master) (wal : w'.wal = w.wal) (uploads : w'.uploads = w.uploads) :
    phase.Holds bucket f s w' := by
  unfold Phase.Holds at holds ⊢
  rwa [master, wal, uploads]

end Phases

/-! ### What a completion passes through -/

section Passes

variable {bucket f : String} {s : UploadSession} {w : World}

theorem deleteSession_passes {session : Option UploadSession}
    (row : FsStore.getSession f w.master = .ok session) :
    M.Passes (FsEngine.deleteSession f) w [w, w] (.ok ())
      { w with master := FsStore.deleteSession f session w.master } :=
  .bind (l := [w]) (m := [w]) (v := w) (a := session)
    (.perform rfl (Prod.ext row rfl)) (.perform rfl rfl)

theorem announce_passes {entries : List WalEntry} (log : Wal.Log w.wal entries) (op : WalOp) :
    ∃ feed, Wal.Log feed (entries ++ [⟨entries.length + 1, op, w.clock⟩]) ∧
      M.Passes (FsEngine.announce op) w [w] (.ok ()) { w with wal := feed } := by
  obtain ⟨feed, appended, log'⟩ := log.append_eq w.clock op
  refine ⟨feed, log', .perform rfl ?_⟩
  simp only [Call.exec, WalCall.exec, appended]

/-- The end of a completion, from the phase in which the record is there. -/
theorem finish_passes {rec : FileRecord} (committed : Committed f s w.master w.wal rec) :
    ∃ w₁ w₂, M.Passes (FsEngine.finish f rec) w [w, w₁, w₁] (.ok ()) w₂ ∧
      Committed f s w₁.master w₁.wal rec ∧ Finished f s w₂.master w₂.wal rec := by
  obtain ⟨entries, log⟩ := committed.log
  obtain ⟨session, row⟩ := committed.session
  obtain ⟨feed, log', announced⟩ := announce_passes log (.fileCreate rec)
  refine ⟨_, _, .bind announced (deleteSession_passes (w := { w with wal := feed }) row), ?_, ?_⟩
  · exact ⟨⟨session, row⟩, committed.record, committed.own, _, log'⟩
  · exact {
      session := by rw [FsStore.getSession_deleteSession, if_pos rfl]
      record := (FsStore.getFile_deleteSession f _ w.master f).trans committed.record
      own := committed.own
      log := ⟨_, log', by simp⟩ }

/-- The commit of an assembled upload. -/
theorem commit_passes (req : CompleteRequest) (session : FsStore.getSession f w.master = .ok (some s))
    (log : ∃ entries, Wal.Log w.wal entries) :
    ∃ w₁ w₂ w₃ rec, M.Passes (FsEngine.commit f req s) w [w, w₁, w₂, w₂] (.ok ()) w₃ ∧
      Committed f s w₁.master w₁.wal rec ∧ Committed f s w₂.master w₂.wal rec ∧
      Finished f s w₃.master w₃.wal rec := by
  obtain ⟨rec, named⟩ : ∃ rec : FileRecord, rec = ⟨f, req.name, req.mimetype, s.fileSize, s.s3Key,
    s.ownerSub, w.clock⟩ := ⟨_, rfl⟩
  have committed : Committed f s (FsStore.saveFile rec w.master) w.wal rec := {
    session := ⟨s, (FsStore.getSession_saveFile rec w.master f).trans session⟩
    record := by rw [FsStore.getFile_saveFile, if_pos (by rw [named])]
    own := by subst named; exact ⟨rfl, rfl, rfl, rfl⟩
    log := log }
  obtain ⟨w₂, w₃, finishes, between, finished⟩ :=
    finish_passes (w := { w with master := FsStore.saveFile rec w.master }) committed
  refine ⟨{ w with master := FsStore.saveFile rec w.master }, w₂, w₃, rec, ?_, committed,
    between, finished⟩
  refine .bind (l := []) (v := w) (.sure rfl rfl) ?_
  subst named
  exact .bind (l := [w]) (.perform rfl rfl) finishes

/-! ### The backend's part -/

theorem orderedParts_of_lookup {parts : List (Nat × String)} {etags : List String} (i : Nat)
    (part : ∀ (j : Nat) etag, etags[j]? = some etag → parts.lookup (i + j) = some etag) :
    S3.orderedParts parts i etags = .ok etags := by
  induction etags generalizing i with
  | nil => rfl
  | cons etag etags ih =>
    have here : parts.lookup i = some etag := part 0 etag rfl
    have later := ih (i + 1) fun j etag' found => by
      rw [Nat.add_right_comm, Nat.add_assoc]
      exact part (j + 1) etag' found
    simp [S3.orderedParts, here, later, Except.map]

/-- The backend joins the parts of a completion when it holds each of them. -/
theorem join_ok_iff {up : BackendUpload} {i : Nat} {etags : List String} :
    (∃ body, up.join i etags = some body) ↔
      ∀ (j : Nat) etag, etags[j]? = some etag → ∃ body, (i + j, etag, body) ∈ up.parts := by
  have held : ∀ idx etag, (∃ body, up.body idx etag = some body) ↔
      ∃ body, (idx, etag, body) ∈ up.parts := by
    intro idx etag
    simp only [BackendUpload.body, Option.map_eq_some_iff]
    constructor
    -- the first part that fits is one that the backend holds
    · rintro ⟨-, ⟨j, content, body⟩, found, -⟩
      obtain ⟨rfl, rfl⟩ : j = idx ∧ content = etag := by simpa using List.find?_some found
      exact ⟨body, List.mem_of_find?_eq_some found⟩
    · rintro ⟨body, mem⟩
      obtain ⟨p, found⟩ := Option.isSome_iff_exists.mp
        (List.find?_isSome (p := fun p : Nat × String × Bytes => p.1 = idx ∧ p.2.1 = etag)
          |>.mpr ⟨_, mem, by simp⟩)
      exact ⟨p.2.2, p, found, rfl⟩
  -- on the list of ids, of which the first belongs to slot `i`
  induction etags generalizing i with
  | nil => simp [BackendUpload.join]
  | cons etag etags ih =>
    constructor
    · rintro ⟨all, joined⟩ j etag' found
      simp only [BackendUpload.join, Option.bind_eq_bind, Option.bind_eq_some_iff] at joined
      obtain ⟨body, here, rest, later, -⟩ := joined
      cases j with
      | zero =>
        obtain rfl : etag = etag' := Option.some.inj found
        exact (held i etag).mp ⟨body, here⟩
      | succ j =>
        rw [Nat.add_comm j 1, ← Nat.add_assoc]
        exact ih.mp ⟨rest, later⟩ j etag' found
    · intro parts
      obtain ⟨body, here⟩ := (held i etag).mpr (parts 0 etag rfl)
      obtain ⟨rest, later⟩ := (ih (i := i + 1)).mpr fun j etag' found => by
        rw [Nat.add_right_comm, Nat.add_assoc]
        exact parts (j + 1) etag' found
      exact ⟨body ++ rest, by simp [BackendUpload.join, here, later]⟩

/-- The etags of a session with all parts. -/
theorem etags_of_parts {s : UploadSession} (parts : s.etags.any Option.isNone = false) :
    s.etags = (s.etags.filterMap id).map some := by
  generalize s.etags = etags at parts
  induction etags with
  | nil => rfl
  | cons etag etags ih =>
    rw [List.any_cons, Bool.or_eq_false_iff] at parts
    cases etag with
    | none => cases parts.1
    | some etag => exact congrArg (some etag :: ·) (ih parts.2)

/-- The state that is restored from a record. -/
def PersistedMultipart.restored (record : PersistedMultipart) : MultipartState :=
  ⟨record.bucket, record.key, record.s3UploadId, record.parts⟩

theorem restore_passes {record : PersistedMultipart} (staged : Staged bucket s w.master record) :
    M.Passes (FsEngine.ensureMultipart record.uploadId) w [w] (.ok ())
      { w with states := w.states.insert record.uploadId record.restored } := by
  refine .bind (l := [w]) (m := []) (v := w) (a := some record)
    (.perform rfl (Prod.ext staged.row rfl)) ?_
  change M.Passes (if record.bucket = "" ∨ record.key = "" then _ else _ : M Unit) _ _ _ _
  rw [if_neg]
  · exact .sure rfl rfl
  · rintro (empty | empty)
    · exact staged.named.1 (staged.place.1.symm.trans empty)
    · exact staged.named.2 (staged.place.2.symm.trans empty)

/-- Without its record an upload cannot be restored. -/
theorem missing_passes {u : String} (missing : FsStore.loadMultipart u w.master = .ok none) :
    ∃ e, M.Passes (FsEngine.ensureMultipart u) w [w] (.error e) w :=
  ⟨.fs (.badRequest _), .bind (l := [w]) (m := []) (v := w) (a := none)
    (.perform rfl (Prod.ext missing rfl)) (.ret _ w)⟩

/-- The checks of a completion pass, and the backend is asked. -/
theorem completeMultipart_passes {record : PersistedMultipart}
    (staged : Staged bucket s w.master record) (parts : s.etags.any Option.isNone = false)
    (states : w.states[record.uploadId]? = some record.restored) {r : Except Error Unit} {w' : World}
    (answer : (S3Call.completeMultipart s.s3Key record.s3UploadId (s.etags.filterMap id)).exec
      { w with states := w.states.erase record.uploadId } = (r, w')) :
    M.Passes (S3.completeMultipartUpload bucket s.s3Key record.uploadId (s.etags.filterMap id)) w
      [{ w with states := w.states.erase record.uploadId }] r w' := by
  refine .bind (l := []) (a := some record.restored)
    (.sure rfl (Prod.ext (congrArg Except.ok states) rfl)) ?_
  change M.Passes (if record.bucket ≠ bucket ∨ record.key ≠ s.s3Key then _
    else if (s.etags.filterMap id).length ≠ record.parts.length then _ else _ : M Unit) _ _ _ _
  rw [if_neg (by simp [staged.place.1, staged.place.2]), if_neg]
  · refine .bind (l := []) (a := s.etags.filterMap id) ⟨?_, rfl⟩ (.perform rfl answer)
    refine Prod.ext (orderedParts_of_lookup 0 fun j etag found => ?_) rfl
    rw [Nat.zero_add]
    refine staged.part j etag ?_
    rw [etags_of_parts parts, List.getElem?_map, found]
    rfl
  · have all := congrArg List.length (etags_of_parts parts)
    rw [List.length_map] at all
    exact not_not.mpr (all.symm.trans staged.count.symm)

/-- The world in which the backend is asked: the state was put into the map and taken out. -/
def World.asked (w : World) (record : PersistedMultipart) : World :=
  { w with states := (w.states.insert record.uploadId record.restored).erase record.uploadId }

private theorem asked_passes {record : PersistedMultipart} (staged : Staged bucket s w.master record)
    (parts : s.etags.any Option.isNone = false) {r : Except Error Unit} {w' : World}
    (answer : (S3Call.completeMultipart s.s3Key record.s3UploadId (s.etags.filterMap id)).exec
      (w.asked record) = (r, w')) :
    M.Passes (S3.completeMultipartUpload bucket s.s3Key record.uploadId (s.etags.filterMap id))
      { w with states := w.states.insert record.uploadId record.restored } [w.asked record] r w' :=
  completeMultipart_passes
    (w := { w with states := w.states.insert record.uploadId record.restored }) staged parts
    (by simp) answer

/-- What the backend holds of a session with all parts is what it needs to join them. -/
theorem heldParts_iff {uploads : Kv BackendUpload} {record : PersistedMultipart}
    (parts : s.etags.any Option.isNone = false) : HeldParts s uploads record ↔
      ∃ up body, uploads[record.s3UploadId]? = some up ∧
        up.join 0 (s.etags.filterMap id) = some body := by
  have same : ∀ (i : Nat) (etag : String), s.etags[i]? = some (some etag) ↔
      (s.etags.filterMap id)[i]? = some etag := by
    intro i etag
    conv_lhs => rw [etags_of_parts parts]
    simp
  simp only [HeldParts, same, exists_and_left]
  refine exists_congr fun up => and_congr_right fun _ => ?_
  rw [join_ok_iff]
  simp only [Nat.zero_add]

/-- An upload whose parts the backend has is assembled, and its record deleted. -/
theorem assemble_passes {record : PersistedMultipart} (staged : Staged bucket s w.master record)
    (parts : s.etags.any Option.isNone = false) (multipart : s.fileTotalParts ≠ 1)
    (there : HeldParts s w.uploads record) :
    ∃ w', M.Passes (FsEngine.assemble bucket s) w [w, w.asked record, w'] (.ok ())
        { w' with master := FsStore.deleteMultipart record.uploadId w.master } ∧
      w'.master = w.master ∧ w'.wal = w.wal ∧ w'.uploads = w.uploads.erase record.s3UploadId := by
  obtain ⟨up, body, found, joined⟩ := (heldParts_iff parts).mp there
  obtain ⟨w', answer, master, wal, uploads⟩ : ∃ w', (S3Call.completeMultipart s.s3Key
      record.s3UploadId (s.etags.filterMap id)).exec (w.asked record) = (.ok (), w') ∧
      w'.master = w.master ∧ w'.wal = w.wal ∧
      w'.uploads = w.uploads.erase record.s3UploadId := by
    simp only [S3Call.exec, World.asked, found, joined]
    exact ⟨_, rfl, rfl, rfl, rfl⟩
  refine ⟨w', ?_, master, wal, uploads⟩
  unfold FsEngine.assemble
  rw [if_neg multipart, staged.uploadId, ← master]
  refine (restore_passes staged).bind (m := [w.asked record, w']) ?_
  exact (asked_passes staged parts answer).bind (m := [w']) (.perform rfl rfl)

/-- An upload that the backend has assembled already is refused, and so is one of which it does
    not hold a part. -/
theorem assemble_refused {record : PersistedMultipart} (staged : Staged bucket s w.master record)
    (parts : s.etags.any Option.isNone = false) (multipart : s.fileTotalParts ≠ 1)
    (gone : ¬ HeldParts s w.uploads record) :
    ∃ e, M.Passes (FsEngine.assemble bucket s) w [w, w.asked record] (.error e)
      (w.asked record) := by
  -- the backend does not know the upload, or does not hold all of its parts
  obtain ⟨e, refused⟩ : ∃ e, (S3Call.completeMultipart s.s3Key record.s3UploadId
      (s.etags.filterMap id)).exec (w.asked record) = (.error e, w.asked record) := by
    rw [heldParts_iff parts] at gone
    simp only [S3Call.exec, World.asked]
    cases found : w.uploads[record.s3UploadId]? with
    | none => exact ⟨_, rfl⟩
    | some up =>
      cases joined : up.join 0 (s.etags.filterMap id) with
      | none =>
        simp only [joined]
        exact ⟨_, rfl⟩
      | some body => exact absurd ⟨up, body, found, joined⟩ gone
  refine ⟨e, ?_⟩
  unfold FsEngine.assemble
  rw [if_neg multipart, staged.uploadId]
  refine (restore_passes staged).bind (m := [w.asked record]) ?_
  exact (asked_passes staged parts refused).bind_error _

/-- The two rows are read first. -/
theorem completeLocked_passes {req : CompleteRequest} {sub : String} {committed : Option FileRecord}
    {session : Option UploadSession} {l : List World} {r : Except Error Unit} {w' : World}
    (record : FsStore.getFile f w.master = .ok committed)
    (row : FsStore.getSession f w.master = .ok session)
    (rest : M.Passes (FsEngine.completeRows bucket f req sub committed session) w l r w') :
    M.Passes (FsEngine.completeLocked bucket f req sub) w (w :: w :: l) r w' :=
  .bind (l := [w]) (m := w :: l) (v := w) (a := committed) (.perform rfl (Prod.ext record rfl))
    (.bind (l := [w]) (m := l) (v := w) (a := session) (.perform rfl (Prod.ext row rfl)) rest)

end Passes

/-! ### One attempt -/

theorem getD_of_forall₂ {α β : Type} {R : α → β → Prop} {as : List α} {bs : List β} {a : α} {b : β}
    (all : List.Forall₂ R as bs) (last : R a b) (k : Nat) : R (as.getD k a) (bs.getD k b) := by
  induction all generalizing k with
  | nil => exact last
  | cons head _ ih =>
    cases k with
    | zero => exact head
    | succ k => exact ih k

section Attempt

variable {bucket f : String} {s : UploadSession} {w : World}

/-- What a completion by the owner passes through when it starts in `phase`. -/
structure Phase.Runs (bucket f : String) (s : UploadSession) (req : CompleteRequest) (w : World)
    (phase : Phase) (l : List World) (r : Except Error Unit) (w' : World) : Prop where
  passes : M.Passes (FsEngine.completeLocked bucket f req s.ownerSub) w l r w'
  after : ∀ k, (phase.after (decide (s.fileTotalParts = 1)) k).Holds bucket f s (l.getD k w')
  last : phase.last.Holds bucket f s w'
  returns : r = .ok () ↔ phase ≠ .stranded

theorem Committed.runs {rec : FileRecord} (committed : Committed f s w.master w.wal rec)
    (req : CompleteRequest) : ∃ l r w', Phase.Runs bucket f s req w .committed l r w' := by
  obtain ⟨session, row⟩ := committed.session
  obtain ⟨w₁, w₂, finishes, between, finished⟩ := finish_passes committed
  have again : M.Passes (FsEngine.completeRows bucket f req s.ownerSub (some rec) (some session)) w
      [w, w₁, w₁] (.ok ()) w₂ := by
    change M.Passes (if rec.ownerSub ≠ s.ownerSub then _ else _ : M Unit) _ _ _ _
    rwa [if_neg (not_not.mpr committed.own.2.2.2)]
  refine ⟨_, _, w₂, completeLocked_passes committed.record row again, ?_, ⟨rec, finished⟩,
    by simp⟩
  have here : Phase.committed.Holds bucket f s w := ⟨rec, committed⟩
  have later : Phase.committed.Holds bucket f s w₁ := ⟨rec, between⟩
  refine getD_of_forall₂ (R := fun phase v => Phase.Holds bucket f s v phase) ?_ ⟨rec, finished⟩
  exact .cons here (.cons here (.cons here (.cons later (.cons later .nil))))

/-- A finished upload is left as it is, whoever asks. -/
theorem finished_passes {rec : FileRecord} (gone : FsStore.getSession f w.master = .ok none)
    (record : FsStore.getFile f w.master = .ok (some rec)) (req : CompleteRequest) (sub : String) :
    ∃ r, M.Passes (FsEngine.completeLocked bucket f req sub) w [w, w] r w ∧
      (rec.ownerSub = sub → r = .ok ()) := by
  by_cases owner : rec.ownerSub = sub
  · refine ⟨.ok (), completeLocked_passes record gone ?_, fun _ => rfl⟩
    change M.Passes (if rec.ownerSub ≠ sub then _ else _ : M Unit) _ _ _ _
    rw [if_neg (not_not.mpr owner)]
    exact .ret _ w
  · refine ⟨.error (.fs .forbidden), completeLocked_passes record gone ?_,
      fun own => absurd own owner⟩
    change M.Passes (if rec.ownerSub ≠ sub then _ else _ : M Unit) _ _ _ _
    rw [if_pos owner]
    exact .ret _ w

theorem Finished.runs {rec : FileRecord} (finished : Finished f s w.master w.wal rec)
    (req : CompleteRequest) : ∃ l r w', Phase.Runs bucket f s req w .finished l r w' := by
  obtain ⟨r, passes, returns⟩ : ∃ r, M.Passes (FsEngine.completeLocked bucket f req s.ownerSub)
      w [w, w] r w ∧ (rec.ownerSub = s.ownerSub → r = .ok ()) :=
    finished_passes finished.session finished.record req s.ownerSub
  obtain rfl := returns finished.own.2.2.2
  have here : Phase.finished.Holds bucket f s w := ⟨rec, finished⟩
  refine ⟨_, _, w, passes, ?_, here, by simp⟩
  exact getD_of_forall₂ (R := fun phase v => Phase.Holds bucket f s v phase)
    (.cons here (.cons here .nil)) here

/-- A completion that finds nothing committed and all parts. -/
theorem completeFirst_passes {req : CompleteRequest} {l : List World} {r : Except Error Unit}
    {w' : World} (session : FsStore.getSession f w.master = .ok (some s))
    (parts : s.etags.any Option.isNone = false) (uncommitted : FsStore.getFile f w.master = .ok none)
    (rest : M.Passes (do let _ ← FsEngine.assemble bucket s; FsEngine.commit f req s) w l r w') :
    M.Passes (FsEngine.completeLocked bucket f req s.ownerSub) w (w :: w :: l) r w' := by
  refine completeLocked_passes uncommitted session ?_
  change M.Passes (if s.ownerSub ≠ s.ownerSub then _ else if s.etags.any Option.isNone then _
    else _ : M Unit) _ _ _ _
  rwa [if_neg (not_not.mpr rfl), if_neg (by rw [parts]; exact Bool.false_ne_true)]

theorem Stranded.runs (stranded : Stranded bucket f s w.master w.uploads) (req : CompleteRequest) :
    ∃ l r w', Phase.Runs bucket f s req w .stranded l r w' := by
  have here : Phase.stranded.Holds bucket f s w := stranded
  -- Whichever of the two is missing, the assembly stops at it.
  obtain ⟨l, e, w', passes, around, last⟩ : ∃ l e w',
      M.Passes (FsEngine.assemble bucket s) w l (.error e) w' ∧
      (∀ v ∈ l, Phase.stranded.Holds bucket f s v) ∧ Phase.stranded.Holds bucket f s w' := by
    obtain ⟨u, uploadId, missing | ⟨record, staged, gone⟩⟩ := stranded.gone
    · obtain ⟨e, refused⟩ : ∃ e, M.Passes (FsEngine.assemble bucket s) w [w] (.error e) w := by
        unfold FsEngine.assemble
        rw [if_neg stranded.multipart, uploadId]
        obtain ⟨e, refused⟩ := missing_passes missing
        exact ⟨e, refused.bind_error _⟩
      exact ⟨[w], e, w, refused, by simpa using here, here⟩
    · obtain ⟨e, refused⟩ := assemble_refused staged stranded.parts stranded.multipart gone
      have asked : Phase.stranded.Holds bucket f s (w.asked record) := stranded
      refine ⟨_, e, _, refused, ?_, asked⟩
      simp only [List.mem_cons, List.not_mem_nil, or_false]
      rintro v (rfl | rfl)
      · exact here
      · exact asked
  have all : ∀ v ∈ w :: w :: l, Phase.stranded.Holds bucket f s v := by
    simp only [List.mem_cons]
    rintro v (rfl | rfl | inside)
    · exact here
    · exact here
    · exact around v inside
  refine ⟨_, .error e, w', completeFirst_passes stranded.session stranded.parts
    stranded.uncommitted (passes.bind_error _), fun k => ?_, last, by simp⟩
  rw [List.getD_eq_getElem?_getD]
  cases found : (w :: w :: l)[k]? with
  | none => exact last
  | some v => exact all v (List.mem_of_getElem? found)

theorem Recorded.runs (recorded : Recorded bucket f s w.master w.wal)
    (joinable : Joinable bucket s w.master w.uploads) (req : CompleteRequest) :
    ∃ l r w', Phase.Runs bucket f s req w .recorded l r w' := by
  have here : Phase.recorded.Holds bucket f s w := ⟨recorded, joinable⟩
  by_cases single : s.fileTotalParts = 1
  · obtain ⟨w₁, w₂, w₃, rec, commits, saved, announced, finished⟩ :=
      commit_passes req recorded.session recorded.log
    have assembled : M.Passes (FsEngine.assemble bucket s) w [] (.ok ()) w := by
      unfold FsEngine.assemble
      rw [if_pos single]
      exact .ret _ w
    refine ⟨_, _, w₃, completeFirst_passes recorded.session recorded.parts recorded.uncommitted
      (assembled.bind commits), ?_, ⟨rec, finished⟩, by simp⟩
    have saved : Phase.committed.Holds bucket f s w₁ := ⟨rec, saved⟩
    have announced : Phase.committed.Holds bucket f s w₂ := ⟨rec, announced⟩
    rw [single]
    exact getD_of_forall₂ (R := fun phase v => Phase.Holds bucket f s v phase)
      (.cons here (.cons here (.cons here (.cons saved (.cons announced (.cons announced .nil))))))
      ⟨rec, finished⟩
  · obtain ⟨record, staged, there⟩ := joinable.resolve_left single
    obtain ⟨v, assembled, master, wal, uploads⟩ :=
      assemble_passes staged recorded.parts single there
    have session : FsStore.getSession f
        (FsStore.deleteMultipart record.uploadId w.master) = .ok (some s) :=
      (FsStore.getSession_deleteMultipart _ _ _).trans recorded.session
    obtain ⟨w₁, w₂, w₃, rec, commits, saved, announced, finished⟩ := commit_passes
      (w := { v with master := FsStore.deleteMultipart record.uploadId w.master }) req session
      (wal ▸ recorded.log)
    refine ⟨_, _, w₃, completeFirst_passes recorded.session recorded.parts recorded.uncommitted
      (assembled.bind commits), ?_, ⟨rec, finished⟩, by simp⟩
    -- where a failure can leave the upload: before the assembly it is still recorded, behind it the
    -- parts are gone and then their row, and from the saved record on it is committed
    have asked : Phase.recorded.Holds bucket f s (w.asked record) := ⟨recorded, joinable⟩
    have assembled : Phase.stranded.Holds bucket f s v := {
      session := master ▸ recorded.session
      parts := recorded.parts
      uncommitted := master ▸ recorded.uncommitted
      multipart := single
      gone := ⟨_, staged.uploadId, .inr ⟨record, master ▸ staged, by simp [HeldParts, uploads]⟩⟩ }
    have unnamed : Phase.stranded.Holds bucket f s
        { v with master := FsStore.deleteMultipart record.uploadId w.master } := {
      session := session
      parts := recorded.parts
      uncommitted := (FsStore.getFile_deleteMultipart _ _ _).trans recorded.uncommitted
      multipart := single
      gone := ⟨_, staged.uploadId, .inl
        ((FsStore.loadMultipart_deleteMultipart _ _ _).trans (if_pos rfl))⟩ }
    have saved : Phase.committed.Holds bucket f s w₁ := ⟨rec, saved⟩
    have announced : Phase.committed.Holds bucket f s w₂ := ⟨rec, announced⟩
    rw [decide_eq_false single]
    exact getD_of_forall₂ (R := fun phase v => Phase.Holds bucket f s v phase)
      (.cons here (.cons here (.cons here (.cons asked (.cons assembled (.cons unnamed
        (.cons saved (.cons announced (.cons announced .nil))))))))) ⟨rec, finished⟩

/-- **One attempt**: from every phase a completion passes the phases of its path. -/
theorem Phase.Holds.runs {phase : Phase} (holds : phase.Holds bucket f s w)
    (req : CompleteRequest) : ∃ l r w', Phase.Runs bucket f s req w phase l r w' := by
  cases phase with
  | recorded => exact Recorded.runs holds.1 holds.2 req
  | stranded => exact Stranded.runs holds req
  | committed =>
    obtain ⟨rec, committed⟩ := holds
    exact committed.runs req
  | finished =>
    obtain ⟨rec, finished⟩ := holds
    exact finished.runs req

end Attempt

/-! ### Any number of attempts -/

/-- An attempt of the owner in which the call that may fail after `k` others does. -/
def attempt (bucket f : String) (s : UploadSession) (w : World) (a : CompleteRequest × Nat) : World :=
  ((FsEngine.completeUpload bucket f a.1 s.ownerSub).failing (some a.2) w).2.1

/-- Attempts one after the other. Around them the clock moves and the policy changes, and no
    sweep comes to the session. -/
inductive Attempts (bucket f : String) (s : UploadSession) :
    List (CompleteRequest × Nat) → World → World → Prop where
  | nil {w w' : World} : World.Around w w' → Attempts bucket f s [] w w'
  | cons {a : CompleteRequest × Nat} {rest : List (CompleteRequest × Nat)} {w v w' : World} :
      World.Around w v → Attempts bucket f s rest (attempt bucket f s v a) w' →
      Attempts bucket f s (a :: rest) w w'

/-- Another attempt, with healthy backends, returns with the record committed and announced. -/
def Converges (bucket f : String) (s : UploadSession) (req : CompleteRequest) (w : World) : Prop :=
  ∃ w' rec, (FsEngine.completeUpload bucket f req s.ownerSub).runOn w = (.ok (), w') ∧
    Finished f s w'.master w'.wal rec

section Attempts

variable {bucket f : String} {s : UploadSession} {w : World}

theorem Phase.Holds.around {phase : Phase} {w' : World} (holds : phase.Holds bucket f s w)
    (around : World.Around w w') : phase.Holds bucket f s w' := by
  obtain ⟨clock, enforcer, -, rfl⟩ := around
  exact holds

theorem Phase.Holds.attempt {phase : Phase} (holds : phase.Holds bucket f s w)
    (a : CompleteRequest × Nat) :
    (phase.after (decide (s.fileTotalParts = 1)) a.2).Holds bucket f s
      (attempt bucket f s w a) := by
  have inside : phase.Holds bucket f s { w with locks := f :: w.locks } :=
    holds.of_same _ _ _ rfl rfl rfl
  obtain ⟨l, r, w', runs⟩ := inside.runs a.1
  have ended := runs.passes.runFailing_world (FsEngine.completeLocked_strict ..) storeFault a.2
  have left := runs.after a.2
  rw [← ended] at left
  rw [RustApi.attempt, FsEngine.completeUpload_eq, M.failing_withSession]
  exact left.of_same _ _ _ rfl rfl rfl

/-- The phase after some attempts. -/
theorem Attempts.holds {attempts : List (CompleteRequest × Nat)} {w' : World}
    (tried : Attempts bucket f s attempts w w') {phase : Phase} (holds : phase.Holds bucket f s w) :
    ((attempts.map (·.2)).foldl (Phase.after (decide (s.fileTotalParts = 1))) phase).Holds
      bucket f s w' := by
  induction tried generalizing phase with
  | nil around => exact holds.around around
  | cons around _ ih => exact ih ((holds.around around).attempt _)

/-- A healthy attempt converges from every phase but one. -/
theorem Phase.Holds.converges_iff {phase : Phase} (holds : phase.Holds bucket f s w)
    (req : CompleteRequest) : Converges bucket f s req w ↔ phase ≠ .stranded := by
  have inside : phase.Holds bucket f s { w with locks := f :: w.locks } :=
    holds.of_same _ _ _ rfl rfl rfl
  obtain ⟨l, r, w', runs⟩ := inside.runs req
  have ended : (FsEngine.completeUpload bucket f req s.ownerSub).runOn w =
      (r, { w' with locks := w'.locks.erase f }) := by
    rw [FsEngine.completeUpload_eq, M.runOn_withSession]
    simp only [M.runOn, runs.passes.result]
  constructor
  · rintro ⟨v, rec, returned, -⟩
    exact runs.returns.mp (congrArg (·.1) (ended.symm.trans returned))
  · intro free
    obtain rfl := runs.returns.mpr free
    have last : phase.last = .finished := by
      cases phase with
      | stranded => exact absurd rfl free
      | _ => rfl
    obtain ⟨rec, finished⟩ : Phase.finished.Holds bucket f s w' := last ▸ runs.last
    exact ⟨_, rec, ended, finished⟩

end Attempts

/-! ### Which attempts strand an upload -/

theorem Phase.after_committed (single : Bool) (k : Nat) :
    Phase.committed.after single k = .committed ∨ Phase.committed.after single k = .finished := by
  rcases k with _ | _ | _ | _ | _ | k <;> simp [Phase.after, Phase.path, Phase.last]

theorem Phase.after_finished (single : Bool) (k : Nat) :
    Phase.finished.after single k = .finished := by
  rcases k with _ | _ | k <;> simp [Phase.after, Phase.path, Phase.last]

/-- A committed upload stays committed. -/
theorem Phase.fold_committed (single : Bool) {phase : Phase}
    (settled : phase = .committed ∨ phase = .finished) (ks : List Nat) :
    ks.foldl (Phase.after single) phase ≠ .stranded := by
  induction ks generalizing phase with
  | nil => rcases settled with rfl | rfl <;> exact fun bad => nomatch bad
  | cons k ks ih =>
    refine ih ?_
    rcases settled with rfl | rfl
    · exact Phase.after_committed single k
    · exact .inr (Phase.after_finished single k)

theorem Phase.fold_stranded (single : Bool) (ks : List Nat) :
    ks.foldl (Phase.after single) .stranded = .stranded := by
  induction ks with
  | nil => rfl
  | cons k ks ih => exact ih

theorem Phase.after_single (k : Nat) : Phase.recorded.after true k = .recorded ∨
    Phase.recorded.after true k = .committed ∨ Phase.recorded.after true k = .finished := by
  rcases k with _ | _ | _ | _ | _ | _ | k <;> simp [Phase.after, Phase.path, Phase.last]

/-- A multipart attempt that fails up to the backend's completion changes nothing, one that
    fails between it and the commit strands the upload, and a later one has committed it. -/
theorem Phase.after_multipart (k : Nat) :
    k ≤ 3 ∧ Phase.recorded.after false k = .recorded ∨
    3 < k ∧ k ≤ 5 ∧ Phase.recorded.after false k = .stranded ∨
    5 < k ∧ (Phase.recorded.after false k = .committed ∨
      Phase.recorded.after false k = .finished) := by
  rcases k with _ | _ | _ | _ | _ | _ | _ | _ | _ | k <;>
    simp [Phase.after, Phase.path, Phase.last]

/-- The first attempt on a multipart upload that gets behind the backend's completion (behind
    `get_file`, `get_session`, `load_multipart` and `complete_multipart`) gets behind
    `delete_multipart` and `save_file` as well. -/
def Unbroken (s : UploadSession) (ks : List Nat) : Prop :=
  s.fileTotalParts = 1 ∨ ∀ k, ks.find? (fun k => decide (3 < k)) = some k → 5 < k

theorem Phase.fold_recorded (s : UploadSession) (ks : List Nat) :
    ks.foldl (Phase.after (decide (s.fileTotalParts = 1))) .recorded ≠ .stranded ↔
      Unbroken s ks := by
  unfold Unbroken
  by_cases single : s.fileTotalParts = 1
  · simp only [single, decide_true, true_or, iff_true]
    induction ks with
    | nil => exact fun bad => nomatch bad
    | cons k ks ih =>
      rw [List.foldl_cons]
      rcases Phase.after_single k with same | settled
      · rwa [same]
      · exact Phase.fold_committed true settled ks
  · simp only [single, decide_false, false_or]
    induction ks with
    | nil => simp
    | cons k ks ih =>
      rw [List.foldl_cons, List.find?_cons]
      -- the first call that gets past the assembly decides: it is cut there, or it saves the record
      rcases Phase.after_multipart k with ⟨early, same⟩ | ⟨late, open', same⟩ | ⟨late, settled⟩
      · rw [same, decide_eq_false (Nat.not_lt.mpr early)]
        exact ih
      · rw [same, decide_eq_true late, Phase.fold_stranded]
        simpa using open'
      · rw [decide_eq_true (show 3 < k by omega)]
        simpa [late] using Phase.fold_committed false settled ks

/-! ### Convergence -/

/-- Once the record is there and the session gone, no completion changes anything, whoever
    asks and whichever call fails. -/
theorem finished_still (bucket : String) {f : String} {w : World} {rec : FileRecord}
    (gone : FsStore.getSession f w.master = .ok none)
    (record : FsStore.getFile f w.master = .ok (some rec)) (req : CompleteRequest) (sub : String)
    (k : Option Nat) : ((FsEngine.completeUpload bucket f req sub).failing k w).2.1 = w := by
  have held : ∀ v : World, v.master = w.master →
      ∃ r, M.Passes (FsEngine.completeLocked bucket f req sub) v [v, v] r v := by
    intro v same
    obtain ⟨r, passes, -⟩ := finished_passes (same ▸ gone) (same ▸ record) req sub
    exact ⟨r, passes⟩
  obtain ⟨r, passes⟩ := held { w with locks := f :: w.locks } rfl
  have still : ((FsEngine.completeLocked bucket f req sub).failing k
      { w with locks := f :: w.locks }).2.1 = { w with locks := f :: w.locks } := by
    cases k with
    | none => rw [M.failing, Prog.runFailing_none, passes.result]
    | some k =>
      rw [M.failing, passes.runFailing_world (FsEngine.completeLocked_strict ..)]
      rcases k with _ | _ | k <;> rfl
  rw [FsEngine.completeUpload_eq, M.failing_withSession]
  simp only [still, List.erase_cons_head]

/-- An upload with all parts recorded that the backend cannot assemble. -/
theorem Recorded.stranded {bucket f : String} {s : UploadSession} {kv : Kv Value}
    {feed : Kv WalValue} {uploads : Kv BackendUpload} (recorded : Recorded bucket f s kv feed)
    (unjoinable : ¬ Joinable bucket s kv uploads) : Stranded bucket f s kv uploads := by
  have multipart : s.fileTotalParts ≠ 1 := fun single => unjoinable (.inl single)
  obtain ⟨record, staged⟩ := recorded.staged multipart
  exact {
    session := recorded.session
    parts := recorded.parts
    uncommitted := recorded.uncommitted
    multipart := multipart
    gone := ⟨_, staged.uploadId, .inr ⟨record, staged,
      fun held => unjoinable (.inr ⟨record, staged, held⟩)⟩⟩ }

/-- **Convergence under retry**. From a session with all parts recorded, after any number of
    attempts that met a failing call, the owner's next attempt with healthy backends returns with
    the record committed and announced exactly when the backend held the parts and the attempts
    were unbroken; and whenever the record is there and the session gone, a completion changes
    nothing. -/
theorem retry_converges_iff (bucket : String) {f : String} {s : UploadSession} {w w' : World}
    (recorded : Recorded bucket f s w.master w.wal)
    {attempts : List (CompleteRequest × Nat)} (tried : Attempts bucket f s attempts w w')
    (req : CompleteRequest) :
    (Converges bucket f s req w' ↔
      Joinable bucket s w.master w.uploads ∧ Unbroken s (attempts.map (·.2))) ∧
      ∀ v rec, FsStore.getSession f v.master = .ok none →
        FsStore.getFile f v.master = .ok (some rec) → ∀ (req' : CompleteRequest) (sub : String)
          (k : Option Nat), ((FsEngine.completeUpload bucket f req' sub).failing k v).2.1 = v := by
  refine ⟨?_, fun v rec gone record req' sub k => finished_still bucket gone record req' sub k⟩
  by_cases joinable : Joinable bucket s w.master w.uploads
  · have start : Phase.recorded.Holds bucket f s w := ⟨recorded, joinable⟩
    have holds := tried.holds start
    rw [holds.converges_iff req, Phase.fold_recorded, and_iff_right joinable]
  · -- without its parts the backend refuses every attempt
    have start : Phase.stranded.Holds bucket f s w := recorded.stranded joinable
    have holds := tried.holds start
    rw [holds.converges_iff req, Phase.fold_stranded]
    simp [joinable]

/-! ### An upload that is stranded -/

/-- A multipart upload of two parts, both uploaded. -/
def scanned : UploadSession :=
  ⟨"f", 2048, 1024, 2, some "ostore-u", "files/f", "alice", 0, [some "p", some "q"], [none, none]⟩

def scannedRecord : PersistedMultipart :=
  ⟨"ostore-u", "b", "files/f", "u", [(0, "p"), (1, "q")], 0⟩

/-- A part of the upload. -/
def scannedPart (n : UInt8) : Bytes := List.replicate 1024 n

def scannedWorld : World :=
  { World.init (fun _ => "id") with
    master := FsStore.saveMultipart scannedRecord (FsStore.saveSession scanned ∅)
    uploads := (∅ : Kv BackendUpload).insert "u"
      ⟨"files/f", [(0, "p", scannedPart 1), (1, "q", scannedPart 2)]⟩ }

theorem scanned_staged : Staged "b" scanned scannedWorld.master scannedRecord where
  uploadId := rfl
  row := (FsStore.loadMultipart_saveMultipart ..).trans (if_pos rfl)
  place := ⟨rfl, rfl⟩
  named := by decide
  count := rfl
  part := by
    intro i etag found
    rcases i with _ | _ | i
    · exact congrArg id (Option.some.inj found)
    · exact congrArg id (Option.some.inj found)
    · cases found

theorem scanned_joinable : Joinable "b" scanned scannedWorld.master scannedWorld.uploads := by
  refine .inr ⟨scannedRecord, scanned_staged, _, (Kv.get_insert ..).trans (if_pos rfl), ?_⟩
  intro i etag found
  rcases i with _ | _ | i
  · cases found
    exact ⟨scannedPart 1, by simp⟩
  · cases found
    exact ⟨scannedPart 2, by simp⟩
  · cases found

theorem scanned_recorded : Recorded "b" "f" scanned scannedWorld.master scannedWorld.wal where
  session := (FsStore.getSession_saveMultipart _ _ _).trans
    ((FsStore.getSession_saveSession ..).trans (if_pos rfl))
  parts := rfl
  uncommitted := (FsStore.getFile_saveMultipart _ _ _).trans
    ((FsStore.getFile_saveSession ..).trans (by simp [FsStore.getFile]))
  log := ⟨[], .empty⟩
  staged _ := ⟨scannedRecord, scanned_staged⟩

/-- After the announcement has failed the next attempt converges. -/
theorem retry_converges_scanned :
    (Converges "b" "f" scanned ⟨"scan.pdf", "application/pdf"⟩
        (attempt "b" "f" scanned scannedWorld (⟨"scan.pdf", "application/pdf"⟩, 6)) ↔
      Joinable "b" scanned scannedWorld.master scannedWorld.uploads ∧ Unbroken scanned [6]) ∧
    ∀ v rec, FsStore.getSession "f" v.master = .ok none →
      FsStore.getFile "f" v.master = .ok (some rec) → ∀ (req' : CompleteRequest) (sub : String)
        (k : Option Nat), ((FsEngine.completeUpload "b" "f" req' sub).failing k v).2.1 = v :=
  retry_converges_iff "b" scanned_recorded
    (.cons (.refl _) (.nil (.refl _))) _

/-- The store fails once, when the file is saved. The object is assembled and its record deleted,
    and the owner's next attempt is refused. -/
theorem retry_strands :
    ¬ ∀ (bucket f : String) (s : UploadSession) (w w' : World)
      (attempts : List (CompleteRequest × Nat)) (req : CompleteRequest),
      Recorded bucket f s w.master w.wal → Joinable bucket s w.master w.uploads →
      Attempts bucket f s attempts w w' →
      Converges bucket f s req w' := by
  intro claim
  have tried : Attempts "b" "f" scanned [(⟨"scan.pdf", "application/pdf"⟩, 5)] scannedWorld
      (attempt "b" "f" scanned scannedWorld (⟨"scan.pdf", "application/pdf"⟩, 5)) :=
    .cons (.refl _) (.nil (.refl _))
  obtain ⟨w', rec, returned, -⟩ := claim "b" "f" scanned _ _ _ ⟨"scan.pdf", "application/pdf"⟩
    scanned_recorded scanned_joinable tried
  have refused : ((FsEngine.completeUpload "b" "f" ⟨"scan.pdf", "application/pdf"⟩ "alice").runOn
      (attempt "b" "f" scanned scannedWorld (⟨"scan.pdf", "application/pdf"⟩, 5))).1 =
      .error (.fs (.badRequest ("multipart state unavailable (restarted server or " ++
        "expired session); start a new upload"))) := by
    decide +kernel
  exact nomatch (congrArg (·.1) returned).symm.trans refused

end RustApi
