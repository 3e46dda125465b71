import RustApi.Fs.S3

/-!
# The file engine

`FsEngine`: uploads from `init_upload` to `complete_upload` or `cancel_upload`,
relations between files and rows, and deletion. Every function is a program of
atomic calls. The calls on the rows of one upload run under its session lock.
-/

namespace RustApi

open Lib

/-- `InitRequest`. -/
structure InitRequest where
  fileSize : Nat
  partSize : Nat
  fileTotalParts : Nat
  deriving DecidableEq, Repr

/-- `MAX_MULTIPART_PARTS`. -/
def maxMultipartParts : Nat := 10000

/-- `InitRequest::validate`. -/
def InitRequest.validate (req : InitRequest) : Except Error Unit :=
  if req.fileSize = 0 then .error (.fs (.badRequest "file_size cannot be empty"))
  else if req.partSize = 0 then .error (.fs (.badRequest "part_size cannot be zero"))
  else if req.fileTotalParts = 0 then .error (.fs (.badRequest "total_parts cannot be zero"))
  else if req.fileTotalParts = 1 then
    if req.partSize ≠ req.fileSize then
      .error (.fs (.badRequest ("For a single-part upload, part_size (" ++ toString req.partSize ++
        ") must be equal to the file_size (" ++ toString req.fileSize ++ ")")))
    else if req.fileSize > 10 * 1024 * 1024 then
      .error (.fs (.badRequest "For a single-part upload, cannot be bigger than 10 MB"))
    else .ok ()
  -- the cap stands before the sums: it bounds what the slots take up
  else if req.fileTotalParts > maxMultipartParts then
    .error (.fs (.badRequest ("file_total_parts must be at most " ++ toString maxMultipartParts ++
      " (S3's per-upload part limit); got " ++ toString req.fileTotalParts ++
      ". Raise part_size (max 512 KB) to split a larger file.")))
  else if req.partSize % 1024 ≠ 0 ∨ req.partSize > 524288 then
    .error (.fs (.badRequest
      "part_size must be a multiple of 1 KB up to 512 KB (e.g., 131072, 262144, 524288)"))
  else
    -- `div_ceil`
    let expected := (req.fileSize + req.partSize - 1) / req.partSize
    if req.fileTotalParts ≠ expected then
      .error (.fs (.badRequest ("Inconsistent math: file_total_parts must be exactly " ++
        toString expected ++ " for a file of this size split by " ++ toString req.partSize ++
        " bytes")))
    else
      let lastPartStart := (req.fileTotalParts - 1) * req.partSize
      let covered := req.fileTotalParts * req.partSize
      if req.fileSize ≤ lastPartStart ∨ req.fileSize > covered then
        .error (.fs (.badRequest ("Inconsistent math: file_size (" ++ toString req.fileSize ++
          ") must be greater than " ++ toString lastPartStart ++ " and at most " ++
          toString covered)))
      else .ok ()

/-- `CompleteRequest`. -/
structure CompleteRequest where
  name : String
  mimetype : String
  deriving DecidableEq, Repr

namespace FsEngine

/-- `announce`, with the feed wired. -/
def announce (op : WalOp) : M Unit := onWal (.append op)

/-- `FsStore::delete_session`: the session is read first, then one transaction. -/
def deleteSession (id : String) : M Unit := do
  let session ← onStore .master (.getSession id)
  onStore .master (.deleteSession id session)

/-! ### Rows -/

/-- `require_row` for `Write`, with the errors of `attach` and `detach`. -/
def requireWrite (sub rowType rowId : String) : M Unit := do
  let policy ← onPolicy .authorizer
  if Policy.authorizeRow policy sub rowType rowId .write then pure ()
  else Prog.fail (.fs .forbidden)

def attach (rowType rowId fileId callerSub : String) : M Nat := do
  let _ ← requireWrite callerSub rowType rowId
  match ← onStore .master (.getFile fileId) with
  | none => Prog.fail (.fs (.notFound "file not found"))
  | some _ => do
    let count ← onStore .master (.attach rowType rowId fileId)
    -- the row is committed before the entry is appended
    let _ ← announce (.attach rowType rowId fileId)
    pure count

def detach (rowType rowId fileId callerSub : String) : M Nat := do
  let _ ← requireWrite callerSub rowType rowId
  let count ← onStore .master (.detach rowType rowId fileId)
  let _ ← announce (.detach rowType rowId fileId)
  pure count

/-- The loop of `can_access` over the rows of the file. -/
def anyRowAuthorizes (sub : String) (act : Action) : List (String × String) → M Bool
  | [] => pure false
  | (ty, rid) :: rows => do
    let policy ← onPolicy .authorizer
    if Policy.authorizeRow policy sub ty rid act then pure true else anyRowAuthorizes sub act rows

def canAccess (callerSub fileId : String) (act : Action) : M Bool := do
  match ← onStore .master (.getFile fileId) with
  | none => Prog.fail (.fs (.notFound "file not found"))
  | some rec => do
    let rows ← onStore .master (.rowsForFile fileId)
    -- an unreferenced file is open to its owner only
    if List.isEmpty rows then pure (decide (FileRecord.ownerSub rec = callerSub))
    else anyRowAuthorizes callerSub act rows

/-! ### Uploads -/

section Uploads

variable (bucket : String)

/-- `part_slots`. The cap of `validate` keeps the reservation small, so it succeeds. -/
def partSlots (len : Nat) : List (Option String) := List.replicate len none

def initUpload (req : InitRequest) (ownerSub : String) : M String := do
  let _ ← Prog.lift req.validate
  let fileId ← Prog.perform Call.uuid
  let s3Key := "files/" ++ fileId
  -- the backend is reached before anything is stored
  let s3UploadId ← if req.fileTotalParts = 1 then pure none
    else do
      let id ← S3.createMultipartUpload bucket s3Key
      pure (some id)
  let createdAt ← Prog.perform Call.now
  let session : UploadSession := ⟨fileId, req.fileSize, req.partSize, req.fileTotalParts, s3UploadId,
    s3Key, ownerSub, createdAt, partSlots req.fileTotalParts, partSlots req.fileTotalParts⟩
  let _ ← onStore .master (.saveSession session)
  match s3UploadId with
  | none => pure fileId
  -- after a restart only this record knows the id of the backend
  | some uploadId => do
    match ← S3.backendUploadId uploadId with
    | none => Prog.fail (.fs (.internal "multipart created but backend id missing"))
    | some backendId => do
      let _ ← onStore .master (.saveMultipart ⟨uploadId, bucket, s3Key, backendId, [], createdAt⟩)
      pure fileId

/-- The end of `init_upload`, once the ids are drawn. -/
def openUpload (req : InitRequest) (ownerSub fileId : String) (s3UploadId : Option String) :
    M String := do
  let createdAt ← Prog.perform Call.now
  let session : UploadSession := ⟨fileId, req.fileSize, req.partSize, req.fileTotalParts, s3UploadId,
    "files/" ++ fileId, ownerSub, createdAt, partSlots req.fileTotalParts,
    partSlots req.fileTotalParts⟩
  let _ ← onStore .master (.saveSession session)
  match s3UploadId with
  | none => pure fileId
  | some uploadId => do
    match ← S3.backendUploadId uploadId with
    | none => Prog.fail (.fs (.internal "multipart created but backend id missing"))
    | some backendId => do
      let _ ← onStore .master (.saveMultipart ⟨uploadId, bucket, "files/" ++ fileId, backendId, [],
        createdAt⟩)
      pure fileId

theorem initUpload_eq (req : InitRequest) (ownerSub : String) :
    initUpload bucket req ownerSub = (do
      let _ ← Prog.lift req.validate
      let fileId ← Prog.perform Call.uuid
      let s3UploadId ← if req.fileTotalParts = 1 then pure none
        else do
          let id ← S3.createMultipartUpload bucket ("files/" ++ fileId)
          pure (some id)
      openUpload bucket req ownerSub fileId s3UploadId) := rfl

/-- The durable record of a multipart upload takes the part, when there is one. -/
def mergeRecord (uploadId : Option String) (slot : Nat) (etag : String) : M Unit :=
  match uploadId with
  | none => pure ()
  | some uploadId => do
    match ← onStore .master (.loadMultipart uploadId) with
    -- a session from before these records were kept
    | none => pure ()
    | some record =>
      onStore .master (.saveMultipart { record with parts := insertPart record.parts slot etag })

/-- The session with part `slot` filled in. -/
def withPart (s : UploadSession) (slot : Nat) (etag : String) (checksum : Option String) :
    UploadSession :=
  -- `Vec::resize` with `None`
  let checksums := if s.checksums.length = s.etags.length then s.checksums
    else s.checksums.take s.etags.length ++
      List.replicate (s.etags.length - s.checksums.length) none
  { s with etags := s.etags.set slot (some etag), checksums := checksums.set slot checksum }

def mergePart (fileId : String) (partIndex : Nat) (uploadId : Option String) (etag : String)
    (checksum : Option String) (callerSub : String) : M Unit :=
  withSession fileId do
    -- read again under the lock; the copy of the caller is from before the body
    match ← onStore .master (.getSession fileId) with
    | none => Prog.fail (.fs (.notFound "upload session not found"))
    | some session =>
      if session.ownerSub ≠ callerSub then Prog.fail (.fs .forbidden)
      else if partIndex ≥ session.etags.length then
        Prog.fail (.fs (.badRequest "part index out of bounds"))
      else do
        -- the record first: a crash in between leaves the session short of an etag
        let _ ← mergeRecord uploadId partIndex etag
        onStore .master (.saveSession (withPart session partIndex etag checksum))

def ensureMultipart (uploadId : String) : M Unit := do
  match ← onStore .master (.loadMultipart uploadId) with
  | none => Prog.fail (.fs (.badRequest ("multipart state unavailable (restarted server or " ++
      "expired session); start a new upload")))
  | some record => S3.restoreMultipart record

/-- The size that part `partIndex` must have. -/
def expectedSize (s : UploadSession) (partIndex : Nat) : Nat :=
  if partIndex = s.fileTotalParts - 1 then s.fileSize - s.partSize * partIndex else s.partSize

/-- A last part that is shorter than the others. -/
def isShortLastPart (s : UploadSession) (partIndex : Nat) : Bool :=
  decide (s.fileTotalParts > 1) && decide (partIndex = s.fileTotalParts - 1) &&
    decide (expectedSize s partIndex < s.partSize)

/-- The check of the declared length, before the body is read. -/
def checkDeclared (s : UploadSession) (partIndex : Nat) : Option Nat → Except Error Unit
  | none => .ok ()
  | some n =>
    let expected := expectedSize s partIndex
    if n > expected ∧ isShortLastPart s partIndex then
      .error (.fs (.badRequest ("The last part must have " ++ toString expected ++
        " bytes. The declared size is " ++ toString n ++ ".")))
    else if n > expected then .error (.fs .payloadTooLarge)
    else if n ≠ expected then
      .error (.fs (.badRequest ("declared part size " ++ toString n ++
        " does not match expected " ++ toString expected ++ " bytes")))
    else .ok ()

/-- The loop over the body stream; `buf` is what was read so far. -/
def readBody (s : UploadSession) (partIndex : Nat) :
    List (Except Error Bytes) → Bytes → Except Error Bytes
  | [], buf =>
    if buf.length ≠ expectedSize s partIndex then
      .error (.fs (.badRequest ("blob size mismatch for part " ++ toString partIndex ++
        ": expected " ++ toString (expectedSize s partIndex) ++ " bytes, got " ++
        toString buf.length)))
    else .ok buf
  -- the stream itself fails
  | .error e :: _, _ => .error e
  | .ok chunk :: chunks, buf =>
    -- cut off at the first chunk that is too much
    let total := buf.length + chunk.length
    if total > expectedSize s partIndex then
      if isShortLastPart s partIndex then
        .error (.fs (.badRequest ("The last part must have " ++
          toString (expectedSize s partIndex) ++ " bytes. The body has " ++ toString total ++
          " bytes.")))
      else .error (.fs .payloadTooLarge)
    else readBody s partIndex chunks (buf ++ chunk)

/-- `as i32`. -/
def asI32 (n : Nat) : Int := (BitVec.ofNat 32 n).toInt

def uploadPart (fileId : String) (partIndex : Nat) (body : List (Except Error Bytes))
    (declaredLen : Option Nat) (checksum : Option String) (callerSub : String) : M Unit := do
  match ← onStore .master (.getSession fileId) with
  | none => Prog.fail (.fs (.notFound "upload session not found"))
  | some session =>
    if session.ownerSub ≠ callerSub then Prog.fail (.fs .forbidden)
    else if partIndex ≥ session.fileTotalParts then
      Prog.fail (.fs (.badRequest "part index out of bounds"))
    else do
      let _ ← Prog.lift (checkDeclared session partIndex declaredLen)
      let bytes ← Prog.lift (readBody session partIndex body [])
      if session.fileTotalParts = 1 then do
        -- a single part is an object of its own, put outside of the lock
        let _ ← onS3 (.putObject session.s3Key bytes)
        mergePart fileId partIndex none "put" checksum callerSub
      else
        match session.s3UploadId with
        | none => Prog.fail (.fs (.internal "missing s3 upload id"))
        | some uploadId => do
          -- a client that restarted has lost its map
          let _ ← ensureMultipart uploadId
          let etag ← S3.uploadPart bucket session.s3Key uploadId (asI32 (partIndex + 1)) bytes
          mergePart fileId partIndex (some uploadId) etag checksum callerSub

/-- `abort_session_upload`. An upload that the backend no longer has counts as aborted. -/
def abortSessionUpload (session : UploadSession) : M Unit :=
  match session.s3UploadId with
  | none => onS3 (.deleteObject session.s3Key)
  | some uploadId => do
    match ← onStore .master (.loadMultipart uploadId) with
    -- the backend upload cannot be addressed any more
    | none => pure ()
    | some _ => do
      let _ ← ensureMultipart uploadId
      match ← (S3.abortMultipartUpload bucket session.s3Key uploadId).attempt with
      | .ok () => pure ()
      | .error (.fs (.notFound _)) => pure ()
      | .error e => Prog.fail e

/-- The object of a multipart session is assembled before its record is written. -/
def assemble (session : UploadSession) : M Unit :=
  if session.fileTotalParts = 1 then pure ()
  else
    match session.s3UploadId with
    | none => Prog.fail (.fs (.internal "missing s3 upload id"))
    | some uploadId => do
      let _ ← ensureMultipart uploadId
      let _ ← S3.completeMultipartUpload bucket session.s3Key uploadId
        (session.etags.filterMap id)
      onStore .master (.deleteMultipart uploadId)

def completeUpload (fileId : String) (req : CompleteRequest) (callerSub : String) : M Unit :=
  withSession fileId do
    let committed ← onStore .master (.getFile fileId)
    let session ← onStore .master (.getSession fileId)
    -- the record is the committed half, so it is looked at first
    match committed, session with
    | some rec, session =>
      if rec.ownerSub ≠ callerSub then Prog.fail (.fs .forbidden)
      else
        match session with
        -- converged before: nothing is announced again
        | none => pure ()
        | some _ => do
          -- the announce of an earlier attempt failed; this entry is the one that was lost
          let _ ← announce (.fileCreate rec)
          deleteSession fileId
    | none, none => Prog.fail (.fs (.notFound "upload session not found"))
    | none, some session =>
      if session.ownerSub ≠ callerSub then Prog.fail (.fs .forbidden)
      else if session.etags.any Option.isNone then
        Prog.fail (.fs (.badRequest "not all parts uploaded"))
      else do
        let _ ← assemble bucket session
        let createdAt ← Prog.perform Call.now
        let record : FileRecord := ⟨fileId, req.name, req.mimetype, session.fileSize,
          session.s3Key, session.ownerSub, createdAt⟩
        let _ ← onStore .master (.saveFile record)
        -- the session is the handle of a retry, so it goes last
        let _ ← announce (.fileCreate record)
        deleteSession fileId

def cancelUpload (fileId callerSub : String) : M Unit :=
  withSession fileId do
    match ← onStore .master (.getSession fileId) with
    | none => Prog.fail (.fs (.notFound "upload session not found"))
    | some session =>
      if session.ownerSub ≠ callerSub then Prog.fail (.fs .forbidden)
      else do
        -- a failed abort keeps the session for the sweeper
        let _ ← if session.s3UploadId.isSome then abortSessionUpload bucket session else pure ()
        deleteSession fileId

end Uploads

/-! ### Deletion -/

/-- Whether `delete_file` lets the caller through. -/
def mayDelete (rec : FileRecord) (fileId callerSub : String) : M Bool := do
  let info ← onStore .master (.getRefInfo fileId)
  if RefInfo.count info = 0 then pure (decide (rec.ownerSub = callerSub))
  else canAccess callerSub fileId .delete

/-- `delete_file`: the announcement goes before the row, the row before the bytes. -/
def deleteFile (fileId callerSub : String) : M Unit := do
  match ← onStore .master (.getFile fileId) with
  | none => Prog.fail (.fs (.notFound "file not found"))
  | some rec => do
    if ← mayDelete rec fileId callerSub then
      -- a failed append leaves the row, and the retry comes through here again
      let _ ← announce (.fileDelete fileId)
      let _ ← onStore .master (.deleteFile fileId)
      -- a failure here leaves an object that no row has, for the byte pass of the sweeper
      onS3 (.deleteObject (FileRecord.s3Key rec))
    else Prog.fail (.fs .forbidden)

end FsEngine

end RustApi
