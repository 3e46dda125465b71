import RustApi.World

/-!
# The object store client

`ObjectStoreClient`: the multipart calls of the trait `S3Client`, each a program
over the requests to the backend and the accesses to the client's own map. The
plain object calls are single requests.
-/

namespace RustApi

open Lib

namespace S3

def createMultipartUpload (bucket key : String) : M String := do
  let id ← onS3 (.createMultipart key)
  let uuid ← Prog.perform Call.uuid
  let _ ← onS3 (.insertState ("ostore-" ++ uuid) ⟨bucket, key, id, []⟩)
  pure ("ostore-" ++ uuid)

/-- `upload_part`. The map is read before the request and written after it. -/
def uploadPart (bucket key uploadId : String) (partNumber : Int) (body : Bytes) : M String :=
  if partNumber < 1 then Prog.fail (.fs (.badRequest "part_number must be >= 1"))
  else do
    match ← onS3 (.getState uploadId) with
    | none => Prog.fail (.fs (.internal ("unknown upload_id " ++ uploadId)))
    | some state =>
      if state.bucket ≠ bucket ∨ state.key ≠ key then
        Prog.fail (.fs (.internal "bucket/key mismatch"))
      else do
        let idx := (partNumber - 1).toNat
        let etag ← onS3 (.putPart state.id idx body)
        -- another request may have taken the state away by now
        let _ ← onS3 (.recordPart uploadId idx etag)
        pure etag

/-- The parts of a completion in order, checked against the etags from index `i` on. -/
def orderedParts (parts : List (Nat × String)) : Nat → List String → Except Error (List String)
  | _, [] => .ok []
  | i, etag :: etags =>
    match parts.lookup i with
    | none => .error (.fs (.internal ("missing part " ++ toString (i + 1))))
    | some contentId =>
      if contentId ≠ etag then
        .error (.fs (.internal ("etag mismatch for part " ++ toString (i + 1) ++ ": expected " ++
          contentId ++ ", got " ++ etag)))
      else (orderedParts parts (i + 1) etags).map (contentId :: ·)

/-- `complete_multipart_upload`. The state is taken out of the map before any check. -/
def completeMultipartUpload (bucket key uploadId : String) (etags : List String) : M Unit := do
  match ← onS3 (.removeState uploadId) with
  | none => Prog.fail (.fs (.internal ("unknown upload_id " ++ uploadId)))
  | some state =>
    if state.bucket ≠ bucket ∨ state.key ≠ key then
      Prog.fail (.fs (.internal "bucket/key mismatch"))
    else if etags.length ≠ state.parts.length then
      Prog.fail (.fs (.internal ("etag count " ++ toString etags.length ++ " != part count " ++
        toString state.parts.length)))
    else do
      let ordered ← Prog.lift (orderedParts state.parts 0 etags)
      onS3 (.completeMultipart key state.id ordered)

def abortMultipartUpload (bucket key uploadId : String) : M Unit := do
  match ← onS3 (.removeStateOf bucket key uploadId) with
  -- no state: the upload is gone already
  | none => pure ()
  | some state => onS3 (.abortMultipart state.id)

def backendUploadId (uploadId : String) : M (Option String) := do
  let state ← onS3 (.getState uploadId)
  pure (state.map MultipartState.id)

def restoreMultipart (record : PersistedMultipart) : M Unit :=
  if record.bucket = "" ∨ record.key = "" then
    Prog.fail (.fs (.internal "multipart record missing bucket/key"))
  else
    onS3 (.insertState record.uploadId ⟨record.bucket, record.key, record.s3UploadId, record.parts⟩)

end S3

end RustApi
