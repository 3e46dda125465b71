import RustApi.Fs.Engine

/-!
# The sweeper

`sweep_once`: abandoned sessions, orphaned files and orphan bytes. The two listings
are taken once, at the start; the session pass reads each row again under its lock,
the file pass reads the reference count of each file, and the byte pass lists the
objects last. The reclaim of the store's own log objects touches nothing modelled
here and is left out.
-/

namespace RustApi

open Lib

namespace Gc

/-- `FILE_BYTES_PREFIX`. -/
def fileBytesPrefix : String := "files/"

/-- `TTL_SECS`. -/
def ttlSecs : Int := 24 * 3600

section Sweep

variable (bucket : String)

/-- One listed session, under its lock. The answer says whether it was expired. -/
def sweepSession (now : Int) (listed : UploadSession) : M Bool :=
  withSession listed.id do
    -- the listing may be old: the row is read again under the lock
    match ← onStore .master (.getSession listed.id) with
    | none => pure false
    | some s =>
      if ¬ UploadSession.isExpired s now ttlSecs then pure false
      else do
        -- a failed abort keeps the session, and the next sweep tries again
        match ← (FsEngine.abortSessionUpload bucket s).attempt with
        | .error _ => pure false
        | .ok () => do
          let _ ← FsEngine.deleteSession s.id
          pure true

def sweepSessions (now : Int) : List UploadSession → Nat → M Nat
  | [], cleaned => pure cleaned
  | listed :: sessions, cleaned => do
    let done ← sweepSession bucket now listed
    sweepSessions now sessions (if done then cleaned + 1 else cleaned)

/-- One listed file. A step that fails keeps the file for the next sweep, but for the last. -/
def sweepFile (now : Int) (f : FileRecord) : M Bool := do
  match ← (onStore .master (.getRefInfo f.id)).attempt with
  -- one unreadable count costs one file, not the sweep
  | .error _ => pure false
  | .ok info =>
    if RefInfo.count info ≠ 0 then pure false
    -- never attached: the age counts from the upload
    else if now - (RefInfo.orphanSince info).getD f.createdAt ≤ ttlSecs then pure false
    else do
      match ← (onS3 (.deleteObject f.s3Key)).attempt with
      | .error _ => pure false
      | .ok () => do
        -- announced before the row goes, since the row is what a retry finds
        match ← (FsEngine.announce (.fileDelete f.id)).attempt with
        | .error _ => pure false
        | .ok () => do
          -- this error is the only one that ends the sweep
          let _ ← onStore .master (.deleteFile f.id)
          pure true

def sweepFiles (now : Int) : List FileRecord → Nat → M Nat
  | [], cleaned => pure cleaned
  | f :: files, cleaned => do
    let done ← sweepFile now f
    sweepFiles now files (if done then cleaned + 1 else cleaned)

/-- One listed object. -/
def sweepObject (now : Int) (live : List String) (entry : ListedKey) : M Bool :=
  if entry.key ∈ live ∨ now - entry.lastModified ≤ ttlSecs then pure false
  else do
    match ← (onS3 (.deleteObject entry.key)).attempt with
    | .error _ => pure false
    | .ok () => pure true

def sweepObjects (now : Int) (live : List String) : List ListedKey → Nat → M Nat
  | [], cleaned => pure cleaned
  | entry :: entries, cleaned => do
    let done ← sweepObject now live entry
    sweepObjects now live entries (if done then cleaned + 1 else cleaned)

/-- The orphan-byte pass, skipped when a row of either listing did not decode. -/
def orphanPass (now : Int) (sessions : FsStore.RecordScan UploadSession)
    (files : FsStore.RecordScan FileRecord) (cleaned : Nat) : M Nat :=
  -- a row that was not read may name any key
  if sessions.undecodable.length + files.undecodable.length > 0 then pure cleaned
  else do
    let live := sessions.records.map (·.s3Key) ++ files.records.map (·.s3Key)
    match ← (onS3 (.listKeys fileBytesPrefix)).attempt with
    | .error _ => pure cleaned
    | .ok listed => sweepObjects now live listed cleaned

def sweepOnce : M Nat := do
  let now ← Prog.perform Call.now
  let sessions ← onStore .master .listSessions
  let files ← onStore .master .listFiles
  let cleaned ← sweepSessions bucket now (FsStore.RecordScan.records sessions) 0
  let cleaned ← sweepFiles now (FsStore.RecordScan.records files) cleaned
  orphanPass now sessions files cleaned

end Sweep

end Gc

end RustApi
