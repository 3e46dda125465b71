import Mathlib

/-!
# Shared records

The stored record types and the vocabulary of the change feed: file records,
upload sessions, reference counts, feed operations, and the errors of the file
and policy modules.
-/

namespace RustApi

/-! ### Errors -/

/-- `FsError`. The text is the server-side detail. -/
inductive FsError where
  | badRequest (detail : String)
  | payloadTooLarge
  | forbidden
  | notFound (detail : String)
  | internal (detail : String)
  | store (detail : String)
  | tooManyRequests
  | fenced (reason : String)
  deriving DecidableEq, Repr

/-- `PolicyError`. -/
inductive PolicyError where
  | store (detail : String)
  | casbin (detail : String)
  | accessDenied
  | changeFeed (detail : String)
  | fenced (reason : String)
  deriving DecidableEq, Repr

/-- The errors a call can answer. `outOfFuel` is not an error of the source: it ends
    the model of an unbounded loop that was given too few iterations. -/
inductive Error where
  | fs (e : FsError)
  | policy (e : PolicyError)
  | outOfFuel
  deriving DecidableEq, Repr

/-- A value that `serde_json` cannot decode; the text is serde's own. -/
def decodeError : Error := .fs (.internal "serde_json")

/-! ### Stored records -/

/-- `FileRecord`: a finished upload. -/
structure FileRecord where
  id : String
  name : String
  mimetype : String
  size : Nat
  s3Key : String
  ownerSub : String
  createdAt : Int
  deriving DecidableEq, Repr

/-- `UploadSession`: an upload in flight. `etags[i]` is `none` until part `i` landed. -/
structure UploadSession where
  id : String
  fileSize : Nat
  partSize : Nat
  fileTotalParts : Nat
  s3UploadId : Option String
  s3Key : String
  ownerSub : String
  createdAt : Int
  etags : List (Option String)
  checksums : List (Option String)
  deriving DecidableEq, Repr

/-- `UploadSession::is_expired`. -/
def UploadSession.isExpired (s : UploadSession) (now ttlSecs : Int) : Bool :=
  decide (now - s.createdAt > ttlSecs)

/-- `PersistedMultipart`: the durable S3 state of a multipart upload. `parts` maps a
    part index to its staged content id. -/
structure PersistedMultipart where
  uploadId : String
  bucket : String
  key : String
  s3UploadId : String
  parts : List (Nat × String)
  createdAt : Int
  deriving DecidableEq, Repr

/-- `BTreeMap::insert` on the staged parts. -/
def insertPart (parts : List (Nat × String)) (idx : Nat) (contentId : String) :
    List (Nat × String) :=
  (idx, contentId) :: parts.filter (fun p => p.1 ≠ idx)

theorem lookup_insertPart (parts : List (Nat × String)) (slot : Nat) (etag : String) (i : Nat) :
    (insertPart parts slot etag).lookup i = if i = slot then some etag else parts.lookup i := by
  have rest : i ≠ slot → (parts.filter fun p => p.1 ≠ slot).lookup i = parts.lookup i := by
    intro other
    induction parts with
    | nil => rfl
    | cons p parts ih =>
      obtain ⟨j, content⟩ := p
      by_cases here : j = slot
      · subst here
        have away : (i == j) = false := beq_false_of_ne other
        rw [List.filter_cons_of_neg (by simp), ih, List.lookup_cons, away]
      · rw [List.filter_cons_of_pos (by simpa using here), List.lookup_cons, List.lookup_cons, ih]
  unfold insertPart
  by_cases same : i = slot
  · simp [same]
  · have away : (i == slot) = false := beq_false_of_ne same
    rw [List.lookup_cons, away, rest same, if_neg same]

theorem keys_insertPart (parts : List (Nat × String)) (slot : Nat) (etag : String) :
    (insertPart parts slot etag).map (·.1) = slot :: (parts.map (·.1)).filter (· ≠ slot) := by
  simp [insertPart, List.filter_map, Function.comp_def]

/-- `RefInfo`: how many rows reference a file, a `u32`. -/
structure RefInfo where
  count : Nat
  orphanSince : Option Int
  deriving DecidableEq, Repr

/-- `RefInfo::default`: never attached. -/
def RefInfo.default : RefInfo := ⟨0, none⟩

/-- A stored value: the JSON of one of the record types, the bytes `1` of a relation
    marker, a coverage marker, or bytes that decode as none of them. -/
inductive Value where
  | session (s : UploadSession)
  | multipart (m : PersistedMultipart)
  | file (r : FileRecord)
  | refs (info : RefInfo)
  | relation
  | applied (seq : Nat)
  | raw (bytes : List UInt8)
  deriving DecidableEq, Repr

/-! ### The change feed -/

/-- `WalOp`. -/
inductive WalOp where
  | policyAdd (obj : String)
  | policyRemove (obj : String)
  | policyRuleAdd (sub obj act : String)
  | policyRuleRemove (sub obj act : String)
  | groupAdd (user group : String)
  | groupRemove (user group : String)
  | groupDelete (group : String)
  | attach (rowType rowId fileId : String)
  | detach (rowType rowId fileId : String)
  | fileCreate (rec : FileRecord)
  | fileDelete (fileId : String)
  deriving DecidableEq, Repr

/-- `WalOp::is_legacy_policy_mark`. -/
def WalOp.isLegacyPolicyMark : WalOp → Bool
  -- marks of an older format, which name an object but no change
  | .policyAdd _ => true
  | .policyRemove _ => true
  | _ => false

/-- `WalEntry`. -/
structure WalEntry where
  seq : Nat
  op : WalOp
  ts : Int
  deriving DecidableEq, Repr

end RustApi
