import RustApi.Fs.Pages
import RustApi.Fs.Store
import RustApi.Lib.Prog
import RustApi.Policy.Enforcer
import RustApi.Sync.Wal

/-!
# The world and its calls

Everything the modules share, and the atomic requests they make: store calls on the
master and on the replicas, the change feed, the policy engine, the object store
with the multipart map of its client, the session locks, the clock and fresh ids.
A module of the source is then a program of these calls.

A call stands for one section of the source that nothing else can enter: a store
call runs under the lock of its handle, a transaction commits at once, and the
object store answers one request at a time.
-/

namespace RustApi

open Lib

/-! ### Object store -/

abbrev Bytes : Type := List UInt8

/-- An object with the time of its last write. -/
structure Object where
  body : Bytes
  lastModified : Int
  deriving DecidableEq, Repr

/-- `MultipartState`: what the client remembers of an upload. -/
structure MultipartState where
  bucket : String
  key : String
  id : String
  parts : List (Nat × String)
  deriving DecidableEq, Repr

/-- An upload in the backend: the staged parts with their content ids. -/
structure BackendUpload where
  key : String
  parts : List (Nat × String × Bytes)
  deriving DecidableEq, Repr

/-- `ListedKey`. -/
structure ListedKey where
  key : String
  lastModified : Int
  deriving DecidableEq, Repr

/-! ### Calls -/

/-- Which file store a call addresses. -/
inductive Side where
  | master
  | replica (sub : String)
  deriving DecidableEq, Repr

/-- Calls of `FsStore`, and the raw reads and writes of the replica code on its handle. -/
inductive FsCall where
  | saveSession (s : UploadSession)
  | getSession (id : String)
  | deleteSession (id : String) (session : Option UploadSession)
  | saveMultipart (m : PersistedMultipart)
  | loadMultipart (uploadId : String)
  | deleteMultipart (uploadId : String)
  | saveFile (rec : FileRecord)
  | getFile (id : String)
  | deleteFile (id : String)
  | getRefInfo (fileId : String)
  | attach (rowType rowId fileId : String)
  | detach (rowType rowId fileId : String)
  | rowsForFile (fileId : String)
  | filesForRow (rowType rowId : String)
  | listFiles
  | listSessions
  | page (cursor : Option String)
  | getBytes (key : String)
  | setBytes (key : String) (value : Value)
  | commit (writes : List (Kv.Write Value))
  deriving DecidableEq

@[reducible] def FsCall.Ans : FsCall → Type
  | .getSession _ => Option UploadSession
  | .loadMultipart _ => Option PersistedMultipart
  | .getFile _ => Option FileRecord
  | .getRefInfo _ => RefInfo
  | .attach .. => Nat
  | .detach .. => Nat
  | .rowsForFile _ => List (String × String)
  | .filesForRow .. => List String
  | .listFiles => FsStore.RecordScan FileRecord
  | .listSessions => FsStore.RecordScan UploadSession
  | .page _ => List (String × Value)
  | .getBytes _ => Option Value
  | _ => Unit

/-- The effect of a store call at time `now`. -/
def FsCall.exec (now : Int) : (c : FsCall) → Kv Value → Except Error c.Ans × Kv Value
  | .saveSession s, kv => (.ok (), FsStore.saveSession s kv)
  | .getSession id, kv => (FsStore.getSession id kv, kv)
  | .deleteSession id session, kv => (.ok (), FsStore.deleteSession id session kv)
  | .saveMultipart m, kv => (.ok (), FsStore.saveMultipart m kv)
  | .loadMultipart uploadId, kv => (FsStore.loadMultipart uploadId kv, kv)
  | .deleteMultipart uploadId, kv => (.ok (), FsStore.deleteMultipart uploadId kv)
  | .saveFile rec, kv => (.ok (), FsStore.saveFile rec kv)
  | .getFile id, kv => (FsStore.getFile id kv, kv)
  | .deleteFile id, kv => (.ok (), FsStore.deleteFile id kv)
  | .getRefInfo fileId, kv => (FsStore.getRefInfo fileId kv, kv)
  -- a failed request stages nothing, so the store stays as it was
  | .attach rowType rowId fileId, kv =>
    match FsStore.attach rowType rowId fileId kv with
    | .ok (count, kv') => (.ok count, kv')
    | .error e => (.error e, kv)
  | .detach rowType rowId fileId, kv =>
    match FsStore.detach now rowType rowId fileId kv with
    | .ok (count, kv') => (.ok count, kv')
    | .error e => (.error e, kv)
  | .rowsForFile fileId, kv => (.ok (FsStore.rowsForFile fileId kv), kv)
  | .filesForRow rowType rowId, kv => (.ok (FsStore.filesForRow rowType rowId kv), kv)
  | .listFiles, kv => (.ok (FsStore.listFiles kv), kv)
  | .listSessions, kv => (.ok (FsStore.listSessions kv), kv)
  | .page cursor, kv => (.ok (KvPages.fetchFrom kv cursor), kv)
  | .getBytes key, kv => (.ok kv[key]?, kv)
  | .setBytes key value, kv => (.ok (), kv.insert key value)
  | .commit writes, kv => (.ok (), Kv.commit writes kv)

/-- Calls of `Wal`. -/
inductive WalCall where
  | head
  | range (lo hi : Nat)
  | append (op : WalOp)
  deriving DecidableEq

@[reducible] def WalCall.Ans : WalCall → Type
  | .head => Nat
  | .range .. => List WalEntry
  | .append _ => Unit

def WalCall.exec (now : Int) : (c : WalCall) → Kv WalValue → Except Error c.Ans × Kv WalValue
  | .head, kv => (Wal.head kv, kv)
  | .range lo hi, kv => (Wal.range lo hi kv, kv)
  | .append op, kv =>
    match Wal.append now op kv with
    | .ok (_, kv') => (.ok (), kv')
    | .error e => (.error e, kv)

/-- Calls on the enforcer. `authorizer` is a read under the read lock, `openStore` opens
    the store with a new enforcer, and the others are casbin's management calls under the
    write lock. -/
inductive PolicyCall where
  | authorizer
  | getUsersForRole (role : String)
  | openStore
  | addPolicy (rule : List String)
  | removePolicy (sub obj act : String)
  | addGroupingPolicy (link : List String)
  | removeGroupingPolicy (user group : String)
  | removeFilteredGroupingPolicy (group : String)
  deriving DecidableEq

@[reducible] def PolicyCall.Ans : PolicyCall → Type
  | .authorizer => Policy
  | .getUsersForRole _ => List String
  | .openStore => Unit
  | _ => Bool

def PolicyCall.exec : (c : PolicyCall) → Enforcer → Except Error c.Ans × Enforcer
  | .authorizer, e => (.ok e.policy, e)
  | .getUsersForRole role, e => (.ok (e.policy.getUsersInGroup role), e)
  | .openStore, e => (.ok (), e.reopen)
  | .addPolicy rule, e =>
    match e.addPolicy rule with
    | .ok (changed, e') => (.ok changed, e')
    | .error err => (.error err, e)
  | .removePolicy sub obj act, e =>
    (.ok (e.removePolicy sub obj act).1, (e.removePolicy sub obj act).2)
  | .addGroupingPolicy link, e =>
    match e.addGroupingPolicy link with
    | .ok (changed, e') => (.ok changed, e')
    | .error err => (.error err, e)
  | .removeGroupingPolicy user group, e =>
    (.ok (e.removeGroupingPolicy user group).1, (e.removeGroupingPolicy user group).2)
  | .removeFilteredGroupingPolicy group, e =>
    (.ok (e.removeFilteredGroupingPolicy group).1, (e.removeFilteredGroupingPolicy group).2)

/-- Requests to the object store, and the accesses to the client's own multipart map. -/
inductive S3Call where
  | putObject (key : String) (body : Bytes)
  | deleteObject (key : String)
  | listKeys (start : String)
  | createMultipart (key : String)
  | putPart (id : String) (idx : Nat) (body : Bytes)
  | completeMultipart (key id : String) (parts : List String)
  | abortMultipart (id : String)
  | getState (uploadId : String)
  | insertState (uploadId : String) (state : MultipartState)
  | recordPart (uploadId : String) (idx : Nat) (contentId : String)
  | removeState (uploadId : String)
  | removeStateOf (bucket key uploadId : String)
  deriving DecidableEq

@[reducible] def S3Call.Ans : S3Call → Type
  | .listKeys _ => List ListedKey
  | .createMultipart _ => String
  | .putPart .. => String
  | .getState _ => Option MultipartState
  | .removeState _ => Option MultipartState
  | .removeStateOf .. => Option MultipartState
  | _ => Unit

inductive Call where
  | fs (side : Side) (c : FsCall)
  | wal (c : WalCall)
  | policy (c : PolicyCall)
  | s3 (c : S3Call)
  | lock (id : String)
  | unlock (id : String)
  | now
  | uuid
  deriving DecidableEq

@[reducible] def Call.Ans : Call → Type
  | .fs _ c => c.Ans
  | .wal c => c.Ans
  | .policy c => c.Ans
  | .s3 c => c.Ans
  | .lock _ => Unit
  | .unlock _ => Unit
  | .now => Int
  | .uuid => String

/-! ### The world -/

/-- The shared state. `supply` is the stream of fresh ids and `issued` how many of them
    were handed out; `locks` are the session locks that are held. -/
structure World where
  master : Kv Value
  replicas : String → Kv Value
  wal : Kv WalValue
  enforcer : Enforcer
  objects : Kv Object
  states : Kv MultipartState
  uploads : Kv BackendUpload
  locks : List String
  clock : Int
  supply : Nat → String
  issued : Nat

namespace World

/-- A fresh deployment, with nothing stored. -/
def init (supply : Nat → String) : World where
  master := ∅
  replicas := fun _ => ∅
  wal := ∅
  enforcer := ⟨∅, ⟨[], []⟩⟩
  objects := ∅
  states := ∅
  uploads := ∅
  locks := []
  clock := 0
  supply := supply
  issued := 0

def fsStore (w : World) : Side → Kv Value
  | .master => w.master
  | .replica sub => w.replicas sub

def setFsStore (w : World) (side : Side) (kv : Kv Value) : World :=
  match side with
  | .master => { w with master := kv }
  | .replica sub => { w with replicas := Function.update w.replicas sub kv }

end World

/-- A fresh id of the backend, taken from the same supply. -/
def World.fresh (w : World) : String × World := (w.supply w.issued, { w with issued := w.issued + 1 })

def noSuchUpload (id : String) : Error := .fs (.notFound ("no such upload " ++ id))

def invalidPart (id : String) : Error := .fs (.internal ("invalid part of upload " ++ id))

/-- The bytes of a part, when the backend holds it under this content id. -/
def BackendUpload.body (up : BackendUpload) (idx : Nat) (contentId : String) : Option Bytes :=
  (up.parts.find? fun p => p.1 = idx ∧ p.2.1 = contentId).map (·.2.2)

/-- The object of a completion: its parts from number `i` on, each by its content id. -/
def BackendUpload.join (up : BackendUpload) : Nat → List String → Option Bytes
  | _, [] => some []
  | i, contentId :: contentIds => do
    let body ← up.body i contentId
    let rest ← up.join (i + 1) contentIds
    pure (body ++ rest)

def S3Call.exec : (c : S3Call) → World → Except Error c.Ans × World
  | .putObject key body, w => (.ok (), { w with objects := w.objects.insert key ⟨body, w.clock⟩ })
  | .deleteObject key, w => (.ok (), { w with objects := w.objects.erase key })
  -- the listing shows how old each object is, and no content
  | .listKeys start, w =>
    (.ok ((w.objects.toList.filter fun e => Text.startsWith start e.1).map fun e =>
      ⟨e.1, e.2.lastModified⟩), w)
  | .createMultipart key, w =>
    (.ok w.fresh.1, { w.fresh.2 with uploads := w.uploads.insert w.fresh.1 ⟨key, []⟩ })
  | .putPart id idx body, w =>
    match w.uploads[id]? with
    | none => (.error (noSuchUpload id), w)
    | some up =>
      -- a part that is put again replaces the one before
      let parts := (idx, w.fresh.1, body) :: up.parts.filter (fun p => p.1 ≠ idx)
      (.ok w.fresh.1, { w.fresh.2 with uploads := w.uploads.insert id ⟨up.key, parts⟩ })
  | .completeMultipart key id parts, w =>
    match w.uploads[id]? with
    | none => (.error (noSuchUpload id), w)
    | some up =>
      match up.join 0 parts with
      -- the upload stays when the backend does not hold one of the parts
      | none => (.error (invalidPart id), w)
      | some body => (.ok (), { w with
          uploads := w.uploads.erase id
          objects := w.objects.insert key ⟨body, w.clock⟩ })
  | .abortMultipart id, w =>
    if id ∈ w.uploads then (.ok (), { w with uploads := w.uploads.erase id })
    else (.error (noSuchUpload id), w)
  | .getState uploadId, w => (.ok w.states[uploadId]?, w)
  | .insertState uploadId state, w => (.ok (), { w with states := w.states.insert uploadId state })
  | .recordPart uploadId idx contentId, w =>
    match w.states[uploadId]? with
    -- the state was taken away while the part was under way
    | none => (.ok (), w)
    | some st =>
      let st' := { st with parts := insertPart st.parts idx contentId }
      (.ok (), { w with states := w.states.insert uploadId st' })
  | .removeState uploadId, w =>
    (.ok w.states[uploadId]?, { w with states := w.states.erase uploadId })
  | .removeStateOf bucket key uploadId, w =>
    match w.states[uploadId]? with
    | none => (.ok none, w)
    | some st =>
      -- the state stays for the upload it belongs to
      if st.bucket ≠ bucket ∨ st.key ≠ key then (.error (.fs (.internal "bucket/key mismatch")), w)
      else (.ok (some st), { w with states := w.states.erase uploadId })

def Call.exec : (c : Call) → World → Except Error c.Ans × World
  | .fs side c, w => ((c.exec w.clock (w.fsStore side)).1,
      w.setFsStore side (c.exec w.clock (w.fsStore side)).2)
  | .wal c, w => ((c.exec w.clock w.wal).1, { w with wal := (c.exec w.clock w.wal).2 })
  | .policy c, w => ((c.exec w.enforcer).1, { w with enforcer := (c.exec w.enforcer).2 })
  | .s3 c, w => c.exec w
  | .lock id, w => (.ok (), { w with locks := id :: w.locks })
  | .unlock id, w => (.ok (), { w with locks := w.locks.erase id })
  | .now, w => (.ok w.clock, w)
  | .uuid, w => (.ok w.fresh.1, w.fresh.2)

/-! ### Programs -/

/-- The programs of the modules. -/
abbrev M (α : Type) : Type := Prog Call.Ans Error α

namespace M

variable {α β : Type}

/-- Run a program alone. -/
def runOn (p : M α) (w : World) : Except Error α × World := p.run Call.exec w

@[simp] theorem runOn_pure (a : α) (w : World) : runOn (pure a : M α) w = (.ok a, w) := rfl

@[simp] theorem runOn_fail (e : Error) (w : World) :
    runOn (Prog.fail e : M α) w = (.error e, w) := rfl

@[simp] theorem runOn_lift (r : Except Error α) (w : World) :
    runOn (Prog.lift r : M α) w = (r, w) := rfl

/-- A value that is at hand is passed on. -/
theorem runOn_lift_bind {r : Except Error α} {a : α} (value : r = .ok a) (f : α → M β) (w : World) :
    (Prog.lift r >>= f : M β).runOn w = (f a).runOn w := by
  subst value
  rfl

/-- Peel the first half off a run that returned a value. -/
theorem runOn_bind_ok {p : M α} {f : α → M β} {w w' : World} {b : β}
    (h : (p >>= f).runOn w = (.ok b, w')) :
    ∃ a w₁, p.runOn w = (.ok a, w₁) ∧ (f a).runOn w₁ = (.ok b, w') :=
  Prog.run_bind_ok _ h

theorem runOn_bind_of_ok {p : M α} {f : α → M β} {w w₁ : World} {a : α}
    (h : p.runOn w = (.ok a, w₁)) : (p >>= f).runOn w = (f a).runOn w₁ :=
  Prog.run_bind_of_ok _ _ h

theorem runOn_bind_of_error {p : M α} {f : α → M β} {w w₁ : World} {e : Error}
    (h : p.runOn w = (.error e, w₁)) : (p >>= f).runOn w = (.error e, w₁) := by
  rw [runOn] at h ⊢
  rw [Prog.run_bind, h]

end M

def onStore (side : Side) (c : FsCall) : M c.Ans := Prog.perform (Call.fs side c)

def onWal (c : WalCall) : M c.Ans := Prog.perform (Call.wal c)

def onPolicy (c : PolicyCall) : M c.Ans := Prog.perform (Call.policy c)

def onS3 (c : S3Call) : M c.Ans := Prog.perform (Call.s3 c)

/-- Hold the lock of a session while `body` runs; every way out of it drops the guard. -/
def withSession {α : Type} (id : String) (body : M α) : M α := do
  let _ ← Prog.perform (Call.lock id)
  -- an error is kept until the guard is dropped, and returned then
  let r ← body.attempt
  let _ ← Prog.perform (Call.unlock id)
  Prog.lift r

@[simp] theorem World.setFsStore_fsStore (w : World) (side : Side) :
    w.setFsStore side (w.fsStore side) = w := by
  cases side with
  | master => rfl
  | replica sub => simp [World.setFsStore, World.fsStore, Function.update_eq_self]

@[simp] theorem run_onStore (side : Side) (c : FsCall) (w : World) :
    (onStore side c).runOn w = ((c.exec w.clock (w.fsStore side)).1,
      w.setFsStore side (c.exec w.clock (w.fsStore side)).2) := rfl

@[simp] theorem run_authorizer (w : World) :
    (onPolicy .authorizer).runOn w = (.ok w.enforcer.policy, w) := rfl

@[simp] theorem run_walHead (w : World) : (onWal .head).runOn w = (Wal.head w.wal, w) := rfl

@[simp] theorem run_walRange (lo hi : Nat) (w : World) :
    (onWal (.range lo hi)).runOn w = (Wal.range lo hi w.wal, w) := rfl

/-- The calls that reach a store, the feed or the object store may fail. The others touch
    only the memory of the process. -/
def Call.mayFail : Call → Bool
  | .fs .. => true
  | .wal _ => true
  | .policy .authorizer => false
  | .policy (.getUsersForRole _) => false
  | .policy _ => true
  | .s3 (.getState _) => false
  | .s3 (.insertState ..) => false
  | .s3 (.recordPart ..) => false
  | .s3 (.removeState _) => false
  | .s3 (.removeStateOf ..) => false
  | .s3 _ => true
  | .lock _ => false
  | .unlock _ => false
  | .now => false
  | .uuid => false

/-- The error of a failed call. -/
def storeFault : Error := .fs (.store "storage unavailable")

namespace M

variable {α β : Type}

/-- Run a program in which a call that may fail does so after `k` that did not. -/
def failing (p : M α) (k : Option Nat) (w : World) : Except Error α × World × Option Nat :=
  p.runFailing Call.exec Call.mayFail storeFault k w

theorem failing_bind (p : M α) (f : α → M β) (k : Option Nat) (w : World) :
    (p >>= f).failing k w =
      match p.failing k w with
      | (.ok a, w', k') => (f a).failing k' w'
      | (.error e, w', k') => (.error e, w', k') := by
  simp only [failing, Prog.runFailing_bind]
  rcases p.runFailing Call.exec Call.mayFail storeFault k w with ⟨a | e, w', k'⟩
  · rfl
  · rfl

/-- Alone, the program makes its calls that may fail in the worlds `ws` and ends with `r`
    in `w'`. -/
abbrev Passes (p : M α) (w : World) (ws : List World) (r : Except Error α) (w' : World) : Prop :=
  Prog.Passes Call.exec Call.mayFail p w ws r w'

/-- A failing run under a session lock is a failing run of the body between the two. -/
theorem failing_withSession (id : String) (body : M α) (k : Option Nat) (w : World) :
    (withSession id body).failing k w =
      let inside := body.failing k { w with locks := id :: w.locks }
      (inside.1, { inside.2.1 with locks := inside.2.1.locks.erase id }, inside.2.2) := by
  -- neither of the two accesses to the lock can fail
  have entered : failing (Prog.perform (Call.lock id)) k w =
      (.ok (), { w with locks := id :: w.locks }, k) := by cases k <;> rfl
  have left : ∀ (r : Except Error α) (k' : Option Nat) (w' : World),
      failing (do let _ ← Prog.perform (Call.unlock id); Prog.lift r) k' w' =
        (r, { w' with locks := w'.locks.erase id }, k') := by
    intro r k' w'
    cases k' <;> rfl
  rw [withSession, failing_bind, entered]
  simp only
  rw [failing_bind, failing, Prog.runFailing_attempt]
  exact left _ _ _

theorem runOn_withSession (id : String) (body : M α) (w : World) :
    (withSession id body).runOn w =
      let inside := body.runOn { w with locks := id :: w.locks }
      (inside.1, { inside.2 with locks := inside.2.locks.erase id }) := by
  have guarded := failing_withSession id body none w
  simp only [failing, Prog.runFailing_none] at guarded
  exact Prod.ext (congrArg (·.1) guarded) (congrArg (·.2.1) guarded)

end M

end RustApi
