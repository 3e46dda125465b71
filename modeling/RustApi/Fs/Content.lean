import RustApi.Fs.Plan
import RustApi.Fs.Retry

/-!
# What an upload stores

The requests for the parts of an upload come one after the other, in any order and any
number of times for each part; some are refused. Between them other calls run, which
leave the rows, the backend upload and the object of this one alone, and the server may
restart and lose the map of its client.

## Main result

`upload_stores_parts`: an upload can be completed exactly when a body was accepted for
every part, and the object is then the last accepted bodies in the order of the parts.
-/

namespace RustApi

open Lib

/-! ### Requests for parts -/

/-- What a client sends with `upload_part`. -/
structure PartRequest where
  partIndex : Nat
  body : List (Except Error Bytes)
  declaredLen : Option Nat
  checksum : Option String
  callerSub : String

def PartRequest.prog (bucket f : String) (r : PartRequest) : M Unit :=
  FsEngine.uploadPart bucket f r.partIndex r.body r.declaredLen r.checksum r.callerSub

/-- The bytes of a request that passes the checks on the caller, the index and the sizes. -/
def PartRequest.accepted (s : UploadSession) (r : PartRequest) : Option Bytes :=
  if s.ownerSub ≠ r.callerSub then none
  else if r.partIndex ≥ s.fileTotalParts then none
  else
    match FsEngine.checkDeclared s r.partIndex r.declaredLen with
    | .error _ => none
    | .ok () => (FsEngine.readBody s r.partIndex r.body []).toOption

/-- The last accepted body of part `i`. -/
def received (s : UploadSession) (requests : List PartRequest) (i : Nat) : Option Bytes :=
  (requests.filterMap fun r => if r.partIndex = i then r.accepted s else none).getLast?

/-- The session with other etags. -/
def UploadSession.marked (s : UploadSession) (etags checksums : List (Option String)) :
    UploadSession :=
  { s with etags := etags, checksums := checksums }

theorem received_concat (s : UploadSession) (requests : List PartRequest) (r : PartRequest)
    (i : Nat) : received s (requests ++ [r]) i =
      if r.partIndex = i then (r.accepted s).or (received s requests i)
      else received s requests i := by
  simp only [received, List.filterMap_append]
  by_cases same : r.partIndex = i
  · cases accepted : r.accepted s <;> simp [same, accepted]
  · simp [same]

theorem readBody_marked (s : UploadSession) (etags checksums : List (Option String)) (i : Nat)
    (body : List (Except Error Bytes)) (buf : Bytes) :
    FsEngine.readBody (s.marked etags checksums) i body buf = FsEngine.readBody s i body buf := by
  induction body generalizing buf with
  | nil => rfl
  | cons chunk chunks ih =>
    cases chunk with
    | error e => rfl
    | ok chunk =>
      simp only [FsEngine.readBody, ih]
      rfl

theorem checkDeclared_marked (s : UploadSession) (etags checksums : List (Option String)) (i : Nat)
    (declaredLen : Option Nat) : FsEngine.checkDeclared (s.marked etags checksums) i declaredLen =
      FsEngine.checkDeclared s i declaredLen := by
  cases declaredLen <;> rfl

theorem PartRequest.accepted_cases {s : UploadSession} {r : PartRequest} {body : Bytes}
    (accepted : r.accepted s = some body) :
    s.ownerSub = r.callerSub ∧ r.partIndex < s.fileTotalParts ∧
      FsEngine.checkDeclared s r.partIndex r.declaredLen = .ok () ∧
      FsEngine.readBody s r.partIndex r.body [] = .ok body := by
  unfold PartRequest.accepted at accepted
  split at accepted
  · cases accepted
  next owner =>
    split at accepted
    · cases accepted
    next inside =>
      refine ⟨not_not.mp owner, Nat.lt_of_not_le inside, ?_⟩
      cases declared : FsEngine.checkDeclared s r.partIndex r.declaredLen with
      | error e =>
        rw [declared] at accepted
        cases accepted
      | ok _ =>
        rw [declared] at accepted
        cases read : FsEngine.readBody s r.partIndex r.body [] with
        | error e =>
          rw [read] at accepted
          cases accepted
        | ok bytes =>
          rw [read] at accepted
          cases accepted
          exact ⟨rfl, rfl⟩

section State

variable (bucket f : String) (s : UploadSession)

/-- The backend keeps the accepted bodies under the etags of the session. -/
structure Staging (w : World) (etags : List (Option String)) (contents : Nat → Option Bytes)
    (record : PersistedMultipart) (up : BackendUpload) : Prop where
  uploadId : s.s3UploadId = some record.uploadId
  row : FsStore.loadMultipart record.uploadId w.master = .ok (some record)
  place : record.bucket = bucket ∧ record.key = s.s3Key
  upload : w.uploads[record.s3UploadId]? = some up
  keys : (record.parts.map (·.1)).Nodup
  listed : ∀ i, i ∈ record.parts.map (·.1) ↔ ∃ etag, etags[i]? = some (some etag)
  part : ∀ i etag, etags[i]? = some (some etag) → record.parts.lookup i = some etag ∧
    ∃ body, contents i = some body ∧ (i, etag, body) ∈ up.parts
  drawn : ∀ p ∈ up.parts, ∃ n < w.issued, w.supply n = p.2.1
  apart : (up.parts.map (·.2.1)).Nodup

/-- The etags of the session row, with the bytes behind them. -/
structure Marks (w : World) (contents : Nat → Option Bytes) (etags : List (Option String)) :
    Prop where
  slots : etags.length = s.fileTotalParts
  marked : ∀ i, (∃ etag, etags[i]? = some (some etag)) ↔ (contents i).isSome
  single : s.fileTotalParts = 1 → ∀ body, contents 0 = some body →
    ∃ o, w.objects[s.s3Key]? = some o ∧ o.body = body
  multipart : s.fileTotalParts ≠ 1 → ∃ record up, Staging bucket s w etags contents record up

/-- An open upload of which `contents` was accepted so far. -/
structure Receiving (w : World) (contents : Nat → Option Bytes) : Prop where
  supply : Function.Injective w.supply
  log : ∃ entries, Wal.Log w.wal entries
  own : s.id = f
  named : bucket ≠ "" ∧ s.s3Key ≠ ""
  plan : UploadPlan s
  uncommitted : FsStore.getFile f w.master = .ok none
  row : ∃ etags checksums, FsStore.getSession f w.master = .ok (some (s.marked etags checksums)) ∧
    Marks bucket s w contents etags

/-- Other calls run: they leave the upload alone, and a restart loses the map of the client. -/
structure Elsewhere (w w' : World) : Prop where
  supply : w'.supply = w.supply
  issued : w.issued ≤ w'.issued
  log : (∃ entries, Wal.Log w.wal entries) → ∃ entries, Wal.Log w'.wal entries
  record : FsStore.getFile f w'.master = FsStore.getFile f w.master
  session : FsStore.getSession f w'.master = FsStore.getSession f w.master
  object : w'.objects[s.s3Key]? = w.objects[s.s3Key]?
  upload : ∀ u, s.s3UploadId = some u →
    FsStore.loadMultipart u w'.master = FsStore.loadMultipart u w.master ∧
    ∀ record, FsStore.loadMultipart u w.master = .ok (some record) →
      w'.uploads[record.s3UploadId]? = w.uploads[record.s3UploadId]?

/-- The requests of the clients one after the other, with other calls between them. -/
inductive Receives : World → List PartRequest → World → Prop where
  | start (w : World) : Receives w [] w
  | request {w v : World} {requests : List PartRequest} (r : PartRequest) :
      Receives w requests v → Receives w (requests ++ [r]) ((r.prog bucket f).runOn v).2
  | elsewhere {w v v' : World} {requests : List PartRequest} :
      Receives w requests v → Elsewhere f s v v' → Receives w requests v'

end State

section Steps

variable {bucket f : String} {s : UploadSession} {w : World} {contents : Nat → Option Bytes}

theorem Receiving.elsewhere {w' : World} (receiving : Receiving bucket f s w contents)
    (other : Elsewhere f s w w') : Receiving bucket f s w' contents := by
  obtain ⟨etags, checksums, row, marks⟩ := receiving.row
  refine { receiving with
    supply := other.supply ▸ receiving.supply
    log := other.log receiving.log
    uncommitted := other.record.trans receiving.uncommitted
    row := ⟨etags, checksums, other.session.trans row, { marks with
      single := fun one body here => other.object ▸ marks.single one body here
      multipart := fun many => ?_ }⟩ }
  obtain ⟨record, up, staging⟩ := marks.multipart many
  obtain ⟨same, upload⟩ := other.upload _ staging.uploadId
  refine ⟨record, up, { staging with
    row := same.trans staging.row
    upload := (upload record staging.row).trans staging.upload
    drawn := fun p mem => ?_ }⟩
  obtain ⟨n, before, drew⟩ := staging.drawn p mem
  exact ⟨n, before.trans_le other.issued, other.supply ▸ drew⟩

/-! ### A request that is refused -/

theorem run_getSession (w : World) (f : String) :
    (onStore .master (.getSession f)).runOn w = (FsStore.getSession f w.master, w) := rfl

theorem run_loadMultipart (w : World) (u : String) :
    (onStore .master (.loadMultipart u)).runOn w = (FsStore.loadMultipart u w.master, w) := rfl

/-- A request that fails a check reaches no store. -/
theorem PartRequest.refused {r : PartRequest} {etags checksums : List (Option String)}
    (row : FsStore.getSession f w.master = .ok (some (s.marked etags checksums)))
    (refused : r.accepted s = none) : ∃ e, (r.prog bucket f).runOn w = (.error e, w) := by
  unfold PartRequest.prog FsEngine.uploadPart
  rw [M.runOn_bind_of_ok ((run_getSession w f).trans (by rw [row]))]
  unfold PartRequest.accepted at refused
  change ∃ e, M.runOn (if s.ownerSub ≠ r.callerSub then _
    else if r.partIndex ≥ s.fileTotalParts then _ else _ : M Unit) w = _
  split at refused
  next other => exact ⟨_, by rw [if_pos other]; rfl⟩
  next owner =>
    rw [if_neg owner]
    split at refused
    next outside => exact ⟨_, by rw [if_pos outside]; rfl⟩
    next inside =>
      rw [if_neg inside]
      rw [checkDeclared_marked]
      cases declared : FsEngine.checkDeclared s r.partIndex r.declaredLen with
      | error e => exact ⟨e, rfl⟩
      | ok _ =>
        rw [declared] at refused
        rw [M.runOn_lift_bind rfl, readBody_marked]
        cases read : FsEngine.readBody s r.partIndex r.body [] with
        | ok bytes =>
          rw [read] at refused
          cases refused
        | error e => exact ⟨e, rfl⟩

/-! ### A request that is accepted -/

/-- The durable record, when there is one, takes the part. -/
def noted (record : Option PersistedMultipart) (i : Nat) (etag : String) (kv : Kv Value) : Kv Value :=
  match record with
  | none => kv
  | some record => FsStore.saveMultipart { record with parts := insertPart record.parts i etag } kv

theorem run_mergeRecord {record : Option PersistedMultipart}
    (row : ∀ r ∈ record, FsStore.loadMultipart r.uploadId w.master = .ok (some r)) (i : Nat)
    (etag : String) : (FsEngine.mergeRecord (record.map (·.uploadId)) i etag).runOn w =
      (.ok (), { w with master := noted record i etag w.master }) := by
  cases record with
  | none => rfl
  | some record =>
    change M.runOn (_ >>= _) w = _
    rw [M.runOn_bind_of_ok ((run_loadMultipart w record.uploadId).trans (by rw [row record rfl]))]
    rfl

/-- The merge of a part writes the record and then the session row. -/
theorem run_mergePart {session : UploadSession} {record : Option PersistedMultipart} {i : Nat}
    (row : FsStore.getSession f w.master = .ok (some session)) (inside : i < session.etags.length)
    (records : ∀ r ∈ record, FsStore.loadMultipart r.uploadId w.master = .ok (some r))
    (etag : String) (checksum : Option String) :
    (FsEngine.mergePart f i (record.map (·.uploadId)) etag checksum session.ownerSub).runOn w =
      (.ok (), { w with
        master := FsStore.saveSession (FsEngine.withPart session i etag checksum)
          (noted record i etag w.master) }) := by
  rw [FsEngine.mergePart, M.runOn_withSession,
    M.runOn_bind_of_ok ((run_getSession { w with locks := f :: w.locks } f).trans (by rw [row]))]
  have merged := run_mergeRecord (w := { w with locks := f :: w.locks }) records i etag
  simp only [ne_eq, not_true_eq_false, if_false, if_neg (Nat.not_le.mpr inside)]
  rw [M.runOn_bind_of_ok merged]
  simp [M.runOn, onStore, Call.exec, FsCall.exec, World.setFsStore, World.fsStore]

/-- An accepted request comes to the point at which its bytes go to the backend. -/
private theorem PartRequest.enters {r : PartRequest} {body : Bytes}
    {etags checksums : List (Option String)}
    (row : FsStore.getSession f w.master = .ok (some (s.marked etags checksums)))
    (accepted : r.accepted s = some body) {p : M Unit}
    (rest : p = if s.fileTotalParts = 1 then do
        let _ ← onS3 (.putObject s.s3Key body)
        FsEngine.mergePart f r.partIndex none "put" r.checksum s.ownerSub
      else s.s3UploadId.elim (Prog.fail (.fs (.internal "missing s3 upload id"))) fun u => do
        let _ ← FsEngine.ensureMultipart u
        let etag ← S3.uploadPart bucket s.s3Key u (FsEngine.asI32 (r.partIndex + 1)) body
        FsEngine.mergePart f r.partIndex (some u) etag r.checksum s.ownerSub) :
    (r.prog bucket f).runOn w = p.runOn w := by
  obtain ⟨owner, inside, declared, read⟩ := accepted_cases accepted
  subst rest
  unfold PartRequest.prog FsEngine.uploadPart
  rw [M.runOn_bind_of_ok ((run_getSession w f).trans (by rw [row])), ← owner]
  change M.runOn (if s.ownerSub ≠ s.ownerSub then _
    else if r.partIndex ≥ s.fileTotalParts then _ else _ : M Unit) w = _
  rw [if_neg (not_not.mpr rfl), if_neg (Nat.not_le.mpr inside),
    M.runOn_lift_bind ((checkDeclared_marked ..).trans declared),
    M.runOn_lift_bind ((readBody_marked ..).trans read)]
  cases uploadId : s.s3UploadId <;> simp only [UploadSession.marked, uploadId] <;> rfl

theorem run_ensureMultipart {record : PersistedMultipart}
    (row : FsStore.loadMultipart record.uploadId w.master = .ok (some record))
    (named : record.bucket ≠ "" ∧ record.key ≠ "") :
    (FsEngine.ensureMultipart record.uploadId).runOn w =
      (.ok (), { w with states := w.states.insert record.uploadId record.restored }) := by
  unfold FsEngine.ensureMultipart
  rw [M.runOn_bind_of_ok ((run_loadMultipart w record.uploadId).trans (by rw [row]))]
  simp only [S3.restoreMultipart, if_neg (not_or.mpr named)]
  rfl

/-- The world behind a part that the backend has taken. -/
def World.tookPart (w : World) (u b : String) (state : MultipartState) (up : BackendUpload) (i : Nat)
    (body : Bytes) : World :=
  { w.fresh.2 with
    uploads := w.uploads.insert b
      ⟨up.key, (i, w.fresh.1, body) :: up.parts.filter (fun p => p.1 ≠ i)⟩
    states := w.states.insert u { state with parts := insertPart state.parts i w.fresh.1 } }

theorem run_uploadPart {key u : String} {state : MultipartState} {up : BackendUpload} {i : Nat}
    {body : Bytes} (found : w.states[u]? = some state)
    (place : state.bucket = bucket ∧ state.key = key) (upload : w.uploads[state.id]? = some up) :
    (S3.uploadPart bucket key u (i + 1) body).runOn w =
      (.ok w.fresh.1, w.tookPart u state.id state up i body) := by
  have looked : (onS3 (.getState u)).runOn w = (.ok (some state), w) :=
    Prod.ext (congrArg Except.ok found) rfl
  obtain ⟨v, put⟩ : ∃ v : World, v = { w.fresh.2 with
      uploads := w.uploads.insert state.id
        ⟨up.key, (i, w.fresh.1, body) :: up.parts.filter (fun p => p.1 ≠ i)⟩ } := ⟨_, rfl⟩
  have taken : (onS3 (.putPart state.id i body)).runOn w = (.ok w.fresh.1, v) := by
    simp [M.runOn, onS3, Call.exec, S3Call.exec, upload, put]
  have kept : v.states[u]? = some state := put ▸ found
  have recorded : (onS3 (.recordPart u i w.fresh.1)).runOn v =
      (.ok (), w.tookPart u state.id state up i body) := by
    simp only [M.runOn, onS3, Prog.run_perform, Call.exec, S3Call.exec, kept]
    subst put
    rfl
  have index : ((i : Int) + 1 - 1).toNat = i := by omega
  unfold S3.uploadPart
  rw [if_neg (by omega), M.runOn_bind_of_ok looked]
  simp only [place.1, place.2, ne_eq, not_true_eq_false, or_self, if_false]
  rw [index, M.runOn_bind_of_ok taken, M.runOn_bind_of_ok recorded]
  rfl

/-- The slot of an accepted part is filled, and the others stay. -/
theorem marked_set {etags : List (Option String)} {i : Nat} {body : Bytes} {etag : String}
    (inside : i < etags.length)
    (marked : ∀ j, (∃ etag, etags[j]? = some (some etag)) ↔ (contents j).isSome) (j : Nat) :
    (∃ e, (etags.set i (some etag))[j]? = some (some e)) ↔
      (Function.update contents i (some body) j).isSome := by
  by_cases same : j = i
  · subst same
    simp [List.getElem?_set_self inside]
  · rw [List.getElem?_set_ne (Ne.symm same), Function.update_of_ne same]
    exact marked j

/-- The part of a single upload is put as the object. -/
theorem Receiving.accept_single {r : PartRequest} {body : Bytes}
    (receiving : Receiving bucket f s w contents) (accepted : r.accepted s = some body)
    (single : s.fileTotalParts = 1) : ∃ w', (r.prog bucket f).runOn w = (.ok (), w') ∧
      Receiving bucket f s w' (Function.update contents r.partIndex (some body)) := by
  obtain ⟨etags, checksums, row, marks⟩ := receiving.row
  obtain ⟨owner, inside, -, -⟩ := PartRequest.accepted_cases accepted
  have slot : r.partIndex < (s.marked etags checksums).etags.length :=
    inside.trans_eq marks.slots.symm
  have entered := @PartRequest.enters bucket f s w r body _ _ row accepted (do
    let _ ← onS3 (.putObject s.s3Key body)
    FsEngine.mergePart f r.partIndex none "put" r.checksum s.ownerSub) (by rw [if_pos single])
  have merged := @run_mergePart f
    { w with objects := w.objects.insert s.s3Key ⟨body, w.clock⟩ } _ none _ row slot (by simp)
    "put" r.checksum
  refine ⟨_, entered.trans ((M.runOn_bind_of_ok (Prod.ext rfl rfl)).trans merged), { receiving with
    uncommitted := (FsStore.getFile_saveSession ..).trans receiving.uncommitted
    row := ⟨etags.set r.partIndex (some "put"), _,
      (FsStore.getSession_saveSession ..).trans (if_pos receiving.own), {
        slots := (List.length_set ..).trans marks.slots
        marked := marked_set slot marks.marked
        single := fun _ bytes last => ?_
        multipart := fun many => absurd single many }⟩ }⟩
  obtain same : r.partIndex = 0 := by omega
  rw [same, Function.update_self] at last
  obtain rfl := Option.some.inj last
  exact ⟨⟨body, w.clock⟩, by simp, rfl⟩

/-- What the backend and the record keep once both have the part under a new id. -/
theorem Staging.accept {etags : List (Option String)} {record : PersistedMultipart}
    {up : BackendUpload} (staging : Staging bucket s w etags contents record up)
    (supply : Function.Injective w.supply) {i : Nat} (inside : i < etags.length) (body : Bytes)
    {w' : World} (same : w'.supply = w.supply) (issued : w'.issued = w.issued + 1)
    (row : FsStore.loadMultipart record.uploadId w'.master =
      .ok (some { record with parts := insertPart record.parts i w.fresh.1 }))
    (upload : w'.uploads[record.s3UploadId]? =
      some ⟨up.key, (i, w.fresh.1, body) :: up.parts.filter (fun p => p.1 ≠ i)⟩) :
    Staging bucket s w' (etags.set i (some w.fresh.1)) (Function.update contents i (some body))
      { record with parts := insertPart record.parts i w.fresh.1 }
      ⟨up.key, (i, w.fresh.1, body) :: up.parts.filter (fun p => p.1 ≠ i)⟩ where
  uploadId := staging.uploadId
  row := row
  place := staging.place
  upload := upload
  keys := by
    rw [keys_insertPart, List.nodup_cons]
    exact ⟨by simp, staging.keys.filter _⟩
  listed j := by
    rw [keys_insertPart, List.mem_cons, List.mem_filter, staging.listed]
    by_cases here : j = i
    · subst here
      simp [List.getElem?_set_self inside]
    · rw [List.getElem?_set_ne (Ne.symm here)]
      simp [here]
  part j etag found := by
    rw [lookup_insertPart]
    by_cases here : j = i
    · subst here
      rw [List.getElem?_set_self inside] at found
      obtain rfl := Option.some.inj (Option.some.inj found)
      exact ⟨if_pos rfl, body, Function.update_self .., List.mem_cons_self ..⟩
    · rw [List.getElem?_set_ne (Ne.symm here)] at found
      obtain ⟨listed, bytes, last, kept⟩ := staging.part j etag found
      refine ⟨(if_neg here).trans listed, bytes, (Function.update_of_ne here ..).trans last, ?_⟩
      exact List.mem_cons_of_mem _ (List.mem_filter.mpr ⟨kept, by simpa using here⟩)
  drawn p mem := by
    rw [same, issued]
    rcases List.mem_cons.mp mem with rfl | old
    · exact ⟨w.issued, Nat.lt_succ_self _, rfl⟩
    · obtain ⟨n, before, drew⟩ := staging.drawn p (List.mem_of_mem_filter old)
      exact ⟨n, before.trans (Nat.lt_succ_self _), drew⟩
  apart := by
    rw [List.map_cons, List.nodup_cons]
    refine ⟨fun again => ?_, staging.apart.sublist (List.filter_sublist.map _)⟩
    -- the id is new, and the ids of the parts before were drawn before
    obtain ⟨p, old, taken⟩ := List.mem_map.mp again
    obtain ⟨n, before, drew⟩ := staging.drawn p (List.mem_of_mem_filter old)
    exact absurd (supply (drew.trans taken)) before.ne

/-- The part of a multipart upload is kept by the backend under a new id. -/
theorem Receiving.accept_multipart {r : PartRequest} {body : Bytes}
    (receiving : Receiving bucket f s w contents) (accepted : r.accepted s = some body)
    (many : s.fileTotalParts ≠ 1) : ∃ w', (r.prog bucket f).runOn w = (.ok (), w') ∧
      Receiving bucket f s w' (Function.update contents r.partIndex (some body)) := by
  obtain ⟨etags, checksums, row, marks⟩ := receiving.row
  obtain ⟨record, up, staging⟩ := marks.multipart many
  obtain ⟨owner, inside, -, -⟩ := PartRequest.accepted_cases accepted
  have slot : r.partIndex < etags.length := inside.trans_eq marks.slots.symm
  have entered := @PartRequest.enters bucket f s w r body _ _ row accepted (do
    let _ ← FsEngine.ensureMultipart record.uploadId
    let etag ← S3.uploadPart bucket s.s3Key record.uploadId (FsEngine.asI32 (r.partIndex + 1)) body
    FsEngine.mergePart f r.partIndex (some record.uploadId) etag r.checksum s.ownerSub)
    (by rw [if_neg many, staging.uploadId]; rfl)
  rw [receiving.plan.number r.partIndex inside] at entered
  have named : record.bucket ≠ "" ∧ record.key ≠ "" := by
    rw [staging.place.1, staging.place.2]
    exact receiving.named
  -- the client's map is restored, the backend takes the part, and the rows take its id
  obtain ⟨v, restored⟩ : ∃ v : World, v =
    { w with states := w.states.insert record.uploadId record.restored } := ⟨_, rfl⟩
  have ensured : (FsEngine.ensureMultipart record.uploadId).runOn w = (.ok (), v) :=
    (run_ensureMultipart staging.row named).trans (by rw [restored])
  have put := @run_uploadPart bucket v s.s3Key record.uploadId record.restored up
    r.partIndex body (by rw [restored]; simp) staging.place (by rw [restored]; exact staging.upload)
  have fresh : v.fresh.1 = w.fresh.1 := by rw [restored]; rfl
  rw [fresh] at put
  obtain ⟨v', took⟩ : ∃ v', v' = v.tookPart record.uploadId record.restored.id record.restored up
    r.partIndex body := ⟨_, rfl⟩
  rw [← took] at put
  have master : v'.master = w.master := by rw [took, restored]; rfl
  have merged := @run_mergePart f v' _ (some record) _
    (row.symm ▸ congrArg (FsStore.getSession f) master) slot
    (by rintro _ ⟨⟩; rw [master]; exact staging.row) w.fresh.1 r.checksum
  refine ⟨_, entered.trans ((M.runOn_bind_of_ok ensured).trans
    ((M.runOn_bind_of_ok put).trans merged)), { receiving with
      supply := by rw [took, restored]; exact receiving.supply
      log := by rw [took, restored]; exact receiving.log
      uncommitted := ?_
      row := ⟨etags.set r.partIndex (some w.fresh.1), _,
        (FsStore.getSession_saveSession ..).trans (if_pos receiving.own), {
          slots := (List.length_set ..).trans marks.slots
          marked := marked_set slot marks.marked
          single := fun one => absurd one many
          multipart := fun _ => ⟨_, _, staging.accept receiving.supply slot body ?_ ?_ ?_ ?_⟩ }⟩ }⟩
  · refine (FsStore.getFile_saveSession ..).trans ((FsStore.getFile_saveMultipart ..).trans ?_)
    rw [master]
    exact receiving.uncommitted
  · rw [took, restored]
    rfl
  · rw [took, restored]
    rfl
  · exact (FsStore.loadMultipart_saveSession ..).trans
      ((FsStore.loadMultipart_saveMultipart ..).trans (if_pos rfl))
  · rw [took, restored]
    simp [World.tookPart, PersistedMultipart.restored]
    rfl

/-- **One request** is refused without a trace, or its bytes take the place of its part. -/
theorem Receiving.request (receiving : Receiving bucket f s w contents) (r : PartRequest) :
    (((r.prog bucket f).runOn w).1 = .ok () ↔ (r.accepted s).isSome) ∧
      Receiving bucket f s ((r.prog bucket f).runOn w).2
        (fun i => if r.partIndex = i then (r.accepted s).or (contents i) else contents i) := by
  cases accepted : r.accepted s with
  | none =>
    obtain ⟨etags, checksums, row, -⟩ := receiving.row
    obtain ⟨e, refused⟩ := @PartRequest.refused bucket _ _ _ _ _ _ row accepted
    rw [refused]
    refine ⟨by simp, ?_⟩
    simpa using receiving
  | some body =>
    obtain ⟨w', returned, next⟩ : ∃ w', (r.prog bucket f).runOn w = (.ok (), w') ∧
        Receiving bucket f s w' (Function.update contents r.partIndex (some body)) := by
      by_cases single : s.fileTotalParts = 1
      · exact receiving.accept_single accepted single
      · exact receiving.accept_multipart accepted single
    rw [returned]
    refine ⟨by simp, ?_⟩
    convert next using 1
    funext i
    by_cases same : i = r.partIndex
    · simp [same]
    · simp [same, Ne.symm same]

/-- **A run of requests** leaves the last accepted body of every part. -/
theorem Receiving.run {w' : World} {requests : List PartRequest}
    (opened : Receiving bucket f s w fun _ => none) (run : Receives bucket f s w requests w') :
    Receiving bucket f s w' (received s requests) := by
  -- on the last event of the run; a refused request leaves the contents as they are
  induction run with
  | start => exact opened
  | request r _ ih =>
    have next := (ih.request r).2
    convert next using 1
    funext i
    exact received_concat s _ r i
  | elsewhere _ other ih => exact ih.elsewhere other

end Steps

/-! ### The upload is opened -/

section Open

variable {bucket : String} {req : InitRequest} {owner : String} {w : World}

/-- The session that `init_upload` stores. -/
def InitRequest.session (req : InitRequest) (owner id : String) (uploadId : Option String)
    (createdAt : Int) : UploadSession :=
  ⟨id, req.fileSize, req.partSize, req.fileTotalParts, uploadId, "files/" ++ id, owner, createdAt,
    FsEngine.partSlots req.fileTotalParts, FsEngine.partSlots req.fileTotalParts⟩

theorem objectKey_ne_empty (id : String) : "files/" ++ id ≠ "" := by
  simp [String.append_eq_empty_iff]

theorem blank_slots (n i : Nat) :
    (∃ etag : String, (FsEngine.partSlots n)[i]? = some (some etag)) ↔
      (none : Option Bytes).isSome = true := by
  simp [FsEngine.partSlots, List.getElem?_replicate]

theorem run_uuid (w : World) :
    M.runOn (Prog.perform Call.uuid) w = (.ok w.fresh.1, w.fresh.2) := rfl

theorem Receiving.open_single (accepted : req.validate = .ok ()) (named : bucket ≠ "")
    (supply : Function.Injective w.supply) (log : ∃ entries, Wal.Log w.wal entries)
    (fresh : FsStore.getFile w.fresh.1 w.master = .ok none) (single : req.fileTotalParts = 1) :
    ∃ w', (FsEngine.initUpload bucket req owner).runOn w = (.ok w.fresh.1, w') ∧
      FsStore.getSession w.fresh.1 w'.master =
        .ok (some (req.session owner w.fresh.1 none w.clock)) ∧
      Receiving bucket w.fresh.1 (req.session owner w.fresh.1 none w.clock) w' fun _ => none := by
  obtain ⟨s, opened⟩ : ∃ s, s = req.session owner w.fresh.1 none w.clock := ⟨_, rfl⟩
  have run : (FsEngine.initUpload bucket req owner).runOn w =
      (.ok w.fresh.1, { w.fresh.2 with master := FsStore.saveSession s w.master }) := by
    rw [FsEngine.initUpload_eq, M.runOn_lift_bind accepted, M.runOn_bind_of_ok (run_uuid w),
      if_pos single, opened]
    rfl
  have own : s.id = w.fresh.1 := by rw [opened]; rfl
  have row : FsStore.getSession w.fresh.1 (FsStore.saveSession s w.master) = .ok (some s) :=
    (FsStore.getSession_saveSession ..).trans (if_pos own)
  rw [← opened]
  refine ⟨_, run, row, {
    supply := supply
    log := log
    own := own
    named := ⟨named, by rw [opened]; exact objectKey_ne_empty _⟩
    plan := .of_fits ⟨by rw [opened]; rfl, by rw [opened]; rfl, by rw [opened]; rfl⟩
      (InitRequest.fits_of_validate accepted)
    uncommitted := (FsStore.getFile_saveSession ..).trans fresh
    row := ⟨s.etags, s.checksums, row, {
      slots := by rw [opened]; exact List.length_replicate
      marked := fun i => by rw [opened]; exact blank_slots _ i
      single := fun _ body none => nomatch none
      multipart := fun many => absurd (by rw [opened]; exact single) many }⟩ }⟩

/-- The ids of a multipart upload: in the client's map, and in the backend. -/
def World.uploadId (w : World) : String := "ostore-" ++ w.supply (w.issued + 2)

def World.backendId (w : World) : String := w.supply (w.issued + 1)

/-- The world in which a multipart upload has its ids, and no row yet. -/
def World.drewUpload (w : World) (bucket key : String) : World :=
  { w with
    issued := w.issued + 3
    uploads := w.uploads.insert w.backendId ⟨key, []⟩
    states := w.states.insert w.uploadId ⟨bucket, key, w.backendId, []⟩ }

theorem run_backendUploadId {u : String} {state : MultipartState} (found : w.states[u]? = some state) :
    (S3.backendUploadId u).runOn w = (.ok (some state.id), w) := by
  have looked : (onS3 (.getState u)).runOn w = (.ok (some state), w) :=
    Prod.ext (congrArg Except.ok found) rfl
  rw [S3.backendUploadId, M.runOn_bind_of_ok looked]
  rfl

/-- The record that `init_upload` keeps of a multipart upload. -/
def World.openedRecord (w : World) (bucket key : String) : PersistedMultipart :=
  ⟨w.uploadId, bucket, key, w.backendId, [], w.clock⟩

theorem Receiving.open_multipart (accepted : req.validate = .ok ()) (named : bucket ≠ "")
    (supply : Function.Injective w.supply) (log : ∃ entries, Wal.Log w.wal entries)
    (fresh : FsStore.getFile w.fresh.1 w.master = .ok none) (many : req.fileTotalParts ≠ 1) :
    ∃ w', (FsEngine.initUpload bucket req owner).runOn w = (.ok w.fresh.1, w') ∧
      FsStore.getSession w.fresh.1 w'.master =
        .ok (some (req.session owner w.fresh.1 (some w.uploadId) w.clock)) ∧
      Receiving bucket w.fresh.1 (req.session owner w.fresh.1 (some w.uploadId) w.clock) w'
        fun _ => none := by
  obtain ⟨s, opened⟩ : ∃ s, s = req.session owner w.fresh.1 (some w.uploadId) w.clock := ⟨_, rfl⟩
  obtain ⟨key, keyed⟩ : ∃ key, key = "files/" ++ w.fresh.1 := ⟨_, rfl⟩
  obtain ⟨record, kept⟩ : ∃ record, record = w.openedRecord bucket key := ⟨_, rfl⟩
  obtain ⟨v, drew⟩ : ∃ v, v = w.drewUpload bucket key := ⟨_, rfl⟩
  -- the client's map knows the new upload, so its id at the backend is found
  have known : v.states[w.uploadId]? = some ⟨bucket, key, w.backendId, []⟩ := by
    rw [drew]
    simp [World.drewUpload]
  have run : (FsEngine.initUpload bucket req owner).runOn w = (.ok w.fresh.1,
      { v with master := FsStore.saveMultipart record (FsStore.saveSession s v.master) }) := by
    have entered : (FsEngine.initUpload bucket req owner).runOn w =
        (FsEngine.openUpload bucket req owner w.fresh.1 (some w.uploadId)).runOn v := by
      rw [FsEngine.initUpload_eq, M.runOn_lift_bind accepted, M.runOn_bind_of_ok (run_uuid w),
        if_neg many, drew, keyed]
      rfl
    have clock : M.runOn (Prog.perform Call.now) v = (.ok w.clock, v) := by
      rw [drew]
      rfl
    have saved : (onStore .master (.saveSession (req.session owner w.fresh.1 (some w.uploadId)
        w.clock))).runOn v = (.ok (), { v with master := FsStore.saveSession s v.master }) := by
      rw [opened]
      rfl
    have asked := run_backendUploadId (w := { v with master := FsStore.saveSession s v.master }) known
    rw [entered, FsEngine.openUpload, M.runOn_bind_of_ok clock]
    simp only [InitRequest.session] at saved
    rw [M.runOn_bind_of_ok saved]
    simp only
    rw [M.runOn_bind_of_ok asked, kept, World.openedRecord, keyed]
    rfl
  have own : s.id = w.fresh.1 := by
    rw [opened]
    rfl
  have row : FsStore.getSession w.fresh.1
      (FsStore.saveMultipart record (FsStore.saveSession s v.master)) = .ok (some s) :=
    (FsStore.getSession_saveMultipart ..).trans
      ((FsStore.getSession_saveSession ..).trans (if_pos own))
  have master : v.master = w.master := by
    rw [drew]
    rfl
  rw [← opened]
  refine ⟨_, run, row, {
    supply := by rw [drew]; exact supply
    log := by rw [drew]; exact log
    own := own
    named := ⟨named, by rw [opened]; exact objectKey_ne_empty _⟩
    plan := .of_fits ⟨by rw [opened]; rfl, by rw [opened]; rfl, by rw [opened]; rfl⟩
      (InitRequest.fits_of_validate accepted)
    uncommitted := (FsStore.getFile_saveMultipart ..).trans
      ((FsStore.getFile_saveSession ..).trans (by rw [master]; exact fresh))
    row := ⟨s.etags, s.checksums, row, {
      slots := by rw [opened]; exact List.length_replicate
      marked := fun i => by rw [opened]; exact blank_slots _ i
      single := fun one => absurd (by rw [opened] at one; exact one) many
      multipart := fun _ => ⟨record, ⟨key, []⟩, ?_⟩ }⟩ }⟩
  exact {
    uploadId := by rw [opened, kept]; rfl
    row := (FsStore.loadMultipart_saveMultipart ..).trans (if_pos rfl)
    place := by rw [opened, kept]; exact ⟨rfl, keyed⟩
    upload := by rw [kept, drew]; simp [World.openedRecord, World.drewUpload]
    keys := by rw [kept]; exact List.nodup_nil
    listed := fun i => by
      rw [kept, opened]
      refine ⟨fun bad => (nomatch bad), fun some => ?_⟩
      exact absurd ((blank_slots _ i).mp some) (by simp)
    part := fun i etag found => absurd ((blank_slots _ i).mp ⟨etag, by rw [opened] at found; exact found⟩)
      (by simp)
    drawn := by simp
    apart := List.nodup_nil }

theorem Receiving.opens (accepted : req.validate = .ok ()) (named : bucket ≠ "")
    (supply : Function.Injective w.supply) (log : ∃ entries, Wal.Log w.wal entries)
    (fresh : FsStore.getFile w.fresh.1 w.master = .ok none) : ∃ uploadId w',
      (FsEngine.initUpload bucket req owner).runOn w = (.ok w.fresh.1, w') ∧
      FsStore.getSession w.fresh.1 w'.master =
        .ok (some (req.session owner w.fresh.1 uploadId w.clock)) ∧
      Receiving bucket w.fresh.1 (req.session owner w.fresh.1 uploadId w.clock) w' fun _ => none := by
  by_cases single : req.fileTotalParts = 1
  · exact ⟨_, Receiving.open_single accepted named supply log fresh single⟩
  · exact ⟨_, Receiving.open_multipart accepted named supply log fresh single⟩

end Open

/-! ### The upload is completed -/

theorem find_of_nodup {α β : Type} [DecidableEq β] {key : α → β} {l : List α} {x : α}
    (apart : (l.map key).Nodup) (mem : x ∈ l) : l.find? (fun y => key y = key x) = some x := by
  induction l with
  | nil => cases mem
  | cons y l ih =>
    obtain ⟨new, rest⟩ := List.nodup_cons.mp apart
    rcases List.mem_cons.mp mem with rfl | later
    · simp
    · have other : key y ≠ key x := fun same => new (same ▸ List.mem_map_of_mem later)
      rw [List.find?_cons_of_neg (by simpa using other)]
      exact ih rest later

section Complete

variable {bucket f : String} {s : UploadSession} {w : World} {contents : Nat → Option Bytes}

/-- The bytes of all parts in order. -/
def assembled (s : UploadSession) (contents : Nat → Option Bytes) : Bytes :=
  (List.range s.fileTotalParts).flatMap fun i => (contents i).getD []

theorem length_assembled (plan : UploadPlan s)
    (all : ∀ i < s.fileTotalParts, ∃ body, contents i = some body ∧
      body.length = FsEngine.expectedSize s i) : (assembled s contents).length = s.fileSize := by
  rw [assembled, List.length_flatMap, ← plan.total]
  refine congrArg List.sum (List.map_congr_left fun i mem => ?_)
  obtain ⟨body, last, size⟩ := all i (List.mem_range.mp mem)
  rw [last]
  exact size

theorem Marks.any_isNone {etags : List (Option String)} (marks : Marks bucket s w contents etags) :
    etags.any Option.isNone = false ↔ ∀ i < s.fileTotalParts, (contents i).isSome := by
  rw [← marks.slots, List.any_eq_false]
  simp only [← marks.marked]
  constructor
  · intro full i inside
    obtain ⟨etag, found⟩ := Option.ne_none_iff_exists'.mp
      (by simpa using full _ (List.getElem_mem inside))
    exact ⟨etag, (List.getElem?_eq_getElem inside).trans (congrArg some found)⟩
  · intro full slot mem
    obtain ⟨i, inside, rfl⟩ := List.mem_iff_getElem.mp mem
    obtain ⟨etag, found⟩ := full i inside
    rw [List.getElem?_eq_getElem inside] at found
    rw [Option.some.inj found]
    simp

/-- With all parts there the record and the session agree. -/
theorem Staging.staged {etags checksums : List (Option String)} {record : PersistedMultipart}
    {up : BackendUpload} (staging : Staging bucket s w etags contents record up)
    (named : bucket ≠ "" ∧ s.s3Key ≠ "") (full : etags.any Option.isNone = false) :
    Staged bucket (s.marked etags checksums) w.master record where
  uploadId := staging.uploadId
  row := staging.row
  place := staging.place
  named := named
  part i etag found := (staging.part i etag found).1
  count := by
    -- one entry for each slot: the parts of the record are the indices of the etags
    have all : ∀ i, i ∈ record.parts.map (·.1) ↔ i ∈ List.range etags.length := by
      intro i
      rw [staging.listed, List.mem_range]
      constructor
      · rintro ⟨etag, found⟩
        exact (List.getElem?_eq_some_iff.mp found).1
      · intro inside
        have some := List.any_eq_false.mp full _ (List.getElem_mem inside)
        obtain ⟨etag, found⟩ := Option.ne_none_iff_exists'.mp (by simpa using some)
        exact ⟨etag, (List.getElem?_eq_getElem inside).trans (congrArg Option.some found)⟩
    have perm := (List.perm_ext_iff_of_nodup staging.keys List.nodup_range).mpr all
    simpa [UploadSession.marked] using perm.length_eq

/-- The backend finds each part under its number and its etag. -/
theorem Staging.body {etags : List (Option String)} {record : PersistedMultipart}
    {up : BackendUpload} (staging : Staging bucket s w etags contents record up) {i : Nat}
    {etag : String} (found : etags[i]? = some (some etag)) : up.body i etag = contents i := by
  obtain ⟨-, body, last, kept⟩ := staging.part i etag found
  have unique : up.parts.find? (fun p => p.1 = i ∧ p.2.1 = etag) = some (i, etag, body) := by
    -- content ids are apart, so the number says nothing more
    have named := find_of_nodup (β := String) staging.apart kept
    cases here : up.parts.find? (fun p => p.1 = i ∧ p.2.1 = etag) with
    | none =>
      have missed := List.find?_eq_none.mp here _ kept
      simp at missed
    | some p =>
      have same : p.1 = i ∧ p.2.1 = etag := by simpa using List.find?_some here
      have again := find_of_nodup (β := String) staging.apart (List.mem_of_find?_eq_some here)
      rw [same.2] at again
      exact again.symm.trans named
  rw [BackendUpload.body, unique, last]
  rfl

/-- The backend puts the parts together in the order of their etags. -/
theorem Staging.joined {etags : List (Option String)} {record : PersistedMultipart}
    {up : BackendUpload} (staging : Staging bucket s w etags contents record up)
    (slots : etags.length = s.fileTotalParts) (full : etags.any Option.isNone = false) :
    up.join 0 (etags.filterMap id) = some (assembled s contents) := by
  have etags_eq := etags_of_parts (s := s.marked etags []) full
  change etags = (etags.filterMap id).map some at etags_eq
  generalize etags.filterMap id = ids at etags_eq
  subst etags_eq
  rw [List.length_map] at slots
  -- what is left of the ids joins what is left of the slots
  have from_here : ∀ (rest : List String) (i : Nat),
      (∀ j etag, rest[j]? = some etag → ids[i + j]? = some etag) →
      up.join i rest = some ((List.range' i rest.length).flatMap fun i => (contents i).getD []) := by
    intro rest
    induction rest with
    | nil => exact fun _ _ => rfl
    | cons etag rest ih =>
      intro i suffix
      have marked : (ids.map some)[i]? = some (some etag) := by
        rw [List.getElem?_map, ← Nat.add_zero i, suffix 0 etag rfl]
        rfl
      obtain ⟨-, body, last, -⟩ := staging.part i etag marked
      have here := (staging.body marked).trans last
      have later := ih (i + 1) fun j etag' found => by
        rw [Nat.add_right_comm, Nat.add_assoc]
        exact suffix (j + 1) etag' found
      simp [BackendUpload.join, here, later, List.range'_succ, last]
  rw [from_here ids 0 fun j etag found => by rwa [Nat.zero_add], assembled, slots,
    List.range_eq_range']

/-- The record that `complete_upload` writes. -/
def CompleteRequest.record (req : CompleteRequest) (f : String) (s : UploadSession)
    (createdAt : Int) : FileRecord :=
  ⟨f, req.name, req.mimetype, s.fileSize, s.s3Key, s.ownerSub, createdAt⟩

/-- A commit writes the record and drops the session; it reaches no object. -/
theorem run_commit {session : UploadSession}
    (row : FsStore.getSession f w.master = .ok (some session))
    (log : ∃ entries, Wal.Log w.wal entries) (req : CompleteRequest) :
    ∃ feed, (FsEngine.commit f req s).runOn w = (.ok (), { w with
      master := FsStore.deleteSession f (some session)
        (FsStore.saveFile (req.record f s w.clock) w.master)
      wal := feed }) := by
  obtain ⟨entries, log⟩ := log
  obtain ⟨rec, named⟩ : ∃ rec, rec = req.record f s w.clock := ⟨_, rfl⟩
  obtain ⟨v, saved⟩ : ∃ v : World, v = { w with master := FsStore.saveFile rec w.master } :=
    ⟨_, rfl⟩
  have log' : Wal.Log v.wal entries := by rw [saved]; exact log
  obtain ⟨feed, -, announced⟩ := announce_passes log' (.fileCreate rec)
  have deleted := @deleteSession_passes f { v with wal := feed } (some session)
    (by rw [saved]; exact (FsStore.getSession_saveFile ..).trans row)
  have save : (onStore .master (.saveFile rec)).runOn w = (.ok (), v) := by
    rw [saved]
    rfl
  have clock : M.runOn (Prog.perform Call.now) w = (.ok w.clock, w) := rfl
  refine ⟨feed, ?_⟩
  rw [FsEngine.commit, M.runOn_bind_of_ok clock]
  change M.runOn (onStore .master (.saveFile (req.record f s w.clock)) >>= fun _ =>
    FsEngine.finish f (req.record f s w.clock)) w = _
  rw [← named, M.runOn_bind_of_ok save, FsEngine.finish, M.runOn_bind_of_ok announced.result]
  refine deleted.result.trans ?_
  rw [saved]

/-- Assembling leaves the bytes of all parts as the object. -/
theorem Marks.run_assemble {etags checksums : List (Option String)}
    (marks : Marks bucket s w contents etags) (named : bucket ≠ "" ∧ s.s3Key ≠ "")
    (full : etags.any Option.isNone = false) :
    ∃ w', (FsEngine.assemble bucket (s.marked etags checksums)).runOn w = (.ok (), w') ∧
      (∀ g, FsStore.getSession g w'.master = FsStore.getSession g w.master) ∧ w'.wal = w.wal ∧
      ∃ o, w'.objects[s.s3Key]? = some o ∧ o.body = assembled s contents := by
  by_cases single : s.fileTotalParts = 1
  · refine ⟨w, by rw [FsEngine.assemble, if_pos (show (s.marked etags checksums).fileTotalParts = 1
      from single)]; rfl, fun _ => rfl, rfl, ?_⟩
    obtain ⟨body, last⟩ := Option.isSome_iff_exists.mp
      (marks.any_isNone.mp full 0 (by omega))
    obtain ⟨o, object, same⟩ := marks.single single body last
    refine ⟨o, object, ?_⟩
    simp [assembled, single, last, same]
  · obtain ⟨record, up, staging⟩ := marks.multipart single
    have staged := @Staging.staged _ _ _ _ _ checksums _ _ staging named full
    have joined := staging.joined marks.slots full
    obtain ⟨v, asked⟩ : ∃ v : World, v = { w with
      states := w.states.insert record.uploadId record.restored } := ⟨_, rfl⟩
    obtain ⟨v', answer, master, wal, objects⟩ : ∃ v', (S3Call.completeMultipart s.s3Key
        record.s3UploadId (etags.filterMap id)).exec
          { v with states := v.states.erase record.uploadId } = (.ok (), v') ∧
        v'.master = w.master ∧ v'.wal = w.wal ∧
        v'.objects = w.objects.insert s.s3Key ⟨assembled s contents, w.clock⟩ := by
      rw [asked]
      simp only [S3Call.exec, staging.upload, joined]
      exact ⟨_, rfl, rfl, rfl, rfl⟩
    -- the map is restored from the record before the backend joins the parts
    have restored := (restore_passes staged).result
    rw [← asked] at restored
    have completed : (S3.completeMultipartUpload bucket s.s3Key record.uploadId
        (etags.filterMap id)).runOn v = (.ok (), v') :=
      (completeMultipart_passes (s := s.marked etags checksums) (w := v)
        (by rw [asked]; exact staged) full (by rw [asked]; simp) answer).result
    refine ⟨{ v' with master := FsStore.deleteMultipart record.uploadId v'.master }, ?_,
      fun g => ?_, wal, ⟨⟨assembled s contents, w.clock⟩, by simp [objects], rfl⟩⟩
    · unfold FsEngine.assemble
      rw [if_neg (show ¬(s.marked etags checksums).fileTotalParts = 1 from single), staged.uploadId]
      simp only
      rw [M.runOn_bind_of_ok restored]
      change M.runOn (S3.completeMultipartUpload bucket s.s3Key record.uploadId
        (etags.filterMap id) >>= fun _ => onStore .master (.deleteMultipart record.uploadId)) v = _
      rw [M.runOn_bind_of_ok completed]
      rfl
    · exact (FsStore.getSession_deleteMultipart ..).trans (by rw [master])

/-- The file is committed, and its object has the given bytes. -/
structure StoredAs (f : String) (rec : FileRecord) (body : Bytes) (w : World) : Prop where
  record : FsStore.getFile f w.master = .ok (some rec)
  closed : FsStore.getSession f w.master = .ok none
  object : ∃ o, w.objects[rec.s3Key]? = some o ∧ o.body = body
  size : body.length = rec.size

theorem run_getFile (w : World) (f : String) :
    (onStore .master (.getFile f)).runOn w = (FsStore.getFile f w.master, w) := rfl

/-- What the owner's completion comes to, up to the check for missing parts. -/
theorem Receiving.completing (receiving : Receiving bucket f s w contents)
    {etags checksums : List (Option String)}
    (row : FsStore.getSession f w.master = .ok (some (s.marked etags checksums)))
    (req : CompleteRequest) : (FsEngine.completeLocked bucket f req s.ownerSub).runOn w =
      (if etags.any Option.isNone then Prog.fail (.fs (.badRequest "not all parts uploaded"))
        else do
          let _ ← FsEngine.assemble bucket (s.marked etags checksums)
          FsEngine.commit f req (s.marked etags checksums) : M Unit).runOn w := by
  rw [FsEngine.completeLocked, M.runOn_bind_of_ok ((run_getFile w f).trans
    (by rw [receiving.uncommitted])), M.runOn_bind_of_ok ((run_getSession w f).trans (by rw [row]))]
  change M.runOn (if s.ownerSub ≠ s.ownerSub then _ else _ : M Unit) w = _
  rw [if_neg (not_not.mpr rfl)]
  rfl

/-- **The completion** commits an upload that has all its parts, and refuses any other. -/
theorem Receiving.complete (receiving : Receiving bucket f s w contents)
    (sizes : ∀ i body, contents i = some body → body.length = FsEngine.expectedSize s i)
    (req : CompleteRequest) :
    ((∀ i < s.fileTotalParts, (contents i).isSome) →
      ∃ w' createdAt, (FsEngine.completeUpload bucket f req s.ownerSub).runOn w = (.ok (), w') ∧
        StoredAs f (req.record f s createdAt) (assembled s contents) w') ∧
    ((∃ i < s.fileTotalParts, contents i = none) →
      (FsEngine.completeUpload bucket f req s.ownerSub).runOn w =
        (.error (.fs (.badRequest "not all parts uploaded")), w)) := by
  obtain ⟨etags, checksums, row, marks⟩ := receiving.row
  obtain ⟨v, locked⟩ : ∃ v : World, v = { w with locks := f :: w.locks } := ⟨_, rfl⟩
  have marks' : Marks bucket s v contents etags := by
    rw [locked]
    refine { marks with multipart := fun many => ?_ }
    obtain ⟨record, up, staging⟩ := marks.multipart many
    exact ⟨record, up, { staging with }⟩
  have inside : Receiving bucket f s v contents := by
    rw [locked] at marks' ⊢
    exact { receiving with row := ⟨etags, checksums, row, marks'⟩ }
  have row' : FsStore.getSession f v.master = .ok (some (s.marked etags checksums)) := by
    rw [locked]
    exact row
  have completing := inside.completing row' req
  rw [FsEngine.completeUpload_eq, M.runOn_withSession, ← locked, completing]
  constructor
  · intro all
    have full := marks.any_isNone.mpr all
    obtain ⟨v₁, assembles, sessions, wal, o, object, same⟩ :=
      @Marks.run_assemble _ _ _ _ _ checksums marks' receiving.named full
    obtain ⟨feed, commits⟩ := run_commit (s := s.marked etags checksums) ((sessions f).trans row')
      (by rw [wal]; exact inside.log) req
    rw [if_neg (by rw [full]; exact Bool.false_ne_true), M.runOn_bind_of_ok assembles, commits]
    refine ⟨_, v₁.clock, rfl, ?_⟩
    exact {
      record := (FsStore.getFile_deleteSession ..).trans
        ((FsStore.getFile_saveFile ..).trans (if_pos rfl))
      closed := (FsStore.getSession_deleteSession ..).trans (if_pos rfl)
      object := ⟨o, object, same⟩
      size := length_assembled receiving.plan fun i before => by
        obtain ⟨body, last⟩ := Option.isSome_iff_exists.mp (all i before)
        exact ⟨body, last, sizes i body last⟩ }
  · rintro ⟨i, before, missing⟩
    have open' : etags.any Option.isNone = true := by
      rw [← Bool.not_eq_false]
      intro full
      have here := marks.any_isNone.mp full i before
      rw [missing] at here
      cases here
    rw [if_pos open', locked]
    simp

end Complete

end RustApi
