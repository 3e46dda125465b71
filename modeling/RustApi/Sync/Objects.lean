import RustApi.Lib.Path
import RustApi.Sync.Pointer

/-!
# The replica object gateway

`GET /sync/db/{object}`: the key that a requested tail resolves to, and the headers that the
object is served with. The object store builds a key from a text segment by segment; how it
encodes a segment is a parameter.

## Main result

`object_confined_iff`: every object that is served lies below the prefix of the subject that
asks, and no two requests share one. Its caching follows the requested name exactly when the
encoding changes nothing in the configured prefix, or the name is not one that changes.
-/

namespace RustApi.Sync

open Lib

/-! ### The gateway -/

def Manager.resolveObject (m : Manager) (sub tail : String) : Except Error String :=
  if (Text.split '/' tail).any fun seg => decide (seg = "") || decide (seg = "..") then
    .error (.fs (.badRequest "invalid object path"))
  else .ok (m.userPrefix sub ++ "/" ++ tail)

def manifestObject : String := "manifest.json"

def ownershipObject : String := "ownership.json"

def probeCanaryObject : String := "probe/canary"

def mutableObjects : List String := [manifestObject, ownershipObject, probeCanaryObject]

def jsonObjects : List String := [manifestObject, ownershipObject]

/-- What the object store knows of an object that it is about to stream. -/
structure GetResult where
  eTag : Option String
  start : Nat
  stop : Nat

inductive StoreError where
  | notFound
  | other (text : String)

/-- The gate in front of the store: none, or one with or without a free slot. -/
inductive Permit where
  | disabled
  | granted
  | refused
  deriving DecidableEq, Repr

structure ObjectHeaders where
  cacheControl : String
  contentType : String
  deriving DecidableEq, Repr

inductive ObjectResponse where
  | notFound
  | notModified (etag : Option String) (headers : ObjectHeaders)
  | ok (etag : Option String) (headers : ObjectHeaders) (size : Nat)
  deriving DecidableEq, Repr

def ObjectResponse.headers : ObjectResponse → Option ObjectHeaders
  | .notFound => none
  | .notModified _ headers => some headers
  | .ok _ headers _ => some headers

def objectCacheHeaders (isMutable isJson : Bool) : ObjectHeaders where
  cacheControl := if isMutable then "no-cache" else "public, max-age=31536000, immutable"
  contentType := if isJson then "application/json" else "application/octet-stream"

section Gateway

-- how the store encodes a segment of a key
variable (encode : String → String)

/-- `is_one_object_of`. The prefix is a key already, and is read as text once more. -/
def isOneObjectOf (path replicaPrefix : String) (names : List String) : Bool :=
  names.any fun name => decide (path = Path.ofText encode (replicaPrefix ++ "/" ++ name))

def isMutableObjectKey (path replicaPrefix : String) : Bool :=
  isOneObjectOf encode path replicaPrefix mutableObjects

def isJsonObjectKey (path replicaPrefix : String) : Bool :=
  isOneObjectOf encode path replicaPrefix jsonObjects

/-- `object_handler`, in front of a store that answers `get`. -/
def objectHandler (m : Manager) (sub tail : String) (permit : Permit)
    (get : String → Except StoreError GetResult) (ifNoneMatch : Option String) :
    Except Error ObjectResponse := do
  let key ← m.resolveObject sub tail
  let objectPath := Path.ofText encode key
  let replicaPrefix := Path.ofText encode (m.userPrefix sub)
  let isMutable := isMutableObjectKey encode objectPath replicaPrefix
  let isJson := isJsonObjectKey encode objectPath replicaPrefix
  if permit = .refused then .error (.fs .tooManyRequests)
  else
    match get objectPath with
    | .error .notFound => .ok .notFound
    | .error (.other text) => .error (.fs (.internal text))
    | .ok out =>
      if (ifNoneMatch.bind toStr).any fun header => out.eTag.any (etagMatches header) then
        .ok (.notModified out.eTag (objectCacheHeaders isMutable isJson))
      else .ok (.ok out.eTag (objectCacheHeaders isMutable isJson) (out.stop - out.start))

/-- The digests of the subjects are not empty, and no two are the same. -/
structure Manager.Digests (m : Manager) (subjects : Set String) : Prop where
  inj : Set.InjOn m.digest subjects
  given : ∀ sub ∈ subjects, m.digest sub ≠ []

/-- The object of a request is the requester's, no other request reaches it, and it is
    revalidated when its name says so. -/
structure Confined (m : Manager) (subjects : Set String) (sub tail key : String) : Prop where
  under : ∃ rest, rest ≠ "" ∧
    Path.ofText encode key = Path.ofText encode (m.userPrefix sub) ++ "/" ++ rest
  apart : ∀ sub' ∈ subjects, ∀ tail' key', m.resolveObject sub' tail' = .ok key' →
    Path.ofText encode key' = Path.ofText encode key → sub' = sub ∧ tail' = tail
  revalidated : ∀ permit get ifNoneMatch response headers,
    objectHandler encode m sub tail permit get ifNoneMatch = .ok response →
      response.headers = some headers →
        (headers.cacheControl = "no-cache" ↔ tail ∈ mutableObjects)

end Gateway

/-! ### Segments of a request -/

theorem Manager.safeSub_alphanum (m : Manager) (sub : String) :
    (m.safeSub sub).toList.all Char.isAlphanum = true := by
  have digit : ∀ n, (Adapter.hexDigit n).isAlphanum = true := by
    intro n
    by_cases lt : n < 16
    · have all : ∀ n : Fin 16, (Adapter.hexDigit n.val).isAlphanum = true := by decide
      exact all ⟨n, lt⟩
    · have beyond : "0123456789abcdef".toList[n]? = none :=
        List.getElem?_eq_none (by simpa using lt)
      rw [Adapter.hexDigit, List.getD_eq_getElem?_getD, beyond]
      rfl
  simp only [safeSub, String.toList_ofList, List.all_flatMap, List.all_eq_true]
  intro b _
  simp [digit]

theorem free_of_alphanum {seg : String} (alphanum : seg.toList.all Char.isAlphanum = true) :
    Text.Free '/' seg := by
  intro slash
  exact absurd (List.all_eq_true.mp alphanum '/' slash) (by decide)

section Subjects

variable {m : Manager} {subjects : Set String}

theorem Manager.Digests.safeSub_ne_empty (digests : m.Digests subjects) {sub : String} (subject : sub ∈ subjects) :
    m.safeSub sub ≠ "" := by
  intro empty
  have chars := congrArg String.toList empty
  rw [safeSub, String.toList_ofList] at chars
  cases bytes : m.digest sub with
  | nil => exact digests.given sub subject bytes
  | cons b l => simp [bytes] at chars

theorem Manager.Digests.safeSub_inj (digests : m.Digests subjects) {sub sub' : String} (subject : sub ∈ subjects)
    (subject' : sub' ∈ subjects) (same : m.safeSub sub = m.safeSub sub') : sub = sub' :=
  digests.inj subject subject' (Adapter.hexBytes_inj (String.ofList_inj.mp same))

theorem Manager.Digests.segments_userPrefix (digests : m.Digests subjects) {sub : String} (subject : sub ∈ subjects) :
    Path.segments (m.userPrefix sub) = Path.segments m.dbPrefix ++ ["u", m.safeSub sub] := by
  have joined : m.userPrefix sub =
      Text.trimMatches '/' m.dbPrefix ++ "/" ++ ("u" ++ "/" ++ m.safeSub sub) := by
    rw [userPrefix, ← String.toList_inj]
    simp
  rw [joined, Path.segments_sep, Path.segments_sep, Path.segments_trimMatches,
    Path.segments_of_free (digests.safeSub_ne_empty subject)
      (free_of_alphanum (m.safeSub_alphanum sub))]
  rfl

end Subjects

/-- The segments of an accepted tail are all there. -/
theorem Manager.resolveObject_ok {m : Manager} {sub tail key : String}
    (accepted : m.resolveObject sub tail = .ok key) :
    key = m.userPrefix sub ++ "/" ++ tail ∧ Path.segments tail = Text.split '/' tail := by
  unfold resolveObject at accepted
  split at accepted
  next => cases accepted
  next clean =>
    refine ⟨(Except.ok.inj accepted).symm, ?_⟩
    rw [Path.segments, List.filter_eq_self]
    intro seg mem
    rw [Bool.not_eq_true, List.any_eq_false] at clean
    have fine := clean seg mem
    simp only [Bool.or_eq_true, decide_eq_true_eq, not_or] at fine
    simpa using fine.1

/-- A tail is determined by its segments. -/
theorem split_inj {s t : String} (same : Text.split '/' s = Text.split '/' t) : s = t := by
  rw [← Text.intercalate_split '/' s, same, Text.intercalate_split]

/-- The names that change are tails that are accepted. -/
theorem segments_of_mutable {name : String} (mem : name ∈ mutableObjects) :
    Path.segments name = Text.split '/' name := by
  have all : ∀ name ∈ mutableObjects, Path.segments name = Text.split '/' name := by decide
  exact all name mem

/-! ### What the object of a request is -/

section Confinement

variable {encode : String → String} {m : Manager} {subjects : Set String}

/-- The encoding keeps letters and digits. -/
def KeepsAlphanum (encode : String → String) : Prop :=
  ∀ seg : String, seg.toList.all Char.isAlphanum = true → encode seg = seg

/-- The object is one of the names when the requested tail is, provided that the encoding
    changes nothing in the configured prefix. -/
theorem isOneObjectOf_iff (enc : Path.Encodes encode) (keeps : KeepsAlphanum encode)
    (digests : m.Digests subjects) {sub tail key : String} (subject : sub ∈ subjects)
    (accepted : m.resolveObject sub tail = .ok key) {names : List String}
    (whole : ∀ name ∈ names, Path.segments name = Text.split '/' name) :
    isOneObjectOf encode (Path.ofText encode key) (Path.ofText encode (m.userPrefix sub)) names =
        true ↔
      (∀ seg ∈ Path.segments m.dbPrefix, encode seg = seg) ∧ tail ∈ names := by
  obtain ⟨rfl, segments⟩ := Manager.resolveObject_ok accepted
  have configured : (∀ seg ∈ Path.segments (m.userPrefix sub), encode seg = seg) ↔
      ∀ seg ∈ Path.segments m.dbPrefix, encode seg = seg := by
    rw [digests.segments_userPrefix subject]
    simp [or_imp, forall_and, keeps "u" (by decide), keeps _ (m.safeSub_alphanum sub)]
  unfold isOneObjectOf
  simp only [List.any_eq_true, decide_eq_true_eq, enc.ofText_reread_iff, configured]
  constructor
  · rintro ⟨name, mem, stable, same⟩
    rw [segments, whole name mem] at same
    exact ⟨stable, split_inj same ▸ mem⟩
  · rintro ⟨stable, mem⟩
    exact ⟨tail, mem, stable, rfl⟩

/-- The served key continues the key of the prefix. -/
theorem served_under (digests : m.Digests subjects) {sub tail key : String}
    (subject : sub ∈ subjects) (accepted : m.resolveObject sub tail = .ok key)
    (enc : Path.Encodes encode) :
    ∃ rest, rest ≠ "" ∧
      Path.ofText encode key = Path.ofText encode (m.userPrefix sub) ++ "/" ++ rest := by
  obtain ⟨rfl, segments⟩ := Manager.resolveObject_ok accepted
  have tailGiven : Path.segments tail ≠ [] := by
    rw [segments]
    exact Text.split_ne_nil '/' tail
  have prefixGiven : Path.segments (m.userPrefix sub) ≠ [] := by
    rw [digests.segments_userPrefix subject]
    simp
  refine ⟨Path.ofText encode tail, fun empty => ?_, Path.ofText_sep prefixGiven tailGiven⟩
  have none := congrArg Path.segments empty
  rw [enc.segments_ofText, Path.segments_empty, List.map_eq_nil_iff] at none
  exact tailGiven none

/-- One key, one request. -/
theorem served_apart (digests : m.Digests subjects) (enc : Path.Encodes encode)
    {sub sub' tail tail' key key' : String} (subject : sub ∈ subjects) (subject' : sub' ∈ subjects)
    (accepted : m.resolveObject sub tail = .ok key)
    (accepted' : m.resolveObject sub' tail' = .ok key')
    (same : Path.ofText encode key' = Path.ofText encode key) : sub' = sub ∧ tail' = tail := by
  obtain ⟨rfl, segments⟩ := Manager.resolveObject_ok accepted
  obtain ⟨rfl, segments'⟩ := Manager.resolveObject_ok accepted'
  rw [enc.ofText_inj, Path.segments_sep, Path.segments_sep, digests.segments_userPrefix subject,
    digests.segments_userPrefix subject', List.append_assoc, List.append_assoc,
    List.append_cancel_left_eq] at same
  simp only [List.cons_append, List.nil_append, List.cons.injEq, true_and] at same
  obtain ⟨hash, tails⟩ := same
  rw [segments, segments'] at tails
  exact ⟨digests.safeSub_inj subject' subject hash, split_inj tails⟩

/-- The caching of every answer is decided by the one test on the key. -/
theorem objectHandler_cacheControl {sub tail key : String}
    (accepted : m.resolveObject sub tail = .ok key) {permit : Permit}
    {get : String → Except StoreError GetResult} {ifNoneMatch : Option String}
    {response : ObjectResponse} {headers : ObjectHeaders}
    (answered : objectHandler encode m sub tail permit get ifNoneMatch = .ok response)
    (sent : response.headers = some headers) :
    headers.cacheControl = "no-cache" ↔
      isMutableObjectKey encode (Path.ofText encode key) (Path.ofText encode (m.userPrefix sub)) =
        true := by
  have header : ∀ isMutable isJson,
      (objectCacheHeaders isMutable isJson).cacheControl = "no-cache" ↔ isMutable = true := by
    decide
  unfold objectHandler at answered
  rw [accepted] at answered
  simp only [bind, Except.bind] at answered
  generalize isMutableObjectKey encode _ _ = isMutable at answered ⊢
  generalize isJsonObjectKey encode _ _ = isJson at answered
  -- every answer with headers takes them from `objectCacheHeaders`
  split at answered
  next => cases answered
  next =>
    split at answered
    next =>
      rw [← Except.ok.inj answered] at sent
      cases sent
    next => cases answered
    next =>
      split at answered <;>
      · rw [← Except.ok.inj answered] at sent
        rw [← Option.some.inj sent]
        exact header isMutable isJson

/-- Requests for which the object is confined and cached by its name: the encoding keeps every
    segment of the configured prefix, or the name is not one that changes. -/
theorem object_confined_iff (enc : Path.Encodes encode) (keeps : KeepsAlphanum encode)
    (digests : m.Digests subjects) {sub tail key : String} (subject : sub ∈ subjects)
    (accepted : m.resolveObject sub tail = .ok key) :
    Confined encode m subjects sub tail key ↔
      (tail ∈ mutableObjects → ∀ seg ∈ Path.segments m.dbPrefix, encode seg = seg) := by
  have named : isMutableObjectKey encode (Path.ofText encode key)
      (Path.ofText encode (m.userPrefix sub)) = true ↔ _ :=
    isOneObjectOf_iff enc keeps digests subject accepted fun _ => segments_of_mutable
  constructor
  · intro confined changes
    -- an object that the store has, asked for without a validator
    have served : ∃ response headers, objectHandler encode m sub tail .granted
        (fun _ => .ok ⟨none, 0, 0⟩) none = .ok response ∧ response.headers = some headers := by
      unfold objectHandler
      rw [accepted]
      exact ⟨_, _, rfl, rfl⟩
    obtain ⟨response, headers, answered, sent⟩ := served
    have cached := (confined.revalidated _ _ _ _ _ answered sent).mpr changes
    exact (named.mp ((objectHandler_cacheControl accepted answered sent).mp cached)).1
  · intro stable
    refine ⟨served_under digests subject accepted enc, fun sub' subject' tail' key' accepted' =>
      served_apart digests enc subject subject' accepted accepted', ?_⟩
    intro permit get ifNoneMatch response headers answered sent
    rw [objectHandler_cacheControl accepted answered sent]
    constructor
    · exact fun mutable => (named.mp mutable).2
    · exact fun changes => named.mpr ⟨stable changes, changes⟩

end Confinement

/-! ### An encoding of segments -/

/-- Bytes that a segment of a key does not contain: controls, what is not ASCII, and a few
    characters that stores or file systems give a meaning. -/
def invalidByte (b : UInt8) : Bool :=
  decide (b.toNat < 32) || decide (127 ≤ b.toNat) ||
    ("/\\\x7b^\x7d%`]\">[~<#|*?".toList.any fun c => decide (c.toNat = b.toNat))

/-- A percent-encoding that leaves no segment `.` or `..`. -/
def encodeSegment (seg : String) : String :=
  if seg = "." then "%2E"
  else if seg = ".." then "%2E%2E"
  else Path.percentEncode invalidByte seg

theorem invalidByte_escapes : Path.Escapes invalidByte where
  percent := by decide
  slash := by decide
  high := by
    intro b high
    have above : 127 ≤ b.toNat := by omega
    simp [invalidByte, above]

theorem encodeSegment_keeps : KeepsAlphanum encodeSegment := by
  intro seg alphanum
  have noDot : ∀ t : String, '.' ∈ t.toList → seg ≠ t := by
    rintro t dot rfl
    exact absurd (List.all_eq_true.mp alphanum '.' dot) (by decide)
  rw [encodeSegment, if_neg (noDot "." (by decide)), if_neg (noDot ".." (by decide))]
  refine Path.percentEncode_of_bare fun c mem => ?_
  have letter := List.all_eq_true.mp alphanum c mem
  have ascii : c.toNat < 128 := by
    simp only [Char.isAlphanum, Char.isAlpha, Char.isUpper, Char.isLower, Char.isDigit,
      Bool.or_eq_true, Bool.and_eq_true, decide_eq_true_eq, ge_iff_le,
      UInt32.le_iff_toNat_le] at letter
    simp at letter
    omega
  have bare : ∀ n : Fin 128, (Char.ofNat n.val).isAlphanum = true →
      invalidByte (UInt8.ofNat n.val) = false := by decide
  refine ⟨ascii, bare ⟨c.toNat, ascii⟩ ?_⟩
  rwa [Char.ofNat_toNat]

theorem encodeSegment_encodes : Path.Encodes encodeSegment where
  inj := by
    have dotFree (s : String) (rest : List Char) :
        (Path.percentEncode invalidByte s).toList ≠ '%' :: '2' :: 'E' :: rest :=
      Path.percentEncode_ne_dot invalidByte_escapes (by decide) s rest
    intro s t same
    unfold encodeSegment at same
    -- a single or double dot is escaped as a whole, which no percent encoding starts like
    split at same
    next hs =>
      split at same
      next ht => rw [hs, ht]
      next =>
        split at same
        next => exact absurd same (by decide)
        next => exact absurd (congrArg String.toList same).symm (dotFree t [])
    next =>
      split at same
      next hs =>
        split at same
        next => exact absurd same (by decide)
        next =>
          split at same
          next ht => rw [hs, ht]
          next => exact absurd (congrArg String.toList same).symm (dotFree t ['%', '2', 'E'])
      next =>
        split at same
        next => exact absurd (congrArg String.toList same) (dotFree s [])
        next =>
          split at same
          next => exact absurd (congrArg String.toList same) (dotFree s ['%', '2', 'E'])
          next => exact Path.percentEncode_inj invalidByte_escapes same
  ne_empty := by
    intro seg given
    unfold encodeSegment
    split
    · decide
    · split
      · decide
      · exact Path.percentEncode_ne_empty _ given
  free := by
    intro seg
    unfold encodeSegment
    split
    · decide
    · split
      · decide
      · exact Path.percentEncode_free invalidByte_escapes seg

/-! ### Two configurations -/

/-- The SHA-256 digests of two subjects. -/
def twoDigests (sub : String) : List UInt8 :=
  if sub = "alice" then
    [0x2b, 0xd8, 0x06, 0xc9, 0x7f, 0x0e, 0x00, 0xaf, 0x1a, 0x1f, 0xc3, 0x32, 0x8f, 0xa7, 0x63, 0xa9,
      0x26, 0x97, 0x23, 0xc8, 0xdb, 0x8f, 0xac, 0x4f, 0x93, 0xaf, 0x71, 0xdb, 0x18, 0x6d, 0x6e, 0x90]
  else
    [0x81, 0xb6, 0x37, 0xd8, 0xfc, 0xd2, 0xc6, 0xda, 0x63, 0x59, 0xe6, 0x96, 0x31, 0x13, 0xa1, 0x17,
      0x0d, 0xe7, 0x95, 0xe4, 0xb7, 0x25, 0xb8, 0x4d, 0x1e, 0x0b, 0x4c, 0xfd, 0x9e, 0xc5, 0x8c, 0xe9]

def configured (dbPrefix : String) : Manager := ⟨dbPrefix, twoDigests⟩

theorem configured_digests (dbPrefix : String) :
    (configured dbPrefix).Digests {"alice", "bob"} where
  inj := by
    have apart : twoDigests "alice" ≠ twoDigests "bob" := by decide
    rintro a (rfl | rfl) b (rfl | rfl) same
    · rfl
    · exact absurd same apart
    · exact absurd same.symm apart
    · rfl
  given := by
    have alice : twoDigests "alice" ≠ [] := by decide
    have bob : twoDigests "bob" ≠ [] := by decide
    rintro sub (rfl | rfl)
    · exact alice
    · exact bob

theorem object_confined_manifest : Confined encodeSegment (configured "oxkv") {"alice", "bob"}
    "alice" "manifest.json" ((configured "oxkv").userPrefix "alice" ++ "/manifest.json") :=
  (object_confined_iff encodeSegment_encodes encodeSegment_keeps (configured_digests _)
    (.inl rfl) (by decide)).mpr (fun _ => by decide)

/-- Below the prefix `50%` the manifest is served as an object that never changes. -/
theorem object_pinned_manifest :
    (configured "50%").resolveObject "alice" "manifest.json" =
        .ok ((configured "50%").userPrefix "alice" ++ "/manifest.json") ∧
      ¬ Confined encodeSegment (configured "50%") {"alice", "bob"} "alice" "manifest.json"
        ((configured "50%").userPrefix "alice" ++ "/manifest.json") := by
  refine ⟨by decide, fun confined => ?_⟩
  have pinned : ∃ response headers, objectHandler encodeSegment (configured "50%") "alice"
      "manifest.json" .granted (fun _ => .ok ⟨none, 0, 0⟩) none = .ok response ∧
        response.headers = some headers ∧ headers.cacheControl ≠ "no-cache" := by
    exact ⟨.ok none (objectCacheHeaders false false) 0, _, by decide +kernel, rfl, by decide⟩
  obtain ⟨response, headers, answered, sent, cached⟩ := pinned
  exact cached ((confined.revalidated _ _ _ _ _ answered sent).mpr (by decide))

end RustApi.Sync
