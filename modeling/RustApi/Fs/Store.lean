import RustApi.Lib.Kv
import RustApi.Lib.Text
import RustApi.Records
import Mathlib

/-!
# The file store

`FsStore` over one ordered store: the key layout and every read and write of the
rows of uploads, files, relations and reference counts. Each function is the
atomic effect of one store call; the transactions of the source commit all of
their writes or none.

## Main results

For each write, what a lookup answers afterwards (`get_deleteFile`, `attach_ok`,
`detach_ok`), and what the scans return (`mem_rowsForFile`, `mem_filesForRow`,
`mem_listFiles`, `mem_listSessions`).
-/

namespace RustApi

open Lib

namespace FsStore

/-! ### Key layout -/

def filesPrefix : String := "fs:files:"

def fileMetaSuffix : String := ":meta"

def uploadsPrefix : String := "fs:uploads:"

/-- `REL_PREFIX`. -/
def relPrefix : String := "fs:rel:"

def sessionKey (id : String) : String := uploadsPrefix ++ id ++ ":meta"

def stagedKey (id : String) (idx : Nat) : String := uploadsPrefix ++ id ++ ":part:" ++ toString idx

def multipartKey (uploadId : String) : String := "fs:mp:" ++ uploadId

def fileKey (id : String) : String := filesPrefix ++ id ++ fileMetaSuffix

def refsKey (fileId : String) : String := filesPrefix ++ fileId ++ ":refs"

def relKey (rowType rowId fileId : String) : String :=
  relPrefix ++ rowType ++ ":" ++ rowId ++ ":" ++ fileId

def relPrefixForRow (rowType rowId : String) : String :=
  relPrefix ++ rowType ++ ":" ++ rowId ++ ":"

/-- `prefix_scan_end`: the last character, a `:`, becomes `;`. -/
def prefixScanEnd (p : String) : String := String.ofList (p.toList.dropLast ++ [';'])

/-- `scan_prefix`: the bounds of `gets_bytes` are inclusive. -/
def scanPrefix (p : String) (kv : Kv Value) : List (String × Value) :=
  kv.getsBytes none (some p) (some (prefixScanEnd p))

/-! ### Sessions and multipart records -/

def saveSession (s : UploadSession) (kv : Kv Value) : Kv Value :=
  kv.insert (sessionKey s.id) (.session s)

def getSession (id : String) (kv : Kv Value) : Except Error (Option UploadSession) :=
  match kv[sessionKey id]? with
  | none => .ok none
  | some (.session s) => .ok (some s)
  | some _ => .error decodeError

/-- The transaction of `delete_session`, for the session that its first read returned.
    The cascade rows go first and the session key last. -/
def deleteSession (id : String) (session : Option UploadSession) (kv : Kv Value) : Kv Value :=
  let cascade := match session with
    | none => []
    | some s => (List.range s.fileTotalParts).map (stagedKey id) ++
        (s.s3UploadId.map multipartKey).toList
  Kv.commit ((cascade ++ [sessionKey id]).map .delete) kv

def saveMultipart (m : PersistedMultipart) (kv : Kv Value) : Kv Value :=
  kv.insert (multipartKey m.uploadId) (.multipart m)

def loadMultipart (uploadId : String) (kv : Kv Value) :
    Except Error (Option PersistedMultipart) :=
  match kv[multipartKey uploadId]? with
  | none => .ok none
  | some (.multipart m) => .ok (some m)
  | some _ => .error decodeError

def deleteMultipart (uploadId : String) (kv : Kv Value) : Kv Value :=
  kv.erase (multipartKey uploadId)

/-! ### File records -/

def saveFile (rec : FileRecord) (kv : Kv Value) : Kv Value :=
  kv.insert (fileKey rec.id) (.file rec)

def getFile (id : String) (kv : Kv Value) : Except Error (Option FileRecord) :=
  match kv[fileKey id]? with
  | none => .ok none
  | some (.file rec) => .ok (some rec)
  | some _ => .error decodeError

/-- The relation markers `delete_file` removes: every `fs:rel:` key that ends in `:{id}`. -/
def markersOf (id : String) (kv : Kv Value) : List String :=
  ((scanPrefix relPrefix kv).filter fun e =>
    Text.startsWith relPrefix e.1 && Text.endsWith (":" ++ id) e.1).map (·.1)

def deleteFile (id : String) (kv : Kv Value) : Kv Value :=
  Kv.commit ((markersOf id kv ++ [fileKey id, refsKey id]).map .delete) kv

/-! ### Relations and reference counts -/

/-- `u32::MAX`. -/
def u32Max : Nat := 4294967295

def getRefInfo (fileId : String) (kv : Kv Value) : Except Error RefInfo :=
  match kv[refsKey fileId]? with
  | none => .ok .default
  | some (.refs info) => .ok info
  | some _ => .error decodeError

/-- `FsStore::attach`; the count saturates. -/
def attach (rowType rowId fileId : String) (kv : Kv Value) : Except Error (Nat × Kv Value) :=
  match getRefInfo fileId kv with
  | .error e => .error e
  | .ok info =>
    if (relKey rowType rowId fileId) ∈ kv then .ok (info.count, kv)
    else
      let count := min (info.count + 1) u32Max
      .ok (count, (kv.insert (relKey rowType rowId fileId) .relation).insert (refsKey fileId)
        (.refs ⟨count, none⟩))

/-- `FsStore::detach` at time `now`. -/
def detach (now : Int) (rowType rowId fileId : String) (kv : Kv Value) :
    Except Error (Nat × Kv Value) :=
  match getRefInfo fileId kv with
  | .error e => .error e
  | .ok info =>
    if (relKey rowType rowId fileId) ∈ kv then
      let count := info.count - 1
      let orphanSince := if count = 0 then some now else info.orphanSince
      .ok (count, (kv.erase (relKey rowType rowId fileId)).insert (refsKey fileId)
        (.refs ⟨count, orphanSince⟩))
    else .ok (info.count, kv)

/-- The row a marker key names, as `rows_for_file` reads it back: the text up to the
    first and up to the second `:` after `fs:rel:`. -/
def markerRow (key : String) : Option (String × String) :=
  match Text.stripStart relPrefix key with
  | none => none
  | some rest =>
    match Text.splitOnce ':' rest with
    | none => none
    | some (ty, rem) => (Text.splitOnce ':' rem).map fun p => (ty, p.1)

def rowsForFile (fileId : String) (kv : Kv Value) : List (String × String) :=
  (scanPrefix relPrefix kv).filterMap fun e =>
    if Text.startsWith relPrefix e.1 && Text.endsWith (":" ++ fileId) e.1 then markerRow e.1
    else none

def filesForRow (rowType rowId : String) (kv : Kv Value) : List String :=
  (((scanPrefix (relPrefixForRow rowType rowId) kv).filterMap fun e =>
    match Text.stripStart (relPrefixForRow rowType rowId) e.1 with
    | none => none
    | some fileId => if fileId ≠ "" ∧ Text.Free ':' fileId then some fileId else none).insertionSort
      (· ≤ ·)).dedup

/-! ### Listings -/

/-- `RecordScan`: the records that decoded and the keys whose value did not. -/
structure RecordScan (α : Type) where
  records : List α
  undecodable : List String

/-- One row of a `:meta` family, decoded; `none` for a key outside the family. -/
def metaRow {α : Type} (family : String) (decode : Value → Option α) (e : String × Value) :
    Option (Except String α) :=
  if Text.startsWith family e.1 && Text.endsWith ":meta" e.1 then
    match decode e.2 with
    | some a => some (.ok a)
    | none => some (.error e.1)
  else none

/-- `list_files` and `list_sessions`: scan one `:meta` family and decode each row. -/
def listMeta {α : Type} (family : String) (decode : Value → Option α) (kv : Kv Value) :
    RecordScan α :=
  let rows := (scanPrefix family kv).filterMap (metaRow family decode)
  ⟨rows.filterMap Except.toOption,
    rows.filterMap fun r => match r with | .ok _ => none | .error key => some key⟩

def Value.asFile : Value → Option FileRecord
  | .file rec => some rec
  | _ => none

def Value.asSession : Value → Option UploadSession
  | .session s => some s
  | _ => none

def listFiles (kv : Kv Value) : RecordScan FileRecord := listMeta filesPrefix Value.asFile kv

def listSessions (kv : Kv Value) : RecordScan UploadSession :=
  listMeta uploadsPrefix Value.asSession kv

/-! ### Key families -/

@[simp] theorem fileKey_inj {a b : String} : fileKey a = fileKey b ↔ a = b := by simp [fileKey]

@[simp] theorem refsKey_inj {a b : String} : refsKey a = refsKey b ↔ a = b := by simp [refsKey]

@[simp] theorem sessionKey_inj {a b : String} : sessionKey a = sessionKey b ↔ a = b := by
  simp [sessionKey]

@[simp] theorem multipartKey_inj {a b : String} : multipartKey a = multipartKey b ↔ a = b := by
  simp [multipartKey]

/-- A relation marker is any key under `fs:rel:`. -/
def IsMarker (k : String) : Prop := Text.startsWith relPrefix k = true

instance (k : String) : Decidable (IsMarker k) := inferInstanceAs (Decidable (_ = _))

@[simp] theorem isMarker_relKey (ty rid f : String) : IsMarker (relKey ty rid f) := by
  simp [IsMarker, relKey, String.append_assoc]

@[simp] theorem not_isMarker_fileKey (f : String) : ¬ IsMarker (fileKey f) := by
  simp [IsMarker, fileKey, Text.startsWith, filesPrefix, relPrefix]

@[simp] theorem not_isMarker_refsKey (f : String) : ¬ IsMarker (refsKey f) := by
  simp [IsMarker, refsKey, Text.startsWith, filesPrefix, relPrefix]

@[simp] theorem not_isMarker_sessionKey (f : String) : ¬ IsMarker (sessionKey f) := by
  simp [IsMarker, sessionKey, Text.startsWith, uploadsPrefix, relPrefix]

@[simp] theorem not_isMarker_multipartKey (f : String) : ¬ IsMarker (multipartKey f) := by
  simp [IsMarker, multipartKey, Text.startsWith, relPrefix]

@[simp] theorem not_isMarker_stagedKey (f : String) (idx : Nat) : ¬ IsMarker (stagedKey f idx) := by
  simp [IsMarker, stagedKey, Text.startsWith, uploadsPrefix, relPrefix]

@[simp] theorem fileKey_ne_refsKey (a b : String) : fileKey a ≠ refsKey b := by
  intro same
  have chars := congrArg String.toList same
  simp only [fileKey, refsKey, fileMetaSuffix, String.toList_append, List.append_assoc] at chars
  -- both suffixes have five characters, so they would have to be equal
  have last := (List.append_inj' (List.append_cancel_left chars) (by decide)).2
  exact absurd last (by decide)

@[simp] theorem refsKey_ne_fileKey (a b : String) : refsKey a ≠ fileKey b :=
  (fileKey_ne_refsKey b a).symm

@[simp] theorem fileKey_ne_sessionKey (a b : String) : fileKey a ≠ sessionKey b := by
  intro same
  simpa [fileKey, sessionKey, filesPrefix, uploadsPrefix] using congrArg String.toList same

@[simp] theorem refsKey_ne_sessionKey (a b : String) : refsKey a ≠ sessionKey b := by
  intro same
  simpa [refsKey, sessionKey, filesPrefix, uploadsPrefix] using congrArg String.toList same

@[simp] theorem fileKey_ne_multipartKey (a b : String) : fileKey a ≠ multipartKey b := by
  intro same
  simpa [fileKey, multipartKey, filesPrefix] using congrArg String.toList same

@[simp] theorem refsKey_ne_multipartKey (a b : String) : refsKey a ≠ multipartKey b := by
  intro same
  simpa [refsKey, multipartKey, filesPrefix] using congrArg String.toList same

@[simp] theorem sessionKey_ne_multipartKey (a b : String) : sessionKey a ≠ multipartKey b := by
  intro same
  simpa [sessionKey, multipartKey, uploadsPrefix] using congrArg String.toList same

@[simp] theorem stagedKey_ne_multipartKey (a : String) (idx : Nat) (b : String) :
    stagedKey a idx ≠ multipartKey b := by
  intro same
  simpa [stagedKey, multipartKey, uploadsPrefix] using congrArg String.toList same

@[simp] theorem fileKey_ne_stagedKey (a b : String) (idx : Nat) : fileKey a ≠ stagedKey b idx := by
  intro same
  simpa [fileKey, stagedKey, filesPrefix, uploadsPrefix] using congrArg String.toList same

@[simp] theorem refsKey_ne_stagedKey (a b : String) (idx : Nat) : refsKey a ≠ stagedKey b idx := by
  intro same
  simpa [refsKey, stagedKey, filesPrefix, uploadsPrefix] using congrArg String.toList same

@[simp] theorem sessionKey_ne_stagedKey (a b : String) (idx : Nat) :
    sessionKey a ≠ stagedKey b idx := by
  intro same
  have last := congrArg (fun s : String => s.toList.getLast?) same
  -- a staged key ends in a digit
  obtain ⟨d, hd⟩ : ∃ d, (Nat.toDigits 10 idx).getLast? = some d :=
    Option.isSome_iff_exists.mp (by simp [List.getLast?_isSome, Nat.toDigits_ne_nil])
  have digit := Nat.isDigit_of_mem_toDigits (by decide) (by decide) (List.mem_of_getLast? hd)
  have ends : 'a' = d := by
    simpa [sessionKey, stagedKey, List.getLast?_append, List.getLast?_cons, hd] using last
  subst ends
  exact absurd digit (by decide)

theorem ne_of_isMarker {k a : String} (hk : IsMarker k) (ha : ¬ IsMarker a) : a ≠ k :=
  fun same => ha (same ▸ hk)

theorem relKey_assoc (ty rid f : String) :
    relKey ty rid f = relPrefix ++ (ty ++ String.singleton ':' ++ (rid ++ ":" ++ f)) := by
  simp only [relKey, String.append_assoc]
  rfl

/-! ### Scans -/

/-- A scan over `q:` answers every key of that family. -/
theorem mem_scanPrefix {q k : String} {v : Value} {kv : Kv Value}
    (family : Text.startsWith (q ++ ":") k = true) :
    (k, v) ∈ scanPrefix (q ++ ":") kv ↔ kv[k]? = some v := by
  obtain ⟨t, rfl⟩ := Text.startsWith_iff.mp family
  have bounds := Text.between_of_startsWith (p := q) (t := t) (show ':' < ';' by decide)
  have top : prefixScanEnd (q ++ ":") = q ++ String.singleton ';' := by
    apply String.toList_inj.mp
    simp [prefixScanEnd]
  rw [scanPrefix, Kv.mem_getsBytes, top]
  exact ⟨fun h => h.1, fun h => ⟨h, by simpa using bounds.1, by simpa using bounds.2.le⟩⟩

private theorem mem_scan_filterMap {β : Type} {q : String} {kv : Kv Value}
    {f : String × Value → Option β} (inside : ∀ k v b, f (k, v) = some b →
      Text.startsWith (q ++ ":") k = true) (b : β) :
    b ∈ (scanPrefix (q ++ ":") kv).filterMap f ↔ ∃ k v, kv[k]? = some v ∧ f (k, v) = some b := by
  rw [List.mem_filterMap]
  constructor
  · rintro ⟨⟨k, v⟩, mem, hf⟩
    exact ⟨k, v, (mem_scanPrefix (inside k v b hf)).mp mem, hf⟩
  · rintro ⟨k, v, mem, hf⟩
    exact ⟨(k, v), (mem_scanPrefix (inside k v b hf)).mpr mem, hf⟩

/-- A marker key that names file `f`. -/
def MarkerOf (f k : String) : Prop := IsMarker k ∧ Text.endsWith (":" ++ f) k = true

instance (f k : String) : Decidable (MarkerOf f k) := inferInstanceAs (Decidable (_ ∧ _))

theorem mem_markersOf {f k : String} {kv : Kv Value} :
    k ∈ markersOf f kv ↔ MarkerOf f k ∧ k ∈ kv := by
  simp only [markersOf, List.mem_map, List.mem_filter, Bool.and_eq_true, MarkerOf, IsMarker]
  constructor
  · rintro ⟨⟨k', v⟩, ⟨mem, marker⟩, rfl⟩
    have here : kv[k']? = some v := (mem_scanPrefix (q := "fs:rel") marker.1).mp mem
    exact ⟨marker, Kv.mem_iff_get.mpr ⟨v, here⟩⟩
  · rintro ⟨marker, mem⟩
    obtain ⟨v, hv⟩ := Kv.mem_iff_get.mp mem
    exact ⟨(k, v), ⟨(mem_scanPrefix (q := "fs:rel") marker.1).mpr hv, marker⟩, rfl⟩

theorem mem_rowsForFile {f ty rid : String} {kv : Kv Value} :
    (ty, rid) ∈ rowsForFile f kv ↔
      ∃ k ∈ kv, MarkerOf f k ∧ markerRow k = some (ty, rid) := by
  have family : ∀ k v b, (fun e : String × Value =>
      if Text.startsWith relPrefix e.1 && Text.endsWith (":" ++ f) e.1 then markerRow e.1
      else none) (k, v) = some b → Text.startsWith ("fs:rel" ++ ":") k = true := by
    intro k v b h
    simp only [Option.ite_none_right_eq_some, Bool.and_eq_true] at h
    exact h.1.1
  rw [rowsForFile, show relPrefix = "fs:rel" ++ ":" from rfl, mem_scan_filterMap family]
  simp only [Option.ite_none_right_eq_some, Bool.and_eq_true]
  constructor
  · rintro ⟨k, v, here, marker, row⟩
    exact ⟨k, Kv.mem_iff_get.mpr ⟨v, here⟩, marker, row⟩
  · rintro ⟨k, mem, marker, row⟩
    obtain ⟨v, hv⟩ := Kv.mem_iff_get.mp mem
    exact ⟨k, v, hv, marker, row⟩

theorem mem_filesForRow {ty rid f : String} {kv : Kv Value} :
    f ∈ filesForRow ty rid kv ↔ relKey ty rid f ∈ kv ∧ f ≠ "" ∧ Text.Free ':' f := by
  have start : relPrefixForRow ty rid = (relPrefix ++ ty ++ ":" ++ rid) ++ ":" := rfl
  have family : ∀ k v b, (fun e : String × Value =>
      match Text.stripStart (relPrefixForRow ty rid) e.1 with
      | none => none
      | some fileId => if fileId ≠ "" ∧ Text.Free ':' fileId then some fileId else none)
        (k, v) = some b → Text.startsWith ((relPrefix ++ ty ++ ":" ++ rid) ++ ":") k = true := by
    intro k v b h
    simp only at h
    split at h
    · cases h
    next t strip =>
      rw [Text.stripStart_iff.mp strip, start]
      exact Text.startsWith_append _ _
  rw [filesForRow, List.mem_dedup, List.mem_insertionSort, start, mem_scan_filterMap family]
  constructor
  · rintro ⟨k, v, here, h⟩
    simp only at h
    split at h
    · cases h
    next t strip =>
      obtain rfl := Text.stripStart_iff.mp strip
      simp only [Option.ite_none_right_eq_some, Option.some.injEq] at h
      obtain ⟨valid, rfl⟩ := h
      exact ⟨Kv.mem_iff_get.mpr ⟨v, here⟩, valid⟩
  · rintro ⟨mem, valid⟩
    obtain ⟨v, hv⟩ := Kv.mem_iff_get.mp mem
    refine ⟨relKey ty rid f, v, hv, ?_⟩
    have strip : Text.stripStart (relPrefix ++ ty ++ ":" ++ rid ++ ":") (relKey ty rid f) =
        some f := Text.stripStart_iff.mpr rfl
    simp only [strip, if_pos valid]

/-! ### Marker keys -/

/-- What `rows_for_file` reads back from a key: its first two parts. -/
theorem markerRow_iff {k a b : String} :
    markerRow k = some (a, b) ↔
      ∃ rest, k = relKey a b rest ∧ Text.Free ':' a ∧ Text.Free ':' b := by
  unfold markerRow
  constructor
  · -- reading takes the shortest first parts, so it returns a row only if both are free of colons
    intro h
    split at h
    · cases h
    next tail strip =>
      obtain rfl := Text.stripStart_iff.mp strip
      split at h
      · cases h
      next ty rem split =>
        obtain ⟨rfl, tyFree⟩ := Text.splitOnce_iff.mp split
        simp only [Option.map_eq_some_iff, Prod.mk.injEq, Prod.exists] at h
        obtain ⟨rid, rest, split, rfl, rfl⟩ := h
        obtain ⟨rfl, ridFree⟩ := Text.splitOnce_iff.mp split
        exact ⟨rest, (relKey_assoc _ _ _).symm, tyFree, ridFree⟩
  · rintro ⟨rest, rfl, aFree, bFree⟩
    have strip : Text.stripStart relPrefix (relKey a b rest) =
        some (a ++ String.singleton ':' ++ (b ++ ":" ++ rest)) :=
      Text.stripStart_iff.mpr (relKey_assoc a b rest)
    have first : Text.splitOnce ':' (a ++ String.singleton ':' ++ (b ++ ":" ++ rest)) =
        some (a, b ++ ":" ++ rest) := Text.splitOnce_iff.mpr ⟨rfl, aFree⟩
    have second : Text.splitOnce ':' (b ++ ":" ++ rest) = some (b, rest) :=
      Text.splitOnce_iff.mpr ⟨rfl, bFree⟩
    rw [strip]
    simp only [first, second, Option.map_some]

theorem markerOf_relKey_self (ty rid f : String) : MarkerOf f (relKey ty rid f) := by
  refine ⟨isMarker_relKey ty rid f, ?_⟩
  exact Text.endsWith_iff.mpr ⟨relPrefix ++ ty ++ ":" ++ rid, by simp [relKey, String.append_assoc]⟩

/-- With separator-free file ids a marker names one file. -/
theorem markerOf_relKey {f g : String} (hf : Text.Free ':' f) (hg : Text.Free ':' g)
    {ty rid : String} : MarkerOf f (relKey ty rid g) ↔ g = f := by
  constructor
  · rintro ⟨-, ends⟩
    obtain ⟨t, same⟩ := Text.endsWith_iff.mp ends
    rw [← String.append_assoc] at same
    exact (Text.append_sep_inj_right hg hf same).2
  · rintro rfl
    exact markerOf_relKey_self ty rid g

/-- With separator-free types and file ids a marker names one row. -/
theorem relKey_inj {a a' b b' f f' : String} (ha : Text.Free ':' a) (ha' : Text.Free ':' a')
    (hf : Text.Free ':' f) (hf' : Text.Free ':' f') :
    relKey a b f = relKey a' b' f' ↔ a = a' ∧ b = b' ∧ f = f' := by
  constructor
  · intro same
    rw [relKey_assoc, relKey_assoc] at same
    obtain ⟨rfl, tails⟩ := Text.append_sep_inj ha ha' ((String.append_right_inj _).mp same)
    obtain ⟨rfl, rfl⟩ := Text.append_sep_inj_right hf hf' tails
    exact ⟨rfl, rfl, rfl⟩
  · rintro ⟨rfl, rfl, rfl⟩
    rfl

/-- With separator-free rows a marker names one file, whatever its id. -/
theorem relKey_inj_file {a a' b b' f f' : String} (ha : Text.Free ':' a) (ha' : Text.Free ':' a')
    (hb : Text.Free ':' b) (hb' : Text.Free ':' b') (same : relKey a b f = relKey a' b' f') :
    a = a' ∧ b = b' ∧ f = f' := by
  rw [relKey_assoc, relKey_assoc] at same
  obtain ⟨rfl, tails⟩ := Text.append_sep_inj ha ha' ((String.append_right_inj _).mp same)
  obtain ⟨rfl, rfl⟩ := Text.append_sep_inj hb hb' tails
  exact ⟨rfl, rfl, rfl⟩

/-- A marker whose three parts are separator-free can be read in one way only. -/
theorem relKey_inj_free {a a' b b' f f' : String} (ha : Text.Free ':' a) (hb : Text.Free ':' b)
    (hf : Text.Free ':' f) (same : relKey a b f = relKey a' b' f') : a = a' ∧ b = b' ∧ f = f' := by
  -- it has two separators, so the other parts hold none either
  have count := congrArg (fun s : String => s.toList.count ':') same
  simp only [relKey, String.toList_append, List.count_append, List.count_eq_zero_of_not_mem ha,
    List.count_eq_zero_of_not_mem hb, List.count_eq_zero_of_not_mem hf] at count
  have ha' : Text.Free ':' a' := List.count_eq_zero.mp (by omega)
  have hb' : Text.Free ':' b' := List.count_eq_zero.mp (by omega)
  exact relKey_inj_file ha ha' hb hb' same

/-! ### Listings -/

/-- A key of the `:meta` family of `family`. -/
def MetaKey (family k : String) : Prop :=
  Text.startsWith family k = true ∧ Text.endsWith ":meta" k = true

theorem metaKey_fileKey (f : String) : MetaKey filesPrefix (fileKey f) := by
  refine ⟨?_, Text.endsWith_append _ _⟩
  rw [fileKey, String.append_assoc]
  exact Text.startsWith_append _ _

theorem metaKey_sessionKey (f : String) : MetaKey uploadsPrefix (sessionKey f) := by
  refine ⟨?_, Text.endsWith_append _ _⟩
  rw [sessionKey, String.append_assoc]
  exact Text.startsWith_append _ _

private theorem metaRow_some {α : Type} {family : String} {decode : Value → Option α}
    {k : String} {v : Value} {r : Except String α} :
    metaRow family decode (k, v) = some r ↔ MetaKey family k ∧
      r = (match decode v with | some a => .ok a | none => .error k) := by
  simp only [metaRow, MetaKey, Option.ite_none_right_eq_some, Bool.and_eq_true]
  cases decode v with
  | none => simp only [Option.some.injEq, @eq_comm _ r]
  | some a => simp only [Option.some.injEq, @eq_comm _ r]

private theorem mem_meta {α : Type} {q : String} {decode : Value → Option α} {kv : Kv Value}
    {r : Except String α} :
    r ∈ (scanPrefix (q ++ ":") kv).filterMap (metaRow (q ++ ":") decode) ↔
      ∃ k v, kv[k]? = some v ∧ MetaKey (q ++ ":") k ∧
        r = (match decode v with | some a => .ok a | none => .error k) := by
  rw [mem_scan_filterMap fun k v b h => (metaRow_some.mp h).1.1]
  simp only [metaRow_some]

theorem mem_listMeta {α : Type} {q : String} {decode : Value → Option α} {kv : Kv Value} {a : α} :
    a ∈ (listMeta (q ++ ":") decode kv).records ↔
      ∃ k v, kv[k]? = some v ∧ MetaKey (q ++ ":") k ∧ decode v = some a := by
  rw [listMeta, List.mem_filterMap]
  simp only [mem_meta]
  constructor
  · rintro ⟨r, ⟨k, v, here, family, rfl⟩, ok⟩
    cases decoded : decode v with
    | none => simp [decoded, Except.toOption] at ok
    | some b => exact ⟨k, v, here, family, by simpa [decoded, Except.toOption] using ok⟩
  · rintro ⟨k, v, here, family, decoded⟩
    exact ⟨.ok a, ⟨k, v, here, family, by simp [decoded]⟩, rfl⟩

theorem asFile_eq_some {v : Value} {rec : FileRecord} :
    Value.asFile v = some rec ↔ v = .file rec := by
  cases v <;> simp [Value.asFile]

theorem asSession_eq_some {v : Value} {s : UploadSession} :
    Value.asSession v = some s ↔ v = .session s := by
  cases v <;> simp [Value.asSession]

theorem mem_listFiles {kv : Kv Value} {rec : FileRecord} :
    rec ∈ (listFiles kv).records ↔ ∃ k, kv[k]? = some (.file rec) ∧ MetaKey filesPrefix k := by
  rw [listFiles, show filesPrefix = "fs:files" ++ ":" from rfl, mem_listMeta]
  simp only [asFile_eq_some]
  constructor
  · rintro ⟨k, v, here, family, rfl⟩
    exact ⟨k, here, family⟩
  · rintro ⟨k, here, family⟩
    exact ⟨k, _, here, family, rfl⟩

theorem mem_listSessions {kv : Kv Value} {s : UploadSession} :
    s ∈ (listSessions kv).records ↔
      ∃ k, kv[k]? = some (.session s) ∧ MetaKey uploadsPrefix k := by
  rw [listSessions, show uploadsPrefix = "fs:uploads" ++ ":" from rfl, mem_listMeta]
  simp only [asSession_eq_some]
  constructor
  · rintro ⟨k, v, here, family, rfl⟩
    exact ⟨k, here, family⟩
  · rintro ⟨k, here, family⟩
    exact ⟨k, _, here, family, rfl⟩

/-! ### Writes -/

theorem get_deleteFile (f : String) (kv : Kv Value) (k : String) :
    (deleteFile f kv)[k]? =
      if MarkerOf f k ∨ k = fileKey f ∨ k = refsKey f then none else kv[k]? := by
  rw [deleteFile, Kv.get_commit_deletes]
  simp only [List.mem_append, mem_markersOf, List.mem_cons, List.not_mem_nil, or_false]
  by_cases marker : MarkerOf f k
  · by_cases here : k ∈ kv
    · simp [marker, here]
    · simp [marker, Kv.not_mem_iff_get.mp here]
  · simp [marker]

/-- What `attach` did: nothing when the marker was there, else the marker and its count. -/
theorem attach_ok {ty rid f : String} {kv kv' : Kv Value} {n : Nat}
    (h : attach ty rid f kv = .ok (n, kv')) (k : String) :
    kv'[k]? = if relKey ty rid f ∈ kv then kv[k]?
      else if k = refsKey f then some (.refs ⟨n, none⟩)
      else if k = relKey ty rid f then some .relation else kv[k]? := by
  unfold attach at h
  split at h
  · cases h
  next info _ =>
    split at h
    next there =>
      obtain ⟨-, rfl⟩ : info.count = n ∧ kv = kv' := by simpa using h
      rw [if_pos there]
    next absent =>
      obtain ⟨rfl, rfl⟩ : min (info.count + 1) u32Max = n ∧ _ = kv' := by simpa using h
      rw [if_neg absent, Kv.get_insert, Kv.get_insert]
      simp only [eq_comm (a := k)]

theorem mem_attach_ok {ty rid f : String} {kv kv' : Kv Value} {n : Nat}
    (h : attach ty rid f kv = .ok (n, kv')) {k : String} (hk : k ≠ refsKey f) :
    k ∈ kv' ↔ k ∈ kv ∨ k = relKey ty rid f := by
  have effect := attach_ok h k
  rw [if_neg hk] at effect
  by_cases there : relKey ty rid f ∈ kv
  · rw [if_pos there] at effect
    rw [Kv.mem_iff_get, effect, ← Kv.mem_iff_get]
    constructor
    · exact .inl
    · rintro (old | rfl)
      · exact old
      · exact there
  · rw [if_neg there] at effect
    by_cases same : k = relKey ty rid f
    · rw [if_pos same] at effect
      exact ⟨fun _ => .inr same, fun _ => Kv.mem_iff_get.mpr ⟨_, effect⟩⟩
    · rw [if_neg same] at effect
      rw [Kv.mem_iff_get, effect, ← Kv.mem_iff_get]
      simp [same]

theorem get_attach_ok {ty rid f : String} {kv kv' : Kv Value} {n : Nat}
    (h : attach ty rid f kv = .ok (n, kv')) {k : String} (hk : k ≠ refsKey f)
    (plain : ¬ IsMarker k) : kv'[k]? = kv[k]? := by
  have other : k ≠ relKey ty rid f := fun same => plain (same ▸ isMarker_relKey ty rid f)
  rw [attach_ok h k, if_neg hk, if_neg other, ite_self]

/-- What `detach` did: nothing when the marker was absent, else the marker is gone. -/
theorem detach_ok {now : Int} {ty rid f : String} {kv kv' : Kv Value} {n : Nat}
    (h : detach now ty rid f kv = .ok (n, kv')) (k : String) (hk : k ≠ refsKey f) :
    kv'[k]? = if k = relKey ty rid f then none else kv[k]? := by
  unfold detach at h
  split at h
  · cases h
  next info _ =>
    split at h
    next there =>
      obtain ⟨-, rfl⟩ : _ = n ∧ _ = kv' := by simpa using h
      rw [Kv.get_insert, Kv.get_erase, if_neg (Ne.symm hk)]
      simp only [eq_comm (a := k)]
    next absent =>
      obtain ⟨-, rfl⟩ : info.count = n ∧ kv = kv' := by simpa using h
      split
      next same => rw [same, Kv.not_mem_iff_get.mp absent]
      · rfl

/-- The count that `attach` answers. -/
theorem attach_count {ty rid f : String} {kv kv' : Kv Value} {n : Nat} {info : RefInfo}
    (h : attach ty rid f kv = .ok (n, kv')) (read : getRefInfo f kv = .ok info) :
    n = if relKey ty rid f ∈ kv then info.count else min (info.count + 1) u32Max := by
  simp only [attach, read] at h
  split at h
  next there =>
    obtain ⟨rfl, -⟩ : info.count = n ∧ kv = kv' := by simpa using h
    rw [if_pos there]
  next absent =>
    obtain ⟨rfl, -⟩ : min (info.count + 1) u32Max = n ∧ _ = kv' := by simpa using h
    rw [if_neg absent]

/-- The count that `detach` answers and stores. -/
theorem detach_count {now : Int} {ty rid f : String} {kv kv' : Kv Value} {n : Nat}
    (h : detach now ty rid f kv = .ok (n, kv')) (there : relKey ty rid f ∈ kv) :
    ∃ info since, getRefInfo f kv = .ok info ∧ n = info.count - 1 ∧
      kv'[refsKey f]? = some (.refs ⟨n, since⟩) := by
  unfold detach at h
  split at h
  · cases h
  next info read =>
    rw [if_pos there] at h
    obtain ⟨rfl, rfl⟩ : info.count - 1 = n ∧ _ = kv' := by simpa using h
    exact ⟨info, _, read, rfl, by rw [Kv.get_insert, if_pos rfl]⟩

theorem detach_absent {now : Int} {ty rid f : String} {kv kv' : Kv Value} {n : Nat}
    (h : detach now ty rid f kv = .ok (n, kv')) (absent : relKey ty rid f ∉ kv) : kv' = kv := by
  unfold detach at h
  split at h
  · cases h
  · rw [if_neg absent] at h
    exact (Prod.mk.inj (Except.ok.inj h)).2.symm

/-! ### Sessions and records after a write -/

/-- The record of `f` is there. -/
def HasRecord (f : String) (kv : Kv Value) : Prop := ∃ rec, getFile f kv = .ok (some rec)

theorem getFile_congr {f : String} {kv kv' : Kv Value}
    (same : kv'[fileKey f]? = kv[fileKey f]?) : getFile f kv' = getFile f kv := by
  simp only [getFile, same]

theorem getFile_attach {ty rid f : String} {kv kv' : Kv Value} {n : Nat}
    (done : attach ty rid f kv = .ok (n, kv')) (g : String) : getFile g kv' = getFile g kv :=
  getFile_congr (get_attach_ok done (fileKey_ne_refsKey g f) (not_isMarker_fileKey g))

theorem getFile_detach {now : Int} {ty rid f : String} {kv kv' : Kv Value} {n : Nat}
    (done : detach now ty rid f kv = .ok (n, kv')) (g : String) :
    getFile g kv' = getFile g kv := by
  refine getFile_congr ?_
  rw [detach_ok done _ (fileKey_ne_refsKey g f),
    if_neg (ne_of_isMarker (isMarker_relKey ty rid f) (not_isMarker_fileKey g))]

theorem getFile_deleteFile {f g : String} (other : g ≠ f) (kv : Kv Value) :
    getFile g (deleteFile f kv) = getFile g kv := by
  refine getFile_congr ?_
  rw [get_deleteFile, if_neg]
  rintro (named | same | same)
  · exact not_isMarker_fileKey g named.1
  · exact other (fileKey_inj.mp same)
  · exact fileKey_ne_refsKey g f same

/-- A file deletion creates no record. -/
theorem HasRecord.of_deleteFile {f g : String} {kv : Kv Value}
    (left : HasRecord g (deleteFile f kv)) : HasRecord g kv := by
  obtain ⟨rec, found⟩ := left
  by_cases same : g = f
  · subst same
    simp [getFile, get_deleteFile] at found
  · exact ⟨rec, (getFile_deleteFile same kv).symm.trans found⟩

theorem getFile_eq_some {f : String} {kv : Kv Value} {rec : FileRecord} :
    getFile f kv = .ok (some rec) ↔ kv[fileKey f]? = some (.file rec) := by
  unfold getFile
  split
  next absent => simp [absent]
  next r here => simp [here]
  next v other here =>
    simp only [here, Option.some.injEq, reduceCtorEq, false_iff]
    exact other rec

theorem getSession_eq_some {id : String} {kv : Kv Value} {s : UploadSession} :
    getSession id kv = .ok (some s) ↔ kv[sessionKey id]? = some (.session s) := by
  unfold getSession
  split
  next absent => simp [absent]
  next r here => simp [here]
  next v other here =>
    simp only [here, Option.some.injEq, reduceCtorEq, false_iff]
    exact other s

/-- The session row of `id` is there. -/
def HasSession (id : String) (kv : Kv Value) : Prop := ∃ s, getSession id kv = .ok (some s)

theorem getSession_congr {id : String} {kv kv' : Kv Value}
    (same : kv'[sessionKey id]? = kv[sessionKey id]?) : getSession id kv' = getSession id kv := by
  simp only [getSession, same]

theorem getSession_saveSession (s : UploadSession) (kv : Kv Value) (id : String) :
    getSession id (saveSession s kv) = if s.id = id then .ok (some s) else getSession id kv := by
  split
  next same =>
    subst same
    simp [getSession, saveSession]
  next other =>
    refine getSession_congr ?_
    rw [saveSession, Kv.get_insert, if_neg (fun same => other (sessionKey_inj.mp same))]

/-- The rows that go with a session: its own and that of its multipart record. -/
private theorem deleteSession_gone {id : String} {session : Option UploadSession} {kv : Kv Value}
    {k : String} (goes : k = sessionKey id ∨
      ∃ u, session.bind (·.s3UploadId) = some u ∧ k = multipartKey u) :
    (deleteSession id session kv)[k]? = none := by
  unfold deleteSession
  rw [Kv.get_commit_deletes, if_pos]
  rcases goes with rfl | ⟨u, record, rfl⟩
  · exact List.mem_append_right _ (List.mem_singleton_self _)
  · obtain ⟨s, rfl, drew⟩ := Option.bind_eq_some_iff.mp record
    simp [drew]

private theorem deleteSession_kept {id : String} {session : Option UploadSession} {kv : Kv Value}
    {k : String} (own : k ≠ sessionKey id) (staged : ∀ idx, k ≠ stagedKey id idx)
    (record : ∀ u, session.bind (·.s3UploadId) = some u → k ≠ multipartKey u) :
    (deleteSession id session kv)[k]? = kv[k]? := by
  unfold deleteSession
  rw [Kv.get_commit_deletes, if_neg]
  intro mem
  rcases List.mem_append.mp mem with cascade | last
  · cases session with
    | none => cases cascade
    | some s =>
      rcases List.mem_append.mp cascade with part | named
      · -- the part keys of the session, its record, and last its own key
        obtain ⟨idx, -, same⟩ := List.mem_map.mp part
        exact staged idx same.symm
      · obtain ⟨u, drew, same⟩ := Option.map_eq_some_iff.mp (Option.mem_toList.mp named)
        exact record u drew same.symm
  · exact own (List.mem_singleton.mp last)

theorem getSession_deleteSession (id : String) (session : Option UploadSession) (kv : Kv Value)
    (g : String) : getSession g (deleteSession id session kv) =
      if g = id then .ok none else getSession g kv := by
  split
  next same =>
    subst same
    simp [getSession, deleteSession_gone (.inl rfl)]
  next other =>
    exact getSession_congr (deleteSession_kept (fun same => other (sessionKey_inj.mp same))
      (sessionKey_ne_stagedKey g id) fun u _ => sessionKey_ne_multipartKey g u)

theorem getFile_saveFile (rec : FileRecord) (kv : Kv Value) (f : String) :
    getFile f (saveFile rec kv) = if rec.id = f then .ok (some rec) else getFile f kv := by
  split
  next same =>
    subst same
    simp [getFile, saveFile]
  next other =>
    simp only [getFile, saveFile, Kv.get_insert, if_neg (fun same => other (fileKey_inj.mp same))]

/-- Deleting a session touches no row under `fs:files:` or `fs:rel:`. -/
theorem get_deleteSession (id : String) (session : Option UploadSession) (kv : Kv Value)
    {k : String} (row : Text.startsWith filesPrefix k = true ∨ IsMarker k) :
    (deleteSession id session kv)[k]? = kv[k]? := by
  have uploads : ∀ a, k ≠ uploadsPrefix ++ a := by
    rintro a rfl
    rcases row with family | family <;>
      simp [IsMarker, Text.startsWith, uploadsPrefix, filesPrefix,
        relPrefix] at family
  refine deleteSession_kept ?_ (fun idx => ?_) ?_
  · rw [sessionKey, String.append_assoc]
    exact uploads _
  · rw [stagedKey, String.append_assoc, String.append_assoc]
    exact uploads _
  · rintro u - rfl
    rcases row with family | family <;>
      simp [IsMarker, Text.startsWith, multipartKey, filesPrefix,
        relPrefix] at family

theorem getFile_saveSession (s : UploadSession) (kv : Kv Value) (f : String) :
    getFile f (saveSession s kv) = getFile f kv := by
  refine getFile_congr ?_
  rw [saveSession, Kv.get_insert, if_neg (fileKey_ne_sessionKey f s.id).symm]

theorem getFile_deleteSession (id : String) (session : Option UploadSession) (kv : Kv Value)
    (f : String) : getFile f (deleteSession id session kv) = getFile f kv :=
  getFile_congr (get_deleteSession id session kv (.inl (metaKey_fileKey f).1))

theorem getSession_saveFile (rec : FileRecord) (kv : Kv Value) (id : String) :
    getSession id (saveFile rec kv) = getSession id kv := by
  refine getSession_congr ?_
  rw [saveFile, Kv.get_insert, if_neg (fileKey_ne_sessionKey rec.id id)]

theorem getSession_deleteFile (f : String) (kv : Kv Value) (id : String) :
    getSession id (deleteFile f kv) = getSession id kv := by
  refine getSession_congr ?_
  rw [get_deleteFile, if_neg]
  rintro (named | same | same)
  · exact not_isMarker_sessionKey id named.1
  · exact fileKey_ne_sessionKey f id same.symm
  · exact refsKey_ne_sessionKey f id same.symm

/-! ### Multipart records -/

theorem loadMultipart_congr {u : String} {kv kv' : Kv Value}
    (same : kv'[multipartKey u]? = kv[multipartKey u]?) :
    loadMultipart u kv' = loadMultipart u kv := by
  simp only [loadMultipart, same]

theorem loadMultipart_saveMultipart (m : PersistedMultipart) (kv : Kv Value) (u : String) :
    loadMultipart u (saveMultipart m kv) =
      if m.uploadId = u then .ok (some m) else loadMultipart u kv := by
  split
  next same =>
    subst same
    simp [loadMultipart, saveMultipart]
  next other =>
    refine loadMultipart_congr ?_
    rw [saveMultipart, Kv.get_insert, if_neg (fun same => other (multipartKey_inj.mp same))]

theorem loadMultipart_deleteMultipart (v : String) (kv : Kv Value) (u : String) :
    loadMultipart u (deleteMultipart v kv) = if v = u then .ok none else loadMultipart u kv := by
  split
  next same =>
    subst same
    simp [loadMultipart, deleteMultipart]
  next other =>
    refine loadMultipart_congr ?_
    rw [deleteMultipart, Kv.get_erase, if_neg (fun same => other (multipartKey_inj.mp same))]

theorem loadMultipart_saveSession (s : UploadSession) (kv : Kv Value) (u : String) :
    loadMultipart u (saveSession s kv) = loadMultipart u kv := by
  refine loadMultipart_congr ?_
  rw [saveSession, Kv.get_insert, if_neg (sessionKey_ne_multipartKey s.id u)]

/-- A session takes its record along. -/
theorem loadMultipart_deleteSession (id : String) (session : Option UploadSession) (kv : Kv Value)
    (u : String) : loadMultipart u (deleteSession id session kv) =
      if session.bind (·.s3UploadId) = some u then .ok none else loadMultipart u kv := by
  split
  next same => simp [loadMultipart, deleteSession_gone (.inr ⟨u, same, rfl⟩)]
  next other =>
    refine loadMultipart_congr (deleteSession_kept (sessionKey_ne_multipartKey id u).symm
      (fun idx => (stagedKey_ne_multipartKey id idx u).symm) fun v record same => other ?_)
    rw [record, multipartKey_inj.mp same]

theorem getSession_saveMultipart (m : PersistedMultipart) (kv : Kv Value) (id : String) :
    getSession id (saveMultipart m kv) = getSession id kv := by
  refine getSession_congr ?_
  rw [saveMultipart, Kv.get_insert, if_neg (sessionKey_ne_multipartKey id m.uploadId).symm]

theorem getSession_deleteMultipart (u : String) (kv : Kv Value) (id : String) :
    getSession id (deleteMultipart u kv) = getSession id kv := by
  refine getSession_congr ?_
  rw [deleteMultipart, Kv.get_erase, if_neg (sessionKey_ne_multipartKey id u).symm]

theorem getFile_saveMultipart (m : PersistedMultipart) (kv : Kv Value) (f : String) :
    getFile f (saveMultipart m kv) = getFile f kv := by
  refine getFile_congr ?_
  rw [saveMultipart, Kv.get_insert, if_neg (fileKey_ne_multipartKey f m.uploadId).symm]

theorem getFile_deleteMultipart (u : String) (kv : Kv Value) (f : String) :
    getFile f (deleteMultipart u kv) = getFile f kv := by
  refine getFile_congr ?_
  rw [deleteMultipart, Kv.get_erase, if_neg (fileKey_ne_multipartKey f u).symm]

end FsStore

end RustApi
