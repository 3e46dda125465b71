import RustApi.Fs.Content
import RustApi.Fs.Range
import RustApi.Sync.Pointer

/-!
# Downloads

`get_metadata`, `get_object`, `get_object_range` and the route over them. The route reads
the record three times and the object once, and others run in between.

## Main results

- `getFile_faithful`: while nobody replaces the record or the bytes of a file, every
  response describes what it carries, and what is fetched in pieces is the start of the
  file, also where a stream breaks off.
- `sanitizeFilename_safe_iff`: the names that reach the header of a response.
-/

namespace RustApi

open Lib

/-! ### Reads of the object store -/

/-- `ObjectStream`: the size it announces, and its stream. A chunk may be an error, with which
    the stream breaks off. -/
structure ObjectStream where
  size : Nat
  stream : List (Except Error Bytes)

/-- The bytes that come before a stream breaks off. -/
def delivered : List (Except Error Bytes) → Bytes
  | .ok chunk :: rest => chunk ++ delivered rest
  | _ => []

/-- The stream brings the start of the bytes, and all of them where no chunk is an error. -/
structure Streams (bytes : Bytes) (stream : List (Except Error Bytes)) : Prop where
  start : delivered stream <+: bytes
  whole : (∀ chunk ∈ stream, chunk.isOk = true) → delivered stream = bytes

/-- A read of an object: all of it, or from `start` up to but not including `stop`. -/
structure ObjectRead where
  key : String
  range : Option (Nat × Nat)
  deriving DecidableEq, Repr

/-- The bytes that a read is for. A range is cut off at their end. -/
def ObjectRead.slice (r : ObjectRead) (body : Bytes) : Bytes :=
  match r.range with
  | none => body
  | some (start, stop) => (body.take stop).drop start

/-- The client of the object store: the text of its errors, and in which chunks it streams the
    bytes of a read. -/
structure ObjectClient where
  detail : String
  stream : ObjectRead → Bytes → List (Except Error Bytes)
  streams : ∀ r bytes, Streams bytes (stream r bytes)

/-- `get_object_stream` and `get_object_range` of the client. A range that holds nothing, or
    starts behind the last byte, is an error. -/
def ObjectRead.exec (client : ObjectClient) (r : ObjectRead) (w : World) :
    Except Error ObjectStream :=
  match w.objects[r.key]? with
  | none => .error (.fs (.notFound client.detail))
  | some o =>
    if r.range.any fun (start, stop) => stop ≤ start || o.body.length ≤ start then
      .error (.fs (.internal client.detail))
    else .ok ⟨(r.slice o.body).length, client.stream r (r.slice o.body)⟩

/-- Programs that also read objects. -/
abbrev Fetching (α : Type) : Type :=
  Prog (Sum.elim Call.Ans fun _ : ObjectRead => ObjectStream) Error α

def Fetching.exec (client : ObjectClient) :=
  Prog.execSum Call.exec fun (r : ObjectRead) w => (r.exec client w, w)

theorem run_fetching {α : Type} (client : ObjectClient) (p : M α) (w : World) :
    (p.inl : Fetching α).run (Fetching.exec client) w = p.runOn w := Prog.run_inl ..

def onObject (r : ObjectRead) : Fetching ObjectStream :=
  @Prog.perform _ (Sum.elim Call.Ans fun _ : ObjectRead => ObjectStream) _ (.inr r)

/-! ### The functions -/

/-- `FileMetadata`. -/
structure FileMetadata where
  id : String
  name : String
  mimetype : String
  size : Nat
  deriving DecidableEq, Repr

namespace FsEngine

/-- The start of the three reads: the check, then the record. -/
def readableFile (fileId callerSub : String) : M FileRecord := do
  if ← canAccess callerSub fileId .read then
    match ← onStore .master (.getFile fileId) with
    | none => Prog.fail (.fs (.notFound "file not found"))
    | some rec => pure rec
  else Prog.fail (.fs .forbidden)

def getMetadata (fileId callerSub : String) : M FileMetadata := do
  let rec ← readableFile fileId callerSub
  pure ⟨FileRecord.id rec, rec.name, rec.mimetype, rec.size⟩

def getObject (fileId callerSub : String) : Fetching (FileRecord × ObjectStream) := do
  let rec ← (readableFile fileId callerSub).inl
  let body ← onObject ⟨FileRecord.s3Key rec, none⟩
  pure (rec, body)

def getObjectRange (fileId callerSub : String) (start stop : Nat) :
    Fetching (FileRecord × ObjectStream) := do
  let rec ← (readableFile fileId callerSub).inl
  let start' := min start (FileRecord.size rec)
  let stop' := max (min stop rec.size) start'
  let body ← onObject ⟨rec.s3Key, some (start', stop')⟩
  pure (rec, body)

end FsEngine

/-- `char::is_control`. -/
def isControl (c : Char) : Bool := c.toNat < 0x20 || 0x7F ≤ c.toNat && c.toNat ≤ 0x9F

/-- A separator of path segments. -/
def isSeparator (c : Char) : Bool := c == '/' || c == '\\'

def sanitizeFilename (name : String) : String :=
  -- `rsplit` starts at the end
  let base := (name.toList.reverse.takeWhile fun c => !isSeparator c).reverse
  let cleaned := (base.filter fun c => !isControl c).map fun c =>
    if c = '\x22' ∨ c = '\\' then '_' else c
  let truncated :=
    Text.trim (String.ofList ((Text.trim (String.ofList cleaned)).toList.take 100))
  if truncated = "" then "file" else truncated

/-- The response to a download, with the headers that the route sets. -/
structure FileResponse where
  status : Nat
  contentType : Option String
  contentDisposition : Option String
  acceptRanges : Option String
  contentLength : Option Nat
  contentRange : Option String
  body : List (Except Error Bytes)

/-- A byte below 32 is refused in a header value, but for the tab, and so is 127. -/
def isHeaderChar (c : Char) : Bool := (decide (32 ≤ c.toNat) && c.toNat != 127) || c == '\t'

def isHeaderValue (s : String) : Bool := s.toList.all isHeaderChar

/-- What the server answers. -/
inductive HttpResponse where
  | file (response : FileResponse)
  /-- The error that the builder turns a header into that it cannot write. -/
  | invalidHeader

/-- The end of the builder. -/
def FileResponse.streaming (r : FileResponse) : HttpResponse :=
  if [r.contentType, r.contentDisposition, r.acceptRanges, r.contentRange].all
      fun value => value.all isHeaderValue then .file r
  else .invalidHeader

def contentDisposition (name : String) : String :=
  "inline; filename=\x22" ++ sanitizeFilename name ++ "\x22"

/-- `get_file`. -/
def getFile (id callerSub : String) (header : Option String) : Fetching HttpResponse := do
  -- one read for the check and for the total
  let info ← (FsEngine.getMetadata id callerSub).inl
  match parseRange header (FileMetadata.size info) with
  | .full => do
    let (rec, obj) ← FsEngine.getObject id callerSub
    pure (FileResponse.streaming ⟨200, some rec.mimetype, some (contentDisposition rec.name),
      some "bytes", some obj.size, none, obj.stream⟩)
  | .ranged start endInclusive => do
    let (rec, obj) ← FsEngine.getObjectRange id callerSub start (endInclusive + 1)
    -- the headers describe what is sent, not what was asked for
    let last := start + (obj.size - 1)
    pure (FileResponse.streaming ⟨206, some rec.mimetype, some (contentDisposition rec.name),
      some "bytes", some obj.size,
      some ("bytes " ++ toString start ++ "-" ++ toString last ++ "/" ++ toString info.size),
      obj.stream⟩)
  | .unsatisfiable =>
    pure (FileResponse.streaming ⟨416, none, none, none, none,
      some ("bytes */" ++ toString info.size), []⟩)

/-! ### The response to expect -/

/-- The bytes that the response to a header carries. -/
def requested (body : Bytes) (header : Option String) : Bytes :=
  match parseRange header body.length with
  | .full => body
  | .ranged first last => (body.take (last + 1)).drop first
  | .unsatisfiable => []

/-- The response that a file of this size has for a header, when this is its stream. A type that
    is no header value spoils it. -/
def FileRecord.response (rec : FileRecord) (size : Nat) (header : Option String)
    (stream : List (Except Error Bytes)) : HttpResponse :=
  match parseRange header size with
  | .full =>
    if isHeaderValue rec.mimetype then
      .file ⟨200, some rec.mimetype, some (contentDisposition rec.name), some "bytes", some size,
        none, stream⟩
    else .invalidHeader
  | .ranged first last =>
    if isHeaderValue rec.mimetype then
      .file ⟨206, some rec.mimetype, some (contentDisposition rec.name), some "bytes",
        some (last + 1 - first),
        some ("bytes " ++ toString first ++ "-" ++ toString last ++ "/" ++ toString size), stream⟩
    else .invalidHeader
  | .unsatisfiable =>
    .file ⟨416, none, none, none, none, some ("bytes */" ++ toString size), []⟩

/-- The response is that of the file, and its body streams the bytes that it is to carry. -/
def Answers (rec : FileRecord) (body : Bytes) (header : Option String) (response : HttpResponse) :
    Prop :=
  ∃ stream, Streams (requested body header) stream ∧
    response = rec.response body.length header stream

/-! ### Names in headers -/

/-- A file name that can stand between quotes in a header, and is no path. -/
structure SafeName (s : String) : Prop where
  given : s ≠ ""
  short : s.length ≤ 100
  plain : ∀ c ∈ s.toList, isSeparator c = false ∧ isControl c = false ∧ c ≠ '\x22'
  trimmed : Text.trim s = s

theorem SafeName.file : SafeName "file" where
  given := by decide
  short := by decide
  plain := by simp [isSeparator, isControl]
  trimmed := Text.trim_of_visible (by simp [Text.isWhitespace])

theorem sanitizeFilename_safe (name : String) : SafeName (sanitizeFilename name) := by
  obtain ⟨cleaned, clean⟩ : ∃ l : List Char, l = (((name.toList.reverse.takeWhile fun c =>
      !isSeparator c).reverse.filter fun c => !isControl c).map fun c =>
        if c = '\x22' ∨ c = '\\' then '_' else c) := ⟨_, rfl⟩
  have plain : ∀ c ∈ cleaned, isSeparator c = false ∧ isControl c = false ∧ c ≠ '\x22' := by
    intro c mem
    simp only [clean, List.mem_map, List.mem_filter, List.mem_reverse] at mem
    obtain ⟨c', ⟨base, control⟩, rfl⟩ := mem
    have segment := List.mem_takeWhile_imp base
    split
    · decide
    next other => exact ⟨by simpa using segment, by simpa using control, fun q => other (.inl q)⟩
  rw [sanitizeFilename, ← clean]
  split
  · exact .file
  next given =>
    have part := (Text.trim_infix (String.ofList ((Text.trim (String.ofList cleaned)).toList.take 100)))
    rw [String.toList_ofList] at part
    exact {
      given := given
      short := by
        rw [← String.length_toList]
        exact part.length_le.trans (List.length_take_le ..)
      plain := fun c mem => plain c (by
        have := List.mem_of_mem_take (part.subset mem)
        have := (Text.trim_infix _).subset this
        rwa [String.toList_ofList] at this)
      trimmed := Text.trim_trim _ }

theorem sanitizeFilename_of_safe {path name : String} (safe : SafeName name)
    (ends : ∀ c cs, path.toList = cs ++ [c] → isSeparator c = true) :
    sanitizeFilename (path ++ name) = name := by
  have base : ((path ++ name).toList.reverse.takeWhile fun c => !isSeparator c).reverse =
      name.toList := by
    rw [String.toList_append, List.reverse_append, List.takeWhile_append_of_pos (by
      simpa using fun c mem => (safe.plain c mem).1)]
    have stops : (path.toList.reverse.takeWhile fun c => !isSeparator c) = [] := by
      rcases List.eq_nil_or_concat path.toList with empty | ⟨cs, c, split⟩
      · rw [empty]
        rfl
      · rw [List.concat_eq_append] at split
        rw [split]
        simp [ends c cs split]
    rw [stops, List.append_nil, List.reverse_reverse]
  have kept : (name.toList.filter fun c => !isControl c) = name.toList :=
    List.filter_eq_self.mpr fun c mem => by simpa using (safe.plain c mem).2.1
  have same : (name.toList.map fun c => if c = '\x22' ∨ c = '\\' then '_' else c) = name.toList := by
    conv_rhs => rw [← List.map_id name.toList]
    apply List.map_congr_left
    intro c mem
    obtain ⟨segment, -, quote⟩ := safe.plain c mem
    have slash : c ≠ '\\' := by
      rintro rfl
      exact absurd segment (by decide)
    simp [quote, slash]
  have short : name.toList.take 100 = name.toList :=
    List.take_of_length_le (by rw [String.length_toList]; exact safe.short)
  rw [sanitizeFilename]
  simp only [base, kept, same, String.ofList_toList, safe.trimmed, short, if_neg safe.given]

/-- **What a response is named**. The name in the header is safe whatever the client called its
    file, and a safe name is kept, whatever path stands before it. -/
theorem sanitizeFilename_safe_iff (name : String) : SafeName (sanitizeFilename name) ∧
    (SafeName name ↔ sanitizeFilename name = name) ∧
    ∀ path, (∀ c cs, path.toList = cs ++ [c] → isSeparator c = true) → SafeName name →
      sanitizeFilename (path ++ name) = name := by
  refine ⟨sanitizeFilename_safe name, ⟨fun safe => ?_, fun same => ?_⟩, fun path ends safe =>
    sanitizeFilename_of_safe safe ends⟩
  · simpa using @sanitizeFilename_of_safe "" name safe (by simp)
  · exact same ▸ sanitizeFilename_safe name

/-! ### Header values -/

@[simp] theorem isHeaderValue_append (a b : String) :
    isHeaderValue (a ++ b) = (isHeaderValue a && isHeaderValue b) := by
  simp [isHeaderValue]

theorem isDigit_of_mem_toString {n : Nat} {c : Char} (mem : c ∈ (toString n).toList) :
    c.isDigit = true := by
  rw [Nat.toString_eq_ofList_toDigits, String.toList_ofList] at mem
  exact Nat.isDigit_of_mem_toDigits (by decide) (by decide) mem

theorem range_of_isDigit {c : Char} (digit : c.isDigit = true) : 48 ≤ c.toNat ∧ c.toNat ≤ 57 :=
  Char.isDigit_iff_toNat.mp digit

@[simp] theorem isHeaderValue_repr (n : Nat) : isHeaderValue n.repr = true := by
  rw [isHeaderValue, List.all_eq_true]
  intro c (mem : c ∈ (toString n).toList)
  have range := range_of_isDigit (isDigit_of_mem_toString mem)
  have low : 32 ≤ c.toNat := by omega
  have other : c.toNat ≠ 127 := by omega
  simp [isHeaderChar, low, other]

/-- A safe name needs no more care. -/
theorem SafeName.isHeaderValue {s : String} (safe : SafeName s) : isHeaderValue s = true := by
  rw [RustApi.isHeaderValue, List.all_eq_true]
  intro c mem
  have control := (safe.plain c mem).2.1
  simp only [isControl, Bool.or_eq_false_iff, Bool.and_eq_false_iff, decide_eq_false_iff_not] at control
  have low : 32 ≤ c.toNat := by omega
  have other : c.toNat ≠ 127 := by omega
  simp [isHeaderChar, low, other]

theorem isHeaderValue_contentDisposition (name : String) :
    isHeaderValue (contentDisposition name) = true := by
  have start : isHeaderValue "inline; filename=\x22" = true := by decide +kernel
  have quote : isHeaderValue "\x22" = true := by decide +kernel
  unfold contentDisposition
  rw [isHeaderValue_append, isHeaderValue_append, start, quote,
    (sanitizeFilename_safe name).isHeaderValue]
  rfl

/-- Of the headers of a file only the type can be one that is not written. -/
theorem streaming_file (status : Nat) (mimetype name : String) (length : Nat)
    {range : Option String} (range_ : range.all isHeaderValue = true)
    (stream : List (Except Error Bytes)) :
    FileResponse.streaming ⟨status, some mimetype, some (contentDisposition name), some "bytes",
      some length, range, stream⟩ =
      if isHeaderValue mimetype then .file ⟨status, some mimetype, some (contentDisposition name),
        some "bytes", some length, range, stream⟩
      else .invalidHeader := by
  have bytes : isHeaderValue "bytes" = true := by decide +kernel
  have named := isHeaderValue_contentDisposition name
  simp [FileResponse.streaming, range_, bytes, named]

theorem isHeaderValue_contentRange (first last size : Nat) : (some ("bytes " ++ toString first ++
    "-" ++ toString last ++ "/" ++ toString size)).all isHeaderValue = true := by
  have unit : isHeaderValue "bytes " = true := by decide +kernel
  have dash : isHeaderValue "-" = true := by decide +kernel
  have slash : isHeaderValue "/" = true := by decide +kernel
  simp [unit, dash, slash]

theorem streaming_unsatisfiable (size : Nat) :
    FileResponse.streaming ⟨416, none, none, none, none, some ("bytes */" ++ toString size), []⟩ =
      .file ⟨416, none, none, none, none, some ("bytes */" ++ toString size), []⟩ := by
  have unit : isHeaderValue "bytes */" = true := by decide +kernel
  simp [FileResponse.streaming, unit]

/-- The record of `f` and the bytes it names are these, where they are. -/
structure Serves (f : String) (rec : FileRecord) (body : Bytes) (w : World) : Prop where
  record : ∀ rec', FsStore.getFile f w.master = .ok (some rec') → rec' = rec
  object : ∀ o, w.objects[rec.s3Key]? = some o → o.body = body

theorem StoredAs.serves {f : String} {rec : FileRecord} {body : Bytes} {w : World}
    (stored : StoredAs f rec body w) : Serves f rec body w where
  record := fun rec' found => by
    rw [stored.record] at found
    cases found
    rfl
  object := fun o found => by
    obtain ⟨o', here, same⟩ := stored.object
    rw [here] at found
    cases found
    exact same

theorem parseRange_ranged {header : Option String} {total first last : Nat}
    (ranged : parseRange header total = .ranged first last) : first ≤ last ∧ last < total := by
  by_cases form : ∃ a b, Names header a b
  · obtain ⟨a, b, names⟩ := form
    rw [parseRange_of_names names, selectRange] at ranged
    -- the end is brought down to the last byte before it is compared
    have clamped : ∀ n, (if b = "" then some (total - 1) else
        (parseU64 b).map (min · (total - 1))) = some n → n ≤ total - 1 := by
      intro n given
      split at given
      · cases given
        exact Nat.le_refl _
      · obtain ⟨m, -, rfl⟩ := Option.map_eq_some_iff.mp given
        exact Nat.min_le_right ..
    grind
  · rw [parseRange_of_not_names form] at ranged
    cases ranged

/-! ### One response -/

section Response

variable {client : ObjectClient} {f sub : String} {rec : FileRecord} {body : Bytes}

theorem readableFile_among {rec' : FileRecord}
    (run : Prog.Among Call.exec (Serves f rec body) (FsEngine.readableFile f sub) (.ok rec')) :
    rec' = rec := by
  obtain ⟨granted, -, rest⟩ := run.bind_ok
  cases granted with
  | false => cases rest
  | true =>
    obtain ⟨found, reads, rest⟩ := rest.bind_ok
    obtain ⟨w, serves, row⟩ := reads.perform_ok
    cases found with
    | none => cases rest
    | some r =>
      cases rest
      exact serves.record _ row

theorem getMetadata_among {info : FileMetadata}
    (run : Prog.Among Call.exec (Serves f rec body) (FsEngine.getMetadata f sub) (.ok info)) :
    info = ⟨rec.id, rec.name, rec.mimetype, rec.size⟩ := by
  obtain ⟨rec', reads, rest⟩ := run.bind_ok
  obtain rfl := readableFile_among reads
  cases rest
  rfl

theorem onObject_among {range : Option (Nat × Nat)} {obj : ObjectStream}
    (run : Prog.Among (Fetching.exec client) (Serves f rec body)
      (onObject ⟨rec.s3Key, range⟩) (.ok obj)) :
    obj.size = (ObjectRead.slice ⟨rec.s3Key, range⟩ body).length ∧
      Streams (ObjectRead.slice ⟨rec.s3Key, range⟩ body) obj.stream := by
  obtain ⟨w, serves, read⟩ := run.perform_ok
  change ObjectRead.exec client ⟨rec.s3Key, range⟩ w = .ok obj at read
  unfold ObjectRead.exec at read
  cases found : w.objects[rec.s3Key]? with
  | none =>
    simp only [found] at read
    cases read
  | some o =>
    obtain rfl := serves.object o found
    simp only [found] at read
    split at read
    · cases read
    · cases read
      exact ⟨rfl, client.streams ..⟩

theorem getObject_among {result : FileRecord × ObjectStream}
    (run : Prog.Among (Fetching.exec client) (Serves f rec body) (FsEngine.getObject f sub)
      (.ok result)) :
    result.1 = rec ∧ result.2.size = body.length ∧ Streams body result.2.stream := by
  obtain ⟨rec', reads, fetches⟩ := run.bind_ok
  obtain ⟨obj, fetches, same⟩ := fetches.bind_ok
  rw [readableFile_among (Prog.Among.of_inl _ _ reads)] at fetches same
  have read := onObject_among fetches
  cases same
  exact ⟨rfl, read⟩

/-- Inside the file nothing is cut off. -/
theorem getObjectRange_among {start stop : Nat} (inside : start ≤ stop ∧ stop ≤ rec.size)
    (size : body.length = rec.size) {result : FileRecord × ObjectStream}
    (run : Prog.Among (Fetching.exec client) (Serves f rec body)
      (FsEngine.getObjectRange f sub start stop) (.ok result)) :
    result.1 = rec ∧ result.2.size = stop - start ∧
      Streams ((body.take stop).drop start) result.2.stream := by
  obtain ⟨rec', reads, fetches⟩ := run.bind_ok
  obtain ⟨obj, fetches, same⟩ := fetches.bind_ok
  rw [readableFile_among (Prog.Among.of_inl _ _ reads)] at fetches same
  have first : min start rec.size = start := by omega
  have last : max (min stop rec.size) start = stop := by omega
  rw [first, last] at fetches
  obtain ⟨long, streams⟩ := onObject_among fetches
  cases same
  have cut : ((body.take stop).drop start).length = stop - start := by
    rw [List.length_drop, List.length_take, size, Nat.min_eq_left inside.2]
  exact ⟨rfl, long.trans cut, streams⟩

theorem getFile_among (size : body.length = rec.size) {header : Option String}
    {response : HttpResponse}
    (run : Prog.Among (Fetching.exec client) (Serves f rec body) (getFile f sub header)
      (.ok response)) : Answers rec body header response := by
  -- the range is chosen by the first read of the record, the bytes are read after a second one
  obtain ⟨info, reads, rest⟩ := run.bind_ok
  obtain rfl := getMetadata_among (Prog.Among.of_inl _ _ reads)
  simp only [Answers, requested, FileRecord.response, size]
  simp only at rest
  cases asked : parseRange header rec.size with
  | full =>
    simp only [asked] at rest ⊢
    obtain ⟨result, fetches, rest⟩ := rest.bind_ok
    obtain ⟨same, long, streams⟩ := getObject_among fetches
    cases rest
    refine ⟨result.2.stream, streams, ?_⟩
    rw [streaming_file _ _ _ _ rfl, same, long, size]
  | ranged first last =>
    obtain ⟨ordered, inside⟩ := parseRange_ranged asked
    simp only [asked] at rest ⊢
    obtain ⟨result, fetches, rest⟩ := rest.bind_ok
    obtain ⟨same, long, streams⟩ := getObjectRange_among ⟨by omega, inside⟩ size fetches
    cases rest
    have back : first + (last + 1 - first - 1) = last := by omega
    refine ⟨result.2.stream, streams, ?_⟩
    rw [streaming_file _ _ _ _ (isHeaderValue_contentRange ..), same, long, back]
  | unsatisfiable =>
    simp only [asked] at rest ⊢
    cases rest
    exact ⟨[], ⟨List.prefix_refl _, fun _ => rfl⟩, streaming_unsatisfiable _⟩

end Response

/-! ### A file in pieces -/

theorem decimal_toString {n : Nat} (small : n < 2 ^ 64) : decimal (toString n) = some n := by
  have chars : (toString n).toList = Nat.toDigits 10 n := by
    rw [Nat.toString_eq_ofList_toDigits, String.toList_ofList]
  have value : (Nat.toDigits 10 n).foldl (fun n c => n * 10 + (c.toNat - '0'.toNat)) 0 = n := by
    have := Nat.ofDigitChars_ten_toDigits (n := n)
    rw [Nat.ofDigitChars_eq_foldl] at this
    simpa [Nat.mul_comm] using this
  have digits : ¬ (toString n = "" ∨ ¬ (toString n).toList.all Char.isDigit = true) := by
    rw [not_or, not_not, List.all_eq_true, ← String.toList_eq_nil_iff, chars]
    exact ⟨Nat.toDigits_ne_nil, fun c mem =>
      Nat.isDigit_of_mem_toDigits (by decide) (by decide) mem⟩
  rw [decimal, if_neg digits, chars, value, if_pos small]

theorem isWhitespace_of_isDigit {c : Char} (digit : c.isDigit = true) :
    Text.isWhitespace c = false := by
  have range := range_of_isDigit digit
  simp only [Text.isWhitespace, Bool.or_eq_false_iff, Bool.and_eq_false_iff, decide_eq_false_iff_not,
    beq_eq_false_iff_ne]
  omega

/-- A range without white space is requested as it stands. -/
theorem requests_of_form {r : RangeSpec} {a b : String} (form : r.Form a b)
    (visible : ∀ c ∈ a.toList ++ b.toList, Text.isWhitespace c = false) :
    Requests (some ("bytes=" ++ (a ++ "-" ++ b))) r := by
  refine ⟨_, a, b, rfl, Text.trim_of_visible fun c mem => ?_, form⟩
  have fixed : ∀ c ∈ "bytes=".toList ++ "-".toList, Text.isWhitespace c = false := by
    simp [Text.isWhitespace]
  simp only [String.toList_append, List.mem_append] at mem visible fixed
  rcases mem with unit | (first | dash) | last
  · exact fixed c (.inl unit)
  · exact visible c (.inl first)
  · exact fixed c (.inr dash)
  · exact visible c (.inr last)

theorem parseRange_requested {header : Option String} {r : RangeSpec} (requests : Requests header r)
    (proper : r.Proper) {total : Nat} (satisfied : ¬ r.Unsatisfied total) :
    parseRange header total = .ranged (r.clamp total).1 (r.clamp total).2 := by
  obtain ⟨a, b, names, form⟩ := requests_iff.mp requests
  rw [parseRange_of_names names, ((selectRange_of_proper form proper total).2 satisfied).1]

/-- The header with which a client asks for the bytes from `a` to before `b`. -/
def pieceHeader (a b : Nat) : String := "bytes=" ++ (toString a ++ "-" ++ toString (b - 1))

/-- The header with which a client asks for the rest of a file. -/
def restHeader (a : Nat) : String := "bytes=" ++ (toString a ++ "-" ++ "")

theorem visible_toString (n : Nat) : ∀ c ∈ (toString n).toList, Text.isWhitespace c = false :=
  fun _ mem => isWhitespace_of_isDigit (isDigit_of_mem_toString mem)

theorem parseRange_piece {a b total : Nat} (piece : a < b) (inside : b ≤ total)
    (small : total < 2 ^ 64) : parseRange (some (pieceHeader a b)) total = .ranged a (b - 1) := by
  have form : (RangeSpec.between a (b - 1)).Form (toString a) (toString (b - 1)) :=
    ⟨decimal_toString (by omega), decimal_toString (by omega)⟩
  have requests := requests_of_form form fun c mem =>
    (List.mem_append.mp mem).elim (visible_toString a c) (visible_toString (b - 1) c)
  have proper : (RangeSpec.between a (b - 1)).Proper := Nat.le_sub_one_of_lt piece
  have satisfied : ¬ (RangeSpec.between a (b - 1)).Unsatisfied total := by
    simp only [RangeSpec.Unsatisfied]
    omega
  have last : min (b - 1) (total - 1) = b - 1 := by omega
  rw [pieceHeader, parseRange_requested requests proper satisfied, RangeSpec.clamp, last]

theorem parseRange_rest {a total : Nat} (inside : a < total) (small : total < 2 ^ 64) :
    parseRange (some (restHeader a)) total = .ranged a (total - 1) := by
  have form : (RangeSpec.onward a).Form (toString a) "" := ⟨decimal_toString (by omega), rfl⟩
  have requests := requests_of_form form fun c mem =>
    visible_toString a c (by simpa using mem)
  have satisfied : ¬ (RangeSpec.onward a).Unsatisfied total := by
    simp only [RangeSpec.Unsatisfied]
    omega
  rw [restHeader, parseRange_requested requests trivial satisfied, RangeSpec.clamp]

/-- A client fetches a file from its start, piece by piece, each from where it has come to: up to
    some byte, or all that is left. Each response comes while others run, and its stream may break
    off. -/
inductive Fetched (f sub : String) (rec : FileRecord) (body : Bytes) : Bytes → Prop
  | start : Fetched f sub rec body []
  | piece {client : ObjectClient} {upto : Nat} {got : Bytes} {response : FileResponse} :
      got.length < upto → upto ≤ rec.size → Fetched f sub rec body got →
      Prog.Among (Fetching.exec client) (Serves f rec body)
        (getFile f sub (some (pieceHeader got.length upto))) (.ok (.file response)) →
      Fetched f sub rec body (got ++ delivered response.body)
  | rest {client : ObjectClient} {got : Bytes} {response : FileResponse} :
      got.length < rec.size → Fetched f sub rec body got →
      Prog.Among (Fetching.exec client) (Serves f rec body)
        (getFile f sub (some (restHeader got.length))) (.ok (.file response)) →
      Fetched f sub rec body (got ++ delivered response.body)

section Pieces

variable {f sub : String} {rec : FileRecord} {body : Bytes}

/-- The stream of a response to a range carries the bytes of the range. -/
theorem Answers.streams_of_ranged {header : Option String} {response : FileResponse}
    (answers : Answers rec body header (.file response)) {first last : Nat}
    (asked : parseRange header body.length = .ranged first last) :
    Streams ((body.take (last + 1)).drop first) response.body := by
  obtain ⟨stream, streams, same⟩ := answers
  simp only [requested, FileRecord.response, asked] at streams same
  split at same
  · cases same
    exact streams
  · cases same

theorem Fetched.prefix (size : body.length = rec.size) (small : rec.size < 2 ^ 64)
    {got : Bytes} (fetched : Fetched f sub rec body got) : got <+: body := by
  -- a start of what comes behind a start makes a longer start
  have join : ∀ (got : Bytes) upto stream, got.length < upto → got <+: body →
      Streams ((body.take upto).drop got.length) stream → got ++ delivered stream <+: body := by
    intro got upto stream order start streams
    have here : got <+: body.take upto := List.prefix_take_iff.mpr ⟨start, Nat.le_of_lt order⟩
    have whole : got ++ (body.take upto).drop got.length = body.take upto :=
      List.prefix_iff_eq_append.mp here
    calc got ++ delivered stream
        <+: got ++ (body.take upto).drop got.length := (List.prefix_append_right_inj got).mpr streams.start
      _ = body.take upto := whole
      _ <+: body := List.take_prefix _ _
  induction fetched with
  | start => exact List.nil_prefix
  | @piece client upto got response order inside _ run ih =>
    have step : upto - 1 + 1 = upto := by omega
    have streams := (getFile_among size run).streams_of_ranged
      (size ▸ parseRange_piece order inside small)
    rw [step] at streams
    exact join got upto _ order ih streams
  | @rest client got response inside _ run ih =>
    rw [← size] at inside small
    have step : body.length - 1 + 1 = body.length := by omega
    have streams := (getFile_among size run).streams_of_ranged (parseRange_rest inside small)
    rw [step] at streams
    exact join got _ _ inside ih streams

end Pieces

/-! ### A download alone -/

section Alone

variable {client : ObjectClient} {f sub : String} {rec : FileRecord} {body : Bytes} {w : World}

/-- A read of the master or of the enforcer. -/
def Call.Reads (c : Call) : Prop := ∀ w, (Call.exec c w).2 = w

theorem readableFile_reads (f sub : String) : (FsEngine.readableFile f sub).Only Call.Reads := by
  have ends {α : Type} (r : Except Error α) : (Prog.ret r : M α).Only Call.Reads := trivial
  have record : (onStore .master (.getFile f)).Only Call.Reads := ⟨fun _ => rfl, ends⟩
  have rows : ∀ l, (FsEngine.anyRowAuthorizes sub .read l).Only Call.Reads := by
    intro l
    induction l with
    | nil => exact ends _
    | cons row rows ih =>
      refine Prog.only_bind ⟨fun _ => rfl, ends⟩ fun policy => ?_
      split
      · exact ends _
      · exact ih
  have access : (FsEngine.canAccess sub f .read).Only Call.Reads := by
    refine Prog.only_bind record fun found => ?_
    cases found with
    | none => exact ends _
    | some rec =>
      refine Prog.only_bind ⟨fun _ => rfl, ends⟩ fun marked => ?_
      split
      · exact ends _
      · exact rows _
  refine Prog.only_bind access fun granted => ?_
  cases granted with
  | false => exact ends _
  | true =>
    refine Prog.only_bind record fun found => ?_
    cases found with
    | none => exact ends _
    | some rec => exact ends _

/-- A download changes nothing. -/
theorem getFile_reads (f sub : String) (header : Option String) :
    (getFile f sub header).Only (Sum.elim Call.Reads fun _ => True) := by
  have ends {α : Type} (r : Except Error α) :
      (Prog.ret r : Fetching α).Only (Sum.elim Call.Reads fun _ => True) := trivial
  have fetch (r : ObjectRead) : (onObject r).Only (Sum.elim Call.Reads fun _ => True) :=
    ⟨trivial, ends⟩
  have reads {α : Type} {p : M α} (only : p.Only Call.Reads) :
      (p.inl : Fetching α).Only (Sum.elim Call.Reads fun _ => True) := only.inl
  have record := reads (readableFile_reads f sub)
  have info := reads (p := FsEngine.getMetadata f sub)
    (Prog.only_bind (readableFile_reads f sub) fun rec => trivial)
  refine Prog.only_bind info fun info => ?_
  split
  · exact Prog.only_bind (Prog.only_bind record fun rec => Prog.only_bind (fetch _) fun obj => ends _)
      fun result => ends _
  · exact Prog.only_bind (Prog.only_bind record fun rec => Prog.only_bind (fetch _) fun obj => ends _)
      fun result => ends _
  · exact ends _

theorem run_readableFile (access : (FsEngine.canAccess sub f .read).runOn w = (.ok true, w))
    (record : FsStore.getFile f w.master = .ok (some rec)) :
    (FsEngine.readableFile f sub).runOn w = (.ok rec, w) := by
  rw [FsEngine.readableFile, M.runOn_bind_of_ok access]
  exact (M.runOn_bind_of_ok ((run_getFile w f).trans (by rw [record]))).trans rfl

theorem run_onObject {o : Object} {key : String} (object : w.objects[key]? = some o)
    {range : Option (Nat × Nat)}
    (inside : ∀ start stop, range = some (start, stop) → start < stop ∧ start < o.body.length) :
    (onObject ⟨key, range⟩).run (Fetching.exec client) w =
      (.ok ⟨(ObjectRead.slice ⟨key, range⟩ o.body).length,
        client.stream ⟨key, range⟩ (ObjectRead.slice ⟨key, range⟩ o.body)⟩, w) := by
  change (ObjectRead.exec client ⟨key, range⟩ w, w) = _
  rw [ObjectRead.exec, object]
  simp only
  rw [if_neg]
  cases range with
  | none => exact Bool.false_ne_true
  | some cut =>
    obtain ⟨before, within⟩ := inside cut.1 cut.2 rfl
    simp
    omega

/-- The range of the object that the response to a header is read from. -/
def requestedRange (size : Nat) (header : Option String) : Option (Nat × Nat) :=
  match parseRange header size with
  | .ranged first last => some (first, last + 1)
  | _ => none

theorem run_getFile_route (access : (FsEngine.canAccess sub f .read).runOn w = (.ok true, w))
    (stored : StoredAs f rec body w) (client : ObjectClient) (header : Option String) :
    (getFile f sub header).run (Fetching.exec client) w =
      (.ok (rec.response body.length header (client.stream
        ⟨rec.s3Key, requestedRange body.length header⟩ (requested body header))), w) := by
  obtain ⟨o, object, rfl⟩ := stored.object
  have record := run_readableFile access stored.record
  have info : (FsEngine.getMetadata f sub).runOn w =
      (.ok ⟨rec.id, rec.name, rec.mimetype, rec.size⟩, w) := by
    rw [FsEngine.getMetadata, M.runOn_bind_of_ok record]
    rfl
  rw [getFile, Prog.run_bind_of_ok _ _ ((run_fetching ..).trans info)]
  simp only [FileRecord.response, requested, requestedRange, stored.size]
  cases asked : parseRange header rec.size with
  | full =>
    simp only
    have fetches : (FsEngine.getObject f sub).run (Fetching.exec client) w =
        (.ok (rec, ⟨o.body.length, client.stream ⟨rec.s3Key, none⟩ o.body⟩), w) := by
      rw [FsEngine.getObject, Prog.run_bind_of_ok _ _ ((run_fetching ..).trans record),
        Prog.run_bind_of_ok _ _ (run_onObject object (by simp))]
      rfl
    rw [Prog.run_bind_of_ok _ _ fetches]
    simp only [streaming_file _ _ _ _ (rfl : Option.all isHeaderValue none = true), stored.size]
    rfl
  | ranged first last =>
    obtain ⟨ordered, inside⟩ := parseRange_ranged asked
    -- the engine clamps the range once more, which changes nothing after `parse_range`
    have bounds : min first rec.size = first ∧
        max (min (last + 1) rec.size) first = last + 1 := by omega
    have long : ((o.body.take (last + 1)).drop first).length = last + 1 - first := by
      rw [List.length_drop, List.length_take, stored.size, Nat.min_eq_left inside]
    have fetches : (FsEngine.getObjectRange f sub first (last + 1)).run (Fetching.exec client) w =
        (.ok (rec, ⟨last + 1 - first, client.stream ⟨rec.s3Key, some (first, last + 1)⟩
          ((o.body.take (last + 1)).drop first)⟩), w) := by
      rw [FsEngine.getObjectRange, Prog.run_bind_of_ok _ _ ((run_fetching ..).trans record)]
      simp only [bounds]
      rw [Prog.run_bind_of_ok _ _ (run_onObject object fun start stop same => ?_), ← long]
      · rfl
      · cases same
        rw [stored.size]
        omega
    simp only
    rw [Prog.run_bind_of_ok _ _ fetches]
    have back : first + (last + 1 - first - 1) = last := by omega
    simp only [streaming_file _ _ _ _ (isHeaderValue_contentRange ..), back]
    rfl
  | unsatisfiable =>
    simp only [streaming_unsatisfiable]
    rfl

/-- The answer to a caller with access who is alone. -/
theorem getFile_answers (access : (FsEngine.canAccess sub f .read).runOn w = (.ok true, w))
    (stored : StoredAs f rec body w) (client : ObjectClient) (header : Option String) :
    ∃ response, (getFile f sub header).run (Fetching.exec client) w = (.ok response, w) ∧
      Answers rec body header response :=
  ⟨_, run_getFile_route access stored client header, _, client.streams _ _, rfl⟩

end Alone

/-- **Downloads are faithful**. While the record and the bytes of a file are not replaced, every
    response has the headers of the bytes it was asked for, and streams these, whatever runs in
    between; what a client fetches in pieces, one after the other, is the start of the file, where
    streams break off too; and a caller with access who is alone is answered. -/
theorem getFile_faithful {f : String} {rec : FileRecord} {body : Bytes}
    (size : body.length = rec.size) (small : rec.size < 2 ^ 64) (sub : String) :
    (∀ client header response, Prog.Among (Fetching.exec client) (Serves f rec body)
      (getFile f sub header) (.ok response) → Answers rec body header response) ∧
    (∀ got, Fetched f sub rec body got → got <+: body) ∧
    ∀ client header w, (FsEngine.canAccess sub f .read).runOn w = (.ok true, w) →
      StoredAs f rec body w →
      ∃ response, (getFile f sub header).run (Fetching.exec client) w = (.ok response, w) ∧
        Answers rec body header response :=
  ⟨fun _ _ _ run => getFile_among size run, fun _ fetched => fetched.prefix size small,
    fun client header _ access stored => getFile_answers access stored client header⟩

/-- A client that streams all bytes in one chunk. -/
def ObjectClient.steady : ObjectClient where
  detail := ""
  stream := fun _ bytes => [.ok bytes]
  streams := fun _ bytes => ⟨by simp [delivered], by simp [delivered]⟩

/-- A client whose streams break off after the first byte. -/
def ObjectClient.breaking : ObjectClient where
  detail := ""
  stream := fun _ bytes => [.ok (bytes.take 1), .error (.fs (.internal ""))]
  streams := fun _ bytes => {
    start := by
      rw [delivered, delivered, List.append_nil]
      · exact List.take_prefix 1 bytes
      · simp
    whole := fun unbroken => by simp [Except.isOk, Except.toBool] at unbroken }

/-- A file of three bytes. -/
def threeBytes : FileRecord := ⟨"f", "scan.pdf", "application/pdf", 3, "files/f", "alice", 0⟩

def threeBytesWorld : World :=
  { World.init longIds with
    master := FsStore.saveFile threeBytes ∅
    objects := (∅ : Kv Object).insert "files/f" ⟨[1, 2, 3], 0⟩ }

theorem threeBytes_stored : StoredAs "f" threeBytes [1, 2, 3] threeBytesWorld where
  record := by decide +kernel
  closed := by decide +kernel
  object := ⟨⟨[1, 2, 3], 0⟩, by decide +kernel, rfl⟩
  size := rfl

/-- The owner asks for two bytes, gets one before the stream breaks off, and fetches the rest. -/
theorem getFile_faithful_resumed : ∃ got,
    Fetched "f" "alice" threeBytes [1, 2, 3] got ∧ got <+: [1, 2, 3] ∧ got.length = 3 := by
  have access : (FsEngine.canAccess "alice" "f" .read).runOn threeBytesWorld =
      (.ok true, threeBytesWorld) := by
    rw [FsEngine.canAccess, M.runOn_bind_of_ok ((run_getFile threeBytesWorld "f").trans
      (by rw [threeBytes_stored.record]))]
    rfl
  have among (client : ObjectClient) (header : Option String) : Prog.Among (Fetching.exec client)
      (Serves "f" threeBytes [1, 2, 3]) (getFile "f" "alice" header)
      (.ok (threeBytes.response 3 header (client.stream ⟨"files/f", requestedRange 3 header⟩
        (requested [1, 2, 3] header)))) := by
    have run := run_getFile_route access threeBytes_stored client header
    have alone : Prog.Among (Fetching.exec client) (Serves "f" threeBytes [1, 2, 3])
        (getFile "f" "alice" header)
        ((getFile "f" "alice" header).run (Fetching.exec client) threeBytesWorld).1 :=
      (getFile_reads "f" "alice" header).among threeBytes_stored.serves fun c w reads serves => by
        cases c with
        | inl c =>
          rw [show (Fetching.exec client (.inl c) w).2 = w from reads w]
          exact serves
        | inr r => exact serves
    rwa [run] at alone
  have pdf : isHeaderValue threeBytes.mimetype = true := by decide +kernel
  have first := among .breaking (some (pieceHeader 0 2))
  have second := among .steady (some (restHeader 1))
  simp only [FileRecord.response, requested, requestedRange, List.length_cons, List.length_nil,
    Nat.reduceAdd, parseRange_piece (show 0 < 2 by decide) (show 2 ≤ 3 by decide) (by decide),
    parseRange_rest (show 1 < 3 by decide) (by decide), if_pos pdf] at first second
  have fetched := Fetched.rest (by decide) (.piece (by decide) (by decide) .start first) second
  exact ⟨_, fetched, (getFile_faithful (by decide) (by decide) "alice").2.1 _ fetched, rfl⟩

end RustApi
