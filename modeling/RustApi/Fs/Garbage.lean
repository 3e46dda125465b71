import RustApi.Fs.Gc

/-!
# What a sweep collects

A sweep that nothing disturbs, over a store whose rows lie where the engine puts them. What
it takes away is read off the world at its start: expired sessions with all they have stored,
files that no row has had for the time to live, and old objects that no listed row names. The
session pass frees the names of sessions too late for the byte pass of the same sweep, which
still spares them.

## Main results

- `sweep_exact`: a sweep removes its garbage and nothing else, and announces each deleted file.
- `sweeps_settle`: after two sweeps there is no garbage, and a third changes nothing.
-/

namespace RustApi

open Lib

/-! ### Entries of a feed -/

namespace Wal

/-- `ops` are appended one after the other, at time `now`. -/
inductive Fed (now : Int) : List WalOp → Kv WalValue → Kv WalValue → Prop
  | nil (kv : Kv WalValue) : Fed now [] kv kv
  | cons {op : WalOp} {ops : List WalOp} {kv kv₁ kv' : Kv WalValue} {n : Nat} :
      append now op kv = .ok (n, kv₁) → Fed now ops kv₁ kv' → Fed now (op :: ops) kv kv'

variable {now : Int} {ops ops' : List WalOp} {kv kv' kv'' : Kv WalValue}

theorem Fed.trans (first : Fed now ops kv kv') (second : Fed now ops' kv' kv'') :
    Fed now (ops ++ ops') kv kv'' := by
  induction first with
  | nil kv => exact second
  | cons added _ ih => exact .cons added (ih second)

theorem Fed.eq (fed : Fed now [] kv kv') : kv' = kv := by
  cases fed
  rfl

/-- The log holds the new entries behind the old ones. -/
theorem Fed.log (fed : Fed now ops kv kv') {entries : List WalEntry} (log : Log kv entries) :
    ∃ new, Log kv' (entries ++ new) ∧ new.map (·.op) = ops ∧ ∀ e ∈ new, e.ts = now := by
  induction fed generalizing entries with
  | nil kv => exact ⟨[], by simpa using log, rfl, by simp⟩
  | @cons op ops kv kv₁ kv' n added _ ih =>
    obtain ⟨kv₂, again, log'⟩ := log.append_eq now op
    obtain rfl : kv₁ = kv₂ := (Prod.mk.inj (Except.ok.inj (added.symm.trans again))).2
    obtain ⟨new, longer, ops', times⟩ := ih log'
    refine ⟨⟨entries.length + 1, op, now⟩ :: new, ?_, ?_, ?_⟩
    · simpa using longer
    · simp [ops']
    · simpa using times

end Wal

/-! ### Garbage -/

/-- What is taken away: rows of the master, objects, uploads in the client's map and in the
    backend, and the ids of the files whose deletion is announced. -/
structure Garbage where
  rows : Set String
  objects : Set String
  states : Set String
  uploads : Set String
  files : List String

namespace Garbage

def empty : Garbage := ⟨∅, ∅, ∅, ∅, []⟩

def append (g g' : Garbage) : Garbage :=
  ⟨g.rows ∪ g'.rows, g.objects ∪ g'.objects, g.states ∪ g'.states, g.uploads ∪ g'.uploads,
    g.files ++ g'.files⟩

/-- The garbage of all items of a list. -/
def all {α : Type} (of : α → Garbage) : List α → Garbage
  | [] => empty
  | a :: as => (of a).append (all of as)

theorem all_congr {α : Type} {of of' : α → Garbage} {as : List α} (same : ∀ a ∈ as, of a = of' a) :
    all of as = all of' as := by
  induction as with
  | nil => rfl
  | cons a as ih =>
    rw [all, all, same a (.head _), ih fun b mem => same b (.tail _ mem)]

section All

variable {α : Type} {of : α → Garbage} {as : List α} {k : String}

theorem mem_rows_all : k ∈ (all of as).rows ↔ ∃ a ∈ as, k ∈ (of a).rows := by
  induction as with
  | nil => simp [all, empty]
  | cons a as ih => simp [all, append, ih]

theorem mem_objects_all : k ∈ (all of as).objects ↔ ∃ a ∈ as, k ∈ (of a).objects := by
  induction as with
  | nil => simp [all, empty]
  | cons a as ih => simp [all, append, ih]

end All

end Garbage

/-- `w'` is `w` without the garbage, and with an entry in the feed for each deleted file. -/
structure Swept (g : Garbage) (w w' : World) : Prop where
  rows : Kv.Cleared g.rows w.master w'.master
  objects : Kv.Cleared g.objects w.objects w'.objects
  states : Kv.Cleared g.states w.states w'.states
  uploads : Kv.Cleared g.uploads w.uploads w'.uploads
  feed : Wal.Fed w.clock (g.files.map .fileDelete) w.wal w'.wal
  rest : { w' with
    master := w.master
    objects := w.objects
    states := w.states
    uploads := w.uploads
    wal := w.wal } = w

namespace Swept

variable {g g' : Garbage} {w w' w'' : World}

theorem refl (w : World) : Swept .empty w w :=
  ⟨.refl _, .refl _, .refl _, .refl _, .nil _, rfl⟩

theorem clock (swept : Swept g w w') : w'.clock = w.clock :=
  (congrArg World.clock swept.rest :)

theorem trans (first : Swept g w w') (second : Swept g' w' w'') :
    Swept (g.append g') w w'' where
  rows := first.rows.trans second.rows
  objects := first.objects.trans second.objects
  states := first.states.trans second.states
  uploads := first.uploads.trans second.uploads
  feed := by
    rw [Garbage.append, List.map_append]
    exact first.feed.trans (first.clock ▸ second.feed)
  rest := by
    have later := congrArg (fun v : World => { v with
      master := w.master
      objects := w.objects
      states := w.states
      uploads := w.uploads
      wal := w.wal }) second.rest
    exact later.trans first.rest

/-- With nothing to take away the world is the same. -/
theorem eq (swept : Swept g w w') (rows : ∀ k ∈ g.rows, w.master[k]? = none)
    (objects : ∀ k ∈ g.objects, w.objects[k]? = none)
    (states : ∀ k ∈ g.states, w.states[k]? = none)
    (uploads : ∀ k ∈ g.uploads, w.uploads[k]? = none) (files : g.files = []) : w' = w := by
  have feed := swept.feed
  rw [files] at feed
  rw [← swept.rest, ← swept.rows.eq rows, ← swept.objects.eq objects, ← swept.states.eq states,
    ← swept.uploads.eq uploads, ← feed.eq]

theorem eq_of_empty (swept : Swept .empty w w') : w' = w :=
  swept.eq (fun _ mem => mem.elim) (fun _ mem => mem.elim) (fun _ mem => mem.elim)
    (fun _ mem => mem.elim) rfl

/-- The lock of a session makes no difference. -/
theorem unlocked {id : String} (swept : Swept g { w with locks := id :: w.locks } w') :
    Swept g w { w' with locks := w'.locks.erase id } where
  rows := swept.rows
  objects := swept.objects
  states := swept.states
  uploads := swept.uploads
  feed := swept.feed
  rest := by
    have locks : w'.locks = id :: w.locks := (congrArg World.locks swept.rest :)
    rw [locks, List.erase_cons_head]
    exact congrArg (fun v : World => { v with locks := w.locks }) swept.rest

end Swept

namespace Gc

/-! ### What is garbage -/

/-- The rows of a session, and what it has stored. A multipart upload can be addressed while its
    record is there. -/
def ofSession (kv : Kv Value) (s : UploadSession) : Garbage where
  rows := {k | k = FsStore.sessionKey s.id ∨ (∃ i < s.fileTotalParts, k = FsStore.stagedKey s.id i) ∨
    ∃ u, s.s3UploadId = some u ∧ k = FsStore.multipartKey u}
  objects := {k | s.s3UploadId = none ∧ k = s.s3Key}
  states := {u | s.s3UploadId = some u ∧ ∃ m, FsStore.loadMultipart u kv = .ok (some m)}
  uploads := {b | ∃ u m, s.s3UploadId = some u ∧ FsStore.loadMultipart u kv = .ok (some m) ∧
    m.s3UploadId = b}
  files := []

/-- The rows of a file with the markers that name it, and its object. -/
def ofFile (f : FileRecord) : Garbage where
  rows := {k | FsStore.MarkerOf f.id k ∨ k = FsStore.fileKey f.id ∨ k = FsStore.refsKey f.id}
  objects := {f.s3Key}
  states := ∅
  uploads := ∅
  files := [f.id]

/-- No row has the file, and none has had it for the time to live. -/
def isCondemned (now : Int) (kv : Kv Value) (f : FileRecord) : Bool :=
  match FsStore.getRefInfo f.id kv with
  | .error _ => false
  | .ok info => decide (info.count = 0 ∧ now - info.orphanSince.getD f.createdAt > ttlSecs)

def expired (w : World) : List UploadSession :=
  (FsStore.listSessions w.master).records.filter (·.isExpired w.clock ttlSecs)

def condemned (w : World) : List FileRecord :=
  (FsStore.listFiles w.master).records.filter (isCondemned w.clock w.master)

/-- The keys that the listed rows name. -/
def live (w : World) : List String :=
  (FsStore.listSessions w.master).records.map (·.s3Key) ++
    (FsStore.listFiles w.master).records.map (·.s3Key)

/-- An old object that no row names, when every row can be read. -/
def Stray (w : World) (k : String) : Prop :=
  ((FsStore.listSessions w.master).undecodable = [] ∧
    (FsStore.listFiles w.master).undecodable = []) ∧
  Text.startsWith fileBytesPrefix k = true ∧ k ∉ live w ∧
  ∃ o, w.objects[k]? = some o ∧ w.clock - o.lastModified > ttlSecs

def strays (w : World) : Garbage := ⟨∅, {k | Stray w k}, ∅, ∅, []⟩

/-- What the next sweep takes away. -/
def garbage (w : World) : Garbage :=
  (Garbage.all (ofSession w.master) (expired w)).append
    ((Garbage.all ofFile (condemned w)).append (strays w))

/-! ### What the engine keeps true of its rows -/

/-- The record of a multipart session is gone, or it is of the session's own upload. -/
def Matched (bucket : String) (kv : Kv Value) (s : UploadSession) : Prop :=
  ∀ u, s.s3UploadId = some u → FsStore.loadMultipart u kv = .ok none ∨
    ∃ m, FsStore.loadMultipart u kv = .ok (some m) ∧ m.uploadId = u ∧ m.bucket = bucket ∧
      m.key = s.s3Key ∧ m.bucket ≠ "" ∧ m.key ≠ ""

/-- Rows lie under their own keys, and uploads belong to one session. -/
structure Tidy (bucket : String) (kv : Kv Value) : Prop where
  session : ∀ (k : String) (s : UploadSession), kv[k]? = some (.session s) →
    k = FsStore.sessionKey s.id
  file : ∀ (k : String) (f : FileRecord), kv[k]? = some (.file f) → k = FsStore.fileKey f.id
  matched : ∀ s ∈ (FsStore.listSessions kv).records, Matched bucket kv s
  apart : ∀ s ∈ (FsStore.listSessions kv).records, ∀ s' ∈ (FsStore.listSessions kv).records,
    ∀ u, s.s3UploadId = some u → s'.s3UploadId = some u → s.id = s'.id

/-! ### The session pass -/

section Sessions

variable {bucket : String} {w : World} {s : UploadSession}

private theorem run_load {u : String} {answer : Option PersistedMultipart}
    (row : FsStore.loadMultipart u w.master = .ok answer) :
    (onStore .master (.loadMultipart u)).runOn w = (.ok answer, w) :=
  Prod.ext row rfl

/-- An upload that is in the map is aborted, whether the backend still has it or not. -/
private theorem abortMultipart_swept {u : String} {state : MultipartState}
    (found : w.states[u]? = some state) (bucket' : state.bucket = bucket)
    (key' : state.key = s.s3Key) :
    ∃ r uploads, M.runOn (S3.abortMultipartUpload bucket s.s3Key u).attempt w =
        (.ok r, { w with states := w.states.erase u, uploads := uploads }) ∧
      Kv.Cleared {state.id} w.uploads uploads ∧ (r = .ok () ∨ ∃ d, r = .error (.fs (.notFound d))) := by
  have taken : (onS3 (.removeStateOf bucket s.s3Key u)).runOn w =
      (.ok (some state), { w with states := w.states.erase u }) := by
    simp [onS3, M.runOn, Call.exec, S3Call.exec, found, bucket', key']
  have aborted : (S3.abortMultipartUpload bucket s.s3Key u).runOn w =
      (onS3 (.abortMultipart state.id)).runOn { w with states := w.states.erase u } := by
    rw [S3.abortMultipartUpload, M.runOn_bind_of_ok taken]
  have attempted : ∀ p : M Unit, M.runOn p.attempt w = (.ok (p.runOn w).1, (p.runOn w).2) :=
    fun p => Prog.run_attempt _ p w
  rw [attempted, aborted]
  -- the backend may have lost the upload; the map forgets it either way
  by_cases there : state.id ∈ w.uploads
  · refine ⟨.ok (), w.uploads.erase state.id, ?_, Kv.cleared_erase _ _, .inl rfl⟩
    simp [onS3, M.runOn, Call.exec, S3Call.exec, there]
  · refine ⟨.error (noSuchUpload state.id), w.uploads, ?_, ?_, .inr ⟨_, rfl⟩⟩
    · simp [onS3, M.runOn, Call.exec, S3Call.exec, there]
    · exact (Kv.Cleared.refl _).congr fun k v here =>
        ⟨fun bad => bad.elim, fun same => absurd (Kv.mem_iff_get.mpr ⟨v, same ▸ here⟩) there⟩

/-- What a session has stored is removed, also when the backend has lost it. -/
private theorem abortSession_swept (matched : Matched bucket w.master s) :
    ∃ w', (FsEngine.abortSessionUpload bucket s).runOn w = (.ok (), w') ∧
      Swept { ofSession w.master s with rows := ∅ } w w' := by
  cases upload : s.s3UploadId with
  | none =>
    refine ⟨{ w with objects := w.objects.erase s.s3Key }, ?_, .refl _, ?_, ?_, ?_, .nil _, rfl⟩
    · simp [FsEngine.abortSessionUpload, upload, onS3, M.runOn, Call.exec, S3Call.exec]
    · exact (Kv.cleared_erase _ _).congr fun k v _ => by simp [ofSession, upload]
    · exact (Kv.Cleared.refl _).congr fun k v _ => by simp [ofSession, upload]
    · exact (Kv.Cleared.refl _).congr fun k v _ => by simp [ofSession, upload]
  | some u =>
    rcases matched u upload with gone | ⟨m, row, own, bucket', key', named, keyed⟩
    · -- without its record the upload of the backend cannot be addressed
      refine ⟨w, ?_, .refl _, ?_, ?_, ?_, .nil _, rfl⟩
      · simp only [FsEngine.abortSessionUpload, upload]
        rw [M.runOn_bind_of_ok (run_load gone)]
        rfl
      · exact (Kv.Cleared.refl _).congr fun k v _ => by simp [ofSession, upload]
      · refine (Kv.Cleared.refl _).congr fun k v _ => ⟨fun bad => bad.elim, ?_⟩
        rintro ⟨drew, m, found⟩
        rw [← Option.some.inj (upload.symm.trans drew), gone] at found
        cases found
      · exact (Kv.Cleared.refl _).congr fun k v _ => by simp [ofSession, upload, gone]
    · -- with the record the map is restored first, as after a restart
      obtain ⟨state, restored⟩ : ∃ state : MultipartState, state =
        ⟨m.bucket, m.key, m.s3UploadId, m.parts⟩ := ⟨_, rfl⟩
      have ensured : (FsEngine.ensureMultipart u).runOn w =
          (.ok (), { w with states := w.states.insert u state }) := by
        rw [FsEngine.ensureMultipart, M.runOn_bind_of_ok (run_load row)]
        simp [S3.restoreMultipart, named, keyed, onS3, M.runOn, Call.exec, S3Call.exec, own,
          restored]
      obtain ⟨r, uploads, aborted, cleared, accepted⟩ := abortMultipart_swept (s := s)
        (w := { w with states := w.states.insert u state })
        (show (w.states.insert u state)[u]? = some state by simp)
        (by rw [restored, bucket']) (by rw [restored, key'])
      refine ⟨{ w with states := (w.states.insert u state).erase u, uploads := uploads }, ?_,
        .refl _, ?_, ?_, ?_, .nil _, rfl⟩
      · simp only [FsEngine.abortSessionUpload, upload]
        rw [M.runOn_bind_of_ok (run_load row), M.runOn_bind_of_ok ensured,
          M.runOn_bind_of_ok aborted]
        rcases accepted with rfl | ⟨d, rfl⟩
        · rfl
        · rfl
      · exact (Kv.Cleared.refl _).congr fun k v _ => by simp [ofSession, upload]
      · intro k
        by_cases same : u = k
        · subst same
          simp [ofSession, upload, row]
        · simp [ofSession, upload, same, Kv.get_erase, Kv.get_insert]
      · exact cleared.congr fun k v _ => by
          simp [ofSession, upload, row, restored, eq_comm (a := k)]

/-- A session that can be read is swept exactly when it has expired. -/
theorem sweepSession_swept (here : FsStore.getSession s.id w.master = .ok (some s))
    (matched : Matched bucket w.master s) :
    ∃ w', (sweepSession bucket w.clock s).runOn w = (.ok (s.isExpired w.clock ttlSecs), w') ∧
      Swept (if s.isExpired w.clock ttlSecs then ofSession w.master s else .empty) w w' := by
  obtain ⟨v, locked⟩ : ∃ v : World, v = { w with locks := s.id :: w.locks } := ⟨_, rfl⟩
  have store : v.master = w.master := locked ▸ rfl
  have read : (onStore .master (.getSession s.id)).runOn v = (.ok (some s), v) :=
    Prod.ext ((congrArg (FsStore.getSession s.id) store).trans here) rfl
  rw [sweepSession, M.runOn_withSession, ← locked, M.runOn_bind_of_ok read]
  by_cases old : s.isExpired w.clock ttlSecs = true
  · obtain ⟨v₁, aborted, swept⟩ := abortSession_swept (w := v) (store ▸ matched)
    have attempted : M.runOn (FsEngine.abortSessionUpload bucket s).attempt v = (.ok (.ok ()), v₁) := by
      rw [M.runOn] at aborted ⊢
      rw [Prog.run_attempt, aborted]
    -- the abort leaves the rows, so the session is read again as it was
    have same : v₁.master = v.master := swept.rows.eq fun k mem => mem.elim
    have again : (onStore .master (.getSession s.id)).runOn v₁ = (.ok (some s), v₁) :=
      Prod.ext ((congrArg (FsStore.getSession s.id) (same.trans store)).trans here) rfl
    obtain ⟨v₂, dropped⟩ : ∃ v₂ : World,
      v₂ = { v₁ with master := FsStore.deleteSession s.id (some s) v₁.master } := ⟨_, rfl⟩
    have deleted : (FsEngine.deleteSession s.id).runOn v₁ = (.ok (), v₂) := by
      rw [FsEngine.deleteSession, M.runOn_bind_of_ok again, dropped]
      rfl
    refine ⟨{ v₂ with locks := v₂.locks.erase s.id }, ?_, ?_⟩
    · simp only [old, not_true, if_false]
      rw [M.runOn_bind_of_ok attempted]
      simp only
      rw [M.runOn_bind_of_ok deleted]
      rfl
    · rw [if_pos old]
      apply Swept.unlocked
      rw [← locked, dropped]
      have rows : Kv.Cleared (ofSession w.master s).rows v₁.master
          (FsStore.deleteSession s.id (some s) v₁.master) := by
        refine (Kv.cleared_commit _ _).congr fun k v _ => ?_
        simp only [ofSession, List.mem_append, List.mem_map, List.mem_range, Option.mem_toList,
          Option.map_eq_some_iff, List.mem_singleton, Set.mem_ofPred_eq, eq_comm (a := k)]
        exact or_comm
      rw [store] at swept
      exact { swept with rows := same ▸ rows }
  · refine ⟨w, ?_, ?_⟩
    · simp [old, locked]
    · rw [if_neg old]
      exact .refl w

/-- Another session. -/
def Apart (s s' : UploadSession) : Prop :=
  s.id ≠ s'.id ∧ ∀ u, s.s3UploadId = some u → s'.s3UploadId ≠ some u

private theorem session_kept {kv kv' : Kv Value} {s s' : UploadSession} (apart : Apart s s')
    (cleared : Kv.Cleared (ofSession kv s).rows kv kv') :
    FsStore.getSession s'.id kv' = FsStore.getSession s'.id kv ∧
    ∀ u, s'.s3UploadId = some u → FsStore.loadMultipart u kv' = FsStore.loadMultipart u kv := by
  constructor
  · apply FsStore.getSession_congr
    apply (cleared _).2
    simp [ofSession, apart.1.symm]
  · intro u drew
    apply FsStore.loadMultipart_congr
    apply (cleared _).2
    have other : s.s3UploadId ≠ some u := fun same => apart.2 u same drew
    simp [ofSession, (FsStore.sessionKey_ne_multipartKey _ _).symm,
      (FsStore.stagedKey_ne_multipartKey _ _ _).symm, other]

theorem sweepSessions_swept (sessions : List UploadSession) (cleaned : Nat)
    (here : ∀ s ∈ sessions, FsStore.getSession s.id w.master = .ok (some s))
    (matched : ∀ s ∈ sessions, Matched bucket w.master s) (apart : sessions.Pairwise Apart) :
    ∃ w', (sweepSessions bucket w.clock sessions cleaned).runOn w =
        (.ok (cleaned + (sessions.filter (·.isExpired w.clock ttlSecs)).length), w') ∧
      Swept (.all (ofSession w.master) (sessions.filter (·.isExpired w.clock ttlSecs))) w w' := by
  -- on the sessions: a swept one takes away none of the rows that the sweep of the others
  -- reads, so what the filter says at the start still holds for them
  induction sessions generalizing w cleaned with
  | nil => exact ⟨w, rfl, .refl w⟩
  | cons s sessions ih =>
    obtain ⟨others, apart⟩ := List.pairwise_cons.mp apart
    obtain ⟨w₁, ran, swept⟩ := sweepSession_swept (here s (.head _)) (matched s (.head _))
    rw [sweepSessions, M.runOn_bind_of_ok ran]
    by_cases old : s.isExpired w.clock ttlSecs = true
    · rw [if_pos old] at swept
      have kept := fun s' mem => session_kept (others s' mem) swept.rows
      obtain ⟨w₂, rest, swept'⟩ := @ih w₁ (cleaned + 1)
        (fun s' mem => (kept s' mem).1.trans (here s' (.tail _ mem)))
        (fun s' mem u drew => by
          rw [(kept s' mem).2 u drew]
          exact matched s' (.tail _ mem) u drew)
        apart
      rw [swept.clock] at rest swept'
      have more : (s :: sessions).filter (·.isExpired w.clock ttlSecs) =
          s :: sessions.filter (·.isExpired w.clock ttlSecs) := by simp [old]
      refine ⟨w₂, ?_, ?_⟩
      · rw [if_pos old, rest, more, List.length_cons, Nat.add_assoc, Nat.add_comm 1]
      · rw [more, Garbage.all]
        refine swept.trans ?_
        rwa [@Garbage.all_congr _ _ (ofSession w.master)] at swept'
        intro s' mem
        have loads := (kept s' (List.mem_filter.mp mem).1).2
        simp only [ofSession, Garbage.mk.injEq, true_and, and_true]
        constructor
        · ext u
          exact and_congr_right fun drew => by rw [loads u drew]
        · ext b
          exact exists_congr fun u => exists_congr fun m => and_congr_right fun drew => by
            rw [loads u drew]
    · have fewer : (s :: sessions).filter (·.isExpired w.clock ttlSecs) =
          sessions.filter (·.isExpired w.clock ttlSecs) := by simp [old]
      rw [if_neg old] at swept
      rw [if_neg old, fewer, swept.eq_of_empty]
      exact ih cleaned (fun s' mem => here s' (.tail _ mem))
        (fun s' mem => matched s' (.tail _ mem)) apart

end Sessions

/-! ### The file pass -/

section Files

variable {w : World} {entries : List WalEntry}

/-- A listed file is deleted exactly when it is condemned. -/
theorem sweepFile_swept (f : FileRecord) (log : Wal.Log w.wal entries) :
    ∃ w', (sweepFile w.clock f).runOn w = (.ok (isCondemned w.clock w.master f), w') ∧
      Swept (if isCondemned w.clock w.master f then ofFile f else .empty) w w' := by
  have asked : M.runOn (onStore .master (.getRefInfo f.id)).attempt w =
      (.ok (FsStore.getRefInfo f.id w.master), w) := rfl
  rw [sweepFile, M.runOn_bind_of_ok asked]
  cases read : FsStore.getRefInfo f.id w.master with
  | error e =>
    -- a count that cannot be read spares its file
    have spared : isCondemned w.clock w.master f = false := by simp [isCondemned, read]
    exact ⟨w, by rw [spared]; rfl, by rw [spared]; exact .refl w⟩
  | ok info =>
    by_cases doomed : info.count = 0 ∧ w.clock - info.orphanSince.getD f.createdAt > ttlSecs
    · have condemned : isCondemned w.clock w.master f = true := by
        simpa [isCondemned, read] using doomed
      obtain ⟨v, erased⟩ : ∃ v : World, v = { w with objects := w.objects.erase f.s3Key } := ⟨_, rfl⟩
      have deleted : M.runOn (onS3 (.deleteObject f.s3Key)).attempt w = (.ok (.ok ()), v) := by
        rw [erased]
        rfl
      obtain ⟨wal, appended, -⟩ := log.append_eq w.clock (.fileDelete f.id)
      have announced : M.runOn (FsEngine.announce (.fileDelete f.id)).attempt v =
          (.ok (.ok ()), { v with wal := wal }) := by
        rw [M.runOn, Prog.run_attempt]
        simp [FsEngine.announce, onWal, Call.exec, WalCall.exec, erased, appended]
      refine ⟨{ v with wal := wal, master := FsStore.deleteFile f.id w.master }, ?_, ?_⟩
      · simp only
        rw [if_neg (not_not.mpr doomed.1), if_neg (not_le.mpr doomed.2),
          M.runOn_bind_of_ok deleted]
        simp only
        rw [M.runOn_bind_of_ok announced, condemned, erased]
        rfl
      · rw [if_pos condemned]
        refine ⟨fun k => ?_, erased ▸ Kv.cleared_erase _ _, erased ▸ .refl _, erased ▸ .refl _,
          .cons appended (.nil _), by rw [erased]⟩
        rw [FsStore.get_deleteFile]
        exact ⟨fun gone => if_pos gone, fun kept => if_neg kept⟩
    · have spared : isCondemned w.clock w.master f = false := by
        simpa [isCondemned, read] using doomed
      refine ⟨w, ?_, by rw [spared]; exact .refl w⟩
      rw [spared]
      by_cases count : info.count = 0
      · have young : w.clock - info.orphanSince.getD f.createdAt ≤ ttlSecs := by
          simpa [count] using doomed
        simp [count, young]
      · simp [count]

private theorem condemned_kept {now : Int} {kv kv' : Kv Value} {f f' : FileRecord}
    (other : f.id ≠ f'.id) (cleared : Kv.Cleared (ofFile f).rows kv kv') :
    isCondemned now kv' f' = isCondemned now kv f' := by
  have refs : kv'[FsStore.refsKey f'.id]? = kv[FsStore.refsKey f'.id]? := by
    apply (cleared _).2
    simp [ofFile, FsStore.MarkerOf, other.symm]
  simp only [isCondemned, FsStore.getRefInfo, refs]

theorem sweepFiles_swept (files : List FileRecord) (cleaned : Nat) (log : Wal.Log w.wal entries)
    (apart : files.Pairwise fun f f' => f.id ≠ f'.id) :
    ∃ w', (sweepFiles w.clock files cleaned).runOn w =
        (.ok (cleaned + (files.filter (isCondemned w.clock w.master)).length), w') ∧
      Swept (.all ofFile (files.filter (isCondemned w.clock w.master))) w w' := by
  -- on the files: a deletion leaves the counts of the others
  induction files generalizing w cleaned entries with
  | nil => exact ⟨w, rfl, .refl w⟩
  | cons f files ih =>
    obtain ⟨others, apart⟩ := List.pairwise_cons.mp apart
    obtain ⟨w₁, ran, swept⟩ := sweepFile_swept f log
    rw [sweepFiles, M.runOn_bind_of_ok ran]
    by_cases doomed : isCondemned w.clock w.master f = true
    · rw [if_pos doomed] at swept
      obtain ⟨new, log', -⟩ := swept.feed.log log
      have same : files.filter (isCondemned w.clock w₁.master) =
          files.filter (isCondemned w.clock w.master) :=
        List.filter_congr fun f' mem => condemned_kept (others f' mem) swept.rows
      obtain ⟨w₂, rest, swept'⟩ := ih (cleaned + 1) log' apart
      rw [swept.clock, same] at rest swept'
      refine ⟨w₂, ?_, ?_⟩
      · rw [if_pos doomed, rest, List.filter_cons_of_pos doomed, List.length_cons, Nat.add_assoc,
          Nat.add_comm 1]
      · rw [List.filter_cons_of_pos doomed, Garbage.all]
        exact swept.trans swept'
    · rw [if_neg doomed] at swept
      obtain rfl := swept.eq_of_empty
      rw [if_neg doomed, List.filter_cons_of_neg doomed]
      exact ih cleaned log apart

end Files

/-! ### The byte pass -/

section Objects

variable {w : World}

private def dooms (now : Int) (live : List String) (e : ListedKey) : Bool :=
  decide (¬ (e.key ∈ live ∨ now - e.lastModified ≤ ttlSecs))

private def ofEntry (e : ListedKey) : Garbage := ⟨∅, {e.key}, ∅, ∅, []⟩

private theorem all_ofEntry (entries : List ListedKey) :
    Garbage.all ofEntry entries = ⟨∅, {k | ∃ e ∈ entries, e.key = k}, ∅, ∅, []⟩ := by
  induction entries with
  | nil => simp [Garbage.all, Garbage.empty]
  | cons e entries ih =>
    rw [Garbage.all, ih]
    simp only [Garbage.append, ofEntry, Set.empty_union, List.nil_append, Garbage.mk.injEq,
      true_and, and_true]
    ext k
    simp [eq_comm (a := k)]

theorem sweepObjects_swept (live : List String) (entries : List ListedKey) (cleaned : Nat) :
    ∃ w', (sweepObjects w.clock live entries cleaned).runOn w =
        (.ok (cleaned + (entries.filter (dooms w.clock live)).length), w') ∧
      Swept (.all ofEntry (entries.filter (dooms w.clock live))) w w' := by
  induction entries generalizing w cleaned with
  | nil => exact ⟨w, rfl, .refl w⟩
  | cons e entries ih =>
    by_cases spared : e.key ∈ live ∨ w.clock - e.lastModified ≤ ttlSecs
    · have kept : dooms w.clock live e = false := decide_eq_false (not_not.mpr spared)
      have ran : (sweepObject w.clock live e).runOn w = (.ok false, w) := by
        rw [sweepObject, if_pos spared]
        rfl
      rw [sweepObjects, M.runOn_bind_of_ok ran, List.filter_cons_of_neg (by simp [kept])]
      exact ih cleaned
    · have doomed : dooms w.clock live e = true := decide_eq_true spared
      obtain ⟨v, erased⟩ : ∃ v : World, v = { w with objects := w.objects.erase e.key } := ⟨_, rfl⟩
      have ran : (sweepObject w.clock live e).runOn w = (.ok true, v) := by
        rw [sweepObject, if_neg spared, erased]
        rfl
      have swept : Swept (ofEntry e) w v :=
        ⟨erased ▸ .refl _, erased ▸ Kv.cleared_erase _ _, erased ▸ .refl _, erased ▸ .refl _,
          erased ▸ .nil _, by rw [erased]⟩
      obtain ⟨w', rest, swept'⟩ := @ih v (cleaned + 1)
      rw [swept.clock] at rest swept'
      rw [sweepObjects, M.runOn_bind_of_ok ran, List.filter_cons_of_pos doomed]
      exact ⟨w', by rw [if_pos rfl, rest, List.length_cons, Nat.add_assoc, Nat.add_comm 1],
        swept.trans swept'⟩

/-- The objects that `list_keys` answers. -/
private def listed (w : World) : List ListedKey :=
  (w.objects.toList.filter fun e => Text.startsWith fileBytesPrefix e.1).map fun e =>
    ⟨e.1, e.2.lastModified⟩

private theorem mem_listed {e : ListedKey} : e ∈ listed w ↔
    Text.startsWith fileBytesPrefix e.key = true ∧
      ∃ o, w.objects[e.key]? = some o ∧ o.lastModified = e.lastModified := by
  obtain ⟨key, time⟩ := e
  simp only [listed, List.mem_map, List.mem_filter, Prod.exists, ListedKey.mk.injEq,
    Kv.mem_toList]
  constructor
  · rintro ⟨k, o, ⟨here, start⟩, rfl, rfl⟩
    exact ⟨start, o, here, rfl⟩
  · rintro ⟨start, o, here, rfl⟩
    exact ⟨key, o, ⟨here, start⟩, rfl, rfl⟩

private theorem listed_once (now : Int) (live : List String) :
    (((listed w).filter (dooms now live)).map (·.key)).Nodup := by
  have sorted : (listed w).Pairwise fun e e' => e.key < e'.key :=
    List.pairwise_map.mpr ((Kv.toList_sorted w.objects).filter _)
  exact List.pairwise_map.mpr ((sorted.filter _).imp fun below => below.ne)

/-- The byte pass comes to a world that has lost objects which the listings named. -/
theorem orphanPass_swept {w₀ : World} {gone : Set String} (clock : w.clock = w₀.clock)
    (objects : Kv.Cleared gone w₀.objects w.objects) (named : ∀ k ∈ gone, k ∈ live w₀)
    (cleaned : Nat) :
    ∃ w', (orphanPass w₀.clock (FsStore.listSessions w₀.master) (FsStore.listFiles w₀.master)
        cleaned).runOn w = (.ok (cleaned + {k | Stray w₀ k}.ncard), w') ∧
      Swept (strays w₀) w w' := by
  by_cases complete : (FsStore.listSessions w₀.master).undecodable = [] ∧
      (FsStore.listFiles w₀.master).undecodable = []
  · have answered : M.runOn (onS3 (.listKeys fileBytesPrefix)).attempt w =
        (.ok (.ok (listed w)), w) := rfl
    obtain ⟨w', ran, swept⟩ := sweepObjects_swept (w := w) (live w₀) (listed w) cleaned
    rw [clock] at ran swept
    -- the objects that are gone by now were named by a row, and so were no strays
    have same : {k | ∃ e ∈ (listed w).filter (dooms w₀.clock (live w₀)), e.key = k} =
        {k | Stray w₀ k} := by
      ext k
      simp only [List.mem_filter, mem_listed, Set.mem_ofPred_eq, dooms, decide_eq_true_eq, not_or,
        not_le]
      constructor
      · rintro ⟨e, ⟨⟨start, o, here, time⟩, unnamed, old⟩, rfl⟩
        exact ⟨complete, start, unnamed, o, (objects.get_eq_some.mp here).2, time ▸ old⟩
      · rintro ⟨-, start, unnamed, o, here, old⟩
        have kept : k ∉ gone := fun mem => unnamed (named k mem)
        exact ⟨⟨k, o.lastModified⟩, ⟨⟨start, o, objects.get_eq_some.mpr ⟨kept, here⟩, rfl⟩, unnamed,
          old⟩, rfl⟩
    -- each key is listed once
    have count : ((listed w).filter (dooms w₀.clock (live w₀))).length =
        {k | Stray w₀ k}.ncard := by
      have keys : {k | Stray w₀ k} =
          ↑(((listed w).filter (dooms w₀.clock (live w₀))).map (·.key)).toFinset := by
        rw [← same]
        ext k
        simp
      rw [keys, Set.ncard_coe_finset, List.toFinset_card_of_nodup (listed_once _ _),
        List.length_map]
    rw [all_ofEntry, same] at swept
    refine ⟨w', ?_, swept⟩
    rw [orphanPass, if_neg (by simp [complete]), M.runOn_bind_of_ok answered]
    simp only
    rw [← count]
    exact ran
  · -- a row that was not read may name any object
    have none : {k | Stray w₀ k} = ∅ := by
      ext k
      exact ⟨fun stray => absurd stray.1 complete, fun bad => bad.elim⟩
    have unread : (FsStore.listSessions w₀.master).undecodable.length +
        (FsStore.listFiles w₀.master).undecodable.length > 0 := by
      rw [← List.length_eq_zero_iff, ← List.length_eq_zero_iff] at complete
      omega
    refine ⟨w, ?_, ?_⟩
    · rw [orphanPass, if_pos unread, none, Set.ncard_empty]
      rfl
    · rw [strays, none]
      exact .refl w

end Objects

/-! ### A whole sweep -/

section Whole

variable {bucket : String} {kv : Kv Value}

/-- Rows that lie under keys of their own are listed once. -/
private theorem rows_once {α : Type} {family : String} {decode : Value → Option α}
    {key : α → String} (own : ∀ (k : String) v a, kv[k]? = some v → decode v = some a → k = key a) :
    (FsStore.listMeta family decode kv).records.Pairwise fun a b => key a ≠ key b := by
  have owned : ∀ {k v r a}, (k, v) ∈ FsStore.scanPrefix family kv →
      FsStore.metaRow family decode (k, v) = some r → r.toOption = some a → k = key a := by
    intro k v r a mem row ok
    have here : kv[k]? = some v := (Kv.mem_getsBytes.mp mem).1
    simp only [FsStore.metaRow, Option.ite_none_right_eq_some] at row
    cases decoded : decode v with
    | none =>
      simp only [decoded, Option.some.injEq] at row
      rw [← row.2] at ok
      cases ok
    | some b =>
      simp only [decoded, Option.some.injEq] at row
      rw [← row.2] at ok
      cases ok
      exact own k v _ here decoded
  simp only [FsStore.listMeta]
  rw [List.pairwise_filterMap, List.pairwise_filterMap]
  refine List.Pairwise.imp_of_mem ?_ ((Kv.toList_sorted kv).filter _)
  -- the scan goes up the keys, so it never meets one twice
  rintro ⟨k, v⟩ ⟨k', v'⟩ mem mem' below r row r' row' a ok a' ok'
  rw [← owned mem row ok, ← owned mem' row' ok']
  exact below.ne

theorem Tidy.sessions_apart (tidy : Tidy bucket kv) :
    (FsStore.listSessions kv).records.Pairwise Apart := by
  have once : (FsStore.listSessions kv).records.Pairwise fun s s' =>
      FsStore.sessionKey s.id ≠ FsStore.sessionKey s'.id := by
    refine rows_once fun k v (s : UploadSession) here row => ?_
    rw [FsStore.asSession_eq_some.mp row] at here
    exact tidy.session k s here
  refine once.imp_of_mem fun mem mem' other => ⟨fun same => other (congrArg _ same), ?_⟩
  exact fun u drew drew' => other (congrArg _ (tidy.apart _ mem _ mem' u drew drew'))

theorem Tidy.files_apart (tidy : Tidy bucket kv) :
    (FsStore.listFiles kv).records.Pairwise fun f f' => f.id ≠ f'.id := by
  have once : (FsStore.listFiles kv).records.Pairwise fun f f' =>
      FsStore.fileKey f.id ≠ FsStore.fileKey f'.id := by
    refine rows_once fun k v (f : FileRecord) here row => ?_
    rw [FsStore.asFile_eq_some.mp row] at here
    exact tidy.file k f here
  exact once.imp fun other same => other (congrArg _ same)

theorem Tidy.getSession (tidy : Tidy bucket kv) {s : UploadSession}
    (mem : s ∈ (FsStore.listSessions kv).records) :
    FsStore.getSession s.id kv = .ok (some s) := by
  obtain ⟨k, here, -⟩ := FsStore.mem_listSessions.mp mem
  exact FsStore.getSession_eq_some.mpr (tidy.session k s here ▸ here)

/-- The session pass removes no count. -/
private theorem refsKey_kept {kv₀ : Kv Value} (f : String) (sessions : List UploadSession) :
    FsStore.refsKey f ∉ (Garbage.all (ofSession kv₀) sessions).rows := by
  rw [Garbage.mem_rows_all]
  rintro ⟨s, -, mem⟩
  simp [ofSession] at mem

/-- The three passes one after the other. -/
theorem sweepOnce_swept (bucket : String) {w : World} {entries : List WalEntry}
    (tidy : Tidy bucket w.master) (log : Wal.Log w.wal entries) :
    ∃ w', (sweepOnce bucket).runOn w =
        (.ok ((expired w).length + (condemned w).length + {k | Stray w k}.ncard), w') ∧
      Swept (garbage w) w w' := by
  obtain ⟨w₁, ran₁, swept₁⟩ := sweepSessions_swept (FsStore.listSessions w.master).records 0
    (fun s mem => tidy.getSession mem) tidy.matched tidy.sessions_apart
  have named : (FsStore.listSessions w.master).records.filter (·.isExpired w.clock ttlSecs) =
      expired w := rfl
  rw [named] at ran₁ swept₁
  obtain ⟨new, log₁, -⟩ := swept₁.feed.log log
  obtain ⟨w₂, ran₂, swept₂⟩ := sweepFiles_swept (FsStore.listFiles w.master).records
    (0 + (expired w).length) log₁ tidy.files_apart
  -- the session pass removes no count, so the same files are condemned after it
  have same : (FsStore.listFiles w.master).records.filter (isCondemned w₁.clock w₁.master) =
      condemned w := by
    refine List.filter_congr fun f _ => ?_
    rw [swept₁.clock]
    simp only [isCondemned, FsStore.getRefInfo, (swept₁.rows _).2 (refsKey_kept f.id _)]
  rw [same, swept₁.clock] at ran₂
  rw [same] at swept₂
  obtain ⟨w₃, ran₃, swept₃⟩ := orphanPass_swept (swept₂.clock.trans swept₁.clock)
    (swept₁.objects.trans swept₂.objects)
    (by
      -- the first two passes delete objects that their listing names
      rintro k (mem | mem)
      · obtain ⟨s, old, -, rfl⟩ := Garbage.mem_objects_all.mp mem
        exact List.mem_append_left _ (List.mem_map_of_mem (List.mem_filter.mp old).1)
      · obtain ⟨f, old, rfl⟩ := Garbage.mem_objects_all.mp mem
        exact List.mem_append_right _ (List.mem_map_of_mem (List.mem_filter.mp old).1))
    (0 + (expired w).length + (condemned w).length)
  refine ⟨w₃, ?_, swept₁.trans (swept₂.trans swept₃)⟩
  have clock : M.runOn (Prog.perform Call.now) w = (.ok w.clock, w) := rfl
  have sessions : (onStore .master .listSessions).runOn w =
      (.ok (FsStore.listSessions w.master), w) := rfl
  have files : (onStore .master .listFiles).runOn w = (.ok (FsStore.listFiles w.master), w) := rfl
  rw [sweepOnce, M.runOn_bind_of_ok clock, M.runOn_bind_of_ok sessions, M.runOn_bind_of_ok files,
    M.runOn_bind_of_ok ran₁, M.runOn_bind_of_ok ran₂, ran₃, Nat.zero_add]

/-- **A sweep is exact**. Over a tidy store it removes what is garbage at its start and nothing
    else, and tells the feed of each file that it deletes; it answers how much that was. -/
theorem sweep_exact (bucket : String) {w : World} {entries : List WalEntry}
    (tidy : Tidy bucket w.master) (log : Wal.Log w.wal entries) :
    ∃ w', (sweepOnce bucket).runOn w =
        (.ok ((expired w).length + (condemned w).length + {k | Stray w k}.ncard), w') ∧
      Swept (garbage w) w w' :=
  sweepOnce_swept bucket tidy log

/-! ### One sweep after another -/

/-- Nothing is left for a sweep. -/
structure Settled (w : World) : Prop where
  sessions : expired w = []
  files : condemned w = []
  objects : ∀ k, ¬ Stray w k

theorem Tidy.cleared {kv' : Kv Value} {gone : Set String} (tidy : Tidy bucket kv)
    (cleared : Kv.Cleared gone kv kv') : Tidy bucket kv' := by
  have listed : ∀ s ∈ (FsStore.listSessions kv').records, s ∈ (FsStore.listSessions kv).records := by
    intro s mem
    obtain ⟨k, here, family⟩ := FsStore.mem_listSessions.mp mem
    exact FsStore.mem_listSessions.mpr ⟨k, (cleared.get_eq_some.mp here).2, family⟩
  refine ⟨fun k s here => tidy.session k s (cleared.get_eq_some.mp here).2,
    fun k f here => tidy.file k f (cleared.get_eq_some.mp here).2, fun s mem u drew => ?_,
    fun s mem s' mem' => tidy.apart s (listed s mem) s' (listed s' mem')⟩
  by_cases lost : FsStore.multipartKey u ∈ gone
  · left
    simp [FsStore.loadMultipart, (cleared _).1 lost]
  · rw [FsStore.loadMultipart_congr ((cleared _).2 lost)]
    exact tidy.matched s (listed s mem) u drew

section Settling

variable {w w' : World}

/-- A sweep leaves no expired session. -/
private theorem expired_swept (tidy : Tidy bucket w.master) (swept : Swept (garbage w) w w') :
    expired w' = [] := by
  rw [expired, List.filter_eq_nil_iff]
  intro s mem old
  obtain ⟨k, here, family⟩ := FsStore.mem_listSessions.mp mem
  obtain ⟨kept, before⟩ := swept.rows.get_eq_some.mp here
  -- it was expired before the sweep as well, and then its row is gone
  have doomed : s ∈ expired w :=
    List.mem_filter.mpr ⟨FsStore.mem_listSessions.mpr ⟨k, before, family⟩, swept.clock ▸ old⟩
  exact kept (.inl (Garbage.mem_rows_all.mpr ⟨s, doomed, .inl (tidy.session k s before)⟩))

private theorem refsKey_mem {f : String} (gone : FsStore.refsKey f ∈ (garbage w).rows) :
    FsStore.fileKey f ∈ (garbage w).rows := by
  rcases gone with mem | mem | mem
  · exact absurd mem (refsKey_kept f _)
  · -- the count of a file goes with the file
    obtain ⟨g, doomed, gone⟩ := Garbage.mem_rows_all.mp mem
    have same : f = g.id := by simpa [ofFile, FsStore.MarkerOf] using gone
    exact .inr (.inl (Garbage.mem_rows_all.mpr ⟨g, doomed, .inr (.inl (same ▸ rfl))⟩))
  · exact mem.elim

/-- A sweep leaves no condemned file. -/
private theorem condemned_swept (tidy : Tidy bucket w.master) (swept : Swept (garbage w) w w') :
    condemned w' = [] := by
  rw [condemned, List.filter_eq_nil_iff]
  intro f mem doomed
  obtain ⟨k, here, family⟩ := FsStore.mem_listFiles.mp mem
  obtain ⟨kept, before⟩ := swept.rows.get_eq_some.mp here
  rw [tidy.file k f before] at kept
  -- its row stayed, so its count did, and it was condemned before the sweep as well
  have refs : w'.master[FsStore.refsKey f.id]? = w.master[FsStore.refsKey f.id]? :=
    (swept.rows _).2 fun gone => kept (refsKey_mem gone)
  have sooner : f ∈ condemned w := by
    refine List.mem_filter.mpr ⟨FsStore.mem_listFiles.mpr ⟨k, before, family⟩, ?_⟩
    simpa only [isCondemned, FsStore.getRefInfo, refs, swept.clock] using doomed
  exact kept (.inr (.inl (Garbage.mem_rows_all.mpr ⟨f, sooner, .inr (.inl rfl)⟩)))

/-- What a sweep over clean rows takes away are objects. -/
private theorem garbage_of_clean (sessions : expired w = []) (files : condemned w = []) :
    garbage w = strays w := by
  simp [garbage, sessions, files, Garbage.all, Garbage.append, Garbage.empty, strays]

/-- **Sweeps settle**. After two sweeps there is nothing to collect, and a third one changes
    nothing. One is not enough: the byte pass spares what the listing of an expired session
    names. -/
theorem sweeps_settle (bucket : String) {entries : List WalEntry} (tidy : Tidy bucket w.master)
    (log : Wal.Log w.wal entries) :
    ∃ m n w₁ w₂, (sweepOnce bucket).runOn w = (.ok m, w₁) ∧ (sweepOnce bucket).runOn w₁ = (.ok n, w₂) ∧
      Settled w₂ ∧ (sweepOnce bucket).runOn w₂ = (.ok 0, w₂) := by
  obtain ⟨w₁, ran₁, swept₁⟩ := sweepOnce_swept bucket tidy log
  have tidy₁ := tidy.cleared swept₁.rows
  obtain ⟨new, log₁, -⟩ := swept₁.feed.log log
  -- the first sweep leaves clean rows, so the second one takes away objects only
  have clean := expired_swept tidy swept₁
  have spared := condemned_swept tidy swept₁
  obtain ⟨w₂, ran₂, swept₂⟩ := sweepOnce_swept bucket tidy₁ log₁
  rw [garbage_of_clean clean spared] at swept₂
  have rows : w₂.master = w₁.master := swept₂.rows.eq fun k mem => mem.elim
  have settled : Settled w₂ := by
    refine ⟨?_, ?_, ?_⟩
    · rw [expired, rows, swept₂.clock]
      exact clean
    · rw [condemned, rows, swept₂.clock]
      exact spared
    · rintro k ⟨complete, start, unnamed, o, here, old⟩
      rw [rows] at complete
      rw [live, rows] at unnamed
      rw [swept₂.clock] at old
      obtain ⟨kept, before⟩ := swept₂.objects.get_eq_some.mp here
      exact kept ⟨complete, start, unnamed, o, before, old⟩
  -- the third one finds nothing
  obtain ⟨new', log₂, -⟩ := swept₂.feed.log log₁
  obtain ⟨w₃, ran₃, swept₃⟩ := sweepOnce_swept bucket (tidy₁.cleared swept₂.rows) log₂
  rw [garbage_of_clean settled.sessions settled.files] at swept₃
  have same : w₃ = w₂ := swept₃.eq (fun _ mem => mem.elim)
    (fun k mem => absurd mem (settled.objects k)) (fun _ mem => mem.elim) (fun _ mem => mem.elim) rfl
  have nothing : {k | Stray w₂ k} = ∅ := by
    ext k
    exact ⟨fun stray => absurd stray (settled.objects k), fun bad => bad.elim⟩
  refine ⟨_, _, w₁, w₂, ran₁, ran₂, settled, ?_⟩
  rw [ran₃, same, settled.sessions, settled.files, nothing, Set.ncard_empty]
  rfl

end Settling

/-! ### A store with leftovers -/

/-- The upload `f` was assembled, and its completion never came to the record. `g` was never
    attached, `h` is, and nothing has `files/x`. -/
def leftovers : World :=
  { World.init toString with
    master := ((((∅ : Kv Value).insert (FsStore.sessionKey "f")
      (.session ⟨"f", 4, 2, 2, some "u", "files/f", "alice", 0, [none, none], [none, none]⟩)).insert
      (FsStore.fileKey "g") (.file ⟨"g", "plan.txt", "text/plain", 4, "files/g", "bob", 0⟩)).insert
      (FsStore.fileKey "h") (.file ⟨"h", "scan.pdf", "application/pdf", 4, "files/h", "bob", 0⟩)).insert
      (FsStore.refsKey "h") (.refs ⟨1, none⟩)
    objects := ((((∅ : Kv Object).insert "files/f" ⟨[1], 0⟩).insert "files/g" ⟨[2], 0⟩).insert
      "files/h" ⟨[3], 0⟩).insert "files/x" ⟨[4], 0⟩
    clock := 100000 }

private theorem leftovers_row {k : String} {v : Value} (here : leftovers.master[k]? = some v) :
    (k = FsStore.sessionKey "f" ∧ v = .session ⟨"f", 4, 2, 2, some "u", "files/f", "alice", 0,
      [none, none], [none, none]⟩) ∨
    (k = FsStore.fileKey "g" ∧ v = .file ⟨"g", "plan.txt", "text/plain", 4, "files/g", "bob", 0⟩) ∨
    (k = FsStore.fileKey "h" ∧
      v = .file ⟨"h", "scan.pdf", "application/pdf", 4, "files/h", "bob", 0⟩) ∨
    (k = FsStore.refsKey "h" ∧ v = .refs ⟨1, none⟩) := by
  simp only [leftovers, Kv.get_insert] at here
  split_ifs at here with refs fileH fileG session
  · exact .inr (.inr (.inr ⟨refs.symm, (Option.some.inj here).symm⟩))
  · exact .inr (.inr (.inl ⟨fileH.symm, (Option.some.inj here).symm⟩))
  · exact .inr (.inl ⟨fileG.symm, (Option.some.inj here).symm⟩)
  · exact .inl ⟨session.symm, (Option.some.inj here).symm⟩
  · simp at here

private theorem leftovers_session {s : UploadSession}
    (mem : s ∈ (FsStore.listSessions leftovers.master).records) : s.id = "f" ∧ s.s3UploadId = some "u" := by
  obtain ⟨k, here, -⟩ := FsStore.mem_listSessions.mp mem
  rcases leftovers_row here with ⟨-, same⟩ | ⟨-, same⟩ | ⟨-, same⟩ | ⟨-, same⟩
  · cases same
    exact ⟨rfl, rfl⟩
  · cases same
  · cases same
  · cases same

theorem leftovers_tidy : Tidy "b" leftovers.master := by
  refine ⟨fun k s here => ?_, fun k f here => ?_, fun s mem u drew => ?_, fun s mem s' mem' _ _ _ => ?_⟩
  · rcases leftovers_row here with ⟨rfl, same⟩ | ⟨-, same⟩ | ⟨-, same⟩ | ⟨-, same⟩
    · cases same
      rfl
    · cases same
    · cases same
    · cases same
  · rcases leftovers_row here with ⟨-, same⟩ | ⟨rfl, same⟩ | ⟨rfl, same⟩ | ⟨-, same⟩
    · cases same
    · cases same
      rfl
    · cases same
      rfl
    · cases same
  · obtain rfl : "u" = u := Option.some.inj ((leftovers_session mem).2.symm.trans drew)
    exact .inl (by decide +kernel)
  · rw [(leftovers_session mem).1, (leftovers_session mem').1]

theorem sweep_exact_leftovers :
    ∃ w', (sweepOnce "b").runOn leftovers =
        (.ok ((expired leftovers).length + (condemned leftovers).length +
          {k | Stray leftovers k}.ncard), w') ∧ Swept (garbage leftovers) leftovers w' ∧
      w'.objects["files/g"]? = none := by
  obtain ⟨w', ran, swept⟩ := sweep_exact "b" leftovers_tidy Wal.Log.empty
  refine ⟨w', ran, swept, (swept.objects _).1 (.inr (.inl ?_))⟩
  exact Garbage.mem_objects_all.mpr ⟨⟨"g", "plan.txt", "text/plain", 4, "files/g", "bob", 0⟩,
    List.mem_filter.mpr ⟨FsStore.mem_listFiles.mpr ⟨FsStore.fileKey "g", by decide +kernel,
      FsStore.metaKey_fileKey "g"⟩, by decide +kernel⟩, rfl⟩

/-- The object of the lost upload takes two sweeps. -/
theorem sweeps_settle_leftovers :
    (((sweepOnce "b").runOn leftovers).2.objects["files/f"]?).isSome = true ∧
    ∃ m n w₁ w₂, (sweepOnce "b").runOn leftovers = (.ok m, w₁) ∧
      (sweepOnce "b").runOn w₁ = (.ok n, w₂) ∧ Settled w₂ ∧ (sweepOnce "b").runOn w₂ = (.ok 0, w₂) :=
  ⟨by decide +kernel, sweeps_settle "b" leftovers_tidy Wal.Log.empty⟩

end Whole

end Gc

end RustApi
