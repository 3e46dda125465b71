import RustApi.Fs.Dangling

/-!
# Collection against attach

The file pass of a sweep reads the reference count of a file and then deletes its object
and its row in further steps. Attach and detach requests of any number of clients run at
the same time.

## Main results

- `sweep_spares_attached`: in every run in which no attach of a file commits between the
  read of its count and the deletes, no step of a sweep removes the row or the object of
  a file that is attached.
- `sweep_collects_attached`: a run in which a sweep deletes a file after its attach has
  returned.
-/

namespace RustApi

open Lib

/-! ### What is attached -/

/-- What is attached once a step was made. -/
def relate (attached : List Relation) : Label Call Error FsOp → List Relation
  | .call _ (.fs .master (.attach rowType rowId fileId)) none => ⟨rowType, rowId, fileId⟩ :: attached
  | .call _ (.fs .master (.detach rowType rowId fileId)) none =>
    attached.filter (· ≠ ⟨rowType, rowId, fileId⟩)
  | _ => attached

/-- What is attached after the steps `h`. -/
def attachedIn (h : List (Label Call Error FsOp)) : List Relation := h.foldl relate []

@[simp] theorem attachedIn_concat (h : List (Label Call Error FsOp)) (l : Label Call Error FsOp) :
    attachedIn (h ++ [l]) = relate (attachedIn h) l := by
  simp [attachedIn]

/-- An attach of `f` has written its marker, which it does before it returns, and no detach of
    that row came after it. -/
def Attached (h : List (Label Call Error FsOp)) (f : String) : Prop :=
  ∃ before after pid ty rid, h = before ++ .call pid (.fs .master (.attach ty rid f)) none :: after ∧
    ∀ q, .call q (.fs .master (.detach ty rid f)) none ∉ after

theorem mem_relate {attached : List Relation} {t : Relation} {l : Label Call Error FsOp}
    (mem : t ∈ attached)
    (kept : ∀ q, l ≠ .call q (.fs .master (.detach t.rowType t.rowId t.fileId)) none) :
    t ∈ relate attached l := by
  unfold relate
  split
  · exact List.mem_cons_of_mem _ mem
  next q ty rid f =>
    refine List.mem_filter.mpr ⟨mem, decide_eq_true fun same => ?_⟩
    subst same
    exact kept q rfl
  · exact mem

theorem Attached.mem {h : List (Label Call Error FsOp)} {f : String} (attached : Attached h f) :
    ∃ t ∈ attachedIn h, t.fileId = f := by
  obtain ⟨before, after, pid, ty, rid, rfl, kept⟩ := attached
  refine ⟨⟨ty, rid, f⟩, ?_, rfl⟩
  induction after using List.reverseRecOn with
  | nil =>
    rw [attachedIn_concat]
    exact List.mem_cons_self
  | append_singleton after l ih =>
    rw [← List.cons_append, ← List.append_assoc, attachedIn_concat]
    refine mem_relate (ih fun q mem => kept q (List.mem_append_left _ mem)) ?_
    rintro q rfl
    exact kept q (List.mem_append_right _ (List.mem_singleton_self _))

/-- The markers of what is attached to `f`. -/
def attachedKeys (f : String) (attached : List Relation) : Set String :=
  {k | ∃ t ∈ attached, t.fileId = f ∧ k = t.key}

theorem finite_attachedKeys (f : String) (attached : List Relation) :
    (attachedKeys f attached).Finite := by
  refine Set.Finite.subset (attached.map Relation.key).finite_toSet ?_
  rintro k ⟨t, mem, -, rfl⟩
  exact List.mem_map.mpr ⟨t, mem, rfl⟩

/-! ### Rows of files -/

namespace FsStore

/-- Records lie under the key of their id, ids hold no separator, and the object of a file is
    named after it. -/
def OwnRecords (kv : Kv Value) : Prop :=
  ∀ (k : String) rec, kv[k]? = some (.file rec) → MetaKey filesPrefix k →
    k = fileKey rec.id ∧ Text.Free ':' rec.id ∧ rec.s3Key = Gc.fileBytesPrefix ++ rec.id

/-- Records may go but are never written. -/
def FewerRecords (kv kv' : Kv Value) : Prop :=
  ∀ (k : String) rec, kv'[k]? = some (.file rec) → kv[k]? = some (.file rec)

theorem OwnRecords.shrink {kv kv' : Kv Value} (own : OwnRecords kv) (fewer : FewerRecords kv kv') :
    OwnRecords kv' :=
  fun k rec here family => own k rec (fewer k rec here) family

theorem fewer_attach {ty rid f : String} {kv kv' : Kv Value} {n : Nat}
    (done : attach ty rid f kv = .ok (n, kv')) : FewerRecords kv kv' := by
  intro k rec here
  rw [attach_ok done k] at here
  repeat' split at here
  · exact here
  · cases here
  · cases here
  · exact here

theorem fewer_detach {now : Int} {ty rid f : String} {kv kv' : Kv Value} {n : Nat}
    (done : detach now ty rid f kv = .ok (n, kv')) : FewerRecords kv kv' := by
  intro k rec here
  by_cases there : relKey ty rid f ∈ kv
  swap
  · exact detach_absent done there ▸ here
  by_cases refs : k = refsKey f
  · obtain ⟨info, since, -, -, stored⟩ := detach_count done there
    rw [refs, stored] at here
    cases here
  · rw [detach_ok done k refs] at here
    split at here
    · cases here
    · exact here

theorem fewer_deleteFile (f : String) (kv : Kv Value) : FewerRecords kv (deleteFile f kv) := by
  intro k rec here
  rw [get_deleteFile] at here
  split at here
  · cases here
  · exact here

/-- A detach never adds a marker, and touches the count of its own file only. -/
theorem detach_apart {now : Int} {ty rid f g : String} {kv kv' : Kv Value} {n : Nat}
    (done : detach now ty rid f kv = .ok (n, kv')) (other : g ≠ f) :
    getRefInfo g kv' = getRefInfo g kv ∧ markers g kv' ⊆ markers g kv := by
  constructor
  · refine getRefInfo_congr ?_
    rw [detach_ok done _ (fun same => other (refsKey_inj.mp same)),
      if_neg (ne_of_isMarker (isMarker_relKey ty rid f) (not_isMarker_refsKey g))]
  · rintro k ⟨named, mem⟩
    refine ⟨named, ?_⟩
    rw [Kv.mem_iff_get, detach_ok done k
      (ne_of_isMarker named.1 (not_isMarker_refsKey f)).symm] at mem
    split at mem
    · obtain ⟨v, bad⟩ := mem
      cases bad
    · exact Kv.mem_iff_get.mpr mem

/-- Deleting another file never adds a marker. -/
theorem deleteFile_apart {f g : String} (other : g ≠ f) (kv : Kv Value) :
    getRefInfo g (deleteFile f kv) = getRefInfo g kv ∧
      markers g (deleteFile f kv) ⊆ markers g kv := by
  constructor
  · refine getRefInfo_congr ?_
    rw [get_deleteFile, if_neg]
    rintro (named | same | same)
    · exact not_isMarker_refsKey g named.1
    · exact refsKey_ne_fileKey _ _ same
    · exact other (refsKey_inj.mp same)
  · rintro k ⟨named, mem⟩
    exact ⟨named, (mem_deleteFile.mp mem).1⟩

end FsStore

/-! ### Counts back what is attached -/

namespace FsStore

/-- The count of a file is at least the number of rows it is attached to, those included whose
    marker was lost. -/
structure Backed (attached : List Relation) (kv : Kv Value) : Prop where
  own : OwnRecords kv
  typed : ∀ t ∈ attached, Text.Free ':' t.rowType
  counts : ∀ f, Text.Free ':' f → ∃ info, getRefInfo f kv = .ok info ∧
    (attachedKeys f attached ∪ markers f kv).ncard ≤ info.count

namespace Backed

variable {attached attached' : List Relation} {kv kv' : Kv Value} {ty rid f : String} {n : Nat}

/-- A zero count means that nothing is attached. -/
theorem unattached (backed : Backed attached kv) (free : Text.Free ':' f) {info : RefInfo}
    (read : getRefInfo f kv = .ok info) (zero : info.count = 0) :
    ∀ t ∈ attached, t.fileId ≠ f := by
  rintro t mem rfl
  obtain ⟨info', read', bound⟩ := backed.counts _ free
  obtain rfl : info' = info := Except.ok.inj (read'.symm.trans read)
  have finite : (attachedKeys t.fileId attached ∪ markers t.fileId kv).Finite :=
    (finite_attachedKeys _ _).union (finite_markers _ _)
  have none : attachedKeys t.fileId attached ∪ markers t.fileId kv = ∅ := by
    rw [← Set.ncard_eq_zero finite]
    omega
  have key : t.key ∈ attachedKeys t.fileId attached := ⟨t, mem, rfl, rfl⟩
  exact (none ▸ Set.mem_union_left _ key : t.key ∈ (∅ : Set String))

/-- A file whose count stays and that gets no marker. -/
private theorem counts_of_subset (backed : Backed attached kv) {g : String}
    (free : Text.Free ':' g) (same : getRefInfo g kv' = getRefInfo g kv)
    (keys : attachedKeys g attached' ⊆ attachedKeys g attached)
    (fewer : markers g kv' ⊆ markers g kv) :
    ∃ info, getRefInfo g kv' = .ok info ∧
      (attachedKeys g attached' ∪ markers g kv').ncard ≤ info.count := by
  obtain ⟨info, read, bound⟩ := backed.counts g free
  refine ⟨info, same.trans read, (Set.ncard_le_ncard (Set.union_subset_union keys fewer)
    ((finite_attachedKeys _ _).union (finite_markers _ _))).trans bound⟩

theorem keep (backed : Backed attached kv) (fewer : FewerRecords kv kv')
    (refs : ∀ g, getRefInfo g kv' = getRefInfo g kv) (shrunk : ∀ g, markers g kv' ⊆ markers g kv) :
    Backed attached kv' :=
  ⟨backed.own.shrink fewer, backed.typed, fun g free =>
    backed.counts_of_subset free (refs g) subset_rfl (shrunk g)⟩

theorem attach (backed : Backed attached kv) (done : FsStore.attach ty rid f kv = .ok (n, kv'))
    (typed : Text.Free ':' ty) (free : Text.Free ':' f)
    (room : ∀ info, getRefInfo f kv = .ok info → info.count < u32Max) :
    Backed (⟨ty, rid, f⟩ :: attached) kv' := by
  refine ⟨backed.own.shrink (fewer_attach done), ?_, fun g gFree => ?_⟩
  · rintro t (_ | ⟨_, mem⟩)
    · exact typed
    · exact backed.typed t mem
  -- the other files keep their counts and their markers
  have others : ∀ g, g ≠ f →
      attachedKeys g (⟨ty, rid, f⟩ :: attached) ⊆ attachedKeys g attached := by
    rintro g apart k ⟨t, _ | ⟨_, mem⟩, same, rfl⟩
    · exact absurd same.symm apart
    · exact ⟨t, mem, same, rfl⟩
  by_cases same : g = f
  swap
  · obtain ⟨refs, marks⟩ := attach_other done free gFree same
    exact backed.counts_of_subset gFree refs (others g same) marks.subset
  subst same
  have grown : attachedKeys g (⟨ty, rid, g⟩ :: attached) ⊆
      insert (relKey ty rid g) (attachedKeys g attached) := by
    rintro k ⟨t, _ | ⟨_, mem⟩, same, rfl⟩
    · exact .inl rfl
    · exact .inr ⟨t, mem, same, rfl⟩
  obtain ⟨info, read, bound⟩ := backed.counts g gFree
  have finite := (finite_attachedKeys g attached).union (finite_markers g kv)
  by_cases there : relKey ty rid g ∈ kv
  · -- The marker was there, so it was counted already.
    obtain rfl := attach_there done there
    have marked : relKey ty rid g ∈ attachedKeys g attached ∪ markers g kv' :=
      .inr ⟨markerOf_relKey_self _ _ _, there⟩
    refine ⟨info, read, (Set.ncard_le_ncard ?_ finite).trans bound⟩
    refine Set.union_subset (grown.trans ?_) Set.subset_union_right
    exact Set.insert_subset marked Set.subset_union_left
  · obtain ⟨stored, marks⟩ := attach_self done there
    have size := attach_count done read
    rw [if_neg there] at size
    have below := room info read
    -- one new marker at most, and the count went up by one
    have inside : attachedKeys g (⟨ty, rid, g⟩ :: attached) ∪ markers g kv' ⊆
        insert (relKey ty rid g) (attachedKeys g attached ∪ markers g kv) := by
      rw [marks]
      exact Set.union_subset (grown.trans (Set.insert_subset_insert Set.subset_union_left))
        (Set.insert_subset_insert Set.subset_union_right)
    refine ⟨_, stored, ?_⟩
    calc (attachedKeys g (⟨ty, rid, g⟩ :: attached) ∪ markers g kv').ncard
        ≤ (insert (relKey ty rid g) (attachedKeys g attached ∪ markers g kv)).ncard :=
          Set.ncard_le_ncard inside (finite.insert _)
      _ ≤ (attachedKeys g attached ∪ markers g kv).ncard + 1 := Set.ncard_insert_le _ _
      _ ≤ n := by omega

theorem detach {now : Int} (backed : Backed attached kv)
    (done : FsStore.detach now ty rid f kv = .ok (n, kv')) (typed : Text.Free ':' ty) :
    Backed (attached.filter (· ≠ ⟨ty, rid, f⟩)) kv' := by
  refine ⟨backed.own.shrink (fewer_detach done), fun t mem =>
    backed.typed t (List.mem_filter.mp mem).1, fun g gFree => ?_⟩
  have fewer : ∀ g, attachedKeys g (attached.filter (· ≠ ⟨ty, rid, f⟩)) ⊆
      attachedKeys g attached := by
    rintro g k ⟨t, mem, same, rfl⟩
    exact ⟨t, (List.mem_filter.mp mem).1, same, rfl⟩
  by_cases same : g = f
  swap
  · obtain ⟨refs, marks⟩ := detach_apart done same
    exact backed.counts_of_subset gFree refs (fewer g) marks
  subst same
  by_cases there : relKey ty rid g ∈ kv
  swap
  · rw [detach_absent done there]
    exact backed.counts_of_subset gFree rfl (fewer g) subset_rfl
  obtain ⟨info, read, bound⟩ := backed.counts g gFree
  obtain ⟨stored, marks⟩ := detach_self done there read
  have finite := (finite_attachedKeys g attached).union (finite_markers g kv)
  have marked : relKey ty rid g ∈ attachedKeys g attached ∪ markers g kv :=
    .inr ⟨markerOf_relKey_self _ _ _, there⟩
  have inside : attachedKeys g (attached.filter (· ≠ ⟨ty, rid, g⟩)) ∪ markers g kv' ⊆
      (attachedKeys g attached ∪ markers g kv) \ {relKey ty rid g} := by
    rintro k (⟨t, mem, named, rfl⟩ | kept)
    · obtain ⟨old, other⟩ := List.mem_filter.mp mem
      refine ⟨.inl ⟨t, old, named, rfl⟩, fun key => ?_⟩
      -- Types without a separator: no other row has this marker.
      obtain ⟨rfl, rfl, -⟩ := (relKey_inj (backed.typed t old) typed (named ▸ gFree) gFree).mp key
      subst named
      simp at other
    · rw [marks] at kept
      exact ⟨.inr kept.1, kept.2⟩
  refine ⟨_, stored, ?_⟩
  calc (attachedKeys g (attached.filter (· ≠ ⟨ty, rid, g⟩)) ∪ markers g kv').ncard
      ≤ ((attachedKeys g attached ∪ markers g kv) \ {relKey ty rid g}).ncard :=
        Set.ncard_le_ncard inside (finite.subset Set.sdiff_subset)
    _ = (attachedKeys g attached ∪ markers g kv).ncard - 1 :=
        Set.ncard_sdiff_singleton_of_mem marked
    _ ≤ info.count - 1 := by omega

theorem deleteFile (backed : Backed attached kv) (unattached : ∀ t ∈ attached, t.fileId ≠ f) :
    Backed attached (deleteFile f kv) := by
  refine ⟨backed.own.shrink (fewer_deleteFile f kv), backed.typed, fun g gFree => ?_⟩
  by_cases same : g = f
  swap
  · obtain ⟨refs, marks⟩ := deleteFile_apart same kv
    exact backed.counts_of_subset gFree refs subset_rfl marks
  subst same
  obtain ⟨stored, marks⟩ : getRefInfo g (deleteFile g kv) = .ok .default ∧
      markers g (deleteFile g kv) = ∅ := deleteFile_self
  have none : attachedKeys g attached = ∅ :=
    Set.eq_empty_of_forall_notMem fun k ⟨t, mem, named, _⟩ => unattached t mem named
  refine ⟨_, stored, ?_⟩
  simp [none, marks]

end Backed

end FsStore

/-! ### What a sweep has read -/

/-- What a process knows: the file that an attach has found; the start of a sweep and its listing
    of the files, whether it holds a session lock, and the file that it goes on to delete. -/
structure Sweep where
  found : Option String
  now : Int
  listed : Option (List FileRecord)
  locked : Bool
  doomed : Option String

/-- Whether the sweep goes on to delete `f` after this answer. -/
def Sweep.condemns (st : Sweep) (f : String) : Except Error RefInfo → Bool
  | .error _ => false
  | .ok info => (st.listed.getD []).any fun rec => decide (rec.id = f ∧ info.count = 0 ∧
      ¬ st.now - info.orphanSince.getD rec.createdAt ≤ Gc.ttlSecs)

@[reducible] def sweepProtocol : Prog.Protocol Call.Ans Error where
  State := Sweep
  possible c r := c.Answered r
  allowed st
    | .fs .master (.attach ty _ f) => st.found = some f ∧ Text.Free ':' ty
    | .fs .master (.detach ty _ _) => Text.Free ':' ty
    | .fs .master (.deleteFile f) => st.doomed = some f
    | .fs .master (.getFile _) | .fs .master (.getRefInfo _) | .fs .master (.getSession _)
    | .fs .master (.loadMultipart _) | .fs .master (.deleteSession ..) | .fs .master .listFiles
    | .fs .master .listSessions => True
    | .s3 (.deleteObject key) => st.locked = true ∨ ∃ files, st.listed = some files ∧
        ((∃ rec ∈ files, st.doomed = some rec.id ∧ rec.s3Key = key) ∨ key ∉ files.map (·.s3Key))
    | .fs .. => False
    | _ => True
  track st
    | .fs .master (.getFile f), .ok (some _) => { st with found := some f }
    | .fs .master .listFiles, .ok scan => { st with listed := some scan.records }
    | .fs .master (.getRefInfo f), r =>
      { st with doomed := if st.condemns f r then some f else none }
    | .fs .master (.deleteFile _), _ => { st with doomed := none }
    | .s3 (.deleteObject _), .error _ => { st with doomed := none }
    | .wal (.append _), .error _ => { st with doomed := none }
    | .lock _, _ => { st with locked := true }
    | .unlock _, _ => { st with locked := false }
    | .now, .ok t => { st with now := t }
    | _, _ => st

/-- What a process knows when it starts. -/
def Sweep.start (_ : FsOp) : Sweep := ⟨none, 0, none, false, none⟩

/-- What a process knows after its past. -/
def sweepOf (p : Proc Call.Ans Error FsOp) : Sweep :=
  sweepProtocol.observe (Sweep.start p.op) p.past

/-- The requests on relations, on rows whose type holds no separator, and the sweep. -/
def FsOp.Collects : FsOp → Prop
  | .attach ty .. | .detach ty .. => Text.Free ':' ty
  | .sweep => True
  | _ => False

instance : (op : FsOp) → Decidable op.Collects
  | .attach ty .. | .detach ty .. => inferInstanceAs (Decidable (Text.Free ':' ty))
  | .sweep => .isTrue trivial
  | .initUpload .. | .uploadPart .. | .completeUpload .. | .cancelUpload ..
  | .deleteFile .. => .isFalse id

/-- No attach of a file commits between the read of its count and the deletes of a sweep, and the
    count has not reached its limit. The session pass deletes no object of a file. -/
def Spares (s : FsPool) : Label Call Error FsOp → Prop
  | .spawn _ op => op.Collects
  | .call _ (.fs .master (.attach _ _ f)) none =>
    (∀ pid p, s.procs pid = some p → (sweepOf p).doomed ≠ some f) ∧
      ∀ info, FsStore.getRefInfo f s.world.master = .ok info → info.count < FsStore.u32Max
  | .call pid (.s3 (.deleteObject key)) none =>
    ∀ p, s.procs pid = some p → (sweepOf p).locked = true →
      ∀ f rec, FsStore.getFile f s.world.master = .ok (some rec) → rec.s3Key ≠ key
  | _ => True

/-! ### Conformance -/

/-- The calls of the session pass under its lock. -/
def Call.Expires : Call → Prop
  | .fs .master (.getSession _) | .fs .master (.loadMultipart _)
  | .fs .master (.deleteSession ..) => True
  | .s3 (.deleteObject _) | .s3 (.insertState ..) | .s3 (.removeStateOf ..)
  | .s3 (.abortMultipart _) => True
  | _ => False

private theorem ensureMultipart_expires (uploadId : String) :
    (FsEngine.ensureMultipart uploadId).Only Call.Expires := by
  refine ⟨trivial, ?_⟩
  rintro (e | _ | record)
  · trivial
  · trivial
  · change Prog.Only _ (S3.restoreMultipart record)
    unfold S3.restoreMultipart
    split
    · trivial
    · exact ⟨trivial, fun _ => trivial⟩

private theorem abortSessionUpload_expires (bucket : String) (session : UploadSession) :
    (FsEngine.abortSessionUpload bucket session).Only Call.Expires := by
  unfold FsEngine.abortSessionUpload
  split
  · exact ⟨trivial, fun _ => trivial⟩
  next uploadId _ =>
    refine ⟨trivial, ?_⟩
    rintro (e | _ | record)
    · trivial
    · trivial
    refine Prog.only_bind (p := FsEngine.ensureMultipart uploadId)
      (ensureMultipart_expires uploadId) fun _ => ?_
    refine Prog.only_bind (Prog.only_attempt
      (p := S3.abortMultipartUpload bucket session.s3Key uploadId) ⟨trivial, ?_⟩) fun r => ?_
    · rintro (e | _ | state)
      · trivial
      · trivial
      · exact ⟨trivial, fun _ => trivial⟩
    · split <;> trivial

private theorem sweepSession_expires (bucket : String) (now : Int) (s : UploadSession) :
    (if ¬ s.isExpired now Gc.ttlSecs then pure false
      else do
        match ← (FsEngine.abortSessionUpload bucket s).attempt with
        | .error _ => pure false
        | .ok () => do
          let _ ← FsEngine.deleteSession s.id
          pure true : M Bool).Only Call.Expires := by
  split
  · trivial
  refine Prog.only_bind (Prog.only_attempt (abortSessionUpload_expires bucket s)) fun r => ?_
  cases r with
  | error e => trivial
  | ok u =>
    refine ⟨trivial, ?_⟩
    rintro (e | session)
    · trivial
    refine ⟨trivial, ?_⟩
    rintro (e | gone) <;> trivial

private theorem expires_quiet (n : Int) (listed : Option (List FileRecord)) {c : Call}
    (expires : c.Expires) : sweepProtocol.allowed ⟨none, n, listed, true, none⟩ c ∧
      ∀ r, sweepProtocol.track ⟨none, n, listed, true, none⟩ c r = ⟨none, n, listed, true, none⟩ := by
  cases c with
  | fs side c =>
    cases side with
    | replica sub => cases expires
    | master => cases c <;> first | exact ⟨trivial, fun _ => rfl⟩ | cases expires
  | s3 c =>
    cases c with
    | deleteObject key =>
      refine ⟨.inl rfl, ?_⟩
      rintro (e | done) <;> rfl
    | _ => exact ⟨trivial, fun _ => rfl⟩
  | _ => cases expires

private theorem sweepSession_collects (bucket : String) (n now : Int)
    (listed : Option (List FileRecord)) (s : UploadSession) :
    (Gc.sweepSession bucket now s).Conf sweepProtocol
      (fun st _ => st = ⟨none, n, listed, false, none⟩) ⟨none, n, listed, false, none⟩ := by
  refine withSession_conf (fun _ _ answered => answered) trivial ?_
  refine ⟨trivial, ?_⟩
  rintro (e | _ | session) -
  · exact ⟨trivial, rfl⟩
  · exact ⟨trivial, rfl⟩
  refine ((sweepSession_expires bucket now session).conf fun c => expires_quiet n listed).mono ?_
  rintro st r rfl
  exact ⟨trivial, rfl⟩

private theorem sweepSessions_collects (bucket : String) (n now : Int)
    (listed : Option (List FileRecord)) (sessions : List UploadSession) (cleaned : Nat) :
    (Gc.sweepSessions bucket now sessions cleaned).Conf sweepProtocol
      (fun st _ => st = ⟨none, n, listed, false, none⟩) ⟨none, n, listed, false, none⟩ := by
  induction sessions generalizing cleaned with
  | nil => rfl
  | cons s sessions ih =>
    refine Prog.conf_bind.mpr ((sweepSession_collects bucket n now listed s).mono ?_)
    rintro st (e | done) rfl
    · rfl
    · exact ih _

/-- The count is read, and only a file of the listing whose count was zero is deleted. -/
private theorem sweepFile_collects {n : Int} {files : List FileRecord} {f : FileRecord}
    (listed : f ∈ files) (doomed : Option String) :
    (Gc.sweepFile n f).Conf sweepProtocol
      (fun st _ => ∃ d, st = ⟨none, n, some files, false, d⟩)
      ⟨none, n, some files, false, doomed⟩ := by
  refine Prog.conf_bind.mpr (Prog.conf_attempt.mpr ⟨trivial, ?_⟩)
  rintro (e | info) -
  · exact ⟨_, rfl⟩
  change Prog.Conf _ _ (if RefInfo.count info ≠ 0 then pure false
    else if n - (RefInfo.orphanSince info).getD f.createdAt ≤ Gc.ttlSecs then pure false
    else _ : M Bool) _
  split
  · exact ⟨_, rfl⟩
  next zero =>
  split
  · exact ⟨_, rfl⟩
  next old =>
  have condemned : Sweep.condemns ⟨none, n, some files, false, doomed⟩ f.id (.ok info) = true := by
    simp only [Sweep.condemns, Option.getD_some, List.any_eq_true, decide_eq_true_eq]
    exact ⟨f, listed, rfl, not_not.mp zero, old⟩
  simp only [condemned, if_true]
  refine Prog.conf_bind.mpr (Prog.conf_attempt.mpr
    ⟨.inr ⟨files, rfl, .inl ⟨f, listed, rfl, rfl⟩⟩, ?_⟩)
  rintro (e | deleted) -
  · exact ⟨_, rfl⟩
  refine Prog.conf_bind.mpr (Prog.conf_attempt.mpr ⟨trivial, ?_⟩)
  rintro (e | announced) -
  · exact ⟨_, rfl⟩
  refine ⟨rfl, ?_⟩
  rintro (e | gone) -
  · exact ⟨_, rfl⟩
  · exact ⟨_, rfl⟩

private theorem sweepFiles_collects {n : Int} {files : List FileRecord} (rest : List FileRecord)
    (listed : ∀ f ∈ rest, f ∈ files) (doomed : Option String) (cleaned : Nat) :
    (Gc.sweepFiles n rest cleaned).Conf sweepProtocol
      (fun st _ => ∃ d, st = ⟨none, n, some files, false, d⟩)
      ⟨none, n, some files, false, doomed⟩ := by
  induction rest generalizing doomed cleaned with
  | nil => exact ⟨_, rfl⟩
  | cons f rest ih =>
    refine Prog.conf_bind.mpr ((sweepFile_collects (listed f (.head _)) doomed).mono ?_)
    rintro st (e | done) ⟨d, rfl⟩
    · exact ⟨d, rfl⟩
    · exact ih (fun f mem => listed f (.tail _ mem)) d _

private theorem sweepObjects_collects {n now : Int} {files : List FileRecord} {live : List String}
    (all : ∀ rec ∈ files, rec.s3Key ∈ live) (entries : List ListedKey) (doomed : Option String)
    (cleaned : Nat) : (Gc.sweepObjects now live entries cleaned).Conf sweepProtocol
      (fun _ _ => True) ⟨none, n, some files, false, doomed⟩ := by
  induction entries generalizing doomed cleaned with
  | nil => trivial
  | cons entry entries ih =>
    refine Prog.conf_bind.mpr ?_
    unfold Gc.sweepObject
    split
    · exact ih doomed _
    next spared =>
    have foreign : entry.key ∉ files.map (·.s3Key) := by
      rintro mem
      obtain ⟨rec, listed, same⟩ := List.mem_map.mp mem
      exact spared (.inl (same ▸ all rec listed))
    refine Prog.conf_bind.mpr (Prog.conf_attempt.mpr ⟨.inr ⟨files, rfl, .inr foreign⟩, ?_⟩)
    rintro (e | deleted) -
    · exact ih none _
    · exact ih doomed _

private theorem sweepOnce_collects (bucket : String) :
    (Gc.sweepOnce bucket).Conf sweepProtocol (fun _ _ => True) ⟨none, 0, none, false, none⟩ := by
  refine Prog.conf_bind.mpr ⟨trivial, ?_⟩
  rintro _ ⟨n, rfl⟩
  refine Prog.conf_seq trivial (fun _ => trivial) fun sessions => ?_
  refine Prog.conf_seq trivial (fun _ => trivial) fun files => ?_
  refine Prog.conf_bind.mpr ((sweepSessions_collects bucket n n (some files.records) _ 0).mono ?_)
  rintro st (e | cleaned) rfl
  · trivial
  refine Prog.conf_bind.mpr ((sweepFiles_collects files.records (fun _ mem => mem) none cleaned).mono ?_)
  rintro st (e | cleaned') ⟨d, rfl⟩
  · trivial
  change (Gc.orphanPass n sessions files cleaned').Conf _ _ _
  unfold Gc.orphanPass
  split
  · trivial
  refine Prog.conf_bind.mpr (Prog.conf_attempt.mpr ⟨trivial, ?_⟩)
  rintro (e | listed) -
  · trivial
  · exact sweepObjects_collects (fun rec mem =>
      List.mem_append_right _ (List.mem_map_of_mem mem)) _ d _

private theorem collects_conf (bucket : String) {op : FsOp} (collects : op.Collects) :
    (op.prog bucket).Conf sweepProtocol (fun _ _ => True) (Sweep.start op) := by
  have checks : ∀ c : Call, c = .policy .authorizer →
      sweepProtocol.allowed ⟨none, 0, none, false, none⟩ c ∧ ∀ r,
        sweepProtocol.track ⟨none, 0, none, false, none⟩ c r = ⟨none, 0, none, false, none⟩ := by
    rintro c rfl
    exact ⟨trivial, fun _ => rfl⟩
  have asks : ∀ sub ty rid,
      (FsEngine.requireWrite sub ty rid).Only (fun c => c = .policy .authorizer) := by
    intro sub ty rid
    refine ⟨rfl, ?_⟩
    rintro (e | policy)
    · trivial
    · change Prog.Only _ (if _ then _ else _ : M Unit)
      split <;> trivial
  cases op with
  | attach ty rid f sub =>
    refine Prog.conf_bind.mpr (Prog.Conf.mono (show (FsEngine.attach ty rid f sub).Conf _
      (fun _ _ => True) _ from ?_) fun _ r _ => by cases r <;> trivial)
    refine (asks sub ty rid).conf_bind checks (fun _ => trivial) fun _ => ?_
    refine ⟨trivial, ?_⟩
    rintro (e | _ | rec) -
    · trivial
    · trivial
    refine ⟨⟨rfl, collects⟩, ?_⟩
    rintro (e | count) -
    · trivial
    refine ⟨trivial, ?_⟩
    rintro (e | done) - <;> trivial
  | detach ty rid f sub =>
    refine Prog.conf_bind.mpr (Prog.Conf.mono (show (FsEngine.detach ty rid f sub).Conf _
      (fun _ _ => True) _ from ?_) fun _ r _ => by cases r <;> trivial)
    refine (asks sub ty rid).conf_bind checks (fun _ => trivial) fun _ => ?_
    refine ⟨collects, ?_⟩
    rintro (e | count) -
    · trivial
    refine ⟨trivial, ?_⟩
    rintro (e | done) - <;> trivial
  | sweep =>
    exact Prog.conf_bind.mpr ((sweepOnce_collects bucket).mono fun _ r _ => by cases r <;> trivial)
  | _ => cases collects

/-! ### Every step keeps the counts -/

/-- What a process knows is true of the store: the file it has found had a proper id, the listing
    holds every record that is left, and nothing is attached to the file it goes on to delete. -/
structure Knows (attached : List Relation) (kv : Kv Value) (st : Sweep) : Prop where
  found : ∀ f, st.found = some f → Text.Free ':' f
  listed : ∀ files, st.listed = some files →
    (∀ rec ∈ files, Text.Free ':' rec.id ∧ rec.s3Key = Gc.fileBytesPrefix ++ rec.id) ∧
      ∀ f rec, FsStore.getFile f kv = .ok (some rec) → rec ∈ files
  doomed : ∀ f, st.doomed = some f → ∀ t ∈ attached, t.fileId ≠ f

theorem Knows.later {attached attached' : List Relation} {kv kv' : Kv Value} {st : Sweep}
    (knows : Knows attached kv st) (fewer : FsStore.FewerRecords kv kv')
    (spared : ∀ t ∈ attached', t ∈ attached ∨ st.doomed ≠ some t.fileId) :
    Knows attached' kv' st := by
  refine ⟨knows.found, fun files listed => ⟨(knows.listed files listed).1, fun f rec here => ?_⟩, ?_⟩
  · refine (knows.listed files listed).2 f rec (FsStore.getFile_eq_some.mpr ?_)
    exact fewer _ rec (FsStore.getFile_eq_some.mp here)
  · rintro f doomed t mem rfl
    rcases spared t mem with old | other
    · exact knows.doomed _ doomed t old rfl
    · exact other doomed

/-- The counts back what is attached, and every process knows what is true. -/
structure Guarded (h : List (Label Call Error FsOp)) (w : World)
    (view : Nat → Option (FsOp × Sweep)) : Prop where
  backed : FsStore.Backed (attachedIn h) w.master
  knows : ∀ pid op st, view pid = some (op, st) → Knows (attachedIn h) w.master st

section Steps

variable {h : List (Label Call Error FsOp)} {w w' : World} {view : Nat → Option (FsOp × Sweep)}
  {pid : Nat} {op : FsOp} {st st' : Sweep} {l : Label Call Error FsOp}

private theorem Guarded.step (guarded : Guarded h w view)
    (backed : FsStore.Backed (attachedIn (h ++ [l])) w'.master)
    (fewer : FsStore.FewerRecords w.master w'.master)
    (spared : ∀ q op₁ st₁, view q = some (op₁, st₁) → ∀ t ∈ attachedIn (h ++ [l]),
      t ∈ attachedIn h ∨ st₁.doomed ≠ some t.fileId)
    (mine : Knows (attachedIn (h ++ [l])) w'.master st') :
    Guarded (h ++ [l]) w' (Function.update view pid (some (op, st'))) := by
  refine ⟨backed, fun q op₁ st₁ found => ?_⟩
  rcases update_eq_some.mp found with ⟨-, ⟨⟩⟩ | ⟨-, found⟩
  · exact mine
  · exact (guarded.knows q op₁ st₁ found).later fewer (spared q op₁ st₁ found)

/-- A step that touches neither records nor relations. -/
private theorem Guarded.quiet (guarded : Guarded h w view)
    (same : attachedIn (h ++ [l]) = attachedIn h)
    (rows : ∀ k : String, Text.startsWith FsStore.filesPrefix k = true ∨ FsStore.IsMarker k →
      w'.master[k]? = w.master[k]?)
    (fewer : FsStore.FewerRecords w.master w'.master)
    (mine : Knows (attachedIn h) w.master st') :
    Guarded (h ++ [l]) w' (Function.update view pid (some (op, st'))) := by
  have refs : ∀ g, FsStore.getRefInfo g w'.master = FsStore.getRefInfo g w.master := by
    intro g
    refine FsStore.getRefInfo_congr (rows _ (.inl ?_))
    rw [FsStore.refsKey, String.append_assoc]
    exact Text.startsWith_append _ _
  have marks : ∀ g, FsStore.markers g w'.master ⊆ FsStore.markers g w.master := by
    rintro g k ⟨named, mem⟩
    refine ⟨named, ?_⟩
    rwa [Kv.mem_iff_get, rows k (.inr named.1), ← Kv.mem_iff_get] at mem
  refine guarded.step (same ▸ guarded.backed.keep fewer refs marks) fewer ?_ ?_
  · intro q op₁ st₁ _ t mem
    exact .inl (same ▸ mem)
  · exact same ▸ mine.later fewer fun t mem => .inl mem

/-- A step that leaves the store alone. -/
private theorem Guarded.read (guarded : Guarded h w view)
    (same : attachedIn (h ++ [l]) = attachedIn h) (master : w'.master = w.master)
    (mine : Knows (attachedIn h) w.master st') :
    Guarded (h ++ [l]) w' (Function.update view pid (some (op, st'))) :=
  guarded.quiet same (fun k _ => by rw [master]) (fun k rec here => master ▸ here) mine

private theorem Guarded.attach (guarded : Guarded h w view) (here : view pid = some (op, st))
    {ty rid f : String} (seen : st.found = some f) (typed : Text.Free ':' ty)
    (apart : ∀ q op₁ st₁, view q = some (op₁, st₁) → st₁.doomed ≠ some f)
    (room : ∀ info, FsStore.getRefInfo f w.master = .ok info → info.count < FsStore.u32Max) :
    Guarded (h ++ [.call pid (.fs .master (.attach ty rid f)) none])
      { w with master := ((FsCall.attach ty rid f).exec w.clock w.master).2 }
      (Function.update view pid (some (op, st))) := by
  have knows := guarded.knows pid op st here
  have free := knows.found f seen
  obtain ⟨info, read, -⟩ := guarded.backed.counts f free
  obtain ⟨n, kv, done⟩ : ∃ n kv, FsStore.attach ty rid f w.master = .ok (n, kv) := by
    simp only [FsStore.attach, read]
    split
    · exact ⟨_, _, rfl⟩
    · exact ⟨_, _, rfl⟩
  have effect : ((FsCall.attach ty rid f).exec w.clock w.master).2 = kv := by
    simp [FsCall.exec, done]
  have spared : ∀ q op₁ st₁, view q = some (op₁, st₁) →
      ∀ t ∈ (⟨ty, rid, f⟩ :: attachedIn h : List Relation),
        t ∈ attachedIn h ∨ st₁.doomed ≠ some t.fileId := by
    rintro q op₁ st₁ found t (_ | ⟨_, mem⟩)
    · exact .inr (apart q op₁ st₁ found)
    · exact .inl mem
  refine guarded.step ?_ ?_ ?_ ?_
  · rw [attachedIn_concat, effect]
    exact guarded.backed.attach done typed free room
  · rw [effect]
    exact FsStore.fewer_attach done
  · rw [attachedIn_concat]
    exact spared
  · rw [attachedIn_concat, effect]
    exact knows.later (FsStore.fewer_attach done) (spared pid op st here)

private theorem Guarded.detach (guarded : Guarded h w view) (here : view pid = some (op, st))
    {ty rid f : String} (typed : Text.Free ':' ty) :
    Guarded (h ++ [.call pid (.fs .master (.detach ty rid f)) none])
      { w with master := ((FsCall.detach ty rid f).exec w.clock w.master).2 }
      (Function.update view pid (some (op, st))) := by
  have knows := guarded.knows pid op st here
  have fewer : ∀ t ∈ (attachedIn h).filter (· ≠ ⟨ty, rid, f⟩), t ∈ attachedIn h :=
    fun t mem => (List.mem_filter.mp mem).1
  cases done : FsStore.detach w.clock ty rid f w.master with
  | error e =>
    have effect : ((FsCall.detach ty rid f).exec w.clock w.master).2 = w.master := by
      simp [FsCall.exec, done]
    -- The count of `f` cannot be read, so `f` is no proper id and nothing is attached to it.
    have backed : FsStore.Backed ((attachedIn h).filter (· ≠ ⟨ty, rid, f⟩)) w.master := by
      refine ⟨guarded.backed.own, fun t mem => guarded.backed.typed t (fewer t mem),
        fun g free => ?_⟩
      obtain ⟨info, read, bound⟩ := guarded.backed.counts g free
      refine ⟨info, read, (Set.ncard_le_ncard (Set.union_subset_union_left _ ?_)
        ((finite_attachedKeys _ _).union (FsStore.finite_markers _ _))).trans bound⟩
      rintro k ⟨t, mem, same, rfl⟩
      exact ⟨t, fewer t mem, same, rfl⟩
    rw [effect]
    refine guarded.step (by rw [attachedIn_concat]; exact backed) (fun k rec here => here) ?_ ?_
    · rw [attachedIn_concat]
      exact fun _ _ _ _ t mem => .inl (fewer t mem)
    · rw [attachedIn_concat]
      exact knows.later (fun k rec here => here) fun t mem => .inl (fewer t mem)
  | ok done' =>
    obtain ⟨n, kv⟩ := done'
    have effect : ((FsCall.detach ty rid f).exec w.clock w.master).2 = kv := by
      simp [FsCall.exec, done]
    rw [effect]
    refine guarded.step ?_ (FsStore.fewer_detach done) ?_ ?_
    · rw [attachedIn_concat]
      exact guarded.backed.detach done typed
    · rw [attachedIn_concat]
      exact fun _ _ _ _ t mem => .inl (fewer t mem)
    · rw [attachedIn_concat]
      exact knows.later (FsStore.fewer_detach done) fun t mem => .inl (fewer t mem)

private theorem Guarded.deleteFile (guarded : Guarded h w view) (here : view pid = some (op, st))
    {f : String} (doomed : st.doomed = some f) :
    Guarded (h ++ [.call pid (.fs .master (.deleteFile f)) none])
      { w with master := FsStore.deleteFile f w.master }
      (Function.update view pid (some (op, { st with doomed := none }))) := by
  have knows := guarded.knows pid op st here
  have same : attachedIn (h ++ [.call pid (.fs .master (.deleteFile f)) none]) = attachedIn h :=
    attachedIn_concat _ _
  refine guarded.step ?_ (FsStore.fewer_deleteFile f w.master) ?_ ?_
  · rw [same]
    exact guarded.backed.deleteFile (knows.doomed f doomed)
  · rw [same]
    exact fun _ _ _ _ t mem => .inl mem
  · rw [same]
    have later : Knows (attachedIn h) (FsStore.deleteFile f w.master) _ :=
      knows.later (FsStore.fewer_deleteFile f w.master) fun t mem => .inl mem
    exact ⟨later.found, later.listed, fun g bad => nomatch bad⟩

/-- A zero count was read: nothing is attached at this moment. -/
private theorem Knows.condemn {attached : List Relation} {kv : Kv Value}
    (knows : Knows attached kv st) (backed : FsStore.Backed attached kv) (f : String) :
    Knows attached kv { st with
      doomed := if st.condemns f (FsStore.getRefInfo f kv) then some f else none } := by
  refine ⟨knows.found, knows.listed, fun g doomed => ?_⟩
  cases read : FsStore.getRefInfo f kv with
  | error e => simp [Sweep.condemns, read] at doomed
  | ok info =>
    simp only [read] at doomed
    split at doomed
    next condemned =>
      obtain rfl := Option.some.inj doomed
      obtain ⟨rec, mem, test⟩ := List.any_eq_true.mp condemned
      obtain ⟨rfl, zero, -⟩ := of_decide_eq_true test
      cases listed : st.listed with
      | none => simp [listed] at mem
      | some files =>
        rw [listed] at mem
        exact backed.unattached ((knows.listed files listed).1 rec mem).1 read zero
    next => cases doomed

end Steps

theorem FsStore.fewer_deleteSession (id : String) (session : Option UploadSession)
    (kv : Kv Value) : FsStore.FewerRecords kv (FsStore.deleteSession id session kv) := by
  intro k rec here
  unfold FsStore.deleteSession at here
  rw [Kv.get_commit_deletes, Option.ite_none_left_eq_some] at here
  exact here.2

/-- A process may forget what it goes on to delete. -/
private theorem Knows.forget {attached : List Relation} {kv : Kv Value} {st st' : Sweep}
    (knows : Knows attached kv st) (found : st'.found = st.found) (listed : st'.listed = st.listed)
    (doomed : st'.doomed = st.doomed ∨ st'.doomed = none) : Knows attached kv st' := by
  refine ⟨fun f seen => knows.found f (found ▸ seen), fun files here =>
    knows.listed files (listed ▸ here), fun f marked => ?_⟩
  rcases doomed with same | none
  · exact knows.doomed f (same ▸ marked)
  · rw [none] at marked
    cases marked

/-- A call that failed teaches nothing. -/
private theorem Knows.fault {attached : List Relation} {kv : Kv Value} {st : Sweep}
    (knows : Knows attached kv st) (c : Call) (e : Error) :
    Knows attached kv (sweepProtocol.track st c (.error e)) := by
  cases c with
  | fs side c =>
    cases side with
    | replica sub => exact knows
    | master =>
      cases c with
      | getRefInfo f => exact knows.forget rfl rfl (.inr rfl)
      | deleteFile f => exact knows.forget rfl rfl (.inr rfl)
      | _ => exact knows
  | wal c =>
    cases c with
    | append op => exact knows.forget rfl rfl (.inr rfl)
    | _ => exact knows
  | s3 c =>
    cases c with
    | deleteObject key => exact knows.forget rfl rfl (.inr rfl)
    | _ => exact knows
  | policy c => exact knows
  | lock id => exact knows.forget rfl rfl (.inl rfl)
  | unlock id => exact knows.forget rfl rfl (.inl rfl)
  | now => exact knows
  | uuid => exact knows

private theorem guarded_call {h : List (Label Call Error FsOp)} {s : FsPool} {pid : Nat}
    {op : FsOp} {st : Sweep} {c : Call} (met : Spares s (.call pid c none))
    (here : sweepProtocol.view Sweep.start s pid = some (op, st))
    (allowed : sweepProtocol.allowed st c)
    (guarded : Guarded h s.world (sweepProtocol.view Sweep.start s)) :
    Guarded (h ++ [.call pid c none]) (c.exec s.world).2
      (Function.update (sweepProtocol.view Sweep.start s) pid
        (some (op, sweepProtocol.track st c (c.exec s.world).1))) := by
  have knows := guarded.knows pid op st here
  cases c with
  | fs side c =>
    cases side with
    | replica sub => cases c <;> cases allowed
    | master =>
      cases c with
      | attach ty rid f =>
        -- the run lets no attach commit between the count and the deletes of a sweep
        refine guarded.attach here allowed.1 allowed.2 (fun q op₁ st₁ found doomed => ?_) met.2
        obtain ⟨p, at_q, rfl, rfl⟩ := sweepProtocol.view_eq_some.mp found
        exact met.1 q p at_q doomed
      | detach ty rid f => exact guarded.detach here allowed
      | deleteFile f => exact guarded.deleteFile here allowed
      | deleteSession id session =>
        exact guarded.quiet (attachedIn_concat _ _)
          (fun k row => FsStore.get_deleteSession id session _ row)
          (FsStore.fewer_deleteSession id session _) knows
      | getFile f =>
        refine guarded.read (attachedIn_concat _ _) rfl ?_
        cases read : FsStore.getFile f s.world.master with
        | error e =>
          simp only [Call.exec, FsCall.exec, World.fsStore, read]
          exact knows
        | ok found =>
          cases found with
          | none =>
            simp only [Call.exec, FsCall.exec, World.fsStore, read]
            exact knows
          | some rec =>
            simp only [Call.exec, FsCall.exec, World.fsStore, read]
            refine ⟨fun g seen => ?_, knows.listed, knows.doomed⟩
            obtain rfl := Option.some.inj seen
            -- a record lies under its own id, and ids have no separator
            obtain ⟨key, free, -⟩ := guarded.backed.own _ rec (FsStore.getFile_eq_some.mp read)
              (FsStore.metaKey_fileKey f)
            exact FsStore.fileKey_inj.mp key ▸ free
      | getRefInfo f =>
        exact guarded.read (attachedIn_concat _ _) rfl (knows.condemn guarded.backed f)
      | listFiles =>
        refine guarded.read (attachedIn_concat _ _) rfl ⟨knows.found, ?_, knows.doomed⟩
        rintro files ⟨⟩
        refine ⟨fun rec mem => ?_, fun f rec found => ?_⟩
        · obtain ⟨k, stored, family⟩ := FsStore.mem_listFiles.mp mem
          exact (guarded.backed.own k rec stored family).2
        · exact FsStore.mem_listFiles.mpr ⟨_, FsStore.getFile_eq_some.mp found,
            FsStore.metaKey_fileKey f⟩
      | getSession id => exact guarded.read (attachedIn_concat _ _) rfl knows
      | loadMultipart id => exact guarded.read (attachedIn_concat _ _) rfl knows
      | listSessions => exact guarded.read (attachedIn_concat _ _) rfl knows
      | _ => cases allowed
  | wal c =>
    refine guarded.read (attachedIn_concat _ _) rfl ?_
    cases c with
    | append op =>
      cases (Call.exec (.wal (.append op)) s.world).1 with
      | error e => exact knows.fault (.wal (.append op)) e
      | ok done => exact knows
    | _ => exact knows
  | s3 c =>
    refine guarded.read (attachedIn_concat _ _) (S3Call.exec_apart c s.world).1 ?_
    cases c with
    | deleteObject key => exact knows
    | _ => exact knows
  | policy c => exact guarded.read (attachedIn_concat _ _) rfl knows
  | lock id => exact guarded.read (attachedIn_concat _ _) rfl (knows.forget rfl rfl (.inl rfl))
  | unlock id => exact guarded.read (attachedIn_concat _ _) rfl (knows.forget rfl rfl (.inl rfl))
  | now => exact guarded.read (attachedIn_concat _ _) rfl (knows.forget rfl rfl (.inl rfl))
  | uuid => exact guarded.read (attachedIn_concat _ _) rfl knows

private theorem guarded_preserved (bucket : String) :
    (fsSystem bucket).Preserves sweepProtocol Sweep.start Spares Guarded where
  answers c w := c.answered_exec w
  faults _ _ mayFail := Call.answered_fault mayFail
  spawn := by
    intro h s pid op _ _ guarded
    refine guarded.read (attachedIn_concat _ _) rfl ?_
    exact ⟨fun f bad => (nomatch bad), fun files bad => (nomatch bad), fun f bad => (nomatch bad)⟩
  env := by
    rintro h s w - ⟨clock, enforcer, -, rfl⟩ guarded
    have same : attachedIn (h ++ [.env]) = attachedIn h := attachedIn_concat _ _
    exact ⟨by rw [same]; exact guarded.backed, by rw [same]; exact guarded.knows⟩
  call := fun _ _ _ _ _ _ met here allowed _ guarded => guarded_call met here allowed guarded
  fault := by
    intro h s pid op st c e _ here _ _ guarded
    refine guarded.read ?_ rfl ((guarded.knows pid op st here).fault c e)
    rw [attachedIn_concat]
    unfold relate
    split <;> first | rfl | (rename_i same; cases same)
  drop := fun _ _ _ _ _ _ _ bad _ => nomatch bad

/-! ### Nothing attached is removed -/

/-- The step removes the row or the object of `f`. -/
def Removes (s : FsPool) (l : Label Call Error FsOp) (f : String) : Prop :=
  match l with
  | .call _ (.fs .master (.deleteFile g)) none => g = f
  | .call _ (.s3 (.deleteObject key)) none =>
    ∃ rec, FsStore.getFile f s.world.master = .ok (some rec) ∧ rec.s3Key = key
  | _ => False

private theorem not_removes_fault {s : FsPool} {pid : Nat} {c : Call} {e : Error} {f : String} :
    ¬ Removes s (.call pid c (some e)) f := by
  intro removes
  unfold Removes at removes
  split at removes
  next same => cases same
  next same => cases same
  next => exact removes

/-- **Sweeps spare attached files**. From a store whose counts cover its markers, in every run
    of attach and detach requests and sweeps in which no attach of a file commits between the
    read of its count and the deletes, no step removes the row or the object of a file that is
    attached. -/
theorem sweep_spares_attached (bucket : String) {w : World} (own : FsStore.OwnRecords w.master)
    (counted : ∀ f, Text.Free ':' f → ∃ info, FsStore.getRefInfo f w.master = .ok info ∧
      (FsStore.markers f w.master).ncard ≤ info.count)
    {h : List (Label Call Error FsOp)} {s t : FsPool} {l : Label Call Error FsOp}
    (run : (fsSystem bucket).Trace Spares (fsPool w) h s) (met : Spares s l)
    (step : (fsSystem bucket).Step s l t) {f : String} (attached : Attached h f) :
    ¬ Removes s l f := by
  have start : Guarded [] w (sweepProtocol.view Sweep.start (fsPool w)) := by
    refine ⟨⟨own, fun t mem => (nomatch mem), fun f free => ?_⟩, fun _ _ _ bad => (nomatch bad)⟩
    obtain ⟨info, read, bound⟩ := counted f free
    refine ⟨info, read, ?_⟩
    have none : attachedKeys f (attachedIn []) = ∅ :=
      Set.eq_empty_of_forall_notMem fun k ⟨t, mem, _⟩ => nomatch mem
    rwa [none, Set.empty_union]
  obtain ⟨obeyed, guarded⟩ := System.invariant_of_trace
    (fun _ _ _ collects => collects_conf bucket collects) (guarded_preserved bucket) run
    (System.obeyed_of_no_procs _) start
  obtain ⟨rel, mem, rfl⟩ := attached.mem
  intro removes
  -- each way in which a delete is allowed rules out that the file is attached
  cases step with
  | @call pid op past c next at_call enabled =>
    have allowed := (obeyed pid _ at_call).1
    have knows := guarded.knows pid op _ (sweepProtocol.view_eq_some.mpr ⟨_, at_call, rfl, rfl⟩)
    cases c with
    | fs side c =>
      cases side with
      | replica sub => cases removes
      | master =>
        cases c with
        | deleteFile g => exact knows.doomed g allowed rel mem removes.symm
        | _ => cases removes
    | s3 c =>
      cases c with
      | deleteObject key =>
        obtain ⟨rec, here, rfl⟩ := removes
        obtain ⟨key, -, s3Key⟩ := guarded.backed.own _ rec (FsStore.getFile_eq_some.mp here)
          (FsStore.metaKey_fileKey rel.fileId)
        obtain id := FsStore.fileKey_inj.mp key
        rcases allowed with locked | ⟨files, listed, ⟨rec', mem', doomed, same⟩ | foreign⟩
        · exact met _ at_call locked rel.fileId rec here rfl
        · -- Both objects are named after their files.
          have s3Key' := ((knows.listed files listed).1 rec' mem').2
          have ids : rec'.id = rec.id := by
            rw [s3Key, s3Key'] at same
            exact (String.append_right_inj _).mp same
          exact knows.doomed _ doomed rel mem (id.trans ids.symm)
        · exact foreign (List.mem_map_of_mem ((knows.listed files listed).2 _ rec here))
      | _ => cases removes
    | _ => cases removes
  | fault at_call mayFail => exact not_removes_fault removes
  | _ => cases removes

/-! ### Runs -/

/-- Only attaches, detaches and sweeps are started. -/
def CollectsOnly (_ : FsPool) : Label Call Error FsOp → Prop
  | .spawn _ op => op.Collects
  | _ => True

/-- An attach of `f` has returned. -/
def AttachReturned (s : FsPool) (f : String) : Prop :=
  ∃ pid p ty rid sub, s.procs pid = some p ∧ p.op = .attach ty rid f sub ∧
    p.rest.result = some (.ok ())

/-- Two files of `alice` that are old enough to be collected; `bob` may attach them. -/
def oldFiles : World :=
  { orderWorld with
    master := orderWorld.master.insert (FsStore.fileKey "g")
      (.file ⟨"g", "draft.pdf", "application/pdf", 4, "files/g", "alice", 1⟩)
    clock := 100000 }

theorem oldFiles_own : FsStore.OwnRecords oldFiles.master := by
  intro k rec here _
  simp only [oldFiles, orderWorld, Kv.get_insert] at here
  split at here
  next same =>
    cases here
    exact ⟨same.symm, by decide, rfl⟩
  split at here
  next same =>
    cases here
    exact ⟨same.symm, by decide, rfl⟩
  next => simp at here

theorem oldFiles_counted (f : String) (free : Text.Free ':' f) :
    ∃ info, FsStore.getRefInfo f oldFiles.master = .ok info ∧
      (FsStore.markers f oldFiles.master).ncard ≤ info.count := by
  have fresh : ∀ k ∈ oldFiles.master, ¬ FsStore.IsMarker k ∧ ∀ f, k ≠ FsStore.refsKey f := by
    intro k mem
    simp only [oldFiles, orderWorld, Std.ExtTreeMap.mem_insert, compare_eq_iff_eq] at mem
    rcases mem with rfl | rfl | bad
    · exact ⟨FsStore.not_isMarker_fileKey "g", FsStore.fileKey_ne_refsKey "g"⟩
    · exact ⟨FsStore.not_isMarker_fileKey "f", FsStore.fileKey_ne_refsKey "f"⟩
    · simp at bad
  obtain ⟨info, read, count, -⟩ := (FsStore.Counted.of_fresh fresh).counts f free
  exact ⟨info, read, count.ge⟩

/-- How to follow a schedule of attaches, detaches and sweeps. -/
def collectsScheduler (bucket : String) : (fsSystem bucket).Scheduler CollectsOnly :=
  worldScheduler
    (fun _ l => match l with
      | .spawn _ op => decide op.Collects
      | _ => true)
    (by
      rintro s (⟨pid, op⟩ | ⟨pid, c, fault⟩ | pid | -) ok
      · exact of_decide_eq_true (p := op.Collects) ok
      · trivial
      · trivial
      · trivial)

/-- The sweep reads the count of `f`, then `bob`'s attach runs to its end. -/
def countThenAttach : List (System.Move Error FsOp) :=
  .spawn 0 (.attach "order" "7" "f" "bob") :: .spawn 1 .sweep :: List.replicate 4 (.call 1) ++
    List.replicate 4 (.call 0)

private theorem countThenAttach_played :
    ((collectsScheduler "b").play countThenAttach [] (fsPool oldFiles)).isSome = true := by
  decide +kernel

/-- The sweep deletes the object of a file whose attach has returned. -/
theorem sweep_collects_attached :
    ¬ ∀ (bucket : String) (w : World) (h : List (Label Call Error FsOp)) (s t : FsPool)
      (l : Label Call Error FsOp) (f : String), FsStore.OwnRecords w.master →
      (∀ f, Text.Free ':' f → ∃ info, FsStore.getRefInfo f w.master = .ok info ∧
        (FsStore.markers f w.master).ncard ≤ info.count) →
      (fsSystem bucket).Trace CollectsOnly (fsPool w) h s → (fsSystem bucket).Step s l t →
      Attached h f → AttachReturned s f → ¬ Removes s l f := by
  intro claim
  have run := (collectsScheduler "b").trace_of_play countThenAttach _ countThenAttach_played
  have moved : ((collectsScheduler "b").move (((collectsScheduler "b").play countThenAttach []
      (fsPool oldFiles)).get countThenAttach_played).2 (.call 1)).map (·.1) =
        some (.call 1 (.s3 (.deleteObject "files/f")) none) := by decide +kernel
  obtain ⟨⟨l, t⟩, move, rfl⟩ := Option.map_eq_some_iff.mp moved
  have history : (((collectsScheduler "b").play countThenAttach []
      (fsPool oldFiles)).get countThenAttach_played).1 =
        (((collectsScheduler "b").play countThenAttach [] (fsPool oldFiles)).get
          countThenAttach_played).1.take 8 ++
        .call 0 (.fs .master (.attach "order" "7" "f")) none ::
          [.call 0 (.wal (.append (.attach "order" "7" "f"))) none] := by decide +kernel
  refine claim "b" oldFiles _ _ t _ "f" oldFiles_own oldFiles_counted run
    (System.Scheduler.step_of_move move) ⟨_, _, 0, "order", "7", history, ?_⟩ ?_ ?_
  · intro q mem
    cases List.mem_singleton.mp mem
  · have ended : ((((collectsScheduler "b").play countThenAttach []
        (fsPool oldFiles)).get countThenAttach_played).2.procs 0).map
          (fun p => (p.op, p.rest.result)) =
        some (.attach "order" "7" "f" "bob", some (.ok ())) := by decide +kernel
    obtain ⟨p, at_0, same⟩ := Option.map_eq_some_iff.mp ended
    obtain ⟨op, result⟩ := Prod.mk.inj same
    exact ⟨0, p, "order", "7", "bob", at_0, op, result⟩
  · have stored : FsStore.getFile "f" (((collectsScheduler "b").play countThenAttach []
        (fsPool oldFiles)).get countThenAttach_played).2.world.master =
          .ok (some ⟨"f", "scan.pdf", "application/pdf", 4, "files/f", "alice", 1⟩) := by
      decide +kernel
    exact ⟨_, stored, rfl⟩

/-- How to check `Spares` when only the processes `pids` are there. -/
def sparesCheck (pids : List Nat) (s : FsPool) : Label Call Error FsOp → Bool
  | .spawn pid op => decide (pid ∈ pids) && decide op.Collects
  | .call _ (.fs .master (.attach _ _ f)) none =>
    (pids.all fun q => (s.procs q).all fun p => decide ((sweepOf p).doomed ≠ some f)) &&
      match FsStore.getRefInfo f s.world.master with
      | .ok info => decide (info.count < FsStore.u32Max)
      | .error _ => true
  | .call pid (.s3 (.deleteObject _)) none => (s.procs pid).all fun p => !(sweepOf p).locked
  | _ => true

theorem sparesCheck_sound (pids : List Nat) (s : FsPool) (l : Label Call Error FsOp)
    (ok : sparesCheck pids s l = true) : System.Confined pids Spares s l := by
  refine ⟨?_, fun outside => ?_⟩
  · rintro pid op rfl
    exact of_decide_eq_true (Bool.and_eq_true_iff.mp ok).1
  unfold sparesCheck at ok
  split at ok
  next pid op => exact of_decide_eq_true (p := op.Collects) (Bool.and_eq_true_iff.mp ok).2
  next pid ty rid f =>
    obtain ⟨apart, room⟩ := Bool.and_eq_true_iff.mp ok
    refine ⟨fun q p at_q => ?_, fun info read => ?_⟩
    · by_cases mem : q ∈ pids
      · have here := List.all_eq_true.mp apart q mem
        rw [at_q] at here
        exact of_decide_eq_true here
      · rw [outside q mem] at at_q
        cases at_q
    · rw [read] at room
      exact of_decide_eq_true room
  next pid key =>
    intro p at_pid locked
    rw [at_pid] at ok
    simp [locked] at ok
  next spawn attach delete =>
    unfold Spares
    split
    · exact absurd rfl (spawn _ _)
    · exact absurd rfl (attach _ _ _ _)
    · exact absurd rfl (delete _ _)
    · trivial

def sparesScheduler (bucket : String) (pids : List Nat) :
    (fsSystem bucket).Scheduler (System.Confined pids Spares) :=
  worldScheduler (sparesCheck pids) (sparesCheck_sound pids)

/-- `bob` attaches `f`, then the sweep reads both counts and collects `g`. -/
def attachThenSweep : List (System.Move Error FsOp) :=
  .spawn 0 (.attach "order" "7" "f" "bob") :: List.replicate 4 (.call 0) ++
    .spawn 1 .sweep :: List.replicate 7 (.call 1)

theorem attachThenSweep_played :
    ((sparesScheduler "b" [0, 1]).play attachThenSweep [] (fsPool oldFiles)).isSome = true := by
  decide +kernel

/-- A step that detaches nothing. -/
def noDetach : Label Call Error FsOp → Bool
  | .call _ (.fs .master (.detach ..)) _ => false
  | _ => true

/-- The row of `g` goes while `f` is attached. -/
theorem sweep_spares_attached_other :
    ¬ Removes (((sparesScheduler "b" [0, 1]).play attachThenSweep []
      (fsPool oldFiles)).get attachThenSweep_played).2
      (.call 1 (.fs .master (.deleteFile "g")) none) "f" := by
  have run := ((sparesScheduler "b" [0, 1]).trace_of_play attachThenSweep _
    attachThenSweep_played).of_confined (fun _ _ => rfl)
  have moved : ((sparesScheduler "b" [0, 1]).move (((sparesScheduler "b" [0, 1]).play
      attachThenSweep [] (fsPool oldFiles)).get attachThenSweep_played).2 (.call 1)).map (·.1) =
        some (.call 1 (.fs .master (.deleteFile "g")) none) := by decide +kernel
  obtain ⟨⟨l, t⟩, move, rfl⟩ := Option.map_eq_some_iff.mp moved
  have history : (((sparesScheduler "b" [0, 1]).play attachThenSweep []
      (fsPool oldFiles)).get attachThenSweep_played).1 =
        (((sparesScheduler "b" [0, 1]).play attachThenSweep [] (fsPool oldFiles)).get
          attachThenSweep_played).1.take 3 ++
        .call 0 (.fs .master (.attach "order" "7" "f")) none ::
          (((sparesScheduler "b" [0, 1]).play attachThenSweep [] (fsPool oldFiles)).get
            attachThenSweep_played).1.drop 4 := by decide +kernel
  refine sweep_spares_attached "b" (l := .call 1 (.fs .master (.deleteFile "g")) none)
    oldFiles_own oldFiles_counted run.1 trivial (System.Scheduler.step_of_move move)
    ⟨_, _, 0, "order", "7", history, fun q mem => ?_⟩
  have none : ∀ l ∈ (((sparesScheduler "b" [0, 1]).play attachThenSweep [] (fsPool oldFiles)).get
      attachThenSweep_played).1.drop 4, noDetach l = true := by decide +kernel
  cases none _ mem

end RustApi
