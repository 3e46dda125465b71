import Mathlib
import RustApi.Fs.Store

/-!
# Markers and counts

A file's relations are kept twice: as one marker per row and as a count. Each write of
the store is described by what it does to both, for the file it names and for any
other, and over whole runs the two agree.

## Main results

- `attach_self`, `attach_other` and their likes: what a write does to the count and to
  the markers of one file.
- `run_counted`: in every state of every run on plain names, the count of a file is
  the number of its markers, and no file in use carries an orphan date.
- `count_agrees`: the two tests for a file without rows answer alike.
-/

namespace RustApi

open Lib

namespace FsStore

/-- The markers of file `f`. -/
def markers (f : String) (kv : Kv Value) : Set String := {k | MarkerOf f k ∧ k ∈ kv}

/-- Every marker was made of parts without a separator. -/
def PlainMarkers (kv : Kv Value) : Prop :=
  ∀ k ∈ kv, IsMarker k → ∃ ty rid f, Text.Free ':' ty ∧ Text.Free ':' rid ∧
    Text.Free ':' f ∧ k = relKey ty rid f

theorem finite_markers (f : String) (kv : Kv Value) : (markers f kv).Finite := by
  refine Set.Finite.subset (kv.toList.map (·.1)).finite_toSet fun k hk => ?_
  obtain ⟨v, here⟩ := Kv.mem_iff_get.mp hk.2
  exact List.mem_map.mpr ⟨(k, v), Kv.mem_toList.mpr here, rfl⟩

theorem markers_congr {f : String} {kv kv' : Kv Value}
    (same : ∀ k, MarkerOf f k → (k ∈ kv' ↔ k ∈ kv)) : markers f kv' = markers f kv := by
  ext k
  simp only [markers, Set.mem_ofPred_eq]
  exact ⟨fun h => ⟨h.1, (same k h.1).mp h.2⟩, fun h => ⟨h.1, (same k h.1).mpr h.2⟩⟩

theorem getRefInfo_congr {f : String} {kv kv' : Kv Value}
    (same : kv'[refsKey f]? = kv[refsKey f]?) : getRefInfo f kv' = getRefInfo f kv := by
  simp only [getRefInfo, same]

/-- With plain names the rows of a file are its markers. -/
theorem mem_rows_iff {kv : Kv Value} {f : String} {r : String × String} (plain : PlainMarkers kv)
    (fFree : Text.Free ':' f) : r ∈ rowsForFile f kv ↔
      Text.Free ':' r.1 ∧ Text.Free ':' r.2 ∧ relKey r.1 r.2 f ∈ kv := by
  constructor
  · intro mem
    obtain ⟨k, held, named, row⟩ := mem_rowsForFile.mp mem
    obtain ⟨ty, rid, g, tyFree, ridFree, gFree, rfl⟩ := plain k held named.1
    obtain rfl := (markerOf_relKey fFree gFree).mp named
    have same : markerRow (relKey ty rid g) = some (ty, rid) :=
      markerRow_iff.mpr ⟨g, rfl, tyFree, ridFree⟩
    obtain ⟨rfl, rfl⟩ : ty = r.1 ∧ rid = r.2 := by simpa [row, Prod.ext_iff, eq_comm] using same
    exact ⟨tyFree, ridFree, held⟩
  · rintro ⟨tyFree, ridFree, held⟩
    exact mem_rowsForFile.mpr ⟨_, held, markerOf_relKey_self _ _ _,
      markerRow_iff.mpr ⟨f, rfl, tyFree, ridFree⟩⟩

/-- With plain names a file has no rows exactly when it has no markers. -/
theorem rowsForFile_eq_nil_iff {kv : Kv Value} {f : String} (plain : PlainMarkers kv)
    (fFree : Text.Free ':' f) : rowsForFile f kv = [] ↔ markers f kv = ∅ := by
  constructor
  · intro none
    refine Set.eq_empty_of_forall_notMem fun k ⟨named, held⟩ => ?_
    obtain ⟨ty, rid, g, tyFree, ridFree, gFree, rfl⟩ := plain k held named.1
    obtain rfl := (markerOf_relKey fFree gFree).mp named
    have mem : (ty, rid) ∈ rowsForFile g kv :=
      (mem_rows_iff plain fFree).mpr ⟨tyFree, ridFree, held⟩
    rw [none] at mem
    cases mem
  · intro none
    refine List.eq_nil_iff_forall_not_mem.mpr fun r mem => ?_
    obtain ⟨k, held, named, -⟩ := mem_rowsForFile.mp mem
    have : k ∈ markers f kv := ⟨named, held⟩
    rw [none] at this
    exact this

/-! ### What a write does to one file -/

section Attach

variable {ty rid f : String} {kv kv' : Kv Value} {n : Nat}

theorem attach_there (done : attach ty rid f kv = .ok (n, kv')) (there : relKey ty rid f ∈ kv) :
    kv' = kv := Kv.ext_get fun k => by rw [attach_ok done k, if_pos there]

private theorem mem_attach_marker (done : attach ty rid f kv = .ok (n, kv')) {k : String}
    (hk : IsMarker k) : k ∈ kv' ↔ k ∈ kv ∨ k = relKey ty rid f :=
  mem_attach_ok done (ne_of_isMarker hk (not_isMarker_refsKey f)).symm

theorem attach_self (done : attach ty rid f kv = .ok (n, kv')) (absent : relKey ty rid f ∉ kv) :
    getRefInfo f kv' = .ok ⟨n, none⟩ ∧
      markers f kv' = insert (relKey ty rid f) (markers f kv) := by
  constructor
  · simp [getRefInfo, attach_ok done, absent]
  · ext k
    simp only [markers, Set.mem_ofPred_eq, Set.mem_insert_iff]
    constructor
    · rintro ⟨named, mem⟩
      exact ((mem_attach_marker done named.1).mp mem).elim (fun old => .inr ⟨named, old⟩) .inl
    · rintro (rfl | ⟨named, old⟩)
      · exact ⟨markerOf_relKey_self _ _ _,
          (mem_attach_marker done (isMarker_relKey _ _ _)).mpr (.inr rfl)⟩
      · exact ⟨named, (mem_attach_marker done named.1).mpr (.inl old)⟩

theorem attach_other {g : String} (done : attach ty rid f kv = .ok (n, kv'))
    (fFree : Text.Free ':' f) (gFree : Text.Free ':' g) (other : g ≠ f) :
    getRefInfo g kv' = getRefInfo g kv ∧ markers g kv' = markers g kv := by
  constructor
  · refine getRefInfo_congr ?_
    exact get_attach_ok done (fun same => other (refsKey_inj.mp same)) (not_isMarker_refsKey g)
  · refine markers_congr fun k named => ?_
    rw [mem_attach_marker done named.1]
    refine ⟨fun h => h.resolve_right ?_, .inl⟩
    rintro rfl
    exact other ((markerOf_relKey gFree fFree).mp named).symm

theorem attach_plain (done : attach ty rid f kv = .ok (n, kv')) (plain : PlainMarkers kv)
    (row : Text.Free ':' ty ∧ Text.Free ':' rid) (fFree : Text.Free ':' f) : PlainMarkers kv' := by
  intro k mem hk
  rcases (mem_attach_marker done hk).mp mem with old | new
  · exact plain k old hk
  · exact ⟨ty, rid, f, row.1, row.2, fFree, new⟩

end Attach

section Detach

variable {now : Int} {ty rid f : String} {kv kv' : Kv Value} {n : Nat}

private theorem mem_detach_marker (done : detach now ty rid f kv = .ok (n, kv')) {k : String}
    (hk : IsMarker k) : k ∈ kv' ↔ k ∈ kv ∧ k ≠ relKey ty rid f := by
  rw [Kv.mem_iff_get, detach_ok done k (ne_of_isMarker hk (not_isMarker_refsKey f)).symm]
  by_cases same : k = relKey ty rid f
  · simp [same]
  · simp [same, Kv.mem_iff_get]

theorem detach_self {info : RefInfo} (done : detach now ty rid f kv = .ok (n, kv'))
    (there : relKey ty rid f ∈ kv) (read : getRefInfo f kv = .ok info) :
    getRefInfo f kv' = .ok ⟨info.count - 1, if info.count - 1 = 0 then some now
      else info.orphanSince⟩ ∧ markers f kv' = markers f kv \ {relKey ty rid f} := by
  constructor
  · simp only [detach, read, if_pos there] at done
    obtain ⟨-, rfl⟩ : info.count - 1 = n ∧ _ = kv' := by simpa using done
    simp [getRefInfo]
  · ext k
    simp only [markers, Set.mem_ofPred_eq, Set.mem_sdiff, Set.mem_singleton_iff]
    constructor
    · rintro ⟨named, mem⟩
      exact ⟨⟨named, ((mem_detach_marker done named.1).mp mem).1⟩,
        ((mem_detach_marker done named.1).mp mem).2⟩
    · rintro ⟨⟨named, mem⟩, other⟩
      exact ⟨named, (mem_detach_marker done named.1).mpr ⟨mem, other⟩⟩

theorem detach_other {g : String} (done : detach now ty rid f kv = .ok (n, kv'))
    (fFree : Text.Free ':' f) (gFree : Text.Free ':' g) (other : g ≠ f) :
    getRefInfo g kv' = getRefInfo g kv ∧ markers g kv' = markers g kv := by
  constructor
  · refine getRefInfo_congr ?_
    rw [detach_ok done _ (fun same => other (refsKey_inj.mp same)),
      if_neg (ne_of_isMarker (isMarker_relKey ty rid f) (not_isMarker_refsKey g))]
  · refine markers_congr fun k named => ?_
    rw [mem_detach_marker done named.1]
    refine ⟨fun h => h.1, fun h => ⟨h, ?_⟩⟩
    rintro rfl
    exact other ((markerOf_relKey gFree fFree).mp named).symm

theorem detach_plain (done : detach now ty rid f kv = .ok (n, kv')) (plain : PlainMarkers kv) :
    PlainMarkers kv' :=
  fun k mem hk => plain k ((mem_detach_marker done hk).mp mem).1 hk

end Detach

section Delete

variable {f : String} {kv : Kv Value}

theorem mem_deleteFile {k : String} : k ∈ deleteFile f kv ↔
    k ∈ kv ∧ ¬ (MarkerOf f k ∨ k = fileKey f ∨ k = refsKey f) := by
  rw [Kv.mem_iff_get, get_deleteFile, Kv.mem_iff_get]
  split
  next gone => simp [gone]
  next kept => simp [kept]

theorem deleteFile_self :
    getRefInfo f (deleteFile f kv) = .ok .default ∧ markers f (deleteFile f kv) = ∅ := by
  constructor
  · simp [getRefInfo, get_deleteFile]
  · exact Set.eq_empty_of_forall_notMem fun k ⟨named, mem⟩ => (mem_deleteFile.mp mem).2 (.inl named)

theorem deleteFile_other {g : String} (plain : PlainMarkers kv) (fFree : Text.Free ':' f)
    (gFree : Text.Free ':' g) (other : g ≠ f) :
    getRefInfo g (deleteFile f kv) = getRefInfo g kv ∧
      markers g (deleteFile f kv) = markers g kv := by
  constructor
  · refine getRefInfo_congr ?_
    rw [get_deleteFile, if_neg]
    rintro (named | same | same)
    · exact not_isMarker_refsKey g named.1
    · exact refsKey_ne_fileKey _ _ same
    · exact other (refsKey_inj.mp same)
  · refine markers_congr fun k named => ?_
    rw [mem_deleteFile]
    refine ⟨fun h => h.1, fun mem => ⟨mem, ?_⟩⟩
    rintro (named' | rfl | rfl)
    · -- A plain marker names one file only.
      obtain ⟨ty, rid, h, -, -, hFree, rfl⟩ := plain k mem named.1
      exact other (((markerOf_relKey gFree hFree).mp named).symm.trans
        ((markerOf_relKey fFree hFree).mp named'))
    · exact not_isMarker_fileKey f named.1
    · exact not_isMarker_refsKey f named.1

end Delete

theorem saveFile_refs (rec : FileRecord) (kv : Kv Value) (f : String) :
    getRefInfo f (saveFile rec kv) = getRefInfo f kv ∧
      markers f (saveFile rec kv) = markers f kv := by
  constructor
  · exact getRefInfo_congr (by simp [saveFile, Kv.get_insert])
  · refine markers_congr fun k named => ?_
    rw [Kv.mem_iff_get, saveFile, Kv.get_insert,
      if_neg (ne_of_isMarker named.1 (not_isMarker_fileKey rec.id)), ← Kv.mem_iff_get]

/-! ### Runs -/

/-- The operations on files and relations. A detach reads the clock. -/
inductive StoreOp where
  | saveFile (rec : FileRecord)
  | attach (ty rid f : String)
  | detach (now : Int) (ty rid f : String)
  | deleteFile (f : String)

namespace StoreOp

/-- The store after the operation; one that fails commits nothing. -/
def run (kv : Kv Value) : StoreOp → Kv Value
  | .saveFile rec => FsStore.saveFile rec kv
  | .attach ty rid f =>
    match FsStore.attach ty rid f kv with
    | .ok (_, kv') => kv'
    | .error _ => kv
  | .detach now ty rid f =>
    match FsStore.detach now ty rid f kv with
    | .ok (_, kv') => kv'
    | .error _ => kv
  | .deleteFile f => FsStore.deleteFile f kv

/-- No component holds the separator. -/
def Plain : StoreOp → Prop
  | .saveFile rec => Text.Free ':' rec.id
  | .attach ty rid f | .detach _ ty rid f =>
    (Text.Free ':' ty ∧ Text.Free ':' rid) ∧ Text.Free ':' f
  | .deleteFile f => Text.Free ':' f

instance : (op : StoreOp) → Decidable op.Plain
  | .saveFile rec => inferInstanceAs (Decidable (Text.Free ':' rec.id))
  | .attach ty rid f | .detach _ ty rid f =>
    inferInstanceAs (Decidable ((Text.Free ':' ty ∧ Text.Free ':' rid) ∧ Text.Free ':' f))
  | .deleteFile f => inferInstanceAs (Decidable (Text.Free ':' f))

end StoreOp

def runOps (ops : List StoreOp) (kv : Kv Value) : Kv Value := ops.foldl StoreOp.run kv

/-- The count of `f` is the number of its markers, and a file in use has no orphan date. -/
def CountedFile (f : String) (kv : Kv Value) : Prop :=
  ∃ info, getRefInfo f kv = .ok info ∧ info.count = (markers f kv).ncard ∧
    (0 < info.count → info.orphanSince = none)

/-- All markers are plain and every count is right. -/
structure Counted (kv : Kv Value) : Prop where
  plain : PlainMarkers kv
  counts : ∀ f, Text.Free ':' f → CountedFile f kv

theorem CountedFile.congr {f : String} {kv kv' : Kv Value} (h : CountedFile f kv)
    (same : getRefInfo f kv' = getRefInfo f kv ∧ markers f kv' = markers f kv) :
    CountedFile f kv' := by
  obtain ⟨info, read, count, orphan⟩ := h
  exact ⟨info, same.1.trans read, same.2 ▸ count, orphan⟩

/-- A store without relations is counted. -/
theorem Counted.of_fresh {kv : Kv Value} (fresh : ∀ k ∈ kv, ¬ IsMarker k ∧ ∀ f, k ≠ refsKey f) :
    Counted kv := by
  refine ⟨fun k mem hk => absurd hk (fresh k mem).1, fun f _ => ⟨.default, ?_, ?_, fun h => ?_⟩⟩
  · have none : kv[refsKey f]? = none :=
      Kv.not_mem_iff_get.mp fun mem => (fresh _ mem).2 f rfl
    simp [getRefInfo, none]
  · have none : markers f kv = ∅ :=
      Set.eq_empty_of_forall_notMem fun k ⟨named, mem⟩ => (fresh k mem).1 named.1
    rw [none, Set.ncard_empty]
    rfl
  · cases h

/-- No file has more rows than its count can hold. -/
def FewRows (kv : Kv Value) : Prop := ∀ f, (markers f kv).ncard < 2 ^ 32

theorem ncard_markers_le (f : String) (kv : Kv Value) : (markers f kv).ncard ≤ kv.toList.length := by
  have inside : markers f kv ⊆ {k | k ∈ (kv.toList.map (·.1)).toFinset} := by
    intro k ⟨_, mem⟩
    obtain ⟨v, here⟩ := Kv.mem_iff_get.mp mem
    exact List.mem_toFinset.mpr (List.mem_map.mpr ⟨(k, v), Kv.mem_toList.mpr here, rfl⟩)
  calc (markers f kv).ncard
      ≤ (kv.toList.map (·.1)).toFinset.card := by
        rw [← Set.ncard_coe_finset]
        exact Set.ncard_le_ncard inside (Finset.finite_toSet _)
    _ ≤ (kv.toList.map (·.1)).length := List.toFinset_card_le _
    _ = kv.toList.length := List.length_map _

theorem Counted.attach {ty rid f : String} {kv kv' : Kv Value} {n : Nat} (counted : Counted kv)
    (done : FsStore.attach ty rid f kv = .ok (n, kv'))
    (row : Text.Free ':' ty ∧ Text.Free ':' rid) (fFree : Text.Free ':' f) (few : FewRows kv') :
    Counted kv' := by
  refine ⟨attach_plain done counted.plain row fFree, fun g gFree => ?_⟩
  -- attaching twice writes the same marker and counts nothing
  by_cases there : relKey ty rid f ∈ kv
  · exact attach_there done there ▸ counted.counts g gFree
  by_cases same : g = f
  · subst same
    obtain ⟨info, read, count, -⟩ := counted.counts g gFree
    obtain ⟨now, grown⟩ := attach_self done there
    have size : (markers g kv').ncard = info.count + 1 := by
      rw [grown, Set.ncard_insert_of_notMem (fun h => there h.2) (finite_markers g kv), count]
    -- The new size still fits, so the addition did not saturate.
    have fits := few g
    have stored := attach_count done read
    rw [if_neg there] at stored
    refine ⟨⟨n, none⟩, now, ?_, fun _ => rfl⟩
    have limit : u32Max = 2 ^ 32 - 1 := rfl
    show n = _
    omega
  · exact (counted.counts g gFree).congr (attach_other done fFree gFree same)

theorem Counted.detach {now : Int} {ty rid f : String} {kv kv' : Kv Value} {n : Nat}
    (counted : Counted kv) (done : FsStore.detach now ty rid f kv = .ok (n, kv'))
    (fFree : Text.Free ':' f) : Counted kv' := by
  by_cases there : relKey ty rid f ∈ kv
  swap
  · exact detach_absent done there ▸ counted
  refine ⟨detach_plain done counted.plain, fun g gFree => ?_⟩
  by_cases same : g = f
  · subst same
    obtain ⟨info, read, count, orphan⟩ := counted.counts g gFree
    obtain ⟨left, shrunk⟩ := detach_self done there read
    refine ⟨_, left, ?_, fun some => ?_⟩
    · have mem : relKey ty rid g ∈ markers g kv := ⟨markerOf_relKey_self _ _ _, there⟩
      rw [shrunk, Set.ncard_sdiff_singleton_of_mem mem, ← count]
    · have positive : 0 < info.count - 1 := some
      simp only [if_neg positive.ne']
      exact orphan (by omega)
  · exact (counted.counts g gFree).congr (detach_other done fFree gFree same)

theorem Counted.deleteFile {f : String} {kv : Kv Value} (counted : Counted kv)
    (fFree : Text.Free ':' f) : Counted (FsStore.deleteFile f kv) := by
  refine ⟨fun k mem hk => counted.plain k (mem_deleteFile.mp mem).1 hk, fun g gFree => ?_⟩
  by_cases same : g = f
  · subst same
    obtain ⟨none, empty⟩ : FsStore.getRefInfo g (FsStore.deleteFile g kv) = .ok .default ∧
        FsStore.markers g (FsStore.deleteFile g kv) = ∅ := deleteFile_self
    exact ⟨.default, none, by rw [empty, Set.ncard_empty]; rfl, fun h => by cases h⟩
  · exact (counted.counts g gFree).congr (deleteFile_other counted.plain fFree gFree same)

theorem Counted.saveFile (rec : FileRecord) {kv : Kv Value} (counted : Counted kv) :
    Counted (FsStore.saveFile rec kv) := by
  refine ⟨fun k mem hk => counted.plain k ?_ hk, fun g gFree =>
    (counted.counts g gFree).congr (saveFile_refs rec kv g)⟩
  rwa [Kv.mem_iff_get, FsStore.saveFile, Kv.get_insert,
    if_neg (ne_of_isMarker hk (not_isMarker_fileKey rec.id)), ← Kv.mem_iff_get] at mem

/-- One operation keeps the counts. -/
theorem Counted.run {op : StoreOp} {kv : Kv Value} (counted : Counted kv) (plain : op.Plain)
    (few : FewRows (op.run kv)) : Counted (op.run kv) := by
  cases op with
  | saveFile rec => exact counted.saveFile rec
  | attach ty rid f =>
    simp only [StoreOp.run] at few ⊢
    split at few
    next n kv' done => exact counted.attach done plain.1 plain.2 few
    · exact counted
  | detach now ty rid f =>
    simp only [StoreOp.run]
    split
    next n kv' done => exact counted.detach done plain.2
    · exact counted
  | deleteFile f => exact counted.deleteFile plain

theorem counted_runOps {ops : List StoreOp} {kv : Kv Value} (counted : Counted kv)
    (plain : ∀ op ∈ ops, op.Plain) (few : ∀ past, past <+: ops → FewRows (runOps past kv)) :
    Counted (runOps ops kv) := by
  induction ops generalizing kv with
  | nil => exact counted
  | cons op ops ih =>
    have first : Counted (op.run kv) := counted.run (plain op (.head _)) (few [op] (by simp))
    exact ih first (fun op mem => plain op (.tail _ mem))
      fun past isPast => few (op :: past) (List.cons_prefix_cons.mpr ⟨rfl, isPast⟩)

/-- With right counts, the test on the count and the test on the rows answer alike. -/
theorem Counted.count_eq_zero_iff {kv : Kv Value} (counted : Counted kv) {f : String}
    (fFree : Text.Free ':' f) {info : RefInfo} (read : getRefInfo f kv = .ok info) :
    info.count = 0 ↔ rowsForFile f kv = [] := by
  obtain ⟨info', read', count, -⟩ := counted.counts f fFree
  obtain rfl : info' = info := by simpa [read'] using read
  rw [count, Set.ncard_eq_zero (finite_markers f kv), rowsForFile_eq_nil_iff counted.plain fFree]

/-- From a store without relations, every run on plain names that never gives a file 2^32
    rows keeps count and markers in step. Repeating an attach or a detach changes nothing, and
    a zero count means no rows. -/
theorem refCount_run {kv₀ : Kv Value} {ops : List StoreOp}
    (fresh : ∀ k ∈ kv₀, ¬ IsMarker k ∧ ∀ f, k ≠ refsKey f) (plain : ∀ op ∈ ops, op.Plain)
    (few : ∀ past, past <+: ops → FewRows (runOps past kv₀)) {f : String}
    (fFree : Text.Free ':' f) :
    ∃ info, getRefInfo f (runOps ops kv₀) = .ok info ∧
      info.count = (markers f (runOps ops kv₀)).ncard ∧
      (0 < info.count → info.orphanSince = none) ∧
      (∀ ty rid, relKey ty rid f ∈ runOps ops kv₀ →
        attach ty rid f (runOps ops kv₀) = .ok (info.count, runOps ops kv₀)) ∧
      (∀ now ty rid, relKey ty rid f ∉ runOps ops kv₀ →
        detach now ty rid f (runOps ops kv₀) = .ok (info.count, runOps ops kv₀)) ∧
      (info.count = 0 ↔ rowsForFile f (runOps ops kv₀) = []) := by
  have counted := counted_runOps (.of_fresh fresh) plain few
  obtain ⟨info, read, count, orphan⟩ := counted.counts f fFree
  refine ⟨info, read, count, orphan, fun ty rid there => ?_, fun now ty rid absent => ?_,
    counted.count_eq_zero_iff fFree read⟩
  · simp only [attach, read, if_pos there]
  · simp only [detach, read, if_neg absent]

def twoRows : List StoreOp :=
  [.attach "invoice" "1" "f", .attach "invoice" "2" "f", .detach 5 "invoice" "1" "f"]

private theorem twoRows_few (past : List StoreOp) (isPast : past <+: twoRows) :
    FewRows (runOps past ∅) := by
  intro f
  have small : (runOps past ∅).toList.length < 2 ^ 32 := by
    rw [List.prefix_iff_eq_take.mp isPast]
    have short : past.length ≤ 3 := isPast.length_le
    have sizes : ∀ n ≤ 3, (runOps (twoRows.take n) ∅).toList.length < 2 ^ 32 := by decide +kernel
    exact sizes _ short
  exact (ncard_markers_le f _).trans_lt small

/-- Two rows, one of them given up again: the count is one. -/
theorem refCount_two_rows :
    ∃ info, getRefInfo "f" (runOps twoRows ∅) = .ok info ∧ info = ⟨1, none⟩ ∧
      info.count = (markers "f" (runOps twoRows ∅)).ncard := by
  have plain : ∀ op ∈ twoRows, op.Plain := by decide
  obtain ⟨info, read, count, -⟩ := refCount_run (by simp) plain twoRows_few (f := "f") (by decide)
  have eval : getRefInfo "f" (runOps twoRows ∅) = .ok ⟨1, none⟩ := rfl
  exact ⟨info, read, Except.ok.inj (read.symm.trans eval), count⟩

end FsStore

end RustApi
