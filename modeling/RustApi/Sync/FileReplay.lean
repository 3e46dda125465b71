import Mathlib
import RustApi.Fs.Engine
import RustApi.Fs.Refs
import RustApi.Sync.PolicyReplay

/-!
# Replaying file operations

The operations that `FsEngine` announces change the records and relations of the
master, and the replay repeats them on the replica against the master as it is in the
end. The master's own history is a list of the same elementary writes, so the two are
compared write by write.

## Main results

- `Regular`: what the store's writes keep true of a master; `FileSteps.regular` carries
  it over any sequence of operations.
- `replay_files_iff`: the replay leads to the filtered copy of the new master exactly
  when every file that the subject could read, and that was not deleted, is still
  readable, and the rows that the replay marks are those that the filter reads back from
  the markers, whose names may hold separators.
- `followed_of_plain`: on plain row names the second part is always met.
-/

namespace RustApi

open Lib

namespace Snapshot

/-! ### Regular masters -/

/-- The markers of file `f`. -/
def markers (f : String) (M : Kv Value) : Set String := {k | FsStore.MarkerOf f k ∧ k ∈ M}

/-- Records sit under their own id, ids hold no separator, and a file has no more markers than its
    count says. Row names may hold separators. -/
structure Regular (M : Kv Value) : Prop where
  own : OwnIds M
  ids : ∀ f rec, M[FsStore.fileKey f]? = some (.file rec) → Text.Free ':' f
  counts : ∀ f rec, M[FsStore.fileKey f]? = some (.file rec) →
    ∃ info, FsStore.getRefInfo f M = .ok info ∧ (markers f M).ncard ≤ info.count

theorem Regular.sound {M : Kv Value} (regular : Regular M) : Sound M := by
  refine ⟨regular.own, regular.ids, fun f rec here rows => ?_⟩
  obtain ⟨info, read, count⟩ := regular.counts f rec here
  refine ⟨info, read, ?_⟩
  obtain ⟨r, mem⟩ := List.exists_mem_of_ne_nil _ rows
  obtain ⟨k, held, named, -⟩ := FsStore.mem_rowsForFile.mp mem
  exact Nat.lt_of_lt_of_le
    ((Set.ncard_pos (FsStore.finite_markers f M)).mpr ⟨k, named, held⟩) count

/-! ### The operations of the engine -/

/-- One operation of `FsEngine` on the master, as it is announced. A record is created under an
    id that nothing in the store names yet, or announced once more; a count stays below
    `u32::MAX`. -/
inductive FileStep : Kv Value → WalOp → Kv Value → Prop where
  | create {M rec} (free : Text.Free ':' rec.id) (new : M[FsStore.fileKey rec.id]? = none)
      (unused : ∀ k ∈ M, ¬ FsStore.MarkerOf rec.id k)
      (uncounted : M[FsStore.refsKey rec.id]? = none) :
      FileStep M (.fileCreate rec) (FsStore.saveFile rec M)
  | again {M rec} (held : M[FsStore.fileKey rec.id]? = some (.file rec)) :
      FileStep M (.fileCreate rec) M
  | attach {M M' ty rid f rec n} (held : M[FsStore.fileKey f]? = some (.file rec))
      (done : FsStore.attach ty rid f M = .ok (n, M')) (below : n < FsStore.u32Max) :
      FileStep M (.attach ty rid f) M'
  | detach {M M' now ty rid f n} (done : FsStore.detach now ty rid f M = .ok (n, M')) :
      FileStep M (.detach ty rid f) M'
  | delete {M f rec} (held : M[FsStore.fileKey f]? = some (.file rec)) :
      FileStep M (.fileDelete f) (FsStore.deleteFile f M)

inductive FileSteps : Kv Value → List WalOp → Kv Value → Prop where
  | nil {M} : FileSteps M [] M
  | cons {M M₁ M' op ops} (first : FileStep M op M₁) (rest : FileSteps M₁ ops M') :
      FileSteps M (op :: ops) M'

/-- The row that an operation attaches has no separator in it. -/
def PlainOp : WalOp → Prop
  | .attach ty rid _ => Text.Free ':' ty ∧ Text.Free ':' rid
  | _ => True

/-! ### Operations keep a master regular -/

/-- What has to be shown of an operation that writes no record: the counts still fit. -/
private theorem Regular.of_frame {M M' : Kv Value} (regular : Regular M)
    (records : ∀ (k : String) rec, M'[k]? = some (.file rec) → M[k]? = some (.file rec))
    (counts : ∀ f rec, M[FsStore.fileKey f]? = some (.file rec) →
      M'[FsStore.fileKey f]? = some (.file rec) →
        ∃ info, FsStore.getRefInfo f M' = .ok info ∧ (markers f M').ncard ≤ info.count) :
    Regular M' :=
  ⟨fun k rec family here => regular.own k rec family (records k rec here),
    fun f rec here => regular.ids f rec (records _ rec here),
    fun f rec here => counts f rec (records _ rec here) here⟩

/-- A file whose count a write does not touch, and which gets no new marker. -/
private theorem Regular.counts_of_fewer {M M' : Kv Value} (regular : Regular M) {f : String}
    {rec : FileRecord} (held : M[FsStore.fileKey f]? = some (.file rec))
    (same : FsStore.getRefInfo f M' = FsStore.getRefInfo f M)
    (fewer : ∀ k, FsStore.MarkerOf f k → k ∈ M' → k ∈ M) :
    ∃ info, FsStore.getRefInfo f M' = .ok info ∧ (markers f M').ncard ≤ info.count := by
  obtain ⟨info, read, count⟩ := regular.counts f rec held
  refine ⟨info, same.trans read, (Set.ncard_le_ncard ?_ (FsStore.finite_markers f M)).trans count⟩
  exact fun k ⟨named, mem⟩ => ⟨named, fewer k named mem⟩

private theorem regular_create {M : Kv Value} {rec : FileRecord} (regular : Regular M)
    (free : Text.Free ':' rec.id) (unused : ∀ k ∈ M, ¬ FsStore.MarkerOf rec.id k)
    (uncounted : M[FsStore.refsKey rec.id]? = none) : Regular (FsStore.saveFile rec M) := by
  have get : ∀ k : String, (FsStore.saveFile rec M)[k]? =
      if FsStore.fileKey rec.id = k then some (.file rec) else M[k]? :=
    fun k => Kv.get_insert M _ k _
  refine ⟨fun k r family here => ?_, fun f r here => ?_, fun f r here => ?_⟩
  · rw [get] at here
    split at here
    next same =>
      obtain rfl : rec = r := by simpa using here
      exact same.symm
    · exact regular.own k r family here
  · rw [get] at here
    split at here
    next same => exact FsStore.fileKey_inj.mp same ▸ free
    · exact regular.ids f r here
  · have refs := FsStore.saveFile_refs rec M f
    rw [get] at here
    split at here
    next same =>
      -- nothing names the new id yet, so it counts 0 rows
      obtain rfl := FsStore.fileKey_inj.mp same
      have none : FsStore.markers rec.id M = ∅ :=
        Set.eq_empty_of_forall_notMem fun k hk => unused k hk.2 hk.1
      have empty : markers rec.id (FsStore.saveFile rec M) = ∅ := refs.2.trans none
      refine ⟨.default, refs.1.trans (by simp [FsStore.getRefInfo, uncounted]), ?_⟩
      rw [empty, Set.ncard_empty]
      exact Nat.zero_le _
    · refine regular.counts_of_fewer here refs.1 fun k named mem => ?_
      have here' : k ∈ FsStore.markers f (FsStore.saveFile rec M) := ⟨named, mem⟩
      rw [refs.2] at here'
      exact here'.2

private theorem regular_attach {M M' : Kv Value} {ty rid f : String} {n : Nat}
    (regular : Regular M) (fFree : Text.Free ':' f)
    (done : FsStore.attach ty rid f M = .ok (n, M')) (below : n < FsStore.u32Max) :
    Regular M' := by
  by_cases there : FsStore.relKey ty rid f ∈ M
  · exact FsStore.attach_there done there ▸ regular
  refine regular.of_frame (fun k rec here => ?_) fun g rec held _ => ?_
  · rw [FsStore.attach_ok done k, if_neg there] at here
    split at here
    · cases here
    · split at here
      · cases here
      · exact here
  by_cases same : g = f
  · -- one marker more, and the count did not saturate
    subst same
    obtain ⟨info, read, count⟩ := regular.counts g rec held
    obtain ⟨now, grown⟩ := FsStore.attach_self done there
    refine ⟨⟨n, none⟩, now, ?_⟩
    have size : (markers g M').ncard = (markers g M).ncard + 1 := by
      change (FsStore.markers g M').ncard = _
      rw [grown, Set.ncard_insert_of_notMem (fun h => there h.2) (FsStore.finite_markers g M)]
      rfl
    have step := FsStore.attach_count done read
    rw [if_neg there] at step
    rw [size]
    change (markers g M).ncard + 1 ≤ n
    omega
  · obtain ⟨refs, rows⟩ := FsStore.attach_other done fFree (regular.ids g rec held) same
    refine regular.counts_of_fewer held refs fun k named mem => ?_
    have here : k ∈ FsStore.markers g M' := ⟨named, mem⟩
    rw [rows] at here
    exact here.2

/-- The file id of a detach may hold separators; then the marker is one of another file, whose
    count stays as it was. -/
private theorem regular_detach {M M' : Kv Value} {now : Int} {ty rid f : String} {n : Nat}
    (regular : Regular M) (done : FsStore.detach now ty rid f M = .ok (n, M')) : Regular M' := by
  by_cases there : FsStore.relKey ty rid f ∈ M
  swap
  · exact FsStore.detach_absent done there ▸ regular
  obtain ⟨_, _, -, -, wrote⟩ := FsStore.detach_count done there
  refine regular.of_frame (fun k rec here => ?_) fun g rec held _ => ?_
  · by_cases refs : k = FsStore.refsKey f
    · subst refs
      rw [wrote] at here
      cases here
    · rw [FsStore.detach_ok done k refs] at here
      split at here
      · cases here
      · exact here
  by_cases same : g = f
  · -- one marker less, and one reference less
    subst same
    obtain ⟨info, read, count⟩ := regular.counts g rec held
    obtain ⟨left, shrunk⟩ := FsStore.detach_self done there read
    have mem : FsStore.relKey ty rid g ∈ FsStore.markers g M :=
      ⟨FsStore.markerOf_relKey_self _ _ _, there⟩
    refine ⟨_, left, ?_⟩
    change (FsStore.markers g M').ncard ≤ info.count - 1
    rw [shrunk, Set.ncard_sdiff_singleton_of_mem mem]
    exact Nat.sub_le_sub_right count 1
  · refine regular.counts_of_fewer held (FsStore.getRefInfo_congr ?_) fun k named mem => ?_
    · rw [FsStore.detach_ok done _ (fun refs => same (FsStore.refsKey_inj.mp refs)), if_neg]
      exact FsStore.ne_of_isMarker (FsStore.isMarker_relKey _ _ _) (FsStore.not_isMarker_refsKey g)
    · have plain := (FsStore.ne_of_isMarker named.1 (FsStore.not_isMarker_refsKey f)).symm
      rw [Kv.mem_iff_get, FsStore.detach_ok done k plain] at mem
      split at mem
      · obtain ⟨v, bad⟩ := mem
        cases bad
      · exact Kv.mem_iff_get.mpr mem

private theorem regular_delete {M : Kv Value} {f : String} (regular : Regular M) :
    Regular (FsStore.deleteFile f M) := by
  refine regular.of_frame (fun k rec here => ?_) fun g rec held here => ?_
  · rw [FsStore.get_deleteFile] at here
    split at here
    · cases here
    · exact here
  · have other : g ≠ f := by
      rintro rfl
      rw [FsStore.get_deleteFile, if_pos (.inr (.inl rfl))] at here
      cases here
    refine regular.counts_of_fewer held (FsStore.getRefInfo_congr ?_) fun k _ mem =>
      (FsStore.mem_deleteFile.mp mem).1
    rw [FsStore.get_deleteFile, if_neg]
    rintro (named | same | same)
    · exact FsStore.not_isMarker_refsKey g named.1
    · exact FsStore.refsKey_ne_fileKey _ _ same
    · exact other (FsStore.refsKey_inj.mp same)

theorem FileStep.regular {M M' : Kv Value} {op : WalOp} (step : FileStep M op M')
    (regular : Regular M) : Regular M' := by
  cases step with
  | create free _ unused uncounted => exact regular_create regular free unused uncounted
  | again _ => exact regular
  | attach held done below => exact regular_attach regular (regular.ids _ _ held) done below
  | detach done => exact regular_detach regular done
  | delete held => exact regular_delete regular

theorem FileSteps.regular {M M' : Kv Value} {ops : List WalOp} (steps : FileSteps M ops M')
    (regular : Regular M) : Regular M' := by
  induction steps with
  | nil => exact regular
  | cons first _ ih => exact ih (first.regular regular)

/-- The file that an operation attaches or deletes was there, so its id holds no separator. -/
def NamesFile (f : String) : WalOp → Prop
  | .attach _ _ g => g = f
  | .fileDelete g => g = f
  | _ => False

theorem FileSteps.named {M M' : Kv Value} {ops : List WalOp} (steps : FileSteps M ops M')
    (regular : Regular M) {op : WalOp} (mem : op ∈ ops) {f : String} (named : NamesFile f op) :
    Text.Free ':' f := by
  induction steps with
  | nil => cases mem
  | cons first _ ih =>
    rcases List.mem_cons.mp mem with rfl | later
    · cases first with
      | attach held _ _ => exact named ▸ regular.ids _ _ held
      | delete held => exact named ▸ regular.ids _ _ held
      | _ => exact named.elim
    · exact ih (first.regular regular) later

/-! ### The master's own writes -/

/-- The write an operation stands for. -/
def masterAct : WalOp → Option Act
  | .fileCreate rec => some (.save rec)
  | .fileDelete f => some (.drop f)
  | .attach ty rid f => some (.mark ty rid f)
  | .detach ty rid f => some (.unmark ty rid f)
  | _ => none

theorem FileStep.performed {M M' : Kv Value} {op : WalOp} (step : FileStep M op M') :
    Performed (masterAct op).toList M M' := by
  cases step with
  | create _ _ _ _ => exact performed_save _ _
  | @again rec held =>
    refine ⟨fun f => ?_, fun k hk => ?_⟩
    · rw [masterAct, Option.toList_some, lastOf_singleton, Act.file]
      by_cases same : rec.id = f
      · simp [same, ← held]
      · simp [same]
    · simp [masterAct, Act.marker]
  | attach _ done _ => exact performed_mark done
  | detach done => exact performed_unmark done
  | delete _ => exact performed_drop _ _

theorem FileSteps.performed {M M' : Kv Value} {ops : List WalOp} (steps : FileSteps M ops M') :
    Performed (ops.filterMap masterAct) M M' := by
  -- on the operations: their writes line up in the order in which they were made
  induction steps with
  | nil => exact Performed.nil _
  | @cons M M₁ M' op ops first rest ih =>
    have acts : (op :: ops).filterMap masterAct = (masterAct op).toList ++ ops.filterMap masterAct := by
      cases h : masterAct op <;> simp [h]
    rw [acts]
    exact first.performed.append ih

theorem FileSteps.isFileOp {M M' : Kv Value} {ops : List WalOp} (steps : FileSteps M ops M') :
    ∀ op ∈ ops, (masterAct op).isSome := by
  induction steps with
  | nil => simp
  | cons first _ ih =>
    refine List.forall_mem_cons.mpr ⟨?_, ih⟩
    cases first <;> rfl

/-! ### Write by write -/

section Compare

variable {N : Kv Value} {P : Policy} {sub f k : String} {ops : List WalOp}

/-- What the replay of one operation makes of the record of `f`. -/
private def fileVerdict (N : Kv Value) (P : Policy) (sub f : String) :
    WalOp → Option (Option Value)
  | .fileCreate rec => if grants N P sub f = true ∧ rec.id = f then some (some (.file rec)) else none
  | .fileDelete g => if g = f then some none else none
  | .attach _ _ g => if grants N P sub f = true ∧ g = f then some N[FsStore.fileKey f]? else none
  | _ => none

/-- What the replay of one operation makes of the marker `k`. -/
private def markerVerdict (N : Kv Value) (P : Policy) (sub k : String) : WalOp → Option Bool
  | .fileDelete g => if FsStore.MarkerOf g k then some false else none
  | .attach ty rid g => if k = FsStore.relKey ty rid g ∧ grants N P sub g = true ∧
      P.authorizeRow sub ty rid .read = true then some true else none
  | .detach ty rid g => if k = FsStore.relKey ty rid g then some false else none
  | _ => none

private theorem lastOf_file_opActs (P : Policy) (sub f : String) (own : OwnIds N) {op : WalOp}
    (fileOp : (masterAct op).isSome) :
    lastOf (Act.file f) (opActs N P sub op) = fileVerdict N P sub f op := by
  cases op with
  | fileCreate rec =>
    simp only [opActs, fileVerdict]
    by_cases same : rec.id = f
    · subst same
      split <;> simp_all [Act.file]
    · split <;> simp [Act.file, same]
  | fileDelete g => simp [opActs, fileVerdict, Act.file]
  | attach ty rid g =>
    simp only [opActs, fileVerdict]
    cases seen : grants N P sub g with
    | false =>
      have none : ¬ (grants N P sub f = true ∧ g = f) := by
        rintro ⟨yes, rfl⟩
        rw [seen] at yes
        cases yes
      rw [if_neg none]
      split <;> rfl
    | true =>
      obtain ⟨rec, here⟩ := grants_held seen
      -- the record that is saved is the one under the key of `g`
      have id : rec.id = g := (FsStore.fileKey_inj.mp (own _ rec (FsStore.metaKey_fileKey g) here)).symm
      -- the mark behind the save does not concern the record
      have marks : ∀ acts : List Act, (acts = [.mark ty rid g] ∨ acts = []) →
          lastOf (Act.file f) (.save rec :: acts) = lastOf (Act.file f) [.save rec] := by
        rintro acts (rfl | rfl)
        · rw [show [Act.save rec, .mark ty rid g] = [.save rec] ++ [.mark ty rid g] from rfl,
            lastOf_append]
          rfl
        · rfl
      simp only [here, if_true]
      rw [marks _ (by split <;> simp), lastOf_singleton, Act.file, id]
      by_cases same : g = f
      · subst same
        simp [seen, here]
      · simp [same]
  | detach ty rid g => simp [opActs, fileVerdict, Act.file]
  | _ => cases fileOp

/-- The same for the master itself. -/
private theorem lastOf_filterMap_concat {α : Type} {verdict : Act → Option α} (ops : List WalOp)
    (op : WalOp) : lastOf verdict ((ops ++ [op]).filterMap masterAct) =
      ((masterAct op).bind verdict).or (lastOf verdict (ops.filterMap masterAct)) := by
  rw [List.filterMap_append, lastOf_append]
  cases h : masterAct op with
  | none => simp [h]
  | some a => simp [h]

private theorem lastOf_flatMap_concat {α : Type} {verdict : Act → Option α} (ops : List WalOp)
    (op : WalOp) : lastOf verdict ((ops ++ [op]).flatMap (opActs N P sub)) =
      (lastOf verdict (opActs N P sub op)).or (lastOf verdict (ops.flatMap (opActs N P sub))) := by
  rw [List.flatMap_append, List.flatMap_singleton, lastOf_append]

/-- The record of a file that is not readable in the end is only ever dropped. -/
private theorem file_hidden (own : OwnIds N) (fileOps : ∀ op ∈ ops, (masterAct op).isSome)
    (hidden : grants N P sub f = false) :
    lastOf (Act.file f) (ops.flatMap (opActs N P sub)) =
      if .fileDelete f ∈ ops then some none else none := by
  -- on the last operation, whose verdict stands in front of the earlier ones
  induction ops using List.reverseRecOn with
  | nil => rfl
  | append_singleton ops op ih =>
    have last := lastOf_file_opActs P sub f own (fileOps op (by simp))
    rw [lastOf_flatMap_concat, ih fun o mem => fileOps o (by simp [mem]), last, fileVerdict.eq_def]
    cases op with
    | fileDelete g =>
      by_cases same : g = f
      · simp [same]
      · simp [same, Ne.symm same]
    | _ => simp [hidden]

/-- The record of a file that is readable in the end follows the master. -/
private theorem file_shown (own : OwnIds N) (fileOps : ∀ op ∈ ops, (masterAct op).isSome)
    (seen : grants N P sub f = true)
    (saved : lastOf (Act.file f) (ops.filterMap masterAct) = some N[FsStore.fileKey f]?) :
    lastOf (Act.file f) (ops.flatMap (opActs N P sub)) = some N[FsStore.fileKey f]? := by
  obtain ⟨recN, here⟩ := grants_held seen
  induction ops using List.reverseRecOn with
  | nil => cases saved
  | append_singleton ops op ih =>
    have kind := fileOps op (by simp)
    have last := lastOf_file_opActs P sub f own kind
    have before := ih fun o mem => fileOps o (by simp [mem])
    rw [lastOf_filterMap_concat] at saved
    rw [lastOf_flatMap_concat, last, fileVerdict.eq_def]
    cases op with
    | fileCreate rec =>
      simp only [masterAct, Option.bind_some, Act.file] at saved
      by_cases same : rec.id = f
      · simpa [same, seen] using saved
      · simp only [same, if_false, Option.none_or] at saved
        simpa [same] using before saved
    | fileDelete g =>
      simp only [masterAct, Option.bind_some, Act.file] at saved
      by_cases same : g = f
      · simp [same, here] at saved
      · simp only [same, if_false, Option.none_or] at saved
        simpa [same] using before saved
    | attach ty rid g =>
      simp only [masterAct, Option.bind_some, Act.file, Option.none_or] at saved
      by_cases same : g = f
      · simp [same, seen]
      · simpa [same] using before saved
    | detach ty rid g =>
      simp only [masterAct, Option.bind_some, Act.file, Option.none_or] at saved
      simpa using before saved
    | _ => cases kind

/-- A file that the window neither creates nor deletes is saved by its attachments alone. -/
private theorem file_attached (own : OwnIds N) (fileOps : ∀ op ∈ ops, (masterAct op).isSome)
    (seen : grants N P sub f = true)
    (untouched : lastOf (Act.file f) (ops.filterMap masterAct) = none) :
    lastOf (Act.file f) (ops.flatMap (opActs N P sub)) = some N[FsStore.fileKey f]? ∨
      lastOf (Act.file f) (ops.flatMap (opActs N P sub)) = none ∧
        ∀ ty rid, .attach ty rid f ∉ ops := by
  -- on the last operation: an attach saves the record as it is in the end
  induction ops using List.reverseRecOn with
  | nil => exact .inr ⟨rfl, by simp⟩
  | append_singleton ops op ih =>
    have kind := fileOps op (by simp)
    have last := lastOf_file_opActs P sub f own kind
    rw [lastOf_filterMap_concat, Option.or_eq_none_iff] at untouched
    have before := ih (fun o mem => fileOps o (by simp [mem])) untouched.2
    rw [lastOf_flatMap_concat, last, fileVerdict.eq_def]
    cases op with
    | fileCreate rec =>
      have other : rec.id ≠ f := by
        rintro same
        simp [masterAct, Act.file, same] at untouched
      simpa [other] using before
    | fileDelete g =>
      have other : g ≠ f := by
        rintro same
        simp [masterAct, Act.file, same] at untouched
      simpa [other] using before
    | attach ty rid g =>
      by_cases same : g = f
      · simp [same, seen]
      · simpa [same, Ne.symm same] using before
    | detach ty rid g => simpa using before
    | _ => cases kind

private theorem lastOf_marker_opActs (P : Policy) (sub k : String) {op : WalOp}
    (fileOp : (masterAct op).isSome) :
    lastOf (Act.marker k) (opActs N P sub op) = markerVerdict N P sub k op := by
  cases op with
  | fileCreate rec =>
    simp only [opActs, markerVerdict]
    split <;> simp [Act.marker]
  | fileDelete g => simp [opActs, markerVerdict, Act.marker]
  | attach ty rid g =>
    simp only [opActs, markerVerdict]
    cases seen : grants N P sub g with
    | false =>
      simp only [Bool.false_eq_true, false_and, and_false, if_false]
      split <;> rfl
    | true =>
      obtain ⟨rec, here⟩ := grants_held seen
      simp only [here, if_true]
      by_cases granted : P.authorizeRow sub ty rid .read = true
      · rw [if_pos granted, show [Act.save rec, .mark ty rid g] = [.save rec] ++ [.mark ty rid g]
          from rfl, lastOf_append]
        simp [Act.marker, granted]
      · rw [if_neg granted]
        simp [Act.marker, granted]
  | detach ty rid g => simp [opActs, markerVerdict, Act.marker]
  | _ => cases fileOp

/-- Where the filter shows what is attached under a marker, the replay repeats the master. -/
private theorem marker_followed (fileOps : ∀ op ∈ ops, (masterAct op).isSome)
    (open_ : ∀ ty rid g, .attach ty rid g ∈ ops → k = FsStore.relKey ty rid g →
      grants N P sub g = true ∧ P.authorizeRow sub ty rid .read = true) :
    lastOf (Act.marker k) (ops.flatMap (opActs N P sub)) =
      lastOf (Act.marker k) (ops.filterMap masterAct) := by
  -- on the last operation; only an attach asks the filter, and here it says yes
  induction ops using List.reverseRecOn with
  | nil => rfl
  | append_singleton ops op ih =>
    have kind := fileOps op (by simp)
    rw [lastOf_flatMap_concat, lastOf_filterMap_concat, ih (fun o mem => fileOps o (by simp [mem]))
      (fun ty rid g mem => open_ ty rid g (by simp [mem])), lastOf_marker_opActs P sub _ kind,
      markerVerdict.eq_def]
    cases op with
    | attach ty rid g =>
      by_cases same : k = FsStore.relKey ty rid g
      · obtain ⟨seen, granted⟩ := open_ ty rid g (by simp) same
        simp [masterAct, Act.marker, same, seen, granted]
      · simp [masterAct, Act.marker, same]
    | fileCreate rec => simp [masterAct, Act.marker]
    | fileDelete g => simp [masterAct, Act.marker]
    | detach ty rid g => simp [masterAct, Act.marker]
    | _ => cases kind

/-- Where it does not, the replay never marks, and it unmarks whenever the master does. -/
private theorem marker_skipped (fileOps : ∀ op ∈ ops, (masterAct op).isSome)
    (barred : ∀ ty rid g, .attach ty rid g ∈ ops → k = FsStore.relKey ty rid g →
      ¬ (grants N P sub g = true ∧ P.authorizeRow sub ty rid .read = true)) :
    lastOf (Act.marker k) (ops.flatMap (opActs N P sub)) = some false ∨
      lastOf (Act.marker k) (ops.flatMap (opActs N P sub)) = none ∧
        lastOf (Act.marker k) (ops.filterMap masterAct) ≠ some false := by
  -- on the last operation; an attach is not repeated, a detach and a delete are
  induction ops using List.reverseRecOn with
  | nil => simp
  | append_singleton ops op ih =>
    have kind := fileOps op (by simp)
    have before := ih (fun o mem => fileOps o (by simp [mem]))
      fun ty rid g mem => barred ty rid g (by simp [mem])
    rw [lastOf_flatMap_concat, lastOf_filterMap_concat, lastOf_marker_opActs P sub _ kind,
      markerVerdict.eq_def]
    cases op with
    | attach ty rid g =>
      by_cases same : k = FsStore.relKey ty rid g
      · have none : ¬ (k = FsStore.relKey ty rid g ∧ grants N P sub g = true ∧
            P.authorizeRow sub ty rid .read = true) :=
          fun h => barred ty rid g (by simp) same h.2
        simp only [if_neg none, Option.none_or]
        refine before.imp id fun h => ⟨h.1, ?_⟩
        simp [masterAct, Act.marker, same]
      · simpa [masterAct, Act.marker, same] using before
    | fileCreate rec => simpa [masterAct, Act.marker] using before
    | fileDelete g =>
      by_cases named : FsStore.MarkerOf g k
      · simp [named]
      · simpa [masterAct, Act.marker, named] using before
    | detach ty rid g =>
      by_cases same : k = FsStore.relKey ty rid g
      · simp [same]
      · simpa [masterAct, Act.marker, same] using before
    | _ => cases kind

/-- A marker that no operation of the window concerns in the master, none concerns in the replay. -/
private theorem marker_silent (fileOps : ∀ op ∈ ops, (masterAct op).isSome)
    (silent : lastOf (Act.marker k) (ops.filterMap masterAct) = none) :
    lastOf (Act.marker k) (ops.flatMap (opActs N P sub)) = none := by
  rw [lastOf_eq_none] at silent
  have unattached : ∀ ty rid g, .attach ty rid g ∈ ops → k ≠ FsStore.relKey ty rid g := by
    intro ty rid g mem same
    have verdict := silent (.mark ty rid g) (List.mem_filterMap.mpr ⟨_, mem, rfl⟩)
    simp [Act.marker, same] at verdict
  rw [marker_followed fileOps fun ty rid g mem same => absurd same (unattached ty rid g mem)]
  exact lastOf_eq_none.mpr silent

/-- A deleted file is not silent about its markers. -/
private theorem deleted_speaks {f : String} (named : FsStore.MarkerOf f k)
    (silent : lastOf (Act.marker k) (ops.flatMap (opActs N P sub)) = none) :
    .fileDelete f ∉ ops := by
  intro mem
  have verdict := lastOf_eq_none.mp silent (.drop f)
    (List.mem_flatMap.mpr ⟨_, mem, List.mem_singleton_self _⟩)
  simp [Act.marker, named] at verdict

end Compare

/-! ### Exactness -/

section Exact

variable {M N : Kv Value} {P : Policy} {sub : String} {ops : List WalOp} {R R' D D' : Kv Value}

/-- A record that no operation deletes stays. -/
private theorem record_kept (steps : FileSteps M ops N) {f : String} {rec : FileRecord}
    (held : M[FsStore.fileKey f]? = some (.file rec)) (kept : .fileDelete f ∉ ops) :
    ∃ rec', N[FsStore.fileKey f]? = some (.file rec') := by
  rw [steps.performed.file]
  -- the record of the end is that of the start, or one that the window wrote
  cases last : lastOf (Act.file f) (ops.filterMap masterAct) with
  | none => exact ⟨rec, held⟩
  | some v =>
    obtain ⟨a, mem, verdict⟩ := lastOf_mem last
    obtain ⟨op, opMem, act⟩ := List.mem_filterMap.mp mem
    cases op with
    | fileCreate r =>
      obtain rfl : .save r = a := by simpa [masterAct] using act
      simp only [Act.file, Option.ite_none_right_eq_some, Option.some.injEq] at verdict
      exact ⟨r, verdict.2.symm⟩
    | fileDelete g =>
      obtain rfl : .drop g = a := by simpa [masterAct] using act
      simp only [Act.file, Option.ite_none_right_eq_some] at verdict
      exact absurd (verdict.1 ▸ opMem) kept
    | attach ty rid g =>
      obtain rfl : .mark ty rid g = a := by simpa [masterAct] using act
      cases verdict
    | detach ty rid g =>
      obtain rfl : .unmark ty rid g = a := by simpa [masterAct] using act
      cases verdict
    | _ => cases act

/-- A file whose marker was there all along was there when the window began: an id is new when
    its record is created. -/
private theorem record_old (steps : FileSteps M ops N) {f k : String}
    (named : FsStore.MarkerOf f k) (mem : k ∈ M)
    (silent : ∀ a ∈ ops.filterMap masterAct, Act.marker k a = none) {rec : FileRecord}
    (here : N[FsStore.fileKey f]? = some (.file rec)) :
    ∃ rec', M[FsStore.fileKey f]? = some (.file rec') := by
  -- on the first operation, through which the marker stays
  induction steps with
  | nil => exact ⟨rec, here⟩
  | @cons M M₁ N op ops first rest ih =>
    have acts : ∀ a ∈ (masterAct op).toList, Act.marker k a = none := fun a ha =>
      silent a (List.mem_filterMap.mpr ⟨op, List.mem_cons_self, Option.mem_toList.mp ha⟩)
    have still : k ∈ M₁ := by
      rw [first.performed.marker k named.1, lastOf_eq_none.mpr acts]
      simpa using mem
    have later : ∀ a ∈ ops.filterMap masterAct, Act.marker k a = none := by
      intro a ha
      obtain ⟨o, oMem, oAct⟩ := List.mem_filterMap.mp ha
      exact silent a (List.mem_filterMap.mpr ⟨o, List.mem_cons_of_mem _ oMem, oAct⟩)
    obtain ⟨r, there⟩ := ih still later here
    rw [first.performed.file] at there
    cases first with
    | create _ _ unused _ =>
      simp only [masterAct, Option.toList_some, lastOf_singleton, Act.file] at there
      split at there
      -- a new id that a marker names is no new id
      next same => exact absurd named (same ▸ unused k mem)
      · exact ⟨r, there⟩
    | again held =>
      simp only [masterAct, Option.toList_some, lastOf_singleton, Act.file] at there
      split at there
      next same => exact ⟨_, same ▸ held⟩
      · exact ⟨r, there⟩
    | attach _ _ _ => exact ⟨r, there⟩
    | detach _ => exact ⟨r, there⟩
    | delete _ =>
      simp only [masterAct, Option.toList_some, lastOf_singleton, Act.file] at there
      split at there
      · cases there
      · exact ⟨r, there⟩

/-- A marker of the copy whose parts hold no separator: its row is one that the store reads back. -/
private theorem mem_copy_plain {A : Kv Value} (regular : Regular M) (filtered : Filtered M P sub A)
    {ty rid f : String} (tyFree : Text.Free ':' ty) (ridFree : Text.Free ':' rid) :
    FsStore.relKey ty rid f ∈ A ↔ (ty, rid) ∈ FsStore.rowsForFile f M ∧
      P.authorizeRow sub ty rid .read = true ∧
        ∃ rec, M[FsStore.fileKey f]? = some (.file rec) := by
  constructor
  · intro mem
    obtain ⟨g, r, row, seen, -, same⟩ :=
      (filtered_marker regular.own filtered (FsStore.isMarker_relKey ty rid f)).mp mem
    obtain ⟨held, granted⟩ := List.mem_filter.mp row
    obtain ⟨rFree, r₂Free⟩ := rowsForFile_free held
    obtain ⟨rfl, rfl, rfl⟩ := FsStore.relKey_inj_file tyFree rFree ridFree r₂Free same
    exact ⟨held, granted, grants_held seen⟩
  · rintro ⟨held, granted, rec, here⟩
    exact (mem_copy_iff (r := (ty, rid)) regular.sound filtered here tyFree).mpr ⟨held, granted⟩

/-- The key can be read as a row and a file without separators. -/
def PlainKey (k : String) : Prop :=
  ∃ ty rid f, Text.Free ':' ty ∧ Text.Free ':' rid ∧ Text.Free ':' f ∧ k = FsStore.relKey ty rid f

/-- A copy holds no other markers. -/
private theorem plain_of_mem_copy {A : Kv Value} {k : String} (regular : Regular M)
    (filtered : Filtered M P sub A) (hk : FsStore.IsMarker k) (mem : k ∈ A) : PlainKey k := by
  obtain ⟨g, r, row, seen, -, same⟩ := (filtered_marker regular.own filtered hk).mp mem
  have rowFree := rowsForFile_free (List.mem_filter.mp row).1
  obtain ⟨rec, here⟩ := grants_held seen
  exact ⟨r.1, r.2, g, rowFree.1, rowFree.2, regular.ids g rec here, same⟩

private theorem row_of_marker {A : Kv Value} {ty rid f : String} (tyFree : Text.Free ':' ty)
    (ridFree : Text.Free ':' rid) (mem : FsStore.relKey ty rid f ∈ A) :
    (ty, rid) ∈ FsStore.rowsForFile f A :=
  FsStore.mem_rowsForFile.mpr ⟨_, mem, FsStore.markerOf_relKey_self _ _ _,
    FsStore.markerRow_iff.mpr ⟨f, rfl, tyFree, ridFree⟩⟩

/-- A marker that the master comes to hold was attached. -/
private theorem attach_of_marked {k : String}
    (marked : lastOf (Act.marker k) (ops.filterMap masterAct) = some true) :
    ∃ ty rid f, .attach ty rid f ∈ ops ∧ k = FsStore.relKey ty rid f := by
  obtain ⟨a, aMem, wrote⟩ := lastOf_mem marked
  obtain ⟨op, opMem, act⟩ := List.mem_filterMap.mp aMem
  cases op with
  | attach ty rid f =>
    obtain rfl : .mark ty rid f = a := by simpa [masterAct] using act
    simp only [Act.marker, Option.ite_none_right_eq_some] at wrote
    exact ⟨ty, rid, f, opMem, wrote.1⟩
  | fileCreate rec =>
    obtain rfl : .save rec = a := by simpa [masterAct] using act
    cases wrote
  | fileDelete g =>
    obtain rfl : .drop g = a := by simpa [masterAct] using act
    simp [Act.marker] at wrote
  | detach ty rid g =>
    obtain rfl : .unmark ty rid g = a := by simpa [masterAct] using act
    simp [Act.marker] at wrote
  | _ => cases act

/-- A marker of the new master is an old one, or its file was attached under it. -/
private theorem marker_old (regular : Regular M) (steps : FileSteps M ops N) {f k : String}
    (fFree : Text.Free ':' f) (named : FsStore.MarkerOf f k) (mem : k ∈ N) :
    k ∈ M ∨ ∃ ty rid, .attach ty rid f ∈ ops ∧ k = FsStore.relKey ty rid f := by
  rw [steps.performed.marker k named.1] at mem
  cases last : lastOf (Act.marker k) (ops.filterMap masterAct) with
  | none =>
    left
    simpa [last] using mem
  | some b =>
    right
    obtain rfl : b = true := by simpa [last] using mem
    obtain ⟨ty, rid, g, attached, rfl⟩ := attach_of_marked last
    obtain rfl := (FsStore.markerOf_relKey fFree (steps.named regular attached rfl)).mp named
    exact ⟨ty, rid, attached, rfl⟩

/-- A file that is not attached gets no new row. -/
private theorem rows_old (regular : Regular M) (steps : FileSteps M ops N) {f : String}
    (fFree : Text.Free ':' f) (unattached : ∀ ty rid, .attach ty rid f ∉ ops) :
    ∀ r ∈ FsStore.rowsForFile f N, r ∈ FsStore.rowsForFile f M := by
  intro r mem
  obtain ⟨k, held, named, row⟩ := FsStore.mem_rowsForFile.mp mem
  rcases marker_old regular steps fFree named held with old | ⟨ty, rid, attached, -⟩
  · exact FsStore.mem_rowsForFile.mpr ⟨k, old, named, row⟩
  · exact absurd attached (unattached ty rid)

private theorem grants_of_rows {f : String} {rec : FileRecord}
    (held : M[FsStore.fileKey f]? = some (.file rec)) (here : N[FsStore.fileKey f]? = some (.file rec))
    (rows : ∀ r ∈ FsStore.rowsForFile f N, r ∈ FsStore.rowsForFile f M)
    (seen : grants N P sub f = true) : grants M P sub f = true := by
  unfold grants at seen ⊢
  rw [held]
  rw [here] at seen
  simp only [Bool.or_eq_true, decide_eq_true_eq, Bool.not_eq_true',
    List.isEmpty_eq_false_iff_exists_mem] at seen ⊢
  refine seen.imp id ?_
  rintro ⟨r, mem⟩
  obtain ⟨row, granted⟩ := List.mem_filter.mp mem
  exact ⟨r, List.mem_filter.mpr ⟨rows r row, granted⟩⟩

/-- The record of a file that the subject reads in the end is there. -/
private theorem same_file_of_shown (regular : Regular M) (regular' : Regular N)
    (steps : FileSteps M ops N) (before : Filtered M P sub D) (insync : SameData R D)
    (performed : Performed (ops.flatMap (opActs N P sub)) R R') {f : String}
    (seen : grants N P sub f = true) : R'[FsStore.fileKey f]? = N[FsStore.fileKey f]? := by
  obtain ⟨rec, here⟩ := grants_held seen
  have record := steps.performed.file f
  rw [performed.file]
  cases last : lastOf (Act.file f) (ops.filterMap masterAct) with
  | some v =>
    rw [last, Option.getD_some] at record
    rw [file_shown regular'.own steps.isFileOp seen (by rw [last, record]), Option.getD_some]
  | none =>
    rw [last, Option.getD_none] at record
    rcases file_attached regular'.own steps.isFileOp seen last with saved | ⟨silent, unattached⟩
    · rw [saved, Option.getD_some]
    · rw [silent, Option.getD_none, insync.file, filtered_file regular.own before, shown, ← record,
        if_pos]
      -- no row was attached, so every row that grants now was there before
      have held : M[FsStore.fileKey f]? = some (.file rec) := record ▸ here
      exact grants_of_rows held here
        (rows_old regular steps (regular.ids f rec held) unattached) seen

/-! #### Markers -/

/-- The operation names the row and the file, or deletes the file. -/
def NamesRow (ty rid f : String) : WalOp → Prop
  | .attach ty' rid' g | .detach ty' rid' g => ty' = ty ∧ rid' = rid ∧ g = f
  | .fileDelete g => g = f
  | _ => False

instance (ty rid f : String) : (op : WalOp) → Decidable (NamesRow ty rid f op)
  | .attach .. | .detach .. => inferInstanceAs (Decidable (_ ∧ _))
  | .fileDelete _ => inferInstanceAs (Decidable (_ = _))
  | .fileCreate _ | .policyAdd _ | .policyRemove _ | .policyRuleAdd .. | .policyRuleRemove ..
  | .groupAdd .. | .groupRemove .. | .groupDelete _ => isFalse id

section Plain

variable {ty rid f : String} (tyFree : Text.Free ':' ty) (ridFree : Text.Free ':' rid)
  (fFree : Text.Free ':' f)

include tyFree ridFree fFree

/-- The operations that concern a plain marker are those that name its row and file. -/
private theorem silent_iff (regular : Regular M) (steps : FileSteps M ops N) :
    lastOf (Act.marker (FsStore.relKey ty rid f)) (ops.filterMap masterAct) = none ↔
      ∀ op ∈ ops, ¬ NamesRow ty rid f op := by
  rw [lastOf_eq_none]
  constructor
  · intro silent op mem names
    cases op with
    | attach ty' rid' g =>
      obtain ⟨rfl, rfl, rfl⟩ := names
      have verdict := silent (.mark _ _ _) (List.mem_filterMap.mpr ⟨_, mem, rfl⟩)
      simp [Act.marker] at verdict
    | detach ty' rid' g =>
      obtain ⟨rfl, rfl, rfl⟩ := names
      have verdict := silent (.unmark _ _ _) (List.mem_filterMap.mpr ⟨_, mem, rfl⟩)
      simp [Act.marker] at verdict
    | fileDelete g =>
      obtain rfl : g = f := names
      have verdict := silent (.drop _) (List.mem_filterMap.mpr ⟨_, mem, rfl⟩)
      simp [Act.marker, FsStore.markerOf_relKey_self] at verdict
    | _ => exact names
  · -- without separators in the names, another row or file has another key
    intro unnamed a aMem
    obtain ⟨op, opMem, act⟩ := List.mem_filterMap.mp aMem
    have other := unnamed op opMem
    cases op with
    | attach ty' rid' g =>
      obtain rfl : .mark ty' rid' g = a := by simpa [masterAct] using act
      refine if_neg fun same => other ?_
      obtain ⟨rfl, rfl, rfl⟩ := FsStore.relKey_inj_free tyFree ridFree fFree same
      exact ⟨rfl, rfl, rfl⟩
    | detach ty' rid' g =>
      obtain rfl : .unmark ty' rid' g = a := by simpa [masterAct] using act
      refine if_neg fun same => other ?_
      obtain ⟨rfl, rfl, rfl⟩ := FsStore.relKey_inj_free tyFree ridFree fFree same
      exact ⟨rfl, rfl, rfl⟩
    | fileDelete g =>
      obtain rfl : .drop g = a := by simpa [masterAct] using act
      refine if_neg fun named => other ?_
      exact ((FsStore.markerOf_relKey (steps.named regular opMem rfl) fFree).mp named).symm
    | fileCreate rec =>
      obtain rfl : .save rec = a := by simpa [masterAct] using act
      rfl
    | _ => cases act

/-- What is attached under a plain marker is its file, to its row. -/
private theorem attached_plain {Q : String → String → String → Prop} (holds : Q ty rid f) :
    ∀ ty' rid' g, .attach ty' rid' g ∈ ops → FsStore.relKey ty rid f = FsStore.relKey ty' rid' g →
      Q ty' rid' g := by
  intro ty' rid' g _ same
  obtain ⟨rfl, rfl, rfl⟩ := FsStore.relKey_inj_free tyFree ridFree fFree same
  exact holds

/-- A plain marker that the master does not hold in the end is in the replica if the filter made it
    from a longer one, and no operation has named it since. -/
private theorem plain_absent (regular : Regular M) (steps : FileSteps M ops N)
    (before : Filtered M P sub D) (insync : SameData R D)
    (performed : Performed (ops.flatMap (opActs N P sub)) R R')
    (granted : P.authorizeRow sub ty rid .read = true) (absent : FsStore.relKey ty rid f ∉ N) :
    FsStore.relKey ty rid f ∈ R' ↔ (ty, rid) ∈ FsStore.rowsForFile f M ∧
      (∃ rec, M[FsStore.fileKey f]? = some (.file rec)) ∧ ∀ op ∈ ops, ¬ NamesRow ty rid f op := by
  have hk := FsStore.isMarker_relKey ty rid f
  have unmarked : lastOf (Act.marker (FsStore.relKey ty rid f)) (ops.filterMap masterAct) ≠
      some true := by
    intro last
    rw [steps.performed.marker _ hk, last] at absent
    exact absent rfl
  have old : FsStore.relKey ty rid f ∈ R ↔ (ty, rid) ∈ FsStore.rowsForFile f M ∧
      ∃ rec, M[FsStore.fileKey f]? = some (.file rec) := by
    rw [insync.marker _ hk, mem_copy_plain regular before tyFree ridFree]
    simp [granted]
  rw [performed.marker _ hk, ← silent_iff tyFree ridFree fFree regular steps, ← and_assoc, ← old]
  -- the replay takes the marker away when the master does, and otherwise leaves it
  have follows : lastOf (Act.marker (FsStore.relKey ty rid f)) (ops.flatMap (opActs N P sub)) =
      lastOf (Act.marker (FsStore.relKey ty rid f)) (ops.filterMap masterAct) := by
    by_cases seen : grants N P sub f = true
    · exact marker_followed steps.isFileOp
        (attached_plain tyFree ridFree fFree (Q := fun a b g => grants N P sub g = true ∧
          P.authorizeRow sub a b .read = true) ⟨seen, granted⟩)
    · cases last : lastOf (Act.marker (FsStore.relKey ty rid f)) (ops.filterMap masterAct) with
      | none => exact marker_silent steps.isFileOp last
      | some b =>
        obtain rfl : b = false := by
          cases b with
          | true => exact absurd last unmarked
          | false => rfl
        rcases @marker_skipped N P sub _ _ steps.isFileOp
          (attached_plain tyFree ridFree fFree (Q := fun a b g => ¬ (grants N P sub g = true ∧
            P.authorizeRow sub a b .read = true)) fun h => seen h.1) with gone | ⟨-, kept⟩
        · exact gone
        · exact absurd last kept
  rw [follows]
  cases last : lastOf (Act.marker (FsStore.relKey ty rid f)) (ops.filterMap masterAct) with
  | none => simp
  | some b =>
    cases b with
    | true => exact absurd last unmarked
    | false => simp

/-- A plain marker of the master, on a row that grants, is in the replica and in the copy. -/
private theorem plain_present (regular : Regular M) (regular' : Regular N)
    (steps : FileSteps M ops N) (before : Filtered M P sub D) (after : Filtered N P sub D')
    (insync : SameData R D) (performed : Performed (ops.flatMap (opActs N P sub)) R R')
    (granted : P.authorizeRow sub ty rid .read = true) {rec : FileRecord}
    (here : N[FsStore.fileKey f]? = some (.file rec)) (mem : FsStore.relKey ty rid f ∈ N) :
    FsStore.relKey ty rid f ∈ R' ∧ FsStore.relKey ty rid f ∈ D' := by
  have hk := FsStore.isMarker_relKey ty rid f
  have row := row_of_marker tyFree ridFree mem
  have seen : grants N P sub f = true := grants_of_visible here (List.mem_filter.mpr ⟨row, granted⟩)
  refine ⟨?_, (mem_copy_plain regular' after tyFree ridFree).mpr ⟨row, granted, rec, here⟩⟩
  rw [performed.marker _ hk, marker_followed steps.isFileOp
    (attached_plain tyFree ridFree fFree (Q := fun a b g => grants N P sub g = true ∧
      P.authorizeRow sub a b .read = true) ⟨seen, granted⟩)]
  have new := (steps.performed.marker _ hk).mp mem
  cases last : lastOf (Act.marker (FsStore.relKey ty rid f)) (ops.filterMap masterAct) with
  | some b => simpa [last] using new
  | none =>
    -- the marker was there all along, so the file was too, and the replica had both
    have was : FsStore.relKey ty rid f ∈ M := by simpa [last] using new
    have held := record_old steps (FsStore.markerOf_relKey_self _ _ _) was
      (lastOf_eq_none.mp last) here
    simp only [Option.getD_none, decide_eq_true_eq]
    rw [insync.marker _ hk, mem_copy_plain regular before tyFree ridFree]
    exact ⟨row_of_marker tyFree ridFree was, granted, held⟩

/-- A marker of a row that does not grant, or of a file that is gone, is in neither. -/
private theorem plain_barred (regular : Regular M) (regular' : Regular N)
    (steps : FileSteps M ops N) (before : Filtered M P sub D) (after : Filtered N P sub D')
    (insync : SameData R D) (performed : Performed (ops.flatMap (opActs N P sub)) R R')
    (barred : ¬ (P.authorizeRow sub ty rid .read = true ∧
      ∃ rec, N[FsStore.fileKey f]? = some (.file rec))) :
    FsStore.relKey ty rid f ∉ R' ∧ FsStore.relKey ty rid f ∉ D' := by
  have hk := FsStore.isMarker_relKey ty rid f
  refine ⟨fun marked => ?_, fun copied => barred
    ((mem_copy_plain regular' after tyFree ridFree).mp copied).2⟩
  rw [performed.marker _ hk] at marked
  rcases @marker_skipped N P sub _ _ steps.isFileOp
    (attached_plain tyFree ridFree fFree (Q := fun a b g => ¬ (grants N P sub g = true ∧
      P.authorizeRow sub a b .read = true)) fun h => barred ⟨h.2, grants_held h.1⟩) with
    gone | ⟨silent, -⟩
  · simp [gone] at marked
  · -- the marker was in the replica from the start, and its file was not deleted
    simp only [silent, Option.getD_none, decide_eq_true_eq] at marked
    rw [insync.marker _ hk, mem_copy_plain regular before tyFree ridFree] at marked
    obtain ⟨-, granted, rec, held⟩ := marked
    exact barred ⟨granted, record_kept steps held
      (deleted_speaks (FsStore.markerOf_relKey_self _ _ _) silent)⟩

end Plain

/-- A marker that is not plain is in no copy. The replica has it when it was attached for somebody
    who may read the row that the operation names. -/
private theorem odd_marker (regular : Regular M) (steps : FileSteps M ops N)
    (before : Filtered M P sub D) (insync : SameData R D)
    (performed : Performed (ops.flatMap (opActs N P sub)) R R') {k : String}
    (hk : FsStore.IsMarker k) (odd : ¬ PlainKey k) :
    k ∈ R' ↔ k ∈ N ∧ ∃ ty rid f, .attach ty rid f ∈ ops ∧ k = FsStore.relKey ty rid f ∧
      grants N P sub f = true ∧ P.authorizeRow sub ty rid .read = true := by
  have old : k ∉ R := fun mem =>
    odd (plain_of_mem_copy regular before hk ((insync.marker k hk).mp mem))
  rw [performed.marker k hk]
  by_cases open_ : ∃ ty rid f, .attach ty rid f ∈ ops ∧ k = FsStore.relKey ty rid f ∧
      grants N P sub f = true ∧ P.authorizeRow sub ty rid .read = true
  · obtain ⟨ty, rid, f, attached, rfl, seen, granted⟩ := open_
    have fFree := steps.named regular attached rfl
    -- whoever attaches under this key attaches this file, and asks for the same object
    have follows := @marker_followed N P sub
      (FsStore.relKey ty rid f) _ steps.isFileOp (by
        intro ty' rid' g attached' same
        have gFree := steps.named regular attached' rfl
        obtain rfl : g = f := (FsStore.markerOf_relKey fFree gFree).mp
          (same ▸ FsStore.markerOf_relKey_self ty rid f)
        have object : rowObject ty rid = rowObject ty' rid' := by
          simp only [FsStore.relKey, String.append_assoc, String.append_right_inj] at same
          simp only [← String.append_assoc, String.append_left_inj] at same
          exact same
        refine ⟨seen, ?_⟩
        rw [Policy.authorizeRow, object] at granted
        exact granted)
    rw [follows, steps.performed.marker _ hk]
    cases last : lastOf (Act.marker (FsStore.relKey ty rid f)) (ops.filterMap masterAct) with
    | none =>
      have verdict := lastOf_eq_none.mp last (.mark ty rid f)
        (List.mem_filterMap.mpr ⟨_, attached, rfl⟩)
      simp [Act.marker] at verdict
    | some b =>
      simp only [Option.getD_some]
      exact ⟨fun yes => ⟨yes, ty, rid, f, attached, rfl, seen, granted⟩, fun h => h.1⟩
  · refine ⟨fun marked => ?_, fun h => absurd h.2 open_⟩
    rcases @marker_skipped N P sub k _ steps.isFileOp
      (fun ty rid f attached same h => open_ ⟨ty, rid, f, attached, same, h⟩) with gone | ⟨silent, -⟩
    · simp [gone] at marked
    · simp [silent, old] at marked

/-! #### Files and markers -/

/-- What a replay of file operations that turned `M` into `N` has to meet. `rows` and `attached`
    are about names with a `:`: the store reads a row back from a marker up to the second `:`. -/
structure FilesFollowed (M N : Kv Value) (P : Policy) (sub : String) (ops : List WalOp) : Prop where
  /-- A file that the subject could read is still readable, or was deleted. -/
  files : ∀ f, grants M P sub f = true → .fileDelete f ∉ ops → grants N P sub f = true
  /-- A readable row that is read back without a marker of its own was so before, and no
      operation has named it. -/
  rows : ∀ f rec, N[FsStore.fileKey f]? = some (.file rec) → ∀ ty rid,
    P.authorizeRow sub ty rid .read = true → FsStore.relKey ty rid f ∉ N →
      ((ty, rid) ∈ FsStore.rowsForFile f N ↔ (ty, rid) ∈ FsStore.rowsForFile f M ∧
        (∃ rec, M[FsStore.fileKey f]? = some (.file rec)) ∧ ∀ op ∈ ops, ¬ NamesRow ty rid f op)
  /-- A readable row to which a readable file was attached, and still is, has plain names. -/
  attached : ∀ ty rid f, .attach ty rid f ∈ ops → FsStore.relKey ty rid f ∈ N →
    grants N P sub f = true → P.authorizeRow sub ty rid .read = true →
      Text.Free ':' ty ∧ Text.Free ':' rid

private theorem followed_of_same (regular : Regular M) (steps : FileSteps M ops N)
    (before : Filtered M P sub D) (after : Filtered N P sub D') (insync : SameData R D)
    (performed : Performed (ops.flatMap (opActs N P sub)) R R') (same : SameData R' D') :
    FilesFollowed M N P sub ops := by
  have regular' := steps.regular regular
  constructor
  · -- a file that is hidden now keeps its record in the replica, and the copy does not have it
    intro f seen kept
    by_contra hidden
    rw [Bool.not_eq_true] at hidden
    obtain ⟨rec, held⟩ := grants_held seen
    have stays : R'[FsStore.fileKey f]? = some (.file rec) := by
      rw [performed.file, file_hidden regular'.own steps.isFileOp hidden, if_neg kept,
        Option.getD_none, insync.file, filtered_file regular.own before, shown, if_pos seen, held]
    rw [same.file, filtered_file regular'.own after, shown, hidden] at stays
    simp at stays
  · intro f rec here ty rid granted absent
    by_cases free : Text.Free ':' ty ∧ Text.Free ':' rid
    · rw [← plain_absent free.1 free.2 (regular'.ids f rec here) regular steps before insync
        performed granted absent, same.marker _ (FsStore.isMarker_relKey _ _ _),
        mem_copy_plain regular' after free.1 free.2]
      exact ⟨fun row => ⟨row, granted, rec, here⟩, fun h => h.1⟩
    · -- what is read back holds no separator
      exact ⟨fun row => absurd (rowsForFile_free row) free,
        fun h => absurd (rowsForFile_free h.1) free⟩
  · intro ty rid f attached mem seen granted
    by_contra bound
    have hk := FsStore.isMarker_relKey ty rid f
    have odd : ¬ PlainKey (FsStore.relKey ty rid f) := by
      rintro ⟨a, b, g, aFree, bFree, gFree, key⟩
      obtain ⟨rfl, rfl, rfl⟩ := FsStore.relKey_inj_free aFree bFree gFree key.symm
      exact bound ⟨aFree, bFree⟩
    have marked := (odd_marker regular steps before insync performed hk odd).mpr
      ⟨mem, ty, rid, f, attached, rfl, seen, granted⟩
    exact odd (plain_of_mem_copy regular' after hk ((same.marker _ hk).mp marked))

private theorem same_of_followed (regular : Regular M) (steps : FileSteps M ops N)
    (before : Filtered M P sub D) (after : Filtered N P sub D') (insync : SameData R D)
    (performed : Performed (ops.flatMap (opActs N P sub)) R R')
    (followed : FilesFollowed M N P sub ops) : SameData R' D' := by
  have regular' := steps.regular regular
  refine ⟨fun f => ?_, fun k hk => ?_⟩
  · rw [filtered_file regular'.own after, shown]
    cases seen : grants N P sub f with
    | true =>
      rw [if_pos rfl]
      exact same_file_of_shown regular regular' steps before insync performed seen
    | false =>
      rw [if_neg (by simp), performed.file, file_hidden regular'.own steps.isFileOp seen]
      split
      · rfl
      next kept =>
        -- no operation drops the record, so it must not have been shown before
        rw [Option.getD_none, insync.file, filtered_file regular.own before, shown, if_neg]
        intro readable
        rw [followed.files f readable kept] at seen
        cases seen
  · by_cases plain : PlainKey k
    · obtain ⟨ty, rid, f, tyFree, ridFree, fFree, rfl⟩ := plain
      by_cases open_ : P.authorizeRow sub ty rid .read = true ∧
          ∃ rec, N[FsStore.fileKey f]? = some (.file rec)
      · obtain ⟨granted, rec, here⟩ := open_
        by_cases mem : FsStore.relKey ty rid f ∈ N
        · obtain ⟨marked, copied⟩ := plain_present tyFree ridFree fFree regular regular' steps before
            after insync performed granted here mem
          exact ⟨fun _ => copied, fun _ => marked⟩
        · rw [plain_absent tyFree ridFree fFree regular steps before insync performed granted mem,
            ← followed.rows f rec here ty rid granted mem, mem_copy_plain regular' after tyFree ridFree]
          exact ⟨fun row => ⟨row, granted, rec, here⟩, fun h => h.1⟩
      · obtain ⟨unmarked, uncopied⟩ := plain_barred tyFree ridFree fFree regular regular' steps
          before after insync performed open_
        exact ⟨fun bad => absurd bad unmarked, fun bad => absurd bad uncopied⟩
    · -- the copy never holds a marker whose names cannot be read back
      rw [odd_marker regular steps before insync performed hk plain]
      constructor
      · rintro ⟨mem, ty, rid, f, attached, rfl, seen, granted⟩
        obtain ⟨tyFree, ridFree⟩ := followed.attached ty rid f attached mem seen granted
        exact absurd ⟨ty, rid, f, tyFree, ridFree, steps.named regular attached rfl, rfl⟩ plain
      · exact fun bad => absurd (plain_of_mem_copy regular' after hk bad) plain

/-- A replay of file operations leads to the copy of the new master exactly when it follows them. -/
theorem files_exact_iff (regular : Regular M) (steps : FileSteps M ops N)
    (before : Filtered M P sub D) (after : Filtered N P sub D') (insync : SameData R D)
    (performed : Performed (ops.flatMap (opActs N P sub)) R R') :
    SameData R' D' ↔ FilesFollowed M N P sub ops :=
  ⟨followed_of_same regular steps before after insync performed,
    same_of_followed regular steps before after insync performed⟩

/-- With plain row names only the files matter. -/
theorem followed_of_plain (regular : Regular M) (steps : FileSteps M ops N)
    (plain : FsStore.PlainMarkers M) (plainOps : ∀ op ∈ ops, PlainOp op)
    (files : ∀ f, grants M P sub f = true → .fileDelete f ∉ ops → grants N P sub f = true) :
    FilesFollowed M N P sub ops := by
  have regular' := steps.regular regular
  refine ⟨files, fun f rec here ty rid granted absent => ?_,
    fun ty rid f attached _ _ _ => plainOps _ attached⟩
  have fFree := regular'.ids f rec here
  constructor
  · intro row
    obtain ⟨k, mem, named, read⟩ := FsStore.mem_rowsForFile.mp row
    refine absurd ?_ absent
    -- the marker that is read back is the one of the row itself
    rcases marker_old regular steps fFree named mem with old | ⟨a, b, attached, rfl⟩
    · have same := (FsStore.mem_rows_iff plain fFree).mp
        (FsStore.mem_rowsForFile.mpr ⟨k, old, named, read⟩)
      obtain ⟨a, b, g, aFree, bFree, gFree, rfl⟩ := plain k old named.1
      obtain rfl := (FsStore.markerOf_relKey fFree gFree).mp named
      have there : FsStore.markerRow (FsStore.relKey a b g) = some (a, b) :=
        FsStore.markerRow_iff.mpr ⟨g, rfl, aFree, bFree⟩
      obtain ⟨rfl, rfl⟩ : a = ty ∧ b = rid := by simpa [read, eq_comm] using there
      exact mem
    · obtain ⟨aFree, bFree⟩ := plainOps _ attached
      have there : FsStore.markerRow (FsStore.relKey a b f) = some (a, b) :=
        FsStore.markerRow_iff.mpr ⟨f, rfl, aFree, bFree⟩
      obtain ⟨rfl, rfl⟩ : a = ty ∧ b = rid := by simpa [read, eq_comm] using there
      exact mem
  · rintro ⟨row, -, unnamed⟩
    obtain ⟨tyFree, ridFree, was⟩ := (FsStore.mem_rows_iff plain fFree).mp row
    have silent := (silent_iff tyFree ridFree fFree regular steps).mpr unnamed
    refine absurd ?_ absent
    rw [steps.performed.marker _ (FsStore.isMarker_relKey _ _ _), silent]
    simpa using was

end Exact

/-- The engine turned `w` into `w₁` by the operations and announced them in order. -/
structure Announced (entries : List WalEntry) (ops : List WalOp) (w w₁ : World) : Prop where
  steps : FileSteps w.master ops w₁.master
  enforcer : w₁.enforcer = w.enforcer
  replicas : w₁.replicas = w.replicas
  feed : ∃ new, Wal.Log w₁.wal (entries ++ new) ∧ new.map (·.op) = ops

/-- **File replay agrees with a rebuild**, with the policy fixed, exactly when every file that the
    subject could read is deleted in the window or still readable, and the readable rows with a
    `:` in their names, or read back from such rows, are as `FilesFollowed` says. -/
theorem replay_files_iff {fuel fuel' head n : Nat} {sub : String} {ops : List WalOp}
    {w w₁ w₂ : World} {entries : List WalEntry} {u u' : List String} {D D' : Kv Value}
    (regular : Regular w.master) (announced : Announced entries ops w w₁)
    (covered : coverage (w.replicas sub) = some entries.length)
    (before : ((copyFiltered fuel sub).runOn w).1 = .ok (u, D))
    (insync : SameData (w.replicas sub) D) (sampled : Wal.head w₁.wal = .ok head)
    (replayed : (replay head sub).runOn w₁ = (.ok (.advanced n), w₂))
    (after : ((copyFiltered fuel' sub).runOn w₁).1 = .ok (u', D')) :
    SameData (w₂.replicas sub) D' ↔
      FilesFollowed w.master w₁.master w.enforcer.policy sub ops := by
  obtain ⟨new, log, names⟩ := announced.feed
  obtain rfl : (entries ++ new).length = head := by simpa [log.head_eq] using sampled
  obtain ⟨applied, marker, -, wrote, -⟩ := replay_ok log le_rfl replayed
  obtain rfl : entries.length = applied := by simpa [announced.replicas, covered] using marker
  have performed := wrote.performed
  -- file operations leave the policy alone
  have acts : (new.flatMap fun e => opActs w₁.master w₁.enforcer.policy sub e.op) =
      ops.flatMap (opActs w₁.master w.enforcer.policy sub) := by
    rw [announced.enforcer, ← names, List.flatMap_map]
  rw [List.drop_left, List.take_of_length_le (by simp), acts, announced.replicas] at performed
  have regular' := announced.steps.regular regular
  have filtered' := copyFiltered_filtered regular'.own after
  rw [announced.enforcer] at filtered'
  exact files_exact_iff regular announced.steps (copyFiltered_filtered regular.own before)
    filtered' insync performed

/-- `alice` may read the invoice and `bob` may edit it; her replica is up to date. -/
def invoiceReader : World :=
  { World.init toString with
    master := invoiceMaster
    enforcer := ⟨∅, ⟨[⟨"alice", "invoice:1", "read"⟩, ⟨"bob", "invoice:1", "write"⟩,
      ⟨"bob", "invoice:2", "write"⟩], []⟩⟩
    replicas := fun _ => invoiceMaster.insert appliedKey (.applied 0) }

/-- When the only row that `alice` may read is detached, the replay removes its marker and leaves
    the record. -/
theorem replay_keeps_detached_file :
    ∃ w₁ w₂ D', ((copyFiltered 8 "alice").runOn invoiceReader).1 = .ok ([], invoiceMaster) ∧
      SameData (invoiceReader.replicas "alice") invoiceMaster ∧
      (FsEngine.detach "invoice" "1" "b" "bob").runOn invoiceReader = (.ok 0, w₁) ∧
      (replay 1 "alice").runOn w₁ = (.ok (.advanced 1), w₂) ∧
      ((copyFiltered 8 "alice").runOn w₁).1 = .ok ([], D') ∧
      D'[FsStore.fileKey "b"]? = none ∧
      (w₂.replicas "alice")[FsStore.fileKey "b"]? = some (.file bobFile) :=
  ⟨_, _, _, rfl, sameData_covered _ 0, rfl, rfl, rfl, rfl, rfl⟩

private theorem invoiceMaster_marker {k : String} (mem : k ∈ invoiceMaster)
    (hk : FsStore.IsMarker k) : k = FsStore.relKey "invoice" "1" "b" := by
  obtain ⟨v, here⟩ := Kv.mem_iff_get.mp mem
  have rows : invoiceMaster.toList =
      [(FsStore.fileKey "b", .file bobFile), (FsStore.refsKey "b", .refs ⟨1, none⟩),
        (FsStore.relKey "invoice" "1" "b", .relation)] := rfl
  have cases_ := Kv.mem_toList.mpr here
  simp only [rows, List.mem_cons, Prod.mk.injEq, List.not_mem_nil, or_false] at cases_
  rcases cases_ with ⟨rfl, -⟩ | ⟨rfl, -⟩ | ⟨rfl, -⟩
  · exact absurd hk (FsStore.not_isMarker_fileKey "b")
  · exact absurd hk (FsStore.not_isMarker_refsKey "b")
  · rfl

private theorem invoiceMaster_plain : FsStore.PlainMarkers invoiceMaster := fun _ mem hk =>
  ⟨"invoice", "1", "b", by decide, by decide, by decide, invoiceMaster_marker mem hk⟩

private theorem invoiceMaster_regular : Regular invoiceMaster := by
  refine ⟨invoiceMaster_sound.own, invoiceMaster_sound.ids, fun f rec here => ?_⟩
  obtain ⟨same, -⟩ := invoiceMaster_held here
  obtain rfl := FsStore.fileKey_inj.mp same
  refine ⟨⟨1, none⟩, rfl, ?_⟩
  have one : markers "b" invoiceMaster ⊆ {FsStore.relKey "invoice" "1" "b"} := fun k ⟨named, mem⟩ =>
    invoiceMaster_marker mem named.1
  calc (markers "b" invoiceMaster).ncard
      ≤ ({FsStore.relKey "invoice" "1" "b"} : Set String).ncard := Set.ncard_le_ncard one
    _ = 1 := Set.ncard_singleton _

/-- The invoice reader after `bob` attached the file to a second invoice. -/
def secondInvoice : World := ((FsEngine.attach "invoice" "2" "b" "bob").runOn invoiceReader).2

private theorem secondInvoice_announced :
    Announced [] [.attach "invoice" "2" "b"] invoiceReader secondInvoice := by
  have feed : Wal.Log invoiceReader.wal [] := ⟨.inr ⟨rfl, rfl⟩, by simp, by simp⟩
  obtain ⟨kv, appended, longer⟩ := feed.append_eq 0 (.attach "invoice" "2" "b")
  refine ⟨.cons (.attach (n := 2) (show invoiceMaster[FsStore.fileKey "b"]? = some (.file bobFile) from rfl)
    rfl (by decide)) .nil, rfl, rfl,
    [⟨1, .attach "invoice" "2" "b", 0⟩], ?_, rfl⟩
  have same : secondInvoice.wal = kv := by
    have written : Wal.append 0 (.attach "invoice" "2" "b") invoiceReader.wal =
        .ok (1, secondInvoice.wal) := rfl
    rw [written] at appended
    simpa using appended
  rw [same]
  exact longer

/-- After an attachment to a row that she may not read, `alice` still holds exactly her copy. -/
theorem replay_follows_attachment :
    SameData (((replay 1 "alice").runOn secondInvoice).2.replicas "alice") invoiceMaster := by
  refine (replay_files_iff invoiceMaster_regular secondInvoice_announced rfl
    (show ((copyFiltered 8 "alice").runOn invoiceReader).1 = .ok ([], invoiceMaster) from rfl)
    (sameData_covered _ 0) rfl
    (show (replay 1 "alice").runOn secondInvoice =
      (.ok (.advanced 1), ((replay 1 "alice").runOn secondInvoice).2) from rfl)
    (show ((copyFiltered 8 "alice").runOn secondInvoice).1 = .ok ([], invoiceMaster) from rfl)).mpr ?_
  refine followed_of_plain invoiceMaster_regular secondInvoice_announced.steps invoiceMaster_plain
    (by simp [PlainOp, show Text.Free ':' "invoice" ∧ Text.Free ':' "2" by decide]) ?_
  intro f seen _
  obtain ⟨rec, here⟩ := grants_held seen
  obtain ⟨same, -⟩ := invoiceMaster_held here
  obtain rfl := FsStore.fileKey_inj.mp same
  decide

end Snapshot

end RustApi
