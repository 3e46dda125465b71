import RustApi.Sync.Diff

/-!
# What a replay writes

An operation of the feed is replayed against the master and the policy as they are
now. What it does to the replica is a list of elementary writes (`Act`), a function
of the operation, the master and the policy (`opActs`); a window of the feed is the
concatenation of these lists. A file record or a marker is then decided by the last
write that concerns it, and kept when there is none.

## Main results

- `Performed`: the effect of a list of writes on the records and markers.
- `applyOp_ok`, `replay_ok`: a replay that returned performed the writes of its
  operations and nothing else, and left the head as its marker.
- `filtered_file`, `filtered_marker`: the filtered copy in the same terms.
-/

namespace RustApi

open Lib

namespace Snapshot

/-! ### The filter by file id -/

/-- Whether the filter shows file `f` to the subject. -/
def grants (M : Kv Value) (P : Policy) (sub f : String) : Bool :=
  match M[FsStore.fileKey f]? with
  | some (.file rec) => decide (rec.ownerSub = sub) ||
      !(visible P sub (FsStore.rowsForFile f M)).isEmpty
  | _ => false

/-- The record the filter shows for `f`. -/
def shown (M : Kv Value) (P : Policy) (sub f : String) : Option Value :=
  if grants M P sub f then M[FsStore.fileKey f]? else none

theorem run_canRead_ok {sub f : String} {w w' : World} {b : Bool}
    (h : (canRead sub f).runOn w = (.ok b, w')) :
    w' = w ∧ b = grants w.master w.enforcer.policy sub f := by
  rw [run_canRead, Prod.mk.injEq] at h
  obtain ⟨answer, rfl⟩ := h
  refine ⟨rfl, ?_⟩
  unfold FsStore.getFile at answer
  unfold grants
  split at answer
  · cases answer
  next found =>
    split at found
    next absent =>
      obtain rfl : false = b := by simpa using answer
      simp [absent]
    next rec here => simp at found
    · cases found
  next found =>
    split at found
    · cases found
    next rec here =>
      obtain rfl : rec = _ := by simpa using found
      simpa [here] using answer.symm
    · cases found

theorem grants_held {M : Kv Value} {P : Policy} {sub f : String} (seen : grants M P sub f = true) :
    ∃ rec, M[FsStore.fileKey f]? = some (.file rec) := by
  unfold grants at seen
  split at seen
  next rec here => exact ⟨rec, here⟩
  · cases seen

theorem grants_of_visible {M : Kv Value} {P : Policy} {sub f : String} {rec : FileRecord}
    {r : String × String} (here : M[FsStore.fileKey f]? = some (.file rec))
    (mem : r ∈ visible P sub (FsStore.rowsForFile f M)) : grants M P sub f = true := by
  have some_row : visible P sub (FsStore.rowsForFile f M) ≠ [] := List.ne_nil_of_mem mem
  simp [grants, here, some_row]

private theorem readable_eq_grants {M : Kv Value} {P : Policy} {sub : String} {rec : FileRecord}
    (here : M[FsStore.fileKey rec.id]? = some (.file rec)) :
    readable M P sub rec = grants M P sub rec.id := by
  simp [grants, here, readable]

private theorem shown_eq {M : Kv Value} (P : Policy) (sub : String) (own : OwnIds M) (f : String) :
    shown M P sub f = match M[FsStore.fileKey f]? with
      | some (.file rec) => if readable M P sub rec then some (.file rec) else none
      | _ => none := by
  rw [shown]
  cases here : M[FsStore.fileKey f]? with
  | none => simp
  | some v =>
    cases v with
    | file rec =>
      -- the copy writes a record under its own id, which is the key it came from
      obtain rfl : f = rec.id := FsStore.fileKey_inj.mp (own _ rec (FsStore.metaKey_fileKey f) here)
      simp only [readable_eq_grants here]
    | _ => simp [grants, here]

theorem filtered_file {M : Kv Value} {P : Policy} {sub : String} {D : Kv Value}
    (own : OwnIds M) (filtered : Filtered M P sub D) (f : String) :
    D[FsStore.fileKey f]? = shown M P sub f :=
  (filtered.file f).trans (shown_eq P sub own f).symm

/-- The marker names a file the filter shows and one of its rows that grants. -/
def Copied (M : Kv Value) (P : Policy) (sub k : String) : Prop :=
  ∃ f r, r ∈ visible P sub (FsStore.rowsForFile f M) ∧ grants M P sub f = true ∧
    Counted M f ∧ k = FsStore.relKey r.1 r.2 f

private theorem copied_iff {M : Kv Value} {P : Policy} {sub k : String} (own : OwnIds M) :
    Copied M P sub k ↔ ∃ rec, M[FsStore.fileKey rec.id]? = some (.file rec) ∧
      readable M P sub rec = true ∧ Counted M rec.id ∧
        ∃ r ∈ visible P sub (FsStore.rowsForFile rec.id M), k = FsStore.relKey r.1 r.2 rec.id := by
  constructor
  · rintro ⟨f, r, mem, seen, counted, same⟩
    obtain ⟨rec, here⟩ := grants_held seen
    obtain rfl : f = rec.id := FsStore.fileKey_inj.mp (own _ rec (FsStore.metaKey_fileKey f) here)
    exact ⟨rec, here, (readable_eq_grants here).trans seen, counted, r, mem, same⟩
  · rintro ⟨rec, here, seen, counted, r, mem, same⟩
    exact ⟨rec.id, r, mem, readable_eq_grants here ▸ seen, counted, same⟩

theorem filtered_marker {M : Kv Value} {P : Policy} {sub : String} {D : Kv Value}
    (own : OwnIds M) (filtered : Filtered M P sub D) {k : String} (hk : FsStore.IsMarker k) :
    k ∈ D ↔ Copied M P sub k := by
  rw [filtered.marker k hk, copied_iff own]

theorem filtered_iff {M : Kv Value} {P : Policy} {sub : String} {D : Kv Value} (own : OwnIds M) :
    Filtered M P sub D ↔ (∀ f, D[FsStore.fileKey f]? = shown M P sub f) ∧
      ∀ k, FsStore.IsMarker k → (k ∈ D ↔ Copied M P sub k) := by
  constructor
  · intro filtered
    exact ⟨filtered_file own filtered, fun k hk => filtered_marker own filtered hk⟩
  · rintro ⟨files, markers⟩
    exact ⟨fun f => (files f).trans (shown_eq P sub own f),
      fun k hk => (markers k hk).trans (copied_iff own)⟩

theorem copyFiltered_filtered {fuel : Nat} {sub : String} {undecodable : List String} {D : Kv Value}
    {w : World} (own : OwnIds w.master)
    (h : ((copyFiltered fuel sub).runOn w).1 = .ok (undecodable, D)) :
    Filtered w.master w.enforcer.policy sub D :=
  filterAll_filtered own (copyFiltered_ok (Prod.ext h rfl)).2

/-- The records and relation markers are the same. -/
structure SameData (a b : Kv Value) : Prop where
  file : ∀ f, a[FsStore.fileKey f]? = b[FsStore.fileKey f]?
  marker : ∀ k, FsStore.IsMarker k → (k ∈ a ↔ k ∈ b)

theorem Filtered.of_same {M : Kv Value} {P : Policy} {sub : String} {R D : Kv Value}
    (filtered : Filtered M P sub D) (same : SameData R D) : Filtered M P sub R :=
  ⟨fun f => (same.file f).trans (filtered.file f),
    fun k hk => (same.marker k hk).trans (filtered.marker k hk)⟩

/-- The filter says which records and markers a copy has. -/
theorem Filtered.same {M : Kv Value} {P : Policy} {sub : String} {A B : Kv Value}
    (left : Filtered M P sub A) (right : Filtered M P sub B) : SameData A B :=
  ⟨fun f => (left.file f).trans (right.file f).symm,
    fun k hk => (left.marker k hk).trans (right.marker k hk).symm⟩

/-- What the store's own writes keep true of the master: records sit under their own id, ids
    hold no separator, and a file with rows is counted. -/
structure Sound (M : Kv Value) : Prop where
  own : OwnIds M
  ids : ∀ f rec, M[FsStore.fileKey f]? = some (.file rec) → Text.Free ':' f
  counted : ∀ f rec, M[FsStore.fileKey f]? = some (.file rec) → FsStore.rowsForFile f M ≠ [] →
    Counted M f

theorem rowsForFile_free {M : Kv Value} {f : String} {r : String × String}
    (h : r ∈ FsStore.rowsForFile f M) : Text.Free ':' r.1 ∧ Text.Free ':' r.2 := by
  obtain ⟨k, -, -, row⟩ := FsStore.mem_rowsForFile.mp h
  obtain ⟨-, -, tyFree, ridFree⟩ := FsStore.markerRow_iff.mp row
  exact ⟨tyFree, ridFree⟩

/-- The markers of the copy, row by row. -/
theorem mem_copy_iff {M : Kv Value} {P : Policy} {sub f : String} {D : Kv Value}
    {r : String × String} (sound : Sound M) (filtered : Filtered M P sub D)
    {rec : FileRecord} (here : M[FsStore.fileKey f]? = some (.file rec)) (tyFree : Text.Free ':' r.1) :
    FsStore.relKey r.1 r.2 f ∈ D ↔
      r ∈ FsStore.rowsForFile f M ∧ P.authorizeRow sub r.1 r.2 .read = true := by
  rw [filtered_marker sound.own filtered (FsStore.isMarker_relKey _ _ _)]
  constructor
  · rintro ⟨g, q, mem, seen, -, same⟩
    obtain ⟨held, granted⟩ := List.mem_filter.mp mem
    obtain ⟨rec', there⟩ := grants_held seen
    -- equal keys are equal rows: none of the three parts holds a separator
    obtain ⟨first, second, rfl⟩ := (FsStore.relKey_inj tyFree (rowsForFile_free held).1
      (sound.ids f rec here) (sound.ids g rec' there)).mp same
    obtain rfl : r = q := Prod.ext first second
    exact ⟨held, granted⟩
  · rintro ⟨held, granted⟩
    have mem : r ∈ visible P sub (FsStore.rowsForFile f M) := List.mem_filter.mpr ⟨held, granted⟩
    exact ⟨f, r, mem, grants_of_visible here mem,
      sound.counted f rec here (List.ne_nil_of_mem held), rfl⟩

/-! ### Elementary writes -/

/-- One write of the replay code to the replica. -/
inductive Act where
  | drop (f : String)
  | save (rec : FileRecord)
  | mark (ty rid f : String)
  | unmark (ty rid f : String)
  deriving DecidableEq, Repr

namespace Act

/-- What the write makes of the record of `f`, if it concerns it. -/
def file (f : String) : Act → Option (Option Value)
  | .drop g => if g = f then some none else none
  | .save rec => if rec.id = f then some (some (.file rec)) else none
  | _ => none

/-- Whether the marker `k` is there after the write, if the write concerns it. -/
def marker (k : String) : Act → Option Bool
  | .drop g => if FsStore.MarkerOf g k then some false else none
  | .mark ty rid g => if k = FsStore.relKey ty rid g then some true else none
  | .unmark ty rid g => if k = FsStore.relKey ty rid g then some false else none
  | .save _ => none

end Act

/-- The verdict of the last write that has one. -/
def lastOf {α : Type} (verdict : Act → Option α) (acts : List Act) : Option α :=
  (acts.filterMap verdict).getLast?

section LastOf

variable {α : Type} {verdict : Act → Option α}

@[simp] theorem lastOf_nil : lastOf verdict [] = none := rfl

theorem lastOf_append (as bs : List Act) :
    lastOf verdict (as ++ bs) = (lastOf verdict bs).or (lastOf verdict as) := by
  simp only [lastOf, List.filterMap_append, List.getLast?_append]

@[simp] theorem lastOf_singleton (a : Act) : lastOf verdict [a] = verdict a := by
  cases h : verdict a <;> simp [lastOf, h]

theorem lastOf_eq_none {acts : List Act} :
    lastOf verdict acts = none ↔ ∀ a ∈ acts, verdict a = none := by
  simp [lastOf]

/-- The last verdict is one of the verdicts. -/
theorem lastOf_mem {acts : List Act} {x : α} (h : lastOf verdict acts = some x) :
    ∃ a ∈ acts, verdict a = some x := by
  have mem := List.mem_of_getLast? h
  simpa [List.mem_filterMap] using mem

end LastOf

/-- The replica `R'` is `R` after the writes, as far as records and markers go. -/
structure Performed (acts : List Act) (R R' : Kv Value) : Prop where
  file : ∀ f, R'[FsStore.fileKey f]? = (lastOf (Act.file f) acts).getD R[FsStore.fileKey f]?
  marker : ∀ k, FsStore.IsMarker k →
    (k ∈ R' ↔ (lastOf (Act.marker k) acts).getD (decide (k ∈ R)) = true)

namespace Performed

theorem nil (R : Kv Value) : Performed [] R R := ⟨fun _ => rfl, fun _ _ => by simp⟩

theorem append {as bs : List Act} {R R₁ R₂ : Kv Value} (first : Performed as R R₁)
    (second : Performed bs R₁ R₂) : Performed (as ++ bs) R R₂ := by
  refine ⟨fun f => ?_, fun k hk => ?_⟩
  · rw [second.file, first.file, lastOf_append]
    cases lastOf (Act.file f) bs <;> rfl
  · rw [second.marker k hk, lastOf_append]
    cases lastOf (Act.marker k) bs with
    | none => simp only [Option.getD_none, decide_eq_true_eq, Option.none_or, first.marker k hk]
    | some b => rfl

theorem cons {a : Act} {as : List Act} {R R₁ R₂ : Kv Value} (first : Performed [a] R R₁)
    (second : Performed as R₁ R₂) : Performed (a :: as) R R₂ := first.append second

end Performed

private theorem ne_applied_of_isMarker {k : String} (hk : FsStore.IsMarker k) : k ≠ appliedKey := by
  rintro rfl
  exact absurd hk (by decide)

theorem performed_drop (f : String) (R : Kv Value) : Performed [.drop f] R (FsStore.deleteFile f R) := by
  refine ⟨fun g => ?_, fun k hk => ?_⟩
  · -- a record key is no marker, so only the record itself can go
    have plain : ¬ FsStore.MarkerOf f (FsStore.fileKey g) := fun h =>
      FsStore.not_isMarker_fileKey g h.1
    rw [FsStore.get_deleteFile, lastOf_singleton, Act.file]
    by_cases same : f = g
    · simp [same]
    · simp [plain, same, Ne.symm same]
  · have other : k ≠ FsStore.fileKey f ∧ k ≠ FsStore.refsKey f :=
      ⟨(FsStore.ne_of_isMarker hk (FsStore.not_isMarker_fileKey f)).symm,
        (FsStore.ne_of_isMarker hk (FsStore.not_isMarker_refsKey f)).symm⟩
    rw [Kv.mem_iff_get, FsStore.get_deleteFile, lastOf_singleton, Act.marker]
    by_cases named : FsStore.MarkerOf f k
    · simp [named]
    · simp [named, other, Kv.mem_iff_get]

theorem performed_save (rec : FileRecord) (R : Kv Value) :
    Performed [.save rec] R (FsStore.saveFile rec R) := by
  refine ⟨fun g => ?_, fun k hk => ?_⟩
  · rw [FsStore.saveFile, Kv.get_insert, lastOf_singleton, Act.file]
    by_cases same : rec.id = g
    · simp [same]
    · simp [same]
  · have other := FsStore.ne_of_isMarker hk (FsStore.not_isMarker_fileKey rec.id)
    rw [Kv.mem_iff_get, FsStore.saveFile, Kv.get_insert, if_neg other, lastOf_singleton, Act.marker]
    simp [Kv.mem_iff_get]

theorem performed_mark {ty rid f : String} {R R' : Kv Value} {n : Nat}
    (h : FsStore.attach ty rid f R = .ok (n, R')) : Performed [.mark ty rid f] R R' := by
  refine ⟨fun g => ?_, fun k hk => ?_⟩
  · exact FsStore.get_attach_ok h (FsStore.fileKey_ne_refsKey g f) (FsStore.not_isMarker_fileKey g)
  · have other := (FsStore.ne_of_isMarker hk (FsStore.not_isMarker_refsKey f)).symm
    rw [FsStore.mem_attach_ok h other, lastOf_singleton, Act.marker]
    by_cases same : k = FsStore.relKey ty rid f
    · simp [same]
    · simp [same]

theorem performed_unmark {now : Int} {ty rid f : String} {R R' : Kv Value} {n : Nat}
    (h : FsStore.detach now ty rid f R = .ok (n, R')) : Performed [.unmark ty rid f] R R' := by
  have marker := FsStore.isMarker_relKey ty rid f
  refine ⟨fun g => ?_, fun k hk => ?_⟩
  · rw [FsStore.detach_ok h _ (FsStore.fileKey_ne_refsKey g f),
      if_neg (FsStore.ne_of_isMarker marker (FsStore.not_isMarker_fileKey g))]
    rfl
  · have other := (FsStore.ne_of_isMarker hk (FsStore.not_isMarker_refsKey f)).symm
    rw [Kv.mem_iff_get, FsStore.detach_ok h k other, lastOf_singleton, Act.marker]
    by_cases same : k = FsStore.relKey ty rid f
    · simp [same]
    · simp [same, Kv.mem_iff_get]

/-! ### The writes of an operation -/

/-- What `resync_file` writes for one file of a row. -/
def resyncActs (M : Kv Value) (P : Policy) (sub ty rid f : String) : List Act :=
  match M[FsStore.fileKey f]? with
  | some (.file rec) =>
    if grants M P sub f then
      [.save rec, if P.authorizeRow sub ty rid .read then .mark ty rid f else .unmark ty rid f]
    else [.drop f]
  -- no record, or one that does not decode
  | _ => [.drop f]

/-- The rows an operation makes the replay look at, under the policy in force. -/
def touchedRows (P : Policy) (sub : String) : WalOp → List (String × String)
  | .policyRuleAdd x obj act | .policyRuleRemove x obj act =>
    if Policy.isRead act = true ∧ (x = sub ∨ x ∈ P.implicitGroups sub) then
      (Policy.splitRowObj obj).toList
    else []
  | .groupAdd user group | .groupRemove user group =>
    if user = sub then P.readRowsForGroup group else []
  -- the rows of the group itself, whoever was in it
  | .groupDelete group => P.readRowsForGroup group
  | _ => []

/-- What the rows make it write, file by file. -/
def rowActs (M : Kv Value) (P : Policy) (sub : String) (rows : List (String × String)) : List Act :=
  rows.flatMap fun r => (FsStore.filesForRow r.1 r.2 M).flatMap (resyncActs M P sub r.1 r.2)

/-- Everything `apply_op` writes to the replica of `sub`. -/
def opActs (M : Kv Value) (P : Policy) (sub : String) : WalOp → List Act
  | .fileCreate rec => if grants M P sub rec.id then [.save rec] else []
  | .fileDelete f => [.drop f]
  | .attach ty rid f =>
    match M[FsStore.fileKey f]? with
    | some (.file rec) =>
      if grants M P sub f then
        .save rec :: if P.authorizeRow sub ty rid .read then [.mark ty rid f] else []
      else []
    | _ => []
  | .detach ty rid f => [.unmark ty rid f]
  -- the operations on the policy resync the rows they touch
  | op => rowActs M P sub (touchedRows P sub op)

/-! ### Runs -/

/-- Nothing but the replica of `sub` differs. -/
def OnlyReplica (sub : String) (w w' : World) : Prop :=
  w' = w.setFsStore (.replica sub) (w'.replicas sub)

namespace OnlyReplica

variable {sub : String} {w w₁ w₂ : World}

theorem refl (sub : String) (w : World) : OnlyReplica sub w w :=
  (World.setFsStore_fsStore w (.replica sub)).symm

theorem trans (first : OnlyReplica sub w w₁) (second : OnlyReplica sub w₁ w₂) :
    OnlyReplica sub w w₂ := by
  unfold OnlyReplica at *
  rw [second, first]
  simp [World.setFsStore]

theorem master (h : OnlyReplica sub w w₁) : w₁.master = w.master := by
  rw [h]
  rfl

theorem enforcer (h : OnlyReplica sub w w₁) : w₁.enforcer = w.enforcer := by
  rw [h]
  rfl

theorem wal (h : OnlyReplica sub w w₁) : w₁.wal = w.wal := by
  rw [h]
  rfl

theorem setFsStore (sub : String) (w : World) (R : Kv Value) :
    OnlyReplica sub w (w.setFsStore (.replica sub) R) := by
  simp [OnlyReplica, World.setFsStore]

end OnlyReplica

/-- From `w` to `w'` the writes `acts` were performed on the replica of `sub`, and nothing else
    was done. -/
structure Wrote (sub : String) (acts : List Act) (w w' : World) : Prop where
  only : OnlyReplica sub w w'
  performed : Performed acts (w.replicas sub) (w'.replicas sub)

theorem Wrote.nil (sub : String) (w : World) : Wrote sub [] w w :=
  ⟨OnlyReplica.refl sub w, Performed.nil _⟩

theorem Wrote.append {sub : String} {as bs : List Act} {w w₁ w₂ : World} (first : Wrote sub as w w₁)
    (second : Wrote sub bs w₁ w₂) : Wrote sub (as ++ bs) w w₂ :=
  ⟨first.only.trans second.only, first.performed.append second.performed⟩

theorem Wrote.cons {sub : String} {a : Act} {as : List Act} {w w₁ w₂ : World}
    (first : Wrote sub [a] w w₁) (second : Wrote sub as w₁ w₂) : Wrote sub (a :: as) w w₂ :=
  first.append second

/-- A store call on the replica performs what its effect on the store performs. -/
private theorem wrote_of_call {sub : String} {c : FsCall} {acts : List Act} {w w' : World}
    {a : c.Ans} (effect : ∀ R, (c.exec w.clock (w.replicas sub)) = (.ok a, R) →
      Performed acts (w.replicas sub) R)
    (h : (onStore (.replica sub) c).runOn w = (.ok a, w')) : Wrote sub acts w w' := by
  rw [run_onStore, Prod.mk.injEq] at h
  obtain ⟨answer, rfl⟩ := h
  refine ⟨by simp [OnlyReplica, World.setFsStore], ?_⟩
  have result := effect (c.exec w.clock (w.replicas sub)).2 (Prod.ext answer rfl)
  simpa [World.setFsStore, World.fsStore] using result

private theorem wrote_drop {sub f : String} {w w' : World}
    (h : (onStore (.replica sub) (.deleteFile f)).runOn w = (.ok (), w')) :
    Wrote sub [.drop f] w w' := by
  refine wrote_of_call (fun R effect => ?_) h
  obtain rfl : FsStore.deleteFile f (w.replicas sub) = R := congrArg Prod.snd effect
  exact performed_drop f _

private theorem wrote_save {sub : String} {rec : FileRecord} {w w' : World}
    (h : (onStore (.replica sub) (.saveFile rec)).runOn w = (.ok (), w')) :
    Wrote sub [.save rec] w w' := by
  refine wrote_of_call (fun R effect => ?_) h
  obtain rfl : FsStore.saveFile rec (w.replicas sub) = R := congrArg Prod.snd effect
  exact performed_save rec _

private theorem wrote_mark {sub ty rid f : String} {w w' : World} {n : Nat}
    (h : (onStore (.replica sub) (.attach ty rid f)).runOn w = (.ok n, w')) :
    Wrote sub [.mark ty rid f] w w' := by
  refine wrote_of_call (fun R effect => ?_) h
  simp only [FsCall.exec] at effect
  split at effect
  next count R₁ attached =>
    obtain ⟨-, rfl⟩ := Prod.mk.inj effect
    exact performed_mark attached
  · cases effect

private theorem wrote_unmark {sub ty rid f : String} {w w' : World} {n : Nat}
    (h : (onStore (.replica sub) (.detach ty rid f)).runOn w = (.ok n, w')) :
    Wrote sub [.unmark ty rid f] w w' := by
  refine wrote_of_call (fun R effect => ?_) h
  simp only [FsCall.exec] at effect
  split at effect
  next count R₁ detached =>
    obtain ⟨-, rfl⟩ := Prod.mk.inj effect
    exact performed_unmark detached
  · cases effect

/-- A record read from the master, with what the read says about its key. -/
private theorem getFile_ok {f : String} {w w₁ : World} {found : Option FileRecord}
    (h : (onStore .master (.getFile f)).runOn w = (.ok found, w₁)) :
    w₁ = w ∧ w.master[FsStore.fileKey f]? = found.map Value.file := by
  rw [run_getFile, Prod.mk.injEq] at h
  obtain ⟨answer, rfl⟩ := h
  refine ⟨rfl, ?_⟩
  unfold FsStore.getFile at answer
  split at answer
  next absent =>
    obtain rfl : none = found := by simpa using answer
    simpa using absent
  next rec here =>
    obtain rfl : some rec = found := by simpa using answer
    simpa using here
  · cases answer

private theorem resyncFile_ok {sub ty rid f : String} {w w' : World}
    (h : (resyncFile sub ty rid f).runOn w = (.ok (), w')) :
    Wrote sub (resyncActs w.master w.enforcer.policy sub ty rid f) w w' := by
  obtain ⟨found, w₁, read, rest⟩ := M.runOn_bind_ok h
  obtain ⟨rfl, held⟩ := getFile_ok read
  cases found with
  | none =>
    have acts : resyncActs w₁.master w₁.enforcer.policy sub ty rid f = [.drop f] := by
      simp [resyncActs, held]
    rw [acts]
    exact wrote_drop rest
  | some rec =>
    obtain ⟨seen, w₂, asked, rest⟩ := M.runOn_bind_ok rest
    obtain ⟨rfl, rfl⟩ := run_canRead_ok asked
    -- the branches of the source: refused, granted by the row, granted by another row
    by_cases readable : grants w₂.master w₂.enforcer.policy sub f = true
    · simp only [readable, not_true_eq_false, if_false] at rest
      obtain ⟨_, w₃, saved, rest⟩ := M.runOn_bind_ok rest
      have first := wrote_save saved
      rw [M.runOn_bind_of_ok (run_authorizer w₃), first.only.enforcer] at rest
      have acts : resyncActs w₂.master w₂.enforcer.policy sub ty rid f =
          [.save rec, if w₂.enforcer.policy.authorizeRow sub ty rid .read then .mark ty rid f
            else .unmark ty rid f] := by
        simp [resyncActs, held, readable]
      rw [acts]
      refine first.cons ?_
      by_cases granted : w₂.enforcer.policy.authorizeRow sub ty rid .read = true
      · rw [if_pos granted] at rest ⊢
        obtain ⟨_, w₄, marked, last⟩ := M.runOn_bind_ok rest
        obtain rfl : w₄ = w' := by simpa using last
        exact wrote_mark marked
      · rw [if_neg granted] at rest ⊢
        obtain ⟨_, w₄, unmarked, last⟩ := M.runOn_bind_ok rest
        obtain rfl : w₄ = w' := by simpa using last
        exact wrote_unmark unmarked
    · rw [if_pos readable] at rest
      have acts : resyncActs w₂.master w₂.enforcer.policy sub ty rid f = [.drop f] := by
        simp [resyncActs, held, readable]
      rw [acts]
      exact wrote_drop rest

private theorem resyncFiles_ok {sub ty rid : String} {files : List String} {w w' : World}
    (h : (resyncFiles sub ty rid files).runOn w = (.ok (), w')) :
    Wrote sub (files.flatMap (resyncActs w.master w.enforcer.policy sub ty rid)) w w' := by
  -- on the files: a resync leaves the master and the policy for the next one
  induction files generalizing w with
  | nil =>
    obtain rfl : w = w' := by simpa [resyncFiles] using h
    exact Wrote.nil sub w
  | cons f files ih =>
    obtain ⟨_, w₁, first, rest⟩ := M.runOn_bind_ok h
    have head := resyncFile_ok first
    have tail := ih rest
    rw [head.only.master, head.only.enforcer] at tail
    exact head.append tail

private theorem resyncRows_ok {sub : String} {rows : List (String × String)} {total : Nat}
    {w w' : World} (h : (resyncRows sub rows total).runOn w = (.ok .applied, w')) :
    Wrote sub (rowActs w.master w.enforcer.policy sub rows) w w' := by
  induction rows generalizing w total with
  | nil =>
    obtain rfl : w = w' := by simpa [resyncRows] using h
    exact Wrote.nil sub w
  | cons r rows ih =>
    obtain ⟨ty, rid⟩ := r
    have call : (onStore .master (.filesForRow ty rid)).runOn w =
        (.ok (FsStore.filesForRow ty rid w.master), w) := rfl
    rw [resyncRows, M.runOn_bind_of_ok call] at h
    split at h
    · simp at h
    · obtain ⟨_, w₁, first, rest⟩ := M.runOn_bind_ok h
      have head := resyncFiles_ok first
      have tail := ih rest
      rw [head.only.master, head.only.enforcer] at tail
      exact head.append tail

private theorem applyRuleOp_ok {sub x obj act : String} {w w' : World}
    (h : (applyRuleOp sub x obj act).runOn w = (.ok .applied, w')) :
    Wrote sub (rowActs w.master w.enforcer.policy sub
      (touchedRows w.enforcer.policy sub (.policyRuleAdd x obj act))) w w' := by
  unfold applyRuleOp at h
  simp only [touchedRows]
  by_cases read : Policy.isRead act = true
  · simp only [read, not_true_eq_false, if_false, true_and] at h ⊢
    cases row : Policy.splitRowObj obj with
    | none =>
      obtain rfl : w = w' := by simpa [row] using h
      simpa [rowActs] using Wrote.nil sub w
    | some r =>
      simp only [row] at h
      rw [M.runOn_bind_of_ok (run_authorizer w)] at h
      by_cases relevant : x = sub ∨ x ∈ w.enforcer.policy.implicitGroups sub
      · have kept : ¬ (x ≠ sub ∧ x ∉ w.enforcer.policy.implicitGroups sub) := by tauto
        rw [if_neg kept] at h
        rw [if_pos relevant]
        exact resyncRows_ok h
      · have skipped : x ≠ sub ∧ x ∉ w.enforcer.policy.implicitGroups sub := by tauto
        rw [if_pos skipped] at h
        obtain rfl : w = w' := by simpa using h
        rw [if_neg relevant]
        exact Wrote.nil sub w
  · obtain rfl : w = w' := by simpa [read] using h
    simpa [read, rowActs] using Wrote.nil sub w

private theorem applyMembershipOp_ok {sub user group : String} {w w' : World}
    (h : (applyMembershipOp sub user group).runOn w = (.ok .applied, w')) :
    Wrote sub (rowActs w.master w.enforcer.policy sub
      (touchedRows w.enforcer.policy sub (.groupAdd user group))) w w' := by
  unfold applyMembershipOp at h
  simp only [touchedRows]
  by_cases own : user = sub
  · rw [if_neg (by simpa using own), M.runOn_bind_of_ok (run_authorizer w)] at h
    rw [if_pos own]
    exact resyncRows_ok h
  · obtain rfl : w = w' := by simpa [own] using h
    rw [if_neg own]
    exact Wrote.nil sub w

private theorem applyGroupDelete_ok {sub group : String} {w w' : World}
    (h : (applyGroupDelete sub group).runOn w = (.ok .applied, w')) :
    Wrote sub (rowActs w.master w.enforcer.policy sub
      (touchedRows w.enforcer.policy sub (.groupDelete group))) w w' := by
  rw [applyGroupDelete, M.runOn_bind_of_ok (run_authorizer w)] at h
  simp only [touchedRows]
  by_cases none : w.enforcer.policy.readRowsForGroup group = []
  · obtain rfl : w = w' := by simpa [none] using h
    rw [none]
    exact Wrote.nil sub w
  · rw [if_neg none] at h
    exact resyncRows_ok h

private theorem fileCreate_ok {sub : String} {rec : FileRecord} {w w' : World}
    (h : (applyOp sub (.fileCreate rec)).runOn w = (.ok .applied, w')) :
    Wrote sub (opActs w.master w.enforcer.policy sub (.fileCreate rec)) w w' := by
  obtain ⟨seen, w₁, asked, rest⟩ := M.runOn_bind_ok h
  obtain ⟨rfl, rfl⟩ := run_canRead_ok asked
  by_cases readable : grants w₁.master w₁.enforcer.policy sub rec.id = true
  · rw [if_pos readable] at rest
    obtain ⟨_, w₂, saved, last⟩ := M.runOn_bind_ok rest
    obtain rfl : w₂ = w' := by simpa using last
    rw [opActs, if_pos readable]
    exact wrote_save saved
  · rw [if_neg readable] at rest
    obtain rfl : w₁ = w' := by simpa using rest
    rw [opActs, if_neg readable]
    exact Wrote.nil sub w₁

private theorem attachOp_ok {sub ty rid f : String} {w w' : World}
    (h : (applyOp sub (.attach ty rid f)).runOn w = (.ok .applied, w')) :
    Wrote sub (opActs w.master w.enforcer.policy sub (.attach ty rid f)) w w' := by
  obtain ⟨found, w₁, read, rest⟩ := M.runOn_bind_ok h
  obtain ⟨rfl, held⟩ := getFile_ok read
  cases found with
  | none =>
    obtain rfl : w₁ = w' := by simpa using rest
    simpa [opActs, held] using Wrote.nil sub w₁
  | some rec =>
    obtain ⟨seen, w₂, asked, rest⟩ := M.runOn_bind_ok rest
    obtain ⟨rfl, rfl⟩ := run_canRead_ok asked
    by_cases readable : grants w₂.master w₂.enforcer.policy sub f = true
    · rw [if_pos readable] at rest
      obtain ⟨_, w₃, saved, rest⟩ := M.runOn_bind_ok rest
      have first := wrote_save saved
      rw [M.runOn_bind_of_ok (run_authorizer w₃), first.only.enforcer] at rest
      have acts : opActs w₂.master w₂.enforcer.policy sub (.attach ty rid f) =
          .save rec :: if w₂.enforcer.policy.authorizeRow sub ty rid .read then [.mark ty rid f]
            else [] := by
        simp [opActs, held, readable]
      rw [acts]
      refine first.cons ?_
      by_cases granted : w₂.enforcer.policy.authorizeRow sub ty rid .read = true
      · rw [if_pos granted] at rest ⊢
        obtain ⟨_, w₄, marked, last⟩ := M.runOn_bind_ok rest
        obtain rfl : w₄ = w' := by simpa using last
        exact wrote_mark marked
      · rw [if_neg granted] at rest ⊢
        obtain rfl : w₃ = w' := by simpa using rest
        exact Wrote.nil sub w₃
    · rw [if_neg readable] at rest
      obtain rfl : w₂ = w' := by simpa using rest
      simpa [opActs, held, readable] using Wrote.nil sub w₂

/-- An operation that was applied performed exactly its writes. -/
theorem applyOp_ok {sub : String} {op : WalOp} {w w' : World}
    (h : (applyOp sub op).runOn w = (.ok .applied, w')) :
    Wrote sub (opActs w.master w.enforcer.policy sub op) w w' := by
  cases op with
  | policyAdd obj => simp [applyOp] at h
  | policyRemove obj => simp [applyOp] at h
  | policyRuleAdd x obj act => exact applyRuleOp_ok h
  | policyRuleRemove x obj act => exact applyRuleOp_ok h
  | groupAdd user group => exact applyMembershipOp_ok h
  | groupRemove user group => exact applyMembershipOp_ok h
  | groupDelete group => exact applyGroupDelete_ok h
  | attach ty rid f => exact attachOp_ok h
  | detach ty rid f =>
    obtain ⟨_, w₁, unmarked, last⟩ := M.runOn_bind_ok h
    obtain rfl : w₁ = w' := by simpa using last
    exact wrote_unmark unmarked
  | fileCreate rec => exact fileCreate_ok h
  | fileDelete f =>
    obtain ⟨_, w₁, dropped, last⟩ := M.runOn_bind_ok h
    obtain rfl : w₁ = w' := by simpa using last
    exact wrote_drop dropped

private theorem applyEntries_ok {sub : String} {entries : List WalEntry} {w w' : World}
    (h : (applyEntries sub entries).runOn w = (.ok .applied, w')) :
    Wrote sub (entries.flatMap fun e => opActs w.master w.enforcer.policy sub e.op) w w' := by
  -- on the entries: each finds the master and the policy of the start
  induction entries generalizing w with
  | nil =>
    obtain rfl : w = w' := by simpa [applyEntries] using h
    exact Wrote.nil sub w
  | cons e entries ih =>
    obtain ⟨outcome, w₁, first, rest⟩ := M.runOn_bind_ok h
    cases outcome with
    | needsFullRebuild => simp at rest
    | applied =>
      have head := applyOp_ok first
      have tail := ih rest
      rw [head.only.master, head.only.enforcer] at tail
      exact head.append tail

private theorem performed_setBytes {acts : List Act} {R R₁ : Kv Value} (head : Nat)
    (h : Performed acts R R₁) : Performed acts R (R₁.insert appliedKey (.applied head)) := by
  refine ⟨fun f => ?_, fun k hk => ?_⟩
  · rw [Kv.get_insert, if_neg (appliedKey_ne_fileKey f), h.file]
  · rw [Kv.mem_iff_get, Kv.get_insert, if_neg (ne_applied_of_isMarker hk).symm, ← Kv.mem_iff_get,
      h.marker k hk]

/-- A replay that advanced has performed the writes of the window between the old marker and
    the head, and moved the marker to the head. -/
theorem replay_ok {sub : String} {head n : Nat} {w w' : World} {entries : List WalEntry}
    (log : Wal.Log w.wal entries) (inside : head ≤ entries.length)
    (h : (replay head sub).runOn w = (.ok (.advanced n), w')) :
    ∃ applied, coverage (w.replicas sub) = some applied ∧ applied ≤ head ∧
      Wrote sub (((entries.drop applied).take (head - applied)).flatMap fun e =>
        opActs w.master w.enforcer.policy sub e.op) w w' ∧
      coverage (w'.replicas sub) = some head := by
  rw [replay, M.runOn_bind_of_ok (run_loadApplied sub w)] at h
  cases marker : coverage (w.replicas sub) with
  | none => simp [marker] at h
  | some applied =>
    simp only [marker] at h
    split at h
    · simp at h
    next behind =>
      split at h
      next current =>
        obtain ⟨rfl, rfl⟩ : applied = n ∧ w = w' := by simpa using h
        subst current
        exact ⟨applied, rfl, le_rfl, by simpa using Wrote.nil sub w, marker⟩
      next stale =>
        have order : applied < head := by omega
        -- the range of the feed that the marker does not cover
        have window : (onWal (.range (applied + 1) head)).runOn w =
            (.ok ((entries.drop applied).take (head - applied)), w) := by
          rw [run_walRange, log.range_eq order inside]
        rw [M.runOn_bind_of_ok window] at h
        split at h
        · simp at h
        · obtain ⟨outcome, w₁, ran, rest⟩ := M.runOn_bind_ok h
          cases outcome with
          | needsFullRebuild => simp at rest
          | applied =>
            have wrote := applyEntries_ok ran
            obtain ⟨_, w₂, advanced, last⟩ := M.runOn_bind_ok rest
            obtain ⟨rfl, rfl⟩ : head = n ∧ w₂ = w' := by simpa using last
            -- the marker is written behind everything else
            have moved : w₂ = w₁.setFsStore (.replica sub)
                ((w₁.replicas sub).insert appliedKey (.applied head)) :=
              (congrArg Prod.snd advanced).symm
            have replica : w₂.replicas sub =
                (w₁.replicas sub).insert appliedKey (.applied head) := by
              rw [moved]
              simp [World.setFsStore]
            refine ⟨applied, rfl, order.le, ⟨wrote.only.trans ?_, ?_⟩, ?_⟩
            · rw [OnlyReplica, replica]
              exact moved
            · rw [replica]
              exact performed_setBytes head wrote.performed
            · rw [replica, coverage_eq_some, Kv.get_insert, if_pos rfl]

end Snapshot

end RustApi
