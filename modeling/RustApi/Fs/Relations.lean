import RustApi.Fs.Refs
import RustApi.Sync.Access

/-!
# The relation index

`attach` and `detach` keep one marker per file and row, under a key that joins the row
and the file with separators; `rows_for_file` and `files_for_row` read the rows and the
files back out of the keys. The names of a row are free text.

## Main results

- `IndexCall.run_cases`: a call that returns did what it says to the markers, and one
  that fails changed none of them.
- `index_faithful_iff`: over a run of calls, the index tells exactly what is attached in
  every state exactly when no accepted attach put a separator into the names of a row
  (or left the file unnamed).
-/

namespace RustApi

open Lib

/-- A call of the engine that changes relations. -/
inductive IndexCall where
  | attach (rowType rowId fileId callerSub : String)
  | detach (rowType rowId fileId callerSub : String)
  deriving DecidableEq, Repr

/-- A row and a file. -/
structure Relation where
  rowType : String
  rowId : String
  fileId : String
  deriving DecidableEq, Repr

namespace Relation

def key (t : Relation) : String := FsStore.relKey t.rowType t.rowId t.fileId

/-- The names of the row hold no separator and the file has a name. -/
def Plain (t : Relation) : Prop :=
  Text.Free ':' t.rowType ∧ Text.Free ':' t.rowId ∧ t.fileId ≠ ""

instance (t : Relation) : Decidable t.Plain := inferInstanceAs (Decidable (_ ∧ _))

end Relation

namespace IndexCall

def prog : IndexCall → M Nat
  | .attach rowType rowId fileId callerSub => FsEngine.attach rowType rowId fileId callerSub
  | .detach rowType rowId fileId callerSub => FsEngine.detach rowType rowId fileId callerSub

def relation : IndexCall → Relation
  | .attach rowType rowId fileId _ | .detach rowType rowId fileId _ => ⟨rowType, rowId, fileId⟩

/-- What is attached once the call has returned. -/
def effect (attached : List Relation) : IndexCall → List Relation
  | .attach rowType rowId fileId _ => ⟨rowType, rowId, fileId⟩ :: attached
  | .detach rowType rowId fileId _ => attached.filter (· ≠ ⟨rowType, rowId, fileId⟩)

end IndexCall

/-- The world and what is attached in it, after one call. -/
def indexStep (s : World × List Relation) (c : IndexCall) : World × List Relation :=
  match c.prog.runOn s.1 with
  | (.ok _, w') => (w', c.effect s.2)
  | (.error _, w') => (w', s.2)

def indexRun (cs : List IndexCall) (w : World) : World × List Relation :=
  cs.foldl indexStep (w, [])

/-- The relations that the engine accepted to attach along the run. -/
def Accepted (cs : List IndexCall) (w : World) (t : Relation) : Prop :=
  ∃ past callerSub n, past ++ [.attach t.rowType t.rowId t.fileId callerSub] <+: cs ∧
    ((FsEngine.attach t.rowType t.rowId t.fileId callerSub).runOn (indexRun past w).1).1 = .ok n

/-- What `can_access` should decide from the rows a file is attached to. -/
def Granted (attached : List Relation) (P : Policy) (sub : String) (act : Action)
    (rec : FileRecord) : Prop :=
  (∀ t ∈ attached, t.fileId ≠ rec.id) ∧ rec.ownerSub = sub ∨
    ∃ t ∈ attached, t.fileId = rec.id ∧ P.authorizeRow sub t.rowType t.rowId act = true

/-- The scans return exactly the attached relations, no two of them share a key, and the access
    check asks about the rows the file is attached to. -/
structure Faithful (w : World) (attached : List Relation) : Prop where
  rows : ∀ f, Text.Free ':' f → ∀ r,
    r ∈ FsStore.rowsForFile f w.master ↔ (⟨r.1, r.2, f⟩ : Relation) ∈ attached
  files : ∀ ty rid f, f ∈ FsStore.filesForRow ty rid w.master ↔ (⟨ty, rid, f⟩ : Relation) ∈ attached
  keys : ∀ t ∈ attached, ∀ t' ∈ attached, t.key = t'.key → t = t'
  access : ∀ sub act rec, Text.Free ':' rec.id →
    FsStore.getFile rec.id w.master = .ok (some rec) →
    (((FsEngine.canAccess sub rec.id act).runOn w).1 = .ok true ↔
      Granted attached w.enforcer.policy sub act rec)

/-! ### One call -/

theorem run_requireWrite (sub ty rid : String) (w : World) :
    (FsEngine.requireWrite sub ty rid).runOn w =
      (if w.enforcer.policy.authorizeRow sub ty rid .write then .ok ()
        else .error (.fs .forbidden), w) := by
  rw [FsEngine.requireWrite, M.runOn_bind_of_ok (run_authorizer w)]
  split
  · rfl
  · rfl

theorem run_announce {w : World} {entries : List WalEntry} (log : Wal.Log w.wal entries)
    (op : WalOp) : ∃ kv, (FsEngine.announce op).runOn w = (.ok (), { w with wal := kv }) ∧
      Wal.Log kv (entries ++ [⟨entries.length + 1, op, w.clock⟩]) := by
  obtain ⟨kv, written, log'⟩ := log.append_eq w.clock op
  refine ⟨kv, ?_, log'⟩
  change Call.exec (.wal (.append op)) w = _
  simp [Call.exec, WalCall.exec, written]

/-- The write of a call on the store. -/
def IndexCall.write (now : Int) : IndexCall → Kv Value → Except Error (Nat × Kv Value)
  | .attach ty rid f _, kv => FsStore.attach ty rid f kv
  | .detach ty rid f _, kv => FsStore.detach now ty rid f kv

/-- Once the write is done, the announcement follows and the count is answered. -/
private theorem run_then_announce {p : M Nat} {w w₁ : World} {n : Nat} {entries : List WalEntry}
    (ran : p.runOn w = (.ok n, w₁)) (log : Wal.Log w₁.wal entries) (op : WalOp) :
    ∃ w', (do let count ← p; let _ ← FsEngine.announce op; pure count : M Nat).runOn w =
        (.ok n, w') ∧ w'.enforcer = w₁.enforcer ∧ w'.master = w₁.master ∧
      ∃ entries', Wal.Log w'.wal entries' := by
  obtain ⟨kv, announced, log'⟩ := run_announce log op
  refine ⟨{ w₁ with wal := kv }, ?_, rfl, rfl, _, log'⟩
  rw [M.runOn_bind_of_ok ran, M.runOn_bind_of_ok announced]
  rfl

/-- With a feed that takes appends, a call that returns did its write, and one that fails left
    the store as it was. -/
theorem IndexCall.run_cases (c : IndexCall) {w : World} {entries : List WalEntry}
    (log : Wal.Log w.wal entries) :
    ∃ r w', c.prog.runOn w = (r, w') ∧ w'.enforcer = w.enforcer ∧
      (∃ entries', Wal.Log w'.wal entries') ∧
      ((∃ n, r = .ok n ∧ c.write w.clock w.master = .ok (n, w'.master)) ∨
        (∃ e, r = .error e) ∧ w'.master = w.master) := by
  -- a refusal before the first write leaves the world as it was
  have refused : ∀ {p : M Unit} {f : Unit → M Nat} {e : Error}, p.runOn w = (.error e, w) →
      ∃ r w', (p >>= f).runOn w = (r, w') ∧ w'.enforcer = w.enforcer ∧
        (∃ entries', Wal.Log w'.wal entries') ∧
        ((∃ n, r = .ok n ∧ c.write w.clock w.master = .ok (n, w'.master)) ∨
          (∃ e, r = .error e) ∧ w'.master = w.master) := by
    intro p f e failed
    exact ⟨_, w, M.runOn_bind_of_error failed, rfl, ⟨_, log⟩, .inr ⟨⟨_, rfl⟩, rfl⟩⟩
  cases c with
  | attach ty rid f sub =>
    have asked := run_requireWrite sub ty rid w
    by_cases granted : w.enforcer.policy.authorizeRow sub ty rid .write = true
    swap
    · rw [if_neg granted] at asked
      exact refused asked
    rw [if_pos granted] at asked
    change ∃ r w', (FsEngine.attach ty rid f sub).runOn w = _ ∧ _
    rw [FsEngine.attach, M.runOn_bind_of_ok asked]
    have looked := Snapshot.run_getFile f w
    cases found : FsStore.getFile f w.master with
    | error e =>
      rw [found] at looked
      rw [M.runOn_bind_of_error looked]
      exact ⟨_, _, rfl, rfl, ⟨_, log⟩, .inr ⟨⟨_, rfl⟩, rfl⟩⟩
    | ok file =>
      rw [found] at looked
      rw [M.runOn_bind_of_ok looked]
      cases file with
      | none => exact ⟨_, _, rfl, rfl, ⟨_, log⟩, .inr ⟨⟨_, rfl⟩, rfl⟩⟩
      | some rec =>
        cases wrote : FsStore.attach ty rid f w.master with
        | error e =>
          have ran : (onStore .master (.attach ty rid f)).runOn w = (.error e, w) :=
            (run_onStore .master (.attach ty rid f) w).trans
              (by simp [FsCall.exec, World.fsStore, wrote, World.setFsStore])
          rw [M.runOn_bind_of_error ran]
          exact ⟨_, _, rfl, rfl, ⟨_, log⟩, .inr ⟨⟨_, rfl⟩, rfl⟩⟩
        | ok done =>
          have ran : (onStore .master (.attach ty rid f)).runOn w =
              (.ok done.1, { w with master := done.2 }) :=
            (run_onStore .master (.attach ty rid f) w).trans
              (by simp [FsCall.exec, World.fsStore, wrote, World.setFsStore])
          -- the write is done; what follows only announces it
          obtain ⟨w', ran', same, stored, log'⟩ := run_then_announce ran log (.attach ty rid f)
          exact ⟨_, w', ran', same, log', .inl ⟨done.1, rfl, by rw [stored]; exact wrote⟩⟩
  | detach ty rid f sub =>
    have asked := run_requireWrite sub ty rid w
    by_cases granted : w.enforcer.policy.authorizeRow sub ty rid .write = true
    swap
    · rw [if_neg granted] at asked
      exact refused asked
    rw [if_pos granted] at asked
    change ∃ r w', (FsEngine.detach ty rid f sub).runOn w = _ ∧ _
    rw [FsEngine.detach, M.runOn_bind_of_ok asked]
    cases wrote : FsStore.detach w.clock ty rid f w.master with
    | error e =>
      have ran : (onStore .master (.detach ty rid f)).runOn w = (.error e, w) :=
        (run_onStore .master (.detach ty rid f) w).trans
          (by simp [FsCall.exec, World.fsStore, wrote, World.setFsStore])
      rw [M.runOn_bind_of_error ran]
      exact ⟨_, _, rfl, rfl, ⟨_, log⟩, .inr ⟨⟨_, rfl⟩, rfl⟩⟩
    | ok done =>
      have ran : (onStore .master (.detach ty rid f)).runOn w =
          (.ok done.1, { w with master := done.2 }) :=
        (run_onStore .master (.detach ty rid f) w).trans
          (by simp [FsCall.exec, World.fsStore, wrote, World.setFsStore])
      obtain ⟨w', ran', same, stored, log'⟩ := run_then_announce ran log (.detach ty rid f)
      exact ⟨_, w', ran', same, log', .inl ⟨done.1, rfl, by rw [stored]; exact wrote⟩⟩

/-! ### Plain names -/

/-- A key made of plain names is the key of one relation, among all with a proper file id. -/
theorem Relation.eq_of_key {t t' : Relation} (plain : t.Plain) (free : Text.Free ':' t.fileId)
    (free' : Text.Free ':' t'.fileId) (same : t'.key = t.key) : t' = t := by
  obtain ⟨ty, rid, f⟩ := t
  obtain ⟨ty', rid', f'⟩ := t'
  simp only [key, FsStore.relKey] at same
  obtain ⟨rows, rfl⟩ := Text.append_sep_inj_right free' free same
  simp only [String.append_assoc, String.append_right_inj] at rows
  simp only [← String.append_assoc] at rows
  obtain ⟨rfl, rfl⟩ := Text.append_sep_inj_of_free plain.1 plain.2.1 rows
  rfl

/-- The markers of the store are the keys of the attached relations, all of them plain. -/
structure Indexed (kv : Kv Value) (attached : List Relation) : Prop where
  plain : ∀ t ∈ attached, t.Plain ∧ Text.Free ':' t.fileId
  marked : ∀ k, FsStore.IsMarker k → (k ∈ kv ↔ ∃ t ∈ attached, k = t.key)

namespace Indexed

variable {kv kv' : Kv Value} {attached : List Relation}

theorem mem_key_iff (index : Indexed kv attached) {t : Relation} (free : Text.Free ':' t.fileId) :
    t.key ∈ kv ↔ t ∈ attached := by
  rw [index.marked t.key (FsStore.isMarker_relKey _ _ _)]
  constructor
  · rintro ⟨t', mem, same⟩
    obtain ⟨plain, free'⟩ := index.plain t' mem
    rwa [Relation.eq_of_key plain free' free same]
  · intro mem
    exact ⟨t, mem, rfl⟩

theorem plainMarkers (index : Indexed kv attached) : FsStore.PlainMarkers kv := by
  intro k mem hk
  obtain ⟨t, held, rfl⟩ := (index.marked k hk).mp mem
  obtain ⟨plain, free⟩ := index.plain t held
  exact ⟨t.rowType, t.rowId, t.fileId, plain.1, plain.2.1, free, rfl⟩

theorem attach {ty rid f : String} {n : Nat} (index : Indexed kv attached)
    (done : FsStore.attach ty rid f kv = .ok (n, kv')) (plain : Relation.Plain ⟨ty, rid, f⟩)
    (free : Text.Free ':' f) : Indexed kv' (⟨ty, rid, f⟩ :: attached) := by
  refine ⟨fun t mem => ?_, fun k hk => ?_⟩
  · rcases List.mem_cons.mp mem with rfl | old
    · exact ⟨plain, free⟩
    · exact index.plain t old
  · rw [FsStore.mem_attach_ok done
      (FsStore.ne_of_isMarker hk (FsStore.not_isMarker_refsKey f)).symm, index.marked k hk]
    simp only [List.exists_mem_cons_iff]
    exact or_comm

theorem detach {now : Int} {ty rid f : String} {n : Nat} (index : Indexed kv attached)
    (done : FsStore.detach now ty rid f kv = .ok (n, kv')) (free : Text.Free ':' f) :
    Indexed kv' (attached.filter (· ≠ ⟨ty, rid, f⟩)) := by
  refine ⟨fun t mem => index.plain t (List.mem_filter.mp mem).1, fun k hk => ?_⟩
  have gone := FsStore.detach_ok done k
    (FsStore.ne_of_isMarker hk (FsStore.not_isMarker_refsKey f)).symm
  have here : k ∈ kv' ↔ k ≠ FsStore.relKey ty rid f ∧ k ∈ kv := by
    rw [Kv.mem_iff_get, gone, Kv.mem_iff_get]
    split
    next same => simp [same]
    next other => simp [other]
  rw [here, index.marked k hk]
  simp only [List.mem_filter, decide_eq_true_eq]
  constructor
  · rintro ⟨other, t, mem, rfl⟩
    refine ⟨t, ⟨mem, ?_⟩, rfl⟩
    rintro rfl
    exact other rfl
  · rintro ⟨t, ⟨mem, other⟩, rfl⟩
    refine ⟨fun same => other ?_, t, mem, rfl⟩
    obtain ⟨plain, free'⟩ := index.plain t mem
    have key : Relation.key ⟨ty, rid, f⟩ = t.key := same.symm
    exact (Relation.eq_of_key plain free' free key).symm

/-- Plain names are read back as they were written. -/
theorem faithful {w : World} (index : Indexed w.master attached) : Faithful w attached := by
  -- with plain names a key stands for one relation
  have rows : ∀ f, Text.Free ':' f → ∀ r,
      r ∈ FsStore.rowsForFile f w.master ↔ (⟨r.1, r.2, f⟩ : Relation) ∈ attached := by
    intro f free r
    rw [FsStore.mem_rows_iff index.plainMarkers free]
    have key := index.mem_key_iff (t := ⟨r.1, r.2, f⟩) free
    constructor
    · exact fun h => key.mp h.2.2
    · intro mem
      obtain ⟨plain, -⟩ := index.plain _ mem
      exact ⟨plain.1, plain.2.1, key.mpr mem⟩
  refine ⟨rows, fun ty rid f => ?_, fun t mem t' mem' same => ?_, fun sub act rec free found => ?_⟩
  · rw [FsStore.mem_filesForRow]
    constructor
    · rintro ⟨held, -, free⟩
      exact (index.mem_key_iff (t := ⟨ty, rid, f⟩) free).mp held
    · intro mem
      obtain ⟨plain, free⟩ := index.plain _ mem
      exact ⟨(index.mem_key_iff (t := ⟨ty, rid, f⟩) free).mpr mem, plain.2.2, free⟩
  · obtain ⟨plain', free'⟩ := index.plain t' mem'
    exact Relation.eq_of_key plain' free' (index.plain t mem).2 same
  · -- a file without rows is its owner's; the others are decided by their rows
    rw [FsEngine.run_canAccess act rfl found]
    simp only [FsEngine.accessible, Except.ok.injEq, Granted]
    by_cases none : FsStore.rowsForFile rec.id w.master = []
    · have unattached : ∀ t ∈ attached, t.fileId ≠ rec.id := by
        rintro t mem same
        have : (t.rowType, t.rowId) ∈ FsStore.rowsForFile rec.id w.master :=
          (rows _ free _).mpr (same ▸ mem)
        rw [none] at this
        cases this
      simp only [none, List.isEmpty_nil, if_true, decide_eq_true_eq]
      constructor
      · exact fun owner => .inl ⟨unattached, owner⟩
      · rintro (⟨-, owner⟩ | ⟨t, mem, same, -⟩)
        · exact owner
        · exact absurd same (unattached t mem)
    · have some : (FsStore.rowsForFile rec.id w.master).isEmpty = false := by
        simpa [List.isEmpty_iff] using none
      simp only [some, Bool.false_eq_true, if_false, List.any_eq_true]
      constructor
      · rintro ⟨r, mem, granted⟩
        exact .inr ⟨_, (rows _ free r).mp mem, rfl, granted⟩
      · rintro (⟨unattached, -⟩ | ⟨t, mem, same, granted⟩)
        · obtain ⟨r, mem⟩ := List.exists_mem_of_ne_nil _ none
          exact absurd rfl (unattached _ ((rows _ free r).mp mem))
        · exact ⟨(t.rowType, t.rowId), (rows _ free _).mpr (same ▸ mem), granted⟩

end Indexed

/-! ### Runs -/

theorem indexRun_concat (past : List IndexCall) (c : IndexCall) (w : World) :
    indexRun (past ++ [c]) w = indexStep (indexRun past w) c := by
  simp [indexRun]

/-- While all accepted rows are plain, the store is indexed by what is attached. -/
theorem indexed_run {w : World} {entries : List WalEntry} (log : Wal.Log w.wal entries)
    (fresh : ∀ k ∈ w.master, ¬ FsStore.IsMarker k) {cs : List IndexCall}
    (ids : ∀ c ∈ cs, Text.Free ':' c.relation.fileId)
    (plain : ∀ t, Accepted cs w t → t.Plain) {past : List IndexCall} (isPast : past <+: cs) :
    (∃ entries', Wal.Log (indexRun past w).1.wal entries') ∧
      Indexed (indexRun past w).1.master (indexRun past w).2 := by
  induction past using List.reverseRecOn with
  | nil =>
    refine ⟨⟨_, log⟩, fun t mem => absurd mem (List.not_mem_nil), fun k hk => ?_⟩
    exact ⟨fun mem => absurd hk (fresh k mem), fun ⟨t, mem, _⟩ => absurd mem (List.not_mem_nil)⟩
  | append_singleton past c ih =>
    obtain ⟨⟨entries', log'⟩, index⟩ := ih ((List.prefix_append _ _).trans isPast)
    have free := ids c (isPast.subset (by simp))
    obtain ⟨r, w', ran, -, log'', effect⟩ := c.run_cases log'
    rw [indexRun_concat, indexStep, ran]
    rcases effect with ⟨n, rfl, wrote⟩ | ⟨⟨e, rfl⟩, same⟩
    · refine ⟨log'', ?_⟩
      cases c with
      | attach ty rid f sub =>
        -- a write that was done is one that the whole run accepts, hence plain
        have accepted : Accepted cs w ⟨ty, rid, f⟩ :=
          ⟨past, sub, n, isPast, congrArg Prod.fst ran⟩
        exact index.attach wrote (plain _ accepted) free
      | detach ty rid f sub => exact index.detach wrote free
    · exact ⟨log'', same ▸ index⟩

/-- Rows come back without a separator, so a faithful index has plain rows only. -/
theorem Faithful.plain {w : World} {attached : List Relation} (faithful : Faithful w attached)
    {t : Relation} (free : Text.Free ':' t.fileId) (mem : t ∈ attached) : t.Plain := by
  obtain ⟨k, -, -, row⟩ := FsStore.mem_rowsForFile.mp
    ((faithful.rows t.fileId free (t.rowType, t.rowId)).mpr mem)
  obtain ⟨rest, -, tyFree, ridFree⟩ := FsStore.markerRow_iff.mp row
  have named := (FsStore.mem_filesForRow.mp ((faithful.files t.rowType t.rowId t.fileId).mpr mem)).2.1
  exact ⟨tyFree, ridFree, named⟩

/-- From a store without relations, over any run of attach and detach calls, the index is
    faithful in every state exactly when the accepted rows are plain. -/
theorem index_faithful_iff {w : World} {entries : List WalEntry} (log : Wal.Log w.wal entries)
    (fresh : ∀ k ∈ w.master, ¬ FsStore.IsMarker k) (cs : List IndexCall)
    (ids : ∀ c ∈ cs, Text.Free ':' c.relation.fileId) :
    (∀ past, past <+: cs → Faithful (indexRun past w).1 (indexRun past w).2) ↔
      ∀ t, Accepted cs w t → t.Plain := by
  constructor
  · rintro faithful ⟨ty, rid, f⟩ ⟨past, sub, n, isPast, returned⟩
    have free := ids _ (isPast.subset (List.mem_append_right _ (List.mem_singleton_self _)))
    refine (faithful _ isPast).plain free ?_
    rw [indexRun_concat, indexStep]
    split
    · exact List.mem_cons_self
    next e w' ran =>
      rw [show IndexCall.prog _ = FsEngine.attach ty rid f sub from rfl] at ran
      rw [ran] at returned
      cases returned
  · intro plain past isPast
    exact (indexed_run log fresh ids plain isPast).2.faithful

/-- `alice`'s file; `bob` may write the rows `order:7:draft` and `order:7`, and `carol` may read
    the row `order:7`. -/
def orderWorld : World :=
  { World.init (fun _ => "id") with
    master := (∅ : Kv Value).insert (FsStore.fileKey "f")
      (.file ⟨"f", "scan.pdf", "application/pdf", 4, "files/f", "alice", 1⟩)
    enforcer := ⟨∅, ⟨[⟨"bob", "order:7:draft", "write"⟩, ⟨"bob", "order:7", "write"⟩,
      ⟨"carol", "order:7", "read"⟩], []⟩⟩ }

/-- A row id with a separator is read back cut short: the file was attached to `7:draft`, the
    index says `7`, and whoever may read that other row gets the file. -/
theorem index_misreads_row :
    ((FsEngine.attach "order" "7:draft" "f" "bob").runOn orderWorld).1 = .ok 1 ∧
      FsStore.rowsForFile "f"
        (indexRun [.attach "order" "7:draft" "f" "bob"] orderWorld).1.master = [("order", "7")] ∧
      ((FsEngine.canAccess "carol" "f" .read).runOn
        (indexRun [.attach "order" "7:draft" "f" "bob"] orderWorld).1).1 = .ok true ∧
      FsStore.relKey "order" "7:draft" "f" = FsStore.relKey "order:7" "draft" "f" ∧
      ¬ Faithful (indexRun [.attach "order" "7:draft" "f" "bob"] orderWorld).1
        (indexRun [.attach "order" "7:draft" "f" "bob"] orderWorld).2 := by
  refine ⟨rfl, rfl, rfl, by decide, fun faithful => ?_⟩
  have plain := faithful.plain (t := ⟨"order", "7:draft", "f"⟩) (by decide) (by exact .head _)
  exact absurd plain (by decide)

/-- On plain rows the index stays faithful. -/
theorem index_faithful_plain_row :
    Faithful (indexRun [.attach "order" "7" "f" "bob"] orderWorld).1
      (indexRun [.attach "order" "7" "f" "bob"] orderWorld).2 := by
  have fresh : ∀ k ∈ orderWorld.master, ¬ FsStore.IsMarker k := by
    intro k mem
    have : FsStore.fileKey "f" = k := by simpa [orderWorld] using mem
    exact this ▸ FsStore.not_isMarker_fileKey "f"
  refine (index_faithful_iff .empty fresh [.attach "order" "7" "f" "bob"] (by decide)).mpr ?_ _
    List.prefix_rfl
  rintro t ⟨past, sub, n, isPast, -⟩
  obtain ⟨rest, eq⟩ := isPast
  cases past with
  | nil =>
    obtain ⟨ty, rid, f⟩ := t
    simp only [List.nil_append, List.cons_append, List.cons.injEq, IndexCall.attach.injEq] at eq
    obtain ⟨⟨rfl, rfl, rfl, -⟩, -⟩ := eq
    decide
  | cons c past => simp at eq

end RustApi
