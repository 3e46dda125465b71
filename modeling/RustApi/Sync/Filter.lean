import RustApi.Sync.Snapshot

/-!
# The filtered copy

What `copy_filtered` writes for one subject, as a function of the master rows and
the policy, and the fact that the program computes it.

## Main results

- `run_canRead`, `run_visibleRows`: the visibility checks as functions.
- `copyFiltered_ok`: a copy that returns has walked the whole master, changed
  nothing, and written `filterAll` of its records.
- `Filtered`: the files and markers of the copy, characterised by visibility.
-/

namespace RustApi

open Lib

namespace Snapshot

/-! ### Visibility as a function -/

/-- The rows among `rows` that `sub` may read. -/
def visible (P : Policy) (sub : String) (rows : List (String × String)) : List (String × String) :=
  rows.filter fun r => P.authorizeRow sub r.1 r.2 .read

/-- The replica filter on one record of the master. -/
def readable (M : Kv Value) (P : Policy) (sub : String) (rec : FileRecord) : Bool :=
  decide (rec.ownerSub = sub) || !(visible P sub (FsStore.rowsForFile rec.id M)).isEmpty

theorem run_authorizedRows (sub : String) (rows : List (String × String)) (w : World) :
    (authorizedRows sub rows).runOn w = (.ok (visible w.enforcer.policy sub rows), w) := by
  induction rows with
  | nil => rfl
  | cons r rows ih =>
    obtain ⟨ty, rid⟩ := r
    rw [authorizedRows, M.runOn_bind_of_ok (run_authorizer w), M.runOn_bind_of_ok ih]
    simp only [M.runOn_pure, visible, List.filter_cons]

theorem run_rowsForFile (fileId : String) (w : World) :
    (onStore .master (.rowsForFile fileId)).runOn w =
      (.ok (FsStore.rowsForFile fileId w.master), w) := rfl

theorem run_visibleRows (sub fileId : String) (w : World) :
    (visibleRows sub fileId).runOn w =
      (.ok (visible w.enforcer.policy sub (FsStore.rowsForFile fileId w.master)), w) := by
  rw [visibleRows, M.runOn_bind_of_ok (run_rowsForFile fileId w)]
  exact run_authorizedRows sub _ w

theorem run_getFile (fileId : String) (w : World) :
    (onStore .master (.getFile fileId)).runOn w = (FsStore.getFile fileId w.master, w) := rfl

/-- `can_read` answers for the record the master holds. -/
theorem run_canRead (sub fileId : String) (w : World) :
    (canRead sub fileId).runOn w =
      (match FsStore.getFile fileId w.master with
        | .error e => .error e
        | .ok none => .ok false
        | .ok (some rec) => .ok (decide (rec.ownerSub = sub) ||
            !(visible w.enforcer.policy sub (FsStore.rowsForFile fileId w.master)).isEmpty), w) := by
  have call := run_getFile fileId w
  cases found : FsStore.getFile fileId w.master with
  | error e => rw [canRead, M.runOn_bind_of_error (found ▸ call)]
  | ok rec =>
    rw [canRead, M.runOn_bind_of_ok (found ▸ call)]
    cases rec with
    | none => rfl
    | some rec =>
      by_cases owner : rec.ownerSub = sub
      · simp [owner]
      · simp only [owner, if_false, M.runOn_bind_of_ok (run_visibleRows sub fileId w)]
        simp

/-! ### The walk over the master -/

/-- Alone, a paged walk reads the store as it is. -/
theorem run_next (side : Side) (p : KvPages Value) (w : World) :
    M.runOn (KvPages.next (fun cursor => onStore side (.page cursor)) p) w =
      (.ok (KvPages.nextIn (w.fsStore side) p), w) := by
  obtain ⟨cursor, buffer, exhausted⟩ := p
  cases buffer with
  | cons e rest => rfl
  | nil =>
    cases exhausted with
    | true => rfl
    | false =>
      refine (M.runOn_bind_of_ok (run_onStore side (.page cursor) w)).trans ?_
      simp only [FsCall.exec, World.setFsStore_fsStore]
      rfl

/-- The first record of a list of master rows, the undecodable keys before it and the rows
    behind it. -/
def scanFile : List (String × Value) → Option FileRecord × List String × List (String × Value)
  | [] => (none, [], [])
  | e :: rows =>
    match FsStore.metaRow FsStore.filesPrefix FsStore.Value.asFile e with
    | none => scanFile rows
    | some (.ok rec) => (some rec, [], rows)
    | some (.error key) => ((scanFile rows).1, key :: (scanFile rows).2.1, (scanFile rows).2.2)

private theorem nextFile_ok {fuel : Nat} {scan scan' : KvPages Value} {w w' : World}
    {rec : Option FileRecord} {skipped : List String}
    (h : (nextFile fuel scan).runOn w = (.ok (rec, skipped, scan'), w')) :
    w' = w ∧ scanFile (KvPages.left w.master scan) =
      (rec, skipped, KvPages.left w.master scan') := by
  induction fuel generalizing scan rec skipped scan' w' with
  | zero => simp [nextFile] at h
  | succ fuel ih =>
    rw [nextFile, M.runOn_bind_of_ok (run_next .master scan w)] at h
    obtain ⟨first, rest⟩ := KvPages.next_static w.master scan
    simp only [World.fsStore] at h
    rw [first] at h
    generalize (KvPages.nextIn w.master scan).2 = scan₁ at h rest
    cases rows : KvPages.left w.master scan with
    | nil =>
      simp only [rows, List.head?_nil, M.runOn_pure, Prod.mk.injEq, Except.ok.injEq] at h
      obtain ⟨⟨rfl, rfl, rfl⟩, rfl⟩ := h
      simp [scanFile, rest, rows]
    | cons e more =>
      simp only [rows, List.tail_cons] at rest
      simp only [rows, List.head?_cons] at h
      -- a key of another family is passed over, a row that does not decode is noted
      cases row : FsStore.metaRow FsStore.filesPrefix FsStore.Value.asFile e with
      | none =>
        simp only [row] at h
        obtain ⟨same, found⟩ := ih h
        exact ⟨same, by simpa [scanFile, row, rest] using found⟩
      | some r =>
        cases r with
        | ok rec₁ =>
          simp only [row, M.runOn_pure, Prod.mk.injEq, Except.ok.injEq] at h
          obtain ⟨⟨rfl, rfl, rfl⟩, rfl⟩ := h
          simp [scanFile, row, rest]
        | error key =>
          simp only [row] at h
          obtain ⟨⟨rec₁, skipped₁, scan₂⟩, w₁, inner, last⟩ := M.runOn_bind_ok h
          obtain ⟨rfl, found⟩ := ih inner
          simp only [M.runOn_pure, Prod.mk.injEq, Except.ok.injEq] at last
          obtain ⟨⟨rfl, rfl, rfl⟩, rfl⟩ := last
          rw [rest] at found
          exact ⟨rfl, by simp [scanFile, row, found]⟩

/-! ### The copy of one record -/

/-- `copy_record` as a function of the master and the policy. -/
def filterRecord (M : Kv Value) (P : Policy) (sub : String) (rec : FileRecord) (dst : Kv Value) :
    Except Error (Kv Value) :=
  if readable M P sub rec then
    match FsStore.getRefInfo rec.id M with
    | .error e => .error e
    | .ok info =>
      if info.count > 0 then
        attachRows rec.id (visible P sub (FsStore.rowsForFile rec.id M)) (FsStore.saveFile rec dst)
      else .ok (FsStore.saveFile rec dst)
  else .ok dst

private theorem run_copyRecord (sub : String) (rec : FileRecord) (dst : Kv Value) (w : World) :
    (copyRecord sub rec dst).runOn w =
      (filterRecord w.master w.enforcer.policy sub rec dst, w) := by
  rw [copyRecord, M.runOn_bind_of_ok (run_visibleRows sub rec.id w), filterRecord]
  -- the run asks for the rows first and drops the record; the filter asks whether it is seen
  by_cases seen : readable w.master w.enforcer.policy sub rec = true
  · have kept : ¬ (rec.ownerSub ≠ sub ∧
        visible w.enforcer.policy sub (FsStore.rowsForFile rec.id w.master) = []) := by
      simpa [readable, or_iff_not_imp_left] using seen
    rw [if_neg kept, if_pos seen]
    have call : (onStore .master (.getRefInfo rec.id)).runOn w =
        (FsStore.getRefInfo rec.id w.master, w) := rfl
    cases info : FsStore.getRefInfo rec.id w.master with
    | error e => rw [M.runOn_bind_of_error (info ▸ call)]
    | ok info₁ =>
      rw [M.runOn_bind_of_ok (info ▸ call)]
      by_cases counted : info₁.count > 0
      · simp [counted]
      · simp [counted]
  · have dropped : rec.ownerSub ≠ sub ∧
        visible w.enforcer.policy sub (FsStore.rowsForFile rec.id w.master) = [] := by
      simpa [readable] using seen
    rw [if_pos dropped, if_neg seen]
    rfl

/-! ### The whole copy -/

/-- The records of a list of master rows, in key order. -/
def recordsOf (rows : List (String × Value)) : List FileRecord :=
  rows.filterMap fun e =>
    match FsStore.metaRow FsStore.filesPrefix FsStore.Value.asFile e with
    | some (.ok rec) => some rec
    | _ => none

/-- `copy_filtered` as a function: each record in turn. -/
def filterAll (M : Kv Value) (P : Policy) (sub : String) :
    List FileRecord → Kv Value → Except Error (Kv Value)
  | [], dst => .ok dst
  | rec :: recs, dst =>
    match filterRecord M P sub rec dst with
    | .error e => .error e
    | .ok dst => filterAll M P sub recs dst

private theorem recordsOf_scanFile (rows : List (String × Value)) :
    recordsOf rows = match (scanFile rows).1 with
      | none => []
      | some rec => rec :: recordsOf (scanFile rows).2.2 := by
  induction rows with
  | nil => rfl
  | cons e rows ih =>
    cases row : FsStore.metaRow FsStore.filesPrefix FsStore.Value.asFile e with
    | none => simpa [recordsOf, scanFile, row] using ih
    | some r =>
      cases r with
      | ok rec => simp [recordsOf, scanFile, row]
      | error key => simpa [recordsOf, scanFile, row] using ih

private theorem copyLoop_ok {fuel n : Nat} {sub : String} {scan : KvPages Value}
    {undecodable undecodable' : List String} {dst dst' : Kv Value} {w w' : World}
    (h : (copyLoop fuel sub n scan undecodable dst).runOn w = (.ok (undecodable', dst'), w')) :
    w' = w ∧ filterAll w.master w.enforcer.policy sub
      (recordsOf (KvPages.left w.master scan)) dst = .ok dst' := by
  induction n generalizing scan undecodable dst with
  | zero => simp [copyLoop] at h
  | succ n ih =>
    obtain ⟨⟨rec, skipped, scan₁⟩, w₁, step, h⟩ := M.runOn_bind_ok h
    obtain ⟨rfl, found⟩ := nextFile_ok step
    cases rec with
    | none =>
      simp only [M.runOn_pure, Prod.mk.injEq, Except.ok.injEq] at h
      obtain ⟨⟨-, rfl⟩, rfl⟩ := h
      rw [recordsOf_scanFile, found]
      exact ⟨rfl, rfl⟩
    | some rec =>
      obtain ⟨dst₁, w₂, copied, h⟩ := M.runOn_bind_ok h
      -- the copy only reads, so the later pages are those of the same master
      rw [run_copyRecord, Prod.mk.injEq] at copied
      obtain ⟨copied, rfl⟩ := copied
      obtain ⟨same, rest⟩ := ih h
      refine ⟨same, ?_⟩
      rw [recordsOf_scanFile, found]
      simp only [filterAll, copied]
      exact rest

/-- A copy that returned has left the world alone and written what the filter grants. -/
theorem copyFiltered_ok {fuel : Nat} {sub : String} {undecodable : List String} {D : Kv Value}
    {w w' : World} (h : (copyFiltered fuel sub).runOn w = (.ok (undecodable, D), w')) :
    w' = w ∧ filterAll w.master w.enforcer.policy sub (recordsOf w.master.toList) ∅ = .ok D := by
  simpa using copyLoop_ok h

/-! ### What the copy holds -/

/-- The file has a positive reference count. -/
def Counted (M : Kv Value) (f : String) : Prop :=
  ∃ info, FsStore.getRefInfo f M = .ok info ∧ info.count > 0

theorem attachRows_ok {f : String} {rows : List (String × String)} {dst dst' : Kv Value}
    (h : attachRows f rows dst = .ok dst') {k : String} (hk : k ≠ FsStore.refsKey f) :
    (k ∈ dst' ↔ k ∈ dst ∨ ∃ r ∈ rows, k = FsStore.relKey r.1 r.2 f) ∧
      (¬ FsStore.IsMarker k → dst'[k]? = dst[k]?) := by
  induction rows generalizing dst with
  | nil =>
    obtain rfl : dst = dst' := by simpa [attachRows] using h
    simp
  | cons r rows ih =>
    obtain ⟨ty, rid⟩ := r
    rw [attachRows] at h
    split at h
    · cases h
    next n dst₁ attached =>
      obtain ⟨member, same⟩ := ih h
      constructor
      · -- the counter row is the one other key that an attach writes, hence `hk`
        rw [member, FsStore.mem_attach_ok attached hk, or_assoc]
        simp only [List.mem_cons, exists_eq_or_imp]
      · intro plain
        rw [same plain, FsStore.get_attach_ok attached hk plain]

/-- One record adds its file key and the markers of its visible rows. -/
private theorem filterRecord_ok {M : Kv Value} {P : Policy} {sub : String} {rec : FileRecord}
    {dst dst' : Kv Value} (h : filterRecord M P sub rec dst = .ok dst') {k : String}
    (hk : ∀ f, k ≠ FsStore.refsKey f) :
    (k ∈ dst' ↔ k ∈ dst ∨ readable M P sub rec = true ∧ (k = FsStore.fileKey rec.id ∨
      Counted M rec.id ∧ ∃ r ∈ visible P sub (FsStore.rowsForFile rec.id M),
        k = FsStore.relKey r.1 r.2 rec.id)) ∧
      (¬ FsStore.IsMarker k → dst'[k]? =
        if readable M P sub rec = true ∧ k = FsStore.fileKey rec.id then some (.file rec)
        else dst[k]?) := by
  have saved : ∀ a : String, (FsStore.saveFile rec dst)[a]? =
      if a = FsStore.fileKey rec.id then some (.file rec) else dst[a]? := by
    intro a
    rw [FsStore.saveFile, Kv.get_insert]
    simp only [@eq_comm _ a]
  have savedMem : k ∈ FsStore.saveFile rec dst ↔ k ∈ dst ∨ k = FsStore.fileKey rec.id := by
    rw [Kv.mem_iff_get, saved, Kv.mem_iff_get]
    split <;> simp_all
  rw [filterRecord] at h
  split at h
  next seen =>
    split at h
    · cases h
    next info ref =>
      have counted : Counted M rec.id ↔ info.count > 0 := by
        simp [Counted, ref]
      split at h
      next positive =>
        obtain ⟨member, same⟩ := attachRows_ok h (hk rec.id)
        constructor
        · rw [member, savedMem, or_assoc]
          simp only [seen, counted.mpr positive, true_and]
        · intro plain
          rw [same plain, saved]
          simp [seen]
      next zero =>
        obtain rfl : FsStore.saveFile rec dst = dst' := by simpa using h
        have none : ¬ Counted M rec.id := fun c => zero (counted.mp c)
        exact ⟨by simp [savedMem, seen, none], fun _ => by simp [saved, seen]⟩
  next hidden =>
    obtain rfl : dst = dst' := by simpa using h
    exact ⟨by simp [hidden], fun _ => by simp [hidden]⟩

private theorem filterAll_mem {M : Kv Value} {P : Policy} {sub : String} {recs : List FileRecord}
    {dst dst' : Kv Value} (h : filterAll M P sub recs dst = .ok dst') {k : String}
    (hk : ∀ f, k ≠ FsStore.refsKey f) :
    k ∈ dst' ↔ k ∈ dst ∨ ∃ rec ∈ recs, readable M P sub rec = true ∧
      (k = FsStore.fileKey rec.id ∨ Counted M rec.id ∧
        ∃ r ∈ visible P sub (FsStore.rowsForFile rec.id M), k = FsStore.relKey r.1 r.2 rec.id) := by
  induction recs generalizing dst with
  | nil =>
    obtain rfl : dst = dst' := by simpa [filterAll] using h
    simp
  | cons rec recs ih =>
    rw [filterAll] at h
    split at h
    · cases h
    next dst₁ copied =>
      rw [ih h, (filterRecord_ok copied hk).1, or_assoc]
      simp only [List.mem_cons, exists_eq_or_imp]

/-- Every record of the master is stored under its own id. -/
def OwnIds (M : Kv Value) : Prop :=
  ∀ k rec, FsStore.MetaKey FsStore.filesPrefix k → M[k]? = some (.file rec) →
    k = FsStore.fileKey rec.id

private theorem mem_recordsOf {M : Kv Value} (own : OwnIds M) {rec : FileRecord} :
    rec ∈ recordsOf M.toList ↔ M[FsStore.fileKey rec.id]? = some (.file rec) := by
  simp only [recordsOf, List.mem_filterMap, FsStore.metaRow]
  constructor
  · rintro ⟨⟨k, v⟩, mem, row⟩
    rw [Kv.mem_toList] at mem
    split at row
    next rec₁ found =>
      split at found
      next family =>
        rw [Bool.and_eq_true] at family
        cases v with
        | file r =>
          obtain rfl : r = rec₁ := by simpa [FsStore.Value.asFile] using found
          obtain rfl : r = rec := by simpa using row
          -- a decoded row stands under the key of its own id
          exact own k r family mem ▸ mem
        | _ => simp [FsStore.Value.asFile] at found
      · cases found
    · cases row
  · intro here
    refine ⟨(FsStore.fileKey rec.id, .file rec), Kv.mem_toList.mpr here, ?_⟩
    have family := FsStore.metaKey_fileKey rec.id
    have suffix : Text.endsWith ":meta" (FsStore.fileKey rec.id) = true := family.2
    simp [family.1, suffix, FsStore.Value.asFile]

private theorem filterAll_file {M : Kv Value} {P : Policy} {sub f : String}
    {recs : List FileRecord} {dst dst' : Kv Value} (h : filterAll M P sub recs dst = .ok dst')
    (only : ∀ rec ∈ recs, rec.id = f → M[FsStore.fileKey f]? = some (.file rec)) :
    dst'[FsStore.fileKey f]? =
      if ∃ rec ∈ recs, rec.id = f ∧ readable M P sub rec = true then M[FsStore.fileKey f]?
      else dst[FsStore.fileKey f]? := by
  induction recs generalizing dst with
  | nil =>
    obtain rfl : dst = dst' := by simpa [filterAll] using h
    simp
  | cons rec recs ih =>
    rw [filterAll] at h
    split at h
    · cases h
    next dst₁ copied =>
      have step := (filterRecord_ok copied (k := FsStore.fileKey f)
        (fun g => FsStore.fileKey_ne_refsKey f g)).2 (FsStore.not_isMarker_fileKey f)
      rw [ih h fun r hr => only r (List.mem_cons_of_mem _ hr), step]
      simp only [FsStore.fileKey_inj, List.mem_cons, exists_eq_or_imp]
      -- a later record of the same id would write the same value, by `only`
      by_cases here : readable M P sub rec = true ∧ f = rec.id
      · obtain ⟨seen, rfl⟩ := here
        have mine := only rec List.mem_cons_self rfl
        simp [seen, mine]
      · have gone : ¬ (rec.id = f ∧ readable M P sub rec = true) := fun c => here ⟨c.2, c.1.symm⟩
        simp [here, gone]

theorem appliedKey_ne_fileKey (f : String) : appliedKey ≠ FsStore.fileKey f := by
  intro same
  simpa [appliedKey, FsStore.fileKey, FsStore.filesPrefix] using congrArg String.toList same

theorem appliedKey_ne_refsKey (f : String) : appliedKey ≠ FsStore.refsKey f := by
  intro same
  simpa [appliedKey, FsStore.refsKey, FsStore.filesPrefix] using congrArg String.toList same

/-- The copy never writes the coverage marker. -/
theorem filterAll_plain {M : Kv Value} {P : Policy} {sub : String} {recs : List FileRecord}
    {D : Kv Value} (h : filterAll M P sub recs ∅ = .ok D) : D[appliedKey]? = none := by
  rw [← Kv.not_mem_iff_get, filterAll_mem h appliedKey_ne_refsKey]
  rintro (empty | ⟨rec, -, -, same | ⟨-, r, -, same⟩⟩)
  · simp at empty
  · exact appliedKey_ne_fileKey _ same
  · have marker := FsStore.isMarker_relKey r.1 r.2 rec.id
    rw [← same] at marker
    exact absurd marker (by decide)

/-- The files and markers of the filtered copy. -/
structure Filtered (M : Kv Value) (P : Policy) (sub : String) (D : Kv Value) : Prop where
  file : ∀ f, D[FsStore.fileKey f]? =
    match M[FsStore.fileKey f]? with
    | some (.file rec) => if readable M P sub rec then some (.file rec) else none
    | _ => none
  marker : ∀ k, FsStore.IsMarker k → (k ∈ D ↔ ∃ rec, M[FsStore.fileKey rec.id]? = some (.file rec) ∧
    readable M P sub rec = true ∧ Counted M rec.id ∧
      ∃ r ∈ visible P sub (FsStore.rowsForFile rec.id M), k = FsStore.relKey r.1 r.2 rec.id)

theorem filterAll_filtered {M : Kv Value} {P : Policy} {sub : String} {D : Kv Value}
    (own : OwnIds M) (h : filterAll M P sub (recordsOf M.toList) ∅ = .ok D) :
    Filtered M P sub D := by
  have refs_ne : ∀ k, FsStore.IsMarker k → ∀ f, k ≠ FsStore.refsKey f := fun k hk f same =>
    FsStore.not_isMarker_refsKey f (same ▸ hk)
  refine ⟨fun f => ?_, fun k hk => ?_⟩
  · have only : ∀ rec ∈ recordsOf M.toList, rec.id = f →
        M[FsStore.fileKey f]? = some (.file rec) := by
      rintro rec mem rfl
      exact (mem_recordsOf own).mp mem
    rw [filterAll_file h only]
    -- the file rows: what the master holds under the key decides which record can have it
    cases here : M[FsStore.fileKey f]? with
    | none =>
      rw [if_neg]
      · simp
      · rintro ⟨rec, mem, same, -⟩
        rw [only rec mem same] at here
        cases here
    | some v =>
      cases v with
      | file rec =>
        have id : f = rec.id := FsStore.fileKey_inj.mp (own _ rec (FsStore.metaKey_fileKey f) here)
        by_cases seen : readable M P sub rec = true
        · have mem : rec ∈ recordsOf M.toList := (mem_recordsOf own).mpr (id ▸ here)
          rw [if_pos ⟨rec, mem, id.symm, seen⟩]
          simp [seen]
        · rw [if_neg]
          · simp [seen]
          · rintro ⟨r, mem, same, ok⟩
            obtain rfl : rec = r := by simpa [here] using only r mem same
            exact seen ok
      | _ =>
        rw [if_neg]
        · simp
        · rintro ⟨rec, mem, same, -⟩
          rw [only rec mem same] at here
          cases here
  · -- the markers: membership, since the filter starts from the empty store
    rw [filterAll_mem h (refs_ne k hk)]
    simp only [Std.ExtTreeMap.not_mem_empty, false_or, mem_recordsOf own]
    constructor
    · rintro ⟨rec, mem, seen, same | marker⟩
      · exact absurd hk (same ▸ FsStore.not_isMarker_fileKey rec.id)
      · exact ⟨rec, mem, seen, marker⟩
    · rintro ⟨rec, mem, seen, marker⟩
      exact ⟨rec, mem, seen, .inr marker⟩

end Snapshot

end RustApi
