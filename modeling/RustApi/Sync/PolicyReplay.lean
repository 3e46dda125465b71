import RustApi.Sync.Replay

/-!
# Replaying policy mutations

A policy mutation changes no row of the master, but it moves files in and out of what
a subject may read. The replay looks at the rows that the operation concerns under
the policy in force when it runs (`touchedRows`) and resyncs their files.

## Main results

- `replay_follows_iff`: from a replica in step with the policy before one mutation,
  the replay leads to the filtered copy under the policy after it exactly when every
  row whose read right changed was looked at.
- `followed_of_heard`: on plain row names this can only fail for the membership
  operation of another user or group, which the replay skips.
-/

namespace RustApi

open Lib

namespace Snapshot

/-! ### Mutations -/

/-- The operations that `PolicyEngine` announces. -/
def isPolicyOp : WalOp → Bool
  | .policyRuleAdd .. | .policyRuleRemove .. | .groupAdd .. | .groupRemove .. | .groupDelete _ =>
    true
  | _ => false

/-- A policy mutation: the enforced policy changes and the feed takes the operation. -/
def mutate (op : WalOp) (w : World) : World :=
  { w with
    enforcer := ⟨w.enforcer.store, w.enforcer.policy.apply op⟩
    wal := match Wal.append w.clock op w.wal with
      | .ok (_, kv) => kv
      | .error _ => w.wal }

theorem opActs_policy {M : Kv Value} {P : Policy} {sub : String} {op : WalOp}
    (h : isPolicyOp op = true) : opActs M P sub op = rowActs M P sub (touchedRows P sub op) := by
  cases op <;> first | rfl | cases h

theorem touchedRows_free {P : Policy} {sub : String} {op : WalOp} {r : String × String}
    (h : r ∈ touchedRows P sub op) : Text.Free ':' r.1 := by
  obtain ⟨ty, rid⟩ := r
  have rule : ∀ obj, (ty, rid) ∈ (Policy.splitRowObj obj).toList → Text.Free ':' ty := by
    intro obj mem
    rw [Option.mem_toList, Policy.splitRowObj_iff] at mem
    exact mem.2.1
  have group : ∀ g, (ty, rid) ∈ P.readRowsForGroup g → Text.Free ':' ty := by
    intro g mem
    obtain ⟨r, -, -, -, split⟩ := Policy.mem_readRowsForGroup.mp mem
    exact (Policy.splitRowObj_iff.mp split).2.1
  cases op with
  | policyRuleAdd x obj act | policyRuleRemove x obj act =>
    simp only [touchedRows] at h
    split at h
    · exact rule obj h
    · cases h
  | groupAdd user g | groupRemove user g =>
    simp only [touchedRows] at h
    split at h
    · exact group g h
    · cases h
  | groupDelete g => exact group g h
  | _ => cases h

/-! ### What a look decides -/

/-- One of the rows has file `f` attached. -/
def LooksAt (M : Kv Value) (rows : List (String × String)) (f : String) : Prop :=
  ∃ r ∈ rows, f ∈ FsStore.filesForRow r.1 r.2 M

instance (M : Kv Value) (rows : List (String × String)) (f : String) :
    Decidable (LooksAt M rows f) := inferInstanceAs (Decidable (∃ r ∈ rows, _))

/-- A look at the rows decides marker `k`: its row is among them, or its whole file is dropped. -/
def Decides (M : Kv Value) (P : Policy) (sub : String) (rows : List (String × String)) (k : String) :
    Prop :=
  ∃ r ∈ rows, ∃ f ∈ FsStore.filesForRow r.1 r.2 M,
    FsStore.MarkerOf f k ∧ grants M P sub f = false ∨
      k = FsStore.relKey r.1 r.2 f ∧ grants M P sub f = true

instance (M : Kv Value) (P : Policy) (sub : String) (rows : List (String × String)) (k : String) :
    Decidable (Decides M P sub rows k) := inferInstanceAs (Decidable (∃ r ∈ rows, _))

/-- The marker of a row that grants, on a file that is shown. -/
def Marks (M : Kv Value) (P : Policy) (sub k : String) : Prop :=
  ∃ ty rid f, Text.Free ':' ty ∧ Text.Free ':' f ∧ k = FsStore.relKey ty rid f ∧
    grants M P sub f = true ∧ P.authorizeRow sub ty rid .read = true

private theorem mem_rowActs {M : Kv Value} {P : Policy} {sub : String}
    {rows : List (String × String)} {a : Act} : a ∈ rowActs M P sub rows ↔
      ∃ r ∈ rows, ∃ f ∈ FsStore.filesForRow r.1 r.2 M, a ∈ resyncActs M P sub r.1 r.2 f := by
  simp only [rowActs, List.mem_flatMap]

private theorem resyncActs_granted {M : Kv Value} {P : Policy} {sub f : String} (ty rid : String)
    (own : OwnIds M) (seen : grants M P sub f = true) :
    ∃ rec, rec.id = f ∧ shown M P sub f = some (.file rec) ∧ resyncActs M P sub ty rid f =
      [.save rec, if P.authorizeRow sub ty rid .read then .mark ty rid f else .unmark ty rid f] := by
  obtain ⟨rec, here⟩ := grants_held seen
  have id := FsStore.fileKey_inj.mp (own _ rec (FsStore.metaKey_fileKey f) here)
  exact ⟨rec, id.symm, by simp [shown, seen, here], by simp [resyncActs, here, seen]⟩

private theorem resyncActs_hidden {M : Kv Value} {P : Policy} {sub ty rid f : String}
    (hidden : grants M P sub f = false) : resyncActs M P sub ty rid f = [.drop f] := by
  unfold resyncActs
  split
  · simp [hidden]
  · rfl

private theorem lastOf_eq_some {α : Type} {verdict : Act → Option α} {acts : List Act} {x : α}
    (only : ∀ a ∈ acts, ∀ y, verdict a = some y → y = x) (found : ∃ a ∈ acts, verdict a = some x) :
    lastOf verdict acts = some x := by
  cases last : lastOf verdict acts with
  | none =>
    obtain ⟨a, mem, here⟩ := found
    rw [lastOf_eq_none.mp last a mem] at here
    cases here
  | some y =>
    obtain ⟨a, mem, here⟩ := lastOf_mem last
    rw [only a mem y here]

/-- A look at rows of `f` brings its record to what the filter shows. -/
theorem lastOf_file_rowActs {M : Kv Value} {P : Policy} {sub : String} (own : OwnIds M)
    (rows : List (String × String)) (f : String) :
    lastOf (Act.file f) (rowActs M P sub rows) =
      if LooksAt M rows f then some (shown M P sub f) else none := by
  -- one resync speaks of its own file only, and says what the filter shows
  have verdict : ∀ ty rid g, ∀ a ∈ resyncActs M P sub ty rid g, ∀ y, Act.file f a = some y →
      g = f ∧ y = shown M P sub f := by
    intro ty rid g a mem y hy
    cases seen : grants M P sub g with
    | false =>
      rw [resyncActs_hidden seen, List.mem_singleton] at mem
      subst mem
      simp only [Act.file, Option.ite_none_right_eq_some, Option.some.injEq] at hy
      obtain ⟨rfl, rfl⟩ := hy
      simp [shown, seen]
    | true =>
      obtain ⟨rec, rfl, shows, acts⟩ := resyncActs_granted ty rid own seen
      rw [acts, List.mem_cons, List.mem_singleton] at mem
      rcases mem with rfl | rfl
      · simp only [Act.file, Option.ite_none_right_eq_some, Option.some.injEq] at hy
        obtain ⟨rfl, rfl⟩ := hy
        exact ⟨rfl, shows.symm⟩
      · split at hy <;> cases hy
  -- and it always says so
  have concerns : ∀ ty rid, ∃ a ∈ resyncActs M P sub ty rid f, Act.file f a = some (shown M P sub f) := by
    intro ty rid
    cases seen : grants M P sub f with
    | false => exact ⟨.drop f, by simp [resyncActs_hidden seen], by simp [Act.file, shown, seen]⟩
    | true =>
      obtain ⟨rec, id, shows, acts⟩ := resyncActs_granted ty rid own seen
      exact ⟨.save rec, by simp [acts], by simp [Act.file, id, shows]⟩
  split
  next looked =>
    obtain ⟨r, mem, attached⟩ := looked
    refine lastOf_eq_some (fun a ha y hy => ?_) ?_
    · obtain ⟨r', -, g, -, act⟩ := mem_rowActs.mp ha
      exact (verdict _ _ g a act y hy).2
    · obtain ⟨a, act, here⟩ := concerns r.1 r.2
      exact ⟨a, mem_rowActs.mpr ⟨r, mem, f, attached, act⟩, here⟩
  next unseen =>
    rw [lastOf_eq_none]
    intro a ha
    obtain ⟨r, mem, g, attached, act⟩ := mem_rowActs.mp ha
    cases here : Act.file f a with
    | none => rfl
    | some y =>
      obtain ⟨rfl, -⟩ := verdict _ _ g a act y here
      exact absurd ⟨r, mem, attached⟩ unseen

/-- The verdict of one resync on a marker. -/
private theorem marker_resyncActs {M : Kv Value} {P : Policy} {sub ty rid g k : String} {a : Act}
    {b : Bool} (own : OwnIds M) (mem : a ∈ resyncActs M P sub ty rid g)
    (hb : Act.marker k a = some b) :
    FsStore.MarkerOf g k ∧ grants M P sub g = false ∧ b = false ∨
      k = FsStore.relKey ty rid g ∧ grants M P sub g = true ∧
        b = P.authorizeRow sub ty rid .read := by
  cases seen : grants M P sub g with
  | false =>
    rw [resyncActs_hidden seen, List.mem_singleton] at mem
    subst mem
    simp only [Act.marker, Option.ite_none_right_eq_some, Option.some.injEq] at hb
    exact .inl ⟨hb.1, rfl, hb.2.symm⟩
  | true =>
    obtain ⟨rec, -, -, acts⟩ := resyncActs_granted ty rid own seen
    rw [acts, List.mem_cons, List.mem_singleton] at mem
    rcases mem with rfl | rfl
    · cases hb
    · split at hb
      next granted =>
        simp only [Act.marker, Option.ite_none_right_eq_some, Option.some.injEq] at hb
        exact .inr ⟨hb.1, rfl, by rw [granted, ← hb.2]⟩
      next refused =>
        simp only [Act.marker, Option.ite_none_right_eq_some, Option.some.injEq] at hb
        exact .inr ⟨hb.1, rfl, by rw [Bool.eq_false_iff.mpr refused, ← hb.2]⟩

theorem lastOf_marker_none {M : Kv Value} {P : Policy} {sub k : String} (own : OwnIds M)
    {rows : List (String × String)} :
    lastOf (Act.marker k) (rowActs M P sub rows) = none ↔ ¬ Decides M P sub rows k := by
  rw [lastOf_eq_none]
  constructor
  · rintro silent ⟨r, mem, f, attached, ⟨named, hidden⟩ | ⟨same, seen⟩⟩
    · have act : Act.drop f ∈ rowActs M P sub rows :=
        mem_rowActs.mpr ⟨r, mem, f, attached, by simp [resyncActs_hidden hidden]⟩
      simpa [Act.marker, named] using silent _ act
    · obtain ⟨rec, -, -, acts⟩ := resyncActs_granted r.1 r.2 own seen
      have act := mem_rowActs.mpr ⟨r, mem, f, attached, acts ▸ List.mem_cons_of_mem _
        (List.mem_singleton_self _)⟩
      have none := silent _ act
      split at none <;> simp [Act.marker, same] at none
  · intro undecided a ha
    obtain ⟨r, mem, f, attached, act⟩ := mem_rowActs.mp ha
    cases here : Act.marker k a with
    | none => rfl
    | some b =>
      refine absurd ⟨r, mem, f, attached, ?_⟩ undecided
      exact (marker_resyncActs own act here).imp (fun h => ⟨h.1, h.2.1⟩) (fun h => ⟨h.1, h.2.1⟩)

theorem lastOf_marker_some {M : Kv Value} {P : Policy} {sub k : String} {b : Bool} (own : OwnIds M)
    {rows : List (String × String)} (free : ∀ r ∈ rows, Text.Free ':' r.1)
    (h : lastOf (Act.marker k) (rowActs M P sub rows) = some b) :
    b = true ↔ Marks M P sub k := by
  obtain ⟨a, ha, here⟩ := lastOf_mem h
  obtain ⟨r, mem, f, attached, act⟩ := mem_rowActs.mp ha
  have fileFree := (FsStore.mem_filesForRow.mp attached).2.2
  rcases marker_resyncActs own act here with ⟨named, hidden, rfl⟩ | ⟨rfl, seen, rfl⟩
  · simp only [Bool.false_eq_true, false_iff]
    rintro ⟨ty, rid, g, -, gFree, rfl, seen, -⟩
    obtain rfl := (FsStore.markerOf_relKey fileFree gFree).mp named
    rw [seen] at hidden
    cases hidden
  · constructor
    · intro granted
      exact ⟨r.1, r.2, f, free r mem, fileFree, rfl, seen, granted⟩
    · rintro ⟨ty, rid, g, tyFree, gFree, same, -, granted⟩
      obtain ⟨rfl, rfl, rfl⟩ := (FsStore.relKey_inj (free r mem) tyFree fileFree gFree).mp same
      exact granted

/-! ### One mutation -/

/-- The replay of a look at `rows` follows the change from `P` to `P'` on file `f`: it drops the
    file, or it looks at every row of the file whose read right changed, and each row that it
    marks is one that the filter reads back. -/
def Followed (M : Kv Value) (P P' : Policy) (sub : String) (rows : List (String × String))
    (f : String) : Prop :=
  LooksAt M rows f ∧ grants M P' sub f = false ∨
    (∀ r ∈ FsStore.rowsForFile f M, (r ∈ rows ∧ f ∈ FsStore.filesForRow r.1 r.2 M) ∨
      P.authorizeRow sub r.1 r.2 .read = P'.authorizeRow sub r.1 r.2 .read) ∧
    ∀ r ∈ rows, f ∈ FsStore.filesForRow r.1 r.2 M → P'.authorizeRow sub r.1 r.2 .read = true →
      Text.Free ':' r.2

private theorem grants_eq_of_rows {M : Kv Value} {P P' : Policy} {sub f : String}
    (same : ∀ r ∈ FsStore.rowsForFile f M,
      P.authorizeRow sub r.1 r.2 .read = P'.authorizeRow sub r.1 r.2 .read) :
    grants M P sub f = grants M P' sub f := by
  have rows : visible P sub (FsStore.rowsForFile f M) = visible P' sub (FsStore.rowsForFile f M) :=
    List.filter_congr same
  simp only [grants, rows]

section OneLook

variable {M : Kv Value} {P P' : Policy} {sub : String} {rows : List (String × String)}
  {R R' D D' : Kv Value}

/-- A marker that no look decides is kept. -/
private theorem marker_kept (sound : Sound M)
    (performed : Performed (rowActs M P' sub rows) R R') {k : String} (hk : FsStore.IsMarker k)
    (undecided : ¬ Decides M P' sub rows k) : k ∈ R' ↔ k ∈ R := by
  rw [performed.marker k hk, (lastOf_marker_none sound.own).mpr undecided]
  simp

/-- A marker that a look decides is there when it marks a row that grants. -/
private theorem marker_decided (sound : Sound M) (free : ∀ r ∈ rows, Text.Free ':' r.1)
    (performed : Performed (rowActs M P' sub rows) R R') {k : String} (hk : FsStore.IsMarker k)
    (decided : Decides M P' sub rows k) : k ∈ R' ↔ Marks M P' sub k := by
  rw [performed.marker k hk]
  cases last : lastOf (Act.marker k) (rowActs M P' sub rows) with
  | none => exact absurd decided ((lastOf_marker_none sound.own).mp last)
  | some b => exact lastOf_marker_some sound.own free last

private theorem follows_of_same (sound : Sound M) (free : ∀ r ∈ rows, Text.Free ':' r.1)
    (before : Filtered M P sub D) (after : Filtered M P' sub D') (insync : SameData R D)
    (performed : Performed (rowActs M P' sub rows) R R') (same : SameData R' D') {f : String}
    {rec : FileRecord} (here : M[FsStore.fileKey f]? = some (.file rec)) :
    Followed M P P' sub rows f := by
  have fileFree := sound.ids f rec here
  by_cases dropped : LooksAt M rows f ∧ grants M P' sub f = false
  · exact .inl dropped
  refine .inr ⟨fun r held => ?_, fun r mem attached granted => ?_⟩
  · by_cases looked : r ∈ rows ∧ f ∈ FsStore.filesForRow r.1 r.2 M
    · exact .inl looked
    right
    have tyFree := (rowsForFile_free held).1
    have marker := FsStore.isMarker_relKey r.1 r.2 f
    have undecided : ¬ Decides M P' sub rows (FsStore.relKey r.1 r.2 f) := by
      rintro ⟨q, mem, g, attached, ⟨named, hidden⟩ | ⟨eq, -⟩⟩
      · obtain rfl := (FsStore.markerOf_relKey (FsStore.mem_filesForRow.mp attached).2.2
          fileFree).mp named
        exact dropped ⟨⟨q, mem, attached⟩, hidden⟩
      · obtain ⟨first, second, rfl⟩ := (FsStore.relKey_inj tyFree (free q mem) fileFree
          (FsStore.mem_filesForRow.mp attached).2.2).mp eq
        obtain rfl : r = q := Prod.ext first second
        exact looked ⟨mem, attached⟩
    have moved : FsStore.relKey r.1 r.2 f ∈ D ↔ FsStore.relKey r.1 r.2 f ∈ D' := by
      rw [← insync.marker _ marker, ← same.marker _ marker,
        marker_kept sound performed marker undecided]
    rw [mem_copy_iff sound before here tyFree, mem_copy_iff sound after here tyFree] at moved
    rw [Bool.eq_iff_iff]
    simpa [held] using moved
  · have seen : grants M P' sub f = true := by
      by_contra hidden
      exact dropped ⟨⟨r, mem, attached⟩, by simpa using hidden⟩
    have marker := FsStore.isMarker_relKey r.1 r.2 f
    have decided : Decides M P' sub rows (FsStore.relKey r.1 r.2 f) :=
      ⟨r, mem, f, attached, .inr ⟨rfl, seen⟩⟩
    have marked : FsStore.relKey r.1 r.2 f ∈ D' := by
      rw [← same.marker _ marker, marker_decided sound free performed marker decided]
      exact ⟨r.1, r.2, f, free r mem, fileFree, rfl, seen, granted⟩
    exact (rowsForFile_free ((mem_copy_iff sound after here (free r mem)).mp marked).1).2

private theorem same_file_of_followed (sound : Sound M)
    (before : Filtered M P sub R) (performed : Performed (rowActs M P' sub rows) R R')
    (followed : ∀ f rec, M[FsStore.fileKey f]? = some (.file rec) → Followed M P P' sub rows f)
    (f : String) : R'[FsStore.fileKey f]? = shown M P' sub f := by
  rw [performed.file, lastOf_file_rowActs sound.own]
  split
  · rfl
  next unseen =>
    rw [Option.getD_none, filtered_file sound.own before, shown, shown]
    by_cases held : ∃ rec, M[FsStore.fileKey f]? = some (.file rec)
    · obtain ⟨rec, here⟩ := held
      rcases followed f rec here with ⟨looked, -⟩ | ⟨rights, -⟩
      · exact absurd looked unseen
      · -- none of its rows was looked at, so none of their rights changed
        have rights' : ∀ r ∈ FsStore.rowsForFile f M,
            P.authorizeRow sub r.1 r.2 .read = P'.authorizeRow sub r.1 r.2 .read :=
          fun r mem => (rights r mem).resolve_left fun looked => unseen ⟨r, looked⟩
        rw [grants_eq_of_rows rights']
    · have hidden : ∀ Q, grants M Q sub f = false := fun Q => by
        by_contra seen
        exact held (grants_held (by simpa using seen))
      simp [hidden]

private theorem same_marker_of_followed (sound : Sound M) (free : ∀ r ∈ rows, Text.Free ':' r.1)
    (before : Filtered M P sub R) (performed : Performed (rowActs M P' sub rows) R R')
    (followed : ∀ f rec, M[FsStore.fileKey f]? = some (.file rec) → Followed M P P' sub rows f)
    {k : String} (hk : FsStore.IsMarker k) : k ∈ R' ↔ Copied M P' sub k := by
  -- a marker that a look decides is right by the look, any other by the right it kept
  by_cases decided : Decides M P' sub rows k
  · rw [marker_decided sound free performed hk decided]
    constructor
    · rintro ⟨ty, rid, f, tyFree, fFree, rfl, seen, granted⟩
      obtain ⟨rec, here⟩ := grants_held seen
      obtain ⟨r, mem, g, attached, ⟨named, hidden⟩ | ⟨eq, -⟩⟩ := decided
      · obtain rfl := (FsStore.markerOf_relKey (FsStore.mem_filesForRow.mp attached).2.2
          fFree).mp named
        rw [seen] at hidden
        cases hidden
      · obtain ⟨rfl, rfl, rfl⟩ := (FsStore.relKey_inj tyFree (free r mem) fFree
          (FsStore.mem_filesForRow.mp attached).2.2).mp eq
        have row : (r.1, r.2) ∈ FsStore.rowsForFile f M := by
          rcases followed f rec here with ⟨-, hidden⟩ | ⟨-, plain⟩
          · rw [seen] at hidden
            cases hidden
          · -- the row is looked at under its own name, so the filter reads it back
            exact FsStore.mem_rowsForFile.mpr ⟨_, (FsStore.mem_filesForRow.mp attached).1,
              FsStore.markerOf_relKey_self _ _ _,
              FsStore.markerRow_iff.mpr ⟨f, rfl, tyFree, plain r mem attached granted⟩⟩
        exact ⟨f, _, List.mem_filter.mpr ⟨row, granted⟩, seen,
          sound.counted f rec here (List.ne_nil_of_mem row), rfl⟩
    · rintro ⟨f, r, mem, seen, -, rfl⟩
      obtain ⟨held, granted⟩ := List.mem_filter.mp mem
      obtain ⟨rec, here⟩ := grants_held seen
      exact ⟨r.1, r.2, f, (rowsForFile_free held).1, sound.ids f rec here, rfl, seen, granted⟩
  · rw [marker_kept sound performed hk decided, filtered_marker sound.own before hk]
    -- an undecided marker names a row that was not looked at, so its right did not change
    have unchanged : ∀ f r rec, M[FsStore.fileKey f]? = some (.file rec) →
        r ∈ FsStore.rowsForFile f M → k = FsStore.relKey r.1 r.2 f →
        P.authorizeRow sub r.1 r.2 .read = P'.authorizeRow sub r.1 r.2 .read := by
      rintro f r rec here held rfl
      rcases followed f rec here with ⟨⟨q, mem, attached⟩, hidden⟩ | ⟨rights, -⟩
      · exact absurd ⟨q, mem, f, attached, .inl ⟨FsStore.markerOf_relKey_self _ _ _, hidden⟩⟩ decided
      · refine (rights r held).resolve_left fun looked => decided ?_
        refine ⟨r, looked.1, f, looked.2, ?_⟩
        cases seen : grants M P' sub f with
        | false => exact .inl ⟨FsStore.markerOf_relKey_self _ _ _, rfl⟩
        | true => exact .inr ⟨rfl, rfl⟩
    constructor
    · rintro ⟨f, r, mem, seen, counted, rfl⟩
      obtain ⟨held, granted⟩ := List.mem_filter.mp mem
      obtain ⟨rec, here⟩ := grants_held seen
      rw [unchanged f r rec here held rfl] at granted
      have shows : r ∈ visible P' sub (FsStore.rowsForFile f M) :=
        List.mem_filter.mpr ⟨held, granted⟩
      exact ⟨f, r, shows, grants_of_visible here shows, counted, rfl⟩
    · rintro ⟨f, r, mem, seen, counted, rfl⟩
      obtain ⟨held, granted⟩ := List.mem_filter.mp mem
      obtain ⟨rec, here⟩ := grants_held seen
      rw [← unchanged f r rec here held rfl] at granted
      have shows : r ∈ visible P sub (FsStore.rowsForFile f M) :=
        List.mem_filter.mpr ⟨held, granted⟩
      exact ⟨f, r, shows, grants_of_visible here shows, counted, rfl⟩

/-- From a replica in step with `P`, a look at `rows` under `P'` that follows the change on every
    file leads to a replica in step with `P'`. -/
theorem filtered_of_followed (sound : Sound M) (free : ∀ r ∈ rows, Text.Free ':' r.1)
    (before : Filtered M P sub R) (performed : Performed (rowActs M P' sub rows) R R')
    (followed : ∀ f rec, M[FsStore.fileKey f]? = some (.file rec) → Followed M P P' sub rows f) :
    Filtered M P' sub R' :=
  (filtered_iff sound.own).mpr ⟨same_file_of_followed sound before performed followed,
    fun _ hk => same_marker_of_followed sound free before performed followed hk⟩

/-- It leads to the copy under `P'` exactly when it follows the change on every file. -/
theorem look_exact_iff (sound : Sound M) (free : ∀ r ∈ rows, Text.Free ':' r.1)
    (before : Filtered M P sub D) (after : Filtered M P' sub D') (insync : SameData R D)
    (performed : Performed (rowActs M P' sub rows) R R') :
    SameData R' D' ↔
      ∀ f rec, M[FsStore.fileKey f]? = some (.file rec) → Followed M P P' sub rows f := by
  constructor
  · intro same f rec here
    exact follows_of_same sound free before after insync performed same here
  · intro followed
    exact (filtered_of_followed sound free (before.of_same insync) performed followed).same after

end OneLook

theorem mutate_log {w : World} {entries : List WalEntry} (log : Wal.Log w.wal entries) (op : WalOp) :
    Wal.Log (mutate op w).wal (entries ++ [⟨entries.length + 1, op, w.clock⟩]) := by
  obtain ⟨kv, appended, longer⟩ := log.append_eq w.clock op
  simpa [mutate, appended] using longer

/-- **Revocation reaches the replica** of `sub` after one policy mutation exactly when the replay
    of that mutation follows it on every file of the master. -/
theorem replay_follows_iff {fuel fuel' n : Nat} {sub : String} {op : WalOp} {w w' : World}
    {entries : List WalEntry} {u u' : List String} {D D' : Kv Value}
    (policyOp : isPolicyOp op = true) (sound : Sound w.master) (log : Wal.Log w.wal entries)
    (covered : coverage (w.replicas sub) = some entries.length)
    (before : ((copyFiltered fuel sub).runOn w).1 = .ok (u, D))
    (insync : SameData (w.replicas sub) D)
    (replayed : (replay (entries.length + 1) sub).runOn (mutate op w) = (.ok (.advanced n), w'))
    (after : ((copyFiltered fuel' sub).runOn (mutate op w)).1 = .ok (u', D')) :
    SameData (w'.replicas sub) D' ↔
      ∀ f rec, w.master[FsStore.fileKey f]? = some (.file rec) →
        Followed w.master w.enforcer.policy (w.enforcer.policy.apply op) sub
          (touchedRows (w.enforcer.policy.apply op) sub op) f := by
  obtain ⟨applied, marker, -, wrote, -⟩ := replay_ok (mutate_log log op) (by simp) replayed
  obtain rfl : entries.length = applied := by simpa [mutate, covered] using marker
  have performed := wrote.performed
  rw [List.drop_left, Nat.add_sub_cancel_left, List.take_of_length_le (by simp),
    List.flatMap_singleton, opActs_policy policyOp] at performed
  exact look_exact_iff sound (fun r mem => touchedRows_free mem)
    (copyFiltered_filtered sound.own before) (copyFiltered_filtered (w := mutate op w) sound.own after)
    insync performed

/-- A file of `bob` that is attached to one invoice. -/
def bobFile : FileRecord := { aliceFile "b" with ownerSub := "bob" }

def invoiceMaster : Kv Value :=
  ((FsStore.saveFile bobFile ∅).insert (FsStore.relKey "invoice" "1" "b") .relation).insert
    (FsStore.refsKey "b") (.refs ⟨1, none⟩)

/-- `alice` reads the invoice through two nested groups, and her replica is up to date. -/
def nestedGrant : World :=
  { World.init toString with
    master := invoiceMaster
    enforcer := ⟨∅, ⟨[⟨"staff", "invoice:1", "read"⟩],
      [⟨"alice", "editors"⟩, ⟨"editors", "staff"⟩]⟩⟩
    replicas := fun _ => invoiceMaster.insert appliedKey (.applied 0) }

theorem invoiceMaster_held {k : String} {rec : FileRecord}
    (here : invoiceMaster[k]? = some (.file rec)) : k = FsStore.fileKey "b" ∧ rec = bobFile := by
  have mem := Kv.mem_toList.mpr here
  have rows : invoiceMaster.toList =
      [(FsStore.fileKey "b", .file bobFile), (FsStore.refsKey "b", .refs ⟨1, none⟩),
        (FsStore.relKey "invoice" "1" "b", .relation)] := rfl
  simpa [rows] using mem

theorem invoiceMaster_sound : Sound invoiceMaster := by
  refine ⟨fun k rec _ here => ?_, fun f rec here => ?_, fun f rec here _ => ?_⟩
  · obtain ⟨rfl, rfl⟩ := invoiceMaster_held here
    rfl
  · obtain ⟨same, -⟩ := invoiceMaster_held here
    obtain rfl := FsStore.fileKey_inj.mp same
    decide
  · obtain ⟨same, -⟩ := invoiceMaster_held here
    obtain rfl := FsStore.fileKey_inj.mp same
    exact ⟨⟨1, none⟩, rfl, by decide⟩

theorem sameData_covered (kv : Kv Value) (n : Nat) :
    SameData (kv.insert appliedKey (.applied n)) kv := by
  refine ⟨fun f => ?_, fun k hk => ?_⟩
  · rw [Kv.get_insert, if_neg (appliedKey_ne_fileKey f)]
  · have other : appliedKey ≠ k := by
      rintro rfl
      exact absurd hk (by decide)
    rw [Kv.mem_iff_get, Kv.get_insert, if_neg other, ← Kv.mem_iff_get]

theorem emptyFeed : Wal.Log nestedGrant.wal [] := .empty

/-- When the inner group leaves the outer one, the replay skips the operation, and the file that
    `alice` may no longer read stays in her replica. -/
theorem replay_misses_nested_removal :
    ∃ w' D', ((copyFiltered 8 "alice").runOn nestedGrant).1 = .ok ([], invoiceMaster) ∧
      SameData (nestedGrant.replicas "alice") invoiceMaster ∧
      (replay 1 "alice").runOn (mutate (.groupRemove "editors" "staff") nestedGrant) =
        (.ok (.advanced 1), w') ∧
      ((copyFiltered 8 "alice").runOn (mutate (.groupRemove "editors" "staff") nestedGrant)).1 =
        .ok ([], D') ∧
      D'[FsStore.fileKey "b"]? = none ∧
      (w'.replicas "alice")[FsStore.fileKey "b"]? = some (.file bobFile) :=
  ⟨_, _, rfl, sameData_covered _ 0, rfl, rfl, rfl, rfl⟩

/-- When the rule of the outer group is removed, the replay drops the file. -/
theorem replay_follows_nested_rule :
    SameData (((replay 1 "alice").runOn
      (mutate (.policyRuleRemove "staff" "invoice:1" "read") nestedGrant)).2.replicas "alice") ∅ := by
  refine (replay_follows_iff
    (show isPolicyOp (.policyRuleRemove "staff" "invoice:1" "read") = true from rfl)
    invoiceMaster_sound emptyFeed rfl
    (show ((copyFiltered 8 "alice").runOn nestedGrant).1 = .ok ([], invoiceMaster) from rfl)
    (sameData_covered _ 0)
    (show (replay 1 "alice").runOn
        (mutate (.policyRuleRemove "staff" "invoice:1" "read") nestedGrant) =
      (.ok (.advanced 1), ((replay 1 "alice").runOn
        (mutate (.policyRuleRemove "staff" "invoice:1" "read") nestedGrant)).2) from rfl)
    (show ((copyFiltered 8 "alice").runOn
      (mutate (.policyRuleRemove "staff" "invoice:1" "read") nestedGrant)).1 =
        .ok ([], ∅) from rfl)).mpr ?_
  intro f rec here
  obtain ⟨same, -⟩ := invoiceMaster_held here
  obtain rfl := FsStore.fileKey_inj.mp same
  exact .inl ⟨by decide, by decide⟩

/-! ### Which mutations are followed -/

/-- The operation is not the membership of another user or group. -/
def Heard (sub : String) : WalOp → Prop
  | .groupAdd user _ | .groupRemove user _ => user = sub
  | _ => True

private theorem authorizeRow_iff {P : Policy} {sub ty rid : String} :
    P.authorizeRow sub ty rid .read = true ↔
      ∃ x, ⟨x, rowObject ty rid, "read"⟩ ∈ P.rules ∧ P.Reaches sub x := Policy.enforce_iff

private theorem rule_touched {P : Policy} {sub x obj ty rid : String} (reach : P.Reaches sub x)
    (row : Policy.splitRowObj obj = some (ty, rid)) :
    (ty, rid) ∈ touchedRows P sub (.policyRuleAdd x obj "read") := by
  have reached : x = sub ∨ x ∈ P.implicitGroups sub := by
    rwa [Policy.mem_implicitGroups, ← Relation.reflTransGen_iff_eq_or_transGen]
  have read : Policy.isRead "read" = true := by decide
  simp [touchedRows, read, reached, row]

private theorem group_touched {P : Policy} {x group obj ty rid : String}
    (rule : ⟨x, obj, "read"⟩ ∈ P.rules) (reach : P.Reaches group x)
    (row : Policy.splitRowObj obj = some (ty, rid)) : (ty, rid) ∈ P.readRowsForGroup group :=
  Policy.mem_readRowsForGroup.mpr ⟨_, rule, reach, show Policy.isRead "read" = true by decide, row⟩

private theorem exists_of_changed {P P' : Policy} {sub ty rid : String}
    (changed : P.authorizeRow sub ty rid .read ≠ P'.authorizeRow sub ty rid .read) :
    (∃ x, ⟨x, rowObject ty rid, "read"⟩ ∈ P.rules ∧ P.Reaches sub x ∧
        ¬ P'.authorizeRow sub ty rid .read = true) ∨
      ∃ x, ⟨x, rowObject ty rid, "read"⟩ ∈ P'.rules ∧ P'.Reaches sub x ∧
        ¬ P.authorizeRow sub ty rid .read = true := by
  cases now : P'.authorizeRow sub ty rid .read with
  | true =>
    rw [now] at changed
    obtain ⟨x, rule, reach⟩ := authorizeRow_iff.mp now
    exact .inr ⟨x, rule, reach, changed⟩
  | false =>
    rw [now] at changed
    obtain ⟨x, rule, reach⟩ := authorizeRow_iff.mp (Bool.eq_true_of_not_eq_false changed)
    exact .inl ⟨x, rule, reach, Bool.false_ne_true⟩

/-- A change of one rule only changes rights through that rule. -/
private theorem rule_of_changed {P P' : Policy} {sub x obj act ty rid : String}
    (links : P'.links = P.links)
    (rules : ∀ r : Rule, r ≠ ⟨x, obj, act⟩ → (r ∈ P'.rules ↔ r ∈ P.rules))
    (row : Policy.splitRowObj (rowObject ty rid) = some (ty, rid))
    (changed : P.authorizeRow sub ty rid .read ≠ P'.authorizeRow sub ty rid .read) :
    (ty, rid) ∈ touchedRows P' sub (.policyRuleAdd x obj act) := by
  rcases exists_of_changed changed with ⟨y, rule, reach, none⟩ | ⟨y, rule, reach, none⟩
  · have reach' : P'.Reaches sub y := reach.mono fun l mem => links.symm ▸ mem
    by_cases same : (⟨y, rowObject ty rid, "read"⟩ : Rule) = ⟨x, obj, act⟩
    · obtain ⟨rfl, rfl, rfl⟩ : y = x ∧ rowObject ty rid = obj ∧ "read" = act := by
        simpa using same
      exact rule_touched reach' row
    · exact absurd (authorizeRow_iff.mpr ⟨y, (rules _ same).mpr rule, reach'⟩) none
  · by_cases same : (⟨y, rowObject ty rid, "read"⟩ : Rule) = ⟨x, obj, act⟩
    · obtain ⟨rfl, rfl, rfl⟩ : y = x ∧ rowObject ty rid = obj ∧ "read" = act := by
        simpa using same
      exact rule_touched reach row
    · have before : P.Reaches sub y := reach.mono fun l mem => links ▸ mem
      exact absurd (authorizeRow_iff.mpr ⟨y, (rules _ same).mp rule, before⟩) none

/-- A change of links into one group only changes rights that this group has. -/
private theorem group_of_changed {P P' : Policy} {sub group ty rid : String}
    (rules : P'.rules = P.rules) (out : ∀ l ∈ P.links, l ∈ P'.links ∨ l.group = group)
    (into : ∀ l ∈ P'.links, l ∈ P.links ∨ l.group = group)
    (row : Policy.splitRowObj (rowObject ty rid) = some (ty, rid))
    (changed : P.authorizeRow sub ty rid .read ≠ P'.authorizeRow sub ty rid .read) :
    (ty, rid) ∈ P'.readRowsForGroup group := by
  rcases exists_of_changed changed with ⟨y, rule, reach, none⟩ | ⟨y, rule, reach, none⟩
  · rcases Policy.reaches_of_links_into out reach with kept | via
    · exact absurd (authorizeRow_iff.mpr ⟨y, rules.symm ▸ rule, kept⟩) none
    · exact group_touched (rules.symm ▸ rule) via row
  · rcases Policy.reaches_of_links_into into reach with old | via
    · exact absurd (authorizeRow_iff.mpr ⟨y, rules ▸ rule, old⟩) none
    · -- what the group reached before, it reaches without the links into it
      exact group_touched rule ((Policy.reaches_of_links_into out via).elim id id) row

/-- A row whose read right an operation changed is looked at, unless the operation is the
    membership of somebody else. -/
private theorem touched_of_changed {P : Policy} {sub ty rid : String} {op : WalOp}
    (policyOp : isPolicyOp op = true) (heard : Heard sub op)
    (row : Policy.splitRowObj (rowObject ty rid) = some (ty, rid))
    (changed : P.authorizeRow sub ty rid .read ≠ (P.apply op).authorizeRow sub ty rid .read) :
    (ty, rid) ∈ touchedRows (P.apply op) sub op := by
  cases op with
  | policyRuleAdd x obj act =>
    refine rule_of_changed ?_ (fun r other => ?_) row changed
    · rw [Policy.apply]
      split <;> rfl
    · rw [Policy.apply]
      split
      · exact Iff.rfl
      · simp [other]
  | policyRuleRemove x obj act =>
    have links : (P.apply (.policyRuleRemove x obj act)).links = P.links := rfl
    refine rule_of_changed links (fun r other => ?_) row changed
    simp [Policy.apply, other]
  | groupAdd user group =>
    obtain rfl : user = sub := heard
    simp only [touchedRows, if_true]
    refine group_of_changed ?_ (fun l mem => .inl ?_) (fun l mem => ?_) row changed
    · rw [Policy.apply]
      split <;> rfl
    · rw [Policy.apply]
      split
      · exact mem
      · exact List.mem_append_left _ mem
    · rw [Policy.apply] at mem
      split at mem
      · exact .inl mem
      · refine (List.mem_append.mp mem).imp id fun new => ?_
        rw [List.mem_singleton.mp new]
  | groupRemove user group =>
    obtain rfl : user = sub := heard
    simp only [touchedRows, if_true]
    have rules : (P.apply (.groupRemove user group)).rules = P.rules := rfl
    refine group_of_changed rules (fun l mem => ?_)
      (fun l mem => .inl (List.mem_filter.mp mem).1) row changed
    by_cases gone : l = ⟨user, group⟩
    · exact .inr (by rw [gone])
    · exact .inl (List.mem_filter.mpr ⟨mem, by simpa using gone⟩)
  -- the links of everybody go, and the rows of the group are looked at for everybody
  | groupDelete group =>
    have rules : (P.apply (.groupDelete group)).rules = P.rules := rfl
    refine group_of_changed rules (fun l mem => ?_)
      (fun l mem => .inl (List.mem_filter.mp mem).1) row changed
    by_cases gone : l.group = group
    · exact .inr gone
    · exact .inl (List.mem_filter.mpr ⟨mem, by simpa using gone⟩)
  | _ => cases policyOp

/-- On a file whose rows have plain names every mutation is followed, but for the membership of
    another user or group. -/
theorem followed_of_heard {M : Kv Value} {P : Policy} {sub f : String} {op : WalOp}
    (policyOp : isPolicyOp op = true) (heard : Heard sub op)
    (named : ∀ r ∈ FsStore.rowsForFile f M, r.1 ≠ "" ∧ r.2 ≠ "" ∧ f ∈ FsStore.filesForRow r.1 r.2 M)
    (plain : ∀ ty rid, Text.Free ':' ty → f ∈ FsStore.filesForRow ty rid M → Text.Free ':' rid) :
    Followed M P (P.apply op) sub (touchedRows (P.apply op) sub op) f := by
  refine .inr ⟨fun r mem => ?_, fun r mem attached _ => plain r.1 r.2 (touchedRows_free mem) attached⟩
  obtain ⟨ty_ne, rid_ne, attached⟩ := named r mem
  by_cases same : P.authorizeRow sub r.1 r.2 .read = (P.apply op).authorizeRow sub r.1 r.2 .read
  · exact .inr same
  · have row := Policy.splitRowObj_iff.mpr ⟨rfl, (rowsForFile_free mem).1, ty_ne, rid_ne⟩
    exact .inl ⟨touched_of_changed policyOp heard row same, attached⟩

end Snapshot

end RustApi
