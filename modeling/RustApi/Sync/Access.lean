import RustApi.Fs.Engine
import RustApi.Sync.Diff

/-!
# Offline visibility and online authorization

The replica filter and `FsEngine::can_access` are two access checks over the same
rows. The filter always admits the owner of a file; the engine asks the owner only
about a file that no row references.

## Main results

- `run_canAccess`: the engine's check as a function of the master and the policy.
- `buildFull_agrees_iff`: the replica of a rebuild holds exactly the files that the
  engine grants when no owner depends on the rows of a file for reading it.
-/

namespace RustApi

open Lib

namespace FsEngine

/-- The engine's check on one record of the master. -/
def accessible (M : Kv Value) (P : Policy) (sub : String) (act : Action) (rec : FileRecord) :
    Bool :=
  let rows := FsStore.rowsForFile rec.id M
  if rows.isEmpty then decide (rec.ownerSub = sub)
  else rows.any fun r => P.authorizeRow sub r.1 r.2 act

theorem run_anyRowAuthorizes (sub : String) (act : Action) (rows : List (String × String))
    (w : World) : (anyRowAuthorizes sub act rows).runOn w =
      (.ok (rows.any fun r => w.enforcer.policy.authorizeRow sub r.1 r.2 act), w) := by
  induction rows with
  | nil => rfl
  | cons r rows ih =>
    obtain ⟨ty, rid⟩ := r
    rw [anyRowAuthorizes, M.runOn_bind_of_ok (run_authorizer w), List.any_cons]
    by_cases granted : w.enforcer.policy.authorizeRow sub ty rid act = true
    · simp [granted]
    · rw [if_neg granted, ih]
      simp [granted]

theorem run_canAccess {sub f : String} {rec : FileRecord} {w : World} (act : Action)
    (own : rec.id = f) (found : FsStore.getFile f w.master = .ok (some rec)) :
    (canAccess sub f act).runOn w =
      (.ok (accessible w.master w.enforcer.policy sub act rec), w) := by
  subst own
  rw [canAccess, M.runOn_bind_of_ok (found ▸ Snapshot.run_getFile rec.id w)]
  simp only [M.runOn_bind_of_ok (Snapshot.run_rowsForFile rec.id w), accessible]
  by_cases unattached : (FsStore.rowsForFile rec.id w.master).isEmpty = true
  · simp [unattached]
  · rw [if_neg unattached, if_neg unattached, run_anyRowAuthorizes]

/-- A file that the master does not hold is granted to nobody. -/
theorem run_canAccess_missing {sub f : String} {w : World} (act : Action)
    (missing : ∀ rec, w.master[FsStore.fileKey f]? ≠ some (.file rec)) :
    ((canAccess sub f act).runOn w).1 ≠ .ok true := by
  have call := Snapshot.run_getFile f w
  cases here : FsStore.getFile f w.master with
  | error e =>
    rw [canAccess, M.runOn_bind_of_error (here ▸ call)]
    simp
  | ok found =>
    cases found with
    | none =>
      rw [canAccess, M.runOn_bind_of_ok (here ▸ call)]
      simp
    | some rec =>
      unfold FsStore.getFile at here
      split at here
      · cases here
      next r held => exact absurd held (missing r)
      · cases here

end FsEngine

namespace Snapshot

/-- The two checks differ on one kind of record: the subject owns it, it has rows, and none
    of them grants. -/
theorem readable_eq_accessible_iff {M : Kv Value} {P : Policy} {sub : String} {rec : FileRecord} :
    readable M P sub rec = FsEngine.accessible M P sub .read rec ↔
      (rec.ownerSub = sub → FsStore.rowsForFile rec.id M ≠ [] →
        ∃ r ∈ FsStore.rowsForFile rec.id M, P.authorizeRow sub r.1 r.2 .read = true) := by
  simp only [readable, FsEngine.accessible]
  cases rows : FsStore.rowsForFile rec.id M with
  | nil => simp [visible]
  | cons r more =>
    have nonempty : (!(visible P sub (r :: more)).isEmpty) =
        (r :: more).any fun r => P.authorizeRow sub r.1 r.2 .read := by
      rw [Bool.eq_iff_iff]
      simp only [visible, Bool.not_eq_true', List.isEmpty_eq_false_iff_exists_mem, List.mem_filter,
        List.any_eq_true]
    rw [nonempty]
    by_cases owner : rec.ownerSub = sub
    · simp only [owner, decide_true, Bool.true_or, List.isEmpty_cons, Bool.false_eq_true, if_false,
        ne_eq, reduceCtorEq, not_false_eq_true, true_imp_iff, ← List.any_eq_true]
      exact eq_comm
    · simp [owner]

/-- **Offline equals online** for a rebuild whose diff is aligned: the replica holds exactly
    the files that `can_access` grants, exactly when every attached file of the subject has
    a row that grants it to its owner. -/
theorem buildFull_agrees_iff {fuel : Nat} {sub : String} {w w' : World} {head : Nat} {D : Kv Value}
    (own : OwnIds w.master) (built : (buildFull fuel sub).runOn w = (.ok head, w'))
    (copied : ((copyFiltered fuel sub).runOn w).1 = .ok ([], D))
    (aligned : Aligned D (w.replicas sub)) :
    (∀ f, FsStore.fileKey f ∈ w'.replicas sub ↔
      ((FsEngine.canAccess sub f .read).runOn w).1 = .ok true) ↔
      ∀ rec, w.master[FsStore.fileKey rec.id]? = some (.file rec) → rec.ownerSub = sub →
        FsStore.rowsForFile rec.id w.master ≠ [] →
          ∃ r ∈ FsStore.rowsForFile rec.id w.master,
            w.enforcer.policy.authorizeRow sub r.1 r.2 .read = true := by
  obtain ⟨D₁, copied₁, -, -, -, data⟩ := buildFull_ok built
  obtain rfl : D₁ = D := by
    rw [copied₁] at copied
    simpa using copied
  have filtered := filterAll_filtered own (copyFiltered_ok copied₁).2
  have plain := filterAll_plain (copyFiltered_ok copied₁).2
  have replica : ∀ f, (w'.replicas sub)[FsStore.fileKey f]? = D₁[FsStore.fileKey f]? := by
    intro f
    have other : FsStore.fileKey f ≠ appliedKey := (appliedKey_ne_fileKey f).symm
    rw [data _ other, (lockstep_exact_iff plain).mpr aligned _ other]
  -- on a record of the master both sides are decided by its rows
  have held : ∀ rec, w.master[FsStore.fileKey rec.id]? = some (.file rec) →
      ((FsStore.fileKey rec.id ∈ w'.replicas sub ↔
        ((FsEngine.canAccess sub rec.id .read).runOn w).1 = .ok true) ↔
        readable w.master w.enforcer.policy sub rec =
          FsEngine.accessible w.master w.enforcer.policy sub .read rec) := by
    intro rec here
    have found : FsStore.getFile rec.id w.master = .ok (some rec) := by
      simp [FsStore.getFile, here]
    rw [FsEngine.run_canAccess .read rfl found, Kv.mem_iff_get, replica, filtered.file, here,
      Bool.eq_iff_iff]
    by_cases seen : readable w.master w.enforcer.policy sub rec = true
    · simp [seen]
    · simp [seen]
  constructor
  · intro agree rec here
    exact readable_eq_accessible_iff.mp ((held rec here).mp (agree rec.id))
  · intro granted f
    cases here : w.master[FsStore.fileKey f]? with
    | none =>
      have missing : ∀ rec, w.master[FsStore.fileKey f]? ≠ some (.file rec) := by simp [here]
      have absent : FsStore.fileKey f ∉ w'.replicas sub := by
        rw [Kv.not_mem_iff_get, replica, filtered.file, here]
      simp [absent, FsEngine.run_canAccess_missing .read missing]
    | some v =>
      cases v with
      | file rec =>
        -- the key of the record is the one of its id, so `held` applies
        obtain rfl : f = rec.id :=
          FsStore.fileKey_inj.mp (own _ rec (FsStore.metaKey_fileKey f) here)
        exact (held rec here).mpr (readable_eq_accessible_iff.mpr (granted rec here))
      | _ =>
        have missing : ∀ rec, w.master[FsStore.fileKey f]? ≠ some (.file rec) := by simp [here]
        have absent : FsStore.fileKey f ∉ w'.replicas sub := by
          rw [Kv.not_mem_iff_get, replica, filtered.file, here]
        simp [absent, FsEngine.run_canAccess_missing .read missing]

/-- A file of `alice` that is attached to one invoice, under the given rules. -/
def attachedFile (rules : List Rule) : World :=
  { World.init toString with
    master := ((FsStore.saveFile (aliceFile "b") ∅).insert
      (FsStore.relKey "invoice" "1" "b") .relation).insert (FsStore.refsKey "b") (.refs ⟨1, none⟩)
    enforcer := ⟨∅, ⟨rules, []⟩⟩ }

/-- Without a rule on the invoice the owner keeps the file offline but is refused online. -/
theorem buildFull_keeps_refused_file :
    ∃ w', (buildFull 8 "alice").runOn (attachedFile []) = (.ok 0, w') ∧
      (w'.replicas "alice")[FsStore.fileKey "b"]? = some (.file (aliceFile "b")) ∧
      ((FsEngine.canAccess "alice" "b" .read).runOn (attachedFile [])).1 = .ok false :=
  ⟨_, rfl, rfl, rfl⟩

private theorem attachedFile_held {rules : List Rule} {k : String} {rec : FileRecord}
    (here : (attachedFile rules).master[k]? = some (.file rec)) :
    k = FsStore.fileKey "b" ∧ rec = aliceFile "b" := by
  have mem := Kv.mem_toList.mpr here
  have rows : (attachedFile rules).master.toList =
      [(FsStore.fileKey "b", .file (aliceFile "b")), (FsStore.refsKey "b", .refs ⟨1, none⟩),
        (FsStore.relKey "invoice" "1" "b", .relation)] := rfl
  simpa [rows] using mem

/-- The same file with a read rule of the owner on the invoice. -/
def grantedFile : World := attachedFile [⟨"alice", "invoice:1", "read"⟩]

/-- With a rule on the invoice the two checks agree on the file. -/
theorem buildFull_agrees_on_granted_file :
    FsStore.fileKey "b" ∈ ((buildFull 8 "alice").runOn grantedFile).2.replicas "alice" ↔
      ((FsEngine.canAccess "alice" "b" .read).runOn grantedFile).1 = .ok true := by
  refine (buildFull_agrees_iff ?_
    (show (buildFull 8 "alice").runOn grantedFile =
      (.ok 0, ((buildFull 8 "alice").runOn grantedFile).2) from rfl)
    (show ((copyFiltered 8 "alice").runOn grantedFile).1 =
      .ok ([], grantedFile.master) from rfl) (by decide)).mpr ?_ "b"
  · rintro k rec - here
    obtain ⟨rfl, rfl⟩ := attachedFile_held here
    rfl
  · rintro rec here - -
    obtain ⟨-, rfl⟩ := attachedFile_held here
    exact ⟨("invoice", "1"), by decide, by decide⟩

end Snapshot

end RustApi
