import RustApi.Fs.Gc
import RustApi.Lib.Pool

/-!
# Clients and the sweeper at once

Any number of client requests and sweeps over one world. Each of them is a program of
atomic calls, and a run interleaves the calls in any order.
-/

namespace RustApi

open Lib

/-- A call on a session lock waits until the lock is free. -/
def Call.enabled : Call → World → Prop
  | .lock id, w => id ∉ w.locks
  | _, _ => True

instance Call.decidableEnabled (w : World) : (c : Call) → Decidable (c.enabled w)
  | .lock id => inferInstanceAs (Decidable (id ∉ w.locks))
  | .fs .. => .isTrue trivial
  | .wal _ => .isTrue trivial
  | .policy _ => .isTrue trivial
  | .s3 _ => .isTrue trivial
  | .unlock _ => .isTrue trivial
  | .now => .isTrue trivial
  | .uuid => .isTrue trivial

/-- Around the programs the clock moves forward and the policy changes. -/
def World.Around (w w' : World) : Prop :=
  ∃ clock enforcer, w.clock ≤ clock ∧ w' = { w with clock := clock, enforcer := enforcer }

theorem World.Around.refl (w : World) : World.Around w w := ⟨w.clock, w.enforcer, le_refl _, rfl⟩

/-- Programs of one kind over the world. -/
def worldSystem {Op : Type} (prog : Op → M Unit) : System Call.Ans Error World Op where
  exec := Call.exec
  enabled := Call.enabled
  mayFail := fun c _ => c.mayFail = true
  -- a handler runs to its end; the calls it makes may fail
  mayDrop := fun _ => False
  drop := fun _ _ w => w
  env := World.Around
  prog := prog

/-- How to follow a schedule, when every step of it is checked by `check`. -/
def worldScheduler {Op : Type} {prog : Op → M Unit}
    {cond : Pool Call.Ans Error World Op → Label Call Error Op → Prop}
    (check : Pool Call.Ans Error World Op → Label Call Error Op → Bool)
    (sound : ∀ s l, check s l = true → cond s l) : (worldSystem prog).Scheduler cond where
  enabled c w := decide (Call.enabled c w)
  mayFail c _ := c.mayFail
  mayDrop _ := false
  tick n w := { w with clock := w.clock + n }
  check := check
  enabled_sound c w ok := of_decide_eq_true (p := Call.enabled c w) ok
  mayFail_sound _ _ ok := ok
  mayDrop_sound _ bad := nomatch bad
  tick_sound n _ := ⟨_, _, Int.le_add_of_nonneg_right (Int.natCast_nonneg n), rfl⟩
  check_sound := sound

/-! ### What a call leaves alone -/

/-- A request to the object store changes no store row, no lock and not the clock, and hands out
    ids from the same supply. -/
private theorem S3Call.exec_frame (c : S3Call) (w : World) :
    ((c.exec w).2.master = w.master ∧ (c.exec w).2.locks = w.locks ∧
      (c.exec w).2.clock = w.clock) ∧
    (c.exec w).2.supply = w.supply ∧ w.issued ≤ (c.exec w).2.issued := by
  cases c with
  | createMultipart key => exact ⟨⟨rfl, rfl, rfl⟩, rfl, Nat.le_succ _⟩
  | putPart id idx body =>
    simp only [S3Call.exec]
    split
    · exact ⟨⟨rfl, rfl, rfl⟩, rfl, le_rfl⟩
    · -- the content id of the part is a new one
      exact ⟨⟨rfl, rfl, rfl⟩, rfl, Nat.le_succ _⟩
  | completeMultipart key id parts =>
    simp only [S3Call.exec]
    split
    · exact ⟨⟨rfl, rfl, rfl⟩, rfl, le_rfl⟩
    · split <;> exact ⟨⟨rfl, rfl, rfl⟩, rfl, le_rfl⟩
  | abortMultipart id =>
    simp only [S3Call.exec]
    split <;> exact ⟨⟨rfl, rfl, rfl⟩, rfl, le_rfl⟩
  | recordPart id idx content =>
    simp only [S3Call.exec]
    split <;> exact ⟨⟨rfl, rfl, rfl⟩, rfl, le_rfl⟩
  | removeStateOf bucket key id =>
    simp only [S3Call.exec]
    split
    · exact ⟨⟨rfl, rfl, rfl⟩, rfl, le_rfl⟩
    · split <;> exact ⟨⟨rfl, rfl, rfl⟩, rfl, le_rfl⟩
  | _ => exact ⟨⟨rfl, rfl, rfl⟩, rfl, le_rfl⟩

theorem S3Call.exec_apart (c : S3Call) (w : World) : (c.exec w).2.master = w.master ∧
    (c.exec w).2.locks = w.locks ∧ (c.exec w).2.clock = w.clock :=
  (c.exec_frame w).1

theorem S3Call.ids_exec (c : S3Call) (w : World) : (c.exec w).2.supply = w.supply ∧
    w.issued ≤ (c.exec w).2.issued :=
  (c.exec_frame w).2

/-! ### Session locks -/

/-- What can be answered: locks, the clock and fresh ids do not fail. -/
def Call.Answered : (c : Call) → Except Error c.Ans → Prop
  | .lock _, r | .unlock _, r => r = .ok ()
  | .now, r => ∃ t, r = .ok t
  | .uuid, r => ∃ id, r = .ok id
  | _, _ => True

theorem Call.answered_exec (c : Call) (w : World) : c.Answered (c.exec w).1 := by
  cases c with
  | now => exact ⟨_, rfl⟩
  | uuid => exact ⟨_, rfl⟩
  | lock id => rfl
  | unlock id => rfl
  | _ => trivial

theorem Call.answered_fault {c : Call} {e : Error} (mayFail : c.mayFail = true) :
    c.Answered (.error e) := by
  cases c with
  | now => cases mayFail
  | uuid => cases mayFail
  | lock id => cases mayFail
  | unlock id => cases mayFail
  | _ => trivial

/-- A guarded program takes the lock, runs and gives the lock back, whatever the result. -/
theorem withSession_conf {P : Prog.Protocol Call.Ans Error} {α : Type} {id : String} {body : M α}
    {post : P.State → Except Error α → Prop} {s : P.State}
    (answered : ∀ c r, P.possible c r → Call.Answered c r) (enter : P.allowed s (.lock id))
    (inside : body.Conf P (fun s' r => P.allowed s' (.unlock id) ∧
      post (P.track s' (.unlock id) (.ok ())) r) (P.track s (.lock id) (.ok ()))) :
    (withSession id body).Conf P post s := by
  refine Prog.conf_bind.mpr ⟨enter, fun r possible => ?_⟩
  -- the locks do not fail, so the error path of the two accesses is empty
  obtain rfl := answered _ r possible
  refine Prog.conf_bind.mpr (Prog.conf_attempt.mpr (inside.mono fun s' r leave => ?_))
  refine Prog.conf_bind.mpr ⟨leave.1, fun u possible => ?_⟩
  obtain rfl := answered _ u possible
  exact leave.2

/-! ### Access checks -/

/-- The reads of the access checks. -/
def Call.Checks : Call → Prop
  | .policy .authorizer => True
  | .fs .master (.getFile _) | .fs .master (.getRefInfo _) | .fs .master (.rowsForFile _) => True
  | _ => False

namespace FsEngine

theorem requireWrite_checks (sub rowType rowId : String) :
    (requireWrite sub rowType rowId).Only Call.Checks := by
  refine ⟨trivial, ?_⟩
  rintro (e | policy)
  · trivial
  · change Prog.Only _ (if _ then _ else _ : M Unit)
    split <;> trivial

theorem anyRowAuthorizes_checks (sub : String) (act : Action) (rows : List (String × String)) :
    (anyRowAuthorizes sub act rows).Only Call.Checks := by
  -- on the rows: the policy is read once for each
  induction rows with
  | nil => trivial
  | cons r rows ih =>
    refine ⟨trivial, ?_⟩
    rintro (e | policy)
    · trivial
    · change Prog.Only _ (if _ then _ else _ : M Bool)
      split
      · trivial
      · exact ih

theorem canAccess_checks (sub f : String) (act : Action) :
    (canAccess sub f act).Only Call.Checks := by
  refine ⟨trivial, ?_⟩
  rintro (e | found)
  · trivial
  cases found with
  | none => trivial
  | some rec =>
    refine ⟨trivial, ?_⟩
    rintro (e | rows)
    · trivial
    · change Prog.Only _ (if _ then _ else _ : M Bool)
      split
      · trivial
      · exact anyRowAuthorizes_checks sub act rows

theorem mayDelete_checks (rec : FileRecord) (f sub : String) :
    (mayDelete rec f sub).Only Call.Checks := by
  refine ⟨trivial, ?_⟩
  rintro (e | info)
  · trivial
  · change Prog.Only _ (if _ then _ else _ : M Bool)
    split
    · trivial
    · exact canAccess_checks sub f .delete

end FsEngine

/-! ### Requests -/

/-- The requests of clients, and the sweep. -/
inductive FsOp where
  | attach (rowType rowId fileId callerSub : String)
  | detach (rowType rowId fileId callerSub : String)
  | deleteFile (fileId callerSub : String)
  | initUpload (req : InitRequest) (ownerSub : String)
  | uploadPart (fileId : String) (partIndex : Nat) (body : List (Except Error Bytes))
      (declaredLen : Option Nat) (checksum : Option String) (callerSub : String)
  | completeUpload (fileId : String) (req : CompleteRequest) (callerSub : String)
  | cancelUpload (fileId callerSub : String)
  | sweep
  deriving DecidableEq

section

variable (bucket : String)

def FsOp.prog : FsOp → M Unit
  | .attach rowType rowId fileId callerSub => do
    let _ ← FsEngine.attach rowType rowId fileId callerSub
    pure ()
  | .detach rowType rowId fileId callerSub => do
    let _ ← FsEngine.detach rowType rowId fileId callerSub
    pure ()
  | .deleteFile fileId callerSub => FsEngine.deleteFile fileId callerSub
  | .initUpload req ownerSub => do
    let _ ← FsEngine.initUpload bucket req ownerSub
    pure ()
  | .uploadPart fileId partIndex body declaredLen checksum callerSub =>
    FsEngine.uploadPart bucket fileId partIndex body declaredLen checksum callerSub
  | .completeUpload fileId req callerSub => FsEngine.completeUpload bucket fileId req callerSub
  | .cancelUpload fileId callerSub => FsEngine.cancelUpload bucket fileId callerSub
  | .sweep => do
    let _ ← Gc.sweepOnce bucket
    pure ()

def fsSystem : System Call.Ans Error World FsOp := worldSystem (FsOp.prog bucket)

end

abbrev FsPool : Type := Pool Call.Ans Error World FsOp

/-- A world before the first request. -/
def fsPool (w : World) : FsPool := ⟨w, fun _ => none⟩

/-- Ids that get longer and longer. -/
def longIds (n : Nat) : String := String.ofList (List.replicate (n + 2) 'i')

theorem longIds_length (n : Nat) : (longIds n).length = n + 2 := by simp [longIds]

theorem longIds_injective : Function.Injective longIds := by
  intro a b same
  have := congrArg String.length same
  rw [longIds_length, longIds_length] at this
  omega

end RustApi
