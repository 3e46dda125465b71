import RustApi.Fs.Relations
import RustApi.Fs.System

/-!
# Attach against delete

`attach` looks the file up before it writes the marker, and `delete_file` reads the
reference count before it deletes the row with its markers. Both are several steps, so
a delete can commit between the lookup and the marker.

## Main results

- `no_dangling_relation`: in every run in which no row is deleted while an attach of
  that file is between its lookup and its write, a marker names a file that exists.
- `attach_outlives_file`: a run that leaves a marker of a deleted file.
-/

namespace RustApi

open Lib

namespace FsStore

/-- Every marker of a file has the record of that file beside it. -/
def NoDangling (kv : Kv Value) : Prop :=
  ∀ f, Text.Free ':' f → ∀ k ∈ kv, MarkerOf f k → HasRecord f kv

/-- The id of a stored record holds no separator. -/
def ProperIds (kv : Kv Value) : Prop := ∀ f, HasRecord f kv → Text.Free ':' f

/-- Markers may go as long as the records stay. -/
theorem NoDangling.shrink {kv kv' : Kv Value} (sound : NoDangling kv)
    (records : ∀ f, getFile f kv' = getFile f kv)
    (markers : ∀ k ∈ kv', IsMarker k → k ∈ kv) : NoDangling kv' := by
  intro f free k mem named
  obtain ⟨rec, found⟩ := sound f free k (markers k mem named.1) named
  exact ⟨rec, (records f).trans found⟩

theorem NoDangling.attach {ty rid f : String} {kv kv' : Kv Value} {n : Nat}
    (sound : NoDangling kv) (ids : ProperIds kv) (here : HasRecord f kv)
    (done : attach ty rid f kv = .ok (n, kv')) : NoDangling kv' := by
  intro g free k mem named
  have kept : HasRecord g kv → HasRecord g kv' := fun ⟨rec, found⟩ =>
    ⟨rec, (getFile_attach done g).trans found⟩
  have apart := (ne_of_isMarker named.1 (not_isMarker_refsKey f)).symm
  rcases (mem_attach_ok done apart).mp mem with old | rfl
  · exact kept (sound g free k old named)
  · -- The new marker names no file but the one that was found.
    obtain rfl := (markerOf_relKey free (ids f here)).mp named
    exact kept here

theorem NoDangling.deleteFile {f : String} {kv : Kv Value} (sound : NoDangling kv) :
    NoDangling (deleteFile f kv) := by
  intro g free k mem named
  obtain ⟨old, spared⟩ := mem_deleteFile.mp mem
  have other : g ≠ f := by
    rintro rfl
    exact spared (.inl named)
  obtain ⟨rec, found⟩ := sound g free k old named
  exact ⟨rec, (getFile_deleteFile other kv).trans found⟩

theorem ProperIds.shrink {kv kv' : Kv Value} (ids : ProperIds kv)
    (records : ∀ f, HasRecord f kv' → HasRecord f kv) : ProperIds kv' :=
  fun f here => ids f (records f here)

end FsStore

/-! ### What an attach has found -/

/-- The requests on relations and the deletion of files. -/
def FsOp.Relates : FsOp → Prop
  | .attach .. | .detach .. | .deleteFile .. => True
  | _ => False

instance : (op : FsOp) → Decidable op.Relates
  | .attach .. | .detach .. | .deleteFile .. => .isTrue trivial
  | .initUpload .. | .uploadPart .. | .completeUpload .. | .cancelUpload .. | .sweep => .isFalse id

/-- Whether a process attaches, and the file that it has found and not yet attached. -/
structure Found where
  attaching : Bool
  file : Option String
  deriving DecidableEq

@[reducible] def foundProtocol : Prog.Protocol Call.Ans Error where
  State := Found
  possible _ _ := True
  allowed st
    | .fs .master (.attach _ _ f) => st.file = some f
    | .fs .master (.getFile _) | .fs .master (.getRefInfo _) | .fs .master (.rowsForFile _)
    | .fs .master (.detach ..) | .fs .master (.deleteFile _) => True
    | .wal _ | .policy .authorizer | .s3 (.deleteObject _) => True
    | _ => False
  track st
    | .fs .master (.getFile f), .ok (some _) =>
      if st.attaching then { st with file := some f } else st
    | .fs .master (.attach ..), _ => { st with file := none }
    | _, _ => st

/-- What a process knows when it starts. -/
def FsOp.unfound : FsOp → Found
  | .attach .. => ⟨true, none⟩
  | _ => ⟨false, none⟩

/-- The file that a process has found and not yet attached. -/
def foundBy (op : FsOp) (past : List (Event Call.Ans Error)) : Option String :=
  (foundProtocol.observe op.unfound past).file

/-- Only requests on relations are started, and no row is deleted while an attach of its file
    is between the lookup and the write. -/
def Unhurried (s : FsPool) : Label Call Error FsOp → Prop
  | .spawn _ op => op.Relates
  | .call _ (.fs .master (.deleteFile f)) none =>
    ∀ pid p, s.procs pid = some p → foundBy p.op p.past ≠ some f
  | _ => True

/-! ### Conformance -/

private theorem checks_unattached {c : Call} (check : c.Checks) :
    foundProtocol.allowed ⟨false, none⟩ c ∧
      ∀ r, foundProtocol.track ⟨false, none⟩ c r = ⟨false, none⟩ := by
  cases c with
  | policy c => cases c <;> first | exact ⟨trivial, fun _ => rfl⟩ | cases check
  | fs side c =>
    cases side with
    | replica sub => cases check
    | master =>
      cases c with
      | getFile f =>
        refine ⟨trivial, ?_⟩
        rintro (e | _ | rec) <;> rfl
      | getRefInfo f => exact ⟨trivial, fun _ => rfl⟩
      | rowsForFile f => exact ⟨trivial, fun _ => rfl⟩
      | _ => cases check
  | _ => cases check

private theorem attach_found (ty rid f sub : String) :
    (FsEngine.attach ty rid f sub).Conf foundProtocol (fun _ _ => True) ⟨true, none⟩ := by
  refine Prog.conf_bind.mpr ⟨trivial, ?_⟩
  rintro (e | policy) -
  · trivial
  change Prog.Conf _ _ (if _ then _ else _ : M Unit) _
  split
  swap
  · trivial
  refine ⟨trivial, ?_⟩
  rintro (e | _ | rec) -
  · trivial
  · trivial
  refine ⟨rfl, ?_⟩
  rintro (e | count) -
  · trivial
  refine ⟨trivial, ?_⟩
  rintro (e | done) - <;> trivial

private theorem detach_found (ty rid f sub : String) :
    (FsEngine.detach ty rid f sub).Conf foundProtocol (fun _ _ => True) ⟨false, none⟩ := by
  refine (FsEngine.requireWrite_checks sub ty rid).conf_bind (fun _ => checks_unattached)
    (fun _ => trivial) fun _ => ?_
  refine ⟨trivial, ?_⟩
  rintro (e | count) -
  · trivial
  refine ⟨trivial, ?_⟩
  rintro (e | done) - <;> trivial

private theorem deleteFile_found (f sub : String) :
    (FsEngine.deleteFile f sub).Conf foundProtocol (fun _ _ => True) ⟨false, none⟩ := by
  refine ⟨trivial, ?_⟩
  rintro (e | _ | rec) -
  · trivial
  · trivial
  refine (FsEngine.mayDelete_checks rec f sub).conf_bind (fun _ => checks_unattached)
    (fun _ => trivial) fun permitted => ?_
  cases permitted with
  | false => trivial
  | true =>
    refine ⟨trivial, ?_⟩
    rintro (e | announced) -
    · trivial
    refine ⟨trivial, ?_⟩
    rintro (e | gone) -
    · trivial
    exact ⟨trivial, fun _ _ => trivial⟩

private theorem relates_found (bucket : String) {op : FsOp} (relates : op.Relates) :
    (op.prog bucket).Conf foundProtocol (fun _ _ => True) op.unfound := by
  cases op with
  | attach ty rid f sub =>
    exact Prog.conf_bind.mpr ((attach_found ty rid f sub).mono fun _ r _ => by
      cases r <;> trivial)
  | detach ty rid f sub =>
    exact Prog.conf_bind.mpr ((detach_found ty rid f sub).mono fun _ r _ => by
      cases r <;> trivial)
  | deleteFile f sub => exact deleteFile_found f sub
  | _ => cases relates

/-! ### Every step keeps the relations -/

/-- No relation dangles, and a file that an attach has found is still there. -/
structure Anchored (w : World) (view : Nat → Option (FsOp × Found)) : Prop where
  ids : FsStore.ProperIds w.master
  relations : FsStore.NoDangling w.master
  found : ∀ pid op st f, view pid = some (op, st) → st.file = some f → FsStore.HasRecord f w.master

section Steps

variable {w w' : World} {view : Nat → Option (FsOp × Found)} {pid : Nat} {op : FsOp} {st st' : Found}

/-- A step that keeps every record and makes no marker. -/
private theorem Anchored.still (sound : Anchored w view) (here : view pid = some (op, st))
    (records : ∀ f, FsStore.getFile f w'.master = FsStore.getFile f w.master)
    (markers : ∀ k ∈ w'.master, FsStore.IsMarker k → k ∈ w.master)
    (file : ∀ f, st'.file = some f → st.file = some f ∨ FsStore.HasRecord f w.master) :
    Anchored w' (Function.update view pid (some (op, st'))) := by
  have back : ∀ f, FsStore.HasRecord f w'.master ↔ FsStore.HasRecord f w.master := by
    intro f
    simp only [FsStore.HasRecord, records]
  refine ⟨sound.ids.shrink fun f => (back f).mp, sound.relations.shrink records markers, ?_⟩
  intro q op₁ st₁ f found held
  rw [back]
  rcases update_eq_some.mp found with ⟨rfl, ⟨⟩⟩ | ⟨-, found⟩
  · rcases file f held with old | new
    · exact sound.found q op st f here old
    · exact new
  · exact sound.found q op₁ st₁ f found held

/-- A step that leaves the store alone. -/
private theorem Anchored.quiet (sound : Anchored w view) (here : view pid = some (op, st))
    (same : w'.master = w.master)
    (file : ∀ f, st'.file = some f → st.file = some f ∨ FsStore.HasRecord f w.master) :
    Anchored w' (Function.update view pid (some (op, st'))) :=
  sound.still here (fun f => by rw [same]) (fun k mem _ => same ▸ mem) file

private theorem Anchored.attach (sound : Anchored w view) (here : view pid = some (op, st))
    {ty rid f : String} (seen : st.file = some f) :
    Anchored { w with master := ((FsCall.attach ty rid f).exec w.clock w.master).2 }
      (Function.update view pid (some (op, { st with file := none }))) := by
  have record := sound.found pid op st f here seen
  simp only [FsCall.exec]
  split
  next n kv done =>
    have records := FsStore.getFile_attach done
    have back : ∀ g, FsStore.HasRecord g kv ↔ FsStore.HasRecord g w.master := by
      intro g
      simp only [FsStore.HasRecord, records]
    refine ⟨sound.ids.shrink fun g => (back g).mp,
      sound.relations.attach sound.ids record done, ?_⟩
    intro q op₁ st₁ g found held
    rw [back]
    rcases update_eq_some.mp found with ⟨-, ⟨⟩⟩ | ⟨-, found⟩
    · cases held
    · exact sound.found q op₁ st₁ g found held
  · exact sound.quiet here rfl fun g held => by cases held

private theorem Anchored.detach (sound : Anchored w view) (here : view pid = some (op, st))
    (ty rid f : String) :
    Anchored { w with master := ((FsCall.detach ty rid f).exec w.clock w.master).2 }
      (Function.update view pid (some (op, st))) := by
  simp only [FsCall.exec]
  split
  next n kv done =>
    refine sound.still here (FsStore.getFile_detach done) (fun k mem marker => ?_)
      fun g held => .inl held
    have gone := FsStore.detach_ok done k
      (FsStore.ne_of_isMarker marker (FsStore.not_isMarker_refsKey f)).symm
    rw [Kv.mem_iff_get, gone] at mem
    split at mem
    · obtain ⟨v, bad⟩ := mem
      cases bad
    · exact Kv.mem_iff_get.mpr mem
  · exact sound.quiet here rfl fun g held => .inl held

/-- The row goes with all its markers, and nobody was about to write another one. -/
private theorem Anchored.deleteFile (sound : Anchored w view) (here : view pid = some (op, st))
    {f : String} (free : ∀ q op₁ st₁, view q = some (op₁, st₁) → st₁.file ≠ some f) :
    Anchored { w with master := FsStore.deleteFile f w.master }
      (Function.update view pid (some (op, st))) := by
  refine ⟨sound.ids.shrink fun g ⟨rec, found⟩ => ?_, sound.relations.deleteFile, ?_⟩
  · by_cases same : g = f
    · subst same
      simp [FsStore.getFile, FsStore.get_deleteFile] at found
    · exact ⟨rec, (FsStore.getFile_deleteFile same w.master).symm.trans found⟩
  · intro q op₁ st₁ g found held
    have before : view q = some (op₁, st₁) := by
      rcases update_eq_some.mp found with ⟨rfl, ⟨⟩⟩ | ⟨-, found⟩
      · exact here
      · exact found
    obtain ⟨rec, read⟩ := sound.found q op₁ st₁ g before held
    have other : g ≠ f := by
      rintro rfl
      exact free q op₁ st₁ before held
    exact ⟨rec, (FsStore.getFile_deleteFile other w.master).trans read⟩

end Steps

private theorem anchored_call {s : FsPool} {pid : Nat} {op : FsOp} {st : Found} {c : Call}
    (met : Unhurried s (.call pid c none))
    (here : foundProtocol.view FsOp.unfound s pid = some (op, st))
    (allowed : foundProtocol.allowed st c)
    (sound : Anchored s.world (foundProtocol.view FsOp.unfound s)) :
    Anchored (c.exec s.world).2 (Function.update (foundProtocol.view FsOp.unfound s) pid
      (some (op, foundProtocol.track st c (c.exec s.world).1))) := by
  have keep : ∀ f, st.file = some f → st.file = some f ∨ FsStore.HasRecord f s.world.master :=
    fun f held => .inl held
  cases c with
  | fs side c =>
    cases side with
    | replica sub => cases allowed
    | master =>
      cases c with
      | getFile f =>
        refine sound.quiet here rfl fun g held => ?_
        cases read : FsStore.getFile f s.world.master with
        | error e =>
          simp only [Call.exec, FsCall.exec, World.fsStore, read] at held
          exact .inl held
        | ok found =>
          cases found with
          | none =>
            simp only [Call.exec, FsCall.exec, World.fsStore, read] at held
            exact .inl held
          | some rec =>
            simp only [Call.exec, FsCall.exec, World.fsStore, read] at held
            split at held
            · cases held
              exact .inr ⟨rec, read⟩
            · exact .inl held
      | getRefInfo f => exact sound.quiet here rfl keep
      | rowsForFile f => exact sound.quiet here rfl keep
      | attach ty rid f => exact sound.attach here allowed
      | detach ty rid f => exact sound.detach here ty rid f
      | deleteFile f =>
        -- nobody is about to attach a file whose record goes, by the condition of the run
        refine sound.deleteFile here fun q op₁ st₁ found held => ?_
        obtain ⟨p, at_q, rfl, rfl⟩ := foundProtocol.view_eq_some.mp found
        exact met q p at_q held
      | _ => cases allowed
  | policy c =>
    cases c with
    | authorizer => exact sound.quiet here rfl keep
    | _ => cases allowed
  | wal c => exact sound.quiet here rfl keep
  | s3 c =>
    cases c with
    | deleteObject key => exact sound.quiet here rfl keep
    | _ => cases allowed
  | _ => cases allowed

private theorem anchored_preserved (bucket : String) :
    (fsSystem bucket).Preserves foundProtocol FsOp.unfound Unhurried (fun _ => Anchored) where
  answers _ _ := trivial
  faults _ _ _ := trivial
  spawn := by
    intro h s pid op relates _ sound
    refine ⟨sound.ids, sound.relations, fun q op₁ st₁ f found held => ?_⟩
    rcases update_eq_some.mp found with ⟨-, ⟨⟩⟩ | ⟨-, found⟩
    · cases op <;> cases held
    · exact sound.found q op₁ st₁ f found held
  env := by
    rintro h s w - ⟨clock, enforcer, -, rfl⟩ sound
    exact ⟨sound.ids, sound.relations, sound.found⟩
  call := fun _ _ _ _ _ _ met here allowed _ sound => anchored_call met here allowed sound
  fault := by
    intro h s pid op st c e _ here allowed _ sound
    refine sound.quiet here rfl fun f held => .inl ?_
    -- a lookup that failed has found nothing, and an attach that failed is over
    cases c with
    | fs side c =>
      cases side with
      | replica sub => cases allowed
      | master => cases c <;> first | exact held | cases held
    | _ => exact held
  drop := fun _ _ _ _ _ _ _ bad _ => nomatch bad

/-- **No dangling relation**. From a store whose relations are sound, in every run of attach,
    detach and delete requests in which no row is deleted while an attach of its file is
    between the lookup and the write, every marker of a file has its record beside it. -/
theorem no_dangling_relation (bucket : String) {w : World} (ids : FsStore.ProperIds w.master)
    (sound : FsStore.NoDangling w.master) {h : List (Label Call Error FsOp)} {s : FsPool}
    (run : (fsSystem bucket).Trace Unhurried (fsPool w) h s) :
    FsStore.NoDangling s.world.master :=
  (System.invariant_of_trace (fun _ _ _ relates => relates_found bucket relates)
    (anchored_preserved bucket) run (System.obeyed_of_no_procs _)
    ⟨ids, sound, fun _ _ _ _ bad => nomatch bad⟩).2.relations

/-- Only requests on relations are started. -/
def RelatesOnly (_ : FsPool) : Label Call Error FsOp → Prop
  | .spawn _ op => op.Relates
  | _ => True

/-- How to follow a schedule of requests on relations. -/
def relatesScheduler (bucket : String) : (fsSystem bucket).Scheduler RelatesOnly :=
  worldScheduler
    (fun _ l => match l with
      | .spawn _ op => decide op.Relates
      | _ => true)
    (by
      rintro s (⟨pid, op⟩ | ⟨pid, c, fault⟩ | pid | -) ok
      · exact of_decide_eq_true (p := op.Relates) ok
      · trivial
      · trivial
      · trivial)

theorem orderWorld_record (f : String) : FsStore.HasRecord f orderWorld.master ↔ f = "f" := by
  constructor
  · rintro ⟨rec, read⟩
    by_contra other
    have absent : orderWorld.master[FsStore.fileKey f]? = none := by
      simp [orderWorld, FsStore.fileKey_inj, Ne.symm other]
    simp [FsStore.getFile, absent] at read
  · rintro rfl
    exact ⟨_, rfl⟩

theorem orderWorld_ids : FsStore.ProperIds orderWorld.master := by
  intro f here
  obtain rfl := (orderWorld_record f).mp here
  decide

theorem orderWorld_sound : FsStore.NoDangling orderWorld.master := by
  intro f _ k mem named
  have only : FsStore.fileKey "f" = k := by simpa [orderWorld] using mem
  exact absurd named.1 (only ▸ FsStore.not_isMarker_fileKey "f")

/-- `bob`'s attach looks the file up, then `alice` deletes it, then the marker is written. -/
def lateAttach : List (System.Move Error FsOp) :=
  .spawn 0 (.attach "order" "7" "f" "bob") :: List.replicate 2 (.call 0) ++
    .spawn 1 (.deleteFile "f" "alice") :: List.replicate 5 (.call 1) ++ [.call 0]

private theorem lateAttach_played :
    ((relatesScheduler "b").play lateAttach [] (fsPool orderWorld)).isSome = true := by
  decide +kernel

/-- The marker of a file that is gone: the lookup of the attach and the count of the delete were
    both read before either wrote. -/
theorem attach_outlives_file :
    ¬ ∀ (bucket : String) (w : World) (h : List (Label Call Error FsOp)) (s : FsPool),
      FsStore.ProperIds w.master → FsStore.NoDangling w.master →
      (fsSystem bucket).Trace RelatesOnly (fsPool w) h s → FsStore.NoDangling s.world.master := by
  intro claim
  have sound := claim "b" orderWorld _ _ orderWorld_ids orderWorld_sound
    ((relatesScheduler "b").trace_of_play lateAttach _ lateAttach_played)
  have left : FsStore.relKey "order" "7" "f" ∈
      (((relatesScheduler "b").play lateAttach [] (fsPool orderWorld)).get
        lateAttach_played).2.world.master := by decide +kernel
  obtain ⟨rec, read⟩ := sound "f" (by decide) _ left (FsStore.markerOf_relKey_self _ _ _)
  have gone : FsStore.getFile "f" (((relatesScheduler "b").play lateAttach []
      (fsPool orderWorld)).get lateAttach_played).2.world.master = .ok none := by decide +kernel
  cases gone.symm.trans read

/-- How to follow a schedule without deletions. -/
def unhurriedScheduler (bucket : String) : (fsSystem bucket).Scheduler Unhurried :=
  worldScheduler
    (fun _ l => match l with
      | .spawn _ op => decide op.Relates
      | .call _ (.fs .master (.deleteFile _)) none => false
      | _ => true)
    (by
      rintro s (⟨pid, op⟩ | ⟨pid, c, fault⟩ | pid | -) ok
      · exact of_decide_eq_true (p := op.Relates) ok
      · unfold Unhurried
        split <;> simp_all
      · trivial
      · trivial)

/-- Two attaches of the file at once. -/
def twoAttaches : List (System.Move Error FsOp) :=
  .spawn 0 (.attach "order" "7" "f" "bob") :: .spawn 1 (.attach "order" "7:draft" "f" "bob") ::
    [.call 0, .call 1, .call 0, .call 1, .call 1, .call 0]

theorem twoAttaches_played :
    ((unhurriedScheduler "b").play twoAttaches [] (fsPool orderWorld)).isSome = true := by
  decide +kernel

theorem no_dangling_relation_attached :
    FsStore.NoDangling (((unhurriedScheduler "b").play twoAttaches []
      (fsPool orderWorld)).get twoAttaches_played).2.world.master :=
  no_dangling_relation "b" orderWorld_ids orderWorld_sound
    ((unhurriedScheduler "b").trace_of_play twoAttaches _ twoAttaches_played)

end RustApi
