import RustApi.Sync.Replay

/-!
# Replay after a crash

A replay commits its writes one by one and the coverage marker last. Whatever stops it
before the marker moves, the next replay over the same window performs the whole list of
writes again over a replica that already has a prefix of them.

## Main results

- `Scripted`: programs that read only the master and the policy and write only elementary
  writes; such a program is a fixed list of writes (`Scripted.follows`).
- `execActs_again`: after a prefix of a list of writes, the whole list leads to the same
  records and markers as the list alone.
- `replay_resumes`: an interrupted replay left the marker, and replaying again converges.
-/

namespace RustApi

open Lib

namespace Snapshot

/-! ### Writes on a store -/

/-- The store call that makes the write. -/
def Act.call : Act → FsCall
  | .drop f => .deleteFile f
  | .save rec => .saveFile rec
  | .mark ty rid f => .attach ty rid f
  | .unmark ty rid f => .detach ty rid f

/-- The write at time `now`. -/
def Act.exec (now : Int) (R : Kv Value) : Act → Except Error (Kv Value)
  | .drop f => .ok (FsStore.deleteFile f R)
  | .save rec => .ok (FsStore.saveFile rec R)
  | .mark ty rid f => (FsStore.attach ty rid f R).map (·.2)
  | .unmark ty rid f => (FsStore.detach now ty rid f R).map (·.2)

/-- The writes one after the other, up to the first that fails. -/
def execActs (now : Int) : List Act → Kv Value → Kv Value × Option Error
  | [], R => (R, none)
  | a :: acts, R =>
    match a.exec now R with
    | .error e => (R, some e)
    | .ok R' => execActs now acts R'

/-- The call answers as the write does, and a failed one changes nothing. -/
theorem Act.call_exec (a : Act) (now : Int) (R : Kv Value) :
    (∃ R' x, a.exec now R = .ok R' ∧ a.call.exec now R = (.ok x, R')) ∨
      ∃ e, a.exec now R = .error e ∧ a.call.exec now R = (.error e, R) := by
  cases a with
  | drop f => exact .inl ⟨_, (), rfl, rfl⟩
  | save rec => exact .inl ⟨_, (), rfl, rfl⟩
  | mark ty rid f =>
    simp only [Act.exec, Act.call, FsCall.exec]
    cases FsStore.attach ty rid f R with
    | error e => exact .inr ⟨e, rfl, rfl⟩
    | ok done => exact .inl ⟨done.2, done.1, rfl, rfl⟩
  | unmark ty rid f =>
    simp only [Act.exec, Act.call, FsCall.exec]
    cases FsStore.detach now ty rid f R with
    | error e => exact .inr ⟨e, rfl, rfl⟩
    | ok done => exact .inl ⟨done.2, done.1, rfl, rfl⟩

theorem Act.exec_performed {a : Act} {now : Int} {R R' : Kv Value} (done : a.exec now R = .ok R') :
    Performed [a] R R' := by
  cases a with
  | drop f =>
    obtain rfl := Except.ok.inj done
    exact performed_drop f R
  | save rec =>
    obtain rfl := Except.ok.inj done
    exact performed_save rec R
  | mark ty rid f =>
    simp only [Act.exec] at done
    cases attached : FsStore.attach ty rid f R with
    | error e => simp [attached, Except.map] at done
    | ok made =>
      obtain rfl : made.2 = R' := by simpa [attached, Except.map] using done
      exact performed_mark attached
  | unmark ty rid f =>
    simp only [Act.exec] at done
    cases detached : FsStore.detach now ty rid f R with
    | error e => simp [detached, Except.map] at done
    | ok made =>
      obtain rfl : made.2 = R' := by simpa [detached, Except.map] using done
      exact performed_unmark detached

/-! ### Which writes fail -/

/-- The reference row of `f` is absent or decodes. -/
def RefsOk (f : String) (R : Kv Value) : Prop := ∃ info, FsStore.getRefInfo f R = .ok info

/-- The file whose reference row the write reads. -/
def Act.counts : Act → Option String
  | .mark _ _ f | .unmark _ _ f => some f
  | _ => none

theorem getRefInfo_error {f : String} {R : Kv Value} {e : Error}
    (failed : FsStore.getRefInfo f R = .error e) : e = decodeError := by
  unfold FsStore.getRefInfo at failed
  split at failed
  · cases failed
  · cases failed
  · exact (Except.error.inj failed).symm

/-- A write fails exactly when it reads a reference row that does not decode. -/
theorem Act.exec_error {a : Act} {now : Int} {R : Kv Value} {e : Error}
    (failed : a.exec now R = .error e) :
    e = decodeError ∧ ∃ f, a.counts = some f ∧ ¬ RefsOk f R := by
  have refused : ∀ {f : String} {e' : Error}, FsStore.getRefInfo f R = .error e' →
      e' = decodeError ∧ ¬ RefsOk f R := by
    intro f e' read
    exact ⟨getRefInfo_error read, fun ⟨info, ok⟩ => nomatch ok.symm.trans read⟩
  cases a with
  | drop f => cases failed
  | save rec => cases failed
  | mark ty rid f =>
    simp only [Act.exec, FsStore.attach] at failed
    cases read : FsStore.getRefInfo f R with
    | error e' =>
      obtain ⟨rfl, bad⟩ := refused read
      simp only [read, Except.map] at failed
      exact ⟨(Except.error.inj failed).symm, f, rfl, bad⟩
    | ok info =>
      simp only [read] at failed
      split at failed <;> cases failed
  | unmark ty rid f =>
    simp only [Act.exec, FsStore.detach] at failed
    cases read : FsStore.getRefInfo f R with
    | error e' =>
      obtain ⟨rfl, bad⟩ := refused read
      simp only [read, Except.map] at failed
      exact ⟨(Except.error.inj failed).symm, f, rfl, bad⟩
    | ok info =>
      simp only [read] at failed
      split at failed <;> cases failed

theorem Act.refsOk_of_ok {a : Act} {now : Int} {R R' : Kv Value} (done : a.exec now R = .ok R')
    {f : String} (counts : a.counts = some f) : RefsOk f R := by
  cases a with
  | drop g => cases counts
  | save rec => cases counts
  | mark ty rid g =>
    obtain rfl : g = f := Option.some.inj counts
    simp only [Act.exec, FsStore.attach] at done
    cases read : FsStore.getRefInfo g R with
    | error e => simp [read, Except.map] at done
    | ok info => exact ⟨info, read⟩
  | unmark ty rid g =>
    obtain rfl : g = f := Option.some.inj counts
    simp only [Act.exec, FsStore.detach] at done
    cases read : FsStore.getRefInfo g R with
    | error e => simp [read, Except.map] at done
    | ok info => exact ⟨info, read⟩

theorem refsOk_congr {f : String} {R R' : Kv Value}
    (same : R'[FsStore.refsKey f]? = R[FsStore.refsKey f]?) : RefsOk f R' ↔ RefsOk f R := by
  simp only [RefsOk, FsStore.getRefInfo, same]

private theorem refsOk_of_refs {f : String} {R : Kv Value} {info : RefInfo}
    (here : R[FsStore.refsKey f]? = some (.refs info)) : RefsOk f R :=
  ⟨info, by simp [FsStore.getRefInfo, here]⟩

/-- `attach` and `detach` touch the reference row of their file only. -/
private theorem refsOk_attach {ty rid f g : String} {R R' : Kv Value} {n : Nat}
    (done : FsStore.attach ty rid f R = .ok (n, R')) : RefsOk g R' ↔ RefsOk g R := by
  by_cases same : g = f
  · subst same
    unfold FsStore.attach at done
    split at done
    · cases done
    next info read =>
      split at done
      · cases done
        exact Iff.rfl
      · cases done
        exact iff_of_true (refsOk_of_refs (by simp; rfl)) ⟨info, read⟩
  · refine refsOk_congr (FsStore.get_attach_ok done ?_ (FsStore.not_isMarker_refsKey g))
    exact fun bad => same (FsStore.refsKey_inj.mp bad)

private theorem refsOk_detach {now : Int} {ty rid f g : String} {R R' : Kv Value} {n : Nat}
    (done : FsStore.detach now ty rid f R = .ok (n, R')) : RefsOk g R' ↔ RefsOk g R := by
  by_cases same : g = f
  · subst same
    unfold FsStore.detach at done
    split at done
    · cases done
    next info read =>
      split at done
      · cases done
        exact iff_of_true (refsOk_of_refs (by simp; rfl)) ⟨info, read⟩
      · cases done
        exact Iff.rfl
  · refine refsOk_congr ?_
    rw [FsStore.detach_ok done _ (fun bad => same (FsStore.refsKey_inj.mp bad)), if_neg]
    exact FsStore.ne_of_isMarker (FsStore.isMarker_relKey ty rid f) (FsStore.not_isMarker_refsKey g)

/-- Only dropping a file repairs its reference row, and no write breaks one. -/
theorem Act.refsOk_exec {a : Act} {now : Int} {R R' : Kv Value} (done : a.exec now R = .ok R')
    (f : String) : RefsOk f R' ↔ RefsOk f R ∨ a = .drop f := by
  cases a with
  | drop g =>
    obtain rfl := Except.ok.inj done
    by_cases same : g = f
    · subst same
      exact iff_of_true ⟨.default, by simp [FsStore.getRefInfo, FsStore.get_deleteFile]⟩ (.inr rfl)
    · have untouched : ¬ (FsStore.MarkerOf g (FsStore.refsKey f) ∨
          FsStore.refsKey f = FsStore.fileKey g ∨ FsStore.refsKey f = FsStore.refsKey g) := by
        rintro (named | file | refs)
        · exact FsStore.not_isMarker_refsKey f named.1
        · exact FsStore.fileKey_ne_refsKey g f file.symm
        · exact same (FsStore.refsKey_inj.mp refs).symm
      have kept : RefsOk f (FsStore.deleteFile g R) ↔ RefsOk f R :=
        refsOk_congr (by rw [FsStore.get_deleteFile, if_neg untouched])
      simp [kept, same]
  | save rec =>
    obtain rfl := Except.ok.inj done
    have kept : RefsOk f (FsStore.saveFile rec R) ↔ RefsOk f R := refsOk_congr (by
      rw [FsStore.saveFile, Kv.get_insert, if_neg (FsStore.fileKey_ne_refsKey rec.id f)])
    simp [kept]
  | mark ty rid g =>
    simp only [Act.exec] at done
    cases attached : FsStore.attach ty rid g R with
    | error e => simp [attached, Except.map] at done
    | ok made =>
      obtain rfl : made.2 = R' := by simpa [attached, Except.map] using done
      rw [refsOk_attach attached]
      simp
  | unmark ty rid g =>
    simp only [Act.exec] at done
    cases detached : FsStore.detach now ty rid g R with
    | error e => simp [detached, Except.map] at done
    | ok made =>
      obtain rfl : made.2 = R' := by simpa [detached, Except.map] using done
      rw [refsOk_detach detached]
      simp

/-- The coverage marker is no row that a write touches. -/
theorem Act.applied_exec {a : Act} {now : Int} {R R' : Kv Value} (done : a.exec now R = .ok R') :
    R'[appliedKey]? = R[appliedKey]? := by
  have plain : ¬ FsStore.IsMarker appliedKey := by decide
  cases a with
  | drop f =>
    obtain rfl := Except.ok.inj done
    rw [FsStore.get_deleteFile, if_neg]
    rintro (named | file | refs)
    · exact plain named.1
    · exact appliedKey_ne_fileKey f file
    · exact appliedKey_ne_refsKey f refs
  | save rec =>
    obtain rfl := Except.ok.inj done
    rw [FsStore.saveFile, Kv.get_insert, if_neg (appliedKey_ne_fileKey rec.id).symm]
  | mark ty rid f =>
    simp only [Act.exec] at done
    cases attached : FsStore.attach ty rid f R with
    | error e => simp [attached, Except.map] at done
    | ok made =>
      obtain rfl : made.2 = R' := by simpa [attached, Except.map] using done
      exact FsStore.get_attach_ok attached (appliedKey_ne_refsKey f) plain
  | unmark ty rid f =>
    simp only [Act.exec] at done
    cases detached : FsStore.detach now ty rid f R with
    | error e => simp [detached, Except.map] at done
    | ok made =>
      obtain rfl : made.2 = R' := by simpa [detached, Except.map] using done
      rw [FsStore.detach_ok detached _ (appliedKey_ne_refsKey f), if_neg]
      exact FsStore.ne_of_isMarker (FsStore.isMarker_relKey ty rid f) plain

/-! ### The same writes twice -/

theorem execActs_applied {acts : List Act} {now : Int} {R R' : Kv Value} {e : Option Error}
    (ran : execActs now acts R = (R', e)) : R'[appliedKey]? = R[appliedKey]? := by
  induction acts generalizing R with
  | nil =>
    obtain ⟨rfl, -⟩ := Prod.mk.inj ran
    rfl
  | cons a acts ih =>
    rw [execActs] at ran
    split at ran
    · obtain ⟨rfl, -⟩ := Prod.mk.inj ran
      rfl
    next R₁ done => exact (ih ran).trans (Act.applied_exec done)

theorem execActs_append (now : Int) (as bs : List Act) {R R₁ : Kv Value}
    (first : execActs now as R = (R₁, none)) :
    execActs now (as ++ bs) R = execActs now bs R₁ := by
  induction as generalizing R with
  | nil =>
    obtain ⟨rfl, -⟩ := Prod.mk.inj first
    rfl
  | cons a as ih =>
    rw [List.cons_append, execActs]
    rw [execActs] at first
    cases done : a.exec now R with
    | error e => simp [done] at first
    | ok R' =>
      simp only [done] at first ⊢
      exact ih first

/-- Writes that all went through go through again wherever at least as many reference rows
    decode. -/
theorem execActs_mono {as : List Act} {now t : Int} {U U' V : Kv Value}
    (ran : execActs now as U = (U', none)) (ok : ∀ f, RefsOk f U → RefsOk f V) :
    ∃ V', execActs t as V = (V', none) ∧ Performed as U U' ∧ Performed as V V' ∧
      (∀ f, RefsOk f U' ↔ RefsOk f U ∨ .drop f ∈ as) ∧
      ∀ f, RefsOk f V' ↔ RefsOk f V ∨ .drop f ∈ as := by
  induction as generalizing U V with
  | nil =>
    obtain ⟨rfl, -⟩ := Prod.mk.inj ran
    exact ⟨V, rfl, .nil _, .nil _, by simp, by simp⟩
  | cons a as ih =>
    rw [execActs] at ran
    cases done : a.exec now U with
    | error e => simp [done] at ran
    | ok U₁ =>
      simp only [done] at ran
      cases again : a.exec t V with
      | error e =>
        obtain ⟨-, f, counts, bad⟩ := Act.exec_error again
        exact absurd (ok f (Act.refsOk_of_ok done counts)) bad
      | ok V₁ =>
        have step : ∀ f, RefsOk f U₁ → RefsOk f V₁ := by
          intro f here
          rw [Act.refsOk_exec done] at here
          exact (Act.refsOk_exec again f).mpr (here.imp_left (ok f))
        obtain ⟨V', rest, first, second, left, right⟩ := ih ran step
        refine ⟨V', by rw [execActs, again]; exact rest, (Act.exec_performed done).cons first,
          (Act.exec_performed again).cons second, fun f => ?_, fun f => ?_⟩
        · rw [left, Act.refsOk_exec done, List.mem_cons, or_assoc, @eq_comm _ a]
        · rw [right, Act.refsOk_exec again, List.mem_cons, or_assoc, @eq_comm _ a]

/-- Where the same reference rows decode, the same writes go through. -/
theorem execActs_agree {bs : List Act} {now now' : Int} {U U' V V' : Kv Value}
    {e e' : Option Error} (left : execActs now bs U = (U', e)) (right : execActs now' bs V = (V', e'))
    (ok : ∀ f, RefsOk f U ↔ RefsOk f V) :
    e = e' ∧ ∃ done, Performed done U U' ∧ Performed done V V' := by
  induction bs generalizing U V with
  | nil =>
    obtain ⟨rfl, rfl⟩ := Prod.mk.inj left
    obtain ⟨rfl, rfl⟩ := Prod.mk.inj right
    exact ⟨rfl, [], .nil _, .nil _⟩
  | cons b bs ih =>
    rw [execActs] at left right
    cases done : b.exec now U with
    | error e₁ =>
      obtain ⟨rfl, f, counts, bad⟩ := Act.exec_error done
      cases again : b.exec now' V with
      | error e₂ =>
        obtain ⟨rfl, -⟩ := Act.exec_error again
        simp only [done, again] at left right
        obtain ⟨rfl, rfl⟩ := Prod.mk.inj left
        obtain ⟨rfl, rfl⟩ := Prod.mk.inj right
        exact ⟨rfl, [], .nil _, .nil _⟩
      | ok V₁ => exact absurd ((ok f).mpr (Act.refsOk_of_ok again counts)) bad
    | ok U₁ =>
      cases again : b.exec now' V with
      | error e₂ =>
        obtain ⟨-, f, counts, bad⟩ := Act.exec_error again
        exact absurd ((ok f).mp (Act.refsOk_of_ok done counts)) bad
      | ok V₁ =>
        simp only [done, again] at left right
        have step : ∀ f, RefsOk f U₁ ↔ RefsOk f V₁ := by
          intro f
          rw [Act.refsOk_exec done, Act.refsOk_exec again, ok f]
        obtain ⟨same, acts, first, second⟩ := ih left right step
        exact ⟨same, b :: acts, (Act.exec_performed done).cons first,
          (Act.exec_performed again).cons second⟩

/-- Writing a prefix twice is writing it once. -/
theorem lastOf_again {α : Type} {verdict : Act → Option α} (as bs : List Act) :
    lastOf verdict (as ++ (as ++ bs)) = lastOf verdict (as ++ bs) := by
  rw [lastOf_append, lastOf_append]
  cases lastOf verdict bs with
  | some x => rfl
  | none => cases lastOf verdict as <;> rfl

theorem Performed.sameData {as bs : List Act} {R R₁ R₂ : Kv Value} (first : Performed as R R₁)
    (second : Performed bs R R₂)
    (file : ∀ f, lastOf (Act.file f) as = lastOf (Act.file f) bs)
    (marker : ∀ k, lastOf (Act.marker k) as = lastOf (Act.marker k) bs) : SameData R₁ R₂ := by
  refine ⟨fun f => ?_, fun k hk => ?_⟩
  · rw [first.file, second.file, file]
  · rw [first.marker k hk, second.marker k hk, marker]

/-- **Writes again**: once a prefix of the writes went through, all of them lead to the records and
    markers, and to the failure, that they lead to from the start. -/
theorem execActs_again {as acts : List Act} {now now' : Int} {R R₁ R₂ R₃ : Kv Value}
    {e e' : Option Error} (part : as <+: acts) (broken : execActs now as R = (R₁, none))
    (whole : execActs now acts R = (R₂, e)) (again : execActs now' acts R₁ = (R₃, e')) :
    e' = e ∧ SameData R₃ R₂ := by
  obtain ⟨bs, rfl⟩ := part
  rw [execActs_append now as bs broken] at whole
  -- The prefix goes through again, and it leaves the reference rows as the first time.
  obtain ⟨_, ran, once, -, ok, -⟩ := execActs_mono (t := now) broken fun _ here => here
  have grown : ∀ f, RefsOk f R → RefsOk f R₁ := fun f here => (ok f).mpr (.inl here)
  obtain ⟨R₁', twice, -, anew, -, ok'⟩ := execActs_mono broken grown
  rw [execActs_append now' as bs twice] at again
  have rows : ∀ f, RefsOk f R₁' ↔ RefsOk f R₁ := by
    intro f
    rw [ok', ok, or_assoc, or_self]
  obtain ⟨same, done, rest', rest⟩ := execActs_agree again whole rows
  refine ⟨same, ?_⟩
  exact (once.append (anew.append rest')).sameData (once.append rest)
    (fun f => lastOf_again as done) fun k => lastOf_again as done

/-! ### Programs that are a list of writes -/

/-- The calls by which a replay looks at the master and at the policy. -/
def Looks : Call → Prop
  | .fs .master (.getFile _) | .fs .master (.rowsForFile _) | .fs .master (.filesForRow ..)
  | .policy .authorizer => True
  | _ => False

/-- A program that looks at the master and the policy, and whose other calls are elementary writes
    to the replica of `sub`. A call that fails ends it, and no answer to a write is looked at. -/
inductive Scripted (sub : String) {α : Type} : M α → Prop
  | ret (r : Except Error α) : Scripted sub (.ret r)
  | look {c : Call} {next : Except Error c.Ans → M α} (looks : Looks c)
      (fails : ∀ e, next (.error e) = .ret (.error e))
      (rest : ∀ r, Scripted sub (next r)) : Scripted sub (.call c next)
  | write {a : Act} {next : Except Error a.call.Ans → M α} {rest : M α}
      (fails : ∀ e, next (.error e) = .ret (.error e)) (goes : ∀ x, next (.ok x) = rest)
      (scripted : Scripted sub rest) : Scripted sub (.call (.fs (.replica sub) a.call) next)

/-- The master and the policy are the same. -/
structure SameInputs (w v : World) : Prop where
  master : v.master = w.master
  policy : v.enforcer.policy = w.enforcer.policy

theorem SameInputs.setFsStore {sub : String} {w v : World} (same : SameInputs w v) (R : Kv Value) :
    SameInputs w (v.setFsStore (.replica sub) R) := ⟨same.master, same.policy⟩

/-- On the master and the policy of `w` the program is the list `acts` of writes, and it ends with
    `r` when all of them go through; an interrupted run has made a prefix of them. -/
structure Follows (sub : String) {α : Type} (w : World) (p : M α) (acts : List Act)
    (r : Except Error α) : Prop where
  run : ∀ v, SameInputs w v → p.runOn v =
    (((execActs v.clock acts (v.replicas sub)).2.elim r .error),
      v.setFsStore (.replica sub) (execActs v.clock acts (v.replicas sub)).1)
  cut : ∀ v v', SameInputs w v → p.Cut Call.exec v v' → ∃ as R, as <+: acts ∧
    execActs v.clock as (v.replicas sub) = (R, none) ∧ v' = v.setFsStore (.replica sub) R

theorem Looks.exec {c : Call} (looks : Looks c) {w v : World} (same : SameInputs w v) :
    c.exec v = ((c.exec w).1, v) := by
  cases c with
  | fs side c =>
    cases side with
    | replica sub => cases looks
    | master =>
      cases c with
      | getFile f => exact Prod.ext (congrArg (FsStore.getFile f) same.master) rfl
      | rowsForFile f =>
        exact Prod.ext (congrArg (fun M => (FsCall.exec 0 (.rowsForFile f) M).1) same.master) rfl
      | filesForRow ty rid =>
        exact Prod.ext (congrArg (fun M => (FsCall.exec 0 (.filesForRow ty rid) M).1) same.master)
          rfl
      | _ => cases looks
  | policy c =>
    cases c with
    | authorizer => exact Prod.ext (congrArg Except.ok same.policy) rfl
    | _ => cases looks
  | _ => cases looks

/-- **A scripted program is a list of writes.** -/
theorem Scripted.follows {sub : String} {α : Type} {p : M α} (scripted : Scripted sub p)
    (w : World) : ∃ acts r, Follows sub w p acts r := by
  -- on the script: a look does the same in every such world, a write is the next act
  induction scripted with
  | ret r =>
    refine ⟨[], r, fun v _ => ?_, fun v v' _ cut => cut.elim⟩
    exact congrArg _ (World.setFsStore_fsStore v (.replica sub)).symm
  | @look c next looks _ _ ih =>
    obtain ⟨acts, r, follows⟩ := ih (c.exec w).1
    refine ⟨acts, r, fun v same => ?_, fun v v' same cut => ?_⟩
    · have step : M.runOn (.call c next) v = (next (c.exec w).1).runOn v := by
        rw [M.runOn, Prog.run, looks.exec same]
        rfl
      exact step.trans (follows.run v same)
    · rcases cut with rfl | later
      · exact ⟨[], v'.replicas sub, List.nil_prefix, rfl,
          (World.setFsStore_fsStore v' (.replica sub)).symm⟩
      · rw [looks.exec same] at later
        exact follows.cut v v' same later
  | @write a next rest fails goes _ ih =>
    obtain ⟨acts, r, follows⟩ := ih
    refine ⟨a :: acts, r, fun v same => ?_, fun v v' same cut => ?_⟩
    · rcases a.call_exec v.clock (v.replicas sub) with ⟨R, x, done, answer⟩ | ⟨e, failed, answer⟩
      · have step : M.runOn (.call (.fs (.replica sub) a.call) next) v =
            rest.runOn (v.setFsStore (.replica sub) R) := by
          rw [M.runOn, Prog.run]
          simp only [Call.exec, World.fsStore, answer, goes]
          rfl
        rw [step, follows.run _ (same.setFsStore R), execActs, done]
        simp [World.setFsStore]
      · have step : M.runOn (.call (.fs (.replica sub) a.call) next) v = (.error e, v) := by
          rw [M.runOn, Prog.run]
          simp only [Call.exec, World.fsStore, answer, fails]
          exact congrArg _ (World.setFsStore_fsStore v (.replica sub))
        rw [step, execActs, failed]
        exact congrArg _ (World.setFsStore_fsStore v (.replica sub)).symm
    · rcases cut with rfl | later
      · exact ⟨[], v'.replicas sub, List.nil_prefix, rfl,
          (World.setFsStore_fsStore v' (.replica sub)).symm⟩
      · rcases a.call_exec v.clock (v.replicas sub) with ⟨R, x, done, answer⟩ | ⟨e, failed, answer⟩
        · simp only [Call.exec, World.fsStore, answer, goes] at later
          obtain ⟨as, R', part, ran, rfl⟩ := follows.cut _ v' (same.setFsStore R) later
          refine ⟨a :: as, R', List.cons_prefix_cons.mpr ⟨rfl, part⟩, ?_, ?_⟩
          · rw [execActs, done]
            simpa [World.setFsStore] using ran
          · simp [World.setFsStore]
        · simp only [Call.exec, World.fsStore, answer, fails] at later
          exact later.elim

/-! ### The replay is scripted -/

theorem Scripted.bind {sub : String} {α β : Type} {p : M α} {f : α → M β} (first : Scripted sub p)
    (second : ∀ a, Scripted sub (f a)) : Scripted sub (p >>= f) := by
  induction first with
  | ret r =>
    cases r with
    | ok a => exact second a
    | error e => exact .ret _
  | look looks fails _ ih =>
    refine .look looks (fun e => ?_) fun r => ih r
    simp only [fails]
    rfl
  | write fails goes _ ih =>
    refine .write (fun e => ?_) (fun x => ?_) ih
    · simp only [fails]
      rfl
    · simp only [goes]
      rfl

theorem Scripted.strict {sub : String} {α : Type} {p : M α} (scripted : Scripted sub p) :
    p.Strict := by
  induction scripted with
  | ret r => trivial
  | look looks fails _ ih => exact ⟨fun e => ⟨e, fails e⟩, fun a => ih (.ok a)⟩
  | write fails goes _ ih => exact ⟨fun e => ⟨e, fails e⟩, fun x => goes x ▸ ih⟩

/-- A write whose answer is not used. -/
theorem Scripted.thenWrite {sub : String} {α : Type} (a : Act) {p : M α} (rest : Scripted sub p) :
    Scripted sub (onStore (.replica sub) a.call >>= fun _ => p) :=
  .write (fun _ => rfl) (fun _ => rfl) rest

theorem Scripted.lookup {sub : String} {c : Call} (looks : Looks c) :
    Scripted sub (Prog.perform c : M c.Ans) :=
  .look looks (fun _ => rfl) fun r => .ret r

private theorem authorizedRows_scripted (sub : String) (rows : List (String × String)) :
    Scripted sub (authorizedRows sub rows) := by
  induction rows with
  | nil => exact .ret _
  | cons r rows ih =>
    obtain ⟨ty, rid⟩ := r
    exact (Scripted.lookup (c := .policy .authorizer) trivial).bind fun policy =>
      ih.bind fun out => .ret _

private theorem canRead_scripted (sub f : String) : Scripted sub (canRead sub f) := by
  refine (Scripted.lookup (c := .fs .master (.getFile f)) trivial).bind fun found => ?_
  cases found with
  | none => exact .ret _
  | some rec =>
    change Scripted sub (if rec.ownerSub = sub then pure true else _ : M Bool)
    split
    · exact .ret _
    · refine Scripted.bind ?_ fun rows => .ret _
      exact (Scripted.lookup (c := .fs .master (.rowsForFile f)) trivial).bind fun rows =>
        authorizedRows_scripted sub rows

private theorem drop_scripted (sub f : String) :
    Scripted sub (onStore (.replica sub) (.deleteFile f)) :=
  .write (a := .drop f) (fun _ => rfl) (fun _ => rfl) (.ret (.ok ()))

private theorem resyncFile_scripted (sub ty rid f : String) :
    Scripted sub (resyncFile sub ty rid f) := by
  refine (Scripted.lookup (c := .fs .master (.getFile f)) trivial).bind fun found => ?_
  cases found with
  | none => exact drop_scripted sub f
  | some rec =>
    refine (canRead_scripted sub f).bind fun readable => ?_
    split
    · exact drop_scripted sub f
    · refine .thenWrite (.save rec) ((Scripted.lookup (c := .policy .authorizer) trivial).bind
        fun policy => ?_)
      split
      · exact .thenWrite (.mark ty rid f) (.ret _)
      · exact .thenWrite (.unmark ty rid f) (.ret _)

private theorem resyncFiles_scripted (sub ty rid : String) (files : List String) :
    Scripted sub (resyncFiles sub ty rid files) := by
  induction files with
  | nil => exact .ret _
  | cons f files ih => exact (resyncFile_scripted sub ty rid f).bind fun _ => ih

private theorem resyncRows_scripted (sub : String) (rows : List (String × String)) (total : Nat) :
    Scripted sub (resyncRows sub rows total) := by
  induction rows generalizing total with
  | nil => exact .ret _
  | cons r rows ih =>
    obtain ⟨ty, rid⟩ := r
    refine (Scripted.lookup (c := .fs .master (.filesForRow ty rid)) trivial).bind fun files => ?_
    split
    · exact .ret _
    · exact (resyncFiles_scripted sub ty rid files).bind fun _ => ih _

private theorem applyRuleOp_scripted (sub ruleSub obj act : String) :
    Scripted sub (applyRuleOp sub ruleSub obj act) := by
  unfold applyRuleOp
  split
  · exact .ret _
  split
  · exact .ret _
  refine (Scripted.lookup (c := .policy .authorizer) trivial).bind fun policy => ?_
  split
  · exact .ret _
  · exact resyncRows_scripted sub _ 0

private theorem applyMembershipOp_scripted (sub user group : String) :
    Scripted sub (applyMembershipOp sub user group) := by
  unfold applyMembershipOp
  split
  · exact .ret _
  · exact (Scripted.lookup (c := .policy .authorizer) trivial).bind fun policy =>
      resyncRows_scripted sub _ 0

/-- Whatever the operation, its replay is a list of writes. -/
theorem applyOp_scripted (sub : String) (op : WalOp) : Scripted sub (applyOp sub op) := by
  cases op with
  | policyAdd obj => exact .ret _
  | policyRemove obj => exact .ret _
  | policyRuleAdd ruleSub obj act => exact applyRuleOp_scripted sub ruleSub obj act
  | policyRuleRemove ruleSub obj act => exact applyRuleOp_scripted sub ruleSub obj act
  | groupAdd user group => exact applyMembershipOp_scripted sub user group
  | groupRemove user group => exact applyMembershipOp_scripted sub user group
  | groupDelete group =>
    refine (Scripted.lookup (c := .policy .authorizer) trivial).bind fun policy => ?_
    change Scripted sub (if _ then _ else _ : M ApplyOutcome)
    split
    · exact .ret _
    · exact resyncRows_scripted sub _ 0
  | fileCreate rec =>
    refine (canRead_scripted sub rec.id).bind fun readable => ?_
    split
    · exact .thenWrite (.save rec) (.ret _)
    · exact .ret _
  | fileDelete f => exact .thenWrite (.drop f) (.ret _)
  | attach ty rid f =>
    refine (Scripted.lookup (c := .fs .master (.getFile f)) trivial).bind fun found => ?_
    cases found with
    | none => exact .ret _
    | some rec =>
      refine (canRead_scripted sub f).bind fun readable => ?_
      split
      · refine .thenWrite (.save rec) ((Scripted.lookup (c := .policy .authorizer) trivial).bind
          fun policy => ?_)
        split
        · exact .thenWrite (.mark ty rid f) (.ret _)
        · exact .ret _
      · exact .ret _
  | detach ty rid f => exact .thenWrite (.unmark ty rid f) (.ret _)

theorem applyEntries_scripted (sub : String) (entries : List WalEntry) :
    Scripted sub (applyEntries sub entries) := by
  induction entries with
  | nil => exact .ret _
  | cons entry entries ih =>
    refine (applyOp_scripted sub entry.op).bind fun outcome => ?_
    cases outcome with
    | needsFullRebuild => exact .ret _
    | applied => exact ih

/-! ### Interrupted replays -/

/-- What `replay` does once the entries of the window are applied. -/
def closeReplay (head : Nat) (sub : String) : ApplyOutcome → M ReplayOutcome
  | .needsFullRebuild => pure .needsFullRebuild
  | .applied => do
    let _ ← onStore (.replica sub) (.setBytes appliedKey (.applied head))
    pure (.advanced head)

/-- What `replay` does once it has read its marker. -/
def replayFrom (head : Nat) (sub : String) : Option Nat → M ReplayOutcome
  | none => pure .needsFullRebuild
  | some applied =>
    if applied > head then pure .needsFullRebuild
    else if applied = head then pure (.advanced applied)
    else do
      let entries ← onWal (.range (applied + 1) head)
      if List.length entries > maxReplayOps ∨
          (List.any entries fun e => WalOp.isLegacyPolicyMark (WalEntry.op e)) = true then
        pure .needsFullRebuild
      else do
        let outcome ← applyEntries sub entries
        closeReplay head sub outcome

theorem replay_eq (head : Nat) (sub : String) :
    replay head sub = loadApplied sub >>= replayFrom head sub := by
  refine congrArg (loadApplied sub >>= ·) (funext fun marker => ?_)
  cases marker with
  | none => rfl
  | some applied =>
    refine if_congr Iff.rfl rfl (if_congr Iff.rfl rfl ?_)
    refine congrArg (onWal (.range (applied + 1) head) >>= ·) (funext fun entries => ?_)
    refine if_congr Iff.rfl rfl ?_
    refine congrArg (applyEntries sub entries >>= ·) (funext fun outcome => ?_)
    cases outcome <;> rfl

/-- The master, the policy and the window of the feed are the same. -/
structure SameWindow (head : Nat) (w v : World) : Prop extends SameInputs w v where
  window : ∀ lo, Wal.range lo head v.wal = Wal.range lo head w.wal

/-- The program writes nothing, and it ends alike on the same inputs. -/
private def WritesNothing (head : Nat) (w : World) (q : M ReplayOutcome) : Prop :=
  ∃ r, ∀ v, SameWindow head w v → q.runOn v = (r, v) ∧ ∀ v', q.Cut Call.exec v v' → v' = v

/-- The program applies the entries of the window and moves the marker. -/
private def AppliesWindow (head : Nat) (sub : String) (w : World) (q : M ReplayOutcome) : Prop :=
  ∃ entries, ∀ v, SameWindow head w v →
    q.runOn v = (applyEntries sub entries >>= closeReplay head sub).runOn v ∧
    ∀ v', q.Cut Call.exec v v' →
      v' = v ∨ (applyEntries sub entries >>= closeReplay head sub).Cut Call.exec v v'

private theorem replayFrom_decides (head : Nat) (sub : String) (w : World) (marker : Option Nat) :
    WritesNothing head w (replayFrom head sub marker) ∨
      AppliesWindow head sub w (replayFrom head sub marker) := by
  have early : ∀ outcome, WritesNothing head w (pure outcome) :=
    fun outcome => ⟨.ok outcome, fun v _ => ⟨rfl, fun v' cut => cut.elim⟩⟩
  cases marker with
  | none => exact .inl (early _)
  | some applied =>
    rw [replayFrom]
    split
    · exact .inl (early _)
    split
    · exact .inl (early _)
    have read : ∀ v, SameWindow head w v → (onWal (.range (applied + 1) head)).runOn v =
        (Wal.range (applied + 1) head w.wal, v) := fun v same => by
      rw [run_walRange, same.window]
    cases window : Wal.range (applied + 1) head w.wal with
    | error e =>
      refine .inl ⟨.error e, fun v same => ⟨?_, fun v' cut => ?_⟩⟩
      · exact M.runOn_bind_of_error (window ▸ read v same)
      · rcases Prog.cut_bind _ cut with (rfl | later) | ⟨a, v₁, ran, -⟩
        · rfl
        · exact later.elim
        · cases ran.symm.trans (window ▸ read v same)
    | ok entries =>
      have call : ∀ v, SameWindow head w v → (onWal (.range (applied + 1) head)).runOn v =
          (.ok entries, v) := fun v same => window ▸ read v same
      -- too many entries, or a mark of the old kind: the replica is rebuilt
      by_cases big : entries.length > maxReplayOps ∨
          (entries.any fun e => WalOp.isLegacyPolicyMark (WalEntry.op e)) = true
      · refine .inl ⟨.ok .needsFullRebuild, fun v same => ⟨?_, fun v' cut => ?_⟩⟩
        · rw [M.runOn_bind_of_ok (call v same), if_pos big]
          rfl
        · rcases Prog.cut_bind _ cut with (rfl | later) | ⟨a, v₁, ran, later⟩
          · rfl
          · exact later.elim
          · obtain ⟨rfl, rfl⟩ : entries = a ∧ v = v₁ := by
              simpa using ((call v same).symm.trans ran)
            rw [if_pos big] at later
            exact later.elim
      · refine .inr ⟨entries, fun v same => ⟨?_, fun v' cut => ?_⟩⟩
        · rw [M.runOn_bind_of_ok (call v same), if_neg big]
        · rcases Prog.cut_bind _ cut with (rfl | later) | ⟨a, v₁, ran, later⟩
          · exact .inl rfl
          · exact later.elim
          · obtain ⟨rfl, rfl⟩ : entries = a ∧ v = v₁ := by
              simpa using ((call v same).symm.trans ran)
            rw [if_neg big] at later
            exact .inr later

/-- A replay is cut off before it reads its marker, or after. -/
private theorem replay_cut {head : Nat} {sub : String} {v v' : World}
    (cut : (replay head sub).Cut Call.exec v v') : v' = v ∨
      (replayFrom head sub (coverage (v.replicas sub))).Cut Call.exec v v' := by
  rw [replay_eq] at cut
  rcases Prog.cut_bind _ cut with (rfl | later) | ⟨marker, v₁, ran, later⟩
  · exact .inl rfl
  · simp only [Call.exec, FsCall.exec, Prog.bind] at later
    split at later <;> exact later.elim
  · obtain ⟨same, rfl⟩ := Prod.mk.inj ((run_loadApplied sub v).symm.trans ran)
    obtain rfl := Except.ok.inj same
    exact .inr later

private theorem run_replay (head : Nat) (sub : String) (v : World) : (replay head sub).runOn v =
    (replayFrom head sub (coverage (v.replicas sub))).runOn v := by
  rw [replay_eq, M.runOn_bind_of_ok (run_loadApplied sub v)]

theorem replay_strict (head : Nat) (sub : String) : (replay head sub).Strict := by
  rw [replay_eq]
  refine Prog.strict_bind ?_ fun marker => ?_
  · refine Prog.strict_bind (Prog.strict_perform _) fun v => ?_
    split <;> trivial
  cases marker with
  | none => trivial
  | some applied =>
    rw [replayFrom]
    split
    · trivial
    split
    · trivial
    refine Prog.strict_bind (Prog.strict_perform _) fun entries => ?_
    split
    · trivial
    refine Prog.strict_bind (applyEntries_scripted sub entries).strict fun outcome => ?_
    cases outcome with
    | needsFullRebuild => trivial
    | applied => exact Prog.strict_bind (Prog.strict_perform _) fun _ => trivial

/-- `w'` is left by a replay from `w` that did not come to its end: it was cut off before one of
    its calls, one of its calls failed, or it ended with an error of its own. -/
inductive Interrupted (head : Nat) (sub : String) (w w' : World) : Prop where
  | cut (cut : (replay head sub).Cut Call.exec w w')
  | fault {k : Nat} {r : Except Error ReplayOutcome}
      (failed : (replay head sub).runFailing Call.exec Call.mayFail storeFault (some k) w =
        (r, w', none))
  | error {e : Error} (failed : (replay head sub).runOn w = (.error e, w'))

/-- A call that fails cuts the replay off. -/
private theorem Interrupted.cases {head : Nat} {sub : String} {w w' : World}
    (broken : Interrupted head sub w w') : (replay head sub).Cut Call.exec w w' ∨
      ∃ e, (replay head sub).runOn w = (.error e, w') := by
  cases broken with
  | cut cut => exact .inl cut
  | fault failed =>
    exact .inl (Prog.cut_of_failing _ _ _ (replay_strict head sub) failed)
  | error failed => exact .inr ⟨_, failed⟩

private theorem execActs_stuck {acts : List Act} {now : Int} {R R' : Kv Value} {e : Error}
    (ran : execActs now acts R = (R', some e)) :
    ∃ as, as <+: acts ∧ execActs now as R = (R', none) := by
  induction acts generalizing R with
  | nil => cases ran
  | cons a acts ih =>
    rw [execActs] at ran
    cases done : a.exec now R with
    | error e' =>
      simp only [done] at ran
      obtain ⟨rfl, -⟩ := Prod.mk.inj ran
      exact ⟨[], List.nil_prefix, rfl⟩
    | ok R₁ =>
      simp only [done] at ran
      obtain ⟨as, part, first⟩ := ih ran
      refine ⟨a :: as, List.cons_prefix_cons.mpr ⟨rfl, part⟩, ?_⟩
      rw [execActs, done]
      exact first

/-- Closing a replay answers by the outcome alone, and it writes no record and no marker. -/
private theorem closeReplay_keeps (head : Nat) (sub : String) (outcome : ApplyOutcome) :
    ∃ r, ∀ v, ∃ R, (closeReplay head sub outcome).runOn v =
      (.ok r, v.setFsStore (.replica sub) R) ∧ SameData R (v.replicas sub) := by
  cases outcome with
  | needsFullRebuild =>
    exact ⟨_, fun v => ⟨v.replicas sub,
      congrArg _ (World.setFsStore_fsStore v (.replica sub)).symm, fun _ => rfl, fun _ _ => Iff.rfl⟩⟩
  | applied =>
    refine ⟨_, fun v => ⟨(v.replicas sub).insert appliedKey (.applied head), rfl,
      fun f => ?_, fun k hk => ?_⟩⟩
    · rw [Kv.get_insert, if_neg (appliedKey_ne_fileKey f)]
    · rw [Kv.mem_iff_get, Kv.get_insert, if_neg (FsStore.ne_of_isMarker hk (by decide)),
        ← Kv.mem_iff_get]

theorem SameData.trans {a b c : Kv Value} (first : SameData a b) (second : SameData b c) :
    SameData a c :=
  ⟨fun f => (first.file f).trans (second.file f),
    fun k hk => (first.marker k hk).trans (second.marker k hk)⟩

theorem SameData.symm {a b : Kv Value} (same : SameData a b) : SameData b a :=
  ⟨fun f => (same.file f).symm, fun k hk => (same.marker k hk).symm⟩

/-- An interrupted window has made a prefix of its writes. -/
private theorem window_broken {head : Nat} {sub : String} {w w' : World} {entries : List WalEntry}
    {acts : List Act} {r : Except Error ApplyOutcome}
    (follows : Follows sub w (applyEntries sub entries) acts r)
    (broken : (applyEntries sub entries >>= closeReplay head sub).Cut Call.exec w w' ∨
      ∃ e, (applyEntries sub entries >>= closeReplay head sub).runOn w = (.error e, w')) :
    ∃ as R, as <+: acts ∧ execActs w.clock as (w.replicas sub) = (R, none) ∧
      w' = w.setFsStore (.replica sub) R := by
  have self : SameInputs w w := ⟨rfl, rfl⟩
  have whole := follows.run w self
  generalize effect : execActs w.clock acts (w.replicas sub) = out at whole
  obtain ⟨R, stuck⟩ := out
  rcases broken with cut | ⟨e, failed⟩
  · rcases Prog.cut_bind _ cut with cut | ⟨outcome, w₁, ran, later⟩
    · exact follows.cut w w' self cut
    · -- All writes went through, and only the marker is missing.
      obtain ⟨answer, rfl⟩ := Prod.mk.inj (whole.symm.trans ran)
      cases stuck with
      | some e => cases answer
      | none =>
        refine ⟨acts, R, List.prefix_rfl, effect, ?_⟩
        cases outcome with
        | needsFullRebuild => exact later.elim
        | applied =>
          rcases later with rfl | after
          · rfl
          · exact after.elim
  · cases stuck with
    | some e' =>
      obtain ⟨as, part, ran⟩ := execActs_stuck effect
      have left := M.runOn_bind_of_error (f := closeReplay head sub) whole
      obtain ⟨-, rfl⟩ := Prod.mk.inj (failed.symm.trans left)
      exact ⟨as, R, part, ran, rfl⟩
    | none =>
      cases r with
      | error e' =>
        have left := M.runOn_bind_of_error (f := closeReplay head sub) whole
        obtain ⟨-, rfl⟩ := Prod.mk.inj (failed.symm.trans left)
        exact ⟨acts, R, List.prefix_rfl, effect, rfl⟩
      | ok outcome =>
        obtain ⟨n, closes⟩ := closeReplay_keeps head sub outcome
        obtain ⟨R', closed, -⟩ := closes (w.setFsStore (.replica sub) R)
        rw [M.runOn_bind_of_ok whole, closed] at failed
        cases failed

/-- **Replay after a crash.** Whatever interrupts a replay, the coverage marker has its old value,
    and replaying again over the same window, master and policy ends as the uninterrupted replay
    would have, with the same file records and relation markers in the replica. -/
theorem replay_resumes {head : Nat} {sub : String} {w w' v : World}
    (broken : Interrupted head sub w w') (same : SameWindow head w v)
    (replica : v.replicas sub = w'.replicas sub) :
    (w'.replicas sub)[appliedKey]? = (w.replicas sub)[appliedKey]? ∧
      ((replay head sub).runOn v).1 = ((replay head sub).runOn w).1 ∧
      SameData (((replay head sub).runOn v).2.replicas sub)
        (((replay head sub).runOn w).2.replicas sub) := by
  have self : SameWindow head w w := ⟨⟨rfl, rfl⟩, fun _ => rfl⟩
  rcases replayFrom_decides head sub w (coverage (w.replicas sub)) with
    ⟨r, alike⟩ | ⟨entries, alike⟩
  · -- Nothing is written at all.
    obtain ⟨run, cuts⟩ := alike w self
    have untouched : w' = w := by
      rcases broken.cases with cut | ⟨e, failed⟩
      · exact (replay_cut cut).elim id (cuts w')
      · rw [run_replay, run] at failed
        exact (Prod.mk.inj failed).2.symm
    subst untouched
    obtain ⟨again, -⟩ := alike v same
    rw [run_replay, run_replay, replica, again, run]
    exact ⟨rfl, rfl, replica ▸ ⟨fun _ => rfl, fun _ _ => Iff.rfl⟩⟩
  · obtain ⟨run, cuts⟩ := alike w self
    obtain ⟨acts, r, follows⟩ := (applyEntries_scripted sub entries).follows w
    -- the interrupted replay got through the first of the acts
    obtain ⟨as, R₁, part, ran, left⟩ : ∃ as R, as <+: acts ∧
        execActs w.clock as (w.replicas sub) = (R, none) ∧
        w' = w.setFsStore (.replica sub) R := by
      rcases broken.cases with cut | ⟨e, failed⟩
      · rcases replay_cut cut with rfl | cut
        · exact ⟨[], w'.replicas sub, List.nil_prefix, rfl,
            (World.setFsStore_fsStore w' (.replica sub)).symm⟩
        rcases cuts w' cut with rfl | cut
        · exact ⟨[], w'.replicas sub, List.nil_prefix, rfl,
            (World.setFsStore_fsStore w' (.replica sub)).symm⟩
        · exact window_broken follows (.inl cut)
      · rw [run_replay, run] at failed
        exact window_broken follows (.inr ⟨e, failed⟩)
    have stored : w'.replicas sub = R₁ := by
      rw [left]
      simp [World.setFsStore]
    have marker : (w'.replicas sub)[appliedKey]? = (w.replicas sub)[appliedKey]? := by
      rw [stored]
      exact execActs_applied ran
    refine ⟨marker, ?_⟩
    -- the marker did not move, so the second replay decides as the first one did
    have covered : coverage (v.replicas sub) = coverage (w.replicas sub) := by
      simp only [coverage, replica, marker]
    obtain ⟨again, -⟩ := alike v same
    rw [run_replay, run_replay, covered, again, run]
    have first := follows.run w self.toSameInputs
    have second := follows.run v same.toSameInputs
    generalize once : execActs w.clock acts (w.replicas sub) = out at first
    obtain ⟨R₂, e⟩ := out
    rw [replica, stored] at second
    generalize twice : execActs v.clock acts R₁ = out at second
    obtain ⟨R₃, e'⟩ := out
    -- doing the first acts once more, and then the rest, ends in the same rows
    obtain ⟨rfl, data⟩ := execActs_again part ran once twice
    cases e' with
    | some e =>
      rw [M.runOn_bind_of_error first, M.runOn_bind_of_error second]
      exact ⟨rfl, by simpa [World.setFsStore] using data⟩
    | none =>
      cases r with
      | error e =>
        rw [M.runOn_bind_of_error first, M.runOn_bind_of_error second]
        exact ⟨rfl, by simpa [World.setFsStore] using data⟩
      | ok outcome =>
        rw [M.runOn_bind_of_ok first, M.runOn_bind_of_ok second]
        obtain ⟨n, closes⟩ := closeReplay_keeps head sub outcome
        obtain ⟨R₄, close₁, kept₁⟩ := closes (w.setFsStore (.replica sub) R₂)
        obtain ⟨R₅, close₂, kept₂⟩ := closes (v.setFsStore (.replica sub) R₃)
        rw [close₁, close₂]
        refine ⟨rfl, ?_⟩
        simp only [World.setFsStore, Function.update_self] at kept₁ kept₂ ⊢
        exact kept₂.trans (data.trans kept₁.symm)

/-- The feed deletes a file that the replica of `alice` still has. -/
def deletionPending : World :=
  { World.init toString with
    replicas := fun _ => (FsStore.saveFile (aliceFile "b") ∅).insert appliedKey (.applied 0)
    wal := ((Wal.append 0 (.fileDelete "b") ∅).toOption.map (·.2)).getD ∅ }

/-- The replica when the replay of the deletion fails at its marker. -/
def deletionCrashed : World :=
  ((replay 1 "alice").runFailing Call.exec Call.mayFail storeFault (some 3) deletionPending).2.1

/-- The replay is repeated at a later time. -/
theorem replay_resumes_deletion :
    FsStore.fileKey "b" ∉ deletionCrashed.replicas "alice" ∧
      (deletionCrashed.replicas "alice")[appliedKey]? = some (.applied 0) ∧
      ((replay 1 "alice").runOn { deletionCrashed with clock := 7 }).1 = .ok (.advanced 1) ∧
      SameData (((replay 1 "alice").runOn { deletionCrashed with clock := 7 }).2.replicas "alice")
        (((replay 1 "alice").runOn deletionPending).2.replicas "alice") := by
  have broken : Interrupted 1 "alice" deletionPending deletionCrashed := .fault (k := 3) rfl
  have same : SameWindow 1 deletionPending { deletionCrashed with clock := 7 } :=
    ⟨⟨rfl, rfl⟩, fun _ => rfl⟩
  obtain ⟨marker, answer, data⟩ := replay_resumes broken same rfl
  exact ⟨by decide +kernel, marker, answer, data⟩

end Snapshot

end RustApi
