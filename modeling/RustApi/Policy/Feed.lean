import RustApi.Policy.Change

/-!
# The feed of policy mutations under failure and retry

A mutation persists its change first and announces it in a later call. When a call in
between fails, the caller repeats the mutation, but then it may find nothing left to
change and announce nothing.

## Main definitions

- `Mutation.plan`: the calls of one attempt that can fail, predicted from the enforcer
  it starts from.
- `Mutation.Clean`: an attempt that fails at a given call leaves nothing untold.

## Main results

- `follows_plan`: an attempt performs the calls of its plan, up to the one that fails.
- `feed_complete_iff`: after any number of failed attempts and one that returned, the
  feed covers the changes exactly when every failed attempt was clean.
-/

namespace RustApi

open Lib

/-! ### Attempts -/

/-- The mutation calls. -/
inductive Mutation where
  | addRule (sub obj : String) (act : Action)
  | removeRule (sub obj : String) (act : Action)
  | assignGroup (userId group : String)
  | removeFromGroup (userId group : String)
  | deleteGroup (group : String)
  | claimSuperadmin (userId : String)
  | importS3 (dump : PolicyDump)
  deriving DecidableEq, Repr

namespace Mutation

/-- The call without its answer. -/
def prog : Mutation → M Unit
  | .addRule sub obj act => do let _ ← PolicyEngine.addRule sub obj act
  | .removeRule sub obj act => do let _ ← PolicyEngine.removeRule sub obj act
  | .assignGroup userId group => do let _ ← PolicyEngine.assignGroup userId group
  | .removeFromGroup userId group => do let _ ← PolicyEngine.removeFromGroup userId group
  | .deleteGroup group => do let _ ← PolicyEngine.deleteGroup group
  | .claimSuperadmin userId => do let _ ← PolicyEngine.claimSuperadmin userId
  | .importS3 dump => do let _ ← PolicyAdmin.importS3 dump

/-- Repeat the call until it returns. The `i`-th attempt fails at the call that the `i`-th
    number names, if it makes that many; behind the list nothing fails. -/
def retry (m : Mutation) : List Nat → World → Except Error Unit × World
  | [], w => m.prog.runOn w
  | j :: js, w =>
    match m.prog.failing (some j) w with
    | (.ok (), w', _) => (.ok (), w')
    | (.error _, w', _) => m.retry js w'

/-- The enforcer whose policy the call changes. -/
def opened : Mutation → Enforcer → Enforcer
  | .importS3 _, e => e.reopen
  | _, e => e

/-! ### Plans -/

/-- Each change is announced right after it was made. -/
def eager : List Change → Enforcer → List Note
  | [], _ => []
  | c :: cs, e =>
    if c.changed e then .mutate c true :: .append c.op :: eager cs (c.next e)
    else .mutate c false :: eager cs (c.next e)

def right (r : String × Action) : Change :=
  .addPolicy [PolicyEngine.superadminRole, r.1, r.2.text]

def link (userId : String) : Change := .addGroupingPolicy [userId, PolicyEngine.superadminRole]

/-- The calls of `ensure_superadmin_rules`. -/
def seed : List (String × Action) → Enforcer → List Note
  | [], _ => []
  | r :: rest, e => .mutate (right r) ((right r).changed e) :: seed rest ((right r).next e)

/-- The rights that it adds. -/
def seeded : List (String × Action) → Enforcer → List (String × Action)
  | [], _ => []
  | r :: rest, e =>
    if (right r).changed e then r :: seeded rest ((right r).next e)
    else seeded rest ((right r).next e)

/-- The changes of the calls that announce eagerly. -/
def changes : Mutation → List Change
  | .addRule sub obj act => [.addPolicy [sub, obj, act.text]]
  | .removeRule sub obj act => [.removePolicy sub obj act.text]
  | .assignGroup userId group => [.addGroupingPolicy [userId, group]]
  | .removeFromGroup userId group => [.removeGroupingPolicy userId group]
  | .deleteGroup group => [.removeFilteredGroupingPolicy group]
  | .claimSuperadmin _ => []
  | .importS3 dump => dump.p.map .addPolicy ++ dump.g.map .addGroupingPolicy

/-- The calls of `claim_superadmin` after the check: all changes come before the first
    announcement. -/
def claimPlan (userId : String) (e : Enforcer) : List Note :=
  if (e.policy.getUsersInGroup PolicyEngine.superadminRole).isEmpty then
    .mutate (link userId) ((link userId).changed e) ::
      (seed PolicyEngine.superadminRights ((link userId).next e) ++
        .append (link userId).op ::
          (seeded PolicyEngine.superadminRights ((link userId).next e)).map (.append <| right · |>.op))
  else
    seed PolicyEngine.superadminRights e ++
      (seeded PolicyEngine.superadminRights e).map (.append <| right · |>.op)

/-- The calls of one attempt that can fail. -/
def plan : Mutation → Enforcer → List Note
  | .claimSuperadmin userId, e => claimPlan userId e
  | .importS3 dump, e => .reopen :: eager (changes (.importS3 dump)) e.reopen
  | m, e => eager m.changes e

/-- An attempt from `e` that fails at its call `j` leaves nothing untold. Where every change
    is announced at once, the call that fails is not an announcement. `claim_superadmin`
    announces at its end, so there no effective change may come before the failure. -/
def Clean (m : Mutation) (e : Enforcer) (j : Nat) : Prop :=
  match m with
  | .claimSuperadmin _ => ∀ c, .mutate c true ∉ (m.plan e).take j
  | _ => ∀ op, (m.plan e)[j]? ≠ some (.append op)

/-- Every attempt that fails is clean. -/
def AllClean (m : Mutation) : List Nat → Enforcer → Prop
  | [], _ => True
  | j :: js, e =>
    j < (m.plan e).length → m.Clean e j ∧ m.AllClean js (after ((m.plan e).take j) e)

end Mutation

/-! ### Following a plan -/

/-- `w'` is `w` after the noted calls, with what they announced behind `entries`. -/
def Reached (w : World) (entries : List WalEntry) (notes : List Note) (w' : World) : Prop :=
  w'.enforcer = after notes w.enforcer ∧
    ∃ more, Wal.Log w'.wal (entries ++ more) ∧ more.map (·.op) = announced notes

theorem Reached.refl {w : World} {entries : List WalEntry} (log : Wal.Log w.wal entries) :
    Reached w entries [] w := ⟨rfl, [], by simpa using log, rfl⟩

/-- From an enforcer `e`, a program makes the noted calls and returns `a`; when one of them
    fails, it ends there with the fault. -/
structure Follows {α : Type} (p : M α) (e : Enforcer) (notes : List Note) (a : α) : Prop where
  stops : ∀ {w entries j}, w.enforcer = e → Wal.Log w.wal entries → j < notes.length →
    ∃ w', p.failing (some j) w = (.error storeFault, w', none) ∧
      Reached w entries (notes.take j) w'
  ends : ∀ {w entries k}, w.enforcer = e → Wal.Log w.wal entries →
    (∀ n, k = some n → notes.length ≤ n) →
    ∃ w', p.failing k w = (.ok a, w', k.map (· - notes.length)) ∧ Reached w entries notes w'

theorem Follows.pure {α : Type} (a : α) (e : Enforcer) : Follows (pure a : M α) e [] a where
  stops _ _ short := absurd short (Nat.not_lt_zero _)
  ends {w entries k} _ log _ := ⟨w, by cases k <;> rfl, .refl log⟩

theorem Follows.bind {α β : Type} {p : M α} {f : α → M β} {e : Enforcer} {a : α} {b : β}
    {notes more : List Note} (first : Follows p e notes a)
    (second : Follows (f a) (after notes e) more b) : Follows (p >>= f) e (notes ++ more) b where
  stops {w entries j} here log short := by
    rw [M.failing_bind]
    by_cases early : j < notes.length
    · obtain ⟨w', stopped, reached⟩ := first.stops here log early
      refine ⟨w', by rw [stopped], ?_⟩
      rwa [List.take_append_of_le_length early.le]
    · have taken : (notes ++ more).take j = notes ++ more.take (j - notes.length) := by
        rw [List.take_append, List.take_of_length_le (show notes.length ≤ j by omega)]
      obtain ⟨w₁, ended, at₁, more₁, log₁, ops₁⟩ := first.ends (k := some j) here log
        (by rintro n ⟨⟩; omega)
      obtain ⟨w', stopped, at₂, more₂, log₂, ops₂⟩ := second.stops (j := j - notes.length)
        (at₁.trans (by rw [here])) log₁ (by simp only [List.length_append] at short; omega)
      refine ⟨w', by rw [ended]; exact stopped, ?_, more₁ ++ more₂, ?_, ?_⟩
      · rw [at₂, at₁, taken, after_append]
      · rwa [← List.append_assoc]
      · rw [taken, List.map_append, ops₁, ops₂, announced_append]
  ends {w entries k} here log long := by
    rw [M.failing_bind]
    obtain ⟨w₁, ended, at₁, more₁, log₁, ops₁⟩ := first.ends (k := k) here log
      (fun n eq => by have := long n eq; simp only [List.length_append] at this; omega)
    obtain ⟨w', ended', at₂, more₂, log₂, ops₂⟩ :=
      second.ends (k := k.map (· - notes.length)) (at₁.trans (by rw [here])) log₁ (by
        intro n eq
        obtain ⟨n', rfl, rfl⟩ := Option.map_eq_some_iff.mp eq
        have := long n' rfl
        simp only [List.length_append] at this
        omega)
    refine ⟨w', ?_, ?_, more₁ ++ more₂, ?_, ?_⟩
    · rw [ended]
      simp only [ended', Option.map_map, List.length_append]
      congr 3
      funext n
      exact Nat.sub_sub ..
    · rw [at₂, at₁, after_append]
    · rwa [← List.append_assoc]
    · rw [List.map_append, ops₁, ops₂, announced_append]

/-- A program of one call that can fail. -/
theorem Follows.perform {c : Call} {e : Enforcer} {note : Note} {a : c.Ans}
    (mayFail : c.mayFail = true)
    (done : ∀ {w entries}, w.enforcer = e → Wal.Log w.wal entries →
      ∃ w', c.exec w = (.ok a, w') ∧ Reached w entries [note] w') :
    Follows (Prog.perform c : M c.Ans) e [note] a where
  stops {w entries j} here log short := by
    obtain rfl : j = 0 := by simpa using short
    refine ⟨w, ?_, .refl log⟩
    simp [M.failing, Prog.perform, Prog.runFailing, mayFail]
  ends {w entries k} here log long := by
    obtain ⟨w', eq, reached⟩ := done here log
    refine ⟨w', ?_, reached⟩
    cases k with
    | none => simp [M.failing, Prog.perform, Prog.runFailing, mayFail, eq]
    | some n =>
      obtain ⟨n, rfl⟩ : ∃ n', n = n' + 1 := ⟨n - 1, by have := long n rfl; simp at this; omega⟩
      simp [M.failing, Prog.perform, Prog.runFailing, mayFail, eq]

theorem follows_change {c : Change} (fits : c.Fits) (e : Enforcer) :
    Follows c.perform e [.mutate c (c.changed e)] (c.changed e) := by
  have effect := Change.effect_eq fits e
  have reached : ∀ {w : World} {entries : List WalEntry}, w.enforcer = e → Wal.Log w.wal entries →
      Reached w entries [.mutate c (c.changed e)] { w with enforcer := c.next e } := by
    rintro w entries rfl log
    exact ⟨rfl, [], by simpa using log, rfl⟩
  -- The five management calls only differ in the branch of `exec` that they take.
  cases c with
  | addPolicy rule | addGroupingPolicy link =>
    refine Follows.perform rfl fun {w entries} here log => ⟨_, ?_, reached here log⟩
    simp only [Call.exec, PolicyCall.exec, here]
    simp only [Change.effect] at effect
    simp [effect, Change.changed, Change.next, Change.effect]
  | removePolicy sub obj act | removeGroupingPolicy user group
  | removeFilteredGroupingPolicy group =>
    refine Follows.perform rfl fun {w entries} here log => ⟨_, ?_, reached here log⟩
    simp [Call.exec, PolicyCall.exec, here, Change.changed, Change.next, Change.effect]

theorem follows_append (op : WalOp) (e : Enforcer) :
    Follows (onWal (.append op)) e [.append op] () := by
  refine Follows.perform rfl fun {w entries} _ log => ?_
  obtain ⟨kv, written, log'⟩ := log.append_eq w.clock op
  refine ⟨{ w with wal := kv }, ?_, rfl, _, log', rfl⟩
  simp [Call.exec, WalCall.exec, written]

theorem follows_openStore (e : Enforcer) : Follows (onPolicy .openStore) e [.reopen] () := by
  refine Follows.perform rfl fun {w entries} here log => ?_
  exact ⟨{ w with enforcer := w.enforcer.reopen }, rfl, rfl, [], by simpa using log, rfl⟩

/-- A read under the lock makes no call that can fail. -/
theorem follows_getUsersForRole (role : String) (e : Enforcer) :
    Follows (onPolicy (.getUsersForRole role)) e [] (e.policy.getUsersInGroup role) where
  stops _ _ short := absurd short (Nat.not_lt_zero _)
  ends {w entries k} here log _ := by
    refine ⟨w, ?_, .refl log⟩
    subst here
    cases k <;> rfl

open PolicyEngine PolicyAdmin Mutation

private theorem follows_mutateThenAnnounce {c : Change} (fits : c.Fits) (e : Enforcer) :
    Follows (mutateThenAnnounce c c.op) e (eager [c] e) (c.changed e) := by
  unfold mutateThenAnnounce
  by_cases changed : c.changed e = true
  · have notes : eager [c] e = [.mutate c (c.changed e)] ++ ([.append c.op] ++ []) := by
      simp [eager, changed]
    rw [notes]
    refine (follows_change fits e).bind ?_
    simp only [changed, if_true]
    exact (follows_append c.op _).bind (.pure _ _)
  · have notes : eager [c] e = [.mutate c (c.changed e)] ++ [] := by
      simp [eager, changed]
    rw [notes]
    refine (follows_change fits e).bind ?_
    simp only [changed]
    exact .pure _ _

private theorem follows_importEach (add : List String → Change) {op : List String → WalOp}
    (count : ImportReport → ImportReport) (tells : ∀ row, (add row).op = op row)
    {rows : List (List String)} (fit : ∀ row ∈ rows, (add row).Fits) (e : Enforcer)
    (report : ImportReport) : ∃ report',
      Follows (importEach add op count rows report) e (eager (rows.map add) e) report' := by
  induction rows generalizing e report with
  | nil => exact ⟨report, .pure _ _⟩
  | cons row rest ih =>
    have first := follows_change (fit row (.head _)) e
    have fitRest : ∀ row ∈ rest, (add row).Fits := fun row mem => fit row (.tail _ mem)
    by_cases changed : (add row).changed e = true
    · obtain ⟨report', later⟩ := ih fitRest ((add row).next e) (count report)
      refine ⟨report', ?_⟩
      have notes : eager ((row :: rest).map add) e = [.mutate (add row) ((add row).changed e)] ++
          ([.append (op row)] ++ eager (rest.map add) ((add row).next e)) := by
        simp [eager, changed, tells]
      rw [notes]
      refine first.bind ?_
      simp only [changed, if_true]
      exact (follows_append (op row) _).bind later
    · obtain ⟨report', later⟩ := ih fitRest ((add row).next e)
        { report with duplicates := report.duplicates + 1 }
      refine ⟨report', ?_⟩
      have notes : eager ((row :: rest).map add) e = [.mutate (add row) ((add row).changed e)] ++
          eager (rest.map add) ((add row).next e) := by
        simp [eager, changed]
      rw [notes]
      refine first.bind ?_
      simp only [changed]
      exact later

private theorem eager_append (cs ds : List Change) (e : Enforcer) :
    eager (cs ++ ds) e = eager cs e ++ eager ds (after (eager cs e) e) := by
  induction cs generalizing e with
  | nil => rfl
  | cons c cs ih =>
    simp only [List.cons_append, eager]
    split
    · simp [ih, after, Note.apply]
    · simp [ih, after, Note.apply]

private theorem follows_importS3 {dump : PolicyDump} (fitP : ∀ rule ∈ dump.p, rule.length = 3)
    (fitG : ∀ link ∈ dump.g, link.length = 2) (e : Enforcer) :
    ∃ report, Follows (importS3 dump) e (plan (.importS3 dump) e) report := by
  obtain ⟨report, rules⟩ := follows_importEach .addPolicy
    (fun report => { report with rulesAdded := report.rulesAdded + 1 }) (fun _ => rfl)
    fitP e.reopen ⟨0, 0, 0⟩
  obtain ⟨report', groups⟩ := follows_importEach .addGroupingPolicy
    (fun report => { report with groupsAdded := report.groupsAdded + 1 }) (fun _ => rfl)
    fitG (after (eager (dump.p.map .addPolicy) e.reopen) e.reopen) report
  refine ⟨report', ?_⟩
  have notes : plan (.importS3 dump) e = [.reopen] ++ (eager (dump.p.map .addPolicy) e.reopen ++
      eager (dump.g.map .addGroupingPolicy)
        (after (eager (dump.p.map .addPolicy) e.reopen) e.reopen)) := by
    simp [plan, changes, eager_append]
  rw [notes]
  exact (follows_openStore e).bind (rules.bind groups)

private theorem after_mutate (c : Change) (changed : Bool) (e : Enforcer) :
    after [.mutate c changed] e = c.next e := by
  simp [after, Note.apply]

private theorem follows_ensure (rights : List (String × Action)) (e : Enforcer) :
    Follows (ensureSuperadminRules rights) e (seed rights e) (seeded rights e) := by
  induction rights generalizing e with
  | nil => exact .pure _ _
  | cons r rest ih =>
    have first : Follows (right r).perform e [.mutate (right r) ((right r).changed e)]
        ((right r).changed e) := follows_change (c := right r) rfl e
    have notes : seed (r :: rest) e = [.mutate (right r) ((right r).changed e)] ++
        (seed rest ((right r).next e) ++ []) := by simp [seed]
    rw [notes]
    refine first.bind ?_
    rw [after_mutate]
    refine (ih _).bind ?_
    rw [seeded]
    exact .pure _ _

private theorem follows_announceRights (rights : List (String × Action)) (e : Enforcer) :
    Follows (announceRights rights) e (rights.map (.append <| right · |>.op)) () := by
  induction rights generalizing e with
  | nil => exact .pure _ _
  | cons r rest ih => exact (follows_append _ e).bind (ih e)

private theorem follows_claimSuperadmin (userId : String) (e : Enforcer) :
    ∃ claimed, Follows (claimSuperadmin userId) e (claimPlan userId e) claimed := by
  by_cases first : (e.policy.getUsersInGroup superadminRole).isEmpty = true
  · refine ⟨true, ?_⟩
    have notes : claimPlan userId e = [] ++ ([.mutate (link userId) ((link userId).changed e)] ++
        (seed superadminRights ((link userId).next e) ++ ([.append (link userId).op] ++
          ((seeded superadminRights ((link userId).next e)).map
            (.append <| right · |>.op) ++ [])))) := by
      simp [claimPlan, first]
    rw [notes]
    refine (follows_getUsersForRole superadminRole e).bind ?_
    simp only [after, List.foldl_nil, first, not_true_eq_false, if_false]
    have linked : Follows (link userId).perform e _ _ := follows_change (c := link userId) rfl e
    refine linked.bind ?_
    rw [after_mutate]
    exact (follows_ensure _ _).bind
      ((follows_append _ _).bind ((follows_announceRights _ _).bind (.pure _ _)))
  · refine ⟨false, ?_⟩
    have notes : claimPlan userId e = [] ++ (seed superadminRights e ++
        ((seeded superadminRights e).map (.append <| right · |>.op) ++ [])) := by
      simp [claimPlan, first]
    rw [notes]
    refine (follows_getUsersForRole superadminRole e).bind ?_
    simp only [after, List.foldl_nil, first]
    exact (follows_ensure _ _).bind ((follows_announceRights _ _).bind (.pure _ _))

/-- The rows of an import have the field counts of the model. -/
def Mutation.Fits (m : Mutation) : Prop := ∀ c ∈ m.changes, c.Fits

/-- An attempt performs the calls of its plan. -/
theorem follows_plan {m : Mutation} (fits : m.Fits) (e : Enforcer) :
    Follows m.prog e (m.plan e) () := by
  have discard : ∀ {α : Type} {p : M α} {notes : List Note} {a : α}, Follows p e notes a →
      Follows (do let _ ← p : M Unit) e notes () := by
    intro α p notes a follows
    have whole := follows.bind (f := fun _ => (pure () : M Unit)) (.pure () _)
    rwa [List.append_nil] at whole
  cases m with
  | addRule | removeRule | assignGroup | removeFromGroup | deleteGroup =>
    exact discard (follows_mutateThenAnnounce (fits _ (.head _)) e)
  | claimSuperadmin userId =>
    obtain ⟨claimed, follows⟩ := follows_claimSuperadmin userId e
    exact discard follows
  | importS3 dump =>
    have fitP : ∀ rule ∈ dump.p, rule.length = 3 := fun rule mem =>
      fits (.addPolicy rule) (List.mem_append_left _ (List.mem_map_of_mem mem))
    have fitG : ∀ link ∈ dump.g, link.length = 2 := fun link mem =>
      fits (.addGroupingPolicy link) (List.mem_append_right _ (List.mem_map_of_mem mem))
    obtain ⟨report, follows⟩ := follows_importS3 fitP fitG e
    exact discard follows

/-! ### What a plan tells -/

/-- The operations a mutation announces. -/
def Mutation.Speaks : Mutation → WalOp → Prop
  | .claimSuperadmin _, op | .importS3 _, op => ∃ x, op.Adds x
  | m, op => ∃ c ∈ m.changes, op = c.op

theorem Mutation.apart (m : Mutation) : Apart m.Speaks := by
  -- Additions of one fact are the same operation.
  have additions : Apart fun op => ∃ x, op.Adds x := by
    rintro op op' ⟨y, adds⟩ ⟨z, adds'⟩ x tells tells'
    cases op <;> cases op' <;> cases x <;> simp_all [WalOp.Tells, WalOp.Adds, WalOp.Removes]
  cases m with
  | claimSuperadmin userId | importS3 dump => exact additions
  | addRule | removeRule | assignGroup | removeFromGroup | deleteGroup =>
    rintro op op' ⟨c, mem, rfl⟩ ⟨c', mem', rfl⟩ x - -
    rw [List.mem_singleton.mp mem, List.mem_singleton.mp mem']

section Eager

variable {cs : List Change} {e : Enforcer}

theorem mem_eager_mutate {c : Change} {changed : Bool} (mem : .mutate c changed ∈ eager cs e) :
    c ∈ cs := by
  induction cs generalizing e with
  | nil => cases mem
  | cons d cs ih =>
    rw [eager] at mem
    split at mem
    · simp only [List.mem_cons, Note.mutate.injEq, reduceCtorEq, false_or] at mem
      rcases mem with ⟨rfl, -⟩ | mem
      · exact .head _
      · exact .tail _ (ih mem)
    · simp only [List.mem_cons, Note.mutate.injEq] at mem
      rcases mem with ⟨rfl, -⟩ | mem
      · exact .head _
      · exact .tail _ (ih mem)

/-- An announcement in an eager plan has its change before it, also when the plan is cut. -/
theorem mem_take_eager_append {op : WalOp} {j : Nat} (mem : .append op ∈ (eager cs e).take j) :
    ∃ c, c.op = op ∧ .mutate c true ∈ (eager cs e).take j := by
  induction cs generalizing e j with
  | nil => simp [eager] at mem
  | cons d cs ih =>
    rw [eager] at mem ⊢
    by_cases changed : d.changed e = true
    · simp only [changed, if_true] at mem ⊢
      match j with
      | 0 | 1 => simp at mem
      | j + 2 =>
        simp only [List.take_succ_cons, List.mem_cons, Note.append.injEq, reduceCtorEq,
          false_or] at mem ⊢
        rcases mem with rfl | mem
        · exact ⟨d, rfl, .inl rfl⟩
        · obtain ⟨c, same, mem⟩ := ih mem
          exact ⟨c, same, .inr mem⟩
    · simp only [changed] at mem ⊢
      match j with
      | 0 => simp at mem
      | j + 1 =>
        simp only [Bool.false_eq_true, if_false, List.take_succ_cons, List.mem_cons,
          reduceCtorEq, false_or] at mem ⊢
        obtain ⟨c, same, mem⟩ := ih mem
        exact ⟨c, same, .inr mem⟩

theorem honestFrom_eager : HonestFrom e (eager cs e) := by
  induction cs generalizing e with
  | nil => trivial
  | cons c cs ih =>
    rw [eager]
    split
    next changed => exact ⟨changed.symm, trivial, ih⟩
    next changed => exact ⟨by simpa [Note.Honest] using changed, ih⟩

theorem of_eager {S : WalOp → Prop} (speaks : ∀ c ∈ cs, S c.op) : ∀ n ∈ eager cs e, n.Of S := by
  intro n mem
  cases n with
  | reopen => trivial
  | mutate c changed => exact speaks c (mem_eager_mutate mem)
  | append op =>
    have whole : .append op ∈ (eager cs e).take (eager cs e).length := by simpa using mem
    obtain ⟨c, rfl, effective⟩ := mem_take_eager_append whole
    exact speaks c (mem_eager_mutate (List.mem_of_mem_take effective))

/-- An eager plan that is cut leaves a change untold exactly when the cut falls on the
    announcement. -/
theorem allTold_take_eager {S : WalOp → Prop} (apart : Apart S) (speaks : ∀ c ∈ cs, S c.op)
    {j : Nat} : AllTold ((eager cs e).take j) ↔ ∀ op, (eager cs e)[j]? ≠ some (.append op) := by
  induction cs generalizing e j with
  | nil => simp [eager, AllTold]
  | cons c cs ih =>
    have later := fun e j => @ih e (fun c mem => speaks c (.tail _ mem)) j
    have honest : ∀ j, HonestFrom (c.next e) ((eager cs (c.next e)).take j) :=
      fun j => honestFrom_eager.take j
    have of : ∀ j, ∀ n ∈ (eager cs (c.next e)).take j, n.Of S :=
      fun j n mem => of_eager (fun c mem => speaks c (.tail _ mem)) n (List.mem_of_mem_take mem)
    rw [eager]
    by_cases changed : c.changed e = true
    · simp only [changed, if_true]
      match j with
      | 0 => simp [AllTold]
      | 1 => simp [AllTold]
      | j + 2 =>
        simp only [List.take_succ_cons, List.getElem?_cons_succ, ← later]
        constructor
        · intro told d mem
          have here := told d (.tail _ (.tail _ mem))
          simp only [List.mem_cons, reduceCtorEq, Note.append.injEq, false_or] at here
          rcases here with same | here
          · -- The operation was just announced, so its change is spent and not made again.
            have spent : Spent d.op (c.next e).policy := same ▸ Change.spent_of_changed changed
            exact absurd mem (apart.not_changed_of_spent (of j _ mem) (of j) (honest j) spent)
          · exact here
        · intro told d mem
          simp only [List.mem_cons, Note.mutate.injEq, reduceCtorEq, false_or, and_true] at mem
          rcases mem with rfl | mem
          · exact .tail _ (.head _)
          · exact .tail _ (.tail _ (told d mem))
    · simp only [changed]
      match j with
      | 0 => simp [AllTold]
      | j + 1 =>
        simp only [Bool.false_eq_true, if_false, List.take_succ_cons, List.getElem?_cons_succ,
          ← later]
        simp [AllTold]

end Eager

section Claim

variable {rights : List (String × Action)} {e : Enforcer} {userId : String}

theorem mem_seed_mutate {c : Change} :
    .mutate c true ∈ seed rights e ↔ ∃ r ∈ seeded rights e, c = right r := by
  induction rights generalizing e with
  | nil => simp [seed, seeded]
  | cons r rest ih =>
    simp only [seed, seeded, List.mem_cons, Note.mutate.injEq]
    by_cases changed : (right r).changed e = true
    · simp [changed, ih]
    · simp [changed, ih]

theorem not_mem_seed_append {op : WalOp} : .append op ∉ seed rights e := by
  induction rights generalizing e with
  | nil => simp [seed]
  | cons r rest ih => simp [seed, ih]

theorem honestFrom_seed : HonestFrom e (seed rights e) := by
  induction rights generalizing e with
  | nil => trivial
  | cons r rest ih => exact ⟨rfl, ih⟩

theorem seeded_sublist : (seeded rights e).Sublist rights := by
  induction rights generalizing e with
  | nil => exact .slnil
  | cons r rest ih =>
    rw [seeded]
    split
    · exact ih.cons_cons r
    · exact ih.cons r

theorem honestFrom_appends {e : Enforcer} {notes : List Note} (only : ∀ n ∈ notes, ∃ op, n = .append op) :
    HonestFrom e notes := by
  induction notes generalizing e with
  | nil => trivial
  | cons n notes ih =>
    obtain ⟨op, rfl⟩ := only n (.head _)
    exact ⟨trivial, ih fun n mem => only n (.tail _ mem)⟩

/-- The calls of a claim that change the policy. -/
def claimChanges (userId : String) (e : Enforcer) : List Note :=
  if (e.policy.getUsersInGroup superadminRole).isEmpty then
    .mutate (link userId) ((link userId).changed e) :: seed superadminRights ((link userId).next e)
  else seed superadminRights e

/-- What a claim announces behind them. -/
def claimOps (userId : String) (e : Enforcer) : List WalOp :=
  if (e.policy.getUsersInGroup superadminRole).isEmpty then
    (link userId).op :: (seeded superadminRights ((link userId).next e)).map (right · |>.op)
  else (seeded superadminRights e).map (right · |>.op)

theorem claimPlan_eq :
    claimPlan userId e = claimChanges userId e ++ (claimOps userId e).map .append := by
  unfold claimPlan claimChanges claimOps
  split
  · simp [Function.comp_def]
  · simp [Function.comp_def]

theorem mem_claimChanges_append {op : WalOp} : .append op ∉ claimChanges userId e := by
  unfold claimChanges
  split
  · simp [not_mem_seed_append]
  · exact not_mem_seed_append

/-- Every effective change of a claim is announced at its end. -/
theorem mem_claimOps_of_changed {c : Change} (mem : .mutate c true ∈ claimChanges userId e) :
    c.op ∈ claimOps userId e := by
  unfold claimChanges at mem
  unfold claimOps
  by_cases first : (e.policy.getUsersInGroup superadminRole).isEmpty = true
  · simp only [first, if_true, List.mem_cons, Note.mutate.injEq, mem_seed_mutate] at mem ⊢
    rcases mem with ⟨rfl, -⟩ | ⟨r, added, rfl⟩
    · exact .inl rfl
    · exact .inr (List.mem_map_of_mem added)
  · simp only [first, Bool.false_eq_true, if_false, mem_seed_mutate] at mem ⊢
    obtain ⟨r, added, rfl⟩ := mem
    exact List.mem_map_of_mem added

/-- What a claim announces was changed by it, or is the link of a first claim. -/
theorem changed_of_mem_claimOps {op : WalOp} (mem : op ∈ claimOps userId e) :
    (∃ c, c.op = op ∧ .mutate c true ∈ claimChanges userId e) ∨
      op = (link userId).op ∧ (e.policy.getUsersInGroup superadminRole).isEmpty = true := by
  unfold claimOps at mem
  unfold claimChanges
  by_cases first : (e.policy.getUsersInGroup superadminRole).isEmpty = true
  · simp only [first, if_true, List.mem_cons, List.mem_map] at mem ⊢
    rcases mem with rfl | ⟨r, added, rfl⟩
    · exact .inr ⟨rfl, trivial⟩
    · exact .inl ⟨right r, rfl, .inr (mem_seed_mutate.mpr ⟨r, added, rfl⟩)⟩
  · simp only [first, Bool.false_eq_true, if_false, List.mem_map] at mem ⊢
    obtain ⟨r, added, rfl⟩ := mem
    exact .inl ⟨right r, rfl, mem_seed_mutate.mpr ⟨r, added, rfl⟩⟩

theorem nodup_claimOps : (claimOps userId e).Nodup := by
  have distinct : (superadminRights.map (right · |>.op)).Nodup := by decide
  have rest : ∀ e, ((seeded superadminRights e).map (right · |>.op)).Nodup :=
    fun e => (seeded_sublist.map _).nodup distinct
  unfold claimOps
  split
  · refine List.nodup_cons.mpr ⟨?_, rest _⟩
    simp [link, right, Change.op]
  · exact rest _

/-- A claim that fails leaves a change untold as soon as it has made one. -/
theorem allTold_take_claim {j : Nat} (short : j < (claimPlan userId e).length) :
    AllTold ((claimPlan userId e).take j) ↔ ∀ c, .mutate c true ∉ (claimPlan userId e).take j := by
  constructor
  · intro told c mem
    have announced := told c mem
    rw [claimPlan_eq] at short mem announced told
    rw [List.take_append] at mem announced told
    set changes := claimChanges userId e
    set ops := claimOps userId e with ops_eq
    set k := j - changes.length
    -- An announcement was made, so all changes were, and `k` is the first operation missing.
    have some : .append c.op ∈ (ops.map Note.append).take k := by
      rcases List.mem_append.mp announced with early | late
      · exact absurd (List.mem_of_mem_take early) mem_claimChanges_append
      · exact late
    have past : changes.length ≤ j := by
      by_contra early
      have : k = 0 := by omega
      simp [this] at some
    rw [List.take_of_length_le past] at told
    have inside : k < ops.length := by
      simp only [List.length_append, List.length_map] at short
      omega
    have positive : 0 < k := by
      by_contra zero
      have : k = 0 := by omega
      simp [this] at some
    have nodup : ops.Nodup := nodup_claimOps
    rcases changed_of_mem_claimOps (List.getElem_mem inside) with ⟨d, same, made⟩ | ⟨same, first⟩
    · have again := told d (List.mem_append_left _ made)
      rcases List.mem_append.mp again with early | late
      · exact mem_claimChanges_append early
      · rw [← List.map_take, List.mem_map] at late
        obtain ⟨op, late, eq⟩ := late
        obtain ⟨i, lt, at_i⟩ := List.mem_take_iff_getElem.mp late
        have := nodup.getElem_inj_iff.mp (at_i.trans ((Note.append.inj eq).trans same))
        omega
    · -- The link of a first claim is announced first of all.
      have nonempty : 0 < ops.length := by omega
      have head : ops[0] = (link userId).op := by
        simp [ops_eq, claimOps, first]
      have := nodup.getElem_inj_iff.mp (same.trans head.symm)
      omega
  · intro none c mem
    exact absurd mem (none c)

end Claim

/-! ### Stores and models that agree -/

/-- Opening the store again would load the facts that are enforced. -/
def Synced (e : Enforcer) : Prop := ∀ x, e.reopen.policy.Holds x ↔ e.policy.Holds x

/-- A change that adds a fact. -/
def Change.IsAdd (c : Change) : Prop := ∃ x, c.op.Adds x

private theorem next_of_insertNew {c : Change} (fits : c.Fits) {e : Enforcer} {key : String}
    {row : List String} (write : c.write e.store = Change.write.insertNew key row e.store) :
    c.next e = e ∨ key ∉ e.store ∧
      c.next e = ⟨e.store.insert key row, e.policy.apply c.op⟩ := by
  rw [Change.next, Change.effect_eq fits, write, Change.write.insertNew]
  by_cases there : key ∈ e.store
  · exact .inl (by simp [Enforcer.settle, there])
  · exact .inr ⟨there, by simp [Enforcer.settle, there]⟩

/-- An addition writes its row unless the key is taken, and moves the model with it. -/
theorem Change.IsAdd.next_cases {c : Change} (add : c.IsAdd) (e : Enforcer) :
    c.next e = e ∨ ∃ key row, key ∉ e.store ∧
      c.next e = ⟨e.store.insert key row, e.policy.apply c.op⟩ ∧
      ∀ x, c.op.Adds x ↔ Text.startsWith x.row.1 key = true ∧ row = x.row.2 := by
  obtain ⟨y, add⟩ := add
  by_cases fits : c.Fits
  · cases c with
    | addPolicy rule =>
      refine (next_of_insertNew fits rfl).imp_right ?_
      rintro ⟨free, eq⟩
      refine ⟨_, _, free, eq, ?_⟩
      obtain ⟨sub, obj, act, rfl⟩ := List.length_eq_three.mp fits
      have starts := startsWith_ruleKey "p" [sub, obj, act]
      generalize Adapter.ruleKey "p" "p" [sub, obj, act] = key at starts
      rintro (⟨s, o, a⟩ | l)
      · simp only [Change.op, WalOp.Adds, Fact.row, List.cons.injEq, Rule.mk.injEq,
          List.getD_cons_zero, List.getD_cons_succ]
        constructor
        · rintro ⟨hs, ho, ha⟩
          exact ⟨starts, hs.symm, ho.symm, ha.symm, trivial⟩
        · rintro ⟨-, hs, ho, ha, -⟩
          exact ⟨hs.symm, ho.symm, ha.symm⟩
      · simp [Change.op, WalOp.Adds, Fact.row]
    | addGroupingPolicy link =>
      refine (next_of_insertNew fits rfl).imp_right ?_
      rintro ⟨free, eq⟩
      refine ⟨_, _, free, eq, ?_⟩
      obtain ⟨user, group, rfl⟩ := List.length_eq_two.mp fits
      have starts := startsWith_ruleKey "g" [user, group]
      generalize Adapter.ruleKey "g" "g" [user, group] = key at starts
      rintro (r | ⟨u, g⟩)
      · simp [Change.op, WalOp.Adds, Fact.row]
      · simp only [Change.op, WalOp.Adds, Fact.row, List.cons.injEq, Membership.mk.injEq,
          List.getD_cons_zero, List.getD_cons_succ]
        constructor
        · rintro ⟨hu, hg⟩
          exact ⟨starts, hu.symm, hg.symm, trivial⟩
        · rintro ⟨-, hu, hg, -⟩
          exact ⟨hu.symm, hg.symm⟩
    | removePolicy | removeGroupingPolicy | removeFilteredGroupingPolicy =>
      cases y <;> exact absurd add id
  · obtain ⟨err, effect⟩ := Change.effect_error fits e
    exact .inl (by simp [Change.next, effect])

theorem Synced.next {c : Change} (add : c.IsAdd) {e : Enforcer} (synced : Synced e) :
    Synced (c.next e) := by
  rcases add.next_cases e with same | ⟨key, row, free, eq, adds⟩
  · rwa [same]
  · rw [eq]
    intro x
    obtain ⟨y, addsY⟩ := add
    have keeps : ¬ c.op.Removes x := by
      intro removes
      cases op : c.op <;> cases x <;> cases y <;> simp_all [WalOp.Adds, WalOp.Removes]
    have loaded := synced x
    simp only [Enforcer.reopen, holds_loadPolicy] at loaded ⊢
    rw [Policy.holds_apply, adds, ← loaded]
    simp only [keeps, not_false_eq_true, and_true, Kv.get_insert]
    constructor
    · rintro ⟨k, starts, here⟩
      split at here
      next same => exact .inl ⟨same ▸ starts, Option.some.inj here⟩
      · exact .inr ⟨k, starts, here⟩
    · rintro (⟨starts, same⟩ | ⟨k, starts, here⟩)
      · exact ⟨key, starts, by simp [same]⟩
      · have other : key ≠ k := by
          rintro rfl
          rw [Kv.not_mem_iff_get.mp free] at here
          cases here
        exact ⟨k, starts, by simp [other, here]⟩

section Plan

variable {m : Mutation} {e : Enforcer}

/-- The store agrees with the model wherever the mutation opens it. -/
def Mutation.Ready (m : Mutation) (e : Enforcer) : Prop :=
  match m with
  | .importS3 _ => Synced e
  | _ => True

theorem speaks_of_mem_changes {c : Change} (mem : c ∈ m.changes) : m.Speaks c.op := by
  cases m with
  | claimSuperadmin userId => cases mem
  | importS3 dump =>
    rcases List.mem_append.mp mem with p | g
    · obtain ⟨rule, -, rfl⟩ := List.mem_map.mp p
      exact ⟨.rule _, rfl⟩
    · obtain ⟨link, -, rfl⟩ := List.mem_map.mp g
      exact ⟨.link _, rfl⟩
  | addRule | removeRule | assignGroup | removeFromGroup | deleteGroup => exact ⟨c, mem, rfl⟩

theorem mem_claimPlan_mutate {userId : String} {c : Change} {changed : Bool}
    (mem : .mutate c changed ∈ claimPlan userId e) : c = link userId ∨ ∃ r, c = right r := by
  have seeds : ∀ (rights : List (String × Action)) (e : Enforcer),
      .mutate c changed ∈ seed rights e → ∃ r, c = right r := by
    intro rights
    induction rights with
    | nil => simp [seed]
    | cons r rest ih =>
      intro e mem
      simp only [seed, List.mem_cons, Note.mutate.injEq] at mem
      rcases mem with ⟨rfl, -⟩ | mem
      · exact ⟨r, rfl⟩
      · exact ih _ mem
  rw [claimPlan_eq] at mem
  rcases List.mem_append.mp mem with change | op
  · unfold claimChanges at change
    split at change
    · simp only [List.mem_cons, Note.mutate.injEq] at change
      exact change.imp And.left (seeds _ _)
    · exact .inr (seeds _ _ change)
  · simp at op

theorem plan_of (m : Mutation) (e : Enforcer) : ∀ n ∈ m.plan e, n.Of m.Speaks := by
  cases m with
  | claimSuperadmin userId =>
    intro n mem
    have adds : ∀ c : Change, (c = link userId ∨ ∃ r, c = right r) → c.IsAdd := by
      rintro c (rfl | ⟨r, rfl⟩)
      · exact ⟨.link _, rfl⟩
      · exact ⟨.rule _, rfl⟩
    cases n with
    | reopen => trivial
    | mutate c changed => exact adds c (mem_claimPlan_mutate mem)
    | append op =>
      simp only [plan] at mem
      rw [claimPlan_eq] at mem
      rcases List.mem_append.mp mem with change | told
      · exact absurd change mem_claimChanges_append
      · obtain ⟨op', member, ⟨⟩⟩ := List.mem_map.mp told
        rcases changed_of_mem_claimOps member with ⟨c, rfl, made⟩ | ⟨rfl, -⟩
        · have planned : .mutate c true ∈ claimPlan userId e := by
            rw [claimPlan_eq]
            exact List.mem_append_left _ made
          exact adds c (mem_claimPlan_mutate planned)
        · exact adds _ (.inl rfl)
  | importS3 dump =>
    rintro n (_ | ⟨_, mem⟩)
    · trivial
    · exact of_eager (fun c => speaks_of_mem_changes) n mem
  | addRule | removeRule | assignGroup | removeFromGroup | deleteGroup =>
    exact of_eager fun c => speaks_of_mem_changes

theorem plan_honest (ready : m.Ready e) : HonestFrom e (m.plan e) := by
  cases m with
  | claimSuperadmin userId =>
    simp only [plan]
    rw [claimPlan_eq, honestFrom_append]
    refine ⟨?_, honestFrom_appends fun n mem => ?_⟩
    · unfold claimChanges
      split
      · exact ⟨rfl, honestFrom_seed⟩
      · exact honestFrom_seed
    · obtain ⟨op, -, rfl⟩ := List.mem_map.mp mem
      exact ⟨op, rfl⟩
  | importS3 dump => exact ⟨ready, honestFrom_eager⟩
  | addRule | removeRule | assignGroup | removeFromGroup | deleteGroup =>
    exact @honestFrom_eager _ e

/-- A mutation that opens the store leaves it in agreement, wherever it stops. -/
theorem Mutation.Ready.after (ready : m.Ready e) {notes : List Note}
    (of : ∀ n ∈ notes, n.Of m.Speaks) : m.Ready (after notes e) := by
  cases m with
  | importS3 dump =>
    induction notes generalizing e with
    | nil => exact ready
    | cons n notes ih =>
      refine @ih (n.apply e) ?_ fun n mem => of n (.tail _ mem)
      cases n with
      | reopen => exact fun x => Iff.rfl
      | mutate c changed => exact Synced.next (of _ (.head _)) ready
      | append op => exact ready
  | _ => trivial

theorem clean_iff {j : Nat} (short : j < (m.plan e).length) :
    m.Clean e j ↔ AllTold ((m.plan e).take j) := by
  cases m with
  | claimSuperadmin userId => exact (allTold_take_claim short).symm
  | importS3 dump =>
    have tail := @allTold_take_eager (changes (.importS3 dump)) e.reopen _
      (Mutation.apart (.importS3 dump)) (fun c => speaks_of_mem_changes)
    match j with
    | 0 => simp [Clean, plan, AllTold]
    | j + 1 =>
      have here := @tail j
      simp only [Clean, plan, List.take_succ_cons, List.getElem?_cons_succ]
      rw [← here]
      simp [AllTold]
  | addRule | removeRule | assignGroup | removeFromGroup | deleteGroup =>
    exact (allTold_take_eager (Mutation.apart _) fun c => speaks_of_mem_changes).symm

/-- An attempt that returns told everything it changed. -/
theorem allTold_plan (m : Mutation) (e : Enforcer) : AllTold (m.plan e) := by
  have whole : ∀ cs e, (∀ c ∈ cs, m.Speaks c.op) → AllTold (eager cs e) := by
    intro cs e speaks
    have told := (allTold_take_eager (e := e) m.apart speaks (j := (eager cs e).length)).mpr
      (by simp)
    rwa [List.take_length] at told
  cases m with
  | claimSuperadmin userId =>
    intro c mem
    simp only [plan] at mem ⊢
    rw [claimPlan_eq] at mem ⊢
    rcases List.mem_append.mp mem with change | told
    · exact List.mem_append_right _ (List.mem_map_of_mem (mem_claimOps_of_changed change))
    · simp at told
  | importS3 dump =>
    have told := whole (changes (.importS3 dump)) e.reopen fun c => speaks_of_mem_changes
    simpa [plan, AllTold] using told
  | addRule | removeRule | assignGroup | removeFromGroup | deleteGroup =>
    exact whole _ _ fun c => speaks_of_mem_changes

/-- What an attempt announces it has changed, also when it is cut; only the link of a first
    claim is announced in any case. -/
theorem mem_plan_append {op : WalOp} {j : Nat} (mem : .append op ∈ (m.plan e).take j) :
    (∃ c, c.op = op ∧ .mutate c true ∈ (m.plan e).take j) ∨
      ∃ userId changed, m = .claimSuperadmin userId ∧ op = (link userId).op ∧
        (e.policy.getUsersInGroup superadminRole).isEmpty = true ∧
        .mutate (link userId) changed ∈ (m.plan e).take j := by
  cases m with
  | claimSuperadmin userId =>
    simp only [plan] at mem ⊢
    rw [claimPlan_eq] at mem ⊢
    rw [List.take_append] at mem ⊢
    rcases List.mem_append.mp mem with early | late
    · exact absurd (List.mem_of_mem_take early) mem_claimChanges_append
    · -- Something was announced, so all changes came before.
      have past : (claimChanges userId e).length ≤ j := by
        by_contra early
        have : j - (claimChanges userId e).length = 0 := by omega
        simp [this] at late
      rw [List.take_of_length_le past]
      obtain ⟨op', member, ⟨⟩⟩ := List.mem_map.mp (List.mem_of_mem_take late)
      rcases changed_of_mem_claimOps member with ⟨c, same, made⟩ | ⟨same, first⟩
      · exact .inl ⟨c, same, List.mem_append_left _ made⟩
      · refine .inr ⟨userId, (link userId).changed e, rfl, same, first, List.mem_append_left _ ?_⟩
        rw [claimChanges, if_pos first]
        exact .head _
  | importS3 dump =>
    left
    match j with
    | 0 => simp at mem
    | j + 1 =>
      simp only [plan, List.take_succ_cons, List.mem_cons, reduceCtorEq, false_or] at mem ⊢
      exact mem_take_eager_append mem
  | addRule | removeRule | assignGroup | removeFromGroup | deleteGroup =>
    exact .inl (mem_take_eager_append mem)

end Plan

/-! ### All attempts together -/

/-- The calls of the failed attempts and of the one that returned. -/
def Mutation.done (m : Mutation) : List Nat → Enforcer → List Note
  | [], e => m.plan e
  | j :: js, e =>
    if j < (m.plan e).length then
      (m.plan e).take j ++ m.done js (after ((m.plan e).take j) e)
    else m.plan e

section Done

variable {m : Mutation} {e : Enforcer} {js : List Nat}

theorem done_of : ∀ n ∈ m.done js e, n.Of m.Speaks := by
  induction js generalizing e with
  | nil => exact plan_of m e
  | cons j js ih =>
    rw [Mutation.done]
    split
    · intro n mem
      rcases List.mem_append.mp mem with failed | later
      · exact plan_of m e n (List.mem_of_mem_take failed)
      · exact ih n later
    · exact plan_of m e

theorem ready_after_take (ready : m.Ready e) (j : Nat) :
    m.Ready (after ((m.plan e).take j) e) :=
  ready.after fun n mem => plan_of m e n (List.mem_of_mem_take mem)

theorem done_honest (ready : m.Ready e) : HonestFrom e (m.done js e) := by
  induction js generalizing e with
  | nil => exact plan_honest ready
  | cons j js ih =>
    rw [Mutation.done]
    split
    · exact honestFrom_append.mpr ⟨(plan_honest ready).take j, ih (ready_after_take ready j)⟩
    · exact plan_honest ready

/-- An operation that is spent is not announced any more. -/
theorem not_append_of_spent {op : WalOp} (speaks : m.Speaks op) (ready : m.Ready e)
    (spent : Spent op e.policy) : .append op ∉ m.done js e := by
  have once : ∀ {e}, m.Ready e → Spent op e.policy → .append op ∉ m.plan e := by
    intro e ready spent mem
    have whole : .append op ∈ (m.plan e).take (m.plan e).length := by simpa using mem
    rcases mem_plan_append whole with ⟨c, rfl, made⟩ | ⟨userId, changed, rfl, rfl, first, -⟩
    · exact m.apart.not_changed_of_spent speaks (plan_of m e) (plan_honest ready) spent
        (List.mem_of_mem_take made)
    · -- The link is in force, so the role has a user and this is no first claim.
      have held : ⟨userId, superadminRole⟩ ∈ e.policy.links :=
        (spent (.link ⟨userId, superadminRole⟩) (.inl rfl)).mpr rfl
      have user : userId ∈ e.policy.getUsersInGroup superadminRole :=
        List.mem_map.mpr ⟨⟨userId, superadminRole⟩, by simp [held], rfl⟩
      rw [List.isEmpty_iff.mp first] at user
      cases user
  induction js generalizing e with
  | nil => exact once ready spent
  | cons j js ih =>
    rw [Mutation.done]
    split
    · intro mem
      rcases List.mem_append.mp mem with failed | later
      · exact once ready spent (List.mem_of_mem_take failed)
      · refine ih (ready_after_take ready j) (fun x tells => ?_) later
        exact m.apart.settled_after speaks tells
          (fun n mem => plan_of m e n (List.mem_of_mem_take mem)) ((plan_honest ready).take j)
          (spent x tells)
    · exact once ready spent

/-- A key that is taken stays taken while facts are added. -/
theorem mem_store_after {key : String} {notes : List Note}
    (adds : ∀ c changed, .mutate c changed ∈ notes → c.IsAdd) (mem : key ∈ e.store) :
    key ∈ (after notes e).store := by
  induction notes generalizing e with
  | nil => exact mem
  | cons n notes ih =>
    refine ih (fun c changed mem => adds c changed (.tail _ mem)) ?_
    cases n with
    | reopen | append op => exact mem
    | mutate c changed =>
      rcases (adds c changed (.head _)).next_cases e with same | ⟨key', row, -, eq, -⟩
      · rwa [Note.apply, same]
      · rw [Note.apply, eq]
        simp [mem]

private def linkKey (userId : String) : String :=
  Adapter.ruleKey "g" "g" [userId, superadminRole]

private theorem write_link (userId : String) (store : Kv (List String)) :
    (link userId).write store =
      if linkKey userId ∈ store then (false, store)
      else (true, store.insert (linkKey userId) [userId, superadminRole]) := rfl

private theorem linkKey_after {userId : String} {changed : Bool} {notes : List Note}
    (adds : ∀ c changed, .mutate c changed ∈ notes → c.IsAdd)
    (mem : .mutate (link userId) changed ∈ notes) : linkKey userId ∈ (after notes e).store := by
  obtain ⟨before, rest, rfl⟩ := List.append_of_mem mem
  rw [after_append]
  refine mem_store_after (e := (link userId).next (after before e))
    (fun c changed mem => adds c changed (List.mem_append_right _ (.tail _ mem))) ?_
  rw [Change.next, Change.effect_eq (c := link userId) rfl, write_link]
  by_cases there : linkKey userId ∈ (after before e).store
  · rw [if_pos there]
    exact there
  · rw [if_neg there]
    simp [Enforcer.settle]

/-- A link whose key is taken is not added again. -/
private theorem not_changed_of_linkKey {userId : String} {notes : List Note}
    (adds : ∀ c changed, .mutate c changed ∈ notes → c.IsAdd) (honest : HonestFrom e notes)
    (taken : linkKey userId ∈ e.store) : .mutate (link userId) true ∉ notes := by
  intro mem
  obtain ⟨before, rest, rfl⟩ := List.append_of_mem mem
  obtain ⟨-, here, -⟩ := honestFrom_append.mp honest
  have still : linkKey userId ∈ (after before e).store :=
    mem_store_after (fun c changed mem => adds c changed (List.mem_append_left _ mem)) taken
  have wrote := ((Change.changed_iff (c := link userId) rfl _).mp here.symm).1
  rw [write_link, if_pos still] at wrote
  cases wrote

private theorem done_claim {userId : String} {c : Change} {changed : Bool}
    (mem : .mutate c changed ∈ (Mutation.claimSuperadmin userId).done js e) :
    c = link userId ∨ ∃ r, c = right r := by
  induction js generalizing e with
  | nil => exact mem_claimPlan_mutate mem
  | cons j js ih =>
    rw [Mutation.done] at mem
    split at mem
    · rcases List.mem_append.mp mem with failed | later
      · exact mem_claimPlan_mutate (List.mem_of_mem_take failed)
      · exact ih later
    · exact mem_claimPlan_mutate mem

/-- A change is not made by a later attempt once its operation is announced. -/
private theorem not_changed_of_append {c : Change} {j : Nat} (ready : m.Ready e)
    (told : .append c.op ∈ (m.plan e).take j) :
    .mutate c true ∉ m.done js (after ((m.plan e).take j) e) := by
  intro made
  have of : ∀ n ∈ (m.plan e).take j, n.Of m.Speaks :=
    fun n mem => plan_of m e n (List.mem_of_mem_take mem)
  have honest : HonestFrom _ (m.done js _) := done_honest (ready_after_take ready j)
  rcases mem_plan_append told with ⟨d, same, first⟩ | ⟨userId, changed, rfl, same, -, first⟩
  · have spent := m.apart.spent_after of ((plan_honest ready).take j) first
    rw [same] at spent
    exact m.apart.not_changed_of_spent (done_of _ made) done_of honest spent made
  · -- A first claim announces its link also when the row was there already.
    obtain rfl : c = link userId := by
      rcases done_claim made with here | ⟨r, rfl⟩
      · exact here
      · cases same
    have taken := linkKey_after (e := e) (fun c changed mem => of _ mem) first
    have adds : ∀ {e}, ∀ c changed, .mutate c changed ∈ (Mutation.claimSuperadmin userId).done js e →
        c.IsAdd := fun c changed mem => done_of _ mem
    exact not_changed_of_linkKey adds honest taken made

/-- The attempts together tell every change exactly when each failed one did: nothing that
    one of them changed is announced by another. -/
theorem allTold_done_iff (ready : m.Ready e) : AllTold (m.done js e) ↔ m.AllClean js e := by
  induction js generalizing e with
  | nil => exact iff_of_true (allTold_plan m e) trivial
  | cons j js ih =>
    rw [Mutation.done, Mutation.AllClean]
    by_cases short : j < (m.plan e).length
    · have later := ready_after_take ready j
      have of : ∀ n ∈ (m.plan e).take j, n.Of m.Speaks :=
        fun n mem => plan_of m e n (List.mem_of_mem_take mem)
      simp only [short, if_true, forall_const, clean_iff, ← ih later]
      constructor
      · intro told
        constructor
        · intro c made
          rcases List.mem_append.mp (told c (List.mem_append_left _ made)) with here | after
          · exact here
          · have spent := m.apart.spent_after of ((plan_honest ready).take j) made
            exact absurd after (not_append_of_spent (of _ made) later spent)
        · intro c made
          rcases List.mem_append.mp (told c (List.mem_append_right _ made)) with before | here
          · exact absurd made (not_changed_of_append ready before)
          · exact here
      · rintro ⟨failed, returned⟩ c made
        rcases List.mem_append.mp made with here | here
        · exact List.mem_append_left _ (failed c here)
        · exact List.mem_append_right _ (returned c here)
    · simp only [short, if_false, false_implies, iff_true]
      exact allTold_plan m e

/-- Only what the store holds counts for a mutation that opens it. -/
private theorem same_of_opened {e' : Enforcer} (same : m.opened e = m.opened e') :
    m.done js e = m.done js e' ∧ (m.AllClean js e ↔ m.AllClean js e') ∧
      after (m.done js e) e = after (m.done js e') e' := by
  cases m with
  | importS3 dump =>
    have plans : ∀ {e e' : Enforcer}, e.reopen = e'.reopen →
        plan (.importS3 dump) e = plan (.importS3 dump) e' := fun h => by simp [plan, h]
    change e.reopen = e'.reopen at same
    induction js generalizing e e' with
    | nil =>
      refine ⟨plans same, Iff.rfl, ?_⟩
      simp only [Mutation.done, plan, after, List.foldl_cons, Note.apply, same]
    | cons j js ih =>
      simp only [Mutation.done, Mutation.AllClean, Clean, plans same]
      cases j with
      | zero =>
        obtain ⟨notes, clean, end_⟩ := ih same
        have short : 0 < (plan (.importS3 dump) e').length := by simp [plan]
        simp only [short, if_true, List.take_zero, List.nil_append, after, List.foldl_nil]
        exact ⟨notes, by rw [clean], end_⟩
      | succ j =>
        -- The first call of the attempt has opened the store: from there on all is equal.
        have states : ∀ n, after ((plan (.importS3 dump) e').take (n + 1)) e =
            after ((plan (.importS3 dump) e').take (n + 1)) e' := by
          intro n
          simp [plan, after, Note.apply, same]
        have whole : after (plan (.importS3 dump) e') e = after (plan (.importS3 dump) e') e' := by
          simp [plan, after, Note.apply, same]
        simp only [states]
        split
        · exact ⟨trivial, trivial, by rw [after_append, after_append, states]⟩
        · exact ⟨trivial, trivial, whole⟩
  | _ =>
    obtain rfl : e = e' := same
    exact ⟨rfl, Iff.rfl, rfl⟩

end Done

/-! ### The feed after a retry -/

private theorem fits_of_performed {c : Change} {k k' : Option Nat} {w w' : World} {b : Bool}
    (returned : c.perform.failing k w = (.ok b, w', k')) : c.Fits := by
  by_contra unfit
  obtain ⟨err, effect⟩ := Change.effect_error unfit w.enforcer
  cases c with
  | addPolicy | addGroupingPolicy =>
    simp only [Change.effect] at effect
    rcases k with _ | _ | k
    · simp [M.failing, Change.perform, onPolicy, Prog.perform, Prog.runFailing, Call.mayFail,
        Call.exec, PolicyCall.exec, effect] at returned
    · simp [M.failing, Change.perform, onPolicy, Prog.perform, Prog.runFailing,
        Call.mayFail] at returned
    · simp [M.failing, Change.perform, onPolicy, Prog.perform, Prog.runFailing, Call.mayFail,
        Call.exec, PolicyCall.exec, effect] at returned
  | removePolicy | removeGroupingPolicy | removeFilteredGroupingPolicy => exact unfit trivial

private theorem M.failing_bind_ok {α β : Type} {p : M α} {f : α → M β} {k k' : Option Nat}
    {w w' : World} {b : β} (returned : (p >>= f).failing k w = (.ok b, w', k')) :
    ∃ a k₁ w₁, p.failing k w = (.ok a, w₁, k₁) ∧ (f a).failing k₁ w₁ = (.ok b, w', k') := by
  rw [M.failing_bind] at returned
  split at returned
  next a w₁ k₁ eq => exact ⟨a, k₁, w₁, eq, returned⟩
  · cases returned

private theorem fits_of_imported {add : List String → Change} {op : List String → WalOp}
    {count : ImportReport → ImportReport} {rows : List (List String)} {report report' : ImportReport}
    {k k' : Option Nat} {w w' : World}
    (returned : (importEach add op count rows report).failing k w = (.ok report', w', k')) :
    ∀ row ∈ rows, (add row).Fits := by
  induction rows generalizing report k w with
  | nil => exact fun row mem => absurd mem (List.not_mem_nil)
  | cons row rest ih =>
    rw [importEach] at returned
    obtain ⟨added, k₁, w₁, performed, later⟩ := M.failing_bind_ok returned
    have rest : ∀ row ∈ rest, (add row).Fits := by
      split at later
      · obtain ⟨-, k₂, w₂, -, later⟩ := M.failing_bind_ok later
        exact ih later
      · exact ih later
    rintro row' (_ | ⟨_, mem⟩)
    · exact fits_of_performed performed
    · exact rest row' mem

private theorem fits_of_returned {m : Mutation} {k k' : Option Nat} {w w' : World}
    (returned : m.prog.failing k w = (.ok (), w', k')) : m.Fits := by
  cases m with
  | importS3 dump =>
    obtain ⟨report, k₁, w₁, imported, -⟩ := M.failing_bind_ok returned
    obtain ⟨-, k₂, w₂, -, loops⟩ := M.failing_bind_ok imported
    obtain ⟨report', k₃, w₃, rules, groups⟩ := M.failing_bind_ok loops
    intro c mem
    rcases List.mem_append.mp mem with p | g
    · obtain ⟨rule, member, rfl⟩ := List.mem_map.mp p
      exact fits_of_imported rules rule member
    · obtain ⟨link, member, rfl⟩ := List.mem_map.mp g
      exact fits_of_imported groups link member
  | claimSuperadmin => exact fun c mem => absurd mem (List.not_mem_nil)
  | addRule | removeRule | assignGroup | removeFromGroup | deleteGroup =>
    intro c mem
    rw [List.mem_singleton.mp mem]
    first | rfl | trivial

private theorem failing_none_iff {α : Type} {p : M α} {w w' : World} {r : Except Error α} :
    p.failing none w = (r, w', none) ↔ p.runOn w = (r, w') := by
  rw [M.failing, Prog.runFailing_none]
  simp [Prod.ext_iff, M.runOn]

private theorem fits_of_retried {m : Mutation} {js : List Nat} {w w' : World}
    (returned : m.retry js w = (.ok (), w')) : m.Fits := by
  induction js generalizing w with
  | nil => exact fits_of_returned (failing_none_iff.mpr returned)
  | cons j js ih =>
    rw [Mutation.retry] at returned
    split at returned
    next eq => exact fits_of_returned eq
    · exact ih returned

/-- A retry performs the calls of its attempts. -/
theorem retry_reached {m : Mutation} (fits : m.Fits) {js : List Nat} {w : World}
    {entries : List WalEntry} (log : Wal.Log w.wal entries) :
    ∃ w', m.retry js w = (.ok (), w') ∧ Reached w entries (m.done js w.enforcer) w' := by
  induction js generalizing w entries with
  | nil =>
    obtain ⟨w', ended, reached⟩ := (follows_plan fits _).ends (k := none) rfl log nofun
    exact ⟨w', failing_none_iff.mp ended, reached⟩
  | cons j js ih =>
    rw [Mutation.retry, Mutation.done]
    by_cases short : j < (m.plan w.enforcer).length
    · obtain ⟨w₁, stopped, at₁, more₁, log₁, ops₁⟩ := (follows_plan fits _).stops rfl log short
      obtain ⟨w', returned, at₂, more₂, log₂, ops₂⟩ := ih log₁
      refine ⟨w', by rw [stopped]; exact returned, ?_, more₁ ++ more₂, ?_, ?_⟩
      · rw [if_pos short, after_append, at₂, at₁]
      · rwa [← List.append_assoc]
      · rw [if_pos short, announced_append, List.map_append, ops₁, ops₂, at₁]
    · obtain ⟨w', ended, reached⟩ := (follows_plan fits _).ends (k := some j) rfl log
        (by rintro n ⟨⟩; omega)
      refine ⟨w', by rw [ended], ?_⟩
      rwa [if_neg short]

/-- After failed attempts and one that returned, the operations that they appended tell
    every change they made exactly when each failed attempt was clean. -/
theorem feed_complete_iff (m : Mutation) (js : List Nat) {w w' : World} {entries : List WalEntry}
    (log : Wal.Log w.wal entries) (returned : m.retry js w = (.ok (), w')) :
    ∃ more, Wal.Log w'.wal (entries ++ more) ∧
      (Covered (m.opened w.enforcer).policy w'.enforcer.policy (more.map (·.op)) ↔
        m.AllClean js w.enforcer) := by
  obtain ⟨w'', again, at_end, more, log', ops⟩ := retry_reached (fits_of_retried returned) log
  obtain rfl : w'' = w' := (Prod.mk.inj (again.symm.trans returned)).2
  refine ⟨more, log', ?_⟩
  -- What counts is the policy that the mutation works on, which an import loads first.
  have idem : m.opened (m.opened w.enforcer) = m.opened w.enforcer := by cases m <;> rfl
  have ready : m.Ready (m.opened w.enforcer) := by
    cases m with
    | importS3 dump => exact fun x => Iff.rfl
    | _ => trivial
  obtain ⟨notes, clean, states⟩ : m.done js _ = m.done js _ ∧
      (m.AllClean js _ ↔ m.AllClean js _) ∧ _ := same_of_opened idem.symm
  rw [ops, at_end, states, notes, clean, ← allTold_done_iff ready]
  exact m.apart.covered_iff done_of (done_honest ready)

/-- A deployment without rules. -/
def noRules : World := .init fun _ => "id"

/-- The rule is added and persisted, the append fails, and the repeated call finds nothing to
    change: it returns, and the feed does not know of the rule. -/
theorem retry_loses_rule :
    ∃ w', (Mutation.addRule "bob" "invoice:7" .read).retry [1] noRules = (.ok (), w') ∧
      Wal.Log w'.wal [] ∧ w'.enforcer.policy.rules = [⟨"bob", "invoice:7", "read"⟩] ∧
      ¬ Covered noRules.enforcer.policy w'.enforcer.policy [] := by
  refine ⟨_, rfl, .empty, rfl, fun covered => ?_⟩
  obtain ⟨op, told, -⟩ := (covered (.rule ⟨"bob", "invoice:7", "read"⟩)).1 (by simp [noRules,
    World.init, Policy.Holds]) (by exact .head _)
  cases told

/-- When it is the store that fails first, the repeated call still has its change to make. -/
theorem retry_tells_rule :
    ∃ w' more, (Mutation.addRule "bob" "invoice:7" .read).retry [0] noRules = (.ok (), w') ∧
      Wal.Log w'.wal ([] ++ more) ∧
      Covered noRules.enforcer.policy w'.enforcer.policy (more.map (·.op)) := by
  obtain ⟨more, log, iff⟩ := feed_complete_iff (.addRule "bob" "invoice:7" .read) [0]
    (w := noRules) .empty rfl
  refine ⟨_, more, rfl, log, iff.mpr fun _ => ⟨fun op here => ?_, trivial⟩⟩
  exact absurd (Option.some.inj here) nofun

end RustApi
