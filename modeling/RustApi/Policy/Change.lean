import RustApi.Policy.Engine

/-!
# Policy changes and what is told of them

What the management calls do to the policy, fact by fact, and what a list of calls
and announcements leaves untold.

## Main definitions

- `Covered`: every difference between two policies is told by some operation.
- `Note`: one call of a mutation that can fail. `AllTold` says that every effective
  change among the notes is announced among them.

## Main results

`Apart.covered_iff`: when operations of the noted kind never concern the same fact,
the announcements cover the difference exactly when all of it is told.
-/

namespace RustApi

open Lib

/-! ### Facts and what operations say of them -/

/-- A rule or a membership. -/
inductive Fact where
  | rule (r : Rule)
  | link (l : Membership)
  deriving DecidableEq, Repr

def Policy.Holds (P : Policy) : Fact → Prop
  | .rule r => r ∈ P.rules
  | .link l => l ∈ P.links

namespace WalOp

def Adds : WalOp → Fact → Prop
  | .policyRuleAdd sub obj act, .rule r => r = ⟨sub, obj, act⟩
  | .groupAdd user group, .link l => l = ⟨user, group⟩
  | _, _ => False

def Removes : WalOp → Fact → Prop
  | .policyRuleRemove sub obj act, .rule r => r = ⟨sub, obj, act⟩
  | .groupRemove user group, .link l => l = ⟨user, group⟩
  | .groupDelete group, .link l => l.group = group
  | _, _ => False

/-- The operation concerns the fact. -/
def Tells (op : WalOp) (x : Fact) : Prop := op.Adds x ∨ op.Removes x

theorem Adds.not_removes {op : WalOp} {x : Fact} (adds : op.Adds x) : ¬ op.Removes x := by
  cases op <;> cases x <;> simp_all [Adds, Removes]

end WalOp

theorem Policy.holds_apply {P : Policy} {op : WalOp} {x : Fact} :
    (P.apply op).Holds x ↔ op.Adds x ∨ P.Holds x ∧ ¬ op.Removes x := by
  cases op with
  | policyRuleAdd sub obj act | groupAdd user group =>
    cases x <;> simp only [apply, Holds, WalOp.Adds, WalOp.Removes] <;> split <;> grind
  | policyRuleRemove sub obj act | groupRemove user group | groupDelete group =>
    cases x <;> simp [apply, Holds, WalOp.Adds, WalOp.Removes]
  | _ => cases x <;> simp [apply, Holds, WalOp.Adds, WalOp.Removes]

/-- The operations tell every rule and membership that changed from `P` to `P'`. -/
def Covered (P P' : Policy) (ops : List WalOp) : Prop :=
  ∀ x, (¬ P.Holds x → P'.Holds x → ∃ op ∈ ops, op.Adds x) ∧
    (P.Holds x → ¬ P'.Holds x → ∃ op ∈ ops, op.Removes x)

/-! ### Facts in the store -/

/-- The section and the row of a fact in the store. -/
def Fact.row : Fact → String × List String
  | .rule r => ("p:p:", [r.sub, r.obj, r.act])
  | .link l => ("g:g:", [l.user, l.group])

theorem startsWith_ruleKey (sec : String) (rule : List String) :
    Text.startsWith (sec ++ ":" ++ sec ++ ":") (Adapter.ruleKey sec sec rule) = true :=
  Text.startsWith_append _ _

theorem holds_loadRow {P : Policy} {row : String × List String} {x : Fact} :
    (Adapter.loadRow P row).Holds x ↔
      P.Holds x ∨ Text.startsWith x.row.1 row.1 = true ∧ row.2 = x.row.2 := by
  obtain ⟨key, fields⟩ := row
  unfold Adapter.loadRow
  split
  next sub obj act eq =>
    subst eq
    split
    next p =>
      rw [Policy.holds_apply]
      cases x with
      | rule r =>
        obtain ⟨s, o, a⟩ := r
        simp only [WalOp.Adds, WalOp.Removes, Fact.row, p, Rule.mk.injEq, List.cons.injEq]
        tauto
      | link l => simp [WalOp.Adds, WalOp.Removes, Fact.row]
    next p => cases x <;> simp [Fact.row, p]
  next user group eq =>
    subst eq
    split
    next g =>
      rw [Policy.holds_apply]
      cases x with
      | rule r => simp [WalOp.Adds, WalOp.Removes, Fact.row]
      | link l =>
        obtain ⟨u, g'⟩ := l
        simp only [WalOp.Adds, WalOp.Removes, Fact.row, g, Membership.mk.injEq, List.cons.injEq]
        tauto
    next g => cases x <;> simp [Fact.row, g]
  -- rows of any other length load nothing, and no fact has such a row
  next short long =>
    cases x with
    | rule r => simp only [Fact.row]; grind
    | link l => simp only [Fact.row]; grind

theorem holds_loadPolicy {store : Kv (List String)} {x : Fact} :
    (Adapter.loadPolicy store).Holds x ↔
      ∃ key, Text.startsWith x.row.1 key = true ∧ store[key]? = some x.row.2 := by
  have rows : ∀ (rows : List (String × List String)) (P : Policy),
      (rows.foldl Adapter.loadRow P).Holds x ↔ P.Holds x ∨
        ∃ row ∈ rows, Text.startsWith x.row.1 row.1 = true ∧ row.2 = x.row.2 := by
    intro rows
    induction rows with
    | nil => simp
    | cons row rows ih => intro P; simp [ih, holds_loadRow, or_assoc]
  have empty : ¬ (⟨[], []⟩ : Policy).Holds x := by cases x <;> simp [Policy.Holds]
  rw [Adapter.loadPolicy, rows]
  simp only [empty, false_or, Prod.exists, Kv.mem_toList]
  constructor
  · rintro ⟨key, row, here, starts, rfl⟩
    exact ⟨key, starts, here⟩
  · rintro ⟨key, starts, here⟩
    exact ⟨key, _, here, starts, rfl⟩

/-! ### Changes -/

namespace Change

/-- The operation that is announced for the change. -/
def op : Change → WalOp
  | .addPolicy rule => .policyRuleAdd (rule.getD 0 "") (rule.getD 1 "") (rule.getD 2 "")
  | .removePolicy sub obj act => .policyRuleRemove sub obj act
  | .addGroupingPolicy link => .groupAdd (link.getD 0 "") (link.getD 1 "")
  | .removeGroupingPolicy user group => .groupRemove user group
  | .removeFilteredGroupingPolicy group => .groupDelete group

/-- The adapter takes the row: its field count fits its section. -/
def Fits : Change → Prop
  | .addPolicy rule => rule.length = 3
  | .addGroupingPolicy link => link.length = 2
  | _ => True

def effect : Change → Enforcer → Except Error (Bool × Enforcer)
  | .addPolicy rule, e => e.addPolicy rule
  | .removePolicy sub obj act, e => .ok (e.removePolicy sub obj act)
  | .addGroupingPolicy link, e => e.addGroupingPolicy link
  | .removeGroupingPolicy user group, e => .ok (e.removeGroupingPolicy user group)
  | .removeFilteredGroupingPolicy group, e => .ok (e.removeFilteredGroupingPolicy group)

/-- The call would change the model. -/
def changed (c : Change) (e : Enforcer) : Bool :=
  match c.effect e with
  | .ok (changed, _) => changed
  | .error _ => false

/-- The enforcer after the call. -/
def next (c : Change) (e : Enforcer) : Enforcer :=
  match c.effect e with
  | .ok (_, e') => e'
  | .error _ => e

/-- What the adapter writes for a row that fits. -/
def write : Change → Kv (List String) → Bool × Kv (List String)
  | .addPolicy rule, store => insertNew (Adapter.ruleKey "p" "p" rule) rule store
  | .removePolicy sub obj act, store => Adapter.removePolicy "p" "p" [sub, obj, act] store
  | .addGroupingPolicy link, store => insertNew (Adapter.ruleKey "g" "g" link) link store
  | .removeGroupingPolicy user group, store => Adapter.removePolicy "g" "g" [user, group] store
  | .removeFilteredGroupingPolicy group, store =>
    Adapter.removeFilteredPolicy "g" "g" 1 group store
where
  insertNew (key : String) (row : List String) (store : Kv (List String)) :=
    if key ∈ store then (false, store) else (true, store.insert key row)

/-- Every management call is the adapter's write followed by `settle`. -/
theorem effect_eq {c : Change} (fits : c.Fits) (e : Enforcer) :
    c.effect e = .ok (e.settle (c.write e.store) (e.policy.apply c.op)) := by
  cases c with
  | addPolicy rule =>
    have added := Adapter.addPolicy_ok (Adapter.encodeRule_of_fits (.inl rfl) fits) e.store
    obtain ⟨sub, obj, act, rfl⟩ := List.length_eq_three.mp fits
    change e.addPolicy [sub, obj, act] = _
    unfold Enforcer.addPolicy
    rw [added]
    rfl
  | addGroupingPolicy link =>
    have added := Adapter.addPolicy_ok (Adapter.encodeRule_of_fits (.inr rfl) fits) e.store
    obtain ⟨user, group, rfl⟩ := List.length_eq_two.mp fits
    change e.addGroupingPolicy [user, group] = _
    unfold Enforcer.addGroupingPolicy
    rw [added]
    rfl
  | removePolicy sub obj act | removeGroupingPolicy user group
  | removeFilteredGroupingPolicy group => rfl

theorem effect_error {c : Change} (unfit : ¬ c.Fits) (e : Enforcer) :
    ∃ err, c.effect e = .error err := by
  cases c with
  | addPolicy rule =>
    obtain ⟨err, refused⟩ := Adapter.encodeRule_error (.inl rfl) unfit
    refine ⟨err, ?_⟩
    change e.addPolicy rule = _
    unfold Enforcer.addPolicy
    rw [Adapter.addPolicy_error refused]
  | addGroupingPolicy link =>
    obtain ⟨err, refused⟩ := Adapter.encodeRule_error (.inr rfl) unfit
    refine ⟨err, ?_⟩
    change e.addGroupingPolicy link = _
    unfold Enforcer.addGroupingPolicy
    rw [Adapter.addPolicy_error refused]
  | removePolicy sub obj act | removeGroupingPolicy user group
  | removeFilteredGroupingPolicy group => exact absurd trivial unfit

theorem next_policy (c : Change) (e : Enforcer) :
    (c.next e).policy = if c.changed e then e.policy.apply c.op else e.policy := by
  by_cases fits : c.Fits
  · simp only [next, changed, effect_eq fits, Enforcer.settle]
    by_cases wrote : (c.write e.store).1 = true
    · by_cases same : e.policy.apply c.op = e.policy
      · simp [wrote, same]
      · simp [wrote, same]
    · simp [wrote]
  · obtain ⟨err, effect⟩ := effect_error fits e
    simp [next, changed, effect]

/-- An effective call wrote a row and moved the model. -/
theorem changed_iff {c : Change} (fits : c.Fits) (e : Enforcer) : c.changed e = true ↔
    (c.write e.store).1 = true ∧ e.policy.apply c.op ≠ e.policy := by
  simp only [changed, effect_eq fits, Enforcer.settle]
  by_cases wrote : (c.write e.store).1 = true
  · simp [wrote]
  · simp [wrote]

theorem fits_of_changed {c : Change} {e : Enforcer} (changed : c.changed e = true) : c.Fits := by
  by_contra unfit
  obtain ⟨err, effect⟩ := effect_error unfit e
  simp [Change.changed, effect] at changed

end Change

/-! ### What a change settles -/

/-- The fact is as the operation leaves it. -/
def SettledBy (op : WalOp) (P : Policy) (x : Fact) : Prop := P.Holds x ↔ op.Adds x

/-- Every fact the operation tells of is as the operation leaves it. -/
def Spent (op : WalOp) (P : Policy) : Prop := ∀ x, op.Tells x → SettledBy op P x

theorem Policy.apply_of_spent {P : Policy} {op : WalOp} (spent : Spent op P) : P.apply op = P := by
  obtain ⟨rules, links⟩ := P
  cases op with
  | policyRuleAdd sub obj act =>
    have here := (spent (.rule ⟨sub, obj, act⟩) (.inl rfl)).mpr rfl
    exact if_pos here
  | groupAdd user group =>
    have here := (spent (.link ⟨user, group⟩) (.inl rfl)).mpr rfl
    exact if_pos here
  | policyRuleRemove sub obj act =>
    have gone : ⟨sub, obj, act⟩ ∉ rules := (spent (.rule ⟨sub, obj, act⟩) (.inr rfl)).mp
    simp only [Policy.apply, Policy.mk.injEq, and_true, List.filter_eq_self, decide_eq_true_eq]
    rintro r mem rfl
    exact gone mem
  | groupRemove user group =>
    have gone : ⟨user, group⟩ ∉ links := (spent (.link ⟨user, group⟩) (.inr rfl)).mp
    simp only [Policy.apply, Policy.mk.injEq, true_and, List.filter_eq_self, decide_eq_true_eq]
    rintro l mem rfl
    exact gone mem
  -- no link into the group is left, so the filter keeps them all
  | groupDelete group =>
    simp only [Policy.apply, Policy.mk.injEq, true_and, List.filter_eq_self, decide_eq_true_eq]
    intro l mem same
    exact (spent (.link l) (.inr same)).mp mem
  | _ => rfl

namespace Change

theorem not_spent_of_changed {c : Change} {e : Enforcer} (changed : c.changed e = true) :
    ¬ Spent c.op e.policy :=
  fun spent => ((changed_iff (fits_of_changed changed) e).mp changed).2 (Policy.apply_of_spent spent)

theorem holds_next {c : Change} {e : Enforcer} {x : Fact} : (c.next e).policy.Holds x ↔
    if c.changed e then c.op.Adds x ∨ e.policy.Holds x ∧ ¬ c.op.Removes x
    else e.policy.Holds x := by
  rw [next_policy]
  split
  · exact Policy.holds_apply
  · rfl

theorem spent_of_changed {c : Change} {e : Enforcer} (changed : c.changed e = true) :
    Spent c.op (c.next e).policy := by
  intro x tells
  rw [SettledBy, holds_next, if_pos changed]
  rcases tells with adds | removes
  · simp [adds]
  · simp [removes]

end Change

/-- Operations that never concern the same fact unless they are the same. -/
def Apart (S : WalOp → Prop) : Prop :=
  ∀ op op', S op → S op' → ∀ x, op.Tells x → op'.Tells x → op = op'

theorem Apart.settled_next {S : WalOp → Prop} (apart : Apart S) {op : WalOp} {c : Change}
    (opS : S op) (cS : S c.op) {e : Enforcer} {x : Fact} (tells : op.Tells x)
    (settled : SettledBy op e.policy x) : SettledBy op (c.next e).policy x := by
  rw [SettledBy, Change.holds_next]
  split
  · by_cases also : c.op.Tells x
    · -- The change is the same operation, which leaves the fact where it was.
      obtain rfl := apart _ _ opS cS x tells also
      rcases also with adds | removes
      · simp [adds]
      · simp [removes]
    · simp only [WalOp.Tells, not_or] at also
      simpa [also, SettledBy] using settled
  · exact settled

/-! ### Notes -/

/-- One call of an attempt that can fail, with what the enforcer answered. -/
inductive Note where
  | reopen
  | mutate (c : Change) (changed : Bool)
  | append (op : WalOp)
  deriving DecidableEq, Repr

namespace Note

def apply (e : Enforcer) : Note → Enforcer
  | .reopen => e.reopen
  | .mutate c _ => c.next e
  | .append _ => e

/-- The note is right about the enforcer it was taken at. -/
def Honest (e : Enforcer) : Note → Prop
  | .reopen => ∀ x, e.reopen.policy.Holds x ↔ e.policy.Holds x
  | .mutate c changed => changed = c.changed e
  | .append _ => True

/-- The note concerns an operation of the kind `S`. -/
def Of (S : WalOp → Prop) : Note → Prop
  | .reopen => True
  | .mutate c _ => S c.op
  | .append op => S op

/-- The operation of an append. -/
def told : Note → Option WalOp
  | .append op => some op
  | _ => none

end Note

/-- The enforcer after the noted calls. -/
def after (notes : List Note) (e : Enforcer) : Enforcer := notes.foldl Note.apply e

/-- The noted announcements. -/
def announced (notes : List Note) : List WalOp := notes.filterMap Note.told

theorem mem_announced {notes : List Note} {op : WalOp} :
    op ∈ announced notes ↔ .append op ∈ notes := by
  simp only [announced, List.mem_filterMap]
  constructor
  · rintro ⟨note, mem, told⟩
    cases note with
    | append op' =>
      obtain rfl : op' = op := by simpa [Note.told] using told
      exact mem
    | reopen | mutate c changed => cases told
  · intro mem
    exact ⟨_, mem, rfl⟩

theorem after_append (notes more : List Note) (e : Enforcer) :
    after (notes ++ more) e = after more (after notes e) := List.foldl_append

theorem announced_append (notes more : List Note) :
    announced (notes ++ more) = announced notes ++ announced more := List.filterMap_append

/-- Every note is right about the enforcer that the ones before it lead to. -/
def HonestFrom : Enforcer → List Note → Prop
  | _, [] => True
  | e, note :: notes => note.Honest e ∧ HonestFrom (note.apply e) notes

theorem honestFrom_append {notes more : List Note} {e : Enforcer} :
    HonestFrom e (notes ++ more) ↔ HonestFrom e notes ∧ HonestFrom (after notes e) more := by
  induction notes generalizing e with
  | nil => simp [HonestFrom, after]
  | cons note notes ih => simp [HonestFrom, ih, after, and_assoc]

theorem HonestFrom.take {notes : List Note} {e : Enforcer} (honest : HonestFrom e notes) (j : Nat) :
    HonestFrom e (notes.take j) := by
  rw [← List.take_append_drop j notes] at honest
  exact (honestFrom_append.mp honest).1

/-- Every effective change among the notes is announced among them. -/
def AllTold (notes : List Note) : Prop := ∀ c, .mutate c true ∈ notes → .append c.op ∈ notes

section Notes

variable {S : WalOp → Prop} {e : Enforcer} {notes : List Note}

theorem Apart.settled_after (apart : Apart S) {op : WalOp} (opS : S op) {x : Fact}
    (tells : op.Tells x) (of : ∀ n ∈ notes, n.Of S) (honest : HonestFrom e notes)
    (settled : SettledBy op e.policy x) : SettledBy op (after notes e).policy x := by
  induction notes generalizing e with
  | nil => exact settled
  | cons note notes ih =>
    refine ih (fun n mem => of n (.tail _ mem)) honest.2 ?_
    cases note with
    | reopen => exact (honest.1 x).trans settled
    | mutate c changed => exact apart.settled_next opS (of _ (.head _)) tells settled
    | append op' => exact settled

/-- A spent operation is never effective again. -/
theorem Apart.not_changed_of_spent (apart : Apart S) {c : Change} (cS : S c.op)
    (of : ∀ n ∈ notes, n.Of S) (honest : HonestFrom e notes) (spent : Spent c.op e.policy) :
    .mutate c true ∉ notes := by
  intro mem
  obtain ⟨before, rest, rfl⟩ := List.append_of_mem mem
  obtain ⟨first, here, -⟩ := honestFrom_append.mp honest
  refine Change.not_spent_of_changed here.symm fun x tells => ?_
  exact apart.settled_after cS tells (fun n mem => of n (List.mem_append_left _ mem)) first
    (spent x tells)

theorem Apart.spent_after (apart : Apart S) {c : Change} (of : ∀ n ∈ notes, n.Of S)
    (honest : HonestFrom e notes) (mem : .mutate c true ∈ notes) :
    Spent c.op (after notes e).policy := by
  intro x tells
  obtain ⟨before, rest, rfl⟩ := List.append_of_mem mem
  obtain ⟨-, here, later⟩ := honestFrom_append.mp honest
  rw [after_append]
  change SettledBy c.op (after rest (c.next (after before e))).policy x
  exact apart.settled_after (of _ mem) tells
    (fun n mem => of n (List.mem_append_right _ (.tail _ mem))) later
    (Change.spent_of_changed here.symm x tells)

/-- A fact only moves by an effective change that tells of it. -/
theorem moved_by_change (honest : HonestFrom e notes) (x : Fact) :
    (¬ e.policy.Holds x → (after notes e).policy.Holds x →
      ∃ c, .mutate c true ∈ notes ∧ c.op.Adds x) ∧
    (e.policy.Holds x → ¬ (after notes e).policy.Holds x →
      ∃ c, .mutate c true ∈ notes ∧ c.op.Removes x) := by
  induction notes generalizing e with
  | nil => exact ⟨fun out here => absurd here out, fun here out => absurd here out⟩
  | cons note notes ih =>
    have later := ih honest.2
    have widen : ∀ p : Change → Prop, (∃ c, .mutate c true ∈ notes ∧ p c) →
        ∃ c, .mutate c true ∈ note :: notes ∧ p c :=
      fun _ ⟨c, mem, h⟩ => ⟨c, .tail _ mem, h⟩
    -- the first note moves the fact, or one behind it does
    by_cases same : (note.apply e).policy.Holds x ↔ e.policy.Holds x
    · constructor
      · exact fun out here => widen _ (later.1 (by rwa [same]) here)
      · exact fun here out => widen _ (later.2 (by rwa [same]) out)
    · -- The first note itself moves the fact.
      cases note with
      | reopen => exact absurd (honest.1 x) same
      | append op => exact absurd Iff.rfl same
      | mutate c changed =>
        rw [Note.apply, Change.holds_next] at same
        split at same
        next effective =>
          obtain rfl : changed = true := honest.1.trans effective
          constructor
          · intro out _
            exact ⟨c, .head _, by tauto⟩
          · intro here _
            exact ⟨c, .head _, by tauto⟩
        · exact absurd Iff.rfl same

theorem Apart.covered_iff (apart : Apart S) (of : ∀ n ∈ notes, n.Of S)
    (honest : HonestFrom e notes) :
    Covered e.policy (after notes e).policy (announced notes) ↔ AllTold notes := by
  constructor
  · intro covered c mem
    -- a change that nobody was told of is the only op about some fact, which then moves untold
    obtain ⟨before, rest, rfl⟩ := List.append_of_mem mem
    obtain ⟨first, here, -⟩ := honestFrom_append.mp honest
    have unspent := Change.not_spent_of_changed (c := c) here.symm
    simp only [Spent, not_forall] at unspent
    obtain ⟨x, tells, unsettled⟩ := unspent
    -- The fact was not yet settled at the start, and it is settled at the end.
    have atStart : ¬ SettledBy c.op e.policy x := fun settled => unsettled
      (apart.settled_after (of _ mem) tells (fun n mem => of n (List.mem_append_left _ mem)) first
        settled)
    have atEnd := apart.spent_after of honest mem x tells
    have only : ∀ op ∈ announced (before ++ .mutate c true :: rest), op.Tells x →
        .append c.op ∈ before ++ .mutate c true :: rest := by
      intro op told also
      have member := mem_announced.mp told
      rwa [← apart _ _ (of _ mem) (of _ member) x tells also] at member
    rcases tells with adds | removes
    · have out : ¬ e.policy.Holds x := fun holds => atStart (by simp [SettledBy, holds, adds])
      obtain ⟨op, told, also⟩ := (covered x).1 out (atEnd.mpr adds)
      exact only op told (.inl also)
    · have notAdds : ¬ c.op.Adds x := fun adds => adds.not_removes removes
      have held : e.policy.Holds x := by
        by_contra out
        exact atStart (by simp [SettledBy, out, notAdds])
      obtain ⟨op, told, also⟩ := (covered x).2 held fun holds => notAdds (atEnd.mp holds)
      exact only op told (.inr also)
  · intro told x
    obtain ⟨added, removed⟩ := moved_by_change honest x
    constructor
    · intro out here
      obtain ⟨c, mem, adds⟩ := added out here
      exact ⟨c.op, mem_announced.mpr (told c mem), adds⟩
    · intro here out
      obtain ⟨c, mem, removes⟩ := removed here out
      exact ⟨c.op, mem_announced.mpr (told c mem), removes⟩

end Notes

end RustApi
