import RustApi.Policy.Feed

/-!
# The stored policy after the management routes

A sequence of calls of the management routes, each of which may meet a failing store
call, and what the policy store loads after it. The adapter names a row by the joined
fields of its rule, so a removal deletes the row of whatever rule has the same joint
name, while casbin drops the rule that the request names.

## Main results

- `policy_persisted_iff`: store and model agree throughout exactly when no removal
  meets another rule in force under the key of its own.
- `policy_persisted_of_plain`: they always agree when no removed rule or membership has
  the joining character in a field.
-/

namespace RustApi

open Lib

/-! ### Requests -/

/-- `PolicyRequest`. -/
structure PolicyRequest where
  sub : String
  obj : String
  act : Action
  deriving DecidableEq, Repr

/-- `GroupRequest`. -/
structure GroupRequest where
  userId : String
  group : String
  deriving DecidableEq, Repr

/-- A required text of a request body. -/
def validateNonEmpty (field value : String) : Except String Unit :=
  if Text.trim value = "" then .error (field ++ " cannot be empty") else .ok ()

def PolicyRequest.validate (req : PolicyRequest) : Except String Unit := do
  validateNonEmpty "sub" req.sub
  validateNonEmpty "obj" req.obj

def GroupRequest.validate (req : GroupRequest) : Except String Unit := do
  validateNonEmpty "user_id" req.userId
  validateNonEmpty "group" req.group

/-- A request to a route that changes the policy. The last two take their texts from the
    path and have no body to validate. -/
inductive RouteCall where
  | addRule (req : PolicyRequest)
  | removeRule (req : PolicyRequest)
  | assignGroup (req : GroupRequest)
  | removeUserFromGroup (groupName userId : String)
  | deleteGroup (groupName : String)
  deriving DecidableEq, Repr

namespace RouteCall

def validate : RouteCall → Except String Unit
  | .addRule req => req.validate
  | .removeRule req => req.validate
  | .assignGroup req => req.validate
  | _ => .ok ()

/-- The call of the policy engine that the handler makes. -/
def mutation : RouteCall → Mutation
  | .addRule req => .addRule req.sub req.obj req.act
  | .removeRule req => .removeRule req.sub req.obj req.act
  | .assignGroup req => .assignGroup req.userId req.group
  | .removeUserFromGroup groupName userId => .removeFromGroup userId groupName
  | .deleteGroup groupName => .deleteGroup groupName

/-- The management call of casbin under it. -/
def change : RouteCall → Change
  | .addRule req => .addPolicy [req.sub, req.obj, req.act.text]
  | .removeRule req => .removePolicy req.sub req.obj req.act.text
  | .assignGroup req => .addGroupingPolicy [req.userId, req.group]
  | .removeUserFromGroup groupName userId => .removeGroupingPolicy userId groupName
  | .deleteGroup groupName => .removeFilteredGroupingPolicy groupName

/-- The world after a call in which the store call behind the first `k` fails. -/
def step (w : World) (c : RouteCall × Option Nat) : World := (c.1.mutation.prog.failing c.2 w).2.1

theorem fits (c : RouteCall) : c.change.Fits := by cases c <;> simp [change, Change.Fits]

end RouteCall

/-- `P` holds of the world before the first call and after every call. -/
def Throughout (P : World → Prop) : List (RouteCall × Option Nat) → World → Prop
  | [], w => P w
  | c :: calls, w => P w ∧ Throughout P calls (RouteCall.step w c)

/-- Every call meets `cond` in the world it starts in. -/
def Along (cond : World → RouteCall × Option Nat → Prop) :
    List (RouteCall × Option Nat) → World → Prop
  | [], _ => True
  | c :: calls, w => cond w c ∧ Along cond calls (RouteCall.step w c)

/-! ### One call on the enforcer -/

private theorem failing_perform (c : Change) (fits : c.Fits) (k : Option Nat) (w : World) :
    ((c.perform.failing k w).2.1).enforcer =
      if k = some 0 then w.enforcer else c.next w.enforcer := by
  have effect := Change.effect_eq fits w.enforcer
  cases c with
  | addPolicy rule | addGroupingPolicy link =>
    simp only [Change.effect] at effect
    rcases k with _ | _ | k
    · simp [M.failing, Change.perform, onPolicy, Prog.perform, Prog.runFailing, Call.mayFail,
        Call.exec, PolicyCall.exec, effect, Change.next, Change.effect]
    · simp [M.failing, Change.perform, onPolicy, Prog.perform, Prog.runFailing, Call.mayFail]
    · simp [M.failing, Change.perform, onPolicy, Prog.perform, Prog.runFailing, Call.mayFail,
        Call.exec, PolicyCall.exec, effect, Change.next, Change.effect]
  | removePolicy sub obj act | removeGroupingPolicy user group
  | removeFilteredGroupingPolicy group =>
    rcases k with _ | _ | k <;> rfl

private theorem failing_announce (op : WalOp) (k : Option Nat) (w : World) :
    (((PolicyEngine.announce op).failing k w).2.1).enforcer = w.enforcer := by
  match k with
  | none | some (k + 1) => rfl
  | some 0 => rfl

private theorem failing_mutateThenAnnounce {c : Change} (fits : c.Fits) (op : WalOp)
    (k : Option Nat) (w : World) :
    (((PolicyEngine.mutateThenAnnounce c op).failing k w).2.1).enforcer =
      if k = some 0 then w.enforcer else c.next w.enforcer := by
  rw [← failing_perform c fits, PolicyEngine.mutateThenAnnounce, M.failing_bind]
  rcases c.perform.failing k w with ⟨a | success, w₁, k₁⟩
  · rfl
  · cases success with
    | false => rfl
    | true =>
      simp only [if_true]
      rw [M.failing_bind]
      have same := failing_announce op k₁ w₁
      rcases ran : (PolicyEngine.announce op).failing k₁ w₁ with ⟨e | u, w₂, k₂⟩
      all_goals
        rw [ran] at same
        exact same

/-- A route moves the enforcer by its management call, unless that very call fails. -/
theorem RouteCall.step_enforcer (w : World) (c : RouteCall × Option Nat) :
    (step w c).enforcer = if c.2 = some 0 then w.enforcer else c.1.change.next w.enforcer := by
  obtain ⟨c, k⟩ := c
  rw [← failing_mutateThenAnnounce c.fits c.change.op]
  cases c <;>
  · simp only [step, mutation, Mutation.prog]
    rw [M.failing_bind]
    simp only [change, Change.op, PolicyEngine.addRule, PolicyEngine.removeRule,
      PolicyEngine.assignGroup, PolicyEngine.removeFromGroup, PolicyEngine.deleteGroup,
      List.getD_cons_zero, List.getD_cons_succ]
    generalize PolicyEngine.mutateThenAnnounce _ _ = p
    rcases p.failing k w with ⟨e | u, w₁, k₁⟩ <;> rfl

/-! ### Rows and their keys -/

/-- The key that `encode_rule` files the fact under. -/
def Fact.key : Fact → String
  | .rule r => Adapter.ruleKey "p" "p" [r.sub, r.obj, r.act]
  | .link l => Adapter.ruleKey "g" "g" [l.user, l.group]

theorem Fact.startsWith_key (x : Fact) : Text.startsWith x.row.1 x.key = true := by
  cases x with
  | rule r => exact startsWith_ruleKey "p" _
  | link l => exact startsWith_ruleKey "g" _

theorem Fact.row_inj {x y : Fact} (same : x.row.2 = y.row.2) : x = y := by
  rcases x with ⟨s, o, a⟩ | ⟨u, g⟩ <;> rcases y with ⟨s', o', a'⟩ | ⟨u', g'⟩ <;>
    simp_all [Fact.row]

/-- A row that loads as a fact lies under the key of that fact. Rows that load as nothing
    are free. -/
def Filed (store : Kv (List String)) : Prop :=
  ∀ (x : Fact) (key : String), Text.startsWith x.row.1 key = true →
    store[key]? = some x.row.2 → key = x.key

theorem filed_empty : Filed ∅ := fun x key _ here => by simp at here

theorem Filed.insert {store : Kv (List String)} (filed : Filed store) (x : Fact) :
    Filed (store.insert x.key x.row.2) := by
  intro y key starts here
  rw [Kv.get_insert] at here
  split at here
  next same => rw [← same, Fact.row_inj (Option.some.inj here)]
  · exact filed y key starts here

theorem Filed.of_le {store store' : Kv (List String)} (filed : Filed store)
    (le : ∀ (key : String) row, store'[key]? = some row → store[key]? = some row) :
    Filed store' :=
  fun x key starts here => filed x key starts (le key _ here)

/-- A filed fact loads exactly from its own row. -/
theorem Filed.holds_iff {store : Kv (List String)} (filed : Filed store) {x : Fact} :
    (Adapter.loadPolicy store).Holds x ↔ store[x.key]? = some x.row.2 := by
  rw [holds_loadPolicy]
  constructor
  · rintro ⟨key, starts, here⟩
    rwa [filed x key starts here] at here
  · exact fun here => ⟨x.key, x.startsWith_key, here⟩

/-! ### Keys without the joining character -/

namespace Adapter

theorem hexEncode_inj {s t : String} (same : hexEncode s = hexEncode t) : s = t := by
  simp only [hexEncode, String.ofList_inj, ← List.flatMap_assoc] at same
  have bytes := congrArg List.toByteArray (hexBytes_inj same)
  rw [← String.toByteArray_inj, ← String.utf8Encode_toList, ← String.utf8Encode_toList]
  exact bytes

theorem ruleKey_inj {sec : String} {rule rule' : List String}
    (same : ruleKey sec sec rule = ruleKey sec sec rule') :
    String.intercalate "\x1f" rule = String.intercalate "\x1f" rule' := by
  simp only [ruleKey, String.append_right_inj] at same
  exact hexEncode_inj same

end Adapter
private theorem not_both_sections {key : String} (rule : Text.startsWith "p:p:" key = true) :
    ¬ Text.startsWith "g:g:" key = true := by
  intro link
  obtain ⟨t, rfl⟩ := Text.startsWith_iff.mp rule
  simp [Text.startsWith] at link

/-- No field contains the character that joins the fields. -/
def Fact.Plain (x : Fact) : Prop := ∀ field ∈ x.row.2, Text.Free '\x1f' field

/-- A fact of plain fields shares its key with no other fact. -/
theorem Fact.Plain.eq_of_key {x y : Fact} (plain : x.Plain) (same : y.key = x.key) : y = x := by
  have apart : ∀ (r : Rule) (l : Membership), (Fact.rule r).key ≠ (Fact.link l).key := by
    intro r l eq
    have starts := (Fact.rule r).startsWith_key
    rw [eq] at starts
    exact not_both_sections starts (Fact.link l).startsWith_key
  cases x with
  | rule r =>
    cases y with
    | link l => exact absurd same.symm (apart r l)
    | rule r' =>
      obtain ⟨a, b, c⟩ := r
      obtain ⟨a', b', c'⟩ := r'
      have joined : a' ++ String.singleton '\x1f' ++ b' ++ String.singleton '\x1f' ++ c' =
          a ++ String.singleton '\x1f' ++ b ++ String.singleton '\x1f' ++ c :=
        Adapter.ruleKey_inj same
      have free : Text.Free '\x1f' a ∧ Text.Free '\x1f' b ∧ Text.Free '\x1f' c := by
        simpa [Plain, row] using plain
      -- The two separators of the key are those between the fields of `x`.
      have count := congrArg (fun s : String => s.toList.count '\x1f') joined
      simp only [String.toList_append, String.toList_singleton, List.count_append,
        List.count_singleton_self, List.count_eq_zero_of_not_mem free.1,
        List.count_eq_zero_of_not_mem free.2.1, List.count_eq_zero_of_not_mem free.2.2] at count
      have free' : Text.Free '\x1f' c' := List.count_eq_zero.mp (by omega)
      obtain ⟨first, rfl⟩ := Text.append_sep_inj_right free' free.2.2 joined
      obtain ⟨rfl, rfl⟩ := Text.append_sep_inj_of_free free.1 free.2.1 first
      rfl
  | link l =>
    cases y with
    | rule r => exact absurd same (apart r l)
    | link l' =>
      obtain ⟨u, g⟩ := l
      obtain ⟨u', g'⟩ := l'
      have free : Text.Free '\x1f' u ∧ Text.Free '\x1f' g := by simpa [Plain, row] using plain
      obtain ⟨rfl, rfl⟩ := Text.append_sep_inj_of_free free.1 free.2 (Adapter.ruleKey_inj same)
      rfl

/-! ### One change -/

/-- The fact that a change asks the adapter to remove by its key. -/
def Change.unfiles : Change → Option Fact
  | .removePolicy sub obj act => some (.rule ⟨sub, obj, act⟩)
  | .removeGroupingPolicy user group => some (.link ⟨user, group⟩)
  | _ => none

/-- No other fact in force lies under the key of the removed one. -/
def Change.Clear (c : Change) (e : Enforcer) : Prop :=
  ∀ x, c.unfiles = some x → ∀ y, e.policy.Holds y → y.key = x.key → y = x

theorem Change.removes_iff {c : Change} {x : Fact} (unfiles : c.unfiles = some x) (y : Fact) :
    c.op.Removes y ↔ y = x := by
  cases c with
  | removePolicy sub obj act | removeGroupingPolicy user group =>
    obtain rfl := Option.some.inj unfiles
    cases y <;> simp [op, WalOp.Removes]
  | addPolicy | addGroupingPolicy | removeFilteredGroupingPolicy => cases unfiles

theorem Change.not_adds_of_unfiles {c : Change} {x : Fact} (unfiles : c.unfiles = some x)
    (y : Fact) : ¬ c.op.Adds y := by
  cases c with
  | removePolicy | removeGroupingPolicy => exact fun adds => by cases y <;> exact adds
  | addPolicy | addGroupingPolicy | removeFilteredGroupingPolicy => cases unfiles

theorem Enforcer.settle_wrote (e : Enforcer) {adapter : Bool × Kv (List String)}
    (wrote : adapter.1 = true) (policy : Policy) :
    (e.settle adapter policy).2 = ⟨adapter.2, policy⟩ := by
  simp [settle, wrote]

theorem Enforcer.settle_idle (e : Enforcer) {adapter : Bool × Kv (List String)}
    (idle : adapter.1 = false) (policy : Policy) :
    (e.settle adapter policy).2 = ⟨adapter.2, e.policy⟩ := by
  simp [settle, idle]

theorem Change.next_eq {c : Change} (fits : c.Fits) (e : Enforcer) :
    c.next e = (e.settle (c.write e.store) (e.policy.apply c.op)).2 := by
  rw [next, effect_eq fits]

/-- The store that a change leaves is what the adapter wrote, counted or not. -/
theorem Change.next_store {c : Change} (fits : c.Fits) (e : Enforcer) :
    (c.next e).store = (c.write e.store).2 := by
  rw [next_eq fits, Enforcer.settle]
  split <;> rfl

/-- A call that adds nothing only takes rows away. -/
theorem Change.of_write {c : Change} (policy : ∀ rule, c ≠ .addPolicy rule)
    (grouping : ∀ link, c ≠ .addGroupingPolicy link) {store : Kv (List String)} {key : String}
    {row : List String} (here : (c.write store).2[key]? = some row) : store[key]? = some row := by
  cases c with
  | addPolicy rule => exact absurd rfl (policy rule)
  | addGroupingPolicy link => exact absurd rfl (grouping link)
  | removePolicy | removeGroupingPolicy =>
    simp only [write, Adapter.removePolicy] at here
    split at here
    · exact Kv.of_get_erase here
    · exact here
  | removeFilteredGroupingPolicy group =>
    simp only [write, Adapter.removeFilteredPolicy, Kv.get_commit_deletes] at here
    split at here
    · cases here
    · exact here

/-- A removal by key deletes the row there, whatever it holds. -/
theorem Change.next_of_unfiles {c : Change} {x : Fact} (unfiles : c.unfiles = some x)
    (e : Enforcer) :
    c.next e = if x.key ∈ e.store then ⟨e.store.erase x.key, e.policy.apply c.op⟩ else e := by
  cases c with
  | removePolicy sub obj act | removeGroupingPolicy user group =>
    obtain rfl := Option.some.inj unfiles
    rw [next_eq (by trivial)]
    simp only [write, Adapter.removePolicy, Enforcer.settle, Fact.key]
    split
    next there => simp [there]
    next free => simp [free]
  | addPolicy | addGroupingPolicy | removeFilteredGroupingPolicy => cases unfiles

/-- **Removal step**: store and model stay in step exactly when the row that goes is the
    one the request names. -/
theorem Synced.next_unfiles_iff {c : Change} {x : Fact} (unfiles : c.unfiles = some x)
    {e : Enforcer} (filed : Filed e.store) (synced : Synced e) :
    Synced (c.next e) ↔ ∀ y, e.policy.Holds y → y.key = x.key → y = x := by
  have stored : ∀ y, e.store[y.key]? = some y.row.2 ↔ e.policy.Holds y := fun y =>
    filed.holds_iff.symm.trans (synced y)
  rw [Change.next_of_unfiles unfiles]
  split
  next there =>
    have filed' : Filed (e.store.erase x.key) := filed.of_le fun _ _ => Kv.of_get_erase
    -- the row under the key goes from the store, the named fact from the model
    have left : Synced ⟨e.store.erase x.key, e.policy.apply c.op⟩ ↔
        ∀ y, (y.key ≠ x.key ∧ e.policy.Holds y ↔ e.policy.Holds y ∧ y ≠ x) := by
      refine forall_congr' fun y => ?_
      rw [Enforcer.reopen, filed'.holds_iff, Policy.holds_apply, Change.removes_iff unfiles,
        Kv.get_erase, ← stored]
      have adds := Change.not_adds_of_unfiles unfiles y
      by_cases same : x.key = y.key
      · simp [same, adds]
      · simp [same, Ne.symm same, adds]
    rw [left]
    constructor
    · intro kept y holds same
      by_contra other
      exact ((kept y).mpr ⟨holds, other⟩).1 same
    · intro clear y
      constructor
      · rintro ⟨apart, holds⟩
        exact ⟨holds, fun same => apart (by rw [same])⟩
      · rintro ⟨holds, other⟩
        exact ⟨fun same => other (clear y holds same), holds⟩
  next free =>
    -- no row under the key: nothing is erased and the model is left alone
    refine iff_of_true synced fun y holds same => absurd ?_ free
    rw [← same]
    exact Kv.mem_iff_get.mpr ⟨_, (stored y).mpr holds⟩

/-- The rows that `remove_filtered_policy` deletes for a group. -/
private theorem get_removeFiltered {group : String} {store : Kv (List String)} {key : String} :
    (Adapter.removeFilteredPolicy "g" "g" 1 group store).2[key]? =
      if Text.startsWith "g:g:" key = true ∧ ∃ row, store[key]? = some row ∧ row[1]? = some group
      then none else store[key]? := by
  rw [Adapter.removeFilteredPolicy, Kv.get_commit_deletes]
  refine if_congr ?_ rfl rfl
  simp only [List.mem_map, List.mem_filter, Prod.exists, Bool.and_eq_true, decide_eq_true_eq,
    Kv.mem_toList]
  constructor
  · rintro ⟨k, row, ⟨here, starts, at_1⟩, rfl⟩
    exact ⟨starts, row, here, at_1⟩
  · rintro ⟨starts, row, here, at_1⟩
    exact ⟨key, row, ⟨here, starts, at_1⟩, rfl⟩

private theorem removeFiltered_idle {group : String} {store : Kv (List String)}
    (idle : (Adapter.removeFilteredPolicy "g" "g" 1 group store).1 = false) :
    (Adapter.removeFilteredPolicy "g" "g" 1 group store).2 = store := by
  simp only [Adapter.removeFilteredPolicy, Bool.not_eq_false', List.isEmpty_iff] at idle ⊢
  rw [idle]
  rfl

/-- Deleting a group compares the fields of the rows, so it hits the same links on both sides,
    in any store. -/
theorem Synced.next_deleteGroup {e : Enforcer} (synced : Synced e) (group : String) :
    Synced ((Change.removeFilteredGroupingPolicy group).next e) := by
  have loads : ∀ x, (Adapter.loadPolicy
        (Adapter.removeFilteredPolicy "g" "g" 1 group e.store).2).Holds x ↔
      e.policy.Holds x ∧ ¬ (WalOp.groupDelete group).Removes x := by
    intro x
    rw [← synced x, Enforcer.reopen, holds_loadPolicy, holds_loadPolicy]
    simp only [get_removeFiltered]
    cases x with
    | rule r =>
      simp only [Fact.row, WalOp.Removes, not_false_eq_true, and_true]
      refine exists_congr fun key => and_congr_right fun starts => ?_
      rw [if_neg fun both => not_both_sections starts both.1]
    | link l =>
      simp only [Fact.row, WalOp.Removes, ite_eq_iff]
      constructor
      · rintro ⟨key, starts, ⟨-, ⟨⟩⟩ | ⟨kept, here⟩⟩
        exact ⟨⟨key, starts, here⟩, fun same => kept ⟨starts, _, here, by simp [same]⟩⟩
      · rintro ⟨⟨key, starts, here⟩, other⟩
        refine ⟨key, starts, .inr ⟨?_, here⟩⟩
        rintro ⟨-, row, here', at_1⟩
        obtain rfl := Option.some.inj (here.symm.trans here')
        exact other (by simpa using at_1)
  have next : (Change.removeFilteredGroupingPolicy group).next e =
      (e.settle (Adapter.removeFilteredPolicy "g" "g" 1 group e.store)
        (e.policy.apply (.groupDelete group))).2 := Change.next_eq (by trivial) e
  intro x
  cases wrote : (Adapter.removeFilteredPolicy "g" "g" 1 group e.store).1 with
  | true =>
    rw [next, e.settle_wrote wrote, Enforcer.reopen]
    refine (loads x).trans (Iff.symm ?_)
    rw [Policy.holds_apply]
    simp [WalOp.Adds]
  | false =>
    -- Nothing was deleted, so the store still loads what is in force.
    rw [next, e.settle_idle wrote, removeFiltered_idle wrote]
    exact synced x

theorem Filed.next {e : Enforcer} (filed : Filed e.store) {c : Change} (fits : c.Fits) :
    Filed (c.next e).store := by
  have added : ∀ x : Fact, Filed (Change.write.insertNew x.key x.row.2 e.store).2 := by
    intro x
    rw [Change.write.insertNew]
    split
    · exact filed
    · exact filed.insert x
  rw [Change.next_store fits]
  cases c with
  | addPolicy rule =>
    obtain ⟨sub, obj, act, rfl⟩ := List.length_eq_three.mp fits
    exact added (.rule ⟨sub, obj, act⟩)
  | addGroupingPolicy link =>
    obtain ⟨user, group, rfl⟩ := List.length_eq_two.mp fits
    exact added (.link ⟨user, group⟩)
  | _ => exact filed.of_le fun key row => Change.of_write (by simp) (by simp)

/-- **Step lemma**: a change keeps store and model in step exactly when it is clear. -/
theorem Synced.next_iff {c : Change} (fits : c.Fits) {e : Enforcer} (filed : Filed e.store)
    (synced : Synced e) : Synced (c.next e) ↔ c.Clear e := by
  cases c with
  | addPolicy rule =>
    obtain ⟨sub, obj, act, rfl⟩ := List.length_eq_three.mp fits
    exact iff_of_true (synced.next ⟨.rule ⟨sub, obj, act⟩, by trivial⟩) fun _ unfiles => nomatch unfiles
  | addGroupingPolicy link =>
    obtain ⟨user, group, rfl⟩ := List.length_eq_two.mp fits
    exact iff_of_true (synced.next ⟨.link ⟨user, group⟩, by trivial⟩) fun _ unfiles => nomatch unfiles
  | removePolicy sub obj act =>
    rw [synced.next_unfiles_iff rfl filed, Change.Clear]
    simp [Change.unfiles]
  | removeGroupingPolicy user group =>
    rw [synced.next_unfiles_iff rfl filed, Change.Clear]
    simp [Change.unfiles]
  | removeFilteredGroupingPolicy group =>
    exact iff_of_true (synced.next_deleteGroup group) fun _ unfiles => nomatch unfiles

/-! ### Sequences of calls -/

/-- The call is clear, if its store call is answered at all. -/
def RouteCall.Clear (w : World) (c : RouteCall × Option Nat) : Prop :=
  c.2 ≠ some 0 → c.1.change.Clear w.enforcer

theorem RouteCall.filed_step {w : World} (filed : Filed w.enforcer.store)
    (c : RouteCall × Option Nat) : Filed (step w c).enforcer.store := by
  rw [step_enforcer]
  split
  · exact filed
  · exact filed.next c.1.fits

theorem RouteCall.synced_step_iff {w : World} (filed : Filed w.enforcer.store)
    (synced : Synced w.enforcer) (c : RouteCall × Option Nat) :
    Synced (step w c).enforcer ↔ Clear w c := by
  rw [step_enforcer, Clear]
  split
  next failed => simp [failed, synced]
  next answered => simp [answered, synced.next_iff c.1.fits filed]

/-- The policy that would be loaded from the store is the one in force, after every call. -/
def Persisted (calls : List (RouteCall × Option Nat)) (w : World) : Prop :=
  Throughout (fun w' => Synced w'.enforcer) calls w

theorem policy_persisted_iff {w : World} (filed : Filed w.enforcer.store)
    (synced : Synced w.enforcer) (calls : List (RouteCall × Option Nat)) :
    Persisted calls w ↔ Along RouteCall.Clear calls w := by
  induction calls generalizing w with
  | nil => exact iff_of_true synced trivial
  | cons c calls ih =>
    have step := RouteCall.synced_step_iff filed synced c
    constructor
    · rintro ⟨-, later⟩
      have next : Synced (RouteCall.step w c).enforcer := by
        cases calls with
        | nil => exact later
        | cons => exact later.1
      exact ⟨step.mp next, (ih (RouteCall.filed_step filed c) next).mp later⟩
    · rintro ⟨clear, later⟩
      exact ⟨synced, (ih (RouteCall.filed_step filed c) (step.mpr clear)).mpr later⟩

/-- Without the joining character in the fields of the removed rules and memberships, the
    store is always in step. -/
theorem policy_persisted_of_plain {w : World} (filed : Filed w.enforcer.store)
    (synced : Synced w.enforcer) {calls : List (RouteCall × Option Nat)}
    (plain : ∀ c ∈ calls, ∀ x, c.1.change.unfiles = some x → x.Plain) : Persisted calls w := by
  rw [policy_persisted_iff filed synced]
  clear filed synced
  induction calls generalizing w with
  | nil => trivial
  | cons c calls ih =>
    refine ⟨fun _ x unfiles y _ same => ?_, ih fun c' mem => plain c' (.tail _ mem)⟩
    exact (plain c (.head _) x unfiles).eq_of_key same

/-! ### Instances -/

/-- A rule, and a request to remove another one that joins to the same text. -/
def collision : List (RouteCall × Option Nat) :=
  [(.addRule ⟨"a\x1fb", "c", .read⟩, none), (.removeRule ⟨"a", "b\x1fc", .read⟩, none)]

/-- The removal deletes the row of the other rule, which stays in force until the store is
    loaded again. -/
theorem collision_not_persisted : ¬ ∀ calls : List (RouteCall × Option Nat),
    (∀ c ∈ calls, c.1.validate = .ok ()) → Persisted calls (World.init fun _ => "") := by
  intro all
  let last := (collision.foldl RouteCall.step (World.init fun _ => "")).enforcer
  have synced : Synced last := (all collision (by decide +kernel)).2.2
  have inForce : (⟨"a\x1fb", "c", "read"⟩ : Rule) ∈ last.policy.rules := by decide +kernel
  have notLoaded : (⟨"a\x1fb", "c", "read"⟩ : Rule) ∉ last.reopen.policy.rules := by
    decide +kernel
  exact notLoaded ((synced (.rule ⟨"a\x1fb", "c", "read"⟩)).mpr inForce)

/-- A rule that is granted, granted again and withdrawn. -/
def grantAndWithdraw : List (RouteCall × Option Nat) :=
  [(.addRule ⟨"alice", "invoice:1", .read⟩, none), (.addRule ⟨"alice", "invoice:1", .read⟩, none),
    (.removeRule ⟨"alice", "invoice:1", .read⟩, none)]

theorem grantAndWithdraw_persisted :
    Persisted grantAndWithdraw (World.init fun _ => "") ∧
      (grantAndWithdraw.foldl RouteCall.step (World.init fun _ => "")).enforcer.store.isEmpty := by
  have synced : Synced (World.init fun _ => "").enforcer := fun x => by cases x <;> exact Iff.rfl
  refine ⟨(policy_persisted_iff (w := World.init fun _ => "") filed_empty synced _).mpr ?_, ?_⟩
  · have plain : (Fact.rule ⟨"alice", "invoice:1", "read"⟩).Plain := by
      unfold Fact.Plain
      decide +kernel
    refine ⟨fun _ _ bad => (nomatch bad), fun _ _ bad => (nomatch bad),
      fun _ x unfiles y _ same => ?_, trivial⟩
    obtain rfl := Option.some.inj unfiles
    exact plain.eq_of_key same
  · decide +kernel

end RustApi
