import RustApi.Policy.Backup
import RustApi.Policy.Persist

/-!
# The routes that change the policy

Requests to `/policy` and `/setup/admin` in flight on one server. A handler first asks
`require` for a right of the caller, and makes its change in a later step, so that others can
change the policy in between. The write lock of the enforcer covers a change, and it covers
the check and all changes of `claim_superadmin`; what is announced afterwards does not touch
the enforcer. How casbin follows memberships (how deep, and over which links) is a
parameter.

## Main results

- `outsiders_change_nothing`: callers without these rights gain none, in any interleaving.
- `bootstrap_once`: the claims that succeed are matched by requests that emptied the role.
-/

namespace RustApi

open Lib

/-! ### Handlers -/

/-- A handler that changes the policy. -/
inductive PolicyHandler where
  | change (c : RouteCall)
  | claimAdmin
  deriving DecidableEq, Repr

/-- `Resource`. -/
inductive Resource where
  | userGroups
  | rules
  deriving DecidableEq, Repr

/-- `Resource::as_str`. -/
def Resource.text : Resource → String
  | .userGroups => "user_groups"
  | .rules => "rules"

/-- What the handler requires the caller to be allowed to write. -/
def RouteCall.resource : RouteCall → Resource
  | .addRule _ => .rules
  | .removeRule _ => .rules
  | .assignGroup _ => .userGroups
  | .removeUserFromGroup .. => .userGroups
  | .deleteGroup _ => .userGroups

/-- What casbin's role manager answers. It goes by the links that there are, whatever their order. -/
structure RoleManager where
  hasLink : List Membership → String → String → Bool
  same : ∀ L L' name role, (∀ l, l ∈ L ↔ l ∈ L') → hasLink L name role = hasLink L' name role

/-- `enforce` with this role manager. -/
def Policy.enforceWith (P : Policy) (roles : RoleManager) (sub obj act : String) : Bool :=
  P.rules.any fun r => roles.hasLink P.links sub r.sub && decide (obj = r.obj) && decide (act = r.act)

/-- `require` passes. -/
def RouteCall.Allowed (roles : RoleManager) (c : RouteCall) (caller : String) (P : Policy) : Prop :=
  P.enforceWith roles caller c.resource.text Action.write.text = true

/-- The texts of a body were checked before the handler runs. -/
def PolicyHandler.Valid : PolicyHandler → Prop
  | .change c => c.validate = .ok ()
  | .claimAdmin => True

/-- `claim_admin`, where the store call behind the first `k` fails. The answer says whether the
    role was granted. -/
def claimStep (caller : String) (k : Option Nat) (w : World) : Except Error Bool × World :=
  (((PolicyEngine.claimSuperadmin caller).failing k w).1,
    ((PolicyEngine.claimSuperadmin caller).failing k w).2.1)

/-! ### The server -/

/-- A request in flight; `admitted` once `require` has passed. -/
structure PolicyRequest.Pending where
  caller : String
  handler : PolicyHandler
  admitted : Bool

/-- The process: its world, and the requests by number. -/
structure PolicyServer where
  world : World
  pending : Nat → Option PolicyRequest.Pending

/-- What a step shows. -/
inductive PolicyEvent where
  | arrived (pid : Nat) (caller : String) (handler : PolicyHandler)
  | admitted (pid : Nat) (caller : String) (c : RouteCall)
  | changed (pid : Nat) (caller : String) (c : RouteCall)
  | claimed (caller : String) (answer : Except Error Bool)
  | quiet

namespace PolicyServer

def policy (s : PolicyServer) : Policy := s.world.enforcer.policy

inductive Step (roles : RoleManager) (s : PolicyServer) : PolicyEvent → PolicyServer → Prop
  | arrive (pid : Nat) (caller : String) (handler : PolicyHandler) :
      s.pending pid = none → handler.Valid →
      Step roles s (.arrived pid caller handler)
        { s with pending := Function.update s.pending pid (some ⟨caller, handler, false⟩) }
  | pass (pid : Nat) (caller : String) (c : RouteCall) :
      s.pending pid = some ⟨caller, .change c, false⟩ → c.Allowed roles caller s.policy →
      Step roles s (.admitted pid caller c)
        { s with pending := Function.update s.pending pid (some ⟨caller, .change c, true⟩) }
  | refuse (pid : Nat) (caller : String) (c : RouteCall) :
      s.pending pid = some ⟨caller, .change c, false⟩ → ¬ c.Allowed roles caller s.policy →
      Step roles s .quiet { s with pending := Function.update s.pending pid none }
  | change (pid : Nat) (caller : String) (c : RouteCall) (k : Option Nat) :
      s.pending pid = some ⟨caller, .change c, true⟩ →
      Step roles s (.changed pid caller c)
        ⟨RouteCall.step s.world (c, k), Function.update s.pending pid none⟩
  | claim (pid : Nat) (caller : String) (k : Option Nat) :
      s.pending pid = some ⟨caller, .claimAdmin, false⟩ →
      Step roles s (.claimed caller (claimStep caller k s.world).1)
        ⟨(claimStep caller k s.world).2, Function.update s.pending pid none⟩
  -- a client that goes away takes its request along
  | gone (pid : Nat) : Step roles s .quiet { s with pending := Function.update s.pending pid none }
  -- the rest of the process
  | elsewhere (w : World) : w.enforcer = s.world.enforcer → Step roles s .quiet { s with world := w }

/-- A step of a run: the policy it met, what it showed, and the policy it left. -/
structure Moment where
  before : Policy
  event : PolicyEvent
  after : Policy

inductive Run (roles : RoleManager) (s : PolicyServer) : List Moment → PolicyServer → Prop
  | start : Run roles s [] s
  | step {past : List Moment} {t u : PolicyServer} {e : PolicyEvent} :
      Run roles s past t → Step roles t e u → Run roles s (past ++ [⟨t.policy, e, u.policy⟩]) u

end PolicyServer

open PolicyServer

section Requests

variable {roles : RoleManager}

/-- A request in flight was in flight before, has just arrived, or has just been admitted. -/
theorem PolicyServer.Step.pending_cases {s t : PolicyServer} {e : PolicyEvent}
    (step : Step roles s e t) {pid : Nat} {p : PolicyRequest.Pending}
    (here : t.pending pid = some p) :
    s.pending pid = some p ∨ e = .arrived pid p.caller p.handler ∧ p.admitted = false ∨
    ∃ c, e = .admitted pid p.caller c ∧ p = ⟨p.caller, .change c, true⟩ ∧
      s.pending pid = some ⟨p.caller, .change c, false⟩ := by
  cases step with
  | arrive pid' caller handler free valid =>
    simp only [Function.update_apply] at here
    split at here
    next same =>
      cases here
      exact .inr (.inl ⟨by rw [same], rfl⟩)
    · exact .inl here
  | pass pid' caller c waiting allowed =>
    simp only [Function.update_apply] at here
    split at here
    next same =>
      cases here
      exact .inr (.inr ⟨c, by rw [same], rfl, by rw [same, waiting]⟩)
    · exact .inl here
  -- the other steps take a request away or touch none
  | refuse pid' | change pid' | claim pid' | gone pid' =>
    simp only [Function.update_apply] at here
    split at here
    · cases here
    · exact .inl here
  | elsewhere w same => exact .inl here

/-- Every request in flight arrived in the run, and one that is admitted was admitted in it. -/
structure Attributed (past : List Moment) (s : PolicyServer) : Prop where
  arrived : ∀ pid p, s.pending pid = some p →
    ∃ m ∈ past, m.event = .arrived pid p.caller p.handler
  admitted : ∀ pid caller c, s.pending pid = some ⟨caller, .change c, true⟩ →
    ∃ m ∈ past, m.event = .admitted pid caller c

theorem Attributed.step {past : List Moment} {s t : PolicyServer} {e : PolicyEvent}
    (attributed : Attributed past s) (step : Step roles s e t) :
    Attributed (past ++ [⟨s.policy, e, t.policy⟩]) t where
  arrived := by
    intro pid p here
    rcases step.pending_cases here with before | ⟨rfl, -⟩ | ⟨c, -, eq, before⟩
    · obtain ⟨m, mem, event⟩ := attributed.arrived pid p before
      exact ⟨m, List.mem_append_left _ mem, event⟩
    · exact ⟨_, List.mem_append_right _ (List.mem_singleton_self _), rfl⟩
    · obtain ⟨m, mem, event⟩ := attributed.arrived pid _ before
      rw [eq]
      exact ⟨m, List.mem_append_left _ mem, event⟩
  admitted := by
    intro pid caller c here
    rcases step.pending_cases here with before | ⟨-, bad⟩ | ⟨c', rfl, eq, -⟩
    · obtain ⟨m, mem, event⟩ := attributed.admitted pid caller c before
      exact ⟨m, List.mem_append_left _ mem, event⟩
    · cases bad
    · cases eq
      exact ⟨_, List.mem_append_right _ (List.mem_singleton_self _), rfl⟩

theorem attributed_run {s t : PolicyServer} {past : List Moment}
    (idle : ∀ pid, s.pending pid = none) (run : Run roles s past t) : Attributed past t := by
  induction run with
  | start => exact ⟨fun pid p here => by simp [idle] at here, fun pid caller c here => by
      simp [idle] at here⟩
  | step _ step ih => exact ih.step step

end Requests

/-! ### Calls under the lock -/

/-- What `claim_superadmin` calls, but for the grant of the role. -/
def Call.Seeds (c : Call) : Prop :=
  (∃ right ∈ PolicyEngine.superadminRights, c = .policy (.addPolicy
    [PolicyEngine.superadminRole, right.1, right.2.text])) ∨ ∃ op, c = .wal (.append op)

theorem exec_addPolicy (rule : List String) (w : World) :
    (Call.exec (.policy (.addPolicy rule)) w).2.enforcer =
      (Change.addPolicy rule).next w.enforcer := by
  simp only [Call.exec, PolicyCall.exec, Change.next, Change.effect]
  cases w.enforcer.addPolicy rule <;> rfl

theorem ensureSuperadminRules_seeds {rights : List (String × Action)}
    (known : ∀ right ∈ rights, right ∈ PolicyEngine.superadminRights) :
    (PolicyEngine.ensureSuperadminRules rights).Only Call.Seeds := by
  induction rights with
  | nil => trivial
  | cons right rights ih =>
    have later := ih fun right mem => known right (List.mem_cons_of_mem _ mem)
    refine Prog.only_bind ⟨.inl ⟨right, known _ List.mem_cons_self, rfl⟩, fun r => trivial⟩
      fun success => Prog.only_bind later fun added => ?_
    trivial

theorem announceRights_seeds (rights : List (String × Action)) :
    (PolicyEngine.announceRights rights).Only Call.Seeds := by
  induction rights with
  | nil => trivial
  | cons right rights ih =>
    exact Prog.only_bind ⟨.inr ⟨_, rfl⟩, fun r => trivial⟩ fun _ => ih

/-- The call that grants the role is answered and makes its change, or fails and makes none. -/
theorem failing_link (user group : String) (k : Option Nat) (w : World) :
    (∃ k', M.failing (Change.addGroupingPolicy [user, group]).perform k w =
      (.ok ((Change.addGroupingPolicy [user, group]).changed w.enforcer),
        { w with enforcer := (Change.addGroupingPolicy [user, group]).next w.enforcer }, k')) ∨
    M.failing (Change.addGroupingPolicy [user, group]).perform k w =
      (.error storeFault, w, none) := by
  have effect := Change.effect_eq (c := .addGroupingPolicy [user, group]) rfl w.enforcer
  simp only [Change.effect] at effect
  rcases k with _ | _ | k
  · left
    simp [M.failing, Change.perform, onPolicy, Prog.perform, Prog.runFailing, Call.mayFail,
      Call.exec, PolicyCall.exec, effect, Change.next, Change.changed, Change.effect]
  · right
    simp [M.failing, Change.perform, onPolicy, Prog.perform, Prog.runFailing, Call.mayFail]
  · left
    simp [M.failing, Change.perform, onPolicy, Prog.perform, Prog.runFailing, Call.mayFail,
      Call.exec, PolicyCall.exec, effect, Change.next, Change.changed, Change.effect]

/-- What the changes of a seed keep, `claim_superadmin` keeps: always when the role is held, and
    otherwise from the link on. The role is granted only where nobody held it. -/
theorem claimStep_cases {I : Enforcer → Prop} (caller : String) (k : Option Nat) (w : World)
    (seeds : ∀ e, I e → ∀ right ∈ PolicyEngine.superadminRights,
      I ((Change.addPolicy [PolicyEngine.superadminRole, right.1, right.2.text]).next e)) :
    w.enforcer.policy.getUsersInGroup PolicyEngine.superadminRole ≠ [] ∧
        (claimStep caller k w).1 ≠ .ok true ∧
        (I w.enforcer → I (claimStep caller k w).2.enforcer) ∨
      w.enforcer.policy.getUsersInGroup PolicyEngine.superadminRole = [] ∧
        ((claimStep caller k w).1 ≠ .ok true ∧ (claimStep caller k w).2.enforcer = w.enforcer ∨
          (I ((Change.addGroupingPolicy [caller, PolicyEngine.superadminRole]).next w.enforcer) →
            I (claimStep caller k w).2.enforcer)) := by
  -- a seed or an entry of the feed keeps `I`, so only the grant of the role is left to look at
  have keeps : ∀ c w, Call.Seeds c → I w.enforcer → I (Call.exec c w).2.enforcer := by
    intro c w seed inside
    rcases seed with ⟨right, mem, rfl⟩ | ⟨op, rfl⟩
    · rw [exec_addPolicy]
      exact seeds _ inside right mem
    · exact inside
  have users : M.failing (onPolicy (.getUsersForRole PolicyEngine.superadminRole)) k w =
      (.ok (w.enforcer.policy.getUsersInGroup PolicyEngine.superadminRole), w, k) := by
    cases k <;> rfl
  have seeding (answer : Bool) (ops : M Unit) (told : ops.Only Call.Seeds) : (do
      let added ← PolicyEngine.ensureSuperadminRules PolicyEngine.superadminRights
      ops
      PolicyEngine.announceRights added
      pure answer : M Bool).Only Call.Seeds :=
    Prog.only_bind (ensureSuperadminRules_seeds fun _ mem => mem) fun added =>
      Prog.only_bind told fun _ => Prog.only_bind (announceRights_seeds added) fun _ => trivial
  rw [claimStep, PolicyEngine.claimSuperadmin, M.failing_bind, users]
  simp only
  cases held : w.enforcer.policy.getUsersInGroup PolicyEngine.superadminRole with
  | cons member members =>
    left
    simp only [List.isEmpty_cons, Bool.false_eq_true, not_false_eq_true, if_true]
    refine ⟨by simp, ?_, fun inside => ?_⟩
    · apply Prog.Returns.runFailing (Q := fun r => r ≠ .ok true)
      exact Prog.returns_bind (by simp) fun added => Prog.returns_bind (by simp) fun _ => by
        simp [pure, Prog.Returns]
    · exact Prog.Only.runFailing (I := fun w : World => I w.enforcer)
        (seeding false (pure ()) trivial) inside keeps
  | nil =>
    right
    simp only [List.isEmpty_nil, not_true_eq_false, if_false]
    refine ⟨trivial, ?_⟩
    have told : (PolicyEngine.announce (.groupAdd caller PolicyEngine.superadminRole)).Only
        Call.Seeds := ⟨.inr ⟨_, rfl⟩, fun r => trivial⟩
    rw [M.failing_bind]
    rcases failing_link caller PolicyEngine.superadminRole k w with ⟨k', linked⟩ | failed
    · -- behind the link only the seed is left
      right
      intro inside
      rw [linked]
      exact Prog.Only.runFailing (I := fun w : World => I w.enforcer)
        (seeding true _ told) inside keeps
    · left
      rw [failed]
      simp

/-! ### Callers without rights -/

/-- The caller may write no resource of the policy and is no superadmin. -/
structure Outsider (roles : RoleManager) (P : Policy) (caller : String) : Prop where
  denied : ∀ resource : Resource,
    P.enforceWith roles caller resource.text Action.write.text = false
  apart : roles.hasLink P.links caller PolicyEngine.superadminRole = false

/-- Somebody is a superadmin. A link of the role to itself makes nobody one: casbin drops it. -/
def Policy.led (P : Policy) : Bool :=
  P.links.any fun l => decide (l.group = PolicyEngine.superadminRole) &&
    decide (l.user ≠ PolicyEngine.superadminRole)

theorem Policy.led_iff {P : Policy} : P.led = true ↔
    ∃ user, user ≠ PolicyEngine.superadminRole ∧ P.Holds (.link ⟨user, PolicyEngine.superadminRole⟩) := by
  simp only [led, List.any_eq_true, Bool.and_eq_true, decide_eq_true_eq, Holds]
  constructor
  · rintro ⟨⟨user, group⟩, mem, rfl, other⟩
    exact ⟨user, other, mem⟩
  · rintro ⟨user, other, mem⟩
    exact ⟨_, mem, rfl, other⟩

theorem Policy.members_of_led {P : Policy} (led : P.led = true) :
    P.getUsersInGroup PolicyEngine.superadminRole ≠ [] := by
  obtain ⟨user, -, member⟩ := led_iff.mp led
  have mem : user ∈ P.getUsersInGroup PolicyEngine.superadminRole :=
    List.mem_map.mpr ⟨_, List.mem_filter.mpr ⟨member, decide_eq_true rfl⟩, rfl⟩
  exact List.ne_nil_of_mem mem

/-- The policy with rights of the superadmin role seeded again at most. -/
structure Healed (P Q : Policy) : Prop where
  links : ∀ l, l ∈ Q.links ↔ l ∈ P.links
  kept : ∀ r ∈ P.rules, r ∈ Q.rules
  added : ∀ r ∈ Q.rules, r ∈ P.rules ∨ ∃ right ∈ PolicyEngine.superadminRights,
    r = ⟨PolicyEngine.superadminRole, right.1, right.2.text⟩

theorem Healed.refl (P : Policy) : Healed P P := ⟨fun _ => Iff.rfl, fun _ mem => mem, fun _ => .inl⟩

/-- Who is no superadmin is answered as before. -/
theorem Healed.enforceWith {P Q : Policy} (healed : Healed P Q) {roles : RoleManager}
    {caller : String} (apart : roles.hasLink P.links caller PolicyEngine.superadminRole = false)
    (obj act : String) : Q.enforceWith roles caller obj act = P.enforceWith roles caller obj act := by
  have linked (role : String) : roles.hasLink Q.links caller role = roles.hasLink P.links caller role :=
    roles.same _ _ _ _ healed.links
  apply Bool.eq_iff_iff.mpr
  simp only [Policy.enforceWith, List.any_eq_true, Bool.and_eq_true, decide_eq_true_eq, linked]
  constructor
  · rintro ⟨r, mem, ⟨reach, object⟩, action⟩
    rcases healed.added r mem with old | ⟨right, -, rfl⟩
    · exact ⟨r, old, ⟨reach, object⟩, action⟩
    · rw [apart] at reach
      cases reach
  · rintro ⟨r, mem, granted⟩
    exact ⟨r, healed.kept r mem, granted⟩

theorem Healed.led {P Q : Policy} (healed : Healed P Q) (led : P.led = true) : Q.led = true := by
  obtain ⟨user, other, member⟩ := Policy.led_iff.mp led
  exact Policy.led_iff.mpr ⟨user, other, (healed.links _).mpr member⟩

/-- Seeding a right of the role heals. -/
theorem Healed.seed {P : Policy} {e : Enforcer} (healed : Healed P e.policy)
    {right : String × Action} (known : right ∈ PolicyEngine.superadminRights) :
    Healed P
      ((Change.addPolicy [PolicyEngine.superadminRole, right.1, right.2.text]).next e).policy := by
  rw [Change.next_policy]
  split
  · simp only [Change.op, List.getD_cons_zero, List.getD_cons_succ, Policy.apply]
    split
    · exact healed
    · refine ⟨healed.links, fun r mem => List.mem_append_left _ (healed.kept r mem), fun r mem => ?_⟩
      rcases List.mem_append.mp mem with old | new
      · exact healed.added r old
      · exact .inr ⟨right, known, List.mem_singleton.mp new⟩
  · exact healed

theorem Healed.claim {P : Policy} {w : World} (healed : Healed P w.enforcer.policy)
    (led : P.led = true) (caller : String) (k : Option Nat) : Healed P (claimStep caller k w).2.enforcer.policy ∧
      (claimStep caller k w).1 ≠ .ok true := by
  rcases claimStep_cases (I := fun e => Healed P e.policy) caller k w
    fun e inside right known => inside.seed known with ⟨-, refused, keeps⟩ | ⟨empty, -⟩
  · exact ⟨keeps healed, refused⟩
  · exact absurd empty (Policy.members_of_led (healed.led led))

/-- **Nobody lifts himself**. While somebody other than the role itself holds the superadmin role,
    requests of callers who may write neither resource and are no superadmins leave the policy as
    it was, however they interleave and whatever fails: none is admitted, no claim is granted, and
    at most the rights of the role itself are seeded again, so that everyone else is answered as
    before. -/
theorem outsiders_change_nothing {roles : RoleManager} {s t : PolicyServer} {past : List Moment}
    (idle : ∀ pid, s.pending pid = none) (led : s.policy.led = true) (run : Run roles s past t)
    (outsiders : ∀ m ∈ past, ∀ pid caller handler, m.event = .arrived pid caller handler →
      Outsider roles s.policy caller) :
    Healed s.policy t.policy ∧
    (∀ m ∈ past, ∀ pid caller c, m.event ≠ .admitted pid caller c ∧ m.event ≠ .changed pid caller c) ∧
    (∀ m ∈ past, ∀ caller, m.event ≠ .claimed caller (.ok true)) ∧
    ∀ caller, roles.hasLink s.policy.links caller PolicyEngine.superadminRole = false →
      ∀ obj act, t.policy.enforceWith roles caller obj act =
        s.policy.enforceWith roles caller obj act := by
  -- the answers to the others follow from the policy being healed
  suffices all : Healed s.policy t.policy ∧
      (∀ m ∈ past, ∀ pid caller c, m.event ≠ .admitted pid caller c ∧
        m.event ≠ .changed pid caller c) ∧
      ∀ m ∈ past, ∀ caller, m.event ≠ .claimed caller (.ok true) from
    ⟨all.1, all.2.1, all.2.2, fun caller apart obj act => all.1.enforceWith apart obj act⟩
  induction run with
  | start => exact ⟨.refl _, by simp, by simp⟩
  | step run step ih =>
    obtain ⟨healed, unadmitted, ungranted⟩ := ih fun m mem => outsiders m (List.mem_append_left _ mem)
    have attributed := attributed_run idle run
    cases step with
    | pass pid caller c waiting allowed =>
      -- the caller had no such right at the start, and has none now
      obtain ⟨m, mem, event⟩ := attributed.arrived pid _ waiting
      have outsider := outsiders m (List.mem_append_left _ mem) pid caller _ event
      rw [RouteCall.Allowed, healed.enforceWith outsider.apart, outsider.denied] at allowed
      cases allowed
    | change pid caller c k waiting =>
      obtain ⟨m, mem, event⟩ := attributed.admitted pid caller c waiting
      exact absurd event (unadmitted m mem pid caller c).1
    | claim pid caller k waiting =>
      obtain ⟨healed', refused⟩ := healed.claim led caller k
      -- somebody holds the role, so the claim is refused
      refine ⟨healed', ?_, ?_⟩
      · simpa [or_imp, forall_and] using unadmitted
      · intro m mem caller'
        rcases List.mem_append.mp mem with old | new
        · exact ungranted m old caller'
        · rw [List.mem_singleton.mp new]
          intro granted
          exact refused (PolicyEvent.claimed.inj granted).2
    | elsewhere w same =>
      refine ⟨?_, ?_, ?_⟩
      · simp only [policy, same] at healed ⊢
        exact healed
      · simpa [or_imp, forall_and] using unadmitted
      · simpa [or_imp, forall_and] using ungranted
    | arrive | refuse | gone =>
      refine ⟨healed, ?_, ?_⟩
      · simpa [or_imp, forall_and] using unadmitted
      · simpa [or_imp, forall_and] using ungranted

/-- The role manager of casbin, which follows memberships no further than this many links. -/
def RoleManager.upTo : Nat → List Membership → String → String → Bool
  | 0, _, name, role => decide (name = role)
  | depth + 1, L, name, role =>
    decide (name = role) || L.any fun l => decide (l.user = name) && upTo depth L l.group role

def RoleManager.bounded (depth : Nat) : RoleManager where
  hasLink := RoleManager.upTo depth
  same := fun L L' name role links => by
    induction depth generalizing name with
    | zero => rfl
    | succ depth ih =>
      simp only [RoleManager.upTo, ih]
      congr 1
      rw [Bool.eq_iff_iff]
      simp only [List.any_eq_true, links]

/-- One superadmin, and a caller who is none. -/
def guarded : PolicyServer :=
  ⟨{ World.init toString with enforcer := ⟨∅, ⟨[], [⟨"root", "superadmin"⟩]⟩⟩ }, fun _ => none⟩

theorem outsiders_change_nothing_claim :
    let after := (claimStep "mallory" (some 1) guarded.world).2.enforcer.policy
    let answer := (claimStep "mallory" (some 1) guarded.world).1
    let past : List Moment := [⟨guarded.policy, .arrived 0 "mallory" .claimAdmin, guarded.policy⟩,
      ⟨guarded.policy, .claimed "mallory" answer, after⟩]
    Healed guarded.policy after ∧
    (∀ m ∈ past, ∀ pid caller c, m.event ≠ .admitted pid caller c ∧ m.event ≠ .changed pid caller c) ∧
    (∀ m ∈ past, ∀ caller, m.event ≠ .claimed caller (.ok true)) ∧
    ∀ caller, (RoleManager.bounded 10).hasLink guarded.policy.links caller
        PolicyEngine.superadminRole = false →
      ∀ obj act, after.enforceWith (.bounded 10) caller obj act =
        guarded.policy.enforceWith (.bounded 10) caller obj act :=
  outsiders_change_nothing (s := guarded) (fun _ => rfl) (by decide +kernel)
    ((Run.start.step (.arrive 0 "mallory" .claimAdmin rfl trivial)).step
      (.claim 0 "mallory" (some 1) (by simp)))
    (by
      intro m mem pid caller handler event
      simp only [List.nil_append, List.cons_append, List.mem_cons, List.not_mem_nil, or_false] at mem
      rcases mem with rfl | rfl
      · obtain ⟨-, rfl, -⟩ := PolicyEvent.arrived.inj event
        refine ⟨fun resource => ?_, by decide +kernel⟩
        cases resource <;> decide +kernel
      · cases event)

/-! ### The first superadmin -/

/-- The fields that end up in keys of the store do not contain the joining character, and the role
    is not made a member of itself. -/
def PolicyHandler.Plain (caller : String) : PolicyHandler → Prop
  | .change c => (∀ x, c.change.unfiles = some x → x.Plain) ∧
      ¬ c.change.op.Adds (.link ⟨PolicyEngine.superadminRole, PolicyEngine.superadminRole⟩)
  | .claimAdmin => Text.Free '\x1f' caller ∧ caller ≠ PolicyEngine.superadminRole

/-- The store holds what the adapter wrote, and it is what is in force; the role is no member of
    itself. -/
structure Kept (e : Enforcer) : Prop where
  encoded : Adapter.Encoded e.store
  synced : Synced e
  apart : ¬ e.policy.Holds (.link ⟨PolicyEngine.superadminRole, PolicyEngine.superadminRole⟩)

theorem Kept.next {e : Enforcer} (kept : Kept e) {c : Change} (fits : c.Fits)
    (plain : ∀ x, c.unfiles = some x → x.Plain)
    (apart : ¬ c.op.Adds (.link ⟨PolicyEngine.superadminRole, PolicyEngine.superadminRole⟩)) :
    Kept (c.next e) where
  encoded := kept.encoded.next c
  synced := (Synced.next_iff fits kept.encoded.filed kept.synced).mpr
    fun x unfiles _ _ same => (plain x unfiles).eq_of_key same
  apart := by
    rw [Change.holds_next]
    split
    · rintro (adds | ⟨held, -⟩)
      · exact apart adds
      · exact kept.apart held
    · exact kept.apart

/-- The members that casbin answers are the superadmins. -/
theorem Kept.members_iff {e : Enforcer} (kept : Kept e) :
    e.policy.getUsersInGroup PolicyEngine.superadminRole ≠ [] ↔ e.policy.led = true := by
  refine ⟨fun some_ => ?_, Policy.members_of_led⟩
  obtain ⟨user, mem⟩ := List.exists_mem_of_ne_nil _ some_
  simp only [Policy.getUsersInGroup, List.mem_map, List.mem_filter, decide_eq_true_eq] at mem
  obtain ⟨⟨user, group⟩, ⟨member, rfl⟩, rfl⟩ := mem
  refine Policy.led_iff.mpr ⟨user, ?_, member⟩
  rintro rfl
  exact kept.apart member

/-- A row under the key of a plain link is the row of the link, so the link is in force after the
    grant whether or not the grant wrote it. -/
theorem Kept.linked {e : Enforcer} (kept : Kept e) {user group : String}
    (plain : (Fact.link ⟨user, group⟩).Plain) :
    ((Change.addGroupingPolicy [user, group]).next e).policy.Holds (.link ⟨user, group⟩) := by
  rw [Change.holds_next]
  by_cases changed : (Change.addGroupingPolicy [user, group]).changed e = true
  · simp [changed, Change.op, WalOp.Adds]
  · rw [if_neg changed]
    by_contra free
    apply changed
    rw [Change.changed_iff (c := .addGroupingPolicy [user, group]) rfl]
    constructor
    · simp only [Change.write, Change.write.insertNew]
      split
      next there =>
        obtain ⟨row, here⟩ := Kv.mem_iff_get.mp there
        obtain ⟨y, same, rfl⟩ := kept.encoded.fact here
        obtain rfl := plain.eq_of_key same.symm
        have stored := kept.encoded.filed.holds_iff (x := .link ⟨user, group⟩)
        exact absurd ((kept.synced _).mp (stored.mpr here)) free
      · rfl
    · intro same
      apply free
      rw [← same, Policy.holds_apply]
      exact .inl rfl

/-- A claim that was granted. -/
def PolicyEvent.granted : PolicyEvent → Bool
  | .claimed _ (.ok true) => true
  | _ => false

theorem PolicyEvent.granted_claimed {caller : String} {answer : Except Error Bool} :
    (PolicyEvent.claimed caller answer).granted = true ↔ answer = .ok true := by
  rcases answer with e | _ | _
  · simp [granted]
  · simp [granted]
  · simp [granted]

/-- The change of a request that took the last superadmin out of the role. -/
def PolicyServer.Moment.emptied (m : Moment) : Bool :=
  match m.event with
  | .changed .. => m.before.led && !m.after.led
  | _ => false

/-- A change that removes no membership takes nobody out of the role. -/
theorem Policy.led_next {c : Change} (keeps : ∀ link, ¬ c.op.Removes (.link link)) {e : Enforcer}
    (led : e.policy.led = true) : (c.next e).policy.led = true := by
  obtain ⟨user, other, holds⟩ := led_iff.mp led
  refine led_iff.mpr ⟨user, other, ?_⟩
  rw [Change.holds_next]
  split
  · exact .inr ⟨holds, keeps _⟩
  · exact holds

/-- A claim keeps the store, and is granted only from a role without members to one with. -/
theorem Kept.claim {w : World} (kept : Kept w.enforcer) {caller : String}
    (plain : PolicyHandler.claimAdmin.Plain caller) (k : Option Nat) :
    Kept (claimStep caller k w).2.enforcer ∧
    (w.enforcer.policy.led = true →
      (claimStep caller k w).1 ≠ .ok true ∧ (claimStep caller k w).2.enforcer.policy.led = true) ∧
    ((claimStep caller k w).1 = .ok true → (claimStep caller k w).2.enforcer.policy.led = true) := by
  have seed : ∀ e, Kept e ∧ e.policy.led = true → ∀ right ∈ PolicyEngine.superadminRights,
      Kept ((Change.addPolicy [PolicyEngine.superadminRole, right.1, right.2.text]).next e) ∧
      ((Change.addPolicy [PolicyEngine.superadminRole, right.1, right.2.text]).next e).policy.led = true :=
    fun e inside right _ => ⟨inside.1.next rfl (by simp [Change.unfiles])
      (by simp [Change.op, WalOp.Adds]), Policy.led_next (by simp [Change.op, WalOp.Removes]) inside.2⟩
  -- who holds the role is not given it again; from an empty role it is granted, or nothing is done
  rcases claimStep_cases (I := fun e => Kept e ∧ e.policy.led = true) caller k w seed with
    ⟨held, refused, keeps⟩ | ⟨empty, ⟨refused, same⟩ | keeps⟩
  · have led := kept.members_iff.mp held
    obtain ⟨kept', led'⟩ := keeps ⟨kept, led⟩
    exact ⟨kept', fun _ => ⟨refused, led'⟩, fun _ => led'⟩
  · refine ⟨same ▸ kept, fun led => absurd empty (kept.members_iff.mpr led), fun granted => ?_⟩
    exact absurd granted refused
  · have both : (Fact.link ⟨caller, PolicyEngine.superadminRole⟩).Plain := by
      have role : Text.Free '\x1f' PolicyEngine.superadminRole := by
        unfold Text.Free PolicyEngine.superadminRole
        decide
      simp [Fact.Plain, Fact.row, plain.1, role]
    have apart : ¬ (Change.addGroupingPolicy [caller, PolicyEngine.superadminRole]).op.Adds
        (.link ⟨PolicyEngine.superadminRole, PolicyEngine.superadminRole⟩) := by
      simpa [Change.op, WalOp.Adds] using plain.2.symm
    obtain ⟨kept', led'⟩ := keeps ⟨kept.next rfl (by simp [Change.unfiles]) apart,
      Policy.led_iff.mpr ⟨_, plain.2, kept.linked both⟩⟩
    exact ⟨kept', fun led => absurd empty (kept.members_iff.mpr led), fun _ => led'⟩

section Bootstrap

variable {roles : RoleManager}

/-- What one step does to the tally of grants. -/
theorem PolicyServer.Step.tally {s t : PolicyServer} {e : PolicyEvent} (step : Step roles s e t)
    (kept : Kept s.world.enforcer)
    (plain : ∀ pid p, s.pending pid = some p → p.handler.Plain p.caller) :
    Kept t.world.enforcer ∧
    e.granted.toNat + s.policy.led.toNat ≤
      (Moment.emptied ⟨s.policy, e, t.policy⟩).toNat + t.policy.led.toNat := by
  cases step with
  | arrive | pass | refuse | gone =>
    exact ⟨kept, by simp [PolicyEvent.granted, Moment.emptied, policy]⟩
  | elsewhere w same =>
    exact ⟨same ▸ kept, by simp [PolicyEvent.granted, Moment.emptied, policy, same]⟩
  | claim pid caller k waiting =>
    have own : PolicyHandler.claimAdmin.Plain caller := plain pid _ waiting
    obtain ⟨kept', refused, led'⟩ := kept.claim own k
    refine ⟨kept', ?_⟩
    have granted := @PolicyEvent.granted_claimed caller (claimStep caller k s.world).1
    have before : s.policy.led = s.world.enforcer.policy.led := rfl
    have after : policy ⟨(claimStep caller k s.world).2, Function.update s.pending pid none⟩ =
      (claimStep caller k s.world).2.enforcer.policy := rfl
    rw [before, after]
    by_cases led : s.world.enforcer.policy.led = true
    · obtain ⟨ungranted, stays⟩ := refused led
      have none : (PolicyEvent.claimed caller (claimStep caller k s.world).1).granted = false := by
        rw [← Bool.not_eq_true, granted]
        exact ungranted
      simp [none, led, stays, Moment.emptied]
    · by_cases now : (claimStep caller k s.world).1 = .ok true
      · simp [led, led' now, granted.mpr now]
      · simp [led, mt granted.mp now]
  | change pid caller c k waiting =>
    obtain ⟨own, apart⟩ : PolicyHandler.Plain caller (.change c) := plain pid _ waiting
    refine ⟨?_, ?_⟩
    · change Kept (RouteCall.step s.world (c, k)).enforcer
      -- a change whose first call fails is no change
      rw [RouteCall.step_enforcer]
      split
      · exact kept
      · exact kept.next c.fits own apart
    · -- if the role is left without members, the step counts as one that emptied it
      simp only [PolicyEvent.granted, Moment.emptied]
      generalize s.policy.led = before
      generalize Policy.led _ = after
      cases before <;> cases after <;> decide

/-- **One claim**. In every run of requests whose texts do not contain the joining character and
    that do not make the role a member of itself, the superadmin role was claimed at most once
    more often than it was emptied by requests, and not at all more often where it was held at the
    start. -/
theorem bootstrap_once {s t : PolicyServer} {past : List Moment}
    (idle : ∀ pid, s.pending pid = none) (kept : Kept s.world.enforcer) (run : Run roles s past t)
    (plain : ∀ m ∈ past, ∀ pid caller handler, m.event = .arrived pid caller handler →
      handler.Plain caller) :
    past.countP (·.event.granted) + s.policy.led.toNat ≤
      past.countP Moment.emptied + t.policy.led.toNat := by
  suffices all : Kept t.world.enforcer ∧
      past.countP (·.event.granted) + s.policy.led.toNat ≤
        past.countP Moment.emptied + t.policy.led.toNat from all.2
  induction run with
  | start => exact ⟨kept, by simp⟩
  | step run step ih =>
    obtain ⟨kept, counted⟩ := ih fun m mem => plain m (List.mem_append_left _ mem)
    obtain ⟨kept', one⟩ := step.tally kept fun pid p here => by
      obtain ⟨m, mem, event⟩ := (attributed_run idle run).arrived pid p here
      exact plain m (List.mem_append_left _ mem) pid p.caller p.handler event
    refine ⟨kept', ?_⟩
    simp only [List.countP_append, List.countP_singleton]
    simp only [Bool.toNat] at *
    grind

end Bootstrap

/-- Two callers claim the role of a fresh deployment. -/
def claimedTwice : List Moment :=
  let w := World.init toString
  let w' := (claimStep "alice" none w).2
  let w'' := (claimStep "bob" none w').2
  [⟨w.enforcer.policy, .arrived 0 "alice" .claimAdmin, w.enforcer.policy⟩,
    ⟨w.enforcer.policy, .arrived 1 "bob" .claimAdmin, w.enforcer.policy⟩,
    ⟨w.enforcer.policy, .claimed "alice" (claimStep "alice" none w).1, w'.enforcer.policy⟩,
    ⟨w'.enforcer.policy, .claimed "bob" (claimStep "bob" none w').1, w''.enforcer.policy⟩]

theorem bootstrap_once_claimedTwice :
    claimedTwice.countP (·.event.granted) + (World.init toString).enforcer.policy.led.toNat ≤
      claimedTwice.countP Moment.emptied +
        (claimStep "bob" none (claimStep "alice" none (World.init toString)).2).2.enforcer.policy.led.toNat ∧
    claimedTwice.countP (·.event.granted) = 1 :=
  ⟨@bootstrap_once (.bounded 10) ⟨World.init toString, fun _ => none⟩ _ _ (fun _ => rfl)
    ⟨Adapter.encoded_empty, fun x => by cases x <;> exact Iff.rfl, by simp [Policy.Holds, World.init]⟩
    ((((Run.start.step (.arrive 0 "alice" .claimAdmin rfl trivial)).step
      (.arrive 1 "bob" .claimAdmin (by simp) trivial)).step
        (.claim 0 "alice" none (by simp))).step (.claim 1 "bob" none (by simp)))
    (by
      intro m mem pid caller handler event
      simp only [List.nil_append, List.cons_append, List.mem_cons, List.not_mem_nil, or_false] at mem
      rcases mem with rfl | rfl | rfl | rfl
      · obtain ⟨-, rfl, rfl⟩ := PolicyEvent.arrived.inj event
        unfold PolicyHandler.Plain Text.Free
        decide +kernel
      · obtain ⟨-, rfl, rfl⟩ := PolicyEvent.arrived.inj event
        unfold PolicyHandler.Plain Text.Free
        decide +kernel
      · cases event
      · cases event), by decide +kernel⟩

end RustApi
