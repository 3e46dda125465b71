import RustApi.Lib.Reach
import RustApi.Lib.Text
import RustApi.Records
import Mathlib

/-!
# The enforced policy

The rules and membership links that casbin holds in memory, the read-only
questions of `Authorizer` and `RowAuthorizer`, and the part of the replica code
that walks the group hierarchy (`implicit_groups`, `read_rows_for_group`).

## Main results

- `enforce_iff`: a request is granted by a rule whose subject is reached from the
  requester by any number of membership links.
- `mem_implicitGroups`, `mem_readRowsForGroup`: the replica's own walk finds
  exactly the groups and rows of that hierarchy.
- `groups_transitive`: the same for whatever order casbin answers in, with the end of the
  loop and each group and row found once.
- `reaches_of_links_into`: links into one group only open what that group reaches.
-/

namespace RustApi

open Lib

/-- `Action`. -/
inductive Action where
  | read
  | write
  | delete
  | execute
  deriving DecidableEq, Repr

/-- `Action::to_string`. -/
def Action.text : Action → String
  | .read => "read"
  | .write => "write"
  | .delete => "delete"
  | .execute => "execute"

/-- A permission rule, `p = sub, obj, act`. -/
structure Rule where
  sub : String
  obj : String
  act : String
  deriving DecidableEq, Repr

/-- A membership link, `g = user, group`. -/
structure Membership where
  user : String
  group : String
  deriving DecidableEq, Repr

/-- The model casbin enforces. Rules and links are sets, kept in insertion order. -/
structure Policy where
  rules : List Rule
  links : List Membership
  deriving DecidableEq, Repr

/-- `row_object`. -/
def rowObject (rowType rowId : String) : String := rowType ++ ":" ++ rowId

namespace Policy

variable (P : Policy)

/-! ### Authorizer -/

/-- `get_groups_of_user`: the direct groups. -/
def getGroupsOfUser (name : String) : List String :=
  (P.links.filter fun l => l.user = name).map (·.group)

/-- `get_users_in_group`: the direct members. -/
def getUsersInGroup (group : String) : List String :=
  (P.links.filter fun l => l.group = group).map (·.user)

/-- `rules_for_subject`: the direct rules. -/
def rulesForSubject (sub : String) : List (String × String) :=
  (P.rules.filter fun r => r.sub = sub).map fun r => (r.obj, r.act)

/-- `implicit_groups`: the walk over the hierarchy with a visited set. -/
def implicitGroups (sub : String) : List String :=
  Reach.walk P.getGroupsOfUser (P.links.length + 1) [sub] []

/-- The matcher's `g(r.sub, p.sub)`, which casbin resolves over the whole hierarchy. -/
def hasLink (name role : String) : Bool :=
  decide (name = role) || decide (role ∈ P.implicitGroups name)

/-- `enforce`, with the matcher of `RBAC_MODEL`. -/
def enforce (sub obj act : String) : Bool :=
  P.rules.any fun r => P.hasLink sub r.sub && decide (obj = r.obj) && decide (act = r.act)

def authorize (sub obj : String) (act : Action) : Bool := P.enforce sub obj act.text

def authorizeRow (sub rowType rowId : String) (act : Action) : Bool :=
  P.authorize sub (rowObject rowType rowId) act

/-! ### The rows a group reads -/

/-- `str::eq_ignore_ascii_case("read")`. -/
def isRead (act : String) : Bool := decide (act.toList.map Char.toLower = "read".toList)

/-- `split_row_obj`. -/
def splitRowObj (obj : String) : Option (String × String) :=
  match Text.splitOnce ':' obj with
  | none => none
  | some (ty, rid) => if ty = "" ∨ rid = "" then none else some (ty, rid)

/-- `read_rows_for_group`. The source collects into an ordered set of pairs. -/
def readRowsForGroup (group : String) : List (String × String) :=
  ((group :: P.implicitGroups group).flatMap fun subject =>
    (P.rulesForSubject subject).filterMap fun r =>
      if isRead r.2 then splitRowObj r.1 else none).dedup.insertionSort
        fun a b => a.1 < b.1 ∨ a.1 = b.1 ∧ a.2 ≤ b.2

/-! ### Mutations -/

/-- What casbin's in-memory model becomes when the operation is applied to it. -/
def apply (op : WalOp) : Policy :=
  match op with
  | .policyRuleAdd sub obj act =>
    -- casbin answers false for a rule that is there and keeps the model
    if ⟨sub, obj, act⟩ ∈ P.rules then P else ⟨P.rules ++ [⟨sub, obj, act⟩], P.links⟩
  | .policyRuleRemove sub obj act => ⟨P.rules.filter (· ≠ ⟨sub, obj, act⟩), P.links⟩
  | .groupAdd user group =>
    if ⟨user, group⟩ ∈ P.links then P else ⟨P.rules, P.links ++ [⟨user, group⟩]⟩
  | .groupRemove user group => ⟨P.rules, P.links.filter (· ≠ ⟨user, group⟩)⟩
  -- `remove_filtered_grouping_policy(1, ..)`: every link into the group
  | .groupDelete group => ⟨P.rules, P.links.filter (·.group ≠ group)⟩
  -- the other entries of the feed do not touch the policy
  | _ => P

/-! ### Hierarchy -/

/-- `role` is reached from `name` by zero or more links. -/
def Reaches (name role : String) : Prop :=
  Relation.ReflTransGen (fun x y => ⟨x, y⟩ ∈ P.links) name role

theorem mem_getGroupsOfUser {P : Policy} {name group : String} :
    group ∈ P.getGroupsOfUser name ↔ ⟨name, group⟩ ∈ P.links := by
  simp only [getGroupsOfUser, List.mem_map, List.mem_filter, decide_eq_true_eq]
  constructor
  · rintro ⟨⟨u, g⟩, ⟨mem, rfl⟩, rfl⟩
    exact mem
  · intro mem
    exact ⟨⟨name, group⟩, ⟨mem, rfl⟩, rfl⟩

theorem mem_rulesForSubject {P : Policy} {sub obj act : String} :
    (obj, act) ∈ P.rulesForSubject sub ↔ ⟨sub, obj, act⟩ ∈ P.rules := by
  simp only [rulesForSubject, List.mem_map, List.mem_filter, decide_eq_true_eq]
  constructor
  · rintro ⟨⟨s, o, a⟩, ⟨mem, rfl⟩, same⟩
    cases same
    exact mem
  · intro mem
    exact ⟨⟨sub, obj, act⟩, ⟨mem, rfl⟩, rfl⟩

/-- The loop of `implicit_groups` ends on every policy, whatever the order of casbin's answers. -/
theorem implicitGroups_loops {P : Policy} {groups : String → List String}
    (roles : ∀ name group, group ∈ groups name ↔ ⟨name, group⟩ ∈ P.links) (sub : String) :
    Reach.Loop groups [sub] [] (Reach.walk groups (P.links.length + 1) [sub] []) := by
  have inside : ∀ x, ∀ y ∈ groups x, y ∈ P.links.map (·.group) := by
    intro x y hy
    exact List.mem_map.mpr ⟨⟨x, y⟩, (roles x y).mp hy, rfl⟩
  have loops := Reach.walk_loops inside sub
  rwa [List.length_map] at loops

theorem edges_of_answers {P : Policy} {groups : String → List String}
    (roles : ∀ name group, group ∈ groups name ↔ ⟨name, group⟩ ∈ P.links) :
    Reach.Edge groups = fun x y => ⟨x, y⟩ ∈ P.links := by
  funext x y
  exact propext (roles x y)

/-- The walk finds exactly the groups at the end of one or more links, also when the
    hierarchy has cycles. -/
theorem mem_implicitGroups {P : Policy} {name group : String} :
    group ∈ P.implicitGroups name ↔
      Relation.TransGen (fun x y => ⟨x, y⟩ ∈ P.links) name group := by
  have roles : ∀ name group, group ∈ P.getGroupsOfUser name ↔ ⟨name, group⟩ ∈ P.links :=
    fun _ _ => mem_getGroupsOfUser
  rw [← edges_of_answers roles]
  exact (implicitGroups_loops roles name).mem_iff group

theorem hasLink_iff {P : Policy} {name role : String} :
    P.hasLink name role = true ↔ P.Reaches name role := by
  simp only [hasLink, Bool.or_eq_true, decide_eq_true_eq, mem_implicitGroups, Reaches,
    Relation.reflTransGen_iff_eq_or_transGen, @eq_comm _ name role]

/-- A request is granted by some rule of a subject that the requester reaches. -/
theorem enforce_iff {P : Policy} {sub obj act : String} :
    P.enforce sub obj act = true ↔ ∃ subject, ⟨subject, obj, act⟩ ∈ P.rules ∧
      P.Reaches sub subject := by
  simp only [enforce, List.any_eq_true, Bool.and_eq_true, decide_eq_true_eq, hasLink_iff]
  constructor
  · rintro ⟨⟨s, o, a⟩, mem, ⟨reach, rfl⟩, rfl⟩
    exact ⟨s, mem, reach⟩
  · rintro ⟨s, mem, reach⟩
    exact ⟨⟨s, obj, act⟩, mem, ⟨reach, rfl⟩, rfl⟩

/-- Links into one group open nothing but what that group itself reaches. -/
theorem reaches_of_links_into {P Q : Policy} {group : String}
    (extra : ∀ l ∈ P.links, l ∈ Q.links ∨ l.group = group) {name role : String}
    (path : P.Reaches name role) : Q.Reaches name role ∨ Q.Reaches group role := by
  -- a path is cut at its last link into the group
  induction path with
  | refl => exact .inl .refl
  | tail _ link ih =>
    rcases extra _ link with kept | rfl
    · exact ih.imp (·.tail kept) (·.tail kept)
    · exact .inr .refl

theorem Reaches.mono {P Q : Policy} (sub : ∀ l ∈ P.links, l ∈ Q.links) {name role : String}
    (path : P.Reaches name role) : Q.Reaches name role :=
  Relation.ReflTransGen.mono (fun _ _ link => sub _ link) _ _ path

/-! ### Rows -/

theorem splitRowObj_iff {obj ty rid : String} :
    splitRowObj obj = some (ty, rid) ↔
      obj = rowObject ty rid ∧ Text.Free ':' ty ∧ ty ≠ "" ∧ rid ≠ "" := by
  unfold splitRowObj rowObject
  constructor
  · -- two `if`s of the source: no colon, and an empty part
    intro h
    split at h
    · cases h
    next a b split =>
      obtain ⟨rfl, free⟩ := Text.splitOnce_iff.mp split
      split at h
      · cases h
      next nonempty =>
        obtain ⟨rfl, rfl⟩ : a = ty ∧ b = rid := by simpa using h
        exact ⟨rfl, free, by tauto⟩
  · rintro ⟨rfl, free, ty_ne, rid_ne⟩
    have split : Text.splitOnce ':' (ty ++ ":" ++ rid) = some (ty, rid) :=
      Text.splitOnce_iff.mpr ⟨rfl, free⟩
    simp [split, ty_ne, rid_ne]

/-! ### Whatever casbin answers in which order -/

section Answers

variable {groups : String → List String} {rules : String → List (String × String)}

/-- What `read_rows_for_group` collects, from the rules that casbin answers and the groups that
    `implicit_groups` found. -/
def collectReadRows (rules : String → List (String × String)) (group : String)
    (found : List String) : List (String × String) :=
  ((group :: found).flatMap fun subject =>
    (rules subject).filterMap fun r =>
      if isRead r.2 then splitRowObj r.1 else none).dedup.insertionSort
        fun a b => a.1 < b.1 ∨ a.1 = b.1 ∧ a.2 ≤ b.2

/-- A row is collected exactly when a read rule of the group or of a found group names it. -/
theorem mem_collectReadRows {P : Policy}
    (filtered : ∀ sub obj act, (obj, act) ∈ rules sub ↔ ⟨sub, obj, act⟩ ∈ P.rules)
    {group : String} {found : List String} {ty rid : String} :
    (ty, rid) ∈ collectReadRows rules group found ↔ ∃ r ∈ P.rules,
      (r.sub = group ∨ r.sub ∈ found) ∧ isRead r.act = true ∧
        splitRowObj r.obj = some (ty, rid) := by
  simp only [collectReadRows, List.mem_insertionSort, List.mem_dedup, List.mem_flatMap,
    List.mem_filterMap]
  constructor
  · rintro ⟨subject, among, ⟨obj, act⟩, rule, named⟩
    split at named
    next read =>
      exact ⟨⟨subject, obj, act⟩, (filtered _ _ _).mp rule, List.mem_cons.mp among, read, named⟩
    next => cases named
  · rintro ⟨⟨subject, obj, act⟩, rule, among, read, named⟩
    exact ⟨subject, List.mem_cons.mpr among, (obj, act), (filtered _ _ _).mpr rule,
      (if_pos read).trans named⟩

/-- `read_rows_for_group` returns exactly the rows named by a read rule of the group or
    of a group that it reaches. -/
theorem mem_readRowsForGroup {P : Policy} {group ty rid : String} :
    (ty, rid) ∈ P.readRowsForGroup group ↔ ∃ r ∈ P.rules, P.Reaches group r.sub ∧
      isRead r.act = true ∧ splitRowObj r.obj = some (ty, rid) := by
  have rows : P.readRowsForGroup group =
      collectReadRows P.rulesForSubject group (P.implicitGroups group) := rfl
  simp only [rows, mem_collectReadRows fun _ _ _ => mem_rulesForSubject, mem_implicitGroups,
    Reaches, Relation.reflTransGen_iff_eq_or_transGen]

/-- What the walk over the hierarchy and the collection of rows come to, for a group. -/
structure Transitive (P : Policy) (groups : String → List String)
    (rules : String → List (String × String)) (group : String) (found : List String) : Prop where
  ends : Reach.Loop groups [group] [] found
  once : found.Nodup
  reached : ∀ g, g ∈ found ↔ Relation.TransGen (fun x y => ⟨x, y⟩ ∈ P.links) group g
  rowsOnce : (collectReadRows rules group found).Nodup
  rows : ∀ ty rid, (ty, rid) ∈ collectReadRows rules group found ↔ ∃ r ∈ P.rules,
    (r.sub = group ∨ Relation.TransGen (fun x y => ⟨x, y⟩ ∈ P.links) group r.sub) ∧
      isRead r.act = true ∧ r.obj = rowObject ty rid ∧ Text.Free ':' ty ∧ ty ≠ "" ∧ rid ≠ ""

/-- **Transitive groups**: on every policy, and in whatever order casbin answers, the walk over
    the hierarchy ends with each group at the end of one or more links, and the rows collected
    from it are those that a read rule of the group or of one of these names, each once. -/
theorem groups_transitive {P : Policy}
    (roles : ∀ name group, group ∈ groups name ↔ ⟨name, group⟩ ∈ P.links)
    (filtered : ∀ sub obj act, (obj, act) ∈ rules sub ↔ ⟨sub, obj, act⟩ ∈ P.rules)
    (group : String) : ∃ found, P.Transitive groups rules group found := by
  have loops := implicitGroups_loops roles group
  have reached : ∀ g, _ ↔ Relation.TransGen (fun x y => ⟨x, y⟩ ∈ P.links) group g :=
    fun g => edges_of_answers roles ▸ loops.mem_iff g
  -- no order of the answers is used: only which names and rules they hold
  refine ⟨_, loops, loops.nodup List.nodup_nil, reached, ?_, fun ty rid => ?_⟩
  · exact (List.perm_insertionSort _ _).nodup_iff.mpr (List.nodup_dedup _)
  · simp only [mem_collectReadRows filtered, reached, splitRowObj_iff]

/-- Two groups that are members of each other and one above them. -/
def nestedGroups : Policy :=
  ⟨[⟨"top", "doc:1", "Read"⟩, ⟨"b", "doc:1", "read"⟩, ⟨"b", "rules", "read"⟩],
    [⟨"a", "b"⟩, ⟨"b", "a"⟩, ⟨"b", "top"⟩]⟩

theorem groups_transitive_nested : ∃ found,
    nestedGroups.Transitive nestedGroups.getGroupsOfUser nestedGroups.rulesForSubject "a" found :=
  groups_transitive (fun _ _ => mem_getGroupsOfUser) (fun _ _ _ => mem_rulesForSubject) "a"

example : nestedGroups.readRowsForGroup "a" = [("doc", "1")] := by
  decide +kernel

end Answers

end Policy

end RustApi
