import RustApi.Lib.Prog
import RustApi.Policy.Enforcer

/-!
# Saving a whole policy

`OxkvAdapter::save_policy` with the calls it makes on the store, any of which may fail.
The rows of the old policy are deleted in a transaction of their own, before the validator
looks at the new rules.

## Main result

`save_policy_iff`: the call is all-or-nothing exactly when nothing fails behind the
clearing transaction, or there was nothing to lose.
-/

namespace RustApi

open Lib

namespace Adapter

/-! ### Transactions -/

/-- Calls on the store and on the transaction that is open; `stage` is the `delete` or
    `set_bytes` of the transaction. -/
inductive TxCall where
  | getsBytes
  | beginTx
  | stage (w : Kv.Write (List String))
  | commit
  deriving DecidableEq

@[reducible] def TxCall.Ans : TxCall → Type
  | .getsBytes => List (String × List String)
  | _ => Unit

/-- The rows of the store and what the open transaction has staged. -/
structure TxStore where
  rows : Kv (List String)
  staged : List (Kv.Write (List String))

def TxCall.exec : (c : TxCall) → TxStore → Except Error c.Ans × TxStore
  | .getsBytes, s => (.ok s.rows.toList, s)
  | .beginTx, s => (.ok (), { s with staged := [] })
  | .stage w, s => (.ok (), { s with staged := s.staged ++ [w] })
  | .commit, s => (.ok (), ⟨Kv.commit s.staged s.rows, []⟩)

abbrev TxM (α : Type) : Type := Prog TxCall.Ans Error α

def onTx (c : TxCall) : TxM c.Ans := Prog.perform c

/-- The error of a failed store call. -/
def adapterFault : Error := .policy (.casbin "storage unavailable")

/-- Run a program in which the store call behind the first `k` fails. A commit that fails
    commits nothing. -/
def TxM.failing {α : Type} (p : TxM α) (k : Option Nat) (s : TxStore) :
    Except Error α × TxStore × Option Nat :=
  p.runFailing TxCall.exec (fun _ => true) adapterFault k s

/-! ### Rules -/

/-- A rule of a casbin model with its section and its policy type. -/
structure Entry where
  sec : String
  ptype : String
  rule : List String
  deriving DecidableEq, Repr

def Entry.key (e : Entry) : String := ruleKey e.sec e.ptype e.rule

/-- The row of an entry. -/
def Entry.encode (e : Entry) : Except Error (String × List String) := do
  let key ← encodeRule e.sec e.ptype e.rule
  pure (key, e.rule)

def encodeEach : List Entry → Except Error (List (String × List String))
  | [] => .ok []
  | e :: rest => do
    let row ← e.encode
    let rows ← encodeEach rest
    pure (row :: rows)

/-! ### Saving -/

/-- `get_model`: the sections, the assertions of each by policy type, the rules of each. -/
abbrev CasbinModel : Type := List (String × List (String × List (List String)))

def entries (m : CasbinModel) : List Entry :=
  m.flatMap fun sec => sec.2.flatMap fun assertion =>
    assertion.2.map fun rule => ⟨sec.1, assertion.1, rule⟩

def stageEach : List (Kv.Write (List String)) → TxM Unit
  | [] => pure ()
  | w :: rest => do
    onTx (.stage w)
    stageEach rest

/-- The writes in one transaction. -/
def writeTx (ws : List (Kv.Write (List String))) : TxM Unit := do
  onTx .beginTx
  stageEach ws
  onTx .commit

def clearAll : TxM Unit := do
  let rows ← onTx .getsBytes
  writeTx (rows.map fun row => .delete row.1)

def savePolicy (m : CasbinModel) : TxM Unit := do
  clearAll
  -- The old rows are gone by now, also when a rule is rejected here.
  let encoded ← Prog.lift (encodeEach (entries m))
  writeTx (encoded.map fun row => .put row.1 row.2)

/-! ### Runs with one failing call -/

section Failing

variable {α β : Type} {c : TxCall} {s s' : TxStore} {a : c.Ans}

theorem failing_perform (f : c.Ans → TxM β) (answer : c.exec s = (.ok a, s')) {k : Option Nat}
    (answered : k ≠ some 0) :
    TxM.failing (onTx c >>= f) k s = (f a).failing (k.map (· - 1)) s' := by
  rcases k with _ | _ | k
  · change Prog.runFailing _ _ _ ((Prog.ret _ : TxM c.Ans).bind f) _ _ = _
    rw [answer]
    rfl
  · exact absurd rfl answered
  · change Prog.runFailing _ _ _ ((Prog.ret _ : TxM c.Ans).bind f) _ _ = _
    rw [answer]
    rfl

theorem failing_bind (p : TxM α) (f : α → TxM β) (k : Option Nat) (s : TxStore) :
    TxM.failing (p >>= f) k s =
      match p.failing k s with
      | (.ok a, s', k') => (f a).failing k' s'
      | (.error e, s', k') => (.error e, s', k') := by
  simp only [TxM.failing, Prog.runFailing_bind]
  rcases p.runFailing TxCall.exec (fun _ => true) adapterFault k s with ⟨a | e, s', k'⟩
  · rfl
  · rfl

/-- A program of `n` calls: it turns `s` into `s'`, or a call fails and the rows stay. -/
structure Makes (p : TxM Unit) (n : Nat) (s s' : TxStore) : Prop where
  stops : ∀ {j}, j < n → ∃ u, p.failing (some j) s = (.error adapterFault, u, none) ∧
    u.rows = s.rows
  ends : ∀ {k : Option Nat}, (∀ j, k = some j → n ≤ j) →
    p.failing k s = (.ok (), s', k.map (· - n))

theorem Makes.perform {c : TxCall} {f : c.Ans → TxM Unit} {a : c.Ans} {n : Nat} {s s' t : TxStore}
    (answer : c.exec s = (.ok a, s')) (same : s'.rows = s.rows) (rest : Makes (f a) n s' t) :
    Makes (onTx c >>= f) (n + 1) s t where
  stops {j} short := by
    cases j with
    | zero => exact ⟨s, rfl, rfl⟩
    | succ j =>
      obtain ⟨u, stopped, rows⟩ := rest.stops (Nat.lt_of_succ_lt_succ short)
      exact ⟨u, by rw [failing_perform f answer (by simp)]; exact stopped, rows.trans same⟩
  ends {k} long := by
    have answered : k ≠ some 0 := fun eq => absurd (long 0 eq) (by simp)
    rw [failing_perform f answer answered, rest.ends, Option.map_map]
    · refine congrArg _ (congrArg _ (congrArg (Option.map · k) (funext fun j => ?_)))
      change j - 1 - n = j - (n + 1)
      omega
    · intro j eq
      obtain ⟨j', rfl, rfl⟩ := Option.map_eq_some_iff.mp eq
      have := long j' rfl
      omega

theorem makes_stageEach (ws : List (Kv.Write (List String))) (s : TxStore) :
    Makes (stageEach ws) ws.length s { s with staged := s.staged ++ ws } := by
  induction ws generalizing s with
  | nil =>
    refine ⟨fun short => absurd short (Nat.not_lt_zero _), fun {k} _ => ?_⟩
    rw [List.append_nil]
    cases k <;> rfl
  | cons w ws ih =>
    have rest := ih { s with staged := s.staged ++ [w] }
    rw [List.append_assoc] at rest
    exact .perform rfl rfl rest

theorem makes_commit (s : TxStore) :
    Makes (onTx .commit) 1 s ⟨Kv.commit s.staged s.rows, []⟩ where
  stops {j} short := by
    obtain rfl : j = 0 := by omega
    exact ⟨s, rfl, rfl⟩
  ends {k} long := by
    match k with
    | none | some (j + 1) => rfl
    | some 0 => exact absurd (long 0 rfl) (by simp)

/-- A first part that leaves the rows alone. -/
theorem Makes.bind {p q : TxM Unit} {n m : Nat} {s s' t : TxStore} (first : Makes p n s s')
    (same : s'.rows = s.rows) (second : Makes q m s' t) : Makes (p >>= fun _ => q) (n + m) s t where
  stops {j} short := by
    rw [failing_bind]
    by_cases early : j < n
    · obtain ⟨u, stopped, rows⟩ := first.stops early
      exact ⟨u, by rw [stopped], rows⟩
    · have ended := first.ends (k := some j) (by rintro _ ⟨⟩; omega)
      obtain ⟨u, stopped, rows⟩ := second.stops (show j - n < m by omega)
      exact ⟨u, by rw [ended]; exact stopped, rows.trans same⟩
  ends {k} long := by
    rw [failing_bind, first.ends fun j eq => by have := long j eq; omega]
    simp only
    rw [second.ends, Option.map_map]
    · refine congrArg _ (congrArg _ (congrArg (Option.map · k) (funext fun j => ?_)))
      exact Nat.sub_sub ..
    · intro j eq
      obtain ⟨j', rfl, rfl⟩ := Option.map_eq_some_iff.mp eq
      have := long j' rfl
      omega

/-- **Transaction**: all of the writes are committed, or none of them. -/
theorem makes_writeTx (ws : List (Kv.Write (List String))) (s : TxStore) :
    Makes (writeTx ws) (ws.length + 2) s ⟨Kv.commit ws s.rows, []⟩ :=
  .perform rfl rfl ((makes_stageEach ws _).bind rfl (makes_commit _))

theorem makes_clearAll (s : TxStore) :
    Makes clearAll (s.rows.toList.length + 3) s
      ⟨Kv.commit (s.rows.toList.map fun row => .delete row.1) s.rows, []⟩ := by
  have writes := makes_writeTx (s.rows.toList.map fun row => .delete row.1) s
  rw [List.length_map] at writes
  exact .perform rfl rfl writes

end Failing

/-! ### All or nothing -/

/-- The encodings of the rules of a model. -/
def encodings (m : CasbinModel) : List (String × List String) :=
  (entries m).map fun e => (e.key, e.rule)

/-- The validator takes every rule of the model. -/
def Accepted (m : CasbinModel) : Prop := ∀ e ∈ entries m, validate e.key e.rule = .ok ()

/-- No two different rules of the model have the same key. -/
def Distinct (m : CasbinModel) : Prop :=
  ∀ e ∈ entries m, ∀ e' ∈ entries m, e.key = e'.key → e.rule = e'.rule

/-- An error leaves the rows as they were, success leaves the encodings of the model. -/
def AllOrNothing (m : CasbinModel) (k : Option Nat) (rows : Kv (List String)) : Prop :=
  match (savePolicy m).failing k ⟨rows, []⟩ with
  | (.error _, s, _) => s.rows = rows
  | (.ok (), s, _) => ∀ (key : String) rule,
      s.rows[key]? = some rule ↔ (key, rule) ∈ encodings m

/-- How many store calls `clear_all` makes: the scan, one for each row, and the two ends of the
    transaction. -/
def clearCalls (rows : Kv (List String)) : Nat := rows.toList.length + 3

/-- No store call of a whole run fails. -/
def Answered (m : CasbinModel) (k : Option Nat) (rows : Kv (List String)) : Prop :=
  ∀ j, k = some j → clearCalls rows + ((entries m).length + 2) ≤ j

theorem Entry.encode_eq (e : Entry) :
    e.encode = (validate e.key e.rule).map fun _ => (e.key, e.rule) := by
  rw [encode, encodeRule, key]
  cases validate (ruleKey e.sec e.ptype e.rule) e.rule with
  | ok u => rfl
  | error err => rfl

theorem encodeEach_ok {l : List Entry} (accepted : ∀ e ∈ l, validate e.key e.rule = .ok ()) :
    encodeEach l = .ok (l.map fun e => (e.key, e.rule)) := by
  induction l with
  | nil => rfl
  | cons e l ih =>
    simp only [encodeEach, Entry.encode_eq, accepted e (.head _),
      ih fun e' mem => accepted e' (.tail _ mem)]
    rfl

theorem encodeEach_error {l : List Entry} (rejected : ¬ ∀ e ∈ l, validate e.key e.rule = .ok ()) :
    ∃ err, encodeEach l = .error err := by
  induction l with
  | nil => exact absurd (fun _ mem => nomatch mem) rejected
  | cons e l ih =>
    simp only [encodeEach, Entry.encode_eq]
    cases here : validate e.key e.rule with
    | error err => exact ⟨err, rfl⟩
    | ok u =>
      obtain ⟨err, later⟩ := ih fun all => rejected fun e' mem => by
        rcases List.mem_cons.mp mem with rfl | mem
        · exact here
        · exact all e' mem
      rw [later]
      exact ⟨err, rfl⟩

theorem commit_deletes_all (rows : Kv (List String)) :
    Kv.commit (rows.toList.map fun row => .delete row.1) rows = ∅ := by
  refine Kv.ext_get fun key => ?_
  have keys := Kv.get_commit_deletes (rows.toList.map (·.1)) rows key
  rw [List.map_map] at keys
  refine keys.trans ?_
  split
  · simp
  next away =>
    rw [Std.ExtTreeMap.getElem?_empty, ← Kv.not_mem_iff_get]
    intro mem
    obtain ⟨row, here⟩ := Kv.mem_iff_get.mp mem
    exact away (List.mem_map.mpr ⟨(key, row), Kv.mem_toList.mpr here, rfl⟩)

/-- The stored rows are exactly the encodings when each key stands for one rule. -/
theorem rows_exact_iff (m : CasbinModel) :
    (∀ (key : String) rule,
      (Kv.commit ((encodings m).map fun row => .put row.1 row.2) ∅)[key]? = some rule ↔
        (key, rule) ∈ encodings m) ↔ Distinct m := by
  constructor
  · -- two rules under one key: the store holds one row there
    intro exact e mem e' mem' same
    have here := (exact e.key e.rule).mpr (List.mem_map.mpr ⟨e, mem, rfl⟩)
    have there := (exact e'.key e'.rule).mpr (List.mem_map.mpr ⟨e', mem', rfl⟩)
    rw [← same, here] at there
    exact Option.some.inj there
  · intro distinct key rule
    rcases Kv.get_commit_puts (encodings m) ∅ key with ⟨rule', mem', get⟩ | ⟨none, get⟩
    · rw [get, Option.some.injEq]
      constructor
      · rintro rfl
        exact mem'
      · intro mem
        obtain ⟨e, here, eq⟩ := List.mem_map.mp mem
        obtain ⟨e', here', eq'⟩ := List.mem_map.mp mem'
        have keys := (congrArg Prod.fst eq').trans (congrArg Prod.fst eq).symm
        exact ((congrArg Prod.snd eq').symm.trans (distinct e' here' e here keys)).trans
          (congrArg Prod.snd eq)
    · rw [get]
      exact iff_of_false (by simp) (none rule)

/-! ### The three outcomes -/

section Save

variable {m : CasbinModel} {k : Option Nat} {rows : Kv (List String)}

private theorem failing_savePolicy (cleared : ∀ j, k = some j → clearCalls rows ≤ j) :
    (savePolicy m).failing k ⟨rows, []⟩ =
      TxM.failing (Prog.lift (encodeEach (entries m)) >>= fun encoded =>
        writeTx (encoded.map fun row => .put row.1 row.2)) (k.map (· - clearCalls rows)) ⟨∅, []⟩ := by
  have ended := (makes_clearAll ⟨rows, []⟩).ends cleared
  rw [commit_deletes_all] at ended
  rw [savePolicy, failing_bind, ended]
  rfl

/-- A failure inside `clear_all` leaves the rows alone. -/
theorem save_stopped {j : Nat} (early : j < clearCalls rows) :
    AllOrNothing m (some j) rows := by
  obtain ⟨u, stopped, same⟩ := (makes_clearAll ⟨rows, []⟩).stops early
  rw [AllOrNothing, savePolicy, failing_bind, stopped]
  exact same

/-- A rejected rule, or a failed call behind `clear_all`, leaves an empty store. -/
theorem save_lost (cleared : ∀ j, k = some j → clearCalls rows ≤ j)
    (failed : ¬ (Accepted m ∧ Answered m k rows)) : AllOrNothing m k rows ↔ rows = ∅ := by
  rw [AllOrNothing, failing_savePolicy cleared, failing_bind]
  by_cases accepted : Accepted m
  · -- the clear went through and the write did not, so nothing is put back
    have unanswered : ¬ Answered m k rows := fun answered => failed ⟨accepted, answered⟩
    simp only [Answered, not_forall] at unanswered
    obtain ⟨j, rfl, short⟩ := unanswered
    obtain ⟨u, stopped, same⟩ := (makes_writeTx
      ((encodings m).map fun row => .put row.1 row.2) ⟨∅, []⟩).stops (j := j - clearCalls rows) (by
        have := cleared j rfl
        simp only [List.length_map, encodings]
        omega)
    rw [encodeEach_ok accepted]
    change (match (writeTx ((encodings m).map fun row => .put row.1 row.2)).failing
      (some (j - clearCalls rows)) ⟨∅, []⟩ with
        | (.error _, s, _) => s.rows = rows
        | (.ok (), s, _) => ∀ (key : String) rule,
            s.rows[key]? = some rule ↔ (key, rule) ∈ encodings m) ↔ rows = ∅
    rw [stopped]
    exact (Eq.congr_left same).trans eq_comm
  · obtain ⟨err, rejected⟩ := encodeEach_error accepted
    rw [rejected]
    exact eq_comm

/-- Without a failure the store holds what the last put under each key left there. -/
theorem save_done (accepted : Accepted m) (answered : Answered m k rows) :
    AllOrNothing m k rows ↔ Distinct m := by
  rw [AllOrNothing, failing_savePolicy fun j eq => (Nat.le_add_right _ _).trans (answered j eq),
    failing_bind, encodeEach_ok accepted]
  have ended := (makes_writeTx ((encodings m).map fun row => .put row.1 row.2) ⟨∅, []⟩).ends
    (k := k.map (· - clearCalls rows)) (by
      intro j eq
      obtain ⟨j', rfl, rfl⟩ := Option.map_eq_some_iff.mp eq
      have := answered j' rfl
      simp only [List.length_map, encodings]
      omega)
  change (match (writeTx ((encodings m).map fun row => .put row.1 row.2)).failing
    (k.map (· - clearCalls rows)) ⟨∅, []⟩ with
      | (.error _, s, _) => s.rows = rows
      | (.ok (), s, _) => ∀ (key : String) rule,
          s.rows[key]? = some rule ↔ (key, rule) ∈ encodings m) ↔ Distinct m
  rw [ended]
  exact rows_exact_iff m

end Save

/-- `save_policy` is all-or-nothing exactly when one of its first calls fails, those of
    `clear_all`; or it meets no error and the keys tell the rules apart; or there was
    nothing stored that an error could lose. -/
theorem save_policy_iff (m : CasbinModel) (k : Option Nat) (rows : Kv (List String)) :
    AllOrNothing m k rows ↔
      (∃ j, k = some j ∧ j < clearCalls rows) ∨
      (Accepted m ∧ Answered m k rows ∧ Distinct m) ∨
      (¬ (Accepted m ∧ Answered m k rows) ∧ rows = ∅) := by
  by_cases early : ∃ j, k = some j ∧ j < clearCalls rows
  · obtain ⟨j, rfl, early⟩ := early
    exact iff_of_true (save_stopped early) (.inl ⟨j, rfl, early⟩)
  · have cleared : ∀ j, k = some j → clearCalls rows ≤ j := fun j eq =>
      Nat.le_of_not_lt fun short => early ⟨j, eq, short⟩
    by_cases whole : Accepted m ∧ Answered m k rows
    · rw [save_done whole.1 whole.2]
      simp [early, whole]
    · rw [save_lost cleared whole]
      simp only [early, false_or, whole, not_false_eq_true, true_and, ← and_assoc, false_and]

/-- One rule in the store. -/
def oneRule : Kv (List String) :=
  (∅ : Kv (List String)).insert (ruleKey "p" "p" ["alice", "invoice:1", "read"])
    ["alice", "invoice:1", "read"]

/-- A model with a rule of four fields, which the validator rejects. -/
def fourFields : CasbinModel := [("p", [("p", [["alice", "invoice:1", "read", "allow"]])])]

/-- Saving it returns the validator's error, with no store call failing, and the stored rule is
    gone. -/
theorem rejected_save_empties : ¬ ∀ m k rows, AllOrNothing m k rows := by
  intro all
  have rejected : ¬ Accepted fourFields := by
    unfold Accepted
    decide +kernel
  have gone : oneRule = ∅ :=
    (save_lost (fun _ failing => by cases failing) fun both => rejected both.1).mp
      (all fourFields none _)
  have there := Kv.get_insert (∅ : Kv (List String))
    (ruleKey "p" "p" ["alice", "invoice:1", "read"]) (ruleKey "p" "p" ["alice", "invoice:1", "read"])
    ["alice", "invoice:1", "read"]
  rw [if_pos rfl] at there
  change oneRule[_]? = _ at there
  rw [gone] at there
  simp at there

end Adapter

end RustApi
