import RustApi.Policy.Persist

/-!
# Policy backups

`export_s3` and the round trip through `import_s3`, with and without a feed that is told of
the import.

## Main result

`backup_round_trip`: an import of the dump of any policy into an empty store rebuilds the
rows of that policy and counts every one as added; a second import counts every one as a
duplicate and changes nothing.
-/

namespace RustApi

open Lib

/-! ### Export and import -/

/-- The rows of the facts that the enforcer lists. -/
def rowsOf (facts : List Fact) : List (List String) := facts.map (·.row.2)

namespace PolicyAdmin

/-- `export_s3`. The store is opened with an enforcer of its own. -/
def exportS3 (store : Kv (List String)) : PolicyDump where
  p := rowsOf ((Adapter.loadPolicy store).rules.map .rule)
  g := rowsOf ((Adapter.loadPolicy store).links.map .link)

/-- The feed is told if it is wired. -/
def announceTo (feed : Bool) (op : WalOp) : M Unit :=
  if feed then onWal (.append op) else pure ()

/-- A loop of `import_s3`, with the feed wired or not. -/
def importEachWith (feed : Bool) (add : List String → Change) (op : List String → WalOp)
    (count : ImportReport → ImportReport) : List (List String) → ImportReport → M ImportReport
  | [], report => pure report
  | row :: rest, report => do
    let added ← (add row).perform
    if added then do
      announceTo feed (op row)
      importEachWith feed add op count rest (count report)
    else
      importEachWith feed add op count rest { report with duplicates := report.duplicates + 1 }

def importRulesWith (feed : Bool) : List (List String) → ImportReport → M ImportReport :=
  importEachWith feed .addPolicy
    (fun rule => .policyRuleAdd (rule.getD 0 "") (rule.getD 1 "") (rule.getD 2 ""))
    fun report => { report with rulesAdded := report.rulesAdded + 1 }

def importGroupsWith (feed : Bool) : List (List String) → ImportReport → M ImportReport :=
  importEachWith feed .addGroupingPolicy
    (fun link => .groupAdd (link.getD 0 "") (link.getD 1 ""))
    fun report => { report with groupsAdded := report.groupsAdded + 1 }

def importS3With (feed : Bool) (dump : PolicyDump) : M ImportReport := do
  onPolicy .openStore
  let report ← importRulesWith feed dump.p ⟨0, 0, 0⟩
  importGroupsWith feed dump.g report

/-- With the feed wired this is the import that announces its rows. -/
theorem importEachWith_true (add : List String → Change) (op : List String → WalOp)
    (count : ImportReport → ImportReport) (rows : List (List String)) (report : ImportReport) :
    importEachWith true add op count rows report = importEach add op count rows report := by
  induction rows generalizing report with
  | nil => rfl
  | cons row rows ih =>
    rw [importEachWith, importEach]
    refine congrArg _ (funext fun added => ?_)
    simp only [ih]
    rfl

theorem importS3With_true (dump : PolicyDump) : importS3With true dump = importS3 dump := by
  unfold importS3With importS3 importRulesWith importRules importGroupsWith importGroups
  simp only [importEachWith_true]

end PolicyAdmin

/-! ### Rows that the adapter wrote -/

namespace Adapter

/-- Every row is one that `encode_rule` made, under the key it made. -/
def Encoded (store : Kv (List String)) : Prop :=
  ∀ (key : String) row, store[key]? = some row →
    ∃ sec, (sec = "p" ∨ sec = "g") ∧ encodeRule sec sec row = .ok key

/-- A row of the adapter is a fact under its own key. -/
theorem Encoded.fact {store : Kv (List String)} (encoded : Encoded store) {key : String}
    {row : List String} (here : store[key]? = some row) :
    ∃ x : Fact, key = x.key ∧ row = x.row.2 := by
  obtain ⟨sec, known, made⟩ := encoded key row here
  obtain ⟨fits, rfl⟩ := encodeRule_ok known made
  rcases known with rfl | rfl
  · obtain ⟨sub, obj, act, rfl⟩ := List.length_eq_three.mp fits
    exact ⟨.rule ⟨sub, obj, act⟩, rfl, rfl⟩
  · obtain ⟨user, group, rfl⟩ := List.length_eq_two.mp fits
    exact ⟨.link ⟨user, group⟩, rfl, rfl⟩

theorem Encoded.filed {store : Kv (List String)} (encoded : Encoded store) : Filed store := by
  intro x key _ here
  obtain ⟨y, rfl, same⟩ := encoded.fact here
  rw [Fact.row_inj same]

theorem encoded_empty : Encoded ∅ := fun key row here => by simp at here

theorem Encoded.of_le {store store' : Kv (List String)} (encoded : Encoded store)
    (le : ∀ (key : String) row, store'[key]? = some row → store[key]? = some row) :
    Encoded store' :=
  fun key row here => encoded key row (le key row here)

theorem Encoded.insertNew {store : Kv (List String)} (encoded : Encoded store) {sec : String}
    (known : sec = "p" ∨ sec = "g") {row : List String} (fits : row.length = expectedArity sec) :
    Encoded (Change.write.insertNew (ruleKey sec sec row) row store).2 := by
  unfold Change.write.insertNew
  split
  · exact encoded
  · intro key row' here
    rw [Kv.get_insert] at here
    split at here
    next same =>
      subst same
      obtain rfl := Option.some.inj here
      exact ⟨sec, known, encodeRule_of_fits known fits⟩
    next => exact encoded key row' here

/-- Every management call leaves rows that the adapter encoded. -/
theorem Encoded.next {e : Enforcer} (encoded : Encoded e.store) (c : Change) :
    Encoded (c.next e).store := by
  by_cases fits : c.Fits
  · rw [Change.next_store fits]
    cases c with
    | addPolicy rule => exact encoded.insertNew (.inl rfl) fits
    | addGroupingPolicy link => exact encoded.insertNew (.inr rfl) fits
    | _ => exact encoded.of_le fun key row => Change.of_write (by simp) (by simp)
  · obtain ⟨err, refused⟩ := Change.effect_error fits e
    rw [Change.next, refused]
    exact encoded

/-- What any management calls leave behind. -/
theorem encoded_changes (changes : List Change) {e : Enforcer} (encoded : Encoded e.store) :
    Encoded (changes.foldl (fun e c => c.next e) e).store := by
  induction changes generalizing e with
  | nil => exact encoded
  | cons c changes ih => exact ih (encoded.next c)

end Adapter

/-! ### One row -/

namespace Fact

/-- The management call that adds the fact. -/
def add : Fact → Change
  | .rule r => .addPolicy [r.sub, r.obj, r.act]
  | .link l => .addGroupingPolicy [l.user, l.group]

theorem add_fits (x : Fact) : x.add.Fits := by cases x <;> rfl

theorem add_write (x : Fact) (store : Kv (List String)) : x.add.write store =
    if x.key ∈ store then (false, store) else (true, store.insert x.key x.row.2) := by
  cases x <;> rfl

theorem holds_add (x y : Fact) (P : Policy) :
    (P.apply x.add.op).Holds y ↔ y = x ∨ P.Holds y := by
  rw [Policy.holds_apply]
  cases x <;> cases y <;> simp [add, Change.op, WalOp.Adds, WalOp.Removes]

end Fact

theorem runOn_perform {c : Change} (fits : c.Fits) (w : World) :
    c.perform.runOn w = (.ok (c.changed w.enforcer), { w with enforcer := c.next w.enforcer }) := by
  have effect := Change.effect_eq fits w.enforcer
  cases c with
  | addPolicy rule | addGroupingPolicy link =>
    simp only [Change.effect] at effect
    simp [Change.perform, onPolicy, M.runOn, Call.exec, PolicyCall.exec, effect, Change.changed,
      Change.next, Change.effect]
  | removePolicy sub obj act | removeGroupingPolicy user group
  | removeFilteredGroupingPolicy group => rfl

/-- A fact whose key is free and that is not in force is added on both sides. -/
theorem runOn_add_new {x : Fact} {w : World} (free : x.key ∉ w.enforcer.store)
    (unheld : ¬ w.enforcer.policy.Holds x) :
    x.add.perform.runOn w = (.ok true, { w with enforcer :=
      ⟨w.enforcer.store.insert x.key x.row.2, w.enforcer.policy.apply x.add.op⟩ }) := by
  have moved : w.enforcer.policy.apply x.add.op ≠ w.enforcer.policy := by
    intro same
    have held := (x.holds_add x w.enforcer.policy).mpr (.inl rfl)
    rw [same] at held
    exact unheld held
  have wrote : x.add.write w.enforcer.store =
      (true, w.enforcer.store.insert x.key x.row.2) := by
    rw [Fact.add_write, if_neg free]
  have changed : x.add.changed w.enforcer = true :=
    (Change.changed_iff x.add_fits _).mpr ⟨by rw [wrote], moved⟩
  rw [runOn_perform x.add_fits, changed, Change.next_eq x.add_fits, wrote,
    Enforcer.settle_wrote _ rfl]

/-- A fact whose key is taken is refused, and nothing moves. -/
theorem runOn_add_known {x : Fact} {w : World} (there : x.key ∈ w.enforcer.store) :
    x.add.perform.runOn w = (.ok false, w) := by
  have wrote : x.add.write w.enforcer.store = (false, w.enforcer.store) := by
    rw [Fact.add_write, if_pos there]
  have changed : x.add.changed w.enforcer = false := by
    by_contra other
    have effective := (Change.changed_iff x.add_fits _).mp (Bool.not_eq_false _ ▸ other)
    rw [wrote] at effective
    exact absurd effective.1 Bool.false_ne_true
  rw [runOn_perform x.add_fits, changed, Change.next_eq x.add_fits, wrote,
    Enforcer.settle_idle _ rfl]

/-! ### The loops -/

/-- The feed can take an entry, if it is wired. -/
def Tellable (feed : Bool) (w : World) : Prop := feed = true → ∃ entries, Wal.Log w.wal entries

/-- The enforcer of `w'` has the facts besides those of `w`, and their rows. -/
structure Added (facts : List Fact) (w w' : World) : Prop where
  rows : ∀ (key : String) row, w'.enforcer.store[key]? = some row ↔
    (∃ x ∈ facts, x.key = key ∧ x.row.2 = row) ∨ w.enforcer.store[key]? = some row
  holds : ∀ y, w'.enforcer.policy.Holds y ↔ y ∈ facts ∨ w.enforcer.policy.Holds y

/-- No fact of the list is in force or has its key in use. -/
def New (facts : List Fact) (w : World) : Prop :=
  ∀ x ∈ facts, x.key ∉ w.enforcer.store ∧ ¬ w.enforcer.policy.Holds x

theorem runOn_announceTo {feed : Bool} {w : World} (tellable : Tellable feed w) (op : WalOp) :
    ∃ wal, (PolicyAdmin.announceTo feed op).runOn w = (.ok (), { w with wal := wal }) ∧
      Tellable feed { w with wal := wal } := by
  cases feed with
  | false => exact ⟨w.wal, rfl, fun bad => by cases bad⟩
  | true =>
    obtain ⟨entries, log⟩ := tellable rfl
    obtain ⟨kv, written, log'⟩ := log.append_eq w.clock op
    refine ⟨kv, ?_, fun _ => ⟨_, log'⟩⟩
    simp [PolicyAdmin.announceTo, onWal, M.runOn, Call.exec, WalCall.exec, written]

section Loops

variable {feed : Bool} {add : List String → Change} {op : List String → WalOp}
  {count : ImportReport → ImportReport} {facts : List Fact}

/-- Facts that are new are all added, and counted. -/
theorem import_new (made : ∀ x ∈ facts, add x.row.2 = x.add)
    (apart : (facts.map Fact.key).Nodup) {w : World} (new : New facts w)
    (tellable : Tellable feed w) (report : ImportReport) :
    ∃ w', (PolicyAdmin.importEachWith feed add op count (rowsOf facts) report).runOn w =
        (.ok (count^[facts.length] report), w') ∧ Added facts w w' ∧ Tellable feed w' := by
  induction facts generalizing w report with
  | nil => exact ⟨w, rfl, ⟨by simp, by simp⟩, tellable⟩
  | cons x facts ih =>
    rw [List.map_cons, List.nodup_cons] at apart
    obtain ⟨free, unheld⟩ := new x (.head _)
    have added := runOn_add_new free unheld
    obtain ⟨wal, told, tellable₁⟩ := runOn_announceTo (w := { w with enforcer :=
      ⟨w.enforcer.store.insert x.key x.row.2, w.enforcer.policy.apply x.add.op⟩ })
      tellable (op x.row.2)
    -- the facts left are still new: their keys differ from the one just taken
    have new₁ : New facts { w with
        enforcer := ⟨w.enforcer.store.insert x.key x.row.2, w.enforcer.policy.apply x.add.op⟩,
        wal := wal } := by
      intro y mem
      have other : x.key ≠ y.key := fun same => apart.1 (same ▸ List.mem_map_of_mem mem)
      obtain ⟨free', unheld'⟩ := new y (.tail _ mem)
      constructor
      · rw [Kv.not_mem_iff_get] at free' ⊢
        rw [Kv.get_insert, if_neg other, free']
      · rw [Fact.holds_add]
        rintro (rfl | held)
        · exact other rfl
        · exact unheld' held
    obtain ⟨w', ran, all, tellable'⟩ := ih (fun y mem => made y (.tail _ mem)) apart.2 new₁
      tellable₁ (count report)
    refine ⟨w', ?_, ⟨fun key row => ?_, fun y => ?_⟩, tellable'⟩
    · rw [rowsOf, List.map_cons, PolicyAdmin.importEachWith, made x (.head _),
        M.runOn_bind_of_ok added, if_pos rfl, M.runOn_bind_of_ok told]
      exact ran
    · rw [all.rows, Kv.get_insert]
      by_cases here : x.key = key
      · subst here
        have gone : w.enforcer.store[x.key]? = none := Kv.not_mem_iff_get.mp free
        have later : ∀ y ∈ facts, y.key ≠ x.key := fun y mem same =>
          apart.1 (same ▸ List.mem_map_of_mem mem)
        simp [gone]
        grind
      · simp [here]
    · rw [all.holds, Fact.holds_add, List.mem_cons]
      tauto

/-- Facts whose keys are taken are all duplicates, and nothing moves. -/
theorem import_known (made : ∀ x ∈ facts, add x.row.2 = x.add) {w : World}
    (there : ∀ x ∈ facts, x.key ∈ w.enforcer.store) (report : ImportReport) :
    (PolicyAdmin.importEachWith feed add op count (rowsOf facts) report).runOn w =
      (.ok { report with duplicates := report.duplicates + facts.length }, w) := by
  induction facts generalizing report with
  | nil => rfl
  | cons x facts ih =>
    have known := runOn_add_known (there x (.head _))
    rw [rowsOf, List.map_cons, PolicyAdmin.importEachWith, made x (.head _),
      M.runOn_bind_of_ok known, if_neg Bool.false_ne_true]
    have rest := ih (fun y mem => made y (.tail _ mem)) (fun y mem => there y (.tail _ mem))
      { report with duplicates := report.duplicates + 1 }
    rw [rowsOf] at rest
    rw [rest, List.length_cons]
    simp only [Nat.add_assoc, Nat.add_comm 1]

end Loops

/-! ### The facts of a dump -/

theorem nodup_loadPolicy (store : Kv (List String)) :
    (Adapter.loadPolicy store).rules.Nodup ∧ (Adapter.loadPolicy store).links.Nodup := by
  -- an op adds a rule or a link only where it is absent
  have applied : ∀ (P : Policy) op, P.rules.Nodup ∧ P.links.Nodup →
      (P.apply op).rules.Nodup ∧ (P.apply op).links.Nodup := by
    rintro ⟨rules, links⟩ op ⟨hr, hl⟩
    cases op with
    | policyRuleAdd sub obj act =>
      simp only [Policy.apply]
      split
      · exact ⟨hr, hl⟩
      next absent => exact ⟨by simpa using hr.concat absent, hl⟩
    | groupAdd user group =>
      simp only [Policy.apply]
      split
      · exact ⟨hr, hl⟩
      next absent => exact ⟨hr, by simpa using hl.concat absent⟩
    | policyRuleRemove | groupRemove | groupDelete =>
      exact ⟨by first | exact hr | exact hr.filter _, by first | exact hl | exact hl.filter _⟩
    | _ => exact ⟨hr, hl⟩
  have rows : ∀ (rows : List (String × List String)) (P : Policy), P.rules.Nodup ∧ P.links.Nodup →
      (rows.foldl Adapter.loadRow P).rules.Nodup ∧ (rows.foldl Adapter.loadRow P).links.Nodup := by
    intro rows
    induction rows with
    | nil => exact fun P nodup => nodup
    | cons row rows ih =>
      refine fun P nodup => ih _ ?_
      unfold Adapter.loadRow
      split
      · split
        · exact applied P _ nodup
        · exact nodup
      · split
        · exact applied P _ nodup
        · exact nodup
      · exact nodup
  exact rows _ _ ⟨List.nodup_nil, List.nodup_nil⟩

/-- The facts of a store have keys of their own. -/
theorem nodup_keys {store : Kv (List String)} (encoded : Adapter.Encoded store) {facts : List Fact} (held : ∀ x ∈ facts, (Adapter.loadPolicy store).Holds x)
    (nodup : facts.Nodup) : (facts.map Fact.key).Nodup := by
  refine List.Nodup.map_on (fun x mem y mem' same => ?_) nodup
  have here := encoded.filed.holds_iff.mp (held x mem)
  have there := encoded.filed.holds_iff.mp (held y mem')
  rw [same, there] at here
  exact (Fact.row_inj (Option.some.inj here)).symm

theorem rulesAdded_iterate (n : Nat) (report : ImportReport) :
    (fun r : ImportReport => { r with rulesAdded := r.rulesAdded + 1 })^[n] report =
      { report with rulesAdded := report.rulesAdded + n } := by
  induction n generalizing report with
  | zero => rfl
  | succ n ih => rw [Function.iterate_succ_apply, ih, Nat.add_right_comm, Nat.add_assoc]

theorem groupsAdded_iterate (n : Nat) (report : ImportReport) :
    (fun r : ImportReport => { r with groupsAdded := r.groupsAdded + 1 })^[n] report =
      { report with groupsAdded := report.groupsAdded + n } := by
  induction n generalizing report with
  | zero => rfl
  | succ n ih => rw [Function.iterate_succ_apply, ih, Nat.add_right_comm, Nat.add_assoc]

/-! ### The round trip -/

/-- What the two imports of a dump have to do: the first rebuilds the rows and adds each, the
    second finds each of them. -/
structure RoundTrip (feed feed' : Bool) (store : Kv (List String)) (w w₁ w₂ : World) : Prop where
  first : (PolicyAdmin.importS3With feed (PolicyAdmin.exportS3 store)).runOn w =
    (.ok ⟨(PolicyAdmin.exportS3 store).p.length, (PolicyAdmin.exportS3 store).g.length, 0⟩, w₁)
  rebuilt : w₁.enforcer.store = store
  exported : PolicyAdmin.exportS3 w₁.enforcer.store = PolicyAdmin.exportS3 store
  second : (PolicyAdmin.importS3With feed' (PolicyAdmin.exportS3 store)).runOn w₁ =
    (.ok ⟨0, 0, (PolicyAdmin.exportS3 store).p.length +
      (PolicyAdmin.exportS3 store).g.length⟩, w₂)
  unchanged : w₂.enforcer.store = store ∧ w₂.wal = w₁.wal

section Dump

variable {P : Policy}

theorem made_rules : ∀ x ∈ P.rules.map Fact.rule, Change.addPolicy x.row.2 = x.add := by
  intro x mem
  obtain ⟨r, -, rfl⟩ := List.mem_map.mp mem
  rfl

theorem made_links : ∀ x ∈ P.links.map Fact.link, Change.addGroupingPolicy x.row.2 = x.add := by
  intro x mem
  obtain ⟨l, -, rfl⟩ := List.mem_map.mp mem
  rfl

/-- The two lists of a dump are the facts in force. -/
theorem mem_facts (x : Fact) :
    x ∈ P.rules.map Fact.rule ∨ x ∈ P.links.map Fact.link ↔ P.Holds x := by
  cases x <;> simp [Policy.Holds]

end Dump

/-- The first import: the rows of both lists, put into an empty store, are the rows of the
    store that was dumped. -/
theorem import_first {store : Kv (List String)} (encoded : Adapter.Encoded store) {feed : Bool}
    {w : World} (empty : w.enforcer.store = ∅) (tellable : Tellable feed w) :
    ∃ w₁, (PolicyAdmin.importS3With feed (PolicyAdmin.exportS3 store)).runOn w =
        (.ok ⟨(PolicyAdmin.exportS3 store).p.length, (PolicyAdmin.exportS3 store).g.length, 0⟩, w₁) ∧
      w₁.enforcer.store = store := by
  have held (x : Fact) := mem_facts (P := Adapter.loadPolicy store) x
  obtain ⟨rules, links⟩ := nodup_loadPolicy store
  have keysP := nodup_keys encoded (fun x mem => (held x).mp (.inl mem))
    (rules.map fun _ _ same => Fact.rule.inj same)
  have keysG := nodup_keys encoded (fun x mem => (held x).mp (.inr mem))
    (links.map fun _ _ same => Fact.link.inj same)
  have none : ∀ x, ¬ w.enforcer.reopen.policy.Holds x := by
    intro x holds
    rw [Enforcer.reopen, empty, holds_loadPolicy] at holds
    obtain ⟨key, -, here⟩ := holds
    simp at here
  obtain ⟨wp, ranP, addedP, tellable₁⟩ := import_new made_rules keysP
    (w := { w with enforcer := w.enforcer.reopen })
    (fun x _ => ⟨by rw [Enforcer.reopen, empty]; simp, none x⟩) tellable ⟨0, 0, 0⟩
  -- the links are new behind the rules, though a rule could hold the key of a link
  have newG : New ((Adapter.loadPolicy store).links.map Fact.link) wp := by
    intro x mem
    constructor
    · intro taken
      obtain ⟨row, here⟩ := Kv.mem_iff_get.mp taken
      rcases (addedP.rows _ _).mp here with ⟨y, mem', same, -⟩ | old
      · -- one row under the key of a rule and of a link
        have there := encoded.filed.holds_iff.mp ((held y).mp (.inl mem'))
        have own := encoded.filed.holds_iff.mp ((held x).mp (.inr mem))
        rw [same, own] at there
        obtain rfl := Fact.row_inj (Option.some.inj there)
        obtain ⟨r, -, rfl⟩ := List.mem_map.mp mem'
        simp at mem
      · rw [Enforcer.reopen, empty] at old
        simp at old
    · rw [addedP.holds]
      rintro (mem' | old)
      · obtain ⟨r, -, rfl⟩ := List.mem_map.mp mem'
        simp at mem
      · exact none x old
  obtain ⟨w₁, ranG, addedG, -⟩ := import_new made_links keysG newG tellable₁ _
  refine ⟨w₁, ?_, Kv.ext_get fun key => Option.ext fun row => ?_⟩
  · have opened : (onPolicy .openStore).runOn w =
        (.ok (), { w with enforcer := w.enforcer.reopen }) := rfl
    rw [PolicyAdmin.importS3With, M.runOn_bind_of_ok opened]
    change (PolicyAdmin.importEachWith feed _ _ _ _ _ >>= _ : M _).runOn _ = _
    rw [PolicyAdmin.exportS3, M.runOn_bind_of_ok ranP]
    refine ranG.trans ?_
    rw [rulesAdded_iterate, groupsAdded_iterate]
    simp [rowsOf]
  · have blank : ({ w with enforcer := w.enforcer.reopen } : World).enforcer.store[key]? ≠
        some row := by
      change w.enforcer.store[key]? ≠ some row
      rw [empty]
      simp
    rw [addedG.rows, addedP.rows]
    constructor
    · rintro (⟨x, mem, rfl, rfl⟩ | ⟨x, mem, rfl, rfl⟩ | old)
      · exact encoded.filed.holds_iff.mp ((held x).mp (.inr mem))
      · exact encoded.filed.holds_iff.mp ((held x).mp (.inl mem))
      · exact absurd old blank
    · intro here
      obtain ⟨x, rfl, rfl⟩ := encoded.fact here
      rcases (held x).mpr (encoded.filed.holds_iff.mpr here) with rule | link
      · exact .inr (.inl ⟨x, rule, rfl, rfl⟩)
      · exact .inl ⟨x, link, rfl, rfl⟩

/-- A later import: every row is found, and only the enforcer is opened afresh. -/
theorem import_again {store : Kv (List String)} (encoded : Adapter.Encoded store) (feed : Bool)
    {w : World} (same : w.enforcer.store = store) :
    (PolicyAdmin.importS3With feed (PolicyAdmin.exportS3 store)).runOn w =
      (.ok ⟨0, 0, (PolicyAdmin.exportS3 store).p.length + (PolicyAdmin.exportS3 store).g.length⟩,
        { w with enforcer := w.enforcer.reopen }) := by
  have held (x : Fact) := mem_facts (P := Adapter.loadPolicy store) x
  have loops : ∀ v : World, (∀ x, (Adapter.loadPolicy store).Holds x → x.key ∈ v.enforcer.store) →
      (do
        let report ← PolicyAdmin.importRulesWith feed (PolicyAdmin.exportS3 store).p ⟨0, 0, 0⟩
        PolicyAdmin.importGroupsWith feed (PolicyAdmin.exportS3 store).g report : M _).runOn v =
        (.ok ⟨0, 0, (PolicyAdmin.exportS3 store).p.length +
          (PolicyAdmin.exportS3 store).g.length⟩, v) := by
    intro v there
    have ranP : (PolicyAdmin.importRulesWith feed (PolicyAdmin.exportS3 store).p ⟨0, 0, 0⟩).runOn v =
        _ := import_known made_rules (fun x mem => there x ((held x).mp (.inl mem))) _
    rw [M.runOn_bind_of_ok ranP]
    refine (import_known made_links (fun x mem => there x ((held x).mp (.inr mem))) _).trans ?_
    simp [PolicyAdmin.exportS3, rowsOf]
  -- reopening changes what is loaded, not the store that the loops ask
  refine loops { w with enforcer := w.enforcer.reopen } fun x holds => ?_
  change x.key ∈ w.enforcer.store
  rw [same]
  exact Kv.mem_iff_get.mpr ⟨_, encoded.filed.holds_iff.mp holds⟩

/-- The dump of any policy that the adapter stored rebuilds it in an empty store. -/
theorem backup_round_trip {store : Kv (List String)} (encoded : Adapter.Encoded store)
    (feed feed' : Bool) {w : World} (empty : w.enforcer.store = ∅) (tellable : Tellable feed w) :
    ∃ w₁ w₂, RoundTrip feed feed' store w w₁ w₂ := by
  obtain ⟨w₁, first, rebuilt⟩ := import_first encoded empty tellable
  exact ⟨w₁, { w₁ with enforcer := w₁.enforcer.reopen }, first, rebuilt, by rw [rebuilt],
    import_again encoded feed' rebuilt, rebuilt, rfl⟩

/-- A rule with an empty field and a joining character in another, and a membership. -/
def backedUp : Kv (List String) :=
  ([.addPolicy ["alice", "a\x1fb", ""], .addGroupingPolicy ["alice", "staff"]].foldl
    (fun e c => Change.next c e) ⟨∅, ⟨[], []⟩⟩).store

theorem backup_round_trip_two : ∃ w₁ w₂, RoundTrip true false backedUp (World.init toString) w₁ w₂ :=
  backup_round_trip (Adapter.encoded_changes _ Adapter.encoded_empty) true false rfl
    fun _ => ⟨[], Wal.Log.empty⟩

end RustApi
