import RustApi.Lib.Kv
import RustApi.Policy.Authorizer

/-!
# The enforcer and its store

casbin's management calls over `OxkvAdapter`: the adapter writes the rule rows of
the policy store first, and the enforced model changes only when the adapter
reports a change. Each function is one management call under the write lock. The
validator looks at every rule, under the key it is about to be written to.
-/

namespace RustApi

open Lib

namespace Adapter

def hexDigit (n : Nat) : Char := "0123456789abcdef".toList.getD n '0'

theorem hexDigit_inj {m n : Nat} (hm : m < 16) (hn : n < 16)
    (same : hexDigit m = hexDigit n) : m = n := by
  have all : ∀ m n : Fin 16, hexDigit m.val = hexDigit n.val → m = n := by decide
  exact congrArg Fin.val (all ⟨m, hm⟩ ⟨n, hn⟩ same)

/-- Two digits a byte: the bytes can be read back. -/
theorem hexBytes_inj {l l' : List UInt8}
    (same : (l.flatMap fun b => [hexDigit (b.toNat / 16), hexDigit (b.toNat % 16)]) =
      l'.flatMap fun b => [hexDigit (b.toNat / 16), hexDigit (b.toNat % 16)]) : l = l' := by
  induction l generalizing l' with
  | nil => cases l' <;> simp_all
  | cons b l ih =>
    cases l' with
    | nil => simp at same
    | cons b' l' =>
      simp only [List.flatMap_cons, List.cons_append, List.nil_append, List.cons.injEq] at same
      obtain ⟨high, low, rest⟩ := same
      have lt := b.toNat_lt
      have lt' := b'.toNat_lt
      have high := hexDigit_inj (by omega) (by omega) high
      have low := hexDigit_inj (by omega) (by omega) low
      have bytes : b = b' := UInt8.toNat_inj.mp (by omega)
      rw [bytes, ih rest]

/-- `hex_encode`, over the UTF-8 bytes of the text. -/
def hexEncode (s : String) : String :=
  String.ofList (s.toList.flatMap fun c => (String.utf8EncodeChar c).flatMap fun b =>
    [hexDigit (b.toNat / 16), hexDigit (b.toNat % 16)])

/-- `rule_key`. -/
def ruleKey (sec ptype : String) (rule : List String) : String :=
  sec ++ ":" ++ ptype ++ ":" ++ hexEncode (String.intercalate "\x1f" rule)

/-- `PolicyRuleValidator::expected_arity`. -/
def expectedArity (sec : String) : Nat := if sec = "p" then 3 else 2

/-! ### The validator -/

def invalid (text : String) : Except Error Unit := .error (.policy (.casbin text))

def isHexDigit (c : Char) : Bool :=
  ('0' ≤ c && c ≤ '9') || ('a' ≤ c && c ≤ 'f') || ('A' ≤ c && c ≤ 'F')

/-- `PolicyRuleValidator::validate`. The value is given decoded, since the callers hand over
    the encoding of a rule. -/
def validate (key : String) (rule : List String) : Except Error Unit :=
  let malformed :=
    invalid ("policy keys must be '\x7bsec\x7d:ptype:\x7bhash\x7d', got '" ++ key ++ "'")
  match Text.splitOnce ':' key with
  | none => malformed
  | some (sec, rest) =>
    match Text.splitOnce ':' rest with
    | none => malformed
    | some (ptype, hash) =>
      if sec ≠ "p" ∧ sec ≠ "g" then
        invalid ("unknown policy section '" ++ sec ++ "' in key '" ++ key ++ "'")
      else if ptype = "" then invalid ("empty policy type segment in key '" ++ key ++ "'")
      else if hash = "" ∨ ¬ hash.toList.all isHexDigit then
        invalid ("non-hex rule hash segment in key '" ++ key ++ "'")
      else if rule.length ≠ expectedArity sec then
        invalid ("'" ++ sec ++ "' rules need " ++ toString (expectedArity sec) ++
          " fields, got " ++ toString rule.length)
      else .ok ()

/-- `encode_rule`: the key of a rule, which is also its row. -/
def encodeRule (sec ptype : String) (rule : List String) : Except Error String := do
  validate (ruleKey sec ptype rule) rule
  pure (ruleKey sec ptype rule)

section Validator

variable {sec ptype : String} {rule : List String}

private theorem isHexDigit_hexDigit {n : Nat} (lt : n < 16) : isHexDigit (hexDigit n) = true := by
  have all : ∀ n : Fin 16, isHexDigit (hexDigit n.val) = true := by decide
  exact all ⟨n, lt⟩

private theorem all_isHexDigit (s : String) : (hexEncode s).toList.all isHexDigit = true := by
  simp only [hexEncode, String.toList_ofList, List.all_flatMap, List.all_eq_true]
  intro c _ b _
  have lt := b.toNat_lt
  simp only [List.forall_mem_cons]
  exact ⟨isHexDigit_hexDigit (by omega), isHexDigit_hexDigit (by omega),
    fun _ mem => absurd mem List.not_mem_nil⟩

private theorem hexEncode_ne_empty {s : String} (ne : s ≠ "") : hexEncode s ≠ "" := by
  intro empty
  obtain ⟨c, cs, chars⟩ := List.exists_cons_of_ne_nil (mt String.toList_eq_nil_iff.mp ne)
  obtain ⟨b, bs, bytes⟩ := List.exists_cons_of_ne_nil (@String.utf8EncodeChar_ne_nil c)
  have := congrArg String.toList empty
  simp [hexEncode, chars, bytes] at this

private theorem splitOnce_sep {a : String} (free : Text.Free ':' a) (b : String) :
    Text.splitOnce ':' (a ++ ":" ++ b) = some (a, b) :=
  Text.splitOnce_iff.mpr ⟨rfl, free⟩

/-- The key of a rule falls into its section, its policy type and its hash. -/
private theorem splitOnce_ruleKey (known : sec = "p" ∨ sec = "g") :
    Text.splitOnce ':' (ruleKey sec ptype rule) =
      some (sec, ptype ++ ":" ++ hexEncode (String.intercalate "\x1f" rule)) := by
  have key : ruleKey sec ptype rule =
      sec ++ ":" ++ (ptype ++ ":" ++ hexEncode (String.intercalate "\x1f" rule)) := by
    simp only [ruleKey, String.append_assoc]
  rw [key]
  exact splitOnce_sep (by rcases known with rfl | rfl <;> decide) _

/-- Two fields have a separator between them. -/
private theorem joined_ne_empty (fields : 2 ≤ rule.length) :
    String.intercalate "\x1f" rule ≠ "" := by
  match rule, fields with
  | a :: b :: rest, _ =>
    rw [String.intercalate_cons_cons]
    intro empty
    have := congrArg String.toList empty
    simp at this

/-- A rule with the fields of its section passes under its own key. -/
theorem validate_of_fits (known : sec = "p" ∨ sec = "g") (free : Text.Free ':' ptype)
    (named : ptype ≠ "") (fits : rule.length = expectedArity sec) :
    validate (ruleKey sec ptype rule) rule = .ok () := by
  have fields : 2 ≤ rule.length := by
    rcases known with rfl | rfl
    · simp [fits, expectedArity]
    · simp [fits, expectedArity]
  have section_known : ¬ (sec ≠ "p" ∧ sec ≠ "g") := by tauto
  simp only [validate, splitOnce_ruleKey known, splitOnce_sep free, if_neg section_known,
    if_neg named, hexEncode_ne_empty (joined_ne_empty fields), all_isHexDigit]
  simp [fits]

/-- Only such a rule passes. -/
theorem fits_of_validate (known : sec = "p" ∨ sec = "g") (free : Text.Free ':' ptype)
    (passed : validate (ruleKey sec ptype rule) rule = .ok ()) :
    rule.length = expectedArity sec := by
  simp only [validate, splitOnce_ruleKey known, splitOnce_sep free] at passed
  by_contra unfit
  simp only [ne_eq, unfit, not_false_eq_true, if_true] at passed
  -- every other branch is an error as well
  repeat' split at passed
  all_goals cases passed

theorem encodeRule_of_fits (known : sec = "p" ∨ sec = "g")
    (fits : rule.length = expectedArity sec) :
    encodeRule sec sec rule = .ok (ruleKey sec sec rule) := by
  have passed := @validate_of_fits sec sec rule known
    (by rcases known with rfl | rfl <;> decide) (by rcases known with rfl | rfl <;> decide) fits
  rw [encodeRule, passed]
  rfl

theorem encodeRule_ok {key : String} (known : sec = "p" ∨ sec = "g")
    (encoded : encodeRule sec sec rule = .ok key) :
    rule.length = expectedArity sec ∧ key = ruleKey sec sec rule := by
  rw [encodeRule] at encoded
  cases passed : validate (ruleKey sec sec rule) rule with
  | error err =>
    rw [passed] at encoded
    cases encoded
  | ok u =>
    rw [passed] at encoded
    exact ⟨fits_of_validate known (by rcases known with rfl | rfl <;> decide) passed,
      (Except.ok.inj encoded).symm⟩

/-- A rule that does not fit is refused. -/
theorem encodeRule_error (known : sec = "p" ∨ sec = "g") (unfit : rule.length ≠ expectedArity sec) :
    ∃ err, encodeRule sec sec rule = .error err := by
  cases encoded : encodeRule sec sec rule with
  | error err => exact ⟨err, rfl⟩
  | ok key => exact absurd (encodeRule_ok known encoded).1 unfit

end Validator

/-! ### The calls -/

/-- `add_policy`. -/
def addPolicy (sec ptype : String) (rule : List String) (store : Kv (List String)) :
    Except Error (Bool × Kv (List String)) :=
  match encodeRule sec ptype rule with
  | .error e => .error e
  | .ok key => if key ∈ store then .ok (false, store) else .ok (true, store.insert key rule)

theorem addPolicy_ok {sec ptype key : String} {rule : List String}
    (encoded : encodeRule sec ptype rule = .ok key) (store : Kv (List String)) :
    addPolicy sec ptype rule store =
      .ok (if key ∈ store then (false, store) else (true, store.insert key rule)) := by
  rw [addPolicy, encoded]
  simp only
  split <;> rfl

theorem addPolicy_error {sec ptype : String} {rule : List String} {err : Error}
    (refused : encodeRule sec ptype rule = .error err) (store : Kv (List String)) :
    addPolicy sec ptype rule store = .error err := by
  rw [addPolicy, refused]

/-- `remove_policy`. -/
def removePolicy (sec ptype : String) (rule : List String) (store : Kv (List String)) :
    Bool × Kv (List String) :=
  if ruleKey sec ptype rule ∈ store then (true, store.erase (ruleKey sec ptype rule))
  else (false, store)

/-- `remove_filtered_policy` for one field value. -/
def removeFilteredPolicy (sec ptype : String) (field : Nat) (value : String)
    (store : Kv (List String)) : Bool × Kv (List String) :=
  let keys := (store.toList.filter fun e =>
    Text.startsWith (sec ++ ":" ++ ptype ++ ":") e.1 && decide (e.2[field]? = some value)).map (·.1)
  (!keys.isEmpty, Kv.commit (keys.map .delete) store)

/-- One row of `load_policy`. Foreign rows are skipped. -/
def loadRow (policy : Policy) (row : String × List String) : Policy :=
  match row.2 with
  | [sub, obj, act] =>
    if Text.startsWith "p:p:" row.1 then policy.apply (.policyRuleAdd sub obj act) else policy
  | [user, group] =>
    if Text.startsWith "g:g:" row.1 then policy.apply (.groupAdd user group) else policy
  | _ => policy

/-- `load_policy` into an empty model. -/
def loadPolicy (store : Kv (List String)) : Policy := store.toList.foldl loadRow ⟨[], []⟩

end Adapter

/-- The enforcer: the rows of its store and the model it answers from. -/
structure Enforcer where
  store : Kv (List String)
  policy : Policy

namespace Enforcer

variable (e : Enforcer)

/-- The model changes only after the adapter reported a change; the answer says
    whether it did. -/
def settle (adapter : Bool × Kv (List String)) (policy : Policy) : Bool × Enforcer :=
  if adapter.1 then (decide (policy ≠ e.policy), ⟨adapter.2, policy⟩) else (false, ⟨adapter.2, e.policy⟩)

/-- `Enforcer::new` over the same store: the model is loaded afresh. -/
def reopen : Enforcer := ⟨e.store, Adapter.loadPolicy e.store⟩

/-- `add_policy`. -/
def addPolicy (rule : List String) : Except Error (Bool × Enforcer) :=
  match Adapter.addPolicy "p" "p" rule e.store, rule with
  | .error err, _ => .error err
  | .ok adapter, [sub, obj, act] =>
    .ok (e.settle adapter (e.policy.apply (.policyRuleAdd sub obj act)))
  | .ok adapter, _ => .ok (false, ⟨adapter.2, e.policy⟩)

/-- `add_grouping_policy`. -/
def addGroupingPolicy (link : List String) : Except Error (Bool × Enforcer) :=
  match Adapter.addPolicy "g" "g" link e.store, link with
  | .error err, _ => .error err
  | .ok adapter, [user, group] => .ok (e.settle adapter (e.policy.apply (.groupAdd user group)))
  | .ok adapter, _ => .ok (false, ⟨adapter.2, e.policy⟩)

/-- `remove_policy`. -/
def removePolicy (sub obj act : String) : Bool × Enforcer :=
  e.settle (Adapter.removePolicy "p" "p" [sub, obj, act] e.store)
    (e.policy.apply (.policyRuleRemove sub obj act))

/-- `remove_grouping_policy`. -/
def removeGroupingPolicy (user group : String) : Bool × Enforcer :=
  e.settle (Adapter.removePolicy "g" "g" [user, group] e.store)
    (e.policy.apply (.groupRemove user group))

/-- `remove_filtered_grouping_policy(1, [group])`. -/
def removeFilteredGroupingPolicy (group : String) : Bool × Enforcer :=
  e.settle (Adapter.removeFilteredPolicy "g" "g" 1 group e.store)
    (e.policy.apply (.groupDelete group))

end Enforcer

end RustApi
