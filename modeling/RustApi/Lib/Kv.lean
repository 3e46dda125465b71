import Mathlib

/-!
# Ordered key-value stores

A store maps text keys to values and is read back in ascending key order: by
point lookups, by bounded scans, and through the writes of one transaction. The
map itself is the standard library's tree map, with extensional equality.
-/

namespace RustApi.Lib

/-- An ordered store. -/
abbrev Kv (V : Type) : Type := Std.ExtTreeMap String V compare

namespace Kv

variable {V : Type}

theorem get_insert (kv : Kv V) (k a : String) (v : V) :
    (kv.insert k v)[a]? = if k = a then some v else kv[a]? := by
  simp [Std.ExtTreeMap.getElem?_insert]

theorem get_erase (kv : Kv V) (k a : String) :
    (kv.erase k)[a]? = if k = a then none else kv[a]? := by
  simp [Std.ExtTreeMap.getElem?_erase]

/-- What is left after an erasure was there before. -/
theorem of_get_erase {kv : Kv V} {k a : String} {v : V} (left : (kv.erase k)[a]? = some v) :
    kv[a]? = some v := by
  rw [get_erase] at left
  exact (Option.ite_none_left_eq_some.mp left).2

theorem mem_iff_get {kv : Kv V} {k : String} : k ∈ kv ↔ ∃ v, kv[k]? = some v := by
  rw [← Option.isSome_iff_exists, Std.ExtTreeMap.isSome_getElem?_iff_mem]

theorem not_mem_iff_get {kv : Kv V} {k : String} : k ∉ kv ↔ kv[k]? = none := by
  rw [mem_iff_get, Option.eq_none_iff_forall_ne_some, not_exists]

/-- A scan with inclusive bounds and an optional limit, in ascending key order. -/
def getsBytes (limit : Option Nat) (lo hi : Option String) (kv : Kv V) : List (String × V) :=
  let hits := kv.toList.filter fun e =>
    decide (∀ b ∈ lo, b ≤ e.1) && decide (∀ b ∈ hi, e.1 ≤ b)
  match limit with
  | none => hits
  | some n => hits.take n

/-- Keys of a store listed in order are strictly increasing. -/
theorem toList_sorted (kv : Kv V) : kv.toList.Pairwise fun a b => a.1 < b.1 := by
  simpa only [compare_lt_iff_lt] using Std.ExtTreeMap.ordered_keys_toList (t := kv)

theorem mem_toList {kv : Kv V} {k : String} {v : V} : (k, v) ∈ kv.toList ↔ kv[k]? = some v :=
  Std.ExtTreeMap.mem_toList_iff_getElem?_eq_some

theorem mem_getsBytes {kv : Kv V} {lo hi : Option String} {k : String} {v : V} :
    (k, v) ∈ kv.getsBytes none lo hi ↔
      kv[k]? = some v ∧ (∀ b ∈ lo, b ≤ k) ∧ ∀ b ∈ hi, k ≤ b := by
  simp [getsBytes]

/-- Stores that answer every lookup alike are equal. -/
theorem ext_get {a b : Kv V} (h : ∀ k : String, a[k]? = b[k]?) : a = b :=
  Std.ExtTreeMap.ext_getElem? h

/-! ### Transactions -/

/-- One staged write. -/
inductive Write (V : Type) where
  | put (key : String) (value : V)
  | delete (key : String)
  deriving DecidableEq

namespace Write

def key : Write V → String
  | .put k _ => k
  | .delete k => k

def apply (kv : Kv V) : Write V → Kv V
  | .put k v => kv.insert k v
  | .delete k => kv.erase k

end Write

/-- A committed transaction applies all of its writes in the order they were staged. -/
def commit (ws : List (Write V)) (kv : Kv V) : Kv V := ws.foldl Write.apply kv

@[simp] theorem commit_nil (kv : Kv V) : commit [] kv = kv := rfl

@[simp] theorem commit_cons (w : Write V) (ws : List (Write V)) (kv : Kv V) :
    commit (w :: ws) kv = commit ws (w.apply kv) := rfl

theorem commit_append (ws us : List (Write V)) (kv : Kv V) :
    commit (ws ++ us) kv = commit us (commit ws kv) := by
  simp [commit]

theorem get_apply (kv : Kv V) (w : Write V) (a : String) :
    (w.apply kv)[a]? = if w.key = a then (match w with | .put _ v => some v | .delete _ => none)
      else kv[a]? := by
  cases w with
  | put k v => exact get_insert kv k a v
  | delete k => exact get_erase kv k a

/-- A transaction leaves the keys it does not write alone. -/
theorem get_commit_of_not_written {ws : List (Write V)} {a : String}
    (h : ∀ w ∈ ws, w.key ≠ a) (kv : Kv V) : (commit ws kv)[a]? = kv[a]? := by
  -- on the writes, from the first one staged
  induction ws generalizing kv with
  | nil => rfl
  | cons w ws ih =>
    rw [commit_cons, ih (fun u hu => h u (List.mem_cons_of_mem _ hu)), get_apply,
      if_neg (h w List.mem_cons_self)]

/-- Deleting a list of keys. -/
theorem get_commit_deletes (ks : List String) (kv : Kv V) (a : String) :
    (commit (ks.map Write.delete) kv)[a]? = if a ∈ ks then none else kv[a]? := by
  induction ks generalizing kv with
  | nil => simp
  | cons k ks ih =>
    rw [List.map_cons, commit_cons, ih, get_apply]
    by_cases hk : k = a
    · subst hk
      simp [Write.key]
    · simp [Write.key, hk, Ne.symm hk]

/-- After a list of puts a key holds one of the values put there, or what it held before. -/
theorem get_commit_puts (rows : List (String × V)) (kv : Kv V) (a : String) :
    (∃ v, (a, v) ∈ rows ∧ (commit (rows.map fun r => .put r.1 r.2) kv)[a]? = some v) ∨
      (∀ v, (a, v) ∉ rows) ∧ (commit (rows.map fun r => .put r.1 r.2) kv)[a]? = kv[a]? := by
  induction rows generalizing kv with
  | nil => exact .inr ⟨fun _ => List.not_mem_nil, rfl⟩
  | cons row rows ih =>
    obtain ⟨k, v⟩ := row
    rw [List.map_cons, commit_cons]
    rcases ih (kv.insert k v) with ⟨v', mem, get⟩ | ⟨none, get⟩
    · exact .inl ⟨v', .tail _ mem, get⟩
    · rw [get_insert] at get
      -- no later row has this key: the value is the one put here, if the key is
      by_cases same : k = a
      · subst same
        exact .inl ⟨v, .head _, get.trans (if_pos rfl)⟩
      · refine .inr ⟨fun v' mem => ?_, get.trans (if_neg same)⟩
        rcases List.mem_cons.mp mem with eq | mem
        · exact same (congrArg Prod.fst eq).symm
        · exact none v' mem

/-! ### Deletions -/

/-- `kv'` is `kv` without the keys in `gone`. -/
def Cleared (gone : Set String) (kv kv' : Kv V) : Prop :=
  ∀ k, (k ∈ gone → kv'[k]? = none) ∧ (k ∉ gone → kv'[k]? = kv[k]?)

section Cleared

variable {gone gone' : Set String} {kv kv' kv'' : Kv V}

theorem Cleared.refl (kv : Kv V) : Cleared ∅ kv kv := fun _ => ⟨fun mem => mem.elim, fun _ => rfl⟩

/-- One deletion after another. -/
theorem Cleared.trans (first : Cleared gone kv kv') (second : Cleared gone' kv' kv'') :
    Cleared (gone ∪ gone') kv kv'' := by
  intro k
  by_cases later : k ∈ gone'
  · exact ⟨fun _ => (second k).1 later, fun kept => absurd (.inr later) kept⟩
  · have same := (second k).2 later
    constructor
    · rintro (sooner | bad)
      · exact same.trans ((first k).1 sooner)
      · exact absurd bad later
    · intro kept
      exact same.trans ((first k).2 fun sooner => kept (.inl sooner))

theorem Cleared.get_eq_some (cleared : Cleared gone kv kv') {k : String} {v : V} :
    kv'[k]? = some v ↔ k ∉ gone ∧ kv[k]? = some v := by
  by_cases mem : k ∈ gone
  · simp [(cleared k).1 mem, mem]
  · simp [(cleared k).2 mem, mem]

theorem Cleared.congr (cleared : Cleared gone kv kv') (same : ∀ k v, kv[k]? = some v →
    (k ∈ gone ↔ k ∈ gone')) : Cleared gone' kv kv' := by
  intro k
  cases here : kv[k]? with
  | none =>
    have absent : kv'[k]? = none := by
      by_cases mem : k ∈ gone
      · exact (cleared k).1 mem
      · exact ((cleared k).2 mem).trans here
    exact ⟨fun _ => absent, fun _ => absent⟩
  | some v =>
    have both := same k v here
    exact ⟨fun mem => (cleared k).1 (both.mpr mem),
      fun kept => ((cleared k).2 (mt both.mp kept)).trans here⟩

/-- Nothing changes when no key is there to be deleted. -/
theorem Cleared.eq (cleared : Cleared gone kv kv') (absent : ∀ k ∈ gone, kv[k]? = none) :
    kv' = kv := by
  apply ext_get
  intro k
  by_cases mem : k ∈ gone
  · rw [(cleared k).1 mem, absent k mem]
  · exact (cleared k).2 mem

theorem cleared_erase (kv : Kv V) (k : String) : Cleared {k} kv (kv.erase k) := by
  intro a
  rw [get_erase]
  simp only [Set.mem_singleton_iff, eq_comm (a := a)]
  exact ⟨fun same => if_pos same, fun other => if_neg other⟩

theorem cleared_commit (ks : List String) (kv : Kv V) :
    Cleared {k | k ∈ ks} kv (commit (ks.map Write.delete) kv) := by
  intro a
  rw [get_commit_deletes]
  exact ⟨fun mem => if_pos mem, fun away => if_neg away⟩

end Cleared

end Kv

end RustApi.Lib
