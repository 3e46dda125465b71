import RustApi.Sync.Filter

/-!
# The diff of a full rebuild

`build_full` writes the filtered copy into a scratch store and then compares it
with the live replica. The loop takes the next key of both sides in every
iteration, so it pairs the keys by position (`lockstep`) instead of merging them
by order.

## Main results

- `lockstep_exact_iff`: the pairing turns the live entries into the desired ones
  exactly when each of the first live keys, as many as there are desired keys, is
  itself desired.
- `buildFull_exact_iff`: the same for a rebuild that returned.
-/

namespace RustApi

open Lib

namespace Snapshot

/-! ### The pairing -/

/-- The writes of the loop, over the two sides as lists. -/
def lockstep : List (String × Value) → List (String × Value) → List (Kv.Write Value)
  | [], live => live.map fun b => .delete b.1
  | a :: desired, [] => .put a.1 a.2 :: lockstep desired []
  | a :: desired, b :: live => diffStep (some a) (some b) ++ lockstep desired live

/-- The entries of a replica other than the coverage marker. -/
def dataOf (l : List (String × Value)) : List (String × Value) :=
  l.filter fun e => decide (e.1 ≠ appliedKey)

private theorem nextDataKey_ok {fuel : Nat} {sub : String} {live live' : KvPages Value}
    {w w' : World} {e : Option (String × Value)}
    (h : (nextDataKey sub fuel live).runOn w = (.ok (e, live'), w')) :
    w' = w ∧ e = (dataOf (KvPages.left (w.replicas sub) live)).head? ∧
      dataOf (KvPages.left (w.replicas sub) live') =
        (dataOf (KvPages.left (w.replicas sub) live)).tail := by
  induction fuel generalizing live with
  | zero => simp [nextDataKey] at h
  | succ fuel ih =>
    rw [nextDataKey, M.runOn_bind_of_ok (run_next (.replica sub) live w)] at h
    obtain ⟨first, rest⟩ := KvPages.next_static (w.replicas sub) live
    simp only [World.fsStore] at h
    rw [first] at h
    generalize (KvPages.nextIn (w.replicas sub) live).2 = live₁ at h rest
    cases rows : KvPages.left (w.replicas sub) live with
    | nil =>
      simp only [rows, List.head?_nil, M.runOn_pure, Prod.mk.injEq, Except.ok.injEq] at h
      obtain ⟨⟨rfl, rfl⟩, rfl⟩ := h
      simp [dataOf, rest, rows]
    | cons a more =>
      simp only [rows, List.tail_cons] at rest
      simp only [rows, List.head?_cons] at h
      -- the apply marker is not a data key: the loop goes round it, and the filter drops it
      by_cases marker : a.1 = appliedKey
      · simp only [marker, ne_eq, not_true_eq_false, if_false] at h
        obtain ⟨same, found, left⟩ := ih h
        rw [rest] at found left
        refine ⟨same, ?_, ?_⟩
        · simpa [dataOf, List.filter_cons, marker] using found
        · simpa [dataOf, List.filter_cons, marker] using left
      · simp only [ne_eq, marker, not_false_eq_true, if_true, M.runOn_pure, Prod.mk.injEq,
          Except.ok.injEq] at h
        obtain ⟨⟨rfl, rfl⟩, rfl⟩ := h
        simp [dataOf, marker, rest]

private theorem diffLoop_ok {fuel n : Nat} {sub : String} {scratch : Kv Value}
    {desired live : KvPages Value} {staged staged' : List (Kv.Write Value)} {w w' : World}
    (h : (diffLoop fuel sub scratch n desired live staged).runOn w = (.ok staged', w')) :
    w' = w ∧ staged' = staged ++ lockstep (KvPages.left scratch desired)
      (dataOf (KvPages.left (w.replicas sub) live)) := by
  induction n generalizing desired live staged with
  | zero => simp [diffLoop] at h
  | succ n ih =>
    obtain ⟨first, rest⟩ := KvPages.next_static scratch desired
    rw [diffLoop] at h
    generalize KvPages.nextIn scratch desired = step at h first rest
    obtain ⟨a, desired₁⟩ := step
    obtain ⟨⟨b, live₁⟩, w₁, fetched, h⟩ := M.runOn_bind_ok h
    obtain ⟨rfl, head, tail⟩ := nextDataKey_ok fetched
    simp only at first rest h
    subst first head
    -- both scans read stores that no call of the loop writes, so each turn consumes a head
    cases D : KvPages.left scratch desired with
    | nil =>
      cases L : dataOf (KvPages.left (w₁.replicas sub) live) with
      | nil =>
        simp only [D, L, List.head?_nil, and_self, if_true, M.runOn_pure, Prod.mk.injEq,
          Except.ok.injEq] at h
        obtain ⟨rfl, rfl⟩ := h
        simp [lockstep]
      | cons b live₂ =>
        simp only [D, L, List.head?_nil, List.head?_cons, reduceCtorEq, and_false, if_false] at h
        obtain ⟨same, rfl⟩ := ih h
        rw [rest, tail, D, L]
        exact ⟨same, by simp [lockstep, diffStep]⟩
    | cons a desired₂ =>
      cases L : dataOf (KvPages.left (w₁.replicas sub) live) with
      | nil =>
        simp only [D, L, List.head?_nil, List.head?_cons, reduceCtorEq, false_and, if_false] at h
        obtain ⟨same, rfl⟩ := ih h
        rw [rest, tail, D, L]
        exact ⟨same, by simp [lockstep, diffStep]⟩
      | cons b live₂ =>
        simp only [D, L, List.head?_cons, reduceCtorEq, false_and, if_false] at h
        obtain ⟨same, rfl⟩ := ih h
        rw [rest, tail, D, L]
        exact ⟨same, by simp [lockstep]⟩

/-! ### What the pairing achieves -/

private abbrev Sorted (l : List (String × Value)) : Prop := l.Pairwise fun a b => a.1 < b.1

/-- Every desired entry is there, and no live key is left that is not desired. -/
private structure Reached (D L : List (String × Value)) (result : Kv Value) : Prop where
  present : ∀ e ∈ D, result[e.1]? = some e.2
  removed : ∀ e ∈ L, e.1 ∉ D.map (·.1) → result[e.1]? = none

private theorem diffStep_lt {a b : String × Value} (h : a.1 < b.1) :
    diffStep (some a) (some b) = [.put a.1 a.2] := by
  simp [diffStep, compare_lt_iff_lt.mpr h]

private theorem diffStep_gt {a b : String × Value} (h : b.1 < a.1) :
    diffStep (some a) (some b) = [.delete b.1] := by
  simp [diffStep, compare_gt_iff_gt.mpr h]

private theorem diffStep_eq {a b : String × Value} (h : a.1 = b.1) :
    diffStep (some a) (some b) = if a.2 ≠ b.2 then [.put a.1 a.2] else [] := by
  simp [diffStep, h]

private theorem lockstep_key {D L : List (String × Value)} {wr : Kv.Write Value}
    (h : wr ∈ lockstep D L) : wr.key ∈ D.map (·.1) ∨ wr.key ∈ L.map (·.1) := by
  induction D generalizing L with
  | nil =>
    obtain ⟨b, mem, rfl⟩ := List.mem_map.mp h
    exact .inr (List.mem_map_of_mem mem)
  | cons a D ih =>
    cases L with
    | nil =>
      rcases List.mem_cons.mp h with rfl | later
      · exact .inl List.mem_cons_self
      · exact (ih later).imp (List.mem_cons_of_mem _) id
    | cons b L =>
      rcases List.mem_append.mp h with here | later
      · -- the pair writes the smaller of its two keys
        rcases lt_trichotomy a.1 b.1 with lt | eq | gt
        · rw [diffStep_lt lt, List.mem_singleton] at here
          exact .inl (here ▸ List.mem_cons_self)
        · rw [diffStep_eq eq] at here
          split at here
          · exact .inl (List.mem_singleton.mp here ▸ List.mem_cons_self)
          · cases here
        · rw [diffStep_gt gt, List.mem_singleton] at here
          exact .inr (here ▸ List.mem_cons_self)
      · exact (ih later).imp (List.mem_cons_of_mem _) (List.mem_cons_of_mem _)

/-- Keys on neither side keep their value. -/
private theorem lockstep_untouched {D L : List (String × Value)} {k : String}
    (hD : k ∉ D.map (·.1)) (hL : k ∉ L.map (·.1)) (base : Kv Value) :
    (Kv.commit (lockstep D L) base)[k]? = base[k]? := by
  refine Kv.get_commit_of_not_written ?_ base
  rintro wr mem rfl
  exact (lockstep_key mem).elim hD hL

/-- A live key below every desired one meets a larger key, or none, and is deleted. -/
private theorem lockstep_deletes {D L : List (String × Value)} {k : String}
    (below : ∀ e ∈ D, k < e.1) (hL : k ∈ L.map (·.1)) (base : Kv Value) :
    (Kv.commit (lockstep D L) base)[k]? = none := by
  induction D generalizing L base with
  | nil =>
    have deletes : lockstep [] L = (L.map (·.1)).map Kv.Write.delete := by simp [lockstep]
    rw [deletes, Kv.get_commit_deletes, if_pos hL]
  | cons a D ih =>
    cases L with
    | nil => cases hL
    | cons b L =>
      have later : ∀ e ∈ D, k < e.1 := fun e he => below e (List.mem_cons_of_mem _ he)
      rw [lockstep, Kv.commit_append]
      -- `k` comes again further down, or it is the head and nothing later touches it
      by_cases again : k ∈ L.map (·.1)
      · exact ih later again _
      · obtain rfl : k = b.1 := (List.mem_cons.mp hL).resolve_right again
        have absent : b.1 ∉ D.map (·.1) := by
          rintro mem
          obtain ⟨e, he, same⟩ := List.mem_map.mp mem
          exact absurd (later e he) (same ▸ lt_irrefl _)
        rw [lockstep_untouched absent again, diffStep_gt (below a List.mem_cons_self)]
        simp [Kv.get_apply, Kv.Write.key]

private theorem head_lt {a : String × Value} {l : List (String × Value)} (sorted : Sorted (a :: l))
    {k : String} (hk : k ∈ l.map (·.1)) : a.1 < k := by
  obtain ⟨e, he, rfl⟩ := List.mem_map.mp hk
  exact (List.pairwise_cons.mp sorted).1 e he

private theorem head_not_mem {a : String × Value} {l : List (String × Value)}
    (sorted : Sorted (a :: l)) : a.1 ∉ l.map (·.1) :=
  fun h => lt_irrefl _ (head_lt sorted h)

/-- The value of the key at hand after one step, when the desired key is not the larger. -/
private theorem diffStep_writes {a b : String × Value} {base : Kv Value} (le : a.1 ≤ b.1)
    (held : base[b.1]? = some b.2) (k : String) :
    (Kv.commit (diffStep (some a) (some b)) base)[k]? = if a.1 = k then some a.2 else base[k]? := by
  rcases lt_or_eq_of_le le with lt | eq
  · rw [diffStep_lt lt]
    exact Kv.get_insert base a.1 k a.2
  · rw [diffStep_eq eq]
    by_cases same : a.2 = b.2
    · simp only [same, ne_eq, not_true_eq_false, if_false, Kv.commit_nil]
      split
      next here => rw [← here, eq, held]
      · rfl
    · rw [if_pos same]
      exact Kv.get_insert base a.1 k a.2

/-- Sufficiency: when the first live keys are all desired, no desired key is ever the larger
    of a pair, so each one is written in its turn. -/
private theorem lockstep_reaches {D L : List (String × Value)} {base : Kv Value}
    (sortedD : Sorted D) (sortedL : Sorted L) (held : ∀ e ∈ L, base[e.1]? = some e.2)
    (aligned : ∀ e ∈ L.take D.length, e.1 ∈ D.map (·.1)) :
    Reached D L (Kv.commit (lockstep D L) base) := by
  induction D generalizing L base with
  | nil =>
    refine ⟨by simp, fun e he _ => ?_⟩
    exact lockstep_deletes (by simp) (List.mem_map_of_mem he) base
  | cons a D ih =>
    have sortedD' := (List.pairwise_cons.mp sortedD).2
    cases L with
    | nil =>
      have rest := @ih [] (base.insert a.1 a.2) sortedD' List.Pairwise.nil
        (by simp) (by simp)
      refine ⟨?_, by simp⟩
      intro e he
      rw [lockstep, Kv.commit_cons]
      rcases List.mem_cons.mp he with rfl | later
      · exact (lockstep_untouched (head_not_mem sortedD) (by simp) _).trans
          (by simp [Kv.Write.apply])
      · exact rest.present e later
    | cons b L =>
      have sortedL' := (List.pairwise_cons.mp sortedL).2
      have first : b.1 ∈ (a :: D).map (·.1) := aligned b (by simp)
      have le : a.1 ≤ b.1 := by
        rcases List.mem_cons.mp first with same | later
        · exact same.ge
        · exact (head_lt sortedD later).le
      have written := diffStep_writes le (held b List.mem_cons_self)
      -- every later live key lies behind both heads
      have behind : ∀ e ∈ L, a.1 < e.1 := fun e he =>
        lt_of_le_of_lt le ((List.pairwise_cons.mp sortedL).1 e he)
      have rest := @ih L (Kv.commit (diffStep (some a) (some b)) base)
        sortedD' sortedL'
        (by
          intro e he
          rw [written, if_neg (behind e he).ne]
          exact held e (List.mem_cons_of_mem _ he))
        (by
          intro e he
          have mem := aligned e (by simpa using List.mem_cons_of_mem b he)
          exact (List.mem_cons.mp mem).resolve_left (behind e (List.mem_of_mem_take he)).ne')
      rw [lockstep, Kv.commit_append]
      refine ⟨?_, ?_⟩
      · intro e he
        rcases List.mem_cons.mp he with rfl | later
        · have absent : e.1 ∉ L.map (·.1) := by
            intro mem
            obtain ⟨x, hx, same⟩ := List.mem_map.mp mem
            exact (behind x hx).ne same.symm
          rw [lockstep_untouched (head_not_mem sortedD) absent, written, if_pos rfl]
        · exact rest.present e later
      · intro e he absent
        rcases List.mem_cons.mp he with rfl | later
        · exact absurd first absent
        · exact rest.removed e later fun mem => absent (List.mem_cons_of_mem _ mem)

/-- Necessity: the first pair whose live key is not desired loses one of its two keys. -/
private theorem lockstep_needs {D L : List (String × Value)} {base : Kv Value}
    (sortedD : Sorted D) (sortedL : Sorted L) (held : ∀ e ∈ L, base[e.1]? = some e.2)
    (exact : ∀ b ∈ L.head?, ∀ k ∈ D.map (·.1), b.1 < k → k ∈ base → k ∈ L.map (·.1))
    (reached : Reached D L (Kv.commit (lockstep D L) base)) :
    ∀ e ∈ L.take D.length, e.1 ∈ D.map (·.1) := by
  induction D generalizing L base with
  | nil => simp
  | cons a D ih =>
    cases L with
    | nil => simp
    | cons b L =>
      have sortedD' := (List.pairwise_cons.mp sortedD).2
      have sortedL' := (List.pairwise_cons.mp sortedL).2
      have presented := reached.present
      have removed := reached.removed
      rw [lockstep, Kv.commit_append] at presented removed
      rcases lt_or_ge b.1 a.1 with gt | le
      · -- the desired key is passed over, and nothing brings it back
        rw [diffStep_gt gt] at presented
        have lost := presented a List.mem_cons_self
        by_cases live : a.1 ∈ L.map (·.1)
        · rw [lockstep_deletes (fun e he => (List.pairwise_cons.mp sortedD).1 e he) live] at lost
          cases lost
        · rw [lockstep_untouched (head_not_mem sortedD) live] at lost
          have kept : base[a.1]? = some a.2 := by
            simpa [Kv.get_apply, Kv.Write.key, gt.ne] using lost
          have mem := exact b rfl a.1 List.mem_cons_self gt (Kv.mem_iff_get.mpr ⟨_, kept⟩)
          -- the live side cannot hold it behind its head without `lockstep_deletes` taking it
          exact absurd ((List.mem_cons.mp mem).resolve_left gt.ne') live
      · have written := diffStep_writes le (held b List.mem_cons_self)
        have behind : ∀ e ∈ L, a.1 < e.1 := fun e he =>
          lt_of_le_of_lt le ((List.pairwise_cons.mp sortedL).1 e he)
        have first : b.1 ∈ (a :: D).map (·.1) := by
          by_contra absent
          -- the live key is passed over and stays
          have gone := removed b List.mem_cons_self absent
          have other : a.1 ≠ b.1 := fun same => absent (List.mem_cons.mpr (.inl same.symm))
          rw [lockstep_untouched (fun mem => absent (List.mem_cons_of_mem _ mem))
            (head_not_mem sortedL), written, if_neg other, held b List.mem_cons_self] at gone
          cases gone
        have rest := @ih L (Kv.commit (diffStep (some a) (some b)) base)
          sortedD' sortedL'
          (by
            intro e he
            rw [written, if_neg (behind e he).ne]
            exact held e (List.mem_cons_of_mem _ he))
          (by
            intro c hc k hk lt mem
            have hcL : c ∈ L := List.mem_of_mem_head? hc
            have past : b.1 < k := ((List.pairwise_cons.mp sortedL).1 c hcL).trans lt
            rw [Kv.mem_iff_get, written, if_neg (le.trans_lt past).ne, ← Kv.mem_iff_get] at mem
            have live := exact b rfl k (List.mem_cons_of_mem _ hk) past mem
            exact (List.mem_cons.mp live).resolve_left past.ne')
          ⟨fun e he => presented e (List.mem_cons_of_mem _ he), by
            intro e he absent
            refine removed e (List.mem_cons_of_mem _ he) fun mem => absent ?_
            exact (List.mem_cons.mp mem).resolve_left (behind e he).ne'⟩
        intro e he
        rw [List.length_cons, List.take_succ_cons] at he
        rcases List.mem_cons.mp he with rfl | later
        · exact first
        · exact List.mem_cons_of_mem _ (rest e later)

/-! ### Rebuilds -/

/-- Each of the first data keys of the live replica, as many as the copy has keys, is a key
    of the copy. -/
def Aligned (D live : Kv Value) : Prop := ∀ e ∈ (dataOf live.toList).take D.size, e.1 ∈ D

instance (D live : Kv Value) : Decidable (Aligned D live) :=
  inferInstanceAs (Decidable (∀ e ∈ _, _))

private theorem mem_dataOf {kv : Kv Value} {e : String × Value} :
    e ∈ dataOf kv.toList ↔ kv[e.1]? = some e.2 ∧ e.1 ≠ appliedKey := by
  rw [dataOf, List.mem_filter, Kv.mem_toList, decide_eq_true_eq]

private theorem mem_keys {kv : Kv Value} {k : String} : k ∈ kv.toList.map (·.1) ↔ k ∈ kv := by
  rw [List.mem_map, Kv.mem_iff_get]
  constructor
  · rintro ⟨⟨k', v⟩, mem, rfl⟩
    exact ⟨v, Kv.mem_toList.mp mem⟩
  · rintro ⟨v, here⟩
    exact ⟨(k, v), Kv.mem_toList.mpr here, rfl⟩

/-- **The diff is exact** on the data keys exactly when the two sides are aligned. -/
theorem lockstep_exact_iff {D live : Kv Value} (plain : D[appliedKey]? = none) :
    (∀ k, k ≠ appliedKey →
      (Kv.commit (lockstep D.toList (dataOf live.toList)) live)[k]? = D[k]?) ↔
      Aligned D live := by
  have sortedL : Sorted (dataOf live.toList) := (Kv.toList_sorted live).filter _
  have held : ∀ e ∈ dataOf live.toList, live[e.1]? = some e.2 := fun e he => (mem_dataOf.mp he).1
  have whole : ∀ k, k ≠ appliedKey → k ∈ live → k ∈ (dataOf live.toList).map (·.1) := by
    intro k hk mem
    obtain ⟨v, here⟩ := Kv.mem_iff_get.mp mem
    exact List.mem_map.mpr ⟨(k, v), mem_dataOf.mpr ⟨here, hk⟩, rfl⟩
  have aligned_iff : Aligned D live ↔
      ∀ e ∈ (dataOf live.toList).take D.toList.length, e.1 ∈ D.toList.map (·.1) := by
    simp only [Aligned, mem_keys, Std.ExtTreeMap.length_toList]
  have desired_ne : ∀ e ∈ D.toList, e.1 ≠ appliedKey := by
    rintro e he same
    rw [Kv.mem_toList, same, plain] at he
    cases he
  rw [aligned_iff]
  constructor
  · intro exact
    -- what an exact result says of the two sides, in the terms of the lockstep
    refine lockstep_needs (Kv.toList_sorted D) sortedL held ?_ ⟨?_, ?_⟩
    · intro b _ k hk _ mem
      obtain ⟨e, he, rfl⟩ := List.mem_map.mp hk
      exact whole e.1 (desired_ne e he) mem
    · intro e he
      rw [exact e.1 (desired_ne e he)]
      exact Kv.mem_toList.mp he
    · intro e he absent
      rw [exact e.1 (mem_dataOf.mp he).2, ← Kv.not_mem_iff_get, ← mem_keys]
      exact absent
  · intro aligned k hk
    have reached := lockstep_reaches (Kv.toList_sorted D) sortedL held aligned
    by_cases desired : k ∈ D
    · obtain ⟨v, here⟩ := Kv.mem_iff_get.mp desired
      rw [here]
      exact reached.present (k, v) (Kv.mem_toList.mpr here)
    · rw [Kv.not_mem_iff_get.mp desired]
      -- a key on neither side is written by no pair
      by_cases there : k ∈ live
      · obtain ⟨v, here⟩ := Kv.mem_iff_get.mp there
        exact reached.removed (k, v) (mem_dataOf.mpr ⟨here, hk⟩) (fun mem => desired (mem_keys.mp mem))
      · rw [lockstep_untouched (fun mem => desired (mem_keys.mp mem)), Kv.not_mem_iff_get.mp there]
        intro mem
        obtain ⟨e, he, rfl⟩ := List.mem_map.mp mem
        exact there (Kv.mem_iff_get.mpr ⟨_, held e he⟩)

/-- The coverage marker of a replica, as `load_applied` decodes it. -/
def coverage (kv : Kv Value) : Option Nat :=
  match kv[appliedKey]? with
  | some (.applied seq) => some seq
  | _ => none

theorem run_loadApplied (sub : String) (w : World) :
    (loadApplied sub).runOn w = (.ok (coverage (w.replicas sub)), w) := by
  have call : (onStore (.replica sub) (.getBytes appliedKey)).runOn w =
      (.ok (w.replicas sub)[appliedKey]?, w) := by
    rw [run_onStore]
    exact congrArg _ (World.setFsStore_fsStore w (.replica sub))
  rw [loadApplied, M.runOn_bind_of_ok call, coverage]
  cases (w.replicas sub)[appliedKey]? with
  | none => rfl
  | some v => cases v <;> rfl

theorem coverage_eq_some {kv : Kv Value} {seq : Nat} :
    coverage kv = some seq ↔ kv[appliedKey]? = some (.applied seq) := by
  unfold coverage
  split
  next n here => simp [here]
  next other =>
    constructor
    · intro h
      cases h
    · intro h
      exact absurd h (other seq)

/-- What a rebuild that returned has done: it copied the master, diffed the copy into the
    replica and left the head it started from as the marker. -/
theorem buildFull_ok {fuel : Nat} {sub : String} {w w' : World} {head : Nat}
    (built : (buildFull fuel sub).runOn w = (.ok head, w')) :
    ∃ D, (copyFiltered fuel sub).runOn w = (.ok ([], D), w) ∧ Wal.head w.wal = .ok head ∧
      w' = w.setFsStore (.replica sub) (w'.replicas sub) ∧
      (w'.replicas sub)[appliedKey]? = some (.applied head) ∧
      ∀ k, k ≠ appliedKey → (w'.replicas sub)[k]? =
        (Kv.commit (lockstep D.toList (dataOf (w.replicas sub).toList)) (w.replicas sub))[k]? := by
  obtain ⟨head₁, w₁, sampled, rest⟩ := M.runOn_bind_ok built
  rw [run_walHead, Prod.mk.injEq] at sampled
  obtain ⟨sampled, rfl⟩ := sampled
  obtain ⟨⟨undecodable, D⟩, w₁, copied, diff⟩ := M.runOn_bind_ok rest
  obtain rfl := (copyFiltered_ok copied).1
  by_cases decoded : undecodable = []
  · subst decoded
    obtain ⟨staged, w₂, diffed, last⟩ := M.runOn_bind_ok diff
    obtain ⟨rfl, rfl⟩ := diffLoop_ok diffed
    rw [KvPages.left_new, KvPages.left_new, List.nil_append] at last
    rw [M.runOn_bind_of_ok (run_loadApplied sub w₂)] at last
    refine ⟨D, copied, ?_⟩
    by_cases settled : (lockstep D.toList (dataOf (w₂.replicas sub).toList)).isEmpty = true ∧
        coverage (w₂.replicas sub) = some head₁
    · -- nothing to write and the marker is current: the transaction is rolled back
      rw [if_pos settled, M.runOn_pure, Prod.mk.injEq, Except.ok.injEq] at last
      obtain ⟨rfl, rfl⟩ := last
      have nothing := List.isEmpty_iff.mp settled.1
      refine ⟨sampled, (World.setFsStore_fsStore w₂ (.replica sub)).symm,
        coverage_eq_some.mp settled.2, fun k _ => ?_⟩
      rw [nothing, Kv.commit_nil]
    · rw [if_neg settled, M.runOn_bind_of_ok (run_onStore _ _ w₂), M.runOn_pure, Prod.mk.injEq,
        Except.ok.injEq] at last
      obtain ⟨rfl, rfl⟩ := last
      simp only [FsCall.exec, World.setFsStore, World.fsStore, Function.update_self,
        Kv.commit_append, Kv.commit_cons, Kv.commit_nil, Kv.Write.apply, Kv.get_insert]
      refine ⟨sampled, trivial, if_pos trivial, fun k hk => ?_⟩
      rw [if_neg (Ne.symm hk)]
  · simp only [ne_eq, decoded, not_false_eq_true, if_true, M.runOn_fail] at diff
    cases diff

/-- **A full rebuild is exact** (the replica holds the filtered copy and nothing else, covered
    up to the head it started from) exactly when the copy and the old replica are aligned. -/
theorem buildFull_exact_iff {fuel : Nat} {sub : String} {w w' : World} {head : Nat} {D : Kv Value}
    (built : (buildFull fuel sub).runOn w = (.ok head, w'))
    (copied : ((copyFiltered fuel sub).runOn w).1 = .ok ([], D)) :
    ((∀ k, k ≠ appliedKey → (w'.replicas sub)[k]? = D[k]?) ∧
      (w'.replicas sub)[appliedKey]? = some (.applied head) ∧ Wal.head w.wal = .ok head) ↔
      Aligned D (w.replicas sub) := by
  obtain ⟨D₁, copied₁, sampled, -, marker, data⟩ := buildFull_ok built
  obtain rfl : D₁ = D := by
    rw [copied₁] at copied
    simpa using copied
  have plain : D₁[appliedKey]? = none := filterAll_plain (copyFiltered_ok copied₁).2
  rw [← lockstep_exact_iff plain]
  constructor
  · rintro ⟨exact, -, -⟩ k hk
    rw [← data k hk, exact k hk]
  · intro exact
    refine ⟨fun k hk => ?_, marker, sampled⟩
    rw [data k hk, exact k hk]

/-- A file that `alice` owns. -/
def aliceFile (id : String) : FileRecord :=
  ⟨id, "report.txt", "text/plain", 1, "files/" ++ id, "alice", 0⟩

/-- A master with one file of `alice` and a replica of hers that still holds another one. -/
def staleReplica (old : String) : World :=
  { World.init toString with
    master := FsStore.saveFile (aliceFile "b") ∅
    replicas := fun _ => FsStore.saveFile (aliceFile old) ∅ }

/-- The old file sorts before the new one: it is deleted, and the new one is never written. -/
theorem buildFull_drops_new_file :
    ∃ w' D, (buildFull 8 "alice").runOn (staleReplica "a") = (.ok 0, w') ∧
      ((copyFiltered 8 "alice").runOn (staleReplica "a")).1 = .ok ([], D) ∧
      D[FsStore.fileKey "b"]? = some (.file (aliceFile "b")) ∧
      (w'.replicas "alice")[FsStore.fileKey "b"]? = none :=
  ⟨_, _, rfl, rfl, rfl, rfl⟩

/-- On a replica that holds the file already the rebuild is exact. -/
theorem buildFull_keeps_file :
    (∀ k, k ≠ appliedKey → (((buildFull 8 "alice").runOn (staleReplica "b")).2.replicas "alice")[k]? =
      (FsStore.saveFile (aliceFile "b") ∅)[k]?) ∧
      (((buildFull 8 "alice").runOn (staleReplica "b")).2.replicas "alice")[appliedKey]? =
        some (.applied 0) ∧ Wal.head (staleReplica "b").wal = .ok 0 :=
  (buildFull_exact_iff
    (show (buildFull 8 "alice").runOn (staleReplica "b") =
      (.ok 0, ((buildFull 8 "alice").runOn (staleReplica "b")).2) from rfl)
    (show ((copyFiltered 8 "alice").runOn (staleReplica "b")).1 =
      .ok ([], FsStore.saveFile (aliceFile "b") ∅) from rfl)).mpr (by decide)

end Snapshot

end RustApi
