import Mathlib

/-!
# Reachability by a worklist

A depth-first walk with a set of visited nodes over a finite graph, given by its
successor lists. The walk stops on cycles (`walk_loops`), and what it has found when it
stops is exactly what one or more edges lead to (`Loop.mem_iff`).
-/

namespace RustApi.Lib.Reach

variable {α : Type} [DecidableEq α]

/-- Push the successors that were not found before, in order, on the stack. -/
def expand : List α → List α → List α → List α × List α
  | [], stack, found => (stack, found)
  | y :: ys, stack, found =>
    if y ∈ found then expand ys stack found else expand ys (y :: stack) (y :: found)

/-- Pop nodes until the stack is empty. Each pop costs one unit of fuel. -/
def walk (succ : α → List α) : Nat → List α → List α → List α
  | 0, _, found => found
  | _ + 1, [], found => found
  | n + 1, x :: stack, found =>
    walk succ n (expand (succ x) stack found).1 (expand (succ x) stack found).2

/-! ### One expansion -/

private theorem expand_stack (ys stack found : List α) (x : α) :
    x ∈ (expand ys stack found).1 ↔ x ∈ stack ∨ x ∈ ys ∧ x ∉ found := by
  induction ys generalizing stack found with
  | nil => simp [expand]
  | cons y ys ih =>
    by_cases seen : y ∈ found
    · rw [expand, if_pos seen, ih]
      grind
    · rw [expand, if_neg seen, ih]
      grind

private theorem expand_found (ys stack found : List α) (x : α) :
    x ∈ (expand ys stack found).2 ↔ x ∈ found ∨ x ∈ ys := by
  induction ys generalizing stack found with
  | nil => simp [expand]
  | cons y ys ih =>
    by_cases seen : y ∈ found
    · rw [expand, if_pos seen, ih]
      grind
    · rw [expand, if_neg seen, ih]
      grind

private theorem expand_nodup {ys stack found : List α} (distinct : found.Nodup) :
    (expand ys stack found).2.Nodup := by
  induction ys generalizing stack found with
  | nil => exact distinct
  | cons y ys ih =>
    by_cases seen : y ∈ found
    · rw [expand, if_pos seen]
      exact ih distinct
    · rw [expand, if_neg seen]
      exact ih (List.nodup_cons.mpr ⟨seen, distinct⟩)

/-- Every node that is pushed is also recorded. -/
private theorem expand_length (ys stack found : List α) :
    (expand ys stack found).1.length + found.length =
      stack.length + (expand ys stack found).2.length := by
  induction ys generalizing stack found with
  | nil => rfl
  | cons y ys ih =>
    by_cases seen : y ∈ found
    · rw [expand, if_pos seen]
      exact ih stack found
    · rw [expand, if_neg seen]
      have := ih (y :: stack) (y :: found)
      simp only [List.length_cons] at this
      omega

/-! ### The loop -/

/-- One edge of the graph. -/
def Edge (succ : α → List α) (x y : α) : Prop := y ∈ succ x

/-- The loop ends, with what it has found: there is a last turn after which no node waits. -/
inductive Loop (succ : α → List α) : List α → List α → List α → Prop where
  | done {found} : Loop succ [] found found
  | turn {x stack found result}
      (rest : Loop succ (expand (succ x) stack found).1 (expand (succ x) stack found).2 result) :
      Loop succ (x :: stack) found result

variable {succ : α → List α}

theorem Loop.sound {start : α} {stack found result : List α} (loop : Loop succ stack found result)
    (fromStack : ∀ x ∈ stack, Relation.ReflTransGen (Edge succ) start x)
    (fromFound : ∀ x ∈ found, Relation.TransGen (Edge succ) start x) {b : α}
    (hb : b ∈ result) : Relation.TransGen (Edge succ) start b := by
  -- on the turns: what is pushed in one is at the end of an edge more
  induction loop with
  | done => exact fromFound b hb
  | @turn x stack found result rest ih =>
    have reach : ∀ y ∈ succ x, Relation.TransGen (Edge succ) start y := fun y hy =>
      Relation.TransGen.tail' (fromStack x List.mem_cons_self) hy
    refine ih ?_ ?_ hb
    · intro y hy
      rcases (expand_stack _ _ _ _).mp hy with old | ⟨new, -⟩
      · exact fromStack y (List.mem_cons_of_mem _ old)
      · exact (reach y new).to_reflTransGen
    · intro y hy
      rcases (expand_found _ _ _ _).mp hy with old | new
      · exact fromFound y old
      · exact reach y new

/-- Every node but the waiting ones has all of its successors recorded. -/
private def Closed (succ : α → List α) (start : α) (stack found : List α) : Prop :=
  ∀ x, x = start ∨ x ∈ found → x ∈ stack ∨ ∀ y ∈ succ x, y ∈ found

private theorem Loop.closed {start : α} {stack found result : List α}
    (loop : Loop succ stack found result) (closed : Closed succ start stack found) :
    Closed succ start [] result := by
  induction loop with
  | done => exact closed
  | @turn x stack found result rest ih =>
    refine ih ?_
    intro z hz
    by_cases same : z = x
    · -- `x` itself is done: its successors were recorded in this turn
      right
      intro y hy
      exact (expand_found _ _ _ _).mpr (.inr (same ▸ hy))
    · have old : z = start ∨ z ∈ found → z ∈ stack ∨ ∀ y ∈ succ z, y ∈ found := by
        intro hz
        rcases closed z hz with waiting | done
        · exact .inl ((List.mem_cons.mp waiting).resolve_left same)
        · exact .inr done
      simp only [expand_stack, expand_found] at hz ⊢
      by_cases recorded : z = start ∨ z ∈ found
      · rcases old recorded with waiting | done
        · exact .inl (.inl waiting)
        · exact .inr fun y hy => .inl (done y hy)
      · -- a node recorded just now was pushed as well
        left
        right
        exact ⟨by tauto, by tauto⟩

theorem Loop.nodup {stack found result : List α} (loop : Loop succ stack found result)
    (distinct : found.Nodup) : result.Nodup := by
  induction loop with
  | done => exact distinct
  | turn rest ih => exact ih (expand_nodup distinct)

/-- **Termination**: each turn uses up a waiting node, and only a node of the universe that
    was not recorded yet is made to wait. -/
private theorem loop_walk {nodes : List α} (inside : ∀ x, ∀ y ∈ succ x, y ∈ nodes) {n : Nat}
    {stack found : List α} (distinct : found.Nodup) (bounded : ∀ x ∈ found, x ∈ nodes)
    (fuel : stack.length + nodes.length ≤ n + found.length) :
    Loop succ stack found (walk succ n stack found) := by
  induction n generalizing stack found with
  | zero =>
    -- out of fuel: the records already fill the universe, so nothing waits
    have room : found.length ≤ nodes.length := (distinct.subperm bounded).length_le
    have empty : stack = [] := List.eq_nil_of_length_eq_zero (by omega)
    subst empty
    exact .done
  | succ n ih =>
    cases stack with
    | nil => exact .done
    | cons x stack =>
      refine .turn (ih (expand_nodup distinct) ?_ ?_)
      · intro y hy
        rcases (expand_found _ _ _ _).mp hy with old | new
        · exact bounded y old
        · exact inside x y new
      · -- each pop takes a unit of fuel, each push records a node of the universe
        have := expand_length (succ x) stack found
        simp only [List.length_cons] at fuel
        omega

/-- **Exactness**: what the loop finds from one node on are the nodes at the end of one or
    more edges. -/
theorem Loop.mem_iff {start : α} {result : List α} (loop : Loop succ [start] [] result) (b : α) :
    b ∈ result ↔ Relation.TransGen (Edge succ) start b := by
  constructor
  · refine loop.sound ?_ (by simp)
    simp [Relation.ReflTransGen.refl]
  · intro path
    have closed : Closed succ start [] result := by
      refine loop.closed ?_
      rintro x (rfl | hx)
      · exact .inl List.mem_cons_self
      · cases hx
    -- along the path: the start and every node found have their successors found
    induction path with
    | single edge => exact (closed start (.inl rfl)).resolve_left (by simp) _ edge
    | tail _ edge ih => exact (closed _ (.inr ih)).resolve_left (by simp) _ edge

/-- Fuel for every node of the universe and the start is enough. -/
theorem walk_loops {nodes : List α} (inside : ∀ x, ∀ y ∈ succ x, y ∈ nodes) (start : α) :
    Loop succ [start] [] (walk succ (nodes.length + 1) [start] []) :=
  loop_walk inside List.nodup_nil (by simp) (by simp; omega)

end RustApi.Lib.Reach
