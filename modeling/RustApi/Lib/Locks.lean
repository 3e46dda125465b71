import Mathlib

/-!
# Who holds which lock

The locks that are taken, against what each process believes to hold: nobody believes to
hold a free lock, and no two processes believe to hold the same one.
-/

namespace RustApi.Lib

variable {α : Type}

/-- What the processes hold is taken, and held by one of them only. -/
structure Holding (locks : List α) (held : Nat → Option α) : Prop where
  taken : ∀ pid a, held pid = some a → a ∈ locks
  alone : ∀ pid q a, held pid = some a → held q = some a → pid = q

namespace Holding

variable {locks : List α} {held : Nat → Option α} {pid : Nat} {a : α}

theorem empty : Holding ([] : List α) fun _ => none :=
  ⟨fun _ _ bad => (nomatch bad), fun _ _ _ bad => (nomatch bad)⟩

/-- A process that holds `x` now, when the lock was free or its own. -/
theorem update (holding : Holding locks held) {locks' : List α} {x : Option α}
    (taken : ∀ b ∈ locks, (∃ q, q ≠ pid ∧ held q = some b) → b ∈ locks')
    (mine : ∀ b, x = some b → b ∈ locks' ∧ ∀ q, held q = some b → q = pid) :
    Holding locks' (Function.update held pid x) := by
  constructor
  · intro q b holds
    -- the process itself, or another one that was left alone
    by_cases same : q = pid
    · subst same
      rw [Function.update_self] at holds
      exact (mine b holds).1
    · rw [Function.update_of_ne same] at holds
      exact taken b (holding.taken q b holds) ⟨q, same, holds⟩
  · intro q q' b holds holds'
    by_cases same : q = pid
    · subst same
      rw [Function.update_self] at holds
      by_cases same' : q' = q
      · exact same'.symm
      · rw [Function.update_of_ne same'] at holds'
        exact ((mine b holds).2 q' holds').symm
    · rw [Function.update_of_ne same] at holds
      by_cases same' : q' = pid
      · subst same'
        rw [Function.update_self] at holds'
        exact (mine b holds').2 q holds
      · rw [Function.update_of_ne same'] at holds'
        exact holding.alone q q' b holds holds'

theorem lock (holding : Holding locks held) (free : a ∉ locks) :
    Holding (a :: locks) (Function.update held pid (some a)) := by
  refine holding.update (fun b mem _ => .tail _ mem) ?_
  rintro b ⟨⟩
  exact ⟨.head _, fun q holds => absurd (holding.taken q a holds) free⟩

theorem unlock [DecidableEq α] (holding : Holding locks held) (mine : held pid = some a) :
    Holding (locks.erase a) (Function.update held pid none) := by
  refine holding.update ?_ fun b bad => nomatch bad
  rintro b mem ⟨q, other, holds⟩
  -- what another process holds is not the lock that is given back
  have apart : b ≠ a := by
    rintro rfl
    exact other (holding.alone q pid b holds mine)
  exact (List.mem_erase_of_ne apart).mpr mem

/-- A process that was not there holds nothing. -/
theorem spawn (holding : Holding locks held) :
    Holding locks (Function.update held pid none) :=
  holding.update (fun _ mem _ => mem) fun _ bad => nomatch bad

end Holding

end RustApi.Lib
