import Mathlib

/-!
# Programs of atomic calls

A program is a tree of requests to a shared world. Each request is answered
either by a value or by an error, and the answer selects the rest of the
program. The world is not part of the tree, so one program text has several
meanings: a run on its own (`Prog.run`), a run in which one request fails
(`Prog.runFailing`), and a run interleaved with other programs.

## Main definitions

- `Prog`: programs over a signature of calls.
- `Prog.run`, `Prog.runFailing`: sequential execution, without and with a fault.
- `Prog.Passes`: the worlds in which a run can be broken off, and how it ends.
- `Prog.Conf`: every path of the program obeys a protocol, a labelled automaton
  that sees the calls and their answers.
- `Prog.Path`: what the program returns after given answers, in whatever world.
- `Prog.Only`: every call of the program is of one kind.
- `Prog.Among`: the program runs while others keep an invariant of the world.
-/

namespace RustApi.Lib

/-- Programs whose requests are drawn from `Call`; a request `c` is answered by
    an `Ans c` or by an error of type `E`. -/
inductive Prog {Call : Type} (Ans : Call → Type) (E α : Type) where
  | ret (result : Except E α)
  | call (c : Call) (next : Except E (Ans c) → Prog Ans E α)

namespace Prog

variable {Call : Type} {Ans : Call → Type} {E α β γ : Type}

/-- Sequencing. An error ends the program, as `?` does. -/
def bind : Prog Ans E α → (α → Prog Ans E β) → Prog Ans E β
  | .ret (.ok a), f => f a
  | .ret (.error e), _ => .ret (.error e)
  | .call c next, f => .call c fun r => (next r).bind f

instance : Monad (Prog Ans E) where
  pure a := .ret (.ok a)
  bind := Prog.bind

/-- Issue one request and return its answer. -/
def perform (c : Call) : Prog Ans E (Ans c) := .call c .ret

/-- End with an error. -/
def fail (e : E) : Prog Ans E α := .ret (.error e)

/-- Return a result that was computed without a request. -/
def lift (r : Except E α) : Prog Ans E α := .ret r

/-- Turn an error into a value, as a `match` on a `Result` does. -/
def attempt : Prog Ans E α → Prog Ans E (Except E α)
  | .ret r => .ret (.ok r)
  | .call c next => .call c fun r => (next r).attempt

/-! ### Sequential execution -/

section Run

variable {W : Type} (exec : (c : Call) → W → Except E (Ans c) × W)

/-- Run a program to its end with nothing else touching the world. -/
def run : Prog Ans E α → W → Except E α × W
  | .ret r, w => (r, w)
  | .call c next, w => (next (exec c w).1).run (exec c w).2

@[simp] theorem run_ret (r : Except E α) (w : W) :
    run exec (.ret r : Prog Ans E α) w = (r, w) := rfl

@[simp] theorem run_pure (a : α) (w : W) :
    run exec (pure a : Prog Ans E α) w = (.ok a, w) := rfl

@[simp] theorem run_fail (e : E) (w : W) :
    run exec (fail e : Prog Ans E α) w = (.error e, w) := rfl

@[simp] theorem run_lift (r : Except E α) (w : W) :
    run exec (lift r : Prog Ans E α) w = (r, w) := rfl

@[simp] theorem run_perform (c : Call) (w : W) :
    run exec (perform c : Prog Ans E (Ans c)) w = exec c w := rfl

theorem run_bind (p : Prog Ans E α) (f : α → Prog Ans E β) (w : W) :
    run exec (p >>= f) w =
      match run exec p w with
      | (.ok a, w') => run exec (f a) w'
      | (.error e, w') => (.error e, w') := by
  induction p generalizing w with
  | ret r => cases r <;> rfl
  | call c next ih => exact ih (exec c w).1 (exec c w).2

@[simp] theorem run_attempt (p : Prog Ans E α) (w : W) :
    run exec p.attempt w = (.ok (run exec p w).1, (run exec p w).2) := by
  induction p generalizing w with
  | ret r => rfl
  | call c next ih => exact ih (exec c w).1 (exec c w).2

/-- Peel the first half off a successful run. -/
theorem run_bind_ok {p : Prog Ans E α} {f : α → Prog Ans E β} {w w' : W} {b : β}
    (h : run exec (p >>= f) w = (.ok b, w')) :
    ∃ a w₁, run exec p w = (.ok a, w₁) ∧ run exec (f a) w₁ = (.ok b, w') := by
  rw [run_bind] at h
  split at h
  next a w₁ eq => exact ⟨a, w₁, eq, h⟩
  next e w₁ eq => simp at h

theorem run_bind_of_ok {p : Prog Ans E α} (f : α → Prog Ans E β) {w w₁ : W} {a : α}
    (h : run exec p w = (.ok a, w₁)) : run exec (p >>= f) w = run exec (f a) w₁ := by
  rw [run_bind, h]

/-- Run a program in which at most one request fails. With `some k` the next `k` requests
    that `mayFail` are answered and the one after them gets `fault` and leaves the world
    alone; with `none` no request fails. What is left of the countdown is returned. -/
def runFailing (mayFail : Call → Bool) (fault : E) :
    Prog Ans E α → Option Nat → W → Except E α × W × Option Nat
  | .ret r, k, w => (r, w, k)
  | .call c next, k, w =>
    match mayFail c, k with
    | true, some 0 => (next (.error fault)).runFailing mayFail fault none w
    | true, some (k + 1) =>
      (next (exec c w).1).runFailing mayFail fault (some k) (exec c w).2
    | _, k => (next (exec c w).1).runFailing mayFail fault k (exec c w).2

variable (mayFail : Call → Bool) (fault : E)

theorem runFailing_bind (p : Prog Ans E α) (f : α → Prog Ans E β) (k : Option Nat) (w : W) :
    runFailing exec mayFail fault (p >>= f) k w =
      match runFailing exec mayFail fault p k w with
      | (.ok a, w', k') => runFailing exec mayFail fault (f a) k' w'
      | (.error e, w', k') => (.error e, w', k') := by
  induction p generalizing k w with
  | ret r => cases r <;> rfl
  | call c next ih =>
    change runFailing exec mayFail fault (.call c fun r => (next r).bind f) k w = _
    simp only [runFailing]
    split
    · exact ih _ _ _
    · exact ih _ _ _
    · exact ih _ _ _

theorem runFailing_attempt (p : Prog Ans E α) (k : Option Nat) (w : W) :
    runFailing exec mayFail fault p.attempt k w =
      (.ok (runFailing exec mayFail fault p k w).1, (runFailing exec mayFail fault p k w).2) := by
  induction p generalizing k w with
  | ret r => rfl
  | call c next ih =>
    simp only [attempt, runFailing]
    split
    · exact ih _ _ _
    · exact ih _ _ _
    · exact ih _ _ _

/-- Without a fault this is the plain run. -/
theorem runFailing_none (p : Prog Ans E α) (w : W) :
    runFailing exec mayFail fault p none w =
      ((run exec p w).1, (run exec p w).2, none) := by
  induction p generalizing w with
  | ret r => rfl
  | call c next ih =>
    simp only [runFailing, run]
    cases mayFail c with
    | false => exact ih _ _
    | true => exact ih _ _

/-! ### Interrupted runs -/

/-- `w'` is the world of a run that was broken off before one of its requests. -/
def Cut : Prog Ans E α → W → W → Prop
  | .ret _, _, _ => False
  | .call c next, w, w' => w' = w ∨ (next (exec c w).1).Cut (exec c w).2 w'

theorem cut_bind {p : Prog Ans E α} {f : α → Prog Ans E β} {w w' : W}
    (cut : (p >>= f).Cut exec w w') :
    p.Cut exec w w' ∨ ∃ a w₁, run exec p w = (.ok a, w₁) ∧ (f a).Cut exec w₁ w' := by
  induction p generalizing w with
  | ret r =>
    cases r with
    | ok a => exact .inr ⟨a, w, rfl, cut⟩
    | error e => exact False.elim cut
  | call c next ih =>
    rcases cut with here | later
    · exact .inl (.inl here)
    · exact (ih _ later).imp .inr id

/-- Every failed request ends the program with an error, as `?` does everywhere. -/
def Strict : Prog Ans E α → Prop
  | .ret _ => True
  | .call _ next => (∀ e, ∃ e', next (.error e) = .ret (.error e')) ∧ ∀ a, (next (.ok a)).Strict

theorem strict_bind {p : Prog Ans E α} {f : α → Prog Ans E β} (first : p.Strict)
    (second : ∀ a, (f a).Strict) : (p >>= f).Strict := by
  induction p with
  | ret r =>
    cases r with
    | ok a => exact second a
    | error e => trivial
  | call c next ih =>
    refine ⟨fun e => ?_, fun a => ih _ (first.2 a)⟩
    obtain ⟨e', eq⟩ := first.1 e
    refine ⟨e', ?_⟩
    change (next (.error e)).bind f = _
    rw [eq]
    rfl

theorem strict_perform (c : Call) : (perform c : Prog Ans E (Ans c)).Strict :=
  ⟨fun e => ⟨e, rfl⟩, fun _ => trivial⟩

/-- A strict program in which a request failed was broken off there. -/
theorem cut_of_failing {p : Prog Ans E α} (strict : p.Strict) {k : Nat} {w w' : W}
    {r : Except E α} (failed : runFailing exec mayFail fault p (some k) w = (r, w', none)) :
    p.Cut exec w w' := by
  induction p generalizing k w with
  | ret r => cases failed
  | call c next ih =>
    simp only [runFailing] at failed
    split at failed
    next zero =>
      obtain ⟨e', eq⟩ := strict.1 fault
      rw [eq] at failed
      exact .inl (congrArg (·.2.1) failed).symm
    next _ j _ same =>
      -- The request was answered; had the answer been an error, no fault would have come.
      cases answer : (exec c w).1 with
      | ok a =>
        rw [answer] at failed
        refine .inr ?_
        rw [answer]
        exact ih _ (strict.2 a) failed
      | error e =>
        obtain ⟨e', eq⟩ := strict.1 e
        rw [answer, eq] at failed
        cases failed
    next _ _ _ =>
      cases answer : (exec c w).1 with
      | ok a =>
        rw [answer] at failed
        refine .inr ?_
        rw [answer]
        exact ih _ (strict.2 a) failed
      | error e =>
        obtain ⟨e', eq⟩ := strict.1 e
        rw [answer, eq] at failed
        cases failed

/-! ### Where a request may fail -/

/-- The worlds in which a run makes a request that `mayFail`, in order. -/
def points : Prog Ans E α → W → List W
  | .ret _, _ => []
  | .call c next, w =>
    if mayFail c then w :: (next (exec c w).1).points (exec c w).2
    else (next (exec c w).1).points (exec c w).2

theorem points_bind (p : Prog Ans E α) (f : α → Prog Ans E β) (w : W) :
    points exec mayFail (p >>= f) w = points exec mayFail p w ++
      match run exec p w with
      | (.ok a, w') => points exec mayFail (f a) w'
      | (.error _, _) => [] := by
  induction p generalizing w with
  | ret r => cases r <;> rfl
  | call c next ih =>
    have later := ih (exec c w).1 (exec c w).2
    change points exec mayFail (.call c fun r => (next r).bind f) w = _
    simp only [points, run]
    split
    · exact congrArg (w :: ·) later
    · exact later

/-- A strict program in which the request after `k` others fails ends in the world of that
    request; when it makes fewer requests, it ends where its run does. -/
theorem Strict.runFailing_world {p : Prog Ans E α} (strict : p.Strict) (k : Nat) (w : W) :
    (runFailing exec mayFail fault p (some k) w).2.1 =
      (points exec mayFail p w).getD k (run exec p w).2 := by
  induction p generalizing k w with
  | ret r => rfl
  | call c next ih =>
    -- Behind an answered request stands a strict program, behind an error nothing.
    have later : ∀ j w', (runFailing exec mayFail fault (next (exec c w).1) (some j) w').2.1 =
        (points exec mayFail (next (exec c w).1) w').getD j (run exec (next (exec c w).1) w').2 := by
      intro j w'
      cases answer : (exec c w).1 with
      | ok a => exact ih _ (strict.2 a) j w'
      | error e =>
        obtain ⟨e', ended⟩ := strict.1 e
        rw [ended]
        rfl
    simp only [runFailing, points, run]
    cases mayFail c with
    | false => exact later k _
    | true =>
      cases k with
      | zero =>
        obtain ⟨e', ended⟩ := strict.1 fault
        simp only [ended]
        rfl
      | succ k => exact later k _

/-- Alone, the program makes its requests that may fail in the worlds `ws` and ends with `r`
    in `w'`. -/
structure Passes (p : Prog Ans E α) (w : W) (ws : List W) (r : Except E α) (w' : W) : Prop where
  result : run exec p w = (r, w')
  points : points exec mayFail p w = ws

variable {exec mayFail}

theorem Passes.bind {p : Prog Ans E α} {f : α → Prog Ans E β} {w v w' : W} {l m : List W}
    {a : α} {r : Except E β} (first : p.Passes exec mayFail w l (.ok a) v)
    (rest : (f a).Passes exec mayFail v m r w') :
    (p >>= f).Passes exec mayFail w (l ++ m) r w' where
  result := by rw [run_bind, first.result]; exact rest.result
  points := by rw [points_bind, first.result, first.points]; exact congrArg (l ++ ·) rest.points

theorem Passes.bind_error {p : Prog Ans E α} (f : α → Prog Ans E β) {w w' : W} {ws : List W}
    {e : E} (first : p.Passes exec mayFail w ws (.error e) w') :
    (p >>= f).Passes exec mayFail w ws (.error e) w' where
  result := by rw [run_bind, first.result]
  points := by rw [points_bind, first.result, first.points]; exact List.append_nil ws

theorem Passes.ret (r : Except E α) (w : W) :
    (.ret r : Prog Ans E α).Passes exec mayFail w [] r w := ⟨rfl, rfl⟩

/-- One request that may fail. -/
theorem Passes.perform {c : Call} (may : mayFail c = true) {w w' : W} {r : Except E (Ans c)}
    (answer : exec c w = (r, w')) :
    (Prog.perform c : Prog Ans E (Ans c)).Passes exec mayFail w [w] r w' where
  result := answer
  points := by simp [Prog.perform, Prog.points, may]

/-- One request that does not fail. -/
theorem Passes.sure {c : Call} (may : mayFail c = false) {w w' : W} {r : Except E (Ans c)}
    (answer : exec c w = (r, w')) :
    (Prog.perform c : Prog Ans E (Ans c)).Passes exec mayFail w [] r w' where
  result := answer
  points := by simp [Prog.perform, Prog.points, may]

/-- A strict program ends, with or without a fault, in one of the worlds it passes. -/
theorem Passes.runFailing_world {p : Prog Ans E α} {w w' : W} {ws : List W} {r : Except E α}
    (passes : p.Passes exec mayFail w ws r w') (strict : p.Strict) (fault : E) (k : Nat) :
    (runFailing exec mayFail fault p (some k) w).2.1 = ws.getD k w' := by
  rw [strict.runFailing_world, passes.points, passes.result]

end Run

/-! ### Results -/

/-- The result of a program that has come to its end. -/
def result : Prog Ans E α → Option (Except E α)
  | .ret r => some r
  | .call .. => none

/-- Every path of the program, whatever is answered, ends in a result that satisfies `Q`. -/
def Returns (Q : Except E α → Prop) : Prog Ans E α → Prop
  | .ret r => Q r
  | .call _ next => ∀ r, (next r).Returns Q

theorem returns_of_forall {Q : Except E α → Prop} (all : ∀ r, Q r) (p : Prog Ans E α) :
    p.Returns Q := by
  induction p with
  | ret r => exact all r
  | call c next ih => exact fun r => ih r

theorem returns_bind {Q : Except E β → Prop} {p : Prog Ans E α} {f : α → Prog Ans E β}
    (failed : ∀ e, Q (.error e)) (rest : ∀ a, (f a).Returns Q) : (p >>= f).Returns Q := by
  induction p with
  | ret r =>
    cases r with
    | ok a => exact rest a
    | error e => exact failed e
  | call c next ih => exact fun r => ih r

/-- What every path ends in is also what a failing run ends in. -/
theorem Returns.runFailing {W : Type} {exec : (c : Call) → W → Except E (Ans c) × W}
    {mayFail : Call → Bool} {fault : E} {Q : Except E α → Prop} {p : Prog Ans E α}
    (returns : p.Returns Q) (k : Option Nat) (w : W) :
    Q (p.runFailing exec mayFail fault k w).1 := by
  induction p generalizing k w with
  | ret r => exact returns
  | call c next ih =>
    simp only [Prog.runFailing]
    split
    · exact ih _ (returns _) _ _
    · exact ih _ (returns _) _ _
    · exact ih _ (returns _) _ _

/-! ### Paths -/

/-- The program returns `r` once its requests have been answered by `events`. -/
inductive Path : Prog Ans E α → List ((c : Call) × Except E (Ans c)) → Except E α → Prop
  | ret (r : Except E α) : Path (.ret r) [] r
  | call {c : Call} {next : Except E (Ans c) → Prog Ans E α} {answer : Except E (Ans c)}
      {events : List ((c : Call) × Except E (Ans c))} {r : Except E α} :
      Path (next answer) events r → Path (.call c next) (⟨c, answer⟩ :: events) r

theorem Path.det {p : Prog Ans E α} {events : List ((c : Call) × Except E (Ans c))}
    {r r' : Except E α} (path : p.Path events r) (path' : p.Path events r') : r = r' := by
  induction path with
  | ret r => cases path'; rfl
  | call _ ih =>
    cases path' with
    | call later => exact ih later

/-- A value that is computed from the result of a program. -/
theorem path_bind_pure {p : Prog Ans E α} {f : α → β}
    {events : List ((c : Call) × Except E (Ans c))} {b : β} :
    (p >>= fun a => pure (f a)).Path events (.ok b) ↔ ∃ a, p.Path events (.ok a) ∧ b = f a := by
  induction p generalizing events with
  | ret r =>
    cases r with
    | ok a =>
      change (Prog.ret (.ok (f a))).Path events (.ok b) ↔ _
      constructor
      · intro path
        cases path
        exact ⟨a, .ret _, rfl⟩
      · rintro ⟨a', path, rfl⟩
        cases path
        exact .ret _
    | error e =>
      change (Prog.ret (.error e)).Path events (.ok b) ↔ _
      constructor
      · intro path
        cases path
      · rintro ⟨a', path, -⟩
        cases path
  | call c next ih =>
    change (Prog.call c fun r => next r >>= fun a => pure (f a)).Path events (.ok b) ↔ _
    constructor
    · intro path
      cases path with
      | call later =>
        obtain ⟨a, path, same⟩ := (ih _).mp later
        exact ⟨a, .call path, same⟩
    · rintro ⟨a, path, same⟩
      cases path with
      | call later => exact .call ((ih _).mpr ⟨a, later, same⟩)

/-! ### Conformance to a protocol -/

/-- A protocol observes the calls of one program. `allowed` says which call may
    come next, `possible` what may be answered and `track` how the observer's state
    moves with the answer. -/
structure Protocol {Call : Type} (Ans : Call → Type) (E : Type) where
  State : Type
  allowed : State → Call → Prop
  possible : (c : Call) → Except E (Ans c) → Prop
  track : State → (c : Call) → Except E (Ans c) → State

/-- Every path of the program only makes allowed calls, whatever possible answers it
    gets, and a path that returns does so in a state that satisfies `post`. -/
def Conf (P : Protocol Ans E) (post : P.State → Except E α → Prop) :
    Prog Ans E α → P.State → Prop
  | .ret r, s => post s r
  | .call c next, s => P.allowed s c ∧ ∀ r, P.possible c r → (next r).Conf P post (P.track s c r)

variable {P : Protocol Ans E}

@[simp] theorem conf_ret {post : P.State → Except E α → Prop} {s : P.State} (r : Except E α) :
    (.ret r : Prog Ans E α).Conf P post s ↔ post s r := Iff.rfl

@[simp] theorem conf_pure {post : P.State → Except E α → Prop} {s : P.State} (a : α) :
    (pure a : Prog Ans E α).Conf P post s ↔ post s (.ok a) := Iff.rfl

@[simp] theorem conf_fail {post : P.State → Except E α → Prop} {s : P.State} (e : E) :
    (fail e : Prog Ans E α).Conf P post s ↔ post s (.error e) := Iff.rfl

@[simp] theorem conf_lift {post : P.State → Except E α → Prop} {s : P.State} (r : Except E α) :
    (lift r : Prog Ans E α).Conf P post s ↔ post s r := Iff.rfl

@[simp] theorem conf_perform {c : Call} {post : P.State → Except E (Ans c) → Prop}
    {s : P.State} :
    (perform c : Prog Ans E (Ans c)).Conf P post s ↔
      P.allowed s c ∧ ∀ r, P.possible c r → post (P.track s c r) r := Iff.rfl

theorem conf_bind {post : P.State → Except E β → Prop} {s : P.State}
    {p : Prog Ans E α} {f : α → Prog Ans E β} :
    (p >>= f).Conf P post s ↔
      p.Conf P (fun s' r => match r with
        | .ok a => (f a).Conf P post s'
        | .error e => post s' (.error e)) s := by
  induction p generalizing s with
  | ret r => cases r <;> rfl
  | call c next ih =>
    constructor
    · exact fun h => ⟨h.1, fun r hr => ih r |>.mp (h.2 r hr)⟩
    · exact fun h => ⟨h.1, fun r hr => ih r |>.mpr (h.2 r hr)⟩

/-- A call and what follows it, which an error of the call skips. -/
theorem conf_seq {c : Call} {f : Ans c → Prog Ans E β} {post : P.State → Except E β → Prop}
    {s : P.State} (allowed : P.allowed s c) (failed : ∀ e, post (P.track s c (.error e)) (.error e))
    (rest : ∀ a, (f a).Conf P post (P.track s c (.ok a))) : (perform c >>= f).Conf P post s := by
  refine conf_bind.mpr ⟨allowed, fun r _ => ?_⟩
  cases r with
  | ok a => exact rest a
  | error e => exact failed e

theorem conf_attempt {post : P.State → Except E (Except E α) → Prop} {s : P.State}
    {p : Prog Ans E α} :
    p.attempt.Conf P post s ↔ p.Conf P (fun s' r => post s' (.ok r)) s := by
  induction p generalizing s with
  | ret r => rfl
  | call c next ih =>
    constructor
    · exact fun h => ⟨h.1, fun r hr => ih r |>.mp (h.2 r hr)⟩
    · exact fun h => ⟨h.1, fun r hr => ih r |>.mpr (h.2 r hr)⟩

theorem Conf.mono {post post' : P.State → Except E α → Prop} {p : Prog Ans E α} {s : P.State}
    (h : p.Conf P post s) (imp : ∀ s r, post s r → post' s r) : p.Conf P post' s := by
  induction p generalizing s with
  | ret r => exact imp s r h
  | call c next ih => exact ⟨h.1, fun r hr => ih r (h.2 r hr)⟩

/-! ### Programs that a protocol does not notice -/

/-- Every call the program can make satisfies `Q`. -/
def Only (Q : Call → Prop) : Prog Ans E α → Prop
  | .ret _ => True
  | .call c next => Q c ∧ ∀ r, (next r).Only Q

theorem Only.mono {Q R : Call → Prop} {p : Prog Ans E α} (only : p.Only Q)
    (imp : ∀ c, Q c → R c) : p.Only R := by
  induction p with
  | ret r => trivial
  | call c next ih => exact ⟨imp c only.1, fun r => ih r (only.2 r)⟩

theorem only_bind {Q : Call → Prop} {p : Prog Ans E α} {f : α → Prog Ans E β} (first : p.Only Q)
    (rest : ∀ a, (f a).Only Q) : (p >>= f).Only Q := by
  induction p with
  | ret r =>
    cases r with
    | ok a => exact rest a
    | error e => trivial
  | call c next ih => exact ⟨first.1, fun r => ih r (first.2 r)⟩

theorem only_attempt {Q : Call → Prop} {p : Prog Ans E α} (only : p.Only Q) :
    p.attempt.Only Q := by
  induction p with
  | ret r => trivial
  | call c next ih => exact ⟨only.1, fun r => ih r (only.2 r)⟩

/-- What every call of a program keeps, the program keeps. -/
theorem Only.run {W : Type} {exec : (c : Call) → W → Except E (Ans c) × W} {Q : Call → Prop}
    {I : W → Prop} {p : Prog Ans E α} (only : p.Only Q) {w : W} (start : I w)
    (keeps : ∀ c w, Q c → I w → I (exec c w).2) : I (p.run exec w).2 := by
  induction p generalizing w with
  | ret r => exact start
  | call c next ih => exact ih _ (only.2 _) (keeps c w only.1 start)

/-- So it is when a call fails, since that leaves the world alone. -/
theorem Only.runFailing {W : Type} {exec : (c : Call) → W → Except E (Ans c) × W}
    {mayFail : Call → Bool} {fault : E} {Q : Call → Prop} {I : W → Prop} {p : Prog Ans E α}
    (only : p.Only Q) {k : Option Nat} {w : W} (start : I w)
    (keeps : ∀ c w, Q c → I w → I (exec c w).2) :
    I (p.runFailing exec mayFail fault k w).2.1 := by
  induction p generalizing k w with
  | ret r => exact start
  | call c next ih =>
    simp only [Prog.runFailing]
    split
    · exact ih _ (only.2 _) start
    · exact ih _ (only.2 _) (keeps c w only.1 start)
    · exact ih _ (only.2 _) (keeps c w only.1 start)

/-- Calls that leave the observer where it is carry its state through a program. -/
theorem Only.conf {Q : Call → Prop} {p : Prog Ans E α} (only : p.Only Q) {s : P.State}
    (quiet : ∀ c, Q c → P.allowed s c ∧ ∀ r, P.track s c r = s) :
    p.Conf P (fun s' _ => s' = s) s := by
  induction p with
  | ret r => rfl
  | call c next ih =>
    obtain ⟨ok, still⟩ := quiet c only.1
    exact ⟨ok, fun r _ => (still r).symm ▸ ih r (only.2 r)⟩

/-- Such a program may stand before any other. -/
theorem Only.conf_bind {Q : Call → Prop} {post : P.State → Except E β → Prop}
    {p : Prog Ans E α} {f : α → Prog Ans E β} (only : p.Only Q) {s : P.State}
    (quiet : ∀ c, Q c → P.allowed s c ∧ ∀ r, P.track s c r = s)
    (failed : ∀ e, post s (.error e)) (rest : ∀ a, (f a).Conf P post s) :
    (p >>= f).Conf P post s := by
  refine Prog.conf_bind.mpr ((only.conf quiet).mono fun s' r same => ?_)
  subst same
  cases r with
  | ok a => exact rest a
  | error e => exact failed e

/-! ### Runs among others -/

section Among

variable {W : Type} (exec : (c : Call) → W → Except E (Ans c) × W) (I : W → Prop)

/-- The program returns `r` when each of its requests fails, or is answered in some world with
    `I`: between them others may change the world as they like, so long as they keep `I`. -/
inductive Among : Prog Ans E α → Except E α → Prop
  | ret (r : Except E α) : Among (.ret r) r
  | answered {c : Call} {next : Except E (Ans c) → Prog Ans E α} {r : Except E α} (w : W) :
      I w → Among (next (exec c w).1) r → Among (.call c next) r
  | failed {c : Call} {next : Except E (Ans c) → Prog Ans E α} {r : Except E α} (e : E) :
      Among (next (.error e)) r → Among (.call c next) r

variable {exec I}

theorem Among.bind_ok {p : Prog Ans E α} {f : α → Prog Ans E β} {b : β}
    (run : Among exec I (p >>= f) (.ok b)) :
    ∃ a, Among exec I p (.ok a) ∧ Among exec I (f a) (.ok b) := by
  induction p with
  | ret r =>
    cases r with
    | ok a => exact ⟨a, .ret _, run⟩
    | error e => cases run
  | call c next ih =>
    change Among exec I (.call c fun r => next r >>= f) _ at run
    cases run with
    | answered w inside later =>
      obtain ⟨a, first, rest⟩ := ih _ later
      exact ⟨a, .answered w inside first, rest⟩
    | failed e later =>
      obtain ⟨a, first, rest⟩ := ih _ later
      exact ⟨a, .failed e first, rest⟩

/-- A request that was answered was answered in a world with `I`. -/
theorem Among.perform_ok {c : Call} {a : Ans c}
    (run : Among exec I (perform c : Prog Ans E (Ans c)) (.ok a)) :
    ∃ w, I w ∧ (exec c w).1 = .ok a := by
  cases run with
  | answered w inside later =>
    refine ⟨w, inside, ?_⟩
    generalize (exec c w).1 = r at later
    cases later
    rfl
  | failed e later => cases later

/-- A run alone is a run among others who wait. -/
theorem Only.among {Q : Call → Prop} {p : Prog Ans E α} (only : p.Only Q) {w : W} (start : I w)
    (keeps : ∀ c w, Q c → I w → I (exec c w).2) : Among exec I p (p.run exec w).1 := by
  induction p generalizing w with
  | ret r => exact .ret r
  | call c next ih => exact .answered w start (ih _ (only.2 _) (keeps c w only.1 start))

end Among

/-! ### Two signatures -/

section Sum

variable {Call' : Type} {Ans' : Call' → Type} {W : Type} {I : W → Prop}

/-- A program with the requests of the first of two signatures. -/
def inl : Prog Ans E α → Prog (Sum.elim Ans Ans') E α
  | .ret r => .ret r
  | .call c next => .call (.inl c) fun r => (next r).inl

/-- The answers to the requests of two signatures. -/
def execSum (exec : (c : Call) → W → Except E (Ans c) × W)
    (exec' : (c : Call') → W → Except E (Ans' c) × W) :
    (c : Call ⊕ Call') → W → Except E (Sum.elim Ans Ans' c) × W
  | .inl c => exec c
  | .inr c => exec' c

variable (exec : (c : Call) → W → Except E (Ans c) × W)
  (exec' : (c : Call') → W → Except E (Ans' c) × W)

@[simp] theorem run_inl (p : Prog Ans E α) (w : W) :
    (p.inl : Prog (Sum.elim Ans Ans') E α).run (execSum exec exec') w = p.run exec w := by
  induction p generalizing w with
  | ret r => rfl
  | call c next ih => exact ih _ _

theorem Only.inl {Q : Call → Prop} {Q' : Call' → Prop} {p : Prog Ans E α} (only : p.Only Q) :
    (p.inl : Prog (Sum.elim Ans Ans') E α).Only (Sum.elim Q Q') := by
  induction p with
  | ret r => trivial
  | call c next ih => exact ⟨only.1, fun r => ih r (only.2 r)⟩

theorem Among.of_inl {p : Prog Ans E α} {r : Except E α}
    (run : Among (execSum exec exec') I (p.inl : Prog (Sum.elim Ans Ans') E α) r) :
    Among exec I p r := by
  induction p with
  | ret r' =>
    cases run
    exact .ret _
  | call c next ih =>
    change Among _ I (.call (.inl c) fun r => (next r).inl) r at run
    cases run with
    | answered w inside later => exact .answered w inside (ih _ later)
    | failed e later => exact .failed e (ih _ later)

end Sum

end Prog

end RustApi.Lib
