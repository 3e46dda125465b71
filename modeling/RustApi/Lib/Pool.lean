import RustApi.Lib.Prog

/-!
# Interleaved execution

A pool is a world shared by any number of processes. A step starts a process,
lets one process make its next call (which may fail), drops a process where it
waits, or lets the environment move the world. Every interleaving of the
individual calls is a run.

## Main result

`System.invariant_of_trace`: when every program obeys a protocol and each allowed
call keeps an invariant of the world and of the observed protocol states, the
invariant holds in every state of every run. The programs are used only through
their conformance, so a change to one of them concerns one conformance lemma.
-/

namespace RustApi.Lib

variable {Call : Type} {Ans : Call → Type} {E W Op : Type}

/-- One call that a process made, with its answer. -/
abbrev Event (Ans : Call → Type) (E : Type) : Type := (c : Call) × Except E (Ans c)

/-- A process: what it runs, the calls it has made so far, and what is left. -/
structure Proc (Ans : Call → Type) (E Op : Type) where
  op : Op
  past : List (Event Ans E)
  rest : Prog Ans E Unit

structure Pool (Ans : Call → Type) (E W Op : Type) where
  world : W
  procs : Nat → Option (Proc Ans E Op)

/-- What a step did. -/
inductive Label (Call E Op : Type) where
  | spawn (pid : Nat) (op : Op)
  | call (pid : Nat) (c : Call) (fault : Option E)
  | drop (pid : Nat)
  | env
  deriving DecidableEq

/-- A world with its calls, the programs that may be started on it and the moves
    of the environment. A call that is not `enabled` waits; a call that `mayFail`
    can answer an error without any effect. A process that `mayDrop` can end at any of
    its calls, and `drop` is what its destructors then do. -/
structure System (Ans : Call → Type) (E W Op : Type) where
  exec : (c : Call) → W → Except E (Ans c) × W
  enabled : Call → W → Prop
  mayFail : Call → E → Prop
  mayDrop : Op → Prop
  drop : Op → List (Event Ans E) → W → W
  env : W → W → Prop
  prog : Op → Prog Ans E Unit

namespace System

variable (sys : System Ans E W Op)

inductive Step : Pool Ans E W Op → Label Call E Op → Pool Ans E W Op → Prop where
  | spawn {s pid op} (free : s.procs pid = none) :
      Step s (.spawn pid op)
        { s with procs := Function.update s.procs pid (some ⟨op, [], sys.prog op⟩) }
  | call {s pid op past c next} (at_call : s.procs pid = some ⟨op, past, .call c next⟩)
      (enabled : sys.enabled c s.world) :
      Step s (.call pid c none)
        ⟨(sys.exec c s.world).2,
          Function.update s.procs pid (some ⟨op, past ++ [⟨c, (sys.exec c s.world).1⟩],
            next (sys.exec c s.world).1⟩)⟩
  | fault {s pid op past c next e} (at_call : s.procs pid = some ⟨op, past, .call c next⟩)
      (mayFail : sys.mayFail c e) :
      Step s (.call pid c (some e))
        ⟨s.world, Function.update s.procs pid
          (some ⟨op, past ++ [⟨c, .error e⟩], next (.error e)⟩)⟩
  | drop {s pid op past c next} (at_call : s.procs pid = some ⟨op, past, .call c next⟩)
      (mayDrop : sys.mayDrop op) :
      Step s (.drop pid) ⟨sys.drop op past s.world, Function.update s.procs pid none⟩
  | env {s w} (move : sys.env s.world w) : Step s .env { s with world := w }

/-- Runs, with what their steps did. Every step meets `cond`, a condition on the state
    before the step and on what the step does. -/
inductive Trace (cond : Pool Ans E W Op → Label Call E Op → Prop) (s : Pool Ans E W Op) :
    List (Label Call E Op) → Pool Ans E W Op → Prop where
  | nil : Trace cond s [] s
  | snoc {h t l u} (run : Trace cond s h t) (met : cond t l) (step : sys.Step t l u) :
      Trace cond s (h ++ [l]) u

/-! ### Scheduled runs -/

/-- One decision of a scheduler. -/
inductive Move (E Op : Type) where
  | spawn (pid : Nat) (op : Op)
  | call (pid : Nat)
  | fault (pid : Nat) (e : E)
  | drop (pid : Nat)
  | env (n : Nat)

/-- How to decide what a run needs of its steps; `tick` is a move of the environment. -/
structure Scheduler (sys : System Ans E W Op)
    (cond : Pool Ans E W Op → Label Call E Op → Prop) where
  enabled : Call → W → Bool
  mayFail : Call → E → Bool
  mayDrop : Op → Bool
  tick : Nat → W → W
  check : Pool Ans E W Op → Label Call E Op → Bool
  enabled_sound : ∀ c w, enabled c w = true → sys.enabled c w
  mayFail_sound : ∀ c e, mayFail c e = true → sys.mayFail c e
  mayDrop_sound : ∀ op, mayDrop op = true → sys.mayDrop op
  tick_sound : ∀ n w, sys.env w (tick n w)
  check_sound : ∀ s l, check s l = true → cond s l

variable {sys} {cond : Pool Ans E W Op → Label Call E Op → Prop}

/-- One scheduled step, when it can be taken. -/
def Scheduler.move (d : sys.Scheduler cond) (s : Pool Ans E W Op) :
    Move E Op → Option (Label Call E Op × Pool Ans E W Op)
  | .spawn pid op =>
    match s.procs pid with
    | none => some (.spawn pid op,
        { s with procs := Function.update s.procs pid (some ⟨op, [], sys.prog op⟩) })
    | some _ => none
  | .call pid =>
    match s.procs pid with
    | some ⟨op, past, .call c next⟩ =>
      if d.enabled c s.world then
        some (.call pid c none, ⟨(sys.exec c s.world).2,
          Function.update s.procs pid (some ⟨op, past ++ [⟨c, (sys.exec c s.world).1⟩],
            next (sys.exec c s.world).1⟩)⟩)
      else none
    | _ => none
  | .fault pid e =>
    match s.procs pid with
    | some ⟨op, past, .call c next⟩ =>
      if d.mayFail c e then
        some (.call pid c (some e), ⟨s.world, Function.update s.procs pid
          (some ⟨op, past ++ [⟨c, .error e⟩], next (.error e)⟩)⟩)
      else none
    | _ => none
  | .drop pid =>
    match s.procs pid with
    | some ⟨op, past, .call _ _⟩ =>
      if d.mayDrop op then
        some (.drop pid, ⟨sys.drop op past s.world, Function.update s.procs pid none⟩)
      else none
    | _ => none
  | .env n => some (.env, { s with world := d.tick n s.world })

theorem Scheduler.step_of_move {d : sys.Scheduler cond} {s t : Pool Ans E W Op} {m : Move E Op}
    {l : Label Call E Op} (moved : d.move s m = some (l, t)) : sys.Step s l t := by
  cases m with
  | spawn pid op =>
    simp only [move] at moved
    split at moved
    next free =>
      cases moved
      exact .spawn free
    next => cases moved
  | call pid =>
    simp only [move] at moved
    split at moved
    next op past c next at_call =>
      split at moved
      next enabled =>
        cases moved
        exact .call at_call (d.enabled_sound c _ enabled)
      next => cases moved
    next => cases moved
  | fault pid e =>
    simp only [move] at moved
    split at moved
    next op past c next at_call =>
      split at moved
      next mayFail =>
        cases moved
        exact .fault at_call (d.mayFail_sound c e mayFail)
      next => cases moved
    next => cases moved
  | drop pid =>
    simp only [move] at moved
    split at moved
    next op past c next at_call =>
      split at moved
      next mayDrop =>
        cases moved
        exact .drop at_call (d.mayDrop_sound op mayDrop)
      next => cases moved
    next => cases moved
  | env n =>
    cases moved
    exact .env (d.tick_sound n _)

/-- Follow a schedule from a state that was reached by the steps `h`. -/
def Scheduler.play (d : sys.Scheduler cond) :
    List (Move E Op) → List (Label Call E Op) → Pool Ans E W Op →
      Option (List (Label Call E Op) × Pool Ans E W Op)
  | [], h, s => some (h, s)
  | m :: ms, h, s =>
    match d.move s m with
    | some (l, t) => if d.check s l then d.play ms (h ++ [l]) t else none
    | none => none

private theorem Scheduler.trace_play {d : sys.Scheduler cond} {ms : List (Move E Op)}
    {h h' : List (Label Call E Op)} {s t u : Pool Ans E W Op} (run : sys.Trace cond s h t)
    (played : d.play ms h t = some (h', u)) : sys.Trace cond s h' u := by
  induction ms generalizing h t with
  | nil =>
    cases played
    exact run
  | cons m ms ih =>
    simp only [play] at played
    split at played
    next l v moved =>
      split at played
      next ok => exact ih (run.snoc (d.check_sound t l ok) (step_of_move moved)) played
      next => cases played
    next => cases played

/-- A schedule that can be followed is a run. -/
theorem Scheduler.trace_of_play (d : sys.Scheduler cond) (ms : List (Move E Op))
    (s : Pool Ans E W Op) (played : (d.play ms [] s).isSome = true) :
    sys.Trace cond s ((d.play ms [] s).get played).1 ((d.play ms [] s).get played).2 :=
  trace_play .nil (Option.some_get played).symm

/-! ### Runs of some processes -/

/-- Only the processes `pids` are started, and the step meets `cond` if there are no others. -/
def Confined (pids : List Nat) (cond : Pool Ans E W Op → Label Call E Op → Prop)
    (s : Pool Ans E W Op) (l : Label Call E Op) : Prop :=
  (∀ pid op, l = .spawn pid op → pid ∈ pids) ∧
    ((∀ pid, pid ∉ pids → s.procs pid = none) → cond s l)

private theorem Step.idle {s t : Pool Ans E W Op} {l : Label Call E Op} (step : sys.Step s l t)
    {pid : Nat} (idle : s.procs pid = none) (other : ∀ op, l ≠ .spawn pid op) :
    t.procs pid = none := by
  have stay : ∀ q p, q ≠ pid → Function.update s.procs q p pid = none := fun q p apart => by
    rw [Function.update_of_ne (Ne.symm apart), idle]
  have moved : ∀ {q p}, s.procs q = some p → q ≠ pid := by
    rintro q p there rfl
    rw [idle] at there
    cases there
  cases step with
  | @spawn q op free =>
    refine stay q _ ?_
    rintro rfl
    exact other op rfl
  | call at_call _ => exact stay _ _ (moved at_call)
  | fault at_call _ => exact stay _ _ (moved at_call)
  | drop at_call _ => exact stay _ _ (moved at_call)
  | env _ => exact idle

/-- A run of some processes, in a pool that holds no others. -/
theorem Trace.of_confined {pids : List Nat} {s t : Pool Ans E W Op} {h : List (Label Call E Op)}
    (run : sys.Trace (Confined pids cond) s h t)
    (outside : ∀ pid, pid ∉ pids → s.procs pid = none) :
    sys.Trace cond s h t ∧ ∀ pid, pid ∉ pids → t.procs pid = none := by
  induction run with
  | nil => exact ⟨.nil, outside⟩
  | snoc _ met step ih =>
    refine ⟨ih.1.snoc (met.2 ih.2) step, fun pid away => step.idle (ih.2 pid away) ?_⟩
    rintro op rfl
    exact away (met.1 pid op rfl)

end System

/-- What a table holds after one of its rows was set. -/
theorem update_eq_some {α β : Type} [DecidableEq α] {f : α → Option β} {a b : α} {x y : β} :
    Function.update f a (some x) b = some y ↔ b = a ∧ x = y ∨ b ≠ a ∧ f b = some y := by
  by_cases same : b = a
  · subst same
    simp
  · simp [same]

/-- What is still in a table after one of its rows was cleared was there before. -/
theorem of_update_none {α β : Type} [DecidableEq α] {f : α → Option β} {a b : α} {y : β}
    (found : Function.update f a none b = some y) : f b = some y := by
  by_cases same : b = a
  · subst same
    simp at found
  · rwa [Function.update_of_ne same] at found

/-- A row that is set where there was none leaves the others. -/
theorem update_fresh {α β : Type} [DecidableEq α] {f : α → Option β} {a b : α} {x y : β}
    (free : f a = none) (there : f b = some y) : Function.update f a (some x) b = some y := by
  refine update_eq_some.mpr (.inr ⟨?_, there⟩)
  rintro rfl
  cases free.symm.trans there

/-- Rows that own a key stand alone: no key has two owners, also after a row was set that
    owns none of the others' keys. -/
theorem single_update {α β κ : Type} [DecidableEq α] {K : β → κ → Prop} {f : α → Option β}
    {a : α} {x : β}
    (single : ∀ b c y z k, f b = some y → f c = some z → K y k → K z k → b = c)
    (new : ∀ b y k, b ≠ a → f b = some y → K x k → ¬ K y k) {b c : α} {y z : β} {k : κ}
    (first : Function.update f a (some x) b = some y)
    (second : Function.update f a (some x) c = some z) (mine : K y k) (other : K z k) :
    b = c := by
  rcases update_eq_some.mp first with ⟨rfl, rfl⟩ | ⟨apart, here⟩
  · rcases update_eq_some.mp second with ⟨rfl, -⟩ | ⟨apart, there⟩
    · rfl
    · exact absurd other (new c z k apart there mine)
  · rcases update_eq_some.mp second with ⟨rfl, rfl⟩ | ⟨-, there⟩
    · exact absurd mine (new b y k apart here other)
    · exact single b c y z k here there mine other

/-! ### Protocol states of a pool -/

namespace Prog.Protocol

variable (P : Prog.Protocol Ans E)

/-- The state a protocol reaches over the past of a process. -/
def observe (start : P.State) (past : List (Event Ans E)) : P.State :=
  past.foldl (fun st e => P.track st e.1 e.2) start

@[simp] theorem observe_nil (start : P.State) : P.observe start [] = start := rfl

@[simp] theorem observe_concat (start : P.State) (past : List (Event Ans E)) (e : Event Ans E) :
    P.observe start (past ++ [e]) = P.track (P.observe start past) e.1 e.2 := by
  simp [observe]

/-- The protocol states of all processes, with what each of them runs. -/
def view (start : Op → P.State) (s : Pool Ans E W Op) (pid : Nat) : Option (Op × P.State) :=
  (s.procs pid).map fun p => (p.op, P.observe (start p.op) p.past)

theorem view_eq_some {start : Op → P.State} {s : Pool Ans E W Op} {pid : Nat} {op : Op}
    {st : P.State} : P.view start s pid = some (op, st) ↔
      ∃ p, s.procs pid = some p ∧ p.op = op ∧ P.observe (start p.op) p.past = st := by
  simp [view]

theorem view_eq_none {start : Op → P.State} {s : Pool Ans E W Op} {pid : Nat} :
    P.view start s pid = none ↔ s.procs pid = none := by
  simp [view]

theorem view_update (start : Op → P.State) (s : Pool Ans E W Op) (w : W) (pid : Nat)
    (p : Proc Ans E Op) :
    P.view start ⟨w, Function.update s.procs pid (some p)⟩ =
      Function.update (P.view start s) pid (some (p.op, P.observe (start p.op) p.past)) := by
  funext other
  by_cases same : other = pid
  · subst same
    simp [view]
  · simp [view, same]

theorem view_erase (start : Op → P.State) (s : Pool Ans E W Op) (w : W) (pid : Nat) :
    P.view start ⟨w, Function.update s.procs pid none⟩ =
      Function.update (P.view start s) pid none := by
  funext other
  by_cases same : other = pid
  · subst same
    simp [view]
  · simp [view, same]

/-- Every process of the pool still obeys the protocol. -/
def Obeyed (start : Op → P.State) (post : Op → P.State → Except E Unit → Prop)
    (s : Pool Ans E W Op) : Prop :=
  ∀ pid p, s.procs pid = some p → p.rest.Conf P (post p.op) (P.observe (start p.op) p.past)

theorem Obeyed.update {start : Op → P.State} {post : Op → P.State → Except E Unit → Prop}
    {s : Pool Ans E W Op} (h : P.Obeyed start post s) (w : W) (pid : Nat) (p : Proc Ans E Op)
    (hp : p.rest.Conf P (post p.op) (P.observe (start p.op) p.past)) :
    P.Obeyed start post ⟨w, Function.update s.procs pid (some p)⟩ := by
  intro other q hq
  by_cases same : other = pid
  · subst same
    simp only [Function.update_self, Option.some.injEq] at hq
    subst hq
    exact hp
  · simp only [Function.update_of_ne same] at hq
    exact h other q hq

theorem Obeyed.erase {start : Op → P.State} {post : Op → P.State → Except E Unit → Prop}
    {s : Pool Ans E W Op} (h : P.Obeyed start post s) (w : W) (pid : Nat) :
    P.Obeyed start post ⟨w, Function.update s.procs pid none⟩ := by
  intro other q hq
  by_cases same : other = pid
  · subst same
    simp at hq
  · simp only [Function.update_of_ne same] at hq
    exact h other q hq

end Prog.Protocol

/-! ### The invariant rule -/

namespace System

variable {sys : System Ans E W Op}

theorem Trace.append {cond : Pool Ans E W Op → Label Call E Op → Prop} {s t u : Pool Ans E W Op}
    {h h' : List (Label Call E Op)} (first : sys.Trace cond s h t) (rest : sys.Trace cond t h' u) :
    sys.Trace cond s (h ++ h') u := by
  -- on the second run, which ends where the whole one does
  induction rest with
  | nil => rwa [List.append_nil]
  | snoc _ met step ih =>
    rw [← List.append_assoc]
    exact ih.snoc met step

/-- What holds in every state of the runs may be assumed of the state before each step. -/
theorem Trace.assume {cond : Pool Ans E W Op → Label Call E Op → Prop}
    {I : Pool Ans E W Op → Prop} {s t : Pool Ans E W Op} {h : List (Label Call E Op)}
    (known : ∀ h t, sys.Trace cond s h t → I t) (run : sys.Trace cond s h t) :
    sys.Trace (fun u l => cond u l ∧ I u) s h t := by
  induction run with
  | nil => exact .nil
  | snoc run met step ih => exact ih.snoc ⟨met, known _ _ run⟩ step

/-- What has to be shown of an invariant `I` of the steps made so far, of the world and
    of the observed protocol states: it survives a start, a drop, a move of the
    environment, and every allowed call with either kind of answer. -/
structure Preserves (sys : System Ans E W Op) (P : Prog.Protocol Ans E)
    (start : Op → P.State) (cond : Pool Ans E W Op → Label Call E Op → Prop)
    (I : List (Label Call E Op) → W → (Nat → Option (Op × P.State)) → Prop) : Prop where
  answers : ∀ c w, P.possible c (sys.exec c w).1
  faults : ∀ c e, sys.mayFail c e → P.possible c (.error e)
  spawn : ∀ h s pid op, cond s (.spawn pid op) → s.procs pid = none →
    I h s.world (P.view start s) →
    I (h ++ [.spawn pid op]) s.world (Function.update (P.view start s) pid (some (op, start op)))
  env : ∀ h s w, cond s .env → sys.env s.world w → I h s.world (P.view start s) →
    I (h ++ [.env]) w (P.view start s)
  call : ∀ h s pid op st c, cond s (.call pid c none) → P.view start s pid = some (op, st) →
    P.allowed st c → sys.enabled c s.world → I h s.world (P.view start s) →
    I (h ++ [.call pid c none]) (sys.exec c s.world).2
      (Function.update (P.view start s) pid (some (op, P.track st c (sys.exec c s.world).1)))
  fault : ∀ h s pid op st c e, cond s (.call pid c (some e)) →
    P.view start s pid = some (op, st) →
    P.allowed st c → sys.mayFail c e → I h s.world (P.view start s) →
    I (h ++ [.call pid c (some e)]) s.world
      (Function.update (P.view start s) pid (some (op, P.track st c (.error e))))
  drop : ∀ h s pid op past, cond s (.drop pid) →
    P.view start s pid = some (op, P.observe (start op) past) → sys.mayDrop op →
    I h s.world (P.view start s) →
    I (h ++ [.drop pid]) (sys.drop op past s.world) (Function.update (P.view start s) pid none)

private theorem step_invariant {P : Prog.Protocol Ans E} {start : Op → P.State}
    {post : Op → P.State → Except E Unit → Prop}
    {cond : Pool Ans E W Op → Label Call E Op → Prop}
    {I : List (Label Call E Op) → W → (Nat → Option (Op × P.State)) → Prop}
    (keeps : sys.Preserves P start cond I) {h : List (Label Call E Op)}
    {s t : Pool Ans E W Op} {l : Label Call E Op} (step : sys.Step s l t)
    (conforms : ∀ pid op, l = .spawn pid op → (sys.prog op).Conf P (post op) (start op))
    (met : cond s l) (obeyed : P.Obeyed start post s) (inv : I h s.world (P.view start s)) :
    P.Obeyed start post t ∧ I (h ++ [l]) t.world (P.view start t) := by
  cases step with
  | @spawn pid op free =>
    refine ⟨obeyed.update P _ pid _ (conforms pid op rfl), ?_⟩
    rw [P.view_update]
    exact keeps.spawn h s pid op met free inv
  -- the process moves to what its program does with this answer
  | @call pid op past c next at_call enabled =>
    have here := obeyed pid _ at_call
    have seen : P.view start s pid = some (op, P.observe (start op) past) := by
      simp [Prog.Protocol.view, at_call]
    refine ⟨obeyed.update P _ pid _ ?_, ?_⟩
    · rw [P.observe_concat]
      exact here.2 _ (keeps.answers c s.world)
    · rw [P.view_update, P.observe_concat]
      exact keeps.call h s pid op _ c met seen here.1 enabled inv
  -- the world stays, the process goes on with the error
  | @fault pid op past c next e at_call mayFail =>
    have here := obeyed pid _ at_call
    have seen : P.view start s pid = some (op, P.observe (start op) past) := by
      simp [Prog.Protocol.view, at_call]
    refine ⟨obeyed.update P _ pid _ ?_, ?_⟩
    · rw [P.observe_concat]
      exact here.2 _ (keeps.faults c e mayFail)
    · rw [P.view_update, P.observe_concat]
      exact keeps.fault h s pid op _ c e met seen here.1 mayFail inv
  | @drop pid op past c next at_call mayDrop =>
    have seen : P.view start s pid = some (op, P.observe (start op) past) := by
      simp [Prog.Protocol.view, at_call]
    refine ⟨obeyed.erase P _ pid, ?_⟩
    rw [P.view_erase]
    exact keeps.drop h s pid op past met seen mayDrop inv
  | env move => exact ⟨obeyed, keeps.env h s _ met move inv⟩

/-- **Invariant rule**: an invariant that every allowed call keeps holds in every
    state of every run, together with the conformance of what is left to run. -/
theorem invariant_of_trace {P : Prog.Protocol Ans E} {start : Op → P.State}
    {post : Op → P.State → Except E Unit → Prop}
    {cond : Pool Ans E W Op → Label Call E Op → Prop}
    {I : List (Label Call E Op) → W → (Nat → Option (Op × P.State)) → Prop}
    (conforms : ∀ s pid op, cond s (.spawn pid op) → (sys.prog op).Conf P (post op) (start op))
    (keeps : sys.Preserves P start cond I) {s t : Pool Ans E W Op} {h : List (Label Call E Op)}
    (run : sys.Trace cond s h t)
    (obeyed : P.Obeyed start post s) (inv : I [] s.world (P.view start s)) :
    P.Obeyed start post t ∧ I h t.world (P.view start t) := by
  -- on the last step; conformance says which calls it can be
  induction run with
  | nil => exact ⟨obeyed, inv⟩
  | snoc _ met step ih =>
    exact step_invariant keeps step
      (fun pid op same => conforms _ pid op (same ▸ met)) met ih.1 ih.2

/-- A pool in which nothing was started obeys every protocol. -/
theorem obeyed_of_no_procs {P : Prog.Protocol Ans E} {start : Op → P.State}
    {post : Op → P.State → Except E Unit → Prop} (w : W) :
    P.Obeyed start post (⟨w, fun _ => none⟩ : Pool Ans E W Op) :=
  fun _ _ h => absurd h (by simp)

end System

end RustApi.Lib
