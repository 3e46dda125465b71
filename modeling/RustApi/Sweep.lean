import RustApi.Limits
import RustApi.Lib.Pool
import Mathlib

/-!
# The sweep counter

`TokenBucket::sweep_due` counts the requests of all workers in one atomic counter. The request
that reaches the threshold subtracts what it has counted, which is a second atomic step, and is
told to sweep the idle buckets.

## Main results

- `sweeps_once`: while no request counts between the two steps of another one, the counter
  never wraps and one request in `IDLE_SWEEP_EVERY` is told to sweep.
- `sweep_counter_wraps`: a request that counts between the two steps is told to sweep as well,
  and subtracts what was subtracted before.
-/

namespace RustApi.Limits

open Lib

/-! ### The counter and its calls -/

/-- `IDLE_SWEEP_EVERY`. -/
def idleSweepEvery : UInt64 := 64

/-- What the clones of a `TokenBucket` share, and the clock. -/
structure SweepWorld (T : Type) where
  bucket : TokenBucket T
  sinceSweep : UInt64
  now : Nat

/-- The buckets are behind a mutex, so that `evictIdle` and `take` are one step each. -/
inductive SweepCall (T : Type) where
  | fetchAdd
  | fetchSub (n : UInt64)
  | evictIdle
  | take (iter : Iteration T) (key : String)

@[reducible] def SweepCall.Ans {T : Type} : SweepCall T → Type
  | .fetchAdd => UInt64
  | .fetchSub _ => UInt64
  | .evictIdle => Unit
  | .take .. => Bool

/-- Both counting steps answer the value that they found, and wrap. -/
def SweepCall.exec {T : Type} : (c : SweepCall T) → SweepWorld T →
    Except Empty c.Ans × SweepWorld T
  | .fetchAdd, w => (.ok w.sinceSweep, { w with sinceSweep := w.sinceSweep + 1 })
  | .fetchSub n, w => (.ok w.sinceSweep, { w with sinceSweep := w.sinceSweep - n })
  | .evictIdle, w => (.ok (), { w with bucket := w.bucket.evictIdle w.now })
  | .take iter key, w =>
    let (granted, bucket) := w.bucket.take iter w.now key
    (.ok granted, { w with bucket := bucket })

abbrev SweepM (T α : Type) : Type := Prog (@SweepCall.Ans T) Empty α

def onSweep {T : Type} (c : SweepCall T) : SweepM T c.Ans := Prog.perform c

variable {T : Type}

namespace TokenBucket

def sweepDue : SweepM T Bool := do
  let seen ← onSweep .fetchAdd
  -- `fetch_add` answers the value before, so this request is the next one
  if seen + 1 < idleSweepEvery then pure false
  else do
    -- the counter restarts from the requests counted in between
    let _ ← onSweep (.fetchSub (seen + 1))
    pure true

end TokenBucket

/-- `RateLimitMiddleware::call`, up to whether the request is let through. -/
def rateLimited (iter : Iteration T) (key : String) : SweepM T Bool := do
  let due ← TokenBucket.sweepDue
  if due then onSweep .evictIdle else pure ()
  onSweep (.take iter key)

/-- A request, with the order in which the map lists its entries to it. -/
structure Request (T : Type) where
  iter : Iteration T
  key : String

/-- Any number of requests on any number of workers, while the clock goes anywhere. -/
def sweepSystem (T : Type) : System (@SweepCall.Ans T) Empty (SweepWorld T) (Request T) where
  exec := SweepCall.exec
  enabled := fun _ _ => True
  mayFail := fun _ _ => False
  mayDrop := fun _ => False
  drop := fun _ _ w => w
  env := fun w w' => ∃ now, w' = { w with now := now }
  prog := fun r => do
    let _ ← rateLimited r.iter r.key
    pure ()

abbrev SweepPool (T : Type) : Type :=
  Pool (@SweepCall.Ans T) Empty (SweepWorld T) (Request T)

abbrev SweepLabel (T : Type) : Type := Label (SweepCall T) Empty (Request T)

/-- `TokenBucket::new`: the counter starts one short of the threshold. -/
def newLimiter (arith : Arithmetic T) (perMinute now : Nat) : SweepPool T :=
  ⟨⟨.new arith perMinute, idleSweepEvery - 1, now⟩, fun _ => none⟩

/-! ### How far a request has come -/

inductive SweepPhase where
  | new
  | due (n : UInt64)
  | told
  | other
  deriving DecidableEq

/-- A request is `due` between the two steps of `sweep_due`, and `told` when it returned true. -/
@[reducible] def sweepProtocol : Prog.Protocol (@SweepCall.Ans T) Empty where
  State := SweepPhase
  allowed st c :=
    match c with
    | .fetchAdd => st = .new
    | .fetchSub n => st = .due n
    | .evictIdle => st = .told
    | .take .. => st = .told ∨ st = .other
  possible _ _ := True
  track st c r :=
    match c, r with
    | .fetchAdd, .ok seen => if seen + 1 < idleSweepEvery then .other else .due (seen + 1)
    | .fetchSub _, _ => .told
    | _, _ => st

def phase (p : Proc (@SweepCall.Ans T) Empty (Request T)) : SweepPhase :=
  sweepProtocol.observe .new p.past

/-- `sweep_due` returns true exactly to the requests that are told. -/
theorem sweepDue_conf : (TokenBucket.sweepDue : SweepM T Bool).Conf sweepProtocol
    (fun st r => ∀ due, r = .ok due → st = if due then .told else .other) .new := by
  refine Prog.conf_seq rfl (fun e => e.elim) fun seen => ?_
  change (if seen + 1 < idleSweepEvery then pure false else _ : SweepM T Bool).Conf sweepProtocol _
    (if seen + 1 < idleSweepEvery then .other else .due (seen + 1))
  split
  next =>
    rintro _ ⟨⟩
    rfl
  next =>
    refine Prog.conf_seq rfl (fun e => e.elim) fun _ => ?_
    rintro _ ⟨⟩
    rfl

theorem request_conf (r : Request T) :
    ((sweepSystem T).prog r).Conf sweepProtocol (fun _ _ => True) .new := by
  refine Prog.conf_bind.mpr (Prog.conf_bind.mpr (sweepDue_conf.mono ?_))
  rintro st (e | due) returned
  · trivial
  obtain rfl := returned due rfl
  cases due with
  | false =>
    refine ⟨.inr rfl, ?_⟩
    rintro (e | _) -
    · trivial
    · trivial
  | true =>
    refine ⟨rfl, ?_⟩
    rintro (e | _) -
    · trivial
    refine ⟨.inl rfl, ?_⟩
    rintro (e | _) -
    · trivial
    · trivial

/-! ### The claim -/

/-- The requests in the order in which they counted. -/
def counted (h : List (SweepLabel T)) : List Nat :=
  h.filterMap fun
    | .call pid .fetchAdd none => some pid
    | _ => none

/-- The request that was counted at this place was told to sweep. -/
def ToldAt (h : List (SweepLabel T)) (s : SweepPool T) (i : Nat) : Prop :=
  ∃ pid p, (counted h)[i]? = some pid ∧ s.procs pid = some p ∧ phase p = .told

/-- In every state of every run, nothing is subtracted that the counter does not hold, and of as
    many requests as make up a window at most one was told to sweep. -/
def SweepsOnce (s₀ : SweepPool T) (cond : SweepPool T → SweepLabel T → Prop) : Prop :=
  ∀ h s, (sweepSystem T).Trace cond s₀ h s →
    (∀ pid n t, (sweepSystem T).Step s (.call pid (.fetchSub n) none) t →
      n ≤ s.world.sinceSweep) ∧
    ∀ first i j, i ∈ Set.Ico first (first + idleSweepEvery.toNat) →
      j ∈ Set.Ico first (first + idleSweepEvery.toNat) → ToldAt h s i → ToldAt h s j → i = j

/-- No request counts while another one is between its two steps. -/
def Apart (s : SweepPool T) (l : SweepLabel T) : Prop :=
  ∀ pid, l = .call pid .fetchAdd none → ∀ q p n, s.procs q = some p → phase p ≠ .due n

/-! ### Runs without a race -/

/-- The counter and the requests that it has counted. -/
structure Windowed (h : List (SweepLabel T)) (w : SweepWorld T)
    (view : Nat → Option (Request T × SweepPhase)) : Prop where
  /-- only the first request of a window reaches the threshold -/
  placed : ∀ i pid, (counted h)[i]? = some pid → ∃ r st, view pid = some (r, st) ∧ st ≠ .new ∧
    (st = .told ∨ (∃ n, st = .due n) → i % 64 = 0)
  calm : (∀ pid r n, view pid ≠ some (r, .due n)) →
    w.sinceSweep.toNat = (63 + (counted h).length) % 64
  due : ∀ pid r n, view pid = some (r, .due n) → n = 64 ∧ w.sinceSweep = 64 ∧
    (63 + (counted h).length) % 64 = 0 ∧ ∀ q r' n', view q = some (r', .due n') → q = pid

theorem counted_concat (h : List (SweepLabel T)) (l : SweepLabel T) :
    counted (h ++ [l]) = counted h ++ counted [l] :=
  List.filterMap_append

/-- A step that neither counts nor subtracts. -/
theorem Windowed.still {h h' : List (SweepLabel T)} {w w' : SweepWorld T}
    {view : Nat → Option (Request T × SweepPhase)} (windowed : Windowed h w view)
    (counts : counted h' = counted h) (since : w'.sinceSweep = w.sinceSweep) :
    Windowed h' w' view := by
  refine ⟨?_, ?_, ?_⟩
  · rw [counts]
    exact windowed.placed
  · rw [counts, since]
    exact windowed.calm
  · rw [counts, since]
    exact windowed.due

/-- A request that arrives has not counted yet. -/
theorem Windowed.spawn {h : List (SweepLabel T)} {w : SweepWorld T}
    {view : Nat → Option (Request T × SweepPhase)} (windowed : Windowed h w view) {pid : Nat}
    (free : view pid = none) (r : Request T) :
    Windowed h w (Function.update view pid (some (r, .new))) := by
  have before : ∀ q r' n, Function.update view pid (some (r, .new)) q = some (r', .due n) ↔
      view q = some (r', .due n) := by
    intro q r' n
    by_cases same : q = pid
    · subst same
      simp [free]
    · rw [Function.update_of_ne same]
  refine ⟨fun i q at_i => ?_, fun calm => windowed.calm fun q r' n found => ?_,
    fun q r' n => ?_⟩
  · -- a request that has counted is not the one that arrives
    obtain ⟨r', st, there, known⟩ := windowed.placed i q at_i
    have apart : q ≠ pid := by
      rintro rfl
      cases free.symm.trans there
    exact ⟨r', st, by rw [Function.update_of_ne apart, there], known⟩
  · exact calm q r' n ((before q r' n).mpr found)
  · simp only [before]
    exact windowed.due q r' n

/-- A request counts while nobody is due. -/
theorem Windowed.count {h : List (SweepLabel T)} {w : SweepWorld T}
    {view : Nat → Option (Request T × SweepPhase)} (windowed : Windowed h w view) {pid : Nat}
    {r : Request T} (here : view pid = some (r, .new))
    (calm : ∀ pid r n, view pid ≠ some (r, .due n)) :
    Windowed (h ++ [.call pid .fetchAdd none]) { w with sinceSweep := w.sinceSweep + 1 }
      (Function.update view pid (some (r, if w.sinceSweep + 1 < idleSweepEvery then .other
        else .due (w.sinceSweep + 1)))) := by
  have value := windowed.calm calm
  have counts : counted (h ++ [.call pid .fetchAdd none]) = counted h ++ [pid] :=
    counted_concat h _
  have next : (w.sinceSweep + 1).toNat = w.sinceSweep.toNat + 1 := by
    rw [UInt64.toNat_add, UInt64.toNat_one]
    omega
  -- the counter is below the threshold, so the sum does not wrap
  have below : w.sinceSweep + 1 < idleSweepEvery ↔ w.sinceSweep.toNat + 1 < 64 := by
    rw [UInt64.lt_iff_toNat_lt, next]
    rfl
  have others : ∀ q st r' n, Function.update view pid (some (r, st)) q = some (r', .due n) →
      q = pid ∧ st = .due n := by
    intro q st r' n found
    rcases update_eq_some.mp found with ⟨same, rest⟩ | ⟨-, found⟩
    · exact ⟨same, congrArg Prod.snd rest⟩
    · exact absurd found (calm q r' n)
  -- the requests counted before keep their places, this one gets the next
  have placed : ∀ st, st ≠ .new → (st = .told ∨ (∃ n, st = .due n) → (counted h).length % 64 = 0) →
      ∀ i q, (counted h ++ [pid])[i]? = some q →
        ∃ r' st', Function.update view pid (some (r, st)) q = some (r', st') ∧ st' ≠ .new ∧
          (st' = .told ∨ (∃ n, st' = .due n) → i % 64 = 0) := by
    intro st counts place i q at_i
    rcases lt_trichotomy i (counted h).length with old | rfl | beyond
    · rw [List.getElem?_append_left old] at at_i
      obtain ⟨r', st', there, known⟩ := windowed.placed i q at_i
      have apart : q ≠ pid := by
        rintro rfl
        cases here.symm.trans there
        exact known.1 rfl
      exact ⟨r', st', by rw [Function.update_of_ne apart, there], known⟩
    · rw [List.getElem?_concat_length] at at_i
      cases at_i
      exact ⟨r, st, Function.update_self .., counts, place⟩
    · rw [List.getElem?_eq_none (by rw [List.length_append, List.length_singleton]; omega)] at at_i
      cases at_i
  split
  next early =>
    have room := below.mp early
    refine ⟨?_, fun _ => ?_, fun q r' n found => nomatch (others q _ r' n found).2⟩
    · rw [counts]
      exact placed .other nofun (by simp)
    · rw [counts, List.length_append, List.length_singleton]
      change (w.sinceSweep + 1).toNat = _
      omega
  next reached =>
    -- the counter can only be one short here
    have last : w.sinceSweep.toNat = 63 := by
      have := mt below.mpr reached
      omega
    have full : w.sinceSweep + 1 = 64 := by
      rw [← UInt64.toNat_inj, next, last]
      rfl
    rw [full]
    refine ⟨?_, fun none => ?_, fun q r' n found => ?_⟩
    · rw [counts]
      exact placed (.due 64) nofun fun _ => by omega
    · exact absurd (Function.update_self ..) (none pid r 64)
    · obtain ⟨rfl, same⟩ := others q _ r' n found
      cases same
      refine ⟨rfl, rfl, ?_, fun q' r'' n' found' => (others q' _ r'' n' found').1⟩
      rw [counts, List.length_append, List.length_singleton]
      omega

/-- The request that is due claims its window. -/
theorem Windowed.claim {h : List (SweepLabel T)} {w : SweepWorld T}
    {view : Nat → Option (Request T × SweepPhase)} (windowed : Windowed h w view) {pid : Nat}
    {r : Request T} {n : UInt64} (here : view pid = some (r, .due n)) :
    Windowed (h ++ [.call pid (.fetchSub n) none]) { w with sinceSweep := w.sinceSweep - n }
      (Function.update view pid (some (r, .told))) := by
  obtain ⟨rfl, value, full, alone⟩ := windowed.due pid r n here
  have counts : counted (h ++ [.call pid (.fetchSub 64) none]) = counted h := by
    rw [counted_concat]
    exact List.append_nil _
  have nobody : ∀ q r' n', Function.update view pid (some (r, .told)) q ≠ some (r', .due n') := by
    intro q r' n' found
    rcases update_eq_some.mp found with ⟨-, same⟩ | ⟨apart, found⟩
    · cases same
    · exact apart (alone q r' n' found)
  refine ⟨?_, ?_, fun q r' n' found => absurd found (nobody q r' n')⟩
  · rw [counts]
    intro i q at_i
    obtain ⟨r', st, there, counted, place⟩ := windowed.placed i q at_i
    -- its own place keeps the start of the window, the others keep theirs
    by_cases same : q = pid
    · subst same
      cases here.symm.trans there
      exact ⟨r, .told, Function.update_self .., nofun, fun _ => place (.inr ⟨64, rfl⟩)⟩
    · exact ⟨r', st, by rw [Function.update_of_ne same, there], counted, place⟩
  · rw [counts, full]
    intro _
    change (w.sinceSweep - 64).toNat = 0
    rw [value]
    rfl

theorem windowed_preserved : (sweepSystem T).Preserves sweepProtocol (fun _ => .new) Apart
    fun h w view => Windowed h w view where
  answers _ _ := trivial
  faults _ _ bad := bad.elim
  spawn := by
    intro h s pid r _ free windowed
    refine (windowed.spawn (sweepProtocol.view_eq_none.mpr free) r).still ?_ rfl
    rw [counted_concat]
    exact List.append_nil _
  env := by
    rintro h s w - ⟨now, rfl⟩ windowed
    refine windowed.still ?_ rfl
    rw [counted_concat]
    exact List.append_nil _
  call := by
    intro h s pid r st c apart here allowed _ windowed
    have stay : Function.update (sweepProtocol.view (fun _ => .new) s) pid (some (r, st)) =
        sweepProtocol.view (fun _ => .new) s := by
      rw [← here, Function.update_eq_self]
    cases c with
    -- the condition says that nobody is due, which is what `count` asks for
    | fetchAdd =>
      obtain rfl : st = .new := allowed
      refine windowed.count here fun q r' n found => ?_
      obtain ⟨p, there, -, due⟩ := sweepProtocol.view_eq_some.mp found
      exact apart pid rfl q p n there due
    | fetchSub n =>
      obtain rfl : st = .due n := allowed
      exact windowed.claim here
    | evictIdle | take =>
      change Windowed _ _ (Function.update _ pid (some (r, st)))
      rw [stay]
      refine windowed.still ?_ rfl
      rw [counted_concat]
      exact List.append_nil _
  fault _ _ _ _ _ _ _ _ _ _ bad := bad.elim
  drop _ _ _ _ _ _ _ bad := bad.elim

theorem windowed_of_trace {arith : Arithmetic T} {perMinute now : Nat} {h : List (SweepLabel T)}
    {s : SweepPool T}
    (run : (sweepSystem T).Trace Apart (newLimiter arith perMinute now) h s) :
    sweepProtocol.Obeyed (fun _ => .new) (fun _ _ _ => True) s ∧
      Windowed h s.world (sweepProtocol.view (fun _ => .new) s) :=
  have initial : (idleSweepEvery - 1).toNat = 63 := rfl
  System.invariant_of_trace (fun _ _ r _ => request_conf r) windowed_preserved run
    (System.obeyed_of_no_procs _)
    ⟨fun _ _ bad => (nomatch bad), fun _ => initial, fun _ _ _ bad => nomatch bad⟩

/-- **One sweep for a window**, while no request counts between the two steps of another one. -/
theorem sweeps_once (arith : Arithmetic T) (perMinute now : Nat) :
    SweepsOnce (newLimiter arith perMinute now) Apart := by
  intro h s run
  obtain ⟨obeyed, windowed⟩ := windowed_of_trace run
  constructor
  · intro pid n t step
    cases step with
    | @call _ r past _ next at_call _ =>
      have due : sweepProtocol.observe .new past = .due n := (obeyed pid _ at_call).1
      have here : sweepProtocol.view (fun _ => .new) s pid = some (r, .due n) :=
        sweepProtocol.view_eq_some.mpr ⟨_, at_call, rfl, due⟩
      obtain ⟨rfl, value, -, -⟩ := windowed.due pid r n here
      rw [value]
      exact UInt64.le_refl 64
  · -- a told request stands at the start of its window
    have starts : ∀ i, ToldAt h s i → i % 64 = 0 := by
      rintro i ⟨pid, p, at_i, there, told⟩
      obtain ⟨r, st, here, -, place⟩ := windowed.placed i pid at_i
      have same : sweepProtocol.view (fun _ => .new) s pid = some (p.op, .told) :=
        sweepProtocol.view_eq_some.mpr ⟨p, there, rfl, told⟩
      cases same.symm.trans here
      exact place (.inl rfl)
    rintro first i j ⟨i_ge, i_lt⟩ ⟨j_ge, j_lt⟩ told_i told_j
    have := starts i told_i
    have := starts j told_j
    have window : idleSweepEvery.toNat = 64 := rfl
    omega

/-! ### A race -/

/-- Tokens are of no concern here. -/
def noTokens : Arithmetic Unit := ⟨(), fun _ _ => (), fun _ => true, fun _ => ()⟩

def listing : Iteration Unit := ⟨fun m => m.toList, fun _ => .refl _⟩

def anySchedule : (sweepSystem Unit).Scheduler fun _ _ => True where
  enabled _ _ := true
  mayFail _ _ := false
  mayDrop _ := false
  tick n w := { w with now := n }
  check _ _ := true
  enabled_sound _ _ _ := trivial
  mayFail_sound _ _ bad := nomatch bad
  mayDrop_sound _ bad := nomatch bad
  tick_sound n _ := ⟨n, rfl⟩
  check_sound _ _ _ := trivial

/-- Both requests count before the first one subtracts. -/
def race : List (System.Move Empty (Request Unit)) :=
  [.spawn 0 ⟨listing, "a"⟩, .spawn 1 ⟨listing, "b"⟩, .call 0, .call 1, .call 0]

theorem race_played : (anySchedule.play race [] (newLimiter noTokens 60 0)).isSome = true := by
  decide +kernel

def racePool : SweepPool Unit :=
  ((anySchedule.play race [] (newLimiter noTokens 60 0)).get race_played).2

/-- The second request subtracts what the first one has subtracted already. -/
theorem sweep_counter_wraps :
    ¬ SweepsOnce (newLimiter noTokens 60 0) fun _ _ => True := by
  intro claim
  have noWrap := (claim _ racePool (anySchedule.trace_of_play race _ race_played)).1 1 65
  have at_call : racePool.procs 1 = some ⟨⟨listing, "b"⟩, [⟨.fetchAdd, .ok 64⟩],
      .call (.fetchSub 65) _⟩ := rfl
  exact absurd (noWrap _ (.call at_call trivial)) (by decide +kernel)

end RustApi.Limits
