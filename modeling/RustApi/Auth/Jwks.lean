import RustApi.Auth.Tenant
import RustApi.Lib.Pool

/-!
# The cache of signing keys

`JwksKeys`, shared by all requests: a look-up that misses asks for a refresh, which the
debounce window lets through or not. The window begins with the attempt and is not held
over the fetch, so that a fetch which takes longer than the window can meet the next one
on its way.

## Main results

- `cache_never_goes_back`: while the usable answers come in the order in which they were
  asked for, the cache never goes back to an older one.
- `cache_goes_back`: a slow answer replaces the answer of a later fetch.
- `fetches_debounced`: however many look-ups miss, the provider is asked at most once a window.
-/

namespace RustApi.Auth

open Lib

variable {Key : Type}

/-- `HashMap<String, SigningKey>`: the keys under their ids. -/
abbrev KeySet (Key : Type) : Type := List (String × SigningKey Key)

/-! ### The store and its calls -/

/-- What all clones of `JwksKeys` share, the clock and the provider. Requests to the provider are
    numbered as they are sent. `request` is the one whose answer is cached and `answered` the
    last one that brought usable keys. -/
structure JwksWorld (Key : Type) where
  keys : KeySet Key
  request : Nat
  lastRefresh : Int
  clock : Int
  sent : Nat
  answered : Nat
  provider : KeySet Key

inductive JwksCall (Key : Type) where
  | read
  | claim
  | send
  | receive (request : Nat)
  | install (request : Nat) (keys : KeySet Key)

@[reducible] def JwksCall.Ans {Key : Type} : JwksCall Key → Type
  | .read => KeySet Key
  | .claim => Bool
  | .send => Nat
  | .receive _ => KeySet Key
  | .install .. => Unit

/-- `claim` is the critical section of `maybe_refresh`: it decides about a refresh and begins the
    window. -/
def JwksCall.exec (debounce : Int) : (c : JwksCall Key) → JwksWorld Key →
    Except String c.Ans × JwksWorld Key
  | .read, w => (.ok w.keys, w)
  | .claim, w =>
    if w.clock - w.lastRefresh < debounce then (.ok false, w)
    else (.ok true, { w with lastRefresh := w.clock })
  | .send, w => (.ok (w.sent + 1), { w with sent := w.sent + 1 })
  | .receive request, w =>
    (.ok w.provider, if w.provider = [] then w else { w with answered := request })
  | .install request keys, w => (.ok (), { w with keys := keys, request := request })

/-- A request can fail on its way out or back. -/
def JwksCall.mayFail : JwksCall Key → String → Prop
  | .send, _ => True
  | .receive _, _ => True
  | _, _ => False

abbrev JwksM (Key α : Type) : Type := Prog (@JwksCall.Ans Key) String α

def onJwks (c : JwksCall Key) : JwksM Key c.Ans := Prog.perform c

/-! ### The functions -/

namespace JwksStore

/-- `fetch_keys`, with the number of the request. -/
def fetchKeys : JwksM Key (Nat × KeySet Key) := do
  let request ← onJwks .send
  let keys ← onJwks (.receive request)
  pure (request, keys)

def maybeRefresh : JwksM Key Unit := do
  let stale ← onJwks .claim
  if stale then
    match ← fetchKeys.attempt with
    | .ok (request, keys) => if keys = [] then pure () else onJwks (.install request keys)
    | .error _ => pure ()
  else pure ()

def lookup (kid : Option String) : JwksM Key (Option (SigningKey Key)) := do
  let keys ← onJwks .read
  pure (JwksKeys.lookup kid keys)

def get (kid : Option String) : JwksM Key (Option (SigningKey Key)) := do
  match ← lookup kid with
  | some key => pure (some key)
  | none => do
    maybeRefresh
    lookup kid

def prog (kid : Option String) : JwksM Key Unit := do
  let _ ← get kid
  pure ()

end JwksStore

/-- Any number of look-ups. Time passes, the provider changes its keys, and a request may be
    dropped anywhere. -/
def jwksSystem (debounce : Int) :
    System (@JwksCall.Ans Key) String (JwksWorld Key) (Option String) where
  exec := JwksCall.exec debounce
  enabled := fun _ _ => True
  mayFail := JwksCall.mayFail
  mayDrop := fun _ => True
  drop := fun _ _ w => w
  env := fun w w' => ∃ clock provider, w.clock ≤ clock ∧
    w' = { w with clock := clock, provider := provider }
  prog := JwksStore.prog

abbrev JwksPool (Key : Type) : Type :=
  Pool (@JwksCall.Ans Key) String (JwksWorld Key) (Option String)

abbrev JwksLabel (Key : Type) : Type := Label (JwksCall Key) String (Option String)

/-- The store as `build` leaves it, with the keys that it fetched at `clock`. -/
def builtStore (keys : KeySet Key) (clock : Int) : JwksPool Key :=
  ⟨⟨keys, 0, clock, clock, 0, 0, keys⟩, fun _ => none⟩

/-! ### Refreshes -/

/-- How far the refresh of a look-up has come. -/
inductive Refresh (Key : Type) where
  | idle
  | sent (request : Nat)
  | received (request : Nat) (keys : KeySet Key)

@[reducible] def jwksProtocol : Prog.Protocol (@JwksCall.Ans Key) String where
  State := Refresh Key
  allowed st c :=
    match c with
    | .receive request => st = .sent request
    | .install request keys => st = .received request keys
    | _ => True
  possible _ _ := True
  track st c r :=
    match c, r with
    | .send, .ok request => .sent request
    | .receive request, .ok keys => if keys = [] then .idle else .received request keys
    | .receive _, .error _ => .idle
    | .install .., _ => .idle
    | _, _ => st

/-- The refresh of a look-up, by what it has called so far. -/
def refresh (p : Proc (@JwksCall.Ans Key) String (Option String)) : Refresh Key :=
  jwksProtocol.observe .idle p.past

namespace JwksStore

private theorem maybeRefresh_conf :
    (maybeRefresh : JwksM Key Unit).Conf jwksProtocol (fun _ _ => True) .idle := by
  refine Prog.conf_seq trivial (fun _ => trivial) fun stale => ?_
  cases stale with
  | false => trivial
  | true =>
    refine Prog.conf_bind.mpr (Prog.conf_attempt.mpr (Prog.conf_bind.mpr ⟨trivial, ?_⟩))
    rintro (e | request) -
    · trivial
    refine Prog.conf_seq rfl (fun _ => trivial) fun keys => ?_
    change (if keys = [] then pure () else onJwks (.install request keys)).Conf jwksProtocol
      (fun _ _ => True) (if keys = [] then .idle else .received request keys)
    split
    next => trivial
    next => exact ⟨rfl, fun _ _ => trivial⟩

private theorem lookup_conf (kid : Option String) (st : Refresh Key) :
    (lookup kid).Conf jwksProtocol (fun st' _ => st' = st) st := by
  refine Prog.conf_seq trivial (fun _ => rfl) fun keys => ?_
  rfl

theorem prog_conf (kid : Option String) :
    (prog kid : JwksM Key Unit).Conf jwksProtocol (fun _ _ => True) .idle := by
  refine Prog.conf_bind.mpr (Prog.conf_bind.mpr ((lookup_conf kid .idle).mono ?_))
  rintro _ (e | (_ | key)) rfl
  · trivial
  · refine Prog.conf_bind.mpr (maybeRefresh_conf.mono ?_)
    rintro st (e | _) -
    · trivial
    · refine (lookup_conf kid st).mono ?_
      rintro _ (e | _) rfl
      · trivial
      · trivial
  · trivial

end JwksStore

/-! ### The claim -/

/-- Some token is verified under the key. -/
def Accepted (key : SigningKey Key) (keys : KeySet Key) : Prop :=
  ∃ kid, JwksKeys.lookup kid keys = some key

/-- From the store `s₀` on, the answer of a fetch is never replaced by that of a fetch that was
    sent earlier, and a key that was dropped is not accepted again unless a later fetch
    brings it back. -/
def NeverGoesBack (debounce : Int) (s₀ : JwksPool Key)
    (cond : JwksPool Key → JwksLabel Key → Prop) : Prop :=
  ∀ h h' s t, (jwksSystem debounce).Trace cond s₀ h s → (jwksSystem debounce).Trace cond s h' t →
    s.world.request ≤ t.world.request ∧
      ∀ key, ¬ Accepted key s.world.keys →
        (∀ pid request keys, .call pid (.install request keys) none ∈ h' →
          s.world.request < request → ¬ Accepted key keys) →
        ¬ Accepted key t.world.keys

/-- The provider's usable answers come in the order in which they were asked for, and each is
    cached before the next one comes. -/
def InOrder (s : JwksPool Key) (l : JwksLabel Key) : Prop :=
  ∀ pid request, l = .call pid (.receive request) none → s.world.provider ≠ [] →
    s.world.answered < request ∧
      ∀ q p earlier keys, s.procs q = some p → refresh p ≠ .received earlier keys

/-! ### Runs in order -/

/-- At most one answer is on its way into the cache, and it is newer than the cached one. -/
structure Orderly (w : JwksWorld Key) (view : Nat → Option (Option String × Refresh Key)) :
    Prop where
  cached : w.request ≤ w.answered
  newer : ∀ pid kid request keys, view pid = some (kid, .received request keys) →
    w.request < request ∧ request ≤ w.answered
  alone : ∀ p q kid kid' m n keys keys', view p = some (kid, .received m keys) →
    view q = some (kid', .received n keys') → p = q

/-- A step that caches nothing and brings no usable answer. -/
theorem Orderly.quiet {w w' : JwksWorld Key} {view : Nat → Option (Option String × Refresh Key)}
    (orderly : Orderly w view) {pid : Nat} {kid : Option String} {st : Refresh Key}
    (kept : ∀ m keys, st = .received m keys → ∃ kid', view pid = some (kid', .received m keys))
    (cached : w'.request = w.request) (answered : w'.answered = w.answered) :
    Orderly w' (Function.update view pid (some (kid, st))) := by
  have before : ∀ q kid' m keys,
      Function.update view pid (some (kid, st)) q = some (kid', .received m keys) →
      ∃ kid', view q = some (kid', .received m keys) := by
    intro q kid' m keys found
    rcases update_eq_some.mp found with ⟨rfl, same⟩ | ⟨-, found⟩
    · exact kept m keys (congrArg Prod.snd same)
    · exact ⟨kid', found⟩
  refine ⟨by rw [cached, answered]; exact orderly.cached, ?_, ?_⟩
  · intro q kid' m keys found
    obtain ⟨kid', found⟩ := before q kid' m keys found
    rw [cached, answered]
    exact orderly.newer q kid' m keys found
  · intro p q kp kq m n keys keys' found found'
    obtain ⟨kp, found⟩ := before p kp m keys found
    obtain ⟨kq, found'⟩ := before q kq n keys' found'
    exact orderly.alone p q kp kq m n keys keys' found found'

theorem Orderly.preserved (debounce : Int) :
    (@jwksSystem Key debounce).Preserves jwksProtocol (fun _ => .idle) InOrder
      fun _ w view => Orderly w view where
  answers _ _ := trivial
  faults _ _ _ := trivial
  spawn := by
    intro h s pid kid _ _ orderly
    exact orderly.quiet (fun _ _ bad => nomatch bad) rfl rfl
  env := by
    rintro h s w - ⟨clock, provider, -, rfl⟩ orderly
    exact ⟨orderly.cached, orderly.newer, orderly.alone⟩
  call := by
    intro h s pid kid st c met here allowed _ orderly
    cases c with
    | read => exact orderly.quiet (fun m keys same => ⟨kid, same ▸ here⟩) rfl rfl
    | claim =>
      change Orderly (JwksCall.exec debounce .claim s.world).2 _
      simp only [JwksCall.exec]
      split
      · exact orderly.quiet (fun m keys same => ⟨kid, same ▸ here⟩) rfl rfl
      · exact orderly.quiet (fun m keys same => ⟨kid, same ▸ here⟩) rfl rfl
    | send => exact orderly.quiet (fun _ _ bad => nomatch bad) rfl rfl
    | receive request =>
      change Orderly (if s.world.provider = [] then s.world
        else { s.world with answered := request }) (Function.update _ pid (some (kid,
          if s.world.provider = [] then .idle else .received request s.world.provider)))
      split
      next => exact orderly.quiet (fun _ _ bad => nomatch bad) rfl rfl
      next usable =>
        -- the answer is the newest and no other one is in hand, by the order that is assumed
        obtain ⟨newer, nobody⟩ := met pid request rfl usable
        have only : ∀ q kid' m keys, Function.update (jwksProtocol.view (fun _ => .idle) s) pid
            (some (kid, .received request s.world.provider)) q = some (kid', .received m keys) →
            q = pid ∧ m = request := by
          intro q kid' m keys found
          rcases update_eq_some.mp found with ⟨rfl, same⟩ | ⟨-, found⟩
          · cases same
            exact ⟨rfl, rfl⟩
          · obtain ⟨p, there, -, received⟩ := jwksProtocol.view_eq_some.mp found
            exact absurd received (nobody q p m keys there)
        refine ⟨orderly.cached.trans newer.le, ?_, ?_⟩
        · intro q kid' m keys found
          obtain ⟨-, rfl⟩ := only q kid' m keys found
          exact ⟨orderly.cached.trans_lt newer, le_rfl⟩
        · intro p q kp kq m n keys keys' found found'
          exact (only p kp m keys found).1.trans (only q kq n keys' found').1.symm
    | install request keys =>
      cases allowed
      have mine := orderly.newer pid kid request keys here
      -- whoever holds an answer holds this one, and the caller has just spent it
      have nobody : ∀ q kid' m keys', Function.update (jwksProtocol.view (fun _ => .idle) s) pid
          (some (kid, .idle)) q ≠ some (kid', .received m keys') := by
        intro q kid' m keys' found
        rcases update_eq_some.mp found with ⟨-, same⟩ | ⟨apart, found⟩
        · cases same
        · exact apart (orderly.alone q pid kid' kid m request keys' keys found here)
      exact ⟨mine.2, fun q kid' m keys' found => absurd found (nobody q kid' m keys'),
        fun p q kp kq m n keys keys' found _ => absurd found (nobody p kp m keys)⟩
  fault := by
    intro h s pid kid st c e _ here allowed mayFail orderly
    cases c with
    | send => exact orderly.quiet (fun m keys same => ⟨kid, same ▸ here⟩) rfl rfl
    | receive => exact orderly.quiet (fun _ _ bad => nomatch bad) rfl rfl
    | _ => exact mayFail.elim
  drop := by
    intro h s pid kid past _ _ _ orderly
    exact ⟨orderly.cached, fun q op m keys found => orderly.newer q op m keys (of_update_none found),
      fun p q op op' m n keys keys' found found' => orderly.alone p q op op' m n keys keys'
        (of_update_none found) (of_update_none found')⟩

/-- What is known in every state of a run in order. -/
structure Known (s : JwksPool Key) : Prop where
  obeyed : jwksProtocol.Obeyed (fun _ => .idle) (fun _ _ _ => True) s
  orderly : Orderly s.world (jwksProtocol.view (fun _ => .idle) s)

theorem known_of_trace {debounce : Int} {keys : KeySet Key} {clock : Int}
    {h : List (JwksLabel Key)} {s : JwksPool Key}
    (run : (jwksSystem debounce).Trace InOrder (builtStore keys clock) h s) : Known s := by
  obtain ⟨obeyed, orderly⟩ := System.invariant_of_trace
    (fun _ _ kid _ => JwksStore.prog_conf kid) (Orderly.preserved debounce) run
    (System.obeyed_of_no_procs _)
    ⟨le_rfl, fun _ _ _ _ bad => (nomatch bad), fun _ _ _ _ _ _ _ _ bad => (nomatch bad)⟩
  exact ⟨obeyed, orderly⟩

/-- A step leaves the cache, or caches a newer answer. -/
theorem step_cache {debounce : Int} {s t : JwksPool Key} {l : JwksLabel Key} (known : Known s)
    (step : (jwksSystem debounce).Step s l t) :
    (t.world.keys = s.world.keys ∧ t.world.request = s.world.request) ∨
      ∃ pid request keys, l = .call pid (.install request keys) none ∧
        s.world.request < request ∧ t.world.keys = keys ∧ t.world.request = request := by
  cases step with
  | spawn => exact .inl ⟨rfl, rfl⟩
  | fault => exact .inl ⟨rfl, rfl⟩
  | drop => exact .inl ⟨rfl, rfl⟩
  | env move =>
    obtain ⟨_, _, -, rfl⟩ := move
    exact .inl ⟨rfl, rfl⟩
  | @call pid kid past c next at_call =>
    cases c with
    | read => exact .inl ⟨rfl, rfl⟩
    | claim =>
      left
      change (JwksCall.exec debounce .claim s.world).2.keys = _ ∧
        (JwksCall.exec debounce .claim s.world).2.request = _
      simp only [JwksCall.exec]
      split <;> exact ⟨rfl, rfl⟩
    | send => exact .inl ⟨rfl, rfl⟩
    | receive request =>
      left
      change (if s.world.provider = [] then _ else _ : JwksWorld Key).keys = _ ∧
        (if s.world.provider = [] then _ else _ : JwksWorld Key).request = _
      split <;> exact ⟨rfl, rfl⟩
    | install request keys =>
      -- the protocol lets a handle install only what it received
      have received : jwksProtocol.observe .idle past = .received request keys :=
        (known.obeyed pid _ at_call).1
      have here : jwksProtocol.view (fun _ => .idle) s pid = some (kid, .received request keys) :=
        jwksProtocol.view_eq_some.mpr ⟨_, at_call, rfl, received⟩
      exact .inr ⟨pid, request, keys, rfl, (known.orderly.newer pid kid request keys here).1, rfl,
        rfl⟩

/-- The cache is what it was, or a newer answer that was cached since. -/
theorem trace_cache {debounce : Int} {s t : JwksPool Key} {h : List (JwksLabel Key)}
    (run : (jwksSystem debounce).Trace (fun s l => InOrder s l ∧ Known s) s h t) :
    (t.world.keys = s.world.keys ∧ t.world.request = s.world.request) ∨
      s.world.request < t.world.request ∧
        ∃ pid, .call pid (.install t.world.request t.world.keys) none ∈ h := by
  induction run with
  | nil => exact .inl ⟨rfl, rfl⟩
  | @snoc h t l u run met step ih =>
    rcases step_cache met.2 step with ⟨keys, request⟩ | ⟨pid, request, keys, rfl, newer, rfl, rfl⟩
    · rw [keys, request]
      refine ih.imp id fun ⟨later, pid, member⟩ => ⟨later, pid, List.mem_append_left _ member⟩
    · refine .inr ⟨lt_of_le_of_lt ?_ newer, pid, by simp⟩
      rcases ih with ⟨-, same⟩ | ⟨later, -⟩
      · exact same.ge
      · exact later.le

/-- **The cache never goes back** in a run in which the usable answers come in order. -/
theorem cache_never_goes_back (debounce : Int) (keys : KeySet Key) (clock : Int) :
    NeverGoesBack debounce (builtStore keys clock) InOrder := by
  intro h h' s t first rest
  have known : ∀ h t, (jwksSystem debounce).Trace InOrder s h t → Known t :=
    fun _ _ run => known_of_trace (first.append run)
  rcases trace_cache (rest.assume known) with ⟨same, request⟩ | ⟨later, pid, member⟩
  · refine ⟨request.ge, fun key dropped _ => ?_⟩
    rwa [same]
  · exact ⟨later.le, fun key _ retired => retired pid _ _ member later⟩

/-! ### A slow answer -/

/-- The keys of the provider before and after it retires `old`. -/
def oldKeys : KeySet String := [("old", ⟨"old", .rs256⟩)]
def newKeys : KeySet String := [("new", ⟨"new", .rs256⟩)]

/-- How to follow a schedule. An even number of seconds passes with the old keys, an odd number
    with the new ones. -/
def jwksScheduler {cond : JwksPool String → JwksLabel String → Prop}
    (check : JwksPool String → JwksLabel String → Bool) (sound : ∀ s l, check s l = true → cond s l) :
    (@jwksSystem String 5).Scheduler cond where
  enabled _ _ := true
  mayFail _ _ := false
  mayDrop _ := true
  tick n w :=
    { w with clock := w.clock + n, provider := if n % 2 = 0 then oldKeys else newKeys }
  check := check
  enabled_sound _ _ _ := trivial
  mayFail_sound _ _ bad := nomatch bad
  mayDrop_sound _ _ := trivial
  tick_sound n _ := ⟨_, _, Int.le_add_of_nonneg_right (Int.natCast_nonneg n), rfl⟩
  check_sound := sound

/-- The window of the first refresh is over before its answer is there; the second one overtakes
    it. -/
def overtaken : List (System.Move String (Option String)) :=
  [.env 6, .spawn 0 (some "new"), .call 0, .call 0, .call 0,
    .env 7, .spawn 1 (some "new"), .call 1, .call 1, .call 1, .call 1, .call 1]

/-- The answer that the provider gave before it retired `old` arrives and is cached. -/
def lateAnswer : List (System.Move String (Option String)) := [.env 0, .call 0, .call 0]

def anyScheduler : (@jwksSystem String 5).Scheduler (fun _ _ => True) :=
  jwksScheduler (fun _ _ => true) fun _ _ _ => trivial

theorem overtaken_played :
    (anyScheduler.play overtaken [] (builtStore oldKeys 0)).isSome = true := by
  decide +kernel

/-- The keys of the second fetch are cached. -/
def overtakenPool : JwksPool String :=
  ((anyScheduler.play overtaken [] (builtStore oldKeys 0)).get overtaken_played).2

theorem lateAnswer_played : (anyScheduler.play lateAnswer [] overtakenPool).isSome = true := by
  decide +kernel

/-- The answer of the first fetch replaces that of the second. -/
theorem cache_goes_back : ¬ NeverGoesBack 5 (builtStore oldKeys 0) fun _ _ => True := by
  intro claim
  have overtook := (claim _ _ _ _ (anyScheduler.trace_of_play overtaken _ overtaken_played)
    (anyScheduler.trace_of_play lateAnswer _ lateAnswer_played)).1
  exact absurd overtook (by decide +kernel)

/-! ### Answers in order -/

/-- How to see that the answers of some look-ups come in order. -/
def inOrderCheck (pids : List Nat) (s : JwksPool String) : JwksLabel String → Bool
  | .spawn pid _ => decide (pid ∈ pids)
  | .call _ (.receive request) none => decide (s.world.answered < request) && pids.all fun q =>
    (s.procs q).all fun p => match refresh p with
      | .received .. => false
      | _ => true
  | _ => true

theorem inOrderCheck_sound {pids : List Nat} {s : JwksPool String} {l : JwksLabel String}
    (ok : inOrderCheck pids s l = true) : System.Confined pids InOrder s l := by
  constructor
  · rintro pid kid rfl
    exact of_decide_eq_true ok
  · rintro outside pid request rfl -
    simp only [inOrderCheck, Bool.and_eq_true, decide_eq_true_eq, List.all_eq_true] at ok
    refine ⟨ok.1, fun q p earlier keys there received => ?_⟩
    have member : q ∈ pids := by
      by_contra away
      cases (outside q away).symm.trans there
    have checked := ok.2 q member
    rw [there, Option.all_some, received] at checked
    cases checked

def inOrderScheduler : (@jwksSystem String 5).Scheduler (System.Confined [0, 1] InOrder) :=
  jwksScheduler (inOrderCheck [0, 1]) fun _ _ ok => inOrderCheck_sound ok

/-- The first answer comes first; the second drops the retired key. -/
def earlyAnswer : List (System.Move String (Option String)) :=
  [.env 6, .spawn 0 (some "new"), .call 0, .call 0, .call 0, .call 0, .call 0]

def rotation : List (System.Move String (Option String)) :=
  [.env 7, .spawn 1 (some "new"), .call 1, .call 1, .call 1, .call 1, .call 1]

theorem earlyAnswer_played :
    (inOrderScheduler.play earlyAnswer [] (builtStore oldKeys 0)).isSome = true := by
  decide +kernel

def earlyPool : JwksPool String :=
  ((inOrderScheduler.play earlyAnswer [] (builtStore oldKeys 0)).get earlyAnswer_played).2

theorem rotation_played : (inOrderScheduler.play rotation [] earlyPool).isSome = true := by
  decide +kernel

theorem cache_never_goes_back_rotation :
    earlyPool.world.request ≤
      ((inOrderScheduler.play rotation [] earlyPool).get rotation_played).2.world.request := by
  obtain ⟨first, idle⟩ := (inOrderScheduler.trace_of_play earlyAnswer _
    earlyAnswer_played).of_confined fun _ _ => rfl
  obtain ⟨rest, -⟩ := (inOrderScheduler.trace_of_play rotation _ rotation_played).of_confined idle
  exact (cache_never_goes_back 5 oldKeys 0 _ _ _ _ first rest).1

/-! ### How often the provider is asked -/

/-- A request to the provider, whatever comes of it. -/
def asks : JwksLabel Key → Bool
  | .call _ .send _ => true
  | _ => false

/-- Whether the window let the look-up through, and its request is still to be sent. -/
@[reducible] def windowProtocol : Prog.Protocol (@JwksCall.Ans Key) String where
  State := Bool
  allowed st c :=
    match c with
    | .send => st = true
    | _ => True
  possible _ _ := True
  track st c r :=
    match c, r with
    | .claim, .ok granted => granted
    | .send, _ => false
    | _, _ => st

namespace JwksStore

private theorem maybeRefresh_window :
    (maybeRefresh : JwksM Key Unit).Conf windowProtocol (fun _ _ => True) false := by
  refine Prog.conf_seq trivial (fun _ => trivial) fun stale => ?_
  cases stale with
  | false => trivial
  | true =>
    refine Prog.conf_bind.mpr (Prog.conf_attempt.mpr (Prog.conf_bind.mpr ⟨rfl, ?_⟩))
    rintro (e | request) -
    · trivial
    refine Prog.conf_seq trivial (fun _ => trivial) fun keys => ?_
    change (if keys = [] then pure () else onJwks (.install request keys)).Conf windowProtocol
      (fun _ _ => True) false
    split
    next => trivial
    next => exact ⟨trivial, fun _ _ => trivial⟩

private theorem lookup_window (kid : Option String) (st : Bool) :
    (lookup kid : JwksM Key _).Conf windowProtocol (fun st' _ => st' = st) st := by
  refine Prog.conf_seq trivial (fun _ => rfl) fun keys => ?_
  rfl

theorem prog_window (kid : Option String) :
    (prog kid : JwksM Key Unit).Conf windowProtocol (fun _ _ => True) false := by
  refine Prog.conf_bind.mpr (Prog.conf_bind.mpr ((lookup_window kid false).mono ?_))
  rintro _ (e | (_ | key)) rfl
  · trivial
  · refine Prog.conf_bind.mpr (maybeRefresh_window.mono ?_)
    rintro st (e | _) -
    · trivial
    · refine (lookup_window kid st).mono ?_
      rintro _ (e | _) -
      · trivial
      · trivial
  · trivial

end JwksStore

/-- Requests that were sent and those that are due took a window each, since `clock`. -/
structure Spaced (debounce clock : Int) (h : List (JwksLabel Key)) (w : JwksWorld Key)
    (view : Nat → Option (Option String × Bool)) : Prop where
  past : w.lastRefresh ≤ w.clock
  windows : ∃ due : Finset Nat, (∀ pid kid, view pid = some (kid, true) → pid ∈ due) ∧
    ((h.countP asks + due.card : Nat) : Int) * debounce ≤ w.lastRefresh - clock

section Spaced

variable {debounce clock : Int} {h : List (JwksLabel Key)} {w w' : JwksWorld Key}
  {view : Nat → Option (Option String × Bool)} {pid : Nat} {kid : Option String} {st : Bool}
  {l : JwksLabel Key}

/-- A step that sends nothing and is let through nowhere. -/
private theorem Spaced.quiet (spaced : Spaced debounce clock h w view) (silent : asks l = false)
    (kept : st = true → ∃ kid', view pid = some (kid', true))
    (last : w'.lastRefresh = w.lastRefresh) (later : w.clock ≤ w'.clock) :
    Spaced debounce clock (h ++ [l]) w' (Function.update view pid (some (kid, st))) := by
  obtain ⟨due, covers, enough⟩ := spaced.windows
  refine ⟨by rw [last]; exact spaced.past.trans later, due, fun q kid' found => ?_, ?_⟩
  · rcases update_eq_some.mp found with ⟨rfl, same⟩ | ⟨-, found⟩
    · obtain ⟨kid', found⟩ := kept (congrArg Prod.snd same)
      exact covers q kid' found
    · exact covers q kid' found
  · rw [last, List.countP_append, List.countP_singleton, silent]
    simpa using enough

/-- A request takes the place of the one that was due. -/
private theorem Spaced.send (spaced : Spaced debounce clock h w view)
    (here : view pid = some (kid, true)) (asked : asks l = true)
    (last : w'.lastRefresh = w.lastRefresh) (time : w'.clock = w.clock) :
    Spaced debounce clock (h ++ [l]) w' (Function.update view pid (some (kid, false))) := by
  obtain ⟨due, covers, enough⟩ := spaced.windows
  refine ⟨by rw [last, time]; exact spaced.past, due.erase pid, fun q kid' found => ?_, ?_⟩
  · rcases update_eq_some.mp found with ⟨-, same⟩ | ⟨other, found⟩
    · cases congrArg Prod.snd same
    · exact Finset.mem_erase.mpr ⟨other, covers q kid' found⟩
  · have card := Finset.card_erase_add_one (covers pid kid here)
    have total : (h ++ [l]).countP asks + (due.erase pid).card = h.countP asks + due.card := by
      rw [List.countP_append, List.countP_singleton, asked, if_pos rfl]
      omega
    rw [total, last]
    exact enough

/-- The window is over: a refresh is due, and the next window begins. -/
private theorem Spaced.claim (spaced : Spaced debounce clock h w view) (window : 0 ≤ debounce)
    (ended : debounce ≤ w.clock - w.lastRefresh) (silent : asks l = false) :
    Spaced debounce clock (h ++ [l]) { w with lastRefresh := w.clock }
      (Function.update view pid (some (kid, true))) := by
  obtain ⟨due, covers, enough⟩ := spaced.windows
  refine ⟨le_rfl, insert pid due, fun q kid' found => ?_, ?_⟩
  · rcases update_eq_some.mp found with ⟨rfl, -⟩ | ⟨-, found⟩
    · exact Finset.mem_insert_self _ _
    · exact Finset.mem_insert_of_mem (covers q kid' found)
  · have card := Finset.card_insert_le pid due
    have total : (h ++ [l]).countP asks + (insert pid due).card ≤
        h.countP asks + due.card + 1 := by
      rw [List.countP_append, List.countP_singleton, silent]
      simp only [Bool.false_eq_true, if_false]
      omega
    calc (((h ++ [l]).countP asks + (insert pid due).card : Nat) : Int) * debounce
        ≤ ((h.countP asks + due.card + 1 : Nat) : Int) * debounce :=
          mul_le_mul_of_nonneg_right (Int.ofNat_le.mpr total) window
      _ = ((h.countP asks + due.card : Nat) : Int) * debounce + debounce := by
          push_cast
          ring
      _ ≤ w.clock - clock := by omega

private theorem spaced_preserved (window : 0 ≤ debounce) :
    (@jwksSystem Key debounce).Preserves windowProtocol (fun _ => false) (fun _ _ => True)
      (Spaced debounce clock) where
  answers _ _ := trivial
  faults _ _ _ := trivial
  spawn := by
    intro h s pid kid _ _ spaced
    exact spaced.quiet rfl (fun bad => nomatch bad) rfl le_rfl
  env := by
    rintro h s w - ⟨time, provider, later, rfl⟩ spaced
    obtain ⟨due, covers, enough⟩ := spaced.windows
    exact ⟨spaced.past.trans later, due, covers, by simpa [asks] using enough⟩
  call := by
    intro h s pid kid st c _ here allowed _ spaced
    cases c with
    | read => exact spaced.quiet rfl (fun same => ⟨kid, same ▸ here⟩) rfl le_rfl
    | claim =>
      change Spaced _ _ _ (JwksCall.exec debounce .claim s.world).2 (Function.update _ pid
        (some (kid, windowProtocol.track st .claim (JwksCall.exec debounce .claim s.world).1)))
      -- a look-up that is let through has waited out the window, and takes the next one
      by_cases early : s.world.clock - s.world.lastRefresh < debounce
      · rw [show JwksCall.exec debounce .claim s.world = (.ok false, s.world) from if_pos early]
        exact spaced.quiet rfl (fun bad => nomatch bad) rfl le_rfl
      · rw [show JwksCall.exec debounce .claim s.world =
          (.ok true, { s.world with lastRefresh := s.world.clock }) from if_neg early]
        exact spaced.claim window (not_lt.mp early) rfl
    | send =>
      -- the request spends the window that its look-up has taken
      cases allowed
      exact spaced.send here rfl rfl rfl
    | receive request =>
      change Spaced _ _ _ (if s.world.provider = [] then s.world
        else { s.world with answered := request }) _
      split
      · exact spaced.quiet rfl (fun same => ⟨kid, same ▸ here⟩) rfl le_rfl
      · exact spaced.quiet rfl (fun same => ⟨kid, same ▸ here⟩) rfl le_rfl
    | install request keys => exact spaced.quiet rfl (fun same => ⟨kid, same ▸ here⟩) rfl le_rfl
  fault := by
    intro h s pid kid st c e _ here allowed mayFail spaced
    cases c with
    | send =>
      cases allowed
      exact spaced.send here rfl rfl rfl
    | receive => exact spaced.quiet rfl (fun same => ⟨kid, same ▸ here⟩) rfl le_rfl
    | _ => exact mayFail.elim
  drop := by
    intro h s pid kid past _ _ _ spaced
    obtain ⟨due, covers, enough⟩ := spaced.windows
    exact ⟨spaced.past, due, fun q kid' found => covers q kid' (of_update_none found),
      by simpa [asks, jwksSystem] using enough⟩

end Spaced

/-- **Fetches are debounced**. In every run of look-ups, with any keys, interleaving and failures,
    the requests to the provider take at least a window each. -/
theorem fetches_debounced {debounce : Int} (window : 0 ≤ debounce) {keys : KeySet Key}
    {clock : Int} {h : List (JwksLabel Key)} {s : JwksPool Key}
    (run : (jwksSystem debounce).Trace (fun _ _ => True) (builtStore keys clock) h s) :
    (h.countP asks : Int) * debounce ≤ s.world.clock - clock := by
  obtain ⟨-, past, due, -, enough⟩ := System.invariant_of_trace
    (fun _ _ kid _ => JwksStore.prog_window kid) (@spaced_preserved Key debounce clock window) run
    (System.obeyed_of_no_procs _)
    ⟨le_rfl, ∅, fun _ _ bad => (nomatch bad), by simp [builtStore]⟩
  have fewer : (h.countP asks : Int) * debounce ≤
      ((h.countP asks + due.card : Nat) : Int) * debounce :=
    mul_le_mul_of_nonneg_right (Int.ofNat_le.mpr (Nat.le_add_right _ _)) window
  omega

/-- Two look-ups that miss, seven seconds apart, each ask. -/
theorem fetches_debounced_overtaken :
    ((((anyScheduler.play overtaken [] (builtStore oldKeys 0)).get overtaken_played).1.countP asks :
      Nat) : Int) * 5 ≤ overtakenPool.world.clock - 0 :=
  fetches_debounced (by decide) (anyScheduler.trace_of_play overtaken _ overtaken_played)

end RustApi.Auth
