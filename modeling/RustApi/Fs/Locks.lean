import RustApi.Fs.System
import Mathlib

/-!
# The session lock table

`SessionLocks` keeps one asynchronous mutex for each upload session while somebody has a claim
on it. Claims register, wait, lock, unlock and leave in any order, and a future that waits for the
mutex may be dropped. Each access to the map is one step, because the map is behind a mutex that
is never held across an await.

## Main results

- `locks_exclusive`: nobody else holds the lock of a session that is held, and the map has an
  entry for a session exactly while there is a claim on it.
- `locks_refine`: seen from the outside the table is the list of held sessions that the
  engine's programs lock and unlock.
-/

namespace RustApi

open Lib

/-! ### The mutex of one session -/

/-- `tokio::sync::Mutex<()>`, used by any number of claims under their names. `poll` polls the
    future of `lock`, and answers whether it came back with the guard. -/
structure AsyncMutex (σ : Type) where
  new : σ
  poll : Nat → σ → Bool × σ
  cancel : Nat → σ → σ
  unlock : Nat → σ → σ

/-- A guard is given out only while there is no other; `holder` tells who has it. -/
structure AsyncMutex.Exclusive {σ : Type} (m : AsyncMutex σ) (holder : σ → Option Nat) : Prop where
  new : holder m.new = none
  ready : ∀ id s, (m.poll id s).1 = true → holder s = none ∧ holder (m.poll id s).2 = some id
  pending : ∀ id s, (m.poll id s).1 = false → holder (m.poll id s).2 = holder s
  cancel : ∀ id s, holder s ≠ some id → holder (m.cancel id s) = holder s
  unlock : ∀ id s, holder s = some id → holder (m.unlock id s) = none

/-! ### The table -/

/-- One session's lock behind its `Arc`, with the number of references. -/
structure SessionEntry (σ : Type) where
  lock : σ
  claims : UInt64
  strong : Nat

/-- How far a claim has come. -/
inductive ClaimPhase where
  | registered
  | waiting
  | holding
  deriving DecidableEq

/-- A claim, with a name of its own and the address of its entry. -/
structure SessionLock where
  id : Nat
  key : String
  entry : Nat
  phase : ClaimPhase
  deriving DecidableEq

/-- The map of the table, the entries by address, and the claims that were not dropped yet. An
    address is not used twice: nothing refers to an entry that was freed. -/
structure SessionLocks (σ : Type) where
  map : Kv Nat
  poisoned : Bool
  entries : Nat → SessionEntry σ
  fresh : Nat
  claims : List SessionLock

/-- `isize::MAX`, past which `Arc::clone` aborts the process. -/
def maxRefcount : Nat := 2 ^ 63 - 1

namespace SessionLocks

variable {σ : Type} (m : AsyncMutex σ)

def new : SessionLocks σ := ⟨∅, false, fun _ => ⟨m.new, 0, 0⟩, 0, []⟩

def find (id : Nat) (s : SessionLocks σ) : Option SessionLock :=
  s.claims.find? fun c => c.id = id

def insertEntry (key : String) (s : SessionLocks σ) : SessionLocks σ :=
  { s with
    map := s.map.insert key s.fresh
    entries := Function.update s.entries s.fresh ⟨m.new, 0, 1⟩
    fresh := s.fresh + 1 }

/-- `entry(key).or_insert_with(..)`: the address of the entry. -/
def entryFor (key : String) (s : SessionLocks σ) : Nat × SessionLocks σ :=
  match s.map[key]? with
  | some addr => (addr, s)
  | none => (s.fresh, s.insertEntry m key)

/-- `Arc::clone` and `fetch_add`, and the claim that comes of them. -/
def register (id : Nat) (key : String) (addr : Nat) (s : SessionLocks σ) :
    Option (SessionLocks σ) :=
  let e := s.entries addr
  -- `Arc::clone` aborts here; the counter of the claims wraps, as `fetch_add` does
  if maxRefcount < e.strong then none
  else some { s with
    entries := Function.update s.entries addr ⟨e.lock, e.claims + 1, e.strong + 1⟩
    claims := ⟨id, key, addr, .registered⟩ :: s.claims }

/-- `SessionLocks::acquire`, which does not look at poison. -/
def acquire (id : Nat) (key : String) (s : SessionLocks σ) : Option (SessionLocks σ) :=
  -- the name of a claim is not used again while it is there
  if s.claims.any fun c => c.id = id then none
  else
    let (addr, s) := s.entryFor m key
    s.register id key addr

/-- What a use of its mutex leaves of a claim. -/
def settle (c : SessionLock) (lock : σ) (phase : ClaimPhase) (s : SessionLocks σ) :
    SessionLocks σ :=
  { s with
    entries := Function.update s.entries c.entry { s.entries c.entry with lock := lock }
    claims := s.claims.map fun d => if d.id = c.id then { d with phase := phase } else d }

/-- `SessionLock::acquire`, polled once. -/
def poll (id : Nat) (s : SessionLocks σ) : Option (SessionLocks σ) :=
  match s.find id with
  | none => none
  | some c =>
    if c.phase = .holding then none
    else
      let (ready, lock) := m.poll id (s.entries c.entry).lock
      some (s.settle c lock (if ready then .holding else .waiting))

/-- The future of `SessionLock::acquire` is dropped before it is ready. -/
def cancel (id : Nat) (s : SessionLocks σ) : Option (SessionLocks σ) :=
  match s.find id with
  | none => none
  | some c =>
    if c.phase = .waiting then
      some (s.settle c (m.cancel id (s.entries c.entry).lock) .registered)
    else none

/-- The guard is dropped. -/
def unlock (id : Nat) (s : SessionLocks σ) : Option (SessionLocks σ) :=
  match s.find id with
  | none => none
  | some c =>
    if c.phase = .holding then
      some (s.settle c (m.unlock id (s.entries c.entry).lock) .registered)
    else none

/-- Give one reference of an entry back. -/
def release (addr : Nat) (s : SessionLocks σ) : SessionLocks σ :=
  let e := s.entries addr
  { s with entries := Function.update s.entries addr { e with strong := e.strong - 1 } }

/-- `SessionLock::drop`, the body. -/
def leave (c : SessionLock) (s : SessionLocks σ) : SessionLocks σ :=
  -- `map.lock()` is a poisoned lock: `drop` returns
  if s.poisoned then s
  -- `Arc::ptr_eq` with the entry under the key
  else if s.map[c.key]? ≠ some c.entry then s
  else
    let e := s.entries c.entry
    let s := { s with
      entries := Function.update s.entries c.entry { e with claims := e.claims - 1 } }
    -- `fetch_sub` answers the count before
    if e.claims = 1 then { s with map := s.map.erase c.key }.release c.entry else s

/-- A claim is dropped. Its future and its guard borrow it, so they are gone before. -/
def drop (id : Nat) (s : SessionLocks σ) : Option (SessionLocks σ) :=
  match s.find id with
  | none => none
  | some c =>
    if c.phase = .registered then
      let s := (s.leave c).release c.entry
      some { s with claims := s.claims.filter fun d => d.id ≠ id }
    else none

end SessionLocks

/-- One step of somebody who uses the table. -/
inductive LockEvent where
  | acquire (id : Nat) (key : String)
  | poll (id : Nat)
  | cancel (id : Nat)
  | unlock (id : Nat)
  | drop (id : Nat)

namespace SessionLocks

variable {σ : Type} (m : AsyncMutex σ)

/-- A step, when it can be taken. -/
def step (s : SessionLocks σ) : LockEvent → Option (SessionLocks σ)
  | .acquire id key => s.acquire m id key
  | .poll id => s.poll m id
  | .cancel id => s.cancel m id
  | .unlock id => s.unlock m id
  | .drop id => s.drop id

def run (events : List LockEvent) : Option (SessionLocks σ) := events.foldlM (step m) (new m)

/-! ### The invariant -/

/-- The claims on a session. -/
def count (key : String) (s : SessionLocks σ) : Nat :=
  s.claims.countP fun c => c.key = key

variable (holder : σ → Option Nat)

/-- The claims, the map and the entries agree. -/
structure Counted (s : SessionLocks σ) : Prop where
  unpoisoned : s.poisoned = false
  names : (s.claims.map (·.id)).Nodup
  /-- all claims on a session share the entry that the map has -/
  mapped : ∀ c ∈ s.claims, s.map[c.key]? = some c.entry
  known : ∀ (key : String) addr, s.map[key]? = some addr → addr < s.fresh
  apart : ∀ (key key' : String) addr, s.map[key]? = some addr → s.map[key']? = some addr →
    key = key'
  counts : ∀ (key : String) addr, s.map[key]? = some addr →
    (s.entries addr).claims.toNat = s.count key ∧ (s.entries addr).strong = s.count key + 1
  holding : ∀ c ∈ s.claims, c.phase = .holding → holder (s.entries c.entry).lock = some c.id
  held : ∀ (key : String) addr id, s.map[key]? = some addr →
    holder (s.entries addr).lock = some id →
      ∃ c ∈ s.claims, c.id = id ∧ c.entry = addr ∧ c.phase = .holding

/-- Every entry of the map is there for a claim. -/
def Claimed (s : SessionLocks σ) : Prop := ∀ key ∈ s.map, ∃ c ∈ s.claims, c.key = key

variable {m holder}

theorem find_eq_some {s : SessionLocks σ} {id : Nat} {c : SessionLock}
    (found : s.find id = some c) : c ∈ s.claims ∧ c.id = id :=
  ⟨List.mem_of_find?_eq_some found, of_decide_eq_true (List.find?_some found :)⟩

theorem counted_new : Counted holder (new m) := by
  have empty : ∀ (key : String) addr, (∅ : Kv Nat)[key]? ≠ some addr := by simp
  exact ⟨rfl, List.nodup_nil, nofun, fun key addr there => absurd there (empty key addr),
    fun key _ addr there => absurd there (empty key addr),
    fun key addr there => absurd there (empty key addr), nofun,
    fun key addr _ there => absurd there (empty key addr)⟩

theorem Counted.same {s : SessionLocks σ} (counted : Counted holder s) {c d : SessionLock}
    (mem : c ∈ s.claims) (mem' : d ∈ s.claims) (ids : c.id = d.id) : c = d :=
  List.inj_on_of_nodup_map counted.names mem mem' ids

/-! ### Waiting, locking and unlocking -/

theorem mem_settle {s : SessionLocks σ} {c d : SessionLock} {lock : σ} {phase : ClaimPhase} :
    d ∈ (s.settle c lock phase).claims ↔
      ∃ d' ∈ s.claims, (if d'.id = c.id then { d' with phase := phase } else d') = d :=
  List.mem_map

theorem count_settle (s : SessionLocks σ) (c : SessionLock) (lock : σ) (phase : ClaimPhase)
    (key : String) : (s.settle c lock phase).count key = s.count key := by
  rw [count, count, SessionLocks.settle, List.countP_map]
  refine List.countP_congr fun d _ => ?_
  simp only [Function.comp_apply]
  split <;> exact Iff.rfl

/-- A use of the mutex which gives the guard to nobody else and takes it from nobody else. -/
theorem Counted.settle {s : SessionLocks σ} (counted : Counted holder s) {c : SessionLock}
    (mem : c ∈ s.claims) {lock : σ} {phase : ClaimPhase}
    (mine : holder lock = some c.id ↔ phase = .holding)
    (others : ∀ id ≠ c.id, holder lock = some id ↔ holder (s.entries c.entry).lock = some id) :
    Counted holder (s.settle c lock phase) := by
  have here : (s.settle c lock phase).entries c.entry = { s.entries c.entry with lock := lock } :=
    Function.update_self ..
  have there : ∀ addr, addr ≠ c.entry → (s.settle c lock phase).entries addr = s.entries addr :=
    fun addr apart => Function.update_of_ne apart ..
  constructor
  · exact counted.unpoisoned
  · have ids : (s.settle c lock phase).claims.map (·.id) = s.claims.map (·.id) := by
      rw [SessionLocks.settle, List.map_map]
      refine List.map_congr_left fun d _ => ?_
      simp only [Function.comp_apply]
      split <;> rfl
    rw [ids]
    exact counted.names
  · intro d mem_d
    obtain ⟨d', mem', rfl⟩ := mem_settle.mp mem_d
    have mapped := counted.mapped d' mem'
    split <;> exact mapped
  · exact counted.known
  · exact counted.apart
  · -- the counters are not touched
    intro key addr found
    rw [count_settle]
    by_cases same : addr = c.entry
    · subst same
      rw [here]
      exact counted.counts key _ found
    · rw [there addr same]
      exact counted.counts key addr found
  · -- a claim with the guard is `c` itself, or had it before
    intro d mem_d holding
    obtain ⟨d', mem', rfl⟩ := mem_settle.mp mem_d
    split at holding
    next mineId =>
      obtain rfl := counted.same mem' mem mineId
      rw [if_pos mineId, here]
      exact mine.mpr holding
    next otherId =>
      rw [if_neg otherId]
      have before := counted.holding d' mem' holding
      by_cases same : d'.entry = c.entry
      · rw [same, here]
        exact (others d'.id otherId).mpr (same ▸ before)
      · rw [there d'.entry same]
        exact before
  · -- who holds the lock of an entry is `c`, or held it before
    intro key addr id found held
    by_cases same : addr = c.entry
    · subst same
      rw [here] at held
      by_cases mineId : id = c.id
      · subst mineId
        exact ⟨_, mem_settle.mpr ⟨c, mem, if_pos rfl⟩, rfl, rfl, mine.mp held⟩
      · obtain ⟨d, mem_d, rfl, entry, holding⟩ :=
          counted.held key _ id found ((others id mineId).mp held)
        exact ⟨d, mem_settle.mpr ⟨d, mem_d, if_neg mineId⟩, rfl, entry, holding⟩
    · rw [there addr same] at held
      obtain ⟨d, mem_d, rfl, entry, holding⟩ := counted.held key addr id found held
      have otherId : d.id ≠ c.id := by
        intro ids
        obtain rfl := counted.same mem_d mem ids
        exact same entry.symm
      exact ⟨d, mem_settle.mpr ⟨d, mem_d, if_neg otherId⟩, rfl, entry, holding⟩

theorem Claimed.settle {s : SessionLocks σ} (claimed : Claimed s) (c : SessionLock) (lock : σ)
    (phase : ClaimPhase) : Claimed (s.settle c lock phase) := by
  intro key mem
  obtain ⟨d, mem_d, rfl⟩ := claimed key mem
  refine ⟨_, mem_settle.mpr ⟨d, mem_d, rfl⟩, ?_⟩
  split <;> rfl

/-! What the three uses of a mutex do to a claim. -/

theorem poll_spec (exclusive : m.Exclusive holder) {s s' : SessionLocks σ} {id : Nat}
    (step : s.poll m id = some s') : ∃ c ∈ s.claims, c.phase ≠ .holding ∧ ∃ lock,
      s' = s.settle c lock .holding ∧ holder (s.entries c.entry).lock = none ∧
          holder lock = some c.id ∨
        s' = s.settle c lock .waiting ∧ holder lock = holder (s.entries c.entry).lock := by
  unfold SessionLocks.poll at step
  split at step
  next => cases step
  next c found =>
    obtain ⟨mem, rfl⟩ := find_eq_some found
    split at step
    next => cases step
    next free =>
      cases step
      refine ⟨c, mem, free, (m.poll c.id (s.entries c.entry).lock).2, ?_⟩
      cases ready : (m.poll c.id (s.entries c.entry).lock).1 with
      | true => exact .inl ⟨rfl, exclusive.ready _ _ ready⟩
      | false => exact .inr ⟨rfl, exclusive.pending _ _ ready⟩

theorem Counted.not_held {s : SessionLocks σ} (counted : Counted holder s) {c : SessionLock}
    (mem : c ∈ s.claims) (free : c.phase ≠ .holding) :
    holder (s.entries c.entry).lock ≠ some c.id := by
  intro held
  obtain ⟨d, mem_d, ids, -, holding⟩ :=
    counted.held c.key c.entry c.id (counted.mapped c mem) held
  obtain rfl := counted.same mem_d mem ids
  exact free holding

theorem cancel_spec (exclusive : m.Exclusive holder) {s s' : SessionLocks σ} {id : Nat}
    (counted : Counted holder s) (step : s.cancel m id = some s') :
    ∃ c ∈ s.claims, c.phase ≠ .holding ∧ ∃ lock, s' = s.settle c lock .registered ∧
      holder lock = holder (s.entries c.entry).lock := by
  unfold SessionLocks.cancel at step
  split at step
  next => cases step
  next c found =>
    obtain ⟨mem, rfl⟩ := find_eq_some found
    split at step
    next waiting =>
      cases step
      have free : c.phase ≠ .holding := by
        rw [waiting]
        nofun
      exact ⟨c, mem, free, _, rfl, exclusive.cancel _ _ (counted.not_held mem free)⟩
    next => cases step

theorem unlock_spec (exclusive : m.Exclusive holder) {s s' : SessionLocks σ} {id : Nat}
    (counted : Counted holder s) (step : s.unlock m id = some s') :
    ∃ c ∈ s.claims, c.phase = .holding ∧ holder (s.entries c.entry).lock = some c.id ∧
      ∃ lock, s' = s.settle c lock .registered ∧ holder lock = none := by
  unfold SessionLocks.unlock at step
  split at step
  next => cases step
  next c found =>
    obtain ⟨mem, rfl⟩ := find_eq_some found
    split at step
    next holding =>
      cases step
      have mine := counted.holding c mem holding
      exact ⟨c, mem, holding, mine, _, rfl, exclusive.unlock _ _ mine⟩
    next => cases step

theorem Counted.poll (exclusive : m.Exclusive holder) {s s' : SessionLocks σ} {id : Nat}
    (counted : Counted holder s) (step : s.poll m id = some s') : Counted holder s' := by
  obtain ⟨c, mem, free, lock, ⟨rfl, nobody, mine⟩ | ⟨rfl, same⟩⟩ := poll_spec exclusive step
  · refine counted.settle mem ⟨fun _ => rfl, fun _ => mine⟩ fun other apart => ?_
    rw [nobody, mine]
    exact ⟨fun eq => absurd (Option.some.inj eq).symm apart, nofun⟩
  · refine counted.settle mem ?_ fun other _ => by rw [same]
    rw [same]
    exact ⟨fun held => absurd held (counted.not_held mem free), nofun⟩

theorem Counted.cancel (exclusive : m.Exclusive holder) {s s' : SessionLocks σ} {id : Nat}
    (counted : Counted holder s) (step : s.cancel m id = some s') : Counted holder s' := by
  obtain ⟨c, mem, free, lock, rfl, same⟩ := cancel_spec exclusive counted step
  refine counted.settle mem ?_ fun other _ => by rw [same]
  rw [same]
  exact ⟨fun held => absurd held (counted.not_held mem free), nofun⟩

theorem Counted.unlock (exclusive : m.Exclusive holder) {s s' : SessionLocks σ} {id : Nat}
    (counted : Counted holder s) (step : s.unlock m id = some s') : Counted holder s' := by
  obtain ⟨c, mem, -, mine, lock, rfl, nobody⟩ := unlock_spec exclusive counted step
  refine counted.settle mem ?_ fun other apart => ?_
  · rw [nobody]
    exact ⟨nofun, nofun⟩
  · rw [nobody, mine]
    exact ⟨nofun, fun eq => absurd (Option.some.inj eq).symm apart⟩

/-! ### Registering -/

theorem get_insertEntry {s : SessionLocks σ} {key key' : String} {addr : Nat} :
    (s.insertEntry m key).map[key']? = some addr ↔
      key' = key ∧ addr = s.fresh ∨ key' ≠ key ∧ s.map[key']? = some addr := by
  change (s.map.insert key s.fresh)[key']? = some addr ↔ _
  rw [Kv.get_insert]
  by_cases same : key = key'
  · simp [same, eq_comm]
  · simp [same, Ne.symm same]

/-- A new entry for a session that nobody has a claim on. -/
theorem Counted.insertEntry (exclusive : m.Exclusive holder) {s : SessionLocks σ}
    (counted : Counted holder s) {key : String} (missing : s.map[key]? = none) :
    Counted holder (s.insertEntry m key) := by
  have nobody : ∀ c ∈ s.claims, c.key ≠ key := by
    rintro c mem rfl
    cases missing.symm.trans (counted.mapped c mem)
  have new : (s.insertEntry m key).entries s.fresh = ⟨m.new, 0, 1⟩ := Function.update_self ..
  have old : ∀ key' addr, s.map[key']? = some addr →
      (s.insertEntry m key).entries addr = s.entries addr := fun key' addr found =>
    Function.update_of_ne (counted.known key' addr found).ne ..
  constructor
  · exact counted.unpoisoned
  · exact counted.names
  · exact fun c mem => get_insertEntry.mpr (.inr ⟨nobody c mem, counted.mapped c mem⟩)
  · intro key' addr found
    rcases get_insertEntry.mp found with ⟨-, rfl⟩ | ⟨-, found⟩
    · exact Nat.lt_succ_self _
    · exact (counted.known key' addr found).trans (Nat.lt_succ_self _)
  · -- the address of the new entry is not in the map yet
    intro key₁ key₂ addr found₁ found₂
    rcases get_insertEntry.mp found₁ with ⟨rfl, rfl⟩ | ⟨-, found₁⟩
    · rcases get_insertEntry.mp found₂ with ⟨rfl, -⟩ | ⟨-, found₂⟩
      · rfl
      · exact absurd (counted.known key₂ _ found₂) (lt_irrefl _)
    · rcases get_insertEntry.mp found₂ with ⟨-, rfl⟩ | ⟨-, found₂⟩
      · exact absurd (counted.known key₁ _ found₁) (lt_irrefl _)
      · exact counted.apart key₁ key₂ addr found₁ found₂
  · intro key' addr found
    rcases get_insertEntry.mp found with ⟨rfl, rfl⟩ | ⟨-, found⟩
    · have none_yet : (s.insertEntry m key').count key' = 0 := by
        rw [count, List.countP_eq_zero]
        exact fun c mem same => nobody c mem (of_decide_eq_true same)
      rw [none_yet, new]
      exact ⟨rfl, rfl⟩
    · rw [old key' addr found]
      exact counted.counts key' addr found
  · intro c mem holding
    rw [old c.key c.entry (counted.mapped c mem)]
    exact counted.holding c mem holding
  · intro key' addr id found held
    rcases get_insertEntry.mp found with ⟨-, rfl⟩ | ⟨-, found⟩
    · rw [new, exclusive.new] at held
      cases held
    · rw [old key' addr found] at held
      exact counted.held key' addr id found held

/-- After `or_insert_with` the entry is in the map. -/
theorem Counted.entryFor (exclusive : m.Exclusive holder) {s : SessionLocks σ}
    (counted : Counted holder s) (key : String) :
    Counted holder (s.entryFor m key).2 ∧ (s.entryFor m key).2.claims = s.claims ∧
      (s.entryFor m key).2.map[key]? = some (s.entryFor m key).1 ∧
      ∀ key' ∈ (s.entryFor m key).2.map, key' = key ∨ key' ∈ s.map := by
  unfold SessionLocks.entryFor
  split
  next addr found => exact ⟨counted, rfl, found, fun _ => .inr⟩
  next missing =>
    refine ⟨counted.insertEntry exclusive missing, rfl, get_insertEntry.mpr (.inl ⟨rfl, rfl⟩),
      fun key' mem => ?_⟩
    obtain ⟨addr, found⟩ := Kv.mem_iff_get.mp mem
    exact (get_insertEntry.mp found).imp (·.1) fun found => Kv.mem_iff_get.mpr ⟨addr, found.2⟩

theorem register_spec {s s' : SessionLocks σ} {id : Nat} {key : String} {addr : Nat}
    (step : s.register id key addr = some s') :
    (s.entries addr).strong ≤ maxRefcount ∧ s'.poisoned = s.poisoned ∧ s'.map = s.map ∧
      s'.fresh = s.fresh ∧ s'.claims = ⟨id, key, addr, .registered⟩ :: s.claims ∧
      s'.entries addr = ⟨(s.entries addr).lock, (s.entries addr).claims + 1,
        (s.entries addr).strong + 1⟩ ∧ ∀ a ≠ addr, s'.entries a = s.entries a := by
  unfold SessionLocks.register at step
  dsimp only at step
  split at step
  next => cases step
  next room =>
    cases step
    exact ⟨Nat.le_of_not_lt room, rfl, rfl, rfl, rfl, Function.update_self ..,
      fun a apart => Function.update_of_ne apart ..⟩

theorem Counted.register {s s' : SessionLocks σ} (counted : Counted holder s) {id : Nat}
    {key : String} {addr : Nat} (found : s.map[key]? = some addr)
    (unused : ∀ c ∈ s.claims, c.id ≠ id) (step : s.register id key addr = some s') :
    Counted holder s' := by
  obtain ⟨room, poisoned, map, fresh, claims, here, there⟩ := register_spec step
  have lock : ∀ a, (s'.entries a).lock = (s.entries a).lock := by
    intro a
    by_cases same : a = addr
    · rw [same, here]
    · rw [there a same]
  -- one more claim on the key, and one more reference to its entry
  have counts : ∀ key', s'.count key' = s.count key' + if key = key' then 1 else 0 := by
    intro key'
    simp only [count, claims, List.countP_cons, decide_eq_true_eq]
  constructor
  · rw [poisoned]
    exact counted.unpoisoned
  · rw [claims]
    refine List.nodup_cons.mpr ⟨fun mem => ?_, counted.names⟩
    obtain ⟨c, mem, same⟩ := List.mem_map.mp mem
    exact unused c mem same
  · rw [claims, map]
    intro c mem
    rcases List.mem_cons.mp mem with rfl | mem
    · exact found
    · exact counted.mapped c mem
  · rw [map, fresh]
    exact counted.known
  · rw [map]
    exact counted.apart
  · rw [map]
    intro key' addr' found'
    rw [counts]
    by_cases same : addr' = addr
    · -- one more on both sides, and below the bound of the references
      subst same
      obtain rfl := counted.apart key' key addr' found' found
      obtain ⟨claimed, strong⟩ := counted.counts key' addr' found
      rw [here, if_pos rfl]
      refine ⟨?_, congrArg (· + 1) strong⟩
      rw [UInt64.toNat_add, claimed, UInt64.toNat_one]
      rw [strong, maxRefcount] at room
      omega
    · have other : key ≠ key' := by
        rintro rfl
        cases found.symm.trans found'
        exact same rfl
      rw [there addr' same, if_neg other]
      exact counted.counts key' addr' found'
  · rw [claims]
    intro c mem holding
    rw [lock]
    rcases List.mem_cons.mp mem with rfl | mem
    · cases holding
    · exact counted.holding c mem holding
  · rw [claims, map]
    intro key' addr' id' found' held
    rw [lock] at held
    obtain ⟨c, mem, known⟩ := counted.held key' addr' id' found' held
    exact ⟨c, List.mem_cons_of_mem _ mem, known⟩

theorem acquire_spec (exclusive : m.Exclusive holder) {s s' : SessionLocks σ} {id : Nat}
    {key : String} (counted : Counted holder s) (step : s.acquire m id key = some s') :
    Counted holder s' ∧ (∀ key' ∈ s'.map, key' = key ∨ key' ∈ s.map) ∧
      ∃ addr, s'.claims = ⟨id, key, addr, .registered⟩ :: s.claims := by
  unfold SessionLocks.acquire at step
  split at step
  next => cases step
  next unused =>
    obtain ⟨counted, claims, found, keys⟩ := counted.entryFor exclusive key
    have unused : ∀ c ∈ (s.entryFor m key).2.claims, c.id ≠ id := by
      rw [claims]
      simpa using unused
    obtain ⟨-, -, map, -, claims', -⟩ := register_spec step
    rw [map, claims']
    exact ⟨counted.register found unused step, keys, (s.entryFor m key).1,
      congrArg (List.cons _) claims⟩

/-! ### Leaving -/

/-- What is left when the claim `c` is dropped: the entry leaves the map with the last claim. -/
structure Left (c : SessionLock) (s s' : SessionLocks σ) : Prop where
  mem : c ∈ s.claims
  free : c.phase ≠ .holding
  poisoned : s'.poisoned = s.poisoned
  fresh : s'.fresh = s.fresh
  claims : s'.claims = s.claims.filter fun d => d.id ≠ c.id
  there : ∀ a ≠ c.entry, s'.entries a = s.entries a
  map : (s.entries c.entry).claims = 1 ∧ s'.map = s.map.erase c.key ∨
    (s.entries c.entry).claims ≠ 1 ∧ s'.map = s.map ∧
      s'.entries c.entry = ⟨(s.entries c.entry).lock, (s.entries c.entry).claims - 1,
        (s.entries c.entry).strong - 1⟩

theorem drop_spec {s s' : SessionLocks σ} {id : Nat} (counted : Counted holder s)
    (step : s.drop id = some s') : ∃ c, Left c s s' := by
  unfold SessionLocks.drop at step
  split at step
  next => cases step
  next c found =>
    obtain ⟨mem, rfl⟩ := find_eq_some found
    split at step
    next registered =>
      cases step
      have free : c.phase ≠ .holding := by
        rw [registered]
        nofun
      refine ⟨c, ?_⟩
      simp only [leave, counted.unpoisoned, Bool.false_eq_true, if_false,
        counted.mapped c mem, ne_eq, not_true_eq_false]
      split
      next last =>
        refine ⟨mem, free, counted.unpoisoned.symm, rfl, rfl, fun a apart => ?_, .inl ⟨last, rfl⟩⟩
        simp only [release, Function.update_of_ne apart]
      next others =>
        refine ⟨mem, free, counted.unpoisoned.symm, rfl, rfl, fun a apart => ?_,
          .inr ⟨others, rfl, ?_⟩⟩
        · simp only [release, Function.update_of_ne apart]
        · simp only [release, Function.update_self]
    next => cases step

/-- The claims of the others. -/
theorem Counted.others {s : SessionLocks σ} (counted : Counted holder s) {c : SessionLock}
    (mem : c ∈ s.claims) {d : SessionLock} :
    d ∈ s.claims.filter (fun d => d.id ≠ c.id) ↔ d ∈ s.claims ∧ d ≠ c := by
  rw [List.mem_filter, decide_eq_true_eq]
  refine and_congr_right fun mem_d => not_congr ⟨counted.same mem_d mem, ?_⟩
  rintro rfl
  rfl

theorem Counted.filter_others {s : SessionLocks σ} (counted : Counted holder s) {c : SessionLock}
    (mem : c ∈ s.claims) : (s.claims.filter fun d => d.id ≠ c.id) = s.claims.erase c := by
  rw [(List.Nodup.of_map _ counted.names).erase_eq_filter]
  refine List.filter_congr fun d mem_d => ?_
  rw [bne, Bool.eq_iff_iff, decide_eq_true_eq, Bool.not_eq_true', beq_eq_false_iff_ne]
  exact not_congr ⟨counted.same mem_d mem, fun same => same ▸ rfl⟩

section Leaving

variable {s s' : SessionLocks σ} {c : SessionLock}

theorem Left.mem_iff (left : Left c s s') (counted : Counted holder s) {d : SessionLock} :
    d ∈ s'.claims ↔ d ∈ s.claims ∧ d ≠ c :=
  left.claims ▸ counted.others left.mem

/-- One claim less on the session of the claim that was dropped. -/
theorem Left.count (left : Left c s s') (counted : Counted holder s) (key : String) :
    s.count key = s'.count key + if c.key = key then 1 else 0 := by
  rw [SessionLocks.count, SessionLocks.count, left.claims, counted.filter_others left.mem,
    (List.perm_cons_erase left.mem).countP_eq, List.countP_cons]
  simp only [decide_eq_true_eq]

/-- The counter of the entry tells whether the claim was the last. -/
theorem Left.count_ne_zero (left : Left c s s') (counted : Counted holder s)
    (others : (s.entries c.entry).claims ≠ 1) : s'.count c.key ≠ 0 := by
  intro none
  have total := (counted.counts c.key c.entry (counted.mapped c left.mem)).1
  rw [left.count counted, none, if_pos rfl] at total
  exact others (UInt64.toNat_inj.mp total)

/-- What the map still has, and what has become of the entry. -/
theorem Left.kept (left : Left c s s') (counted : Counted holder s) {key : String} {addr : Nat}
    (found : s'.map[key]? = some addr) : s.map[key]? = some addr ∧
      (key ≠ c.key ∧ s'.entries addr = s.entries addr ∨
        key = c.key ∧ s'.count c.key ≠ 0 ∧ s'.entries addr = ⟨(s.entries addr).lock,
          (s.entries addr).claims - 1, (s.entries addr).strong - 1⟩) := by
  have away : key ≠ c.key → s.map[key]? = some addr → s'.entries addr = s.entries addr := by
    intro apart found
    refine left.there addr ?_
    rintro rfl
    exact apart (counted.apart key c.key c.entry found (counted.mapped c left.mem))
  rcases left.map with ⟨-, map⟩ | ⟨others, map, here⟩
  · -- the entry of the last claim is gone, so `key` is another session
    rw [map, Kv.get_erase] at found
    split at found
    next => cases found
    next apart => exact ⟨found, .inl ⟨Ne.symm apart, away (Ne.symm apart) found⟩⟩
  · rw [map] at found
    by_cases same : key = c.key
    · subst same
      cases found.symm.trans (counted.mapped c left.mem)
      exact ⟨found, .inr ⟨rfl, left.count_ne_zero counted others, here⟩⟩
    · exact ⟨found, .inl ⟨same, away same found⟩⟩

theorem Left.lock (left : Left c s s') (counted : Counted holder s) {key : String} {addr : Nat}
    (found : s'.map[key]? = some addr) : (s'.entries addr).lock = (s.entries addr).lock := by
  rcases (left.kept counted found).2 with ⟨-, same⟩ | ⟨-, -, same⟩
  · rw [same]
  · rw [same]

/-- The others still find their entry. -/
theorem Left.mapped (left : Left c s s') (counted : Counted holder s) {d : SessionLock}
    (mem_d : d ∈ s'.claims) : s'.map[d.key]? = some d.entry := by
  have before := counted.mapped d ((left.mem_iff counted).mp mem_d).1
  rcases left.map with ⟨last, map⟩ | ⟨-, map, -⟩
  · -- nobody else had a claim on the session of the last one
    have apart : c.key ≠ d.key := by
      intro same
      have some_left : 0 < s'.count d.key :=
        List.countP_pos_iff.mpr ⟨d, mem_d, decide_eq_true rfl⟩
      have one := left.count counted c.key
      rw [← (counted.counts c.key c.entry (counted.mapped c left.mem)).1, last, if_pos rfl, same,
        UInt64.toNat_one] at one
      omega
    rw [map, Kv.get_erase, if_neg apart]
    exact before
  · rw [map]
    exact before

theorem Left.counts (left : Left c s s') (counted : Counted holder s) {key : String} {addr : Nat}
    (found : s'.map[key]? = some addr) :
    (s'.entries addr).claims.toNat = s'.count key ∧
      (s'.entries addr).strong = s'.count key + 1 := by
  obtain ⟨found, ⟨apart, same⟩ | ⟨rfl, some_left, here⟩⟩ := left.kept counted found
  · have before := left.count counted key
    rw [if_neg (Ne.symm apart), Nat.add_zero] at before
    rw [same]
    exact before ▸ counted.counts key addr found
  · -- both counters lose one, and neither wraps
    obtain ⟨total, strong⟩ := counted.counts c.key addr found
    have before := left.count counted c.key
    rw [if_pos rfl] at before
    rw [here]
    refine ⟨?_, by dsimp only; omega⟩
    rw [UInt64.toNat_sub, total, UInt64.toNat_one]
    have bound := UInt64.toNat_lt (s.entries addr).claims
    omega

theorem Left.counted (left : Left c s s') (counted : Counted holder s) : Counted holder s' := by
  constructor
  · rw [left.poisoned]
    exact counted.unpoisoned
  · rw [left.claims]
    exact counted.names.sublist (List.filter_sublist.map _)
  · exact fun d mem_d => left.mapped counted mem_d
  · intro key addr found
    rw [left.fresh]
    exact counted.known key addr (left.kept counted found).1
  · exact fun key key' addr found found' =>
      counted.apart key key' addr (left.kept counted found).1 (left.kept counted found').1
  · exact fun key addr found => left.counts counted found
  · intro d mem_d holding
    rw [left.lock counted (left.mapped counted mem_d)]
    exact counted.holding d ((left.mem_iff counted).mp mem_d).1 holding
  · intro key addr id found held
    rw [left.lock counted found] at held
    obtain ⟨d, mem_d, ids, entry, holding⟩ :=
      counted.held key addr id (left.kept counted found).1 held
    refine ⟨d, (left.mem_iff counted).mpr ⟨mem_d, ?_⟩, ids, entry, holding⟩
    rintro rfl
    exact left.free holding

theorem Left.claimed (left : Left c s s') (counted : Counted holder s) (claimed : Claimed s) :
    Claimed s' := by
  intro key mem_key
  obtain ⟨addr, found⟩ := Kv.mem_iff_get.mp mem_key
  obtain ⟨found, ⟨apart, -⟩ | ⟨rfl, some_left, -⟩⟩ := left.kept counted found
  · obtain ⟨d, mem_d, rfl⟩ := claimed key (Kv.mem_iff_get.mpr ⟨addr, found⟩)
    exact ⟨d, (left.mem_iff counted).mpr ⟨mem_d, fun same => apart (same ▸ rfl)⟩, rfl⟩
  · obtain ⟨d, mem_d, same⟩ := List.countP_pos_iff.mp (Nat.pos_of_ne_zero some_left)
    exact ⟨d, mem_d, of_decide_eq_true same⟩

end Leaving

/-! ### Runs -/

theorem step_preserves (exclusive : m.Exclusive holder) {s s' : SessionLocks σ}
    (counted : Counted holder s) (claimed : Claimed s) {event : LockEvent}
    (step : s.step m event = some s') : Counted holder s' ∧ Claimed s' := by
  cases event with
  | acquire id key =>
    obtain ⟨counted, keys, addr, claims⟩ := acquire_spec exclusive counted step
    refine ⟨counted, fun key' mem => ?_⟩
    rw [claims]
    rcases keys key' mem with rfl | old
    · exact ⟨_, List.mem_cons_self, rfl⟩
    · obtain ⟨c, mem, same⟩ := claimed key' old
      exact ⟨c, List.mem_cons_of_mem _ mem, same⟩
  | poll id =>
    refine ⟨counted.poll exclusive step, ?_⟩
    obtain ⟨c, -, -, lock, ⟨rfl, -⟩ | ⟨rfl, -⟩⟩ := poll_spec exclusive step
    · exact claimed.settle c lock _
    · exact claimed.settle c lock _
  | cancel id =>
    refine ⟨counted.cancel exclusive step, ?_⟩
    obtain ⟨c, -, -, lock, rfl, -⟩ := cancel_spec exclusive counted step
    exact claimed.settle c lock _
  | unlock id =>
    refine ⟨counted.unlock exclusive step, ?_⟩
    obtain ⟨c, -, -, -, lock, rfl, -⟩ := unlock_spec exclusive counted step
    exact claimed.settle c lock _
  | drop id =>
    obtain ⟨c, left⟩ := drop_spec counted step
    exact ⟨left.counted counted, left.claimed counted claimed⟩

theorem run_preserves (exclusive : m.Exclusive holder) (events : List LockEvent)
    {s : SessionLocks σ} (ran : run m events = some s) : Counted holder s ∧ Claimed s := by
  -- on the last event: what it finds was left by the run before it
  induction events using List.reverseRecOn generalizing s with
  | nil =>
    cases ran
    exact ⟨counted_new, fun key mem => by simp [new] at mem⟩
  | append_singleton events event ih =>
    rw [run, List.foldlM_append, Option.bind_eq_bind, Option.bind_eq_some_iff] at ran
    obtain ⟨t, before, step⟩ := ran
    rw [List.foldlM_cons, Option.bind_eq_bind, Option.bind_eq_some_iff] at step
    obtain ⟨u, step, same⟩ := step
    cases same
    obtain ⟨counted, claimed⟩ := ih before
    exact step_preserves exclusive counted claimed step

/-- Two guards of one session are one. -/
theorem Counted.alone {s : SessionLocks σ} (counted : Counted holder s) {c d : SessionLock}
    (mem : c ∈ s.claims) (mem' : d ∈ s.claims) (keys : c.key = d.key)
    (holding : c.phase = .holding) (holding' : d.phase = .holding) : c = d := by
  -- one session, one entry, one holder
  have entries : c.entry = d.entry := by
    have mapped := counted.mapped c mem
    rw [keys, counted.mapped d mem'] at mapped
    exact (Option.some.inj mapped).symm
  have held := counted.holding c mem holding
  rw [entries, counted.holding d mem' holding'] at held
  exact counted.same mem mem' (Option.some.inj held).symm

/-- The guards that are held on a session. -/
def guards (key : String) (s : SessionLocks σ) : List SessionLock :=
  s.claims.filter fun c => c.key = key ∧ c.phase = .holding

/-- No two guards of one session, and an entry exactly for the claims. -/
structure Exclusive (s : SessionLocks σ) : Prop where
  alone : ∀ key, (s.guards key).length ≤ 1
  entries : ∀ key, key ∈ s.map ↔ ∃ c ∈ s.claims, c.key = key

/-- **The session lock table**: after any steps of any claims on any sessions. -/
theorem locks_exclusive (exclusive : m.Exclusive holder) (events : List LockEvent)
    {s : SessionLocks σ} (ran : run m events = some s) : s.Exclusive := by
  obtain ⟨counted, claimed⟩ := run_preserves exclusive events ran
  constructor
  · intro key
    have distinct : (s.guards key).Nodup := (List.Nodup.of_map _ counted.names).filter _
    have alike : ∀ c ∈ s.guards key, ∀ d ∈ s.guards key, c = d := by
      intro c mem d mem'
      rw [guards, List.mem_filter, decide_eq_true_eq] at mem mem'
      exact counted.alone mem.1 mem'.1 (mem.2.1.trans mem'.2.1.symm) mem.2.2 mem'.2.2
    -- two guards in the list would be equal, and the list has no repetition
    rcases list : s.guards key with _ | ⟨c, _ | ⟨d, rest⟩⟩
    · exact Nat.zero_le 1
    · exact Nat.le_refl 1
    · rw [list] at distinct alike
      obtain rfl := alike c List.mem_cons_self d (.tail _ List.mem_cons_self)
      exact absurd List.mem_cons_self (List.nodup_cons.mp distinct).1
  · intro key
    refine ⟨claimed key, ?_⟩
    rintro ⟨c, mem, rfl⟩
    exact Kv.mem_iff_get.mpr ⟨c.entry, counted.mapped c mem⟩

/-- A fair mutex: who holds it, and who waits for it in which order. -/
def fairMutex : AsyncMutex (Option Nat × List Nat) where
  new := (none, [])
  poll id s :=
    match s with
    | (none, []) => (true, (some id, []))
    | (none, first :: rest) =>
      if first = id then (true, (some id, rest))
      else (false, (none, if id ∈ first :: rest then first :: rest else first :: rest ++ [id]))
    | (some owner, queue) => (false, (some owner, if id ∈ queue then queue else queue ++ [id]))
  cancel id s := (s.1, s.2.erase id)
  unlock _ s := (none, s.2)

theorem fairMutex_exclusive : fairMutex.Exclusive Prod.fst := by
  constructor
  · rfl
  · rintro id ⟨_ | owner, _ | ⟨first, rest⟩⟩ ready
    · exact ⟨rfl, rfl⟩
    · simp only [fairMutex] at ready ⊢
      split at ready
      next same => simp [same]
      next => cases ready
    · cases ready
    · cases ready
  · rintro id ⟨_ | owner, _ | ⟨first, rest⟩⟩ pending
    · cases pending
    · simp only [fairMutex] at pending ⊢
      split at pending
      next => cases pending
      next other => simp [other]
    · rfl
    · rfl
  · exact fun _ _ _ => rfl
  · exact fun _ _ _ => rfl

/-- Two claims on one session and one on another; a waiting claim gives up, and a new one finds the
    entry that is still there. -/
def crossing : List LockEvent :=
  [.acquire 0 "a", .poll 0, .acquire 1 "a", .poll 1, .acquire 2 "b", .poll 2, .cancel 1, .drop 1,
    .acquire 3 "a", .poll 3, .unlock 0, .drop 0, .poll 3]

theorem crossing_runs : (run fairMutex crossing).isSome = true := by
  decide +kernel

theorem locks_exclusive_crossing : ((run fairMutex crossing).get crossing_runs).Exclusive :=
  locks_exclusive fairMutex_exclusive crossing (Option.some_get _).symm

/-! ### The table as a set of held sessions -/

/-- The sessions that are locked. -/
def locked (claims : List SessionLock) : List String :=
  (claims.filter fun c => c.phase = .holding).map (·.key)

theorem locked_perm {claims claims' : List SessionLock} (perm : claims.Perm claims') :
    (locked claims).Perm (locked claims') :=
  (perm.filter _).map _

theorem locked_cons_free {c : SessionLock} (free : c.phase ≠ .holding)
    (claims : List SessionLock) : locked (c :: claims) = locked claims := by
  rw [locked, List.filter_cons_of_neg (by simpa using free), locked]

theorem locked_cons_holding {c : SessionLock} (holding : c.phase = .holding)
    (claims : List SessionLock) : locked (c :: claims) = c.key :: locked claims := by
  rw [locked, List.filter_cons_of_pos (by simpa using holding), List.map_cons, locked]

theorem Counted.claims_settle {s : SessionLocks σ} (counted : Counted holder s) {c : SessionLock}
    (mem : c ∈ s.claims) (lock : σ) (phase : ClaimPhase) : (s.settle c lock phase).claims.Perm
      ({ c with phase := phase } :: s.claims.erase c) := by
  have moved := (List.perm_cons_erase mem).map fun d =>
    if d.id = c.id then { d with phase := phase } else d
  rw [List.map_cons, if_pos rfl] at moved
  have others : (s.claims.erase c).map (fun d => if d.id = c.id then { d with phase := phase }
      else d) = s.claims.erase c := by
    refine (List.map_congr_left fun d mem_d => if_neg fun same => ?_).trans (List.map_id _)
    obtain ⟨apart, mem_d⟩ := ((List.Nodup.of_map _ counted.names).mem_erase_iff).mp mem_d
    exact apart (counted.same mem_d mem same)
  exact others ▸ moved

/-- A claim without a guard is not seen. -/
theorem locked_free {claims : List SessionLock} {c : SessionLock} (mem : c ∈ claims)
    (free : c.phase ≠ .holding) : (locked (claims.erase c)).Perm (locked claims) := by
  have before := locked_perm (List.perm_cons_erase mem)
  rw [locked_cons_free free] at before
  exact before.symm

/-- A use of its mutex that leaves a claim without the guard it did not have. -/
theorem Counted.locked_settle {s : SessionLocks σ} (counted : Counted holder s) {c : SessionLock}
    (mem : c ∈ s.claims) (free : c.phase ≠ .holding) (lock : σ) {phase : ClaimPhase}
    (free' : phase ≠ .holding) :
    (locked s.claims).Perm (locked (s.settle c lock phase).claims) := by
  have after := locked_perm (counted.claims_settle mem lock phase)
  rw [locked_cons_free free'] at after
  exact (locked_free mem free).symm.trans after.symm

/-- **Refinement**: a step of the table is a step of the engine's session locks, which waits for a
    free lock, or cannot be seen. -/
theorem locks_refine (exclusive : m.Exclusive holder) {s s' : SessionLocks σ}
    (counted : Counted holder s) {event : LockEvent} (step : s.step m event = some s') {w : World}
    (same : w.locks.Perm (locked s.claims)) :
    w.locks.Perm (locked s'.claims) ∨ ∃ key,
      ((Call.lock key).enabled w ∧
        ((Call.lock key).exec w).2.locks.Perm (locked s'.claims)) ∨
      key ∈ w.locks ∧ ((Call.unlock key).exec w).2.locks.Perm (locked s'.claims) := by
  cases event with
  | acquire id key =>
    obtain ⟨-, -, addr, claims⟩ := acquire_spec exclusive counted step
    left
    have free : ClaimPhase.registered ≠ .holding := nofun
    rw [claims, locked_cons_free free]
    exact same
  | poll id =>
    obtain ⟨c, mem, free, lock, ⟨rfl, nobody, -⟩ | ⟨rfl, -⟩⟩ := poll_spec exclusive step
    · -- the mutex was free, and so is the session
      refine .inr ⟨c.key, .inl ⟨fun taken => ?_, ?_⟩⟩
      · obtain ⟨d, mem_d, keys⟩ := List.mem_map.mp (same.subset taken)
        rw [List.mem_filter, decide_eq_true_eq] at mem_d
        have mapped := counted.mapped d mem_d.1
        rw [keys, counted.mapped c mem] at mapped
        have held := counted.holding d mem_d.1 mem_d.2
        rw [← Option.some.inj mapped, nobody] at held
        cases held
      · have after := locked_perm (counted.claims_settle mem lock .holding)
        rw [locked_cons_holding rfl] at after
        exact ((same.trans (locked_free mem free).symm).cons c.key).trans after.symm
    · exact .inl (same.trans (counted.locked_settle mem free lock nofun))
  | cancel id =>
    obtain ⟨c, mem, free, lock, rfl, -⟩ := cancel_spec exclusive counted step
    exact .inl (same.trans (counted.locked_settle mem free lock nofun))
  | unlock id =>
    obtain ⟨c, mem, holding, -, lock, rfl, -⟩ := unlock_spec exclusive counted step
    -- the session is taken out of the list once, where the claim stood
    have before := locked_perm (List.perm_cons_erase mem)
    rw [locked_cons_holding holding] at before
    have after := locked_perm (counted.claims_settle mem lock .registered)
    have free : ClaimPhase.registered ≠ .holding := nofun
    rw [locked_cons_free free] at after
    refine .inr ⟨c.key, .inr ⟨(same.trans before).symm.subset List.mem_cons_self, ?_⟩⟩
    have erased := (same.trans before).erase c.key
    rw [List.erase_cons_head] at erased
    exact erased.trans after.symm
  | drop id =>
    obtain ⟨c, gone⟩ := drop_spec counted step
    left
    rw [gone.claims, counted.filter_others gone.mem]
    exact same.trans (locked_free gone.mem gone.free).symm

end SessionLocks

end RustApi
