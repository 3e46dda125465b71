import RustApi.Lib.Kv
import Mathlib

/-!
# The rate limiter

`TokenBucket`: one bucket for each peer, a fixed number of tracked peers, and the least
recently seen one dropped when a new peer needs room. Tokens are floating-point numbers in
the source; what is computed with them is a parameter here. Time is counted in nanoseconds.

## Main result

`limiter_fair`: at times that do not run backwards the map stays bounded, a take on a tracked
peer drops nobody, and a bucket is only lost to the idle window or behind as many other
peers as the map can hold.
-/

namespace RustApi.Limits

open Lib

/-- `IDLE_EVICT`, ten minutes. -/
def idleEvict : Nat := 600000000000

def maxTrackedPeers : Nat := 4096

structure BucketState (T : Type) where
  tokens : T
  last : Nat

/-- What `take` computes with tokens: `refill` adds what has run in since a number of
    nanoseconds, up to the capacity. -/
structure Arithmetic (T : Type) where
  capacity : T
  refill : T → Nat → T
  hasOne : T → Bool
  spendOne : T → T

structure TokenBucket (T : Type) where
  arith : Arithmetic T
  perMinute : Nat
  buckets : Kv (BucketState T)

/-- An order in which the hash map can list its entries. -/
structure Iteration (T : Type) where
  list : Kv (BucketState T) → List (String × BucketState T)
  perm : ∀ m, (list m).Perm m.toList

section Limiter

variable {T : Type}

/-- The loop of `make_room`, for so many turns. -/
def makeRoomLoop (iter : Iteration T) : Nat → Kv (BucketState T) → Kv (BucketState T)
  | 0, buckets => buckets
  | turns + 1, buckets =>
    if maxTrackedPeers ≤ buckets.size then
      match List.argmin (fun e : String × BucketState T => e.2.last) (iter.list buckets) with
      | none => buckets
      | some coldest => makeRoomLoop iter turns (buckets.erase coldest.1)
    else buckets

/-- Each turn removes an entry, so there are no more turns than entries. -/
def makeRoom (iter : Iteration T) (buckets : Kv (BucketState T)) : Kv (BucketState T) :=
  makeRoomLoop iter buckets.size buckets

namespace TokenBucket

variable (t : TokenBucket T)

def new (arith : Arithmetic T) (perMinute : Nat) : TokenBucket T := ⟨arith, perMinute, ∅⟩

/-- The refill rate is zero exactly for this limit. -/
def isDisabled : Bool := decide (t.perMinute = 0)

/-- What a take makes of a bucket, and whether a token was there. -/
def spend (now : Nat) (state : BucketState T) : Bool × BucketState T :=
  let tokens := t.arith.refill state.tokens (now - state.last)
  if t.arith.hasOne tokens then (true, ⟨t.arith.spendOne tokens, now⟩)
  else (false, ⟨tokens, now⟩)

def take (iter : Iteration T) (now : Nat) (key : String) : Bool × TokenBucket T :=
  if t.isDisabled then (true, t)
  else
    let buckets := if key ∈ t.buckets then t.buckets else makeRoom iter t.buckets
    let (granted, state) := t.spend now (buckets[key]?.getD ⟨t.arith.capacity, now⟩)
    (granted, { t with buckets := buckets.insert key state })

def evictIdle (now : Nat) : TokenBucket T :=
  if t.isDisabled then t
  else { t with buckets := t.buckets.filter fun _ b => decide (now - b.last < idleEvict) }

end TokenBucket

/-! ### Calls -/

inductive Call (T : Type) where
  | take (iter : Iteration T) (key : String)
  | evictIdle

/-- A call and its time. -/
structure Timed (T : Type) where
  now : Nat
  call : Call T

def TokenBucket.step (t : TokenBucket T) (c : Timed T) : TokenBucket T :=
  match c.call with
  | .take iter key => (t.take iter c.now key).2
  | .evictIdle => t.evictIdle c.now

def TokenBucket.run (t : TokenBucket T) (calls : List (Timed T)) : TokenBucket T :=
  calls.foldl TokenBucket.step t

/-- The peer of a take. -/
def Timed.peer (c : Timed T) : Option String :=
  match c.call with
  | .take _ key => some key
  | .evictIdle => none

/-- When the peer was last taken. -/
def lastTake (peer : String) (calls : List (Timed T)) : Option Nat :=
  ((calls.filter fun c => decide (c.peer = some peer)).map (·.now)).getLast?

/-- The other peers that were taken at this time or later. -/
def othersSince (peer : String) (since : Nat) (calls : List (Timed T)) : Finset String :=
  ((calls.filter fun c => decide (since ≤ c.now)).filterMap (·.peer)).toFinset.erase peer

/-- What one more call does to the buckets that are there. -/
structure Fair (t : TokenBucket T) (past : List (Timed T)) (c : Timed T) : Prop where
  bounded : ((t.run past).step c).buckets.size ≤ maxTrackedPeers
  evictsNobody : ∀ peer, c.peer = some peer → peer ∈ (t.run past).buckets →
    ∀ other, other ∈ (t.run past).buckets → other ∈ ((t.run past).step c).buckets
  continued : ∀ peer b, c.peer = some peer → (t.run past).buckets[peer]? = some b →
    ((t.run past).step c).buckets[peer]? = some (t.spend c.now b).2
  lost : ∀ peer b, c.peer ≠ some peer → (t.run past).buckets[peer]? = some b →
    ((t.run past).step c).buckets[peer]? ≠ some b →
      ∃ last, lastTake peer past = some last ∧
        (c.peer = none ∧ idleEvict ≤ c.now - last ∨
          maxTrackedPeers ≤ (othersSince peer last (past ++ [c])).card)

/-! ### Making room -/

theorem makeRoomLoop_of_lt (iter : Iteration T) (turns : Nat) {m : Kv (BucketState T)}
    (room : m.size < maxTrackedPeers) : makeRoomLoop iter turns m = m := by
  cases turns with
  | zero => rfl
  | succ turns => exact if_neg (by omega)

/-- A full map loses one entry, and none was seen longer ago. -/
theorem makeRoom_full (iter : Iteration T) {m : Kv (BucketState T)}
    (full : m.size = maxTrackedPeers) :
    ∃ victim b, m[victim]? = some b ∧ (∀ (k : String) b', m[k]? = some b' → b.last ≤ b'.last) ∧
      makeRoom iter m = m.erase victim := by
  obtain ⟨turns, size⟩ : ∃ turns, m.size = turns + 1 := ⟨4095, full⟩
  have listed (k : String) (b : BucketState T) : (k, b) ∈ iter.list m ↔ m[k]? = some b := by
    rw [(iter.perm m).mem_iff, Kv.mem_toList]
  have given : iter.list m ≠ [] := by
    intro none
    have length := (iter.perm m).length_eq
    rw [none, Std.ExtTreeMap.length_toList, size] at length
    cases length
  -- one turn is enough: after it the map is below the cap
  rw [makeRoom, size, makeRoomLoop, if_pos (by omega)]
  cases found : List.argmin (fun e : String × BucketState T => e.2.last) (iter.list m) with
  | none => exact absurd (List.argmin_eq_none.mp found) given
  | some coldest =>
    have here := (listed coldest.1 coldest.2).mp (List.argmin_mem found)
    refine ⟨coldest.1, coldest.2, here, fun k b' there => ?_, ?_⟩
    · exact List.le_of_mem_argmin (f := fun e : String × BucketState T => e.2.last)
        ((listed k b').mpr there) found
    · refine makeRoomLoop_of_lt iter turns ?_
      rw [Std.ExtTreeMap.size_erase,
        if_pos (Std.ExtTreeMap.mem_iff_contains.mp (Kv.mem_iff_get.mpr ⟨_, here⟩))]
      omega

/-- Making room adds nothing. -/
theorem makeRoom_le {iter : Iteration T} {m : Kv (BucketState T)} {key : String}
    {b : BucketState T} (here : (makeRoom iter m)[key]? = some b) : m[key]? = some b := by
  have loop : ∀ turns (m : Kv (BucketState T)), (makeRoomLoop iter turns m)[key]? = some b →
      m[key]? = some b := by
    intro turns
    induction turns with
    | zero => exact fun m here => here
    | succ turns ih =>
      intro m here
      rw [makeRoomLoop] at here
      split at here
      · split at here
        · exact here
        · exact Kv.of_get_erase (ih _ here)
      · exact here
  exact loop m.size m here

/-! ### One call -/

namespace TokenBucket

variable (t : TokenBucket T)

theorem spend_last (now : Nat) (state : BucketState T) : (t.spend now state).2.last = now := by
  unfold spend
  dsimp only
  split <;> rfl

theorem take_tracked (iter : Iteration T) (now : Nat) {key : String} {b : BucketState T}
    (enabled : t.isDisabled = false) (here : t.buckets[key]? = some b) :
    (t.take iter now key).2.buckets = t.buckets.insert key (t.spend now b).2 := by
  have there : key ∈ t.buckets := Kv.mem_iff_get.mpr ⟨b, here⟩
  simp only [take, enabled, Bool.false_eq_true, if_false, if_pos there, here, Option.getD_some]

theorem take_new (iter : Iteration T) (now : Nat) {key : String} (enabled : t.isDisabled = false)
    (new : key ∉ t.buckets) : ∃ state, state.last = now ∧
      (t.take iter now key).2.buckets = (makeRoom iter t.buckets).insert key state := by
  refine ⟨_, t.spend_last now (((makeRoom iter t.buckets)[key]?).getD ⟨t.arith.capacity, now⟩), ?_⟩
  simp [take, enabled, new]

theorem get_evictIdle (now : Nat) (enabled : t.isDisabled = false) (key : String) :
    (t.evictIdle now).buckets[key]? =
      t.buckets[key]?.filter fun b => decide (now - b.last < idleEvict) := by
  simp [evictIdle, enabled]

theorem step_arith (c : Timed T) : (t.step c).arith = t.arith ∧
    (t.step c).perMinute = t.perMinute := by
  unfold step
  cases c.call with
  | take iter key =>
    simp only [take]
    split <;> exact ⟨rfl, rfl⟩
  | evictIdle =>
    simp only [evictIdle]
    split <;> exact ⟨rfl, rfl⟩

theorem run_arith (calls : List (Timed T)) : (t.run calls).arith = t.arith ∧
    (t.run calls).perMinute = t.perMinute := by
  induction calls using List.reverseRecOn with
  | nil => exact ⟨rfl, rfl⟩
  | append_singleton calls c ih =>
    rw [run, List.foldl_append]
    exact ⟨((t.run calls).step_arith c).1.trans ih.1, ((t.run calls).step_arith c).2.trans ih.2⟩

theorem run_concat (calls : List (Timed T)) (c : Timed T) :
    t.run (calls ++ [c]) = (t.run calls).step c := by
  rw [run, List.foldl_append]
  rfl

end TokenBucket

theorem lastTake_concat (peer : String) (calls : List (Timed T)) (c : Timed T) :
    lastTake peer (calls ++ [c]) =
      if c.peer = some peer then some c.now else lastTake peer calls := by
  unfold lastTake
  by_cases same : c.peer = some peer
  · simp [same]
  · simp [same]

/-! ### Any calls -/

/-- What the map keeps of the calls: no more peers than fit, each stamped with its last take. -/
structure Tracked (t : TokenBucket T) (calls : List (Timed T)) : Prop where
  bounded : (t.run calls).buckets.size ≤ maxTrackedPeers
  stamped : ∀ (peer : String) b, (t.run calls).buckets[peer]? = some b →
    lastTake peer calls = some b.last

section Step

variable {t : TokenBucket T} {past : List (Timed T)} {c : Timed T}

theorem isDisabled_run (enabled : t.isDisabled = false) : (t.run past).isDisabled = false := by
  rw [TokenBucket.isDisabled, (t.run_arith past).2]
  exact enabled

/-- A new peer costs at most one other its bucket, and that one is a coldest. -/
theorem room_for_new (tracked : Tracked t past) (iter : Iteration T) :
    (makeRoom iter (t.run past).buckets).size < maxTrackedPeers ∧
      ∀ (peer : String) (b : BucketState T), (t.run past).buckets[peer]? = some b →
        (makeRoom iter (t.run past).buckets)[peer]? = some b ∨
        (t.run past).buckets.size = maxTrackedPeers ∧
          ∀ (k : String) b', (t.run past).buckets[k]? = some b' → b.last ≤ b'.last := by
  have cap : 0 < maxTrackedPeers := by decide
  rcases Nat.lt_or_eq_of_le tracked.bounded with room | full
  · rw [makeRoom, makeRoomLoop_of_lt iter _ room]
    exact ⟨room, fun peer b here => .inl here⟩
  · obtain ⟨victim, b, here, coldest, dropped⟩ := makeRoom_full iter full
    have there := Std.ExtTreeMap.mem_iff_contains.mp (Kv.mem_iff_get.mpr ⟨b, here⟩)
    rw [dropped, Std.ExtTreeMap.size_erase, if_pos there]
    refine ⟨by omega, fun peer b' mine => ?_⟩
    -- among equal stamps the victim is whichever the map lists first, so it is not named here
    by_cases same : victim = peer
    · subst same
      obtain rfl := Option.some.inj (here.symm.trans mine)
      exact .inr ⟨full, coldest⟩
    · left
      rw [Kv.get_erase, if_neg same, mine]

/-- What one call does to a map, told peer by peer. -/
structure Stepped (t : TokenBucket T) (c : Timed T) (m m' : Kv (BucketState T)) : Prop where
  bounded : m'.size ≤ maxTrackedPeers
  taken : ∀ peer, c.peer = some peer → ∃ state, state.last = c.now ∧ m'[peer]? = some state ∧
    ∀ b, m[peer]? = some b → state = (t.spend c.now b).2
  others : ∀ peer b, c.peer ≠ some peer → m'[peer]? = some b → m[peer]? = some b
  lost : ∀ peer b, c.peer ≠ some peer → m[peer]? = some b → m'[peer]? = some b ∨
    (c.peer = none ∧ m'[peer]? = none ∧ idleEvict ≤ c.now - b.last) ∨
    ∃ key, c.peer = some key ∧ key ∉ m ∧ m.size = maxTrackedPeers ∧
      ∀ (k : String) b', m[k]? = some b' → b.last ≤ b'.last

theorem stepped_tracked (enabled : t.isDisabled = false) (tracked : Tracked t past)
    {iter : Iteration T} {key : String} (call : c.call = .take iter key) {b : BucketState T}
    (here : (t.run past).buckets[key]? = some b) :
    Stepped t c (t.run past).buckets ((t.run past).step c).buckets := by
  have peer : c.peer = some key := by rw [Timed.peer, call]
  have after : ((t.run past).step c).buckets =
      (t.run past).buckets.insert key (t.spend c.now b).2 := by
    rw [TokenBucket.step, call]
    refine ((t.run past).take_tracked iter c.now (isDisabled_run enabled) here).trans ?_
    rw [TokenBucket.spend, TokenBucket.spend, (t.run_arith past).1]
  have there := Std.ExtTreeMap.mem_iff_contains.mp (Kv.mem_iff_get.mpr ⟨b, here⟩)
  rw [after]
  refine ⟨?_, fun p taken => ?_, fun p b' other now => ?_, fun p b' other was => .inl ?_⟩
  · rw [Std.ExtTreeMap.size_insert, if_pos there]
    exact tracked.bounded
  · obtain rfl := Option.some.inj (peer.symm.trans taken)
    refine ⟨_, t.spend_last c.now b, by rw [Kv.get_insert, if_pos rfl], fun b' was => ?_⟩
    rw [← Option.some.inj (here.symm.trans was)]
  · rwa [Kv.get_insert, if_neg fun same => other (by rw [peer, same])] at now
  · rwa [Kv.get_insert, if_neg fun same => other (by rw [peer, same])]

theorem stepped_new (enabled : t.isDisabled = false) (tracked : Tracked t past)
    {iter : Iteration T} {key : String} (call : c.call = .take iter key)
    (new : key ∉ (t.run past).buckets) :
    Stepped t c (t.run past).buckets ((t.run past).step c).buckets := by
  have peer : c.peer = some key := by rw [Timed.peer, call]
  obtain ⟨state, stamp, took⟩ := (t.run past).take_new iter c.now (isDisabled_run enabled) new
  have after : ((t.run past).step c).buckets =
      (makeRoom iter (t.run past).buckets).insert key state := by
    rw [TokenBucket.step, call]
    exact took
  obtain ⟨room, kept⟩ := room_for_new tracked iter
  rw [after]
  refine ⟨?_, fun p taken => ?_, fun p b other now => ?_, fun p b other was => ?_⟩
  · have grown := Std.ExtTreeMap.size_insert_le (t := makeRoom iter (t.run past).buckets)
      (k := key) (v := state)
    omega
  · obtain rfl := Option.some.inj (peer.symm.trans taken)
    refine ⟨state, stamp, by rw [Kv.get_insert, if_pos rfl], fun b was => ?_⟩
    exact absurd (Kv.mem_iff_get.mpr ⟨b, was⟩) new
  · rw [Kv.get_insert, if_neg fun same => other (by rw [peer, same])] at now
    exact makeRoom_le now
  · rw [Kv.get_insert, if_neg fun same => other (by rw [peer, same])]
    rcases kept p b was with kept | ⟨full, coldest⟩
    · exact .inl kept
    · exact .inr (.inr ⟨key, peer, new, full, coldest⟩)

theorem stepped_evictIdle (enabled : t.isDisabled = false) (tracked : Tracked t past)
    (call : c.call = .evictIdle) :
    Stepped t c (t.run past).buckets ((t.run past).step c).buckets := by
  have peer : c.peer = none := by rw [Timed.peer, call]
  have after (p : String) : ((t.run past).step c).buckets[p]? =
      (t.run past).buckets[p]?.filter fun b => decide (c.now - b.last < idleEvict) := by
    rw [TokenBucket.step, call]
    exact (t.run past).get_evictIdle c.now (isDisabled_run enabled) p
  refine ⟨?_, fun p taken => ?_, fun p b _ now => ?_, fun p b _ was => ?_⟩
  · rw [TokenBucket.step, call]
    refine le_trans ?_ tracked.bounded
    simp only [TokenBucket.evictIdle, isDisabled_run enabled, Bool.false_eq_true, if_false]
    exact Std.ExtTreeMap.size_filter_le_size
  · rw [peer] at taken
    cases taken
  · rw [after, Option.filter_eq_some_iff] at now
    exact now.1
  · rw [after, was]
    by_cases idle : c.now - b.last < idleEvict
    · exact .inl (by simp [idle])
    · exact .inr (.inl ⟨peer, by simpa using idle, Nat.le_of_not_lt idle⟩)

theorem stepped (enabled : t.isDisabled = false) (tracked : Tracked t past) :
    Stepped t c (t.run past).buckets ((t.run past).step c).buckets := by
  cases call : c.call with
  | take iter key =>
    by_cases there : key ∈ (t.run past).buckets
    · obtain ⟨b, here⟩ := Kv.mem_iff_get.mp there
      exact stepped_tracked enabled tracked call here
    · exact stepped_new enabled tracked call there
  | evictIdle => exact stepped_evictIdle enabled tracked call

theorem Tracked.step (enabled : t.isDisabled = false) (tracked : Tracked t past) :
    Tracked t (past ++ [c]) := by
  have one := stepped (c := c) enabled tracked
  constructor
  · rw [t.run_concat]
    exact one.bounded
  · intro peer b now
    rw [t.run_concat] at now
    rw [lastTake_concat]
    by_cases taken : c.peer = some peer
    · obtain ⟨state, stamp, here, -⟩ := one.taken peer taken
      rw [if_pos taken, ← Option.some.inj (here.symm.trans now), stamp]
    · rw [if_neg taken]
      exact tracked.stamped peer b (one.others peer b taken now)

end Step

/-- The run lemma: every sequence of calls from an empty limiter. -/
theorem tracked_run (arith : Arithmetic T) {perMinute : Nat} (enabled : perMinute ≠ 0)
    (calls : List (Timed T)) : Tracked (TokenBucket.new arith perMinute) calls := by
  have on : (TokenBucket.new arith perMinute).isDisabled = false := decide_eq_false enabled
  induction calls using List.reverseRecOn with
  | nil =>
    refine ⟨by simp [TokenBucket.run, TokenBucket.new], fun peer b here => ?_⟩
    simp [TokenBucket.run, TokenBucket.new] at here
  | append_singleton calls c ih => exact ih.step on

/-! ### The buckets that are lost -/

theorem lastTake_mem {peer : String} {calls : List (Timed T)} {last : Nat}
    (found : lastTake peer calls = some last) :
    ∃ c ∈ calls, c.peer = some peer ∧ c.now = last := by
  obtain ⟨c, mem, rfl⟩ := List.mem_map.mp (List.mem_of_getLast? found)
  obtain ⟨mem, same⟩ := List.mem_filter.mp mem
  exact ⟨c, mem, of_decide_eq_true same, rfl⟩

theorem mem_othersSince {peer other : String} {since : Nat} {calls : List (Timed T)} :
    other ∈ othersSince peer since calls ↔
      other ≠ peer ∧ ∃ c ∈ calls, since ≤ c.now ∧ c.peer = some other := by
  simp [othersSince, and_assoc]

/-- Behind a coldest peer of a full map stand all its other peers, and the newcomer. -/
theorem othersSince_of_full {t : TokenBucket T} {past : List (Timed T)} {c : Timed T}
    (ordered : (past ++ [c]).Pairwise fun x y => x.now ≤ y.now) (tracked : Tracked t past)
    {key peer : String} {b : BucketState T} (here : (t.run past).buckets[peer]? = some b)
    (taken : c.peer = some key) (new : key ∉ (t.run past).buckets)
    (full : (t.run past).buckets.size = maxTrackedPeers)
    (coldest : ∀ (k : String) b', (t.run past).buckets[k]? = some b' → b.last ≤ b'.last) :
    maxTrackedPeers ≤ (othersSince peer b.last (past ++ [c])).card := by
  have distinct : (t.run past).buckets.keys.Nodup := Std.ExtTreeMap.nodup_keys
  have there : peer ∈ (t.run past).buckets := Kv.mem_iff_get.mpr ⟨b, here⟩
  have keys : (t.run past).buckets.keys.toFinset.card = maxTrackedPeers := by
    rw [List.toFinset_card_of_nodup distinct, Std.ExtTreeMap.length_keys, full]
  have others : (insert key ((t.run past).buckets.keys.toFinset.erase peer)).card =
      maxTrackedPeers := by
    rw [Finset.card_insert_of_notMem (by simp [new]),
      Finset.card_erase_of_mem (by simpa using there), keys]
    rfl
  rw [← others]
  refine Finset.card_le_card fun other mem => ?_
  rw [mem_othersSince]
  rcases Finset.mem_insert.mp mem with rfl | mem
  · -- the newcomer counts by this very call
    refine ⟨fun same => new (same ▸ there), c, by simp, ?_, taken⟩
    obtain ⟨first, earlier, -, stamp⟩ := lastTake_mem (tracked.stamped peer b here)
    rw [← stamp]
    exact (List.pairwise_append.mp ordered).2.2 first earlier c (by simp)
  · obtain ⟨other', mem⟩ := Finset.mem_erase.mp mem
    rw [List.mem_toFinset, Std.ExtTreeMap.mem_keys] at mem
    obtain ⟨b', mine⟩ := Kv.mem_iff_get.mp mem
    obtain ⟨first, earlier, took, stamp⟩ := lastTake_mem (tracked.stamped other b' mine)
    exact ⟨other', first, List.mem_append_left _ earlier, stamp ▸ coldest other b' mine, took⟩

theorem limiter_fair (arith : Arithmetic T) {perMinute : Nat} (enabled : perMinute ≠ 0)
    {past : List (Timed T)} {c : Timed T}
    (ordered : (past ++ [c]).Pairwise fun x y => x.now ≤ y.now) :
    Fair (TokenBucket.new arith perMinute) past c := by
  have on : (TokenBucket.new arith perMinute).isDisabled = false := decide_eq_false enabled
  have tracked := tracked_run arith enabled past
  have one := stepped (c := c) on tracked
  refine ⟨one.bounded, fun peer taken there other mem => ?_, fun peer b taken here => ?_,
    fun peer b away here gone => ?_⟩
  · -- a tracked peer's take costs nobody a bucket: room is made for a newcomer only
    obtain ⟨b, here⟩ := Kv.mem_iff_get.mp mem
    by_cases same : c.peer = some other
    · obtain ⟨state, -, now, -⟩ := one.taken other same
      exact Kv.mem_iff_get.mpr ⟨state, now⟩
    · rcases one.lost other b same here with now | ⟨sweep, -⟩ | ⟨key, took, new, -⟩
      · exact Kv.mem_iff_get.mpr ⟨b, now⟩
      · cases taken.symm.trans sweep
      · obtain rfl := Option.some.inj (taken.symm.trans took)
        exact absurd there new
  · obtain ⟨state, -, now, spent⟩ := one.taken peer taken
    rw [now, spent b here]
  · refine ⟨b.last, tracked.stamped peer b here, ?_⟩
    rcases one.lost peer b away here with now | ⟨sweep, -, idle⟩ | ⟨key, took, new, full, coldest⟩
    · exact absurd now gone
    · exact .inl ⟨sweep, idle⟩
    · exact .inr (othersSince_of_full ordered tracked here took new full coldest)

end Limiter

/-! ### A run -/

/-- A token is a nanosecond's refill. -/
def countedTokens : Arithmetic Nat where
  capacity := 1
  refill tokens elapsed := min (tokens + elapsed) 1
  hasOne tokens := decide (0 < tokens)
  spendOne tokens := tokens - 1

def inOrder : Iteration Nat := ⟨fun m => m.toList, fun _ => .refl _⟩

/-- Two peers, then a sweep when the first has been idle for long enough. -/
theorem limiter_fair_sweep : Fair (TokenBucket.new countedTokens 60)
    [⟨0, .take inOrder "10.0.0.1"⟩, ⟨1, .take inOrder "10.0.0.2"⟩] ⟨idleEvict, .evictIdle⟩ :=
  limiter_fair countedTokens (by decide) (by simp [idleEvict])

end RustApi.Limits
