import RustApi.Limits

/-!
# The rate limiter without its map

Over the map of `TokenBucket` stands a limiter without a map, in which every peer has a
bucket of its own that is never dropped. The map agrees with it for a peer so long as it is
not crowded out, when a bucket that is dropped for idleness would have filled up again. How
tokens are counted is a parameter, since the source counts them in floating point.

## Main result

`limiter_transparent`: a take of a peer that is not crowded out is answered as by the peer's
own bucket.
-/

namespace RustApi.Limits

open Lib

section Ideal

variable {T : Type}

/-- What a bucket can hold: it starts full, is refilled, and is spent from when it has a token. -/
inductive Arithmetic.Holds (arith : Arithmetic T) : T → Prop
  | full : Holds arith arith.capacity
  | refill {tokens : T} (held : Holds arith tokens) (elapsed : Nat) :
      Holds arith (arith.refill tokens elapsed)
  | spend {tokens : T} (held : Holds arith tokens) : arith.hasOne tokens = true →
      Holds arith (arith.spendOne tokens)

/-- A bucket that is idle for the window is full again. -/
structure Arithmetic.Refills (arith : Arithmetic T) : Prop where
  still : arith.refill arith.capacity 0 = arith.capacity
  idle : ∀ tokens elapsed, arith.Holds tokens → idleEvict ≤ elapsed →
    arith.refill tokens elapsed = arith.capacity

/-- The times at which the peer was taken. -/
def takesOf (peer : String) (calls : List (Timed T)) : List Nat :=
  (calls.filter fun c => decide (c.peer = some peer)).map (·.now)

/-- The bucket of a peer that is alone, after takes at these times. -/
def TokenBucket.ideal (t : TokenBucket T) (times : List Nat) : Option (BucketState T) :=
  times.foldl (fun state now => some (t.spend now (state.getD ⟨t.arith.capacity, now⟩)).2) none

def TokenBucket.idealTake (t : TokenBucket T) (times : List Nat) (now : Nat) : Bool :=
  (t.spend now ((t.ideal times).getD ⟨t.arith.capacity, now⟩)).1

/-- At no time have as many other peers been seen since the last take as the map can hold. -/
def Uncrowded (peer : String) (calls : List (Timed T)) : Prop :=
  ∀ seen last, seen <+: calls → lastTake peer seen = some last →
    (othersSince peer last seen).card < maxTrackedPeers

theorem takesOf_concat (peer : String) (calls : List (Timed T)) (c : Timed T) :
    takesOf peer (calls ++ [c]) =
      if c.peer = some peer then takesOf peer calls ++ [c.now] else takesOf peer calls := by
  unfold takesOf
  by_cases same : c.peer = some peer <;> simp [same]

theorem TokenBucket.ideal_concat (t : TokenBucket T) (times : List Nat) (now : Nat) :
    t.ideal (times ++ [now]) =
      some (t.spend now ((t.ideal times).getD ⟨t.arith.capacity, now⟩)).2 := by
  simp [ideal]

theorem TokenBucket.spend_eq (t : TokenBucket T) (now : Nat) (b : BucketState T) :
    t.spend now b =
      let tokens := t.arith.refill b.tokens (now - b.last)
      (t.arith.hasOne tokens,
        ⟨if t.arith.hasOne tokens then t.arith.spendOne tokens else tokens, now⟩) := by
  simp only [spend]
  split
  next full => simp [full]
  next short => simp [short]

theorem Arithmetic.Holds.spend_from {t : TokenBucket T} {b : BucketState T}
    (held : t.arith.Holds b.tokens) (now : Nat) : t.arith.Holds (t.spend now b).2.tokens := by
  rw [t.spend_eq]
  simp only
  split
  next some_ => exact (held.refill _).spend some_
  · exact held.refill _

/-- A peer's own bucket holds what a bucket can hold. -/
theorem TokenBucket.ideal_holds {t : TokenBucket T} {times : List Nat} {b : BucketState T}
    (own : t.ideal times = some b) : t.arith.Holds b.tokens := by
  induction times using List.reverseRecOn generalizing b with
  | nil => cases own
  | append_singleton times now ih =>
    rw [t.ideal_concat, Option.some.injEq] at own
    rw [← own]
    apply Arithmetic.Holds.spend_from
    cases before : t.ideal times with
    | none => exact .full
    | some b' => exact ih before

/-- What a take finds depends on the refilled tokens alone. -/
theorem TokenBucket.spend_congr (t : TokenBucket T) {now : Nat} {b b' : BucketState T}
    (same : t.arith.refill b.tokens (now - b.last) = t.arith.refill b'.tokens (now - b'.last)) :
    t.spend now b = t.spend now b' := by
  simp only [spend, same]

/-- The map has the bucket of the peer, or the peer has been idle since its last take. -/
def Shadows (t : TokenBucket T) (peer : String) (calls : List (Timed T)) : Prop :=
  (t.run calls).buckets[peer]? = t.ideal (takesOf peer calls) ∨
    (t.run calls).buckets[peer]? = none ∧ ∃ b, t.ideal (takesOf peer calls) = some b ∧
      ∃ c ∈ calls, idleEvict ≤ c.now - b.last

section Step

variable {t : TokenBucket T} {peer : String} {calls : List (Timed T)} {c : Timed T} {now : Nat}

/-- A peer without a bucket finds a full one, as it does when its own has filled up. -/
theorem Shadows.spend (shadows : Shadows t peer calls) (refills : t.arith.Refills)
    (later : ∀ c ∈ calls, c.now ≤ now) :
    t.spend now (((t.run calls).buckets[peer]?).getD ⟨t.arith.capacity, now⟩) =
      t.spend now ((t.ideal (takesOf peer calls)).getD ⟨t.arith.capacity, now⟩) := by
  rcases shadows with same | ⟨dropped, b, own, c, mem, idle⟩
  · rw [same]
  · rw [dropped, own]
    apply t.spend_congr
    have elapsed : idleEvict ≤ now - b.last := by
      have := later c mem
      omega
    simp only [Option.getD_none, Option.getD_some, Nat.sub_self]
    rw [refills.still, refills.idle _ _ (t.ideal_holds own) elapsed]

theorem TokenBucket.take_spend (enabled : t.isDisabled = false) (iter : Iteration T) (now : Nat)
    (key : String) :
    (t.take iter now key).1 = (t.spend now ((t.buckets[key]?).getD ⟨t.arith.capacity, now⟩)).1 ∧
      (t.take iter now key).2.buckets[key]? =
        some (t.spend now ((t.buckets[key]?).getD ⟨t.arith.capacity, now⟩)).2 := by
  simp only [take, enabled, Bool.false_eq_true, if_false]
  by_cases there : key ∈ t.buckets
  · rw [if_pos there]
    exact ⟨rfl, by rw [Kv.get_insert, if_pos rfl]⟩
  · have gone : t.buckets[key]? = none := by
      cases found : t.buckets[key]? with
      | none => rfl
      | some b => exact absurd (Kv.mem_iff_get.mpr ⟨b, found⟩) there
    have still : (makeRoom iter t.buckets)[key]? = none := by
      cases found : (makeRoom iter t.buckets)[key]? with
      | none => rfl
      | some b => rw [makeRoom_le found] at gone; cases gone
    rw [if_neg there, still, gone]
    exact ⟨rfl, by rw [Kv.get_insert, if_pos rfl]⟩

/-- In a run the same arithmetic is used all along. -/
theorem TokenBucket.run_take (enabled : t.isDisabled = false) (calls : List (Timed T))
    (iter : Iteration T) (now : Nat) (key : String) :
    ((t.run calls).take iter now key).1 =
        (t.spend now (((t.run calls).buckets[key]?).getD ⟨t.arith.capacity, now⟩)).1 ∧
      ((t.run calls).take iter now key).2.buckets[key]? =
        some (t.spend now (((t.run calls).buckets[key]?).getD ⟨t.arith.capacity, now⟩)).2 := by
  have both := (t.run calls).take_spend (isDisabled_run enabled) iter now key
  rw [spend, (t.run_arith calls).1] at both
  exact both

theorem Shadows.step (enabled : t.isDisabled = false) (refills : t.arith.Refills)
    (shadows : Shadows t peer calls) (tracked : Tracked t calls)
    (ordered : (calls ++ [c]).Pairwise fun x y => x.now ≤ y.now)
    (uncrowded : Uncrowded peer (calls ++ [c])) : Shadows t peer (calls ++ [c]) := by
  have later : ∀ x ∈ calls, x.now ≤ c.now := fun x mem =>
    (List.pairwise_append.mp ordered).2.2 x mem c (by simp)
  rw [Shadows, takesOf_concat, t.run_concat]
  by_cases mine : c.peer = some peer
  · -- its own take: both buckets are spent from
    left
    rw [if_pos mine, t.ideal_concat, ← shadows.spend refills later]
    cases call : c.call with
    | evictIdle =>
      rw [Timed.peer, call] at mine
      cases mine
    | take iter key =>
      rw [Timed.peer, call] at mine
      cases mine
      rw [TokenBucket.step, call]
      exact (t.run_take enabled calls iter c.now peer).2
  · rw [if_neg mine]
    have one := stepped (c := c) enabled tracked
    have still : (t.run calls).buckets[peer]? = none →
        ((t.run calls).step c).buckets[peer]? = none := by
      intro gone
      cases found : ((t.run calls).step c).buckets[peer]? with
      | none => rfl
      | some b =>
        rw [one.others peer b mine found] at gone
        cases gone
    rcases shadows with same | ⟨dropped, b, own, x, mem, idle⟩
    · cases here : (t.run calls).buckets[peer]? with
      | none =>
        left
        rw [← same, here]
        exact still here
      | some b =>
        rcases one.lost peer b mine here with kept | ⟨-, gone, idle⟩ | ⟨key, took, new, full, coldest⟩
        · exact .inl (by rw [kept, ← same, here])
        · exact .inr ⟨gone, b, by rw [← same, here], c, by simp, idle⟩
        · -- crowded out, which takes as many other peers as there is room for
          have many := othersSince_of_full ordered tracked here took new full coldest
          have last : lastTake peer (calls ++ [c]) = some b.last := by
            rw [lastTake_concat, if_neg mine, tracked.stamped peer b here]
          exact absurd (uncrowded _ _ (List.prefix_refl _) last) (Nat.not_lt.mpr many)
    · exact .inr ⟨still dropped, b, own, x, List.mem_append_left _ mem, idle⟩

end Step

theorem Uncrowded.of_append {peer : String} {calls more : List (Timed T)}
    (uncrowded : Uncrowded peer (calls ++ more)) : Uncrowded peer calls :=
  fun seen last start => uncrowded seen last (start.trans (List.prefix_append ..))

/-- A short run crowds nobody out. -/
theorem uncrowded_of_length {peer : String} {calls : List (Timed T)}
    (few : calls.length < maxTrackedPeers) : Uncrowded peer calls := by
  intro seen last start _
  refine Nat.lt_of_le_of_lt ?_ few
  calc (othersSince peer last seen).card
      ≤ ((seen.filter fun c => decide (last ≤ c.now)).filterMap (·.peer)).length :=
        (Finset.card_erase_le ..).trans (List.toFinset_card_le _)
    _ ≤ (seen.filter fun c => decide (last ≤ c.now)).length := List.length_filterMap_le ..
    _ ≤ seen.length := List.length_filter_le ..
    _ ≤ calls.length := start.length_le

/-- **The map is transparent**: in every run it answers a peer that is not crowded out as the
    peer's own bucket would. -/
theorem shadows_run {arith : Arithmetic T} (refills : arith.Refills) {perMinute : Nat}
    (enabled : perMinute ≠ 0) {peer : String} {calls : List (Timed T)}
    (ordered : calls.Pairwise fun x y => x.now ≤ y.now) (uncrowded : Uncrowded peer calls) :
    Shadows (TokenBucket.new arith perMinute) peer calls := by
  have on : (TokenBucket.new arith perMinute).isDisabled = false := decide_eq_false enabled
  induction calls using List.reverseRecOn with
  | nil => exact .inl (by simp [TokenBucket.run, TokenBucket.new, TokenBucket.ideal, takesOf])
  | append_singleton calls c ih =>
    have shadows := ih (List.pairwise_append.mp ordered).1 uncrowded.of_append
    exact shadows.step on refills (tracked_run arith enabled calls) ordered uncrowded

/-- **Dropping is invisible**. A take of a peer that is not crowded out is answered as by a bucket
    of its own that is never dropped, whatever the others do and however the map drops buckets,
    when an idle window fills a bucket. -/
theorem limiter_transparent {arith : Arithmetic T} (refills : arith.Refills) {perMinute : Nat}
    (enabled : perMinute ≠ 0) {peer : String} {calls : List (Timed T)} {now : Nat}
    (ordered : calls.Pairwise fun x y => x.now ≤ y.now) (later : ∀ x ∈ calls, x.now ≤ now)
    (uncrowded : Uncrowded peer calls) (iter : Iteration T) :
    (((TokenBucket.new arith perMinute).run calls).take iter now peer).1 =
      (TokenBucket.new arith perMinute).idealTake (takesOf peer calls) now := by
  have on : (TokenBucket.new arith perMinute).isDisabled = false := decide_eq_false enabled
  have shadows := shadows_run refills enabled ordered uncrowded
  rw [((TokenBucket.new arith perMinute).run_take on calls iter now peer).1,
    shadows.spend refills later]
  rfl

end Ideal

/-- A burst of two and sixty a minute, which floating point counts exactly on whole seconds. -/
def wholeSeconds : Arithmetic Nat where
  capacity := 2
  refill tokens elapsed := min (tokens + elapsed / 1000000000) 2
  hasOne tokens := decide (1 ≤ tokens)
  spendOne tokens := tokens - 1

theorem wholeSeconds_refills : wholeSeconds.Refills where
  still := rfl
  idle := fun tokens elapsed _ idle => by
    simp only [wholeSeconds, idleEvict] at *
    omega

/-- The burst is spent and the bucket dropped when it is idle; the next request finds another
    full one, as its own bucket would be. -/
theorem limiter_transparent_dropped :
    (((TokenBucket.new wholeSeconds 60).run [⟨0, .take inOrder "10.0.0.1"⟩,
      ⟨0, .take inOrder "10.0.0.1"⟩, ⟨idleEvict, .evictIdle⟩]).take inOrder idleEvict "10.0.0.1").1 =
        true := by
  rw [limiter_transparent wholeSeconds_refills (by decide) (by simp [idleEvict])
    (by simp [idleEvict]) (uncrowded_of_length (by decide))]
  decide

end RustApi.Limits
