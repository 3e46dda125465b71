import RustApi.Lib.Pool
import RustApi.Sync.Wal

/-!
# Concurrent use of the feed

The methods of `Wal` as programs over the individual calls on its store and its two
locks. Any number of appends and reads run at once, and every store call may fail.

## Main results

- `appendEntryLocked_run`: run alone, an append is the atomic `Wal.append`.
- `feed_integrity`: in every run the store holds a gap-free log that only grows, and a
  range that is returned is the part of the log that was asked for.
-/

namespace RustApi

open Lib

namespace Wal

/-! ### Calls -/

/-- Calls on the feed store, on `append_lock` and on the lock of the store handle. The
    replies are the values that a method hands to its caller. -/
inductive LogCall where
  | lockAppend
  | unlockAppend
  | lockWrite
  | unlockWrite
  | lockRead
  | unlockRead
  | getBytes (key : String)
  | now
  | beginTx
  | setBytes (write : Kv.Write WalValue)
  | commit (writes : List (Kv.Write WalValue))
  | replySeq (seq : Nat)
  | replyRange (entries : List WalEntry)
  deriving DecidableEq

@[reducible] def LogCall.Ans : LogCall → Type
  | .getBytes _ => Option WalValue
  | .now => Int
  | _ => Unit

structure LogWorld where
  store : Kv WalValue
  appending : Bool
  writer : Bool
  readers : Nat
  clock : Int

/-- A store that nobody has locked. -/
def LogWorld.opened (store : Kv WalValue) : LogWorld := ⟨store, false, false, 0, 0⟩

def LogCall.exec : (c : LogCall) → LogWorld → Except Error c.Ans × LogWorld
  | .lockAppend, w => (.ok (), { w with appending := true })
  | .unlockAppend, w => (.ok (), { w with appending := false })
  | .lockWrite, w => (.ok (), { w with writer := true })
  | .unlockWrite, w => (.ok (), { w with writer := false })
  | .lockRead, w => (.ok (), { w with readers := w.readers + 1 })
  | .unlockRead, w => (.ok (), { w with readers := w.readers - 1 })
  | .getBytes key, w => (.ok w.store[key]?, w)
  | .now, w => (.ok w.clock, w)
  | .beginTx, w => (.ok (), w)
  -- A staged write stays in the transaction until the commit.
  | .setBytes _, w => (.ok (), w)
  | .commit writes, w => (.ok (), { w with store := Kv.commit writes w.store })
  | .replySeq _, w => (.ok (), w)
  | .replyRange _, w => (.ok (), w)

def LogCall.enabled : LogCall → LogWorld → Prop
  | .lockAppend, w => w.appending = false
  | .lockWrite, w => w.writer = false ∧ w.readers = 0
  | .lockRead, w => w.writer = false
  | _, _ => True

/-- The calls that reach the store may fail, with any error. -/
def LogCall.mayFail : LogCall → Error → Prop
  | .getBytes _, _ => True
  | .beginTx, _ => True
  | .setBytes _, _ => True
  | .commit _, _ => True
  | _, _ => False

/-! ### Methods -/

abbrev LogM (α : Type) : Type := Prog LogCall.Ans Error α

def onLog (c : LogCall) : LogM c.Ans := Prog.perform c

/-- The two writes of an append whose head was `cur`. A sequence number is a `u64`. -/
def entryWrites (op : WalOp) (cur : Nat) (ts : Int) : List (Kv.Write WalValue) :=
  -- a `u64` sum, which wraps in a release build
  let seq := (cur + 1) % 2 ^ 64
  [.put (entryKey seq) (.entry ⟨seq, op, ts⟩), .put seqKey (.seq seq)]

/-- The transaction of an append. -/
def commitEntry (op : WalOp) (cur : Nat) : LogM Nat := do
  let ts ← onLog .now
  let _ ← onLog .beginTx
  let _ ← onLog (.setBytes
    (.put (entryKey ((cur + 1) % 2 ^ 64)) (.entry ⟨(cur + 1) % 2 ^ 64, op, ts⟩)))
  let _ ← onLog (.setBytes (.put seqKey (.seq ((cur + 1) % 2 ^ 64))))
  -- both writes land with the commit, or neither does
  let _ ← onLog (.commit (entryWrites op cur ts))
  pure ((cur + 1) % 2 ^ 64)

/-- The part of `append_entry_locked` that runs under both guards. -/
def appendGuarded (op : WalOp) : LogM Nat := do
  match ← onLog (.getBytes seqKey) with
  | none => commitEntry op 0
  | some (.seq cur) => commitEntry op cur
  | some _ => Prog.fail (.fs (.internal "wal head pointer is undecodable"))

def appendEntryLocked (op : WalOp) : LogM Nat := do
  let _ ← onLog .lockAppend
  let _ ← onLog .lockWrite
  -- both guards are dropped on the way out, whatever `r` is
  let r ← (appendGuarded op).attempt
  let _ ← onLog .unlockWrite
  let _ ← onLog .unlockAppend
  Prog.lift r

/-- Hold a read guard on the store while `body` runs. -/
def withRead {α : Type} (body : LogM α) : LogM α := do
  let _ ← onLog .lockRead
  let r ← body.attempt
  let _ ← onLog .unlockRead
  Prog.lift r

def readHead : LogM Nat :=
  withRead do
    match ← onLog (.getBytes seqKey) with
    | none => pure 0
    | some (.seq n) => pure n
    | some _ => Prog.fail decodeError

/-- The loop of `range` over `n` entries that start at `seq`; `out` is what was read. -/
def readLoop (seq : Nat) : Nat → List WalEntry → LogM (List WalEntry)
  | 0, out => pure out
  | n + 1, out => do
    match ← onLog (.getBytes (entryKey seq)) with
    | none => Prog.fail (.fs (.store ("wal entry " ++ toString seq ++ " missing")))
    | some (.entry e) =>
      -- an entry under a key that is not its own
      if e.seq ≠ seq then
        Prog.fail (.fs (.internal ("wal entry " ++ toString seq ++ " holds sequence " ++
          toString e.seq)))
      else readLoop (seq + 1) n (out ++ [e])
    | some _ => Prog.fail (.fs (.internal ("wal entry " ++ toString seq ++ " undecodable")))

def readRange (lo hi : Nat) : LogM (List WalEntry) :=
  if lo > hi then
    Prog.fail (.fs (.store ("wal range " ++ toString lo ++ "..=" ++ toString hi ++
      " runs backwards: the head cannot be behind a reader that has applied " ++ toString lo)))
  else withRead (readLoop lo (hi + 1 - lo) [])

/-- The requests to a feed. -/
inductive LogOp where
  | append (op : WalOp)
  | head
  | range (lo hi : Nat)
  deriving DecidableEq

def LogOp.prog : LogOp → LogM Unit
  | .append op => do
    let seq ← appendEntryLocked op
    onLog (.replySeq seq)
  | .head => do
    let n ← readHead
    onLog (.replySeq n)
  | .range lo hi => do
    let entries ← readRange lo hi
    onLog (.replyRange entries)

/-- Any number of requests to one feed, while the clock does as it likes. -/
def logSystem : System LogCall.Ans Error LogWorld LogOp where
  exec := LogCall.exec
  enabled := LogCall.enabled
  mayFail := LogCall.mayFail
  mayDrop := fun _ => False
  drop := fun _ _ w => w
  env := fun w w' => ∃ clock, w' = { w with clock := clock }
  prog := LogOp.prog

abbrev LogPool : Type := Pool LogCall.Ans Error LogWorld LogOp

/-- An opened feed before its first request. -/
def logPool (store : Kv WalValue) : LogPool := ⟨.opened store, fun _ => none⟩

/-! ### The atomic append -/

private theorem commitEntry_run (op : WalOp) (cur : Nat) (w : LogWorld) :
    (commitEntry op cur).run LogCall.exec w = (.ok ((cur + 1) % 2 ^ 64),
      { w with store := Kv.commit (entryWrites op cur w.clock) w.store }) := rfl

private theorem appendGuarded_run (op : WalOp) (w : LogWorld)
    (room : ∀ n, w.store[seqKey]? = some (.seq n) → n < 2 ^ 64 - 1) :
    (appendGuarded op).run LogCall.exec w =
      match append w.clock op w.store with
      | .ok (seq, store) => (.ok seq, { w with store := store })
      | .error e => (.error e, w) := by
  rw [appendGuarded, Prog.run_bind]
  simp only [onLog, Prog.run_perform, LogCall.exec, append]
  cases found : w.store[seqKey]? with
  | none => exact commitEntry_run op 0 w
  | some v =>
    cases v with
    | seq n =>
      -- below the bound the head does not wrap
      have small : (n + 1) % 2 ^ 64 = n + 1 := Nat.mod_eq_of_lt (by have := room n found; omega)
      refine (commitEntry_run op n w).trans ?_
      simp only [entryWrites, small]
    | entry e => rfl
    | raw bytes => rfl

/-- Alone, and below the last sequence number, an append is the atomic one. -/
theorem appendEntryLocked_run (op : WalOp) (store : Kv WalValue)
    (room : ∀ n, store[seqKey]? = some (.seq n) → n < 2 ^ 64 - 1) :
    (appendEntryLocked op).run LogCall.exec (.opened store) =
      match append 0 op store with
      | .ok (seq, store') => (.ok seq, .opened store')
      | .error e => (.error e, .opened store) := by
  have body := appendGuarded_run op ⟨store, true, true, 0, 0⟩ room
  simp only [appendEntryLocked, onLog, Prog.run_bind, Prog.run_perform, LogCall.exec,
    LogWorld.opened, Prog.run_attempt, Prog.run_lift, body]
  cases append 0 op store with
  | ok r => rfl
  | error e => rfl

/-! ### What a request may do -/

/-- What a request has done so far: whether it holds the write guard, the head it read
    under that guard, whether it committed, and the entries it read. -/
structure Progress where
  op : LogOp
  guard : Bool
  cur : Option Nat
  done : Bool
  entries : List WalEntry

/-- The head that a stored pointer gives. -/
def headOf : Option WalValue → Option Nat
  | none => some 0
  | some (.seq n) => some n
  | some _ => none

def Progress.read (st : Progress) (key : String) (v : Option WalValue) : Progress :=
  if key = seqKey then (if st.guard then { st with cur := headOf v } else st)
  else match v with
    | some (.entry e) => if key = entryKey e.seq then { st with entries := st.entries ++ [e] } else st
    | _ => st

/-- A commit writes behind the head that was read under the guard, and a range that is
    returned is what was read. -/
def logProtocol : Prog.Protocol LogCall.Ans Error where
  State := Progress
  allowed st c :=
    match c with
    | .commit ws => ∃ op cur ts, st.op = .append op ∧ st.cur = some cur ∧ ws = entryWrites op cur ts
    | .lockWrite => st.guard = false
    | .unlockWrite => st.guard = true
    | .replyRange es => ∃ lo hi, st.op = .range lo hi ∧ lo ≤ hi ∧ es = st.entries ∧
        es.map (·.seq) = List.range' lo (hi + 1 - lo)
    | _ => True
  possible _ _ := True
  track st c r :=
    match c, r with
    | .lockWrite, .ok _ => { st with guard := true }
    | .unlockWrite, _ => { st with guard := false, cur := none }
    | .getBytes key, .ok v => st.read key v
    | .commit _, .ok _ => { st with cur := none, done := true }
    | _, _ => st

def LogOp.start (op : LogOp) : Progress := ⟨op, false, none, false, []⟩

/-- An append that succeeds has committed. -/
def LogOp.post (op : LogOp) (st : Progress) (r : Except Error Unit) : Prop :=
  ∀ o, op = .append o → r = .ok () → st.done = true

private theorem commitEntry_conf {op : WalOp} {cur : Nat} {st : Progress}
    {post : Progress → Except Error Nat → Prop} (isAppend : st.op = .append op)
    (read : st.cur = some cur)
    (done : post { st with cur := none, done := true } (.ok ((cur + 1) % 2 ^ 64)))
    (failed : ∀ e, post st (.error e)) : (commitEntry op cur).Conf logProtocol post st := by
  refine Prog.conf_seq trivial failed fun ts => ?_
  refine Prog.conf_seq trivial failed fun _ => ?_
  refine Prog.conf_seq trivial failed fun _ => ?_
  refine Prog.conf_seq trivial failed fun _ => ?_
  refine Prog.conf_seq ⟨op, cur, ts, isAppend, read, rfl⟩ failed fun _ => ?_
  exact done

private theorem appendGuarded_conf {op : WalOp} {st : Progress}
    {post : Progress → Except Error Nat → Prop} (isAppend : st.op = .append op)
    (guard : st.guard = true) (done : ∀ seq, post { st with cur := none, done := true } (.ok seq))
    (failed : ∀ cur e, post { st with cur := cur } (.error e)) :
    (appendGuarded op).Conf logProtocol post st := by
  refine Prog.conf_seq trivial (fun e => failed st.cur e) fun v => ?_
  have read : logProtocol.track st (.getBytes seqKey) (.ok v) = { st with cur := headOf v } := by
    simp [logProtocol, Progress.read, guard]
  rw [read]
  match v with
  | none => exact commitEntry_conf isAppend rfl (done _) (failed _)
  | some (.seq n) => exact commitEntry_conf isAppend rfl (done _) (failed _)
  | some (.entry _) => exact failed _ _
  | some (.raw _) => exact failed _ _

private theorem append_conf (op : WalOp) :
    (LogOp.append op).prog.Conf logProtocol (LogOp.append op).post (LogOp.append op).start := by
  refine Prog.conf_bind.mpr (Prog.conf_bind.mpr ⟨trivial, ?_⟩)
  rintro (e | _) -
  · exact fun _ _ bad => nomatch bad
  refine Prog.conf_seq rfl (fun _ _ _ bad => nomatch bad) fun _ => ?_
  refine Prog.conf_bind.mpr (Prog.conf_attempt.mpr (appendGuarded_conf rfl rfl ?_ ?_))
  · intro seq
    refine Prog.conf_seq rfl (fun _ _ _ bad => nomatch bad) fun _ => ?_
    refine Prog.conf_seq trivial (fun _ _ _ bad => nomatch bad) fun _ => ?_
    exact ⟨trivial, fun _ _ _ _ _ => rfl⟩
  · intro cur e
    refine Prog.conf_seq rfl (fun _ _ _ bad => nomatch bad) fun _ => ?_
    refine Prog.conf_seq trivial (fun _ _ _ bad => nomatch bad) fun _ => ?_
    exact fun _ _ bad => nomatch bad

/-- A request that only reads needs nothing of its guard and leaves nothing to show. -/
private theorem withRead_conf {α : Type} {body : LogM α} {st : Progress}
    {post : Progress → Except Error α → Prop} (reads : body.Conf logProtocol post st)
    (failed : ∀ st e, post st (.error e)) : (withRead body).Conf logProtocol post st := by
  refine Prog.conf_seq trivial (failed _) fun _ => ?_
  refine Prog.conf_bind.mpr (Prog.conf_attempt.mpr (reads.mono ?_))
  intro st' r held
  refine Prog.conf_seq trivial (failed _) fun _ => ?_
  exact held

private theorem head_conf :
    LogOp.head.prog.Conf logProtocol LogOp.head.post LogOp.head.start := by
  have reads : readHead.Conf logProtocol (fun _ _ => True) LogOp.head.start := by
    refine withRead_conf (Prog.conf_bind.mpr ⟨trivial, ?_⟩) fun _ _ => trivial
    rintro (e | v) -
    · trivial
    match v with
    | none => trivial
    | some (.seq _) => trivial
    | some (.entry _) => trivial
    | some (.raw _) => trivial
  refine Prog.conf_bind.mpr (reads.mono ?_)
  rintro st (e | n) -
  · exact fun _ other => nomatch other
  · exact ⟨trivial, fun _ _ _ other => nomatch other⟩

private theorem read_entry {st : Progress} {seq : Nat} {e : WalEntry} (numbered : e.seq = seq) :
    logProtocol.track st (.getBytes (entryKey seq)) (.ok (some (.entry e))) =
      { st with entries := st.entries ++ [e] } := by
  simp [logProtocol, Progress.read, numbered]

/-- The loop returns what it read, numbered without a gap. -/
private theorem readLoop_conf {op : LogOp} (n : Nat) {seq : Nat} {out : List WalEntry}
    {st : Progress} (isOp : st.op = op) (read : st.entries = out) :
    (readLoop seq n out).Conf logProtocol (fun st' r => ∀ es, r = .ok es → st'.op = op ∧
      st'.entries = es ∧ es.map (·.seq) = out.map (·.seq) ++ List.range' seq n) st := by
  -- on the entries that are left; `out` grows as `entries` of the progress does
  induction n generalizing seq out st with
  | zero =>
    rintro es ⟨⟩
    exact ⟨isOp, read, by simp⟩
  | succ n ih =>
    refine Prog.conf_seq trivial (fun _ _ bad => nomatch bad) fun v => ?_
    match v with
    | none => exact fun _ bad => nomatch bad
    | some (.seq _) => exact fun _ bad => nomatch bad
    | some (.raw _) => exact fun _ bad => nomatch bad
    | some (.entry e) =>
      change (if e.seq ≠ seq then Prog.fail _ else readLoop (seq + 1) n (out ++ [e])).Conf
        logProtocol _ _
      split
      next other => exact fun _ bad => nomatch bad
      next numbered =>
        rw [not_not] at numbered
        rw [read_entry numbered]
        refine (@ih (seq + 1) (out ++ [e]) { st with entries := st.entries ++ [e] } isOp
          (by simp [read])).mono ?_
        intro st' r held es ok
        obtain ⟨same, got, seqs⟩ := held es ok
        exact ⟨same, got, by simp [seqs, numbered, List.range'_succ]⟩

private theorem range_conf (lo hi : Nat) :
    (LogOp.range lo hi).prog.Conf logProtocol (LogOp.range lo hi).post
      (LogOp.range lo hi).start := by
  have reads : (readRange lo hi).Conf logProtocol (fun st r => ∀ es, r = .ok es →
      st.op = .range lo hi ∧ lo ≤ hi ∧ st.entries = es ∧
        es.map (·.seq) = List.range' lo (hi + 1 - lo)) (LogOp.range lo hi).start := by
    rw [readRange]
    split
    · exact fun _ bad => nomatch bad
    next order =>
      have loop := @readLoop_conf (.range lo hi) (hi + 1 - lo) lo [] (LogOp.range lo hi).start
        rfl rfl
      refine withRead_conf (loop.mono ?_) fun _ _ _ bad => nomatch bad
      intro st r held es ok
      obtain ⟨same, got, seqs⟩ := held es ok
      exact ⟨same, by omega, got, seqs⟩
  refine Prog.conf_bind.mpr (reads.mono ?_)
  rintro st (e | es) held
  · exact fun _ other => nomatch other
  · obtain ⟨same, order, got, seqs⟩ := held es rfl
    exact ⟨⟨lo, hi, same, order, got.symm, seqs⟩, fun _ _ _ other => nomatch other⟩

private theorem prog_conf (op : LogOp) : op.prog.Conf logProtocol op.post op.start := by
  cases op with
  | append op => exact append_conf op
  | head => exact head_conf
  | range lo hi => exact range_conf lo hi

/-! ### The log of a run -/

/-- The requests whose commit went through, in the order of the commits. -/
def committers (h : List (Label LogCall Error LogOp)) : List Nat :=
  h.filterMap fun
    | .call pid (.commit _) none => some pid
    | _ => none

/-- `es` is what a log has from `lo` to `hi`, and the log reaches that far. -/
def Answers (entries : List WalEntry) (lo hi : Nat) (es : List WalEntry) : Prop :=
  1 ≤ lo ∧ lo ≤ hi ∧ hi ≤ entries.length ∧ es = (entries.drop (lo - 1)).take (hi + 1 - lo)

/-- The store holds a log and no entry besides. -/
structure Intact (kv : Kv WalValue) (entries : List WalEntry) : Prop extends Log kv entries where
  inside : ∀ seq v, kv[entryKey seq]? = some v → 1 ≤ seq ∧ seq ≤ entries.length

/-- What a request knows of the log is true: the head it read is still the head, since it
    holds the guard, and the entries it read are in the log. -/
structure Sound (entries : List WalEntry) (w : LogWorld) (op : LogOp) (st : Progress) : Prop where
  same : st.op = op
  holds : st.guard = true → w.writer = true
  cur : ∀ n, st.cur = some n → st.guard = true ∧ n = entries.length
  read : ∀ e ∈ st.entries, 1 ≤ e.seq ∧ entries[e.seq - 1]? = some e

structure Held (entries : List WalEntry) (w : LogWorld) (view : Nat → Option (LogOp × Progress)) :
    Prop where
  intact : Intact w.store entries
  sound : ∀ pid op st, view pid = some (op, st) → Sound entries w op st
  single : ∀ pid pid' op op' st st', view pid = some (op, st) → view pid' = some (op', st') →
    st.guard = true → st'.guard = true → pid = pid'

/-- What the steps `h` did to the log: `more` was committed and the ranges were answered. -/
structure Told (entries more : List WalEntry) (h : List (Label LogCall Error LogOp))
    (ops : Nat → Option LogOp) : Prop where
  committed : more.map (fun e => some (LogOp.append e.op)) = (committers h).map ops
  replied : ∀ pid es, .call pid (.replyRange es) none ∈ h →
    ∃ lo hi, ops pid = some (.range lo hi) ∧ Answers entries lo hi es

/-! ### One step of the log -/

theorem Intact.commit {kv : Kv WalValue} {entries : List WalEntry} (intact : Intact kv entries)
    (op : WalOp) (ts : Int) (room : entries.length < 2 ^ 64 - 1) :
    Intact (Kv.commit (entryWrites op entries.length ts) kv)
      (entries ++ [⟨entries.length + 1, op, ts⟩]) := by
  have small : (entries.length + 1) % 2 ^ 64 = entries.length + 1 :=
    Nat.mod_eq_of_lt (by omega)
  rw [entryWrites, small]
  refine ⟨intact.toLog.commit ts op, ?_⟩
  intro seq v found
  simp only [Kv.commit_cons, Kv.commit_nil, Kv.get_apply, Kv.Write.key,
    (entryKey_ne_seqKey _).symm, if_false, entryKey_inj] at found
  rw [List.length_append, List.length_singleton]
  -- only the key of the new entry has a new value
  by_cases last : entries.length + 1 = seq
  · omega
  · rw [if_neg last] at found
    have := intact.inside seq v found
    omega

theorem Answers.append {entries : List WalEntry} {lo hi : Nat} {es : List WalEntry}
    (answers : Answers entries lo hi es) (e : WalEntry) : Answers (entries ++ [e]) lo hi es := by
  obtain ⟨low, order, high, rfl⟩ := answers
  refine ⟨low, order, by rw [List.length_append]; omega, ?_⟩
  rw [List.drop_append_of_le_length (by omega), List.take_append_of_le_length]
  rw [List.length_drop]
  omega

/-- Entries of the log with the numbers `lo` to `hi` are the range. -/
theorem answers_of_read {entries es : List WalEntry} {lo hi : Nat} (order : lo ≤ hi)
    (seqs : es.map (·.seq) = List.range' lo (hi + 1 - lo))
    (read : ∀ e ∈ es, 1 ≤ e.seq ∧ entries[e.seq - 1]? = some e) : Answers entries lo hi es := by
  have length : es.length = hi + 1 - lo := by simpa using congrArg List.length seqs
  have numbered : ∀ i (h : i < es.length), es[i].seq = lo + i := by
    intro i h
    have at_i : (es.map (·.seq))[i]? = (List.range' lo (hi + 1 - lo))[i]? := by rw [seqs]
    simpa [List.getElem?_range', h, length ▸ h] using at_i
  have stored : ∀ i (h : i < es.length), entries[lo + i - 1]? = some es[i] := by
    intro i h
    rw [← numbered i h]
    exact (read _ (List.getElem_mem h)).2
  have low : 1 ≤ lo := by
    have := (read _ (List.getElem_mem (by omega : 0 < es.length))).1
    rwa [numbered 0 (by omega)] at this
  have high : hi ≤ entries.length := by
    obtain ⟨inside, -⟩ := List.getElem?_eq_some_iff.mp (stored (hi - lo) (by omega))
    omega
  -- entry by entry: inside the range it is stored there, behind it both lists end
  refine ⟨low, order, high, List.ext_getElem? fun i => ?_⟩
  by_cases inside : i < es.length
  · rw [List.getElem?_eq_getElem inside, List.getElem?_take_of_lt (by omega), List.getElem?_drop,
      ← stored i inside]
    congr 1
    omega
  · rw [List.getElem?_eq_none (by omega), List.getElem?_eq_none]
    rw [List.length_take, List.length_drop]
    omega

section Frame

variable {entries more : List WalEntry} {h : List (Label LogCall Error LogOp)} {w w' : LogWorld}
  {view : Nat → Option (LogOp × Progress)} {pid : Nat} {op : LogOp} {st st' : Progress}

/-- What every request runs does not change with its progress. -/
private theorem ops_update (here : view pid = some (op, st)) (st' : Progress) :
    (fun q => (Function.update view pid (some (op, st')) q).map (·.1)) =
      fun q => (view q).map (·.1) := by
  funext q
  by_cases same : q = pid
  · subst same
    simp [here]
  · rw [Function.update_of_ne same]

/-- A step that leaves the store, the write lock and its own guard as they were. -/
private theorem Held.frame (held : Held entries w view) (here : view pid = some (op, st))
    (store : w'.store = w.store) (writer : w'.writer = w.writer) (guard : st'.guard = st.guard)
    (sound : Sound entries w op st') :
    Held entries w' (Function.update view pid (some (op, st'))) := by
  have moved : ∀ op st, Sound entries w op st → Sound entries w' op st := fun op st old =>
    ⟨old.same, fun hg => writer.trans (old.holds hg), old.cur, old.read⟩
  refine ⟨store ▸ held.intact, ?_, ?_⟩
  · intro q op₁ st₁ found
    rcases update_eq_some.mp found with ⟨rfl, ⟨⟩⟩ | ⟨-, found⟩
    · exact moved _ _ sound
    · exact moved _ _ (held.sound q _ _ found)
  · -- no guard was taken, so two guards now are two guards before
    intro q q' op₁ op₂ st₁ st₂ found found' g g'
    have before : ∀ r op₃ st₃, Function.update view pid (some (op, st')) r = some (op₃, st₃) →
        st₃.guard = true → ∃ op₄ st₄, view r = some (op₄, st₄) ∧ st₄.guard = true := by
      intro r op₃ st₃ found g
      rcases update_eq_some.mp found with ⟨rfl, ⟨⟩⟩ | ⟨-, found⟩
      · exact ⟨op, st, here, guard ▸ g⟩
      · exact ⟨op₃, st₃, found, g⟩
    obtain ⟨_, _, found, g⟩ := before q _ _ found g
    obtain ⟨_, _, found', g'⟩ := before q' _ _ found' g'
    exact held.single _ _ _ _ _ _ found found' g g'

private theorem Told.frame {ops : Nat → Option LogOp} (told : Told entries more h ops)
    {l : Label LogCall Error LogOp} (quiet : committers [l] = [])
    (silent : ∀ q es, l ≠ .call q (.replyRange es) none) : Told entries more (h ++ [l]) ops := by
  refine ⟨?_, ?_⟩
  · rw [committers, List.filterMap_append]
    exact told.committed.trans (by simp [committers] at quiet ⊢; simp [quiet])
  · intro q es said
    rcases List.mem_append.mp said with old | new
    · exact told.replied q es old
    · exact absurd (List.mem_singleton.mp new).symm (silent q es)

private theorem Held.lock (held : Held entries w view) (here : view pid = some (op, st))
    (free : w.writer = false) :
    Held entries { w with writer := true }
      (Function.update view pid (some (op, { st with guard := true }))) := by
  have nobody : ∀ q op₁ st₁, view q = some (op₁, st₁) → st₁.guard = false := by
    intro q op₁ st₁ found
    have holds := (held.sound q _ _ found).holds
    cases taken : st₁.guard with
    | false => rfl
    | true => simp [holds taken] at free
  refine ⟨held.intact, ?_, ?_⟩
  · intro q op₁ st₁ found
    rcases update_eq_some.mp found with ⟨rfl, ⟨⟩⟩ | ⟨-, found⟩
    · have old := held.sound q _ _ here
      exact ⟨old.same, fun _ => rfl, fun n read => ⟨rfl, (old.cur n read).2⟩, old.read⟩
    · have old := held.sound q _ _ found
      exact ⟨old.same, fun _ => rfl, old.cur, old.read⟩
  · intro q q' op₁ op₂ st₁ st₂ found found' g g'
    have only : ∀ r op₃ st₃, Function.update view pid (some (op, { st with guard := true })) r =
        some (op₃, st₃) → st₃.guard = true → r = pid := by
      intro r op₃ st₃ found g
      by_contra other
      rw [Function.update_of_ne other] at found
      rw [nobody r _ _ found] at g
      cases g
    rw [only q _ _ found g, only q' _ _ found' g']

private theorem Held.unlock (held : Held entries w view) (here : view pid = some (op, st))
    (taken : st.guard = true) :
    Held entries { w with writer := false }
      (Function.update view pid (some (op, { st with guard := false, cur := none }))) := by
  -- there was one guard, which is given back here
  have others : ∀ q op₁ st₁, q ≠ pid → view q = some (op₁, st₁) → st₁.guard = false := by
    intro q op₁ st₁ other found
    cases g : st₁.guard with
    | false => rfl
    | true => exact absurd (held.single _ _ _ _ _ _ found here g taken) other
  refine ⟨held.intact, ?_, ?_⟩
  · intro q op₁ st₁ found
    rcases update_eq_some.mp found with ⟨rfl, ⟨⟩⟩ | ⟨other, found⟩
    · have old := held.sound q _ _ here
      exact ⟨old.same, fun bad => by simp at bad, fun n bad => by simp at bad, old.read⟩
    · have old := held.sound q _ _ found
      refine ⟨old.same, fun bad => ?_, old.cur, old.read⟩
      rw [others q _ _ other found] at bad
      cases bad
  · intro q q' op₁ op₂ st₁ st₂ found found' g g'
    have none_left : ∀ r op₃ st₃, Function.update view pid
        (some (op, { st with guard := false, cur := none })) r = some (op₃, st₃) →
        st₃.guard = false := by
      intro r op₃ st₃ found
      rcases update_eq_some.mp found with ⟨rfl, ⟨⟩⟩ | ⟨other, found⟩
      · rfl
      · exact others r _ _ other found
    rw [none_left q _ _ found] at g
    cases g

/-- A commit behind the head that its request read. -/
private theorem Held.commit (held : Held entries w view) (here : view pid = some (op, st))
    (o : WalOp) (ts : Int) (read : st.cur = some entries.length)
    (room : entries.length < 2 ^ 64 - 1) :
    Held (entries ++ [⟨entries.length + 1, o, ts⟩])
      { w with store := Kv.commit (entryWrites o entries.length ts) w.store }
      (Function.update view pid (some (op, { st with cur := none, done := true }))) := by
  have guard := ((held.sound pid _ _ here).cur _ read).1
  have grown : ∀ es : List WalEntry, (∀ e ∈ es, 1 ≤ e.seq ∧ entries[e.seq - 1]? = some e) →
      ∀ e ∈ es, 1 ≤ e.seq ∧
        (entries ++ [⟨entries.length + 1, o, ts⟩])[e.seq - 1]? = some e := by
    intro es old e he
    obtain ⟨low, stored⟩ := old e he
    obtain ⟨inside, -⟩ := List.getElem?_eq_some_iff.mp stored
    exact ⟨low, by rw [List.getElem?_append_left inside, stored]⟩
  refine ⟨held.intact.commit o ts room, ?_, ?_⟩
  · intro q op₁ st₁ found
    rcases update_eq_some.mp found with ⟨rfl, ⟨⟩⟩ | ⟨other, found⟩
    · have old := held.sound q _ _ here
      exact ⟨old.same, old.holds, fun n bad => by simp at bad, grown _ old.read⟩
    · have old := held.sound q _ _ found
      refine ⟨old.same, old.holds, fun n bad => ?_, grown _ old.read⟩
      -- nobody else has read a head under the guard
      exact absurd (held.single _ _ _ _ _ _ found here (old.cur n bad).1 guard) other
  · exact (held.frame here rfl rfl rfl
      ⟨(held.sound pid _ _ here).same, (held.sound pid _ _ here).holds, fun n bad => by simp at bad,
        (held.sound pid _ _ here).read⟩ :
        Held entries w (Function.update view pid (some (op, { st with cur := none, done := true })))).single

end Frame

/-! ### Whole runs -/

/-- The invariant of a run that found the log `base`. -/
def Kept (base : List WalEntry) (h : List (Label LogCall Error LogOp)) (w : LogWorld)
    (view : Nat → Option (LogOp × Progress)) : Prop :=
  ∃ more, Held (base ++ more) w view ∧ Told (base ++ more) more h fun q => (view q).map (·.1)

/-- The head has not reached the last sequence number. -/
def Below (s : LogPool) (_ : Label LogCall Error LogOp) : Prop :=
  ∀ n, head s.world.store = .ok n → n < 2 ^ 64 - 1

section Steps

variable {base : List WalEntry} {h : List (Label LogCall Error LogOp)} {w w' : LogWorld}
  {view : Nat → Option (LogOp × Progress)} {pid : Nat} {op : LogOp} {st st' : Progress}

private theorem Kept.frame (kept : Kept base h w view) (here : view pid = some (op, st))
    (store : w'.store = w.store) (writer : w'.writer = w.writer) (guard : st'.guard = st.guard)
    (sound : ∀ entries, Intact w.store entries → Sound entries w op st → Sound entries w op st')
    {l : Label LogCall Error LogOp} (quiet : committers [l] = [])
    (silent : ∀ q es, l ≠ .call q (.replyRange es) none) :
    Kept base (h ++ [l]) w' (Function.update view pid (some (op, st'))) := by
  obtain ⟨more, held, told⟩ := kept
  refine ⟨more, held.frame here store writer guard
    (sound _ held.intact (held.sound pid _ _ here)), ?_⟩
  rw [ops_update here]
  exact told.frame quiet silent

private theorem Kept.lock (kept : Kept base h w view) (here : view pid = some (op, st))
    (free : w.writer = false) :
    Kept base (h ++ [.call pid .lockWrite none]) { w with writer := true }
      (Function.update view pid (some (op, { st with guard := true }))) := by
  obtain ⟨more, held, told⟩ := kept
  refine ⟨more, held.lock here free, ?_⟩
  rw [ops_update here]
  exact told.frame rfl (by simp)

private theorem Kept.unlock (kept : Kept base h w view) (here : view pid = some (op, st))
    (taken : st.guard = true) :
    Kept base (h ++ [.call pid .unlockWrite none]) { w with writer := false }
      (Function.update view pid (some (op, { st with guard := false, cur := none }))) := by
  obtain ⟨more, held, told⟩ := kept
  refine ⟨more, held.unlock here taken, ?_⟩
  rw [ops_update here]
  exact told.frame rfl (by simp)

private theorem Kept.commit (kept : Kept base h w view) (here : view pid = some (op, st))
    {o : WalOp} {cur : Nat} (ts : Int) (isAppend : st.op = .append o) (read : st.cur = some cur)
    (room : ∀ n, head w.store = .ok n → n < 2 ^ 64 - 1) :
    Kept base (h ++ [.call pid (.commit (entryWrites o cur ts)) none])
      { w with store := Kv.commit (entryWrites o cur ts) w.store }
      (Function.update view pid (some (op, { st with cur := none, done := true }))) := by
  obtain ⟨more, held, told⟩ := kept
  obtain ⟨-, rfl⟩ := (held.sound pid _ _ here).cur cur read
  have small := room _ held.intact.toLog.head_eq
  have next := held.commit here o ts read small
  rw [List.append_assoc] at next
  refine ⟨_, next, ?_⟩
  rw [ops_update here]
  refine ⟨?_, ?_⟩
  · -- the new entry carries the operation of the request that committed
    have name : (view pid).map (·.1) = some (LogOp.append o) := by
      rw [here, ← isAppend, (held.sound pid _ _ here).same]
      rfl
    rw [List.map_append, told.committed, committers, committers, List.filterMap_append,
      List.map_append]
    simp [name]
  · intro q es said
    rcases List.mem_append.mp said with old | new
    · obtain ⟨lo, hi, asked, answers⟩ := told.replied q es old
      refine ⟨lo, hi, asked, ?_⟩
      rw [← List.append_assoc]
      exact answers.append _
    · cases List.mem_singleton.mp new

private theorem Kept.reply (kept : Kept base h w view) (here : view pid = some (op, st))
    {lo hi : Nat} (isRange : st.op = .range lo hi) (order : lo ≤ hi)
    (seqs : st.entries.map (·.seq) = List.range' lo (hi + 1 - lo)) :
    Kept base (h ++ [.call pid (.replyRange st.entries) none]) w
      (Function.update view pid (some (op, st))) := by
  obtain ⟨more, held, told⟩ := kept
  have sound := held.sound pid _ _ here
  refine ⟨more, held.frame here rfl rfl rfl sound, ?_⟩
  rw [ops_update here]
  refine ⟨?_, ?_⟩
  · -- a reply commits nothing
    rw [told.committed, committers, committers, List.filterMap_append]
    simp
  · intro q es said
    rcases List.mem_append.mp said with old | new
    · exact told.replied q es old
    · cases List.mem_singleton.mp new
      refine ⟨lo, hi, ?_, answers_of_read order seqs sound.read⟩
      rw [here, ← isRange, sound.same]
      rfl

end Steps

/-- A read under the guard finds the head, and an entry that was read is in the log. -/
private theorem Sound.read_key {entries : List WalEntry} {w : LogWorld} {op : LogOp} {st : Progress}
    (sound : Sound entries w op st) (intact : Intact w.store entries) (key : String) :
    Sound entries w op (st.read key w.store[key]?) := by
  unfold Progress.read
  split
  next isSeq =>
    subst isSeq
    split
    next guard =>
      refine ⟨sound.same, sound.holds, ?_, sound.read⟩
      intro n found
      refine ⟨guard, ?_⟩
      -- an empty log has no pointer; its head counts as 0
      rcases intact.pointer with pointer | ⟨rfl, pointer⟩
      · simpa [pointer, headOf, eq_comm] using found
      · simpa [pointer, headOf, eq_comm] using found
    next => exact sound
  next =>
    split
    next e stored =>
      split
      next isEntry =>
        refine ⟨sound.same, sound.holds, sound.cur, ?_⟩
        intro e' he'
        rcases List.mem_append.mp he' with old | new
        · exact sound.read e' old
        · cases List.mem_singleton.mp new
          rw [isEntry] at stored
          obtain ⟨low, high⟩ := intact.inside _ _ stored
          refine ⟨low, ?_⟩
          have at_seq := intact.entry (e.seq - 1) (by omega)
          rw [Nat.sub_add_cancel low, stored] at at_seq
          rw [List.getElem?_eq_getElem (by omega)]
          simpa [eq_comm] using at_seq
      next => exact sound
    next => exact sound

private theorem Progress.read_guard (st : Progress) (key : String) (v : Option WalValue) :
    (st.read key v).guard = st.guard := by
  unfold Progress.read
  split
  · split <;> rfl
  · split
    · split <;> rfl
    · rfl

private theorem kept_call {base : List WalEntry} {h : List (Label LogCall Error LogOp)} {s : LogPool}
    {pid : Nat} {op : LogOp} {st : Progress} {c : LogCall} (met : Below s (.call pid c none))
    (here : logProtocol.view LogOp.start s pid = some (op, st)) (allowed : logProtocol.allowed st c)
    (enabled : c.enabled s.world)
    (kept : Kept base h s.world (logProtocol.view LogOp.start s)) :
    Kept base (h ++ [.call pid c none]) (c.exec s.world).2
      (Function.update (logProtocol.view LogOp.start s) pid
        (some (op, logProtocol.track st c (c.exec s.world).1))) := by
  cases c with
  | lockWrite => exact kept.lock here enabled.1
  | unlockWrite => exact kept.unlock here allowed
  | getBytes key =>
    exact kept.frame here rfl rfl (st.read_guard key _)
      (fun _ intact sound => sound.read_key intact key) rfl (by simp)
  | commit writes =>
    obtain ⟨o, cur, ts, isAppend, read, rfl⟩ := allowed
    exact kept.commit here ts isAppend read met
  | replyRange es =>
    obtain ⟨lo, hi, isRange, order, rfl, seqs⟩ := allowed
    exact kept.reply here isRange order seqs
  -- the other calls touch neither the store nor the write lock
  | _ =>
    refine kept.frame here ?_ ?_ ?_ ?_ ?_ ?_
    · rfl
    · rfl
    · rfl
    · exact fun _ _ sound => sound
    · rfl
    · simp

private theorem kept_preserved (base : List WalEntry) :
    logSystem.Preserves logProtocol LogOp.start Below (Kept base) where
  answers _ _ := trivial
  faults _ _ _ := trivial
  spawn := by
    rintro h s pid op - free ⟨more, held, told⟩
    have fresh : logProtocol.view LogOp.start s pid = none := logProtocol.view_eq_none.mpr free
    refine ⟨more, ⟨held.intact, ?_, ?_⟩, ?_, ?_⟩
    · intro q op₁ st₁ found
      rcases update_eq_some.mp found with ⟨rfl, ⟨⟩⟩ | ⟨-, found⟩
      · exact ⟨rfl, fun bad => (by cases bad), fun _ bad => (by cases bad), fun _ bad => by cases bad⟩
      · exact held.sound q _ _ found
    · intro q q' op₁ op₂ st₁ st₂ found found' g g'
      rcases update_eq_some.mp found with ⟨rfl, ⟨⟩⟩ | ⟨-, found⟩
      · cases g
      rcases update_eq_some.mp found' with ⟨rfl, ⟨⟩⟩ | ⟨-, found'⟩
      · cases g'
      exact held.single _ _ _ _ _ _ found found' g g'
    · rw [committers, List.filterMap_append, List.filterMap_cons_none rfl, List.filterMap_nil,
        List.append_nil]
      -- a request that committed was there before this one arrived
      refine told.committed.trans (List.map_congr_left ?_)
      intro q hq
      have known : (logProtocol.view LogOp.start s q).map (·.1) ∈
          more.map (fun e => some (LogOp.append e.op)) :=
        told.committed ▸ List.mem_map_of_mem hq
      have other : q ≠ pid := by
        rintro rfl
        simp [fresh] at known
      rw [Function.update_of_ne other]
    · intro q es said
      rcases List.mem_append.mp said with old | new
      · obtain ⟨lo, hi, asked, answers⟩ := told.replied q es old
        refine ⟨lo, hi, ?_, answers⟩
        have other : q ≠ pid := by
          rintro rfl
          rw [fresh] at asked
          cases asked
        rwa [Function.update_of_ne other]
      · cases List.mem_singleton.mp new
  env := by
    rintro h s w - ⟨clock, rfl⟩ ⟨more, held, told⟩
    exact ⟨more, ⟨held.intact, fun q op st found =>
      ⟨(held.sound q _ _ found).same, (held.sound q _ _ found).holds, (held.sound q _ _ found).cur,
        (held.sound q _ _ found).read⟩, held.single⟩, told.frame rfl (by simp)⟩
  call := fun _ _ _ _ _ _ met here allowed enabled kept =>
    kept_call met here allowed enabled kept
  fault := by
    intro h s pid op st c e _ here _ mayFail kept
    have unchanged : logProtocol.track st c (.error e) = st := by
      cases c with
      | unlockWrite => exact mayFail.elim
      | _ => rfl
    rw [unchanged]
    exact kept.frame here rfl rfl rfl (fun _ _ sound => sound) (by cases c <;> rfl) (by simp)
  drop := fun _ _ _ _ _ _ _ mayDrop => mayDrop.elim

/-- The head pointer of the store does not decode. -/
def Damaged (store : Kv WalValue) : Prop :=
  ∃ v, store[seqKey]? = some v ∧ ∀ n, v ≠ .seq n

/-- The invariant of a run over a damaged store: nobody got a head to write behind. -/
def Untouched (store : Kv WalValue) (_ : List (Label LogCall Error LogOp)) (w : LogWorld)
    (view : Nat → Option (LogOp × Progress)) : Prop :=
  w.store = store ∧ ∀ pid op st, view pid = some (op, st) → st.cur = none ∧ st.done = false

private theorem read_damaged {store : Kv WalValue} (damaged : Damaged store) {st : Progress}
    (idle : st.cur = none ∧ st.done = false) (key : String) :
    (st.read key store[key]?).cur = none ∧ (st.read key store[key]?).done = false := by
  obtain ⟨v, found, bad⟩ := damaged
  unfold Progress.read
  split
  next isSeq =>
    subst isSeq
    split
    · rw [found]
      refine ⟨?_, idle.2⟩
      cases v with
      | seq n => exact absurd rfl (bad n)
      | entry e => rfl
      | raw bytes => rfl
    · exact idle
  next =>
    split
    · split
      · exact idle
      · exact idle
    · exact idle

private theorem Untouched.set {store : Kv WalValue} {h h' : List (Label LogCall Error LogOp)}
    {w w' : LogWorld} {view : Nat → Option (LogOp × Progress)} {pid : Nat} {op : LogOp}
    {st : Progress} (kept : Untouched store h w view) (same : w'.store = w.store)
    (idle : st.cur = none ∧ st.done = false) :
    Untouched store h' w' (Function.update view pid (some (op, st))) := by
  refine ⟨same.trans kept.1, ?_⟩
  intro q op₁ st₁ found
  rcases update_eq_some.mp found with ⟨rfl, ⟨⟩⟩ | ⟨-, found⟩
  · exact idle
  · exact kept.2 q _ _ found

private theorem untouched_preserved {store : Kv WalValue} (damaged : Damaged store) :
    logSystem.Preserves logProtocol LogOp.start (fun _ _ => True) (Untouched store) where
  answers _ _ := trivial
  faults _ _ _ := trivial
  spawn := fun _ _ _ _ _ _ kept => kept.set rfl ⟨rfl, rfl⟩
  env := by
    rintro h s w - ⟨clock, rfl⟩ kept
    exact kept
  call := by
    intro h s pid op st c _ here allowed _ kept
    have idle := kept.2 pid op st here
    cases c with
    | getBytes key =>
      refine kept.set rfl ?_
      have read := read_damaged damaged idle key
      rwa [← kept.1] at read
    -- a commit needs a head that was read, and no head can be read
    | commit writes =>
      obtain ⟨o, cur, ts, -, read, -⟩ := allowed
      rw [idle.1] at read
      cases read
    | unlockWrite => exact kept.set rfl ⟨rfl, idle.2⟩
    | _ => exact kept.set rfl idle
  fault := by
    intro h s pid op st c e _ here _ mayFail kept
    have idle := kept.2 pid op st here
    cases c with
    | unlockWrite => exact mayFail.elim
    | _ => exact kept.set rfl idle
  drop := fun _ _ _ _ _ _ _ mayDrop => mayDrop.elim

/-! ### Integrity -/

private theorem view_ops (s : LogPool) (pid : Nat) :
    (logProtocol.view LogOp.start s pid).map (·.1) = (s.procs pid).map (·.op) := by
  simp only [Prog.Protocol.view, Option.map_map]
  rfl

private theorem kept_empty : Kept [] [] (.opened ∅) (logProtocol.view LogOp.start (logPool ∅)) :=
  ⟨[], ⟨⟨Log.empty, fun _ _ bad => by simp [LogWorld.opened] at bad⟩,
    fun _ _ _ bad => (nomatch bad), fun _ _ _ _ _ _ bad => (nomatch bad)⟩,
    rfl, fun _ _ bad => (nomatch bad)⟩

/-- **Integrity of the feed**. Whatever the interleaving of the requests and of their
    faults, below the last sequence number:
    - the store holds a log, its `k`-th entry was committed by the `k`-th commit of the run
      and carries the operation of that request, and a later state holds the same log with
      more entries behind it;
    - a range that was returned is the part of the log that was asked for;
    - no entry has the key of the head pointer.

    Over a damaged head pointer no append succeeds and nothing is ever written. -/
theorem feed_integrity :
    (∀ h s h' t, logSystem.Trace Below (logPool ∅) h s → logSystem.Trace Below s h' t →
      ∃ entries more, Log s.world.store entries ∧ Log t.world.store (entries ++ more) ∧
        entries.map (fun e => some (LogOp.append e.op)) =
          (committers h).map (fun pid => (s.procs pid).map (·.op)) ∧
        more.map (fun e => some (LogOp.append e.op)) =
          (committers h').map (fun pid => (t.procs pid).map (·.op)) ∧
        ∀ pid es, .call pid (.replyRange es) none ∈ h' →
          ∃ lo hi, (t.procs pid).map (·.op) = some (.range lo hi) ∧
            Answers (entries ++ more) lo hi es) ∧
    (∀ seq, entryKey seq ≠ seqKey) ∧
    ∀ store h t, Damaged store → logSystem.Trace (fun _ _ => True) (logPool store) h t →
      t.world.store = store ∧
        ∀ pid op past r, t.procs pid = some ⟨.append op, past, .ret r⟩ → ∃ e, r = .error e := by
  refine ⟨?_, entryKey_ne_seqKey, ?_⟩
  · intro h s h' t first later
    -- the invariant along the first run, then along the later one from its log on
    obtain ⟨obeyed, entries, held, told⟩ := System.invariant_of_trace
      (fun _ _ op _ => prog_conf op) (kept_preserved []) first
      (System.obeyed_of_no_procs _) kept_empty
    rw [List.nil_append] at held told
    obtain ⟨-, more, held', told'⟩ := System.invariant_of_trace
      (fun _ _ op _ => prog_conf op) (kept_preserved entries) later obeyed
      ⟨[], by rwa [List.append_nil], rfl, fun _ _ bad => nomatch bad⟩
    refine ⟨entries, more, held.intact.toLog, held'.intact.toLog, ?_, ?_, ?_⟩
    · exact told.committed.trans (List.map_congr_left fun pid _ => view_ops s pid)
    · exact told'.committed.trans (List.map_congr_left fun pid _ => view_ops t pid)
    · intro pid es said
      obtain ⟨lo, hi, asked, answers⟩ := told'.replied pid es said
      exact ⟨lo, hi, (view_ops t pid).symm.trans asked, answers⟩
  · intro store h t damaged run
    obtain ⟨obeyed, kept⟩ := System.invariant_of_trace (fun _ _ op _ => prog_conf op)
      (untouched_preserved damaged) run (System.obeyed_of_no_procs _)
      ⟨rfl, fun _ _ _ bad => nomatch bad⟩
    refine ⟨kept.1, ?_⟩
    intro pid op past r found
    cases r with
    | error e => exact ⟨e, rfl⟩
    | ok _ =>
      -- an append that returned has committed, and nobody could
      have done := obeyed pid _ found op rfl rfl
      have seen : logProtocol.view LogOp.start t pid =
          some (.append op, logProtocol.observe (LogOp.start (.append op)) past) := by
        simp [Prog.Protocol.view, found]
      have idle := (kept.2 pid _ _ seen).2
      rw [done] at idle
      cases idle

/-- How to follow a schedule of requests. -/
def logScheduler : logSystem.Scheduler Below where
  enabled
    | .lockAppend, w => !w.appending
    | .lockWrite, w => !w.writer && w.readers == 0
    | .lockRead, w => !w.writer
    | _, _ => true
  mayFail
    | .getBytes _, _ => true
    | .beginTx, _ => true
    | .setBytes _, _ => true
    | .commit _, _ => true
    | _, _ => false
  mayDrop _ := false
  tick n w := { w with clock := w.clock + n }
  check s _ :=
    match head s.world.store with
    | .ok n => decide (n < 2 ^ 64 - 1)
    | .error _ => true
  enabled_sound c w taken := by
    cases c with
    | lockAppend => simpa [LogCall.enabled, logSystem] using taken
    | lockWrite => simpa [LogCall.enabled, logSystem] using taken
    | lockRead => simpa [LogCall.enabled, logSystem] using taken
    | _ => trivial
  mayFail_sound c e taken := by
    cases c with
    | getBytes key => trivial
    | beginTx => trivial
    | setBytes write => trivial
    | commit writes => trivial
    | _ => cases taken
  mayDrop_sound _ taken := nomatch taken
  tick_sound n w := ⟨_, rfl⟩
  check_sound s _ ok n found := by
    rw [found] at ok
    simpa using ok

/-- One append, a second one whose commit fails, and a third. -/
def threeAppends : List (System.Move Error LogOp) :=
  .spawn 0 (.append (.fileDelete "a")) :: List.replicate 11 (.call 0) ++
  .spawn 1 (.append (.fileDelete "b")) :: List.replicate 7 (.call 1) ++
  .fault 1 (.fs (.store "storage unavailable")) :: List.replicate 2 (.call 1) ++
  .spawn 2 (.append (.fileDelete "c")) :: List.replicate 11 (.call 2)

/-- A range over both entries. -/
def oneRange : List (System.Move Error LogOp) := .spawn 3 (.range 1 2) :: List.replicate 5 (.call 3)

theorem feed_integrity_three_appends :
    let s := ((logScheduler.play threeAppends [] (logPool ∅)).get (by decide +kernel)).2
    let t := ((logScheduler.play oneRange [] s).get (by decide +kernel)).2
    Wal.head s.world.store = .ok 2 ∧
      ∃ entries more, Log s.world.store entries ∧ Log t.world.store (entries ++ more) ∧
        entries.map (fun e => some (LogOp.append e.op)) =
          [some (.append (.fileDelete "a")), some (.append (.fileDelete "c"))] ∧
        Answers (entries ++ more) 1 2 [⟨1, .fileDelete "a", 0⟩, ⟨2, .fileDelete "c", 0⟩] := by
  intro s t
  obtain ⟨entries, more, log, log', committed, -, replied⟩ := feed_integrity.1 _ s _ t
    (logScheduler.trace_of_play threeAppends (logPool ∅) (by decide +kernel))
    (logScheduler.trace_of_play oneRange s (by decide +kernel))
  refine ⟨by decide +kernel, entries, more, log, log', committed.trans (by decide +kernel), ?_⟩
  obtain ⟨lo, hi, asked, answers⟩ := replied 3
    [⟨1, .fileDelete "a", 0⟩, ⟨2, .fileDelete "c", 0⟩] (by decide +kernel)
  have range : (t.procs 3).map (·.op) = some (.range 1 2) := by decide +kernel
  rw [range] at asked
  cases asked
  exact answers

end Wal

end RustApi
