import RustApi.Lib.Kv
import RustApi.Records

/-!
# The change feed

`Wal`: an append-only log in an ordered store. Each entry has its own key, padded
so that keys sort by sequence number, and one more key holds the head.

## Main results

`Log` says that the store holds a given list of entries. An append extends the
list (`Log.append`), the head is its length (`Log.head`), and a range inside it
returns the entries it names (`Log.range`).
-/

namespace RustApi

open Lib

/-- A stored value of the feed: the head pointer, an entry, or neither. -/
inductive WalValue where
  | seq (n : Nat)
  | entry (e : WalEntry)
  | raw (bytes : List UInt8)
  deriving DecidableEq, Repr

namespace Wal

def seqKey : String := "wal:seq"

/-- The digits of `{seq:020}`. -/
def paddedDigits (seq : Nat) : List Char :=
  List.replicate (20 - (Nat.toDigits 10 seq).length) '0' ++ Nat.toDigits 10 seq

def entryKey (seq : Nat) : String := "wal:" ++ String.ofList (paddedDigits seq)

def head (kv : Kv WalValue) : Except Error Nat :=
  match kv[seqKey]? with
  | none => .ok 0
  | some (.seq n) => .ok n
  | some _ => .error decodeError

/-- `append_entry_locked` at time `now`. The two writes are one transaction. -/
def append (now : Int) (op : WalOp) (kv : Kv WalValue) : Except Error (Nat × Kv WalValue) :=
  match kv[seqKey]? with
  -- the first entry is number 1
  | none => .ok (1, Kv.commit [.put (entryKey 1) (.entry ⟨1, op, now⟩), .put seqKey (.seq 1)] kv)
  | some (.seq n) =>
    .ok (n + 1, Kv.commit [.put (entryKey (n + 1)) (.entry ⟨n + 1, op, now⟩),
      .put seqKey (.seq (n + 1))] kv)
  | some _ => .error (.fs (.internal "wal head pointer is undecodable"))

/-- The loop of `range` over `n` entries that start at `seq`. -/
def readEntries (kv : Kv WalValue) (seq : Nat) : Nat → Except Error (List WalEntry)
  | 0 => .ok []
  | n + 1 =>
    match kv[entryKey seq]? with
    | none => .error (.fs (.store ("wal entry " ++ toString seq ++ " missing")))
    | some (.entry e) =>
      -- an entry that stands under the key of another one
      if e.seq ≠ seq then
        .error (.fs (.internal ("wal entry " ++ toString seq ++ " holds sequence " ++
          toString e.seq)))
      else (readEntries kv (seq + 1) n).map (e :: ·)
    | some _ => .error (.fs (.internal ("wal entry " ++ toString seq ++ " undecodable")))

def range (lo hi : Nat) (kv : Kv WalValue) : Except Error (List WalEntry) :=
  -- a reader that is ahead of the head asks for a range of this kind
  if lo > hi then
    .error (.fs (.store ("wal range " ++ toString lo ++ "..=" ++ toString hi ++
      " runs backwards: the head cannot be behind a reader that has applied " ++ toString lo)))
  else readEntries kv lo (hi + 1 - lo)

/-! ### Keys -/

private theorem ofDigitChars_paddedDigits (n : Nat) :
    Nat.ofDigitChars 10 (paddedDigits n) 0 = n := by
  rw [paddedDigits, Nat.ofDigitChars_append, Nat.ofDigitChars_replicate_zero, Nat.mul_zero,
    Nat.ofDigitChars_ten_toDigits]

@[simp] theorem entryKey_inj {m n : Nat} : entryKey m = entryKey n ↔ m = n := by
  constructor
  · intro same
    have digits : paddedDigits m = paddedDigits n := by
      simpa [entryKey] using congrArg String.toList same
    rw [← ofDigitChars_paddedDigits m, digits, ofDigitChars_paddedDigits]
  · rintro rfl
    rfl

/-- The head pointer is never an entry: entry keys hold digits only. -/
@[simp] theorem entryKey_ne_seqKey (n : Nat) : entryKey n ≠ seqKey := by
  intro same
  -- equal keys would make the digits spell the word of the head pointer
  have letters : paddedDigits n = "seq".toList := by
    have chars := congrArg String.toList same
    simpa [entryKey, seqKey] using chars
  have digit : 's'.isDigit := by
    have mem : 's' ∈ paddedDigits n := by simp [letters]
    rcases List.mem_append.mp mem with zero | digit
    · exact absurd (List.eq_of_mem_replicate zero) (by decide)
    · exact Nat.isDigit_of_mem_toDigits (by decide) (by decide) digit
  exact absurd digit (by decide)

/-! ### The log a store holds -/

/-- The store holds exactly `entries`, numbered from 1. -/
structure Log (kv : Kv WalValue) (entries : List WalEntry) : Prop where
  pointer : kv[seqKey]? = some (.seq entries.length) ∨ entries = [] ∧ kv[seqKey]? = none
  entry : ∀ i (h : i < entries.length), kv[entryKey (i + 1)]? = some (.entry entries[i])
  seq : ∀ i (h : i < entries.length), (entries[i]).seq = i + 1

theorem Log.empty : Log ∅ [] := ⟨.inr ⟨rfl, by simp⟩, by simp, by simp⟩

theorem Log.head_eq {kv : Kv WalValue} {entries : List WalEntry} (log : Log kv entries) :
    head kv = .ok entries.length := by
  rcases log.pointer with pointer | ⟨rfl, pointer⟩
  · simp [head, pointer]
  · simp [head, pointer]

/-- The two writes of an append add one entry behind the ones that are there. -/
theorem Log.commit {kv : Kv WalValue} {entries : List WalEntry} (log : Log kv entries)
    (now : Int) (op : WalOp) :
    Log (Kv.commit [.put (entryKey (entries.length + 1)) (.entry ⟨entries.length + 1, op, now⟩),
      .put seqKey (.seq (entries.length + 1))] kv)
      (entries ++ [⟨entries.length + 1, op, now⟩]) := by
  refine ⟨.inl ?_, ?_, ?_⟩
  · simp [Kv.get_apply, Kv.Write.key]
  · intro i hi
    simp only [List.length_append, List.length_singleton] at hi
    simp only [Kv.commit_cons, Kv.commit_nil, Kv.get_apply, Kv.Write.key,
      (entryKey_ne_seqKey _).symm, if_false, entryKey_inj]
    -- the new entry is the last one, the others are under other keys
    by_cases last : i = entries.length
    · subst last
      simp
    · rw [if_neg (by omega), List.getElem_append_left (by omega)]
      exact log.entry i (by omega)
  · intro i hi
    simp only [List.length_append, List.length_singleton] at hi
    by_cases last : i = entries.length
    · subst last
      simp
    · rw [List.getElem_append_left (by omega)]
      exact log.seq i (by omega)

theorem Log.append_eq {kv : Kv WalValue} {entries : List WalEntry} (log : Log kv entries)
    (now : Int) (op : WalOp) :
    ∃ kv', append now op kv = .ok (entries.length + 1, kv') ∧
      Log kv' (entries ++ [⟨entries.length + 1, op, now⟩]) := by
  refine ⟨_, ?_, log.commit now op⟩
  rcases log.pointer with pointer | ⟨rfl, pointer⟩
  · simp [append, pointer]
  · simp [append, pointer]

private theorem Log.readEntries_eq {kv : Kv WalValue} {entries : List WalEntry}
    (log : Log kv entries) {lo n : Nat} (inside : lo + n ≤ entries.length) :
    readEntries kv (lo + 1) n = .ok ((entries.drop lo).take n) := by
  -- on the number of entries left to read
  induction n generalizing lo with
  | zero => simp [readEntries]
  | succ n ih =>
    have here := log.entry lo (by omega)
    have numbered := log.seq lo (by omega)
    have later := @ih (lo + 1) (by omega)
    rw [List.drop_eq_getElem_cons (by omega), List.take_succ_cons, readEntries, here]
    simp [numbered, later, Except.map]

/-- A range inside the log returns the entries it names. -/
theorem Log.range_eq {kv : Kv WalValue} {entries : List WalEntry} (log : Log kv entries)
    {lo hi : Nat} (order : lo < hi) (inside : hi ≤ entries.length) :
    range (lo + 1) hi kv = .ok ((entries.drop lo).take (hi - lo)) := by
  rw [range, if_neg (by omega), show hi + 1 - (lo + 1) = hi - lo by omega]
  exact log.readEntries_eq (by omega)

end Wal

end RustApi
