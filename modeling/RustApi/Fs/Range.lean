import RustApi.Lib.Text

/-!
# The Range header

`parse_range`: what a `Range` header asks for of an object, against the ranges that the
documentation of the function accepts.

The code looks at the size of the object before it has seen the whole header, and its
numbers may carry a sign, so that some headers that are no ranges do not fall back to the
full object.

## Main result

`parseRange_meets_iff`: the headers that are answered as documented.
-/

namespace RustApi

open Lib

/-! ### The function -/

/-- A number in ASCII digits that fits a `u64`. -/
def decimal (s : String) : Option Nat :=
  if s = "" ∨ ¬ s.toList.all Char.isDigit then none
  else
    let n := s.toList.foldl (fun n c => n * 10 + (c.toNat - '0'.toNat)) 0
    if n < 2 ^ 64 then some n else none

/-- `str::parse::<u64>`: the digits may stand behind a plus sign. -/
def parseU64 (s : String) : Option Nat :=
  match Text.stripStart "+" s with
  | some digits => decimal digits
  | none => decimal s

/-- `RangeOutcome`. -/
inductive RangeOutcome where
  | full
  | ranged (start endInclusive : Nat)
  | unsatisfiable
  deriving DecidableEq, Repr

/-- The part of `parse_range` behind the syntax `start-end`. -/
def selectRange (start stop : String) (total : Nat) : RangeOutcome :=
  if total = 0 then .unsatisfiable
  else if start = "" then
    match parseU64 stop with
    | none => .full
    | some n => if n = 0 then .full else .ranged (total - min n total) (total - 1)
  else
    match parseU64 start with
    | none => .full
    | some first =>
      if total ≤ first then .unsatisfiable
      else
        match if stop = "" then some (total - 1) else (parseU64 stop).map (min · (total - 1)) with
        | none => .full
        | some last => if last < first then .full else .ranged first last

def parseRange (header : Option String) (total : Nat) : RangeOutcome :=
  match header.bind fun h => Text.stripStart "bytes=" (Text.trim h) with
  | none => .full
  | some spec =>
    if ',' ∈ spec.toList then .full
    else
      match Text.splitOnce '-' spec with
      | none => .full
      | some (start, stop) => selectRange start stop total

/-! ### The documented ranges -/

/-- What a header can ask for. -/
inductive RangeSpec where
  | between (first last : Nat)
  | onward (first : Nat)
  | suffix (length : Nat)
  deriving DecidableEq, Repr

namespace RangeSpec

/-- The text of a range is `a-b`. -/
def Form (a b : String) : RangeSpec → Prop
  | between first last => decimal a = some first ∧ decimal b = some last
  | onward first => decimal a = some first ∧ b = ""
  | suffix length => a = "" ∧ decimal b = some length

/-- The bounds are not reversed, and a suffix is not empty. -/
def Proper : RangeSpec → Prop
  | between first last => first ≤ last
  | onward _ => True
  | suffix length => length ≠ 0

/-- The object has no byte of the range. -/
def Unsatisfied (total : Nat) : RangeSpec → Prop
  | between first _ => total = 0 ∨ total ≤ first
  | onward first => total = 0 ∨ total ≤ first
  | suffix _ => total = 0

/-- The bytes of the range that the object has, the last one included. -/
def clamp (total : Nat) : RangeSpec → Nat × Nat
  | between first last => (first, min last (total - 1))
  | onward first => (first, total - 1)
  | suffix length => (total - min length total, total - 1)

end RangeSpec

/-- The header is `bytes=` and one range, but for white space around it. -/
def Requests (header : Option String) (r : RangeSpec) : Prop :=
  ∃ h a b, header = some h ∧ Text.trim h = "bytes=" ++ (a ++ "-" ++ b) ∧ r.Form a b

/-- The documented answer. A header without a proper range is missing, has another unit, names
    several ranges or has a bad form, or its range is reversed or an empty suffix. -/
structure MeetsDoc (header : Option String) (total : Nat) : Prop where
  full : parseRange header total = .full ↔ ¬ ∃ r, Requests header r ∧ r.Proper
  unsatisfiable : ∀ r, Requests header r → r.Proper →
    (parseRange header total = .unsatisfiable ↔ r.Unsatisfied total)
  ranged : ∀ r, Requests header r → r.Proper → ¬ r.Unsatisfied total →
    ∃ start endInclusive, parseRange header total = .ranged start endInclusive ∧
      start ≤ endInclusive ∧ endInclusive < total ∧ (start, endInclusive) = r.clamp total

/-! ### Numbers -/

theorem all_isDigit_of_decimal {s : String} {n : Nat} (number : decimal s = some n) :
    s ≠ "" ∧ ∀ c ∈ s.toList, c.isDigit = true := by
  unfold decimal at number
  split at number
  next => cases number
  next digits =>
    simp only [not_or, not_not, List.all_eq_true] at digits
    exact digits

/-- Digits are not separators or signs. -/
theorem free_of_decimal {s : String} {n : Nat} (number : decimal s = some n) {c : Char}
    (other : c.isDigit = false) : Text.Free c s := by
  intro member
  have digit := (all_isDigit_of_decimal number).2 c member
  rw [other] at digit
  cases digit

theorem parseU64_of_decimal {s : String} {n : Nat} (number : decimal s = some n) :
    parseU64 s = some n := by
  unfold parseU64
  split
  next t signed =>
    rw [Text.stripStart_iff.mp signed] at number
    exact absurd (by simp) (free_of_decimal number (c := '+') (by decide))
  next => exact number

@[simp] theorem decimal_empty : decimal "" = none := if_pos (.inl rfl)

@[simp] theorem parseU64_empty : parseU64 "" = none := by decide

/-! ### The form of a header -/

/-- The header is `bytes=a-b` without a comma, where `a` ends at the first dash. -/
def Names (header : Option String) (a b : String) : Prop :=
  ∃ h spec, header = some h ∧ Text.stripStart "bytes=" (Text.trim h) = some spec ∧
    Text.Free ',' spec ∧ Text.splitOnce '-' spec = some (a, b)

theorem parseRange_of_names {header : Option String} {a b : String} (names : Names header a b)
    (total : Nat) : parseRange header total = selectRange a b total := by
  obtain ⟨h, spec, rfl, strip, single, cut⟩ := names
  simp only [parseRange, Option.bind_some, strip, if_neg single, cut]

theorem parseRange_of_not_names {header : Option String} (other : ¬ ∃ a b, Names header a b)
    (total : Nat) : parseRange header total = .full := by
  unfold parseRange
  split
  next => rfl
  next spec found =>
    obtain ⟨h, rfl, strip⟩ := Option.bind_eq_some_iff.mp found
    split
    next => rfl
    next single =>
      split
      next => rfl
      next start stop cut => exact absurd ⟨start, stop, h, spec, rfl, strip, single, cut⟩ other

theorem Names.unique {header : Option String} {a b a' b' : String} (names : Names header a b)
    (names' : Names header a' b') : a = a' ∧ b = b' := by
  obtain ⟨h, spec, rfl, strip, -, cut⟩ := names
  obtain ⟨_, _, same, strip', -, cut'⟩ := names'
  cases same
  cases strip.symm.trans strip'
  cases cut.symm.trans cut'
  exact ⟨rfl, rfl⟩

/-- The text of a range has one dash and no comma. -/
theorem RangeSpec.Form.free {r : RangeSpec} {a b : String} (form : r.Form a b) :
    Text.Free '-' a ∧ Text.Free ',' a ∧ Text.Free ',' b := by
  have empty : ∀ c, Text.Free c "" := fun c => by simp [Text.Free]
  cases r with
  | between first last =>
    exact ⟨free_of_decimal form.1 (by decide), free_of_decimal form.1 (by decide),
      free_of_decimal form.2 (by decide)⟩
  | onward first =>
    exact ⟨free_of_decimal form.1 (by decide), free_of_decimal form.1 (by decide),
      form.2 ▸ empty _⟩
  | suffix length => exact ⟨form.1 ▸ empty _, form.1 ▸ empty _, free_of_decimal form.2 (by decide)⟩

theorem requests_iff {header : Option String} {r : RangeSpec} :
    Requests header r ↔ ∃ a b, Names header a b ∧ r.Form a b := by
  have dash : "-" = String.singleton '-' := rfl
  constructor
  · rintro ⟨h, a, b, rfl, text, form⟩
    obtain ⟨cut, first, last⟩ := form.free
    have comma : Text.Free ',' "-" := by decide
    exact ⟨a, b, ⟨h, a ++ "-" ++ b, rfl, Text.stripStart_iff.mpr text,
      (first.append comma).append last, Text.splitOnce_iff.mpr ⟨by rw [dash], cut⟩⟩, form⟩
  · rintro ⟨a, b, ⟨h, spec, rfl, strip, -, cut⟩, form⟩
    obtain ⟨rfl, -⟩ := Text.splitOnce_iff.mp cut
    exact ⟨h, a, b, rfl, Text.stripStart_iff.mp strip, form⟩

/-! ### The answer to one range -/

/-- A proper range is answered as documented. -/
theorem selectRange_of_proper {r : RangeSpec} {a b : String} (form : r.Form a b)
    (proper : r.Proper) (total : Nat) :
    (r.Unsatisfied total → selectRange a b total = .unsatisfiable) ∧
      (¬ r.Unsatisfied total → selectRange a b total =
          .ranged (r.clamp total).1 (r.clamp total).2 ∧
        (r.clamp total).1 ≤ (r.clamp total).2 ∧ (r.clamp total).2 < total) := by
  cases r with
  | between first last =>
    obtain ⟨number, number'⟩ := form
    have given := (all_isDigit_of_decimal number).1
    have given' := (all_isDigit_of_decimal number').1
    have ordered : first ≤ last := proper
    simp only [RangeSpec.Unsatisfied, RangeSpec.clamp, selectRange, parseU64_of_decimal number,
      parseU64_of_decimal number', if_neg given, if_neg given', Option.map_some]
    -- an empty object or a start beyond it: refused before the order of the two is looked at
    constructor
    · rintro (empty | beyond)
      · rw [if_pos empty]
      · rw [if_pos beyond, ite_self]
    · intro inside
      rw [not_or] at inside
      rw [if_neg inside.1, if_neg inside.2, if_neg (by omega)]
      exact ⟨rfl, by omega, by omega⟩
  | onward first =>
    obtain ⟨number, rfl⟩ := form
    have given := (all_isDigit_of_decimal number).1
    simp only [RangeSpec.Unsatisfied, RangeSpec.clamp, selectRange, parseU64_of_decimal number,
      if_neg given, if_true]
    constructor
    · rintro (empty | beyond)
      · rw [if_pos empty]
      · rw [if_pos beyond, ite_self]
    · intro inside
      rw [not_or] at inside
      rw [if_neg inside.1, if_neg inside.2, if_neg (by omega)]
      exact ⟨rfl, by omega, by omega⟩
  | suffix length =>
    obtain ⟨rfl, number⟩ := form
    have positive : length ≠ 0 := proper
    simp only [RangeSpec.Unsatisfied, RangeSpec.clamp, selectRange, parseU64_of_decimal number,
      if_true, if_neg positive]
    constructor
    · intro empty
      rw [if_pos empty]
    · intro inside
      rw [if_neg inside]
      exact ⟨rfl, by omega, by omega⟩

/-- What keeps the code from the full object: the object is empty, the first number is beyond it,
    or the numbers make a range, where a number may have a plus sign. -/
def Selects (a b : String) (total : Nat) : Prop :=
  total = 0 ∨ (∃ first, parseU64 a = some first ∧ (total ≤ first ∨ b = "" ∨
    ∃ last, parseU64 b = some last ∧ first ≤ last)) ∨
  a = "" ∧ ∃ n, parseU64 b = some n ∧ n ≠ 0

theorem selectRange_full_iff (a b : String) (total : Nat) :
    selectRange a b total = .full ↔ ¬ Selects a b total := by
  unfold selectRange Selects
  split
  next empty => simp [empty]
  next some_ =>
    split
    next suffix =>
      subst suffix
      cases parseU64 b with
      | none => simp [some_]
      | some n =>
        by_cases zero : n = 0
        · simp [some_, zero]
        · simp [some_, zero]
    next given =>
      cases parseU64 a with
      | none => simp [some_, given]
      | some first =>
        by_cases beyond : total ≤ first
        · simp [beyond]
        by_cases onward : b = ""
        · subst onward
          simp [some_, given, beyond]
          omega
        cases parseU64 b with
        | none => simp [some_, given, beyond, onward]
        | some last =>
          simp [some_, given, beyond, onward]
          omega

/-! ### The answer to a header -/

/-- **Ranges**: a header is answered as documented if and only if it does not come to one range,
    or the range is proper, or nothing keeps the code from the full object. -/
theorem parseRange_meets_iff (header : Option String) (total : Nat) :
    MeetsDoc header total ↔ ∀ a b, Names header a b →
      (∃ r : RangeSpec, r.Form a b ∧ r.Proper) ∨ ¬ Selects a b total := by
  by_cases named : ∃ a b, Names header a b
  · obtain ⟨a, b, names⟩ := named
    have same : ∀ r, Requests header r ↔ r.Form a b := by
      intro r
      rw [requests_iff]
      constructor
      · rintro ⟨a', b', names', form⟩
        obtain ⟨rfl, rfl⟩ := names.unique names'
        exact form
      · exact fun form => ⟨a, b, names, form⟩
    have answer := parseRange_of_names names total
    constructor
    · intro meets a' b' names'
      obtain ⟨rfl, rfl⟩ := names.unique names'
      refine or_iff_not_imp_left.mpr fun improper => ?_
      -- an improper range is ignored only if the code comes to the full object
      rw [← selectRange_full_iff, ← answer, meets.full]
      rintro ⟨r, requests, proper⟩
      exact improper ⟨r, (same r).mp requests, proper⟩
    · intro known
      -- a proper range is never answered with the full object
      have ranged : ∀ r, Requests header r → r.Proper → parseRange header total ≠ .full := by
        intro r requests proper full
        obtain ⟨out, inside⟩ := selectRange_of_proper ((same r).mp requests) proper total
        rw [answer] at full
        by_cases unsatisfied : r.Unsatisfied total
        · cases (out unsatisfied).symm.trans full
        · cases (inside unsatisfied).1.symm.trans full
      refine ⟨⟨fun full ⟨r, requests, proper⟩ => ranged r requests proper full, ?_⟩, ?_, ?_⟩
      · intro improper
        rcases known a b names with ⟨r, form, proper⟩ | full
        · exact absurd ⟨r, (same r).mpr form, proper⟩ improper
        · rw [answer]
          exact (selectRange_full_iff a b total).mpr full
      · intro r requests proper
        obtain ⟨out, inside⟩ := selectRange_of_proper ((same r).mp requests) proper total
        rw [answer]
        refine ⟨fun refused => ?_, out⟩
        by_contra satisfied
        cases (inside satisfied).1.symm.trans refused
      · intro r requests proper satisfied
        obtain ⟨chosen, ordered, within⟩ :=
          (selectRange_of_proper ((same r).mp requests) proper total).2 satisfied
        exact ⟨_, _, answer.trans chosen, ordered, within, rfl⟩
  · have never : ∀ r, ¬ Requests header r := by
      intro r requests
      obtain ⟨a, b, names, -⟩ := requests_iff.mp requests
      exact named ⟨a, b, names⟩
    have full := parseRange_of_not_names named total
    refine ⟨fun _ a b names => absurd ⟨a, b, names⟩ named, fun _ => ⟨?_, ?_, ?_⟩⟩
    · exact ⟨fun _ ⟨r, requests, _⟩ => never r requests, fun _ => full⟩
    · exact fun r requests => absurd requests (never r)
    · exact fun r requests => absurd requests (never r)

/-- A start at the size is refused although the end is no number. -/
theorem parseRange_strays : ¬ MeetsDoc (some "bytes=1000-abc") 1000 := by
  intro meets
  have names : Names (some "bytes=1000-abc") "1000" "abc" :=
    ⟨_, "1000-abc", rfl, by decide +kernel, by decide, by decide +kernel⟩
  have refused : parseRange (some "bytes=1000-abc") 1000 = .unsatisfiable := by decide +kernel
  have improper : ¬ ∃ r, Requests (some "bytes=1000-abc") r ∧ r.Proper := by
    rintro ⟨r, requests, -⟩
    obtain ⟨a, b, names', form⟩ := requests_iff.mp requests
    obtain ⟨rfl, rfl⟩ := names.unique names'
    cases r with
    | between first last =>
      have no_number : decimal "abc" = none := by decide +kernel
      cases no_number.symm.trans form.2
    | onward first => exact absurd form.2 (by decide)
    | suffix length => exact absurd form.1 (by decide)
  cases refused.symm.trans (meets.full.mpr improper)

/-! A sign before the digits is read, and no range of an empty object is looked at. -/

example : parseRange (some "bytes=+5-10") 1000 = .ranged 5 10 := by decide +kernel

example : parseRange (some "bytes=5-3") 0 = .unsatisfiable := by decide +kernel

end RustApi
