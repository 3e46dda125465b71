import Mathlib

/-!
# Separated text

The string operations that separated keys are built and taken apart with:
`starts_with`, `ends_with`, `strip_prefix`, `split_once` and `trim`, most with the
concatenation they stand for. Uniqueness of the parts holds where a part is free
of the separator, and only there.
-/

namespace RustApi.Lib.Text

/-- `str::starts_with`. -/
def startsWith (p s : String) : Bool := p.toList.isPrefixOf s.toList

/-- `str::ends_with`. -/
def endsWith (q s : String) : Bool := q.toList.isSuffixOf s.toList

/-- `str::strip_prefix`. -/
def stripStart (p s : String) : Option String :=
  if startsWith p s then some (String.ofList (s.toList.drop p.toList.length)) else none

/-- Split at the first separator, on the list of characters. -/
def splitChars (sep : Char) : List Char → Option (List Char × List Char)
  | [] => none
  | c :: cs => if c = sep then some ([], cs) else (splitChars sep cs).map fun r => (c :: r.1, r.2)

/-- `str::split_once` with a character. -/
def splitOnce (sep : Char) (s : String) : Option (String × String) :=
  (splitChars sep s.toList).map fun r => (String.ofList r.1, String.ofList r.2)

/-- All parts between separators, on the list of characters. -/
def partsChars (sep : Char) : List Char → List (List Char)
  | [] => [[]]
  | c :: cs =>
    if c = sep then [] :: partsChars sep cs
    else match partsChars sep cs with
      | [] => [[c]]
      | part :: parts => (c :: part) :: parts

/-- `str::split` with a character. -/
def split (sep : Char) (s : String) : List String := (partsChars sep s.toList).map String.ofList

/-- Split at the first occurrence of a text, on the list of characters. -/
def cutChars (sep : List Char) : List Char → Option (List Char × List Char)
  | [] => if sep = [] then some ([], []) else none
  | c :: cs =>
    if sep.isPrefixOf (c :: cs) then some ([], (c :: cs).drop sep.length)
    else (cutChars sep cs).map fun r => (c :: r.1, r.2)

/-- `str::split_once` with a text. -/
def cutOnce (sep s : String) : Option (String × String) :=
  (cutChars sep.toList s.toList).map fun r => (String.ofList r.1, String.ofList r.2)

/-- `char::is_whitespace`. -/
def isWhitespace (c : Char) : Bool :=
  let n := c.toNat
  (9 ≤ n && n ≤ 13) || n == 0x20 || n == 0x85 || n == 0xA0 || n == 0x1680 ||
    (0x2000 ≤ n && n ≤ 0x200A) || n == 0x2028 || n == 0x2029 || n == 0x202F || n == 0x205F ||
    n == 0x3000

/-- `str::trim`. -/
def trim (s : String) : String :=
  String.ofList ((s.toList.dropWhile isWhitespace).reverse.dropWhile isWhitespace).reverse

/-- `str::strip_suffix`. -/
def stripEnd (q s : String) : Option String :=
  if endsWith q s then some (String.ofList (s.toList.take (s.toList.length - q.toList.length)))
  else none

/-- `str::trim_matches` with a character. -/
def trimMatches (c : Char) (s : String) : String :=
  String.ofList ((s.toList.dropWhile (· == c)).reverse.dropWhile (· == c)).reverse

/-- The string does not contain the character. -/
def Free (sep : Char) (s : String) : Prop := sep ∉ s.toList

instance (sep : Char) (s : String) : Decidable (Free sep s) := inferInstanceAs (Decidable (_ ∉ _))

/-! ### Concatenations -/

theorem startsWith_iff {p s : String} : startsWith p s = true ↔ ∃ t, s = p ++ t := by
  rw [startsWith, List.isPrefixOf_iff_prefix]
  constructor
  · rintro ⟨l, hl⟩
    exact ⟨String.ofList l, String.toList_inj.mp (by simp [hl])⟩
  · rintro ⟨t, rfl⟩
    exact ⟨t.toList, by simp⟩

theorem endsWith_iff {q s : String} : endsWith q s = true ↔ ∃ t, s = t ++ q := by
  rw [endsWith, List.isSuffixOf_iff_suffix]
  constructor
  · rintro ⟨l, hl⟩
    exact ⟨String.ofList l, String.toList_inj.mp (by simp [hl])⟩
  · rintro ⟨t, rfl⟩
    exact ⟨t.toList, by simp⟩

@[simp] theorem startsWith_append (p t : String) : startsWith p (p ++ t) = true :=
  startsWith_iff.mpr ⟨t, rfl⟩

@[simp] theorem endsWith_append (t q : String) : endsWith q (t ++ q) = true :=
  endsWith_iff.mpr ⟨t, rfl⟩

theorem endsWith_char {c : Char} {s : String} :
    endsWith (String.singleton c) s = true ↔ s.toList.getLast? = some c := by
  rw [endsWith_iff, List.getLast?_eq_some_iff]
  constructor
  · rintro ⟨t, rfl⟩
    exact ⟨t.toList, by simp⟩
  · rintro ⟨l, same⟩
    exact ⟨String.ofList l, String.toList_inj.mp (by simp [same])⟩

/-- A text ends as its last piece does. -/
theorem endsWith_char_append {c : Char} {s t : String} (some_ : t ≠ "") :
    endsWith (String.singleton c) (s ++ t) = endsWith (String.singleton c) t := by
  have given : t.toList ≠ [] := fun none => some_ (String.toList_inj.mp none)
  rw [Bool.eq_iff_iff, endsWith_char, endsWith_char, String.toList_append, List.getLast?_append]
  cases last : t.toList.getLast? with
  | none => exact absurd (List.getLast?_eq_none_iff.mp last) given
  | some d => rfl

theorem stripStart_iff {p s t : String} : stripStart p s = some t ↔ s = p ++ t := by
  unfold stripStart
  constructor
  · intro h
    split at h
    next starts =>
      obtain ⟨u, rfl⟩ := startsWith_iff.mp starts
      have same : t = u := by simpa [eq_comm] using h
      rw [same]
    · cases h
  · rintro rfl
    simp

private theorem splitChars_iff {sep : Char} {l a b : List Char} :
    splitChars sep l = some (a, b) ↔ l = a ++ sep :: b ∧ sep ∉ a := by
  induction l generalizing a with
  | nil => simp [splitChars]
  | cons c cs ih =>
    by_cases hc : c = sep
    · subst hc
      constructor
      · intro h
        obtain ⟨rfl, rfl⟩ : [] = a ∧ cs = b := by simpa [splitChars] using h
        simp
      · rintro ⟨h, free⟩
        cases a with
        | nil => simp_all [splitChars]
        | cons d ds => simp_all
    · constructor
      · intro h
        simp only [splitChars, if_neg hc, Option.map_eq_some_iff, Prod.mk.injEq] at h
        obtain ⟨⟨x, y⟩, hxy, rfl, rfl⟩ := h
        obtain ⟨rfl, free⟩ := ih.mp hxy
        exact ⟨rfl, by simp [free, Ne.symm hc]⟩
      · rintro ⟨h, free⟩
        cases a with
        | nil => simp_all
        | cons d ds =>
          simp only [List.cons_append, List.cons.injEq] at h
          obtain ⟨rfl, rfl⟩ := h
          have rest : splitChars sep (ds ++ sep :: b) = some (ds, b) :=
            ih.mpr ⟨rfl, fun m => free (List.mem_cons_of_mem _ m)⟩
          simp [splitChars, hc, rest]

/-- `split_once` returns the parts around the first separator. -/
theorem splitOnce_iff {sep : Char} {s a b : String} :
    splitOnce sep s = some (a, b) ↔ s = a ++ String.singleton sep ++ b ∧ Free sep a := by
  unfold splitOnce Free
  simp only [Option.map_eq_some_iff, Prod.mk.injEq, Prod.exists, splitChars_iff]
  constructor
  · rintro ⟨x, y, ⟨hs, free⟩, rfl, rfl⟩
    exact ⟨String.toList_inj.mp (by simp [hs]), by simpa using free⟩
  · rintro ⟨rfl, free⟩
    exact ⟨a.toList, b.toList, ⟨by simp, free⟩, by simp, by simp⟩

theorem splitOnce_eq_none_iff {sep : Char} {s : String} : splitOnce sep s = none ↔ Free sep s := by
  have chars : ∀ l : List Char, splitChars sep l = none ↔ sep ∉ l := by
    intro l
    induction l with
    | nil => simp [splitChars]
    | cons c cs ih =>
      by_cases hc : c = sep
      · simp [splitChars, hc]
      · simp [splitChars, hc, ih, Ne.symm hc]
  simp [splitOnce, Free, chars]

private theorem partsChars_eq_splitOn (sep : Char) (l : List Char) :
    partsChars sep l = l.splitOn sep := by
  induction l with
  | nil => rfl
  | cons c cs ih =>
    rw [partsChars, List.splitOn_cons_eq_if_modifyHead, ih]
    by_cases same : c = sep
    · rw [if_pos same, if_pos (beq_iff_eq.mpr same)]
    · rw [if_neg same, if_neg (by simpa using same)]
      cases parts : cs.splitOn sep with
      | nil => exact absurd parts (List.splitOn_ne_nil _ _)
      | cons part parts => rfl

/-- The first part ends at the first separator. -/
theorem split_append {sep : Char} {a : String} (free : Free sep a) (b : String) :
    split sep (a ++ String.singleton sep ++ b) = a :: split sep b := by
  have chars : (a ++ String.singleton sep ++ b).toList = a.toList ++ sep :: b.toList := by simp
  rw [split, chars, partsChars_eq_splitOn, List.splitOn_append_cons_self_of_not_mem free]
  simp [split, partsChars_eq_splitOn]

theorem split_of_free {sep : Char} {a : String} (free : Free sep a) : split sep a = [a] := by
  rw [split, partsChars_eq_splitOn, List.splitOn_eq_singleton free]
  simp

theorem free_ofList {sep : Char} {l : List Char} (none : sep ∉ l) : Free sep (String.ofList l) := by
  simpa [Free] using none

theorem Free.append {sep : Char} {a b : String} (ha : Free sep a) (hb : Free sep b) :
    Free sep (a ++ b) := by
  simp only [Free, String.toList_append, List.mem_append, not_or]
  exact ⟨ha, hb⟩

/-- A separator joins the parts before it to the parts behind it. -/
theorem split_sep {sep : Char} (a b : String) :
    split sep (a ++ String.singleton sep ++ b) = split sep a ++ split sep b := by
  have chars : (a ++ String.singleton sep ++ b).toList = a.toList ++ sep :: b.toList := by simp
  rw [split, chars, partsChars_eq_splitOn, List.splitOn_append_cons_self]
  simp [split, partsChars_eq_splitOn]

theorem split_ne_nil (sep : Char) (s : String) : split sep s ≠ [] := by
  rw [split, partsChars_eq_splitOn]
  simp

/-- Splitting undoes joining. -/
theorem split_intercalate {sep : Char} {parts : List String} (some_ : parts ≠ [])
    (free : ∀ part ∈ parts, Free sep part) :
    split sep (String.intercalate (String.singleton sep) parts) = parts := by
  rw [split, partsChars_eq_splitOn, String.toList_intercalate, String.toList_singleton,
    List.splitOn_intercalate sep (by simpa [Free] using free) (by simpa using some_)]
  simp

/-- Joining undoes splitting. -/
theorem intercalate_split (sep : Char) (s : String) :
    String.intercalate (String.singleton sep) (split sep s) = s := by
  rw [← String.toList_inj, String.toList_intercalate, split, partsChars_eq_splitOn]
  simp [Function.comp_def]

/-- The last part goes on where the text goes on. -/
theorem exists_last_part (sep : Char) (s : String) : ∃ init last, split sep s = init ++ [last] ∧
    Free sep last ∧ (s = last ∨ ∃ t, s = t ++ String.singleton sep ++ last) ∧
    ∀ e, Free sep e → split sep (s ++ e) = init ++ [last ++ e] := by
  cases cut : splitOnce sep s with
  | none =>
    have free : Free sep s := splitOnce_eq_none_iff.mp cut
    exact ⟨[], s, split_of_free free, free, .inl rfl, fun e other => split_of_free (free.append other)⟩
  | some parts =>
    obtain ⟨a, b⟩ := parts
    obtain ⟨rfl, free⟩ := splitOnce_iff.mp cut
    obtain ⟨init, last, parts, lastFree, place, grown⟩ := exists_last_part sep b
    refine ⟨a :: init, last, by rw [split_append free, parts]; rfl, lastFree, .inr ?_,
      fun e other => ?_⟩
    · rcases place with rfl | ⟨t, rfl⟩
      · exact ⟨a, rfl⟩
      · exact ⟨a ++ String.singleton sep ++ t, by simp only [String.append_assoc]⟩
    · rw [String.append_assoc, split_append free, grown e other]
      rfl
termination_by s.length
decreasing_by subst_vars; simp [String.length_append]

/-- The parts around an occurrence make up the text. -/
theorem eq_of_cutOnce {sep s a b : String} (cut : cutOnce sep s = some (a, b)) :
    s = a ++ sep ++ b := by
  have chars : ∀ l x y : List Char, cutChars sep.toList l = some (x, y) →
      l = x ++ sep.toList ++ y := by
    intro l
    induction l with
    | nil =>
      intro x y cut
      rw [cutChars] at cut
      split at cut
      next empty =>
        obtain ⟨rfl, rfl⟩ : [] = x ∧ [] = y := by simpa using cut
        simp [empty]
      next => cases cut
    | cons c cs ih =>
      intro x y cut
      rw [cutChars] at cut
      split at cut
      next starts =>
        obtain ⟨rest, eq⟩ := List.isPrefixOf_iff_prefix.mp starts
        rw [← eq] at cut ⊢
        obtain ⟨rfl, rfl⟩ : [] = x ∧ rest = y := by simpa using cut
        simp
      next =>
        obtain ⟨⟨x', y'⟩, later, eq⟩ := Option.map_eq_some_iff.mp cut
        obtain ⟨rfl, rfl⟩ := Prod.mk.inj eq
        rw [ih x' y' later]
        simp
  obtain ⟨⟨x, y⟩, found, eq⟩ := Option.map_eq_some_iff.mp cut
  obtain ⟨rfl, rfl⟩ := Prod.mk.inj eq
  exact String.toList_inj.mp (by simpa using chars _ _ _ found)

/-! ### The ends of a text -/

theorem stripEnd_append (t q : String) : stripEnd q (t ++ q) = some t := by
  rw [stripEnd, if_pos (endsWith_append t q)]
  simp

/-- Spaces around a text are trimmed, up to its first and last character. -/
theorem trim_append {l s r : String} (before : l.toList.all isWhitespace = true)
    (after : r.toList.all isWhitespace = true)
    (first : ∃ c cs, s.toList = c :: cs ∧ isWhitespace c = false)
    (last : ∃ c cs, s.toList = cs ++ [c] ∧ isWhitespace c = false) : trim (l ++ s ++ r) = s := by
  rw [List.all_eq_true] at before after
  have start : (l ++ s ++ r).toList.dropWhile isWhitespace = s.toList ++ r.toList := by
    obtain ⟨c, cs, chars, visible⟩ := first
    rw [String.toList_append, String.toList_append, List.append_assoc,
      List.dropWhile_append_of_pos before, chars, List.cons_append,
      List.dropWhile_cons_of_neg (by simp [visible])]
  have ending : (r.toList.reverse ++ s.toList.reverse).dropWhile isWhitespace =
      s.toList.reverse := by
    obtain ⟨c, cs, chars, visible⟩ := last
    rw [List.dropWhile_append_of_pos (by simpa using after), chars, List.reverse_append,
      List.reverse_singleton, List.singleton_append,
      List.dropWhile_cons_of_neg (by simp [visible])]
  rw [trim, start, List.reverse_append, ending, List.reverse_reverse, String.ofList_toList]

/-- What is not white stays. -/
theorem mem_trim {s : String} {c : Char} (mem : c ∈ s.toList) (visible : isWhitespace c = false) :
    c ∈ (trim s).toList := by
  have stays : ∀ l : List Char, c ∈ l → c ∈ l.dropWhile isWhitespace := by
    intro l mem
    rw [← List.takeWhile_append_dropWhile (p := isWhitespace) (l := l), List.mem_append] at mem
    refine mem.resolve_left fun dropped => ?_
    rw [List.all_eq_true.mp List.all_takeWhile c dropped] at visible
    cases visible
  have once := stays _ mem
  have twice := stays _ (List.mem_reverse.mpr once)
  rw [trim, String.toList_ofList]
  exact List.mem_reverse.mpr twice

theorem toList_trim (s : String) :
    (trim s).toList = (s.toList.dropWhile isWhitespace).rdropWhile isWhitespace := by
  rw [trim, String.toList_ofList, List.rdropWhile]

/-- Only a part of the text is left. -/
theorem trim_infix (s : String) : (trim s).toList <:+: s.toList := by
  rw [toList_trim]
  exact (List.rdropWhile_prefix ..).isInfix.trans (List.dropWhile_suffix ..).isInfix

/-- A text that neither starts nor ends with white space stays as it is. -/
theorem trim_eq_self_iff {s : String} : trim s = s ↔ ∀ some_ : s.toList ≠ [],
    isWhitespace (s.toList.head some_) = false ∧ isWhitespace (s.toList.getLast some_) = false := by
  rw [← String.toList_inj, toList_trim]
  constructor
  · intro same some_
    have start : s.toList.dropWhile isWhitespace = s.toList := by
      apply (List.dropWhile_suffix _).eq_of_length_le
      calc s.toList.length
          = ((s.toList.dropWhile isWhitespace).rdropWhile isWhitespace).length := by rw [same]
        _ ≤ _ := (List.rdropWhile_prefix ..).length_le
    rw [start, List.rdropWhile_eq_self_iff] at same
    exact ⟨by simpa [List.head_eq_getElem] using
      List.dropWhile_eq_self_iff.mp start (List.length_pos_of_ne_nil some_), by simpa using same some_⟩
  · intro visible
    have start : s.toList.dropWhile isWhitespace = s.toList := by
      rw [List.dropWhile_eq_self_iff]
      intro some_
      simpa [List.head_eq_getElem] using (visible (List.ne_nil_of_length_pos some_)).1
    rw [start, List.rdropWhile_eq_self_iff]
    exact fun some_ => by simpa using (visible some_).2

theorem trim_of_visible {s : String} (visible : ∀ c ∈ s.toList, isWhitespace c = false) :
    trim s = s :=
  trim_eq_self_iff.mpr fun _ => ⟨visible _ (List.head_mem _), visible _ (List.getLast_mem _)⟩

@[simp] theorem trim_trim (s : String) : trim (trim s) = trim s := by
  rw [trim_eq_self_iff]
  generalize kept : s.toList.dropWhile isWhitespace = l
  rw [toList_trim, kept]
  intro some_
  have start : l.rdropWhile isWhitespace <+: l := List.rdropWhile_prefix ..
  refine ⟨?_, by simpa using List.rdropWhile_last_not _ _ some_⟩
  rw [start.head some_]
  subst kept
  simpa using List.head_dropWhile_not isWhitespace (start.ne_nil some_)

theorem all_intercalate {p : Char → Bool} {sep : String} (joint : sep.toList.all p = true) :
    ∀ {parts : List String}, (∀ part ∈ parts, part.toList.all p = true) →
      (String.intercalate sep parts).toList.all p = true
  | [], _ => rfl
  | [part], all => by simpa using all part (List.mem_singleton_self _)
  | part :: next :: parts, all => by
    have later := all_intercalate joint fun q mem => all q (List.mem_cons_of_mem _ mem)
    rw [String.intercalate_cons_cons]
    simp only [String.toList_append, List.all_append, joint, all part List.mem_cons_self, later,
      Bool.and_self]

/-! ### Uniqueness of separated parts -/

theorem not_free_sep {sep : Char} {a b : String} : ¬ Free sep (a ++ String.singleton sep ++ b) := by
  simp [Free]

/-- The part before the first separator is determined. -/
theorem append_sep_inj {sep : Char} {a a' b b' : String} (ha : Free sep a) (ha' : Free sep a')
    (h : a ++ String.singleton sep ++ b = a' ++ String.singleton sep ++ b') :
    a = a' ∧ b = b' := by
  have left : splitOnce sep (a ++ String.singleton sep ++ b) = some (a, b) :=
    splitOnce_iff.mpr ⟨rfl, ha⟩
  have right : splitOnce sep (a ++ String.singleton sep ++ b) = some (a', b') :=
    splitOnce_iff.mpr ⟨h, ha'⟩
  rw [left] at right
  simpa using right

/-- Two parts without the separator are the only way to split their concatenation. -/
theorem append_sep_inj_of_free {sep : Char} {a a' b b' : String} (ha : Free sep a)
    (hb : Free sep b) (h : a' ++ String.singleton sep ++ b' = a ++ String.singleton sep ++ b) :
    a' = a ∧ b' = b := by
  have count := congrArg (fun s : String => s.toList.count sep) h
  simp only [String.toList_append, String.toList_singleton, List.count_append,
    List.count_singleton_self, List.count_eq_zero_of_not_mem ha,
    List.count_eq_zero_of_not_mem hb] at count
  have free : a'.toList.count sep = 0 := by omega
  exact append_sep_inj (List.count_eq_zero.mp free) ha h

private theorem append_sep_cancel {sep : Char} {x y c c' : List Char} (hc : sep ∉ c)
    (hc' : sep ∉ c') (h : x ++ sep :: c = y ++ sep :: c') : c = c' := by
  have reversed := congrArg List.reverse h
  simp only [List.reverse_append, List.reverse_cons, List.append_assoc, List.singleton_append]
    at reversed
  have left : splitChars sep (c.reverse ++ sep :: x.reverse) = some (c.reverse, x.reverse) :=
    splitChars_iff.mpr ⟨rfl, by simpa using hc⟩
  have right : splitChars sep (c.reverse ++ sep :: x.reverse) = some (c'.reverse, y.reverse) :=
    splitChars_iff.mpr ⟨reversed, by simpa using hc'⟩
  rw [left] at right
  simpa using (congrArg Prod.fst (Option.some.inj right))

/-- The part after the last separator is determined. -/
theorem append_sep_inj_right {sep : Char} {a a' b b' : String} (hb : Free sep b)
    (hb' : Free sep b')
    (h : a ++ String.singleton sep ++ b = a' ++ String.singleton sep ++ b') :
    a = a' ∧ b = b' := by
  have chars : a.toList ++ sep :: b.toList = a'.toList ++ sep :: b'.toList := by
    simpa using congrArg String.toList h
  have same : b = b' := String.toList_inj.mp (append_sep_cancel hb hb' chars)
  subst same
  simpa using h

/-! ### Order -/

/-- Text that starts with `p` and a separator lies between that start and the same
    start with a larger separator: the bounds of a scan over one key family. -/
theorem between_of_startsWith {p t : String} {c d : Char} (hcd : c < d) :
    p ++ String.singleton c ≤ p ++ String.singleton c ++ t ∧
      p ++ String.singleton c ++ t < p ++ String.singleton d := by
  have above : ∀ l : List Char, l ++ c :: t.toList < l ++ [d] := by
    intro l
    induction l with
    | nil => exact List.Lex.rel hcd
    | cons x xs ih => exact List.Lex.cons ih
  have notBelow : ∀ l r : List Char, ¬ l ++ r < l := by
    intro l r
    induction l with
    | nil => exact List.not_lt_nil _
    | cons x xs ih => simpa [List.cons_lt_cons_iff] using ih
  constructor
  · rw [← not_lt, String.lt_iff_toList_lt, String.toList_append]
    exact notBelow _ _
  · rw [String.lt_iff_toList_lt]
    simpa using above p.toList

end RustApi.Lib.Text
